import Deltaship.Server.Artifacts
import Deltaship.Server.Paths
import Deltaship.Server.Update

/-!
# Deltaship.Server.DiffNames

Whether the name of a diff says which versions it is between.

A name is put together from two versions with `-to-` between them, and taken apart
at every `-to-`.  A prerelease may have `-to-` in it, and then the name of one pair
of versions can be that of another.  A name is unambiguous exactly if it has only
the `-to-` between its versions.
-/

namespace Deltaship

open Lexical

/-- A version that `upload_diff` accepts. -/
structure AcceptedVersion (X : ServerCrates) (v : String) : Prop where
  valid : validateVersion v = .ok ()
  parses : (X.semver.parse v).isSome = true

/-- The only `-to-` of a diff's name is the one between its versions. -/
def Separable (fromVersion toVersion : String) : Prop :=
  Text.contains (fromVersion ++ "-to") "-to-" = false ∧ Text.contains toVersion "-to-" = false

instance (fromVersion toVersion : String) : Decidable (Separable fromVersion toVersion) :=
  inferInstanceAs (Decidable (_ ∧ _))

/-- The name of a diff is the one of no other diff of the application, and the
versions in an address of the diff are read back from it. -/
structure Unambiguous (X : ServerCrates) (fromVersion toVersion : String) (platform : Platform) :
    Prop where
  injective : ∀ dataDir appName fromVersion' toVersion' platform',
    AcceptedVersion X fromVersion' → AcceptedVersion X toVersion' →
    getDiffPath dataDir appName fromVersion' toVersion' platform' =
      getDiffPath dataDir appName fromVersion toVersion platform →
    fromVersion' = fromVersion ∧ toVersion' = toVersion ∧ platform' = platform
  recovered : parseDiffSpec (diffSpec fromVersion toVersion) = some (fromVersion, toVersion)

section Names

variable {X : ServerCrates} {f t f' t' : String} {platform platform' : Platform}

/-- The name of a diff, character by character. -/
theorem toList_diffSpec :
    (diffSpec f t).toList = f.toList ++ ("-to-".toList ++ t.toList) := by
  simp [diffSpec, ToString.toString]

/-- The name of its file, character by character. -/
theorem toList_diffFileName :
    (diffFileName f t platform).toList =
      (diffSpec f t).toList ++ ("-" ++ platform.asStr).toList := by
  simp [diffFileName, diffSpec, ToString.toString]

/-- The versions of an address are read back exactly if they can be told apart. -/
theorem parseDiffSpec_diffSpec_iff (hf : f.isEmpty = false) (ht : t.isEmpty = false) :
    parseDiffSpec (diffSpec f t) = some (f, t) ↔ Separable f t := by
  have hsplit : Text.split (diffSpec f t) "-to-" = [f, t] ↔ Separable f t := by
    obtain ⟨n, hn⟩ : ∃ n, (diffSpec f t).toList.length = n + 2 := by
      refine ⟨f.toList.length + t.toList.length + 2, ?_⟩
      rw [toList_diffSpec, List.length_append, List.length_append]
      show _ + (4 + _) = _
      omega
    have hpair := Text.splitAux_eq_pair_iff (a := f.toList) (b := t.toList) (n := n)
      (show "-to-".toList ≠ [] by decide)
    have hlists : [f, t] = [f.toList, t.toList].map String.ofList := by simp
    rw [Text.split, hn, toList_diffSpec, hlists,
      List.map_inj_right fun _ _ h => String.ofList_injective h, hpair, Separable, Text.contains,
      Text.contains, String.toList_append]
    rfl
  unfold parseDiffSpec
  rw [← hsplit]
  constructor
  · intro h
    split at h
    · next a b hab =>
        split at h
        · contradiction
        · obtain ⟨rfl, rfl⟩ := Prod.mk.inj (Option.some.inj h)
          exact hab
    · contradiction
  · intro h
    simp [h, hf, ht]

/-- If two pairs have the same name, and one can be told apart, they are the same
pair. -/
theorem diffSpec_inj (hsep : Separable f t)
    (hdigit : ∃ c rest, t.toList = c :: rest ∧ c.isDigit = true)
    (h : (diffSpec f' t').toList = (diffSpec f t).toList) : f' = f ∧ t' = t := by
  obtain ⟨hf, ht⟩ := hsep
  rw [Text.contains, String.toList_append, Bool.eq_false_iff, Ne, Text.hasInfix_iff] at hf
  rw [Text.contains, Bool.eq_false_iff, Ne, Text.hasInfix_iff] at ht
  rw [toList_diffSpec, toList_diffSpec] at h
  rcases List.append_eq_append_iff.mp h with ⟨middle, hfront, hrest⟩ | ⟨middle, hfront, hrest⟩
  · -- the separator of the first pair begins in `f`
    cases middle with
    | nil =>
        have hf' : f' = f := String.toList_inj.mp (by simpa using hfront.symm)
        exact ⟨hf', String.toList_inj.mp (by simpa using hrest)⟩
    | cons c cs =>
        refine absurd ?_ hf
        rw [hfront, List.append_assoc]
        refine List.infix_append_of_infix_right (List.IsPrefix.isInfix ?_)
        have hlong : c :: cs ++ ("-to-".toList ++ t.toList) =
            (c :: cs ++ "-to".toList) ++ ('-' :: t.toList) := by simp
        have hwhole : c :: cs ++ "-to".toList <+: "-to-".toList ++ t'.toList := by
          rw [hrest, hlong]
          exact List.prefix_append _ _
        have hfits : "-to-".toList.length ≤ (c :: cs ++ "-to".toList).length := by
          rw [List.length_append]
          show 4 ≤ cs.length + 1 + 3
          omega
        exact List.prefix_of_prefix_length_le (List.prefix_append _ _) hwhole hfits
  · -- it begins behind the separator of the second pair, or inside it
    rw [show "-to-".toList = ['-', 't', 'o', '-'] from rfl] at hrest ht
    rcases middle with _ | ⟨_, _ | ⟨_, _ | ⟨_, _ | ⟨_, rest⟩⟩⟩⟩
    · have hf' : f' = f := String.toList_inj.mp (by simpa using hfront)
      exact ⟨hf', String.toList_inj.mp (by simpa using hrest.symm)⟩
    · simp at hrest
    · simp at hrest
    · obtain ⟨c, rest, hc, hdigit⟩ := hdigit
      simp only [List.cons_append, List.nil_append, List.cons.injEq, hc] at hrest
      rw [hrest.2.2.2.2.1] at hdigit
      contradiction
    · simp only [List.cons_append, List.nil_append, List.cons.injEq] at hrest
      refine absurd ?_ ht
      rw [hrest.2.2.2.2]
      exact List.infix_append' _ _ _

/-- A relative name is known by the path that it makes. -/
theorem join_cancel {base a b : List Char} (ha : '/' ∉ a) (hb : '/' ∉ b)
    (h : join base a = join base b) : a = b := by
  unfold join at h
  rw [isAbsolute_of_not_mem ha, isAbsolute_of_not_mem hb] at h
  simp only [Bool.false_eq_true, if_false] at h
  split at h
  · exact List.append_cancel_left h
  · exact (List.cons.inj (List.append_cancel_left h)).2

/-- The name of a diff is a component of a path. -/
theorem slash_not_mem_diffFileName (hf : validateVersion f = .ok ())
    (ht : validateVersion t = .ok ()) :
    '/' ∉ (diffFileName f t platform).toList := by
  have hplatform : '/' ∉ ("-" ++ platform.asStr).toList := by cases platform <;> decide
  rw [toList_diffFileName, toList_diffSpec]
  simp only [List.mem_append, not_or]
  exact ⟨⟨(component_of_validateText hf).1, by decide, (component_of_validateText ht).1⟩, hplatform⟩

end Names

/-- The name of a diff between accepted versions is unambiguous exactly if it has
only one `-to-`. -/
theorem unambiguous_iff {X : ServerCrates} (hS : X.semver.StartsWithDigit) {f t : String}
    (hf : AcceptedVersion X f) (ht : AcceptedVersion X t) (platform : Platform) :
    Unambiguous X f t platform ↔ Separable f t := by
  have hrecovered := parseDiffSpec_diffSpec_iff (validateText_ok hf.valid).1
    (validateText_ok ht.valid).1
  refine ⟨fun h => hrecovered.mp h.recovered, fun hsep => ⟨?_, hrecovered.mpr hsep⟩⟩
  intro dataDir appName f' t' platform' hf' ht' hpath
  have hname := join_cancel (slash_not_mem_diffFileName hf'.valid ht'.valid)
    (slash_not_mem_diffFileName hf.valid ht.valid) hpath
  rw [toList_diffFileName, toList_diffFileName] at hname
  obtain ⟨hspec, hplatform⟩ := Platform.suffix_inj hname
  obtain ⟨v, hv⟩ := Option.isSome_iff_exists.mp ht.parses
  obtain ⟨rfl, rfl⟩ := diffSpec_inj hsep (hS hv) hspec
  exact ⟨rfl, rfl, hplatform⟩

/-! ### prereleases with `-to-` -/

/-- Two released versions. -/
theorem unambiguous_released : Unambiguous sampleServer "1.0.0" "1.1.0" .linuxX86_64 :=
  (unambiguous_iff (semverOf_startsWithDigit sampleVersions) ⟨by decide, by decide⟩
    ⟨by decide, by decide⟩ _).mpr (by decide)

/-- Versions whose prereleases look like part of the name of a diff. -/
def hyphenVersions : List Version :=
  [.new 1 0 0, ⟨2, 0, 0, "to-3.0.0", ""⟩, ⟨1, 0, 0, "to-2.0.0", ""⟩, .new 3 0 0]

/-- The diffs from 1.0.0 to 2.0.0-to-3.0.0 and from 1.0.0-to-2.0.0 to 3.0.0 have the
same name. -/
theorem diff_names_clash :
    ¬ ∀ (X : ServerCrates) (f t : String) (platform : Platform), X.semver.StartsWithDigit →
      AcceptedVersion X f → AcceptedVersion X t → Unambiguous X f t platform := by
  intro h
  have hclash := h ⟨semverOf hyphenVersions, sampleCrypto, fun _ => none⟩ "1.0.0" "2.0.0-to-3.0.0"
    .linuxX86_64 (semverOf_startsWithDigit hyphenVersions) ⟨by decide, by decide⟩
    ⟨by decide, by decide⟩
  have hsame := hclash.injective "/data".toList "app" "1.0.0-to-2.0.0" "3.0.0" .linuxX86_64
    ⟨by decide, by decide⟩ ⟨by decide, by decide⟩
    (by decide)
  exact absurd hsame.1 (by decide)

end Deltaship
