import Deltaship.Client.Authenticity
import Deltaship.Client.InstallPath
import Mathlib.Data.List.Find

/-!
# Deltaship.Client.PrivilegedPaths

Which paths are privileged, component by component.

`matched_privileged_path` compares texts: a path lies in a privileged directory if what is left
of it behind the directory's path is nothing or begins with a separator.  On the components of
the two paths this is the prefix order (`liesUnder_iff`), and for Windows entries it is so after
lower-casing, whatever the separators, the drive letter and the verbatim prefix.
-/

namespace Deltaship

/-! ## prefixes of paths -/

/-- What both checks do after their normalization. -/
def liesUnder (sep : Char) (candidate pre : List Char) : Bool :=
  match Text.stripPrefix pre candidate with
  | some rest => rest.isEmpty || rest.head? == some sep
  | none => false

section Under

variable {sep : Char} {candidate pre : List Char}

/-- The pieces of two texts with a separator between them. -/
theorem intercalate_append {xs ys : List (List Char)} (hx : xs ≠ []) (hy : ys ≠ []) :
    [sep].intercalate (xs ++ ys) = [sep].intercalate xs ++ sep :: [sep].intercalate ys := by
  induction xs with
  | nil => contradiction
  | cons x xs ih =>
      cases xs with
      | nil => simp [List.intercalate_cons_of_ne_nil hy]
      | cons y xs =>
          have hne : y :: xs ≠ [] := List.cons_ne_nil _ _
          rw [List.cons_append, List.intercalate_cons_of_ne_nil (by simp), ih hne,
            List.intercalate_cons_of_ne_nil hne]
          simp only [List.append_assoc, List.cons_append]

/-- A path is under a directory exactly if the directory's components come first in it. -/
theorem liesUnder_iff :
    liesUnder sep candidate pre = true ↔ pre.splitOn sep <+: candidate.splitOn sep := by
  have hstrip : liesUnder sep candidate pre = true ↔
      ∃ rest, candidate = pre ++ rest ∧ (rest = [] ∨ ∃ more, rest = sep :: more) := by
    unfold liesUnder Text.stripPrefix
    split
    · next rest hrest =>
        split at hrest
        · next hpre =>
            obtain ⟨more, rfl⟩ := List.isPrefixOf_iff_prefix.mp hpre
            rw [List.drop_left] at hrest
            obtain rfl := Option.some.inj hrest
            cases more <;> simp
        · contradiction
    · next hnone =>
        split at hnone
        · contradiction
        · next hpre =>
            refine ⟨fun h => by contradiction, ?_⟩
            rintro ⟨rest, rfl, -⟩
            exact absurd (List.isPrefixOf_iff_prefix.mpr (List.prefix_append pre rest)) hpre
  rw [hstrip]
  constructor
  · rintro ⟨rest, rfl, rfl | ⟨more, rfl⟩⟩
    · simp
    · rw [List.splitOn_append_cons_self]
      exact List.prefix_append _ _
  · rintro ⟨more, hmore⟩
    have hwhole : [sep].intercalate (candidate.splitOn sep) = candidate :=
      List.intercalate_splitOn sep
    rw [← hmore] at hwhole
    cases more with
    | nil =>
        rw [List.append_nil, List.intercalate_splitOn] at hwhole
        exact ⟨[], by simp [hwhole], .inl rfl⟩
    | cons c cs =>
        rw [intercalate_append (List.splitOn_ne_nil _ _) (by simp), List.intercalate_splitOn]
          at hwhole
        exact ⟨_, hwhole.symm, .inr ⟨_, rfl⟩⟩

/-- A separator in front gives an empty component in front. -/
theorem splitOn_cons_self (l : List Char) : (sep :: l).splitOn sep = [] :: l.splitOn sep :=
  List.splitOn_append_cons_self [] l

/-- The separator in front of both is no component of its own. -/
theorem liesUnder_cons_iff : liesUnder sep (sep :: candidate) (sep :: pre) = true ↔
    pre.splitOn sep <+: candidate.splitOn sep := by
  rw [liesUnder_iff, splitOn_cons_self, splitOn_cons_self, List.cons_prefix_cons]
  simp

end Under

/-! ## Windows paths -/

/-- Both separators of Windows. -/
def isSeparator (c : Char) : Bool := c == '/' || c == '\\'

/-- Write `\` for every separator. -/
def backslash (c : Char) : Char := if c = '/' then '\\' else c

/-- The components of what stands behind the drive in a Windows path. -/
def windowsComponents (rest : List Char) : List (List Char) := (rest.map backslash).splitOn '\\'

/-! ## the entries -/

/- An entry in the form of a Windows path is compared regardless of case, and with either separator.
Such comparisons are those of folded components, which is how the general law is stated. -/

/-- Whether an entry is compared as a Windows path. -/
def isWindowsEntry (entry : String) : Bool :=
  entry.toList.contains '\\' || entry.toList.contains ':'

/-- A Windows entry begins with the drive C and a backslash. -/
theorem toList_windowsEntry : ∀ entry ∈ privilegedPaths, isWindowsEntry entry = true →
    entry.toList = 'C' :: ':' :: '\\' :: entry.toList.drop 3 := by
  simp [privilegedPaths, isWindowsEntry]

/-- Behind its drive it is one ASCII component, the same in both spellings of separators. -/
theorem windowsEntry_name : ∀ entry ∈ privilegedPaths, isWindowsEntry entry = true →
    (entry.toList.drop 3).all Text.isAscii = true ∧
      (entry.toList.drop 3).splitOn '\\' = [entry.toList.drop 3] ∧
      (entry.toList.drop 3).map backslash = entry.toList.drop 3 ∧
      Text.asciiLower (String.ofList (entry.toList.drop 3)) ∈
        ["windows", "program files", "program files (x86)"] := by
  simp [privilegedPaths, isWindowsEntry, List.splitOn_eq_singleton, backslash, Text.asciiLower,
    Text.isAscii]

theorem toList_unixEntry : ∀ entry ∈ privilegedPaths, isWindowsEntry entry = false →
    entry.toList = '/' :: entry.toList.drop 1 := by
  simp [privilegedPaths, isWindowsEntry]

/-- The components of an entry in the form of a Unix path. -/
def unixComponents (entry : String) : List (List Char) := (entry.toList.drop 1).splitOn '/'

section Windows

variable {h : Host} {rest : List Char}

/-- A text, lower-cased and with `\` for every separator. -/
def lowered (h : Host) (l : List Char) : List Char :=
  (h.toLowercase (String.ofList l)).toList.map backslash

/-- A component, lower-cased. -/
def lower (h : Host) (l : List Char) : List Char := (h.toLowercase (String.ofList l)).toList

theorem isSeparator_iff {c : Char} : isSeparator c = true ↔ c = '/' ∨ c = '\\' := by
  simp [isSeparator]

theorem backslash_of_isSeparator {c : Char} (hc : isSeparator c = true) : backslash c = '\\' := by
  rcases isSeparator_iff.mp hc with rfl | rfl <;> rfl

theorem backslash_of_not_isSeparator {c : Char} (hc : isSeparator c = false) : backslash c = c := by
  refine if_neg ?_
  rintro rfl
  contradiction

theorem map_backslash_of_none (hrest : ∀ c ∈ rest, isSeparator c = false) :
    rest.map backslash = rest := by
  rw [List.map_congr_left fun c hc => backslash_of_not_isSeparator (hrest c hc), List.map_id']

/-- Induction over the separators of a path. -/
theorem separator_induction {motive : List Char → Prop}
    (plain : ∀ l, (∀ c ∈ l, isSeparator c = false) → motive l)
    (split : ∀ a s b, isSeparator s = true → motive a → motive b → motive (a ++ s :: b))
    (l : List Char) : motive l := by
  induction hlength : l.length using Nat.strongRecOn generalizing l with
  | ind n ih =>
      subst hlength
      by_cases hex : ∃ s ∈ l, isSeparator s = true
      · obtain ⟨s, hs, hsep⟩ := hex
        obtain ⟨a, b, rfl⟩ := List.append_of_mem hs
        exact split a s b hsep (ih a.length (by simp) a rfl) (ih b.length (by simp; omega) b rfl)
      · exact plain l fun c hc => by simpa using fun hsep => hex ⟨c, hc, hsep⟩

/-- A component has none of the separators in it. -/
theorem not_mem_of_plain {l : List Char} (hl : ∀ c ∈ l, isSeparator c = false) {c : Char}
    (hc : isSeparator c = true) : c ∉ l := by
  intro hmem
  rw [hl c hmem] at hc
  contradiction

/-- Without a `\` in the path it is only the `/` that separates. -/
theorem windowsComponents_of_plain (rest : List Char) (hplain : '\\' ∉ rest) :
    windowsComponents rest = rest.splitOn '/' := by
  unfold windowsComponents
  induction rest using separator_induction with
  | plain l hl =>
      rw [map_backslash_of_none hl, List.splitOn_eq_singleton hplain,
        List.splitOn_eq_singleton (not_mem_of_plain hl rfl)]
  | split a s b hs iha ihb =>
      simp only [List.mem_append, List.mem_cons, not_or] at hplain
      obtain ⟨ha, hne, hb⟩ := hplain
      obtain rfl : s = '/' := (isSeparator_iff.mp hs).resolve_right (Ne.symm hne)
      rw [List.map_append, List.map_cons, backslash_of_isSeparator hs,
        List.splitOn_append_cons_self, List.splitOn_append_cons_self, iha ha, ihb hb]

theorem lowered_append_cons (hlower : h.Lowercases) {a b : List Char} {s : Char}
    (hs : isSeparator s = true) : lowered h (a ++ s :: b) = lowered h a ++ '\\' :: lowered h b := by
  unfold lowered
  rw [hlower.apart a b s (.inr (isSeparator_iff.mp hs)), String.toList_append, String.toList_append,
    List.map_append, List.map_append]
  simp [backslash_of_isSeparator hs]

theorem lowered_of_none (hlower : h.Lowercases) (hrest : ∀ c ∈ rest, isSeparator c = false) :
    lowered h rest = lower h rest ∧ '\\' ∉ lower h rest := by
  have hnone : ∀ c ∈ lower h rest, isSeparator c = false := by
    intro c hc
    by_contra hsep
    have hsep : isSeparator c = true := by simpa using hsep
    have hmem := hlower.separators _ c (isSeparator_iff.mp hsep) hc
    rw [String.toList_ofList] at hmem
    rw [hrest c hmem] at hsep
    contradiction
  refine ⟨map_backslash_of_none hnone, fun hmem => ?_⟩
  have hsep := hnone _ hmem
  contradiction

/-- The components of a lower-cased path are its components, lower-cased. -/
theorem splitOn_lowered (hlower : h.Lowercases) (rest : List Char) :
    (lowered h rest).splitOn '\\' = (windowsComponents rest).map (lower h) := by
  unfold windowsComponents
  induction rest using separator_induction with
  | plain l hl =>
      obtain ⟨hsame, hnot⟩ := lowered_of_none hlower hl
      rw [hsame, List.splitOn_eq_singleton hnot, map_backslash_of_none hl,
        List.splitOn_eq_singleton (not_mem_of_plain hl rfl)]
      rfl
  | split a s b hs iha ihb =>
      rw [lowered_append_cons hlower hs, List.splitOn_append_cons_self, List.map_append,
        List.map_cons, backslash_of_isSeparator hs, List.splitOn_append_cons_self,
        List.map_append, iha, ihb]

/-- What is left of a path when neither the case of ASCII letters nor the separators count. -/
def fold (c : Char) : Char := backslash c.toLower

/-- Lower case and separators do not get in each other's way. -/
theorem map_toLower_map_backslash (l : List Char) :
    (l.map Char.toLower).map backslash = l.map fold := by
  rw [List.map_map]
  rfl

/-- What is lower case already is not changed by lowering it. -/
theorem lowered_map_toLower (hlower : h.Lowercases) (l : List Char) :
    lowered h (l.map Char.toLower) = lowered h l := by
  have hcase := hlower.caseless (String.ofList l)
  rw [Text.asciiLower, String.toList_ofList] at hcase
  unfold lowered
  rw [hcase]

/-- Paths that differ only so are lower-cased alike. -/
theorem lowered_congr (hlower : h.Lowercases) {l l' : List Char}
    (hsame : l.map fold = l'.map fold) :
    lowered h l = lowered h l' := by
  have hpieces : ∀ l : List Char, lowered h l =
      ['\\'].intercalate (((l.map fold).splitOn '\\').map (lower h)) := by
    intro l
    rw [← map_toLower_map_backslash, ← lowered_map_toLower hlower, ← windowsComponents.eq_def,
      ← splitOn_lowered hlower, List.intercalate_splitOn]
  rw [hpieces l, hpieces l', hsame]

theorem isAscii_of_isAlpha {x : Char} (hx : x.isAlpha = true) : Text.isAscii x = true := by
  have hx := Text.isAlpha_iff.mp hx
  simp only [Text.isAscii, decide_eq_true_eq]
  omega

/-- A drive letter in lower case is a letter. -/
theorem isAlpha_toLower {x : Char} (hx : x.isAlpha = true) : x.toLower.isAlpha = true := by
  have hx := Text.isAlpha_iff.mp hx
  rw [Text.isAlpha_iff]
  rcases Text.toLower_cases x with ⟨hlow, hhigh, hlower⟩ | ⟨-, hsame⟩
  · omega
  · rw [hsame]
    exact hx

theorem backslash_toLower {x : Char} (hx : x.isAlpha = true) : backslash x.toLower = x.toLower := by
  refine if_neg fun hslash => ?_
  have halpha := isAlpha_toLower hx
  rw [hslash] at halpha
  contradiction

/-- A drive and a separator. -/
theorem lowered_drive (hlower : h.Lowercases) {x s : Char} (hx : x.isAlpha = true)
    (hs : isSeparator s = true) (rest : List Char) :
    lowered h (x :: ':' :: s :: rest) = x.toLower :: ':' :: '\\' :: lowered h rest := by
  have hascii : ∀ c ∈ (String.ofList [x, ':']).toList, Text.isAscii c = true := by
    rw [String.toList_ofList]
    simp only [List.mem_cons, List.not_mem_nil, or_false]
    rintro c (rfl | rfl)
    · exact isAscii_of_isAlpha hx
    · rfl
  have hfront : lowered h [x, ':'] = [x.toLower, ':'] := by
    unfold lowered
    rw [hlower.ascii _ hascii, Text.asciiLower, String.toList_ofList, String.toList_ofList,
      List.map_cons, List.map_cons, List.map_cons, backslash_toLower hx]
    rfl
  calc lowered h (x :: ':' :: s :: rest)
      = lowered h ([x, ':'] ++ s :: rest) := rfl
    _ = lowered h [x, ':'] ++ '\\' :: lowered h rest := lowered_append_cons hlower hs
    _ = x.toLower :: ':' :: '\\' :: lowered h rest := by rw [hfront]; rfl

/-- The lower-cased drive letter does not begin a verbatim prefix, nor `UNC`. -/
theorem toLower_ne {x : Char} (hx : x.isAlpha = true) : x.toLower ≠ '\\' ∧ x.toLower ≠ 'U' := by
  have hlow : 97 ≤ x.toLower.toNat := by
    have hx := Text.isAlpha_iff.mp hx
    rcases Text.toLower_cases x with ⟨hlow, -, hlower⟩ | ⟨hnot, hsame⟩
    · omega
    · rw [hsame]
      omega
  constructor
  · intro heq
    rw [heq] at hlow
    contradiction
  · intro heq
    rw [heq] at hlow
    contradiction

end Windows

/-! ## stripping -/

/-- The verbatim prefix. -/
def verbatim : List Char := ['\\', '\\', '?', '\\']

/-- A text without a backslash in front has no verbatim prefix. -/
theorem stripVerbatimPrefix_of_ne {c : Char} {rest : List Char} (hc : c ≠ '\\') :
    stripVerbatimPrefix (c :: rest) = c :: rest := by
  simp [stripVerbatimPrefix, Text.stripPrefix, hc.symm]

/-- A single separator is no verbatim prefix. -/
theorem stripVerbatimPrefix_of_single {rest : List Char} (hrest : rest.head? ≠ some '\\') :
    stripVerbatimPrefix ('\\' :: rest) = '\\' :: rest := by
  cases rest with
  | nil => rfl
  | cons c rest =>
      have hc : '\\' ≠ c := fun heq => hrest (by rw [heq]; rfl)
      simp [stripVerbatimPrefix, Text.stripPrefix, hc]

theorem stripVerbatimPrefix_verbatim {c : Char} {rest : List Char} (hc : c ≠ 'U') :
    stripVerbatimPrefix (verbatim ++ c :: rest) = c :: rest := by
  simp [stripVerbatimPrefix, verbatim, Text.stripPrefix, hc.symm]

theorem stripDrive_drive {x : Char} {rest : List Char} (hx : x.isAlpha = true) :
    stripDrive (x :: ':' :: rest) = rest := by
  simp [stripDrive, hx]

/-- A text without one stays as it is. -/
theorem stripDrive_separator (rest : List Char) : stripDrive ('\\' :: rest) = '\\' :: rest := by
  unfold stripDrive
  split
  · next heq =>
      obtain ⟨rfl, rfl⟩ := List.cons.inj heq
      rfl
  · rfl

/-! ## one entry -/

/- How a path compares with a single entry, for paths with a drive, paths from the root and others.
-/

/-- Whether a path falls under an entry. -/
def coveredBy (h : Host) (candidate entry : String) : Bool :=
  if isWindowsEntry entry then windowsPathUnder h candidate entry
  else unixPathUnder candidate.toList entry.toList

/-- A path is privileged if one of the entries covers it. -/
theorem isSome_matchedPrivilegedPath {h : Host} {candidate : String} :
    (matchedPrivilegedPath h candidate).isSome = true ↔
      ∃ entry ∈ privilegedPaths, coveredBy h candidate entry = true :=
  List.find?_isSome

/-- An entry from the root covers no path that does not begin there. -/
theorem unixPathUnder_of_head {l pre : List Char} (hl : l.head? ≠ some '/') :
    unixPathUnder l ('/' :: pre) = false := by
  have hnot : ¬ ('/' :: pre).isPrefixOf l = true := by
    intro hpre
    obtain ⟨more, rfl⟩ := List.isPrefixOf_iff_prefix.mp hpre
    exact hl rfl
  simp [unixPathUnder, Text.stripPrefix, hnot]

section Entries

variable {h : Host} (hlower : h.Lowercases)
include hlower

theorem lowered_nil : lowered h [] = [] := by
  rw [lowered, hlower.ascii _ (by simp)]
  rfl

/-- A verbatim prefix is not changed by lowering. -/
theorem lowered_verbatim (l : List Char) : lowered h (verbatim ++ l) = verbatim ++ lowered h l := by
  have hmark : lowered h ['?'] = ['?'] := by
    rw [lowered, hlower.ascii _ (by simp [Text.isAscii])]
    rfl
  have hsep : isSeparator '\\' = true := rfl
  have hpieces : verbatim ++ l = [] ++ '\\' :: ([] ++ '\\' :: (['?'] ++ '\\' :: l)) := rfl
  rw [hpieces, lowered_append_cons hlower hsep, lowered_append_cons hlower hsep,
    lowered_append_cons hlower hsep, lowered_nil hlower, hmark]
  simp only [verbatim, List.nil_append, List.cons_append]

/-- Without its drive, a path lies under an entry as under the entry's name. -/
theorem windowsPathUnder_eq {entry : String} (hmem : entry ∈ privilegedPaths)
    (hentry : isWindowsEntry entry = true) (l : List Char) :
    windowsPathUnder h (String.ofList l) entry =
      liesUnder '\\' (stripDrive (stripVerbatimPrefix (lowered h l)))
        ('\\' :: lowered h (entry.toList.drop 3)) := by
  have hpre : stripDrive (lowered h entry.toList) = '\\' :: lowered h (entry.toList.drop 3) := by
    rw [toList_windowsEntry entry hmem hentry, lowered_drive hlower (by decide) (by decide),
      stripDrive_drive (by decide)]
    rfl
  have hwhole : lowered h entry.toList = (h.toLowercase entry).toList.map backslash := by
    rw [lowered, String.ofList_toList]
  rw [← hpre, hwhole]
  rfl

/-- A path with a drive falls under Windows entries only, whatever the letter. -/
theorem coveredBy_drive {entry : String} (hmem : entry ∈ privilegedPaths) {pre rest : List Char}
    {x s : Char} (hpre : pre = [] ∨ pre = verbatim) (hx : x.isAlpha = true)
    (hs : isSeparator s = true) :
    coveredBy h (String.ofList (pre ++ x :: ':' :: s :: rest)) entry =
      (isWindowsEntry entry &&
        liesUnder '\\' ('\\' :: lowered h rest) ('\\' :: lowered h (entry.toList.drop 3))) := by
  unfold coveredBy
  cases hentry : isWindowsEntry entry with
  | true =>
      have hdrive := lowered_drive hlower hx hs rest
      have hplain : stripDrive (stripVerbatimPrefix
          (lowered h (pre ++ x :: ':' :: s :: rest))) = '\\' :: lowered h rest := by
        rcases hpre with rfl | rfl
        · rw [List.nil_append, hdrive, stripVerbatimPrefix_of_ne (toLower_ne hx).1,
            stripDrive_drive (isAlpha_toLower hx)]
        · rw [lowered_verbatim hlower, hdrive, stripVerbatimPrefix_verbatim (toLower_ne hx).2,
            stripDrive_drive (isAlpha_toLower hx)]
      rw [if_pos rfl, windowsPathUnder_eq hlower hmem hentry, hplain, Bool.true_and]
  | false =>
      have hhead : (pre ++ x :: ':' :: s :: rest).head? ≠ some '/' := by
        rcases hpre with rfl | rfl
        · rintro heq
          obtain rfl := Option.some.inj heq
          contradiction
        · simp [verbatim]
      rw [if_neg Bool.false_ne_true, toList_unixEntry entry hmem hentry, String.toList_ofList,
        Bool.false_and]
      exact unixPathUnder_of_head hhead

/-- The usual spelling. -/
theorem coveredBy_backslash {entry : String} (hmem : entry ∈ privilegedPaths) {x : Char}
    (hx : x.isAlpha = true) (rest : List Char) :
    coveredBy h (String.ofList (x :: ':' :: '\\' :: rest)) entry =
      (isWindowsEntry entry &&
        liesUnder '\\' ('\\' :: lowered h rest) ('\\' :: lowered h (entry.toList.drop 3))) := by
  have hdrive : coveredBy h (String.ofList ([] ++ x :: ':' :: '\\' :: rest)) entry = _ :=
    coveredBy_drive hlower hmem (.inl rfl) hx rfl
  rwa [List.nil_append] at hdrive

/-- Behind a single `/` no second separator comes in by lower-casing. -/
theorem head?_lowered {rest : List Char} (hplain : '\\' ∉ rest) (hfirst : rest.head? ≠ some '/') :
    (lowered h rest).head? ≠ some '\\' := by
  intro hhead
  obtain ⟨more, hmore⟩ : ∃ more, lowered h rest = '\\' :: more := by
    cases hl : lowered h rest with
    | nil => rw [hl] at hhead; contradiction
    | cons c more => rw [hl] at hhead; exact ⟨more, by rw [Option.some.inj hhead]⟩
  have hsplit := splitOn_lowered hlower rest
  rw [hmore, windowsComponents_of_plain rest hplain, splitOn_cons_self] at hsplit
  cases hcomps : rest.splitOn '/' with
  | nil => exact absurd hcomps (List.splitOn_ne_nil _ _)
  | cons first others =>
      rw [hcomps, List.map_cons] at hsplit
      have hempty : first = [] := by
        by_contra hne
        refine hlower.ne_empty (String.ofList first) ?_ ?_
        · simpa using hne
        · exact String.toList_eq_nil_iff.mp (List.cons.inj hsplit).1.symm
      have hwhole : ['/'].intercalate (rest.splitOn '/') = rest := List.intercalate_splitOn '/'
      rw [hcomps, hempty] at hwhole
      cases others with
      | nil =>
          obtain rfl : rest = [] := hwhole.symm
          rw [lowered_nil hlower] at hmore
          contradiction
      | cons second others =>
          rw [List.intercalate_cons_of_ne_nil (by simp), List.nil_append] at hwhole
          rw [← hwhole] at hfirst
          exact hfirst rfl

/-- A path from the root falls under a Windows entry only through its first component. -/
theorem coveredBy_rooted {entry : String} (hmem : entry ∈ privilegedPaths) {rest : List Char}
    (hplain : '\\' ∉ rest) (hfirst : rest.head? ≠ some '/')
    (hname : ∀ first, (rest.splitOn '/').head? = some first →
      h.toLowercase (String.ofList first) ∉ ["windows", "program files", "program files (x86)"]) :
    coveredBy h (String.ofList ('/' :: rest)) entry = true ↔
      isWindowsEntry entry = false ∧ unixComponents entry <+: rest.splitOn '/' := by
  unfold coveredBy
  cases hentry : isWindowsEntry entry with
  | true =>
      have hroot : lowered h ('/' :: rest) = '\\' :: lowered h rest := by
        rw [show '/' :: rest = [] ++ '/' :: rest from rfl, lowered_append_cons hlower rfl,
          lowered_nil hlower, List.nil_append]
      rw [if_pos rfl, windowsPathUnder_eq hlower hmem hentry, hroot,
        stripVerbatimPrefix_of_single (head?_lowered hlower hplain hfirst), stripDrive_separator,
        liesUnder_cons_iff, splitOn_lowered hlower, splitOn_lowered hlower,
        windowsComponents_of_plain rest hplain]
      obtain ⟨hascii, hsingle, hmap, hlisted⟩ := windowsEntry_name entry hmem hentry
      have hentries : windowsComponents (entry.toList.drop 3) = [entry.toList.drop 3] := by
        rw [windowsComponents, hmap, hsingle]
      rw [hentries]
      constructor
      · intro hprefix
        cases hsplit : rest.splitOn '/' with
        | nil => exact absurd hsplit (List.splitOn_ne_nil _ _)
        | cons first more =>
            rw [hsplit, List.map_cons, List.map_cons, List.cons_prefix_cons] at hprefix
            have hsame : h.toLowercase (String.ofList (entry.toList.drop 3)) =
                h.toLowercase (String.ofList first) := String.toList_injective hprefix.1
            refine absurd ?_ (hname first (by rw [hsplit]; rfl))
            rw [← hsame, hlower.ascii _ (by simpa using hascii)]
            exact hlisted
      · intro hfalse
        exact absurd hfalse.1 (by simp)
  | false =>
      rw [if_neg Bool.false_ne_true, toList_unixEntry entry hmem hentry, String.toList_ofList]
      show liesUnder '/' ('/' :: rest) ('/' :: entry.toList.drop 1) = true ↔ _
      rw [liesUnder_cons_iff]
      exact (and_iff_right rfl).symm

end Entries

/-! ## the whole list -/

/-- Whether the components of a path are, lower-cased, in the directory of some Windows entry. -/
def InWindowsEntry (h : Host) (rest : List Char) : Prop :=
  ∃ entry ∈ privilegedPaths, isWindowsEntry entry = true ∧
    (windowsComponents (entry.toList.drop 3)).map (lower h) <+:
      (windowsComponents rest).map (lower h)

/-- Privileged paths are matched by components.  A path from the root without `\`, whose first
component is not empty and names no Windows directory, matches exactly if the components of a
Unix entry come first in it.  A path with a drive matches exactly if its lower-cased components
begin with those of a Windows entry, and the answer is the same in another case of ASCII letters,
with other separators, on another drive and behind the verbatim prefix. -/
theorem matchedPrivilegedPath_components {h : Host} (hlower : h.Lowercases) :
    (∀ rest : List Char, '\\' ∉ rest → rest.head? ≠ some '/' →
      (∀ first, (rest.splitOn '/').head? = some first →
        h.toLowercase (String.ofList first) ∉
          ["windows", "program files", "program files (x86)"]) →
      ((matchedPrivilegedPath h (String.ofList ('/' :: rest))).isSome = true ↔
        ∃ entry ∈ privilegedPaths, isWindowsEntry entry = false ∧
          unixComponents entry <+: rest.splitOn '/')) ∧
    (∀ (x : Char) (rest : List Char), x.isAlpha = true →
      ((matchedPrivilegedPath h (String.ofList (x :: ':' :: '\\' :: rest))).isSome = true ↔
        InWindowsEntry h rest) ∧
      ∀ (pre : List Char) (y s : Char) (rest' : List Char), pre = [] ∨ pre = verbatim →
        y.isAlpha = true → isSeparator s = true → rest'.map fold = rest.map fold →
        matchedPrivilegedPath h (String.ofList (pre ++ y :: ':' :: s :: rest')) =
          matchedPrivilegedPath h (String.ofList (x :: ':' :: '\\' :: rest))) := by
  refine ⟨fun rest hplain hfirst hname => ?_, fun x rest hx => ⟨?_, ?_⟩⟩
  · rw [isSome_matchedPrivilegedPath]
    exact exists_congr fun entry => and_congr_right fun hmem =>
      coveredBy_rooted hlower hmem hplain hfirst hname
  · rw [isSome_matchedPrivilegedPath]
    refine exists_congr fun entry => and_congr_right fun hmem => ?_
    have hdrive := coveredBy_backslash hlower hmem hx rest
    rw [hdrive, Bool.and_eq_true, liesUnder_cons_iff, splitOn_lowered hlower,
      splitOn_lowered hlower]
  · intro pre y s rest' hpre hy hs hsame
    refine List.find?_congr fun entry hmem => ?_
    have hdrive := coveredBy_backslash hlower hmem hx rest
    show coveredBy h _ entry = coveredBy h _ entry
    rw [hdrive, coveredBy_drive hlower hmem hpre hy hs, lowered_congr hlower hsame]

/-- The sample host lower-cases ASCII letters, and three paths. -/
theorem matchedPrivilegedPath_components_sample :
    (matchedPrivilegedPath sampleHost (String.ofList ('/' :: "var/run/app".toList))).isSome = true ∧
    (matchedPrivilegedPath sampleHost
      (String.ofList ('D' :: ':' :: '\\' :: "Windows\\app.exe".toList))).isSome = true ∧
    matchedPrivilegedPath sampleHost
        (String.ofList (verbatim ++ 'c' :: ':' :: '/' :: "WINDOWS/app.exe".toList)) =
      matchedPrivilegedPath sampleHost
        (String.ofList ('D' :: ':' :: '\\' :: "Windows\\app.exe".toList)) := by
  obtain ⟨hunix, hwindows⟩ :=
    matchedPrivilegedPath_components (Host.lowercases_of_asciiLower (h := sampleHost) rfl)
  refine ⟨(hunix _ (by decide) (by decide) ?_).mpr ?_,
    (hwindows 'D' _ (by decide)).1.mpr ?_,
    (hwindows 'D' _ (by decide)).2 verbatim 'c' '/' _ (.inr rfl) (by decide) rfl
      (by decide)⟩
  · intro first hfirst
    rw [show ("var/run/app".toList.splitOn '/').head? = some "var".toList from by decide]
      at hfirst
    obtain rfl := Option.some.inj hfirst
    decide
  · exact ⟨"/var/run", by decide, by decide, by decide⟩
  · exact ⟨"C:\\Windows", by decide, by decide, by decide⟩

end Deltaship
