import Deltaship.Lib.Lexical
import Deltaship.Server.Storage

/-!
# Deltaship.Server.Paths

The paths that the keys of the store stand for, and what the checks on names say
about them.

Every name that is accepted is one component of a path, except `.`, which is none:
the directory of the application `.` is the directory of all applications.
-/

namespace Deltaship

open Lexical

/-! ## directories -/

section Directories

variable (dataDir : List Char)

/-- `data_dir.join("apps")`. -/
def appsDir : List Char := join dataDir "apps".toList

/-- `data_dir.join("apps").join(app_name)`. -/
def appDir (appName : String) : List Char := join (appsDir dataDir) appName.toList

/-- The directory of all versions of an application. -/
def versionsDir (appName : String) : List Char := join (appDir dataDir appName) "versions".toList

/-- The directory of one version. -/
def versionDir (p : VersionPath) : List Char :=
  join (versionsDir dataDir p.appName) p.version.toList

/-- The directory of all diffs of an application. -/
def diffsDir (appName : String) : List Char := join (appDir dataDir appName) "diffs".toList

/-- `get_diff_path`. -/
def getDiffPath (appName fromVersion toVersion : String) (platform : Platform) : List Char :=
  join (diffsDir dataDir appName) (diffFileName fromVersion toVersion platform).toList

end Directories

/-! ## names -/

section Names

variable {allowed : Char → Bool} {n m : String} {base : List Char}

/-- An accepted name has no separator and does not lead back. -/
theorem component_of_validateText (h : validateText allowed n = .ok ()) :
    '/' ∉ n.toList ∧ n.toList ≠ [] ∧ n.toList ≠ ['.', '.'] := by
  obtain ⟨hempty, -, hdots, hslash, -⟩ := validateText_ok h
  refine ⟨hslash, fun hnil => ?_, fun hback => ?_⟩
  · rw [String.toList_eq_nil_iff.mp hnil] at hempty
    contradiction
  · rw [Text.contains, hback] at hdots
    contradiction

/-- The name is one dot exactly if its only character is. -/
theorem toList_eq_dot : n.toList = ['.'] ↔ n = "." :=
  ⟨fun h => String.toList_inj.mp h, fun h => by rw [h]; rfl⟩

/-- An accepted name other than `.` is one component. -/
theorem normalize_join_name (h : validateText allowed n = .ok ()) (hdot : n ≠ ".") :
    normalize (join base n.toList) =
      ⟨(normalize base).absolute, (normalize base).components ++ [n.toList]⟩ := by
  obtain ⟨hslash, hnil, hback⟩ := component_of_validateText h
  exact normalize_join_of_ne hslash hnil (fun h => hdot (toList_eq_dot.mp h)) hback

/-- A name that was checked leads one level down, or nowhere. -/
theorem contains_join_name (h : validateText allowed n = .ok ()) :
    (normalize base).Contains (normalize (join base n.toList)) := by
  obtain ⟨hslash, -, hback⟩ := component_of_validateText h
  exact contains_join hslash hback

/-- An accepted name stands for a direct child exactly if it is not `.`. -/
theorem child_join_iff (h : validateText allowed n = .ok ()) :
    (normalize base).Child (normalize (join base n.toList)) ↔ n ≠ "." := by
  constructor
  · rintro hchild rfl
    rw [show ".".toList = ['.'] from rfl, normalize_join_dot] at hchild
    exact Path.not_child_self _ hchild
  · intro hdot
    rw [normalize_join_name h hdot]
    exact ⟨rfl, _, rfl⟩

/-- Of two names, only `.` contains the other. -/
theorem contains_join_join_iff (hn : validateText allowed n = .ok ())
    (hm : validateText allowed m = .ok ()) (hne : m ≠ n) :
    (normalize (join base n.toList)).Contains (normalize (join base m.toList)) ↔ n = "." := by
  constructor
  · intro hcontains
    by_contra hdot
    rw [normalize_join_name hn hdot] at hcontains
    by_cases hm' : m = "."
    · rw [hm', show ".".toList = ['.'] from rfl, normalize_join_dot] at hcontains
      have hlength := hcontains.2.length_le
      rw [List.length_append, List.length_singleton] at hlength
      omega
    · rw [normalize_join_name hm hm'] at hcontains
      have heq := hcontains.2.eq_of_length (by simp)
      exact hne (String.toList_inj.mp (List.singleton_inj.mp (List.append_cancel_left heq)).symm)
  · rintro rfl
    rw [show ".".toList = ['.'] from rfl, normalize_join_dot]
    exact contains_join_name hm

/-- Different names stand for different paths. -/
theorem normalize_join_inj (hn : validateText allowed n = .ok ())
    (hm : validateText allowed m = .ok ())
    (h : normalize (join base n.toList) = normalize (join base m.toList)) : n = m := by
  by_contra hne
  have hnm : (normalize (join base n.toList)).Contains (normalize (join base m.toList)) :=
    h ▸ Path.Contains.refl _
  have hmn : (normalize (join base m.toList)).Contains (normalize (join base n.toList)) :=
    h ▸ Path.Contains.refl _
  rw [contains_join_join_iff hn hm (Ne.symm hne)] at hnm
  rw [contains_join_join_iff hm hn hne] at hmn
  exact hne (hnm.trans hmn.symm)

end Names

/-! ## the names of applications and versions -/

/-- The directory of an accepted application name is a direct child of `apps`,
and apart from that of any other name, exactly if the names are not `.`; the
directory of an accepted version is a direct child of `versions`, and different
from that of any other version, exactly if the version is not `.`. -/
theorem names_are_components (dataDir : List Char) {n : String} (hn : validateName n = .ok ()) :
    ((normalize (appsDir dataDir)).Child (normalize (appDir dataDir n)) ↔ n ≠ ".") ∧
    (∀ m, validateName m = .ok () → m ≠ n →
      ((¬ (normalize (appDir dataDir n)).Contains (normalize (appDir dataDir m)) ∧
        ¬ (normalize (appDir dataDir m)).Contains (normalize (appDir dataDir n))) ↔
        n ≠ "." ∧ m ≠ ".")) ∧
    ∀ v, validateVersion v = .ok () →
      (((normalize (versionsDir dataDir n)).Child (normalize (versionDir dataDir ⟨n, v⟩)) ∧
        ∀ w, validateVersion w = .ok () → w ≠ v →
          normalize (versionDir dataDir ⟨n, w⟩) ≠ normalize (versionDir dataDir ⟨n, v⟩)) ↔
        v ≠ ".") := by
  refine ⟨child_join_iff hn, fun m hm hne => ?_, fun v hv => ⟨fun h => ?_, fun hdot => ⟨?_, ?_⟩⟩⟩
  · unfold appDir
    rw [contains_join_join_iff hn hm hne, contains_join_join_iff hm hn (Ne.symm hne)]
  · exact (child_join_iff hv).mp h.1
  · exact (child_join_iff hv).mpr hdot
  · intro w hw hne heq
    exact hne (normalize_join_inj hw hv heq)

/-- The name `app`, under `/data`. -/
theorem names_are_components_app :
    (normalize (appsDir "/data".toList)).Child (normalize (appDir "/data".toList "app")) :=
  (names_are_components "/data".toList (by decide)).1.mpr (by decide)

/-- The name `.` is accepted, and stands for the directory of all applications. -/
theorem dot_is_no_component :
    ¬ ∀ (dataDir : List Char) (n : String), validateName n = .ok () →
      (normalize (appsDir dataDir)).Child (normalize (appDir dataDir n)) ∧
      (∀ m, validateName m = .ok () → m ≠ n →
        ¬ (normalize (appDir dataDir n)).Contains (normalize (appDir dataDir m)) ∧
        ¬ (normalize (appDir dataDir m)).Contains (normalize (appDir dataDir n))) ∧
      ∀ v, validateVersion v = .ok () →
        (normalize (versionsDir dataDir n)).Child (normalize (versionDir dataDir ⟨n, v⟩)) ∧
        ∀ w, validateVersion w = .ok () → w ≠ v →
          normalize (versionDir dataDir ⟨n, w⟩) ≠ normalize (versionDir dataDir ⟨n, v⟩) := by
  intro h
  have hok : validateName "." = .ok () := by decide
  exact (child_join_iff hok).mp (h "/data".toList "." hok).1 rfl

end Deltaship
