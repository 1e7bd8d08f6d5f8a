import Deltaship.Client.Checker
import Mathlib.Algebra.GroupWithZero.Nat

/-!
# Deltaship.Client.ReleaseNotes

How long release notes can get.

`sanitize_release_notes` tests the length in bytes and cuts in characters.  Cut notes are within
the limit exactly when what is kept of them is ASCII (`sanitizeReleaseNotes_bounded_iff`): otherwise
what is kept is longer than the limit, or nothing is cut off at all.
-/

namespace Deltaship

/-! ## the length in bytes -/

section Length

variable {l l' : List Char}

/-- The number of bytes of these characters. -/
def utf8Length (l : List Char) : Nat := (l.map Char.utf8Size).sum

/-- The length of a text is that of its characters. -/
theorem byteLen_ofList (l : List Char) : Text.byteLen (String.ofList l) = utf8Length l := by
  induction l with
  | nil => rfl
  | cons c l ih =>
      rw [Text.byteLen] at ih
      rw [Text.byteLen, String.ofList_cons, String.utf8ByteSize_append,
        String.utf8ByteSize_singleton, ih]
      rfl

theorem byteLen_eq (s : String) : Text.byteLen s = utf8Length s.toList := by
  rw [← byteLen_ofList, String.ofList_toList]

/-- Characters take at least a byte each. -/
theorem length_le_utf8Length (l : List Char) : l.length ≤ utf8Length l := by
  induction l with
  | nil => simp
  | cons c l ih =>
      have hpos := Char.utf8Size_pos c
      simp only [utf8Length, List.map_cons, List.sum_cons, List.length_cons] at ih ⊢
      omega

/-- A character is one byte exactly if it is ASCII. -/
theorem utf8Size_eq_one_iff {c : Char} : c.utf8Size = 1 ↔ Text.isAscii c = true := by
  rw [Text.isAscii, decide_eq_true_eq, Char.utf8Size_eq_one_iff, UInt32.le_iff_toNat_le]
  exact Nat.lt_succ_iff.symm

/-- They take no more than that if they are ASCII. -/
theorem utf8Length_le_length_iff :
    utf8Length l ≤ l.length ↔ ∀ c ∈ l, Text.isAscii c = true := by
  induction l with
  | nil => simp [utf8Length]
  | cons c l ih =>
      have hpos := Char.utf8Size_pos c
      have hlength := length_le_utf8Length l
      rw [List.forall_mem_cons, ← ih, ← utf8Size_eq_one_iff]
      simp only [utf8Length, List.map_cons, List.sum_cons, List.length_cons] at hlength ⊢
      omega

end Length

/-! ## cut notes -/

/-- What is appended to cut notes. -/
def truncationMarker : String := "... [truncated]"

/-- The notes are within the limit and the marker, and the marker stands for something that was
dropped behind it. -/
structure NotesBounded (notes result : String) : Prop where
  size : Text.byteLen result ≤ maxReleaseNotesSize + Text.byteLen truncationMarker
  text : result = notes ∨
    ∃ kept dropped, notes = kept ++ dropped ∧ dropped ≠ "" ∧ result = kept ++ truncationMarker

/-- Of notes that are too long, the first characters are within the limit only if they are
ASCII. -/
theorem utf8Length_take_le_iff {l : List Char} {n : Nat} (hlong : n < utf8Length l) :
    utf8Length (l.take n) ≤ n ↔ ∀ c ∈ l.take n, Text.isAscii c = true := by
  rw [← utf8Length_le_length_iff, List.length_take]
  by_cases hn : n ≤ l.length
  · rw [Nat.min_eq_left hn]
  · have hwhole : l.take n = l := List.take_of_length_le (by omega)
    rw [hwhole]
    omega

/-- Sanitized notes are bounded exactly if they are short or start with ASCII. -/
theorem sanitizeReleaseNotes_bounded_iff (notes : String) :
    (∃ result, sanitizeReleaseNotes (some notes) = some result ∧ NotesBounded notes result) ↔
      Text.byteLen notes ≤ maxReleaseNotesSize ∨
        ∀ c ∈ notes.toList.take maxReleaseNotesSize, Text.isAscii c = true := by
  by_cases hshort : Text.byteLen notes ≤ maxReleaseNotesSize
  · refine iff_of_true ⟨notes, ?_, by omega, .inl rfl⟩ (.inl hshort)
    simp [sanitizeReleaseNotes, Nat.not_lt.mpr hshort]
  · have hlong : maxReleaseNotesSize < utf8Length notes.toList := by
      rw [← byteLen_eq]
      omega
    have hresult : sanitizeReleaseNotes (some notes) =
        some (String.ofList (notes.toList.take maxReleaseNotesSize) ++ truncationMarker) := by
      simp [sanitizeReleaseNotes, truncationMarker, Nat.not_le.mp hshort]
    have hsize : Text.byteLen
        (String.ofList (notes.toList.take maxReleaseNotesSize) ++ truncationMarker) =
          utf8Length (notes.toList.take maxReleaseNotesSize) + Text.byteLen truncationMarker := by
      rw [← byteLen_ofList, Text.byteLen, String.utf8ByteSize_append]
      rfl
    rw [hresult, or_iff_right hshort, ← utf8Length_take_le_iff hlong]
    constructor
    · rintro ⟨result, h, hbounded⟩
      have := hbounded.size
      rw [← Option.some.inj h, hsize] at this
      omega
    · intro hkept
      refine ⟨_, rfl, by rw [hsize]; omega, .inr ⟨_, String.ofList
        (notes.toList.drop maxReleaseNotesSize), ?_, fun hnil => ?_, rfl⟩⟩
      · rw [← String.ofList_append, List.take_append_drop, String.ofList_toList]
      · -- with nothing dropped, what is kept would be too long
        have hdrop : notes.toList.drop maxReleaseNotesSize = [] := by
          simpa using congrArg String.toList hnil
        have hwhole := List.take_append_drop maxReleaseNotesSize notes.toList
        rw [hdrop, List.append_nil] at hwhole
        rw [hwhole] at hkept
        omega

/-- As many characters of two bytes. -/
def wideNotes (n : Nat) : String := String.ofList (List.replicate n 'é')

/-- The sample notes have two bytes for every character. -/
theorem byteLen_wideNotes (n : Nat) : Text.byteLen (wideNotes n) = 2 * n := by
  rw [wideNotes, byteLen_ofList, utf8Length, List.map_replicate, List.sum_replicate_nat,
    Nat.mul_comm]
  rfl

/-- Nothing of them is dropped, and yet they get the marker. -/
theorem sanitizeReleaseNotes_wide {n : Nat} (hlong : maxReleaseNotesSize < 2 * n)
    (hn : n ≤ maxReleaseNotesSize) :
    sanitizeReleaseNotes (some (wideNotes n)) = some (wideNotes n ++ truncationMarker) := by
  have hwhole : (wideNotes n).toList.take maxReleaseNotesSize = (wideNotes n).toList := by
    rw [wideNotes, String.toList_ofList]
    exact List.take_of_length_le (by rwa [List.length_replicate])
  simp only [sanitizeReleaseNotes, Option.map_some]
  rw [byteLen_wideNotes, if_pos hlong, hwhole, String.ofList_toList]
  rfl

/-- Forty thousand of them stay longer than the limit. -/
theorem sanitizeReleaseNotes_unbounded :
    sanitizeReleaseNotes (some (wideNotes 40000)) = some (wideNotes 40000 ++ truncationMarker) ∧
      ¬ NotesBounded (wideNotes 40000) (wideNotes 40000 ++ truncationMarker) := by
  refine ⟨sanitizeReleaseNotes_wide (by decide) (by decide), fun h => ?_⟩
  have hsize := h.size
  have hwide := byteLen_wideNotes 40000
  rw [Text.byteLen] at hwide
  rw [Text.byteLen, String.utf8ByteSize_append, hwide, maxReleaseNotesSize, Text.byteLen] at hsize
  omega

end Deltaship
