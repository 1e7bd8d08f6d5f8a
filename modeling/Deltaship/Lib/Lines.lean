import Deltaship.Lib.Text

/-!
# Deltaship.Lib.Lines

Texts of several lines: joining lines and taking them apart, and breaking a text into pieces of
a fixed length.  The operations are those of Rust's standard library.
-/

namespace Text

/-- A line without the carriage return at its end. -/
def stripCr (l : List Char) : List Char := if l.getLast? = some '\r' then l.dropLast else l

/-- `str::lines`: the last line may be without a line feed. -/
def lines (l : List Char) : List (List Char) :=
  let pieces := l.splitOn '\n'
  pieces.dropLast.map stripCr ++ pieces.getLast?.toList.filter (· ≠ [])

/-- `[&str]::join("\n")`. -/
def joinLines (ls : List (List Char)) : List Char := ['\n'].intercalate ls

/-- `str::strip_suffix`. -/
def stripSuffix (post l : List Char) : Option (List Char) :=
  if post.isSuffixOf l then some (l.take (l.length - post.length)) else none

/-- `slice::chunks`: pieces of length `n`, the last one may be shorter. -/
def chunks {α : Type} (n : Nat) (l : List α) : List (List α) :=
  if _h : l = [] ∨ n = 0 then [] else l.take n :: chunks n (l.drop n)
termination_by l.length
decreasing_by
  have hpos := List.length_pos_iff.mpr (not_or.mp _h).1
  rw [List.length_drop]
  omega

/-! ## joining -/

section Join

variable {ls : List (List Char)} {l m : List Char}

@[simp] theorem joinLines_nil : joinLines [] = [] := rfl

@[simp] theorem joinLines_singleton (l : List Char) : joinLines [l] = l :=
  List.intercalate_singleton

/-- A line in front is followed by a line break. -/
theorem joinLines_cons (h : ls ≠ []) : joinLines (l :: ls) = l ++ '\n' :: joinLines ls := by
  rw [joinLines, List.intercalate_cons_of_ne_nil h, List.append_assoc]
  rfl

/-- So it is with two lines at least. -/
@[simp] theorem joinLines_cons_cons : joinLines (l :: m :: ls) = l ++ '\n' :: joinLines (m :: ls) :=
  joinLines_cons (List.cons_ne_nil _ _)

/-- What is thrown away between the lines does not matter. -/
theorem filter_joinLines {p : Char → Bool} (hp : p '\n' = false) :
    (joinLines ls).filter p = ls.flatten.filter p := by
  induction ls with
  | nil => rfl
  | cons l rest ih =>
      cases rest with
      | nil => simp
      | cons m rest => simp [ih, hp]

theorem getLast?_joinLines (h : ls.getLast? = some l) (hl : l ≠ []) :
    (joinLines ls).getLast? = l.getLast? := by
  induction ls with
  | nil => contradiction
  | cons m rest ih =>
      cases rest with
      | nil =>
          obtain rfl : m = l := by simpa using h
          simp
      | cons m' rest =>
          have hlast : (joinLines (m' :: rest)).getLast? = l.getLast? := ih (by simpa using h)
          have hsome := List.getLast?_eq_some_getLast hl
          rw [hsome] at hlast ⊢
          rw [joinLines_cons_cons, List.getLast?_append, List.getLast?_cons, hlast]
          rfl

/-- Lines are told apart by the line feeds between them. -/
theorem lines_joinLines (h : ∀ l ∈ ls, '\n' ∉ l ∧ '\r' ∉ l) (hlast : ls.getLast? ≠ some []) :
    lines (joinLines ls) = ls := by
  cases hls : ls with
  | nil => decide
  | cons l rest =>
      rw [← hls]
      have hne : ls ≠ [] := hls ▸ List.cons_ne_nil _ _
      have hstrip : ∀ l ∈ ls.dropLast, stripCr l = l := by
        intro l hl
        exact if_neg fun hcr =>
          (h l ((List.dropLast_sublist ls).subset hl)).2 (List.mem_of_getLast? hcr)
      have hend : ls.getLast hne ≠ [] := by
        rwa [List.getLast?_eq_some_getLast hne, ne_eq, Option.some.injEq] at hlast
      rw [lines, joinLines, List.splitOn_intercalate '\n' (fun l hl => (h l hl).1) hne]
      rw [List.map_congr_left hstrip, List.map_id', List.getLast?_eq_some_getLast hne]
      simp [hend, List.dropLast_concat_getLast hne]

end Join

/-! ## breaking -/

section Chunks

variable {α : Type} {n : Nat} {l : List α}

@[simp] theorem chunks_nil : chunks n ([] : List α) = [] := by
  rw [chunks, dif_pos (.inl rfl)]

/-- The first chunk is taken from the front. -/
theorem chunks_of_ne_nil (hn : 0 < n) (h : l ≠ []) :
    chunks n l = l.take n :: chunks n (l.drop n) := by
  rw [chunks, dif_neg (not_or.mpr ⟨h, hn.ne'⟩)]

/-- Nothing is lost. -/
theorem flatten_chunks (hn : 0 < n) (l : List α) : (chunks n l).flatten = l := by
  induction hl : l.length using Nat.strongRecOn generalizing l with
  | ind k ih =>
      by_cases hnil : l = []
      · simp [hnil]
      · have hpos := List.length_pos_iff.mpr hnil
        rw [chunks_of_ne_nil hn hnil, List.flatten_cons,
          ih _ (by rw [List.length_drop]; omega) _ rfl, List.take_append_drop]

theorem ne_nil_of_mem_chunks (hn : 0 < n) {c : List α} (h : c ∈ chunks n l) : c ≠ [] := by
  induction hl : l.length using Nat.strongRecOn generalizing l with
  | ind k ih =>
      by_cases hnil : l = []
      · simp [hnil] at h
      · have hpos := List.length_pos_iff.mpr hnil
        rw [chunks_of_ne_nil hn hnil] at h
        rcases List.mem_cons.mp h with rfl | h
        · rw [ne_eq, List.take_eq_nil_iff]
          grind
        · exact ih _ (by rw [List.length_drop]; omega) h rfl

/-- What is in a chunk was in the list. -/
theorem mem_of_mem_chunks (hn : 0 < n) {c : List α} (h : c ∈ chunks n l) {x : α} (hx : x ∈ c) :
    x ∈ l := by
  rw [← flatten_chunks hn l]
  exact List.mem_flatten.mpr ⟨c, h, hx⟩

end Chunks

/-! ## prefixes and suffixes -/

section Strip

variable {pre post l : List Char}

/-- A prefix that is there is taken off. -/
@[simp] theorem stripPrefix_append (pre l : List Char) : stripPrefix pre (pre ++ l) = some l := by
  simp [stripPrefix, List.isPrefixOf_iff_prefix]

/-- One that is not there is not taken off. -/
theorem stripPrefix_append_of_not_prefix {a : List Char} (hpa : ¬ pre <+: a) (hap : ¬ a <+: pre)
    (l : List Char) : stripPrefix pre (a ++ l) = none := by
  rw [stripPrefix, isPrefixOf_append_eq_false hpa hap]
  rfl

/-- A text without one of the characters of `pre` does not start with it. -/
theorem stripPrefix_of_not_mem {c : Char} (hc : c ∈ pre) (h : c ∉ l) :
    stripPrefix pre l = none := by
  refine if_neg fun hpre => h ?_
  exact (List.isPrefixOf_iff_prefix.mp hpre).subset hc

/-- A suffix that is there is taken off. -/
@[simp] theorem stripSuffix_append (l post : List Char) :
    stripSuffix post (l ++ post) = some l := by
  simp [stripSuffix, List.isSuffixOf_iff_suffix]

end Strip

end Text
