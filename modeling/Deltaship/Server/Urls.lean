import Deltaship.Server.DiffNames

/-!
# Deltaship.Server.Urls

Where the addresses in an answer lead: the router takes each of them to the download
it was made for, with the names and the platform that it was made from.
-/

namespace Deltaship

/-! ## taking addresses apart -/

/-- A path of these segments. -/
def pathOf (names : List String) : List Char := ['/'].intercalate (names.map String.toList)

/-- A name that can stand in an address. -/
def Plain (n : String) : Prop := '/' ∉ n.toList ∧ '?' ∉ n.toList

instance (n : String) : Decidable (Plain n) := inferInstanceAs (Decidable (_ ∧ _))

/-- A path is taken apart at its slashes. -/
theorem segments_pathOf {names : List String} (h : ∀ n ∈ names, '/' ∉ n.toList)
    (hne : names ≠ []) : segments (pathOf names) = names := by
  have hslash : ∀ l ∈ names.map String.toList, '/' ∉ l := by
    intro l hl
    obtain ⟨n, hn, rfl⟩ := List.mem_map.mp hl
    exact h n hn
  rw [segments, pathOf, List.splitOn_intercalate '/' hslash (by simpa using hne),
    List.map_map]
  simp

/-- Names without a question mark make a path without one. -/
theorem mark_not_mem_pathOf {names : List String} (h : ∀ n ∈ names, '?' ∉ n.toList) :
    '?' ∉ pathOf names := by
  unfold pathOf
  induction names with
  | nil => simp
  | cons n rest ih =>
      have hn := h n List.mem_cons_self
      have hrest := ih fun m hm => h m (List.mem_cons_of_mem n hm)
      cases rest with
      | nil => simpa using hn
      | cons m ms =>
          simp only [List.map_cons, List.intercalate_cons_cons] at hrest ⊢
          simp [hn, hrest]

/-- A path without a query has one piece. -/
theorem splitOn_mark {path : List Char} (h : '?' ∉ path) : path.splitOn '?' = [path] :=
  List.splitOn_eq_singleton h

/-- A path with a query has two pieces. -/
theorem splitOn_mark_query {path query : List Char} (h : '?' ∉ path) (hq : '?' ∉ query) :
    (path ++ '?' :: query).splitOn '?' = [path, query] := by
  rw [List.splitOn_append_cons_self, splitOn_mark h, splitOn_mark hq]
  rfl

/-- The query of an address with a platform. -/
def platformQuery (platform : Platform) : List Char := ("platform=" ++ platform.asStr).toList

theorem mark_not_mem_platformQuery (platform : Platform) : '?' ∉ platformQuery platform := by
  cases platform <;> simp [platformQuery, Platform.asStr]

theorem queryParam_platformQuery (platform : Platform) :
    queryParam "platform" (platformQuery platform) = some platform.asStr := by
  have hplain : '&' ∉ platformQuery platform := by
    cases platform <;> simp [platformQuery, Platform.asStr]
  rw [queryParam, List.splitOn_eq_singleton hplain]
  simp [platformQuery, Text.stripPrefix]

/-! ## accepted names -/

section Addresses

variable {X : ServerCrates} {a : Artifacts} {appName version f t : String} {platform : Platform}

/-- What is checked has no character that means something in an address. -/
theorem plain_of_validateText {allowed : Char → Bool} {n : String}
    (h : validateText allowed n = .ok ()) (hmark : allowed '?' = false) : Plain n := by
  obtain ⟨-, -, -, hslash, hchars⟩ := validateText_ok h
  refine ⟨hslash, fun hmem => ?_⟩
  rw [hchars _ hmem] at hmark
  contradiction

theorem plain_of_validateName (h : validateName appName = .ok ()) : Plain appName :=
  plain_of_validateText h (by decide)

theorem plain_of_validateVersion (h : validateVersion version = .ok ()) : Plain version :=
  plain_of_validateText h (by decide)

theorem plain_diffSpec (hf : Plain f) (ht : Plain t) : Plain (diffSpec f t) := by
  unfold Plain at hf ht ⊢
  rw [toList_diffSpec]
  simp [hf, ht]

/-! ## the addresses of an answer -/

/-- The address of a binary, segment by segment. -/
theorem toList_binaryUrl :
    (binaryUrl ⟨appName, version⟩ platform).toList =
      pathOf ["", "api", "v1", "apps", appName, "versions", version, "binary"] ++
        '?' :: platformQuery platform := by
  simp [binaryUrl, baseUrl, pathOf, platformQuery, ToString.toString, List.intercalate_cons_cons]

/-- The address of a signature, segment by segment. -/
theorem toList_signatureUrl :
    (signatureUrl ⟨appName, version⟩).toList =
      pathOf ["", "api", "v1", "apps", appName, "versions", version, "signature"] := by
  simp [signatureUrl, baseUrl, pathOf, ToString.toString, List.intercalate_cons_cons]

/-- The address of a diff, segment by segment. -/
theorem toList_diffUrl :
    (diffUrl appName f t platform).toList =
      pathOf ["", "api", "v1", "apps", appName, "diffs", diffSpec f t] ++
        '?' :: platformQuery platform := by
  simp [diffUrl, baseUrl, pathOf, platformQuery, ToString.toString, List.intercalate_cons_cons]

/-- The address of a binary leads to its download. -/
theorem resolve_binaryUrl (hname : Plain appName) (hversion : Plain version) :
    resolve X a (binaryUrl ⟨appName, version⟩ platform) =
      downloadBinary X a appName version platform.asStr := by
  have hplain : ∀ n ∈ ["", "api", "v1", "apps", appName, "versions", version, "binary"],
      Plain n := by
    unfold Plain at hname hversion ⊢
    simp [hname, hversion]
  unfold resolve
  rw [toList_binaryUrl, splitOn_mark_query (mark_not_mem_pathOf fun n hn => (hplain n hn).2)
    (mark_not_mem_platformQuery platform)]
  simp only [List.headD_cons, segments_pathOf (fun n hn => (hplain n hn).1) (List.cons_ne_nil _ _)]
  simp [queryParam_platformQuery, Except.ofOption, bind, Except.bind]

/-- The address of a signature leads to its download. -/
theorem resolve_signatureUrl (hname : Plain appName) (hversion : Plain version) :
    resolve X a (signatureUrl ⟨appName, version⟩) = downloadSignature X a appName version := by
  have hplain : ∀ n ∈ ["", "api", "v1", "apps", appName, "versions", version, "signature"],
      Plain n := by
    unfold Plain at hname hversion ⊢
    simp [hname, hversion]
  unfold resolve
  rw [toList_signatureUrl, splitOn_mark (mark_not_mem_pathOf fun n hn => (hplain n hn).2)]
  simp only [List.headD_cons, segments_pathOf (fun n hn => (hplain n hn).1) (List.cons_ne_nil _ _)]

/-- The address of a diff leads to its download. -/
theorem resolve_diffUrl (hname : Plain appName) (hf : Plain f) (ht : Plain t) :
    resolve X a (diffUrl appName f t platform) =
      downloadDiff X a appName (diffSpec f t) platform.asStr := by
  have hspec := plain_diffSpec hf ht
  have hplain : ∀ n ∈ ["", "api", "v1", "apps", appName, "diffs", diffSpec f t], Plain n := by
    unfold Plain at hname hspec ⊢
    simp [hname, hspec]
  unfold resolve
  rw [toList_diffUrl, splitOn_mark_query (mark_not_mem_pathOf fun n hn => (hplain n hn).2)
    (mark_not_mem_platformQuery platform)]
  simp only [List.headD_cons, segments_pathOf (fun n hn => (hplain n hn).1) (List.cons_ne_nil _ _)]
  simp [queryParam_platformQuery, Except.ofOption, bind, Except.bind]

end Addresses

end Deltaship
