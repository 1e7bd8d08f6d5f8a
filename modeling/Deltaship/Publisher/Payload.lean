import Deltaship.Publisher.Extraction

/-!
# Deltaship.Publisher.Payload

What `import` does to the files of a directory.

A file of the archive is copied to its place below `.deltaship`, unless something is
there and the import merges; all other files stay as they are (`Copied`).
-/

namespace Deltaship

open Prog Lexical

namespace Import

/-! ## places -/

section Places

variable {w : Workspace} {q q' : Path}

/-- Places in a project contain each other as their relative paths do. -/
theorem place_contains (h : q.absolute = false) (h' : q'.absolute = false)
    (hcontains : (w.place q).Contains (w.place q')) : q.Contains q' :=
  ⟨h.trans h'.symm, (List.prefix_append_right_inj _).mp hcontains.2⟩

/-- A relative path is known by its place. -/
theorem place_inj (h : q.absolute = false) (h' : q'.absolute = false)
    (heq : w.place q = w.place q') : q = q' := by
  obtain ⟨absolute, components⟩ := q
  obtain ⟨absolute', components'⟩ := q'
  obtain rfl : absolute = absolute' := h.trans h'.symm
  obtain rfl : components = components' :=
    List.append_cancel_left (congrArg Path.components heq)
  rfl

theorem deltashipPath_contains_place : w.deltashipPath.Contains (w.place q) :=
  ⟨rfl, List.prefix_append _ _⟩

/-- Something is at a path if a file is there or below. -/
theorem existsAt_iff {p : Path} :
    w.existsAt p = true ↔ ∃ f, p.Contains f ∧ (w.files.read f).isSome = true := by
  simp only [Workspace.existsAt, List.any_eq_true, Files.mem_paths, decide_eq_true_eq, and_comm]

end Places

/-- A tree of relative paths in which nothing is below a file. -/
structure TreeOk (tree : Files Path Bytes) : Prop where
  relative : ∀ q, (tree.read q).isSome = true → q.absolute = false
  apart : ∀ q q', (tree.read q).isSome = true → (tree.read q').isSome = true → q.Contains q' →
    q' = q

/-- An archive that is extracted gives a tree of relative files. -/
theorem treeOk_of_extractArchive {e : PublisherEnv} {a : Archive} {tree : Files Path Bytes}
    (h : extractArchive e a = .ok tree) : TreeOk tree := by
  obtain ⟨hfits, hread⟩ := extractArchive_ok h
  refine ⟨fun q hq => ?_, fun q q' hq hq' hcontains => ?_⟩
  · rw [hread, isSome_lastAt] at hq
    obtain ⟨x, -, -, rfl⟩ := hq
    rfl
  · rw [hread, isSome_lastAt] at hq hq'
    obtain ⟨x, hx, hfile, rfl⟩ := hq
    obtain ⟨y, hy, -, rfl⟩ := hq'
    exact (hfits.entries.apart x hx hfile y hy hcontains).2

/-! ## copying -/

/- Files are copied one after the other into a directory that may already have files of these names.
The invariant says which of them have been copied and that everything else is as before; it ends
with the first copy that fails. -/

/-- These files of a tree were copied, the others stay. -/
structure Copied (merge : Bool) (tree : Files Path Bytes) (qs : List Path) (w w' : Workspace) :
    Prop where
  root : w'.root = w.root
  db : w'.db = w.db
  copied : ∀ q ∈ qs, ¬ (merge = true ∧ w.existsAt (w.place q) = true) →
    w'.files.read (w.place q) = tree.read q
  kept : ∀ p, (∀ q ∈ qs, w.place q = p → merge = true ∧ w.existsAt p = true) →
    w'.files.read p = w.files.read p

section Copy

variable {e : PublisherEnv} {merge : Bool} {tree : Files Path Bytes} {qs : List Path}
  {w w₁ w₂ : Workspace} {q : Path} {b : Bytes}

theorem Copied.nil (merge : Bool) (tree : Files Path Bytes) (w : Workspace) :
    Copied merge tree [] w w :=
  ⟨rfl, rfl, fun _ h => absurd h List.not_mem_nil, fun _ _ => rfl⟩

theorem Copied.place (h : Copied merge tree qs w w₁) (q : Path) : w₁.place q = w.place q := by
  unfold Workspace.place Workspace.deltashipPath Workspace.resolve
  rw [h.root]

/-- A file that is there afterwards was there before or was copied. -/
theorem Copied.cases (h : Copied merge tree qs w w₁) {p : Path}
    (hp : (w₁.files.read p).isSome = true) :
    (w.files.read p).isSome = true ∨ ∃ q ∈ qs, w.place q = p ∧ w₁.files.read p = tree.read q := by
  by_cases hkept : ∀ q ∈ qs, w.place q = p → merge = true ∧ w.existsAt p = true
  · rw [h.kept p hkept] at hp
    exact .inl hp
  · push Not at hkept
    obtain ⟨q, hq, rfl, hcopied⟩ := hkept
    exact .inr ⟨q, hq, rfl, h.copied q hq fun hex => hcopied hex.1 hex.2⟩

/-- What was there is still there. -/
theorem Copied.isSome (h : Copied merge tree qs w w₁)
    (hqs : ∀ q ∈ qs, (tree.read q).isSome = true) {p : Path}
    (hp : (w.files.read p).isSome = true) : (w₁.files.read p).isSome = true := by
  by_cases hkept : ∀ q ∈ qs, w.place q = p → merge = true ∧ w.existsAt p = true
  · rwa [h.kept p hkept]
  · push Not at hkept
    obtain ⟨q, hq, rfl, hcopied⟩ := hkept
    rw [h.copied q hq fun hex => hcopied hex.1 hex.2]
    exact hqs q hq

/-- A place is taken if it was, or if its file has been copied. -/
theorem Copied.existsAt_cases (h : Copied merge tree qs w w₁) (htree : TreeOk tree)
    (hqs : ∀ q ∈ qs, (tree.read q).isSome = true) (hq : (tree.read q).isSome = true)
    (hex : w₁.existsAt (w.place q) = true) :
    w.existsAt (w.place q) = true ∨ q ∈ qs ∧ w₁.files.read (w.place q) = tree.read q := by
  obtain ⟨f, hcontains, hf⟩ := existsAt_iff.mp hex
  rcases h.cases hf with hbefore | ⟨q', hq', rfl, hread⟩
  · exact .inl (existsAt_iff.mpr ⟨f, hcontains, hbefore⟩)
  · have hq'' := hqs q' hq'
    have hbelow : q.Contains q' :=
      place_contains (htree.relative q hq) (htree.relative q' hq'') hcontains
    obtain rfl := htree.apart q q' hq hq'' hbelow
    exact .inr ⟨hq', hread⟩

/-- A file that is copied to its place. -/
theorem Copied.write (h : Copied merge tree qs w w₁) (htree : TreeOk tree)
    (hqs : ∀ q ∈ qs, (tree.read q).isSome = true) (hb : tree.read q = some b)
    (hfree : ¬ (merge = true ∧ w.existsAt (w.place q) = true)) :
    Copied merge tree (qs ++ [q]) w
      { w₁ with files := w₁.files.write (w.place q) b } where
  root := h.root
  db := h.db
  copied q' hq' hfree' := by
    by_cases heq : w.place q' = w.place q
    · have hq'' : (tree.read q').isSome = true := by
        rcases List.mem_append.mp hq' with hq' | hq'
        · exact hqs q' hq'
        · rw [List.mem_singleton.mp hq', hb]
          rfl
      obtain rfl := place_inj (htree.relative q' hq'') (htree.relative q (by rw [hb]; rfl)) heq
      rw [hb]
      exact w₁.files.read_write_self _ _
    · have hold : q' ∈ qs := by
        rcases List.mem_append.mp hq' with hq' | hq'
        · exact hq'
        · rw [List.mem_singleton.mp hq'] at heq
          contradiction
      rw [← h.copied q' hold hfree']
      exact w₁.files.read_write_ne b heq
  kept p hp := by
    have hne : p ≠ w.place q := by
      rintro rfl
      exact hfree (hp q (by simp) rfl)
    rw [← h.kept p fun q' hq' => hp q' (List.mem_append_left _ hq')]
    exact w₁.files.read_write_ne b hne

/-- A file that is passed over, because something is at its place. -/
theorem Copied.skip (h : Copied merge tree qs w w₁)
    (hex : merge = true ∧ w.existsAt (w.place q) = true ∨
      q ∈ qs) : Copied merge tree (qs ++ [q]) w w₁ where
  root := h.root
  db := h.db
  copied q' hq' hfree := by
    rcases List.mem_append.mp hq' with hq' | hq'
    · exact h.copied q' hq' hfree
    · obtain rfl := List.mem_singleton.mp hq'
      rcases hex with hex | hold
      · exact absurd hex hfree
      · exact h.copied q' hold hfree
  kept p hp := h.kept p fun q' hq' => hp q' (List.mem_append_left _ hq')

/-- What is known when the copy of a file fails, and what it leads to. -/
def FailsAt (e : PublisherEnv) (w w₁ : Workspace) (q : Path) (b : Bytes)
    (E : String → Workspace → Prop) : Prop :=
  ∀ err w', e.faults (.copyFile (w.place q)) ≠ none ∨ e.faults (.copyData (w.place q)) ≠ none ∨
    createFile w₁.files [] (w.place q) b = .error err → E err w'

/-- One more file. -/
theorem Copied.step (h : Copied merge tree qs w w₁) (htree : TreeOk tree)
    (hqs : ∀ q ∈ qs, (tree.read q).isSome = true) (hb : tree.read q = some b)
    {E : String → Workspace → Prop} (hfail : FailsAt e w w₁ q b E) :
    wp (copyFile e merge q b) (fun _ w' => Copied merge tree (qs ++ [q]) w w') E w₁ := by
  have hq : (tree.read q).isSome = true := by rw [hb]; rfl
  unfold copyFile op
  rw [wp_bind, wp_get, h.place]
  by_cases hskip : merge = true ∧ w₁.existsAt (w.place q) = true
  · rw [if_pos (by simp [hskip.1, hskip.2]), wp_pure]
    rcases h.existsAt_cases htree hqs hq hskip.2 with hex | ⟨hold, -⟩
    · exact h.skip (.inl ⟨hskip.1, hex⟩)
    · exact h.skip (.inr hold)
  · rw [if_neg (by simpa using hskip), wp_bind]
    have hfree : ¬ (merge = true ∧ w.existsAt (w.place q) = true) := by
      rintro ⟨hmerge, hex⟩
      obtain ⟨f, hcontains, hf⟩ := existsAt_iff.mp hex
      exact hskip ⟨hmerge, existsAt_iff.mpr ⟨f, hcontains, h.isSome hqs hf⟩⟩
    cases hfault : e.faults (.copyFile (w.place q)) with
    | some fault => exact hfail _ _ (.inl (by simp [hfault]))
    | none =>
        rw [wp_pure]
        split
        · rw [wp_bind, wp_ofExcept]
          cases hcreate : createFile w₁.files [] (w.place q) b with
          | error err => exact hfail _ _ (.inr (.inr hcreate))
          | ok files =>
              obtain ⟨-, -, rfl⟩ := createFile_eq_ok.mp hcreate
              exact h.write htree hqs hb hfree
        · next fault hdata =>
            have hfail' := fun err w' => hfail err w' (.inr (.inl (by simp [hdata])))
            rw [wp_bind, wp_ofExcept]
            split
            · exact hfail' _ _
            · exact hfail' _ _

end Copy

/-! ## all files -/

/- The binaries and the diffs come before the database and the keys behind it, each group as the
options select it. -/

/-- The files below a directory of the tree. -/
def treeFiles (tree : Files Path Bytes) (dir : String) : List Path :=
  tree.paths.filter fun q => (⟨false, [dir.toList]⟩ : Path).Contains q

/-- The files that are copied before the database. -/
def payloadFiles (tree : Files Path Bytes) (metadata : ArchiveMetadata) : List Path :=
  if metadata.includesBinaries then treeFiles tree "binaries" ++ treeFiles tree "diffs" else []

/-- The place of a key in the archive. -/
def keyPlace (name : String) : Path := ⟨false, ["keys".toList, name.toList]⟩

/-- The keys that are copied behind the database. -/
def keyFiles (tree : Files Path Bytes) (metadata : ArchiveMetadata) : List Path :=
  (if metadata.includesKeys then [keyPlace "public.key", keyPlace "signing.key"]
    else [keyPlace "public.key"]).filter fun q => (tree.read q).isSome

section Files

variable {e : PublisherEnv} {merge : Bool} {tree : Files Path Bytes} {qs : List Path}
  {w w₁ : Workspace} {E : String → Workspace → Prop}

/-- What is known when a copy fails, and what it leads to. -/
def FailsWith (e : PublisherEnv) (merge : Bool) (tree : Files Path Bytes) (w : Workspace)
    (E : String → Workspace → Prop) : Prop :=
  ∀ qs w₁, Copied merge tree qs w w₁ → (∀ q ∈ qs, (tree.read q).isSome = true) →
    ∀ q b, tree.read q = some b → FailsAt e w w₁ q b E

/-- The files of a directory of the tree are there. -/
theorem isSome_of_mem_treeFiles {dir : String} {q : Path} (h : q ∈ treeFiles tree dir) :
    (tree.read q).isSome = true := Files.mem_paths.mp (List.mem_of_mem_filter h)

theorem isSome_of_mem_payloadFiles {metadata : ArchiveMetadata} {q : Path}
    (h : q ∈ payloadFiles tree metadata) : (tree.read q).isSome = true := by
  unfold payloadFiles at h
  split at h
  · rcases List.mem_append.mp h with h | h
    · exact isSome_of_mem_treeFiles h
    · exact isSome_of_mem_treeFiles h
  · exact absurd h List.not_mem_nil

/-- The files below a directory are copied. -/
theorem Copied.importTree (h : Copied merge tree qs w w₁) (htree : TreeOk tree)
    (hqs : ∀ q ∈ qs, (tree.read q).isSome = true) (hfail : FailsWith e merge tree w E)
    (dir : String) :
    wp (Import.importTree e tree merge dir)
      (fun _ w' => Copied merge tree (qs ++ treeFiles tree dir) w w') E w₁ := by
  refine wp_forEach (fun done w' => Copied merge tree (qs ++ done) w w') (by simpa using h)
    fun done q rest w' hsplit h' => ?_
  have hdone : ∀ q' ∈ qs ++ done, (tree.read q').isSome = true := by
    intro q' hq'
    rcases List.mem_append.mp hq' with hq' | hq'
    · exact hqs q' hq'
    · have hmem : q' ∈ treeFiles tree dir := by
        rw [treeFiles, hsplit]
        exact List.mem_append_left _ hq'
      exact isSome_of_mem_treeFiles hmem
  have hmem : q ∈ treeFiles tree dir := by
    rw [treeFiles, hsplit]
    simp
  have hq : (tree.read q).isSome = true := isSome_of_mem_treeFiles hmem
  obtain ⟨b, hb⟩ := Option.isSome_iff_exists.mp hq
  rw [hb, ← List.append_assoc]
  exact h'.step htree hdone hb (hfail _ w' h' hdone q b hb)

/-- The binaries and the diffs are copied, if the archive has them. -/
theorem wp_importPayload (htree : TreeOk tree) (hfail : FailsWith e merge tree w E)
    (metadata : ArchiveMetadata) :
    wp (importPayload e tree metadata merge)
      (fun _ w' => Copied merge tree (payloadFiles tree metadata) w w') E w := by
  unfold importPayload payloadFiles
  split
  · rw [wp_bind]
    refine wp_mono (fun _ w₁ h₁ => ?_) (fun _ _ h => h)
      ((Copied.nil merge tree w).importTree htree (fun _ h => absurd h List.not_mem_nil) hfail
        "binaries")
    refine h₁.importTree htree (fun q hq => ?_) hfail "diffs"
    rw [List.nil_append] at hq
    exact isSome_of_mem_treeFiles hq
  · exact .nil merge tree w

/-- A key is copied, if the archive has it. -/
theorem Copied.importKey (h : Copied merge tree qs w w₁) (htree : TreeOk tree)
    (hqs : ∀ q ∈ qs, (tree.read q).isSome = true) (hfail : FailsWith e merge tree w E)
    (name : String) :
    wp (Import.importKey e tree merge name)
      (fun _ w' => Copied merge tree
        (qs ++ [keyPlace name].filter fun q => (tree.read q).isSome) w w') E w₁ := by
  unfold Import.importKey
  cases hread : tree.read ⟨false, ["keys".toList, name.toList]⟩ with
  | none =>
      replace hread : tree.read (keyPlace name) = none := hread
      simpa [hread] using h
  | some b =>
      replace hread : tree.read (keyPlace name) = some b := hread
      have hfilter : ([keyPlace name].filter fun q => (tree.read q).isSome) = [keyPlace name] := by
        simp [hread]
      rw [hfilter]
      exact h.step htree hqs hread (hfail _ w₁ h hqs _ b hread)

/-- The keys are copied. -/
theorem Copied.importKeys (h : Copied merge tree qs w w₁) (htree : TreeOk tree)
    (hqs : ∀ q ∈ qs, (tree.read q).isSome = true) (hfail : FailsWith e merge tree w E)
    (metadata : ArchiveMetadata) :
    wp (Import.importKeys e tree metadata merge)
      (fun _ w' => Copied merge tree (qs ++ keyFiles tree metadata) w w') E w₁ := by
  unfold Import.importKeys
  rw [wp_bind]
  refine wp_mono (fun _ w₂ h₂ => ?_) (fun _ _ h => h) (h.importKey htree hqs hfail "public.key")
  have hqs₂ : ∀ q ∈ qs ++ [keyPlace "public.key"].filter fun q => (tree.read q).isSome,
      (tree.read q).isSome = true := by
    intro q hq
    rcases List.mem_append.mp hq with hq | hq
    · exact hqs q hq
    · exact (List.mem_filter.mp hq).2
  by_cases hkeys : metadata.includesKeys = true
  · rw [if_pos hkeys]
    refine wp_mono (fun _ w₃ h₃ => ?_) (fun _ _ h => h)
      (h₂.importKey htree hqs₂ hfail "signing.key")
    rw [List.append_assoc, ← List.filter_append] at h₃
    rw [keyFiles, if_pos hkeys]
    exact h₃
  · rw [if_neg hkeys, keyFiles, if_neg hkeys]
    exact h₂

/-- The database does not matter to the files. -/
theorem Copied.withDb (h : Copied merge tree qs w w₁) (db : Option PublisherDb) :
    Copied merge tree qs { w with db := db } { w₁ with db := db } :=
  ⟨h.root, rfl, h.copied, h.kept⟩

/-- What fails without the database fails with it, too. -/
theorem FailsWith.withDb {E' : String → Workspace → Prop} (h : FailsWith e merge tree w E)
    (db : Option PublisherDb) (hE : ∀ err w₁, E err { w₁ with db := w.db } → E' err w₁) :
    FailsWith e merge tree { w with db := db } E' := by
  intro qs w₁ hcopied hqs q b hb err w' hfails
  exact hE err w' (h qs { w₁ with db := w.db } (hcopied.withDb w.db) hqs q b hb err _ hfails)

end Files

end Import

end Deltaship
