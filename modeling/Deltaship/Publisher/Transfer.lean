import Deltaship.Publisher.Delta
import Deltaship.Publisher.Payload

/-!
# Deltaship.Publisher.Transfer

A project is exported and imported in another directory.

The database is copied as it is, with the paths of the place it comes from, and the files
are copied to places of their own below `.deltaship`.  A row finds its file again only if
its path happens to be such a place.
-/

namespace Deltaship

open Prog Lexical

/-! ## what is exported -/

/- The entries of an archive, and that an export which succeeds has made them from the files. -/

namespace Export

section Layout

variable (s : Project)

/-- A directory and a file in it. -/
def entriesFor (path : List Char) (dir file : String) : List ArchiveEntry :=
  match s.content path with
  | none => []
  | some b => [⟨dir.toList, none⟩, ⟨file.toList, some b⟩]

/-- The entries of a key. -/
def keyEntries (name : String) : List ArchiveEntry :=
  match s.content s!"{deltashipDir}/keys/{name}".toList with
  | none => []
  | some b => [⟨s!"keys/{name}".toList, some b⟩]

/-- The entries of a version. -/
def versionEntries (binary : DbBinary) (version : DbVersion) : List ArchiveEntry :=
  entriesFor s version.filePath.toList (versionDir binary version)
    s!"{versionDir binary version}/{binary.platform}"

/-- The entries of a completed diff. -/
def diffEntries (job : DbDiffJob) : List ArchiveEntry :=
  match job.diffPath, diffRows s.db job with
  | some path, some (binary, fromVersion, toVersion) =>
      entriesFor s path.toList (diffPlace binary fromVersion toVersion).1
        (diffPlace binary fromVersion toVersion).2
  | _, _ => []

/-- The entries of the binaries. -/
def binariesEntries : List ArchiveEntry :=
  if s.db.listBinaries.isEmpty then []
  else ⟨"binaries".toList, none⟩ :: s.db.listBinaries.flatMap fun binary =>
    (s.db.listVersions binary.binaryId).flatMap (versionEntries s binary)

/-- The entries of the diffs. -/
def diffsEntries : List ArchiveEntry :=
  if (s.db.listDiffJobsByStatus .completed).isEmpty then []
  else ⟨"diffs".toList, none⟩ :: (s.db.listDiffJobsByStatus .completed).flatMap (diffEntries s)

/-- The archive of a project with its binaries. -/
def fullArchive (main : PublisherDb) (metadataSize dbSize : Nat) (includeKeys : Bool) :
    Archive where
  metadata := some (⟨includeKeys, true⟩, metadataSize)
  db := some (main, dbSize)
  entries := ⟨"keys".toList, none⟩ :: (keyEntries s "public.key" ++
    (if includeKeys then keyEntries s "signing.key" else []) ++ binariesEntries s ++ diffsEntries s)

end Layout

section Runs

variable {e : PublisherEnv} {s : Project} {entries : List ArchiveEntry}

/-- A directory is archived under its name, if nothing fails. -/
theorem addDirectory_eq_ok {archivePath : String} {entry : ArchiveEntry} :
    addDirectory e archivePath = .ok entry ↔
      e.faults (.addEntry archivePath.toList) = none ∧ ⟨archivePath.toList, none⟩ = entry := by
  simp only [addDirectory, Except.bind_eq_ok, ioError_eq_ok, pure, Except.pure, Except.ok.injEq,
    exists_const]

/-- A file is archived under its name with its content. -/
theorem addFile_eq_ok {path : List Char} {archivePath : String} {entry : ArchiveEntry} :
    addFile e s path archivePath = .ok entry ↔ e.faults (.addEntry archivePath.toList) = none ∧
      ∃ b, s.content path = some b ∧ ⟨archivePath.toList, some b⟩ = entry := by
  simp only [addFile, Except.bind_eq_ok, ioError_eq_ok, Except.ofOption_eq_ok, pure, Except.pure,
    Except.ok.injEq, exists_const]

/-- What is exported of a file and its directory. -/
theorem entriesFor_of_ok {path : List Char} {dir file : String} {directory entry : ArchiveEntry}
    (hdirectory : addDirectory e dir = .ok directory) (hfile : addFile e s path file = .ok entry) :
    [directory, entry] = entriesFor s path dir file := by
  obtain ⟨-, rfl⟩ := addDirectory_eq_ok.mp hdirectory
  obtain ⟨-, b, hb, rfl⟩ := addFile_eq_ok.mp hfile
  rw [entriesFor, hb]

/-- A key that is exported gives its entries. -/
theorem exportKey_ok {name : String} (h : exportKey e s name = .ok entries) :
    entries = keyEntries s name := by
  unfold exportKey at h
  dsimp only at h
  split at h
  · obtain ⟨entry, hentry, h⟩ := Except.bind_eq_ok.mp h
    obtain ⟨-, b, hb, rfl⟩ := addFile_eq_ok.mp hentry
    rw [← Except.ok.inj h, keyEntries, hb]
  · next hnone =>
      rw [← Except.ok.inj h, keyEntries, content_of_not_pathExists hnone]

theorem exportVersion_ok {binary : DbBinary} {version : DbVersion}
    (h : exportVersion e s binary version = .ok entries) :
    entries = versionEntries s binary version := by
  unfold exportVersion at h
  split at h
  · obtain ⟨directory, hdirectory, h⟩ := Except.bind_eq_ok.mp h
    obtain ⟨entry, hentry, h⟩ := Except.bind_eq_ok.mp h
    rw [← Except.ok.inj h, entriesFor_of_ok hdirectory hentry, versionEntries]
  · next hnone =>
      rw [← Except.ok.inj h, versionEntries, entriesFor, content_of_not_pathExists hnone]

theorem exportDiff_ok {job : DbDiffJob} (h : exportDiff e s job = .ok entries) :
    entries = diffEntries s job := by
  unfold exportDiff at h
  unfold diffEntries
  cases hpath : job.diffPath with
  | none =>
      rw [hpath] at h
      exact (Except.ok.inj h).symm
  | some path =>
      rw [hpath] at h
      dsimp only at h
      cases hrows : diffRows s.db job with
      | none =>
          rw [hrows] at h
          split at h
          · exact (Except.ok.inj h).symm
          · exact (Except.ok.inj h).symm
      | some rows =>
          obtain ⟨binary, fromVersion, toVersion⟩ := rows
          rw [hrows] at h
          split at h
          · obtain ⟨directory, hdirectory, h⟩ := Except.bind_eq_ok.mp h
            obtain ⟨entry, hentry, h⟩ := Except.bind_eq_ok.mp h
            rw [← Except.ok.inj h, entriesFor_of_ok hdirectory hentry]
          · next hnone =>
              dsimp only
              rw [← Except.ok.inj h, entriesFor, content_of_not_pathExists hnone]

/-- The entries of all binaries are those of each of them. -/
theorem exportBinaries_ok (h : exportBinaries e s = .ok entries) : entries = binariesEntries s := by
  unfold exportBinaries at h
  unfold binariesEntries
  split at h
  · next hempty => rw [if_pos hempty, ← Except.ok.inj h]
  · next hempty =>
      obtain ⟨directory, hdirectory, h⟩ := Except.bind_eq_ok.mp h
      obtain ⟨rest, hrest, h⟩ := Except.bind_eq_ok.mp h
      obtain ⟨-, rfl⟩ := addDirectory_eq_ok.mp hdirectory
      rw [if_neg hempty, ← Except.ok.inj h]
      congr 1
      refine Except.gather_eq_ok (fun binary _ found hfound => ?_) hrest
      exact Except.gather_eq_ok (fun version _ found hfound => exportVersion_ok hfound) hfound

theorem exportDiffs_ok (h : exportDiffs e s = .ok entries) : entries = diffsEntries s := by
  unfold exportDiffs at h
  unfold diffsEntries
  dsimp only at h
  split at h
  · next hempty => rw [if_pos hempty, ← Except.ok.inj h]
  · next hempty =>
      obtain ⟨directory, hdirectory, h⟩ := Except.bind_eq_ok.mp h
      obtain ⟨rest, hrest, h⟩ := Except.bind_eq_ok.mp h
      obtain ⟨-, rfl⟩ := addDirectory_eq_ok.mp hdirectory
      rw [if_neg hempty, ← Except.ok.inj h]
      congr 1
      exact Except.gather_eq_ok (fun job _ found hfound => exportDiff_ok hfound) hrest

/-- An export that succeeds gives the full archive. -/
theorem run_ok {main : PublisherDb} {metadataSize dbSize : Nat} {includeKeys : Bool}
    {format : String} {a : Archive}
    (h : run e s main metadataSize dbSize includeKeys true format = .ok a) :
    a = fullArchive s main metadataSize dbSize includeKeys := by
  unfold run at h
  obtain ⟨_, -, h⟩ := Except.bind_eq_ok.mp h
  obtain ⟨_, -, h⟩ := Except.bind_eq_ok.mp h
  obtain ⟨keysDir, hkeysDir, h⟩ := Except.bind_eq_ok.mp h
  obtain ⟨publicKey, hpublic, h⟩ := Except.bind_eq_ok.mp h
  obtain ⟨signingKey, hsigning, h⟩ := Except.bind_eq_ok.mp h
  obtain ⟨binaries, hbinaries, h⟩ := Except.bind_eq_ok.mp h
  obtain ⟨diffs, hdiffs, h⟩ := Except.bind_eq_ok.mp h
  obtain ⟨-, rfl⟩ := addDirectory_eq_ok.mp hkeysDir
  have hsigning : signingKey = if includeKeys then keyEntries s "signing.key" else [] := by
    cases includeKeys with
    | true => exact exportKey_ok hsigning
    | false => exact (Except.ok.inj hsigning).symm
  rw [← Except.ok.inj h, exportKey_ok hpublic, hsigning, exportBinaries_ok hbinaries,
    exportDiffs_ok hdiffs, fullArchive]

/-! ### exports that succeed -/

/- An export reads the keys and the files of the rows, and fails if one of them is missing. With all
of them there, and without faults, it succeeds. -/

/-- The names of the keys that are exported. -/
def keyNames (includeKeys : Bool) : List String :=
  if includeKeys then ["public.key", "signing.key"] else ["public.key"]

/-- What is at the place of a key is a file. -/
def KeysReadable (s : Project) (includeKeys : Bool) : Prop :=
  ∀ name ∈ keyNames includeKeys, s.pathExists s!"{deltashipDir}/keys/{name}".toList = true →
    (s.content s!"{deltashipDir}/keys/{name}".toList).isSome = true

/-- A key that is exported can be read. -/
theorem content_of_exportKey {name : String} (h : exportKey e s name = .ok entries)
    (hex : s.pathExists s!"{deltashipDir}/keys/{name}".toList = true) :
    (s.content s!"{deltashipDir}/keys/{name}".toList).isSome = true := by
  unfold exportKey at h
  dsimp only at h
  rw [if_pos hex] at h
  obtain ⟨entry, hentry, -⟩ := Except.bind_eq_ok.mp h
  obtain ⟨-, b, hb, -⟩ := addFile_eq_ok.mp hentry
  rw [hb]
  rfl

/-- An export that succeeds has read the keys that are there. -/
theorem keysReadable_of_ok {main : PublisherDb} {metadataSize dbSize : Nat}
    {includeKeys includeBinaries : Bool} {format : String} {a : Archive}
    (h : run e s main metadataSize dbSize includeKeys includeBinaries format = .ok a) :
    KeysReadable s includeKeys := by
  unfold run at h
  obtain ⟨_, -, h⟩ := Except.bind_eq_ok.mp h
  obtain ⟨_, -, h⟩ := Except.bind_eq_ok.mp h
  obtain ⟨_, -, h⟩ := Except.bind_eq_ok.mp h
  obtain ⟨publicKey, hpublic, h⟩ := Except.bind_eq_ok.mp h
  obtain ⟨signingKey, hsigning, -⟩ := Except.bind_eq_ok.mp h
  intro name hname
  cases includeKeys with
  | false =>
      obtain rfl := List.mem_singleton.mp hname
      exact content_of_exportKey hpublic
  | true =>
      rcases List.mem_cons.mp hname with rfl | hname
      · exact content_of_exportKey hpublic
      · obtain rfl := List.mem_singleton.mp hname
        exact content_of_exportKey hsigning

theorem addDirectory_of (hfault : ∀ site, e.faults site = none) (dir : String) :
    addDirectory e dir = .ok ⟨dir.toList, none⟩ := addDirectory_eq_ok.mpr ⟨hfault _, rfl⟩

/-- Without faults every file that can be read is archived. -/
theorem addFile_of (hfault : ∀ site, e.faults site = none) {path : List Char} {b : Bytes}
    (hb : s.content path = some b) (file : String) :
    addFile e s path file = .ok ⟨file.toList, some b⟩ :=
  addFile_eq_ok.mpr ⟨hfault _, b, hb, rfl⟩

/-- Without faults a key is exported if it can be read. -/
theorem exportKey_of (hfault : ∀ site, e.faults site = none) {name : String}
    (hkey : s.pathExists s!"{deltashipDir}/keys/{name}".toList = true →
      (s.content s!"{deltashipDir}/keys/{name}".toList).isSome = true) :
    exportKey e s name = .ok (keyEntries s name) := by
  unfold exportKey
  dsimp only
  split
  · next hex =>
      obtain ⟨b, hb⟩ := Option.isSome_iff_exists.mp (hkey hex)
      rw [addFile_of hfault hb, keyEntries, hb]
      rfl
  · next hnone =>
      rw [keyEntries, content_of_not_pathExists hnone]
      rfl

theorem exportVersion_of (hfault : ∀ site, e.faults site = none) {binary : DbBinary}
    {version : DbVersion} (hfile : (s.content version.filePath.toList).isSome = true) :
    exportVersion e s binary version = .ok (versionEntries s binary version) := by
  obtain ⟨b, hb⟩ := Option.isSome_iff_exists.mp hfile
  unfold exportVersion
  rw [if_pos (pathExists_of_content hfile), addDirectory_of hfault, addFile_of hfault hb,
    versionEntries, entriesFor, hb]
  rfl

theorem exportDiff_of (hfault : ∀ site, e.faults site = none) {job : DbDiffJob}
    (hfile : ∀ path, job.diffPath = some path → (s.content path.toList).isSome = true) :
    exportDiff e s job = .ok (diffEntries s job) := by
  unfold exportDiff diffEntries
  cases hpath : job.diffPath with
  | none => rfl
  | some path =>
      obtain ⟨b, hb⟩ := Option.isSome_iff_exists.mp (hfile path hpath)
      dsimp only
      rw [if_pos (pathExists_of_content (hfile path hpath))]
      rcases diffRows s.db job with _ | ⟨binary, fromVersion, toVersion⟩
      · rfl
      · dsimp only
        rw [addDirectory_of hfault, addFile_of hfault hb, entriesFor, hb]
        rfl

/-- A project whose files are there can be exported. -/
theorem run_of (hfault : ∀ site, e.faults site = none) {includeKeys : Bool}
    (hkeys : KeysReadable s includeKeys)
    (hversions : ∀ v ∈ s.db.versions, (s.content v.filePath.toList).isSome = true)
    (hdiffs : ∀ j ∈ s.db.diffJobs, j.status = .completed → ∀ path, j.diffPath = some path →
      (s.content path.toList).isSome = true) (main : PublisherDb) (metadataSize dbSize : Nat) :
    run e s main metadataSize dbSize includeKeys true "tar" =
      .ok (fullArchive s main metadataSize dbSize includeKeys) := by
  have hpublic : exportKey e s "public.key" = .ok (keyEntries s "public.key") :=
    exportKey_of hfault (hkeys _ (by cases includeKeys <;> simp [keyNames]))
  have hsigning : exportIf includeKeys (exportKey e s "signing.key") =
      .ok (if includeKeys then keyEntries s "signing.key" else []) := by
    cases includeKeys with
    | true => exact exportKey_of hfault (hkeys _ (by simp [keyNames]))
    | false => rfl
  have hbinaries : exportBinaries e s = .ok (binariesEntries s) := by
    have hgather : Except.gather (fun binary => Except.gather (exportVersion e s binary)
        (s.db.listVersions binary.binaryId)) s.db.listBinaries =
        .ok (s.db.listBinaries.flatMap fun binary =>
          (s.db.listVersions binary.binaryId).flatMap (versionEntries s binary)) := by
      refine Except.gather_of_ok fun binary _ => Except.gather_of_ok fun v hv => ?_
      exact exportVersion_of hfault
        (hversions v (List.mem_of_mem_filter ((List.mem_insertionSort _).mp hv)))
    unfold exportBinaries binariesEntries
    split
    · rfl
    · rw [addDirectory_of hfault, hgather]
      rfl
  have hdiffsRun : exportDiffs e s = .ok (diffsEntries s) := by
    have hgather : Except.gather (exportDiff e s) (s.db.listDiffJobsByStatus .completed) =
        .ok ((s.db.listDiffJobsByStatus .completed).flatMap (diffEntries s)) := by
      refine Except.gather_of_ok fun job hjob => exportDiff_of hfault ?_
      obtain ⟨hjob, hdone⟩ := List.mem_filter.mp hjob
      exact hdiffs job hjob (by simpa using hdone)
    unfold exportDiffs diffsEntries
    dsimp only
    split
    · rfl
    · rw [addDirectory_of hfault, hgather]
      rfl
  unfold run ioError
  rw [hfault .openDb, addDirectory_of hfault, hpublic, hsigning, hbinaries, hdiffsRun]
  rfl

end Runs

end Export

/-! ## importing into a new directory -/

/- In a new directory nothing is merged: the database is copied, and the files of the archive go to
the places that the archive names. Whether the rows find them is a question of the paths that they
were written with. -/

/-- The files of the rows are there, with their hashes. -/
structure Intact (X : PublisherCrates) (s : Project) : Prop where
  versions : ∀ v ∈ s.db.versions, ∃ b, s.content v.filePath.toList = some b ∧
    (X.crypto.blake3 b).val = v.fileHashBlake3
  diffs : ∀ j ∈ s.db.diffJobs, j.status = .completed → ∃ path b, j.diffPath = some path ∧
    s.content path.toList = some b ∧ j.diffHashBlake3 = some (X.crypto.blake3 b).val

/-- A directory without a project, and without files where one would be. -/
structure Workspace.Fresh (w : Workspace) : Prop where
  db : w.db = none
  apart : ∀ f, (w.files.read f).isSome = true →
    ¬ f.Contains w.deltashipPath ∧ ¬ w.deltashipPath.Contains f

namespace Import

/-- The places of an archive that `import` copies. -/
def IsImported (includeKeys : Bool) (q : Path) : Prop :=
  (⟨false, ["binaries".toList]⟩ : Path).Contains q ∨ (⟨false, ["diffs".toList]⟩ : Path).Contains q ∨
    q = keyPlace "public.key" ∨ includeKeys = true ∧ q = keyPlace "signing.key"

/-- The path names the place of a file of the archive, with this content. -/
def Arrives (w : Workspace) (a : Archive) (includeKeys : Bool) (path : List Char) (b : Bytes) :
    Prop :=
  ∃ q, w.place q = w.resolve path ∧ IsImported includeKeys q ∧ lastAt a.entries q = some b

section New

variable {e : PublisherEnv} {w w' : Workspace} {tree : Files Path Bytes} {includeKeys : Bool}

/-- The files that an import moves are those of the archive, as the flags select them. -/
theorem mem_importedFiles {q : Path} :
    q ∈ payloadFiles tree ⟨includeKeys, true⟩ ++ keyFiles tree ⟨includeKeys, true⟩ ↔
      IsImported includeKeys q ∧ (tree.read q).isSome = true := by
  simp only [payloadFiles, keyFiles, treeFiles, IsImported, List.mem_append, List.mem_filter,
    Files.mem_paths, decide_eq_true_eq, if_true]
  cases includeKeys with
  | true => simp; grind
  | false => simp; grind

/-- Nothing stands in the way of the files that are copied to a new directory. -/
theorem failsWith_fresh (hfresh : w.Fresh) (htree : TreeOk tree)
    (hfault : ∀ site, e.faults site = none) :
    FailsWith e false tree w (fun _ _ => False) := by
  intro qs w₁ hcopied hqs q b hb err _ hfails
  rcases hfails with hfails | hfails | hfails
  · exact hfails (hfault _)
  · exact hfails (hfault _)
  · have hcreate : createFile w₁.files [] (w.place q) b = .ok (w₁.files.write (w.place q) b) := by
      refine createFile_eq_ok.mpr ⟨fun f hf hcomparable => ?_, by simp, rfl⟩
      rcases hcopied.cases hf with hbefore | ⟨q', hq', rfl, -⟩
      · obtain ⟨habove, hbelow⟩ := hfresh.apart f hbefore
        rcases hcomparable with hcontains | hcontains
        · have habs : f.absolute = w.deltashipPath.absolute := hcontains.1
          rcases List.prefix_or_prefix_of_prefix hcontains.2
            (deltashipPath_contains_place (w := w) (q := q)).2 with h | h
          · exact absurd ⟨habs, h⟩ habove
          · exact absurd ⟨habs.symm, h⟩ hbelow
        · exact absurd (deltashipPath_contains_place.trans hcontains) hbelow
      · have hq : (tree.read q).isSome = true := by rw [hb]; rfl
        have hrel := htree.relative q hq
        have hrel' := htree.relative q' (hqs q' hq')
        rcases hcomparable with hcontains | hcontains
        · rw [htree.apart q' q (hqs q' hq') hq (place_contains hrel' hrel hcontains)]
        · rw [htree.apart q q' hq (hqs q' hq') (place_contains hrel hrel' hcontains)]
    rw [hcreate] at hfails
    contradiction

/-- A directory without any of its files is no project. -/
theorem projectExists_of_fresh (hfresh : w.Fresh) : w.projectExists = false := by
  unfold Workspace.projectExists
  rw [hfresh.db, Option.isSome_none, Bool.false_or]
  refine Bool.eq_false_iff.mpr fun hex => ?_
  obtain ⟨f, hcontains, hf⟩ := existsAt_iff.mp hex
  exact (hfresh.apart f hf).2 hcontains

/-- An archive that cannot be extracted is not imported. -/
theorem wp_run_not_extracted {S : SemverCrate} {a : Archive} {merge overwrite : Bool} {err : String}
    (htree : extractArchive e a = .error err) :
    wp (run S e a merge overwrite) (fun _ _ => False) (fun _ _ => True) w := by
  unfold run
  simp only [wp_bind, wp_get, wp_ofExcept, htree]
  split <;> trivial

/-- In a new directory, the database is copied as it is, and the files to their places. -/
theorem wp_run_new {S : SemverCrate} {a : Archive} {db : PublisherDb} {n m : Nat}
    (hfresh : w.Fresh) (hfault : ∀ site, e.faults site = none)
    (hmetadata : a.metadata = some (⟨includeKeys, true⟩, n)) (hdb : a.db = some (db, m))
    (htree : extractArchive e a = .ok tree) :
    wp (run S e a false false)
      (fun _ w' => Copied false tree
        (payloadFiles tree ⟨includeKeys, true⟩ ++ keyFiles tree ⟨includeKeys, true⟩)
        { w with db := some db } w') (fun _ _ => False) w := by
  have hok : TreeOk tree := treeOk_of_extractArchive htree
  have hfail := failsWith_fresh hfresh hok hfault
  unfold run install removeExisting op
  simp only [wp_get, projectExists_of_fresh hfresh, checkOptions, Bool.and_self, Bool.false_and,
    Bool.false_eq_true, if_false, wp_bind, wp_ofExcept, htree, hmetadata, Option.map_some,
    Except.ofOption, wp_pure, hfault]
  refine wp_mono (fun _ w₁ h₁ => ?_) (fun _ _ h => h) (wp_importPayload hok hfail _)
  unfold importDatabase op
  simp only [wp_bind, wp_ofExcept, hdb, Option.map_some, Except.ofOption, wp_get, hfault, wp_pure,
    wp_modify, Except.toOption]
  have h₂ := h₁.withDb (some db)
  have hqs : ∀ q ∈ payloadFiles tree ⟨includeKeys, true⟩, (tree.read q).isSome = true :=
    fun q => isSome_of_mem_payloadFiles
  refine wp_mono (fun _ w₃ h₃ => ?_) (fun _ _ h => h)
    (h₂.importKeys hok hqs (hfail.withDb (some db) fun _ _ h => h) ⟨includeKeys, true⟩)
  simpa [verifyImport, op, hfault, h₃.db] using h₃

/-- What a path without a file has after the import. -/
theorem content_iff_arrives {a : Archive} {db : Option PublisherDb} {path : List Char} {b : Bytes}
    (htree : extractArchive e a = .ok tree)
    (hcopied : Copied false tree
      (payloadFiles tree ⟨includeKeys, true⟩ ++ keyFiles tree ⟨includeKeys, true⟩)
      { w with db := db } w')
    (habsent : w.content path = none) :
    w'.content path = some b ↔ Arrives w a includeKeys path b := by
  have hread := (extractArchive_ok htree).2
  have hresolve : w'.content path = w'.files.read (w.resolve path) := by
    unfold Workspace.content Workspace.resolve
    rw [hcopied.root]
  rw [hresolve]
  constructor
  · intro hb
    have hsome : (w'.files.read (w.resolve path)).isSome = true := by rw [hb]; rfl
    rcases hcopied.cases hsome with hbefore | ⟨q, hq, hplace, hsame⟩
    · exact absurd hbefore (by simpa [Workspace.content] using habsent)
    · refine ⟨q, hplace, (mem_importedFiles.mp hq).1, ?_⟩
      rw [← hread, ← hsame, hb]
  · rintro ⟨q, hplace, himported, hlast⟩
    rw [← hread] at hlast
    have hq : q ∈ payloadFiles tree ⟨includeKeys, true⟩ ++ keyFiles tree ⟨includeKeys, true⟩ :=
      mem_importedFiles.mpr ⟨himported, by rw [hlast]; rfl⟩
    have hcopy := hcopied.copied q hq fun h => Bool.false_ne_true h.1
    rw [hlast] at hcopy
    rw [← hplace]
    exact hcopy

end New

end Import

/-- The rows find their files after the import: their paths name places of the archive
with the right content. -/
structure RowsArrive (X : PublisherCrates) (db : PublisherDb) (w : Workspace) (a : Archive)
    (includeKeys : Bool) : Prop where
  versions : ∀ v ∈ db.versions, ∃ b, Import.Arrives w a includeKeys v.filePath.toList b ∧
    (X.crypto.blake3 b).val = v.fileHashBlake3
  diffs : ∀ j ∈ db.diffJobs, j.status = .completed → ∃ path b, j.diffPath = some path ∧
    Import.Arrives w a includeKeys path.toList b ∧
    j.diffHashBlake3 = some (X.crypto.blake3 b).val

/-- No file is where a row of the database says. -/
structure PathsAbsent (db : PublisherDb) (w : Workspace) : Prop where
  versions : ∀ v ∈ db.versions, w.content v.filePath.toList = none
  diffs : ∀ j ∈ db.diffJobs, j.status = .completed → ∀ path, j.diffPath = some path →
    w.content path.toList = none

/-- The project is exported with its binaries and the whole of its database, and what is imported
from the archive is the same project, with its files. -/
def Transfers (X : PublisherCrates) (e e' : PublisherEnv) (s : Project) (w : Workspace)
    (metadataSize dbSize : Nat) (includeKeys : Bool) : Prop :=
  ∃ a w', Export.run e s s.db metadataSize dbSize includeKeys true "tar" = .ok a ∧
    exec (Import.run X.semver e' a false false) w = (.ok (), w') ∧ w'.db = some s.db ∧
    Intact X (w'.project s.db)

/-- A project whose files are all there survives an export and an import in a new
directory, where its paths do not exist, if and only if the archive can be extracted and
each row's path is, in the new directory, the place of a file of the archive with the hash
of the row. -/
theorem transfer_iff (X : PublisherCrates) (e e' : PublisherEnv) (s : Project) (w : Workspace)
    (metadataSize dbSize : Nat) (includeKeys : Bool) (hfault : ∀ site, e.faults site = none)
    (hfault' : ∀ site, e'.faults site = none) (hintact : Intact X s) (hfresh : w.Fresh)
    (habsent : PathsAbsent s.db w) :
    Transfers X e e' s w metadataSize dbSize includeKeys ↔
      Export.KeysReadable s includeKeys ∧
      (Export.fullArchive s s.db metadataSize dbSize includeKeys).Fits ∧
      RowsArrive X s.db w (Export.fullArchive s s.db metadataSize dbSize includeKeys) includeKeys := by
  constructor
  · rintro ⟨a, w', hexport, himport, hdb, hafter⟩
    obtain rfl := Export.run_ok hexport
    cases htree : extractArchive e' (Export.fullArchive s s.db metadataSize dbSize includeKeys) with
    | error err => exact (wp_exec_ok (Import.wp_run_not_extracted htree) himport).elim
    | ok tree =>
        have hcopied := wp_exec_ok (Import.wp_run_new (S := X.semver) hfresh hfault' rfl rfl htree)
          himport
        refine ⟨?_, (extractArchive_ok htree).1, ⟨fun v hv => ?_, fun j hj hdone => ?_⟩⟩
        · exact Export.keysReadable_of_ok hexport
        · obtain ⟨b, hb, hhash⟩ := hafter.versions v hv
          rw [Workspace.content_project] at hb
          exact ⟨b, (Import.content_iff_arrives htree hcopied (habsent.versions v hv)).mp hb, hhash⟩
        · obtain ⟨path, b, hpath, hb, hhash⟩ := hafter.diffs j hj hdone
          rw [Workspace.content_project] at hb
          refine ⟨path, b, hpath, ?_, hhash⟩
          exact (Import.content_iff_arrives htree hcopied
            (habsent.diffs j hj hdone path hpath)).mp hb
  · rintro ⟨hkeys, hfits, hrows⟩
    have hexport := Export.run_of (e := e) hfault hkeys
      (fun v hv => by
        obtain ⟨b, hb, -⟩ := hintact.versions v hv
        rw [hb]
        rfl)
      (fun j hj hdone path hpath => by
        obtain ⟨path', b, hpath', hb, -⟩ := hintact.diffs j hj hdone
        obtain rfl := Option.some.inj (hpath'.symm.trans hpath)
        rw [hb]
        rfl) s.db metadataSize dbSize
    obtain ⟨tree, htree⟩ := extractArchive_of_fits (e := e') (fun _ => hfault' _) hfits
    have hwp := Import.wp_run_new (S := X.semver) hfresh hfault' rfl rfl htree
    cases himport : exec (Import.run X.semver e'
        (Export.fullArchive s s.db metadataSize dbSize includeKeys) false false) w with
    | mk result w' =>
        cases result with
        | error err => exact (wp_exec_error hwp himport).elim
        | ok u =>
            have hcopied := wp_exec_ok hwp himport
            refine ⟨_, w', hexport, himport, hcopied.db, ⟨fun v hv => ?_, fun j hj hdone => ?_⟩⟩
            · obtain ⟨b, hb, hhash⟩ := hrows.versions v hv
              rw [Workspace.content_project]
              exact ⟨b, (Import.content_iff_arrives htree hcopied (habsent.versions v hv)).mpr hb,
                hhash⟩
            · obtain ⟨path, b, hpath, hb, hhash⟩ := hrows.diffs j hj hdone
              refine ⟨path, b, hpath, ?_, hhash⟩
              rw [Workspace.content_project]
              exact (Import.content_iff_arrives htree hcopied
                (habsent.diffs j hj hdone path hpath)).mpr hb

/-! ### a project and its copy -/

/-- An empty directory on another host. -/
def sampleDirectory : Workspace := ⟨"/q".toList, none, Files.empty⟩

theorem sampleDirectory_fresh : sampleDirectory.Fresh :=
  ⟨rfl, fun f hf => absurd hf (by simp [sampleDirectory])⟩

/-- No path of a database is in it. -/
theorem sampleDirectory_pathsAbsent (db : PublisherDb) : PathsAbsent db sampleDirectory :=
  ⟨fun _ _ => rfl, fun _ _ _ _ _ => rfl⟩

/-- A project whose only version was registered from the place that an import gives it. -/
def samplePlaced : Project where
  root := .plain "/p".toList
  db :=
    { PublisherDb.empty with
      binaries := ⟨[⟨"b", "app", "linux-x86_64", "/p/.deltaship/binaries/app/1.0.0/linux-x86_64"⟩],
        by decide⟩
      versions := ⟨[sampleDbVersion "1.0.0" ".deltaship/binaries/app/1.0.0/linux-x86_64" []],
        by decide⟩ }
  files := Files.ofList [(normalize "/p/.deltaship/binaries/app/1.0.0/linux-x86_64".toList, [])]

/-- The project with the version in its place arrives. -/
theorem transfer_iff_placed :
    Intact samplePublisherCrates samplePlaced ∧
      Transfers samplePublisherCrates samplePublisherEnv samplePublisherEnv samplePlaced
        sampleDirectory 400 40960 false := by
  have hintact : Intact samplePublisherCrates samplePlaced := by
    refine ⟨fun v hv => ?_, fun j hj => absurd hj Table.not_mem_empty⟩
    rw [List.mem_singleton.mp hv]
    exact ⟨[], by decide, rfl⟩
  refine ⟨hintact, ?_⟩
  refine (transfer_iff samplePublisherCrates samplePublisherEnv samplePublisherEnv samplePlaced
    sampleDirectory 400 40960 false (fun _ => rfl) (fun _ => rfl) hintact sampleDirectory_fresh
    (sampleDirectory_pathsAbsent _)).mpr ⟨?_, ?_, ?_⟩
  · intro name hname
    rw [List.mem_singleton.mp hname]
    decide
  · have hok : (extractArchive samplePublisherEnv
        (Export.fullArchive samplePlaced samplePlaced.db 400 40960 false)).isOk = true := by decide
    cases htree : extractArchive samplePublisherEnv
        (Export.fullArchive samplePlaced samplePlaced.db 400 40960 false) with
    | error err =>
        rw [htree] at hok
        contradiction
    | ok tree => exact (extractArchive_ok htree).1
  · refine ⟨fun v hv => ?_, fun j hj => absurd hj Table.not_mem_empty⟩
    rw [List.mem_singleton.mp hv]
    refine ⟨[], ⟨⟨false, ["binaries".toList, "app".toList, "1.0.0".toList, "linux-x86_64".toList]⟩,
      by decide, .inl (by decide), by decide⟩, rfl⟩

/-- The sample project has all of its files. -/
theorem sampleDiffed_intact : Intact samplePublisherCrates sampleDiffed := by
  refine ⟨fun v hv => ?_, fun j hj _ => ?_⟩
  · rcases List.mem_cons.mp hv with rfl | hv
    · exact ⟨[], by decide, rfl⟩
    · rw [List.mem_singleton.mp hv]
      exact ⟨List.replicate 24 7, by decide, rfl⟩
  · rw [List.mem_singleton.mp hj]
    exact ⟨_, sampleDiff24, rfl, by decide, rfl⟩

/-- Without its place, a version is lost, and so is a diff. -/
theorem imported_rows_lose_files :
    ¬ ∀ (X : PublisherCrates) (e e' : PublisherEnv) (s : Project) (w : Workspace)
      (metadataSize dbSize : Nat) (includeKeys : Bool), (∀ site, e.faults site = none) →
      (∀ site, e'.faults site = none) → Intact X s → w.Fresh → PathsAbsent s.db w →
      Transfers X e e' s w metadataSize dbSize includeKeys := by
  intro h
  obtain ⟨a, w', hexport, himport, -, hafter⟩ := h samplePublisherCrates samplePublisherEnv
    samplePublisherEnv sampleDiffed sampleDirectory 400 40960 false (fun _ => rfl) (fun _ => rfl)
    sampleDiffed_intact sampleDirectory_fresh (sampleDirectory_pathsAbsent _)
  obtain rfl := Export.run_ok hexport
  have hgone : (exec (Import.run samplePublisherCrates.semver samplePublisherEnv
      (Export.fullArchive sampleDiffed sampleDiffed.db 400 40960 false) false false) sampleDirectory).2.content
        "v1".toList = none := by decide
  rw [himport] at hgone
  obtain ⟨b, hb, -⟩ := hafter.versions (sampleDbVersion "1.0.0" "v1" []) List.mem_cons_self
  rw [Workspace.content_project] at hb
  exact absurd (hgone.symm.trans hb) (Option.some_ne_none b).symm

end Deltaship
