import Deltaship.Publisher.Delta
import Deltaship.Publisher.Effects
import Deltaship.Publisher.Payload
import Deltaship.Publisher.Unpack

/-!
# Deltaship.Publisher.FailedImport

What a failed import leaves of the project that is there.

Here `import` is given the raw entries of an archive (`runRaw`), whatever they are; with an
archive that was exported, the model of `Import` is enough.  Nothing is changed before the
archive has been extracted and its metadata read.  After that nothing is undone: a merge that
fails has added what it has added, but what was there is still there (`failed_import`).
-/

namespace Deltaship

open Prog Lexical

namespace Import

/-- The crates that read the special files of an archive. -/
structure ArchiveCrates where
  /-- What `serde_json` makes of `metadata.json`; the error is that of the archive. -/
  metadata : Bytes → Except String ArchiveMetadata
  /-- The database in a file, if it can be opened. -/
  sqlite : Bytes → Except String PublisherDb

section Raw

variable (S : SemverCrate) (C : ArchiveCrates) (e : PublisherEnv)
  (faults : Tar.Site → Option HostFault) (tempDir : List Char)

/-- A file below a directory. -/
def child (dir : Path) (name : String) : Path := ⟨dir.absolute, dir.components ++ [name.toList]⟩

/-- `find_export_dir`. -/
def findExportDir (x : Tar.Unpacked) : Except String Path := do
  let target := normalize tempDir
  let metadata := child target "metadata.json"
  ioError e .findExportDir
  if x.dirs.contains (child target archiveBaseDir) then .ok (child target archiveBaseDir)
  else if (x.files.read metadata).isSome || x.dirs.contains metadata then .ok target
  else .error "Invalid archive: Could not find deltaship-export directory in archive"

/-- The files below a directory, with their paths from there. -/
def filesBelow (files : Files Path Bytes) (dir : Path) : Files Path Bytes :=
  Files.ofList ((files.paths.filter fun p => dir.Contains p).filterMap fun p =>
    (files.read p).map fun b => (⟨false, p.components.drop dir.components.length⟩, b))

/-- `read_extracted_metadata`. -/
def readExtractedMetadata (tree : Files Path Bytes) : Except String ArchiveMetadata := do
  let content ← Except.ofOption "Missing required file: metadata.json not found"
    (if (e.faults .readMetadata).isSome then none
      else tree.read ⟨false, ["metadata.json".toList]⟩)
  C.metadata content

/-- What `import::run` does with an archive before it changes anything. -/
def prepare (entries : List Tar.Entry) : Except String (Files Path Bytes × ArchiveMetadata) := do
  let unpacked := exec (Tar.extractArchive faults tempDir entries) {}
  unpacked.1
  let exportDir ← findExportDir e tempDir unpacked.2
  let tree := filesBelow unpacked.2.files exportDir
  let metadata ← readExtractedMetadata C e tree
  pure (tree, metadata)

/-- `publisher.db` of the archive. -/
def sourceDb (tree : Files Path Bytes) : Option (Except String PublisherDb) :=
  (tree.read ⟨false, ["publisher.db".toList]⟩).map C.sqlite

/-- `import::run`, for the entries of the archive if it is there. -/
def runRaw (input : String) (archive : Option (List Tar.Entry)) (merge overwrite : Bool) :
    WorkspaceM Unit := do
  let entries ← Prog.ofExcept (Except.ofOption s!"Archive not found: {input}" archive)
  let projectExists := (← get).projectExists
  Prog.ofExcept (checkOptions merge overwrite projectExists)
  let prepared ← Prog.ofExcept (prepare C e faults tempDir entries)
  install S e prepared.1 prepared.2 (sourceDb C prepared.1) merge overwrite projectExists

end Raw

/-! ## what is kept -/

/-- The rows that were there are still there. -/
structure RowsKept (db db' : PublisherDb) : Prop where
  binaries : ∀ b ∈ db.binaries, b ∈ db'.binaries
  versions : ∀ v ∈ db.versions, v ∈ db'.versions
  diffJobs : db'.diffJobs = db.diffJobs

/-- The rows that were there are still there, and no file has changed. -/
structure ProjectKept (s s' : Project) : Prop where
  root : s'.root = s.root
  files : s'.files = s.files
  rows : RowsKept s.db s'.db

/-- What was there is still there: the files with their content, and the rows. -/
structure Kept (w w' : Workspace) : Prop where
  root : w'.root = w.root
  files : ∀ p b, w.files.read p = some b → w'.files.read p = some b
  db : ∀ db, w.db = some db → ∃ db', w'.db = some db' ∧ RowsKept db db'

/-- The database is the same, and the files that were there are still there. -/
structure FilesAdded (w w' : Workspace) : Prop where
  root : w'.root = w.root
  db : w'.db = w.db
  files : ∀ p b, w.files.read p = some b → w'.files.read p = some b

/-- Nothing outside `.deltaship` differs. -/
structure OutsideKept (w w' : Workspace) : Prop where
  root : w'.root = w.root
  files : ∀ p, ¬ w.deltashipPath.Contains p → w'.files.read p = w.files.read p

/-- Where nothing was done, the rows are kept. -/
theorem RowsKept.refl (db : PublisherDb) : RowsKept db db := ⟨fun _ => id, fun _ => id, rfl⟩

/-- What keeps the rows in two steps keeps them. -/
theorem RowsKept.trans {db db' db'' : PublisherDb} (h : RowsKept db db') (h' : RowsKept db' db'') :
    RowsKept db db'' :=
  ⟨fun b hb => h'.binaries b (h.binaries b hb), fun v hv => h'.versions v (h.versions v hv),
    h'.diffJobs.trans h.diffJobs⟩

instance : IsPreorder Project ProjectKept where
  refl s := ⟨rfl, rfl, .refl s.db⟩
  trans _ _ _ h h' := ⟨h'.root.trans h.root, h'.files.trans h.files, h.rows.trans h'.rows⟩

instance : IsPreorder Workspace Kept where
  refl _ := ⟨rfl, fun _ _ => id, fun db hdb => ⟨db, hdb, .refl db⟩⟩
  trans _ _ _ h h' := by
    refine ⟨h'.root.trans h.root, fun p b hb => h'.files p b (h.files p b hb), fun db hdb => ?_⟩
    obtain ⟨db', hdb', hrows⟩ := h.db db hdb
    obtain ⟨db'', hdb'', hrows'⟩ := h'.db db' hdb'
    exact ⟨db'', hdb'', hrows.trans hrows'⟩

instance : IsPreorder Workspace FilesAdded where
  refl _ := ⟨rfl, rfl, fun _ _ => id⟩
  trans _ _ _ h h' := ⟨h'.root.trans h.root, h'.db.trans h.db,
    fun p b hb => h'.files p b (h.files p b hb)⟩

instance : IsPreorder Workspace OutsideKept where
  refl _ := ⟨rfl, fun _ _ => rfl⟩
  trans w w' _ h h' := by
    have hpath : w'.deltashipPath = w.deltashipPath := by
      unfold Workspace.deltashipPath Workspace.resolve
      rw [h.root]
    exact ⟨h'.root.trans h.root, fun p hp =>
      (h'.files p (by rwa [hpath])).trans (h.files p hp)⟩

/-- Where files were only added, the project is kept. -/
theorem FilesAdded.kept {w w' : Workspace} (h : FilesAdded w w') : Kept w w' :=
  ⟨h.root, h.files, fun db hdb => ⟨db, h.db.trans hdb, .refl db⟩⟩

/-! ## the database -/

section Database

variable {S : SemverCrate} {e : PublisherEnv} {source : PublisherDb} {binary newBinary : DbBinary}
  {version : DbVersion} {site : PublisherSite}

/-- A call that can fail does nothing by itself. -/
theorem preserves_hostOp {R : Project → Project → Prop} [IsPreorder Project R] :
    Preserves R (hostOp e site) := by
  unfold hostOp
  split
  · exact .pure
  · exact .throw

/-- A version that is inserted, and may then be signed, does not touch the others. -/
theorem keeps_mergeVersion : Preserves ProjectKept (mergeVersion S e binary newBinary version) := by
  refine .of_wp fun s => ?_
  unfold mergeVersion
  simp only [wp_bind, wp_get]
  refine wp_dbInsert (fun row db hinsert => ?_) fun _ => refl_of ProjectKept s
  obtain ⟨_, versions, -, -, -, hversions, rfl⟩ := PublisherDb.insertVersion_eq_ok hinsert
  have hold : ∀ v ∈ s.db.versions, v ∈ versions :=
    fun v hv => (Table.mem_insert hversions).mpr (.inl hv)
  have hinserted : ProjectKept s { s with db := { s.db with versions := versions } } :=
    ⟨rfl, rfl, fun _ => id, hold, rfl⟩
  split
  · refine wp_dbUpdate (fun db hset => ?_) fun _ => hinserted
    obtain ⟨hbinaries, hdiffJobs, hrows⟩ := updateVersion_eq_ok hset
    refine ⟨rfl, rfl, fun b hb => hbinaries ▸ hb, fun v hv => ?_, hdiffJobs⟩
    exact (hrows v).mpr ⟨v, hold v hv, (if_neg (Table.key_ne_of_insert hversions hv)).symm⟩
  · exact hinserted

/-- Merging one binary removes no row and no file. -/
theorem keeps_mergeBinary : Preserves ProjectKept (mergeBinary S e source binary) := by
  refine .of_wp fun s => ?_
  unfold mergeBinary
  rw [wp_bind]
  refine wp_dbRead ?_ fun _ => refl_of ProjectKept s
  split
  · exact refl_of ProjectKept s
  rw [wp_bind]
  refine wp_hostOp ?_ fun _ => refl_of ProjectKept s
  simp only [wp_bind, wp_get]
  refine wp_dbInsert (fun row db hinsert => ?_) fun _ => refl_of ProjectKept s
  obtain ⟨_, binaries, -, -, -, hbinaries, rfl⟩ := PublisherDb.insertBinary_eq_ok hinsert
  have hinserted : ProjectKept s { s with db := { s.db with binaries := binaries } } :=
    ⟨rfl, rfl, fun b hb => (Table.mem_insert hbinaries).mpr (.inl hb), fun _ => id, rfl⟩
  have hversions : Preserves ProjectKept
      (forEach (mergeVersion S e binary row) (source.listVersions binary.binaryId)) :=
    .forEach (fun _ => keeps_mergeVersion) _
  exact hversions.wp (fun _ _ h => trans_of ProjectKept hinserted h)
    fun _ _ h => trans_of ProjectKept hinserted h

theorem keeps_mergeDatabases : Preserves ProjectKept (mergeDatabases S e source) :=
  .bind preserves_hostOp fun _ => .forEach (fun _ => keeps_mergeBinary) _

end Database

/-! ## the files -/

section Files

variable {e : PublisherEnv} {site : PublisherSite} {tree : Files Path Bytes}
  {metadata : ArchiveMetadata} {w : Workspace} {q : Path} {b : Bytes} {merge : Bool}
  {R : Workspace → Workspace → Prop} [IsPreorder Workspace R]

/-- A call that can fail does nothing by itself. -/
theorem preserves_op : Preserves R (op e site) := by
  unfold op
  split
  · exact .pure
  · exact .throw

/-- What holds of the copy of one file holds of the whole payload. -/
theorem preserves_importPayload (hcopy : ∀ q b, Preserves R (copyFile e merge q b)) :
    Preserves R (importPayload e tree metadata merge) := by
  have htree : ∀ dir, Preserves R (importTree e tree merge dir) := fun dir => by
    refine .forEach (fun q => ?_) _
    split
    · exact .pure
    · exact hcopy q _
  unfold importPayload
  exact .ite (.bind (htree _) fun _ => htree _) .pure

/-- Importing keys does what copying a file does. -/
theorem preserves_importKeys (hcopy : ∀ q b, Preserves R (copyFile e merge q b)) :
    Preserves R (importKeys e tree metadata merge) := by
  have hkey : ∀ name, Preserves R (importKey e tree merge name) := fun name => by
    unfold importKey
    split
    · exact .pure
    · exact hcopy _ _
  exact .bind (hkey _) fun _ => .ite (hkey _) .pure

/-- A file is created at its place, or nothing happens. -/
theorem wp_copyFile {Q : Unit → Workspace → Prop} {E : String → Workspace → Prop}
    (hskip : Q () w) (hfail : ∀ err, E err w)
    (hwrite : ¬ (merge = true ∧ w.existsAt (w.place q) = true) → ∀ b',
      Q () { w with files := w.files.write (w.place q) b' } ∧
        ∀ err, E err { w with files := w.files.write (w.place q) b' }) :
    wp (copyFile e merge q b) Q E w := by
  unfold copyFile
  rw [wp_bind, wp_get]
  split
  · exact hskip
  next hfree =>
  rw [wp_bind]
  refine wp_op ?_ hfail
  split
  · rw [wp_bind, wp_ofExcept]
    split
    · next files hcreate =>
        obtain ⟨-, -, rfl⟩ := createFile_eq_ok.mp hcreate
        exact (hwrite (by simpa using hfree) b).1
    · exact hfail _
  · next fault _ =>
      rw [wp_bind, wp_ofExcept]
      split
      · next files hcreate =>
          obtain ⟨-, -, rfl⟩ := createFile_eq_ok.mp hcreate
          exact (hwrite (by simpa using hfree) _).2 _
      · exact hfail _

/-- A merge does not copy over a file. -/
theorem adds_copyFile (q : Path) (b : Bytes) : Preserves FilesAdded (copyFile e true q b) := by
  refine .of_wp fun w => wp_copyFile (refl_of FilesAdded w) (fun _ => refl_of FilesAdded w)
    fun hfree b' => ?_
  have hadded : FilesAdded w { w with files := w.files.write (w.place q) b' } := by
    refine ⟨rfl, rfl, fun p c hc => ?_⟩
    have hne : p ≠ w.place q := by
      rintro rfl
      exact hfree ⟨rfl, existsAt_iff.mpr ⟨_, .refl _, by simp [hc]⟩⟩
    rwa [w.files.read_write_ne b' hne]
  exact ⟨hadded, fun _ => hadded⟩

/-- All places are below `.deltaship`. -/
theorem outsideKept_copyFile (q : Path) (b : Bytes) :
    Preserves OutsideKept (copyFile e merge q b) := by
  refine .of_wp fun w => wp_copyFile (refl_of OutsideKept w) (fun _ => refl_of OutsideKept w)
    fun _ b' => ?_
  have hkept : OutsideKept w { w with files := w.files.write (w.place q) b' } := by
    refine ⟨rfl, fun p hp => w.files.read_write_ne b' ?_⟩
    rintro rfl
    exact hp deltashipPath_contains_place
  exact ⟨hkept, fun _ => hkept⟩

end Files

/-! ## the command -/

/- The stages of an import: the archive is extracted and read, the options are checked, existing
files are removed if they are to be overwritten, the database is merged or copied, and the files
follow. A failure is looked at by the stage in which it happens. -/

section Command

variable {S : SemverCrate} {e : PublisherEnv} {source : Option (Except String PublisherDb)}
  {tree : Files Path Bytes} {metadata : ArchiveMetadata} {w : Workspace}
  {merge overwrite projectExists : Bool}

/-- A merge of databases keeps the rows; a copy is made only if there is no database. -/
theorem keeps_importDatabase : Preserves Kept (importDatabase S e source true) := by
  refine .of_wp fun w => ?_
  unfold importDatabase
  rw [wp_bind, wp_ofExcept]
  split
  · rw [wp_bind, wp_get]
    cases hdb : w.db with
    | none =>
        rw [wp_bind]
        refine wp_op ?_ fun _ => refl_of Kept w
        exact ⟨rfl, fun _ _ => id, by simp [hdb]⟩
    | some db =>
        rw [wp_bind]
        refine wp_op ?_ fun _ => refl_of Kept w
        rw [wp_bind, wp_ofExcept]
        split
        · rw [wp_bind]
          refine wp_op ?_ fun _ => refl_of Kept w
          rw [wp_onProject]
          have hkept : ∀ s : Project, ProjectKept (w.project db) s →
              Kept w ⟨w.root, some s.db, s.files⟩ := fun s hs =>
            ⟨rfl, fun p b hb => by rwa [hs.files], fun db' hdb' =>
              ⟨s.db, rfl, Option.some.inj (hdb.symm.trans hdb') ▸ hs.rows⟩⟩
          exact keeps_mergeDatabases.wp (fun _ s => hkept s) fun _ s => hkept s
        · exact refl_of Kept w
  · exact refl_of Kept w

/-- Without a database in the archive, none is touched. -/
theorem adds_importDatabase (hsource : ∀ db, source ≠ some (.ok db)) :
    Preserves FilesAdded (importDatabase S e source true) := by
  refine .of_wp fun w => ?_
  have hrefl := refl_of FilesAdded w
  unfold importDatabase
  rw [wp_bind, wp_ofExcept]
  split
  · next source' hsome =>
      obtain ⟨err, rfl⟩ : ∃ err, source' = .error err := by
        cases source' with
        | ok db => exact absurd (Except.ofOption_eq_ok.mp hsome) (hsource db)
        | error err => exact ⟨err, rfl⟩
      rw [wp_bind, wp_get]
      cases hdb : w.db with
      | none =>
          rw [wp_bind]
          refine wp_op ?_ fun _ => hrefl
          exact ⟨rfl, hdb.symm, fun _ _ => id⟩
      | some db =>
          rw [wp_bind]
          exact wp_op hrefl fun _ => hrefl
  · exact hrefl

/-- Importing the database changes nothing outside the project. -/
theorem outsideKept_importDatabase : Preserves OutsideKept (importDatabase S e source merge) := by
  unfold importDatabase
  refine .bind .ofExcept fun source => .bind .get fun w => ?_
  split
  · next db _ =>
      refine .bind preserves_op fun _ => .bind .ofExcept fun _ => .bind preserves_op fun _ =>
        .of_wp fun w => ?_
      rw [wp_onProject]
      have hkept : ∀ s : Project, ProjectKept (w.project db) s →
          OutsideKept w ⟨w.root, some s.db, s.files⟩ :=
        fun s hs => ⟨rfl, fun p _ => congrArg (Files.read · p) hs.files⟩
      exact keeps_mergeDatabases.wp (fun _ s => hkept s) fun _ s => hkept s
  · exact .bind preserves_op fun _ w => ⟨rfl, fun _ _ => rfl⟩

/-- Only files of the project are removed. -/
theorem outsideKept_removeExisting :
    Preserves OutsideKept (removeExisting e overwrite projectExists) := by
  have hremove : ∀ (w : Workspace) (db : Option PublisherDb) (ps : List Path),
      (∀ p ∈ ps, p ∈ w.projectFiles) →
      OutsideKept w { w with db := db, files := ps.foldl Files.remove w.files } :=
    fun w db ps hps => ⟨rfl, fun p hp => Files.read_foldl_remove_of_notMem fun hmem =>
      hp (of_decide_eq_true (List.mem_filter.mp (hps p hmem)).2)⟩
  unfold removeExisting
  refine .ite ?_ .pure
  split
  · exact fun w => hremove w _ _ fun _ => id
  · exact .bind (fun w => hremove w _ _ fun _ => List.mem_of_mem_take) fun _ => .throw

/-- What holds of each stage of an import holds of the import. -/
theorem preserves_install {R : Workspace → Workspace → Prop} [IsPreorder Workspace R]
    (hremove : Preserves R (removeExisting e overwrite projectExists))
    (hcopy : ∀ q b, Preserves R (copyFile e merge q b))
    (hdatabase : Preserves R (importDatabase S e source merge)) :
    Preserves R (install S e tree metadata source merge overwrite projectExists) := by
  have hverify : Preserves R (verifyImport e source) := by
    refine .bind preserves_op fun _ => .bind .get fun w => ?_
    split
    · exact .pure
    · exact .throw
    · exact .throw
  exact .bind hremove fun _ => .bind preserves_op fun _ =>
    .bind (preserves_importPayload hcopy) fun _ => .bind hdatabase fun _ =>
    .bind (preserves_importKeys hcopy) fun _ => hverify

/-- An import without --overwrite keeps the project, wherever it fails. -/
theorem keeps_install :
    Preserves Kept (install S e tree metadata source true false projectExists) :=
  preserves_install .pure (fun q b => (adds_copyFile q b).mono fun _ _ h => h.kept)
    keeps_importDatabase

theorem adds_install (hsource : ∀ db, source ≠ some (.ok db)) :
    Preserves FilesAdded (install S e tree metadata source true false projectExists) :=
  preserves_install .pure adds_copyFile (adds_importDatabase hsource)

/-- Nothing outside the project changes, whatever the flags are. -/
theorem outsideKept_install :
    Preserves OutsideKept (install S e tree metadata source merge overwrite projectExists) :=
  preserves_install outsideKept_removeExisting outsideKept_copyFile outsideKept_importDatabase

end Command

section Outcome

variable {S : SemverCrate} {C : ArchiveCrates} {e : PublisherEnv}
  {faults : Tar.Site → Option HostFault} {tempDir : List Char} {input : String}
  {archive : Option (List Tar.Entry)} {merge overwrite : Bool} {w w' : Workspace}
  {r : Except String Unit}

/-- There is no archive, the options are refused, or the archive or its metadata cannot be read. -/
def Refused (C : ArchiveCrates) (e : PublisherEnv) (faults : Tar.Site → Option HostFault)
    (tempDir : List Char) (archive : Option (List Tar.Entry)) (merge overwrite : Bool)
    (w : Workspace) : Prop :=
  ∀ entries ∈ archive, checkOptions merge overwrite w.projectExists = .ok () →
    ∀ prepared, prepare C e faults tempDir entries ≠ .ok prepared

/-- The archive has no `publisher.db` that can be opened. -/
def NoDatabase (C : ArchiveCrates) (e : PublisherEnv) (faults : Tar.Site → Option HostFault)
    (tempDir : List Char) (archive : Option (List Tar.Entry)) : Prop :=
  ∀ entries ∈ archive, ∀ prepared, prepare C e faults tempDir entries = .ok prepared →
    ∀ db, sourceDb C prepared.1 ≠ some (.ok db)

/-- An archive with a link, or with a path that is not validated, cannot be read. -/
theorem prepare_ne_ok {entries : List Tar.Entry} (h : ∃ entry ∈ entries, ¬ entry.Acceptable)
    (prepared : Files Path Bytes × ArchiveMetadata) :
    prepare C e faults tempDir entries ≠ .ok prepared := by
  intro hprepared
  obtain ⟨entry, hentry, hno⟩ := h
  obtain ⟨_, hok, -⟩ := Except.bind_eq_ok.mp hprepared
  have haccepted := wp_exec_ok (Tar.wp_extractArchive tempDir entries) (exec_of_fst hok)
  exact hno (haccepted.2 entry hentry)

/-- An import is refused and changes nothing, or it goes on with what it has read. -/
theorem runRaw_cases
    (hrun : exec (runRaw S C e faults tempDir input archive merge overwrite) w = (r, w')) :
    Refused C e faults tempDir archive merge overwrite w ∧ w' = w ∨
      ∃ entries ∈ archive, ∃ prepared,
        checkOptions merge overwrite w.projectExists = .ok () ∧
        prepare C e faults tempDir entries = .ok prepared ∧
        exec (install S e prepared.1 prepared.2 (sourceDb C prepared.1) merge overwrite
          w.projectExists) w = (r, w') := by
  unfold runRaw at hrun
  simp only [exec_bind, exec_ofExcept, exec_get] at hrun
  cases archive with
  | none =>
      simp only [Except.ofOption, Prod.mk.injEq] at hrun
      exact .inl ⟨by simp [Refused], hrun.2.symm⟩
  | some entries =>
      simp only [Except.ofOption] at hrun
      cases hoptions : checkOptions merge overwrite w.projectExists with
      | error err =>
          simp only [hoptions, Prod.mk.injEq] at hrun
          exact .inl ⟨by simp [Refused, hoptions], hrun.2.symm⟩
      | ok u =>
          cases hprepare : prepare C e faults tempDir entries with
          | error err =>
              simp only [hoptions, hprepare, Prod.mk.injEq] at hrun
              exact .inl ⟨by simp [Refused, hprepare], hrun.2.symm⟩
          | ok prepared =>
              simp only [hoptions, hprepare] at hrun
              exact .inr ⟨entries, rfl, prepared, rfl, hprepare, hrun⟩

/-- A merge goes on only if nothing is to be overwritten. -/
theorem overwrite_eq_false {projectExists : Bool}
    (h : checkOptions true overwrite projectExists = .ok ()) : overwrite = false := by
  cases overwrite with
  | false => rfl
  | true => simp [checkOptions] at h

/-- An import that fails before it changes anything leaves everything as it was, and so does one
whose archive has a link or an unsafe path.  A merge that fails keeps all files and rows, and it
leaves the database alone if the archive has none.  No import touches a file outside the
project. -/
theorem failed_import (S : SemverCrate) (C : ArchiveCrates) (e : PublisherEnv)
    (faults : Tar.Site → Option HostFault) (tempDir : List Char) (input : String)
    (archive : Option (List Tar.Entry)) (merge overwrite : Bool) (w w' : Workspace) (err : String)
    (hrun : exec (runRaw S C e faults tempDir input archive merge overwrite) w = (.error err, w')) :
    (Refused C e faults tempDir archive merge overwrite w → w' = w) ∧
    ((∀ entries ∈ archive, ∃ entry ∈ entries, ¬ entry.Acceptable) → w' = w) ∧
    (merge = true → Kept w w' ∧ (NoDatabase C e faults tempDir archive → w'.db = w.db)) ∧
    OutsideKept w w' := by
  obtain ⟨hrefused, rfl⟩ | ⟨entries, hentries, prepared, hoptions, hprepare, hinstall⟩ :=
    runRaw_cases hrun
  · exact ⟨fun _ => rfl, fun _ => rfl, fun _ => ⟨refl_of Kept w', fun _ => rfl⟩,
      refl_of OutsideKept w'⟩
  · refine ⟨fun hrefused => absurd hprepare (hrefused entries hentries hoptions prepared),
      fun hbad => absurd hprepare (prepare_ne_ok (hbad entries hentries) prepared),
      fun hmerge => ?_, ?_⟩
    · subst hmerge
      obtain rfl := overwrite_eq_false hoptions
      exact ⟨keeps_install.of_exec hinstall, fun hnone =>
        ((adds_install (hnone entries hentries prepared hprepare)).of_exec hinstall).db⟩
    · exact outsideKept_install.of_exec hinstall

end Outcome

/-! ## a merge without a database -/

/-- An archive with a binary and without `publisher.db`. -/
def samplePayload : List Tar.Entry :=
  [⟨"deltaship-export/metadata.json".toList, .regular, some 1, [1]⟩,
    ⟨"deltaship-export/binaries/app/1.0.0/linux-x86_64".toList, .regular, some 1, [7]⟩]

/-- Its metadata can be read. -/
def sampleArchiveCrates : ArchiveCrates where
  metadata _ := .ok ⟨false, true⟩
  sqlite _ := .error "Database error: file is not a database"

/-- The directory of the sample project. -/
def sampleDirectory : Workspace := ⟨"/p".toList, some sampleProject.db, sampleProject.files⟩

/-- The archive is merged into the sample project. -/
def samplePayloadMerge : Except String Unit × Workspace :=
  exec (runRaw sampleSemver sampleArchiveCrates samplePublisherEnv (fun _ => none) "/t".toList
    "app.tar.gz" (some samplePayload) true false) sampleDirectory

/-- The sample archive has no database, and its merge fails. -/
theorem samplePayloadMerge_fails :
    exec (runRaw sampleSemver sampleArchiveCrates samplePublisherEnv (fun _ => none) "/t".toList
        "app.tar.gz" (some samplePayload) true false) sampleDirectory =
      (.error "Archive is missing publisher.db", samplePayloadMerge.2) :=
  exec_of_fst rfl

/-- The merge fails, and all that was there is still there. -/
theorem failed_import_sample :
    Kept sampleDirectory samplePayloadMerge.2 ∧ samplePayloadMerge.2.db = sampleDirectory.db := by
  obtain ⟨-, -, hmerge, -⟩ := failed_import _ _ _ _ _ _ _ _ _ _ _ _ samplePayloadMerge_fails
  obtain ⟨hkept, hdb⟩ := hmerge rfl
  exact ⟨hkept, hdb fun _ _ _ _ db => by simp [sourceDb, sampleArchiveCrates]⟩

/-! ## a merge of a binary without a file -/

/-- A binary whose file is in the archive, and one whose file is nowhere. -/
def sampleIncomplete : PublisherDb :=
  { PublisherDb.empty with
    binaries := ⟨[⟨"b", "app", "linux-x86_64", "/v1"⟩, ⟨"c", "tool", "linux-x86_64", "/v2"⟩],
      by decide⟩
    versions := ⟨[sampleDbVersion "1.0.0" "v1" [7]], by decide⟩ }

/-- `publisher.db` is this database. -/
def sampleIncompleteCrates : ArchiveCrates where
  metadata _ := .ok ⟨false, true⟩
  sqlite _ := .ok sampleIncomplete

/-- A project without files. -/
def sampleBlank : Workspace := ⟨"/p".toList, some PublisherDb.empty, Files.empty⟩

/-- The entries of the archive. -/
def sampleIncompleteEntries : List Tar.Entry :=
  ⟨"deltaship-export/publisher.db".toList, .regular, some 1, [2]⟩ :: samplePayload

/-- The archive is merged into the project. -/
def sampleIncompleteMerge : Except String Unit × Workspace :=
  exec (runRaw sampleSemver sampleIncompleteCrates samplePublisherEnv (fun _ => none) "/t".toList
    "app.tar.gz" (some sampleIncompleteEntries) true false) sampleBlank

/-- The merge fails at the second binary; the first one, and its file, are left. -/
theorem failed_import_changes : ¬ ∀ (S : SemverCrate) (C : ArchiveCrates) (e : PublisherEnv)
    (faults : Tar.Site → Option HostFault) (tempDir : List Char) (input : String)
    (archive : Option (List Tar.Entry)) (merge overwrite : Bool) (w w' : Workspace) (err : String),
    w.projectExists = true → (merge = true ∨ overwrite = true) →
    exec (runRaw S C e faults tempDir input archive merge overwrite) w = (.error err, w') →
    w'.db = w.db ∨ w'.files = w.files := by
  intro h
  have hfails : sampleIncompleteMerge.1 =
      .error "Invalid data: Binary path does not exist: /v2" := rfl
  obtain hdb | hfiles := h sampleSemver sampleIncompleteCrates samplePublisherEnv (fun _ => none)
    "/t".toList "app.tar.gz" (some sampleIncompleteEntries) true false sampleBlank _ _ rfl
    (.inl rfl) (exec_of_fst hfails)
  · have hrows : (sampleIncompleteMerge.2.db.map fun db => db.versions.rows.length) = some 1 := rfl
    have hnone : (sampleBlank.db.map fun db => db.versions.rows.length) = some 0 := rfl
    rw [sampleIncompleteMerge, hdb, hnone] at hrows
    contradiction
  · have hsize : sampleIncompleteMerge.2.files.size = 1 := rfl
    rw [sampleIncompleteMerge, hfiles] at hsize
    contradiction

end Import

end Deltaship
