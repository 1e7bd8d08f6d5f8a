import Deltaship.Publisher.Archive

/-!
# Deltaship.Publisher.Import

`import.rs`: a project is imported from an archive, alone, over an existing one, or into
an existing one.

The paths of an extracted tree have no `..` (`validateArchiveEntryPath`), so the checks
that `import` makes of them again cannot fail and are left out.  Files are copied in the
order of the tree; no two of them have the same place.
-/

namespace Deltaship

open Prog Lexical

/-- A directory, with or without a project in it. -/
structure Workspace where
  root : List Char
  /-- `publisher.db`, if it is there.  One that cannot be opened is a failure of the command that
  opens it, unless it has just been imported: then there is none. -/
  db : Option PublisherDb
  files : Files Path Bytes
deriving DecidableEq

namespace Workspace

/-- The file that a path names. -/
def resolve (w : Workspace) (path : List Char) : Path := normalize (join w.root path)

/-- The content of the file at a path. -/
def content (w : Workspace) (path : List Char) : Option Bytes := w.files.read (w.resolve path)

/-- The directory of the project. -/
def deltashipPath (w : Workspace) : Path := w.resolve deltashipDir.toList

/-- Where a file of an archive is copied to. -/
def place (w : Workspace) (q : Path) : Path :=
  ⟨w.deltashipPath.absolute, w.deltashipPath.components ++ q.components⟩

/-- `Path::exists`: a file, or a directory with files. -/
def existsAt (w : Workspace) (p : Path) : Bool := w.files.paths.any fun f => p.Contains f

/-- Whether there is a project. -/
def projectExists (w : Workspace) : Bool := w.db.isSome || w.existsAt w.deltashipPath

/-- The project with this database. -/
def project (w : Workspace) (db : PublisherDb) : Project := ⟨.plain w.root, db, w.files⟩

/-- There are no links in the directory, so the project finds the same files. -/
theorem content_project (w : Workspace) (db : PublisherDb) (path : List Char) :
    (w.project db).content path = w.content path := by
  unfold Project.content content resolve
  rw [Project.resolve_plain rfl]
  rfl

/-- The files of the project. -/
def projectFiles (w : Workspace) : List Path :=
  w.files.paths.filter fun p => w.deltashipPath.Contains p

/-- `fs::remove_dir_all` of the project. -/
def removeProject (w : Workspace) : Workspace :=
  { w with
    db := none
    files := w.projectFiles.foldl Files.remove w.files }

/-- A removal that fails when this many files are gone; the database is the last one. -/
def removeFiles (n : Nat) (w : Workspace) : Workspace :=
  { w with
    db := if n ≤ w.projectFiles.length then w.db else none
    files := (w.projectFiles.take n).foldl Files.remove w.files }

end Workspace

/-- A command in a directory that may not have a project. -/
abbrev WorkspaceM (α : Type) : Type := Prog Workspace String α

namespace Import

variable (S : SemverCrate) (e : PublisherEnv)

/-- Fail if the operation fails. -/
def op (site : PublisherSite) : WorkspaceM Unit :=
  match e.faults site with
  | none => pure ()
  | some fault => throw fault.text

/-- Run a command of the project. -/
def onProject {α : Type} (db : PublisherDb) (m : PublisherM α) : WorkspaceM α :=
  ExceptT.mk fun w =>
    ((exec m (w.project db)).1,
      ⟨w.root, some (exec m (w.project db)).2.db, (exec m (w.project db)).2.files⟩)

/-! ## the files -/

/-- Copy one file to its place.  If the file can be created but not all of the data copied, the
front of it is left. -/
def copyFile (merge : Bool) (q : Path) (b : Bytes) : WorkspaceM Unit := do
  let w ← get
  if merge && w.existsAt (w.place q) then pure ()
  else do
    op e (.copyFile (w.place q))
    match e.faults (.copyData (w.place q)) with
    | none => do
        let files ← Prog.ofExcept (createFile w.files [] (w.place q) b)
        modify fun w => { w with files := files }
    | some fault => do
        let files ← Prog.ofExcept (createFile w.files [] (w.place q) (b.take fault.done))
        modify fun w => { w with files := files }
        throw fault.text

/-- `import_binaries` and `import_diffs`: copy the files below a directory. -/
def importTree (tree : Files Path Bytes) (merge : Bool) (dir : String) : WorkspaceM Unit :=
  forEach (fun q => match tree.read q with
    | none => pure ()
    | some b => copyFile e merge q b)
    (tree.paths.filter fun q => (⟨false, [dir.toList]⟩ : Path).Contains q)

/-- `import_binaries`. -/
def importBinaries (tree : Files Path Bytes) (merge : Bool) : WorkspaceM Unit :=
  importTree e tree merge "binaries"

/-- `import_diffs`. -/
def importDiffs (tree : Files Path Bytes) (merge : Bool) : WorkspaceM Unit :=
  importTree e tree merge "diffs"

/-- The binaries and the diffs, if the archive has them. -/
def importPayload (tree : Files Path Bytes) (metadata : ArchiveMetadata) (merge : Bool) :
    WorkspaceM Unit :=
  if metadata.includesBinaries then do
    importBinaries e tree merge
    importDiffs e tree merge
  else pure ()

/-- Copy a key, if it is in the archive. -/
def importKey (tree : Files Path Bytes) (merge : Bool) (name : String) : WorkspaceM Unit :=
  match tree.read ⟨false, ["keys".toList, name.toList]⟩ with
  | none => pure ()
  | some b => copyFile e merge ⟨false, ["keys".toList, name.toList]⟩ b

/-- `import_keys`. -/
def importKeys (tree : Files Path Bytes) (metadata : ArchiveMetadata) (merge : Bool) :
    WorkspaceM Unit := do
  importKey e tree merge "public.key"
  if metadata.includesKeys then importKey e tree merge "signing.key" else pure ()

/-! ## the database -/

/-- `imported_binary_file`. -/
def importedBinaryFile (binaryName versionString platform : String) : List Char :=
  join (join (join (join deltashipDir.toList "binaries".toList) binaryName.toList)
    versionString.toList) platform.toList

/-- The path that a version is recorded with: the imported file if it is there. -/
def importedPath (s : Project) (binary : DbBinary) (version : DbVersion) : String :=
  let imported := importedBinaryFile binary.binaryName version.versionString binary.platform
  if (s.content imported).isSome then String.ofList imported else version.filePath

/-- Add a version. -/
def mergeVersion (binary : DbBinary) (newBinary : DbBinary) (version : DbVersion) :
    PublisherM Unit := do
  let filePath := importedPath (← get) binary version
  let newVersion ← dbInsert e (.mergeVersion version.versionId)
    (PublisherDb.insertVersion S (e.uuid (.mergedVersion version.versionId))
      (e.mergedAt version.versionId)
      ⟨newBinary.binaryId, version.versionString, filePath, version.fileSizeBytes,
        version.fileHashBlake3, version.fileHashSha256⟩)
  match version.signatureEd25519, version.signatureTimestamp with
  | some sig, some ts =>
      dbUpdate e (.mergeSignature version.versionId)
        (PublisherDb.setVersionSignature newVersion.versionId sig ts)
  | _, _ => pure ()

/-- The path that a binary is recorded with: the first imported file that is there. -/
def importedBinaryPath (s : Project) (binary : DbBinary) (versions : List DbVersion) : String :=
  let imported := versions.map fun v =>
    importedBinaryFile binary.binaryName v.versionString binary.platform
  ((imported.find? fun p => (s.content p).isSome).map String.ofList).getD binary.binaryPath

/-- Add a binary with its versions, unless there is one with its name and platform. -/
def mergeBinary (source : PublisherDb) (binary : DbBinary) : PublisherM Unit := do
  let existing ← dbRead e .getBinary fun db =>
    db.getBinaryByName binary.binaryName binary.platform
  if existing.isSome then pure ()
  else do
    hostOp e (.versionsOf binary.binaryId)
    let versions := source.listVersions binary.binaryId
    let binaryPath := importedBinaryPath (← get) binary versions
    let canonical := (← get).canonicalBinaryPath binaryPath
    let newBinary ← dbInsert e (.mergeBinary binary.binaryId)
      (PublisherDb.insertBinary (e.uuid (.mergedBinary binary.binaryId)) binary.binaryName
        binary.platform canonical)
    forEach (mergeVersion S e binary newBinary) versions

/-- `merge_databases`, when the two databases are open. -/
def mergeDatabases (source : PublisherDb) : PublisherM Unit := do
  hostOp e .listBinaries
  forEach (mergeBinary S e source) source.listBinaries

/-- `import_database`; the source is `publisher.db` of the archive, or why it cannot be opened. -/
def importDatabase (source : Option (Except String PublisherDb)) (merge : Bool) :
    WorkspaceM Unit := do
  let source ← Prog.ofExcept (Except.ofOption "Archive is missing publisher.db" source)
  match merge, (← get).db with
  | true, some db => do
      op e .openSourceDb
      let source ← Prog.ofExcept source
      op e .openTargetDb
      onProject db (mergeDatabases S e source)
  | _, _ => do
      op e .copyDb
      -- the file is copied, whatever is in it
      modify fun w => { w with db := source.toOption }

/-! ## the command -/

/-- Remove the project that is to be replaced. -/
def removeExisting (overwrite projectExists : Bool) : WorkspaceM Unit :=
  if overwrite && projectExists then
    match e.faults .removeProject with
    | none => modify Workspace.removeProject
    | some fault => do
        modify (Workspace.removeFiles fault.done)
        throw fault.text
  else pure ()

/-- `verify_import`: the database is opened again, and its rows are counted. -/
def verifyImport (source : Option (Except String PublisherDb)) : WorkspaceM Unit := do
  op e .openDb
  match (← get).db, source with
  | some _, _ => pure ()
  | none, some (.error text) => throw text
  | none, _ => throw "Database not found after import"

/-- What `import::run` asks of its options. -/
def checkOptions (merge overwrite projectExists : Bool) : Except String Unit :=
  if merge && overwrite then .error "Cannot use both --merge and --overwrite. Choose one."
  else if projectExists && !merge && !overwrite then
    .error ("Deltaship project already exists. Use --merge to add new entries or " ++
      "--overwrite to replace.")
  else .ok ()

/-- What `import::run` does with an archive whose metadata it has read. -/
def install (tree : Files Path Bytes) (metadata : ArchiveMetadata)
    (source : Option (Except String PublisherDb)) (merge overwrite projectExists : Bool) :
    WorkspaceM Unit := do
  removeExisting e overwrite projectExists
  op e .createProject
  importPayload e tree metadata merge
  importDatabase S e source merge
  importKeys e tree metadata merge
  verifyImport e source

/-- `import::run`. -/
def run (a : Archive) (merge overwrite : Bool) : WorkspaceM Unit := do
  let projectExists := (← get).projectExists
  Prog.ofExcept (checkOptions merge overwrite projectExists)
  let tree ← Prog.ofExcept (extractArchive e a)
  let metadata ← Prog.ofExcept
    (Except.ofOption "Missing required file: metadata.json not found" (a.metadata.map (·.1)))
  install S e tree metadata (a.db.map fun db => .ok db.1) merge overwrite projectExists

/-! ## what the operations do -/

section Rules

variable {e : PublisherEnv} {site : PublisherSite} {w : Workspace} {E : String → Workspace → Prop}

/-- A call succeeds, or the import fails without a change. -/
theorem wp_op {Q : Unit → Workspace → Prop} (hok : Q () w) (hfail : ∀ err, E err w) :
    wp (op e site) Q E w := by
  unfold op
  split
  · exact hok
  · exact hfail _

/-- What is done to the project is done to its part of the workspace. -/
theorem wp_onProject {α : Type} {db : PublisherDb} {m : PublisherM α} {Q : α → Workspace → Prop} :
    wp (onProject db m) Q E w ↔
      wp m (fun a s => Q a ⟨w.root, some s.db, s.files⟩)
        (fun err s => E err ⟨w.root, some s.db, s.files⟩) (w.project db) := by
  have hexec : exec (onProject db m) w = ((exec m (w.project db)).1,
      ⟨w.root, some (exec m (w.project db)).2.db, (exec m (w.project db)).2.files⟩) := rfl
  unfold wp
  rw [hexec]
  rcases exec m (w.project db) with ⟨r, s⟩
  cases r <;> rfl

end Rules

end Import

end Deltaship
