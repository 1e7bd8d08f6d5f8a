import Deltaship.Publisher.Commands

/-!
# Deltaship.Publisher.Archive

`archive.rs` and `export.rs`: what a project is exported to, and what is extracted from
an archive.

An archive is the list of its entries, and extracting it gives the files with the paths
below its top directory: compression and the layout of a tar file are left out.  The two
entries that are not plain files, the metadata and the database, are kept apart, each
with its size.  Of the metadata only the two flags that `import` reads are modelled.
-/

namespace Deltaship

open Prog Lexical

/-! ## a tree of files -/

/-- The text of the error of a path that goes through a file. -/
def notDirectoryText : String := "Not a directory (os error 20)"

/-- The text of the error of writing to a directory. -/
def isDirectoryText : String := "Is a directory (os error 21)"

/-- Write a file and the directories above it, among these directories. -/
def createFile (files : Files Path Bytes) (dirs : List Path) (p : Path) (b : Bytes) :
    Except String (Files Path Bytes) :=
  if files.paths.any fun q => q.Contains p ∧ q ≠ p then .error notDirectoryText
  else if files.paths.any fun q => p.Contains q ∧ q ≠ p then .error isDirectoryText
  else if dirs.any fun q => p.Contains q then .error isDirectoryText
  else .ok (files.write p b)

/-- `fs::create_dir_all`. -/
def createDir (files : Files Path Bytes) (dirs : List Path) (p : Path) :
    Except String (List Path) :=
  if files.paths.any fun q => q.Contains p then .error notDirectoryText else .ok (p :: dirs)

/-! ## archives -/

/-- An entry of an archive: a directory, or a file with its content. -/
structure ArchiveEntry where
  path : List Char
  file : Option Bytes
deriving DecidableEq, Repr

/-- `ArchiveMetadata`. -/
structure ArchiveMetadata where
  includesKeys : Bool
  includesBinaries : Bool
deriving DecidableEq, Repr

/-- An archive; the paths of its entries are below the top directory. -/
structure Archive where
  /-- `metadata.json`, with its size. -/
  metadata : Option (ArchiveMetadata × Nat)
  /-- `publisher.db`, with its size. -/
  db : Option (PublisherDb × Nat)
  entries : List ArchiveEntry
deriving DecidableEq

/-- The top directory of an archive. -/
def archiveBaseDir : String := "deltaship-export"

/-- `MAX_TOTAL_UNCOMPRESSED`. -/
def maxTotalUncompressed : Nat := 4 * 1024 * 1024 * 1024

/-- `MAX_ENTRY_SIZE`. -/
def maxEntrySize : Nat := 1024 * 1024 * 1024

/-- `MAX_ENTRIES`. -/
def maxEntries : Nat := 100000

/-- `ArchiveError::ValidationFailed`. -/
def validationFailed (text : String) : String := s!"Archive validation failed: {text}"

/-- `char::is_ascii_control`. -/
def isAsciiControl (c : Char) : Bool := c.toNat < 32 || c.toNat == 127

/-- Two digits of a number below 256 in base 16. -/
def hex2 (n : Nat) : String := String.ofList [Nat.digitChar (n / 16), Nat.digitChar (n % 16)]

/-- The loop over the characters of a path. -/
def validateChars (path : String) : List Char → Nat → Except String Unit
  | [], _ => .ok ()
  | c :: rest, idx =>
    if c.toNat = 0 then .error (validationFailed
      s!"Null byte detected in archive entry path at position {idx}: {path}")
    else if isAsciiControl c then .error (validationFailed
      s!"Control character (0x{hex2 c.toNat}) detected in archive entry path at position {idx}: {path}")
    else validateChars path rest (idx + 1)

/-- `validate_archive_entry_path`. -/
def validateArchiveEntryPath (path : List Char) : Except String Unit := do
  validateChars (String.ofList path) path 0
  Except.ensure (isAbsolute path = false)
    (validationFailed s!"Absolute path in archive entry: {String.ofList path}")
  Except.ensure (['.', '.'] ∉ path.splitOn '/')
    (validationFailed s!"Path traversal detected in archive entry: {String.ofList path}")

/-- What has been extracted so far. -/
structure Extraction where
  entryCount : Nat := 0
  totalWritten : Nat := 0
  files : Files Path Bytes := Files.empty
  dirs : List Path := []

namespace Extraction

/-- One more entry. -/
def count (x : Extraction) : Except String Extraction := do
  Except.ensure (x.entryCount + 1 ≤ maxEntries)
    (validationFailed s!"Archive contains too many entries (limit: {maxEntries})")
  pure { x with entryCount := x.entryCount + 1 }

/-- The limit for one file. -/
def checkSize (path : String) (size : Nat) : Except String Unit :=
  Except.ensure (size ≤ maxEntrySize) (validationFailed
    s!"Archive entry exceeds per-entry size limit ({size} > {maxEntrySize}): {path}")

/-- One more file was written; the sum saturates far above the limit. -/
def addTotal (x : Extraction) (size : Nat) : Except String Extraction := do
  Except.ensure (x.totalWritten + size ≤ maxTotalUncompressed) (validationFailed
    s!"Archive exceeds total uncompressed size limit ({maxTotalUncompressed})")
  pure { x with totalWritten := x.totalWritten + size }

end Extraction

/-- The place of an entry below the top directory. -/
def archivePlace (path : List Char) : Path := ⟨false, (normalize path).components⟩

/-- The path of an entry in the archive. -/
def fullArchivePath (path : List Char) : List Char := (archiveBaseDir ++ "/").toList ++ path

section Extract

variable (e : PublisherEnv)

/-- The metadata or the database. -/
def extractSpecial (name : String) (size : Option Nat) (x : Extraction) :
    Except String Extraction :=
  match size with
  | none => .ok x
  | some size => do
      let x ← x.count
      Extraction.checkSize s!"{archiveBaseDir}/{name}" size
      x.addTotal size

/-- `ArchiveError::Io`. -/
def ioText (text : String) : String := s!"IO error: {text}"

/-- The failure of a call to the host, if it fails. -/
def ioError (site : PublisherSite) : Except String Unit :=
  match e.faults site with
  | none => .ok ()
  | some fault => .error (ioText fault.text)

/-- One entry of the loop of `extract_archive`. -/
def extractEntry (x : Extraction) (entry : ArchiveEntry) : Except String Extraction := do
  let x ← x.count
  validateArchiveEntryPath (fullArchivePath entry.path)
  match entry.file with
  | none => do
      ioError e (.extractEntry entry.path)
      let dirs ← (createDir x.files x.dirs (archivePlace entry.path)).mapError ioText
      pure { x with dirs := dirs }
  | some b => do
      Extraction.checkSize (String.ofList (fullArchivePath entry.path)) b.length
      ioError e (.extractEntry entry.path)
      let files ← (createFile x.files x.dirs (archivePlace entry.path) b).mapError ioText
      { x with files := files }.addTotal b.length

/-- `extract_archive`. -/
def extractArchive (a : Archive) : Except String (Files Path Bytes) := do
  let x ← extractSpecial "metadata.json" (a.metadata.map (·.2)) {}
  let x ← extractSpecial "publisher.db" (a.db.map (·.2)) x
  let x ← a.entries.foldlM (extractEntry e) x
  pure x.files

end Extract

/-! ## export -/

namespace Export

variable (e : PublisherEnv) (s : Project)

/-- `add_directory`. -/
def addDirectory (archivePath : String) : Except String ArchiveEntry := do
  ioError e (.addEntry archivePath.toList)
  pure ⟨archivePath.toList, none⟩

/-- `add_file`. -/
def addFile (path : List Char) (archivePath : String) : Except String ArchiveEntry := do
  ioError e (.addEntry archivePath.toList)
  let b ← Except.ofOption (ioText isDirectoryText) (s.content path)
  pure ⟨archivePath.toList, some b⟩

/-- A key, if it is there. -/
def exportKey (name : String) : Except String (List ArchiveEntry) :=
  let path := s!"{deltashipDir}/keys/{name}".toList
  if s.pathExists path then do
    let entry ← addFile e s path s!"keys/{name}"
    pure [entry]
  else pure []

/-- `binaries/{name}/{version}`. -/
def versionDir (binary : DbBinary) (version : DbVersion) : String :=
  s!"binaries/{binary.binaryName}/{version.versionString}"

/-- A version's file, if it is there. -/
def exportVersion (binary : DbBinary) (version : DbVersion) : Except String (List ArchiveEntry) :=
  if s.pathExists version.filePath.toList then do
    let directory ← addDirectory e (versionDir binary version)
    let file ← addFile e s version.filePath.toList s!"{versionDir binary version}/{binary.platform}"
    pure [directory, file]
  else pure []

/-- `export_binaries`. -/
def exportBinaries : Except String (List ArchiveEntry) := do
  if s.db.listBinaries.isEmpty then pure []
  else do
    let directory ← addDirectory e "binaries"
    let entries ← Except.gather (fun binary =>
      Except.gather (exportVersion e s binary)
        (s.db.listVersions binary.binaryId)) s.db.listBinaries
    pure (directory :: entries)

/-- The place of a diff: the directory and the file. -/
def diffPlace (binary : DbBinary) (fromVersion toVersion : DbVersion) : String × String :=
  (s!"diffs/{binary.binaryName}",
    s!"diffs/{binary.binaryName}/{fromVersion.versionString}-to-{toVersion.versionString}-{binary.platform}")

/-- The rows that the place of a diff is made from. -/
def diffRows (db : PublisherDb) (job : DbDiffJob) : Option (DbBinary × DbVersion × DbVersion) := do
  let fromVersion ← db.getVersion job.fromVersionId
  let toVersion ← db.getVersion job.toVersionId
  let binary ← db.getBinary fromVersion.binaryId
  pure (binary, fromVersion, toVersion)

/-- A completed diff, if its file is there. -/
def exportDiff (job : DbDiffJob) : Except String (List ArchiveEntry) :=
  match job.diffPath with
  | none => pure []
  | some path =>
    if s.pathExists path.toList then
      match diffRows s.db job with
      | none => pure []
      | some (binary, fromVersion, toVersion) => do
          let place := diffPlace binary fromVersion toVersion
          let directory ← addDirectory e place.1
          let file ← addFile e s path.toList place.2
          pure [directory, file]
    else pure []

/-- `export_diffs`. -/
def exportDiffs : Except String (List ArchiveEntry) := do
  let completed := s.db.listDiffJobsByStatus .completed
  if completed.isEmpty then pure []
  else do
    let directory ← addDirectory e "diffs"
    let entries ← Except.gather (exportDiff e s) completed
    pure (directory :: entries)

/-- A part of the archive that an option asks for. -/
def exportIf (asked : Bool) (entries : Except String (List ArchiveEntry)) :
    Except String (List ArchiveEntry) := if asked then entries else .ok []

/-- `export::run`; the sizes are those of the two special files.  `main` is the database in
`publisher.db`, which is copied without its write-ahead log, while the rows are read from all of
it. -/
def run (main : PublisherDb) (metadataSize dbSize : Nat) (includeKeys includeBinaries : Bool)
    (format : String) : Except String Archive := do
  Except.ensure (format = "tar")
    s!"Unsupported export format '{format}'. Only 'tar' (tar.gz) is supported."
  ioError e .openDb
  let keysDir ← addDirectory e "keys"
  let publicKey ← exportKey e s "public.key"
  let signingKey ← exportIf includeKeys (exportKey e s "signing.key")
  let binaries ← exportIf includeBinaries (exportBinaries e s)
  let diffs ← exportIf includeBinaries (exportDiffs e s)
  pure
    { metadata := some (⟨includeKeys, includeBinaries⟩, metadataSize)
      db := some (main, dbSize)
      entries := keysDir :: (publicKey ++ signingKey ++ binaries ++ diffs) }

end Export

end Deltaship
