import Deltaship.Crypto.Signing
import Deltaship.Db.Client
import Deltaship.Diff.Compress
import Deltaship.Lib.Files
import Deltaship.Lib.Prog
import Deltaship.Lib.Text

/-!
# Deltaship.Client.Io

The world a client command runs in, and the operations of the host it uses.

A command is a `Prog` over a `World`: the files, the database, the requests sent
so far and a log of the security-relevant actions.  Everything the command
cannot choose is an input: how the server answers each request (`Env.serve`,
which may depend on all requests before it), the name of each temporary file,
the time, and whether the operation at a given `Site` of the source fails
(`Env.faults`).  A claim about every server or every failing step is then a
statement about every environment.

A failing write may leave a part of the new content behind (`Fault.written`);
a failing rename or database call changes nothing.
-/

namespace Deltaship

/-! ## the environment -/

/- The environment stands for all that the client does not decide: which calls fail, what the server
answers, the names of temporary files and the clock. -/

/-- The operations of one download attempt that can fail. -/
inductive DownloadOp where
  | metadata | partialMetadata | partialHash | removePartial | recheck
  | openAppend | createDir | create | write (chunk : Nat) | flush
deriving DecidableEq, Repr

/-- The places of the client at which an operation of the host or a database
call can fail, in the order of the source. -/
inductive Site where
  -- `apply_update`, up to the update itself
  | diskSpaceInstall | diskSpaceBackup | diskSpaceDiff | currentMetadata
  | recordUpdateStart | createBackupsDir | backupCopy | backupSigCopy
  -- the downloads
  | download (dest : String) (attempt : Nat) (op : DownloadOp)
  | downloadCleanup (dest : String)
  | diffMetadata | hashDiff | removeDiff | readCurrent | readDiff | fullMetadata
  -- `execute_update`, up to the rename
  | createDownloadsDir | hashSource | sourceCleanup | sourceMetadata | availableMemory
  | readSource | createParentDir | tempCreate | parentStat | tempMode | writeTemp | tempExec
  | parentRestat | persist
  -- `execute_update`, after the rename
  | hashInstalled | sidecarTemp | sidecarWrite | sidecarPersist
  -- `apply_update`, after a successful update
  | recordComplete | installedMetadata | sha256Installed | recordInstalled | updateCurrent
  | hashBackup | backupMetadata | createBackupRow
  -- `apply_update`, after a failed update
  | restoreCopy | recordFailure
  -- `perform_rollback`
  | getBinary | listBackups | hashTarget | readBackupSig | hashSigned
  | createSnapshotDir | snapshotCopy | snapshotSigCopy | hashSnapshot | snapshotMetadata
  | createSnapshotRow | restoreTemp | restoreTempCopy | restoreMode | restorePersist
  | restoreSigCopy | rollbackCurrent | recordRollback
  -- `cleanup` and `prune-backups`
  | listBinaries | listBackupsOf (binaryId : String) | deleteRow (backupId : Nat)
  | removeBackup (backupId : Nat) | removeDownload (path : String)
  | recentUpdates (binaryId : String)
  | deleteHistory
  -- registration and the commands that update
  | registerBinary | setLastCheck (binaryId : String) | createDataDir | openDb | initDb
  | newChecker | updateLock | hashDownload
deriving DecidableEq, Repr

/-- How an operation fails: its error text and, for a write, how many bytes of
the new content it had put in place of the old content. -/
structure Fault where
  msg : String
  written : Option Nat := none
deriving DecidableEq, Repr

/-- The `chrono` calls of the client, in seconds since the epoch. -/
structure ChronoCrate where
  /-- `format("%Y-%m-%d %H:%M:%S")`. -/
  format : Nat → String
  /-- `NaiveDateTime::parse_from_str` with the same format. -/
  parse : String → Option Nat
  /-- A time less `Duration::days`; a time out of range panics. -/
  daysBefore : Nat → Int → Option Int

/-- The third-party crates. -/
structure Crates where
  semver : SemverCrate
  crypto : CryptoCrates
  zstd : ZstdCrate
  chrono : ChronoCrate
  /-- `StatusCode::canonical_reason`, or the text `Display` has in its place. -/
  statusReason : Nat → String

/-- What the client asks the operating system about paths, and the Unicode
lower-casing of the standard library. -/
structure Host where
  isSymlink : String → Bool
  canonicalize : String → Option String
  uid : String → Option Nat
  isRoot : Bool
  toLowercase : String → String

/-- What `str::to_lowercase` does.  Which lower-case letter a letter has may depend on the
letters around it, but not across a space or a path separator, and not on the case of ASCII
letters. -/
structure Host.Lowercases (h : Host) : Prop where
  ascii : ∀ s : String, (∀ c ∈ s.toList, Text.isAscii c = true) →
    h.toLowercase s = Text.asciiLower s
  apart : ∀ (a b : List Char) (c : Char), c = ' ' ∨ c = '/' ∨ c = '\\' →
    h.toLowercase (String.ofList (a ++ c :: b)) =
      h.toLowercase (String.ofList a) ++ String.singleton c ++ h.toLowercase (String.ofList b)
  caseless : ∀ s, h.toLowercase (Text.asciiLower s) = h.toLowercase s
  separators : ∀ (s : String) (c : Char), c = '/' ∨ c = '\\' → c ∈ (h.toLowercase s).toList →
    c ∈ s.toList
  ne_empty : ∀ s : String, s ≠ "" → h.toLowercase s ≠ ""

/-- The letters of ASCII texts can be lower-cased one by one. -/
theorem Host.lowercases_of_asciiLower {h : Host} (hlower : h.toLowercase = Text.asciiLower) :
    h.Lowercases where
  ascii s _ := by rw [hlower]
  apart a b c hc := by
    have hsame : c.toLower = c := by rcases hc with rfl | rfl | rfl <;> rfl
    rw [hlower]
    simp [Text.asciiLower, String.ext_iff, hsame]
  caseless s := by
    rw [hlower]
    simp only [Text.asciiLower, String.toList_ofList, List.map_map, Function.comp_def,
      Text.toLower_toLower]
  separators s c hc hmem := by
    rw [hlower] at hmem
    simp only [Text.asciiLower, String.toList_ofList, List.mem_map] at hmem
    obtain ⟨d, hd, rfl⟩ := hmem
    rcases Text.toLower_cases d with ⟨hlow, -, hlower⟩ | ⟨-, hsame⟩
    · have hsmall : d.toLower.toNat ≤ 92 := by rcases hc with h | h <;> rw [h] <;> decide
      omega
    · rwa [hsame]
  ne_empty s hs hempty := by
    rw [hlower, Text.asciiLower, ← String.toList_inj, String.toList_ofList] at hempty
    exact hs (String.toList_eq_nil_iff.mp (List.map_eq_nil_iff.mp hempty))

/-! ## the server -/

/-- A download request; `rangeFrom` is the offset of its `Range` header. -/
inductive HttpRequest where
  | head (url : String)
  | get (url : String) (rangeFrom : Option Nat)
deriving DecidableEq, Repr

/-- An update check: the address and the query parameters. -/
structure CheckRequest where
  url : String
  platform : String
  currentVersion : Option String
deriving DecidableEq, Repr

/-- An answer of the server to a download request: no answer, or a status, the
announced length, and the body in chunks, which may break off. -/
inductive Reply where
  | failed (msg : String)
  | response (status : Nat) (length : Option Nat) (body : List Bytes) (cut : Option String)
deriving DecidableEq, Repr

/-- `UpdateCheckResponse`, as the client deserializes it, with the optional
version id of `ServerUpdateResponse`. -/
structure ServerUpdateResponse where
  updateAvailable : Bool
  targetVersion : Option Version
  diffUrl : Option String
  diffChecksum : Option String
  diffSize : Option Nat
  fullBinaryUrl : Option String
  fullBinarySize : Option Nat
  checksum : Option String
  signatureUrl : Option String
  forced : Bool
  releaseNotes : Option String
  versionId : Option String
deriving DecidableEq, Repr

/-- An answer of the server to an update check: a transport error (`transient`
for a timeout or a failed connection) or a body that does not parse, an error
status with its body, or a parsed response. -/
inductive CheckReply where
  | failed (msg : String) (transient : Bool)
  | status (code : Nat) (body : String)
  | json (response : ServerUpdateResponse)
deriving DecidableEq, Repr

/-! ## what a command is given -/

/-- `ClientConfig`, as far as the modelled commands read it. -/
structure ClientConfig where
  serverUrl : String
  dataDir : String
deriving DecidableEq, Repr

/-! ## paths -/

/-- `Path::join` on Unix: an absolute right side replaces the left one. -/
def joinPath (dir name : String) : String :=
  if name.toList.head? = some '/' then name
  else if dir.isEmpty || dir.toList.getLast? = some '/' then dir ++ name
  else dir ++ "/" ++ name

/-- `Path::parent` on Unix, for paths without repeated or trailing slashes. -/
def parentPath (p : String) : Option String :=
  let up := p.toList.reverse.dropWhile fun c => c != '/'
  match up with
  | [] => if p.isEmpty then none else some ""
  | [_] => if p = "/" then none else some "/"
  | _ :: rest => some (String.ofList rest.reverse)

/-- A path ends like its last component. -/
theorem suffix_joinPath {a : List Char} {dir name : String} (h : a <:+ name.toList) :
    a <:+ (joinPath dir name).toList := by
  unfold joinPath
  split
  · exact h
  · split
    · rw [String.toList_append]
      exact h.trans (List.suffix_append _ _)
    · rw [String.toList_append]
      exact h.trans (List.suffix_append _ _)

/-- `ClientConfig::backups_dir`. -/
def ClientConfig.backupsDir (c : ClientConfig) : String := joinPath c.dataDir "backups"

/-- `ClientConfig::downloads_dir`. -/
def ClientConfig.downloadsDir (c : ClientConfig) : String := joinPath c.dataDir "downloads"

/-- `sig_path_for`. -/
def sigPathFor (path : String) : String := path ++ ".sig"

/-- The path of a signature ends in its extension. -/
theorem suffix_sigPathFor (p : String) : ".sig".toList <:+ (sigPathFor p).toList := by
  rw [sigPathFor, String.toList_append]
  exact List.suffix_append _ _

/-- A sidecar is never the file it belongs to. -/
theorem sigPathFor_ne (p : String) : sigPathFor p ≠ p := by
  intro h
  have hlen := congrArg String.length h
  rw [sigPathFor, String.length_append] at hlen
  have hsig : ".sig".length = 4 := by decide
  omega

/-- A sidecar is in some directory. -/
theorem parentPath_sigPathFor (p : String) : ∃ d, parentPath (sigPathFor p) = some d := by
  have hlen : 4 ≤ (sigPathFor p).length := by
    rw [sigPathFor, String.length_append]
    have hsig : ".sig".length = 4 := by decide
    omega
  unfold parentPath
  simp only
  split
  · rw [if_neg]
    · exact ⟨_, rfl⟩
    · intro hempty
      rw [String.isEmpty_iff] at hempty
      rw [hempty] at hlen
      contradiction
  · rw [if_neg]
    · exact ⟨_, rfl⟩
    · intro hroot
      rw [hroot] at hlen
      exact absurd hlen (by decide)
  · exact ⟨_, rfl⟩

/-- `{:?}` of a path of printable characters. -/
def debugPath (p : String) : String :=
  let escaped := p.toList.flatMap fun c =>
    if c.toNat == 34 || c.toNat == 92 then [Char.ofNat 92, c] else [c]
  "\"" ++ String.ofList escaped ++ "\""

/-! ## the world -/

/-- The security-relevant actions of the client, in the order it makes them. -/
inductive Event where
  /-- A checksum was compared: what was expected and what was computed. -/
  | checksum (expected actual : Hash)
  /-- A signature was checked against a key and a message. -/
  | verify (key : ByteVec 32) (message : Bytes) (signature : Signature) (accepted : Bool)
  /-- A file with this content was renamed. -/
  | rename (src dst : String) (content : Bytes)
deriving DecidableEq, Repr

/-- Whether an action renames a file. -/
def Event.isRename : Event → Bool
  | .rename _ _ _ => true
  | _ => false

/-- The state a client command runs on. -/
structure World where
  files : Files String Bytes
  dirs : List String
  db : ClientDb
  log : List Event
  sent : List HttpRequest
  asked : List CheckRequest
deriving DecidableEq

/-- A client command. -/
abbrev M (α : Type) : Type := Prog World String α

namespace World

/-- The content of a file. -/
def file (w : World) (p : String) : Option Bytes := w.files.read p

/-- `Path::exists`. -/
def pathExists (w : World) (p : String) : Bool := (w.file p).isSome || w.dirs.contains p

/-- Create or replace a file. -/
def write (w : World) (p : String) (b : Bytes) : World := { w with files := w.files.write p b }

/-- Remove a file. -/
def remove (w : World) (p : String) : World := { w with files := w.files.remove p }

/-- Rename a file with content `b`, and log it. -/
def rename (w : World) (src dst : String) (b : Bytes) : World :=
  { w with
    files := w.files.move src dst b
    log := w.log ++ [.rename src dst b] }

/-- Add an event to the log. -/
def record (w : World) (ev : Event) : World := { w with log := w.log ++ [ev] }

/-- Remember a request. -/
def send (w : World) (r : HttpRequest) : World := { w with sent := w.sent ++ [r] }

/-- What is left when a command has ended: the log and the requests were its
own. -/
def settle (w : World) : World := { w with log := [], sent := [], asked := [] }

section Reading

variable (w : World) {p q src dst : String} (b : Bytes)

@[simp] theorem file_write_self : (w.write p b).file p = some b := w.files.read_write_self p b

theorem file_write_ne (h : q ≠ p) : (w.write p b).file q = w.file q :=
  w.files.read_write_ne b h

@[simp] theorem file_remove_self : (w.remove p).file p = none := w.files.read_remove_self p

theorem file_remove_ne (h : q ≠ p) : (w.remove p).file q = w.file q :=
  w.files.read_remove_ne h

/-- What was renamed is read where it went. -/
@[simp] theorem file_rename_self : (w.rename src dst b).file dst = some b :=
  w.files.read_move_self src dst b

/-- A rename leaves all paths but its two. -/
theorem file_rename_ne (hs : q ≠ src) (hd : q ≠ dst) : (w.rename src dst b).file q = w.file q :=
  w.files.read_move_ne b hs hd

/-- A path that does not exist holds no file. -/
theorem file_eq_none_of_not_pathExists (h : w.pathExists p = false) : w.file p = none := by
  unfold pathExists at h
  rw [Bool.or_eq_false_iff] at h
  exact Option.isSome_eq_false_iff.mp h.1 |> Option.isNone_iff_eq_none.mp

end Reading

end World

/-! ## the environment of a command -/

/-- Everything a command cannot choose. -/
structure Env where
  config : ClientConfig
  host : Host
  faults : Site → Option Fault
  /-- The name `tempfile` picks at a site. -/
  tempName : Site → World → String
  now : Nat
  /-- What the clock shows beyond `now`, in nanoseconds. -/
  nanos : Nat := 0
  /-- The answer to the last of the download requests sent so far. -/
  serve : List HttpRequest → Reply
  /-- The answer to the last of the update checks sent so far. -/
  serveCheck : List CheckRequest → CheckReply

/-- No operation of the host fails. -/
def Env.NoFault (e : Env) : Prop := ∀ site, e.faults site = none

/-- The name of a temporary file is new, as `tempfile` documents. -/
def Env.TempFresh (e : Env) : Prop :=
  ∀ site (w : World) dir, w.pathExists (joinPath dir (e.tempName site w)) = false

/-! ## operations -/

/- Each operation asks the environment whether it fails at its site; a write that fails may have
written the front of its data. -/

/-- Send an update check and wait for the answer. -/
def askServer (e : Env) (r : CheckRequest) : M CheckReply := do
  modify fun w => { w with asked := w.asked ++ [r] }
  return e.serveCheck (← get).asked

/-- `with_context`: the text of the error becomes the context. -/
def context (msg : String) {α : Type} (m : M α) : M α := Prog.mapErr (fun _ => msg) m

/-- `if c { anyhow::bail!(..) }`. -/
def bailIf (c : Prop) [Decidable c] (msg : String) : M Unit :=
  if c then throw msg else pure ()

/-- `ok_or_else`. -/
def orThrow {α : Type} (o : Option α) (msg : String) : M α :=
  match o with
  | some a => pure a
  | none => throw msg

/-- What a loop of attempts that all failed reports about their errors. -/
def errorSummary (errors : List String) : String :=
  let last := errors.getLast?.getD "Unknown error"
  match errors with
  | [err] => err
  | _ => s!"Last error: {last}. See logs for all {errors.length} errors."

section Operations

variable (e : Env)

/-- Fail if the environment says that the operation at this site fails. -/
def guardIo (site : Site) : M Unit :=
  match e.faults site with
  | none => pure ()
  | some f => throw f.msg

/-- `Path::exists`. -/
def pathExists (p : String) : M Bool := do
  return (← get).pathExists p

/-- Read a whole file. -/
def readFile (site : Site) (p : String) : M Bytes := do
  guardIo e site
  match (← get).file p with
  | some b => pure b
  | none => throw "No such file or directory (os error 2)"

/-- `fs::metadata(p)?.len()`. -/
def fileLen (site : Site) (p : String) : M Nat := do
  let b ← readFile e site p
  pure b.length

/-- Put a content in place of a file's, or a part of it if the write fails. -/
def writeFile (site : Site) (p : String) (b : Bytes) : M Unit :=
  match e.faults site with
  | none => modify fun w => w.write p b
  | some f => do
      match f.written with
      | some n => modify fun w => w.write p (b.take n)
      | none => pure ()
      throw f.msg

/-- Append to a file, or append a part if the write fails. -/
def appendFile (site : Site) (p : String) (b : Bytes) : M Unit := do
  let old := ((← get).file p).getD []
  match e.faults site with
  | none => modify fun w => w.write p (old ++ b)
  | some f => do
      match f.written with
      | some n => modify fun w => w.write p (old ++ b.take n)
      | none => pure ()
      throw f.msg

/-- `fs::copy`.  Copying a file onto itself empties it: the destination is
truncated before the source is read. -/
def copyFile (site : Site) (src dst : String) : M Unit := do
  match (← get).file src with
  | none => throw "No such file or directory (os error 2)"
  | some b => writeFile e site dst (if src = dst then [] else b)

/-- `fs::remove_file`. -/
def removeFile (site : Site) (p : String) : M Unit := do
  let _ ← readFile e site p
  modify fun w => w.remove p

/-- `fs::create_dir_all`. -/
def createDirAll (site : Site) (dir : String) : M Unit := do
  guardIo e site
  modify fun w => { w with dirs := w.dirs.insert dir }

/-- Rename a file, as `NamedTempFile::persist` does. -/
def renameFile (site : Site) (src dst : String) : M Unit := do
  let b ← readFile e site src
  modify fun w => w.rename src dst b

/-- `NamedTempFile::new_in`: a new empty file, removed again when the handle is
dropped, that `fill` writes and that is then renamed to `dst`.  `createErr` and
`persistErr` word the errors of the creation and of the rename. -/
def persistTemp (create rename : Site) (dir dst : String) (createErr persistErr : String → String)
    (fill : String → M Unit) : M Unit := do
  let temp := joinPath dir (e.tempName create (← get))
  Prog.mapErr createErr (do
    guardIo e create
    bailIf (← pathExists temp) "File exists (os error 17)")
  modify fun w => w.write temp []
  match ← Prog.attempt (do fill temp; Prog.mapErr persistErr (renameFile e rename temp dst)) with
  | .ok _ => pure ()
  | .error msg => do
      modify fun w => w.remove temp
      throw msg

/-- Run a database call that returns a value: a fault or an error leaves the
rows as they were. -/
def dbQuery {α : Type} (site : Site) (op : ClientDb → Except DbError (α × ClientDb)) : M α := do
  guardIo e site
  match op (← get).db with
  | .ok (a, db) => do
      modify fun w => { w with db }
      pure a
  | .error err => throw err.text

/-- Run a database call. -/
def dbCall (site : Site) (op : ClientDb → Except DbError ClientDb) : M Unit :=
  dbQuery e site fun db => (op db).map ((), ·)

/-- Record a security-relevant action. -/
def emit (ev : Event) : M Unit := modify fun w => w.record ev

/-- Send a download request and wait for the answer. -/
def request (r : HttpRequest) : M Reply := do
  modify fun w => w.send r
  return e.serve (← get).sent

end Operations

end Deltaship
