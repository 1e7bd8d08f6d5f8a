import Deltaship.Crypto.Signing
import Deltaship.Db.Publisher
import Deltaship.Diff.Apply
import Deltaship.Lib.Links

/-!
# Deltaship.Publisher.Project

A publisher's project: the database and the disk, and the operations of the host
on them.

A path names the file that it resolves to (`Project.resolve`): it is made absolute, `.` and
`..` are dropped and links are followed, so two texts that name the same file have the same
content.  What is removed is the place of a path (`Project.entry`), which is the link itself
if the last name of the path is a link to a file.  Which operations fail is an input of a
command (`PublisherEnv.faults`), as are the ids it draws and the time.
-/

namespace Deltaship

open Prog

/-- Where the commands run: the directory, and the links on the disk, which do not lead round in
circles. -/
structure Root where
  dir : List Char
  links : Lexical.Links
  grounded : links.Grounded
deriving DecidableEq

/-- A directory on a disk without links. -/
def Root.plain (dir : List Char) : Root := ⟨dir, .empty, .empty⟩

/-- A publisher's project. -/
structure Project where
  root : Root
  db : PublisherDb
  files : Files Lexical.Path Bytes
deriving DecidableEq

namespace Project

/-- The place that a path names: a link to a file is not followed. -/
def entry (s : Project) (path : List Char) : Lexical.Path :=
  s.root.links.locate ⟨false, []⟩ (Lexical.join s.root.dir path)

/-- The file that a place leads to. -/
def follow (s : Project) (p : Lexical.Path) : Lexical.Path :=
  (s.root.links.chase Lexical.Links.maxLinks p).getD p

/-- The places on the way from a place to its file. -/
def trailAt (s : Project) (p : Lexical.Path) : List Lexical.Path :=
  s.root.links.trail Lexical.Links.maxLinks p

/-- The content of the file that a place leads to. -/
def contentAt (s : Project) (p : Lexical.Path) : Option Bytes := s.files.read (s.follow p)

/-- Whether there is something at a place, a file or a link. -/
def stands (s : Project) (p : Lexical.Path) : Bool :=
  (s.files.read p).isSome || (s.root.links.files.read p).isSome

/-- The file that a path names. -/
def resolve (s : Project) (path : List Char) : Lexical.Path := s.follow (s.entry path)

/-- The content of the file at a path. -/
def content (s : Project) (path : List Char) : Option Bytes := s.files.read (s.resolve path)

/-- `Path::exists`: a file, or a directory with files. -/
def pathExists (s : Project) (path : List Char) : Bool :=
  s.files.paths.any fun p => (s.resolve path).Contains p

/-- The check of the file of a new binary: its canonical path. -/
def canonicalBinaryPath (s : Project) (binaryPath : String) : Except DbError String :=
  let canonical := String.ofList (s.resolve binaryPath.toList).text
  if !s.pathExists binaryPath.toList then
    .error (.invalidData s!"Binary path does not exist: {binaryPath}")
  else if (s.content binaryPath.toList).isNone then
    .error (.invalidData s!"Binary path is not a file: {canonical}")
  else .ok canonical

/-- The project without what stands at a place, a file or a link. -/
def unlink (s : Project) (p : Lexical.Path) : Project :=
  { s with
    root :=
      { s.root with
        links := s.root.links.remove p
        grounded := s.root.grounded.remove p }
    files := s.files.remove p }

section Resolve

variable {s s' : Project}

/-- The entry of a path depends on the project's directory and its links. -/
theorem entry_congr (hroot : s'.root = s.root) (path : List Char) :
    s'.entry path = s.entry path := by
  unfold entry
  rw [hroot]

/-- Where a path leads depends on the directory and the links alone. -/
theorem resolve_congr (hroot : s'.root = s.root) (path : List Char) :
    s'.resolve path = s.resolve path := by
  unfold resolve follow
  rw [entry_congr hroot, hroot]

/-- Without links, a path is resolved lexically. -/
theorem resolve_plain {dir : List Char} (hroot : s.root = .plain dir) (path : List Char) :
    s.resolve path = Lexical.normalize (Lexical.join dir path) := by
  unfold resolve follow entry
  rw [hroot]
  show ((Lexical.Links.empty.chase _ _).getD _) = _
  rw [Lexical.Links.chase_of_none rfl]
  exact Lexical.Links.locate_empty _

end Resolve

end Project

theorem pathExists_of_content {s : Project} {path : List Char}
    (h : (s.content path).isSome = true) :
    s.pathExists path = true := by
  unfold Project.pathExists
  rw [List.any_eq_true]
  exact ⟨s.resolve path, Files.mem_paths.mpr h, decide_eq_true (.refl _)⟩

theorem content_of_not_pathExists {s : Project} {path : List Char}
    (h : ¬ s.pathExists path = true) :
    s.content path = none := by
  rw [← Option.not_isSome_iff_eq_none]
  exact fun hsome => h (pathExists_of_content hsome)

/-- The third-party crates of the publisher. -/
structure PublisherCrates where
  semver : SemverCrate
  crypto : CryptoCrates
  /-- `bsdiff::diff`: the patch from the first to the second. -/
  bsdiff : Bytes → Bytes → Except String Bytes
  /-- `zstd::encode_all`, at the default level. -/
  zstdEncode : Bytes → Except String Bytes
  /-- `DateTime::parse_from_rfc3339`, in nanoseconds. -/
  parseRfc3339 : String → Option Int

/-- The operations that can fail while a command runs; `k` counts the diffs that a
command generates, or the versions that it verifies. -/
inductive PublisherSite where
  | openDb | getBinary | insertBinary | getVersion | metadata | hashBlake3 | hashSha256
  | insertVersion | listVersions | diffsDir
  | insertJob (k : Nat) | readJob (k : Nat) | setRunning (k : Nat) | setFailed (k : Nat)
  | setCompleted (k : Nat)
  | openSource (k : Nat) | openTarget (k : Nat) | lockSource (k : Nat) | lockTarget (k : Nat)
  | readSource (k : Nat) | readTarget (k : Nat)
  | writeDiff (k : Nat) | hashDiff (k : Nat) | diffPathText (k : Nat) | removeDiff (k : Nat)
  | listBinaries | loadKey | setSignature | showBinary
  | loadPublicKey | confirmFix | fileMetadata (k : Nat) | readFile (k : Nat)
  | updateHashes (k : Nat)
  | listJobs | versionsOf (binaryId : String) | jobsOf (versionId : String)
  | removeFile (path : Lexical.Path)
  | deleteJob (jobId : String)
  | deleteJobs (versionId : String) | deleteVersion (versionId : String)
  | addEntry (path : List Char) | extractEntry (path : List Char)
  | findExportDir | readMetadata | removeProject | createProject
  | copyFile (path : Lexical.Path) | copyData (path : Lexical.Path)
  | openSourceDb | openTargetDb | copyDb | mergeBinary (binaryId : String)
  | mergeVersion (versionId : String) | mergeSignature (versionId : String)
deriving DecidableEq, Repr

/-- A failure: its text, and how many bytes had been written, or files removed. -/
structure HostFault where
  text : String
  done : Nat := 0
deriving DecidableEq, Repr

/-- The rows a command draws an id for. -/
inductive UuidSite where
  | binary | version | job (k : Nat)
  | mergedBinary (binaryId : String) | mergedVersion (versionId : String)
deriving DecidableEq, Repr

/-- What a command cannot choose. -/
structure PublisherEnv where
  faults : PublisherSite → Option HostFault
  /-- `Uuid::new_v4`. -/
  uuid : UuidSite → String
  /-- `CURRENT_TIMESTAMP`, in seconds. -/
  now : Nat
  /-- `Utc::now()`, in nanoseconds. -/
  clock : Int
  /-- `Utc::now().to_rfc3339()`. -/
  timestamp : String
  /-- `CURRENT_TIMESTAMP` when a merge inserts its copy of this version. -/
  mergedAt : String → Nat := fun _ => now

/-- A command of the publisher; its errors are texts. -/
abbrev PublisherM (α : Type) : Type := Prog Project String α

section Host

variable (e : PublisherEnv)

/-- Fail if the operation fails. -/
def hostOp (site : PublisherSite) : PublisherM Unit :=
  match e.faults site with
  | none => pure ()
  | some fault => throw fault.text

/-- An operation of the database that returns a value. -/
def dbInsert {α : Type} (site : PublisherSite)
    (f : PublisherDb → Except DbError (α × PublisherDb)) :
    PublisherM α := do
  hostOp e site
  match f (← get).db with
  | .error err => throw err.text
  | .ok (a, db) => do
      modify fun s => { s with db }
      pure a

/-- An operation of the database without a value. -/
def dbUpdate (site : PublisherSite) (f : PublisherDb → Except DbError PublisherDb) :
    PublisherM Unit := do
  hostOp e site
  match f (← get).db with
  | .error err => throw err.text
  | .ok db => modify fun s => { s with db }

/-- A query of the database. -/
def dbRead {α : Type} (site : PublisherSite) (f : PublisherDb → α) : PublisherM α := do
  hostOp e site
  pure (f (← get).db)

/-- The text of the error of a missing file. -/
def notFoundText : String := "No such file or directory (os error 2)"

/-- A file read as a whole; a `Vec` has at most `isize::MAX` bytes. -/
def readAll (site : PublisherSite) (path : String) : PublisherM (Except String Bytes) := do
  match e.faults site with
  | some fault => pure (.error fault.text)
  | none =>
    match (← get).content path.toList with
    | none => pure (.error notFoundText)
    | some b => pure (if b.length < i64Size then .ok b else .error "out of memory")

end Host

/-! ## what the operations do -/

section Rules

variable {e : PublisherEnv} {s : Project} {site : PublisherSite}

/-- A call to the host succeeds, or the command fails without a change. -/
theorem wp_hostOp {Q : Unit → Project → Prop} {E : String → Project → Prop} (hok : Q () s)
    (hfail : ∀ err, E err s) : wp (hostOp e site) Q E s := by
  unfold hostOp
  split
  · exact hok
  · exact hfail _

/-- An insertion is made as the database takes it, or the command fails. -/
theorem wp_dbInsert {α : Type} {f : PublisherDb → Except DbError (α × PublisherDb)}
    {Q : α → Project → Prop} {E : String → Project → Prop}
    (hok : ∀ a db, f s.db = .ok (a, db) → Q a { s with db := db }) (hfail : ∀ err, E err s) :
    wp (dbInsert e site f) Q E s := by
  unfold dbInsert
  rw [wp_bind]
  refine wp_hostOp ?_ hfail
  rw [wp_bind, wp_get]
  split
  · exact hfail _
  · next a db h => exact hok a db h

theorem wp_dbUpdate {f : PublisherDb → Except DbError PublisherDb} {Q : Unit → Project → Prop}
    {E : String → Project → Prop} (hok : ∀ db, f s.db = .ok db → Q () { s with db := db })
    (hfail : ∀ err, E err s) : wp (dbUpdate e site f) Q E s := by
  unfold dbUpdate
  rw [wp_bind]
  refine wp_hostOp ?_ hfail
  rw [wp_bind, wp_get]
  split
  · exact hfail _
  · next db h => exact hok db h

/-- A query answers from the database, or the command fails. -/
theorem wp_dbRead {α : Type} {f : PublisherDb → α} {Q : α → Project → Prop}
    {E : String → Project → Prop} (hok : Q (f s.db) s) (hfail : ∀ err, E err s) :
    wp (dbRead e site f) Q E s := by
  unfold dbRead
  rw [wp_bind]
  exact wp_hostOp hok hfail

/-- When a file is read, and when it is not. -/
theorem wp_readAll_cases {path : String} {Q : Except String Bytes → Project → Prop}
    {E : String → Project → Prop}
    (hok : ∀ b, e.faults site = none → s.content path.toList = some b → b.length < i64Size →
      Q (.ok b) s)
    (hfail : ∀ err, (∀ b, e.faults site = none → s.content path.toList = some b →
      ¬ b.length < i64Size) → Q (.error err) s) : wp (readAll e site path) Q E s := by
  unfold readAll
  split
  · next hfault => exact hfail _ fun b hnone => by simp [hfault] at hnone
  · next hfault =>
      rw [wp_bind, wp_get]
      split
      · next hnone => exact hfail _ fun b _ hb => by simp [hnone] at hb
      · next b hb =>
          rw [wp_pure]
          split
          · next hlt => exact hok b hfault hb hlt
          · next hlong => exact hfail _ fun b' _ hb' => Option.some.inj (hb.symm.trans hb') ▸ hlong

/-- A file is read up to the largest size, or the read fails. -/
theorem wp_readAll {path : String} {Q : Except String Bytes → Project → Prop}
    {E : String → Project → Prop}
    (hok : ∀ b, s.content path.toList = some b → b.length < i64Size → Q (.ok b) s)
    (hfail : ∀ err, Q (.error err) s) : wp (readAll e site path) Q E s :=
  wp_readAll_cases (fun b _ => hok b) fun err _ => hfail err

end Rules

end Deltaship
