import Deltaship.Publisher.Extraction
import Mathlib.Data.List.Infix

/-!
# Deltaship.Publisher.Unpack

What `extract_archive` does on the disk.

`Archive` models what is extracted from an archive that was exported.  Here an entry of the tar
file is anything: its path, its type, the size that its header declares and the data that reading
it gives have nothing to do with each other, and every call can fail halfway.  Whatever the
entries are, what is created stays below the temporary directory (`Confined`), and what is
extracted keeps the limits (`Bounded`).
-/

namespace Deltaship

open Prog Lexical

namespace Tar

/-- `tar::EntryType`, as far as `extract_archive` tells types apart. -/
inductive EntryType where
  | regular | directory | symlink | hardLink | other
deriving DecidableEq, Repr

/-- `is_symlink` or `is_hard_link`. -/
def EntryType.isLink : EntryType → Bool
  | .symlink | .hardLink => true
  | _ => false

/-- `tar::Entry`. -/
structure Entry where
  path : List Char
  type : EntryType
  /-- `header().size()`, if the field can be read. -/
  declaredSize : Option Nat
  /-- What reading the entry gives. -/
  data : Bytes
deriving DecidableEq, Repr

/-- The calls that can fail, with the number of the entry they are for. -/
inductive Site where
  | entries | next (k : Nat) | path (k : Nat) | createDir (k : Nat) | createParents (k : Nat)
  | createFile (k : Nat) | copy (k : Nat) | removeFile (k : Nat) | canonicalize (k : Nat)
deriving DecidableEq, Repr

/-- The temporary directory, and the totals of the loop. -/
structure Unpacked where
  entryCount : Nat := 0
  totalWritten : Nat := 0
  files : Files Path Bytes := Files.empty
  /-- The directories that were created. -/
  dirs : List Path := []
  /-- How many bytes were written to each file that was opened. -/
  writes : List Nat := []

/-- The loop of `extract_archive`. -/
abbrev UnpackM (α : Type) : Type := Prog Unpacked String α

section Extract

variable (faults : Site → Option HostFault) (target : Path)

/-- Fail if the call fails. -/
def call (site : Site) : UnpackM Unit :=
  match faults site with
  | none => pure ()
  | some fault => throw (ioText fault.text)

/-- The directories on the way to a path, from the top. -/
def ancestors (p : Path) : List Path := p.components.inits.map fun cs => ⟨p.absolute, cs⟩

/-- Those that are not there yet. -/
def missingDirs (x : Unpacked) (p : Path) : List Path :=
  (ancestors p).filter fun q => !(decide (q.Contains target) || x.dirs.contains q)

/-- `fs::create_dir_all`; if it fails, some of the directories may have been created. -/
def createDirAll (site : Site) (p : Path) : UnpackM Unit := do
  let x ← get
  if x.files.paths.any fun q => q.Contains p then throw (ioText notDirectoryText)
  else
    match faults site with
    | none => modify fun x => { x with dirs := x.dirs ++ missingDirs target x p }
    | some fault => do
        modify fun x => { x with dirs := x.dirs ++ (missingDirs target x p).take fault.done }
        throw (ioText fault.text)

/-- `File::create`. -/
def openFile (k : Nat) (p : Path) : UnpackM Unit := do
  call faults (.createFile k)
  let x ← get
  let files ← Prog.ofExcept ((createFile x.files (target :: x.dirs) p []).mapError ioText)
  modify fun x => { x with files := files }

/-- Write to the file that was opened. -/
def writeFile (p : Path) (b : Bytes) : UnpackM Unit :=
  modify fun x => { x with files := x.files.write p b, writes := x.writes ++ [b.length] }

/-- `io::copy` of at most `MAX_ENTRY_SIZE + 1` bytes. -/
def copyEntry (k : Nat) (p : Path) (data : Bytes) : UnpackM Nat := do
  let limited := data.take (maxEntrySize + 1)
  match faults (.copy k) with
  | none => do
      writeFile p limited
      pure limited.length
  | some fault => do
      writeFile p (limited.take fault.done)
      throw (ioText fault.text)

/-- `let _ = fs::remove_file(..)`. -/
def removeFile (k : Nat) (p : Path) : UnpackM Unit :=
  match faults (.removeFile k) with
  | none => modify fun x => { x with files := x.files.remove p }
  | some _ => pure ()

/-- Remove the file and fail, unless this holds. -/
def keepIf (k : Nat) (p : Path) (c : Prop) [Decidable c] (text : String) : UnpackM Unit :=
  if c then pure ()
  else do
    removeFile faults k p
    throw (validationFailed text)

/-- A regular file of the loop of `extract_archive`. -/
def extractFile (k : Nat) (entry : Entry) (full : Path) : UnpackM Unit := do
  let path := String.ofList entry.path
  let declaredSize := entry.declaredSize.getD 0
  Prog.ofExcept (Except.ensure (declaredSize ≤ maxEntrySize) (validationFailed
    s!"Archive entry exceeds per-entry size limit ({declaredSize} > {maxEntrySize}): {path}"))
  createDirAll faults target (.createParents k) ⟨full.absolute, full.components.dropLast⟩
  openFile faults target k full
  let written ← copyEntry faults k full entry.data
  keepIf faults k full (written ≤ maxEntrySize)
    s!"Archive entry exceeds per-entry size limit ({maxEntrySize}): {path}"
  -- `saturating_add`
  modify fun x => { x with totalWritten := min (x.totalWritten + written) (u64Size - 1) }
  let x ← get
  keepIf faults k full (x.totalWritten ≤ maxTotalUncompressed)
    s!"Archive exceeds total uncompressed size limit ({maxTotalUncompressed})"
  call faults (.canonicalize k)
  keepIf faults k full (target.Contains full)
    s!"Extracted file escaped target directory: {path}"

/-- One entry of the loop of `extract_archive`. -/
def extractEntry (targetPath : List Char) (entry : Entry) : UnpackM Unit := do
  let k := (← get).entryCount
  call faults (.next k)
  modify fun x => { x with entryCount := x.entryCount + 1 }
  Prog.ofExcept (Except.ensure (k + 1 ≤ maxEntries)
    (validationFailed s!"Archive contains too many entries (limit: {maxEntries})"))
  call faults (.path k)
  Prog.ofExcept (Except.ensure (entry.type.isLink = false) (validationFailed
    s!"Symlinks/hardlinks not allowed in archive: {String.ofList entry.path}"))
  Prog.ofExcept (validateArchiveEntryPath entry.path)
  let full := normalize (join targetPath entry.path)
  match entry.type with
  | .directory => createDirAll faults target (.createDir k) full
  | .regular => extractFile faults target k entry full
  | _ => pure ()

/-- `extract_archive`, into an empty directory. -/
def extractArchive (targetPath : List Char) (entries : List Entry) : UnpackM Unit := do
  call faults .entries
  forEach (extractEntry faults (normalize targetPath) targetPath) entries

end Extract

/-! ## what is created -/

/- Everything that is created lies below the directory, as the path of an entry is validated to go
down only, and as an entry that is a link is refused. -/

/-- Everything that was created is below the directory, and not much was written at once. -/
structure Confined (target : Path) (x : Unpacked) : Prop where
  files : ∀ p b, x.files.read p = some b → target.Contains p
  dirs : ∀ p ∈ x.dirs, target.Contains p
  writes : ∀ n ∈ x.writes, n ≤ maxEntrySize + 1

/-- What is confined stays so. -/
def Keeps (target : Path) (x x' : Unpacked) : Prop := Confined target x → Confined target x'

instance (target : Path) : IsPreorder Unpacked (Keeps target) where
  refl _ := id
  trans _ _ _ h h' := h' ∘ h

section Confinement

variable {faults : Site → Option HostFault} {target p q : Path} {site : Site} {k : Nat}
  {entry : Entry} {x : Unpacked} {text : String}

/-- Removing a file leaves everything outside as it was. -/
theorem Confined.remove (h : Confined target x) (p : Path) :
    Confined target { x with files := x.files.remove p } := by
  refine ⟨fun q b hq => ?_, h.dirs, h.writes⟩
  by_cases heq : q = p
  · simp [heq] at hq
  · exact h.files q b (by rwa [x.files.read_remove_ne heq] at hq)

theorem Confined.write (h : Confined target x) (hp : target.Contains p) (b : Bytes) :
    Confined target { x with files := x.files.write p b } := by
  refine ⟨fun q c hq => ?_, h.dirs, h.writes⟩
  by_cases heq : q = p
  · exact heq ▸ hp
  · exact h.files q c (by rwa [x.files.read_write_ne b heq] at hq)

/-- Of the directories on the way to a path below the target, those that are missing are below
the target as well. -/
theorem contains_of_mem_missingDirs (hp : target.Contains p ∨ p.Contains target)
    (hq : q ∈ missingDirs target x p) : target.Contains q := by
  obtain ⟨hmem, hmissing⟩ := List.mem_filter.mp hq
  obtain ⟨cs, hcs, rfl⟩ := List.mem_map.mp hmem
  have hcut := (List.mem_inits _ _).mp hcs
  simp only [Bool.not_eq_true', Bool.or_eq_false_iff, decide_eq_false_iff_not] at hmissing
  have hnot : ∀ h : p.absolute = target.absolute, ¬ cs <+: target.components :=
    fun habs h => hmissing.1 ⟨habs, h⟩
  rcases hp with ⟨habs, hbelow⟩ | ⟨habs, habove⟩
  · exact ⟨habs, (List.prefix_or_prefix_of_prefix hbelow hcut).resolve_right (hnot habs.symm)⟩
  · exact absurd (hcut.trans habove) (hnot habs)

/-- A call that can fail does nothing by itself. -/
theorem keeps_call : Preserves (Keeps target) (call faults site) := by
  unfold call
  split
  · exact .pure
  · exact .throw

/-- Directories are made inside, or on the way there. -/
theorem keeps_createDirAll (hp : target.Contains p ∨ p.Contains target) :
    Preserves (Keeps target) (createDirAll faults target site p) := by
  refine .of_wp fun x => ?_
  have hdirs : ∀ dirs : List Path, (∀ q ∈ dirs, q ∈ missingDirs target x p) →
      Keeps target x { x with dirs := x.dirs ++ dirs } := fun dirs hmissing h =>
    ⟨h.files, fun q hq => (List.mem_append.mp hq).elim (h.dirs q) fun hq =>
      contains_of_mem_missingDirs hp (hmissing q hq), h.writes⟩
  unfold createDirAll
  rw [wp_bind, wp_get]
  split
  · exact id
  · split
    · exact hdirs _ fun _ => id
    · rw [wp_bind, wp_modify]
      exact hdirs _ fun _ => List.mem_of_mem_take

/-- A file is opened inside. -/
theorem keeps_openFile (hp : target.Contains p) :
    Preserves (Keeps target) (openFile faults target k p) := by
  refine .bind keeps_call fun _ => .of_wp fun x => ?_
  simp only [wp_bind, wp_get, wp_ofExcept, wp_modify]
  cases hcreate : createFile x.files (target :: x.dirs) p [] with
  | error err => exact id
  | ok files =>
      obtain ⟨-, -, rfl⟩ := createFile_eq_ok.mp hcreate
      exact fun h => h.write hp []

/-- It is written up to the limit of an entry. -/
theorem keeps_writeFile (hp : target.Contains p) {b : Bytes} (hb : b.length ≤ maxEntrySize + 1) :
    Preserves (Keeps target) (writeFile p b) := by
  intro x h
  have hwrite := h.write hp b
  refine ⟨hwrite.files, hwrite.dirs, fun n hn => ?_⟩
  rcases List.mem_append.mp hn with hn | hn
  · exact h.writes n hn
  · rwa [List.mem_singleton.mp hn]

/-- So an entry is copied, up to that limit. -/
theorem keeps_copyEntry (hp : target.Contains p) (data : Bytes) :
    Preserves (Keeps target) (copyEntry faults k p data) := by
  unfold copyEntry
  split
  · exact .bind (keeps_writeFile hp (List.length_take_le _ _)) fun _ => .pure
  · refine .bind (keeps_writeFile hp ?_) fun _ => .throw
    exact (List.length_take_le' _ _).trans (List.length_take_le _ _)

/-- Taking it away again changes nothing outside. -/
theorem keeps_removeFile : Preserves (Keeps target) (removeFile faults k p) := by
  unfold removeFile
  split
  · exact fun x h => h.remove p
  · exact .pure

/-- So does keeping it on a condition. -/
theorem keeps_keepIf {c : Prop} [Decidable c] :
    Preserves (Keeps target) (keepIf faults k p c text) :=
  .ite .pure (.bind keeps_removeFile fun _ => .throw)

/-- So an entry that is a file stays inside. -/
theorem keeps_extractFile (hp : target.Contains p) :
    Preserves (Keeps target) (extractFile faults target k entry p) := by
  unfold extractFile
  refine .bind .ofExcept fun _ => .bind (keeps_createDirAll ?_) fun _ =>
    .bind (keeps_openFile hp) fun _ => .bind (keeps_copyEntry hp _) fun _ =>
    .bind keeps_keepIf fun _ => .bind (fun x h => ⟨h.files, h.dirs, h.writes⟩) fun _ =>
    .bind .get fun _ => .bind keeps_keepIf fun _ => .bind keeps_call fun _ => keeps_keepIf
  -- what is above a path below the target is below it too, or above it
  exact (List.prefix_or_prefix_of_prefix hp.2 (List.dropLast_prefix _)).imp
    (fun h => ⟨hp.1, h⟩) fun h => ⟨hp.1.symm, h⟩

/-- A path that is validated is below what it is joined to. -/
theorem contains_join_of_validate {base path : List Char}
    (h : validateArchiveEntryPath path = .ok ()) :
    (normalize base).Contains (normalize (join base path)) := by
  unfold validateArchiveEntryPath at h
  obtain ⟨_, -, h⟩ := Except.bind_eq_ok.mp h
  obtain ⟨_, habs, h⟩ := Except.bind_eq_ok.mp h
  exact contains_join_of_relative (Except.ensure_eq_ok.mp habs) (Except.ensure_eq_ok.mp h)

/-- So does every entry, as its path is checked first. -/
theorem keeps_extractEntry {targetPath : List Char} :
    Preserves (Keeps (normalize targetPath))
      (extractEntry faults (normalize targetPath) targetPath entry) := by
  unfold extractEntry
  refine .bind .get fun _ => .bind keeps_call fun _ =>
    .bind (fun x h => ⟨h.files, h.dirs, h.writes⟩) fun _ => .bind .ofExcept fun _ =>
    .bind keeps_call fun _ => .bind .ofExcept fun _ => ?_
  cases hvalid : validateArchiveEntryPath entry.path with
  | error err =>
      refine .of_wp fun x => ?_
      rw [wp_bind, wp_ofExcept]
      exact id
  | ok u =>
      have hbelow : (normalize targetPath).Contains (normalize (join targetPath entry.path)) :=
        contains_join_of_validate hvalid
      refine .bind .ofExcept fun _ => ?_
      dsimp only
      split
      · exact keeps_createDirAll (.inl hbelow)
      · exact keeps_extractFile hbelow
      · exact .pure

end Confinement

/-! ## what is extracted -/

/- The extraction counts entries and bytes against its limits, and validates the path of each entry
before it creates anything for it. -/

/-- No link, and a path that is validated. -/
structure Entry.Acceptable (entry : Entry) : Prop where
  notLink : entry.type.isLink = false
  validated : validateArchiveEntryPath entry.path = .ok ()

/-- So many entries were extracted, within the limits. -/
structure Bounded (n : Nat) (x : Unpacked) : Prop where
  entryCount : x.entryCount = n
  count_le : n ≤ maxEntries
  size_le : ∀ p b, x.files.read p = some b → b.length ≤ maxEntrySize
  total_le : x.files.total List.length ≤ x.totalWritten
  totalWritten_le : x.totalWritten ≤ maxTotalUncompressed

section Bounds

variable {faults : Site → Option HostFault} {target p : Path} {site : Site} {k n : Nat}
  {entry : Entry} {x : Unpacked} {text : String} {Q : Unit → Unpacked → Prop}

/-- A call succeeds, or the extraction is over. -/
theorem wp_call (h : Q () x) : wp (call faults site) Q (fun _ _ => True) x := by
  unfold call
  split
  · exact h
  · trivial

/-- Directories are added, or the extraction is over. -/
theorem wp_createDirAll (h : ∀ dirs, Q () { x with dirs := dirs }) :
    wp (createDirAll faults target site p) Q (fun _ _ => True) x := by
  unfold createDirAll
  rw [wp_bind, wp_get]
  split
  · trivial
  · split
    · exact h _
    · trivial

/-- The file is empty then, or the extraction is over. -/
theorem wp_openFile (h : Q () { x with files := x.files.write p [] }) :
    wp (openFile faults target k p) Q (fun _ _ => True) x := by
  unfold openFile
  rw [wp_bind]
  refine wp_call ?_
  simp only [wp_bind, wp_get, wp_ofExcept, wp_modify]
  cases hcreate : createFile x.files (target :: x.dirs) p [] with
  | error err => trivial
  | ok files =>
      obtain ⟨-, -, rfl⟩ := createFile_eq_ok.mp hcreate
      exact h

/-- The condition holds behind it, or the extraction is over. -/
theorem wp_keepIf {c : Prop} [Decidable c] (h : c → Q () x) :
    wp (keepIf faults k p c text) Q (fun _ _ => True) x := by
  unfold keepIf
  split
  · next hc => exact h hc
  · rw [wp_bind]
    unfold removeFile
    split
    · trivial
    · trivial

/-- The entry is copied, or the copying fails. -/
theorem wp_copyEntry {data : Bytes} {Q : Nat → Unpacked → Prop}
    (h : ∀ b, b = data.take (maxEntrySize + 1) →
      Q b.length { x with files := x.files.write p b, writes := x.writes ++ [b.length] }) :
    wp (copyEntry faults k p data) Q (fun _ _ => True) x := by
  unfold copyEntry
  split
  · exact h _ rfl
  · trivial

/-- A file within the limits is added. -/
theorem Bounded.addFile (h : Bounded n x) {b : Bytes} {dirs : List Path}
    (hsize : b.length ≤ maxEntrySize)
    (htotal : min (x.totalWritten + b.length) (u64Size - 1) ≤ maxTotalUncompressed) :
    Bounded n
      { x with
        totalWritten := min (x.totalWritten + b.length) (u64Size - 1)
        files := x.files.write p b
        dirs := dirs
        writes := x.writes ++ [b.length] } := by
  -- a sum that saturates is above the limit
  have hsum : min (x.totalWritten + b.length) (u64Size - 1) = x.totalWritten + b.length := by
    simp only [u64Size, maxTotalUncompressed] at htotal ⊢
    omega
  have hweight := x.files.total_write_le List.length p b
  have hbefore := h.total_le
  refine ⟨h.entryCount, h.count_le, fun q c hq => ?_, ?_, htotal⟩
  · by_cases heq : q = p
    · subst heq
      rw [Files.read_write_self] at hq
      rwa [← Option.some.inj hq]
    · exact h.size_le q c (by rwa [x.files.read_write_ne b heq] at hq)
  · simp only [hsum]
    omega

/-- A file adds no more than an entry may have. -/
theorem Bounded.extractFile (h : Bounded n x) :
    wp (extractFile faults target k entry p) (fun _ x' => Bounded n x') (fun _ _ => True) x := by
  unfold Tar.extractFile
  rw [wp_bind, wp_ofExcept]
  split
  · rw [wp_bind]
    refine wp_createDirAll fun dirs => ?_
    rw [wp_bind]
    refine wp_openFile ?_
    rw [wp_bind]
    refine wp_copyEntry fun b _ => ?_
    rw [wp_bind]
    refine wp_keepIf fun hsize => ?_
    simp only [wp_bind, wp_modify, wp_get, Files.write_write]
    refine wp_keepIf fun htotal => wp_call (wp_keepIf fun _ => ?_)
    exact h.addFile hsize htotal
  · trivial

/-- An entry is extracted. -/
theorem Bounded.extractEntry (h : Bounded n x) {targetPath : List Char} :
    wp (extractEntry faults target targetPath entry)
      (fun _ x' => Bounded (n + 1) x' ∧ entry.Acceptable) (fun _ _ => True) x := by
  unfold Tar.extractEntry
  rw [wp_bind, wp_get, wp_bind]
  refine wp_call ?_
  rw [wp_bind, wp_modify, wp_bind, wp_ofExcept]
  split
  · next u hcount =>
      have hcount := Except.ensure_eq_ok.mp hcount
      rw [h.entryCount] at hcount
      have hnext : Bounded (n + 1) { x with entryCount := x.entryCount + 1 } :=
        ⟨congrArg (· + 1) h.entryCount, hcount, h.size_le, h.total_le, h.totalWritten_le⟩
      rw [wp_bind]
      refine wp_call ?_
      rw [wp_bind, wp_ofExcept]
      split
      · next u hlink =>
          have hlink := Except.ensure_eq_ok.mp hlink
          rw [wp_bind, wp_ofExcept]
          split
          · next u hvalid =>
              have hentry : entry.Acceptable := ⟨hlink, hvalid⟩
              split
              · exact wp_createDirAll fun dirs =>
                  ⟨⟨hnext.entryCount, hcount, h.size_le, h.total_le, h.totalWritten_le⟩, hentry⟩
              · exact wp_mono (fun _ _ h => ⟨h, hentry⟩) (fun _ _ h => h) hnext.extractFile
              · exact ⟨hnext, hentry⟩
          · trivial
      · trivial
  · trivial

/-- All entries are extracted. -/
theorem wp_extractArchive (targetPath : List Char) (entries : List Entry) :
    wp (extractArchive faults targetPath entries)
      (fun _ x => Bounded entries.length x ∧ ∀ entry ∈ entries, entry.Acceptable)
      (fun _ _ => True) {} := by
  unfold extractArchive
  rw [wp_bind]
  refine wp_call (wp_forEach
    (fun (done : List Entry) x => Bounded done.length x ∧ ∀ entry ∈ done, entry.Acceptable)
    ⟨⟨rfl, Nat.zero_le _, by simp, Nat.le_refl 0, Nat.zero_le _⟩, by simp⟩
    fun done entry rest x _ hx => ?_)
  refine wp_mono (fun _ x' h => ?_) (fun _ _ h => h) hx.1.extractEntry
  refine ⟨by simpa using h.1, fun entry' hmem => ?_⟩
  rcases List.mem_append.mp hmem with hmem | hmem
  · exact hx.2 entry' hmem
  · exact List.mem_singleton.mp hmem ▸ h.2

end Bounds

/-- Whatever the entries are, and however it ends, `extract_archive` creates nothing outside its
directory and writes at most a byte too much for an entry.  If it succeeds, the entries and the
files keep the limits, and no entry is a link. -/
theorem extractArchive_confined (faults : Site → Option HostFault) (targetPath : List Char)
    (entries : List Entry) :
    Confined (normalize targetPath) (exec (extractArchive faults targetPath entries) {}).2 ∧
      ((exec (extractArchive faults targetPath entries) {}).1 = .ok () →
        entries.length ≤ maxEntries ∧
        (∀ p b, (exec (extractArchive faults targetPath entries) {}).2.files.read p = some b →
          b.length ≤ maxEntrySize) ∧
        (exec (extractArchive faults targetPath entries) {}).2.files.total List.length ≤
          maxTotalUncompressed ∧
        ∀ entry ∈ entries, entry.type.isLink = false) := by
  constructor
  · refine Preserves.bind (R := Keeps (normalize targetPath)) keeps_call
      (fun _ => .forEach (fun _ => keeps_extractEntry) entries) {} ⟨?_, ?_, ?_⟩
    · simp
    · simp
    · simp
  · intro hok
    obtain ⟨hbounded, haccepted⟩ :=
      wp_exec_ok (wp_extractArchive targetPath entries) (exec_of_fst hok)
    exact ⟨hbounded.count_le, hbounded.size_le, hbounded.total_le.trans hbounded.totalWritten_le,
      fun entry hentry => (haccepted entry hentry).notLink⟩

end Tar

end Deltaship
