import Deltaship.Publisher.Import
import Mathlib.Algebra.Ring.Nat
import Mathlib.Data.List.Induction

/-!
# Deltaship.Publisher.Extraction

What is extracted from an archive, and which archives can be extracted.

An archive is extracted if it keeps the limits and no file of it is a directory of
another entry (`EntriesFit`), and then each place has the last file that the archive has
for it (`lastAt`).
-/

namespace Deltaship

open Lexical

/-! ## the files of an archive -/

/-- The content of the last file at a place. -/
def lastAt (entries : List ArchiveEntry) (p : Path) : Option Bytes :=
  entries.foldl (fun found entry =>
    if entry.file.isSome ∧ archivePlace entry.path = p then entry.file else found) none

/-- The bytes in the files of an archive. -/
def dataSize (entries : List ArchiveEntry) : Nat :=
  (entries.map fun entry => (entry.file.map List.length).getD 0).sum

/-- The entries can be extracted, behind this many entries and bytes. -/
structure EntriesFit (count total : Nat) (entries : List ArchiveEntry) : Prop where
  count : count + entries.length ≤ maxEntries
  size : ∀ x ∈ entries, ∀ b, x.file = some b → b.length ≤ maxEntrySize
  total : total + dataSize entries ≤ maxTotalUncompressed
  path : ∀ x ∈ entries, validateArchiveEntryPath (fullArchivePath x.path) = .ok ()
  /-- Below a file there is nothing. -/
  apart : ∀ x ∈ entries, x.file.isSome = true → ∀ y ∈ entries,
    (archivePlace x.path).Contains (archivePlace y.path) →
      y.file.isSome = true ∧ archivePlace y.path = archivePlace x.path

/-- The last entry of a place is the one to come, if it is a file there. -/
theorem lastAt_append (entries : List ArchiveEntry) (x : ArchiveEntry) (p : Path) :
    lastAt (entries ++ [x]) p =
      if x.file.isSome ∧ archivePlace x.path = p then x.file else lastAt entries p := by
  simp [lastAt]

/-- An entry adds the bytes of its file. -/
theorem dataSize_append (entries : List ArchiveEntry) (x : ArchiveEntry) :
    dataSize (entries ++ [x]) = dataSize entries + (x.file.map List.length).getD 0 := by
  simp [dataSize]

/-- A place has a last entry if some entry is a file there. -/
theorem isSome_lastAt {entries : List ArchiveEntry} {p : Path} :
    (lastAt entries p).isSome = true ↔
      ∃ x ∈ entries, x.file.isSome = true ∧ archivePlace x.path = p := by
  induction entries using List.reverseRecOn with
  | nil => simp [lastAt]
  | append_singleton entries x ih =>
      rw [lastAt_append]
      by_cases hx : x.file.isSome ∧ archivePlace x.path = p
      · rw [if_pos hx]
        exact iff_of_true hx.1 ⟨x, by simp, hx⟩
      · rw [if_neg hx, ih]
        simp only [List.mem_append, List.mem_singleton]
        grind

/-- If all of the entries fit, so do the first ones. -/
theorem EntriesFit.of_append {count total : Nat} {entries rest : List ArchiveEntry}
    (h : EntriesFit count total (entries ++ rest)) : EntriesFit count total entries where
  count := by
    have := h.count
    rw [List.length_append] at this
    omega
  size x hx := h.size x (List.mem_append_left _ hx)
  total := by
    have := h.total
    unfold dataSize at this ⊢
    rw [List.map_append, List.sum_append] at this
    omega
  path x hx := h.path x (List.mem_append_left _ hx)
  apart x hx hfile y hy := h.apart x (List.mem_append_left _ hx) hfile y (List.mem_append_left _ hy)

/-! ## one entry -/

section Entry

variable {e : PublisherEnv} {x x' : Extraction} {path : List Char} {b : Bytes}

/-- A file is made where no file or directory is in its way. -/
theorem createFile_eq_ok {files files' : Files Path Bytes} {dirs : List Path} {p : Path} :
    createFile files dirs p b = .ok files' ↔
      (∀ q, (files.read q).isSome = true → q.Contains p ∨ p.Contains q → q = p) ∧
      (∀ q ∈ dirs, ¬ p.Contains q) ∧ files' = files.write p b := by
  unfold createFile
  split
  · next h => simp only [reduceCtorEq, false_iff]; grind [Files.mem_paths]
  · next h =>
      split
      · next h' => simp only [reduceCtorEq, false_iff]; grind [Files.mem_paths]
      · next h' =>
          split
          · next h'' => simp only [reduceCtorEq, false_iff]; grind
          · next h'' =>
              rw [Except.ok.injEq, eq_comm]
              grind [Files.mem_paths]

/-- A directory is made where no file is in its way. -/
theorem createDir_eq_ok {files : Files Path Bytes} {dirs dirs' : List Path} {p : Path} :
    createDir files dirs p = .ok dirs' ↔
      (∀ q, (files.read q).isSome = true → ¬ q.Contains p) ∧ dirs' = p :: dirs := by
  unfold createDir
  split
  · next h => simp only [reduceCtorEq, false_iff]; grind [Files.mem_paths]
  · next h =>
      rw [Except.ok.injEq, eq_comm]
      grind [Files.mem_paths]

/-- A call succeeds exactly if the host has no fault for it. -/
theorem ioError_eq_ok {site : PublisherSite} {u : Unit} :
    ioError e site = .ok u ↔ e.faults site = none := by
  unfold ioError
  cases e.faults site <;> simp

/-- When a directory is extracted, and what then. -/
theorem extractEntry_directory :
    extractEntry e x ⟨path, none⟩ = .ok x' ↔ x.entryCount + 1 ≤ maxEntries ∧
      validateArchiveEntryPath (fullArchivePath path) = .ok () ∧
      e.faults (.extractEntry path) = none ∧
      (∀ q, (x.files.read q).isSome = true → ¬ q.Contains (archivePlace path)) ∧
      x' = { x with entryCount := x.entryCount + 1, dirs := archivePlace path :: x.dirs } := by
  simp only [extractEntry, Extraction.count, Except.bind_eq_ok, Except.ensure_eq_ok,
    Except.mapError_eq_ok, createDir_eq_ok, ioError_eq_ok, pure, Except.pure, Except.ok.injEq]
  grind

/-- When a file is extracted, and what then. -/
theorem extractEntry_file :
    extractEntry e x ⟨path, some b⟩ = .ok x' ↔ x.entryCount + 1 ≤ maxEntries ∧
      validateArchiveEntryPath (fullArchivePath path) = .ok () ∧ b.length ≤ maxEntrySize ∧
      e.faults (.extractEntry path) = none ∧
      (∀ q, (x.files.read q).isSome = true →
        q.Contains (archivePlace path) ∨ (archivePlace path).Contains q → q = archivePlace path) ∧
      (∀ q ∈ x.dirs, ¬ (archivePlace path).Contains q) ∧
      x.totalWritten + b.length ≤ maxTotalUncompressed ∧
      x' = { x with
        entryCount := x.entryCount + 1
        totalWritten := x.totalWritten + b.length
        files := x.files.write (archivePlace path) b } := by
  simp only [extractEntry, Extraction.count, Extraction.checkSize, Extraction.addTotal,
    Except.bind_eq_ok, Except.ensure_eq_ok, Except.mapError_eq_ok, createFile_eq_ok, ioError_eq_ok,
    pure, Except.pure, Except.ok.injEq, exists_and_left, exists_eq_left', exists_const, and_assoc]
  constructor
  · rintro ⟨hmax, _, hvalid, hsize, hfault, hfree, hdirs, _, rfl, htotal, rfl⟩
    exact ⟨hmax, hvalid, hsize, hfault, hfree, hdirs, htotal, rfl⟩
  · rintro ⟨hmax, hvalid, hsize, hfault, hfree, hdirs, htotal, rfl⟩
    exact ⟨hmax, (), hvalid, hsize, hfault, hfree, hdirs, _, rfl, htotal, rfl⟩

end Entry

/-! ## all entries -/

/- The loop keeps two counters, of entries and of bytes, and checks them against the limits with
each entry. What was extracted is the front of the archive up to the first entry that does not fit.
-/

/-- The entries that were extracted, behind this many entries and bytes. -/
structure Extracted (count total : Nat) (done : List ArchiveEntry) (x : Extraction) : Prop where
  entryCount : x.entryCount = count + done.length
  totalWritten : x.totalWritten = total + dataSize done
  read : ∀ p, x.files.read p = lastAt done p
  dirs : ∀ p, p ∈ x.dirs ↔ ∃ y ∈ done, y.file = none ∧ archivePlace y.path = p

section Loop

variable {e : PublisherEnv} {count total : Nat} {done : List ArchiveEntry} {x x' : Extraction}
  {entry : ArchiveEntry}

/-- One more entry is extracted. -/
theorem Extracted.step (h : Extracted count total done x)
    (hstep : extractEntry e x entry = .ok x') :
    Extracted count total (done ++ [entry]) x' := by
  obtain ⟨path, file⟩ := entry
  cases file with
  | none =>
      obtain ⟨-, -, -, -, rfl⟩ := extractEntry_directory.mp hstep
      refine ⟨?_, ?_, fun p => ?_, fun p => ?_⟩
      · simp [h.entryCount, Nat.add_assoc]
      · simp [h.totalWritten, dataSize_append]
      · simp [lastAt_append, h.read]
      · simp [h.dirs, or_and_right, exists_or, or_comm, eq_comm]
  | some b =>
      obtain ⟨-, -, -, -, -, -, -, rfl⟩ := extractEntry_file.mp hstep
      refine ⟨?_, ?_, fun p => ?_, fun p => ?_⟩
      · simp [h.entryCount, Nat.add_assoc]
      · simp [h.totalWritten, dataSize_append, Nat.add_assoc]
      · rw [lastAt_append]
        by_cases hp : archivePlace path = p
        · subst hp
          simp
        · rw [if_neg fun h => hp h.2, ← h.read]
          exact x.files.read_write_ne b (Ne.symm hp)
      · simp [h.dirs, or_and_right, exists_or]

/-- The files that were extracted are those of the entries. -/
theorem Extracted.mem_files (h : Extracted count total done x) {p : Path} :
    (x.files.read p).isSome = true ↔ ∃ y ∈ done,
      y.file.isSome = true ∧ archivePlace y.path = p := by
  rw [h.read, isSome_lastAt]

/-- An entry that is extracted fits. -/
theorem Extracted.step_fits (h : Extracted count total done x) (hfit : EntriesFit count total done)
    (hstep : extractEntry e x entry = .ok x') : EntriesFit count total (done ++ [entry]) := by
  have hsize := hfit.size
  have hpath := hfit.path
  have hapart := hfit.apart
  have hfiles : ∀ q, (x.files.read q).isSome = true ↔
      ∃ y ∈ done, y.file.isSome = true ∧ archivePlace y.path = q := fun q => h.mem_files
  have hlength : count + (done ++ [entry]).length = x.entryCount + 1 := by
    rw [h.entryCount, List.length_append, List.length_singleton, Nat.add_assoc]
  have htotal : total + dataSize (done ++ [entry]) =
      x.totalWritten + (entry.file.map List.length).getD 0 := by
    rw [h.totalWritten, dataSize_append, Nat.add_assoc]
  obtain ⟨path, file⟩ := entry
  cases file with
  | none =>
      obtain ⟨hmax, hvalid, -, hfree, -⟩ := extractEntry_directory.mp hstep
      refine ⟨by omega, by grind, by simpa [htotal, h.totalWritten] using hfit.total, by grind, ?_⟩
      intro y hy hfile z hz hcontains
      grind
  | some b =>
      obtain ⟨hmax, hvalid, hsmall, -, hfree, hfreeDirs, hmaxTotal, -⟩ :=
        extractEntry_file.mp hstep
      refine ⟨by omega, by grind, by simpa [htotal] using hmaxTotal, by grind, ?_⟩
      intro y hy hfile z hz hcontains
      rcases List.mem_append.mp hy with hy | hy <;> rcases List.mem_append.mp hz with hz | hz
      · exact hapart y hy hfile z hz hcontains
      · obtain rfl := List.mem_singleton.mp hz
        exact ⟨rfl, (hfree _ ((hfiles _).mpr ⟨y, hy, hfile, rfl⟩) (.inl hcontains)).symm⟩
      · obtain rfl := List.mem_singleton.mp hy
        cases hz' : z.file with
        | none => exact absurd hcontains (hfreeDirs _ ((h.dirs _).mpr ⟨z, hz, hz', rfl⟩))
        | some c =>
            exact ⟨rfl, hfree _ ((hfiles _).mpr ⟨z, hz, by rw [hz']; rfl, rfl⟩) (.inr hcontains)⟩
      · rw [List.mem_singleton.mp hz, List.mem_singleton.mp hy]
        exact ⟨rfl, rfl⟩

/-- An entry that fits is extracted. -/
theorem Extracted.step_of_fits (h : Extracted count total done x)
    (hfault : ∀ path, e.faults (.extractEntry path) = none)
    (hfit : EntriesFit count total (done ++ [entry])) : ∃ x', extractEntry e x entry = .ok x' := by
  have hmem : entry ∈ done ++ [entry] := by simp
  have hmax := hfit.count
  have hvalid := hfit.path _ hmem
  have hapart := hfit.apart
  have hdirs := h.dirs
  have hfiles : ∀ q, (x.files.read q).isSome = true ↔
      ∃ y ∈ done, y.file.isSome = true ∧ archivePlace y.path = q := fun q => h.mem_files
  rw [List.length_append, List.length_singleton, ← Nat.add_assoc, ← h.entryCount] at hmax
  obtain ⟨path, file⟩ := entry
  cases file with
  | none =>
      refine ⟨_, extractEntry_directory.mpr ⟨hmax, hvalid, hfault path, ?_, rfl⟩⟩
      grind
  | some b =>
      have htotal := hfit.total
      rw [dataSize_append, ← Nat.add_assoc, ← h.totalWritten] at htotal
      refine ⟨_, extractEntry_file.mpr ⟨hmax, hvalid, hfit.size _ hmem b rfl, hfault path, ?_, ?_,
        htotal, rfl⟩⟩
      · grind
      · grind

/-- What was extracted in the end, and that it fits. -/
theorem Extracted.rest (h : Extracted count total done x) (hfit : EntriesFit count total done)
    {rest : List ArchiveEntry} (hrest : rest.foldlM (extractEntry e) x = .ok x') :
    Extracted count total (done ++ rest) x' ∧ EntriesFit count total (done ++ rest) := by
  induction rest generalizing done x with
  | nil =>
      rw [List.append_nil, ← Except.ok.inj hrest]
      exact ⟨h, hfit⟩
  | cons entry rest ih =>
      rw [List.foldlM_cons] at hrest
      obtain ⟨x₁, hx₁, hrest⟩ := Except.bind_eq_ok.mp hrest
      rw [← List.singleton_append, ← List.append_assoc]
      exact ih (h.step hx₁) (h.step_fits hfit hx₁) hrest

/-- Entries that fit are extracted. -/
theorem Extracted.rest_of_fits (h : Extracted count total done x)
    (hfault : ∀ path, e.faults (.extractEntry path) = none) {rest : List ArchiveEntry}
    (hfit : EntriesFit count total (done ++ rest)) :
    ∃ x', rest.foldlM (extractEntry e) x = .ok x' := by
  induction rest generalizing done x with
  | nil => exact ⟨x, rfl⟩
  | cons entry rest ih =>
      rw [← List.singleton_append, ← List.append_assoc] at hfit
      obtain ⟨x₁, hx₁⟩ := h.step_of_fits hfault hfit.of_append
      rw [List.foldlM_cons, hx₁]
      exact ih (h.step hx₁) hfit

end Loop

/-! ## a whole archive -/

/-- The sizes of the metadata and the database, if they are there. -/
def Archive.specialSizes (a : Archive) : List Nat :=
  (a.metadata.map (·.2)).toList ++ (a.db.map (·.2)).toList

/-- The archive keeps the limits, and no file of it is a directory of another entry. -/
structure Archive.Fits (a : Archive) : Prop where
  specials : ∀ size ∈ a.specialSizes, size ≤ maxEntrySize
  entries : EntriesFit a.specialSizes.length a.specialSizes.sum a.entries

section Archive

variable {e : PublisherEnv} {a : Archive} {x x' : Extraction}

/-- Where the entries behind the metadata and the database begin. -/
def afterSpecials (a : Archive) : Extraction :=
  { entryCount := a.specialSizes.length, totalWritten := a.specialSizes.sum }

/-- Behind the special entries nothing was extracted yet. -/
theorem extracted_afterSpecials (a : Archive) :
    Extracted a.specialSizes.length a.specialSizes.sum [] (afterSpecials a) where
  entryCount := rfl
  totalWritten := rfl
  read _ := rfl
  dirs p := by simp [afterSpecials]

/-- A special entry counts and takes its size, within the limits. -/
theorem extractSpecial_eq_ok {name : String} {size : Option Nat} :
    extractSpecial name size x = .ok x' ↔
      (∀ n ∈ size, x.entryCount + 1 ≤ maxEntries ∧ n ≤ maxEntrySize ∧
        x.totalWritten + n ≤ maxTotalUncompressed) ∧
      x' = { x with
        entryCount := x.entryCount + size.toList.length
        totalWritten := x.totalWritten + size.toList.sum } := by
  cases size with
  | none =>
      show Except.ok x = Except.ok x' ↔ _
      rw [Except.ok.injEq, eq_comm]
      simp
  | some n =>
      simp only [extractSpecial, Extraction.count, Extraction.checkSize, Extraction.addTotal,
        Except.bind_eq_ok, Except.ensure_eq_ok, pure, Except.pure, Except.ok.injEq, exists_and_left,
        exists_eq_left', exists_const, and_assoc]
      simp [eq_comm, and_assoc]

/-- What was counted before has to be within the limits. -/
theorem entriesFit_nil {count total : Nat} :
    EntriesFit count total [] ↔ count ≤ maxEntries ∧ total ≤ maxTotalUncompressed := by
  constructor
  · intro h
    exact ⟨by simpa using h.count, by simpa [dataSize] using h.total⟩
  · intro h
    exact ⟨by simpa using h.1, by simp, by simpa [dataSize] using h.2, by simp, by simp⟩

/-- The specials come first. -/
theorem specials_eq_ok :
    (∃ x₁, extractSpecial "metadata.json" (a.metadata.map (·.2)) {} = .ok x₁ ∧
      extractSpecial "publisher.db" (a.db.map (·.2)) x₁ = .ok x) ↔
    (∀ size ∈ a.specialSizes, size ≤ maxEntrySize) ∧
      EntriesFit a.specialSizes.length a.specialSizes.sum [] ∧ x = afterSpecials a := by
  simp only [extractSpecial_eq_ok, entriesFit_nil, afterSpecials, Archive.specialSizes]
  rcases a.metadata with _ | ⟨_, m⟩ <;> rcases a.db with _ | ⟨_, d⟩
  · simp [maxEntries, maxTotalUncompressed]
  · simp [maxEntries, maxTotalUncompressed]
    grind
  · simp [maxEntries, maxTotalUncompressed]
    grind
  · simp [maxEntries, maxTotalUncompressed]
    grind

/-- What is extracted from an archive: each place has the last file that the archive has
for it. -/
theorem extractArchive_ok {files : Files Path Bytes} (h : extractArchive e a = .ok files) :
    a.Fits ∧ ∀ p, files.read p = lastAt a.entries p := by
  unfold extractArchive at h
  obtain ⟨x₁, hmetadata, h₁⟩ := Except.bind_eq_ok.mp h
  obtain ⟨x₂, hdb, h₂⟩ := Except.bind_eq_ok.mp h₁
  obtain ⟨x₃, hentries, h₃⟩ := Except.bind_eq_ok.mp h₂
  obtain ⟨hspecials, hstart, rfl⟩ := specials_eq_ok.mp ⟨x₁, hmetadata, hdb⟩
  obtain ⟨hextracted, hfit⟩ := (extracted_afterSpecials a).rest hstart hentries
  rw [← Except.ok.inj h₃]
  exact ⟨⟨hspecials, hfit⟩, hextracted.read⟩

/-- An archive that fits can be extracted, unless the host fails. -/
theorem extractArchive_of_fits (hfault : ∀ path, e.faults (.extractEntry path) = none)
    (h : a.Fits) : ∃ files, extractArchive e a = .ok files := by
  obtain ⟨x₁, hmetadata, hdb⟩ := specials_eq_ok.mpr ⟨h.specials, h.entries.of_append, rfl⟩
  obtain ⟨x₃, hentries⟩ := (extracted_afterSpecials a).rest_of_fits hfault h.entries
  refine ⟨x₃.files, Except.bind_eq_ok.mpr ⟨x₁, hmetadata, Except.bind_eq_ok.mpr ⟨_, hdb, ?_⟩⟩⟩
  exact Except.bind_eq_ok.mpr ⟨x₃, hentries, rfl⟩

end Archive

end Deltaship
