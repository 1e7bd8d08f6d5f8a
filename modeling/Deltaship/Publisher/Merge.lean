import Deltaship.Publisher.Effects
import Deltaship.Publisher.Transfer

/-!
# Deltaship.Publisher.Merge

A project is exported and imported into a project that is already there.

`merge_databases` adds a binary with all its versions, or passes over it because the
target has a binary of its name and platform (`Merged`); `import_binaries` copies a file,
or passes over it because something is at its place.  The two do not know of each other.
-/

namespace Deltaship

open Prog Lexical

namespace Import

/-! ## the database -/

/- A merge inserts the binaries that the target lacks, each with all of its versions. The loop over
the versions runs inside the one over the binaries; `Merged` is the invariant of both, and says that
every row is one of the target or comes from a binary that was added. -/

/-- A binary of the source is one that the target lacks. -/
def IsNew (target : PublisherDb) (binary : DbBinary) : Prop :=
  target.getBinaryByName binary.binaryName binary.platform = none

instance (target : PublisherDb) : DecidablePred (IsNew target) :=
  fun _ => inferInstanceAs (Decidable (_ = none))

/-- The row that a version of the source is added as. -/
structure AddedRow (S : SemverCrate) (s : Project) (db : PublisherDb) (binary : DbBinary)
    (version row : DbVersion) : Prop where
  fresh : row ∉ s.db.versions
  versionString : normalizeVersionString S version.versionString = .ok row.versionString
  filePath : row.filePath = importedPath s binary version
  hash : row.fileHashBlake3 = version.fileHashBlake3
  /-- It belongs to a binary that was added. -/
  binary : ∃ b ∈ db.binaries, b ∉ s.db.binaries ∧ b.binaryName = binary.binaryName ∧
    b.platform = binary.platform ∧ row.binaryId = b.binaryId

/-- The database after these binaries, and these versions of binaries, were added. -/
structure Merged (S : SemverCrate) (s : Project) (binaries : List DbBinary)
    (versions : List (DbBinary × DbVersion)) (db : PublisherDb) : Prop where
  binariesKept : ∀ b ∈ s.db.binaries, b ∈ db.binaries
  versionsKept : ∀ v ∈ s.db.versions, v ∈ db.versions
  newBinary : ∀ b ∈ db.binaries, b ∈ s.db.binaries ∨
    ∃ binary ∈ binaries, b.binaryName = binary.binaryName ∧ b.platform = binary.platform
  newVersion : ∀ row ∈ db.versions, row ∈ s.db.versions ∨
    ∃ p ∈ versions, AddedRow S s db p.1 p.2 row
  added : ∀ p ∈ versions, ∃ row ∈ db.versions, AddedRow S s db p.1 p.2 row

section Rows

variable {S : SemverCrate} {s : Project} {binaries : List DbBinary}
  {versions : List (DbBinary × DbVersion)} {db db' : PublisherDb} {binary : DbBinary}
  {version row : DbVersion}

/-- A row that was added stays one when binaries are added. -/
theorem AddedRow.mono (h : AddedRow S s db binary version row)
    (hbinaries : ∀ b ∈ db.binaries, b ∈ db'.binaries) : AddedRow S s db' binary version row := by
  obtain ⟨b, hb, hb'⟩ := h.binary
  exact ⟨h.fresh, h.versionString, h.filePath, h.hash, b, hbinaries b hb, hb'⟩

theorem Merged.nil (S : SemverCrate) (s : Project) : Merged S s [] [] s.db :=
  ⟨fun _ h => h, fun _ h => h, fun _ h => .inl h, fun _ h => .inl h,
    fun _ h => absurd h List.not_mem_nil⟩

/-- One more binary. -/
theorem Merged.insertBinary (h : Merged S s binaries versions db) {id : String}
    {path : Except DbError String} {new : DbBinary}
    (hinsert : PublisherDb.insertBinary id binary.binaryName binary.platform path db =
      .ok (new, db')) :
    Merged S s (binaries ++ [binary]) versions db' ∧ new ∈ db'.binaries ∧ new ∉ s.db.binaries ∧
      new.binaryName = binary.binaryName ∧ new.platform = binary.platform := by
  obtain ⟨canonicalPath, rows, -, rfl, -, hrows, rfl⟩ := PublisherDb.insertBinary_eq_ok hinsert
  have hmem : ∀ b, b ∈ rows ↔ _ := fun _ => Table.mem_insert hrows
  have hsub : ∀ b ∈ db.binaries, b ∈ rows := fun b hb => (hmem b).mpr (.inl hb)
  refine ⟨⟨fun b hb => hsub b (h.binariesKept b hb), h.versionsKept, fun b hb => ?_,
    fun row hrow => ?_, fun p hp => ?_⟩, (hmem _).mpr (.inr rfl), fun hold => ?_, rfl, rfl⟩
  · rcases (hmem b).mp hb with hb | rfl
    · rcases h.newBinary b hb with hb | ⟨binary', hbinary', hsame⟩
      · exact .inl hb
      · exact .inr ⟨binary', List.mem_append_left _ hbinary', hsame⟩
    · exact .inr ⟨binary, by simp, rfl, rfl⟩
  · exact (h.newVersion row hrow).imp_right fun hnew => by
      obtain ⟨p, hp, hadded⟩ := hnew
      exact ⟨p, hp, hadded.mono hsub⟩
  · obtain ⟨row, hrow, hadded⟩ := h.added p hp
    exact ⟨row, hrow, hadded.mono hsub⟩
  · rw [Table.insert_eq_none ⟨_, h.binariesKept _ hold, rfl⟩] at hrows
    contradiction

/-- One more version of a binary that was added. -/
theorem Merged.insertVersion (h : Merged S s binaries versions db) {id : String} {now : Nat}
    {new : DbBinary} (hnew : new ∈ db.binaries ∧ new ∉ s.db.binaries ∧
      new.binaryName = binary.binaryName ∧ new.platform = binary.platform)
    (hinsert : PublisherDb.insertVersion S id now
      ⟨new.binaryId, version.versionString, importedPath s binary version, version.fileSizeBytes,
        version.fileHashBlake3, version.fileHashSha256⟩ db = .ok (row, db')) :
    Merged S s binaries (versions ++ [(binary, version)]) db' ∧ ∀ v ∈ s.db.versions,
      v.versionId ≠ row.versionId := by
  obtain ⟨normalized, rows, hnormalized, rfl, -, hrows, rfl⟩ :=
    PublisherDb.insertVersion_eq_ok hinsert
  have hmem : ∀ v, v ∈ rows ↔ _ := fun _ => Table.mem_insert hrows
  have hfresh : ∀ v ∈ s.db.versions, v.versionId ≠ id := fun v hv heq => by
    rw [Table.insert_eq_none ⟨v, h.versionsKept v hv, heq⟩] at hrows
    contradiction
  have hadded : AddedRow S s { db with versions := rows } binary version
      ⟨id, new.binaryId, normalized, importedPath s binary version, version.fileSizeBytes,
        version.fileHashBlake3, version.fileHashSha256, none, none, now⟩ :=
    ⟨fun hold => hfresh _ hold rfl, hnormalized, rfl, rfl, new, hnew.1, hnew.2.1, hnew.2.2.1,
      hnew.2.2.2, rfl⟩
  refine ⟨⟨h.binariesKept, fun v hv => (hmem v).mpr (.inl (h.versionsKept v hv)), h.newBinary,
    fun v hv => ?_, fun p hp => ?_⟩, hfresh⟩
  · rcases (hmem v).mp hv with hv | rfl
    · rcases h.newVersion v hv with hv | ⟨p, hp, hp'⟩
      · exact .inl hv
      · exact .inr ⟨p, List.mem_append_left _ hp, hp'.mono fun _ hb => hb⟩
    · exact .inr ⟨(binary, version), by simp, hadded⟩
  · rcases List.mem_append.mp hp with hp | hp
    · obtain ⟨v, hv, hp'⟩ := h.added p hp
      exact ⟨v, (hmem v).mpr (.inl hv), hp'.mono fun _ hb => hb⟩
    · rw [List.mem_singleton.mp hp]
      exact ⟨_, (hmem _).mpr (.inr rfl), hadded⟩

/-- The signature of a version that was added. -/
theorem Merged.setVersionSignature (h : Merged S s binaries versions db) {id : String}
    (hid : ∀ v ∈ s.db.versions, v.versionId ≠ id) {sig : Bytes} {ts : String}
    (hset : PublisherDb.setVersionSignature id sig ts db = .ok db') :
    Merged S s binaries versions db' := by
  obtain ⟨hbinaries, -, hrows⟩ := updateVersion_eq_ok hset
  -- a row that is not of the target stays what it is but for its signature
  have hsigned : ∀ p : DbBinary × DbVersion, ∀ v, AddedRow S s db p.1 p.2 v →
      AddedRow S s db' p.1 p.2 (if v.versionId = id then
        { v with signatureEd25519 := some sig, signatureTimestamp := some ts } else v) := by
    intro p v hv
    split
    · next heq =>
        refine ⟨fun hold => hid _ hold heq, hv.versionString, hv.filePath, hv.hash, ?_⟩
        rw [hbinaries]
        exact hv.binary
    · exact hv.mono fun b hb => hbinaries ▸ hb
  refine ⟨fun b hb => hbinaries ▸ h.binariesKept b hb, fun v hv => ?_,
    fun b hb => h.newBinary b (hbinaries ▸ hb), fun row hrow => ?_, fun p hp => ?_⟩
  · exact (hrows v).mpr ⟨v, h.versionsKept v hv, (if_neg (hid v hv)).symm⟩
  · obtain ⟨v, hv, rfl⟩ := (hrows row).mp hrow
    rcases h.newVersion v hv with hv | ⟨p, hp, hadded⟩
    · rw [if_neg (hid v hv)]
      exact .inl hv
    · exact .inr ⟨p, hp, hsigned p v hadded⟩
  · obtain ⟨v, hv, hadded⟩ := h.added p hp
    exact ⟨_, (hrows _).mpr ⟨v, hv, rfl⟩, hsigned p v hadded⟩

end Rows

/-- The versions of these binaries. -/
def versionsOf (source : PublisherDb) (binaries : List DbBinary) : List (DbBinary × DbVersion) :=
  binaries.flatMap fun b => (source.listVersions b.binaryId).map fun v => (b, v)

/-- The binaries of the source that are added. -/
def newBinaries (source target : PublisherDb) : List DbBinary :=
  source.listBinaries.filter fun b => IsNew target b

/-- No two binaries have the same name and platform. -/
def BinariesUnique (db : PublisherDb) : Prop :=
  ∀ b ∈ db.binaries, ∀ b' ∈ db.binaries, b.binaryName = b'.binaryName → b.platform = b'.platform →
    b = b'

/-- A binary has another name or platform than those listed before it. -/
theorem BinariesUnique.other_of_listBinaries {source : PublisherDb} (h : BinariesUnique source)
    {done rest : List DbBinary} {b : DbBinary} (hsplit : source.listBinaries = done ++ b :: rest) :
    ∀ b' ∈ done, b'.binaryName = b.binaryName → b'.platform ≠ b.platform := by
  intro b' hb' hname hplatform
  have hnodup : source.listBinaries.Nodup :=
    (List.perm_insertionSort _ _).nodup_iff.mpr source.binaries.nodup.of_map
  rw [hsplit] at hnodup
  have hmem : ∀ x ∈ done ++ b :: rest, x ∈ source.binaries :=
    fun x hx => PublisherDb.mem_listBinaries.mp (hsplit ▸ hx)
  obtain rfl : b' = b :=
    h b' (hmem b' (List.mem_append_left _ hb')) b (hmem b (by simp)) hname hplatform
  exact (List.nodup_append.mp hnodup).2.2 b' hb' b' List.mem_cons_self rfl

section Loops

variable {S : SemverCrate} {e : PublisherEnv} {s : Project} {source db : PublisherDb}
  {binaries done : List DbBinary} {versions : List (DbBinary × DbVersion)} {binary new : DbBinary}
  {version : DbVersion} {E : String → Project → Prop}

/-- A version is added. -/
theorem Merged.mergeVersion (h : Merged S s binaries versions db)
    (hnew : new ∈ db.binaries ∧ new ∉ s.db.binaries ∧ new.binaryName = binary.binaryName ∧
      new.platform = binary.platform) :
    wp (mergeVersion S e binary new version)
      (fun _ s' => s' = { s with db := s'.db } ∧ s'.db.binaries = db.binaries ∧
        Merged S s binaries (versions ++ [(binary, version)]) s'.db)
      (fun _ _ => True) { s with db := db } := by
  unfold Import.mergeVersion
  rw [wp_bind, wp_get, wp_bind]
  refine wp_dbInsert (fun row db₁ hinsert => ?_) fun _ => trivial
  obtain ⟨h₁, hfresh⟩ := h.insertVersion hnew hinsert
  have hbinaries : db₁.binaries = db.binaries := by
    obtain ⟨_, _, -, -, -, -, rfl⟩ := PublisherDb.insertVersion_eq_ok hinsert
    rfl
  dsimp only
  split
  · refine wp_dbUpdate (fun db₂ hset => ?_) fun _ => trivial
    exact ⟨rfl, (updateVersion_eq_ok hset).1.trans hbinaries, h₁.setVersionSignature hfresh hset⟩
  · exact ⟨rfl, hbinaries, h₁⟩

/-- In the middle of the loop, a binary is found in the database exactly if the target
had it. -/
theorem Merged.getBinaryByName (h : Merged S s binaries versions db)
    (hother : ∀ b ∈ binaries, b.binaryName = binary.binaryName → b.platform ≠ binary.platform) :
    IsNew db binary ↔ IsNew s.db binary := by
  unfold IsNew PublisherDb.getBinaryByName
  simp only [Table.find_eq_none, Bool.and_eq_false_iff, beq_eq_false_iff_ne, ne_eq]
  constructor
  · intro hnone b hb
    exact hnone b (h.binariesKept b hb)
  · intro hnone b hb
    rcases h.newBinary b hb with hb | ⟨b', hb', hname, hplatform⟩
    · exact hnone b hb
    · rw [hname, hplatform]
      by_cases hsame : b'.binaryName = binary.binaryName
      · exact .inr (hother b' hb' hsame)
      · exact .inl hsame

/-- A binary that the target has is passed over; another is inserted, and then its versions. -/
theorem wp_mergeBinary {Q : Unit → Project → Prop}
    (hskip : ¬ IsNew s.db binary → Q () s)
    (hnew : IsNew s.db binary → ∀ path row db₁,
      PublisherDb.insertBinary (e.uuid (.mergedBinary binary.binaryId)) binary.binaryName
        binary.platform path s.db = .ok (row, db₁) →
      wp (forEach (Import.mergeVersion S e binary row) (source.listVersions binary.binaryId)) Q E
        { s with db := db₁ })
    (hfail : ∀ err s', E err s') : wp (Import.mergeBinary S e source binary) Q E s := by
  unfold Import.mergeBinary
  rw [wp_bind]
  refine wp_dbRead ?_ fun _ => hfail _ _
  by_cases h : IsNew s.db binary
  · rw [if_neg (fun hsome => Option.isSome_iff_ne_none.mp hsome h), wp_bind]
    refine wp_hostOp ?_ fun _ => hfail _ _
    simp only [wp_bind, wp_get]
    exact wp_dbInsert (fun row db₁ hinsert => hnew h _ row db₁ hinsert) fun _ => hfail _ _
  · rw [if_pos (Option.isSome_iff_ne_none.mpr h)]
    exact hskip h

/-- A binary is added with its versions, or passed over. -/
theorem Merged.mergeBinary
    (h : Merged S s (done.filter fun b => IsNew s.db b)
      (versionsOf source (done.filter fun b => IsNew s.db b)) db)
    (hother : ∀ b ∈ done, b.binaryName = binary.binaryName → b.platform ≠ binary.platform) :
    wp (mergeBinary S e source binary)
      (fun _ s' => s' = { s with db := s'.db } ∧
        Merged S s ((done ++ [binary]).filter fun b => IsNew s.db b)
          (versionsOf source ((done ++ [binary]).filter fun b => IsNew s.db b)) s'.db)
      (fun _ _ => True) { s with db := db } := by
  have hfound := h.getBinaryByName fun b hb => hother b (List.mem_of_mem_filter hb)
  refine wp_mergeBinary (fun hold => ?_) (fun habsent path row db₁ hinsert => ?_)
    fun _ _ => trivial
  · refine ⟨rfl, ?_⟩
    simpa [List.filter_append, mt hfound.mpr hold] using h
  · have hnew := hfound.mp habsent
    obtain ⟨h₁, hrow, hfresh, hname, hplatform⟩ := h.insertBinary hinsert
    refine wp_mono (fun _ s' hs' => ?_) (fun _ _ h => h)
      (wp_forEach (fun vs s' => s' = { s with db := s'.db } ∧ row ∈ s'.db.binaries ∧
        Merged S s (done.filter (fun b => IsNew s.db b) ++ [binary])
          (versionsOf source (done.filter fun b => IsNew s.db b) ++ vs.map (Prod.mk binary)) s'.db)
        ⟨rfl, hrow, by simpa using h₁⟩ fun vs v rest s₁ _ hs₁ => ?_)
    · obtain ⟨hstate, -, hmerged⟩ := hs'
      refine ⟨hstate, ?_⟩
      simpa [List.filter_append, hnew, versionsOf] using hmerged
    · obtain ⟨hstate, hrow₁, hmerged⟩ := hs₁
      rw [hstate]
      refine wp_mono (fun _ s₂ hs₂ => ?_) (fun _ _ h => h)
        (hmerged.mergeVersion ⟨hrow₁, hfresh, hname, hplatform⟩)
      obtain ⟨hstate₂, hbinaries, hmerged₂⟩ := hs₂
      refine ⟨hstate₂, hbinaries ▸ hrow₁, ?_⟩
      simpa using hmerged₂

/-- The binaries that the target lacks are added with all their versions. -/
theorem wp_mergeDatabases (hunique : BinariesUnique source) :
    wp (mergeDatabases S e source)
      (fun _ s' => s' = { s with db := s'.db } ∧
        Merged S s (newBinaries source s.db) (versionsOf source (newBinaries source s.db)) s'.db)
      (fun _ _ => True) s := by
  unfold mergeDatabases
  rw [wp_bind]
  refine wp_hostOp ?_ fun _ => trivial
  refine wp_forEach (fun done (s' : Project) => s' = { s with db := s'.db } ∧
    Merged S s (done.filter fun b => IsNew s.db b)
      (versionsOf source (done.filter fun b => IsNew s.db b)) s'.db)
    ⟨rfl, Merged.nil S s⟩ fun done b rest s₁ hsplit hs₁ => ?_
  obtain ⟨hstate, hmerged⟩ := hs₁
  rw [hstate]
  exact hmerged.mergeBinary (hunique.other_of_listBinaries hsplit)

end Loops

/-! ## the files -/

/- Files of the archive go to the places they are archived under, unless something is there already.
Whether a file is copied does not depend on what has become of its row. -/

/-- A place of the archive that is copied before the database. -/
def IsPayload (q : Path) : Prop :=
  (⟨false, ["binaries".toList]⟩ : Path).Contains q ∨ (⟨false, ["diffs".toList]⟩ : Path).Contains q

/-- The content of a file after a merge that copies these places: what is there stays. -/
def Lands (w : Workspace) (a : Archive) (copied : Path → Prop) (path : List Char) (b : Bytes) :
    Prop :=
  w.content path = some b ∨ w.existsAt (w.resolve path) = false ∧
    ∃ q, w.place q = w.resolve path ∧ copied q ∧ lastAt a.entries q = some b

section Files

variable {S : SemverCrate} {e : PublisherEnv} {w w' : Workspace} {tree : Files Path Bytes}
  {a : Archive} {includeKeys : Bool} {path : List Char} {b : Bytes}

/-- The payload are the files of the two directories. -/
theorem mem_payloadFiles {q : Path} : q ∈ payloadFiles tree ⟨includeKeys, true⟩ ↔
    IsPayload q ∧ (tree.read q).isSome = true := by
  simp only [payloadFiles, treeFiles, IsPayload, List.mem_append, List.mem_filter,
    Files.mem_paths, decide_eq_true_eq, if_true]
  grind

/-- What lands where it should does so when more is copied. -/
theorem Lands.mono {copied copied' : Path → Prop} (h : Lands w a copied path b)
    (hsub : ∀ q, copied q → copied' q) : Lands w a copied' path b :=
  h.imp_right fun hland => by
    obtain ⟨hfree, q, hplace, hq, hlast⟩ := hland
    exact ⟨hfree, q, hplace, hsub q hq, hlast⟩

/-- What is found at a path after the merge. -/
theorem content_iff_lands {qs : List Path} {copied : Path → Prop} {db : Option PublisherDb}
    (hread : ∀ q, tree.read q = lastAt a.entries q)
    (hqs : ∀ q, q ∈ qs ↔ copied q ∧ (tree.read q).isSome = true)
    (hcopied : Copied true tree qs { w with db := db } w') :
    w'.content path = some b ↔ Lands w a copied path b := by
  have hcontent : w'.content path = w'.files.read (w.resolve path) := by
    unfold Workspace.content Workspace.resolve
    rw [hcopied.root]
  rw [hcontent, Lands]
  by_cases hex : w.existsAt (w.resolve path) = true
  · rw [hcopied.kept _ fun _ _ _ => ⟨rfl, hex⟩]
    simp [hex, Workspace.content]
  · have hfree : w.existsAt (w.resolve path) = false := Bool.eq_false_iff.mpr hex
    have hnone : w.content path = none := by
      rw [← Option.not_isSome_iff_eq_none]
      exact fun hsome => hex (existsAt_iff.mpr ⟨_, .refl _, hsome⟩)
    simp only [hnone, hfree, true_and, reduceCtorEq, false_or]
    constructor
    · intro hb
      have hsome : (w'.files.read (w.resolve path)).isSome = true := by rw [hb]; rfl
      rcases hcopied.cases hsome with hbefore | ⟨q, hq, hplace, hsame⟩
      · exact absurd hbefore (by simpa [Workspace.content] using hnone)
      · exact ⟨q, hplace, ((hqs q).mp hq).1, by rw [← hread, ← hsame, hb]⟩
    · rintro ⟨q, hplace, hq, hlast⟩
      rw [← hread] at hlast
      have hcopy := hcopied.copied q ((hqs q).mpr ⟨hq, by rw [hlast]; rfl⟩)
        fun hblocked => hex (hplace ▸ hblocked.2)
      rw [← hplace, ← hlast]
      exact hcopy

/-- A merge that succeeds copies the binaries and the diffs, adds the binaries that the
target lacks, and copies the keys. -/
theorem wp_run_merge {source target : PublisherDb} {n m : Nat}
    (hmetadata : a.metadata = some (⟨includeKeys, true⟩, n)) (hdb : a.db = some (source, m))
    (htree : extractArchive e a = .ok tree) (htarget : w.db = some target)
    (hunique : BinariesUnique source) :
    wp (run S e a true false)
      (fun _ w' => ∃ w₁ db, Copied true tree (payloadFiles tree ⟨includeKeys, true⟩) w w₁ ∧
        w'.db = some db ∧ Copied true tree
          (payloadFiles tree ⟨includeKeys, true⟩ ++ keyFiles tree ⟨includeKeys, true⟩)
          { w with db := some db } w' ∧
        Merged S (w₁.project target) (newBinaries source target)
          (versionsOf source (newBinaries source target)) db)
      (fun _ _ => True) w := by
  have hok : TreeOk tree := treeOk_of_extractArchive htree
  have hfail : ∀ w, FailsWith e true tree w (fun _ _ => True) := by
    intro _ _ _ _ _ _ _ _ _ _ _
    trivial
  unfold run install removeExisting
  simp only [wp_bind, wp_get, wp_ofExcept, checkOptions, Bool.and_false, Bool.not_true,
    Bool.false_and, Bool.false_eq_true, if_false, htree, hmetadata, Option.map_some,
    Except.ofOption, wp_pure]
  refine wp_op ?_ fun _ => trivial
  refine wp_mono (fun _ w₁ h₁ => ?_) (fun _ _ _ => trivial) (wp_importPayload hok (hfail w) _)
  unfold importDatabase
  simp only [wp_bind, wp_ofExcept, hdb, Option.map_some, Except.ofOption, wp_get]
  rw [h₁.db.trans htarget]
  dsimp only
  rw [wp_bind]
  refine wp_op ?_ fun _ => trivial
  simp only [wp_bind, wp_ofExcept]
  refine wp_op ?_ fun _ => trivial
  rw [wp_onProject]
  refine wp_mono (fun _ s hs => ?_) (fun _ _ _ => trivial) (wp_mergeDatabases hunique)
  obtain ⟨hstate, hmerged⟩ := hs
  have hfiles : s.files = w₁.files := by rw [hstate]; rfl
  rw [hfiles]
  have hqs : ∀ q ∈ payloadFiles tree ⟨includeKeys, true⟩, (tree.read q).isSome = true :=
    fun q => isSome_of_mem_payloadFiles
  refine wp_mono (fun _ w₂ h₂ => ?_) (fun _ _ _ => trivial)
    ((h₁.withDb (some s.db)).importKeys hok hqs (hfail _) ⟨includeKeys, true⟩)
  unfold verifyImport
  rw [wp_bind]
  refine wp_op ?_ fun _ => trivial
  rw [wp_bind, wp_get, h₂.db]
  exact ⟨w₁, s.db, h₁, h₂.db, h₂, hmerged⟩

end Files

end Import

/-! ## the union of two projects -/

/- Rows are merged by names of binaries and files by names of files. The union is what both give
together, and it fails where the two rules differ, or where the archived database is behind the one
of the exporting project. -/

/-- The database has this version of this binary. -/
def PublisherDb.Has (db : PublisherDb) (binaryName platform versionString : String) : Prop :=
  ∃ b ∈ db.binaries, ∃ v ∈ db.versions, b.binaryName = binaryName ∧ b.platform = platform ∧
    v.binaryId = b.binaryId ∧ v.versionString = versionString

/-- Each version belongs to a binary, as the schema demands. -/
def PublisherDb.VersionsOwned (db : PublisherDb) : Prop :=
  ∀ v ∈ db.versions, ∃ b ∈ db.binaries, b.binaryId = v.binaryId

/-- The directory has the rows of the target, all versions of the source that the target
lacks, and the file of each row that was added. -/
structure IsUnion (X : PublisherCrates) (source target : PublisherDb) (w : Workspace)
    (db : PublisherDb) : Prop where
  binaries : ∀ b ∈ target.binaries, b ∈ db.binaries
  versions : ∀ v ∈ target.versions, v ∈ db.versions
  complete : ∀ binaryName platform versionString, source.Has binaryName platform versionString →
    ¬ target.Has binaryName platform versionString → db.Has binaryName platform versionString
  files : ∀ v ∈ db.versions, v ∉ target.versions → ∃ b, w.content v.filePath.toList = some b ∧
    (X.crypto.blake3 b).val = v.fileHashBlake3

/-- What the path that a version is recorded with names has the hash of the row: the place of
the imported file if there is a file, and else the path in the source. -/
def FileLands (X : PublisherCrates) (w : Workspace) (a : Archive) (includeKeys : Bool)
    (binary : DbBinary) (version : DbVersion) : Prop :=
  let imported :=
    Import.importedBinaryFile binary.binaryName version.versionString binary.platform
  (∃ b, Import.Lands w a Import.IsPayload imported b ∧
      (X.crypto.blake3 b).val = version.fileHashBlake3) ∨
    (∀ b, ¬ Import.Lands w a Import.IsPayload imported b) ∧
      ∃ b, Import.Lands w a (Import.IsImported includeKeys) version.filePath.toList b ∧
        (X.crypto.blake3 b).val = version.fileHashBlake3

/-- The rules for rows and those for files do not get in each other's way, and no row that the
target lacks was still in the write-ahead log: `main` is the database that was copied. -/
structure MergesWell (X : PublisherCrates) (source main target : PublisherDb) (w : Workspace)
    (a : Archive) (includeKeys : Bool) : Prop where
  /-- A version that the target lacks belongs to a binary that the target lacks, and was in the
  file that was copied. -/
  complete : ∀ b ∈ source.binaries, ∀ v ∈ source.versions, v.binaryId = b.binaryId →
    ¬ target.Has b.binaryName b.platform v.versionString →
      Import.IsNew target b ∧ main.Has b.binaryName b.platform v.versionString
  /-- A version that is added finds its file. -/
  added : ∀ b ∈ main.binaries, Import.IsNew target b → ∀ v ∈ main.versions,
    v.binaryId = b.binaryId → FileLands X w a includeKeys b v

section Union

variable {X : PublisherCrates} {source target db : PublisherDb} {w w₁ w' : Workspace}
  {a : Archive} {tree : Files Path Bytes} {includeKeys : Bool} {b : DbBinary} {v row : DbVersion}

/-- The versions that are merged are those of the binaries that are new. -/
theorem Import.mem_versionsOf {p : DbBinary × DbVersion} :
    p ∈ Import.versionsOf source (Import.newBinaries source target) ↔
      (p.1 ∈ source.binaries ∧ Import.IsNew target p.1) ∧
        p.2 ∈ source.versions ∧ p.2.binaryId = p.1.binaryId := by
  obtain ⟨binary, version⟩ := p
  simp only [Import.versionsOf, Import.newBinaries, List.mem_flatMap, List.mem_filter,
    PublisherDb.mem_listBinaries, List.mem_map, PublisherDb.mem_listVersions, decide_eq_true_eq,
    Prod.mk.injEq]
  grind

/-- A row that was added finds its file exactly if the file of its version has landed. -/
theorem fileLands_iff (hread : ∀ q, tree.read q = lastAt a.entries q)
    (hpayload : Import.Copied true tree (Import.payloadFiles tree ⟨includeKeys, true⟩) w w₁)
    {db : Option PublisherDb} (hcopied : Import.Copied true tree
      (Import.payloadFiles tree ⟨includeKeys, true⟩ ++ Import.keyFiles tree ⟨includeKeys, true⟩)
      { w with db := db } w')
    (hpath : row.filePath = Import.importedPath (w₁.project target) b v)
    (hhash : row.fileHashBlake3 = v.fileHashBlake3) :
    (∃ x, w'.content row.filePath.toList = some x ∧
      (X.crypto.blake3 x).val = row.fileHashBlake3) ↔ FileLands X w a includeKeys b v := by
  have hpayload' : Import.Copied true tree (Import.payloadFiles tree ⟨includeKeys, true⟩)
      { w with db := w.db } w₁ := hpayload
  have hfirst : ∀ path x, w₁.content path = some x ↔ Import.Lands w a Import.IsPayload path x :=
    fun path x => Import.content_iff_lands hread (fun q => Import.mem_payloadFiles) hpayload'
  have hlast : ∀ path x, w'.content path = some x ↔
      Import.Lands w a (Import.IsImported includeKeys) path x :=
    fun path x => Import.content_iff_lands hread (fun q => Import.mem_importedFiles) hcopied
  have hmono : ∀ path x, Import.Lands w a Import.IsPayload path x →
      Import.Lands w a (Import.IsImported includeKeys) path x := fun path x h =>
    h.mono fun q hq => hq.elim .inl fun hq => .inr (.inl hq)
  rw [hpath, hhash, Import.importedPath, FileLands]
  set imported := Import.importedBinaryFile b.binaryName v.versionString b.platform
  have hcontent : (w₁.project target).content imported = w₁.content imported :=
    w₁.content_project target imported
  rw [hcontent]
  cases hthere : w₁.content imported with
  | none =>
      have hnone : ∀ x, ¬ Import.Lands w a Import.IsPayload imported x := fun x hx => by
        rw [(hfirst imported x).mpr hx] at hthere
        contradiction
      simp only [Option.isSome_none, Bool.false_eq_true, if_false, hlast, hnone, false_and,
        exists_false, false_or, not_false_eq_true, implies_true, true_and]
  | some x₁ =>
      have hlands : Import.Lands w a Import.IsPayload imported x₁ := (hfirst imported x₁).mp hthere
      simp only [Option.isSome_some, if_true, String.toList_ofList]
      constructor
      · rintro ⟨x, hx, hsame⟩
        rw [(hlast imported x₁).mpr (hmono _ _ hlands)] at hx
        obtain rfl := Option.some.inj hx
        exact .inl ⟨x₁, hlands, hsame⟩
      · rintro (⟨x, hx, hsame⟩ | ⟨hnone, -⟩)
        · exact ⟨x, (hlast imported x).mpr (hmono _ _ hx), hsame⟩
        · exact absurd hlands (hnone x₁)

/-- The versions that a merge leaves out are those of binaries that the target has. -/
theorem has_of_merged {S : SemverCrate} {s : Project} (hmerged : Import.Merged S s
      (Import.newBinaries source s.db)
      (Import.versionsOf source (Import.newBinaries source s.db)) db)
    (hold : ¬ Import.IsNew s.db b) {versionString : String}
    (hhas : db.Has b.binaryName b.platform versionString) :
    s.db.Has b.binaryName b.platform versionString := by
  obtain ⟨b', hb', v', hv', hname, hplatform, hid, hversion⟩ := hhas
  -- no binary of this name and platform was added, and a version that was added belongs to a
  -- binary that was added
  have hkept : b' ∈ s.db.binaries := by
    rcases hmerged.newBinary b' hb' with h | ⟨binary, hbinary, hname', hplatform'⟩
    · exact h
    · have hnew : Import.IsNew s.db binary := by simpa using (List.mem_filter.mp hbinary).2
      unfold Import.IsNew at hnew hold
      rw [← hname', ← hplatform', hname, hplatform] at hnew
      exact absurd hnew hold
  rcases hmerged.newVersion v' hv' with h | ⟨p, -, hadded⟩
  · exact ⟨b', hkept, v', h, hname, hplatform, hid, hversion⟩
  · obtain ⟨new, hnew, hfresh, -, -, hid'⟩ := hadded.binary
    obtain rfl : b' = new := Table.eq_of_key_eq hb' hnew (hid.symm.trans hid')
    exact absurd hkept hfresh

end Union

section Union

variable {X : PublisherCrates} {source target main db : PublisherDb} {s : Project} {b : DbBinary}
  {v : DbVersion}

/-- A version that was added is one of the database that was copied. -/
theorem has_main_of_merged (howned : s.db.VersionsOwned)
    (hmerged : Import.Merged X.semver s (Import.newBinaries main s.db)
      (Import.versionsOf main (Import.newBinaries main s.db)) db)
    (hnormalized : ∀ v ∈ main.versions,
      normalizeVersionString X.semver v.versionString = .ok v.versionString)
    {binaryName platform versionString : String}
    (hlacks : ¬ s.db.Has binaryName platform versionString)
    (hhas : db.Has binaryName platform versionString) :
    main.Has binaryName platform versionString := by
  obtain ⟨b', hb', row, hrow, rfl, rfl, hid, rfl⟩ := hhas
  rcases hmerged.newVersion row hrow with hold | ⟨p, hp, hadded⟩
  · obtain ⟨old, hold', hid'⟩ := howned row hold
    obtain rfl : old = b' :=
      Table.eq_of_key_eq (hmerged.binariesKept old hold') hb' (hid'.trans hid)
    exact absurd ⟨old, hold', row, hold, rfl, rfl, hid, rfl⟩ hlacks
  · obtain ⟨⟨hb, -⟩, hv, hid'⟩ := Import.mem_versionsOf.mp hp
    obtain ⟨new, hnew, -, hname, hplatform, hsame⟩ := hadded.binary
    obtain rfl : b' = new := Table.eq_of_key_eq hb' hnew (hid.symm.trans hsame)
    have hversion := hadded.versionString
    rw [hnormalized _ hv] at hversion
    exact ⟨p.1, hb, p.2, hv, hname.symm, hplatform.symm, hid', Except.ok.inj hversion⟩

/-- A version of a binary that the target lacks is added. -/
theorem has_of_main (hmerged : Import.Merged X.semver s (Import.newBinaries main s.db)
      (Import.versionsOf main (Import.newBinaries main s.db)) db)
    (hnormalized : ∀ v ∈ main.versions,
      normalizeVersionString X.semver v.versionString = .ok v.versionString)
    (hnew : Import.IsNew s.db b)
    {versionString : String} (hhas : main.Has b.binaryName b.platform versionString) :
    db.Has b.binaryName b.platform versionString := by
  obtain ⟨b', hb', v, hv, hname, hplatform, hid, rfl⟩ := hhas
  have hnew' : Import.IsNew s.db b' := by
    unfold Import.IsNew at hnew ⊢
    rwa [hname, hplatform]
  obtain ⟨row, hrow, hadded⟩ :=
    hmerged.added (b', v) (Import.mem_versionsOf.mpr ⟨⟨hb', hnew'⟩, hv, hid⟩)
  obtain ⟨new, hmem, -, hname', hplatform', hid'⟩ := hadded.binary
  have hversion := hadded.versionString
  rw [hnormalized v hv] at hversion
  exact ⟨new, hmem, row, hrow, hname'.trans hname, hplatform'.trans hplatform, hid',
    (Except.ok.inj hversion).symm⟩

end Union

/-- An import that merges a project into another and succeeds gives the union of the two if
and only if each version that the target lacks belongs to a binary that the target lacks and was
in the database file that was copied, and the file that each version is recorded with, one that
was there or the one that was copied, has the hash of the row. -/
theorem merge_union_iff (X : PublisherCrates) (e e' : PublisherEnv) (s : Project)
    (w w' : Workspace) (main target : PublisherDb) (a : Archive) (metadataSize dbSize : Nat)
    (includeKeys : Bool) (hunique : Import.BinariesUnique main)
    (hnormalized : ∀ v ∈ main.versions,
      normalizeVersionString X.semver v.versionString = .ok v.versionString)
    (hexport : Export.run e s main metadataSize dbSize includeKeys true "tar" = .ok a)
    (htarget : w.db = some target) (howned : target.VersionsOwned)
    (himport : exec (Import.run X.semver e' a true false) w = (.ok (), w')) :
    (∃ db, w'.db = some db ∧ IsUnion X s.db target w' db) ↔
      MergesWell X s.db main target w a includeKeys := by
  obtain rfl := Export.run_ok hexport
  cases htree : extractArchive e' (Export.fullArchive s main metadataSize dbSize includeKeys) with
  | error err => exact (wp_exec_ok (Import.wp_run_not_extracted htree) himport).elim
  | ok tree =>
      obtain ⟨w₁, db, hpayload, hdb, hcopied, hmerged⟩ := wp_exec_ok
        (Import.wp_run_merge (S := X.semver) rfl rfl htree htarget hunique) himport
      have hread := (extractArchive_ok htree).2
      constructor
      · rintro ⟨db', hdb', hunion⟩
        obtain rfl := Option.some.inj (hdb.symm.trans hdb')
        refine ⟨fun b hb v hv hid hlacks => ?_, fun b hb hnew v hv hid => ?_⟩
        · have hhas := hunion.complete _ _ _ ⟨b, hb, v, hv, rfl, rfl, hid, rfl⟩ hlacks
          refine ⟨?_, has_main_of_merged howned hmerged hnormalized hlacks hhas⟩
          by_contra hold
          exact hlacks (has_of_merged hmerged hold hhas)
        · obtain ⟨row, hrow, hadded⟩ :=
            hmerged.added (b, v) (Import.mem_versionsOf.mpr ⟨⟨hb, hnew⟩, hv, hid⟩)
          exact (fileLands_iff hread hpayload hcopied hadded.filePath hadded.hash).mp
            (hunion.files row hrow hadded.fresh)
      · rintro ⟨hcomplete, hfiles⟩
        refine ⟨db, hdb, hmerged.binariesKept, hmerged.versionsKept, ?_, fun row hrow hfresh => ?_⟩
        · rintro _ _ _ ⟨b, hb, v, hv, rfl, rfl, hid, rfl⟩ hlacks
          obtain ⟨hnew, hmain⟩ := hcomplete b hb v hv hid hlacks
          exact has_of_main hmerged hnormalized hnew hmain
        · rcases hmerged.newVersion row hrow with hold | ⟨p, hp, hadded⟩
          · exact absurd hold hfresh
          · obtain ⟨⟨hb, hnew⟩, hv, hid⟩ := Import.mem_versionsOf.mp hp
            exact (fileLands_iff hread hpayload hcopied hadded.filePath hadded.hash).mpr
              (hfiles p.1 hb hnew p.2 hv hid)

/-! ### two projects with the same binary -/

/-- The database of a project that has the first version of `app` only. -/
def sampleTargetDb : PublisherDb :=
  { PublisherDb.empty with
    binaries := ⟨[⟨"a", "app", "linux-x86_64", "/q/app"⟩], by decide⟩
    versions := ⟨[{ sampleDbVersion "1.0.0" "app" [] with binaryId := "a" }], by decide⟩ }

/-- The project, on another host. -/
def sampleTarget : Workspace where
  root := "/q".toList
  db := some sampleTargetDb
  files := Files.ofList [(normalize "/q/app".toList, [])]

/-- What a merge leaves of a directory. -/
def sampleMerge (s : Project) (w : Workspace) : Except String Unit × Workspace :=
  exec (Import.run samplePublisherCrates.semver samplePublisherEnv
    (Export.fullArchive s s.db 400 40960 false) true false) w

/-- A sample merge that succeeds has no error. -/
theorem sampleMerge_ok {s : Project} {w : Workspace} (h : (sampleMerge s w).1.isOk = true) :
    exec (Import.run samplePublisherCrates.semver samplePublisherEnv
      (Export.fullArchive s s.db 400 40960 false) true false) w = (.ok (), (sampleMerge s w).2) := by
  refine exec_of_fst ?_
  cases hfst : (sampleMerge s w).1 with
  | error err =>
      rw [hfst] at h
      exact absurd h Bool.false_ne_true
  | ok u => exact hfst

/-- A project is merged into an empty one. -/
theorem merge_union_iff_placed :
    ∃ db, (sampleMerge samplePlaced { sampleDirectory with db := some PublisherDb.empty }).2.db =
      some db ∧ IsUnion samplePublisherCrates samplePlaced.db PublisherDb.empty
        (sampleMerge samplePlaced { sampleDirectory with db := some PublisherDb.empty }).2 db := by
  have hbinary : ∀ b ∈ samplePlaced.db.binaries,
      b = ⟨"b", "app", "linux-x86_64", "/p/.deltaship/binaries/app/1.0.0/linux-x86_64"⟩ :=
    fun b hb => List.mem_singleton.mp hb
  refine (merge_union_iff samplePublisherCrates samplePublisherEnv samplePublisherEnv samplePlaced
    { sampleDirectory with db := some PublisherDb.empty } _ samplePlaced.db PublisherDb.empty _ 400
    40960 false
    (fun b hb b' hb' _ _ => (hbinary b hb).trans (hbinary b' hb').symm) (fun v hv => ?_)
    (Export.run_of (fun _ => rfl) (fun name hname => ?_) (fun v hv => ?_)
      (fun j hj => absurd hj Table.not_mem_empty) samplePlaced.db 400 40960) rfl
    (fun v hv => absurd hv Table.not_mem_empty)
    (sampleMerge_ok (by decide))).mpr ⟨fun b hb v hv hid _ => ⟨rfl, b, hb, v, hv, rfl, rfl,
      hid, rfl⟩, fun b hb _ v hv _ => .inl ⟨[], ?_, ?_⟩⟩
  · rw [List.mem_singleton.mp hv]
    decide
  · rw [List.mem_singleton.mp hname]
    decide
  · rw [List.mem_singleton.mp hv]
    decide
  · rw [hbinary b hb, List.mem_singleton.mp hv]
    exact .inr ⟨by decide,
      ⟨false, ["binaries".toList, "app".toList, "1.0.0".toList, "linux-x86_64".toList]⟩,
      by decide, .inl (by decide), by decide⟩
  · rw [List.mem_singleton.mp hv]
    rfl

/-- A new version of a binary that the target has is not added. -/
theorem merge_loses_version :
    ¬ ∀ (X : PublisherCrates) (e e' : PublisherEnv) (s : Project) (w w' : Workspace)
      (main target : PublisherDb) (a : Archive) (metadataSize dbSize : Nat) (includeKeys : Bool),
      Import.BinariesUnique main →
      (∀ v ∈ main.versions,
        normalizeVersionString X.semver v.versionString = .ok v.versionString) →
      Export.run e s main metadataSize dbSize includeKeys true "tar" = .ok a →
      w.db = some target → target.VersionsOwned →
      exec (Import.run X.semver e' a true false) w = (.ok (), w') →
      ∃ db, w'.db = some db ∧ IsUnion X s.db target w' db := by
  intro h
  have hunique : Import.BinariesUnique sampleDiffed.db := by
    intro b hb b' hb' _ _
    rw [List.mem_singleton.mp hb, List.mem_singleton.mp hb']
  have hnormalized : ∀ v ∈ sampleDiffed.db.versions,
      normalizeVersionString samplePublisherCrates.semver v.versionString =
        .ok v.versionString := by
    intro v hv
    rcases List.mem_cons.mp hv with rfl | hv
    · decide
    · rw [List.mem_singleton.mp hv]
      decide
  have howned : sampleTargetDb.VersionsOwned := by
    intro v hv
    rw [List.mem_singleton.mp hv]
    exact ⟨_, List.mem_singleton.mpr rfl, rfl⟩
  have hexport : Export.run samplePublisherEnv sampleDiffed sampleDiffed.db 400 40960 false true
      "tar" = .ok (Export.fullArchive sampleDiffed sampleDiffed.db 400 40960 false) := by
    refine Export.run_of (fun _ => rfl) (fun name hname => ?_) (fun v hv => ?_)
      (fun j hj hdone path hpath => ?_) sampleDiffed.db 400 40960
    · rw [List.mem_singleton.mp hname]
      decide
    · obtain ⟨b, hb, -⟩ := sampleDiffed_intact.versions v hv
      rw [hb]
      rfl
    · obtain ⟨path', b, hpath', hb, -⟩ := sampleDiffed_intact.diffs j hj hdone
      obtain rfl := Option.some.inj (hpath'.symm.trans hpath)
      rw [hb]
      rfl
  obtain ⟨db, hdb, hunion⟩ := h samplePublisherCrates samplePublisherEnv samplePublisherEnv
    sampleDiffed sampleTarget _ _ _ _ 400 40960 false hunique hnormalized hexport rfl howned
    (sampleMerge_ok (by decide))
  have hsame : (sampleMerge sampleDiffed sampleTarget).2.db = some sampleTargetDb := by
    decide
  obtain rfl := Option.some.inj (hdb.symm.trans hsame)
  have hlacks : ¬ sampleTargetDb.Has "app" "linux-x86_64" "1.1.0" := by
    rintro ⟨b, -, v, hv, -, -, -, hversion⟩
    rw [List.mem_singleton.mp hv] at hversion
    exact absurd hversion (by decide)
  exact hlacks (hunion.complete "app" "linux-x86_64" "1.1.0"
    ⟨_, List.mem_singleton.mpr rfl, sampleDbVersion "1.1.0" "v2" (List.replicate 24 7),
      List.mem_cons_of_mem _ List.mem_cons_self, rfl, rfl, rfl, rfl⟩ hlacks)

end Deltaship
