import Deltaship.Db.Client

/-!
# Deltaship.Db.Rows

What each operation of the client database does to the rows, and when it
succeeds.  Later modules use these and never unfold an operation.
-/

namespace Deltaship

namespace ClientDb

variable {S : SemverCrate} {db db' : ClientDb} {binaryId versionId versionString : String}

/-- Nothing but the update history differs. -/
structure SameRows (db db' : ClientDb) : Prop where
  managed : db'.managed = db.managed
  installed : db'.installed = db.installed
  backups : db'.backups = db.backups

/-- Where nothing was done, the rows are the same. -/
theorem SameRows.refl (db : ClientDb) : SameRows db db := ⟨rfl, rfl, rfl⟩

/-- Twice the same rows are the same rows. -/
theorem SameRows.trans {db'' : ClientDb} (h : SameRows db db') (h' : SameRows db' db'') :
    SameRows db db'' :=
  ⟨h'.managed.trans h.managed, h'.installed.trans h.installed, h'.backups.trans h.backups⟩

/-! ## binaries -/

/-- A registration adds one binary, without a current version. -/
theorem registerBinary_ok {b : NewManagedBinary} (h : registerBinary b db = .ok db') :
    db'.installed = db.installed ∧ db'.backups = db.backups ∧ ∀ r, r ∈ db'.managed ↔
      r ∈ db.managed ∨ r = ⟨b.binaryId, b.binaryName, b.platform, b.installPath, none, none,
        b.publisherPublicKey, true, none⟩ := by
  unfold registerBinary at h
  obtain ⟨-, -, h⟩ := Except.bind_eq_ok.mp h
  obtain ⟨-, -, h⟩ := Except.bind_eq_ok.mp h
  obtain ⟨managed, hinsert, h⟩ := Except.bind_eq_ok.mp h
  rw [← Except.ok.inj h]
  exact ⟨rfl, rfl, fun _ => Table.mem_insert (Except.ofOption_eq_ok.mp hinsert)⟩

/-- The id of a registered binary is new. -/
theorem registerBinary_new {b : NewManagedBinary} (h : registerBinary b db = .ok db') :
    ∀ r ∈ db.managed, r.binaryId ≠ b.binaryId := by
  unfold registerBinary at h
  obtain ⟨-, -, h⟩ := Except.bind_eq_ok.mp h
  obtain ⟨-, -, h⟩ := Except.bind_eq_ok.mp h
  obtain ⟨managed, hinsert, -⟩ := Except.bind_eq_ok.mp h
  exact fun r hr => Table.key_ne_of_insert (Except.ofOption_eq_ok.mp hinsert) hr

/-- Only the time of the check is written. -/
theorem setLastCheck_ok {now : Nat} (h : setLastCheck binaryId now db = .ok db')
    {b' : ManagedBinary} (hb' : b' ∈ db'.managed) :
    ∃ b ∈ db.managed, ∃ at', b' = { b with lastCheckAt := at' } := by
  unfold setLastCheck at h
  split at h
  · obtain rfl := Except.ok.inj h
    simp only [Table.mem_update] at hb'
    obtain ⟨b, hb, rfl⟩ := hb'
    refine ⟨b, hb, ?_⟩
    split
    · exact ⟨_, rfl⟩
    · exact ⟨b.lastCheckAt, rfl⟩
  · contradiction

/-- A binary is deleted with every row that refers to it. -/
theorem deleteManagedBinary_ok (h : deleteManagedBinary binaryId db = .ok db') :
    (∀ b, b ∈ db'.managed ↔ b ∈ db.managed ∧ b.binaryId ≠ binaryId) ∧
      ∀ r, r ∈ db'.installed ↔ r ∈ db.installed ∧ r.binaryId ≠ binaryId := by
  unfold deleteManagedBinary at h
  split at h
  · rw [← Except.ok.inj h]
    exact ⟨fun b => by simp [Table.mem_delete], fun r => by simp [Table.mem_delete]⟩
  · contradiction

theorem getBinary_eq_some {b : ManagedBinary} :
    db.getBinary binaryId = some b ↔ b ∈ db.managed ∧ b.binaryId = binaryId := by
  constructor
  · intro h
    obtain ⟨hmem, hkey⟩ := Table.mem_of_find h
    exact ⟨hmem, beq_iff_eq.mp hkey⟩
  · rintro ⟨hmem, rfl⟩
    cases h : db.getBinary b.binaryId with
    | none =>
        have hnone := Table.find_eq_none.mp h b hmem
        rw [beq_self_eq_true] at hnone
        contradiction
    | some b' =>
        obtain ⟨hmem', hkey⟩ := Table.mem_of_find h
        exact congrArg some (Table.eq_of_key_eq hmem' hmem (beq_iff_eq.mp hkey))

/-- A binary is there if one of the rows has its id. -/
theorem hasBinary_iff :
    db.hasBinary binaryId = true ↔ ∃ b ∈ db.managed, b.binaryId = binaryId := by
  rw [hasBinary, Option.isSome_iff_exists]
  exact exists_congr fun b => getBinary_eq_some

/-- It is a matter of the managed binaries only. -/
theorem hasBinary_congr (h : db'.managed = db.managed) :
    db'.hasBinary binaryId = db.hasBinary binaryId := by
  unfold hasBinary getBinary
  rw [h]

/-! ## update history -/

/-- The start of an update adds a row to the history and changes no other table. -/
theorem recordUpdateStart_ok {now id : Nat} {record : NewUpdateRecord}
    (h : recordUpdateStart now record db = .ok (id, db')) :
    db.hasBinary record.binaryId = true ∧ SameRows db db' ∧
      ∃ row ∈ db'.history, row.updateId = id := by
  unfold recordUpdateStart at h
  split at h
  · contradiction
  · next hb =>
      obtain ⟨rfl, rfl⟩ := Prod.mk.inj (Except.ok.inj h)
      exact ⟨by simpa using hb, ⟨rfl, rfl, rfl⟩, _, AutoTable.mem_insert.mpr (.inr rfl), rfl⟩

/-- It can be recorded for every binary that is there. -/
theorem exists_recordUpdateStart {now : Nat} {record : NewUpdateRecord}
    (hb : db.hasBinary record.binaryId = true) : ∃ r, recordUpdateStart now record db = .ok r := by
  unfold recordUpdateStart
  rw [hb]
  exact ⟨_, rfl⟩

/-- The end of an update changes the history only. -/
theorem recordUpdateComplete_ok {updateId : Nat} {success : Bool} {err : Option String}
    {metrics : UpdateMetrics}
    (h : recordUpdateComplete updateId success err metrics db = .ok db') : SameRows db db' := by
  unfold recordUpdateComplete at h
  split at h
  · rw [← Except.ok.inj h]
    exact ⟨rfl, rfl, rfl⟩
  · contradiction

/-- Completing a recorded update succeeds. -/
theorem exists_recordUpdateComplete {updateId : Nat} {success : Bool} {err : Option String}
    {metrics : UpdateMetrics} (h : ∃ row ∈ db.history, row.updateId = updateId) :
    ∃ db', recordUpdateComplete updateId success err metrics db = .ok db' := by
  obtain ⟨row, hrow, hid⟩ := h
  have hany : db.history.rows.any (fun r => r.updateId == updateId) = true :=
    List.any_eq_true.mpr ⟨row, hrow, beq_iff_eq.mpr hid⟩
  unfold recordUpdateComplete
  rw [if_pos hany]
  exact ⟨_, rfl⟩

/-- So does a rollback that is recorded. -/
theorem recordRollback_ok {now : Nat} {record : NewUpdateRecord}
    (h : recordRollback now record db = .ok db') : SameRows db db' := by
  unfold recordRollback at h
  split at h
  · contradiction
  · rw [← Except.ok.inj h]
    exact ⟨rfl, rfl, rfl⟩

/-- It can be recorded for every binary that is there. -/
theorem exists_recordRollback {now : Nat} {record : NewUpdateRecord}
    (h : db.hasBinary record.binaryId = true) :
    ∃ db', recordRollback now record db = .ok db' := by
  simp [recordRollback, h]

theorem deleteUpdateHistory_ok {now : Nat} {days : Int}
    (h : deleteUpdateHistory now days db = .ok db') : SameRows db db' := by
  unfold deleteUpdateHistory at h
  split at h
  · contradiction
  · rw [← Except.ok.inj h]
    exact ⟨rfl, rfl, rfl⟩

/-! ## installed versions -/

/-- A hash of the right length is accepted. -/
theorem validateHashSize_ok {hash : Bytes} {n : Nat} {name : String} (h : hash.length = n) :
    validateHashSize hash n name = .ok () := if_neg (not_not.mpr h)

/-- An installed version is one row more, with its version text normalized. -/
theorem recordInstalledVersion_ok {blake3 sha256 : Bytes} {size : Nat}
    (h : recordInstalledVersion S binaryId versionId versionString blake3 sha256 size db =
      .ok db') :
    ∃ normalized, normalizeVersionString S versionString = .ok normalized ∧
      db.installed.insert ⟨binaryId, versionId, normalized, blake3, sha256, size, false⟩ =
        some db'.installed ∧
      db'.managed = db.managed ∧ db'.backups = db.backups ∧ db'.history = db.history := by
  unfold recordInstalledVersion at h
  obtain ⟨-, -, h⟩ := Except.bind_eq_ok.mp h
  obtain ⟨-, -, h⟩ := Except.bind_eq_ok.mp h
  obtain ⟨normalized, hn, h⟩ := Except.bind_eq_ok.mp h
  obtain ⟨-, -, h⟩ := Except.bind_eq_ok.mp h
  obtain ⟨-, -, h⟩ := Except.bind_eq_ok.mp h
  obtain ⟨installed, hinsert, h⟩ := Except.bind_eq_ok.mp h
  rw [← Except.ok.inj h]
  exact ⟨normalized, hn, Except.ofOption_eq_ok.mp hinsert, rfl, rfl, rfl⟩

/-- A version is only recorded for a known binary. -/
theorem recordInstalledVersion_known {blake3 sha256 : Bytes} {size : Nat}
    (h : recordInstalledVersion S binaryId versionId versionString blake3 sha256 size db =
      .ok db') : db.hasBinary binaryId = true := by
  unfold recordInstalledVersion at h
  obtain ⟨-, -, h⟩ := Except.bind_eq_ok.mp h
  obtain ⟨-, -, h⟩ := Except.bind_eq_ok.mp h
  obtain ⟨normalized, -, h⟩ := Except.bind_eq_ok.mp h
  obtain ⟨-, -, h⟩ := Except.bind_eq_ok.mp h
  obtain ⟨_, hknown, -⟩ := Except.bind_eq_ok.mp h
  exact Except.ensure_eq_ok.mp hknown

/-- No version is recorded with an empty file. -/
theorem recordInstalledVersion_size {blake3 sha256 : Bytes} {size : Nat}
    (h : recordInstalledVersion S binaryId versionId versionString blake3 sha256 size db =
      .ok db') : size ≠ 0 := by
  unfold recordInstalledVersion at h
  obtain ⟨-, -, h⟩ := Except.bind_eq_ok.mp h
  obtain ⟨-, -, h⟩ := Except.bind_eq_ok.mp h
  obtain ⟨normalized, -, h⟩ := Except.bind_eq_ok.mp h
  obtain ⟨_, hsize, -⟩ := Except.bind_eq_ok.mp h
  exact Except.ensure_eq_ok.mp hsize

/-- A version that is not recorded yet is recorded. -/
theorem exists_recordInstalledVersion {blake3 sha256 : Bytes} {size : Nat} {normalized : String}
    (hblake3 : blake3.length = 32) (hsha256 : sha256.length = 32)
    (hn : normalizeVersionString S versionString = .ok normalized) (hsize : size ≠ 0)
    (hb : db.hasBinary binaryId = true)
    (hnew : ∀ r ∈ db.installed, ¬ (r.binaryId = binaryId ∧ r.versionId = versionId)) :
    ∃ db', recordInstalledVersion S binaryId versionId versionString blake3 sha256 size db =
      .ok db' := by
  obtain ⟨installed, hinsert⟩ := Table.exists_insert (t := db.installed)
    (r := ⟨binaryId, versionId, normalized, blake3, sha256, size, false⟩)
    fun r hr heq => hnew r hr ⟨congrArg Prod.fst heq, congrArg Prod.snd heq⟩
  refine ⟨{ db with installed }, ?_⟩
  unfold recordInstalledVersion
  refine Except.bind_eq_ok.mpr ⟨(), validateHashSize_ok hblake3, ?_⟩
  refine Except.bind_eq_ok.mpr ⟨(), validateHashSize_ok hsha256, ?_⟩
  refine Except.bind_eq_ok.mpr ⟨normalized, hn, ?_⟩
  refine Except.bind_eq_ok.mpr ⟨(), Except.ensure_eq_ok.mpr hsize, ?_⟩
  refine Except.bind_eq_ok.mpr ⟨(), Except.ensure_eq_ok.mpr hb, ?_⟩
  exact Except.bind_eq_ok.mpr ⟨installed, Except.ofOption_eq_ok.mpr hinsert, rfl⟩

/-- The current version is changed to one that is installed, and in both tables. -/
theorem updateCurrentVersion_ok (h : updateCurrentVersion binaryId versionId versionString db =
      .ok db') :
    db.hasBinary binaryId = true ∧
    (∃ r ∈ db.installed, r.binaryId = binaryId ∧ r.versionId = versionId) ∧
    (∀ b', b' ∈ db'.managed ↔ ∃ b ∈ db.managed,
      b' = setCurrent binaryId versionId versionString b) ∧
    (∀ r', r' ∈ db'.installed ↔ ∃ r ∈ db.installed, r' = markCurrent binaryId versionId r) ∧
    db'.backups = db.backups ∧ db'.history = db.history := by
  unfold updateCurrentVersion at h
  split at h
  · contradiction
  · next hb =>
      split at h
      · contradiction
      · next hr =>
          rw [Option.isNone_iff_eq_none] at hr
          obtain ⟨r, hfind⟩ := Option.ne_none_iff_exists'.mp hr
          obtain ⟨hmem, hkey⟩ := Table.mem_of_find hfind
          have hkey : r.binaryId = binaryId ∧ r.versionId = versionId := by simpa using hkey
          rw [← Except.ok.inj h]
          exact ⟨by simpa using hb, ⟨r, hmem, hkey⟩,
            fun _ => Table.mem_update (binaryId_setCurrent binaryId versionId versionString),
            fun _ => Table.mem_update (key_markCurrent binaryId versionId), rfl, rfl⟩

/-- A recorded version of a known binary is made current. -/
theorem exists_updateCurrentVersion (hb : db.hasBinary binaryId = true)
    (hr : ∃ r ∈ db.installed, r.binaryId = binaryId ∧ r.versionId = versionId) :
    ∃ db', updateCurrentVersion binaryId versionId versionString db = .ok db' := by
  unfold updateCurrentVersion
  rw [hb]
  obtain ⟨r, hmem, hid, hv⟩ := hr
  have hsome : (db.installed.find fun r => r.binaryId == binaryId && r.versionId == versionId)
      ≠ none := by
    intro hnone
    have := Table.find_eq_none.mp hnone r hmem
    simp [hid, hv] at this
  rw [if_neg (by simp), if_neg (by rwa [Option.isNone_iff_eq_none])]
  exact ⟨_, rfl⟩

/-! ## backups -/

/-- The backups that are listed are those of the binary. -/
theorem mem_listBackups {r : RollbackBackup} :
    r ∈ db.listBackups binaryId ↔ r ∈ db.backups ∧ r.binaryId = binaryId := by
  rw [listBackups, List.mem_insertionSort, List.mem_filter, beq_iff_eq]
  exact Iff.rfl

/-- A backup that is recorded is the last row. -/
theorem createBackup_eq {now : Nat} {path : String} {hash : Bytes} {size : Nat}
    {expiresAt : Option String}
    (h : createBackup S now binaryId versionId versionString path hash size expiresAt db =
      .ok db') :
    ∃ normalized, normalizeVersionString S versionString = .ok normalized ∧
      db' = { db with backups := db.backups.insert (fun n => ⟨n, binaryId, versionId, normalized,
        path, hash, size, now, expiresAt⟩) fun _ => rfl } := by
  unfold createBackup at h
  obtain ⟨-, -, h⟩ := Except.bind_eq_ok.mp h
  obtain ⟨-, -, h⟩ := Except.bind_eq_ok.mp h
  obtain ⟨normalized, hn, h⟩ := Except.bind_eq_ok.mp h
  obtain ⟨-, -, h⟩ := Except.bind_eq_ok.mp h
  exact ⟨normalized, hn, (Except.ok.inj h).symm⟩

/-- A backup is one row more, with its version text normalized. -/
theorem createBackup_ok {now : Nat} {path : String} {hash : Bytes} {size : Nat}
    {expiresAt : Option String}
    (h : createBackup S now binaryId versionId versionString path hash size expiresAt db =
      .ok db') :
    ∃ normalized, normalizeVersionString S versionString = .ok normalized ∧
      db'.managed = db.managed ∧ db'.installed = db.installed ∧ db'.history = db.history ∧
      ∀ r, r ∈ db'.backups ↔ r ∈ db.backups ∨
        r = ⟨db.backups.next, binaryId, versionId, normalized, path, hash, size, now,
          expiresAt⟩ := by
  obtain ⟨normalized, hn, rfl⟩ := createBackup_eq h
  exact ⟨normalized, hn, rfl, rfl, rfl, fun r => AutoTable.mem_insert⟩

/-- A backup without an expiry is recorded. -/
theorem exists_createBackup {now : Nat} {path : String} {hash : Bytes} {size : Nat}
    {normalized : String} (hhash : hash.length = 32)
    (hn : normalizeVersionString S versionString = .ok normalized)
    (hb : db.hasBinary binaryId = true) :
    ∃ db', createBackup S now binaryId versionId versionString path hash size none db =
      .ok db' := by
  let row : Nat → RollbackBackup := fun n =>
    ⟨n, binaryId, versionId, normalized, path, hash, size, now, none⟩
  refine ⟨{ db with backups := db.backups.insert row fun _ => rfl }, ?_⟩
  unfold createBackup
  refine Except.bind_eq_ok.mpr ⟨(), validateHashSize_ok hhash, ?_⟩
  refine Except.bind_eq_ok.mpr ⟨(), rfl, ?_⟩
  refine Except.bind_eq_ok.mpr ⟨normalized, hn, ?_⟩
  exact Except.bind_eq_ok.mpr ⟨(), Except.ensure_eq_ok.mpr hb, rfl⟩

/-- Deleting a backup removes its row and nothing else. -/
theorem deleteBackup_ok {backupId : Nat} (h : deleteBackup backupId db = .ok db') :
    db'.managed = db.managed ∧ db'.installed = db.installed ∧ db'.history = db.history ∧
      ∀ r, r ∈ db'.backups ↔ r ∈ db.backups ∧ r.backupId ≠ backupId := by
  unfold deleteBackup at h
  split at h
  · rw [← Except.ok.inj h]
    refine ⟨rfl, rfl, rfl, fun r => ?_⟩
    rw [AutoTable.mem_delete]
    simp
  · contradiction

/-- A backup is deleted exactly if it is there. -/
theorem exists_deleteBackup_iff {backupId : Nat} :
    (∃ db', deleteBackup backupId db = .ok db') ↔ ∃ r ∈ db.backups, r.backupId = backupId := by
  have hany : (db.backups.rows.any fun r => r.backupId == backupId) = true ↔
      ∃ r ∈ db.backups, r.backupId = backupId := by
    simp [AutoTable.mem_rows]
  rw [← hany]
  unfold deleteBackup
  split
  · next h => exact ⟨fun _ => h, fun _ => ⟨_, rfl⟩⟩
  · next h => exact ⟨fun ⟨_, h'⟩ => by contradiction, fun h' => absurd h' h⟩

end ClientDb

end Deltaship
