import Deltaship.Db.Rows
import Deltaship.Lib.Runs
import Deltaship.Lib.Transaction

/-!
# Deltaship.Db.Bookkeeping

The current version of a binary, which is kept twice: as `current_version_id` in the row of the
binary and as the `is_current` flag of one row of `installed_versions`.

`update_current_version` changes both in one transaction.  Here it is written statement by
statement, with its two rollback exits and the partial unique index
(`updateCurrentVersionTx`), and `call_updateCurrentVersionTx` says that its effect is that of
`updateCurrentVersion`.  Every sequence of calls keeps the two in agreement (`Bookkept`).
-/

namespace Deltaship

open Prog Connection

namespace ClientDb

/-! ## the statements of `update_current_version` -/

/- The function runs its statements in a transaction and rolls it back when one of them has changed
no row. Seen from outside it is a single change, and that is the one the model of the database has.
-/

/-- `UPDATE installed_versions SET is_current = 0 WHERE binary_id = ?`. -/
def clearCurrent (binaryId : String) : Statement ClientDb DbError := fun db =>
  .ok (db.installed.count fun r => r.binaryId == binaryId,
    { db with
      installed := db.installed.update (fun r => r.binaryId == binaryId)
        (fun r => { r with isCurrent := false }) fun _ => rfl })

/-- `UPDATE managed_binaries SET current_version_id = ?, current_version_string = ?`. -/
def setVersion (binaryId versionId versionString : String) : Statement ClientDb DbError := fun db =>
  .ok (db.managed.count fun b => b.binaryId == binaryId,
    { db with
      managed := db.managed.update (fun b => b.binaryId == binaryId)
        (fun b => { b with
          currentVersionId := some versionId
          currentVersionString := some versionString }) fun _ => rfl })

/-- The current rows of one binary; `idx_client_versions_one_current` rejects a second one. -/
def countCurrent (db : ClientDb) (binaryId : String) : Nat :=
  db.installed.count fun r => r.binaryId == binaryId && r.isCurrent

/-- `UPDATE installed_versions SET is_current = 1 WHERE binary_id = ? AND version_id = ?`. -/
def flagCurrent (binaryId versionId : String) : Statement ClientDb DbError := fun db =>
  let db' := { db with
    installed := db.installed.update
      (fun r => r.binaryId == binaryId && r.versionId == versionId)
      (fun r => { r with isCurrent := true }) fun _ => rfl }
  if 1 < db'.countCurrent binaryId then
    .error (.duplicate "UNIQUE constraint failed: installed_versions.binary_id")
  else
    .ok (db.installed.count fun r => r.binaryId == binaryId && r.versionId == versionId, db')

/-- `update_current_version` on a connection. -/
def updateCurrentVersionTx (binaryId versionId versionString : String) :
    Prog (Connection ClientDb) DbError Unit :=
  transaction do
    let _ ← execute (clearCurrent binaryId)
    let updated ← execute (setVersion binaryId versionId versionString)
    if updated = 0 then do
      rollback
      throw (.notFound s!"Binary not found: '{binaryId}'")
    else do
      let flagged ← execute (flagCurrent binaryId versionId)
      if flagged = 0 then do
        rollback
        throw (.notFound
          s!"Version {versionId} not found in installed_versions for binary {binaryId}. Call record_installed_version() before update_current_version().")
      else pure ()

section Transaction

variable {db : ClientDb} {binaryId versionId versionString : String}

/-- Whatever error ends it, it leaves every row as it was. -/
theorem updateCurrentVersionTx_error {e : DbError}
    (h : (call (updateCurrentVersionTx binaryId versionId versionString) db).1 = .error e) :
    (call (updateCurrentVersionTx binaryId versionId versionString) db).2 = db := by
  refine call_transaction_error ?_ h
  refine .bind .execute fun _ => .bind .execute fun _ => .ite .rollback_throw ?_
  exact .bind .execute fun _ => .ite .rollback_throw .pure

/-- The outcome of a statement or a transaction that succeeds or leaves the rows alone. -/
def settle (r : Except DbError ClientDb) (db : ClientDb) : Except DbError Unit × ClientDb :=
  match r with
  | .ok db' => (.ok (), db')
  | .error e => (.error e, db)

/-- Clearing the flags first and setting one of them later is what `markCurrent` does. -/
theorem rows_flagCurrent (db : ClientDb) :
    (((db.installed.update (fun r => r.binaryId == binaryId)
        (fun r => { r with isCurrent := false }) fun _ => rfl).update
        (fun r => r.binaryId == binaryId && r.versionId == versionId)
        (fun r => { r with isCurrent := true }) fun _ => rfl)) =
      db.installed.update (fun _ => true) (markCurrent binaryId versionId)
        (key_markCurrent binaryId versionId) := by
  refine Table.ext ?_
  rw [Table.rows_update, Table.rows_update, Table.rows_update, List.map_map]
  refine List.map_congr_left fun r _ => ?_
  by_cases hb : r.binaryId = binaryId <;> by_cases hv : r.versionId = versionId <;>
    simp [markCurrent, hb, hv]

/-- Among the rows of one binary, only the one with that version is current. -/
theorem countCurrent_markCurrent (db : ClientDb) :
    ((db.installed.update (fun _ => true) (markCurrent binaryId versionId)
      (key_markCurrent binaryId versionId)).count fun r => r.binaryId == binaryId && r.isCurrent)
      ≤ 1 := by
  have hversion : ∀ r ∈ db.installed.update (fun _ => true) (markCurrent binaryId versionId)
      (key_markCurrent binaryId versionId), (r.binaryId == binaryId && r.isCurrent) = true →
      r.binaryId = binaryId ∧ r.versionId = versionId := by
    intro r hr hcurrent
    obtain ⟨r₀, -, rfl⟩ := (Table.mem_update _).mp hr
    by_cases hb : r₀.binaryId = binaryId <;> simp_all [markCurrent]
  refine Table.count_le_one fun r hr r' hr' hp hp' => ?_
  obtain ⟨hb, hv⟩ := hversion r hr hp
  obtain ⟨hb', hv'⟩ := hversion r' hr' hp'
  exact Table.eq_of_key_eq hr hr' (by rw [hb, hv, hb', hv'])

/-- No binary is counted exactly if it is not there. -/
theorem count_managed_eq_zero :
    (db.managed.count fun b => b.binaryId == binaryId) = 0 ↔ db.hasBinary binaryId = false := by
  rw [Table.count_eq_zero, ← Bool.not_eq_true, hasBinary_iff]
  simp

/-- The row of a version is counted whether or not the flags are cleared before. -/
theorem count_cleared_eq_zero :
    ((db.installed.update (fun r => r.binaryId == binaryId)
        (fun r => { r with isCurrent := false }) fun _ => rfl).count
        fun r => r.binaryId == binaryId && r.versionId == versionId) = 0 ↔
      (db.installed.find fun r => r.binaryId == binaryId && r.versionId == versionId) = none := by
  rw [Table.count_eq_zero, Table.find_eq_none]
  constructor
  · intro h r hr
    have hcleared := h _ ((Table.mem_update _).mpr ⟨r, hr, rfl⟩)
    split at hcleared <;> exact hcleared
  · intro h r hr
    obtain ⟨r₀, hr₀, rfl⟩ := (Table.mem_update _).mp hr
    have hnot := h r₀ hr₀
    split <;> exact hnot

/-- Setting the version updates the row of the binary. -/
theorem managed_setVersion :
    (db.managed.update (fun b => b.binaryId == binaryId)
      (fun b => { b with
        currentVersionId := some versionId
        currentVersionString := some versionString }) fun _ => rfl) =
      db.managed.update (fun _ => true) (setCurrent binaryId versionId versionString)
        (binaryId_setCurrent binaryId versionId versionString) := by
  refine Table.ext ?_
  rw [Table.rows_update, Table.rows_update]
  refine List.map_congr_left fun b _ => ?_
  by_cases hb : b.binaryId = binaryId <;> simp [setCurrent, hb]

/-- The transaction does what `updateCurrentVersion` says, and the index never rejects it. -/
theorem call_updateCurrentVersionTx :
    call (updateCurrentVersionTx binaryId versionId versionString) db =
      settle (updateCurrentVersion binaryId versionId versionString db) db := by
  refine call_eq ?_
  unfold updateCurrentVersionTx transaction
  simp only [wp_bind, wp_begin, wp_execute, clearCurrent, setVersion]
  by_cases hb : db.hasBinary binaryId = true
  · have hcount : ¬ (db.managed.count fun b => b.binaryId == binaryId) = 0 := by
      rw [count_managed_eq_zero, hb]
      simp
    rw [if_neg hcount]
    simp only [wp_bind, wp_execute, flagCurrent, countCurrent, rows_flagCurrent]
    rw [if_neg (Nat.not_lt.mpr (countCurrent_markCurrent db))]
    dsimp only
    by_cases hr : (db.installed.find fun r => r.binaryId == binaryId && r.versionId == versionId)
        = none
    · rw [if_pos (count_cleared_eq_zero.mpr hr)]
      simp [updateCurrentVersion, hb, hr, settle]
    · rw [if_neg (mt count_cleared_eq_zero.mp hr)]
      simp only [wp_pure, wp_commit, updateCurrentVersion, hb, settle, Option.getD_some]
      rw [if_neg (by simp), if_neg (by simpa using hr), managed_setVersion]
  · have hb : db.hasBinary binaryId = false := by simpa using hb
    rw [if_pos (count_managed_eq_zero.mpr hb)]
    simp [updateCurrentVersion, hb, settle]

end Transaction

/-! ## calls -/

/-- `record_installed_version` with a size of any sign, as the column has it. -/
def recordInstalledVersionSigned (S : SemverCrate) (binaryId versionId versionString : String)
    (fileHashBlake3 fileHashSha256 : Bytes) (fileSizeBytes : Int) (db : ClientDb) :
    Except DbError ClientDb :=
  match fileSizeBytes with
  | .ofNat size =>
      recordInstalledVersion S binaryId versionId versionString fileHashBlake3 fileHashSha256 size
        db
  | .negSucc n => do
      validateHashSize fileHashBlake3 blake3HashSize "File Blake3"
      validateHashSize fileHashSha256 sha256HashSize "File SHA-256"
      let _ ← normalizeVersionString S versionString
      throw (.invalidData s!"File size must be positive, got {Int.negSucc n}")

/-- A call that keeps the books of the installed versions. -/
inductive BookCall where
  | registerBinary (binary : NewManagedBinary)
  | recordInstalledVersion (binaryId versionId versionString : String)
      (fileHashBlake3 fileHashSha256 : Bytes) (fileSizeBytes : Int)
  | updateCurrentVersion (binaryId versionId versionString : String)
  | deleteManagedBinary (binaryId : String)
deriving DecidableEq

/-- The outcome of a call.  All but one are a single statement behind their checks. -/
def BookCall.outcome (S : SemverCrate) (db : ClientDb) : BookCall → Except DbError Unit × ClientDb
  | .registerBinary binary => settle (ClientDb.registerBinary binary db) db
  | .recordInstalledVersion binaryId versionId versionString blake3 sha256 size =>
      settle (recordInstalledVersionSigned S binaryId versionId versionString blake3 sha256 size db)
        db
  | .updateCurrentVersion binaryId versionId versionString =>
      call (updateCurrentVersionTx binaryId versionId versionString) db
  | .deleteManagedBinary binaryId => settle (ClientDb.deleteManagedBinary binaryId db) db

/-- The database after a call. -/
def afterCall (S : SemverCrate) (db : ClientDb) (c : BookCall) : ClientDb := (c.outcome S db).2

/-! ## the books agree -/

/- The flag of an installed version and the pointer of its binary say the same thing in two tables.
The invariant is kept by every call by itself, also by those that fail halfway through their
statements. -/

/-- The flags and the pointers agree, and no version is installed for an unknown binary. -/
structure Bookkept (db : ClientDb) : Prop where
  single : ∀ r ∈ db.installed, ∀ r' ∈ db.installed, r.binaryId = r'.binaryId →
    r.isCurrent = true → r'.isCurrent = true → r = r'
  pointer : ∀ b ∈ db.managed, ∀ id, b.currentVersionId = some id ↔
    ∃ r ∈ db.installed, r.binaryId = b.binaryId ∧ r.isCurrent = true ∧ r.versionId = id
  owned : ∀ r ∈ db.installed, ∃ b ∈ db.managed, b.binaryId = r.binaryId

theorem bookkept_empty : Bookkept empty where
  single _ h := absurd h Table.not_mem_empty
  pointer _ h := absurd h Table.not_mem_empty
  owned _ h := absurd h Table.not_mem_empty

section Steps

variable {S : SemverCrate} {db db' : ClientDb} {binaryId versionId versionString : String}

/-- The new binary has no current version, and no installed one. -/
theorem Bookkept.registerBinary {binary : NewManagedBinary} (h : Bookkept db)
    (hok : ClientDb.registerBinary binary db = .ok db') : Bookkept db' := by
  have hnew := registerBinary_new hok
  obtain ⟨hinstalled, -, hmanaged⟩ := registerBinary_ok hok
  refine ⟨?_, fun b hb id => ?_, fun r hr => ?_⟩
  · rw [hinstalled]
    exact h.single
  · rw [hinstalled]
    rcases (hmanaged b).mp hb with hb | rfl
    · exact h.pointer b hb id
    · constructor
      · intro hid
        contradiction
      · rintro ⟨r, hr, hid, -, -⟩
        obtain ⟨b, hb, hbid⟩ := h.owned r hr
        exact absurd (hbid.trans hid) (hnew b hb)
  · rw [hinstalled] at hr
    obtain ⟨b, hb, hid⟩ := h.owned r hr
    exact ⟨b, (hmanaged b).mpr (.inl hb), hid⟩

/-- A version is recorded as one that is not current. -/
theorem Bookkept.recordInstalledVersion {blake3 sha256 : Bytes} {size : Nat} (h : Bookkept db)
    (hok : ClientDb.recordInstalledVersion S binaryId versionId versionString blake3 sha256 size db
      = .ok db') : Bookkept db' := by
  have hknown := recordInstalledVersion_known hok
  obtain ⟨normalized, -, hinsert, hmanaged, -, -⟩ := recordInstalledVersion_ok hok
  have hmem := fun r => @Table.mem_insert _ _ _ _ _ _ _ hinsert r
  have hold : ∀ r ∈ db'.installed, r.isCurrent = true → r ∈ db.installed := by
    intro r hr hcurrent
    rcases (hmem r).mp hr with hr | rfl
    · exact hr
    · contradiction
  refine ⟨fun r hr r' hr' hid hc hc' => ?_, fun b hb id => ?_, fun r hr => ?_⟩
  · exact h.single r (hold r hr hc) r' (hold r' hr' hc') hid hc hc'
  · rw [hmanaged] at hb
    rw [h.pointer b hb id]
    constructor
    · rintro ⟨r, hr, hrow⟩
      exact ⟨r, (hmem r).mpr (.inl hr), hrow⟩
    · rintro ⟨r, hr, hid, hc, hv⟩
      exact ⟨r, hold r hr hc, hid, hc, hv⟩
  · rw [hmanaged]
    rcases (hmem r).mp hr with hr | rfl
    · exact h.owned r hr
    · exact hasBinary_iff.mp hknown

section Marked

variable (hinstalled : ∀ r', r' ∈ db'.installed ↔
  ∃ r ∈ db.installed, r' = markCurrent binaryId versionId r)
include hinstalled

/-- The current row of the binary is the one of the version. -/
theorem versionId_of_current {r : InstalledVersion} (hr : r ∈ db'.installed)
    (hid : r.binaryId = binaryId) (hc : r.isCurrent = true) : r.versionId = versionId := by
  obtain ⟨r₀, -, rfl⟩ := (hinstalled r).mp hr
  by_cases hb : r₀.binaryId = binaryId
  · simpa [markCurrent, hb] using hc
  · rw [markCurrent, if_neg hb] at hid
    contradiction

/-- The rows of other binaries are as before. -/
theorem mem_of_other {r : InstalledVersion} (hr : r ∈ db'.installed) (hid : r.binaryId ≠ binaryId) :
    r ∈ db.installed := by
  obtain ⟨r₀, hr₀, rfl⟩ := (hinstalled r).mp hr
  by_cases hb : r₀.binaryId = binaryId
  · rw [markCurrent, if_pos hb] at hid
    contradiction
  · rwa [markCurrent, if_neg hb]

end Marked

/-- The flag of the binary moves to the version its pointer is set to. -/
theorem Bookkept.updateCurrentVersion (h : Bookkept db)
    (hok : ClientDb.updateCurrentVersion binaryId versionId versionString db = .ok db') :
    Bookkept db' := by
  obtain ⟨-, ⟨r₁, hr₁, hid₁, hv₁⟩, hmanaged, hinstalled, -, -⟩ := updateCurrentVersion_ok hok
  refine ⟨fun r hr r' hr' hid hc hc' => ?_, fun b hb id => ?_, fun r hr => ?_⟩
  · by_cases hb : r.binaryId = binaryId
    · have hv := versionId_of_current hinstalled hr hb hc
      have hv' := versionId_of_current hinstalled hr' (hid ▸ hb) hc'
      exact Table.eq_of_key_eq hr hr' (by rw [hid, hv, hv'])
    · exact h.single r (mem_of_other hinstalled hr hb) r'
        (mem_of_other hinstalled hr' (hid ▸ hb)) hid hc hc'
  · obtain ⟨b₀, hb₀, rfl⟩ := (hmanaged b).mp hb
    rw [binaryId_setCurrent]
    by_cases hbid : b₀.binaryId = binaryId
    · rw [setCurrent, if_pos hbid, hbid]
      constructor
      · intro hid
        obtain rfl := Option.some.inj hid
        refine ⟨_, (hinstalled _).mpr ⟨r₁, hr₁, rfl⟩, ?_⟩
        simp [markCurrent, hid₁, hv₁]
      · rintro ⟨r, hr, hid, hc, rfl⟩
        rw [versionId_of_current hinstalled hr hid hc]
    · rw [setCurrent, if_neg hbid, h.pointer b₀ hb₀ id]
      constructor
      · rintro ⟨r, hr, hid, hrow⟩
        refine ⟨r, (hinstalled r).mpr ⟨r, hr, ?_⟩, hid, hrow⟩
        rw [markCurrent, if_neg (by rw [hid]; exact hbid)]
      · rintro ⟨r, hr, hid, hrow⟩
        exact ⟨r, mem_of_other hinstalled hr (by rw [hid]; exact hbid), hid, hrow⟩
  · obtain ⟨r₀, hr₀, rfl⟩ := (hinstalled r).mp hr
    obtain ⟨b, hb, hid⟩ := h.owned r₀ hr₀
    refine ⟨_, (hmanaged _).mpr ⟨b, hb, rfl⟩, ?_⟩
    rw [binaryId_setCurrent, hid]
    exact (congrArg Prod.fst (key_markCurrent binaryId versionId r₀)).symm

/-- What belongs to the deleted binary is gone, and the rest is as before. -/
theorem Bookkept.deleteManagedBinary (h : Bookkept db)
    (hok : ClientDb.deleteManagedBinary binaryId db = .ok db') : Bookkept db' := by
  obtain ⟨hmanaged, hinstalled⟩ := deleteManagedBinary_ok hok
  refine ⟨fun r hr r' hr' => ?_, fun b hb id => ?_, fun r hr => ?_⟩
  · exact h.single r ((hinstalled r).mp hr).1 r' ((hinstalled r').mp hr').1
  · obtain ⟨hb, hne⟩ := (hmanaged b).mp hb
    rw [h.pointer b hb id]
    refine exists_congr fun r => ?_
    rw [hinstalled r]
    constructor
    · rintro ⟨hr, hid, hrow⟩
      exact ⟨⟨hr, by rw [hid]; exact hne⟩, hid, hrow⟩
    · rintro ⟨⟨hr, -⟩, hrow⟩
      exact ⟨hr, hrow⟩
  · obtain ⟨hr, hne⟩ := (hinstalled r).mp hr
    obtain ⟨b, hb, hid⟩ := h.owned r hr
    exact ⟨b, (hmanaged b).mpr ⟨hb, by rw [hid]; exact hne⟩, hid⟩

theorem Bookkept.settle {r : Except DbError ClientDb} (h : Bookkept db)
    (hr : ∀ db', r = .ok db' → Bookkept db') : Bookkept (settle r db).2 := by
  cases r with
  | ok db' => exact hr db' rfl
  | error e => exact h

/-- Every call, successful or not, keeps the books. -/
theorem Bookkept.afterCall (h : Bookkept db) (c : BookCall) : Bookkept (afterCall S db c) := by
  cases c with
  | registerBinary binary => exact h.settle fun _ => h.registerBinary
  | recordInstalledVersion binaryId versionId versionString blake3 sha256 size =>
      refine h.settle fun db' hok => ?_
      cases size with
      | ofNat size => exact h.recordInstalledVersion hok
      | negSucc n =>
          obtain ⟨-, -, hok⟩ := Except.bind_eq_ok.mp hok
          obtain ⟨-, -, hok⟩ := Except.bind_eq_ok.mp hok
          obtain ⟨-, -, hok⟩ := Except.bind_eq_ok.mp hok
          contradiction
  | updateCurrentVersion binaryId versionId versionString =>
      show Bookkept (call (updateCurrentVersionTx binaryId versionId versionString) db).2
      rw [call_updateCurrentVersionTx]
      exact h.settle fun _ => h.updateCurrentVersion
  | deleteManagedBinary binaryId => exact h.settle fun _ => h.deleteManagedBinary

end Steps

/-- The books of the installed versions.  After every sequence of calls, with whatever arguments
and outcomes, at most one installed version of a binary is current, the binary points to a version
exactly if that version is the current one, and an `update_current_version` that returns an error
leaves every row as it was. -/
theorem bookkeeping (S : SemverCrate) (calls : List BookCall) :
    let db := Runs.final (afterCall S) empty calls
    (∀ binaryId, db.countCurrent binaryId ≤ 1) ∧
    (∀ b ∈ db.managed, ∀ id, b.currentVersionId = some id ↔
      ∃ r ∈ db.installed, r.binaryId = b.binaryId ∧ r.isCurrent = true ∧ r.versionId = id) ∧
    ∀ binaryId versionId versionString err,
      ((BookCall.updateCurrentVersion binaryId versionId versionString).outcome S db).1 =
        .error err →
          afterCall S db (.updateCurrentVersion binaryId versionId versionString) = db := by
  intro db
  have hkept : Bookkept db := Runs.final_invariant bookkept_empty (fun _ c h => h.afterCall c) calls
  refine ⟨fun binaryId => ?_, hkept.pointer, fun binaryId versionId versionString err herr => ?_⟩
  · refine Table.count_le_one fun r hr r' hr' hp hp' => ?_
    simp only [Bool.and_eq_true, beq_iff_eq] at hp hp'
    exact hkept.single r hr r' hr' (hp.1.trans hp'.1.symm) hp.2 hp'.2
  · exact updateCurrentVersionTx_error herr

end ClientDb

end Deltaship
