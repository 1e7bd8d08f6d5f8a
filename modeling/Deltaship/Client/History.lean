import Deltaship.Client.Authenticity
import Deltaship.Client.Cleanup

/-!
# Deltaship.Client.History

Which rows of `update_history` a cleanup deletes.

Whether it deletes at all is decided by a look at the newest thousand rows of each binary.  What
it deletes is decided by a statement of its own, which refuses to run for less than a day.
-/

namespace Deltaship

open Prog ClientDb

/-! ## the cutoff -/

/-- The times that `chrono` represents, from the year -262143 to the year 262142. -/
def InChronoRange (t : Int) : Prop := -8334601228800 ≤ t ∧ t ≤ 8210266876799

/-- What subtracting days does: the time that many days earlier, if there is one. -/
def ChronoCrate.SubtractsDays (C : ChronoCrate) : Prop :=
  ∀ (now : Nat) (days before : Int), C.daysBefore now days = some before ↔
    InChronoRange now ∧ InChronoRange before ∧ before = now - 86400 * days

section Cutoff

variable {C : ChronoCrate} {size now n : Nat} {cutoff : Int}

/-- As a signed number it is the same, or less by the size. -/
theorem asSigned_cases :
    (n % size < size / 2 ∧ asSigned size n = ((n % size : Nat) : Int)) ∨
      (size / 2 ≤ n % size ∧ asSigned size n = ((n % size : Nat) : Int) - size) := by
  unfold asSigned
  split
  · next h => exact .inl ⟨h, rfl⟩
  · next h => exact .inr ⟨Nat.le_of_not_lt h, rfl⟩

/-- Where the cutoff exists, the narrower number of days is the same number. -/
theorem asSigned_narrow (hC : C.SubtractsDays)
    (hcutoff : C.daysBefore now (asSigned u64Size n) = some cutoff) :
    asSigned 0x100000000 n = asSigned u64Size n := by
  obtain ⟨hnow, hbefore, heq⟩ := (hC _ _ _).mp hcutoff
  have hwide := @asSigned_cases u64Size n
  have hnarrow := @asSigned_cases 0x100000000 n
  unfold InChronoRange at hnow hbefore
  unfold u64Size at *
  omega

/-- What is positive as a signed number is the same as one. -/
theorem asSigned_of_pos (hn : n < u64Size) (hpos : 0 < asSigned u64Size n) :
    asSigned u64Size n = n := by
  have hwide := @asSigned_cases u64Size n
  unfold u64Size at *
  omega

end Cutoff

/-! ## what is counted -/

/-- Some binary has a row from before the cutoff, and less than a thousand later ones. -/
def Noticed (e : Env) (cutoff : Int) (db : ClientDb) : Prop :=
  ∃ b ∈ db.managed,
    (∃ r ∈ db.history, r.record.binaryId = b.binaryId ∧ startedBefore e cutoff r = true) ∧
      (db.history.rows.filter fun r => r.record.binaryId == b.binaryId).countP
        (fun r => !startedBefore e cutoff r) < 1000

section Counted

variable {e : Env} {db : ClientDb} {cutoff : Int}

/-- Some of the newest rows are old if and only if not all of them are later. -/
theorem exists_getRecentUpdates_iff {binaryId : String} {limit : Nat} :
    (∃ r ∈ db.getRecentUpdates binaryId limit, startedBefore e cutoff r = true) ↔
      (∃ r ∈ db.history, r.record.binaryId = binaryId ∧ startedBefore e cutoff r = true) ∧
        (db.history.rows.filter fun r => r.record.binaryId == binaryId).countP
          (fun r => !startedBefore e cutoff r) < limit := by
  have hsorted : ((db.history.rows.filter fun r => r.record.binaryId == binaryId).insertionSort
      fun a b => b.startedAt ≤ a.startedAt).Pairwise fun a b =>
        startedBefore e cutoff a = true → startedBefore e cutoff b = true := by
    refine (List.pairwise_insertionSort _ _).imp fun {a b} hle ha => ?_
    simp only [startedBefore, Bool.or_eq_true, Bool.and_eq_true, decide_eq_true_eq,
      beq_iff_eq] at ha ⊢
    omega
  rw [getRecentUpdates, List.exists_mem_take_iff hsorted, (List.perm_insertionSort _ _).countP_eq]
  refine and_congr_left fun _ => exists_congr fun r => ?_
  simp [← AutoTable.mem_rows, and_assoc]

/-- What the cleanup counts. -/
theorem exists_counted_iff : ((db.listBinaries.flatMap fun b =>
      (db.getRecentUpdates b.binaryId 1000).filter (startedBefore e cutoff)).isEmpty = false) ↔
    Noticed e cutoff db := by
  rw [Noticed, ← Bool.not_eq_true, List.isEmpty_iff]
  simp only [← exists_getRecentUpdates_iff, List.flatMap_eq_nil_iff, List.filter_eq_nil_iff,
    listBinaries, List.mem_insertionSort, Table.mem_def]
  push Not
  rfl

end Counted

/-! ## what is deleted -/

/-- A row that started more than `days` days ago, to the second. -/
def UpdateHistory.Older (now days : Nat) (r : UpdateHistory) : Prop :=
  r.startedAt + 86400 * days < now

section Deleted

variable {X : Crates} {e : Env} {w w' : World} {n : Nat} {cutoff : Int}

/-- The rows that are left are those that are not older. -/
theorem mem_deleteUpdateHistory {db db' : ClientDb} {now : Nat}
    (h : deleteUpdateHistory now n db = .ok db') {r : UpdateHistory} :
    r ∈ db'.history ↔ r ∈ db.history ∧ ¬ r.Older now n := by
  unfold deleteUpdateHistory at h
  split at h
  · contradiction
  · rw [← Except.ok.inj h, AutoTable.mem_delete, decide_eq_false_iff_not]
    refine and_congr_right fun _ => not_congr ?_
    unfold UpdateHistory.Older
    omega

theorem wp_forEach_guardIo {α : Type} {site : α → Site} {l : List α} {Q : Unit → World → Prop}
    {E : String → World → Prop} (hf : e.NoFault) (hQ : Q () w) :
    wp (forEach (fun a => guardIo e (site a)) l) Q E w := by
  induction l with
  | nil => exact hQ
  | cons a l ih =>
      unfold forEach
      rw [wp_bind]
      exact wp_guardIo (fun _ => ih) fun _ h => absurd (hf _) h

/-- What `cleanup_old_history` does: if it counts no row, nothing; otherwise it deletes the old
rows, unless the days are not positive. -/
theorem wp_cleanupOldHistory (hf : e.NoFault) (hchrono : X.chrono.SubtractsDays)
    (hn : n < u64Size) (hcutoff : X.chrono.daysBefore e.now (asSigned u64Size n) = some cutoff) :
    wp (cleanupOldHistory X e false n)
      (fun _ w' => (Noticed e cutoff w.db → 0 < asSigned u64Size n ∧
          ∀ r, r ∈ w'.db.history ↔ r ∈ w.db.history ∧ ¬ r.Older e.now n) ∧
        (¬ Noticed e cutoff w.db → w'.db.history = w.db.history))
      (fun _ _ => Noticed e cutoff w.db ∧ asSigned u64Size n ≤ 0) w := by
  have hcounted := @exists_counted_iff e w.db cutoff
  unfold cleanupOldHistory
  rw [wp_bind]
  refine wp_guardIo (fun _ => ?_) fun _ h => absurd (hf _) h
  rw [wp_bind, hcutoff]
  refine wp_orThrow (fun c hc => ?_) fun h => by contradiction
  obtain rfl := Option.some.inj hc
  rw [wp_bind, wp_get, wp_bind]
  refine wp_forEach_guardIo hf ?_
  rw [wp_bind, wp_get, asSigned_narrow hchrono hcutoff]
  dsimp only
  split
  · next hsome =>
      have hseen : Noticed e cutoff w.db := hcounted.mp (by simpa using hsome)
      refine wp_dbCall (fun db hop => ?_) fun _ hwhy => ⟨hseen, ?_⟩
      · have hpos : 0 < asSigned u64Size n := Int.not_le.mp fun hle => by
          simp [deleteUpdateHistory, hle] at hop
        rw [asSigned_of_pos hn hpos] at hop
        exact ⟨fun _ => ⟨hpos, fun r => mem_deleteUpdateHistory hop⟩, fun h => absurd hseen h⟩
      · by_contra hpos
        rcases hwhy with hfault | hnever
        · exact hfault (hf _)
        · exact hnever _ (if_neg hpos)
  · next hnone =>
      have hunseen : ¬ Noticed e cutoff w.db := fun h => hnone (by simpa using hcounted.mpr h)
      exact ⟨fun h => absurd h hunseen, fun _ => rfl⟩

end Deleted

/-! ## the whole command -/

/- What else the cleanup deletes leaves the table of updates alone, so that its effect there is that
of the one statement which deletes old rows. -/

/-- The history and the binaries stay as they are. -/
structure SameHistory (w w' : World) : Prop where
  history : w'.db.history = w.db.history
  managed : w'.db.managed = w.db.managed

instance : IsPreorder World SameHistory where
  refl _ := ⟨rfl, rfl⟩
  trans _ _ _ h h' := ⟨h'.history.trans h.history, h'.managed.trans h.managed⟩

section Command

variable {X : Crates} {e : Env} {w w' : World} {cutoff : Int}

theorem SameHistory.noticed_iff (h : SameHistory w w') :
    Noticed e cutoff w'.db ↔ Noticed e cutoff w.db := by
  simp only [Noticed, h.history, h.managed]

/-- Removing a file leaves the history. -/
theorem sameHistory_removeFile {site : Site} {p : String} :
    Preserves SameHistory (removeFile e site p) :=
  preserves_removeFile_of fun _ => ⟨rfl, rfl⟩

/-- So does dropping a backup. -/
theorem sameHistory_dropBackup {backup : RollbackBackup} :
    Preserves SameHistory (dropBackup e backup) := by
  refine .bind (.attempt (.of_wp fun w => wp_dbCall (fun db hop => ?_) fun _ _ => ⟨rfl, rfl⟩))
    fun r => ?_
  · obtain ⟨hmanaged, -, hhistory, -⟩ := deleteBackup_ok hop
    exact ⟨hhistory, hmanaged⟩
  · cases r with
    | error _ => exact .pure
    | ok _ => exact .bind preserves_pathExists fun _ => .ite (.ignore sameHistory_removeFile) .pure

/-- So does dropping those of a binary that have expired. -/
theorem sameHistory_dropExpired {binary : ManagedBinary} :
    Preserves SameHistory (dropExpired X e false binary) :=
  .bind preserves_guardIo fun _ => .bind .get fun _ => .forEach (fun _ => sameHistory_dropBackup) _

/-- So does dropping those of all binaries. -/
theorem sameHistory_cleanupExpiredBackups :
    Preserves SameHistory (cleanupExpiredBackups X e false) := by
  refine .bind preserves_pathExists fun _ => .ite ?_ .pure
  exact .bind preserves_guardIo fun _ => .bind .get fun _ =>
    .forEach (fun _ => sameHistory_dropExpired) _

/-- So does removing files one after the other. -/
theorem wp_forEach_removeFile {site : String → Site} {paths : List String}
    {E : String → World → Prop} :
    wp (forEach (fun p => ignore (removeFile e (site p) p)) paths)
      (fun _ w' => SameHistory w w') E w := by
  induction paths generalizing w with
  | nil => exact refl_of SameHistory w
  | cons p rest ih =>
      unfold forEach
      rw [wp_bind, wp_ignore]
      refine wp_mono (fun _ w' h => ?_) (fun _ _ h => h) ih
      exact trans_of SameHistory (sameHistory_removeFile w) h

theorem wp_cleanupIncompleteDownloads {E : String → World → Prop} :
    wp (cleanupIncompleteDownloads e false) (fun _ w' => SameHistory w w') E w := by
  unfold cleanupIncompleteDownloads
  rw [wp_bind, wp_pathExists]
  split
  · rw [wp_bind, wp_get]
    exact wp_forEach_removeFile
  · exact refl_of SameHistory w

/-- A cleanup succeeds and leaves exactly the rows that are not too old. -/
def HistoryPruned (X : Crates) (e : Env) (maxAgeDays : Option Nat) (w : World) : Prop :=
  ∃ w', exec (runCleanup X e false maxAgeDays) w = (.ok (), w') ∧
    ∀ r, r ∈ w'.db.history ↔
      r ∈ w.db.history ∧ ¬ r.Older e.now (maxAgeDays.getD defaultHistoryAgeDays)

/-- A cleanup deletes the history that is older than the cutoff. -/
theorem wp_runCleanup_history {maxAgeDays : Option Nat} (hf : e.NoFault)
    (hchrono : X.chrono.SubtractsDays)
    (hn : maxAgeDays.getD defaultHistoryAgeDays < u64Size)
    (hcutoff : X.chrono.daysBefore e.now
      (asSigned u64Size (maxAgeDays.getD defaultHistoryAgeDays)) = some cutoff) :
    wp (runCleanup X e false maxAgeDays)
      (fun _ w' => (Noticed e cutoff w.db →
          0 < asSigned u64Size (maxAgeDays.getD defaultHistoryAgeDays) ∧ ∀ r, r ∈ w'.db.history ↔
            r ∈ w.db.history ∧ ¬ r.Older e.now (maxAgeDays.getD defaultHistoryAgeDays)) ∧
        (¬ Noticed e cutoff w.db → w'.db.history = w.db.history))
      (fun _ _ => Noticed e cutoff w.db ∧
        asSigned u64Size (maxAgeDays.getD defaultHistoryAgeDays) ≤ 0) w := by
  unfold runCleanup
  rw [wp_bind]
  refine wp_mono (fun _ w₁ h₁ => ?_) (fun _ _ h => h.2.elim)
    (wp_and (wp_of_exec_snd (sameHistory_cleanupExpiredBackups w)) (wp_cleanupExpiredBackups hf))
  rw [wp_bind]
  refine wp_mono (fun _ w₂ h₂ => ?_) (fun _ _ h => h) wp_cleanupIncompleteDownloads
  have hsame : SameHistory w w₂ := trans_of SameHistory h₁.1 h₂
  have hlast := @wp_cleanupOldHistory X e w₂ _ cutoff hf hchrono hn hcutoff
  rwa [hsame.noticed_iff, hsame.history] at hlast

/-- It does so exactly if it counts a row and the days are positive, or it counts none and there
is none to delete. -/
theorem historyPruned_iff {maxAgeDays : Option Nat} (hf : e.NoFault)
    (hchrono : X.chrono.SubtractsDays)
    (hn : maxAgeDays.getD defaultHistoryAgeDays < u64Size)
    (hcutoff : X.chrono.daysBefore e.now
      (asSigned u64Size (maxAgeDays.getD defaultHistoryAgeDays)) = some cutoff) :
    HistoryPruned X e maxAgeDays w ↔
      (Noticed e cutoff w.db → 0 < asSigned u64Size (maxAgeDays.getD defaultHistoryAgeDays)) ∧
        (¬ Noticed e cutoff w.db →
          ∀ r ∈ w.db.history, ¬ r.Older e.now (maxAgeDays.getD defaultHistoryAgeDays)) := by
  have hwp := @wp_runCleanup_history X e w cutoff maxAgeDays hf hchrono hn hcutoff
  rcases hrun : exec (runCleanup X e false maxAgeDays) w with ⟨r, w'⟩
  cases r with
  | error err =>
      obtain ⟨hnoticed, hneg⟩ := wp_exec_error hwp hrun
      refine iff_of_false (fun h => ?_) fun h => absurd (h.1 hnoticed) (by omega)
      obtain ⟨w'', hrun', -⟩ := h
      simp [hrun] at hrun'
  | ok u =>
      obtain ⟨hseen, hunseen⟩ := wp_exec_ok hwp hrun
      have hpruned : HistoryPruned X e maxAgeDays w ↔ ∀ r, r ∈ w'.db.history ↔
          r ∈ w.db.history ∧ ¬ r.Older e.now (maxAgeDays.getD defaultHistoryAgeDays) := by
        simp [HistoryPruned, hrun]
      rw [hpruned]
      by_cases hnoticed : Noticed e cutoff w.db
      · exact iff_of_true (hseen hnoticed).2
          ⟨fun _ => (hseen hnoticed).1, fun h => absurd hnoticed h⟩
      · rw [hunseen hnoticed]
        simp [hnoticed]

end Command

/-! ## a history of one row -/

instance : DecidablePred InChronoRange := fun t =>
  inferInstanceAs (Decidable (-8334601228800 ≤ t ∧ t ≤ 8210266876799))

/-- The sample publisher's crates, with a calendar that ends where that of `chrono` does. -/
def sampleDatedCrates : Crates :=
  { sampleCrates with
    chrono :=
      { sampleCrates.chrono with
        daysBefore := fun now days =>
          if InChronoRange now ∧ InChronoRange (now - 86400 * days) then some (now - 86400 * days)
          else none } }

theorem sampleDatedCrates_subtractsDays : sampleDatedCrates.chrono.SubtractsDays := by
  intro now days before
  simp only [sampleDatedCrates, Option.ite_none_right_eq_some, Option.some.injEq]
  constructor
  · rintro ⟨⟨hnow, hbefore⟩, rfl⟩
    exact ⟨hnow, hbefore, rfl⟩
  · rintro ⟨hnow, hbefore, rfl⟩
    exact ⟨⟨hnow, hbefore⟩, rfl⟩

/-- A client that installed `app` two days ago. -/
def sampleOldEnv : Env := { sampleEnv [] with now := 172800 }

def sampleOldWorld : World where
  files := Files.empty
  dirs := []
  db :=
    { ClientDb.empty with
      managed := ⟨[sampleBinary], by decide⟩
      history := AutoTable.empty.insert (fun n =>
        ⟨n, ⟨"b1", none, none, "1.0.0", "1.0.0"⟩, {}, 0, .completed, some true, none⟩)
          fun _ => rfl }
  log := []
  sent := []
  asked := []

/-- The sample row is old enough to be noticed. -/
theorem sampleOldWorld_noticed : Noticed sampleOldEnv 86400 sampleOldWorld.db :=
  exists_counted_iff.mp (by decide)

/-- After two days, what is older than one day is deleted. -/
theorem historyPruned_after_two_days :
    HistoryPruned sampleDatedCrates sampleOldEnv (some 1) sampleOldWorld :=
  (historyPruned_iff (fun _ => rfl) sampleDatedCrates_subtractsDays (by decide) rfl).mpr
    ⟨fun _ => by decide, fun h => absurd sampleOldWorld_noticed h⟩

/-- With a limit of no days the cleanup finds the row and fails. -/
theorem not_historyPruned : ¬ ∀ (X : Crates) (e : Env) (maxAgeDays : Option Nat) (cutoff : Int)
    (w : World), e.NoFault → X.chrono.SubtractsDays →
      maxAgeDays.getD defaultHistoryAgeDays < u64Size →
      X.chrono.daysBefore e.now (maxAgeDays.getD defaultHistoryAgeDays) = some cutoff →
      HistoryPruned X e maxAgeDays w := by
  intro h
  obtain ⟨w', hrun, -⟩ := h sampleDatedCrates sampleOldEnv (some 0) 172800 sampleOldWorld
    (fun _ => rfl) sampleDatedCrates_subtractsDays (by decide) rfl
  have herr : (exec (runCleanup sampleDatedCrates sampleOldEnv false (some 0)) sampleOldWorld).1 =
      .error "Invalid data: Days must be positive, got 0" := by decide
  simp [hrun] at herr

end Deltaship
