import Deltaship.Client.Authenticity
import Deltaship.Client.Cleanup
import Deltaship.Db.Timestamps

/-!
# Deltaship.Client.Expiry

When a backup expires.

The daemon's `delete_expired_backups` compares the text of `expires_at` with the text of the
current time, and `cleanup_expired_backups` parses it.  Only for the plain form, with a space and
without a zone, is the one a comparison of times (`expiresText_lt_iff`) and does the other one
decide at all (`isExpired_iff`).

The daemon deletes only rows.  Files are found through their rows, so that the file of a backup
whose row the daemon has deleted stays for good (`file_after_daemonExpiry`).
-/

namespace Deltaship

open Calendar Prog ClientDb

/-! ## texts -/

/-- `CURRENT_TIMESTAMP`. -/
def currentTimestamp (now : Stamp) : String := String.ofList (now.text ' ')

/-- The documented forms of `expires_at`. -/
def expiresText (stamp : Stamp) (sep : Char) (zone : Zone) : String :=
  String.ofList (stamp.text sep ++ zone.text)

/-- `parse_from_str` reads the form of its format string and refuses the others. -/
def ChronoCrate.ReadsPlain (C : ChronoCrate) : Prop :=
  ∀ (stamp : Stamp) (sep : Char) (zone : Zone), 1970 ≤ stamp.date.year → stamp.date.year < 10000 →
    (sep = 'T' ∨ sep = ' ') → C.parse (expiresText stamp sep zone) =
      if sep = ' ' ∧ zone = .none then some stamp.unix else none

section Texts

variable {stamp now : Stamp} {sep : Char} {zone : Zone}

/-- The texts are compared by the day, and only behind a space by the time of day.  A zone does not
count. -/
theorem expiresText_lt_iff (hsep : sep = 'T' ∨ sep = ' ') (hstamp : stamp.date.year < 10000)
    (hnow : now.date.year < 10000) : expiresText stamp sep zone < currentTimestamp now ↔
      if sep = ' ' then stamp.seconds < now.seconds else stamp.date.number < now.date.number := by
  rw [String.lt_iff, expiresText, currentTimestamp, String.toList_ofList, String.toList_ofList,
    ← List.append_nil (now.text ' '), Stamp.text_append_lt_iff hstamp hnow]
  rcases hsep with rfl | rfl
  · have hmark : ¬ 'T' < ' ' := by decide
    simp [hmark]
  · simp [Stamp.seconds_lt_iff]

end Texts

/-! ## both decisions -/

section Decisions

variable {X : Crates} {e : Env} {db : ClientDb} {row : RollbackBackup} {stamp now : Stamp}
  {sep : Char} {zone : Zone}

/-- The rows that are left have no expiry, or one that is not a smaller text. -/
theorem mem_deleteExpiredBackups {text : String} {row : RollbackBackup} :
    row ∈ (db.deleteExpiredBackups text).backups ↔
      row ∈ db.backups ∧ ∀ t, row.expiresAt = some t → ¬ t < text := by
  rw [deleteExpiredBackups, AutoTable.mem_delete]
  cases row.expiresAt <;> simp

/-- What the cleanup decides. -/
theorem isExpired_iff (hchrono : X.chrono.ReadsPlain) (hlow : 1970 ≤ stamp.date.year)
    (hhigh : stamp.date.year < 10000) (hsep : sep = 'T' ∨ sep = ' ')
    (hnow : 1970 ≤ now.date.year) (hclock : e.now = now.unix)
    (hexpires : row.expiresAt = some (expiresText stamp sep zone)) :
    isExpired X e row = true ↔ (sep = ' ' ∧ zone = .none) ∧
      (stamp.seconds < now.seconds ∨ stamp.seconds = now.seconds ∧ 0 < e.nanos) := by
  have hlt := Stamp.unix_lt_iff hlow hnow
  have hgt := Stamp.unix_lt_iff hnow hlow
  unfold isExpired
  rw [hexpires, Option.bind_some, hchrono stamp sep zone hlow hhigh hsep, hclock]
  by_cases hplain : sep = ' ' ∧ zone = .none
  · rw [if_pos hplain, and_iff_right hplain]
    simp only [Bool.or_eq_true, Bool.and_eq_true, decide_eq_true_eq, beq_iff_eq]
    omega
  · rw [if_neg hplain]
    exact iff_of_false (by simp) fun h => hplain h.1

end Decisions

/-! ## an expired backup -/

/-- A stamp that is written like one without a zone has that separator and no zone. -/
theorem eq_of_expiresText {stamp a : Stamp} {sep c : Char} {zone : Zone}
    (h : stamp.text sep ++ zone.text = a.text c) : sep = c ∧ zone = .none := by
  have hzone : zone.text = [] := by
    have hlength := congrArg List.length h
    rw [List.length_append, Stamp.length_text, Stamp.length_text] at hlength
    exact List.eq_nil_of_length_eq_zero (by omega)
  have htext : stamp.text sep = a.text c := by rw [← h, hzone, List.append_nil]
  obtain ⟨-, hrest⟩ := List.append_inj htext (by simp)
  refine ⟨(List.cons.inj hrest).1, ?_⟩
  cases zone with
  | none => rfl
  | utc => contradiction
  | offset => contradiction

/-- A `chrono` that reads the plain form. -/
def plainChrono : ChronoCrate :=
  { sampleCrates.chrono with parse := fun s => (Stamp.parse ' ' s.toList).map Stamp.unix }

/-- The sample crate reads the stamps of the database. -/
theorem plainChrono_readsPlain : plainChrono.ReadsPlain := by
  intro stamp sep zone _ hhigh _
  show (Stamp.parse ' ' (expiresText stamp sep zone).toList).map Stamp.unix = _
  rw [expiresText, String.toList_ofList]
  split
  · next hplain =>
      obtain ⟨rfl, rfl⟩ := hplain
      rw [Zone.text, List.append_nil, Stamp.parse_text hhigh]
      rfl
  · next hother =>
      rw [Option.map_eq_none_iff, Option.eq_none_iff_forall_ne_some]
      intro a ha
      exact hother (eq_of_expiresText (Stamp.eq_text_of_parse ha))

/-- Ten o'clock on the first of June 2024. -/
def sampleTen : Stamp :=
  ⟨(Date.ofNumbers 2024 6 1).getD epoch.date, (Time.ofNumbers 10 0 0).getD epoch.time⟩

/-- Noon on that day. -/
def sampleNoon : Stamp := { sampleTen with time := (Time.ofNumbers 12 0 0).getD epoch.time }

/-- The client at noon. -/
def sampleNoonEnv : Env := { sampleEnv [] with now := sampleNoon.unix }

/-- The sample crates, with this `chrono`. -/
def samplePlainCrates : Crates := { sampleCrates with chrono := plainChrono }

/-- A backup of `app` that expires at ten. -/
def sampleExpiring (sep : Char) (zone : Zone) : RollbackBackup where
  backupId := 1
  binaryId := "b1"
  versionId := "1.0.0"
  versionString := "1.0.0"
  backupPath := "/data/backups/app-1.0.0"
  backupHashBlake3 := List.replicate 32 0
  backupSizeBytes := 1
  createdAt := 0
  expiresAt := some (expiresText sampleTen sep zone)

/-- The database with this backup. -/
def sampleExpiringDb (sep : Char) (zone : Zone) : ClientDb :=
  { sampleDb with
    backups := AutoTable.empty.insert (fun n => { sampleExpiring sep zone with backupId := n })
      fun _ => rfl }

example : createBackup sampleSemver 0 "b1" "1.0.0" "1.0.0" "/data/backups/app-1.0.0"
    (List.replicate 32 0) 1 (some "2024-06-01T10:00:00Z") sampleDb =
      .ok (sampleExpiringDb 'T' .utc) := by
  decide

/-- The sample row is in the sample database. -/
theorem sampleExpiring_mem (sep : Char) (zone : Zone) :
    sampleExpiring sep zone ∈ (sampleExpiringDb sep zone).backups :=
  AutoTable.mem_insert.mpr (.inr rfl)

/-! ## by instant -/

section ByInstant

variable {X : Crates} {e : Env} {db : ClientDb} {row : RollbackBackup} {stamp now : Stamp}
  {sep : Char} {zone : Zone}

/-- When a backup's expiry is by instant for both.  The daemon deletes it, and the cleanup takes it
for expired, if and only if the instant is earlier than the current second: this is so for a plain
time, unless it is the current second and a part of this has passed, and for any other form only
as long as neither the instant nor what is written (behind a `T`, the day) is in the past. -/
theorem expiry_by_instant_iff (hchrono : X.chrono.ReadsPlain) (hrow : row ∈ db.backups)
    (hexpires : row.expiresAt = some (expiresText stamp sep zone)) (hlow : 1970 ≤ stamp.date.year)
    (hhigh : stamp.date.year ≤ 2100) (hsep : sep = 'T' ∨ sep = ' ') (hnow : 1970 ≤ now.date.year)
    (hnow' : now.date.year < 10000) (hclock : e.now = now.unix) :
    ((row ∉ (db.deleteExpiredBackups (currentTimestamp now)).backups ↔
        stamp.instant zone < now.seconds) ∧
      (isExpired X e row = true ↔ stamp.instant zone < now.seconds)) ↔
    if sep = ' ' ∧ zone = .none then ¬ (stamp.seconds = now.seconds ∧ 0 < e.nanos)
    else now.seconds ≤ stamp.instant zone ∧
      if sep = ' ' then now.seconds ≤ stamp.seconds
      else now.date.number ≤ stamp.date.number := by
  have hdaemon : row ∉ (db.deleteExpiredBackups (currentTimestamp now)).backups ↔
      expiresText stamp sep zone < currentTimestamp now := by
    simp [mem_deleteExpiredBackups, hrow, hexpires]
  rw [hdaemon, expiresText_lt_iff hsep (by omega) hnow',
    isExpired_iff hchrono hlow (by omega) hsep hnow hclock hexpires]
  by_cases hplain : sep = ' ' ∧ zone = .none
  · obtain ⟨rfl, rfl⟩ := hplain
    simp only [Stamp.instant, Zone.seconds]
    simp
    omega
  · have hnever : ∀ p : Prop, ¬ ((sep = ' ' ∧ zone = .none) ∧ p) := fun p h => hplain h.1
    rw [if_neg hplain, iff_false_left (hnever _), Int.not_lt, and_comm]
    refine and_congr_right fun hlater => ?_
    rw [iff_false_right (Int.not_lt.mpr hlater)]
    split
    · rw [Nat.not_lt]
    · rw [Nat.not_lt]

/-- At noon, the backup that expired at ten is deleted, and would be cleaned up. -/
theorem expiry_by_instant_plain :
    (sampleExpiring ' ' .none ∉
        ((sampleExpiringDb ' ' .none).deleteExpiredBackups (currentTimestamp sampleNoon)).backups ↔
      sampleTen.instant .none < sampleNoon.seconds) ∧
    (isExpired samplePlainCrates sampleNoonEnv (sampleExpiring ' ' .none) = true ↔
      sampleTen.instant .none < sampleNoon.seconds) := by
  have hclock : sampleNoonEnv.now = sampleNoon.unix := by rw [sampleNoonEnv]
  refine (expiry_by_instant_iff plainChrono_readsPlain (sampleExpiring_mem _ _) rfl (by decide)
    (by decide) (.inr rfl) (by decide) (by decide) hclock).mpr ?_
  rw [if_pos ⟨rfl, rfl⟩]
  exact fun h => absurd h.2 (by decide)

/-- Not so, if the time is written with a `T` and a `Z`: the backup stays. -/
theorem expiry_not_by_instant : ¬ ∀ (X : Crates) (e : Env) (db : ClientDb) (row : RollbackBackup)
    (stamp now : Stamp) (sep : Char) (zone : Zone), X.chrono.ReadsPlain → row ∈ db.backups →
    row.expiresAt = some (expiresText stamp sep zone) → 1970 ≤ stamp.date.year →
    stamp.date.year ≤ 2100 → sep = 'T' ∨ sep = ' ' → 1970 ≤ now.date.year →
    now.date.year < 10000 → e.now = now.unix →
    (row ∉ (db.deleteExpiredBackups (currentTimestamp now)).backups ↔
      stamp.instant zone < now.seconds) ∧
    (isExpired X e row = true ↔ stamp.instant zone < now.seconds) := by
  intro h
  have hclock : sampleNoonEnv.now = sampleNoon.unix := by rw [sampleNoonEnv]
  obtain ⟨hdaemon, -⟩ := h samplePlainCrates sampleNoonEnv (sampleExpiringDb 'T' .utc)
    (sampleExpiring 'T' .utc) sampleTen sampleNoon 'T' .utc plainChrono_readsPlain
    (sampleExpiring_mem _ _) rfl (by decide) (by decide) (.inl rfl) (by decide) (by decide) hclock
  have hpast : sampleTen.instant .utc < sampleNoon.seconds := by decide +kernel
  refine hdaemon.mpr hpast (mem_deleteExpiredBackups.mpr ⟨sampleExpiring_mem _ _, fun t ht => ?_⟩)
  rw [← Option.some.inj ht, expiresText_lt_iff (.inl rfl) (by decide) (by decide)]
  decide +kernel

end ByInstant

/-! ## in both orders -/

/-- The daemon's expiry step. -/
def daemonExpiry (now : Stamp) (w : World) : World :=
  { w with db := w.db.deleteExpiredBackups (currentTimestamp now) }

/-- The `cleanup` command. -/
def cleanupCommand (X : Crates) (e : Env) (maxAgeDays : Option Nat) (w : World) : World :=
  (exec (runCleanup X e false maxAgeDays) w).2

/-- A plain time of expiry in the past. -/
def Expired (now : Stamp) (r : RollbackBackup) : Prop :=
  ∃ stamp : Stamp, stamp.date.year < 10000 ∧ r.expiresAt = some (expiresText stamp ' ' .none) ∧
    stamp.seconds < now.seconds

/-- The order does not matter: the daemon's step and the cleanup leave the same rows and the same
files in the directory for backups, whichever comes first, and no file of an expired backup. -/
structure OrderFree (X : Crates) (e : Env) (maxAgeDays : Option Nat) (now : Stamp) (w : World) :
    Prop where
  rows : ∀ r, r ∈ (cleanupCommand X e maxAgeDays (daemonExpiry now w)).db.backups ↔
    r ∈ (daemonExpiry now (cleanupCommand X e maxAgeDays w)).db.backups
  files : ∀ p, isUnder e.config.backupsDir p = true →
    (cleanupCommand X e maxAgeDays (daemonExpiry now w)).file p =
      (daemonExpiry now (cleanupCommand X e maxAgeDays w)).file p
  removed : ∀ r ∈ w.db.backups, Expired now r →
    (cleanupCommand X e maxAgeDays (daemonExpiry now w)).file r.backupPath = none ∧
      (daemonExpiry now (cleanupCommand X e maxAgeDays w)).file r.backupPath = none

/-- The backups of a client: plain times of expiry, and a file of its own for each of them in the
directory for backups. -/
structure PlainBackups (cfg : ClientConfig) (w : World) : Prop where
  plain : ∀ r ∈ w.db.backups, ∀ t, r.expiresAt = some t →
    ∃ stamp : Stamp, stamp.date.year < 10000 ∧ t = expiresText stamp ' ' .none
  distinct : ∀ r ∈ w.db.backups, ∀ r' ∈ w.db.backups, r.backupPath = r'.backupPath → r = r'
  under : ∀ r ∈ w.db.backups, isUnder cfg.backupsDir r.backupPath = true

section Paths

/-- A relative name is put behind the directory. -/
theorem exists_joinPath (dir : String) : ∃ base : List Char,
    ∀ name : String, name.toList.head? ≠ some '/' →
      (joinPath dir name).toList = base ++ name.toList := by
  by_cases hdir : (dir.isEmpty || dir.toList.getLast? = some '/') = true
  · refine ⟨dir.toList, fun name hname => ?_⟩
    rw [joinPath, if_neg hname, if_pos (by simpa using hdir), String.toList_append]
  · refine ⟨dir.toList ++ ['/'], fun name hname => ?_⟩
    rw [joinPath, if_neg hname, if_neg (by simpa using hdir)]
    simp

/-- What lies under a directory begins with it. -/
theorem prefix_of_isUnder {dir p : String} (h : isUnder dir p = true) :
    dir.toList <+: p.toList := by
  rw [isUnder, Bool.or_eq_true, beq_iff_eq, Text.startsWith, List.isPrefixOf_iff_prefix] at h
  rcases h with rfl | h
  · exact List.prefix_rfl
  · refine List.IsPrefix.trans ?_ h
    unfold joinPath
    rw [if_neg (by simp)]
    split <;> simp

/-- The directories for backups and for downloads have no file in common. -/
theorem not_isUnder_downloadsDir {cfg : ClientConfig} {p : String}
    (h : isUnder cfg.backupsDir p = true) : ¬ isUnder cfg.downloadsDir p = true := by
  intro h'
  obtain ⟨base, hbase⟩ := exists_joinPath cfg.dataDir
  have hbackups := prefix_of_isUnder h
  have hdownloads := prefix_of_isUnder h'
  rw [ClientConfig.backupsDir, hbase "backups" (by decide)] at hbackups
  rw [ClientConfig.downloadsDir, hbase "downloads" (by decide)] at hdownloads
  rcases List.prefix_or_prefix_of_prefix hbackups hdownloads with h | h
  · rw [List.prefix_append_right_inj] at h
    exact absurd h (by decide)
  · rw [List.prefix_append_right_inj] at h
    exact absurd h (by decide)

end Paths

section BothOrders

variable {X : Crates} {e : Env} {maxAgeDays : Option Nat} {now : Stamp} {w : World}
  {r : RollbackBackup}

/-- So it is with what the daemon leaves. -/
theorem mem_daemonExpiry : r ∈ (daemonExpiry now w).db.backups ↔
    r ∈ w.db.backups ∧ ∀ t, r.expiresAt = some t → ¬ t < currentTimestamp now :=
  mem_deleteExpiredBackups

/-- The daemon's step deletes the rows of expired backups. -/
theorem not_mem_daemonExpiry (hnow : now.date.year < 10000) (hexpired : Expired now r) :
    r ∉ (daemonExpiry now w).db.backups := by
  obtain ⟨stamp, hyear, hexpires, hpast⟩ := hexpired
  intro hr
  refine (mem_daemonExpiry.mp hr).2 _ hexpires ?_
  rw [expiresText_lt_iff (.inr rfl) hyear hnow, if_pos rfl]
  exact hpast

/-- No other row of the client is deleted. -/
theorem expired_of_not_mem (hnow : now.date.year < 10000) (hw : PlainBackups e.config w)
    (hr : r ∈ w.db.backups) (hgone : r ∉ (daemonExpiry now w).db.backups) : Expired now r := by
  rw [mem_daemonExpiry, and_iff_right hr] at hgone
  push Not at hgone
  obtain ⟨t, hexpires, hpast⟩ := hgone
  obtain ⟨stamp, hyear, rfl⟩ := hw.plain r hr t hexpires
  rw [expiresText_lt_iff (.inr rfl) hyear hnow, if_pos rfl] at hpast
  exact ⟨stamp, hyear, hexpires, hpast⟩

/-- The backups that a cleanup deletes. -/
def Cleaned (X : Crates) (e : Env) (w : World) (r : RollbackBackup) : Prop :=
  w.pathExists e.config.backupsDir = true ∧ CleanedUp X e false (binaryIds w.db) r

/-- The daemon's step changes nothing about which these are. -/
theorem cleaned_daemonExpiry : Cleaned X e (daemonExpiry now w) r ↔ Cleaned X e w r := Iff.rfl

/-- What the cleanup does to the rows and to the directory for backups. -/
theorem cleanupCommand_purges (X : Crates) (maxAgeDays : Option Nat) (hf : e.NoFault) (w : World) :
    ∃ w₁, Purged (Cleaned X e w) w w₁ ∧
      (∀ r, r ∈ (cleanupCommand X e maxAgeDays w).db.backups ↔ r ∈ w₁.db.backups) ∧
      ∀ p, isUnder e.config.backupsDir p = true →
        (cleanupCommand X e maxAgeDays w).file p = w₁.file p := by
  obtain ⟨w₁, hpurged, haside⟩ :=
    wp_exec_snd (P := AfterCleanup X e false w) (wp_runCleanup maxAgeDays hf)
  refine ⟨w₁, hpurged, fun r => ?_, fun p hp => haside.file fun h => ?_⟩
  · rw [cleanupCommand, haside.rows.backups]
  · exact not_isUnder_downloadsDir hp h.1

/-- Behind the daemon's step, the cleanup leaves the files of expired backups. -/
theorem file_after_daemonExpiry (hf : e.NoFault) (hnow : now.date.year < 10000)
    (hw : PlainBackups e.config w) (hr : r ∈ w.db.backups) (hexpired : Expired now r) :
    (cleanupCommand X e maxAgeDays (daemonExpiry now w)).file r.backupPath =
      w.file r.backupPath := by
  obtain ⟨w₁, hpurged, -, hfiles⟩ := cleanupCommand_purges X maxAgeDays hf (daemonExpiry now w)
  rw [hfiles _ (hw.under r hr)]
  refine hpurged.frame _ fun r' hr' _ hpath => ?_
  obtain rfl := hw.distinct r' (mem_daemonExpiry.mp hr').1 r hr hpath
  exact not_mem_daemonExpiry hnow hexpired hr'

/-- When the order of the daemon's step and the cleanup does not matter: if and only if no expired
backup has a file. -/
theorem orderFree_iff (hf : e.NoFault) (hnow : now.date.year < 10000)
    (hw : PlainBackups e.config w) : OrderFree X e maxAgeDays now w ↔
      ∀ r ∈ w.db.backups, Expired now r → w.file r.backupPath = none := by
  refine ⟨fun h r hr hexpired => ?_, fun hnone => ?_⟩
  · exact (file_after_daemonExpiry hf hnow hw hr hexpired).symm.trans (h.removed r hr hexpired).1
  · obtain ⟨w₁, hpurged₁, hrows₁, hfiles₁⟩ :=
      cleanupCommand_purges X maxAgeDays hf (daemonExpiry now w)
    obtain ⟨w₂, hpurged₂, hrows₂, hfiles₂⟩ := cleanupCommand_purges X maxAgeDays hf w
    refine ⟨fun r => ?_, fun p hp => ?_, fun r hr hexpired => ?_⟩
    · rw [hrows₁, hpurged₁.rows, mem_daemonExpiry, cleaned_daemonExpiry, mem_daemonExpiry, hrows₂,
        hpurged₂.rows]
      tauto
    · rw [hfiles₁ p hp]
      refine Eq.trans ?_ (hfiles₂ p hp).symm
      by_cases hcleaned : ∃ r ∈ w.db.backups, Cleaned X e w r ∧ r.backupPath = p
      · obtain ⟨r, hr, hC, rfl⟩ := hcleaned
        rw [hpurged₂.removed r hr hC]
        by_cases hlive : r ∈ (daemonExpiry now w).db.backups
        · exact hpurged₁.removed r hlive hC
        · exact (hpurged₁.file _).elim
            (fun hsame => hsame.trans (hnone r hr (expired_of_not_mem hnow hw hr hlive))) id
      · rw [hpurged₂.frame p fun r hr hC hpath => hcleaned ⟨r, hr, hC, hpath⟩]
        exact hpurged₁.frame p fun r hr hC hpath =>
          hcleaned ⟨r, (mem_daemonExpiry.mp hr).1, hC, hpath⟩
    · have hgone := hnone r hr hexpired
      refine ⟨(file_after_daemonExpiry hf hnow hw hr hexpired).trans hgone, ?_⟩
      refine (hfiles₂ _ (hw.under r hr)).trans ?_
      exact (hpurged₂.file _).elim (fun hsame => hsame.trans hgone) id

end BothOrders

/-! ## an expired backup with a file -/

/-- A client at noon, with a backup that expired at ten. -/
def sampleExpiringWorld (files : Files String Bytes) : World :=
  ⟨files, ["/data/backups"], sampleExpiringDb ' ' .none, [], [], []⟩

/-- The backups of the sample client lie in its directory. -/
theorem sampleExpiringWorld_plain (files : Files String Bytes) :
    PlainBackups sampleNoonEnv.config (sampleExpiringWorld files) := by
  have honly : ∀ r ∈ (sampleExpiringWorld files).db.backups, r = sampleExpiring ' ' .none :=
    fun r hr => (AutoTable.mem_insert.mp hr).resolve_left AutoTable.not_mem_empty
  refine ⟨fun r hr t ht => ?_, fun r hr r' hr' _ => ?_, fun r hr => ?_⟩
  · rw [honly r hr] at ht
    exact ⟨sampleTen, by decide, (Option.some.inj ht).symm⟩
  · rw [honly r hr, honly r' hr']
  · rw [honly r hr]
    decide

theorem sampleExpiring_expired : Expired sampleNoon (sampleExpiring ' ' .none) :=
  ⟨sampleTen, by decide, rfl, by decide +kernel⟩

/-- If the file is gone already, the order does not matter. -/
theorem orderFree_without_file :
    OrderFree samplePlainCrates sampleNoonEnv none sampleNoon (sampleExpiringWorld Files.empty) :=
  (orderFree_iff (fun _ => rfl) (by decide) (sampleExpiringWorld_plain _)).mpr fun _ _ _ => rfl

/-- If it is not, it stays when the daemon comes first. -/
theorem not_orderFree : ¬ ∀ (X : Crates) (e : Env) (maxAgeDays : Option Nat) (now : Stamp)
    (w : World), e.NoFault → now.date.year < 10000 → PlainBackups e.config w →
    OrderFree X e maxAgeDays now w := by
  intro h
  let w := sampleExpiringWorld (Files.empty.write "/data/backups/app-1.0.0" [1])
  have hw : PlainBackups sampleNoonEnv.config w := sampleExpiringWorld_plain _
  have hmem : sampleExpiring ' ' .none ∈ w.db.backups := sampleExpiring_mem _ _
  have hremoved := ((h samplePlainCrates sampleNoonEnv none sampleNoon w (fun _ => rfl) (by decide)
    hw).removed _ hmem sampleExpiring_expired).1
  rw [file_after_daemonExpiry (fun _ => rfl) (by decide) hw hmem sampleExpiring_expired] at hremoved
  exact absurd hremoved (by decide)

end Deltaship
