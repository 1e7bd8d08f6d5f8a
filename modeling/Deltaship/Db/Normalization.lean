import Deltaship.Db.Publisher
import Deltaship.Db.Rows

/-!
# Deltaship.Db.Normalization

Version texts: what the writers store, and what the readers find.

`insert_version` and `create_backup` store the normalized text.  Normalizing it again changes
nothing (`normalizeVersionString_self`).  The readers compare with the text they are given: so they
find what was written under a text only if this was normalized already (`Unadorned`).
-/

namespace Deltaship

/-- There is nothing to normalize: no white space around the text and no `v` in front. -/
def Unadorned (s : String) : Prop :=
  Text.trim s = s ∧ s.toList.head? ≠ some 'v' ∧ s.toList.head? ≠ some 'V'

instance (s : String) : Decidable (Unadorned s) := inferInstanceAs (Decidable (_ ∧ _ ∧ _))

/-! ## normalizing -/

section Normalize

variable {S : SemverCrate} {s n : String} {l : List Char}

/-- Nothing is stripped exactly if there is no v in front. -/
theorem stripV_eq_self_iff : stripV l = l ↔ l.head? ≠ some 'v' ∧ l.head? ≠ some 'V' := by
  unfold stripV
  split
  · simp
  · simp
  · next hv hV =>
      refine iff_of_true rfl ⟨fun h => ?_, fun h => ?_⟩
      · obtain ⟨cs, rfl⟩ := List.head?_eq_some_iff.mp h
        exact hv cs rfl
      · obtain ⟨cs, rfl⟩ := List.head?_eq_some_iff.mp h
        exact hV cs rfl

/-- What is left is the end of the text. -/
theorem stripV_suffix (l : List Char) : stripV l <:+ l := by
  unfold stripV
  split
  · exact List.suffix_cons _ _
  · exact List.suffix_cons _ _
  · exact List.suffix_refl _

/-- The stages of the normalization. -/
theorem normalizeVersionString_eq_ok_iff : normalizeVersionString S s = .ok n ↔
    (∀ c ∈ (Text.trim s).toList, Text.isAscii c = true) ∧
      n = String.ofList (stripV (Text.trim s).toList) ∧ Text.byteLen n ≤ 255 ∧
      ∃ v, S.parse n = some v ∧ ¬ (v.major = 0 ∧ v.minor = 0 ∧ v.patch = 0) := by
  unfold normalizeVersionString
  dsimp only
  rw [← List.all_eq_true]
  cases (Text.trim s).toList.all Text.isAscii with
  | false => simp
  | true =>
      generalize String.ofList (stripV (Text.trim s).toList) = m
      rw [if_neg (by decide)]
      by_cases hlong : Text.byteLen m > 255
      · rw [if_pos hlong]
        refine iff_of_false (by simp) fun h => ?_
        obtain ⟨-, rfl, hshort, -⟩ := h
        omega
      · rw [if_neg hlong]
        cases hparse : S.parse m with
        | none =>
            refine iff_of_false (by simp) fun h => ?_
            obtain ⟨-, rfl, -, v, hv, -⟩ := h
            rw [hparse] at hv
            contradiction
        | some v =>
            dsimp only
            split
            · next hzero =>
                refine iff_of_false (by simp) fun h => ?_
                obtain ⟨-, rfl, -, v', hv', hne⟩ := h
                obtain rfl := Option.some.inj (hparse.symm.trans hv')
                exact hne hzero
            · next hzero =>
                rw [Except.ok.injEq]
                constructor
                · rintro rfl
                  exact ⟨rfl, rfl, Nat.not_lt.mp hlong, v, hparse, hzero⟩
                · rintro ⟨-, h, -⟩
                  exact h.symm

/-- A text has no more characters than bytes. -/
theorem length_le_byteLen (s : String) : s.toList.length ≤ Text.byteLen s := by
  rw [← String.ofList_toList (s := s), String.toList_ofList, Text.byteLen]
  generalize s.toList = l
  induction l with
  | nil => simp
  | cons c l ih =>
      have hpos := Char.utf8Size_pos c
      rw [String.ofList_cons, String.utf8ByteSize_append, String.utf8ByteSize_singleton,
        List.length_cons]
      omega

/-- Text that begins with a digit and is trimmed has nothing to normalize. -/
theorem unadorned_of_digit {c : Char} {rest : List Char} (hc : c.isDigit = true)
    (hlast : ∀ d ∈ (c :: rest).getLast?, Text.isWhitespace d = false) :
    Unadorned (String.ofList (c :: rest)) := by
  have hdigit := Text.isDigit_iff.mp hc
  have hwhite : Text.isWhitespace c = false :=
    Text.isWhitespace_of_printing (by omega) (by omega)
  refine ⟨?_, ?_, ?_⟩
  · rw [Text.trim, String.toList_ofList, Text.trimMatches_of_ends (by simp [hwhite]) hlast]
  · rw [String.toList_ofList, List.head?_cons]
    rintro ⟨⟩
    contradiction
  · rw [String.toList_ofList, List.head?_cons]
    rintro ⟨⟩
    contradiction

/-- What is accepted without adornment is stored as it is. -/
theorem normalizeVersionString_of_unadorned (hs : Unadorned s)
    (h : normalizeVersionString S s = .ok n) : n = s := by
  obtain ⟨-, rfl, -⟩ := normalizeVersionString_eq_ok_iff.mp h
  rw [hs.1, stripV_eq_self_iff.mpr hs.2, String.ofList_toList]

/-- What is stored as it is has no adornment: trimming and stripping only make it shorter. -/
theorem unadorned_of_normalizeVersionString (h : normalizeVersionString S s = .ok s) :
    Unadorned s := by
  obtain ⟨-, hself, -⟩ := normalizeVersionString_eq_ok_iff.mp h
  have hlist : stripV (Text.trim s).toList = s.toList := by
    conv => rhs; rw [hself]
    rw [String.toList_ofList]
  have htrim : (Text.trim s).toList = Text.trimMatches Text.isWhitespace s.toList := by
    rw [Text.trim, String.toList_ofList]
  obtain ⟨pre, post, hsplit, -⟩ := Text.exists_trimMatches Text.isWhitespace s.toList
  rw [← htrim] at hsplit
  have hlength := congrArg List.length hsplit
  have hshorter := (stripV_suffix (Text.trim s).toList).length_le
  rw [List.length_append, List.length_append] at hlength
  rw [hlist] at hshorter
  have hpre : pre = [] := List.eq_nil_of_length_eq_zero (by omega)
  have hpost : post = [] := List.eq_nil_of_length_eq_zero (by omega)
  rw [hpre, hpost, List.nil_append, List.append_nil] at hsplit
  have htext : Text.trim s = s := String.toList_inj.mp hsplit.symm
  rw [htext] at hlist
  exact ⟨htext, stripV_eq_self_iff.mp hlist⟩

/-- An accepted text is stored as it is exactly if there is nothing to normalize. -/
theorem normalized_eq_iff (h : normalizeVersionString S s = .ok n) : n = s ↔ Unadorned s := by
  refine ⟨?_, fun hs => normalizeVersionString_of_unadorned hs h⟩
  rintro rfl
  exact unadorned_of_normalizeVersionString h

/-- A normalized text is normalized to itself. -/
theorem normalizeVersionString_self (hdigit : S.StartsWithDigit)
    (h : normalizeVersionString S s = .ok n) : normalizeVersionString S n = .ok n := by
  obtain ⟨hascii, hn, hshort, v, hparse, hzero⟩ := normalizeVersionString_eq_ok_iff.mp h
  obtain ⟨c, rest, htext, hc⟩ := hdigit hparse
  have hstrip : stripV (Text.trim s).toList = c :: rest := by
    rw [← htext, hn, String.toList_ofList]
  have hsuffix : c :: rest <:+ (Text.trim s).toList := hstrip ▸ stripV_suffix _
  have hlast : ∀ d ∈ (c :: rest).getLast?, Text.isWhitespace d = false := by
    intro d hd
    obtain ⟨pre, hpre⟩ := hsuffix
    refine Text.getLast?_trimMatches (p := Text.isWhitespace) (l := s.toList) d ?_
    rw [← String.toList_ofList (l := Text.trimMatches _ _), ← Text.trim, ← hpre]
    rw [Option.mem_def] at hd ⊢
    rw [List.getLast?_append, hd, Option.some_or]
  have hunadorned : Unadorned n := by
    rw [← String.ofList_toList (s := n), htext]
    exact unadorned_of_digit hc hlast
  refine normalizeVersionString_eq_ok_iff.mpr ⟨fun d hd => ?_, ?_, hshort, v, hparse, hzero⟩
  · rw [hunadorned.1, htext] at hd
    exact hascii d (hsuffix.subset hd)
  · rw [hunadorned.1, stripV_eq_self_iff.mpr hunadorned.2, String.ofList_toList]

end Normalize

/-! ## writers and readers -/

section Stores

variable {S : SemverCrate} {s : String}

/-- The version that was inserted is found under the text it was inserted with. -/
theorem getVersionByString_insertVersion {id : String} {now : Nat} {version : NewVersion}
    {db db' : PublisherDb} {row : DbVersion}
    (h : PublisherDb.insertVersion S id now version db = .ok (row, db')) :
    db'.getVersionByString version.binaryId version.versionString = some row ↔
      Unadorned version.versionString := by
  have hfresh := PublisherDb.getVersionByString_of_insertVersion h
  obtain ⟨n, versions, hn, rfl, -, hinsert, rfl⟩ := PublisherDb.insertVersion_eq_ok h
  rw [← normalized_eq_iff hn]
  constructor
  · intro hfind
    have hrow := (Table.mem_of_find hfind).2
    rw [Bool.and_eq_true, beq_iff_eq, beq_iff_eq] at hrow
    exact hrow.2
  · rintro rfl
    unfold PublisherDb.getVersionByString Table.find at hfresh ⊢
    rw [Table.rows_of_insert hinsert, List.find?_append, hfresh, Option.none_or]
    simp

/-- A backup of this version that was made not before `now`. -/
def NotOlder (db : ClientDb) (binaryId versionString : String) (now : Nat) : Prop :=
  ∃ r ∈ db.backups, r.binaryId = binaryId ∧ r.versionString = versionString ∧ now ≤ r.createdAt

/-- The backup that was recorded last is found exactly if no other one of its version is as new. -/
theorem getBackupByVersion_insert {db : ClientDb} {mk : Nat → RollbackBackup}
    {hmk : ∀ n, (mk n).backupId = n} {row : RollbackBackup} (hrow : mk db.backups.next = row) :
    ClientDb.getBackupByVersion { db with backups := db.backups.insert mk hmk } row.binaryId
        row.versionString = some row ↔
      ¬ NotOlder db row.binaryId row.versionString row.createdAt := by
  have hnew : row ∉ db.backups := by
    intro hmem
    have hlt := db.backups.lt_next _ hmem
    rw [← hrow, hmk] at hlt
    exact Nat.lt_irrefl _ hlt
  have hrows : (db.backups.insert mk hmk).rows = db.backups.rows ++ [row] := by
    rw [← hrow]
    rfl
  have hfilter : ((db.backups.insert mk hmk).rows.filter fun r => r.binaryId == row.binaryId).filter
      (fun r => r.versionString == row.versionString) =
        (db.backups.rows.filter fun r => r.binaryId == row.binaryId).filter
          (fun r => r.versionString == row.versionString) ++ [row] := by
    simp [hrows]
  have hother : row ∉ (db.backups.rows.filter fun r => r.binaryId == row.binaryId).filter
      (fun r => r.versionString == row.versionString) := fun hmem =>
    hnew (List.mem_of_mem_filter (List.mem_of_mem_filter hmem))
  unfold ClientDb.getBackupByVersion ClientDb.listBackups
  rw [← List.head?_filter, List.filter_insertionSort, hfilter,
    List.head?_insertionSort_concat hother]
  simp only [List.mem_filter, beq_iff_eq, NotOlder, AutoTable.mem_rows]
  push Not
  exact ⟨fun h r hr hb hv => h r ⟨⟨hr, hb⟩, hv⟩, fun h r hr => h r hr.1.1 hr.1.2 hr.2⟩

/-- The backup that was created is found under the text it was created with. -/
theorem getBackupByVersion_createBackup {now size : Nat} {binaryId versionId path : String}
    {hash : Bytes} {expiresAt : Option String} {db db' : ClientDb}
    (h : ClientDb.createBackup S now binaryId versionId s path hash size expiresAt db = .ok db') :
    (∃ row, db'.getBackupByVersion binaryId s = some row ∧ row ∉ db.backups) ↔
      Unadorned s ∧ ¬ NotOlder db binaryId s now := by
  obtain ⟨n, hn, rfl⟩ := ClientDb.createBackup_eq h
  rw [← normalized_eq_iff hn]
  constructor
  · rintro ⟨row, hfind, hrow⟩
    have hmem := (ClientDb.mem_listBackups.mp (List.mem_of_find?_eq_some hfind)).1
    have htext := beq_iff_eq.mp
      (List.find?_some (p := fun r : RollbackBackup => r.versionString == s) hfind)
    have hlast := (AutoTable.mem_insert.mp hmem).resolve_left hrow
    subst hlast
    obtain rfl : n = s := htext
    exact ⟨rfl, (getBackupByVersion_insert rfl).mp hfind⟩
  · rintro ⟨rfl, hnot⟩
    refine ⟨_, (getBackupByVersion_insert rfl).mpr hnot, fun hmem => ?_⟩
    exact Nat.lt_irrefl _ (db.backups.lt_next _ hmem)

/-- When normalization is consistent between the writers and the readers.  What is accepted is
stored as a version of at most 255 ASCII characters that is normalized to itself, always.  A version
is found under the text it was inserted with if and only if this has nothing to normalize; a backup,
if moreover there is no backup of its version that was made in the same second or later. -/
theorem normalization_consistent_iff (hdigit : S.StartsWithDigit) (s : String) :
    (∀ n, normalizeVersionString S s = .ok n → (∃ v, S.parse n = some v) ∧
      n.toList.length ≤ 255 ∧ (∀ c ∈ n.toList, Text.isAscii c = true) ∧
      normalizeVersionString S n = .ok n) ∧
    (∀ (id : String) (now : Nat) (version : NewVersion) (db db' : PublisherDb) (row : DbVersion),
      version.versionString = s →
      PublisherDb.insertVersion S id now version db = .ok (row, db') →
      (db'.getVersionByString version.binaryId s = some row ↔ Unadorned s)) ∧
    ∀ (now : Nat) (binaryId versionId path : String) (hash : Bytes) (size : Nat)
      (expiresAt : Option String) (db db' : ClientDb),
      ClientDb.createBackup S now binaryId versionId s path hash size expiresAt db = .ok db' →
      ((∃ row, db'.getBackupByVersion binaryId s = some row ∧ row ∉ db.backups) ↔
        Unadorned s ∧ ¬ NotOlder db binaryId s now) := by
  refine ⟨fun n hn => ?_, ?_, ?_⟩
  · have hself := normalizeVersionString_self hdigit hn
    obtain ⟨hascii, -, hshort, v, hparse, -⟩ := normalizeVersionString_eq_ok_iff.mp hself
    have htrim := (unadorned_of_normalizeVersionString hself).1
    rw [htrim] at hascii
    exact ⟨⟨v, hparse⟩, (length_le_byteLen n).trans hshort, hascii, hself⟩
  · rintro id now version db db' row rfl h
    exact getVersionByString_insertVersion h
  · intro now binaryId versionId path hash size expiresAt db db' h
    exact getBackupByVersion_createBackup h

/-- A binary without versions. -/
def sampleVersionlessDb : PublisherDb :=
  { PublisherDb.empty with
    binaries := ⟨[⟨"b1", "app", "linux-x86_64", "/srv/app"⟩], List.nodup_singleton _⟩ }

/-- A version of it. -/
def sampleNewVersion (versionString : String) : NewVersion :=
  ⟨"b1", versionString, "/srv/app", 1, List.replicate 32 0, List.replicate 32 0⟩

/-- Every spelling of 1.0.0 is inserted into the empty database. -/
theorem exists_insert_sampleNewVersion (versionString : String)
    (h : normalizeVersionString sampleSemver versionString = .ok "1.0.0") : ∃ row db',
      PublisherDb.insertVersion sampleSemver "v1" 0 (sampleNewVersion versionString)
        sampleVersionlessDb = .ok (row, db') := by
  let row : DbVersion := ⟨"v1", "b1", "1.0.0", "/srv/app", 1, List.replicate 32 0,
    List.replicate 32 0, none, none, 0⟩
  refine ⟨row, { sampleVersionlessDb with versions := ⟨[row], List.nodup_singleton _⟩ }, ?_⟩
  unfold PublisherDb.insertVersion
  rw [show (sampleNewVersion versionString).versionString = versionString from rfl, h]
  rfl

/-- Both spellings are normalized to 1.0.0, and one of them has something to normalize. -/
theorem normalize_sampleSpellings :
    normalizeVersionString sampleSemver "1.0.0" = .ok "1.0.0" ∧
      normalizeVersionString sampleSemver "v1.0.0" = .ok "1.0.0" ∧
      Unadorned "1.0.0" ∧ ¬ Unadorned "v1.0.0" := by
  decide

/-- The version 1.0.0 is normalized to itself, and found once it is inserted. -/
theorem normalization_consistent_plain :
    normalizeVersionString sampleSemver "1.0.0" = .ok "1.0.0" ∧
      ∃ row db', PublisherDb.insertVersion sampleSemver "v1" 0 (sampleNewVersion "1.0.0")
        sampleVersionlessDb = .ok (row, db') ∧ db'.getVersionByString "b1" "1.0.0" = some row := by
  obtain ⟨hplain, -, hunadorned, -⟩ := normalize_sampleSpellings
  obtain ⟨row, db', hinsert⟩ := exists_insert_sampleNewVersion "1.0.0" hplain
  obtain ⟨hnormalized, hversions, -⟩ :=
    normalization_consistent_iff (semverOf_startsWithDigit sampleVersions) "1.0.0"
  exact ⟨(hnormalized _ hplain).2.2.2, row, db', hinsert,
    (hversions _ _ _ _ _ _ rfl hinsert).mpr hunadorned⟩

/-- Inserted as v1.0.0, it is not found under this text. -/
theorem getVersionByString_misses : ¬ ∀ (S : SemverCrate) (id : String) (now : Nat)
    (version : NewVersion) (db db' : PublisherDb) (row : DbVersion), S.StartsWithDigit →
    PublisherDb.insertVersion S id now version db = .ok (row, db') →
    db'.getVersionByString version.binaryId version.versionString = some row := by
  intro h
  obtain ⟨-, hspelled, -, hadorned⟩ := normalize_sampleSpellings
  obtain ⟨row, db', hinsert⟩ := exists_insert_sampleNewVersion "v1.0.0" hspelled
  have hfind := h sampleSemver "v1" 0 (sampleNewVersion "v1.0.0") sampleVersionlessDb db' row
    (semverOf_startsWithDigit sampleVersions) hinsert
  exact hadorned ((getVersionByString_insertVersion hinsert).mp hfind)

end Stores

end Deltaship
