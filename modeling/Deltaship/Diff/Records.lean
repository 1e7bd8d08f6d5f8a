import Deltaship.Diff.Apply
import Deltaship.Lib.Prog

/-!
# Deltaship.Diff.Records

What a patch means, and that the patch loop computes it.

A patch is read as a list of `Record`s, whose data has the length that the control
word says.  `denote` gives the output of the records from a position of the old
data on, without a reader, a ceiling or an error.  The loop accepts a patch
exactly if it is the bytes of records that have an output below the ceiling, and
then returns this output.
-/

namespace Deltaship

/-- A record of a patch. -/
structure Record where
  mixWord : ByteVec 8
  copyWord : ByteVec 8
  seekWord : ByteVec 8
  data : Bytes
  length_data : data.length = fromLeBytes mixWord.val + fromLeBytes copyWord.val

namespace Record

variable (r : Record)

/-- How many bytes are added to the old data. -/
def mixLen : Nat := fromLeBytes r.mixWord.val

/-- How many bytes are copied. -/
def copyLen : Nat := fromLeBytes r.copyWord.val

/-- How the position in the old data is moved. -/
def seek : Int := offtin r.seekWord.val

/-- The record in a patch. -/
def bytes : Bytes := r.mixWord.val ++ (r.copyWord.val ++ (r.seekWord.val ++ r.data))

/-- The output of the record at a position of the old data. -/
def output (old : Bytes) (pos : Nat) : Bytes :=
  List.zipWith (· + ·) (r.data.take r.mixLen) ((old.drop pos).take r.mixLen) ++
    r.data.drop r.mixLen

/-- The position behind the record. -/
def dest (pos : Nat) : Int := (pos + r.mixLen : Nat) + r.seek

/-- The record fits the old data: the range it reads is in it, and the position
behind it is a non-negative `i64`. -/
def Fits (old : Bytes) (pos : Nat) : Prop :=
  pos + r.mixLen ≤ old.length ∧ 0 ≤ r.dest pos ∧ r.dest pos < i64Size

instance (old : Bytes) (pos : Nat) : Decidable (r.Fits old pos) :=
  inferInstanceAs (Decidable (_ ∧ _ ∧ _))

end Record

/-- The bytes of a patch. -/
def patchBytes : List Record → Bytes
  | [] => []
  | r :: rs => r.bytes ++ patchBytes rs

/-- The size of the output of a patch. -/
def outputSize : List Record → Nat
  | [] => 0
  | r :: rs => r.mixLen + r.copyLen + outputSize rs

/-- The output of records, from a position of the old data on. -/
def denote (old : Bytes) : Nat → List Record → Option Bytes
  | _, [] => some []
  | pos, r :: rs =>
    if r.Fits old pos then (denote old (r.dest pos).toNat rs).map (r.output old pos ++ ·) else none

/-- A patch makes `new` out of `old`. -/
def Denotes (old patch new : Bytes) : Prop :=
  ∃ records, patch = patchBytes records ∧ denote old 0 records = some new

/-! ## reading a record -/

section Reading

variable {old rest new new' rest' : Bytes} {maxOutput mixLen copyLen pos pos' : Nat} {seek : Int}

/-- An addition succeeds exactly if it does not overflow. -/
theorem checkedAdd_eq_ok {a b c : Nat} : checkedAdd a b = .ok c ↔ a + b < u64Size ∧ c = a + b := by
  unfold checkedAdd
  split
  · next h => exact ⟨fun heq => ⟨h, (Except.ok.inj heq).symm⟩, fun heq => congrArg _ heq.2.symm⟩
  · next h => exact ⟨fun heq => by contradiction, fun heq => absurd heq.1 h⟩

/-- Seeking succeeds exactly if it ends at a position. -/
theorem seekFrom_eq_ok {pos' : Nat} (h : pos < i64Size) :
    seekFrom pos seek = .ok pos' ↔
      (0 ≤ (pos : Int) + seek ∧ (pos : Int) + seek < i64Size) ∧
        pos' = ((pos : Int) + seek).toNat := by
  unfold seekFrom
  rw [if_pos h]
  dsimp only
  constructor
  · intro heq
    split at heq
    · next hrange => exact ⟨⟨hrange.2.2, hrange.2.1⟩, (Except.ok.inj heq).symm⟩
    · contradiction
  · rintro ⟨⟨hnonneg, hlt⟩, rfl⟩
    rw [if_pos ⟨by omega, hlt, hnonneg⟩]

/-- When a record is read, and what is read. -/
theorem patchRecord_eq_ok (hold : old.length < i64Size) (hmax : maxOutput < u64Size) :
    patchRecord old maxOutput mixLen copyLen seek rest new pos = .ok (new', pos', rest') ↔
      new.length + (mixLen + copyLen) ≤ maxOutput ∧ mixLen + copyLen ≤ rest.length ∧
      (pos + mixLen ≤ old.length ∧ 0 ≤ ((pos + mixLen : Nat) : Int) + seek ∧
        ((pos + mixLen : Nat) : Int) + seek < i64Size) ∧
      new' = new ++ (List.zipWith (· + ·) (rest.take mixLen) ((old.drop pos).take mixLen) ++
        (rest.take (mixLen + copyLen)).drop mixLen) ∧
      pos' = (((pos + mixLen : Nat) : Int) + seek).toNat ∧
      rest' = rest.drop (mixLen + copyLen) := by
  have htake : (rest.take (copyLen + mixLen)).take mixLen = rest.take mixLen := by
    rw [List.take_take, Nat.min_eq_left (Nat.le_add_left _ _)]
  have hi64 : i64Size ≤ u64Size := by decide
  unfold patchRecord
  constructor
  · intro h
    obtain ⟨toRead, htoRead, h⟩ := Except.bind_eq_ok.mp h
    obtain ⟨projected, hprojected, h⟩ := Except.bind_eq_ok.mp h
    obtain ⟨-, rfl⟩ := checkedAdd_eq_ok.mp htoRead
    obtain ⟨-, rfl⟩ := checkedAdd_eq_ok.mp hprojected
    dsimp only at h
    split at h
    · contradiction
    · next hceiling =>
        split at h
        · contradiction
        · next hread =>
            obtain ⟨oldposEnd, hend, h⟩ := Except.bind_eq_ok.mp h
            obtain ⟨-, rfl⟩ := checkedAdd_eq_ok.mp hend
            split at h
            · contradiction
            · next hrange =>
                obtain ⟨dest, hdest, h⟩ := Except.bind_eq_ok.mp h
                obtain ⟨hseek, rfl⟩ := (seekFrom_eq_ok (by omega)).mp hdest
                obtain ⟨rfl, rfl, rfl⟩ : new' = _ ∧ pos' = _ ∧ rest' = _ := by
                  simpa [eq_comm] using Except.ok.inj h
                rw [htake, Nat.add_comm mixLen copyLen]
                refine ⟨by omega, ?_, ⟨by omega, hseek⟩, rfl, rfl, rfl⟩
                rw [List.length_take] at hread
                omega
  · rintro ⟨hceiling, hread, ⟨hrange, hseek⟩, rfl, rfl, rfl⟩
    have htoRead : checkedAdd copyLen mixLen = .ok (mixLen + copyLen) :=
      checkedAdd_eq_ok.mpr ⟨by omega, by omega⟩
    have hprojected :
        checkedAdd new.length (mixLen + copyLen) = .ok (new.length + (mixLen + copyLen)) :=
      checkedAdd_eq_ok.mpr ⟨by omega, rfl⟩
    have hend : checkedAdd pos mixLen = .ok (pos + mixLen) := checkedAdd_eq_ok.mpr ⟨by omega, rfl⟩
    have hdest := (@seekFrom_eq_ok (pos + mixLen) seek _ (by omega)).mpr ⟨hseek, rfl⟩
    rw [Nat.add_comm copyLen mixLen] at htake
    rw [htoRead]
    simp only [bind, Except.bind, hprojected]
    rw [if_neg (by omega), if_neg (by rw [List.length_take]; omega)]
    simp only [hend]
    rw [if_neg (by omega)]
    simp only [hdest, htake]
    rfl

end Reading

/-! ## the loop -/

/- A patch is taken apart from its front: one record is applied, and the loop goes on behind it with
a shorter patch and a longer output. Accepted patches are shown to be lists of records in this way,
and lists of records to be accepted. -/

section Loop

variable {old patch new out : Bytes} {maxOutput pos : Nat}

/-- Without a record left the output is what was made so far. -/
@[simp] theorem boundedPatch_nil : boundedPatch old maxOutput [] new pos = .ok new := by
  rw [boundedPatch]

/-- Less than a header is an unexpected end. -/
theorem boundedPatch_short (hne : patch ≠ []) (hshort : patch.length < 24) :
    boundedPatch old maxOutput patch new pos =
      .error (.patchApplicationFailure "unexpected end of file") := by
  obtain ⟨b, rest, rfl⟩ := List.exists_cons_of_ne_nil hne
  rw [boundedPatch, if_pos hshort]

/-- The record at the front of a patch. -/
def frontRecord (old : Bytes) (maxOutput : Nat) (patch new : Bytes) (pos : Nat) :
    Except DiffError (Bytes × Nat × Bytes) :=
  patchRecord old maxOutput (fromLeBytes (patch.take 8)) (fromLeBytes ((patch.drop 8).take 8))
    (offtin ((patch.drop 16).take 8)) (patch.drop 24) new pos

/-- One record is applied, and then the others. -/
theorem boundedPatch_of_record (hlong : 24 ≤ patch.length) :
    boundedPatch old maxOutput patch new pos =
      (frontRecord old maxOutput patch new pos).bind fun t =>
        boundedPatch old maxOutput t.2.2 t.1 t.2.1 := by
  unfold frontRecord
  cases patch with
  | nil => simp at hlong
  | cons b rest =>
      rw [boundedPatch, if_neg (by omega)]
      split <;> next heq => rw [heq]; rfl

/-- A record takes its header and its data. -/
theorem Record.length_bytes (r : Record) : r.bytes.length = 24 + (r.mixLen + r.copyLen) := by
  have hdata : r.data.length = r.mixLen + r.copyLen := r.length_data
  simp only [bytes, List.length_append, r.mixWord.property, r.copyWord.property,
    r.seekWord.property, hdata]
  omega

/-- It adds its two lengths to the output. -/
theorem Record.length_output {r : Record} (h : r.Fits old pos) :
    (r.output old pos).length = r.mixLen + r.copyLen := by
  have hdata : r.data.length = r.mixLen + r.copyLen := r.length_data
  have hrange := h.1
  simp only [output, List.length_append, List.length_zipWith, List.length_take, List.length_drop]
  omega

/-- The size of an output is the one the records announce. -/
theorem length_of_denote {old new : Bytes} {pos : Nat} {records : List Record}
    (h : denote old pos records = some new) : new.length = outputSize records := by
  induction records generalizing new pos with
  | nil =>
      obtain rfl := Option.some.inj h
      rfl
  | cons r rs ih =>
      rw [denote] at h
      split at h
      · next hfits =>
          obtain ⟨tail, hrest, rfl⟩ := Option.map_eq_some_iff.mp h
          rw [List.length_append, Record.length_output hfits, outputSize, ih hrest]
      · contradiction

/-- The words and the data of the record at the front. -/
theorem bytes_append_drop (r : Record) (tail : Bytes) :
    (r.bytes ++ tail).take 8 = r.mixWord.val ∧
    ((r.bytes ++ tail).drop 8).take 8 = r.copyWord.val ∧
    ((r.bytes ++ tail).drop 16).take 8 = r.seekWord.val ∧
    (r.bytes ++ tail).drop 24 = r.data ++ tail := by
  obtain ⟨⟨m, hm⟩, ⟨c, hc⟩, ⟨k, hk⟩, data, -⟩ := r
  simp only [Record.bytes, List.append_assoc]
  refine ⟨?_, ?_, ?_, ?_⟩
  · rw [List.take_append_of_le_length (by omega), List.take_of_length_le (by omega)]
  · rw [List.drop_append_of_le_length (by omega), List.drop_of_length_le (by omega),
      List.nil_append,
      List.take_append_of_le_length (by omega), List.take_of_length_le (by omega)]
  · rw [← List.append_assoc, List.drop_append_of_le_length (by simp; omega),
      List.drop_of_length_le (by simp; omega), List.nil_append,
      List.take_append_of_le_length (by omega), List.take_of_length_le (by omega)]
  · rw [← List.append_assoc, ← List.append_assoc, List.drop_append_of_le_length (by simp; omega),
      List.drop_of_length_le (by simp; omega), List.nil_append]

/-- Patches of at least 24 bytes whose front is long enough start with a record. -/
theorem exists_record (hlong : 24 ≤ patch.length)
    (hdata : fromLeBytes (patch.take 8) + fromLeBytes ((patch.drop 8).take 8) ≤
      (patch.drop 24).length) :
    ∃ (r : Record) (tail : Bytes), patch = r.bytes ++ tail := by
  have hlen : ∀ k, k + 8 ≤ 24 → ((patch.drop k).take 8).length = 8 := by
    intro k hk
    rw [List.length_take, List.length_drop]
    omega
  let n := fromLeBytes (patch.take 8) + fromLeBytes ((patch.drop 8).take 8)
  have hn : ((patch.drop 24).take n).length = n := by rw [List.length_take, Nat.min_eq_left hdata]
  refine ⟨⟨⟨patch.take 8, hlen 0 (by omega)⟩, ⟨(patch.drop 8).take 8, hlen 8 (by omega)⟩,
    ⟨(patch.drop 16).take 8, hlen 16 (by omega)⟩, (patch.drop 24).take n, hn⟩,
    (patch.drop 24).drop n, ?_⟩
  simp only [Record.bytes, List.append_assoc, List.take_append_drop]
  rw [show patch.drop 24 = (patch.drop 16).drop 8 by rw [List.drop_drop], List.take_append_drop,
    show patch.drop 16 = (patch.drop 8).drop 8 by rw [List.drop_drop], List.take_append_drop,
    List.take_append_drop]

/-- What the loop does with the record at the front. -/
theorem frontRecord_append (hold : old.length < i64Size) (hmax : maxOutput < u64Size) (r : Record)
    (tail : Bytes) (t : Bytes × Nat × Bytes) :
    frontRecord old maxOutput (r.bytes ++ tail) new pos = .ok t ↔
      new.length + (r.mixLen + r.copyLen) ≤ maxOutput ∧ r.Fits old pos ∧
      t = (new ++ r.output old pos, (r.dest pos).toNat, tail) := by
  obtain ⟨new', pos', rest'⟩ := t
  obtain ⟨hmix, hcopy, hseek, hrest⟩ := bytes_append_drop r tail
  have hlength : r.data.length = r.mixLen + r.copyLen := r.length_data
  unfold frontRecord
  rw [hmix, hcopy, hseek, hrest, patchRecord_eq_ok hold hmax]
  change _ ∧ r.mixLen + r.copyLen ≤ _ ∧ r.Fits old pos ∧
    new' = new ++ (List.zipWith (· + ·) ((r.data ++ tail).take r.mixLen) _ ++
      ((r.data ++ tail).take (r.mixLen + r.copyLen)).drop r.mixLen) ∧
    pos' = (r.dest pos).toNat ∧ rest' = (r.data ++ tail).drop (r.mixLen + r.copyLen) ↔ _
  rw [List.take_append_of_le_length (by omega : r.mixLen ≤ r.data.length),
    List.take_append_of_le_length (by omega : r.mixLen + r.copyLen ≤ r.data.length),
    List.take_of_length_le (by omega : r.data.length ≤ r.mixLen + r.copyLen),
    List.drop_append_of_le_length (by omega : r.mixLen + r.copyLen ≤ r.data.length),
    List.drop_of_length_le (by omega : r.data.length ≤ r.mixLen + r.copyLen), List.nil_append,
    Prod.mk.injEq, Prod.mk.injEq]
  constructor
  · rintro ⟨hceiling, -, hfits, h⟩
    exact ⟨hceiling, hfits, h⟩
  · rintro ⟨hceiling, hfits, h⟩
    exact ⟨hceiling, by rw [List.length_append]; omega, hfits, h⟩

/-- The loop goes on behind the record at the front. -/
theorem boundedPatch_append (hold : old.length < i64Size) (hmax : maxOutput < u64Size) (r : Record)
    (tail : Bytes) :
    boundedPatch old maxOutput (r.bytes ++ tail) new pos = .ok out ↔
      new.length + (r.mixLen + r.copyLen) ≤ maxOutput ∧ r.Fits old pos ∧
      boundedPatch old maxOutput tail (new ++ r.output old pos) (r.dest pos).toNat = .ok out := by
  have hlong : 24 ≤ (r.bytes ++ tail).length := by
    rw [List.length_append, r.length_bytes]
    omega
  rw [boundedPatch_of_record hlong]
  constructor
  · intro h
    obtain ⟨t, ht, h⟩ := Except.bind_eq_ok.mp h
    obtain ⟨hceiling, hfits, rfl⟩ := (frontRecord_append hold hmax r tail t).mp ht
    exact ⟨hceiling, hfits, h⟩
  · rintro ⟨hceiling, hfits, h⟩
    exact Except.bind_eq_ok.mpr
      ⟨_, (frontRecord_append hold hmax r tail _).mpr ⟨hceiling, hfits, rfl⟩, h⟩

/-- A patch that the loop accepts is empty or starts with a record. -/
theorem eq_nil_or_record_of_boundedPatch (hold : old.length < i64Size) (hmax : maxOutput < u64Size)
    (h : boundedPatch old maxOutput patch new pos = .ok out) :
    patch = [] ∨ ∃ (r : Record) (tail : Bytes), patch = r.bytes ++ tail := by
  by_cases hnil : patch = []
  · exact .inl hnil
  · refine .inr ?_
    by_cases hshort : patch.length < 24
    · rw [boundedPatch_short hnil hshort] at h
      contradiction
    · have hlong : 24 ≤ patch.length := Nat.le_of_not_lt hshort
      rw [boundedPatch_of_record hlong] at h
      obtain ⟨⟨new', pos', rest'⟩, ht, -⟩ := Except.bind_eq_ok.mp h
      exact exists_record hlong ((patchRecord_eq_ok hold hmax).mp ht).2.1

/-- Every accepted patch is the bytes of records that fit and stay below the
ceiling, and their output is added. -/
theorem records_of_boundedPatch (hold : old.length < i64Size) (hmax : maxOutput < u64Size)
    (hnew : new.length ≤ maxOutput) (h : boundedPatch old maxOutput patch new pos = .ok out) :
    ∃ records tail, patch = patchBytes records ∧ denote old pos records = some tail ∧
      new.length + outputSize records ≤ maxOutput ∧ out = new ++ tail := by
  induction hn : patch.length using Nat.strongRecOn generalizing patch new pos with
  | ind n ih =>
      subst hn
      rcases eq_nil_or_record_of_boundedPatch hold hmax h with rfl | ⟨r, rest, rfl⟩
      · rw [boundedPatch_nil] at h
        exact ⟨[], [], rfl, rfl, hnew, by rw [← Except.ok.inj h, List.append_nil]⟩
      · obtain ⟨hceiling, hfits, h⟩ := (boundedPatch_append hold hmax r rest).mp h
        have hless : rest.length < (r.bytes ++ rest).length := by
          rw [List.length_append, r.length_bytes]
          omega
        have hlen : (new ++ r.output old pos).length = new.length + (r.mixLen + r.copyLen) := by
          rw [List.length_append, Record.length_output hfits]
        obtain ⟨records, tail, rfl, hdenote, hsize, rfl⟩ := ih _ hless (by omega) h rfl
        refine ⟨r :: records, r.output old pos ++ tail, rfl, ?_, ?_, by rw [List.append_assoc]⟩
        · rw [denote, if_pos hfits, hdenote, Option.map_some]
        · rw [outputSize]
          omega

/-- Records that fit and stay below the ceiling are accepted. -/
theorem boundedPatch_patchBytes (hold : old.length < i64Size) (hmax : maxOutput < u64Size)
    (records : List Record) {tail : Bytes} (hdenote : denote old pos records = some tail)
    (hsize : new.length + outputSize records ≤ maxOutput) :
    boundedPatch old maxOutput (patchBytes records) new pos = .ok (new ++ tail) := by
  induction records generalizing new pos tail with
  | nil =>
      obtain rfl := Option.some.inj hdenote
      rw [patchBytes, boundedPatch_nil, List.append_nil]
  | cons r records ih =>
      rw [denote] at hdenote
      rw [outputSize] at hsize
      split at hdenote
      · next hfits =>
          obtain ⟨tail', hrest, rfl⟩ := Option.map_eq_some_iff.mp hdenote
          have hlen : (new ++ r.output old pos).length = new.length + (r.mixLen + r.copyLen) := by
            rw [List.length_append, Record.length_output hfits]
          refine (boundedPatch_append hold hmax r _).mpr ⟨by omega, hfits, ?_⟩
          rw [ih hrest (by omega), List.append_assoc]
      · contradiction

/-- A patch is accepted exactly if it makes something out of the old data that is
not larger than the ceiling. -/
theorem applyPatchBounded_eq_ok (hold : old.length < i64Size) (hmax : maxOutput < u64Size) :
    applyPatchBounded old patch maxOutput = .ok new ↔
      ∃ records, patch = patchBytes records ∧ denote old 0 records = some new ∧
        outputSize records ≤ maxOutput := by
  constructor
  · intro h
    obtain ⟨records, tail, hpatch, hdenote, hsize, rfl⟩ :=
      records_of_boundedPatch hold hmax (Nat.zero_le _) h
    exact ⟨records, hpatch, hdenote, by simpa using hsize⟩
  · rintro ⟨records, rfl, hdenote, hsize⟩
    exact boundedPatch_patchBytes hold hmax records hdenote (by simpa using hsize)

end Loop

end Deltaship
