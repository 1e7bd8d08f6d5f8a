import Deltaship.Diff.Machine
import Deltaship.Lib.Script

/-!
# Deltaship.Diff.Ceiling

The ceiling on the output of a patch.

`boundedPatchSteps` is the patch loop in steps on the output buffer, which can be looked at
between two of them, and in the middle of a read or of the addition of old bytes.  It ends as
`boundedPatch` does, and at no time does the buffer hold more than the ceiling allows.
-/

namespace Deltaship

open Prog

/-! ## the loop in steps -/

section Steps

variable (old : Bytes) (maxOutput : Nat)

/-- The checks in front of a read: how many bytes to read. -/
def ceilingCheck (mixLen copyLen size : Nat) : Except DiffError Nat := do
  let toRead ← checkedAdd copyLen mixLen
  let projected ← checkedAdd size toRead
  Except.ensure (projected ≤ maxOutput) (.sizeLimitExceeded maxOutput)
  pure toRead

/-- The checks behind a read. -/
def rangeCheck (toRead hasRead oldpos mixLen : Nat) : Except DiffError Unit := do
  Except.ensure (hasRead = toRead) (.patchApplicationFailure "unexpected end of patch data")
  let oldposEnd ← checkedAdd oldpos mixLen
  Except.ensure (oldposEnd ≤ old.length) .invalidDiff

/-- `read_to_end`: bytes are appended, in pieces. -/
def readToEnd (data : Bytes) : Script Bytes DiffError Unit :=
  .step (modify (· ++ data)) fun new new' => ∃ part, part <+: data ∧ new' = new ++ part

/-- Old bytes are added to those of the buffer from `start` on. -/
def mixAt (start : Nat) (oldSlice new : Bytes) : Bytes :=
  new.take start ++ (List.zipWith (· + ·) ((new.drop start).take oldSlice.length) oldSlice ++
    new.drop (start + oldSlice.length))

/-- The loop that adds the old bytes, one by one. -/
def mixSlice (start : Nat) (oldSlice : Bytes) : Script Bytes DiffError Unit :=
  .step (modify (mixAt start oldSlice)) fun new new' =>
    ∃ part, part <+: oldSlice ∧ new' = mixAt start part new

/-- `bounded_patch`, on the output buffer. -/
def boundedPatchSteps (patch : Bytes) (oldpos : Nat) : Script Bytes DiffError Unit :=
  if _h : patch.length < 24 then
    .check (if patch = [] then .ok ()
      else .error (.patchApplicationFailure "unexpected end of file"))
  else
    let mixLen := fromLeBytes (patch.take 8)
    let copyLen := fromLeBytes ((patch.drop 8).take 8)
    let seek := offtin ((patch.drop 16).take 8)
    .bind (.whole get) fun new =>
    .bind (.check (ceilingCheck maxOutput mixLen copyLen new.length)) fun toRead =>
    let data := (patch.drop 24).take toRead
    .bind (readToEnd data) fun _ =>
    .bind (.check (rangeCheck old toRead data.length oldpos mixLen)) fun _ =>
    .bind (mixSlice new.length ((old.drop oldpos).take mixLen)) fun _ =>
    .bind (.check (seekFrom (oldpos + mixLen) seek)) fun oldpos' =>
    boundedPatchSteps (patch.drop (24 + toRead)) oldpos'
termination_by patch.length
decreasing_by rw [List.length_drop]; omega

/-- `apply_patch_bounded` in steps, on a new buffer. -/
def applyPatchSteps (patch : Bytes) : Except DiffError Bytes :=
  let out := exec (boundedPatchSteps old maxOutput patch 0).run []
  out.1.map fun _ => out.2

end Steps

/-! ## the checks -/

section Checks

variable {old rest new patch : Bytes} {maxOutput mixLen copyLen toRead hasRead pos : Nat}
  {seek : Int}

/-- What passes the check leaves the output within the limit. -/
theorem ceilingCheck_eq_ok {size : Nat}
    (h : ceilingCheck maxOutput mixLen copyLen size = .ok toRead) :
    toRead = copyLen + mixLen ∧ size + toRead ≤ maxOutput := by
  obtain ⟨n, hn, h⟩ := Except.bind_eq_ok.mp h
  obtain ⟨projected, hprojected, h⟩ := Except.bind_eq_ok.mp h
  obtain ⟨⟨⟩, hceiling, h⟩ := Except.bind_eq_ok.mp h
  obtain rfl := Except.ok.inj h
  obtain ⟨-, rfl⟩ := checkedAdd_eq_ok.mp hn
  obtain ⟨-, rfl⟩ := checkedAdd_eq_ok.mp hprojected
  exact ⟨rfl, Except.ensure_eq_ok.mp hceiling⟩

/-- A record is its checks and what it does to the buffer. -/
theorem patchRecord_eq :
    patchRecord old maxOutput mixLen copyLen seek rest new pos = (do
      let toRead ← ceilingCheck maxOutput mixLen copyLen new.length
      rangeCheck old toRead (rest.take toRead).length pos mixLen
      let pos' ← seekFrom (pos + mixLen) seek
      pure (mixAt new.length ((old.drop pos).take mixLen) (new ++ rest.take toRead), pos',
        rest.drop toRead)) := by
  have hmix : ∀ {n}, n = copyLen + mixLen → (rest.take n).length = n → pos + mixLen ≤ old.length →
      new ++ (List.zipWith (· + ·) ((rest.take n).take mixLen) ((old.drop pos).take mixLen) ++
        (rest.take n).drop mixLen) =
      mixAt new.length ((old.drop pos).take mixLen) (new ++ rest.take n) := by
    intro n hn hfull hrange
    have hslice : ((old.drop pos).take mixLen).length = mixLen := by
      rw [List.length_take, List.length_drop]
      omega
    rw [mixAt, hslice, List.take_left, List.drop_left, List.drop_append,
      List.drop_of_length_le (Nat.le_add_right _ _), List.nil_append, Nat.add_sub_cancel_left]
  unfold patchRecord ceilingCheck rangeCheck
  cases hread : checkedAdd copyLen mixLen with
  | error err => rfl
  | ok toRead =>
      obtain ⟨-, htoRead⟩ := checkedAdd_eq_ok.mp hread
      simp only [Bind.bind, Except.bind]
      cases checkedAdd new.length toRead with
      | error err => rfl
      | ok projected =>
          dsimp only
          by_cases hceiling : projected ≤ maxOutput
          · rw [Except.ensure_pos hceiling, if_neg (Nat.not_lt.mpr hceiling)]
            by_cases hfull : (rest.take toRead).length = toRead
            · rw [if_neg (not_not.mpr hfull)]
              simp only [pure, Except.pure, Except.ensure_pos hfull]
              cases hend : checkedAdd pos mixLen with
              | error err => rfl
              | ok oldposEnd =>
                  obtain ⟨-, rfl⟩ := checkedAdd_eq_ok.mp hend
                  dsimp only
                  by_cases hrange : pos + mixLen ≤ old.length
                  · rw [Except.ensure_pos hrange, if_neg (Nat.not_lt.mpr hrange),
                      hmix htoRead hfull hrange]
                  · rw [Except.ensure_neg hrange, if_pos (Nat.lt_of_not_le hrange)]
                    rfl
            · rw [if_pos hfull]
              simp only [pure, Except.pure, Except.ensure_neg hfull]
              rfl
          · rw [Except.ensure_neg hceiling, if_pos (Nat.lt_of_not_le hceiling)]
            rfl

/-- What passes the check is read from within the old file. -/
theorem rangeCheck_eq_ok {u : Unit} (h : rangeCheck old toRead hasRead pos mixLen = .ok u) :
    hasRead = toRead ∧ pos + mixLen ≤ old.length := by
  obtain ⟨⟨⟩, hfull, h⟩ := Except.bind_eq_ok.mp h
  obtain ⟨oldposEnd, hend, h⟩ := Except.bind_eq_ok.mp h
  obtain ⟨-, rfl⟩ := checkedAdd_eq_ok.mp hend
  exact ⟨Except.ensure_eq_ok.mp hfull, Except.ensure_eq_ok.mp h⟩

end Checks

/-! ## the buffer -/

section Buffer

variable {old : Bytes} {maxOutput : Nat}

/-- Mixing the old bytes in does not make the output longer. -/
theorem length_mixAt {start : Nat} {oldSlice new : Bytes}
    (h : start + oldSlice.length ≤ new.length) :
    (mixAt start oldSlice new).length = new.length := by
  simp only [mixAt, List.length_append, List.length_take, List.length_zipWith, List.length_drop]
  omega

/-- A part of what may be added may be added. -/
theorem length_append_prefix_le {new part data : Bytes} {n : Nat} (h : part <+: data.take n)
    (hfits : new.length + n ≤ maxOutput) : (new ++ part).length ≤ maxOutput := by
  have := h.length_le
  simp only [List.length_append, List.length_take] at this ⊢
  omega

/-- A record of a patch that is long enough. -/
theorem boundedPatch_checks {patch new : Bytes} {pos : Nat} (hlong : ¬ patch.length < 24) :
    boundedPatch old maxOutput patch new pos = (do
      let mixLen := fromLeBytes (patch.take 8)
      let toRead ← ceilingCheck maxOutput mixLen (fromLeBytes ((patch.drop 8).take 8)) new.length
      let data := (patch.drop 24).take toRead
      rangeCheck old toRead data.length pos mixLen
      let pos' ← seekFrom (pos + mixLen) (offtin ((patch.drop 16).take 8))
      boundedPatch old maxOutput (patch.drop (24 + toRead))
        (mixAt new.length ((old.drop pos).take mixLen) (new ++ data)) pos') := by
  rw [boundedPatch_of_record (Nat.le_of_not_lt hlong), frontRecord, patchRecord_eq]
  simp only [Bind.bind, Except.bind, pure, Except.pure]
  cases ceilingCheck maxOutput (fromLeBytes (patch.take 8)) (fromLeBytes ((patch.drop 8).take 8))
      new.length with
  | error err => rfl
  | ok toRead =>
      dsimp only
      cases rangeCheck old toRead ((patch.drop 24).take toRead).length pos
          (fromLeBytes (patch.take 8)) with
      | error err => rfl
      | ok u =>
          dsimp only
          cases seekFrom (pos + fromLeBytes (patch.take 8)) (offtin ((patch.drop 16).take 8)) with
          | error err => rfl
          | ok pos' => simp only [List.drop_drop]

/-- The loop in steps ends as the loop does, and the buffer stays below the ceiling. -/
theorem keeps_boundedPatchSteps {patch new : Bytes} {pos : Nat} (hnew : new.length ≤ maxOutput) :
    Script.Keeps (fun s => s.length ≤ maxOutput) (boundedPatchSteps old maxOutput patch pos)
      (fun _ out => boundedPatch old maxOutput patch new pos = .ok out)
      (fun err _ => boundedPatch old maxOutput patch new pos = .error err) new := by
  induction hn : patch.length using Nat.strongRecOn generalizing patch new pos with
  | ind n ih =>
      subst hn
      rw [boundedPatchSteps]
      split
      · next hshort =>
          refine Script.keeps_check hnew (fun u hu => ?_) fun err herr => ?_
          · split at hu
            · next hnil => rw [hnil, boundedPatch_nil]
            · contradiction
          · split at herr
            · contradiction
            · next hne =>
                obtain rfl := Except.error.inj herr
                exact boundedPatch_short hne hshort
      · next hlong =>
          rw [boundedPatch_checks hlong]
          dsimp only
          refine Script.keeps_bind (Script.keeps_whole hnew ⟨hnew, ?_⟩)
          refine Script.keeps_bind (Script.keeps_check hnew (fun toRead hceiling => ?_)
            fun err herr => by rw [herr]; rfl)
          obtain ⟨htoRead, hfits⟩ := ceilingCheck_eq_ok hceiling
          rw [hceiling]
          simp only [Bind.bind, Except.bind]
          -- the read
          have hread : ∀ part, part <+: (patch.drop 24).take toRead →
              (new ++ part).length ≤ maxOutput :=
            fun part hpart => length_append_prefix_le hpart hfits
          refine Script.keeps_bind (Script.keeps_step hnew
            (fun s ⟨part, hpart, hs⟩ => hs ▸ hread part hpart) ⟨hread _ List.prefix_rfl, ?_⟩)
          have hnew := hread _ List.prefix_rfl
          refine Script.keeps_bind (Script.keeps_check hnew (fun u hrange => ?_)
            fun err herr => by rw [herr])
          obtain ⟨hfull, hin⟩ := rangeCheck_eq_ok hrange
          rw [hrange]
          dsimp only
          -- the addition of old bytes
          have hmix : ∀ part, part <+: (old.drop pos).take (fromLeBytes (patch.take 8)) →
              (mixAt new.length part (new ++ (patch.drop 24).take toRead)).length ≤ maxOutput := by
            intro part hpart
            have hshort := hpart.length_le
            rw [List.length_take] at hshort
            rw [length_mixAt (by rw [List.length_append, hfull]; omega)]
            exact hnew
          refine Script.keeps_bind (Script.keeps_step hnew
            (fun s ⟨part, hpart, hs⟩ => hs ▸ hmix part hpart) ⟨hmix _ List.prefix_rfl, ?_⟩)
          have hnew := hmix _ List.prefix_rfl
          refine Script.keeps_bind (Script.keeps_check hnew (fun pos' hseek => ?_)
            fun err herr => by rw [herr])
          rw [hseek]
          exact ih _ (by rw [List.length_drop]; omega) hnew rfl

/-- Step by step the applier does what it does in one go. -/
theorem applyPatchSteps_eq (patch : Bytes) :
    applyPatchSteps old maxOutput patch = applyPatchBounded old patch maxOutput := by
  have hkeeps := (@keeps_boundedPatchSteps old maxOutput patch [] 0 (Nat.zero_le _)).2
  unfold applyPatchSteps applyPatchBounded
  cases hrun : exec (boundedPatchSteps old maxOutput patch 0).run [] with
  | mk r out =>
      cases r with
      | ok u => exact (wp_exec_ok hkeeps hrun).symm
      | error err => exact (wp_exec_error hkeeps hrun).symm

end Buffer

/-! ## lower ceilings -/

section Lower

variable {old new tail : Bytes} {pos k : Nat}

/-- A record that goes beyond the limit is refused. -/
theorem ceilingCheck_exceeded {mixLen copyLen size : Nat}
    (hsize : size + (copyLen + mixLen) < u64Size) (h : k < size + (copyLen + mixLen)) :
    ceilingCheck k mixLen copyLen size = .error (.sizeLimitExceeded k) := by
  have hread : checkedAdd copyLen mixLen = .ok (copyLen + mixLen) :=
    checkedAdd_eq_ok.mpr ⟨by omega, rfl⟩
  have hprojected : checkedAdd size (copyLen + mixLen) = .ok (size + (copyLen + mixLen)) :=
    checkedAdd_eq_ok.mpr ⟨hsize, rfl⟩
  simp [ceilingCheck, hread, hprojected, Except.ensure_neg (Nat.not_le.mpr h), bind, Except.bind]

/-- The record at the front exceeds the ceiling. -/
theorem boundedPatch_append_exceeded (r : Record) (rest : Bytes)
    (hsize : new.length + (r.copyLen + r.mixLen) < u64Size)
    (h : k < new.length + (r.copyLen + r.mixLen)) :
    boundedPatch old k (r.bytes ++ rest) new pos = .error (.sizeLimitExceeded k) := by
  have hlong : ¬ (r.bytes ++ rest).length < 24 := by
    rw [List.length_append, r.length_bytes]
    omega
  obtain ⟨hmix, hcopy, -, -⟩ := bytes_append_drop r rest
  rw [boundedPatch_checks hlong, hmix, hcopy]
  change ((ceilingCheck k r.mixLen r.copyLen new.length).bind fun _ => _) = _
  rw [ceilingCheck_exceeded hsize h]
  rfl

/-- Records whose output is larger than the ceiling are refused for it. -/
theorem boundedPatch_patchBytes_exceeded (hold : old.length < i64Size) (records : List Record)
    (hdenote : denote old pos records = some tail)
    (hsize : new.length + outputSize records < u64Size) (hbelow : new.length ≤ k)
    (habove : k < new.length + outputSize records) :
    boundedPatch old k (patchBytes records) new pos = .error (.sizeLimitExceeded k) := by
  induction records generalizing new pos tail with
  | nil =>
      rw [outputSize] at habove
      omega
  | cons r records ih =>
      rw [denote] at hdenote
      rw [outputSize] at hsize habove
      rw [patchBytes]
      split at hdenote
      · next hfits =>
          obtain ⟨tail', hrest, rfl⟩ := Option.map_eq_some_iff.mp hdenote
          by_cases hfirst : new.length + (r.mixLen + r.copyLen) ≤ k
          · have hfront := (frontRecord_append hold (by omega) r (patchBytes records) _).mpr
              ⟨hfirst, hfits, rfl⟩
            have hlen : (new ++ r.output old pos).length = new.length + (r.mixLen + r.copyLen) := by
              rw [List.length_append, Record.length_output hfits]
            rw [boundedPatch_of_record (by rw [List.length_append, r.length_bytes]; omega), hfront]
            apply ih hrest <;> dsimp only <;> omega
          · exact boundedPatch_append_exceeded r _ (by omega) (by omega)
      · contradiction

end Lower

/-! ## the ceiling -/

/-- What a patch makes under one ceiling it makes under every ceiling that is large enough,
and below that the error names the ceiling.  Wherever the loop is stopped, and however it
ends, the output buffer is not larger than the ceiling. -/
theorem output_ceiling {old : Bytes} (hold : old.length < i64Size) :
    (∀ patch new m, m < u64Size → applyPatchBounded old patch m = .ok new →
      ∀ k < u64Size,
        (new.length ≤ k → applyPatchBounded old patch k = .ok new) ∧
        (k < new.length → applyPatchBounded old patch k = .error (.sizeLimitExceeded k))) ∧
    ∀ patch m,
      applyPatchSteps old m patch = applyPatchBounded old patch m ∧
      ∀ buffer, (boundedPatchSteps old m patch 0).Passes [] buffer → buffer.length ≤ m := by
  constructor
  · intro patch new m hm h k hk
    obtain ⟨records, rfl, hdenote, hsize⟩ := (applyPatchBounded_eq_ok hold hm).mp h
    have hlen := length_of_denote hdenote
    constructor
    · intro hle
      exact (applyPatchBounded_eq_ok hold hk).mpr ⟨records, rfl, hdenote, by omega⟩
    · intro hlt
      apply boundedPatch_patchBytes_exceeded hold records hdenote <;>
        rw [List.length_nil] <;> omega
  · intro patch m
    exact ⟨applyPatchSteps_eq patch, (keeps_boundedPatchSteps (Nat.zero_le m)).1⟩

/-- A patch that makes three bytes is refused where two are allowed. -/
theorem output_ceiling_sample :
    applyPatchBounded [10, 20] sampleRecord.bytes 2 = .error (.sizeLimitExceeded 2) :=
  ((output_ceiling (by decide)).1 _ [11, 14, 7] 3 (by decide)
    ((applyPatchBounded_eq_ok (by decide) (by decide)).mpr
      ⟨[sampleRecord], by decide, by decide, by decide⟩) 2 (by decide)).2 (by decide)

end Deltaship
