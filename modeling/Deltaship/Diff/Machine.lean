import Deltaship.Diff.Records
import Mathlib.Algebra.Group.Nat.Defs

/-!
# Deltaship.Diff.Machine

The patch loop with everything in it that could go wrong on a machine.

`bounded_patch` adds, negates and slices, and some of this is not checked: an
overflow, an index out of range or a failed `unwrap` is a panic (`Stop.panic`),
and the loop is run for a number of records that may not be enough (`Stop.running`).
The reader is a `Cursor` over the patch.  None of these ever happens: the loop ends
as `Deltaship.Diff.Apply` says.
-/

namespace Deltaship

namespace Machine

/-- How a computation can end without a value. -/
inductive Stop where
  | error (err : DiffError)
  | panic
  | running
deriving DecidableEq, Repr

/-- A computation of the program. -/
abbrev Rust (α : Type) : Type := Except Stop α

/-- `ok_or(err)?`. -/
def okOr {α : Type} (err : DiffError) (o : Option α) : Rust α := Except.ofOption (.error err) o

/-- `unwrap`. -/
def unwrap {α : Type} (o : Option α) : Rust α := Except.ofOption .panic o

/-- `a + b` on `usize`. -/
def add (a b : Nat) : Rust Nat := if a + b < u64Size then .ok (a + b) else .error .panic

/-- `a.checked_add(b)` on `usize`. -/
def checkedAdd (a b : Nat) : Option Nat := if a + b < u64Size then some (a + b) else none

/-- `-x` on `i64`. -/
def neg (x : BitVec 64) : Rust (BitVec 64) :=
  if x = BitVec.intMin 64 then .error .panic else .ok (-x)

/-- `b.get(i..j)`. -/
def get (b : Bytes) (i j : Nat) : Option Bytes :=
  if i ≤ j ∧ j ≤ b.length then some ((b.drop i).take (j - i)) else none

/-- `&b[i..j]`. -/
def slice (b : Bytes) (i j : Nat) : Rust Bytes := unwrap (get b i j)

/-- Bytes appended to a `Vec`, whose capacity is at most `isize::MAX`. -/
def extend (v b : Bytes) : Rust Bytes :=
  if v.length + b.length < i64Size then .ok (v ++ b) else .error .panic

/-- `std::io::Cursor`. -/
structure Cursor where
  data : Bytes
  pos : Nat
deriving DecidableEq, Repr

namespace Cursor

/-- What was not read yet. -/
def rest (c : Cursor) : Bytes := c.data.drop c.pos

/-- `read` into a buffer of `n` bytes: what was read, and the cursor behind it. -/
def read (c : Cursor) (n : Nat) : Bytes × Cursor :=
  (c.rest.take n, { c with pos := c.pos + (c.rest.take n).length })

end Cursor

/-- `ControlRead`. -/
inductive ControlRead where
  | read | eof
deriving DecidableEq, Repr

/-- The loop of `read_full_or_eof`; `total` is the size of the buffer. -/
def readLoop (c : Cursor) (buf : Bytes) (total filled : Nat) :
    Rust (ControlRead × Bytes × Cursor) :=
  if filled < total then do
    let target ← slice buf filled buf.length
    match c.read target.length with
    | ([], _) =>
      if filled = 0 then pure (.eof, buf, c)
      else throw (.error (.patchApplicationFailure "unexpected end of file"))
    | (b :: chunk, c') => do
      let _ ← add filled (b :: chunk).length
      readLoop c'
        (buf.take filled ++ ((b :: chunk) ++ buf.drop (filled + (b :: chunk).length))) total
        (filled + (b :: chunk).length)
  else pure (.read, buf, c)
termination_by total - filled
decreasing_by simp only [List.length_cons]; omega

/-- `read_full_or_eof`. -/
def readFullOrEof (c : Cursor) (buf : Bytes) : Rust (ControlRead × Bytes × Cursor) :=
  readLoop c buf buf.length 0

/-- `u64::from_le_bytes` or `i64::from_le_bytes` of a slice: the conversion to an
array panics if the slice has another length. -/
def word (b : Bytes) : Rust (BitVec 64) := do
  let w ← unwrap (ByteVec.tryInto 8 b)
  pure (BitVec.ofNat 64 (fromLeBytes w.val))

/-- `u64_to_usize`. -/
def u64ToUsize (v : BitVec 64) : Rust Nat := .ok v.toNat

/-- `offtin`. -/
def offtin (y : BitVec 64) : Rust (BitVec 64) :=
  if 0#64 = y &&& (1#64 <<< 63) then .ok y else neg (y &&& ~~~(1#64 <<< 63))

/-- The loop that adds the old bytes to the mixed ones. -/
def addBytes : Bytes → Bytes → Bytes
  | n :: ns, o :: os => (n + o) :: addBytes ns os
  | ns, _ => ns

/-- `(oldpos as i64).checked_add(seek)`, converted back to `usize`. -/
def seekFrom (oldpos : Nat) (seek : BitVec 64) : Option Nat :=
  let dest := (BitVec.ofNat 64 oldpos).toInt + seek.toInt
  if -(i64Size : Int) ≤ dest ∧ dest < i64Size then
    if 0 ≤ dest then some dest.toNat else none
  else none

/-- The part of the loop of `bounded_patch` behind the control word. -/
def record (old : Bytes) (maxOutput mixLen copyLen : Nat) (seekLen : BitVec 64) (c : Cursor)
    (new : Bytes) (oldpos : Nat) : Rust (Cursor × Bytes × Nat) := do
  let toRead ← okOr .invalidDiff (checkedAdd copyLen mixLen)
  let projected ← okOr .invalidDiff (checkedAdd new.length toRead)
  Except.ensure (projected ≤ maxOutput) (.error (.sizeLimitExceeded maxOutput))
  let mixStart := new.length
  let (chunk, c) := c.read toRead
  let new ← extend new chunk
  Except.ensure (chunk.length = toRead)
    (.error (.patchApplicationFailure "unexpected end of patch data"))
  let mixEnd ← okOr .invalidDiff (checkedAdd mixStart mixLen)
  let mixSlice ← okOr .invalidDiff (get new mixStart mixEnd)
  let oldposEnd ← okOr .invalidDiff (checkedAdd oldpos mixLen)
  let oldSlice ← okOr .invalidDiff (get old oldpos oldposEnd)
  let new := new.take mixStart ++ (addBytes mixSlice oldSlice ++ new.drop mixEnd)
  let oldpos ← add oldpos mixLen
  let oldpos ← okOr .invalidDiff (seekFrom oldpos seekLen)
  pure (c, new, oldpos)

/-- One round of the loop of `bounded_patch`; no state is left when it returns. -/
def round (old : Bytes) (maxOutput : Nat) (c : Cursor) (new : Bytes) (oldpos : Nat) :
    Rust (Option (Cursor × Bytes × Nat)) := do
  let (control, ctrl, c) ← readFullOrEof c (List.replicate 24 0)
  match control with
  | .eof => pure none
  | .read => do
    let mixLen ← u64ToUsize (← word (← slice ctrl 0 8))
    let copyLen ← u64ToUsize (← word (← slice ctrl 8 16))
    let seekLen ← offtin (← word (← slice ctrl 16 24))
    some <$> record old maxOutput mixLen copyLen seekLen c new oldpos

/-- `bounded_patch`, for a number of rounds. -/
def boundedPatch (old : Bytes) (maxOutput : Nat) : Nat → Cursor → Bytes → Nat → Rust Bytes
  | 0, _, _, _ => .error .running
  | rounds + 1, c, new, oldpos => do
    match ← round old maxOutput c new oldpos with
    | none => pure new
    | some (c', new', oldpos') => boundedPatch old maxOutput rounds c' new' oldpos'

/-- `apply_patch_bounded`. -/
def applyPatchBounded (rounds : Nat) (old patch : Bytes) (maxOutput : Nat) : Rust Bytes :=
  boundedPatch old maxOutput rounds ⟨patch, 0⟩ [] 0

/-! ## words -/

/-- So many bytes make a number of that size. -/
theorem fromLeBytes_lt (b : Bytes) : fromLeBytes b < 256 ^ b.length := by
  induction b with
  | nil => decide
  | cons x xs ih =>
      have hx := x.toNat_lt
      rw [fromLeBytes, List.length_cons, Nat.pow_succ]
      omega

theorem fromLeBytes_lt_u64 {b : Bytes} (h : b.length = 8) : fromLeBytes b < u64Size := by
  have hlt := fromLeBytes_lt b
  rw [h] at hlt
  exact hlt

/-- Eight bytes are read as the word that they make. -/
theorem word_eq {b : Bytes} (h : b.length = 8) :
    word b = .ok (BitVec.ofNat 64 (fromLeBytes b)) := by
  simp [word, unwrap, ByteVec.tryInto, h, Except.ofOption, bind, Except.bind, pure, Except.pure]

theorem toNat_word {b : Bytes} (h : b.length = 8) :
    (BitVec.ofNat 64 (fromLeBytes b)).toNat = fromLeBytes b := by
  rw [BitVec.toNat_ofNat]
  exact Nat.mod_eq_of_lt (fromLeBytes_lt_u64 h)

/-- The sign bit of a word. -/
theorem and_sign_eq_zero {y : BitVec 64} : 0#64 = y &&& (1#64 <<< 63) ↔ y.toNat < i64Size := by
  rw [eq_comm, show 1#64 <<< 63 = BitVec.twoPow 64 63 from rfl, BitVec.and_twoPow,
    ← show y.msb = y.getLsbD 63 from y.msb_eq_getLsbD_last, BitVec.msb_eq_decide]
  show _ ↔ y.toNat < 9223372036854775808
  by_cases h : 2 ^ (64 - 1) ≤ y.toNat
  · rw [if_pos (decide_eq_true h)]
    exact ⟨fun heq => absurd heq (by decide), fun hlt => absurd h (by omega)⟩
  · rw [if_neg (by simpa using h)]
    exact ⟨fun _ => by omega, fun _ => rfl⟩

/-- The magnitude of a word. -/
theorem toNat_and_not_sign {y : BitVec 64} :
    (y &&& ~~~(1#64 <<< 63)).toNat = y.toNat % i64Size := by
  rw [show ~~~(1#64 <<< 63) = BitVec.ofNat 64 (2 ^ 63 - 1) by decide, BitVec.toNat_and,
    BitVec.toNat_ofNat, Nat.mod_eq_of_lt (by decide), Nat.and_two_pow_sub_one_eq_mod]
  rfl

/-- A word below half the range is the same as a signed number. -/
theorem toInt_of_lt {x : BitVec 64} (h : x.toNat < i64Size) : x.toInt = x.toNat := by
  refine BitVec.toInt_eq_toNat_of_lt ?_
  have hsize : i64Size = 2 ^ 63 := rfl
  omega

/-- The negation in `offtin` does not overflow. -/
theorem offtin_eq {b : Bytes} (h : b.length = 8) :
    ∃ w, offtin (BitVec.ofNat 64 (fromLeBytes b)) = .ok w ∧ w.toInt = Deltaship.offtin b := by
  have hlt := fromLeBytes_lt_u64 h
  have hword := toNat_word h
  generalize BitVec.ofNat 64 (fromLeBytes b) = y at hword
  unfold offtin Deltaship.offtin
  rw [← hword] at hlt ⊢
  dsimp only
  by_cases hsign : y.toNat < i64Size
  · rw [if_pos (and_sign_eq_zero.mpr hsign), if_pos hsign]
    exact ⟨y, rfl, toInt_of_lt hsign⟩
  · rw [if_neg fun heq => hsign (and_sign_eq_zero.mp heq), if_neg hsign]
    have hmod : (y &&& ~~~(1#64 <<< 63)).toNat = y.toNat - i64Size := by
      have htwo : u64Size = 2 * i64Size := rfl
      rw [toNat_and_not_sign, Nat.mod_eq_sub_mod (by omega), Nat.mod_eq_of_lt (by omega)]
    have hsmall : (y &&& ~~~(1#64 <<< 63)).toNat < i64Size := by
      rw [toNat_and_not_sign]
      exact Nat.mod_lt _ (by decide)
    have hne : y &&& ~~~(1#64 <<< 63) ≠ BitVec.intMin 64 := by
      intro heq
      rw [heq] at hsmall
      exact absurd hsmall (by decide)
    refine ⟨_, if_neg hne, ?_⟩
    rw [BitVec.toInt_neg_of_ne_intMin hne, toInt_of_lt hsmall, hmod]

/-- Seeking in words is seeking in numbers, with the same error. -/
theorem seekFrom_eq {oldpos : Nat} {seek : BitVec 64} (h : oldpos < i64Size) :
    okOr .invalidDiff (seekFrom oldpos seek) =
      (Deltaship.seekFrom oldpos seek.toInt).mapError .error := by
  have hpos : (BitVec.ofNat 64 oldpos).toNat = oldpos := by
    rw [BitVec.toNat_ofNat]
    exact Nat.mod_eq_of_lt (Nat.lt_trans h (by decide))
  unfold seekFrom Deltaship.seekFrom
  rw [toInt_of_lt (by rw [hpos]; exact h), hpos, if_pos h]
  dsimp only
  split
  · next hrange =>
      split
      · next hnonneg => rw [if_pos ⟨hrange.1, hrange.2, hnonneg⟩]; rfl
      · next hneg => rw [if_neg fun hall => hneg hall.2.2]; rfl
  · next hrange => rw [if_neg fun hall => hrange ⟨hall.1, hall.2.1⟩]; rfl

/-! ## the control word -/

section Control

variable {c : Cursor} {buf : Bytes} {total filled : Nat}

theorem readLoop_full (h : total ≤ filled) : readLoop c buf total filled = .ok (.read, buf, c) := by
  rw [readLoop, if_neg (by omega)]
  rfl

/-- A slice within the bounds is cut out. -/
theorem slice_eq {b : Bytes} {i j : Nat} (hij : i ≤ j) (hj : j ≤ b.length) :
    slice b i j = .ok ((b.drop i).take (j - i)) := by
  unfold slice get
  rw [if_pos ⟨hij, hj⟩]
  rfl

/-- Nothing is left to read. -/
theorem readLoop_end (hbuf : buf.length = total) (h : filled < total) (hrest : c.rest = []) :
    readLoop c buf total filled =
      if filled = 0 then .ok (.eof, buf, c)
      else .error (.error (.patchApplicationFailure "unexpected end of file")) := by
  rw [readLoop, if_pos h, slice_eq (by omega) (by omega)]
  simp only [bind, Except.bind, Cursor.read, hrest, List.take_nil]
  split <;> rfl

/-- Something is left to read. -/
theorem readLoop_some (hbuf : buf.length = total) (htotal : total < u64Size) (h : filled < total)
    (hrest : c.rest ≠ []) :
    let chunk := c.rest.take (total - filled)
    readLoop c buf total filled =
      readLoop ⟨c.data, c.pos + chunk.length⟩
        (buf.take filled ++ (chunk ++ buf.drop (filled + chunk.length))) total
        (filled + chunk.length) := by
  obtain ⟨b, rest, hb⟩ := List.exists_cons_of_ne_nil hrest
  obtain ⟨n, hn⟩ : ∃ n, total - filled = n + 1 := ⟨total - filled - 1, by omega⟩
  have hlength : ((buf.drop filled).take (buf.length - filled)).length = n + 1 := by
    rw [List.length_take, List.length_drop]
    omega
  have hadd : add filled (b :: rest.take n).length = .ok (filled + (b :: rest.take n).length) := by
    refine if_pos ?_
    rw [List.length_cons, List.length_take]
    omega
  intro chunk
  conv_lhs => rw [readLoop, if_pos h, slice_eq (by omega) (by omega)]
  simp only [chunk, bind, Except.bind, Cursor.read, hlength, hb, hn, List.take_succ_cons, hadd]

/-- What `read_full_or_eof` does with a cursor. -/
theorem readFullOrEof_eq (c : Cursor) (buf : Bytes) (hbuf : buf.length < u64Size)
    (hne : buf ≠ []) :
    readFullOrEof c buf =
      if c.rest = [] then .ok (.eof, buf, c)
      else if c.rest.length < buf.length then
        .error (.error (.patchApplicationFailure "unexpected end of file"))
      else .ok (.read, c.rest.take buf.length, ⟨c.data, c.pos + buf.length⟩) := by
  have hpos : 0 < buf.length := List.length_pos_iff.mpr hne
  unfold readFullOrEof
  by_cases hrest : c.rest = []
  · rw [if_pos hrest, readLoop_end rfl hpos hrest, if_pos rfl]
  · rw [if_neg hrest, readLoop_some rfl hbuf hpos hrest]
    have hlen : (c.rest.take buf.length).length = min buf.length c.rest.length := List.length_take
    have hsome : 0 < c.rest.length := List.length_pos_iff.mpr hrest
    simp only [Nat.sub_zero, List.take_zero, List.nil_append, Nat.zero_add]
    split
    · next hshort =>
        rw [readLoop_end (by rw [List.length_append, List.length_drop, hlen]; omega) (by omega),
          if_neg (by omega)]
        unfold Cursor.rest at hlen hshort ⊢
        rw [List.drop_eq_nil_iff]
        rw [List.length_drop] at hlen hshort
        dsimp only
        omega
    · next hlong =>
        rw [readLoop_full (by omega), hlen, Nat.min_eq_left (by omega), List.drop_length,
          List.append_nil]

end Control

/-! ## a record -/

/- A record is applied in two steps, the mixed bytes and the extra bytes, and then the position in
the old file is moved. No step reads behind the end of what it reads from, as all lengths were
checked before. -/

section Records

variable {old new : Bytes} {maxOutput mixLen copyLen oldpos : Nat} {c : Cursor}

theorem okOr_some {α : Type} {err : DiffError} {a : α} : okOr err (some a) = .ok a := rfl

/-- What is missing is the error that goes with it. -/
theorem okOr_none {α : Type} {err : DiffError} :
    okOr err (none : Option α) = .error (.error err) := rfl

/-- An addition that overflows is an invalid diff. -/
theorem okOr_checkedAdd {a b : Nat} :
    okOr .invalidDiff (checkedAdd a b) = (Deltaship.checkedAdd a b).mapError .error := by
  unfold checkedAdd Deltaship.checkedAdd
  split <;> rfl

theorem addBytes_eq {ns os : Bytes} (h : ns.length = os.length) :
    addBytes ns os = List.zipWith (· + ·) ns os := by
  induction ns generalizing os with
  | nil =>
      cases os with
      | nil => rfl
      | cons o os => simp at h
  | cons n ns ih =>
      cases os with
      | nil => simp at h
      | cons o os =>
          rw [addBytes, List.zipWith_cons_cons, ih (by simpa using h)]

/-- A cursor in its data, that has read everything that was put out. -/
structure Cursor.Behind (c : Cursor) (new : Bytes) : Prop where
  inside : c.pos ≤ c.data.length
  size : c.data.length < i64Size
  output : new.length ≤ c.pos

/-- The mixed bytes of a record are in the output. -/
theorem get_mix {data : Bytes} (hdata : data.length = copyLen + mixLen) :
    get (new ++ data) new.length (new.length + mixLen) = some (data.take mixLen) := by
  refine (if_pos ⟨by omega, by rw [List.length_append]; omega⟩).trans ?_
  rw [List.drop_left, Nat.add_sub_cancel_left]

/-- The output behind a record. -/
theorem mix_eq {data : Bytes} (hdata : data.length = copyLen + mixLen)
    (hrange : oldpos + mixLen ≤ old.length) :
    (new ++ data).take new.length ++
        (addBytes (data.take mixLen) ((old.drop oldpos).take mixLen) ++
          (new ++ data).drop (new.length + mixLen)) =
      new ++ (List.zipWith (· + ·) (data.take mixLen) ((old.drop oldpos).take mixLen) ++
        data.drop mixLen) := by
  rw [addBytes_eq (by simp; omega), List.take_left, List.drop_append,
    List.drop_of_length_le (Nat.le_add_right _ _), List.nil_append, Nat.add_sub_cancel_left]

/-- No step of a record panics: what is read fits in the output, the mixed bytes
are in it, and the additions stay in the old data. -/
theorem record_eq {seekLen : BitVec 64} (hold : old.length < i64Size) (hc : c.Behind new) :
    record old maxOutput mixLen copyLen seekLen c new oldpos =
      ((patchRecord old maxOutput mixLen copyLen seekLen.toInt c.rest new oldpos).mapError
        .error).map fun t => (⟨c.data, c.pos + (copyLen + mixLen)⟩, t.1, t.2.1) := by
  have hrest : c.rest.length = c.data.length - c.pos := List.length_drop
  obtain ⟨hinside, hsize, houtput⟩ := hc
  unfold record patchRecord
  rw [okOr_checkedAdd]
  cases htoRead : Deltaship.checkedAdd copyLen mixLen with
  | error err => rfl
  | ok toRead =>
      obtain ⟨-, rfl⟩ := checkedAdd_eq_ok.mp htoRead
      simp only [Except.mapError, bind, Except.bind, okOr_checkedAdd]
      cases hprojected : Deltaship.checkedAdd new.length (copyLen + mixLen) with
      | error err => rfl
      | ok projected =>
          obtain ⟨hfits, rfl⟩ := checkedAdd_eq_ok.mp hprojected
          rw [show c.read (copyLen + mixLen) = (c.rest.take (copyLen + mixLen),
            ⟨c.data, c.pos + (c.rest.take (copyLen + mixLen)).length⟩) from rfl]
          dsimp only
          by_cases hceiling : new.length + (copyLen + mixLen) ≤ maxOutput
          · have hextend : extend new (c.rest.take (copyLen + mixLen)) =
                .ok (new ++ c.rest.take (copyLen + mixLen)) := by
              refine if_pos ?_
              rw [List.length_take]
              omega
            simp only [if_neg (Nat.not_lt.mpr hceiling), hextend, Except.ensure_pos hceiling]
            by_cases hfull : (c.rest.take (copyLen + mixLen)).length = copyLen + mixLen
            · have hend : Deltaship.checkedAdd new.length mixLen = .ok (new.length + mixLen) :=
                checkedAdd_eq_ok.mpr ⟨by omega, rfl⟩
              simp only [if_neg (not_not.mpr hfull), Except.ensure_pos hfull, hend]
              rw [get_mix hfull, okOr_some]
              dsimp only
              cases hold' : Deltaship.checkedAdd oldpos mixLen with
              | error err => rfl
              | ok oldposEnd =>
                  obtain ⟨hlt, rfl⟩ := checkedAdd_eq_ok.mp hold'
                  dsimp only
                  by_cases hrange : oldpos + mixLen ≤ old.length
                  · have hget : get old oldpos (oldpos + mixLen) =
                        some ((old.drop oldpos).take mixLen) := by
                      refine (if_pos ⟨by omega, hrange⟩).trans ?_
                      rw [Nat.add_sub_cancel_left]
                    have hadd : add oldpos mixLen = .ok (oldpos + mixLen) := if_pos hlt
                    have hseek := @seekFrom_eq _ seekLen (Nat.lt_of_le_of_lt hrange hold)
                    rw [if_neg (Nat.not_lt.mpr hrange), hget, okOr_some, hadd]
                    dsimp only
                    rw [hseek, mix_eq hfull hrange, hfull]
                    cases Deltaship.seekFrom (oldpos + mixLen) seekLen.toInt <;> rfl
                  · have hget : get old oldpos (oldpos + mixLen) = none :=
                      if_neg fun h => hrange h.2
                    rw [if_pos (Nat.lt_of_not_le hrange), hget, okOr_none]
                    rfl
            · simp only [if_pos (Ne.intro hfull), Except.ensure_neg hfull]
              rfl
          · simp only [if_pos (Nat.lt_of_not_le hceiling), Except.ensure_neg hceiling]
            rfl

/-- A record leaves the cursor behind the output. -/
theorem behind_of_record {new' : Bytes} {pos' : Nat} {rest' : Bytes} {seek : Int}
    (hold : old.length < i64Size) (hmax : maxOutput < u64Size) (hc : c.Behind new)
    (h : patchRecord old maxOutput mixLen copyLen seek c.rest new oldpos =
      .ok (new', pos', rest')) :
    Cursor.Behind ⟨c.data, c.pos + (copyLen + mixLen)⟩ new' ∧
    Cursor.rest ⟨c.data, c.pos + (copyLen + mixLen)⟩ = rest' := by
  obtain ⟨-, hread, -, rfl, -, rfl⟩ := (patchRecord_eq_ok hold hmax).mp h
  have hrest : c.rest.length = c.data.length - c.pos := List.length_drop
  have hinside := hc.inside
  have houtput := hc.output
  refine ⟨⟨?_, hc.size, ?_⟩, ?_⟩
  · dsimp only
    omega
  · dsimp only
    simp only [List.length_append, List.length_zipWith, List.length_take, List.length_drop]
    omega
  · unfold Cursor.rest
    rw [List.drop_drop, Nat.add_comm copyLen mixLen]

end Records

/-! ## the loop -/

/- The machine of the patch format goes through the records with one position in the old file, one
in the patch and an output that grows. -/

section Loop

variable {old new : Bytes} {maxOutput oldpos : Nat} {c : Cursor}

/-- The three control words are the three slices of the header. -/
theorem slice_control {b : Bytes} {i : Nat} (hi : i + 8 ≤ 24) (hlong : 24 ≤ b.length) :
    slice (b.take 24) i (i + 8) = .ok ((b.drop i).take 8) ∧ ((b.drop i).take 8).length = 8 := by
  constructor
  · rw [slice_eq (by omega) (by rw [List.length_take]; omega), List.drop_take, List.take_take]
    congr 2
    omega
  · rw [List.length_take, List.length_drop]
    omega

/-- A round with a whole control word is its record. -/
theorem round_of_control (hlong : 24 ≤ c.rest.length) :
    ∃ seekLen : BitVec 64, seekLen.toInt = Deltaship.offtin ((c.rest.drop 16).take 8) ∧
      round old maxOutput c new oldpos =
        (record old maxOutput (fromLeBytes (c.rest.take 8)) (fromLeBytes ((c.rest.drop 8).take 8))
          seekLen ⟨c.data, c.pos + 24⟩ new oldpos).map some := by
  obtain ⟨hmix, hmixLen⟩ := slice_control (i := 0) (by omega) hlong
  obtain ⟨hcopy, hcopyLen⟩ := slice_control (i := 8) (by omega) hlong
  obtain ⟨hseek, hseekLen⟩ := slice_control (i := 16) (by omega) hlong
  obtain ⟨seekLen, hofftin, htoInt⟩ := offtin_eq hseekLen
  have hcontrol : readFullOrEof c (List.replicate 24 0) =
      .ok (.read, c.rest.take 24, ⟨c.data, c.pos + 24⟩) := by
    rw [readFullOrEof_eq c _ (by decide) (by decide), List.length_replicate,
      if_neg (fun h => by rw [h] at hlong; simp at hlong), if_neg (by omega)]
  refine ⟨seekLen, htoInt, ?_⟩
  unfold round
  rw [hcontrol]
  simp only [bind, Except.bind, hmix, word_eq hmixLen, hcopy, word_eq hcopyLen, hseek,
    word_eq hseekLen, u64ToUsize, hofftin, toNat_word hmixLen, toNat_word hcopyLen]
  rfl

/-- The loop ends as the one over lists of bytes does, if it may go on for more
rounds than there are bytes. -/
theorem boundedPatch_eq (hold : old.length < i64Size) (hmax : maxOutput < u64Size)
    (hc : c.Behind new) {rounds : Nat} (hrounds : c.rest.length < rounds) :
    boundedPatch old maxOutput rounds c new oldpos =
      (Deltaship.boundedPatch old maxOutput c.rest new oldpos).mapError .error := by
  induction rounds generalizing c new oldpos with
  | zero => omega
  | succ rounds ih =>
      rw [boundedPatch]
      by_cases hnil : c.rest = []
      · have heof : round old maxOutput c new oldpos = .ok none := by
          unfold round
          rw [readFullOrEof_eq c _ (by decide) (by decide), if_pos hnil]
          rfl
        rw [heof, hnil, boundedPatch_nil]
        rfl
      · by_cases hshort : c.rest.length < 24
        · have herror : round old maxOutput c new oldpos =
              .error (.error (.patchApplicationFailure "unexpected end of file")) := by
            unfold round
            rw [readFullOrEof_eq c _ (by decide) (by decide), if_neg hnil,
              if_pos (by rw [List.length_replicate]; exact hshort)]
            rfl
          rw [herror, boundedPatch_short hnil hshort]
          rfl
        · have hlong : 24 ≤ c.rest.length := Nat.le_of_not_lt hshort
          have hlength : c.rest.length = c.data.length - c.pos := List.length_drop
          have hfront : Cursor.Behind ⟨c.data, c.pos + 24⟩ new := by
            refine ⟨?_, hc.size, Nat.le_add_right_of_le hc.output⟩
            dsimp only
            omega
          have hrest : Cursor.rest ⟨c.data, c.pos + 24⟩ = c.rest.drop 24 := by
            unfold Cursor.rest
            rw [List.drop_drop]
          obtain ⟨seekLen, hseek, hround⟩ := @round_of_control old new maxOutput oldpos c hlong
          rw [hround, record_eq hold hfront, hrest, hseek, boundedPatch_of_record hlong]
          unfold frontRecord
          cases hrecord : patchRecord old maxOutput (fromLeBytes (c.rest.take 8))
              (fromLeBytes ((c.rest.drop 8).take 8)) (Deltaship.offtin ((c.rest.drop 16).take 8))
              (c.rest.drop 24) new oldpos with
          | error err => rfl
          | ok t =>
              obtain ⟨new', pos', rest'⟩ := t
              rw [← hrest] at hrecord
              obtain ⟨hbehind, hrest'⟩ := behind_of_record hold hmax hfront hrecord
              have hless := length_rest_of_patchRecord hrecord
              rw [hrest, List.length_drop] at hless
              have hloop := @ih _ pos' _ hbehind (by rw [hrest']; omega)
              rw [hrest'] at hloop
              exact hloop

end Loop

/-- A patch is applied as `apply_patch_bounded` says, without a panic and in
finitely many rounds. -/
theorem applyPatchBounded_eq {old patch : Bytes} {maxOutput rounds : Nat}
    (hold : old.length < i64Size) (hpatch : patch.length < i64Size) (hmax : maxOutput < u64Size)
    (hrounds : patch.length < rounds) :
    applyPatchBounded rounds old patch maxOutput =
      (Deltaship.applyPatchBounded old patch maxOutput).mapError .error :=
  boundedPatch_eq hold hmax ⟨Nat.zero_le _, hpatch, Nat.zero_le _⟩ hrounds

end Machine

/-- The patch loop returns `new` exactly if the patch is the bytes of records that
fit the old data, with an output of at most `max_output` bytes, and `new` is this
output; on all other inputs it returns an error, without a panic.  Slices are
shorter than `isize::MAX`, and more rounds than the patch has bytes are never
needed. -/
theorem patch_applier_correct {old patch : Bytes} {maxOutput rounds : Nat}
    (hold : old.length < i64Size) (hpatch : patch.length < i64Size) (hmax : maxOutput < u64Size)
    (hrounds : patch.length < rounds) :
    (∀ new, Machine.applyPatchBounded rounds old patch maxOutput = .ok new ↔
      ∃ records, patch = patchBytes records ∧ denote old 0 records = some new ∧
        outputSize records ≤ maxOutput) ∧
    ((¬ ∃ new records, patch = patchBytes records ∧ denote old 0 records = some new ∧
        outputSize records ≤ maxOutput) →
      ∃ err, Machine.applyPatchBounded rounds old patch maxOutput = .error (.error err)) := by
  have hok : ∀ new, (Deltaship.applyPatchBounded old patch maxOutput).mapError Machine.Stop.error =
      .ok new ↔ Deltaship.applyPatchBounded old patch maxOutput = .ok new := by
    intro new
    cases Deltaship.applyPatchBounded old patch maxOutput with
    | error err => exact ⟨fun h => by contradiction, fun h => by contradiction⟩
    | ok b => exact ⟨fun h => congrArg _ (Except.ok.inj h), fun h => congrArg _ (Except.ok.inj h)⟩
  rw [Machine.applyPatchBounded_eq hold hpatch hmax hrounds]
  refine ⟨fun new => (hok new).trans (applyPatchBounded_eq_ok hold hmax), fun hnone => ?_⟩
  cases h : Deltaship.applyPatchBounded old patch maxOutput with
  | error err => exact ⟨err, rfl⟩
  | ok new => exact absurd ⟨new, (applyPatchBounded_eq_ok hold hmax).mp h⟩ hnone

/-- A record that adds two bytes, copies one and goes back by one. -/
def sampleRecord : Record :=
  ⟨⟨[2, 0, 0, 0, 0, 0, 0, 0], rfl⟩, ⟨[1, 0, 0, 0, 0, 0, 0, 0], rfl⟩,
    ⟨[1, 0, 0, 0, 0, 0, 0, 0x80], rfl⟩, [1, 250, 7], rfl⟩

/-- It makes `[11, 14, 7]` out of `[10, 20]`. -/
theorem patch_applier_correct_sample :
    Machine.applyPatchBounded 28 [10, 20] sampleRecord.bytes 3 = .ok [11, 14, 7] :=
  ((patch_applier_correct (by decide) (by decide) (by decide) (by decide)).1 _).mpr
    ⟨[sampleRecord], by decide, by decide, by decide⟩

end Deltaship
