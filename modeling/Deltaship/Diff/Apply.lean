import Deltaship.Crypto.Hashing

/-!
# Deltaship.Diff.Apply

`deltaship-diff::apply`: the bsdiff patch loop with a hard ceiling on the size
of the output, for untrusted patches.

A patch is a run of records.  Each starts with a 24-byte control word -- the
length of the mixed part, the length of the copied part and a sign-magnitude
seek -- followed by as many data bytes as the two lengths say.  The loop adds
the mixed bytes to the old data at the current position and appends the copied
bytes as they are.

Lengths are 64-bit unsigned (`usize` on a 64-bit target) and the position is
moved by checked signed arithmetic, so the bounds are spelled out.
-/

namespace Deltaship

/-- The errors of `deltaship-diff`. -/
inductive DiffError where
  | invalidDiff
  | sizeLimitExceeded (limit : Nat)
  | patchApplicationFailure (msg : String)
  | ioError (msg : String)
deriving DecidableEq, Repr

/-- `Display for DiffError`. -/
def DiffError.text : DiffError → String
  | .invalidDiff => "invalid diff format"
  | .sizeLimitExceeded limit => s!"size limit exceeded: output would exceed {limit} bytes"
  | .patchApplicationFailure msg => s!"failed to apply patch: {msg}"
  | .ioError msg => s!"I/O error: {msg}"

/-- `MAX_OUTPUT_SIZE`. -/
def maxOutputSize : Nat := 1024 * 1024 * 1024

/-- `u64::from_le_bytes`. -/
def fromLeBytes : Bytes → Nat
  | [] => 0
  | b :: bs => b.toNat + 256 * fromLeBytes bs

/-- The number of values of a `u64`. -/
def u64Size : Nat := 0x10000000000000000

/-- The number of non-negative values of an `i64`. -/
def i64Size : Nat := 0x8000000000000000

/-- `checked_add` on `usize`. -/
def checkedAdd (a b : Nat) : Except DiffError Nat :=
  if a + b < u64Size then .ok (a + b) else .error .invalidDiff

/-- `offtin`: the control word's sign-magnitude offset. -/
def offtin (buf : Bytes) : Int :=
  let y := fromLeBytes buf
  if y < i64Size then (y : Int) else -((y - i64Size : Nat) : Int)

/-- `(oldpos as i64).checked_add(seek)`, converted back to `usize`. -/
def seekFrom (oldpos : Nat) (seek : Int) : Except DiffError Nat :=
  let start : Int := if oldpos < i64Size then (oldpos : Int) else (oldpos : Int) - u64Size
  let dest := start + seek
  if -(i64Size : Int) ≤ dest ∧ dest < i64Size ∧ 0 ≤ dest then
    .ok dest.toNat else .error .invalidDiff

/-- What one record does once its control word is known: the output after it,
the old position after it and the rest of the patch. -/
def patchRecord (old : Bytes) (maxOutput mixLen copyLen : Nat) (seek : Int)
    (rest new : Bytes) (oldpos : Nat) : Except DiffError (Bytes × Nat × Bytes) := do
  let toRead ← checkedAdd copyLen mixLen
  let projected ← checkedAdd new.length toRead
  if projected > maxOutput then
    throw (.sizeLimitExceeded maxOutput)
  if (rest.take toRead).length ≠ toRead then
    throw (.patchApplicationFailure "unexpected end of patch data")
  let oldposEnd ← checkedAdd oldpos mixLen
  if oldposEnd > old.length then
    throw .invalidDiff
  let data := rest.take toRead
  let mixed := List.zipWith (· + ·) (data.take mixLen) ((old.drop oldpos).take mixLen)
  let oldpos' ← seekFrom (oldpos + mixLen) seek
  pure (new ++ (mixed ++ data.drop mixLen), oldpos', rest.drop toRead)

/-- A record never gives bytes back to the patch. -/
theorem length_rest_of_patchRecord {old : Bytes} {maxOutput mixLen copyLen : Nat} {seek : Int}
    {rest new : Bytes} {oldpos : Nat} {new' : Bytes} {oldpos' : Nat} {rest' : Bytes}
    (h : patchRecord old maxOutput mixLen copyLen seek rest new oldpos =
      .ok (new', oldpos', rest')) : rest'.length ≤ rest.length := by
  simp only [patchRecord, bind, Except.bind, pure, Except.pure, throw, throwThe,
    MonadExceptOf.throw] at h
  repeat' split at h
  all_goals first
    | contradiction
    | skip
  simp only [Except.ok.injEq, Prod.mk.injEq] at h
  rw [← h.2.2, List.length_drop]
  omega

/-- `bounded_patch`: one record after the other until the patch is used up. -/
def boundedPatch (old : Bytes) (maxOutput : Nat) (patch new : Bytes) (oldpos : Nat) :
    Except DiffError Bytes :=
  match _hp : patch with
  | [] => .ok new
  | _ :: _ =>
    if patch.length < 24 then
      .error (.patchApplicationFailure "unexpected end of file")
    else
      match _hr : patchRecord old maxOutput (fromLeBytes (patch.take 8))
          (fromLeBytes ((patch.drop 8).take 8)) (offtin ((patch.drop 16).take 8))
          (patch.drop 24) new oldpos with
      | .error e => .error e
      | .ok (new', oldpos', rest) => boundedPatch old maxOutput rest new' oldpos'
termination_by patch.length
decreasing_by
  have hrest := length_rest_of_patchRecord _hr
  rw [List.length_drop] at hrest
  subst _hp
  omega

/-- `apply_patch_bounded`. -/
def applyPatchBounded (old patch : Bytes) (maxOutput : Nat) : Except DiffError Bytes :=
  boundedPatch old maxOutput patch [] 0

/-- `apply_patch`. -/
def applyPatch (old patch : Bytes) : Except DiffError Bytes :=
  applyPatchBounded old patch maxOutputSize

end Deltaship
