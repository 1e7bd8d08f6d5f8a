import Deltaship.Diff.Apply

/-!
# Deltaship.Diff.Compress

`deltaship-diff::compress`: decompression of an untrusted diff, cut off at a
ceiling.  The `zstd` decoder is third-party code; it enters as the stream of
bytes it delivers before it ends or fails.
-/

namespace Deltaship

/-- What a `zstd::Decoder` delivers: bytes, then the end of the stream or an
error. -/
structure ZstdStream where
  bytes : Bytes
  error : Option String
deriving DecidableEq, Repr

/-- The part of the `zstd` crate the program reads with. -/
structure ZstdCrate where
  /-- `zstd::Decoder::new`: the stream, or the error of a bad header. -/
  decoder : Bytes → Except String ZstdStream

/-- `MAX_DECOMPRESSED_SIZE`. -/
def maxDecompressedSize : Nat := 1024 * 1024 * 1024

/-- `decoder.take(n).read_to_end`: an error behind the first `n` bytes is never
reached. -/
def ZstdStream.takeToEnd (z : ZstdStream) (n : Nat) : Except DiffError Bytes :=
  if n ≤ z.bytes.length then .ok (z.bytes.take n)
  else match z.error with
    | none => .ok z.bytes
    | some e => .error (.ioError e)

/-- `decompress_diff_bounded`; the `+ 1` is on `u64`. -/
def decompressDiffBounded (Z : ZstdCrate) (compressed : Bytes) (maxSize : Nat) :
    Except DiffError Bytes :=
  match Z.decoder compressed with
  | .error e => .error (.ioError e)
  | .ok stream => do
      let out ← stream.takeToEnd ((maxSize + 1) % u64Size)
      if out.length > maxSize then throw (.sizeLimitExceeded maxSize) else pure out

/-- `decompress_diff`. -/
def decompressDiff (Z : ZstdCrate) (compressed : Bytes) : Except DiffError Bytes :=
  decompressDiffBounded Z compressed maxDecompressedSize

/-! ## the ceiling -/

section Ceiling

variable {Z : ZstdCrate} {compressed d : Bytes} {maxSize : Nat}

/-- A stream that ends is read up to the limit. -/
@[simp] theorem takeToEnd_of_ends (n : Nat) :
    (ZstdStream.mk d none).takeToEnd n = .ok (d.take n) := by
  unfold ZstdStream.takeToEnd
  split
  · rfl
  · next hshort => rw [List.take_of_length_le (by dsimp only at hshort ⊢; omega)]

/-- What is read is cut one byte behind the limit, and refused if it is longer. -/
theorem decompressDiffBounded_of_decoder (h : Z.decoder compressed = .ok ⟨d, none⟩) :
    decompressDiffBounded Z compressed maxSize =
      if (d.take ((maxSize + 1) % u64Size)).length ≤ maxSize then
        .ok (d.take ((maxSize + 1) % u64Size))
      else .error (.sizeLimitExceeded maxSize) := by
  simp only [decompressDiffBounded, h, takeToEnd_of_ends, bind, Except.bind, gt_iff_lt,
    ← Nat.not_le, ite_not]
  rfl

/-- Where the limit has a successor, a stream is returned whole or refused. -/
theorem decompressDiffBounded_of_lt (h : Z.decoder compressed = .ok ⟨d, none⟩)
    (hmax : maxSize + 1 < u64Size) :
    decompressDiffBounded Z compressed maxSize =
      if d.length ≤ maxSize then .ok d else .error (.sizeLimitExceeded maxSize) := by
  rw [decompressDiffBounded_of_decoder h, Nat.mod_eq_of_lt hmax]
  by_cases hd : d.length ≤ maxSize
  · rw [List.take_of_length_le (by omega)]
  · rw [if_neg hd, if_neg (by rw [List.length_take]; omega)]

/-- At the largest limit the successor is zero, and nothing is read. -/
theorem decompressDiffBounded_largest (h : Z.decoder compressed = .ok ⟨d, none⟩)
    (hmax : maxSize + 1 = u64Size) : decompressDiffBounded Z compressed maxSize = .ok [] := by
  simp [decompressDiffBounded_of_decoder h, hmax]

/-- A frame is decompressed to what it encodes, or refused for the limit, exactly if the limit
is not the largest `u64` or there is nothing in the frame. -/
theorem decompressDiffBounded_iff (hmax : maxSize < u64Size)
    (h : Z.decoder compressed = .ok ⟨d, none⟩) :
    decompressDiffBounded Z compressed maxSize =
        (if d.length ≤ maxSize then .ok d else .error (.sizeLimitExceeded maxSize)) ↔
      maxSize + 1 < u64Size ∨ d = [] := by
  by_cases hlt : maxSize + 1 < u64Size
  · simp [decompressDiffBounded_of_lt h hlt, hlt]
  · rw [decompressDiffBounded_largest h (by omega)]
    simp only [hlt, false_or]
    constructor
    · intro heq
      split at heq
      · exact (Except.ok.inj heq).symm
      · contradiction
    · rintro rfl
      simp

/-- A frame with one byte, and a decoder that knows it. -/
def sampleFrame : Bytes := [0x28, 0xB5, 0x2F, 0xFD, 0x20, 0x01, 0x09, 0x00, 0x00, 0x2A]

def sampleZstd : ZstdCrate :=
  ⟨fun c => if c = sampleFrame then .ok ⟨[0x2A], none⟩ else .error "Unknown frame descriptor"⟩

/-- One byte is below a limit of one. -/
theorem decompressDiffBounded_one : decompressDiffBounded sampleZstd sampleFrame 1 = .ok [0x2A] :=
  (@decompressDiffBounded_iff sampleZstd sampleFrame [0x2A] 1 (by decide) (by decide)).mpr
    (.inl (by decide))

/-- At the largest limit the byte is lost. -/
theorem decompressDiffBounded_shortened :
    ¬ ∀ (Z : ZstdCrate) (compressed d : Bytes) (maxSize : Nat), maxSize < u64Size →
      Z.decoder compressed = .ok ⟨d, none⟩ →
      decompressDiffBounded Z compressed maxSize =
        if d.length ≤ maxSize then .ok d else .error (.sizeLimitExceeded maxSize) := by
  intro h
  have hsample := h sampleZstd sampleFrame [0x2A] 0xFFFFFFFFFFFFFFFF (by decide) (by decide)
  exact absurd hsample (by decide)

end Ceiling

end Deltaship
