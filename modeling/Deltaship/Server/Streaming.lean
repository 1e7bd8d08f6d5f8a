import Deltaship.Server.Uploads
import Deltaship.Server.Listing

/-!
# Deltaship.Server.Streaming

A field while it is streamed: its bytes are hashed as they arrive and counted in a `u64`.

`streamFieldToTemp` keeps the bytes and hashes them at the end.  Here they are not kept:
`Hasher.streamFieldToTemp` has the hasher, the counter and the file that chunks are appended to,
and does the same (`Hasher.exec_streamFieldToTemp`).
-/

namespace Deltaship

open Prog

/-- `blake3::Hasher`. -/
structure Hasher where
  State : Type
  new : State
  update : State → Bytes → State
  finalize : State → Hash

/-- `u64::saturating_add`. -/
def saturatingAdd (m n : Nat) : Nat := min (m + n) maxU64

/-- The counter of the bytes gives the right answer: the limit is not the largest `u64`, or no
more bytes come than a `u64` counts. -/
def Counts (maxSize size : Nat) : Prop := maxSize < maxU64 ∨ size ≤ maxU64

instance (maxSize size : Nat) : Decidable (Counts maxSize size) :=
  inferInstanceAs (Decidable (_ ∨ _))

namespace Hasher

variable (H : Hasher)

/-- The hasher after the chunks of a field. -/
def feed (chunks : List Bytes) : H.State := chunks.foldl H.update H.new

/-- Hashing piece by piece is hashing the whole. -/
def Incremental (blake3 : Bytes → Hash) : Prop :=
  ∀ chunks, H.finalize (H.feed chunks) = blake3 chunks.flatten

/-- A hasher that keeps what it is fed with. -/
def keeping (blake3 : Bytes → Hash) : Hasher := ⟨Bytes, [], (· ++ ·), blake3⟩

/-- A hasher that keeps everything obeys the law. -/
theorem incremental_keeping (blake3 : Bytes → Hash) : (keeping blake3).Incremental blake3 := by
  intro chunks
  have hfeed : ∀ seen : Bytes, chunks.foldl (· ++ ·) seen = seen ++ chunks.flatten := by
    induction chunks with
    | nil => simp
    | cons chunk rest ih =>
        intro seen
        rw [List.foldl_cons, ih, List.flatten_cons, List.append_assoc]
  exact congrArg blake3 (hfeed [])

variable (e : ServerEnv)

/-- The chunk loop of `stream_field_to_temp`, with the bytes counted so far and the hasher. -/
def streamChunks (k : Nat) (temp : UploadPath) (maxSize : Nat) (field : Field) :
    List Bytes → Nat → Nat → H.State → Handler (Nat × H.State)
  | [], _, total, hasher =>
    if field.broken then bail e temp (badRequest "Invalid request")
    else
      match e.faults (.uploadFlush k) with
      | none => pure (total, hasher)
      | some _ => bail e temp serverError
  | chunk :: rest, i, total, hasher =>
    if saturatingAdd total chunk.length > maxSize then
      bail e temp ⟨413, s!"Field '{field.name}' exceeds size limit"⟩
    else
      match e.faults (.uploadWrite k i) with
      | some _ => bail e temp serverError
      | none => do
          modify fun s =>
            { s with
              uploads := s.uploads.write temp ((s.uploads.read temp).getD [] ++ chunk) }
          streamChunks k temp maxSize field rest (i + 1) (saturatingAdd total chunk.length)
            (H.update hasher chunk)

/-- `stream_field_to_temp`, for the `k`-th field of a form. -/
def streamFieldToTemp (dir : Dir) (k : Nat) (maxSize : Nat) (field : Field) :
    Handler StreamedField := do
  adapt (fun _ => serverError) (createDirs e (.uploadDir k) dir)
  let temp : UploadPath := ⟨dir, field.name, e.uniqSuffix k⟩
  adapt (fun _ => serverError) (tryIo e (.uploadCreate k))
  modify fun s => { s with uploads := s.uploads.write temp [] }
  let (total, hasher) ← streamChunks H e k temp maxSize field field.chunks 0 0 H.new
  pure ⟨temp, H.finalize hasher, total⟩

end Hasher

/-! ## the counter and the hasher -/

section Counts

variable {maxSize m n : Nat}

/-- The check of the limit is that of the exact count. -/
theorem saturatingAdd_gt_iff (h : Counts maxSize (m + n)) :
    saturatingAdd m n > maxSize ↔ m + n > maxSize := by
  unfold saturatingAdd
  rcases h with h | h <;> omega

/-- A count that passes the check is exact. -/
theorem saturatingAdd_of_le (h : Counts maxSize (m + n)) (hle : m + n ≤ maxSize) :
    saturatingAdd m n = m + n := by
  unfold saturatingAdd
  rcases h with h | h <;> omega

theorem Counts.of_le {size : Nat} (h : Counts maxSize size) (hle : n ≤ size) :
    Counts maxSize n := by
  unfold Counts at *
  omega

end Counts

section Exec

variable {H : Hasher} {X : ServerCrates} {e : ServerEnv} {s : Store} {temp : UploadPath}

/-- After a failure nothing more is done. -/
theorem exec_bail_bind {α β : Type} {err : HttpError} {f : α → Handler β} :
    exec (bail e temp err >>= f) s = (.error err, (exec (cleanup e temp) s).2) := by
  unfold bail cleanup
  rw [exec_bind, exec_bind]
  cases e.faults .uploadCleanup <;> rfl

/-- The loop, behind the chunks that were written. -/
theorem Hasher.exec_streamChunks (hH : H.Incremental X.crypto.blake3) {k maxSize : Nat}
    {field : Field} (seen chunks : List Bytes) (i : Nat)
    (hread : s.uploads.read temp = some seen.flatten) (hfits : seen.flatten.length ≤ maxSize)
    (hcount : Counts maxSize (seen.flatten.length + chunks.flatten.length)) :
    exec (H.streamChunks e k temp maxSize field chunks i seen.flatten.length (H.feed seen) >>=
        fun r => pure ⟨temp, H.finalize r.2, r.1⟩) s =
      exec (Deltaship.streamChunks e k temp maxSize field chunks i seen.flatten >>=
        fun content => (pure ⟨temp, X.crypto.blake3 content, content.length⟩ :
          Handler StreamedField)) s := by
  induction chunks generalizing i seen s with
  | nil =>
      unfold Hasher.streamChunks Deltaship.streamChunks
      split
      · rw [exec_bail_bind, exec_bail_bind]
      · cases e.faults (.uploadFlush k) with
        | none =>
            dsimp only
            rw [pure_bind, pure_bind, hH]
        | some n =>
            dsimp only
            rw [exec_bail_bind, exec_bail_bind]
  | cons chunk rest ih =>
      rw [List.flatten_cons, List.length_append, ← Nat.add_assoc] at hcount
      have hnext : Counts maxSize (seen.flatten.length + chunk.length) :=
        hcount.of_le (Nat.le_add_right _ _)
      unfold Hasher.streamChunks Deltaship.streamChunks
      by_cases hlarge : seen.flatten.length + chunk.length > maxSize
      · rw [if_pos hlarge, if_pos ((saturatingAdd_gt_iff hnext).mpr hlarge), exec_bail_bind,
          exec_bail_bind]
      · rw [if_neg hlarge, if_neg (mt (saturatingAdd_gt_iff hnext).mp hlarge),
          saturatingAdd_of_le hnext (by omega)]
        cases e.faults (.uploadWrite k i) with
        | some n =>
            dsimp only
            rw [exec_bail_bind, exec_bail_bind]
        | none =>
          dsimp only
          rw [bind_assoc, bind_assoc,
            exec_bind_ok (exec_modify _ s), exec_bind_ok (exec_modify _ s),
            hread, Option.getD_some]
          have hflat : (seen ++ [chunk]).flatten = seen.flatten ++ chunk := by simp
          have hfeed : H.feed (seen ++ [chunk]) = H.update (H.feed seen) chunk := by
            simp [Hasher.feed]
          have hrest := ih (s := { s with uploads := s.uploads.write temp (seen.flatten ++ chunk) })
            (seen ++ [chunk]) (i + 1) (by rw [hflat, Files.read_write_self])
            (by rw [hflat, List.length_append]; omega)
            (by rwa [hflat, List.length_append])
          rwa [hfeed, hflat, List.length_append] at hrest

/-- A field that is hashed as it arrives is streamed as one that is hashed at the end. -/
theorem Hasher.exec_streamFieldToTemp (hH : H.Incremental X.crypto.blake3) {dir : Dir}
    {k maxSize : Nat} {field : Field} (hcount : Counts maxSize field.content.length) :
    exec (H.streamFieldToTemp e dir k maxSize field) s =
      exec (Deltaship.streamFieldToTemp X e dir k maxSize field) s := by
  unfold Hasher.streamFieldToTemp Deltaship.streamFieldToTemp
  rw [exec_bind, exec_bind]
  split
  · next s₁ _ =>
      rw [exec_bind, exec_bind]
      split
      · next s₂ _ =>
          rw [exec_bind_ok (exec_modify _ s₂), exec_bind_ok (exec_modify _ s₂)]
          exact Hasher.exec_streamChunks hH [] field.chunks 0 (Files.read_write_self _ _ _)
            (Nat.zero_le _) (by simpa [Field.content] using hcount)
      · rfl
  · rfl

end Exec

/-! ## what is stored -/

section Stored

variable {H : Hasher} {X : ServerCrates} {e : ServerEnv}

/-- Without failures of the host, what is streamed is what ends and fits. -/
theorem streams_iff (hio : ∀ site, e.faults site = none) {k maxSize : Nat} {field : Field} :
    Streams e k maxSize field ↔ field.broken = false ∧ field.content.length ≤ maxSize := by
  unfold Streams Opens Arrives
  simp [hio, Field.content, and_comm]

/-- However a field is cut into chunks, it is stored exactly if it ends and fits, with the size
and the hash of its bytes, and otherwise no temporary file is left of it. -/
theorem stream_field_stored (hH : H.Incremental X.crypto.blake3)
    (hio : ∀ site, e.faults site = none) {dir : Dir} {k maxSize : Nat} {field : Field}
    (hcount : Counts maxSize field.content.length) (s : Store) :
    ((∃ streamed, (exec (H.streamFieldToTemp e dir k maxSize field) s).1 = .ok streamed) ↔
        field.broken = false ∧ field.content.length ≤ maxSize) ∧
      (∀ streamed s', exec (H.streamFieldToTemp e dir k maxSize field) s = (.ok streamed, s') →
        s'.uploads.read (uploadPath e dir k field) = some field.content ∧
          streamed = ⟨uploadPath e dir k field, X.crypto.blake3 field.content,
            field.content.length⟩) ∧
      (∀ err s', exec (H.streamFieldToTemp e dir k maxSize field) s = (.error err, s') →
        s'.uploads.read (uploadPath e dir k field) = none) := by
  rw [Hasher.exec_streamFieldToTemp hH hcount]
  have hleft := wp_and (@wp_streamFieldToTemp_uploads e s X dir k maxSize field)
    wp_streamFieldToTemp
  generalize Deltaship.streamFieldToTemp X e dir k maxSize field = m at hleft
  refine ⟨?_, fun streamed s' hrun => ?_, fun err s' hrun => ?_⟩
  · rw [← streams_iff hio (k := k)]
    cases hrun : exec m s with
    | mk r s' =>
        cases r with
        | ok streamed => simp [(wp_exec_ok hleft hrun).1.1]
        | error err => simp [(wp_exec_error hleft hrun).1.1]
  · obtain ⟨⟨-, rfl, -⟩, -, hstored⟩ := wp_exec_ok hleft hrun
    exact ⟨hstored.stored, rfl⟩
  · obtain ⟨⟨-, huploads⟩, -⟩ := wp_exec_error hleft hrun
    have hopens : Opens e k := ⟨hio _, hio _⟩
    have hgone := (huploads.uploads (uploadPath e dir k field)).not.mpr
      (by simp [hopens, Cleans, hio])
    simpa [Store.HasUpload] using hgone

/-- A field in two chunks that is as long as the limit, and one that is longer. -/
theorem stream_field_stored_sample :
    (∃ streamed, (exec ((Hasher.keeping sampleCrypto.blake3).streamFieldToTemp sampleServerEnv
        (.app "app") 0 3 ⟨"binary", [[1], [2, 3]], false⟩) Store.empty).1 = .ok streamed) ∧
      ¬ ∃ streamed, (exec ((Hasher.keeping sampleCrypto.blake3).streamFieldToTemp sampleServerEnv
        (.app "app") 0 2 ⟨"binary", [[1], [2, 3]], false⟩) Store.empty).1 = .ok streamed := by
  have hlaw := Hasher.incremental_keeping sampleServer.crypto.blake3
  have hio : ∀ site, sampleServerEnv.faults site = none := fun _ => rfl
  constructor
  · exact (stream_field_stored hlaw hio (.inl (by decide)) Store.empty).1.mpr (by decide)
  · exact mt (stream_field_stored hlaw hio (.inl (by decide)) Store.empty).1.mp (by decide)

end Stored

end Deltaship
