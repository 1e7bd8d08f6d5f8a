import Deltaship.Publisher.DiffStore

/-!
# Deltaship.Publisher.Metadata

The publisher's rows over whole runs: a signature is one of the hash of its row, and
a completed diff leads from the hash of one row to the hash of another, as long as
no repair replaces a hash that these were made for.

Both are properties of the database only, so the files may change between commands
as they like.
-/

namespace Deltaship

open Prog Lexical

/-- A diff, decoded and applied to the old bytes, yields the new ones; the client's
code says so up to its ceilings. -/
def Yields (C : Crates) (old diff new : Bytes) : Prop :=
  ∃ raw, C.zstd.decoder diff = .ok ⟨raw, none⟩ ∧ Denotes old raw new ∧
    (raw.length ≤ maxDecompressedSize → new.length ≤ maxOutputSize →
      rebuild C old diff = .ok new)

/-- Two byte strings are the same if their hashes are. -/
def NoCollision (X : PublisherCrates) (a b : Bytes) : Prop :=
  X.crypto.blake3 a = X.crypto.blake3 b → a = b

/-- The diff with the hash of a job, applied to the bytes with one hash, yields
bytes with the other. -/
def DiffRebuilds (X : PublisherCrates) (C : Crates) (job : DbDiffJob) (fromHash toHash : Bytes) :
    Prop :=
  ∃ old diff new, (X.crypto.blake3 old).val = fromHash ∧
    job.diffHashBlake3 = some (X.crypto.blake3 diff).val ∧ (X.crypto.blake3 new).val = toHash ∧
    ∀ old' diff', (X.crypto.blake3 old').val = fromHash →
      job.diffHashBlake3 = some (X.crypto.blake3 diff').val →
      NoCollision X old' old → NoCollision X diff' diff → Yields C old' diff' new

/-- The signature of a row is one of its hash and its version. -/
def SignatureFits (X : PublisherCrates) (K : SigningKey X.crypto) (v : DbVersion) : Prop :=
  ∀ sig, v.signatureEd25519 = some sig → ∃ signature : Signature, signature.val = sig ∧
    K.verifyingKey.verify (signingPayload v.fileHashBlake3 v.versionString) signature = true

/-- A completed diff leads from the hash of its first row to the hash of its second. -/
def DiffFits (X : PublisherCrates) (C : Crates) (db : PublisherDb) (job : DbDiffJob) : Prop :=
  ∃ fromVersion ∈ db.versions, ∃ toVersion ∈ db.versions,
    fromVersion.versionId = job.fromVersionId ∧ toVersion.versionId = job.toVersionId ∧
    DiffRebuilds X C job fromVersion.fileHashBlake3 toVersion.fileHashBlake3

/-- The metadata is coherent. -/
structure MetadataCoherent (X : PublisherCrates) (C : Crates) (K : SigningKey X.crypto)
    (db : PublisherDb) :
    Prop where
  signatures : ∀ v ∈ db.versions, SignatureFits X K v
  diffs : ∀ job ∈ db.diffJobs, job.status = .completed → DiffFits X C db job

/-- Something was made for the hash of a row. -/
def InUse (db : PublisherDb) (v : DbVersion) : Prop :=
  v.signatureEd25519.isSome = true ∨ ∃ job ∈ db.diffJobs, job.status = .completed ∧
    (job.fromVersionId = v.versionId ∨ job.toVersionId = v.versionId)

/-- The command is no repair of a version whose hash is in use. -/
def PublisherCommand.RepairSafe (X : PublisherCrates) (s : Project) : PublisherCommand → Prop
  | verify _ _ name version fix _ _ =>
      fix = true → ∀ p ∈ Verify.versionsToVerify s.db name version,
        Mismatched X s p.1 → ¬ InUse s.db p.1
  | _ => True

/-- The signatures of a key are valid for it. -/
def SigningKey.Correct {C : CryptoCrates} (K : SigningKey C) : Prop :=
  ∀ m, K.verifyingKey.verify m (K.sign m) = true

/-! ## one diff -/

section Steps

variable {X : PublisherCrates} {C : Crates} {K : SigningKey X.crypto} {s s' : Project}

/-- The invariant of a run: coherent rows with hashes of the right size. -/
structure Sound (X : PublisherCrates) (C : Crates) (K : SigningKey X.crypto) (db : PublisherDb) :
    Prop extends MetadataCoherent X C K db where
  hashSizes : ∀ v ∈ db.versions, v.fileHashBlake3.length = 32

/-- A diff between two binaries makes the second one of the first. -/
theorem yields_of_diffOf (hcrates : DeltaCrates X C) {fromVersion toVersion : DbVersion}
    {old new raw compressed : Bytes}
    (h : DiffOf X s fromVersion toVersion old new raw compressed) : Yields C old compressed new :=
  ⟨raw, hcrates.decodes raw compressed h.encoded, hcrates.denotes old new raw h.diff,
    fun hraw hnew => rebuild_of_diffOf hcrates h hnew hraw⟩

/-- The job of a diff that was just made fits. -/
theorem diffRebuilds_of_diffOf (hcrates : DeltaCrates X C) {fromVersion toVersion : DbVersion}
    {old new raw compressed : Bytes} {job : DbDiffJob}
    (h : DiffOf X s fromVersion toVersion old new raw compressed)
    (hfrom : fromVersion.fileHashBlake3.length = 32) (hto : toVersion.fileHashBlake3.length = 32)
    (hhash : job.diffHashBlake3 = some (X.crypto.blake3 compressed).val) :
    DiffRebuilds X C job fromVersion.fileHashBlake3 toVersion.fileHashBlake3 := by
  have hold := h.sourceHash (List.ne_nil_of_length_pos (by omega))
  have hnew := h.targetHash (List.ne_nil_of_length_pos (by omega))
  refine ⟨old, compressed, new, hold, hhash, hnew, fun old' diff' hold' hdiff' hno hno' => ?_⟩
  obtain rfl : old' = old := hno (Subtype.ext (hold'.trans hold.symm))
  obtain rfl : diff' = compressed := hno' (Subtype.ext (Option.some.inj (hdiff'.symm.trans hhash)))
  exact yields_of_diffOf hcrates h

/-- The generation of a diff between two registered versions. -/
theorem Sound.generate (h : Sound X C K s.db) (hcrates : DeltaCrates X C) {e : PublisherEnv}
    {k : Nat} {fromVersion toVersion : DbVersion} {outputDir : List Char}
    (hfrom : fromVersion ∈ s.db.versions) (hto : toVersion ∈ s.db.versions)
    (hrun : (exec (generateSingleDiff X e k fromVersion toVersion outputDir) s).2 = s') :
    Sound X C K s'.db ∧ s'.db.versions = s.db.versions := by
  have heffect := generateSingleDiff_effect X e k s fromVersion toVersion outputDir
  dsimp only at heffect
  rw [hrun] at heffect
  rcases heffect with rfl | ⟨⟨job, hadded, -, -, -, hstatus⟩, -⟩ | ⟨hmade⟩
  · exact ⟨h, rfl⟩
  · refine ⟨⟨⟨hadded.versions ▸ h.signatures, fun j hj hcompleted => ?_⟩,
      hadded.versions ▸ h.hashSizes⟩, hadded.versions⟩
    rcases (hadded.jobs j).mp hj with hold | rfl
    · unfold DiffFits
      rw [hadded.versions]
      exact h.diffs j hold hcompleted
    · contradiction
  · obtain ⟨old, new, raw, compressed, job, hdiff, hadded, -, hfromId, htoId, -, -, -, hhash, -⟩ :=
      hmade
    refine ⟨⟨⟨hadded.versions ▸ h.signatures, fun j hj hcompleted => ?_⟩,
      hadded.versions ▸ h.hashSizes⟩, hadded.versions⟩
    unfold DiffFits
    rw [hadded.versions]
    rcases (hadded.jobs j).mp hj with hold | rfl
    · exact h.diffs j hold hcompleted
    · exact ⟨fromVersion, hfrom, toVersion, hto, hfromId.symm, htoId.symm,
        diffRebuilds_of_diffOf hcrates hdiff (h.hashSizes _ hfrom) (h.hashSizes _ hto) hhash⟩

/-- The diffs that are generated leave the metadata sound. -/
theorem Sound.generateAll (h : Sound X C K s.db) (hcrates : DeltaCrates X C) {e : PublisherEnv}
    {k : Nat} {newVersion : DbVersion} {outputDir : List Char} {olds : List DbVersion}
    (holds : ∀ old ∈ olds, old ∈ s.db.versions) (hnew : newVersion ∈ s.db.versions) :
    Sound X C K (exec (Deltaship.generateAll X e newVersion outputDir olds k) s).2.db := by
  induction olds generalizing s k with
  | nil => exact h
  | cons old rest ih =>
      rw [snd_exec_generateAll_cons]
      obtain ⟨hsound, hversions⟩ := h.generate hcrates (holds old List.mem_cons_self) hnew rfl
      refine ih hsound (fun old' hold' => ?_) (hversions ▸ hnew)
      rw [hversions]
      exact holds old' (List.mem_cons_of_mem _ hold')

/-! ## commands -/

/-- Rows may be added. -/
theorem DiffFits.mono {db db' : PublisherDb} {job : DbDiffJob} (h : DiffFits X C db job)
    (hversions : ∀ v ∈ db.versions, v ∈ db'.versions) : DiffFits X C db' job := by
  obtain ⟨fromVersion, hfrom, toVersion, hto, hfits⟩ := h
  exact ⟨fromVersion, hversions _ hfrom, toVersion, hversions _ hto, hfits⟩

/-- The previous versions are rows of the database. -/
theorem mem_versions_of_mem_previousVersions {db : PublisherDb} {binaryId versionId : String}
    {v : DbVersion} (h : v ∈ previousVersions db binaryId versionId) : v ∈ db.versions := by
  have hmem := List.mem_of_mem_filter (List.mem_of_mem_take h)
  unfold PublisherDb.listVersions at hmem
  rw [List.mem_insertionSort] at hmem
  exact List.mem_of_mem_filter hmem

theorem Sound.registered (h : Sound X C K s.db) {e : PublisherEnv} {name version platform : String}
    {row : DbVersion} (hrow : VersionRegistered X e s name version platform s' row) :
    Sound X C K s'.db := by
  refine ⟨⟨fun v hv => ?_, fun job hjob hcompleted => ?_⟩, fun v hv => ?_⟩
  · rcases (hrow.versions v).mp hv with hold | rfl
    · exact h.signatures v hold
    · intro sig hsig
      rw [hrow.unsigned] at hsig
      contradiction
  · rw [hrow.diffJobs] at hjob
    exact (h.diffs job hjob hcompleted).mono fun v hv => (hrow.versions v).mpr (.inl hv)
  · rcases (hrow.versions v).mp hv with hold | rfl
    · exact h.hashSizes v hold
    · exact hrow.hashSize

theorem Sound.register (h : Sound X C K s.db) (hcrates : DeltaCrates X C) {e : PublisherEnv}
    {name version file platform : String} {noDiff : Bool} :
    Sound X C K (exec (Register.run X e name version file platform noDiff) s).2.db := by
  rcases register_effect X e s name version file platform noDiff with hbinary | ⟨s₁, row, hrow, hend⟩
  · refine ⟨⟨?_, ?_⟩, ?_⟩
    · rw [hbinary.versions]
      exact h.signatures
    · rw [hbinary.diffJobs]
      exact fun job hjob hcompleted => (h.diffs job hjob hcompleted).mono fun v hv =>
        hbinary.versions ▸ hv
    · rw [hbinary.versions]
      exact h.hashSizes
  · have hsound := h.registered hrow
    rcases hend with hend | ⟨-, hend⟩
    · rwa [hend]
    · rw [hend]
      refine hsound.generateAll hcrates (fun old hold => ?_) ((hrow.versions row).mpr (.inr rfl))
      exact (hrow.versions old).mpr (.inl (mem_versions_of_mem_previousVersions hold))

theorem Sound.diff (h : Sound X C K s.db) (hcrates : DeltaCrates X C) {e : PublisherEnv}
    {name platform fromString toString : String} {output : Option String} :
    Sound X C K (exec (Diff.run X e name platform fromString toString output) s).2.db := by
  rcases diff_effect X e s name platform fromString toString output with
    hsame | ⟨binary, fromVersion, toVersion, -, hfrom, hto, hrun⟩
  · rwa [hsame]
  · rw [hrun]
    exact (h.generate hcrates (Table.mem_of_find hfrom).1 (Table.mem_of_find hto).1 rfl).1

/-- A signature is stored in the row that it was made for. -/
theorem Sound.sign (h : Sound X C K s.db) (hkey : K.Correct) (heffect : SignEffect X K s s') :
    Sound X C K s'.db := by
  rcases heffect with rfl | ⟨v₀, hv₀, timestamp, db, hdb, rfl⟩
  · exact h
  · obtain ⟨-, hjobs, hrows⟩ := updateVersion_eq_ok hdb
    refine ⟨⟨fun v' hv' => ?_, fun job hjob hcompleted => ?_⟩, fun v' hv' => ?_⟩
    · obtain ⟨v, hv, rfl⟩ := (hrows v').mp hv'
      split
      · next hid =>
          obtain rfl : v = v₀ := Table.eq_of_key_eq hv hv₀ hid
          intro sig hsig
          exact ⟨_, Option.some.inj hsig, hkey _⟩
      · exact h.signatures v hv
    · rw [show db.diffJobs = s.db.diffJobs from hjobs] at hjob
      obtain ⟨fromVersion, hfrom, toVersion, hto, hfromId, htoId, hfits⟩ :=
        h.diffs job hjob hcompleted
      refine ⟨_, (hrows _).mpr ⟨fromVersion, hfrom, rfl⟩,
        _, (hrows _).mpr ⟨toVersion, hto, rfl⟩, ?_⟩
      split <;> split <;> exact ⟨hfromId, htoId, hfits⟩
    · obtain ⟨v, hv, rfl⟩ := (hrows v').mp hv'
      split
      · exact h.hashSizes v hv
      · exact h.hashSizes v hv

/-- A repair that spares the hashes in use. -/
theorem Sound.rehashed (h : Sound X C K s.db) {repairable : DbVersion → Prop}
    (hsafe : ∀ v, repairable v → ¬ InUse s.db v) (heffect : Rehashed repairable s s') :
    Sound X C K s'.db := by
  have hrow : ∀ v ∈ s.db.versions, ∃ v' ∈ s'.db.versions, v'.versionId = v.versionId ∧
      (v'.fileHashBlake3 = v.fileHashBlake3 ∨ repairable v) := by
    intro v hv
    obtain ⟨v', hv', hid⟩ := heffect.kept v hv
    obtain ⟨v₀, hv₀, hid₀, -, -, hhash⟩ := heffect.versions v' hv'
    obtain rfl : v = v₀ := Table.eq_of_key_eq hv hv₀ (hid.symm.trans hid₀)
    exact ⟨v', hv', hid, hhash.imp_right And.left⟩
  refine ⟨⟨fun v' hv' => ?_, fun job hjob hcompleted => ?_⟩, fun v' hv' => ?_⟩
  · obtain ⟨v, hv, -, hstring, hsig, hhash⟩ := heffect.versions v' hv'
    intro sig hsome
    rw [hsig] at hsome
    rcases hhash with hhash | ⟨hrepair, -⟩
    · rw [hhash, hstring]
      exact h.signatures v hv sig hsome
    · exact absurd (.inl (by rw [hsome]; rfl)) (hsafe v hrepair)
  · rw [heffect.diffJobs] at hjob
    obtain ⟨fromVersion, hfrom, toVersion, hto, hfromId, htoId, hfits⟩ :=
      h.diffs job hjob hcompleted
    obtain ⟨from', hfrom', hid, hhash⟩ := hrow fromVersion hfrom
    obtain ⟨to', hto', hid', hhash'⟩ := hrow toVersion hto
    have hfromHash := hhash.resolve_right fun hrepair =>
      hsafe _ hrepair (.inr ⟨job, hjob, hcompleted, .inl hfromId.symm⟩)
    have htoHash := hhash'.resolve_right fun hrepair =>
      hsafe _ hrepair (.inr ⟨job, hjob, hcompleted, .inr htoId.symm⟩)
    refine ⟨from', hfrom', to', hto', hid.trans hfromId, hid'.trans htoId, ?_⟩
    rw [hfromHash, htoHash]
    exact hfits
  · obtain ⟨v, hv, -, -, -, hhash⟩ := heffect.versions v' hv'
    rcases hhash with hhash | ⟨-, hsize⟩
    · rw [hhash]
      exact h.hashSizes v hv
    · exact hsize

/-- One command keeps the metadata coherent. -/
theorem Sound.next (h : Sound X C K s.db) (hcrates : DeltaCrates X C) (hkey : K.Correct)
    {c : PublisherCommand} (hsafe : c.RepairSafe X s) : Sound X C K (c.next X K s).db := by
  cases c with
  | register e name version file platform noDiff => exact h.register hcrates
  | diff e name platform fromString toString output => exact h.diff hcrates
  | sign e versionId name version => exact h.sign hkey (sign_effect X K e s versionId name version)
  | verify e publicKey name version fix json answer =>
      have heffect := verify_effect X e s publicKey name version fix json answer
      rw [← snd_exec_bind_pure _ fun _ => ()] at heffect
      refine h.rehashed (fun v hrepair => ?_) heffect
      obtain ⟨hfix, hmismatch, b, hlisted⟩ := hrepair
      exact hsafe hfix (v, b) hlisted hmismatch
  | edit path content =>
      cases content with
      | none => exact h
      | some b => exact h

end Steps

/-- In every run without a repair of a version whose hash is in use, whatever else
happens to the files, the metadata is coherent. -/
theorem metadata_coherent (X : PublisherCrates) (C : Crates) (hcrates : DeltaCrates X C)
    (K : SigningKey X.crypto) (hkey : K.Correct) (root : Root) (files : Files Path Bytes)
    (s : Project)
    (hrun : Runs.Reaches (PublisherCommand.next X K) (fun s c => c.RepairSafe X s)
      ⟨root, PublisherDb.empty, files⟩ s) : MetadataCoherent X C K s.db := by
  have hsound : Sound X C K s.db := by
    refine hrun.invariant (I := fun s => Sound X C K s.db)
      ⟨⟨fun v hv => ?_, fun job hjob => ?_⟩, fun v hv => ?_⟩
      fun s c h hsafe => h.next hcrates hkey hsafe
    · exact absurd hv Table.not_mem_empty
    · exact absurd hjob Table.not_mem_empty
    · exact absurd hv Table.not_mem_empty
  exact hsound.toMetadataCoherent

/-! ## a repair after signing -/

/-- What the sample key signs is verified by it. -/
theorem sampleSigningKey_correct : sampleSigningKey.Correct := fun m => by
  simp [sampleSigningKey, VerifyingKey.verify, samplePublisherCrates]

/-- A project with one file and without versions. -/
def sampleUnregistered : Project :=
  ⟨.plain "/p".toList, PublisherDb.empty, Files.ofList [(normalize "/p/v1".toList, [1])]⟩

/-- The file's version is registered and signed, and the file is changed. -/
def sampleSignedRun : List PublisherCommand :=
  [sampleRegistration "1.0.0" "v1" "linux-x86_64",
   .sign samplePublisherEnv none (some "app") (some "1.0.0"),
   .edit "v1".toList (some [2])]

/-- The hashes of the sample binary are repaired. -/
def sampleRepair : PublisherCommand :=
  .verify samplePublisherEnv none "app" none true true ""

/-- Without the repair, the signature fits. -/
theorem metadata_coherent_sample :
    MetadataCoherent samplePublisherCrates samplePatchCrates sampleSigningKey
      (Runs.final (PublisherCommand.next samplePublisherCrates sampleSigningKey) sampleUnregistered
        sampleSignedRun).db :=
  metadata_coherent samplePublisherCrates samplePatchCrates sampleDeltaCrates sampleSigningKey
    sampleSigningKey_correct sampleUnregistered.root sampleUnregistered.files _
    ((((Runs.Reaches.refl _).tail
      (show (sampleRegistration "1.0.0" "v1" "linux-x86_64").RepairSafe _ _ from trivial)).tail
      (show (PublisherCommand.sign samplePublisherEnv none (some "app") (some "1.0.0")).RepairSafe _ _
        from trivial)).tail
      (show (PublisherCommand.edit "v1".toList (some [2])).RepairSafe _ _ from trivial))

/-- The row after the repair: the hash of the new file, and the signature of the old
one. -/
theorem sampleRepair_row :
    (Runs.final (PublisherCommand.next samplePublisherCrates sampleSigningKey) sampleUnregistered
      (sampleSignedRun ++ [sampleRepair])).db.getVersion "v1" =
      some { sampleDbVersion "1.0.0" "v1" [2] with
        binaryId := "linux-x86_64"
        signatureEd25519 := some sampleSig1.val
        signatureTimestamp := some "1970-01-01T00:00:00+00:00" } := by
  decide

/-- The property fails after a repair of a signed version. -/
theorem repair_breaks_signature :
    ¬ ∀ (X : PublisherCrates) (C : Crates), DeltaCrates X C → ∀ K : SigningKey X.crypto, K.Correct →
      ∀ (root : Root) (files : Files Path Bytes) (run : List PublisherCommand),
      MetadataCoherent X C K (Runs.final (PublisherCommand.next X K)
        ⟨root, PublisherDb.empty, files⟩ run).db := by
  intro h
  have hcoherent := h samplePublisherCrates samplePatchCrates sampleDeltaCrates sampleSigningKey
    sampleSigningKey_correct sampleUnregistered.root sampleUnregistered.files
    (sampleSignedRun ++ [sampleRepair])
  obtain ⟨signature, hsig, hverify⟩ :=
    hcoherent.signatures _ (Table.mem_of_find sampleRepair_row).1 sampleSig1.val rfl
  obtain rfl : signature = sampleSig1 := Subtype.ext hsig
  exact absurd hverify (by decide)

end Deltaship
