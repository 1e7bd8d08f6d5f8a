import Deltaship.Client.Authenticity
import Deltaship.Diff.Records
import Deltaship.Publisher.Generation

/-!
# Deltaship.Publisher.Delta

The publisher's diffs on the client: a diff that was generated from an old binary
to a new one makes the new binary out of the old one.

The two ends share the `bsdiff` and `zstd` crates only (`DeltaCrates`); the patch
loop of the client is the program's own.
-/

namespace Deltaship

open Prog Lexical

/-- What the two ends rely on: a diff is a patch between the binaries it was made
from, and a compressed diff is a zstd frame that is decoded to the diff. -/
structure DeltaCrates (X : PublisherCrates) (C : Crates) : Prop where
  denotes : ∀ old new raw, X.bsdiff old new = .ok raw → Denotes old raw new
  magic : ∀ raw compressed, X.zstdEncode raw = .ok compressed →
    zstdMagic.isPrefixOf compressed = true
  decodes : ∀ raw compressed, X.zstdEncode raw = .ok compressed →
    C.zstd.decoder compressed = .ok ⟨raw, none⟩

/-- The client's way from a diff it has downloaded to the new binary. -/
def rebuild (C : Crates) (old diff : Bytes) : Except DiffError Bytes := do
  let raw ← decodeDiff C diff
  applyPatch old raw

/-! ## the client's side -/

/-- A patch from the old to the new binary is applied, if the new binary is not too
large. -/
theorem applyPatch_of_denotes {old raw new : Bytes} (h : Denotes old raw new)
    (hold : old.length < i64Size) (hnew : new.length ≤ maxOutputSize) :
    applyPatch old raw = .ok new := by
  obtain ⟨records, hraw, hdenote⟩ := h
  refine (applyPatchBounded_eq_ok hold (by decide)).mpr ⟨records, hraw, hdenote, ?_⟩
  rw [← length_of_denote hdenote]
  exact hnew

/-- A frame that is decoded to something not too large is decompressed to it. -/
theorem decompressDiff_of_decoder {Z : ZstdCrate} {compressed raw : Bytes}
    (h : Z.decoder compressed = .ok ⟨raw, none⟩) (hsize : raw.length ≤ maxDecompressedSize) :
    decompressDiff Z compressed = .ok raw :=
  (decompressDiffBounded_of_lt h (by decide)).trans (if_pos hsize)

/-- A diff of the publisher is undone by the client. -/
theorem rebuild_of_diffOf {X : PublisherCrates} {C : Crates} (hcrates : DeltaCrates X C)
    {s : Project} {fromVersion toVersion : DbVersion} {old new raw compressed : Bytes}
    (h : DiffOf X s fromVersion toVersion old new raw compressed)
    (hnew : new.length ≤ maxOutputSize) (hraw : raw.length ≤ maxDecompressedSize) :
    rebuild C old compressed = .ok new := by
  have hdecode : decodeDiff C compressed = .ok raw := by
    unfold decodeDiff
    rw [if_pos (hcrates.magic raw compressed h.encoded)]
    exact decompressDiff_of_decoder (hcrates.decodes raw compressed h.encoded) hraw
  show (decodeDiff C compressed >>= applyPatch old) = _
  rw [hdecode]
  exact applyPatch_of_denotes (hcrates.denotes old new raw h.diff) h.sourceSize hnew

/-! ## the job -/

/-- A completed job that was not there before is the job of a finished diff. -/
theorem made_of_completed {X : PublisherCrates} {e : PublisherEnv} {k : Nat} {s s' : Project}
    {fromVersion toVersion : DbVersion} {outputDir : List Char}
    (hrun : (exec (generateSingleDiff X e k fromVersion toVersion outputDir) s).2 = s')
    {job : DbDiffJob} (hjob : job ∈ s'.db.diffJobs) (hnew : job ∉ s.db.diffJobs)
    (hcompleted : job.status = .completed) :
    ∃ old new raw compressed, DiffOf X s fromVersion toVersion old new raw compressed ∧
      job.diffPath = some (String.ofList (diffFilePath outputDir fromVersion toVersion)) ∧
      job.diffSizeBytes = some compressed.length ∧
      job.diffHashBlake3 = some (X.crypto.blake3 compressed).val ∧
      s'.content (diffFilePath outputDir fromVersion toVersion) = some compressed := by
  have heffect := generateSingleDiff_effect X e k s fromVersion toVersion outputDir
  dsimp only at heffect
  rw [hrun] at heffect
  rcases heffect with rfl | ⟨⟨job', hadded, -, -, -, hstatus⟩, -⟩ | ⟨hmade⟩
  · contradiction
  · rcases (hadded.jobs job).mp hjob with hold | rfl
    · contradiction
    · contradiction
  · obtain ⟨old, new, raw, compressed, job', hdiff, hadded, -, -, -, -, hpath, hsize, hhash,
      hfiles⟩ := hmade
    rcases (hadded.jobs job).mp hjob with hold | rfl
    · contradiction
    · refine ⟨old, new, raw, compressed, hdiff, hpath, hsize, hhash, ?_⟩
      unfold Project.content
      rw [Project.resolve_congr hadded.root, hfiles]
      exact Files.read_write_self _ _ _

/-- A diff that the publisher has completed makes the new binary out of the old one
on the client, has the hash and the size of its row, and is smaller than the new
binary. -/
theorem completed_diff_rebuilds (X : PublisherCrates) (C : Crates) (hcrates : DeltaCrates X C)
    (e : PublisherEnv) (k : Nat) (s : Project) (fromVersion toVersion : DbVersion)
    (outputDir : List Char) (old new : Bytes)
    (hold : s.content fromVersion.filePath.toList = some old)
    (hnew : s.content toVersion.filePath.toList = some new)
    (hnewSize : new.length ≤ maxOutputSize)
    (hrawSize : ∀ raw, X.bsdiff old new = .ok raw → raw.length ≤ maxDecompressedSize)
    (s' : Project)
    (hrun : (exec (generateSingleDiff X e k fromVersion toVersion outputDir) s).2 = s')
    (job : DbDiffJob) (hjob : job ∈ s'.db.diffJobs) (hadded : job ∉ s.db.diffJobs)
    (hcompleted : job.status = .completed) :
    ∃ path diff, job.diffPath = some path ∧ s'.content path.toList = some diff ∧
      rebuild C old diff = .ok new ∧ job.diffHashBlake3 = some (X.crypto.blake3 diff).val ∧
      job.diffSizeBytes = some diff.length ∧ diff.length < new.length := by
  obtain ⟨old', new', raw, compressed, hdiff, hpath, hsize, hhash, hcontent⟩ :=
    made_of_completed hrun hjob hadded hcompleted
  obtain rfl : old' = old := Option.some.inj (hdiff.source.symm.trans hold)
  obtain rfl : new' = new := Option.some.inj (hdiff.target.symm.trans hnew)
  refine ⟨_, compressed, hpath, ?_, ?_, hhash, hsize, hdiff.smaller⟩
  · rw [String.toList_ofList]
    exact hcontent
  · exact rebuild_of_diffOf hcrates hdiff hnewSize (hrawSize raw hdiff.diff)

/-! ## a sample project -/

/-- The patch from the empty binary to `n` bytes of seven. -/
def samplePatchRecord (n : UInt8) : Record where
  mixWord := ⟨List.replicate 8 0, rfl⟩
  copyWord := ⟨[n, 0, 0, 0, 0, 0, 0, 0], rfl⟩
  seekWord := ⟨List.replicate 8 0, rfl⟩
  data := List.replicate n.toNat 7
  length_data := by simp [fromLeBytes, List.replicate]

/-- `zstd::encode_all` of the patch to 24 bytes. -/
def sampleDiff24 : Bytes :=
  [40, 181, 47, 253, 0, 88, 117, 0, 0, 40, 0, 0, 24, 0, 7, 3, 16, 0, 181, 144, 24, 195, 2]

/-- `zstd::encode_all` of the patch to 32 bytes. -/
def sampleDiff32 : Bytes :=
  [40, 181, 47, 253, 0, 88, 117, 0, 0, 40, 0, 0, 32, 0, 7, 3, 16, 0, 141, 144, 24, 195, 2]

/-- The diffs that the sample publisher makes. -/
def sampleDiffs : List (UInt8 × Bytes) := [(24, sampleDiff24), (32, sampleDiff32)]

/-- The hashes of the sample publisher's binaries and diffs. -/
def sampleDiffHashes : List (Bytes × Hash × ByteVec 32) :=
  [(List.replicate 24 7,
    ⟨[29, 101, 20, 207, 229, 54, 68, 189, 240, 156, 40, 237, 167, 165, 33, 144, 252, 219, 160,
      61, 238, 136, 84, 53, 98, 64, 224, 88, 126, 73, 231, 167], rfl⟩,
    ⟨[187, 122, 14, 40, 72, 133, 189, 196, 36, 219, 10, 178, 213, 146, 119, 162, 248, 39, 53,
      192, 242, 6, 110, 12, 229, 94, 115, 37, 37, 46, 118, 217], rfl⟩),
   (sampleDiff24,
    ⟨[221, 90, 203, 41, 34, 218, 93, 79, 223, 88, 107, 7, 81, 152, 235, 229, 29, 31, 157, 5, 6,
      204, 181, 37, 192, 208, 65, 239, 163, 75, 63, 201], rfl⟩,
    ⟨[77, 154, 130, 127, 104, 36, 30, 161, 65, 221, 23, 157, 245, 220, 126, 30, 223, 97, 125,
      105, 208, 169, 29, 187, 113, 221, 98, 0, 125, 71, 132, 157], rfl⟩),
   (List.replicate 32 7,
    ⟨[235, 175, 133, 180, 101, 160, 157, 226, 27, 57, 143, 177, 18, 193, 80, 15, 44, 190, 101,
      140, 66, 243, 121, 224, 192, 241, 141, 36, 184, 25, 246, 55], rfl⟩,
    ⟨[75, 176, 111, 142, 78, 58, 119, 21, 210, 1, 213, 115, 208, 170, 66, 55, 98, 229, 93, 171,
      214, 26, 44, 2, 39, 143, 165, 108, 198, 210, 148, 224], rfl⟩),
   (sampleDiff32,
    ⟨[218, 201, 162, 93, 98, 52, 167, 236, 46, 75, 183, 119, 111, 104, 62, 114, 45, 5, 9, 71,
      191, 197, 114, 105, 183, 77, 1, 75, 243, 27, 66, 168], rfl⟩,
    ⟨[47, 249, 14, 251, 197, 240, 229, 190, 250, 163, 120, 218, 28, 191, 13, 222, 110, 121, 10,
      86, 68, 80, 72, 0, 84, 25, 189, 190, 196, 185, 60, 252], rfl⟩)]

/-- The sample publisher's signature of a message that it signs. -/
def sampleSign (m : Bytes) : Signature :=
  ((sampleSigned.find? fun p => p.1 == m).map (·.2)).getD ⟨List.replicate 64 0, rfl⟩

/-- The publisher's crates, on the sample binaries. -/
def samplePublisherCrates : PublisherCrates where
  semver := sampleSemver
  crypto := { sampleCrypto with
    blake3 := fun b =>
      ((sampleDiffHashes.find? fun h => h.1 == b).map (·.2.1)).getD (sampleBlake3 b)
    sha256 := fun b =>
      ((sampleDiffHashes.find? fun h => h.1 == b).map (·.2.2)).getD (sampleCrypto.sha256 b)
    verifyStrict := fun k m s => k == sampleKey && s == sampleSign m }
  bsdiff old new := Except.ofOption "not a sample" <|
    (sampleDiffs.find? fun d => old == [] && new == List.replicate d.1.toNat 7).map fun d =>
      patchBytes [samplePatchRecord d.1]
  zstdEncode raw := Except.ofOption "not a sample" <|
    (sampleDiffs.find? fun d => raw == patchBytes [samplePatchRecord d.1]).map (·.2)
  parseRfc3339 _ := none

/-- The crates of a client of the sample publisher. -/
def samplePatchCrates : Crates := { sampleCrates with
  zstd := ⟨fun compressed => Except.ofOption "Unknown frame descriptor" <|
    (sampleDiffs.find? fun d => compressed == d.2).map fun d =>
      ⟨patchBytes [samplePatchRecord d.1], none⟩⟩ }

/-- The sample patch makes its bytes of nothing. -/
theorem denote_samplePatchRecord (n : UInt8) :
    denote [] 0 [samplePatchRecord n] = some (List.replicate n.toNat 7) := by
  simp [denote, samplePatchRecord, Record.Fits, Record.mixLen,
    Record.dest, Record.seek, Record.output,
    fromLeBytes, offtin, List.replicate, i64Size]

/-- The sample crates make diffs that the client's crates read. -/
theorem sampleDeltaCrates : DeltaCrates samplePublisherCrates samplePatchCrates where
  denotes old new raw h := by
    obtain ⟨d, hd, rfl⟩ := Option.map_eq_some_iff.mp (Except.ofOption_eq_ok.mp h)
    have hpair := List.find?_some hd
    simp only [Bool.and_eq_true, beq_iff_eq] at hpair
    obtain ⟨rfl, rfl⟩ := hpair
    exact ⟨_, rfl, denote_samplePatchRecord d.1⟩
  magic raw compressed h := by
    obtain ⟨d, hd, rfl⟩ := Option.map_eq_some_iff.mp (Except.ofOption_eq_ok.mp h)
    have hmagic : ∀ d ∈ sampleDiffs, zstdMagic.isPrefixOf d.2 = true := by decide
    exact hmagic d (List.mem_of_find?_eq_some hd)
  decodes raw compressed h := by
    obtain ⟨d, hd, rfl⟩ := Option.map_eq_some_iff.mp (Except.ofOption_eq_ok.mp h)
    have hdecode : ∀ d ∈ sampleDiffs,
        samplePatchCrates.zstd.decoder d.2 =
          .ok ⟨patchBytes [samplePatchRecord d.1], none⟩ := by decide
    have hraw : raw = patchBytes [samplePatchRecord d.1] := by simpa using List.find?_some hd
    rw [hdecode d (List.mem_of_find?_eq_some hd), hraw]

/-- The sample publisher's commands run without failures. -/
def samplePublisherEnv : PublisherEnv where
  faults _ := none
  uuid
    | .binary => "b"
    | .version => "v"
    | .job k => s!"j{k}"
    | .mergedBinary id | .mergedVersion id => s!"{id}-imported"
  now := 0
  clock := 0
  timestamp := "1970-01-01T00:00:00+00:00"

/-- A version of the sample binary. -/
def sampleDbVersion (versionString filePath : String) (data : Bytes) : DbVersion where
  versionId := filePath
  binaryId := "b"
  versionString := versionString
  filePath := filePath
  fileSizeBytes := data.length
  fileHashBlake3 := (samplePublisherCrates.crypto.blake3 data).val
  fileHashSha256 := (samplePublisherCrates.crypto.sha256 data).val
  signatureEd25519 := none
  signatureTimestamp := none
  createdAt := 0

/-- A project with two versions, the empty one and 24 bytes. -/
def sampleProject : Project where
  root := .plain "/p".toList
  db :=
    { PublisherDb.empty with
      binaries := ⟨[⟨"b", "app", "linux-x86_64", "/p/v1"⟩], by decide⟩
      versions := ⟨[sampleDbVersion "1.0.0" "v1" [],
        sampleDbVersion "1.1.0" "v2" (List.replicate 24 7)], by decide⟩ }
  files := Files.ofList [(normalize "/p/v1".toList, []),
    (normalize "/p/v2".toList, List.replicate 24 7)]

/-- The job of the sample diff. -/
def sampleJob : DbDiffJob where
  jobId := "j0"
  fromVersionId := "v1"
  toVersionId := "v2"
  diffAlgorithm := "bsdiff"
  status := .completed
  diffPath := some ".deltaship/diffs/app/1.0.0-to-1.1.0.patch"
  diffSizeBytes := some 23
  diffHashBlake3 := some (samplePublisherCrates.crypto.blake3 sampleDiff24).val

/-- The project with the sample diff. -/
def sampleDiffed : Project :=
  { sampleProject with
    db := { sampleProject.db with diffJobs := ⟨[sampleJob], by decide⟩ }
    files := sampleProject.files.write
      (normalize "/p/.deltaship/diffs/app/1.0.0-to-1.1.0.patch".toList) sampleDiff24 }

/-- The run that makes the sample diff. -/
theorem sampleDiffed_run :
    (exec (generateSingleDiff samplePublisherCrates samplePublisherEnv 0
      (sampleDbVersion "1.0.0" "v1" []) (sampleDbVersion "1.1.0" "v2" (List.replicate 24 7))
      (binaryDiffDir "app")) sampleProject).2 = sampleDiffed := by
  decide

/-- The sample diff makes 24 bytes out of nothing. -/
theorem completed_diff_rebuilds_sample :
    ∃ path diff, sampleJob.diffPath = some path ∧ sampleDiffed.content path.toList = some diff ∧
      rebuild samplePatchCrates [] diff = .ok (List.replicate 24 7) ∧
      sampleJob.diffHashBlake3 = some (samplePublisherCrates.crypto.blake3 diff).val ∧
      sampleJob.diffSizeBytes = some diff.length ∧
      diff.length < (List.replicate 24 (7 : UInt8)).length := by
  refine completed_diff_rebuilds samplePublisherCrates samplePatchCrates sampleDeltaCrates
    samplePublisherEnv 0 sampleProject (sampleDbVersion "1.0.0" "v1" [])
    (sampleDbVersion "1.1.0" "v2" (List.replicate 24 7)) (binaryDiffDir "app") [] _
    (by decide) (by decide) (by decide) ?_ sampleDiffed sampleDiffed_run sampleJob
    (List.mem_singleton_self _) List.not_mem_nil rfl
  intro raw h
  have hraw : samplePublisherCrates.bsdiff [] (List.replicate 24 7) =
      .ok (patchBytes [samplePatchRecord 24]) := by decide
  rw [← Except.ok.inj (hraw.symm.trans h)]
  decide

end Deltaship
