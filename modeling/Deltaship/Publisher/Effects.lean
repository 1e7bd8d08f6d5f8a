import Deltaship.Publisher.Commands
import Deltaship.Publisher.Generation

/-!
# Deltaship.Publisher.Effects

What each command can do to a project, whatever its outcome: `register_effect`,
`diff_effect`, `sign_effect` and `verify_effect`.

The invariants of whole runs are derived from these, together with the effect of
the generation of a single diff.
-/

namespace Deltaship

open Prog Lexical

/-! ## the host -/

section Host

variable {e : PublisherEnv} {s : Project} {site : PublisherSite} {path : String}

/-- The size of a file is asked for without a change. -/
theorem wp_fileSize {Q : Nat → Project → Prop} {E : String → Project → Prop}
    (hok : ∀ n, Q n s) (hfail : ∀ err, E err s) : wp (fileSize e site path) Q E s := by
  unfold fileSize
  rw [wp_bind]
  refine wp_hostOp ?_ hfail
  rw [wp_bind, wp_get]
  split
  · exact hfail _
  · exact hok _

/-- A file is read as it is, or the command fails without a change. -/
theorem wp_readFileOrFail {Q : Bytes → Project → Prop} {E : String → Project → Prop}
    (hok : ∀ b, s.content path.toList = some b → Q b s) (hfail : ∀ err, E err s) :
    wp (readFileOrFail e site path) Q E s := by
  unfold readFileOrFail
  rw [wp_bind]
  exact wp_readAll (fun b hb _ => hok b hb) hfail

/-- A result that is known is passed on, or its error. -/
theorem wp_ofExcept_ok {α : Type} {r : Except String α} {Q : α → Project → Prop}
    {E : String → Project → Prop} (hok : ∀ a, r = .ok a → Q a s) (hfail : ∀ err, E err s) :
    wp (Prog.ofExcept r : PublisherM α) Q E s := by
  cases r with
  | ok a => exact hok a rfl
  | error err => exact hfail err

end Host

/-! ## register -/

/- A registration makes the binary if it is missing, inserts the version, and generates the diffs
from earlier versions unless it was told not to. Each stage has its own effect, and the command
stops behind any of them. -/

/-- The id of the binary that a version is registered for. -/
def PublisherDb.binaryIdFor (db : PublisherDb) (e : PublisherEnv) (name platform : String) :
    String :=
  ((db.getBinaryByName name platform).map (·.binaryId)).getD (e.uuid .binary)

/-- Only the binaries changed. -/
structure BinariesOnly (s s' : Project) : Prop where
  root : s'.root = s.root
  files : s'.files = s.files
  versions : s'.db.versions = s.db.versions
  diffJobs : s'.db.diffJobs = s.db.diffJobs

/-- A version was registered, and no diff has been generated yet. -/
structure VersionRegistered (X : PublisherCrates) (e : PublisherEnv) (s : Project)
    (name version platform : String) (s₁ : Project) (row : DbVersion) : Prop where
  root : s₁.root = s.root
  files : s₁.files = s.files
  diffJobs : s₁.db.diffJobs = s.db.diffJobs
  versions : ∀ v, v ∈ s₁.db.versions ↔ v ∈ s.db.versions ∨ v = row
  fresh : ∀ v ∈ s.db.versions, v.versionId ≠ row.versionId
  unsigned : row.signatureEd25519 = none
  hashSize : row.fileHashBlake3.length = 32
  normalized : normalizeVersionString X.semver version = .ok row.versionString
  previous : previousVersions s₁.db (s.db.binaryIdFor e name platform) row.versionId =
    previousVersions s.db (s.db.binaryIdFor e name platform) (e.uuid .version)

/-- Where nothing was done, no binary was added. -/
theorem BinariesOnly.refl (s : Project) : BinariesOnly s s := ⟨rfl, rfl, rfl, rfl⟩

section Register

variable {X : PublisherCrates} {e : PublisherEnv} {s s₁ : Project}
  {name version file platform : String}

/-- A new version is not one of the previous versions of a binary. -/
theorem previousVersions_insert {db db' : PublisherDb} {row : DbVersion} {id : String}
    (h : db.versions.insert row = some db'.versions) :
    previousVersions db' id row.versionId = previousVersions db id row.versionId := by
  unfold previousVersions PublisherDb.listVersions
  rw [List.filter_insertionSort, List.filter_insertionSort, Table.rows_of_insert h]
  simp

/-- Getting or creating the binary changes the binaries only. -/
theorem wp_binaryFor {Q : DbBinary → Project → Prop} {E : String → Project → Prop}
    (hok : ∀ b s', BinariesOnly s s' → b.binaryId = s.db.binaryIdFor e name platform → Q b s')
    (hfail : ∀ err, E err s) : wp (Register.binaryFor e name platform file) Q E s := by
  unfold Register.binaryFor
  rw [wp_bind]
  refine wp_dbRead ?_ hfail
  split
  · next b hb => exact wp_pure.mpr (hok b s (.refl s) (by simp [PublisherDb.binaryIdFor, hb]))
  · next hnone =>
      rw [wp_bind, wp_get]
      refine wp_dbInsert (fun b db hinsert => ?_) hfail
      obtain ⟨canonicalPath, binaries, -, rfl, -, -, rfl⟩ := PublisherDb.insertBinary_eq_ok hinsert
      exact hok _ _ ⟨rfl, rfl, rfl, rfl⟩ (by simp [PublisherDb.binaryIdFor, hnone])

/-- A hash that is accepted has the length asked for. -/
theorem length_of_validateHashSize {hash : Bytes} {size : Nat} {hashName : String} {u : Unit}
    (h : validateHashSize hash size hashName = .ok u) : hash.length = size := by
  unfold validateHashSize at h
  split at h
  · contradiction
  · next hsize => exact not_not.mp hsize

/-- The row of a version that was inserted. -/
theorem registered_of_insertVersion {new : NewVersion} {row : DbVersion} {db : PublisherDb}
    (hbinary : BinariesOnly s s₁)
    (hinsert : PublisherDb.insertVersion X.semver (e.uuid .version) e.now
      { new with versionString := version } s₁.db = .ok (row, db)) :
    VersionRegistered X e s name version platform { s₁ with db := db } row := by
  obtain ⟨normalized, versions, hnormalized, rfl, hsize, hversions, rfl⟩ :=
    PublisherDb.insertVersion_eq_ok hinsert
  rw [hbinary.versions] at hversions
  refine ⟨hbinary.root, hbinary.files, hbinary.diffJobs, fun v => Table.mem_insert hversions,
    fun v hv heq => ?_, rfl, ?_, hnormalized, previousVersions_insert hversions⟩
  · rw [Table.insert_eq_none ⟨v, hv, heq⟩] at hversions
    contradiction
  · exact length_of_validateHashSize hsize

/-- A version that is inserted was read from the file, with its hashes and its size. -/
theorem wp_insertVersion {binary : DbBinary} {Q : DbVersion → Project → Prop}
    {E : String → Project → Prop} (hbinary : BinariesOnly s s₁)
    (hok : ∀ row s', VersionRegistered X e s name version platform s' row → Q row s')
    (hfail : ∀ err, E err s₁) : wp (Register.insertVersion X e binary version file) Q E s₁ := by
  unfold Register.insertVersion
  rw [wp_bind]
  refine wp_fileSize (fun size => ?_) hfail
  rw [wp_bind]
  refine wp_readFileOrFail (fun data _ => ?_) hfail
  rw [wp_bind]
  refine wp_readFileOrFail (fun data' _ => ?_) hfail
  refine wp_dbInsert (fun row db hinsert => hok row _ ?_) hfail
  exact @registered_of_insertVersion _ _ _ _ _ _ _ ⟨binary.binaryId, version, file, size,
    (X.crypto.blake3 data).val, (X.crypto.sha256 data').val⟩ _ _ hbinary hinsert

/-- The loop goes on where a diff has left off, whatever its outcome. -/
theorem snd_exec_generateAll_cons (newVersion old : DbVersion) (outputDir : List Char)
    (rest : List DbVersion) (k : Nat) :
    (exec (generateAll X e newVersion outputDir (old :: rest) k) s).2 =
      (exec (generateAll X e newVersion outputDir rest (k + 1))
        (exec (generateSingleDiff X e k old newVersion outputDir) s).2).2 := by
  have hattempt := exec_attempt (generateSingleDiff X e k old newVersion outputDir) s
  rw [generateAll, exec_bind_ok hattempt, exec_bind]
  rcases exec (generateAll X e newVersion outputDir rest (k + 1)) _ with ⟨results, s'⟩
  cases results with
  | error err => rfl
  | ok results =>
      dsimp only
      split
      · rfl
      · rfl

/-- The generation of the diffs to a new version runs the loop or does nothing. -/
theorem generateDiffForVersion_effect (X : PublisherCrates) (e : PublisherEnv) (s : Project)
    (binaryName binaryId : String) (newVersion : DbVersion) :
    let s' := (exec (generateDiffForVersion X e binaryName binaryId newVersion) s).2
    s' = s ∨ s' = (exec (generateAll X e newVersion (binaryDiffDir binaryName)
      (previousVersions s.db binaryId newVersion.versionId) 0) s).2 := by
  refine wp_exec_snd (P := fun s' => s' = s ∨ s' = (exec (generateAll X e newVersion
    (binaryDiffDir binaryName) (previousVersions s.db binaryId newVersion.versionId) 0) s).2) ?_
  unfold generateDiffForVersion
  rw [wp_bind]
  refine wp_dbRead ?_ fun _ => .inl rfl
  split
  · exact wp_pure.mpr (.inl rfl)
  · rw [wp_bind]
    exact wp_hostOp (wp_of_exec_snd (.inr rfl)) fun _ => .inl rfl

/-- A registration changes the binaries only, or registers a version and, unless it
was told not to, generates diffs to it. -/
def RegisterEffect (X : PublisherCrates) (e : PublisherEnv) (s : Project)
    (name version platform : String) (noDiff : Bool) (s' : Project) : Prop :=
  BinariesOnly s s' ∨ ∃ s₁ row, VersionRegistered X e s name version platform s₁ row ∧
    (s' = s₁ ∨ noDiff = false ∧ s' = (exec (generateAll X e row (binaryDiffDir name)
      (previousVersions s.db (s.db.binaryIdFor e name platform) (e.uuid .version)) 0) s₁).2)

/-- Whatever becomes of it, a registration has the effect of its stages. -/
theorem register_effect (X : PublisherCrates) (e : PublisherEnv) (s : Project)
    (name version file platform : String) (noDiff : Bool) :
    RegisterEffect X e s name version platform noDiff
      (exec (Register.run X e name version file platform noDiff) s).2 := by
  refine wp_exec_snd (P := RegisterEffect X e s name version platform noDiff) ?_
  unfold Register.run
  rw [wp_bind, wp_get]
  split
  · exact .inl (.refl s)
  split
  · exact .inl (.refl s)
  split
  · exact .inl (.refl s)
  rw [wp_bind]
  refine wp_hostOp ?_ fun _ => .inl (.refl s)
  rw [wp_bind]
  refine wp_binaryFor (fun binary s' hbinary hid => ?_) fun _ => .inl (.refl s)
  rw [wp_bind]
  refine wp_dbRead ?_ fun _ => .inl hbinary
  split
  · exact .inl hbinary
  rw [wp_bind]
  refine wp_insertVersion hbinary
    (fun row s₁ (hrow : VersionRegistered X e s name version platform s₁ row) => ?_)
      fun _ => .inl hbinary
  split
  · exact .inr ⟨s₁, row, hrow, .inl rfl⟩
  · next hdiff =>
      rw [wp_bind]
      refine wp_of_exec_snd (P := RegisterEffect X e s name version platform noDiff) ?_
      have heffect := generateDiffForVersion_effect X e s₁ name binary.binaryId row
      dsimp only at heffect
      rw [hid] at heffect ⊢
      rw [hrow.previous] at heffect
      exact .inr ⟨s₁, row, hrow, heffect.imp_right fun h => ⟨Bool.eq_false_of_not_eq_true hdiff, h⟩⟩

end Register

/-! ## updates of versions -/

/-- An update of a version changes the row with its id only. -/
theorem updateVersion_eq_ok {db db' : PublisherDb} {id : String} {f : DbVersion → DbVersion}
    {hf : ∀ v, (f v).versionId = v.versionId} (h : db.updateVersion id f hf = .ok db') :
    db'.binaries = db.binaries ∧ db'.diffJobs = db.diffJobs ∧ ∀ v', v' ∈ db'.versions ↔
      ∃ v ∈ db.versions, v' = if v.versionId = id then f v else v := by
  unfold PublisherDb.updateVersion at h
  split at h
  · obtain rfl := Except.ok.inj h
    refine ⟨rfl, rfl, fun v' => ?_⟩
    simp only [Table.mem_update hf, beq_iff_eq]
  · contradiction

/-! ## diff and sign -/

/-- An explicit diff does nothing, or generates the diff between two versions of a
binary. -/
def DiffEffect (X : PublisherCrates) (e : PublisherEnv) (s : Project)
    (name platform fromString toString : String) (output : Option String) (s' : Project) : Prop :=
  s' = s ∨ ∃ binary fromVersion toVersion, s.db.getBinaryByName name platform = some binary ∧
    s.db.getVersionByString binary.binaryId fromString = some fromVersion ∧
    s.db.getVersionByString binary.binaryId toString = some toVersion ∧
    s' = (exec (generateSingleDiff X e 0 fromVersion toVersion
      ((output.map String.toList).getD (binaryDiffDir name))) s).2

/-- Whatever becomes of it, the diff command has the effect of its stages. -/
theorem diff_effect (X : PublisherCrates) (e : PublisherEnv) (s : Project)
    (name platform fromString toString : String) (output : Option String) :
    DiffEffect X e s name platform fromString toString output
      (exec (Diff.run X e name platform fromString toString output) s).2 := by
  refine wp_exec_snd (P := DiffEffect X e s name platform fromString toString output) ?_
  unfold Diff.run generateDiffBetween
  simp only [wp_bind]
  refine wp_hostOp ?_ fun _ => .inl rfl
  refine wp_dbRead ?_ fun _ => .inl rfl
  refine wp_ofExcept_ok (fun binary hbinary => ?_) fun _ => .inl rfl
  refine wp_dbRead ?_ fun _ => .inl rfl
  refine wp_ofExcept_ok (fun fromVersion hfrom => ?_) fun _ => .inl rfl
  refine wp_dbRead ?_ fun _ => .inl rfl
  refine wp_ofExcept_ok (fun toVersion hto => ?_) fun _ => .inl rfl
  refine wp_hostOp ?_ fun _ => .inl rfl
  exact wp_of_exec_snd (P := DiffEffect X e s name platform fromString toString output)
    (.inr ⟨binary, fromVersion, toVersion, Except.ofOption_eq_ok.mp hbinary,
      Except.ofOption_eq_ok.mp hfrom, Except.ofOption_eq_ok.mp hto, rfl⟩)

/-- A signing does nothing, or stores the signature of a version in its row. -/
def SignEffect (X : PublisherCrates) (K : SigningKey X.crypto) (s s' : Project) : Prop :=
  s' = s ∨ ∃ v ∈ s.db.versions, ∃ timestamp db,
    PublisherDb.setVersionSignature v.versionId
      (K.sign (signingPayload v.fileHashBlake3 v.versionString)).val timestamp s.db = .ok db ∧
    s' = { s with db := db }

/-- The version to sign is one of the rows. -/
theorem wp_findVersion {e : PublisherEnv} {s : Project} {versionId name version : Option String}
    {Q : DbVersion → Project → Prop} {E : String → Project → Prop}
    (hok : ∀ v ∈ s.db.versions, Q v s) (hfail : ∀ err, E err s) :
    wp (Sign.findVersion e versionId name version) Q E s := by
  unfold Sign.findVersion
  split
  · rw [wp_bind]
    refine wp_dbRead (wp_ofExcept_ok (fun v hv => hok v ?_) hfail) hfail
    exact (Table.mem_of_find (Except.ofOption_eq_ok.mp hv)).1
  · simp only [wp_bind]
    refine wp_dbRead (wp_ofExcept_ok (fun binary _ => ?_) hfail) hfail
    refine wp_dbRead (wp_ofExcept_ok (fun v hv => hok v ?_) hfail) hfail
    exact (Table.mem_of_find (Except.ofOption_eq_ok.mp hv)).1
  · exact hfail _

/-- Signing stores one signature, over the row as it is then. -/
theorem sign_effect (X : PublisherCrates) (K : SigningKey X.crypto) (e : PublisherEnv)
    (s : Project) (versionId name version : Option String) :
    SignEffect X K s (exec (Sign.run X K e versionId name version) s).2 := by
  refine wp_exec_snd (P := SignEffect X K s) ?_
  unfold Sign.run
  simp only [wp_bind]
  refine wp_hostOp ?_ fun _ => .inl rfl
  refine wp_findVersion (fun v hv => ?_) fun _ => .inl rfl
  refine wp_hostOp ?_ fun _ => .inl rfl
  refine wp_dbUpdate (fun db hdb => ?_) fun _ => .inl rfl
  have hsigned : SignEffect X K s { s with db := db } := .inr ⟨v, hv, e.timestamp, db, hdb, rfl⟩
  exact wp_dbRead (wp_ofExcept_ok (fun _ _ => hsigned) fun _ => hsigned) fun _ => hsigned

/-! ## verify -/

/- The command goes through the versions and repairs hashes if it is told to. What it changes in one
version depends on the file of this version alone. -/

/-- The file of a version does not have its BLAKE3 hash. -/
def Mismatched (X : PublisherCrates) (s : Project) (v : DbVersion) : Prop :=
  ∃ b, s.content v.filePath.toList = some b ∧ (X.crypto.blake3 b).val ≠ v.fileHashBlake3

/-- The rows of versions kept what they were but for their hashes, and the BLAKE3
hash as well unless the version may be repaired. -/
structure Rehashed (repairable : DbVersion → Prop) (s s' : Project) : Prop where
  root : s'.root = s.root
  files : s'.files = s.files
  diffJobs : s'.db.diffJobs = s.db.diffJobs
  kept : ∀ v ∈ s.db.versions, ∃ v' ∈ s'.db.versions, v'.versionId = v.versionId
  versions : ∀ v' ∈ s'.db.versions, ∃ v ∈ s.db.versions, v'.versionId = v.versionId ∧
    v'.versionString = v.versionString ∧ v'.signatureEd25519 = v.signatureEd25519 ∧
    (v'.fileHashBlake3 = v.fileHashBlake3 ∨ repairable v ∧ v'.fileHashBlake3.length = 32)

section Verify

variable {X : PublisherCrates} {e : PublisherEnv} {s s₁ : Project} {repairable : DbVersion → Prop}

/-- Where nothing was done, no row was repaired. -/
theorem Rehashed.refl (s : Project) : Rehashed repairable s s :=
  ⟨rfl, rfl, rfl, fun v hv => ⟨v, hv, rfl⟩, fun v hv => ⟨v, hv, rfl, rfl, rfl, .inl rfl⟩⟩

/-- One update of the hashes of a version. -/
theorem Rehashed.update (h : Rehashed repairable s s₁) {version : DbVersion}
    (hversion : version ∈ s.db.versions) {hash sha : Bytes} {size : Nat} {db : PublisherDb}
    (hhash : hash = version.fileHashBlake3 ∨ repairable version)
    (hupdate : PublisherDb.updateVersionHashes version.versionId hash sha size s₁.db = .ok db) :
    Rehashed repairable s { s₁ with db := db } := by
  unfold PublisherDb.updateVersionHashes at hupdate
  obtain ⟨_, hsize, hupdate⟩ := Except.bind_eq_ok.mp hupdate
  obtain ⟨_, _, hupdate⟩ := Except.bind_eq_ok.mp hupdate
  obtain ⟨-, hjobs, hrows⟩ := updateVersion_eq_ok hupdate
  refine ⟨h.root, h.files, hjobs.trans h.diffJobs, fun v hv => ?_, fun v' hv' => ?_⟩
  · obtain ⟨v₁, hv₁, hid⟩ := h.kept v hv
    refine ⟨_, (hrows _).mpr ⟨v₁, hv₁, rfl⟩, ?_⟩
    split
    · exact hid
    · exact hid
  · obtain ⟨v₁, hv₁, rfl⟩ := (hrows v').mp hv'
    obtain ⟨v, hv, hid, hstring, hsig, hsame⟩ := h.versions v₁ hv₁
    refine ⟨v, hv, ?_⟩
    split
    · next hrow =>
        obtain rfl : v = version := Table.eq_of_key_eq hv hversion (hid.symm.trans hrow)
        exact ⟨hid, hstring, hsig, hhash.imp_right fun hr => ⟨hr, length_of_validateHashSize hsize⟩⟩
    · exact ⟨hid, hstring, hsig, hsame⟩

/-- A BLAKE3 hash is replaced by that of the file, when asked to. -/
theorem wp_checkBlake3 {k : Nat} {version : DbVersion} {size : Nat} {data : Bytes} {fix : Bool}
    {r : VersionVerifyResult} {Q : VersionVerifyResult → Project → Prop}
    (h : Rehashed repairable s s₁) (hversion : version ∈ s.db.versions)
    (hrepair : fix = true → (X.crypto.blake3 data).val ≠ version.fileHashBlake3 →
      repairable version)
    (hok : ∀ r s₂, Rehashed repairable s s₂ → Q r s₂) :
    wp (Verify.checkBlake3 X e k version size data fix r) Q
      (fun _ s' => Rehashed repairable s s') s₁ := by
  unfold Verify.checkBlake3
  rw [wp_bind]
  refine wp_ofExcept_ok (fun stored hstored => ?_) fun _ => h
  have hstored := ByteVec.tryInto_eq_some.mp (Except.ofOption_eq_ok.mp hstored)
  split
  · exact hok _ s₁ h
  · next hne =>
      split
      · next hfix =>
          rw [wp_bind]
          refine wp_dbUpdate (fun db hdb => hok _ _ (h.update hversion (.inr ?_) hdb)) fun _ => h
          exact hrepair hfix fun heq => hne (Subtype.ext (heq.trans hstored))
      · exact hok _ s₁ h

/-- A SHA-256 hash is replaced by that of the file, when asked to. -/
theorem wp_checkSha256 {k : Nat} {version : DbVersion} {size : Nat} {data : Bytes} {fix : Bool}
    {r : VersionVerifyResult} {Q : VersionVerifyResult → Project → Prop}
    (h : Rehashed repairable s s₁) (hversion : version ∈ s.db.versions)
    (hok : ∀ r s₂, Rehashed repairable s s₂ → Q r s₂) :
    wp (Verify.checkSha256 X e k version size data fix r) Q
      (fun _ s' => Rehashed repairable s s') s₁ := by
  unfold Verify.checkSha256
  rw [wp_bind]
  refine wp_ofExcept_ok (fun stored _ => ?_) fun _ => h
  split
  · exact hok _ s₁ h
  · split
    · split
      · rw [wp_bind]
        exact wp_dbUpdate (fun db hdb => hok _ _ (h.update hversion (.inl rfl) hdb)) fun _ => h
      · exact hok _ s₁ h
    · exact hok _ s₁ h

/-- The verification of one version repairs that version at most. -/
theorem wp_verifyVersion {k : Nat} {version : DbVersion} {binary : DbBinary}
    {key : Option (VerifyingKey X.crypto)} {fix : Bool} {Q : VersionVerifyResult → Project → Prop}
    (h : Rehashed repairable s s₁) (hversion : version ∈ s.db.versions)
    (hrepair : fix = true → Mismatched X s version → repairable version)
    (hok : ∀ r s₂, Rehashed repairable s s₂ → Q r s₂) :
    wp (Verify.verifyVersion X e k version binary key fix) Q
      (fun _ s' => Rehashed repairable s s') s₁ := by
  unfold Verify.verifyVersion
  rw [wp_bind, wp_get]
  dsimp only
  split
  · exact hok _ s₁ h
  · simp only [wp_bind]
    refine wp_fileSize (fun size => ?_) fun _ => h
    refine wp_readFileOrFail (fun data hdata => ?_) fun _ => h
    have hcontent : s.content version.filePath.toList = some data := by
      rw [← hdata]
      unfold Project.content
      rw [Project.resolve_congr h.root, h.files]
    refine wp_checkBlake3 h hversion (fun hfix hne => hrepair hfix ⟨data, hcontent, hne⟩)
      fun r s₂ h₂ => ?_
    refine wp_checkSha256 h₂ hversion fun r s₃ h₃ => ?_
    exact wp_ofExcept_ok (fun r _ => hok _ s₃ h₃) fun _ => h₃

/-- Only rows whose hashes do not match are repaired, one after the other. -/
theorem wp_verifyAll {key : Option (VerifyingKey X.crypto)} {fix : Bool}
    {versions : List (DbVersion × DbBinary)} (hmem : ∀ p ∈ versions, p.1 ∈ s.db.versions)
    (hrepair : ∀ p ∈ versions, fix = true → Mismatched X s p.1 → repairable p.1)
    {k : Nat} (h : Rehashed repairable s s₁) :
    wp (Verify.verifyAll X e key fix versions k) (fun _ s' => Rehashed repairable s s')
      (fun _ s' => Rehashed repairable s s') s₁ := by
  induction versions generalizing k s₁ with
  | nil => exact h
  | cons p rest ih =>
      obtain ⟨version, binary⟩ := p
      unfold Verify.verifyAll
      rw [wp_bind]
      refine wp_verifyVersion h (hmem (version, binary) List.mem_cons_self)
        (hrepair (version, binary) List.mem_cons_self) fun r s₂ h₂ => ?_
      have hrest := @ih s₂ (fun p hp => hmem p (List.mem_cons_of_mem _ hp))
        (fun p hp => hrepair p (List.mem_cons_of_mem _ hp)) (k + 1) h₂
      rw [wp_bind]
      exact wp_mono (fun _ _ h' => wp_pure.mpr h') (fun _ _ h' => h') hrest

/-- What is verified are rows of the database. -/
theorem mem_versions_of_mem_versionsToVerify {db : PublisherDb} {name : String}
    {version : Option String} {p : DbVersion × DbBinary}
    (h : p ∈ Verify.versionsToVerify db name version) : p.1 ∈ db.versions := by
  unfold Verify.versionsToVerify PublisherDb.listVersions at h
  simp only [List.mem_flatMap, List.mem_map, List.mem_filter, List.mem_insertionSort] at h
  obtain ⟨b, -, v, ⟨⟨hv, -⟩, -⟩, rfl⟩ := h
  exact hv

/-- The command goes on when the repair is confirmed, and stops without a change. -/
theorem wp_confirmFix {fix json : Bool} {answer : String} {Q : Unit → Project → Prop}
    {E : String → Project → Prop} (hok : Q () s) (hfail : ∀ err, E err s) :
    wp (Verify.confirmFix e fix json answer) Q E s := by
  unfold Verify.confirmFix
  split
  · rw [wp_bind]
    refine wp_hostOp ?_ hfail
    split
    · exact hfail _
    · exact hok
  · exact hok

/-- A verification changes hashes only, and the BLAKE3 hash of a version only if it
was told to fix, the version is one it verifies and its file has another hash. -/
theorem verify_effect (X : PublisherCrates) (e : PublisherEnv) (s : Project)
    (publicKey : Option String) (name : String) (version : Option String) (fix json : Bool)
    (answer : String) :
    Rehashed (fun v => fix = true ∧ Mismatched X s v ∧
        ∃ b, (v, b) ∈ Verify.versionsToVerify s.db name version) s
      (exec (Verify.run X e publicKey name version fix json answer) s).2 := by
  refine wp_exec_snd (P := Rehashed (fun v => fix = true ∧ Mismatched X s v ∧
    ∃ b, (v, b) ∈ Verify.versionsToVerify s.db name version) s) ?_
  unfold Verify.run
  rw [wp_bind]
  refine wp_hostOp ?_ fun _ => .refl s
  rw [wp_bind]
  refine wp_confirmFix ?_ fun _ => .refl s
  rw [wp_bind]
  refine wp_dbRead ?_ fun _ => .refl s
  split
  · exact .refl s
  rw [wp_bind]
  refine wp_hostOp ?_ fun _ => .refl s
  rw [wp_bind]
  refine wp_ofExcept_ok (fun key _ => ?_) fun _ => .refl s
  rw [wp_bind]
  refine wp_dbRead ?_ fun _ => .refl s
  split
  · exact .refl s
  rw [wp_bind]
  refine wp_mono (fun results s' h => ?_) (fun _ _ h => h) (wp_verifyAll
    (fun p hp => mem_versions_of_mem_versionsToVerify hp)
    (fun p hp hfix hmis => ⟨hfix, hmis, p.2, hp⟩) (.refl s))
  dsimp only
  split
  · exact h
  · exact h

end Verify

end Deltaship
