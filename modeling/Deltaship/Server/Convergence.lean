import Deltaship.Server.Offers
import Mathlib.Data.Fintype.Basic

/-!
# Deltaship.Server.Convergence

Publications of one version for one platform at the same time.

`publish_version` puts the binary, the signature, the manifest and the catalog in place
one after another.  The manifest and the catalog are updated under the mutex of the
application, each by itself, and the other two without it; so what is stored in the end
can come from different requests.  It comes from one if no request puts its binary in
place while another one has yet to update the manifest.
-/

namespace Deltaship

open Runs

/-! ## the steps of a publication -/

namespace Artifacts

/-- `save_binary_from_temp`. -/
def saveBinary (p : VersionPath) (r : Release) (a : Artifacts) : Artifacts :=
  { a with binaries := a.binaries.write (p, r.platform) r.binary }

/-- `save_signature`. -/
def saveSignature (p : VersionPath) (r : Release) (a : Artifacts) : Artifacts :=
  { a with signatures := a.signatures.write p r.signature.val }

/-- `update_manifest`. -/
def updateManifest (p : VersionPath) (r : Release) (order : MapOrder) (a : Artifacts) :
    Artifacts :=
  { a with
    manifests := a.manifests.write p
      (some ((publishManifest r.version r.platform r.artifact
        (a.getVersionManifest p)).inOrder order)) }

/-- `update_catalog_atomic`. -/
def updateCatalog (S : SemverCrate) (p : VersionPath) (r : Release) (a : Artifacts) : Artifacts :=
  a.setCatalog p.appName (publishCatalog S p.appName r.info (a.getAppCatalog p.appName))

/-- The steps one after another are a publication. -/
theorem updateCatalog_updateManifest_saveSignature_saveBinary {S : SemverCrate} {p : VersionPath}
    {r : Release} {o : MapOrder} {a : Artifacts} :
    (((a.saveBinary p r).saveSignature p r).updateManifest p r o).updateCatalog S p r =
      a.publish S p r o true true := rfl

end Artifacts

/-- Where a publication is. -/
inductive PublishPhase where
  | start
  | binarySaved
  | signatureSaved
  | manifestUpdated
  | done
deriving DecidableEq, Repr

/-- Whether the binary is in place and the manifest is not. -/
def PublishPhase.storing : PublishPhase → Bool
  | binarySaved | signatureSaved => true
  | start | manifestUpdated | done => false

variable {ι : Type}

/-- The files and the publications. -/
structure Publishing (ι : Type) where
  artifacts : Artifacts
  phase : ι → PublishPhase

namespace Publishing

/-- No publication has begun to store. -/
def init (a : Artifacts) : Publishing ι := ⟨a, fun _ => .start⟩

/-- The next step of a publication. -/
def next [DecidableEq ι] (S : SemverCrate) (p : VersionPath) (releases : ι → Release)
    (orders : ι → MapOrder) (s : Publishing ι) (i : ι) : Publishing ι :=
  match s.phase i with
  | .start => ⟨s.artifacts.saveBinary p (releases i), Function.update s.phase i .binarySaved⟩
  | .binarySaved =>
    ⟨s.artifacts.saveSignature p (releases i), Function.update s.phase i .signatureSaved⟩
  | .signatureSaved =>
    ⟨s.artifacts.updateManifest p (releases i) (orders i),
      Function.update s.phase i .manifestUpdated⟩
  | .manifestUpdated =>
    ⟨s.artifacts.updateCatalog S p (releases i), Function.update s.phase i .done⟩
  | .done => s

/-- Nobody has put its binary in place and not yet updated the manifest when a
publication puts its binary in place. -/
def Undisturbed (s : Publishing ι) (i : ι) : Prop :=
  s.phase i = .start → ∀ j, (s.phase j).storing = false

instance [Fintype ι] (s : Publishing ι) (i : ι) : Decidable (s.Undisturbed i) :=
  inferInstanceAs (Decidable (_ → _))

end Publishing

/-- What is stored for a platform comes from one release: the binary, the checksum and
the size in the manifest, and the signature. -/
structure ComesFrom (p : VersionPath) (platform : Platform) (r : Release)
    (a : Artifacts) : Prop where
  binary : a.binaries.read (p, platform) = some r.binary
  manifest : ∃ artifact, a.artifactAt p platform = some artifact ∧
    artifact.checksum = r.checksum ∧ artifact.size = r.binary.length
  signature : a.signatures.read p = some r.signature.val

/-! ## no publication disturbs another -/

/- While one publication is storing, no other one puts its binary in place, which is the condition
on the steps. So at most one publication is between its first and its last step, and what it has put
in place is still there when it takes the next one. -/

section Steps

variable {S : SemverCrate} {p : VersionPath} {platform : Platform} {releases : ι → Release}
  {orders : ι → MapOrder} {s : Publishing ι} {i : ι} {a : Artifacts} {r : Release} {o : MapOrder}

/-- The artifact is the one that was written last. -/
@[simp] theorem artifactAt_updateManifest_self :
    (a.updateManifest p r o).artifactAt p r.platform = some r.artifact := by
  simp [Artifacts.artifactAt, Artifacts.updateManifest, Artifacts.getVersionManifest,
    publishManifest]

/-- At most one publication is storing, and what it has stored is still there; while
none is, everything comes from one. -/
structure Settled (p : VersionPath) (platform : Platform) (releases : ι → Release)
    (s : Publishing ι) : Prop where
  alone : ∀ i j, (s.phase i).storing = true → (s.phase j).storing = true → i = j
  binary : ∀ i, (s.phase i).storing = true →
    s.artifacts.binaries.read (p, platform) = some (releases i).binary
  signature : ∀ i, s.phase i = .signatureSaved →
    s.artifacts.signatures.read p = some (releases i).signature.val
  idle : (∀ i, (s.phase i).storing = false) →
    (∀ i, s.phase i = .start) ∨ ∃ i, ComesFrom p platform (releases i) s.artifacts

theorem settled_init : Settled p platform releases (Publishing.init a) := by
  refine ⟨fun i j hi => ?_, fun i hi => ?_, fun i hi => ?_, fun _ => .inl fun _ => rfl⟩ <;>
    contradiction

variable [DecidableEq ι]

/-- Who writes a binary while nobody stores is the one whose files count. -/
theorem settled_saveBinary (hplatform : (releases i).platform = platform)
    (hidle : ∀ j, (s.phase j).storing = false) :
    Settled p platform releases
      ⟨s.artifacts.saveBinary p (releases i), Function.update s.phase i .binarySaved⟩ := by
  have hself : ∀ j, (Function.update s.phase i .binarySaved j).storing = true → j = i := by
    intro j hj
    by_contra hne
    rw [Function.update_of_ne hne, hidle j] at hj
    contradiction
  refine ⟨fun j k hj hk => (hself j hj).trans (hself k hk).symm, fun j hj => ?_, fun j hj => ?_,
    fun hnone => ?_⟩
  · rw [hself j hj, ← hplatform]
    exact Files.read_write_self _ _ _
  · have hstoring : (Function.update s.phase i .binarySaved j).storing = true := by
      rw [show Function.update s.phase i .binarySaved j = .signatureSaved from hj]
      rfl
    have hji := hself j hstoring
    subst hji
    simp at hj
  · have hi := hnone i
    simp [PublishPhase.storing] at hi

/-- Its signature follows. -/
theorem Settled.saveSignature (h : Settled p platform releases s)
    (hphase : s.phase i = .binarySaved) :
    Settled p platform releases
      ⟨s.artifacts.saveSignature p (releases i), Function.update s.phase i .signatureSaved⟩ := by
  have hi : (s.phase i).storing = true := by rw [hphase]; rfl
  have hself : ∀ j, (Function.update s.phase i .signatureSaved j).storing = true → j = i := by
    intro j hj
    by_contra hne
    rw [Function.update_of_ne hne] at hj
    exact hne (h.alone j i hj hi)
  refine ⟨fun j k hj hk => (hself j hj).trans (hself k hk).symm, fun j hj => ?_, fun j hj => ?_,
    fun hnone => ?_⟩
  · rw [hself j hj]
    exact h.binary i hi
  · have hstoring : (Function.update s.phase i .signatureSaved j).storing = true := by
      rw [show Function.update s.phase i .signatureSaved j = .signatureSaved from hj]
      rfl
    rw [hself j hstoring]
    exact Files.read_write_self _ _ _
  · have hi := hnone i
    simp [PublishPhase.storing] at hi

/-- Then its entry in the manifest. -/
theorem Settled.updateManifest (h : Settled p platform releases s)
    (hplatform : (releases i).platform = platform) (hphase : s.phase i = .signatureSaved) :
    Settled p platform releases
      ⟨s.artifacts.updateManifest p (releases i) (orders i),
        Function.update s.phase i .manifestUpdated⟩ := by
  have hi : (s.phase i).storing = true := by rw [hphase]; rfl
  have hnone : ∀ j, (Function.update s.phase i .manifestUpdated j).storing = false := by
    intro j
    by_cases hj : j = i
    · subst hj
      simp [PublishPhase.storing]
    · rw [Function.update_of_ne hj]
      by_contra hstoring
      exact hj (h.alone j i (by simpa using hstoring) hi)
  refine ⟨fun j k hj hk => ?_, fun j hj => ?_, fun j hj => ?_, fun _ => .inr ⟨i, h.binary i hi,
    ⟨(releases i).artifact, ?_, rfl, rfl⟩, h.signature i hphase⟩⟩
  · rw [hnone j] at hj
    contradiction
  · rw [hnone j] at hj
    contradiction
  · have hj' := hnone j
    rw [show Function.update s.phase i .manifestUpdated j = .signatureSaved from hj] at hj'
    contradiction
  · rw [← hplatform]
    exact artifactAt_updateManifest_self

/-- The catalog is not among what is compared. -/
theorem Settled.updateCatalog (h : Settled p platform releases s)
    (hphase : s.phase i = .manifestUpdated) :
    Settled p platform releases
      ⟨s.artifacts.updateCatalog S p (releases i), Function.update s.phase i .done⟩ := by
  have hsame : ∀ j, (Function.update s.phase i .done j).storing = (s.phase j).storing := by
    intro j
    by_cases hj : j = i
    · subst hj
      simp [hphase, PublishPhase.storing]
    · rw [Function.update_of_ne hj]
  refine ⟨fun j k hj hk => ?_, fun j hj => ?_, fun j hj => ?_, fun hnone => ?_⟩
  · exact h.alone j k (hsame j ▸ hj) (hsame k ▸ hk)
  · exact h.binary j (hsame j ▸ hj)
  · by_cases hji : j = i
    · subst hji
      simp at hj
    · have hold : s.phase j = .signatureSaved := (Function.update_of_ne hji _ _).symm.trans hj
      exact h.signature j hold
  · rcases h.idle fun j => hsame j ▸ hnone j with hstart | ⟨k, hfrom⟩
    · rw [hstart i] at hphase
      contradiction
    · exact .inr ⟨k, hfrom.binary, hfrom.manifest, hfrom.signature⟩

/-- So every undisturbed step leaves the files of one publication. -/
theorem Settled.next (h : Settled p platform releases s)
    (hplatform : ∀ j, (releases j).platform = platform) (hundisturbed : s.Undisturbed i) :
    Settled p platform releases (s.next S p releases orders i) := by
  unfold Publishing.next
  cases hphase : s.phase i with
  | start => exact settled_saveBinary (hplatform i) (hundisturbed hphase)
  | binarySaved => exact h.saveSignature hphase
  | signatureSaved => exact h.updateManifest (hplatform i) hphase
  | manifestUpdated => exact h.updateCatalog hphase
  | done => exact h

end Steps

/-- Publications none of which puts its binary in place while another one has yet to
update the manifest leave the files of one of them. -/
theorem publications_converge [DecidableEq ι] [Nonempty ι] (S : SemverCrate) (p : VersionPath)
    (platform : Platform) (releases : ι → Release) (orders : ι → MapOrder)
    (hplatform : ∀ i, (releases i).platform = platform) (a : Artifacts) (s : Publishing ι)
    (hrun : Reaches (Publishing.next S p releases orders) (fun s i => s.Undisturbed i)
      (Publishing.init a) s)
    (hdone : ∀ i, s.phase i = .done) :
    ∃ i, ComesFrom p platform (releases i) s.artifacts := by
  have hsettled : Settled p platform releases s :=
    hrun.invariant (I := Settled p platform releases) settled_init
      fun s i h hi => h.next hplatform hi
  have hidle : ∀ i, (s.phase i).storing = false := fun i => by rw [hdone i]; rfl
  rcases hsettled.idle hidle with hstart | hfrom
  · obtain ⟨i⟩ := ‹Nonempty ι›
    have hi := hstart i
    rw [hdone i] at hi
    contradiction
  · exact hfrom

/-! ### two publications -/

/-- The binaries `[1]` and `[2]`, both published as version 1.0.0 for Linux. -/
def sampleReleases : Fin 2 → Release
  | 0 => ⟨.new 1 0 0, .linuxX86_64, [1], sampleSig1, (sampleBlake3 [1]).toHex, none⟩
  | 1 => ⟨.new 1 0 0, .linuxX86_64, [2], sampleSig4, (sampleBlake3 [2]).toHex, none⟩

/-- The second publication begins to store when the manifest of the first is updated. -/
theorem publications_converge_sample :
    ∃ i, ComesFrom ⟨"app", "1.0.0"⟩ .linuxX86_64 (sampleReleases i)
      (final (Publishing.next sampleSemver ⟨"app", "1.0.0"⟩ sampleReleases fun _ => sampleOrder)
        (Publishing.init Artifacts.empty) [0, 0, 0, 1, 0, 1, 1, 1]).artifacts := by
  have hrun : Permitted (Publishing.next sampleSemver ⟨"app", "1.0.0"⟩ sampleReleases
      fun _ => sampleOrder) (fun s i => s.Undisturbed i) (Publishing.init Artifacts.empty) [0, 0, 0, 1, 0, 1, 1, 1] := by
    decide +kernel
  exact publications_converge sampleSemver ⟨"app", "1.0.0"⟩ .linuxX86_64 sampleReleases
    (fun _ => sampleOrder) (by decide) Artifacts.empty _ hrun.reaches (by decide +kernel)

/-- The binary of the second publication is stored with the manifest of the first. -/
theorem publications_mixed :
    ¬ ∀ (ι : Type) [DecidableEq ι] [Nonempty ι] (X : ServerCrates) (p : VersionPath)
      (platform : Platform) (releases : ι → Release) (orders : ι → MapOrder) (a : Artifacts)
      (s : Publishing ι),
      (∀ i, (releases i).platform = platform) →
      (∀ i, ∃ publisher fields, (releases i).Accepted X publisher p fields) →
      Reaches (Publishing.next X.semver p releases orders) (fun _ _ => True) (Publishing.init a) s →
      (∀ i, s.phase i = .done) →
      ∃ i, ComesFrom p platform (releases i) s.artifacts := by
  intro h
  have haccepted : ∀ i, ∃ publisher fields,
      (sampleReleases i).Accepted sampleServer publisher ⟨"app", "1.0.0"⟩ fields := by
    intro i
    refine ⟨samplePublisher,
      (sampleForm .linuxX86_64 (sampleReleases i).binary (sampleReleases i).signature).fields, ?_⟩
    refine ⟨by decide +kernel, by decide +kernel, ?_, by decide +kernel, ?_, ?_, ?_,
      ⟨?_, ?_, ?_⟩, fun pubkey hkey => ?_⟩
    case refine_8 =>
      obtain rfl := Option.some.inj hkey
      revert i
      decide +kernel
    all_goals
      revert i
      decide +kernel
  have hrun : Permitted (Publishing.next sampleSemver ⟨"app", "1.0.0"⟩ sampleReleases
      fun _ => sampleOrder) (fun _ _ => True) (Publishing.init Artifacts.empty) [0, 1, 1, 1, 0, 0, 0, 1] := by
    decide +kernel
  obtain ⟨i, hfrom⟩ := h (Fin 2) sampleServer ⟨"app", "1.0.0"⟩ .linuxX86_64 sampleReleases
    (fun _ => sampleOrder) Artifacts.empty _ (by decide) haccepted hrun.reaches (by decide +kernel)
  -- the binary is that of the second request, and the signature that of the first
  have hbinary : ∀ i, some (sampleReleases i).binary = some [2] → i = 1 := by decide
  have hsignature : ∀ i, some (sampleReleases i).signature.val = some sampleSig1.val → i = 0 := by
    decide
  have hone := hbinary i (hfrom.binary.symm.trans (by decide +kernel))
  have hzero := hsignature i (hfrom.signature.symm.trans (by decide +kernel))
  rw [hone] at hzero
  contradiction

end Deltaship
