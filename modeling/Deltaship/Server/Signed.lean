import Deltaship.Lib.Runs
import Deltaship.Server.Effects
import Deltaship.Server.Update

/-!
# Deltaship.Server.Signed

Whether what the server hands out for a version is what its publisher signed.

The binary and the entry of the manifest belong to a version and a platform, the
signature file to the version alone: a release for a second platform replaces the
signature of the first.  What is stored stays signed exactly as long as every
signature that is uploaded is also one for the binaries of the other platforms.
-/

namespace Deltaship

open Prog Runs

/-- Every platform of every manifest has a stored binary with the checksum of the
manifest, and the signature that is served for the version verifies for it. -/
def Signed (X : ServerCrates) (pubkey : ByteVec 32) (a : Artifacts) : Prop :=
  ∀ p manifest platform artifact, a.getVersionManifest p = some manifest →
    manifest.platforms.read platform = some artifact →
    ∃ b sig, a.binaries.read (p, platform) = some b ∧ ChecksumOf X b artifact.checksum ∧
      downloadSignature X a p.appName p.version = .ok sig.val ∧
      verifies X pubkey (X.crypto.blake3 b) p.version sig = true

/-- The uploaded signature is also one for the stored binaries of the other
platforms of the version. -/
def SignsOthers (X : ServerCrates) (pubkey : ByteVec 32) (p : VersionPath) (form : Form)
    (a : Artifacts) : Prop :=
  ∀ platform (sig : Signature), (lastText "platform" form.fields).bind Platform.parse = some platform →
    (lastText "signature" form.fields).bind (decodeSignature X) = some sig.val →
    ∀ manifest other artifact b, a.getVersionManifest p = some manifest → other ≠ platform →
      manifest.platforms.read other = some artifact → a.binaries.read (p, other) = some b →
      verifies X pubkey (X.crypto.blake3 b) p.version sig = true

/-- A successful publish request of a publisher. -/
def PublishesAs (X : ServerCrates) (publisher : Publisher) (s : Store) (q : Request) : Prop :=
  (∃ e p form, q = .publish e publisher p form) ∧ q.Succeeds X s

/-- Such a request, with a signature for all platforms. -/
def PublishesSigned (X : ServerCrates) (publisher : Publisher) (pubkey : ByteVec 32) (s : Store)
    (q : Request) : Prop :=
  PublishesAs X publisher s q ∧ ∀ e p form, q = .publish e publisher p form →
    SignsOthers X pubkey p form s.toArtifacts

section Step

variable {X : ServerCrates} {publisher : Publisher} {pubkey : ByteVec 32} {a : Artifacts}
  {p : VersionPath} {r : Release} {form : Form} {o : MapOrder}
  {b b' : Bool}

theorem signed_empty : Signed X pubkey Artifacts.empty := by
  intro p manifest platform artifact hmanifest
  contradiction

/-- A signature that is stored is served. -/
theorem downloadSignature_eq_ok {sig : Bytes} (hname : validateName p.appName = .ok ())
    (hversion : validateVersion p.version = .ok ()) (hsig : a.signatures.read p = some sig) :
    downloadSignature X a p.appName p.version = .ok sig := by
  simp only [downloadSignature, requireName, hname, hversion, hsig]
  rfl

/-- It is a matter of the stored signature only. -/
theorem downloadSignature_congr {a' : Artifacts} {q : VersionPath}
    (h : a'.signatures.read q = a.signatures.read q) :
    downloadSignature X a' q.appName q.version = downloadSignature X a q.appName q.version := by
  simp only [downloadSignature, h]

/-- What the manifest has for another platform was there before. -/
theorem read_publishManifest_ne {current : Option VersionManifest} {platform : Platform}
    {artifact : PlatformArtifact} (hne : platform ≠ r.platform)
    (h : (publishManifest r.version r.platform r.artifact current).platforms.read platform =
      some artifact) : ∃ manifest, current = some manifest ∧
        manifest.platforms.read platform = some artifact := by
  simp only [publishManifest, Files.read_write_ne _ _ hne] at h
  cases current with
  | none => contradiction
  | some manifest => exact ⟨manifest, rfl, h⟩

/-- A publication whose signature verifies for all platforms leaves everything signed. -/
theorem signed_publish (hs : Signed X pubkey a) (hkey : publisher.pubkey = some pubkey)
    (hr : r.Accepted X publisher p form.fields) (hothers : SignsOthers X pubkey p form a) :
    Signed X pubkey (a.publish X.semver p r o b b') := by
  intro q manifest platform artifact hmanifest hartifact
  by_cases hq : q = p
  · subst hq
    rw [Artifacts.getVersionManifest_publish_self] at hmanifest
    obtain rfl := Option.some.inj hmanifest
    have hserved : downloadSignature X (a.publish X.semver q r o b b') q.appName q.version =
        .ok r.signature.val :=
      downloadSignature_eq_ok hr.nameOk hr.versionOk (Files.read_write_self _ _ _)
    by_cases hplatform : platform = r.platform
    · subst hplatform
      rw [VersionManifest.read_inOrder, publishManifest, Files.read_write_self] at hartifact
      obtain rfl := Option.some.inj hartifact
      exact ⟨r.binary, r.signature, Files.read_write_self _ _ _, hr.checksum, hserved,
        hr.verified pubkey hkey⟩
    · rw [VersionManifest.read_inOrder] at hartifact
      obtain ⟨old, hold, hartifact⟩ := read_publishManifest_ne hplatform hartifact
      have hold : a.getVersionManifest q = some old := by
        cases b with
        | true => exact hold
        | false => contradiction
      obtain ⟨binary, _, hbinary, hchecksum, -⟩ := hs q old platform artifact hold hartifact
      have hkept : (a.publish X.semver q r o b b').binaries.read (q, platform) = some binary := by
        rw [← hbinary]
        exact Files.read_write_ne _ _ fun h => hplatform (Prod.mk.inj h).2
      exact ⟨binary, r.signature, hkept, hchecksum, hserved,
        hothers r.platform r.signature hr.platform hr.signature old platform artifact binary hold
          hplatform hartifact hbinary⟩
  · rw [Artifacts.getVersionManifest_publish_ne hq] at hmanifest
    obtain ⟨binary, sig, hbinary, hchecksum, hserved, hverifies⟩ :=
      hs q manifest platform artifact hmanifest hartifact
    refine ⟨binary, sig, ?_, hchecksum, ?_, hverifies⟩
    · rw [← hbinary]
      exact Files.read_write_ne _ _ fun h => hq (Prod.mk.inj h).1
    · rw [← hserved]
      exact downloadSignature_congr (Files.read_write_ne _ _ hq)

end Step

/-- In every run of successful publish requests of a publisher with a key, each
with a signature for all platforms of its version, what is stored is signed. -/
theorem signed_of_publishesSigned {X : ServerCrates} {publisher : Publisher}
    {pubkey : ByteVec 32} (hkey : publisher.pubkey = some pubkey) {s : Store}
    (h : Reaches (Request.next X) (PublishesSigned X publisher pubkey) Store.empty s) :
    Signed X pubkey s.toArtifacts := by
  refine h.invariant (I := fun s => Signed X pubkey s.toArtifacts) signed_empty ?_
  rintro s q hs ⟨⟨⟨e, p, form, rfl⟩, hok⟩, hothers⟩
  have heffect := Request.effect X s (.publish e publisher p form)
  rw [hok] at heffect
  generalize (Request.next X s _).toArtifacts = a' at heffect ⊢
  cases heffect with
  | published hr => exact signed_publish hs hkey hr (hothers e p form rfl)

/-- The binary `[1]` for two platforms. -/
theorem signed_of_publishesSigned_twin :
    Signed sampleServer sampleKey
      ((samplePublish .windowsX86_64 [1] sampleSig1).next sampleServer
        sampleFirstStore).toArtifacts := by
  have hfirst : Reaches (Request.next sampleServer)
      (PublishesSigned sampleServer samplePublisher sampleKey) Store.empty
      (Request.next sampleServer Store.empty (samplePublish .linuxX86_64 [1] sampleSig1)) := by
    refine (Reaches.refl _).tail ⟨⟨⟨_, _, _, rfl⟩, congrArg Prod.fst samplePublish_run⟩, ?_⟩
    intro e p form _ platform sig _ _ manifest other artifact b hmanifest
    contradiction
  rw [Request.next, samplePublish_run] at hfirst
  have hsecond : (samplePublish .windowsX86_64 [1] sampleSig1).Succeeds sampleServer
        sampleFirstStore ∧
      (lastText "signature" (sampleForm .windowsX86_64 [1] sampleSig1).fields).bind
        (decodeSignature sampleServer) = some sampleSig1.val ∧
      verifies sampleServer sampleKey (sampleServer.crypto.blake3 [1]) "1.0.0" sampleSig1 =
        true := by decide +kernel
  have hbinaries : ∀ other b, sampleFirstStore.binaries.read (⟨"app", "1.0.0"⟩, other) = some b →
      b = [1] := by
    intro other b hb
    have hread : sampleFirstStore.binaries.read (⟨"app", "1.0.0"⟩, other) = none ∨
        sampleFirstStore.binaries.read (⟨"app", "1.0.0"⟩, other) = some [1] := by
      cases other <;> decide
    rcases hread with hnone | hsome
    · exact absurd (hb.symm.trans hnone) (Option.some_ne_none b)
    · exact Option.some.inj (hb.symm.trans hsome)
  have hstep := hfirst.tail (a := samplePublish .windowsX86_64 [1] sampleSig1)
    ⟨⟨⟨_, _, _, rfl⟩, hsecond.1⟩, by
      intro e p form hq platform sig _ hsig manifest other artifact b _ _ _ hb
      cases hq
      obtain rfl : sig = sampleSig1 :=
        Subtype.ext (Option.some.inj (hsig.symm.trans hsecond.2.1))
      rw [hbinaries other b hb]
      exact hsecond.2.2⟩
  have hkey : samplePublisher.pubkey = some sampleKey := rfl
  exact signed_of_publishesSigned hkey hstep

/-- The server after the binary `[2]` was published for Windows, under the same
version. -/
def sampleSecondStore : Store :=
  { sampleFirstStore with
    catalogs := Files.ofList [("app", some ⟨"app",
      [⟨.new 1 0 0, [.linuxX86_64, .windowsX86_64], none, false, none⟩], .new 1 0 0⟩)]
    manifests := Files.ofList [(⟨"app", "1.0.0"⟩, some ⟨.new 1 0 0,
      Files.ofList [(.linuxX86_64, ⟨(sampleBlake3 [1]).toHex, 1, []⟩),
        (.windowsX86_64, ⟨(sampleBlake3 [2]).toHex, 1, []⟩)]⟩)]
    binaries := Files.ofList [((⟨"app", "1.0.0"⟩, .windowsX86_64), [2]),
      ((⟨"app", "1.0.0"⟩, .linuxX86_64), [1])]
    signatures := Files.ofList [(⟨"app", "1.0.0"⟩, sampleSig4.val)] }

/-- The signature of the binary `[2]` for Windows replaces the one of the binary
`[1]` for Linux. -/
theorem publish_second_platform_unsigned :
    ¬ ∀ (X : ServerCrates) (publisher : Publisher) (pubkey : ByteVec 32) (s : Store),
      publisher.pubkey = some pubkey →
      Reaches (Request.next X) (PublishesAs X publisher) Store.empty s →
      Signed X pubkey s.toArtifacts := by
  intro h
  have hsecond : (samplePublish .windowsX86_64 [2] sampleSig4).run sampleServer sampleFirstStore =
      (true, sampleSecondStore) := by decide +kernel
  have hrun : Reaches (Request.next sampleServer) (PublishesAs sampleServer samplePublisher)
      Store.empty
      (Request.next sampleServer Store.empty (samplePublish .linuxX86_64 [1] sampleSig1)) :=
    (Reaches.refl _).tail ⟨⟨_, _, _, rfl⟩, congrArg Prod.fst samplePublish_run⟩
  rw [Request.next, samplePublish_run] at hrun
  have hrun := hrun.tail (a := samplePublish .windowsX86_64 [2] sampleSig4)
    ⟨⟨_, _, _, rfl⟩, congrArg Prod.fst hsecond⟩
  rw [Request.next, hsecond] at hrun
  obtain ⟨b, sig, hb, -, hserved, hverifies⟩ := h sampleServer samplePublisher sampleKey _ rfl hrun
    ⟨"app", "1.0.0"⟩ _ .linuxX86_64 _ rfl rfl
  obtain rfl := Option.some.inj hb
  have hsig : sampleSecondStore.signatures.read ⟨"app", "1.0.0"⟩ = some sampleSig4.val := rfl
  rw [show downloadSignature _ _ _ _ = _ from
    downloadSignature_eq_ok (p := ⟨"app", "1.0.0"⟩) rfl rfl hsig] at hserved
  obtain rfl : sampleSig4 = sig := Subtype.ext (Except.ok.inj hserved)
  exact absurd hverifies (by decide +kernel)

end Deltaship
