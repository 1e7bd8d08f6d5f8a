import Deltaship.Client.Unseen

/-!
# Deltaship.Client.Needs

What an update needs behind the download: a checksum and a signature that are accepted, and a host
that lets the new file be put in place.  With these each step succeeds, and without them it fails.
-/

namespace Deltaship

open Prog

/-! ## what an update needs behind the download -/

/- Each check is looked at from both sides: what is known if it has succeeded, and that it succeeds
if this is given. The two together let a run that succeeded stand for what the server and the host
provide. -/

section Needs

variable (X : Crates) (e : Env) (mb : ManagedBinary) (upd : UpdateInfo)

/-- A signature that the pinned key accepts for these bytes is served. -/
def SignatureServed (data : Bytes) : Prop :=
  ∃ (url : String) (status : Nat) (length : Option Nat) (body : List Bytes) (sig : Signature)
      (key : ByteVec 32) (vk : VerifyingKey X.crypto),
    upd.signatureUrl = some url ∧
    (∀ sent, e.serve (sent ++ [.get url none]) = .response status length body none) ∧
    isSuccess status = true ∧ ByteVec.tryInto 64 body.flatten = some sig ∧
    ByteVec.tryInto 32 mb.publisherPublicKey = some key ∧
    VerifyingKey.fromBytes X.crypto key = .ok vk ∧
    vk.verify (updatePayload X upd data) sig = true

/-- Whatever was asked before, a signature that the pinned key accepts is sent. -/
def SignatureSent (data : Bytes) : Prop :=
  ∃ (url : String) (sig : Signature) (key : ByteVec 32) (vk : VerifyingKey X.crypto),
    upd.signatureUrl = some url ∧
    (∀ sent, ∃ status length body,
      e.serve (sent ++ [.get url none]) = .response status length body none ∧
        isSuccess status = true ∧ ByteVec.tryInto 64 body.flatten = some sig) ∧
    ByteVec.tryInto 32 mb.publisherPublicKey = some key ∧
    VerifyingKey.fromBytes X.crypto key = .ok vk ∧
    vk.verify (updatePayload X upd data) sig = true

/-- The new binary can be read, where it is. -/
def BinarySource.Readable (data : Bytes) : BinarySource → Prop
  | .inMemory _ => True
  | .onDisk _ => e.faults .hashSource = none ∧ e.faults .sourceMetadata = none ∧
      data.length ≤ maxSignatureSize ∧ e.faults .availableMemory = none ∧
      e.faults .readSource = none

/-- No step of the installation fails, and the install path is valid. -/
structure Installable : Prop where
  parent : ∃ parent, parentPath mb.installPath = some parent
  createParentDir : e.faults .createParentDir = none
  tempCreate : e.faults .tempCreate = none
  parentStat : e.faults .parentStat = none
  tempMode : e.faults .tempMode = none
  writeTemp : e.faults .writeTemp = none
  tempExec : e.faults .tempExec = none
  parentRestat : e.faults .parentRestat = none
  persist : e.faults .persist = none
  valid : ∀ w : World, (w.file mb.installPath).isSome = true →
    (exec (validateInstallPath e.host mb.installPath) w).1 = .ok ()

end Needs

section Checks

variable {X : Crates} {e : Env} {mb : ManagedBinary} {upd : UpdateInfo} {w : World}
  {src : BinarySource} {data : Bytes} {path : String}

/-- If the check of the checksum succeeds, the file could be hashed. -/
theorem wp_checkSource_inv {expected : Hash} :
    wp (checkSource X e (.onDisk path) expected) (fun _ _ => e.faults .hashSource = none)
      (fun _ _ => True) w := by
  unfold checkSource BinarySource.verifyChecksum BinarySource.hash hashFile
  simp only [wp_bind, wp_attempt]
  refine wp_readFile (fun b hf _ => ?_) fun msg _ => ?_
  · refine wp_bailIf (fun _ => hf) fun _ => ?_
    exact wp_mono (fun _ _ _ => trivial) (fun _ _ _ => trivial) wp_self
  · exact wp_mono (fun _ _ _ => trivial) (fun _ _ _ => trivial) wp_self

/-- What can be read and has the checksum passes the check. -/
theorem wp_checkSource_of (hdata : src.content w = some data) (hread : src.Readable e data) :
    wp (checkSource X e src (X.crypto.blake3 data))
      (fun _ w' => w' = w.record (.checksum (X.crypto.blake3 data) (X.crypto.blake3 data)))
      (fun _ _ => False) w := by
  unfold checkSource BinarySource.verifyChecksum
  simp only [wp_bind, wp_attempt]
  have hbail : ∀ {E : String → World → Prop} {msg : String},
      wp (bailIf (X.crypto.blake3 data ≠ X.crypto.blake3 data) msg)
        (fun _ w' => w' = w.record (.checksum (X.crypto.blake3 data) (X.crypto.blake3 data))) E
        (w.record (.checksum (X.crypto.blake3 data) (X.crypto.blake3 data))) :=
    wp_bailIf (fun _ => rfl) fun hne => absurd rfl hne
  cases src with
  | inMemory bytes =>
      obtain rfl : bytes = data := Option.some.inj hdata
      exact hbail
  | onDisk path =>
      unfold BinarySource.hash hashFile
      rw [wp_bind]
      exact wp_readFile_of hread.1 hdata hbail

/-- If it is read for the verification, it could be, and is not too long. -/
theorem wp_readForVerification_inv (hfile : w.file path = some data) :
    wp ((BinarySource.onDisk path).readForVerification e)
      (fun b w' => b = data ∧ w' = w ∧ e.faults .sourceMetadata = none ∧
        data.length ≤ maxSignatureSize ∧ e.faults .availableMemory = none ∧
        e.faults .readSource = none) (fun _ _ => True) w := by
  simp only [BinarySource.readForVerification, context, wp_bind, wp_mapErr]
  refine wp_fileLen (fun b hmeta hb => ?_) fun _ _ => trivial
  obtain rfl : b = data := Option.some.inj (hb.symm.trans hfile)
  refine wp_bailIf (fun hsize => ?_) fun _ => trivial
  refine wp_guardIo (fun hmemory => ?_) fun _ _ => trivial
  refine wp_readFile (fun b' hread hb' => ?_) fun _ _ => trivial
  obtain rfl : b' = b := Option.some.inj (hb'.symm.trans hfile)
  exact ⟨rfl, rfl, hmeta, Nat.not_lt.mp hsize, hmemory, hread⟩

/-- What can be read is read for the verification. -/
theorem wp_readForVerification_of (hdata : src.content w = some data)
    (hread : src.Readable e data) :
    wp (src.readForVerification e) (fun b w' => b = data ∧ w' = w) (fun _ _ => False) w := by
  cases src with
  | inMemory bytes =>
      obtain rfl : bytes = data := Option.some.inj hdata
      exact ⟨rfl, rfl⟩
  | onDisk path =>
      obtain ⟨-, hmeta, hsize, hmemory, hread⟩ := hread
      simp only [BinarySource.readForVerification, context, wp_bind, wp_mapErr]
      refine wp_fileLen_of hmeta hdata ?_
      refine wp_bailIf (fun _ => ?_) fun hbig => absurd hsize (Nat.not_le.mpr hbig)
      refine wp_guardIo (fun _ => ?_) fun _ hne => absurd hmemory hne
      exact wp_readFile_of hread hdata ⟨rfl, rfl⟩

/-- A signature that was accepted is served again. -/
theorem wp_verifySignature_inv (hurl : ∀ url, upd.signatureUrl = some url → e.Repeats url)
    (hfile : w.file path = some data) (hhash : e.faults .hashSource = none) :
    wp (verifySignature X e mb upd (.onDisk path))
      (fun _ _ => SignatureServed X e mb upd data ∧ (BinarySource.onDisk path).Readable e data)
      (fun _ _ => True) w := by
  unfold verifySignature downloadBytes
  simp only [wp_bind]
  refine wp_orThrow (fun url hsome => ?_) fun _ => trivial
  show wp _ _ _ (w.send (.get url none))
  cases hreply : e.serve (w.send (.get url none)).sent with
  | failed msg => trivial
  | response status length body cut =>
      simp only [wp_bind]
      refine wp_bailIf (fun hstatus => ?_) fun _ => trivial
      cases cut with
      | some msg => trivial
      | none =>
          refine wp_orThrow (fun sig hsig => ?_) fun _ => trivial
          refine wp_orThrow (fun key hkey => ?_) fun _ => trivial
          unfold ofCrypto
          rw [wp_ofExcept]
          cases hvk : VerifyingKey.fromBytes X.crypto key with
          | error err => trivial
          | ok vk =>
              refine wp_mono ?_ (fun _ _ _ => trivial)
                (wp_readForVerification_inv (w := w.send (.get url none)) hfile)
              rintro b w' ⟨rfl, rfl, hread⟩
              unfold requireAccepted
              rw [wp_bind]
              cases haccepted : vk.verify
                  (signingPayload (X.crypto.blake3 b).val (X.semver.display upd.version)) sig with
              | false => exact wp_mono (fun _ _ _ => trivial) (fun _ _ _ => trivial) wp_self
              | true =>
                  refine ⟨⟨url, status, length, body, sig, key, vk, hsome, fun sent => ?_,
                    by simpa using hstatus, hsig, hkey, hvk, haccepted⟩, hhash, hread⟩
                  rw [← hreply]
                  exact hurl url hsome _ sent w.sent rfl

theorem SignatureServed.sent (h : SignatureServed X e mb upd data) :
    SignatureSent X e mb upd data := by
  obtain ⟨url, status, length, body, sig, key, vk, hsome, hserve, hstatus, hsig, hkey, hvk,
    haccepted⟩ := h
  exact ⟨url, sig, key, vk, hsome, fun sent => ⟨status, length, body, hserve sent, hstatus, hsig⟩,
    hkey, hvk, haccepted⟩

/-- What the publisher has signed passes the check of the signature. -/
theorem wp_verifySignature_of (hserved : SignatureSent X e mb upd data)
    (hdata : src.content w = some data) (hread : src.Readable e data) :
    wp (verifySignature X e mb upd src) (fun _ w' => w'.files = w.files ∧ w'.dirs = w.dirs)
      (fun _ _ => False) w := by
  obtain ⟨url, sig, key, vk, hsome, hserve, hkey, hvk, haccepted⟩ := hserved
  obtain ⟨status, length, body, hreply, hstatus, hsig⟩ := hserve w.sent
  unfold verifySignature downloadBytes
  simp only [wp_bind, hsome]
  show wp _ _ _ (w.send (.get url none))
  rw [show e.serve (w.send (.get url none)).sent = .response status length body none from hreply]
  simp only [wp_bind]
  refine wp_bailIf (fun _ => ?_) fun hfail => absurd hstatus (by simp [hfail])
  rw [wp_pure, hsig, hkey]
  unfold ofCrypto
  show wp (Prog.ofExcept _) _ _ _
  rw [wp_ofExcept, hvk]
  refine wp_mono ?_ (fun _ _ h => h)
    (wp_readForVerification_of (w := w.send (.get url none)) ?_ hread)
  · rintro b w' ⟨rfl, rfl⟩
    unfold requireAccepted
    rw [wp_bind, show vk.verify (signingPayload _ _) sig = true from haccepted]
    exact ⟨rfl, rfl⟩
  · exact (src.content_congr (.of_eq rfl rfl rfl)).trans hdata

end Checks

/-! ## the installation -/

/- The same for the steps that put the new binary in place. -/

section Installation

variable {X : Crates} {e : Env} {mb : ManagedBinary} {upd : UpdateInfo} {w : World}
  {src : BinarySource} {data : Bytes} {path : String}

/-- The check of a file that is there is that of its canonical path. -/
theorem exec_checkPath {h : Host} {p : String} (hfile : (w.file p).isSome = true) :
    exec (checkPath h p) w = exec (orThrow (h.canonicalize p)
      s!"Failed to resolve canonical path for '{p}'") w := by
  have hexists : w.pathExists p = true := by simp [World.pathExists, hfile]
  unfold checkPath
  rw [exec_bind_ok (show exec (pathExists p) w = (.ok true, w) by rw [← hexists]; rfl)]
  rfl

/-- The check of the owner does not depend on the files. -/
theorem respects_checkOwner {R : World → World → Prop} (h : Host) (p : String) :
    Respects R (checkOwner h p) := by
  unfold checkOwner
  cases h.uid p with
  | some uid => exact .ite .throw .pure
  | none =>
      dsimp only
      split
      · exact .ite .throw .pure
      · exact .pure

/-- Whether the path of a file is valid does not depend on anything else. -/
theorem respects_validateInstallPath (h : Host) (p : String) :
    Respects (fun w w' => (w.file p).isSome = true ∧ (w'.file p).isSome = true)
      (validateInstallPath h p) := by
  refine .bind respects_bailIf fun _ => .bind (fun w w' hfile => ?_) fun checked => ?_
  · rw [exec_checkPath hfile.1, exec_checkPath hfile.2]
    exact respects_orThrow
      (R := fun w w' => (w.file p).isSome = true ∧ (w'.file p).isSome = true) w w' hfile
  · cases matchedPrivilegedPath h checked with
    | some privileged => exact .throw
    | none => exact respects_checkOwner h checked

/-- If it is written, the write did not fail. -/
theorem wp_writeTo_inv {temp : String} :
    wp (src.writeTo e temp) (fun _ _ => e.faults .writeTemp = none) (fun _ _ => True) w := by
  cases src with
  | inMemory bytes => exact wp_writeFile (fun hf => hf) fun _ _ _ _ => trivial
  | onDisk path => exact wp_copyFile (fun _ hf _ => hf) fun _ _ _ _ => trivial

/-- An installation over a file says what it needed. -/
theorem wp_installBinary_inv (hfile : (w.file mb.installPath).isSome = true)
    (hsrc : src.Within (· ≠ mb.installPath)) :
    wp (installBinary e mb src) (fun _ _ => Installable e mb) (fun _ _ => True) w := by
  unfold installBinary
  rw [wp_bind]
  refine wp_orThrow (fun parent hparent => ?_) fun _ => trivial
  unfold createDirAll
  simp only [wp_bind]
  refine wp_guardIo (fun hdir => ?_) fun _ _ => trivial
  rw [wp_modify]
  refine wp_mono ?_ (fun _ _ h => h) (wp_persistTemp_inv
    (F := e.faults .parentStat = none ∧ e.faults .tempMode = none ∧
      e.faults .writeTemp = none ∧ e.faults .tempExec = none ∧ e.faults .parentRestat = none ∧
      ∀ w : World, (w.file mb.installPath).isSome = true →
        (exec (validateInstallPath e.host mb.installPath) w).1 = .ok ()) fun temp hnone => ?_)
  · rintro _ _ ⟨hcreate, hrename, hstat, hmode, hwrite, hexec, hrestat, hvalid⟩
    exact ⟨⟨parent, hparent⟩, hdir, hcreate, hstat, hmode, hwrite, hexec, hrestat, hrename, hvalid⟩
  -- the installed file is there until the rename
  generalize hw₁ : ({ w with dirs := w.dirs.insert parent } : World) = w₁ at hnone ⊢
  have hfile₁ : (w₁.file mb.installPath).isSome = true := by
    rw [← hw₁]
    exact hfile
  have hne : mb.installPath ≠ temp := by
    rintro rfl
    rw [hnone] at hfile₁
    contradiction
  have hthere : ∀ w₂, Touches (· ≠ mb.installPath) (w₁.write temp []) w₂ →
      (w₂.file mb.installPath).isSome = true := by
    intro w₂ h₂
    rw [h₂.file (fun h => h rfl), w₁.file_write_ne _ hne]
    exact hfile₁
  simp only [wp_bind, context, wp_mapErr]
  refine wp_guardIo (fun hstat => ?_) fun _ _ => trivial
  refine wp_guardIo (fun hmode => ?_) fun _ _ => trivial
  refine wp_mono ?_ (fun _ _ _ => trivial)
    (wp_and wp_writeTo_inv ((preserves_writeTo (P := (· ≠ mb.installPath)) hne.symm).wp
      (fun _ _ h => h) fun _ _ h => h))
  rintro _ w₂ ⟨hwrite, h₂⟩
  refine wp_mono ?_ (fun _ _ _ => trivial)
    ((preserves_cleanup hsrc).wp (fun _ _ h => h₂.trans h) fun _ _ h => h₂.trans h)
  intro _ w₃ h₃
  refine wp_guardIo (fun hexec => ?_) fun _ _ => trivial
  refine wp_mono ?_ (fun _ _ _ => trivial) wp_self
  intro _ w₄ hvalid
  refine wp_guardIo (fun hrestat => ?_) fun _ _ => trivial
  refine ⟨hstat, hmode, hwrite, hexec, hrestat, fun w' hw' => ?_⟩
  rw [(respects_validateInstallPath e.host mb.installPath w' w₃ ⟨hw', hthere w₃ h₃⟩).1, hvalid]

/-- What can be read is written to the temporary file. -/
theorem wp_writeTo_of {temp : String} (hf : e.faults .writeTemp = none)
    (hdata : src.content w = some data) (hnone : w.file temp = none) :
    wp (src.writeTo e temp) (fun _ _ => True) (fun _ _ => False) (w.write temp []) := by
  cases src with
  | inMemory bytes => exact wp_writeFile (fun _ => trivial) fun _ _ hne _ => hne hf
  | onDisk path =>
      have hpath : w.file path = some data := hdata
      have hne : path ≠ temp := by
        rintro rfl
        rw [hnone] at hpath
        contradiction
      refine wp_copyFile (fun _ _ _ => trivial) ?_
      rintro _ _ (hfault | ⟨hgone, -⟩) _
      · exact hfault hf
      · rw [w.file_write_ne _ hne, hpath] at hgone
        contradiction

/-- Removing the download never fails the update. -/
theorem wp_cleanup {P : String → Prop} {Q : Unit → World → Prop} {E : String → World → Prop}
    (hsrc : src.Within P) (h : ∀ w', Touches P w w' → Q () w') : wp (src.cleanup e) Q E w := by
  cases src with
  | inMemory bytes => exact h w (.refl P w)
  | onDisk path =>
      unfold BinarySource.cleanup
      rw [wp_ignore]
      exact h _ (preserves_removeFile hsrc w)

/-- An installation over a file does not fail if it has what it needs. -/
theorem wp_installBinary_of (hneeds : Installable e mb) (hfresh : e.TempFresh)
    (hfile : (w.file mb.installPath).isSome = true) (hsrc : src.Within (· ≠ mb.installPath))
    (hdata : src.content w = some data) :
    wp (installBinary e mb src) (fun _ _ => True) (fun _ _ => False) w := by
  obtain ⟨parent, hparent⟩ := hneeds.parent
  unfold installBinary createDirAll
  simp only [wp_bind]
  refine wp_orThrow (fun parent' hparent' => ?_) fun hnone => by
    rw [hparent] at hnone
    contradiction
  refine wp_guardIo (fun _ => ?_) fun _ hne => hne hneeds.createParentDir
  rw [wp_modify]
  generalize hw₁ : ({ w with dirs := w.dirs.insert parent' } : World) = w₁
  have hfile₁ : (w₁.file mb.installPath).isSome = true := by
    rw [← hw₁]
    exact hfile
  have hdata₁ : src.content w₁ = some data := by
    rw [← hw₁]
    exact (src.content_congr (.of_eq rfl rfl rfl)).trans hdata
  refine wp_persistTemp ?_ fun temp hex => ?_
  · rintro _ (hne | hne)
    · exact hne hneeds.tempCreate
    · exact hne hfresh
  have hnone := w₁.file_eq_none_of_not_pathExists hex
  have hne : mb.installPath ≠ temp := by
    rintro rfl
    rw [hnone] at hfile₁
    contradiction
  simp only [wp_bind, context, wp_mapErr]
  refine wp_guardIo (fun _ => ?_) fun _ hne => hne hneeds.parentStat
  refine wp_guardIo (fun _ => ?_) fun _ hne => hne hneeds.tempMode
  refine wp_mono ?_ (fun _ _ h => h.2)
    (wp_and (wp_writeTo hdata₁ hnone) (wp_writeTo_of hneeds.writeTemp hdata₁ hnone))
  rintro _ w₂ ⟨⟨h₂, htemp⟩, -⟩
  refine wp_cleanup (BinarySource.within_ne hsrc hdata₁ hnone) fun w₃ h₃ => ?_
  have hthere : (w₃.file mb.installPath).isSome = true := by
    rw [h₃.file (fun h => h.1 rfl), h₂.file hne, w₁.file_write_ne _ hne]
    exact hfile₁
  have htemp₃ : w₃.file temp = some data := (h₃.file fun h => h.2 rfl).trans htemp
  refine wp_guardIo (fun _ => ?_) fun _ hne => hne hneeds.tempExec
  have hvalid := hneeds.valid w₃ hthere
  refine wp_mono ?_ (fun _ _ h => ?_) (wp_and wp_self
    ((preserves_validateInstallPath (R := Eq) e.host mb.installPath).wp (fun _ _ h => h)
      fun _ _ h => h))
  · rintro _ w₄ ⟨-, rfl⟩
    refine wp_guardIo (fun _ => ?_) fun _ hne => hne hneeds.parentRestat
    refine ⟨fun _ _ _ => trivial, fun _ hwhy => ?_⟩
    rcases hwhy with hfault | hgone
    · exact hfault hneeds.persist
    · rw [htemp₃] at hgone
      contradiction
  · rw [h.1] at hvalid
    contradiction

end Installation

end Deltaship
