import Deltaship.Client.Patcher
import Deltaship.Lib.Trace

/-!
# Deltaship.Client.Execute

What `execute_update` does, step by step.

Up to the rename it only touches its two download files; the rename puts
exactly the bytes in place that passed both checks; after the rename only the
sidecar is written.  `wp_executeUpdate` says so for every outcome: a run that
fails before the rename satisfies `Touches`, and any other run satisfies
`Swapped`, which holds the bytes, the signature and the log.
-/

namespace Deltaship

open Prog Trace

/-! ## renaming a temporary file -/

/-- A file was renamed to `dst`; apart from it, only files in `P` changed. -/
structure Placed (P : String → Prop) (dst : String) (b : Bytes) (w w' : World) : Prop where
  file : w'.file dst = some b
  frame : ∀ p, ¬ P p → p ≠ dst → w'.file p = w.file p
  db : w'.db = w.db
  log : ∃ evs src, w'.log = w.log ++ (evs ++ [.rename src dst b]) ∧ Quiet evs

/-- What was touched aside before does not matter for what is in place. -/
theorem Placed.of_touches {P : String → Prop} {dst : String} {b : Bytes} {w w₁ w' : World}
    (h : Touches P w w₁) (h' : Placed P dst b w₁ w') : Placed P dst b w w' := by
  obtain ⟨evs, hlog, hq⟩ := h.log
  obtain ⟨evs', src, hlog', hq'⟩ := h'.log
  refine ⟨h'.file, fun p hp hpd => (h'.frame p hp hpd).trans (h.file hp), h'.db.trans h.db,
    evs ++ evs', src, ?_, hq.append hq'⟩
  rw [hlog', hlog]
  simp only [List.append_assoc]

/-- `persistTemp` places the bytes the filler wrote, or leaves no trace of the
temporary file and has a reason `F` for failing. -/
theorem wp_persistTemp_placed {e : Env} {w : World} {P : String → Prop} {create rename : Site}
    {dir dst : String} {createErr persistErr : String → String} {fill : String → M Unit}
    {data : Bytes}
    {F : Prop} (hcreate : e.faults create ≠ none ∨ ¬ e.TempFresh → F)
    (hrename : e.faults rename ≠ none → F)
    (hfill : ∀ temp, w.file temp = none →
      wp (fill temp)
        (fun _ w' => Touches (fun p => P p ∨ p = temp) (w.write temp []) w' ∧
          w'.file temp = some data)
        (fun _ w' => Touches (fun p => P p ∨ p = temp) (w.write temp []) w' ∧ F)
        (w.write temp [])) :
    wp (persistTemp e create rename dir dst createErr persistErr fill)
      (fun _ w' => Placed P dst data w w') (fun _ w' => Touches P w w' ∧ F) w := by
  -- whatever the filler did, removing the temporary file undoes its creation
  have hdrop : ∀ temp w', w.file temp = none →
      Touches (fun p => P p ∨ p = temp) (w.write temp []) w' → Touches P w (w'.remove temp) := by
    intro temp w' hnone h
    refine ⟨fun p hp => ?_, h.db, h.log⟩
    by_cases hpt : p = temp
    · subst hpt
      exact (w'.files.read_remove_self p).trans hnone.symm
    · calc (w'.remove temp).file p = w'.file p := w'.file_remove_ne hpt
        _ = (w.write temp []).file p := h.file fun h' => h'.elim hp hpt
        _ = w.file p := w.file_write_ne _ hpt
  refine wp_persistTemp (fun _ hwhy => ⟨.refl P w, hcreate hwhy⟩) fun temp hex => ?_
  have hnone := w.file_eq_none_of_not_pathExists hex
  refine wp_mono ?_ (fun _ w' h => ⟨hdrop temp w' hnone h.1, h.2⟩) (hfill temp hnone)
  rintro _ w' ⟨hframe, hdata⟩
  refine ⟨fun b _ hb => ?_, fun _ hwhy => ⟨hdrop temp w' hnone hframe, ?_⟩⟩
  · have hbd : b = data := Option.some.inj (hb.symm.trans hdata)
    subst hbd
    obtain ⟨evs, hlog, hq⟩ := hframe.log
    refine ⟨w'.file_rename_self b, fun p hp hpd => ?_, hframe.db, evs, temp, ?_, hq⟩
    · by_cases hpt : p = temp
      · subst hpt
        exact (w'.files.read_move_src b hpd).trans hnone.symm
      · calc (w'.rename temp dst b).file p = w'.file p := w'.file_rename_ne b hpt hpd
          _ = (w.write temp []).file p := hframe.file fun h' => h'.elim hp hpt
          _ = w.file p := w.file_write_ne _ hpt
    · show w'.log ++ [Event.rename temp dst b] = _
      rw [hlog, List.append_assoc]
      rfl
  · rcases hwhy with hfault | hgone
    · exact hrename hfault
    · rw [hdata] at hgone
      contradiction

/-! ## obtaining the binary -/

/-- The files an update may download to. -/
def DownloadFile (cfg : ClientConfig) (mb : ManagedBinary) (upd : UpdateInfo) (p : String) : Prop :=
  p = diffPath cfg mb upd ∨ p = fullPath cfg mb upd

instance (cfg : ClientConfig) (mb : ManagedBinary) (upd : UpdateInfo) (p : String) :
    Decidable (DownloadFile cfg mb upd p) := inferInstanceAs (Decidable (_ ∨ _))

namespace BinarySource

/-- The bytes of the new binary. -/
def content (w : World) : BinarySource → Option Bytes
  | .inMemory data => some data
  | .onDisk path => w.file path

/-- A binary on disk is in one of the files in `P`. -/
def Within (P : String → Prop) : BinarySource → Prop
  | .inMemory _ => True
  | .onDisk path => P path

/-- What was obtained is the same as long as no file was touched. -/
theorem content_congr {w w' : World} (h : Touches (fun _ => False) w w') (src : BinarySource) :
    src.content w' = src.content w := by
  cases src with
  | inMemory data => rfl
  | onDisk path => exact h.file not_false

/-- A binary that has a content is not in a file that does not exist. -/
theorem within_ne {P : String → Prop} {w : World} {src : BinarySource} {data : Bytes}
    (hsrc : src.Within P) (hdata : src.content w = some data) {temp : String}
    (hnone : w.file temp = none) : src.Within fun p => P p ∧ p ≠ temp := by
  cases src with
  | inMemory bytes => trivial
  | onDisk path =>
      refine ⟨hsrc, ?_⟩
      rintro rfl
      rw [content, hnone] at hdata
      contradiction

end BinarySource

section Steps

variable {X : Crates} {e : Env} {w : World} {mb : ManagedBinary} {upd : UpdateInfo}
  {P : String → Prop} {src : BinarySource}

/-- Hashing a file changes nothing. -/
theorem preserves_hashFile {R : World → World → Prop} [IsPreorder World R] {site : Site}
    {p : String} : Preserves R (hashFile X e site p) :=
  .bind preserves_readFile fun _ => .pure

/-- Nor does passing an error of the crates on. -/
theorem preserves_ofCrypto {R : World → World → Prop} [IsPreorder World R] {α : Type}
    {r : Except CryptoError α} : Preserves R (ofCrypto r) := .ofExcept

theorem preserves_cleanup (hsrc : src.Within P) : Preserves (Touches P) (src.cleanup e) := by
  cases src with
  | inMemory data => exact .pure
  | onDisk path => exact .ignore (preserves_removeFile hsrc)

/-- Making the binary from the diff does what a download does, at most. -/
theorem preserves_patchWithDiff {R : World → World → Prop} [IsPreorder World R]
    (hR : DownloadFrame R (diffPath e.config mb upd)) :
    Preserves R (patchWithDiff X e mb upd) := by
  have hremove : Preserves R (ignore (removeFile e .removeDiff (diffPath e.config mb upd))) :=
    .ignore (preserves_removeFile_of hR.remove)
  refine .bind preserves_orThrow fun _ => .bind preserves_ofCrypto fun expected => ?_
  refine .bind preserves_hashFile fun actual => .ite ?_ ?_
  · exact .bind hremove fun _ => .throw
  · refine .bind preserves_readFile fun _ => .bind preserves_readFile fun _ => ?_
    exact .bind hremove fun _ => .bind .ofExcept fun _ => .ofExcept

/-- A diff is only downloaded and removed. -/
theorem preserves_applyDiffUpdate {R : World → World → Prop} [IsPreorder World R]
    (hR : DownloadFrame R (diffPath e.config mb upd)) {metrics : UpdateMetrics} :
    Preserves R (applyDiffUpdate X e mb upd metrics) := by
  unfold applyDiffUpdate
  cases upd.diffUrl with
  | none => exact .pure
  | some url =>
      refine .bind (.attempt (preserves_downloadFileWithProgress_of hR)) fun r => ?_
      cases r with
      | error err => exact .pure
      | ok n =>
          refine .bind (.attempt preserves_fileLen) fun r => ?_
          cases r with
          | error err => exact .pure
          | ok size => exact .bind (.attempt (preserves_patchWithDiff hR)) fun _ => .pure

/-- The full binary comes from the download, whose files only are touched. -/
theorem wp_downloadFullBinary {metrics : UpdateMetrics} :
    wp (downloadFullBinary X e mb upd metrics)
      (fun r w' => r.2.Within (DownloadFile e.config mb upd) ∧
        Touches (DownloadFile e.config mb upd) w w')
      (fun _ w' => Touches (DownloadFile e.config mb upd) w w') w := by
  unfold downloadFullBinary
  refine Preserves.wp_bind preserves_orThrow (fun url w₁ h₁ => ?_) fun _ _ h => h
  refine Preserves.wp_bind (preserves_downloadFileWithProgress (.inr rfl)) (fun _ w₂ h₂ => ?_)
    fun _ _ h => h₁.trans h
  refine Preserves.wp_bind preserves_fileLen (fun _ w₃ h₃ => ?_) fun _ _ h => (h₁.trans h₂).trans h
  exact ⟨.inr rfl, (h₁.trans h₂).trans h₃⟩

/-- Whichever way the binary is obtained, only the download files change. -/
theorem wp_obtainBinary :
    wp (obtainBinary X e mb upd)
      (fun r w' => r.2.Within (DownloadFile e.config mb upd) ∧
        Touches (DownloadFile e.config mb upd) w w')
      (fun _ w' => Touches (DownloadFile e.config mb upd) w w') w := by
  unfold obtainBinary
  rw [wp_bind, wp_pathExists]
  split
  · have hR : DownloadFrame (Touches (DownloadFile e.config mb upd)) (diffPath e.config mb upd) :=
      downloadFrame_touches (.inl rfl)
    refine Preserves.wp_bind (preserves_applyDiffUpdate hR) (fun r w₁ h₁ => ?_) fun _ _ h => h
    obtain ⟨metrics, r⟩ := r
    cases r with
    | ok data => exact ⟨trivial, h₁⟩
    | error err =>
        -- the diff failed: fall back to the full binary
        exact wp_mono (fun _ _ h => ⟨h.1, h₁.trans h.2⟩) (fun _ _ h => h₁.trans h)
          wp_downloadFullBinary
  · exact wp_downloadFullBinary

/-! ## the two checks -/

/-- The hash is that of what was obtained. -/
theorem wp_hash {Q : Hash → World → Prop} {E : String → World → Prop}
    (hok : ∀ data, src.content w = some data → Q (X.crypto.blake3 data) w)
    (hfail : ∀ msg, E msg w) : wp (src.hash X e) Q E w := by
  cases src with
  | inMemory data => exact hok data rfl
  | onDisk path =>
      unfold BinarySource.hash hashFile
      rw [wp_bind]
      exact wp_readFile (fun b _ hb => hok b hb) fun msg _ => hfail msg

/-- A checksum that passes is the hash of the new binary. -/
theorem wp_checkSource (hsrc : src.Within P) {expected : Hash} :
    wp (checkSource X e src expected)
      (fun _ w' => ∃ data, src.content w = some data ∧ X.crypto.blake3 data = expected ∧
        w' = w.record (.checksum expected expected))
      (fun _ w' => Touches P w w') w := by
  unfold checkSource BinarySource.verifyChecksum
  simp only [wp_bind, wp_attempt]
  have hcleanup : ∀ w₁, Touches P w w₁ →
      wp (src.cleanup e) (fun _ w' => Touches P w w') (fun _ w' => Touches P w w') w₁ :=
    fun w₁ h₁ => (preserves_cleanup hsrc).wp (fun _ _ h => h₁.trans h) fun _ _ h => h₁.trans h
  refine wp_hash (fun data hdata => ?_) fun _ => hcleanup w (.refl P w)
  refine wp_bailIf (fun heq => ?_) fun _ => hcleanup _ (preserves_emit rfl w)
  have heq : X.crypto.blake3 data = expected := (not_not.mp heq).symm
  exact ⟨data, hdata, heq, by rw [heq]⟩

/-- The message the publisher signs for an update with these bytes. -/
def updatePayload (X : Crates) (upd : UpdateInfo) (data : Bytes) : Bytes :=
  signingPayload (X.crypto.blake3 data).val (X.semver.display upd.version)

theorem wp_readForVerification {Q : Bytes → World → Prop} {E : String → World → Prop}
    (hok : ∀ data, src.content w = some data → Q data w) (hfail : ∀ msg, E msg w) :
    wp (src.readForVerification e) Q E w := by
  cases src with
  | inMemory data => exact hok data rfl
  | onDisk path =>
      simp only [BinarySource.readForVerification, context, wp_bind, wp_mapErr]
      refine wp_fileLen (fun _ _ _ => ?_) fun msg _ => hfail msg
      refine wp_bailIf (fun _ => ?_) fun _ => hfail _
      refine wp_guardIo (fun _ => ?_) fun msg _ => hfail msg
      exact wp_readFile (fun b _ hb => hok b hb) fun _ _ => hfail _

/-- A signature that is not accepted ends the update, and the download is cleaned up. -/
theorem wp_requireAccepted {w₁ : World} (hsrc : src.Within P) (h₁ : Touches P w w₁)
    (hlog : w₁.log = w.log) {key : ByteVec 32} {payload : Bytes} {sig : Signature}
    {accepted : Bool} :
    wp (requireAccepted e src key payload sig accepted)
      (fun sig' w' => sig' = sig ∧ accepted = true ∧ w'.files = w₁.files ∧ w'.db = w.db ∧
        w'.log = w.log ++ [.verify key payload sig true])
      (fun _ w' => Touches P w w') w₁ := by
  unfold requireAccepted
  rw [wp_bind]
  cases accepted with
  | true => exact ⟨rfl, rfl, rfl, h₁.db, congrArg (· ++ [_]) hlog⟩
  | false =>
      have hemit := h₁.trans (.record P w₁ (.verify key payload sig false) rfl)
      exact Preserves.wp_bind (preserves_cleanup hsrc) (fun _ _ h => hemit.trans h)
        fun _ _ h => hemit.trans h

/-- A signature that passes was accepted by the pinned key for the bytes of the
new binary and the version they are offered as. -/
theorem wp_verifySignature (hsrc : src.Within (DownloadFile e.config mb upd)) {data : Bytes}
    (hdata : src.content w = some data) :
    wp (verifySignature X e mb upd src)
      (fun sig w' => ∃ key : ByteVec 32, key.val = mb.publisherPublicKey ∧
        X.crypto.verifyStrict key (updatePayload X upd data) sig = true ∧
        w'.files = w.files ∧ w'.db = w.db ∧
        w'.log = w.log ++ [.verify key (updatePayload X upd data) sig true])
      (fun _ w' => Touches (DownloadFile e.config mb upd) w w') w := by
  unfold verifySignature downloadBytes
  simp only [wp_bind]
  refine wp_orThrow (fun url _ => ?_) fun _ => .refl _ w
  -- the request only adds to the requests sent
  show wp _ _ _ (w.send (.get url none))
  have hsent : Touches (DownloadFile e.config mb upd) w (w.send (.get url none)) :=
    .of_eq rfl rfl rfl
  have hcontent : src.content (w.send (.get url none)) = some data :=
    (src.content_congr (.of_eq rfl rfl rfl)).trans hdata
  cases e.serve (w.send (.get url none)).sent with
  | failed msg => exact hsent
  | response status length body cut =>
      simp only [wp_bind]
      refine wp_bailIf (fun _ => ?_) fun _ => hsent
      cases cut with
      | some msg => exact hsent
      | none =>
          refine wp_orThrow (fun sig _ => ?_) fun _ => hsent
          refine wp_orThrow (fun key hkey => ?_) fun _ => hsent
          unfold ofCrypto
          rw [wp_ofExcept]
          cases hk : VerifyingKey.fromBytes X.crypto key with
          | error err => exact hsent
          | ok vk =>
              refine wp_readForVerification (fun data' hdata' => ?_) fun _ => hsent
              have heq : data' = data := Option.some.inj (hdata'.symm.trans hcontent)
              have hvk : vk.bytes = key := VerifyingKey.bytes_of_fromBytes hk
              subst heq
              refine wp_mono ?_ (fun _ _ h => h) (wp_requireAccepted hsrc hsent rfl)
              rintro _ w' ⟨rfl, hv, hfiles, hdb, hlog⟩
              exact ⟨key, (ByteVec.tryInto_eq_some.mp hkey).symm, hvk ▸ hv, hfiles, hdb, hlog⟩

/-! ## installing -/

/-- What was obtained is written to the temporary file. -/
theorem preserves_writeTo {temp : String} (hp : P temp) :
    Preserves (Touches P) (src.writeTo e temp) := by
  cases src with
  | inMemory data => exact preserves_writeFile hp
  | onDisk path => exact preserves_copyFile hp

/-- Writing the new binary to a new file writes all of it. -/
theorem wp_writeTo {temp : String} {data : Bytes} (hdata : src.content w = some data)
    (hnone : w.file temp = none) :
    wp (src.writeTo e temp)
      (fun _ w' => Touches (· = temp) (w.write temp []) w' ∧ w'.file temp = some data)
      (fun _ w' => Touches (· = temp) (w.write temp []) w') (w.write temp []) := by
  cases src with
  | inMemory bytes =>
      have hbytes : bytes = data := Option.some.inj hdata
      subst hbytes
      exact wp_writeFile (fun _ => ⟨.write rfl, World.file_write_self _ _⟩) fun _ _ _ h => h
  | onDisk path =>
      have hne : path ≠ temp := by
        rintro rfl
        have hsome : w.file path = some data := hdata
        rw [hnone] at hsome
        contradiction
      have hpath : (w.write temp []).file path = some data := (w.file_write_ne _ hne).trans hdata
      refine wp_copyFile (fun b _ hb => ?_) fun _ _ _ h => h
      have hb : b = data := Option.some.inj (hb.symm.trans hpath)
      rw [if_neg hne, hb]
      exact ⟨.write rfl, World.file_write_self _ _⟩

/-- Installing places exactly the bytes of the new binary. -/
theorem wp_installBinary (hsrc : src.Within P) {data : Bytes} (hdata : src.content w = some data) :
    wp (installBinary e mb src)
      (fun _ w' => Placed P mb.installPath data w w') (fun _ w' => Touches P w w') w := by
  unfold installBinary
  rw [wp_bind]
  refine wp_orThrow (fun parent _ => ?_) fun _ => .refl P w
  refine Preserves.wp_bind preserves_createDirAll (fun _ w₁ h₁ => ?_)
    fun _ _ h => h.mono fun _ => False.elim
  have hdata₁ : src.content w₁ = some data := (src.content_congr h₁).trans hdata
  have h₁ : Touches P w w₁ := h₁.mono fun _ => False.elim
  refine wp_mono (fun _ _ h => h.of_touches h₁) (fun _ _ h => h₁.trans h.1)
    (wp_persistTemp_placed (F := True) (fun _ => trivial) (fun _ => trivial) fun temp hnone => ?_)
  -- the file is filled, and neither the cleanup nor the last checks touch it
  have hkeep : ∀ w₂, (Touches (fun p => P p ∨ p = temp) (w₁.write temp []) w₂ ∧
        w₂.file temp = some data) → ∀ w₃, Touches (fun p => P p ∧ p ≠ temp) w₂ w₃ →
      Touches (fun p => P p ∨ p = temp) (w₁.write temp []) w₃ ∧ w₃.file temp = some data := by
    rintro w₂ ⟨h₂, hfile⟩ w₃ h₃
    exact ⟨h₂.trans (h₃.mono fun _ hp => .inl hp.1), (h₃.file fun h => h.2 rfl).trans hfile⟩
  have hcleanup := preserves_cleanup (e := e) (BinarySource.within_ne hsrc hdata₁ hnone)
  rw [wp_bind]
  refine wp_guardIo (fun _ => ?_) fun _ _ => ⟨.refl _ _, trivial⟩
  rw [wp_bind]
  refine wp_guardIo (fun _ => ?_) fun _ _ => ⟨.refl _ _, trivial⟩
  rw [wp_bind]
  refine wp_mono (fun _ w₂ h₂ => ?_) (fun _ _ h => ⟨h.mono fun _ => .inr, trivial⟩)
    (wp_writeTo hdata₁ hnone)
  have h₂ : Touches (fun p => P p ∨ p = temp) (w₁.write temp []) w₂ ∧ w₂.file temp = some data :=
    ⟨h₂.1.mono fun _ => .inr, h₂.2⟩
  refine Preserves.wp_bind hcleanup (fun _ w₃ h₃ => ?_) fun _ _ h => ⟨(hkeep w₂ h₂ _ h).1, trivial⟩
  have h₃ := hkeep w₂ h₂ w₃ h₃
  refine Preserves.wp_bind preserves_guardIo (fun _ w₄ h₄ => ?_) fun _ _ h =>
    ⟨(hkeep w₃ h₃ _ h).1, trivial⟩
  have h₄ := hkeep w₃ h₃ w₄ h₄
  refine Preserves.wp_bind (.mapErr (preserves_validateInstallPath _ _)) (fun _ w₅ h₅ => ?_)
    fun _ _ h => ⟨(hkeep w₄ h₄ _ h).1, trivial⟩
  have h₅ := hkeep w₄ h₄ w₅ h₅
  exact preserves_guardIo.wp (fun _ _ h => hkeep w₅ h₅ _ h) fun _ _ h =>
    ⟨(hkeep w₅ h₅ _ h).1, trivial⟩

/-- A step after the rename can fail. -/
def LateFault (e : Env) : Prop :=
  e.faults .hashInstalled ≠ none ∨ e.faults .sidecarTemp ≠ none ∨ e.faults .sidecarWrite ≠ none ∨
    e.faults .sidecarPersist ≠ none ∨ ¬ e.TempFresh

/-- On a host without faults none comes late. -/
theorem not_lateFault (hclean : e.NoFault) (htemp : e.TempFresh) : ¬ LateFault e := by
  rintro (h | h | h | h | h)
  · exact h (hclean _)
  · exact h (hclean _)
  · exact h (hclean _)
  · exact h (hclean _)
  · exact h htemp

/-- Checking the installed file changes no file, and fails only if the file
cannot be read. -/
theorem wp_verifyInstalled {data : Bytes} (hfile : w.file mb.installPath = some data) :
    wp (verifyInstalled X e mb (X.crypto.blake3 data)) (fun _ w' => Touches (fun _ => False) w w')
      (fun _ w' => Touches (fun _ => False) w w' ∧ LateFault e) w := by
  unfold verifyInstalled hashFile
  simp only [wp_bind]
  refine wp_readFile (fun b _ hb => ?_) fun _ hwhy => ⟨.refl _ w, ?_⟩
  · have hb : b = data := Option.some.inj (hb.symm.trans hfile)
    subst hb
    exact wp_bailIf (fun _ => .record _ w _ rfl) fun hne => absurd rfl hne
  · rcases hwhy with hfault | hgone
    · exact .inl hfault
    · rw [hfile] at hgone
      contradiction

/-- The sidecar is placed, or nothing changes. -/
theorem wp_persistSidecar {sig : Signature} :
    wp (persistSidecar e mb sig)
      (fun _ w' => Placed (fun _ => False) (sigPathFor mb.installPath) sig.val w w')
      (fun _ w' => Touches (fun _ => False) w w' ∧ LateFault e) w := by
  unfold persistSidecar
  rw [wp_bind]
  obtain ⟨parent, hparent⟩ := parentPath_sigPathFor mb.installPath
  rw [hparent]
  refine wp_persistTemp_placed ?_ (fun h => .inr (.inr (.inr (.inl h))))
    fun temp _ => wp_mapErr.mpr ?_
  · rintro (h | h)
    · exact .inr (.inl h)
    · exact .inr (.inr (.inr (.inr h)))
  · exact wp_writeFile (fun _ => ⟨.write (.inr rfl), World.file_write_self _ _⟩)
      fun _ _ hf h => ⟨h.mono fun _ => .inr, .inr (.inr (.inl hf))⟩

/-! ### what the steps behind the rename needed -/

/-- What a temporary file that was renamed needed. -/
theorem wp_persistTemp_inv {create rename : Site} {dir dst : String}
    {createErr persistErr : String → String} {fill : String → M Unit} {F : Prop}
    (hfill : ∀ temp, w.file temp = none →
      wp (fill temp) (fun _ _ => F) (fun _ _ => True) (w.write temp [])) :
    wp (persistTemp e create rename dir dst createErr persistErr fill)
      (fun _ _ => e.faults create = none ∧ e.faults rename = none ∧ F) (fun _ _ => True) w := by
  unfold persistTemp
  rw [wp_bind, wp_get]
  simp only [wp_bind, wp_mapErr]
  refine wp_guardIo (fun hcreate => ?_) fun _ _ => trivial
  rw [wp_pathExists]
  refine wp_bailIf (fun hex => ?_) fun _ => trivial
  simp only [wp_modify, wp_attempt, wp_bind, wp_mapErr]
  refine wp_mono (fun _ w' hF => ?_) (fun _ _ _ => trivial)
    (hfill _ (w.file_eq_none_of_not_pathExists (Bool.eq_false_iff.mpr hex)))
  exact wp_renameFile (fun b hrename _ => ⟨hcreate, hrename, hF⟩) fun _ _ => trivial

/-- An installed file that was checked could be read. -/
theorem wp_verifyInstalled_inv {expected : Hash} :
    wp (verifyInstalled X e mb expected) (fun _ _ => e.faults .hashInstalled = none)
      (fun _ _ => True) w := by
  unfold verifyInstalled hashFile
  simp only [wp_bind]
  refine wp_readFile (fun b hf _ => ?_) fun _ _ => trivial
  exact wp_bailIf (fun _ => hf) fun _ => trivial

/-- A sidecar that was placed could be written. -/
theorem wp_persistSidecar_inv {sig : Signature} :
    wp (persistSidecar e mb sig)
      (fun _ _ => e.faults .sidecarTemp = none ∧ e.faults .sidecarPersist = none ∧
        e.faults .sidecarWrite = none) (fun _ _ => True) w := by
  unfold persistSidecar
  rw [wp_bind]
  refine wp_orThrow (fun parent _ => ?_) fun _ => trivial
  refine wp_persistTemp_inv fun temp _ => ?_
  rw [context, wp_mapErr]
  exact wp_writeFile (fun hf => hf) fun _ _ _ _ => trivial

end Steps

/-! ## the whole update -/

/- `execute_update` has one step that matters, the rename onto the install path. The log of the run
records it together with the bytes that were renamed, and what is shown is that both checks have
passed on the same bytes by then. -/

section Update

variable (X : Crates) (e : Env) (mb : ManagedBinary) (upd : UpdateInfo)

/-- The pinned key accepts the signature for these bytes and this version. -/
def Accepted (data : Bytes) (sig : Signature) : Prop :=
  ∃ key : ByteVec 32, key.val = mb.publisherPublicKey ∧
    X.crypto.verifyStrict key (updatePayload X upd data) sig = true

/-- A rename onto the install path is allowed once the checksum and the
signature of the renamed bytes have been checked. -/
def RenameOk (before : List Event) (ev : Event) : Prop :=
  ∀ src data, ev = .rename src mb.installPath data →
    Hash.fromHex upd.checksum = .ok (X.crypto.blake3 data) ∧
    Event.checksum (X.crypto.blake3 data) (X.crypto.blake3 data) ∈ before ∧
    ∃ (key : ByteVec 32) (sig : Signature), key.val = mb.publisherPublicKey ∧
      Event.verify key (updatePayload X upd data) sig true ∈ before

/-- The new binary has been renamed into place.  `S` says which files were
written after the rename. -/
structure Swapped (S : String → Prop) (data : Bytes) (sig : Signature) (w w' : World) : Prop where
  file : w'.file mb.installPath = some data
  checksum : Hash.fromHex upd.checksum = .ok (X.crypto.blake3 data)
  accepted : Accepted X mb upd data sig
  frame : ∀ p, ¬ DownloadFile e.config mb upd p → p ≠ mb.installPath → ¬ S p →
    w'.file p = w.file p
  db : w'.db = w.db
  log : ∃ evs, w'.log = w.log ++ evs ∧ Guarded (RenameOk X mb upd) [] evs ∧
    ∃ key : ByteVec 32, key.val = mb.publisherPublicKey ∧
      Event.verify key (updatePayload X upd data) sig true ∈ evs

variable {X e mb upd} {S : String → Prop} {data : Bytes} {sig : Signature} {w w₁ w' : World}

/-- What is no rename may happen at any time. -/
theorem renameOk_of_quiet {before : List Event} {ev : Event} (h : ev.isRename = false) :
    RenameOk X mb upd before ev := by
  rintro src data rfl
  contradiction

/-- A rename to another path may happen at any time. -/
theorem renameOk_of_ne {before : List Event} {src dst : String} {b : Bytes}
    (h : dst ≠ mb.installPath) : RenameOk X mb upd before (.rename src dst b) := by
  intro src' data heq
  exact absurd (Event.rename.inj heq).2.1 h

theorem guarded_of_quiet {seen evs : List Event} (h : Quiet evs) :
    Guarded (RenameOk X mb upd) seen evs :=
  guarded_of_forall fun ev hev _ => renameOk_of_quiet (h ev hev)

namespace Swapped

/-- Placing bytes at the install path after both checks. -/
theorem of_placed {evs : List Event} (h : Touches (DownloadFile e.config mb upd) w w₁)
    (hlog : w₁.log = w.log ++ evs) (hq : Quiet evs)
    (hsum : Hash.fromHex upd.checksum = .ok (X.crypto.blake3 data))
    (hchecked : Event.checksum (X.crypto.blake3 data) (X.crypto.blake3 data) ∈ evs)
    {key : ByteVec 32} (hkey : key.val = mb.publisherPublicKey)
    (hv : X.crypto.verifyStrict key (updatePayload X upd data) sig = true)
    (hverified : Event.verify key (updatePayload X upd data) sig true ∈ evs)
    (h' : Placed (DownloadFile e.config mb upd) mb.installPath data w₁ w') :
    Swapped X e mb upd (fun _ => False) data sig w w' := by
  obtain ⟨evs', src, hlog', hq'⟩ := h'.log
  refine ⟨h'.file, hsum, ⟨key, hkey, hv⟩,
    fun p hp hpi _ => (h'.frame p hp hpi).trans (h.file hp), h'.db.trans h.db,
    evs ++ (evs' ++ [.rename src mb.installPath data]), ?_, ?_, key, hkey,
    List.mem_append_left _ hverified⟩
  · rw [hlog', hlog, List.append_assoc]
  · refine guarded_append.mpr ⟨guarded_of_quiet hq, ?_⟩
    refine guarded_append.mpr ⟨guarded_of_quiet hq', ?_, trivial⟩
    intro src' data' heq
    obtain ⟨-, -, rfl⟩ := Event.rename.inj heq
    simp only [List.nil_append]
    exact ⟨hsum, List.mem_append_left _ hchecked, key, sig, hkey, List.mem_append_left _ hverified⟩

/-- Nothing is lost when more events follow. -/
theorem log_append (h : Swapped X e mb upd S data sig w w₁) {evs : List Event}
    (hlog : w'.log = w₁.log ++ evs) (hok : ∀ seen, Guarded (RenameOk X mb upd) seen evs) :
    ∃ evs, w'.log = w.log ++ evs ∧ Guarded (RenameOk X mb upd) [] evs ∧
      ∃ key : ByteVec 32, key.val = mb.publisherPublicKey ∧
        Event.verify key (updatePayload X upd data) sig true ∈ evs := by
  obtain ⟨evs₁, hlog₁, hok₁, key, hkey, hmem⟩ := h.log
  refine ⟨evs₁ ++ evs, ?_, guarded_append.mpr ⟨hok₁, hok _⟩, key, hkey,
    List.mem_append_left _ hmem⟩
  rw [hlog, hlog₁, List.append_assoc]

/-- A step that touches no file keeps what is installed. -/
theorem of_touches (h : Swapped X e mb upd S data sig w w₁) (h' : Touches (fun _ => False) w₁ w') :
    Swapped X e mb upd S data sig w w' := by
  obtain ⟨evs, hlog, hq⟩ := h'.log
  exact ⟨(h'.file not_false).trans h.file, h.checksum, h.accepted,
    fun p hp hpi hs => (h'.file not_false).trans (h.frame p hp hpi hs), h'.db.trans h.db,
    h.log_append hlog fun _ => guarded_of_quiet hq⟩

/-- Placing the sidecar keeps what is installed. -/
theorem of_sidecar {b : Bytes} (h : Swapped X e mb upd (fun _ => False) data sig w w₁)
    (h' : Placed (fun _ => False) (sigPathFor mb.installPath) b w₁ w') :
    Swapped X e mb upd (· = sigPathFor mb.installPath) data sig w w' := by
  obtain ⟨evs, src, hlog, hq⟩ := h'.log
  refine ⟨?_, h.checksum, h.accepted, fun p hp hpi hs => ?_, h'.db.trans h.db,
    h.log_append hlog fun _ => guarded_append.mpr ⟨guarded_of_quiet hq, ?_, trivial⟩⟩
  · exact (h'.frame _ not_false (sigPathFor_ne _).symm).trans h.file
  · exact (h'.frame p not_false hs).trans (h.frame p hp hpi not_false)
  · exact renameOk_of_ne (sigPathFor_ne _)

end Swapped

/-- The steps of `execute_update` up to the rename: the metrics, the checksum and the signature. -/
def replaceBinary (X : Crates) (e : Env) (mb : ManagedBinary) (upd : UpdateInfo) :
    M (UpdateMetrics × Hash × Signature) := do
  createDirAll e .createDownloadsDir e.config.downloadsDir
  let expected ← ofCrypto (Hash.fromHex upd.checksum)
  let (metrics, src) ← obtainBinary X e mb upd
  checkSource X e src expected
  let signature ← verifySignature X e mb upd src
  installBinary e mb src
  pure (metrics, expected, signature)

/-- Behind the rename the installed file is checked and the sidecar is placed. -/
theorem wp_executeUpdate_stages {Q : UpdateMetrics → World → Prop} {E : String → World → Prop} :
    wp (executeUpdate X e mb upd) Q E w ↔
      wp (replaceBinary X e mb upd) (fun r w' =>
        wp (verifyInstalled X e mb r.2.1)
          (fun _ w' => wp (persistSidecar e mb r.2.2) (fun _ w' => Q r.1 w') E w') E w') E w := by
  unfold executeUpdate replaceBinary
  simp only [wp_bind, wp_pure]

/-- A run that gets to the rename has put bytes in place that passed both checks; any other
one has only touched its download files. -/
theorem wp_replaceBinary :
    wp (replaceBinary X e mb upd)
      (fun r w' => ∃ data, r.2.1 = X.crypto.blake3 data ∧
        Swapped X e mb upd (fun _ => False) data r.2.2 w w')
      (fun _ w' => Touches (DownloadFile e.config mb upd) w w') w := by
  unfold replaceBinary
  refine Preserves.wp_bind preserves_createDirAll (fun _ w₁ h₁ => ?_) fun _ _ h => h
  unfold ofCrypto
  rw [wp_bind, wp_ofExcept]
  cases hex : Hash.fromHex upd.checksum with
  | error err => exact h₁
  | ok expected =>
      simp only [Except.mapError, wp_bind]
      refine wp_mono ?_ (fun _ _ h => h₁.trans h) wp_obtainBinary
      rintro ⟨metrics, src⟩ w₂ ⟨hsrc, h₂⟩
      have h₂ := h₁.trans h₂
      refine wp_mono ?_ (fun _ _ h => h₂.trans h) (wp_checkSource hsrc)
      rintro _ w₃ ⟨data, hdata, hhash, rfl⟩
      have h₃ := h₂.trans (.record _ w₂ (.checksum expected expected) rfl)
      have hdata₃ : src.content (w₂.record (.checksum expected expected)) = some data :=
        (src.content_congr (.record _ w₂ _ rfl)).trans hdata
      refine wp_mono ?_ (fun _ _ h => h₃.trans h) (wp_verifySignature hsrc hdata₃)
      rintro sig w₄ ⟨key, hkey, hv, hfiles₄, hdb₄, hlog₄⟩
      have hread : Touches (fun _ => False) (w₂.record (.checksum expected expected)) w₄ :=
        ⟨hfiles₄ ▸ .refl _ _, hdb₄, _, hlog₄, fun _ h => List.mem_singleton.mp h ▸ rfl⟩
      have hdata₄ : src.content w₄ = some data := (src.content_congr hread).trans hdata₃
      have h₄ := h₃.trans (hread.mono fun _ => False.elim)
      refine wp_mono ?_ (fun _ _ h => h₄.trans h) (wp_installBinary hsrc hdata₄)
      intro _ w₅ hplaced
      obtain ⟨evs, hlog₂, hq⟩ := h₂.log
      have hlog : w₄.log = w.log ++ (evs ++ [.checksum expected expected,
          .verify key (updatePayload X upd data) sig true]) := by
        rw [hlog₄]
        show w₂.log ++ _ ++ _ = _
        rw [hlog₂]
        simp only [List.append_assoc, List.cons_append, List.nil_append]
      subst hhash
      refine ⟨data, rfl, .of_placed h₄ hlog (hq.append ?_) hex ?_ hkey hv ?_ hplaced⟩
      · simp [Quiet, Event.isRename]
      · simp
      · simp

/-- Every run of `execute_update`: it completes, with the checked bytes
installed and the accepted signature beside them; or it fails before the
rename and has only touched its download files; or it fails after the rename,
with the checked bytes installed and the sidecar as it was, because one of the
last four operations failed. -/
theorem wp_executeUpdate :
    wp (executeUpdate X e mb upd)
      (fun _ w' => ∃ data sig,
        Swapped X e mb upd (· = sigPathFor mb.installPath) data sig w w' ∧
        w'.file (sigPathFor mb.installPath) = some sig.val)
      (fun _ w' => Touches (DownloadFile e.config mb upd) w w' ∨
        LateFault e ∧ ∃ data sig, Swapped X e mb upd (fun _ => False) data sig w w') w := by
  rw [wp_executeUpdate_stages]
  refine wp_mono ?_ (fun _ _ h => .inl h) wp_replaceBinary
  rintro ⟨metrics, expected, sig⟩ w₅ ⟨data, rfl, h₅⟩
  refine wp_mono ?_ (fun _ _ h => .inr ⟨h.2, data, sig, h₅.of_touches h.1⟩)
    (wp_verifyInstalled h₅.file)
  intro _ w₆ h₆
  have h₆ := h₅.of_touches h₆
  refine wp_mono ?_ (fun _ _ h => .inr ⟨h.2, data, sig, h₆.of_touches h.1⟩) wp_persistSidecar
  intro _ w₇ h₇
  exact ⟨data, sig, h₆.of_sidecar h₇, h₇.file⟩

end Update

end Deltaship
