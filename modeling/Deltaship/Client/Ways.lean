import Deltaship.Client.Needs

/-!
# Deltaship.Client.Ways

The two ways to the new binary, over a diff and by the full download, and what an update makes of
the bytes that it comes to.
-/

namespace Deltaship

open Prog

/-! ## the two ways to the new binary -/

/- The diff is downloaded, checked and applied to the installed file, or the full binary is
downloaded. For both there are two lemmas: what is known if it succeeds, and that it succeeds if
that is given. -/

section Ways

variable (X : Crates) (e : Env) (mb : ManagedBinary) (upd : UpdateInfo)

/-- The world in which a download begins. -/
def withDownloads (w : World) : World :=
  { w with dirs := w.dirs.insert e.config.downloadsDir }

/-- The downloaded diff can be read, matches its checksum, and applies to the installed
file with this result. -/
def Patches (w : World) (b : Bytes) : Prop :=
  ∃ (text : String) (raw current diff : Bytes),
    upd.diffChecksum = some text ∧ e.faults .hashDiff = none ∧
    w.file (diffPath e.config mb upd) = some raw ∧
    Hash.fromHex text = .ok (X.crypto.blake3 raw) ∧ e.faults .readCurrent = none ∧
    w.file mb.installPath = some current ∧ e.faults .readDiff = none ∧
    decodeDiff X raw = .ok diff ∧ applyPatch current diff = .ok b

/-- The diff can be downloaded, and applies to the installed file with this result. -/
def DiffApplies (w : World) (b : Bytes) : Prop :=
  ∃ (url : String) (n : Nat) (w₁ : World), upd.diffUrl = some url ∧
    exec (downloadFileWithProgress X e url (diffPath e.config mb upd)) (withDownloads e w) =
      (.ok n, w₁) ∧
    e.faults .diffMetadata = none ∧ Patches X e mb upd w₁ b

/-- The full binary can be downloaded, with this content. -/
def FullServed (w : World) (data : Bytes) : Prop :=
  ∃ (url : String) (n : Nat) (w₁ : World), upd.fullBinaryUrl = some url ∧
    exec (downloadFileWithProgress X e url (fullPath e.config mb upd)) w = (.ok n, w₁) ∧
    e.faults .fullMetadata = none ∧ w₁.file (fullPath e.config mb upd) = some data

/-- These bytes have the checksum, and nothing behind the download fails. -/
structure Deliverable (data : Bytes) : Prop where
  checksum : Hash.fromHex upd.checksum = .ok (X.crypto.blake3 data)
  signature : SignatureServed X e mb upd data
  installable : Installable e mb
  late : ¬ LateFault e

end Ways

section Patch

variable {X : Crates} {e : Env} {mb : ManagedBinary} {upd : UpdateInfo} {w : World}

/-- What comes out is what the diff makes of the installed file. -/
theorem wp_patchWithDiff_inv :
    wp (patchWithDiff X e mb upd) (fun b _ => Patches X e mb upd w b) (fun _ _ => True) w := by
  unfold patchWithDiff hashFile ofCrypto
  simp only [wp_bind]
  refine wp_orThrow (fun text htext => ?_) fun _ => trivial
  rw [wp_ofExcept]
  cases hhash : Hash.fromHex text with
  | error err => trivial
  | ok expected =>
      refine wp_readFile (fun raw hfault hraw => ?_) fun _ _ => trivial
      rw [wp_pure]
      split
      · rw [wp_bind, wp_ignore]
        trivial
      · next heq =>
          simp only [wp_bind]
          refine wp_readFile (fun current hfault' hcurrent => ?_) fun _ _ => trivial
          refine wp_readFile (fun raw' hfault'' hraw' => ?_) fun _ _ => trivial
          obtain rfl : raw' = raw := Option.some.inj (hraw'.symm.trans hraw)
          rw [wp_ignore, wp_ofExcept]
          cases hdecode : decodeDiff X raw' with
          | error err => trivial
          | ok diff =>
              show wp (Prog.ofExcept _) _ _ _
              rw [wp_ofExcept]
              cases hpatch : applyPatch current diff with
              | error err => trivial
              | ok b =>
                  exact ⟨text, raw', current, diff, htext, hfault, hraw,
                    (not_not.mp heq) ▸ hhash, hfault', hcurrent, hfault'', hdecode, hpatch⟩

/-- If the diff makes something of the installed file, that comes out. -/
theorem wp_patchWithDiff_of {b : Bytes} (h : Patches X e mb upd w b) :
    wp (patchWithDiff X e mb upd) (fun b' _ => b' = b) (fun _ _ => False) w := by
  obtain ⟨text, raw, current, diff, htext, hfault, hraw, hhash, hfault', hcurrent, hfault'',
    hdecode, hpatch⟩ := h
  unfold patchWithDiff hashFile ofCrypto
  simp only [wp_bind]
  rw [htext]
  show wp (Prog.ofExcept _) _ _ _
  rw [wp_ofExcept, hhash]
  refine wp_readFile_of hfault hraw ?_
  rw [wp_pure, if_neg (not_not.mpr rfl)]
  simp only [wp_bind]
  refine wp_readFile_of hfault' hcurrent (wp_readFile_of hfault'' hraw ?_)
  rw [wp_ignore, wp_ofExcept, hdecode]
  show wp (Prog.ofExcept _) _ _ _
  rw [wp_ofExcept, hpatch]
  rfl

/-- A diff update succeeds only if the diff applies. -/
theorem wp_applyDiffUpdate_inv {metrics : UpdateMetrics} :
    wp (applyDiffUpdate X e mb upd metrics)
      (fun r _ => ∀ b, r.2 = .ok b → DiffApplies X e mb upd w b) (fun _ _ => False)
      (withDownloads e w) := by
  unfold applyDiffUpdate
  cases hurl : upd.diffUrl with
  | none => exact fun b hb => by contradiction
  | some url =>
      simp only [wp_bind, wp_attempt]
      refine wp_mono (fun n w₁ hdownload => ?_) (fun _ _ _ b hb => by contradiction) wp_self
      refine wp_fileLen (fun raw hfault _ => ?_) fun _ _ b hb => by contradiction
      refine wp_mono (fun b' _ hpatches b hb => ?_) (fun _ _ _ b hb => by contradiction)
        wp_patchWithDiff_inv
      obtain rfl := Except.ok.inj hb
      exact ⟨url, n, w₁, hurl, hdownload, hfault, hpatches⟩

/-- A diff that applies is applied. -/
theorem wp_applyDiffUpdate_of {metrics : UpdateMetrics} {b : Bytes}
    (h : DiffApplies X e mb upd w b) :
    wp (applyDiffUpdate X e mb upd metrics) (fun r _ => r.2 = .ok b) (fun _ _ => False)
      (withDownloads e w) := by
  obtain ⟨url, n, w₁, hurl, hdownload, hfault, hpatches⟩ := h
  obtain ⟨-, raw, -, -, -, -, hraw, -⟩ := id hpatches
  unfold applyDiffUpdate
  rw [hurl]
  simp only [wp_bind, wp_attempt]
  refine wp_mono (fun n' w₁' hdownload' => ?_) (fun _ _ hfailed => ?_) wp_self
  · obtain ⟨-, rfl⟩ := Prod.mk.inj (hdownload.symm.trans hdownload')
    refine wp_fileLen_of hfault hraw ?_
    refine wp_mono (fun b' _ hb' => ?_) (fun _ _ hfalse => hfalse.elim)
      (wp_patchWithDiff_of hpatches)
    exact congrArg Except.ok hb'
  · obtain ⟨hfst, -⟩ := Prod.mk.inj (hdownload.symm.trans hfailed)
    contradiction

/-- What comes out is what the server has sent. -/
theorem wp_downloadFullBinary_inv {metrics : UpdateMetrics} :
    wp (downloadFullBinary X e mb upd metrics)
      (fun r w' => r.2 = .onDisk (fullPath e.config mb upd) ∧
        ∃ data, FullServed X e mb upd w data ∧ w'.file (fullPath e.config mb upd) = some data)
      (fun _ _ => True) w := by
  unfold downloadFullBinary
  simp only [wp_bind]
  refine wp_orThrow (fun url hurl => ?_) fun _ => trivial
  refine wp_mono (fun n w₁ hdownload => ?_) (fun _ _ _ => trivial) wp_self
  refine wp_fileLen (fun data hfault hdata => ?_) fun _ _ => trivial
  exact ⟨rfl, data, ⟨url, n, w₁, hurl, hdownload, hfault, hdata⟩, hdata⟩

/-- The full binary can be downloaded again where its destination looks the same. -/
theorem wp_downloadFullBinary_of {metrics : UpdateMetrics} {data : Bytes} {w' : World}
    (hurl : ∀ url, upd.fullBinaryUrl = some url → e.Repeats url)
    (h : FullServed X e mb upd w data) (hsame : SameAt (fullPath e.config mb upd) w w') :
    wp (downloadFullBinary X e mb upd metrics)
      (fun r w'' => r.2 = .onDisk (fullPath e.config mb upd) ∧
        w''.file (fullPath e.config mb upd) = some data) (fun _ _ => False) w' := by
  obtain ⟨url, n, w₁, hsome, hdownload, hfault, hdata⟩ := h
  obtain ⟨hfst, hsnd⟩ := respects_downloadFileWithProgress (X := X) (hurl url hsome) w w' hsame
  rw [hdownload] at hfst hsnd
  unfold downloadFullBinary
  simp only [wp_bind]
  rw [hsome]
  show wp (downloadFileWithProgress X e url _) _ _ _
  refine wp_mono (fun n' w₁' hdownload' => ?_) (fun _ _ hfailed => ?_) wp_self
  · rw [hdownload'] at hsnd
    have hdata' : w₁'.file (fullPath e.config mb upd) = some data := hsnd.file.symm.trans hdata
    exact wp_fileLen_of hfault hdata' ⟨rfl, hdata'⟩
  · rw [hfailed] at hfst
    contradiction

end Patch

/-! ## the rest of the update -/

/- `execute_update` behind the download is one program, whichever way the new binary was obtained.
-/

section Deliver

variable {X : Crates} {e : Env} {mb : ManagedBinary} {upd : UpdateInfo} {w : World}
  {r : UpdateMetrics × BinarySource} {data : Bytes}

/-- `execute_update` behind the download. -/
def deliver (X : Crates) (e : Env) (mb : ManagedBinary) (upd : UpdateInfo) (expected : Hash)
    (r : UpdateMetrics × BinarySource) : M UpdateMetrics := do
  checkSource X e r.2 expected
  let signature ← verifySignature X e mb upd r.2
  installBinary e mb r.2
  verifyInstalled X e mb expected
  persistSidecar e mb signature
  pure r.1

/-- An update gets the binary in one of two ways, and then installs it. -/
theorem executeUpdate_eq :
    executeUpdate X e mb upd = (do
      createDirAll e .createDownloadsDir e.config.downloadsDir
      let expected ← ofCrypto (Hash.fromHex upd.checksum)
      let r ← obtainBinary X e mb upd
      deliver X e mb upd expected r) := rfl

/-- What is delivered is what was downloaded. -/
theorem wp_deliver {expected : Hash} (hsrc : r.2.Within (DownloadFile e.config mb upd))
    (hdata : r.2.content w = some data) :
    wp (deliver X e mb upd expected r) (fun _ w' => w'.file mb.installPath = some data)
      (fun _ _ => True) w := by
  unfold deliver
  simp only [wp_bind]
  refine wp_mono ?_ (fun _ _ _ => trivial) (wp_checkSource hsrc)
  rintro _ w₁ ⟨data', hdata', hhash, rfl⟩
  obtain rfl : data = data' := Option.some.inj (hdata.symm.trans hdata')
  subst hhash
  have hdata₁ : r.2.content (w.record (.checksum (X.crypto.blake3 data) (X.crypto.blake3 data))) =
      some data := (r.2.content_congr (.record _ w _ rfl)).trans hdata
  refine wp_mono ?_ (fun _ _ _ => trivial) (wp_verifySignature hsrc hdata₁)
  rintro sig w₂ ⟨key, -, -, hfiles, hdb, hlog⟩
  have hread : Touches (fun _ => False) _ w₂ :=
    ⟨hfiles ▸ .refl _ _, hdb, _, hlog, fun _ h => List.mem_singleton.mp h ▸ rfl⟩
  refine wp_mono ?_ (fun _ _ _ => trivial)
    (wp_installBinary hsrc ((r.2.content_congr hread).trans hdata₁))
  intro _ w₃ hplaced
  refine wp_mono ?_ (fun _ _ _ => trivial) (wp_verifyInstalled hplaced.file)
  intro _ w₄ h₄
  refine wp_mono ?_ (fun _ _ _ => trivial) wp_persistSidecar
  intro _ w₅ h₅
  rw [wp_pure, h₅.frame _ not_false (sigPathFor_ne _).symm, h₄.file not_false]
  exact hplaced.file

/-- A delivery from disk over a file says what it needed. -/
theorem wp_deliver_inv {path : String} {expected : Hash} {metrics : UpdateMetrics}
    (hurl : ∀ url, upd.signatureUrl = some url → e.Repeats url)
    (hhex : Hash.fromHex upd.checksum = .ok expected) (hfresh : e.TempFresh)
    (hpath : path ≠ mb.installPath) (hsrc : DownloadFile e.config mb upd path)
    (hfile : (w.file mb.installPath).isSome = true) (hdata : w.file path = some data) :
    wp (deliver X e mb upd expected (metrics, .onDisk path))
      (fun _ _ => Deliverable X e mb upd data ∧ (BinarySource.onDisk path).Readable e data)
      (fun _ _ => True) w := by
  unfold deliver
  simp only [wp_bind]
  have hsrc : (BinarySource.onDisk path).Within (DownloadFile e.config mb upd) := hsrc
  refine wp_mono ?_ (fun _ _ _ => trivial) (wp_and (wp_checkSource hsrc) wp_checkSource_inv)
  rintro _ w₁ ⟨⟨data', hdata', hhash, rfl⟩, hhashed⟩
  obtain rfl : data = data' := Option.some.inj (hdata.symm.trans hdata')
  subst hhash
  refine wp_mono ?_ (fun _ _ _ => trivial)
    (wp_and (wp_verifySignature hsrc (w := w.record _) hdata)
      (wp_verifySignature_inv hurl (w := w.record _) hdata hhashed))
  rintro sig w₂ ⟨⟨key, -, -, hfiles, -⟩, hserved, hread⟩
  have hfile₂ : (w₂.file mb.installPath).isSome = true := by
    unfold World.file
    rw [hfiles]
    exact hfile
  have hdata₂ : (BinarySource.onDisk path).content w₂ = some data := by
    show w₂.files.read path = _
    rw [hfiles]
    exact hdata
  refine wp_mono ?_ (fun _ _ _ => trivial)
    (wp_and (wp_installBinary hsrc hdata₂) (wp_installBinary_inv hfile₂ hpath))
  rintro _ w₃ ⟨hplaced, hinstallable⟩
  refine wp_mono ?_ (fun _ _ _ => trivial) wp_verifyInstalled_inv
  intro _ w₄ hinstalled
  refine wp_mono ?_ (fun _ _ _ => trivial) wp_persistSidecar_inv
  rintro _ w₅ ⟨htemp, hpersist, hwrite⟩
  refine ⟨⟨hhex, hserved, hinstallable, ?_⟩, hread⟩
  rintro (h | h | h | h | h)
  · exact h hinstalled
  · exact h htemp
  · exact h hwrite
  · exact h hpersist
  · exact h hfresh

/-- A delivery over a file does not fail if a signature is sent and nothing keeps the binary from
being installed. -/
theorem wp_deliver_sent (hsent : SignatureSent X e mb upd data) (hinstallable : Installable e mb)
    (hlate : ¬ LateFault e) (hfresh : e.TempFresh)
    (hapart : ¬ DownloadFile e.config mb upd mb.installPath)
    (hfile : (w.file mb.installPath).isSome = true)
    (hsrc : r.2.Within (DownloadFile e.config mb upd)) (hdata : r.2.content w = some data)
    (hread : r.2.Readable e data) :
    wp (deliver X e mb upd (X.crypto.blake3 data) r) (fun _ _ => True) (fun _ _ => False) w := by
  unfold deliver
  simp only [wp_bind]
  refine wp_mono ?_ (fun _ _ h => h) (wp_checkSource_of hdata hread)
  rintro _ w₁ rfl
  have hdata₁ : r.2.content (w.record (.checksum (X.crypto.blake3 data) (X.crypto.blake3 data))) =
      some data := (r.2.content_congr (.record _ w _ rfl)).trans hdata
  refine wp_mono ?_ (fun _ _ h => h) (wp_verifySignature_of hsent hdata₁ hread)
  rintro sig w₂ ⟨hfiles, -⟩
  have hfile₂ : (w₂.file mb.installPath).isSome = true := by
    unfold World.file
    rw [hfiles]
    exact hfile
  have hdata₂ : r.2.content w₂ = some data := by
    rw [← hdata₁]
    cases r.2 with
    | inMemory bytes => rfl
    | onDisk path => exact congrArg (Files.read · path) hfiles
  have hapart' : r.2.Within (· ≠ mb.installPath) := by
    cases hr : r.2 with
    | inMemory bytes => trivial
    | onDisk path =>
        rintro rfl
        rw [hr] at hsrc
        exact hapart hsrc
  refine wp_mono ?_ (fun _ _ h => h.2) (wp_and (wp_installBinary hsrc hdata₂)
    (wp_installBinary_of hinstallable hfresh hfile₂ hapart' hdata₂))
  rintro _ w₃ ⟨hplaced, -⟩
  refine wp_mono ?_ (fun _ _ h => hlate h.2) (wp_verifyInstalled hplaced.file)
  intro _ w₄ _
  exact wp_mono (fun _ _ _ => trivial) (fun _ _ h => hlate h.2) wp_persistSidecar

/-- A delivery over a file does not fail if it has what it needs. -/
theorem wp_deliver_of (hneeds : Deliverable X e mb upd data) (hfresh : e.TempFresh)
    (hapart : ¬ DownloadFile e.config mb upd mb.installPath)
    (hfile : (w.file mb.installPath).isSome = true)
    (hsrc : r.2.Within (DownloadFile e.config mb upd)) (hdata : r.2.content w = some data)
    (hread : r.2.Readable e data) :
    wp (deliver X e mb upd (X.crypto.blake3 data) r) (fun _ _ => True) (fun _ _ => False) w :=
  wp_deliver_sent hneeds.signature.sent hneeds.installable hneeds.late hfresh hapart hfile hsrc hdata
    hread

end Deliver

/-! ## the two download files -/

section Paths

variable {cfg : ClientConfig} {mb : ManagedBinary} {upd : UpdateInfo}

/-- The directory of a path is a part of it. -/
theorem prefix_of_parentPath {p dir : String} (h : parentPath p = some dir) :
    dir.toList <+: p.toList := by
  have hsuffix := List.dropWhile_suffix (fun c => c != '/') (l := p.toList.reverse)
  unfold parentPath at h
  dsimp only at h
  split at h
  · split at h
    · contradiction
    · obtain rfl := Option.some.inj h
      exact List.nil_prefix
  · next c hup =>
      split at h
      · contradiction
      · obtain rfl := Option.some.inj h
        have hc : c = '/' := by
          have hhead := List.head?_dropWhile_not (fun c => c != '/') p.toList.reverse
          rw [hup] at hhead
          simpa using hhead
        rw [hup, hc] at hsuffix
        simpa using List.reverse_prefix.mpr hsuffix
  · next c rest hne hup =>
      obtain rfl := Option.some.inj h
      rw [hup] at hsuffix
      have hrest : rest <:+ p.toList.reverse := (List.suffix_cons c rest).trans hsuffix
      rw [String.toList_ofList]
      simpa using List.reverse_prefix.mpr hrest

theorem joinPath_append {dir name ext : String} (hname : name.toList ≠ []) :
    joinPath dir (name ++ ext) = joinPath dir name ++ ext := by
  have hhead : (name ++ ext).toList.head? = name.toList.head? := by
    rw [String.toList_append, List.head?_append_of_ne_nil _ hname]
  unfold joinPath
  rw [hhead]
  split
  · rfl
  · split
    · rw [String.append_assoc]
    · rw [← String.append_assoc]

/-- The two download files have the same name up to their extensions. -/
theorem exists_stem : ∃ stem, diffPath cfg mb upd = stem ++ ".diff" ∧
    fullPath cfg mb upd = stem ++ ".tmp" := by
  have hname : (mb.binaryName ++ "_" ++ upd.versionId).toList ≠ [] := by
    simp [String.toList_append]
  exact ⟨joinPath cfg.downloadsDir (mb.binaryName ++ "_" ++ upd.versionId),
    joinPath_append hname, joinPath_append hname⟩

/-- The two downloads are not in each other's way. -/
theorem fullPath_ne_diffPath : fullPath cfg mb upd ≠ diffPath cfg mb upd := by
  obtain ⟨stem, hdiff, hfull⟩ : ∃ stem, diffPath cfg mb upd = stem ++ ".diff" ∧
      fullPath cfg mb upd = stem ++ ".tmp" := exists_stem
  rw [hdiff, hfull]
  intro h
  have htails := List.append_cancel_left
    ((String.toList_append ..).symm.trans
      ((congrArg String.toList h).trans (String.toList_append ..)))
  exact absurd htails (by decide)

/-- A file with another extension is not the directory of a file. -/
theorem append_ne_parent {stem a b dir : String} (hne : ¬ a.toList <+: b.toList)
    (h : parentPath (stem ++ b) = some dir) : stem ++ a ≠ dir := by
  rintro rfl
  have hprefix := prefix_of_parentPath h
  rw [String.toList_append, String.toList_append, List.prefix_append_right_inj] at hprefix
  exact hne hprefix

/-- The full binary is not downloaded to the directory of the diff. -/
theorem fullPath_ne_parent {dir : String} (h : parentPath (diffPath cfg mb upd) = some dir) :
    fullPath cfg mb upd ≠ dir := by
  obtain ⟨stem, hdiff, hfull⟩ : ∃ stem, diffPath cfg mb upd = stem ++ ".diff" ∧
      fullPath cfg mb upd = stem ++ ".tmp" := exists_stem
  rw [hdiff] at h
  rw [hfull]
  exact append_ne_parent (by decide) h

/-- The diff is not downloaded to the directory of the full binary. -/
theorem diffPath_ne_parent {dir : String} (h : parentPath (fullPath cfg mb upd) = some dir) :
    diffPath cfg mb upd ≠ dir := by
  obtain ⟨stem, hdiff, hfull⟩ : ∃ stem, diffPath cfg mb upd = stem ++ ".diff" ∧
      fullPath cfg mb upd = stem ++ ".tmp" := exists_stem
  rw [hfull] at h
  rw [hdiff]
  exact append_ne_parent (by decide) h

end Paths

end Deltaship
