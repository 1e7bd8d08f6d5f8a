import Deltaship.Client.Leftovers

/-!
# Deltaship.Client.Attempt

What an attempt needs to succeed: a server that delivers the files, and a client on which nothing
fails.  The downloads may find what earlier attempts have left.
-/

namespace Deltaship

open Prog Script

/-! ## an attempt that succeeds -/

/- A second attempt finds what the first one has left of the two downloads. Nothing in it fails if
the client can install the update and the server delivers; these lemmas go through the steps of
`apply_update` once more, in the direction from what they need to that they succeed. -/

/-- What a diff makes of a file. -/
def DiffYields (X : Crates) (raw current b : Bytes) : Prop :=
  ∃ diff, decodeDiff X raw = .ok diff ∧ applyPatch current diff = .ok b

/-- Both downloads of an update are delivered and have the checksums it gives, and a signature of
the new binary is served. -/
structure Delivered (X : Crates) (e : Env) (mb : ManagedBinary) (upd : UpdateInfo)
    (data raw : Bytes) : Prop where
  full : ∃ url, upd.fullBinaryUrl = some url ∧ e.Delivers url data
  diff : ∀ url, upd.diffUrl = some url → e.Delivers url raw
  signature : SignatureSent X e mb upd data
  checksum : Hash.fromHex upd.checksum = .ok (X.crypto.blake3 data)
  diffChecksum : upd.diffUrl.isSome = true →
    ∃ text, upd.diffChecksum = some text ∧ Hash.fromHex text = .ok (X.crypto.blake3 raw)

section Success

variable {X : Crates} {e : Env} {mb : ManagedBinary} {upd : UpdateInfo} {data raw b : Bytes}
  {w : World}

theorem Env.NoFault.stores (h : e.NoFault) (dest : String) : e.Stores dest := fun _ _ => h _

/-- No directory is where an update downloads to. -/
def NoDownloadDir (cfg : ClientConfig) (mb : ManagedBinary) (upd : UpdateInfo) (w : World) : Prop :=
  ∀ p, DownloadFile cfg mb upd p → p ∉ w.dirs

/-- A new directory elsewhere is not in the way of the downloads. -/
theorem noDownloadDir_insert {dir : String} (h : NoDownloadDir e.config mb upd w)
    (hdir : ∀ p, DownloadFile e.config mb upd p → p ≠ dir) :
    NoDownloadDir e.config mb upd { w with dirs := w.dirs.insert dir } := by
  intro p hp hmem
  rcases List.mem_insert_iff.mp hmem with heq | hmem
  · exact hdir p hp heq
  · exact h p hp hmem

/-- A download has another name than the directories of the client. -/
theorem downloadFile_ne_joinPath {p dir name : String} (hp : DownloadFile e.config mb upd p)
    (hname : ¬ ".diff".toList <:+ name.toList ∧ ¬ name.toList <:+ ".diff".toList ∧
      ¬ ".tmp".toList <:+ name.toList ∧ ¬ name.toList <:+ ".tmp".toList) :
    p ≠ joinPath dir name := by
  obtain ⟨hdiff, hdiff', htmp, htmp'⟩ := hname
  have hsuffix : name.toList <:+ (joinPath dir name).toList := suffix_joinPath (List.suffix_refl _)
  rcases hp with rfl | rfl
  · exact Text.ne_of_suffix (suffix_diffPath _ _ _) hsuffix hdiff hdiff'
  · exact Text.ne_of_suffix (suffix_fullPath _ _ _) hsuffix htmp htmp'

/-- Making the download directory leaves what was left. -/
theorem Leftover.withDownloads (h : Leftover e.config mb upd data raw w) :
    Leftover e.config mb upd data raw (withDownloads e w) := ⟨h.full, h.diff⟩

theorem NoDownloadDir.withDownloads (h : NoDownloadDir e.config mb upd w) :
    NoDownloadDir e.config mb upd (withDownloads e w) :=
  noDownloadDir_insert h fun _ hp => downloadFile_ne_joinPath hp (by decide)

/-- A diff that is delivered applies exactly if it makes something of the installed file. -/
theorem diffApplies_iff (hfaults : e.NoFault) (hdelivered : Delivered X e mb upd data raw)
    (hapart : ¬ DownloadFile e.config mb upd mb.installPath)
    (hleft : Leftover e.config mb upd data raw w) (hdirs : NoDownloadDir e.config mb upd w) :
    DiffApplies X e mb upd w b ↔ upd.diffUrl.isSome = true ∧
      ∃ current, w.file mb.installPath = some current ∧ DiffYields X raw current b := by
  have hdownload : ∀ url, upd.diffUrl = some url →
      wp (downloadFileWithProgress X e url (diffPath e.config mb upd))
        (fun _ w₁ => w₁.file (diffPath e.config mb upd) = some raw ∧
          w₁.file mb.installPath = w.file mb.installPath) (fun _ _ => False)
        (withDownloads e w) := by
    intro url hurl
    refine wp_mono (fun n w₁ h => ⟨h.1.1, h.2.file hapart⟩) (fun _ _ h => h.1)
      (wp_and (wp_downloadFileWithProgress_of (hdelivered.diff url hurl) (hfaults.stores _)
        (hdirs.withDownloads _ (.inl rfl)) hleft.withDownloads.diff)
        ((preserves_downloadFileWithProgress (P := DownloadFile e.config mb upd) (.inl rfl)).wp
          (fun _ _ h => h) fun _ _ h => h))
  constructor
  · rintro ⟨url, n, w₁, hurl, hrun, -, text, raw', current, diff, -, -, hraw, -, -, hcurrent, -,
      hdecode, hpatch⟩
    obtain ⟨hraw', hsame⟩ := wp_exec_ok (hdownload url hurl) hrun
    obtain rfl := Option.some.inj (hraw.symm.trans hraw')
    exact ⟨by rw [hurl]; rfl, current, hsame.symm.trans hcurrent, diff, hdecode, hpatch⟩
  · rintro ⟨hsome, current, hcurrent, diff, hdecode, hpatch⟩
    obtain ⟨url, hurl⟩ := Option.isSome_iff_exists.mp hsome
    obtain ⟨text, htext, hhash⟩ := hdelivered.diffChecksum hsome
    obtain ⟨n, w₁, hrun, hraw, hsame⟩ := exists_exec_ok (hdownload url hurl) fun _ _ h => h
    exact ⟨url, n, w₁, hurl, hrun, hfaults _, text, raw, current, diff, htext, hfaults _, hraw,
      hhash, hfaults _, hsame.trans hcurrent, hfaults _, hdecode, hpatch⟩

/-- The full binary is obtained, whatever is left of it. -/
theorem wp_downloadFullBinary_delivered {metrics : UpdateMetrics} (hfaults : e.NoFault)
    (hdelivered : Delivered X e mb upd data raw) (hleft : Partial data (fullPath e.config mb upd) w)
    (hdir : fullPath e.config mb upd ∉ w.dirs) :
    wp (downloadFullBinary X e mb upd metrics)
      (fun r w' => r.2 = .onDisk (fullPath e.config mb upd) ∧
        w'.file (fullPath e.config mb upd) = some data) (fun _ _ => False) w := by
  obtain ⟨url, hurl, hdelivers⟩ := hdelivered.full
  unfold downloadFullBinary
  simp only [wp_bind, hurl]
  show wp (downloadFileWithProgress X e url _) _ _ w
  refine wp_mono (fun n w₁ h => ?_) (fun _ _ h => h)
    (wp_downloadFileWithProgress_of hdelivers (hfaults.stores _) hdir hleft)
  exact wp_fileLen_of (hfaults _) h.1 ⟨rfl, h.1⟩

/-- The new binary is obtained, if a diff that applies makes it of the installed file. -/
theorem wp_obtainBinary_delivered (hfaults : e.NoFault) (hdelivered : Delivered X e mb upd data raw)
    (hsize : data.length ≤ maxSignatureSize)
    (hapart : ¬ DownloadFile e.config mb upd mb.installPath)
    (hleft : Leftover e.config mb upd data raw w) (hdirs : NoDownloadDir e.config mb upd w)
    (hfile : (w.file mb.installPath).isSome = true)
    (hdiff : ∀ b, DiffApplies X e mb upd w b → b = data) :
    wp (obtainBinary X e mb upd)
      (fun r w' => r.2.Within (DownloadFile e.config mb upd) ∧ r.2.content w' = some data ∧
        r.2.Readable e data ∧ (w'.file mb.installPath).isSome = true)
      (fun _ _ => False) (withDownloads e w) := by
  have hfull : ∀ metrics w', SameAt (fullPath e.config mb upd) (withDownloads e w) w' →
      Touches (DownloadFile e.config mb upd) (withDownloads e w) w' →
      wp (downloadFullBinary X e mb upd metrics)
        (fun r w' => r.2.Within (DownloadFile e.config mb upd) ∧ r.2.content w' = some data ∧
          r.2.Readable e data ∧ (w'.file mb.installPath).isSome = true) (fun _ _ => False) w' := by
    intro metrics w' hsame htouched
    have hpart : Partial data (fullPath e.config mb upd) w' :=
      hleft.withDownloads.full.of_file hsame.file.symm
    have hdir : fullPath e.config mb upd ∉ w'.dirs := fun h =>
      hdirs.withDownloads _ (.inr rfl) (hsame.dir.mpr h)
    refine wp_mono ?_ (fun _ _ h => h.1)
      (wp_and (wp_downloadFullBinary_delivered hfaults hdelivered hpart hdir) wp_downloadFullBinary)
    rintro ⟨metrics', src⟩ w'' ⟨⟨hsrc, hdata⟩, hwithin, h''⟩
    dsimp only at hsrc
    subst hsrc
    refine ⟨hwithin, hdata, ⟨hfaults _, hfaults _, hsize, hfaults _, hfaults _⟩, ?_⟩
    rw [(htouched.trans h'').file hapart]
    exact hfile
  by_cases hurl : upd.diffUrl.isSome = true
  · refine wp_obtainBinary_try hurl hfile ?_
    have htouches : Preserves (Touches (DownloadFile e.config mb upd))
        (applyDiffUpdate X e mb upd {}) :=
      preserves_applyDiffUpdate (downloadFrame_touches (.inl rfl))
    have hlooks : Preserves (SameAt (fullPath e.config mb upd)) (applyDiffUpdate X e mb upd {}) :=
      preserves_applyDiffUpdate
        (downloadFrame_sameAt fullPath_ne_diffPath fun _ => fullPath_ne_parent)
    refine wp_mono ?_ (fun _ _ h => h.1) (wp_and wp_applyDiffUpdate_inv
      (wp_and (htouches.wp (fun _ _ h => h) fun _ _ h => h)
        (hlooks.wp (fun _ _ h => h) fun _ _ h => h)))
    rintro r w₁ ⟨hinv, htouched, hsame⟩
    refine ⟨fun b hb => ?_, fun _ => hfull _ w₁ hsame htouched⟩
    obtain rfl := hdiff b (hinv b hb)
    refine ⟨trivial, rfl, trivial, ?_⟩
    rw [htouched.file hapart]
    exact hfile
  · have hskip : upd.diffUrl = none := by simpa using hurl
    unfold wp
    rw [exec_obtainBinary_of_skip (.inl hskip)]
    exact hfull {} _ (.refl _ _) (.refl _ _)

/-- What an update of an installed binary needs of the client. -/
structure Installing (X : Crates) (e : Env) (mb : ManagedBinary) (upd : UpdateInfo) (data : Bytes)
    (w : World) : Prop where
  noFault : e.NoFault
  fresh : e.TempFresh
  apart : Apart e.config mb upd
  size : data.length ≤ maxSignatureSize
  parent : ∃ parent, parentPath mb.installPath = some parent
  valid : ∀ w : World, (w.file mb.installPath).isSome = true →
    (exec (validateInstallPath e.host mb.installPath) w).1 = .ok ()
  installed : (w.file mb.installPath).isSome = true
  known : w.db.hasBinary mb.binaryId = true
  bookable : Bookable X e mb upd w
  dirs : NoDownloadDir e.config mb upd w
  sidecarDir : sigPathFor mb.installPath ∉ w.dirs

/-- A client that can install the update can install it as the host sees it. -/
theorem Installing.installable (h : Installing X e mb upd data w) : Installable e mb where
  parent := h.parent
  createParentDir := h.noFault _
  tempCreate := h.noFault _
  parentStat := h.noFault _
  tempMode := h.noFault _
  writeTemp := h.noFault _
  tempExec := h.noFault _
  parentRestat := h.noFault _
  persist := h.noFault _
  valid := h.valid

theorem Installing.not_lateFault (h : Installing X e mb upd data w) : ¬ LateFault e := by
  rintro (hf | hf | hf | hf | hf)
  · exact hf (h.noFault _)
  · exact hf (h.noFault _)
  · exact hf (h.noFault _)
  · exact hf (h.noFault _)
  · exact hf h.fresh

/-- A copy of a file that is there does not fail. -/
theorem wp_copyFile_of {site : Site} {src dst : String} (hfault : e.faults site = none)
    (hsrc : (w.file src).isSome = true) :
    wp (copyFile e site src dst) (fun _ w' => w'.dirs = w.dirs) (fun _ _ => False) w := by
  refine wp_copyFile (fun _ _ _ => rfl) ?_
  rintro _ _ (hne | ⟨hnone, -⟩) _
  · exact hne hfault
  · rw [hnone] at hsrc
    contradiction

/-- A backup of an installed binary does not fail. -/
theorem wp_makeBackup_of (hfaults : e.NoFault) (hfile : (w.file mb.installPath).isSome = true)
    (hdir : sigPathFor mb.installPath ∉ w.dirs) :
    wp (makeBackup e mb) (fun _ w' => w'.dirs = w.dirs) (fun _ _ => False) w := by
  unfold makeBackup
  rw [wp_bind, wp_pathExists, if_pos (by simp [World.pathExists, hfile])]
  simp only [context, wp_bind, wp_mapErr]
  refine wp_mono (fun _ w₁ h₁ => ?_) (fun _ _ h => h) (wp_copyFile_of (hfaults _) hfile)
  unfold copySidecar
  rw [wp_bind, wp_pathExists]
  split
  · next hexists =>
      have hthere : (w₁.file (sigPathFor mb.installPath)).isSome = true := by
        simpa [World.pathExists, h₁, hdir] using hexists
      rw [context, wp_mapErr]
      exact wp_mono (fun _ _ h => h.trans h₁) (fun _ _ h => h) (wp_copyFile_of (hfaults _) hthere)
  · exact h₁

/-- The preparation does not fail. -/
theorem wp_prepareUpdate_of (h : Installing X e mb upd data w) :
    wp (prepareUpdate X e mb upd)
      (fun _ w' => w'.dirs = w.dirs.insert e.config.backupsDir) (fun _ _ => False) w := by
  have hvalid := h.valid w h.installed
  have hspace : ∀ {Q : Unit → World → Prop}, Q () w →
      wp (checkSpace e mb upd) Q (fun _ _ => False) w := by
    intro Q hQ
    have hdisk : wp (checkDiskSpace e upd) Q (fun _ _ => False) w := by
      unfold checkDiskSpace
      simp only [wp_bind]
      refine wp_guardIo (fun _ => ?_) fun _ hne => hne (h.noFault _)
      refine wp_guardIo (fun _ => ?_) fun _ hne => hne (h.noFault _)
      split
      · exact wp_guardIo (fun _ => hQ) fun _ hne => hne (h.noFault _)
      · exact hQ
    obtain ⟨b, hb⟩ := Option.isSome_iff_exists.mp h.installed
    unfold checkSpace
    split
    · exact hdisk
    · rw [wp_bind, wp_pathExists, if_pos (by simp [World.pathExists, hb])]
      simp only [context, wp_bind, wp_mapErr]
      exact wp_fileLen_of (h.noFault _) hb hdisk
  unfold prepareUpdate
  simp only [context, wp_bind, wp_mapErr]
  refine wp_mono ?_ (fun _ _ hfailed => ?_) (wp_and wp_self
    ((preserves_validateInstallPath (R := Eq) e.host mb.installPath).wp (fun _ _ h => h)
      fun _ _ h => h))
  · rintro _ _ ⟨-, rfl⟩
    refine hspace (wp_dbQuery (fun updateId db hop => ?_) fun _ hne => ?_)
    · unfold createDirAll
      simp only [wp_bind]
      refine wp_guardIo (fun _ => ?_) fun _ hne => hne (h.noFault _)
      rw [wp_modify]
      refine wp_makeBackup_of h.noFault h.installed fun hmem => ?_
      rcases List.mem_insert_iff.mp hmem with heq | hmem
      · exact Text.ne_of_suffix (suffix_sigPathFor _) (suffix_joinPath (List.suffix_refl _))
          (by decide) (by decide) heq
      · exact h.sidecarDir hmem
    · rcases hne with hne | hne
      · exact hne (h.noFault _)
      · refine Exists.elim (ClientDb.exists_recordUpdateStart ?_) hne
        exact h.known
  · rw [hfailed.1] at hvalid
    contradiction

/-- Behind a preparation, the update itself is as before. -/
theorem wp_executeUpdate_of (h : Installing X e mb upd data w)
    (hdelivered : Delivered X e mb upd data raw) {w₁ : World}
    (hfile : (w₁.file mb.installPath).isSome = true)
    (hleft : Leftover e.config mb upd data raw w₁) (hdirs : NoDownloadDir e.config mb upd w₁)
    (hdiff : ∀ b, DiffApplies X e mb upd w₁ b → b = data) :
    wp (executeUpdate X e mb upd) (fun _ w' => w'.file mb.installPath = some data)
      (fun _ _ => False) w₁ := by
  rw [wp_executeUpdate_parts (h.noFault _) hdelivered.checksum]
  refine wp_mono ?_ (fun _ _ h => h) (wp_obtainBinary_delivered h.noFault hdelivered h.size
    h.apart.install_download hleft hdirs hfile hdiff)
  rintro r w₂ ⟨hwithin, hdata, hread, hfile₂⟩
  exact wp_mono (fun _ _ h => h.1) (fun _ _ h => h.2) (wp_and (wp_deliver hwithin hdata)
    (wp_deliver_sent hdelivered.signature h.installable h.not_lateFault h.fresh
      h.apart.install_download hfile₂ hwithin hdata hread))

/-- A diff that makes something else of the installed file is not fallen back from. -/
theorem wp_executeUpdate_diff (h : Installing X e mb upd data w)
    (hdelivered : Delivered X e mb upd data raw) {w₁ : World}
    (hfile : (w₁.file mb.installPath).isSome = true) (hb : DiffApplies X e mb upd w₁ b) :
    wp (executeUpdate X e mb upd) (fun _ w' => w'.file mb.installPath = some b)
      (fun _ _ => True) w₁ := by
  have hurl : upd.diffUrl.isSome = true := by
    obtain ⟨url, -, -, hurl, -⟩ := hb
    rw [hurl]
    rfl
  rw [wp_executeUpdate_parts (h.noFault _) hdelivered.checksum]
  refine wp_mono ?_ (fun _ _ h => h.elim) (wp_obtainBinary_patched hurl hfile hb)
  rintro ⟨metrics, src⟩ w' hsrc
  dsimp only at hsrc
  subst hsrc
  exact wp_deliver trivial rfl

/-- The new binary is installed, and the row of the binary has the new version. -/
structure Current (X : Crates) (mb : ManagedBinary) (upd : UpdateInfo) (data : Bytes)
    (w w' : World) : Prop where
  file : w'.file mb.installPath = some data
  row : ∃ b, w.db.getBinary mb.binaryId = some b ∧ w'.db.getBinary mb.binaryId = some
    { b with
      currentVersionId := some upd.versionId
      currentVersionString := some (X.semver.display upd.version) }

/-- The row of the binary names the new version. -/
theorem Finished.exists_row {backup : Option String} {hash : Hash} {version : String} {w' : World}
    (h : Finished X mb upd backup hash version w w') (hknown : w.db.hasBinary mb.binaryId = true) :
    ∃ b, w.db.getBinary mb.binaryId = some b ∧ w'.db.getBinary mb.binaryId = some
      { b with
        currentVersionId := some upd.versionId
        currentVersionString := some (X.semver.display upd.version) } := by
  obtain ⟨b, hb, hid⟩ := ClientDb.hasBinary_iff.mp hknown
  have hset : ClientDb.setCurrent mb.binaryId upd.versionId (X.semver.display upd.version) b =
      { b with
        currentVersionId := some upd.versionId
        currentVersionString := some (X.semver.display upd.version) } := if_pos hid
  exact ⟨b, ClientDb.getBinary_eq_some.mpr ⟨hb, hid⟩, ClientDb.getBinary_eq_some.mpr
    ⟨hset ▸ (h.managed _).mpr ⟨b, hb, rfl⟩, hid⟩⟩

/-- A preparation leaves the installed binary and the downloads alone. -/
theorem wp_prepareUpdate_left (h : Installing X e mb upd data w)
    (hleft : Leftover e.config mb upd data raw w) :
    wp (prepareUpdate X e mb upd)
      (fun r w₁ => Prepared e mb r w w₁ ∧ w₁.file mb.installPath = w.file mb.installPath ∧
        Leftover e.config mb upd data raw w₁ ∧ NoDownloadDir e.config mb upd w₁)
      (fun _ _ => False) w := by
  refine wp_mono (fun r w₁ h₁ => ?_) (fun _ _ h => h.2)
    (wp_and wp_prepareUpdate (wp_prepareUpdate_of h))
  obtain ⟨hprep, hdirs⟩ := h₁
  refine ⟨hprep, hprep.aside.file h.apart.install_backup, ?_, fun p hp hmem => ?_⟩
  · refine spares_of_files (fun p hp => hprep.aside.file ?_) hleft
    rintro (rfl | rfl)
    · exact h.apart.backup_download hp
    · exact not_downloadFile_sigPathFor _ hp
  · rw [hdirs] at hmem
    rcases List.mem_insert_iff.mp hmem with heq | hmem
    · exact downloadFile_ne_joinPath hp (by decide) heq
    · exact h.dirs p hp hmem

/-- The update succeeds, and its version is current, if the diff makes nothing else. -/
theorem wp_applyUpdate_current (h : Installing X e mb upd data w)
    (hdelivered : Delivered X e mb upd data raw) (hleft : Leftover e.config mb upd data raw w)
    (hdiff : upd.diffUrl.isSome = true → ∀ current b, w.file mb.installPath = some current →
      DiffYields X raw current b → b = data) :
    wp (applyUpdate X e mb upd) (fun _ w' => Current X mb upd data w w') (fun _ _ => False) w := by
  unfold applyUpdate
  rw [wp_bind]
  refine wp_mono ?_ (fun _ _ h => h) (wp_prepareUpdate_left h hleft)
  rintro ⟨updateId, backup⟩ w₁ ⟨hprep, hsame, hleft₁, hdirs₁⟩
  have hfile₁ : (w₁.file mb.installPath).isSome = true := by
    rw [hsame]
    exact h.installed
  have happlies : ∀ b, DiffApplies X e mb upd w₁ b → b = data := by
    intro b hb
    obtain ⟨hurl, current, hcurrent, hyields⟩ := (diffApplies_iff h.noFault hdelivered
      h.apart.install_download hleft₁ hdirs₁).mp hb
    exact hdiff hurl current b (hsame.symm.trans hcurrent) hyields
  simp only [wp_bind, wp_attempt]
  refine wp_mono ?_ (fun _ _ h => h.2.elim) (wp_and wp_executeUpdate
    (wp_executeUpdate_of h hdelivered hfile₁ hleft₁ hdirs₁ happlies))
  rintro metrics w₂ ⟨⟨data', sig, hswap, hsidecar⟩, hdata⟩
  obtain rfl : data' = data := Option.some.inj (hswap.file.symm.trans hdata)
  have hinst : Installed X e mb upd (updateId, backup) data' sig w w₁ w₂ :=
    ⟨hprep, hswap, hsidecar⟩
  refine wp_mono ?_ (fun _ _ h => h) (wp_finishUpdate_installed h.apart h.bookable hinst)
  rintro _ w₃ ⟨hash, version, -, -, hfin⟩
  have hknown : w₂.db.hasBinary mb.binaryId = true := by
    rw [ClientDb.hasBinary_congr hinst.rows.managed]
    exact h.known
  obtain ⟨b, hb, hrow⟩ := hfin.exists_row hknown
  refine ⟨?_, b, ?_, hrow⟩
  · rw [World.file, hfin.files]
    exact hdata
  · rwa [ClientDb.getBinary, hinst.rows.managed] at hb

/-- What an update installs over a file that a diff applies to is what the diff makes of it. -/
theorem eq_of_diffYields (h : Installing X e mb upd data w)
    (hdelivered : Delivered X e mb upd data raw) (hleft : Leftover e.config mb upd data raw w)
    {w' : World} (hrun : exec (applyUpdate X e mb upd) w = (.ok (), w'))
    (hdata : w'.file mb.installPath = some data) (hurl : upd.diffUrl.isSome = true)
    {current b : Bytes} (hcurrent : w.file mb.installPath = some current)
    (hyields : DiffYields X raw current b) : b = data := by
  have hwp : wp (applyUpdate X e mb upd) (fun _ w' => w'.file mb.installPath = some b)
      (fun _ _ => True) w := by
    unfold applyUpdate
    rw [wp_bind]
    refine wp_mono ?_ (fun _ _ _ => trivial) (wp_prepareUpdate_left h hleft)
    rintro ⟨updateId, backup⟩ w₁ ⟨-, hsame, hleft₁, hdirs₁⟩
    have hfile₁ : (w₁.file mb.installPath).isSome = true := by
      rw [hsame]
      exact h.installed
    have happlies : DiffApplies X e mb upd w₁ b := (diffApplies_iff h.noFault hdelivered
      h.apart.install_download hleft₁ hdirs₁).mpr ⟨hurl, current, hsame.trans hcurrent, hyields⟩
    simp only [wp_bind, wp_attempt]
    refine wp_mono (fun metrics w₂ hdata => ?_) (fun err w₂ _ => ?_)
      (wp_executeUpdate_diff h hdelivered hfile₁ happlies)
    · refine preserves_finishUpdate.wp (fun _ w₃ hbooked => ?_) fun _ _ _ => trivial
      rw [World.file, hbooked.files]
      exact hdata
    · exact wp_mono (fun _ _ h => h.elim) (fun _ _ _ => trivial) wp_abortUpdate
  exact Option.some.inj ((wp_exec_ok hwp hrun).symm.trans hdata)

/-- An update of an installed binary, with any parts of its downloads left over, installs and
records the new one exactly if the diff, if there is one, makes nothing else of that file. -/
theorem applyUpdate_current_iff (h : Installing X e mb upd data w)
    (hdelivered : Delivered X e mb upd data raw) (hleft : Leftover e.config mb upd data raw w) :
    (∃ w', exec (applyUpdate X e mb upd) w = (.ok (), w') ∧ Current X mb upd data w w') ↔
      (upd.diffUrl.isSome = true → ∀ current b, w.file mb.installPath = some current →
        DiffYields X raw current b → b = data) := by
  constructor
  · rintro ⟨w', hrun, hcurrent⟩ hurl current b hfile hyields
    exact eq_of_diffYields h hdelivered hleft hrun hcurrent.file hurl hfile hyields
  · intro hdiff
    obtain ⟨_, w', hrun, hcurrent⟩ :=
      exists_exec_ok (wp_applyUpdate_current h hdelivered hleft hdiff) fun _ _ h => h
    exact ⟨w', hrun, hcurrent⟩

end Success

end Deltaship
