import Deltaship.Client.Ways

/-!
# Deltaship.Client.Fallback

When a diff update is as good as the full binary.

`execute_update` falls back to the full binary if the diff cannot be downloaded, checked,
decoded or applied.  The checksum of what the diff produces is compared only later, where
an update that fails is given up: a diff that applies to a file it was not made for is not
followed by a download of the full binary.
-/

namespace Deltaship

open Prog

/-! ## falling back -/

/- The update with a diff and the one without are two runs from one state. The run without it, which
succeeds, says what the host and the server provide; the run with it is then followed to the place
where it downloads, and from there on both do the same. -/

section Fallback

variable {X : Crates} {e : Env} {mb : ManagedBinary} {upd : UpdateInfo} {w : World}

/-- The same update without a diff. -/
def UpdateInfo.withoutDiff (upd : UpdateInfo) : UpdateInfo := { upd with diffUrl := none }

/-- Without a fault the download directory is made. -/
theorem exec_createDownloadsDir (hfault : e.faults .createDownloadsDir = none) :
    exec (createDirAll e .createDownloadsDir e.config.downloadsDir) w =
      (.ok (), withDownloads e w) := by
  unfold createDirAll guardIo
  rw [hfault]
  rfl

/-- Without a diff, or without a file to apply it to, the full binary is downloaded. -/
theorem exec_obtainBinary_of_skip
    (h : upd.diffUrl = none ∨ w.pathExists mb.installPath = false) :
    exec (obtainBinary X e mb upd) w = exec (downloadFullBinary X e mb upd {}) w := by
  unfold obtainBinary
  rw [exec_bind_ok (show exec (pathExists mb.installPath) w = (.ok _, w) from rfl), if_neg]
  rintro ⟨hsome, hexists⟩
  rcases h with hnone | hgone
  · rw [hnone] at hsome
    contradiction
  · rw [hgone] at hexists
    contradiction

/-- Where the diff is not tried, the update is the one without it. -/
theorem exec_executeUpdate_of_skip
    (h : upd.diffUrl = none ∨ (withDownloads e w).pathExists mb.installPath = false) :
    exec (executeUpdate X e mb upd) w = exec (executeUpdate X e mb upd.withoutDiff) w := by
  have hwithout : exec (obtainBinary X e mb upd.withoutDiff) (withDownloads e w) =
      exec (downloadFullBinary X e mb upd {}) (withDownloads e w) :=
    exec_obtainBinary_of_skip (.inl rfl)
  have hobtain := (exec_obtainBinary_of_skip (X := X) h).trans hwithout.symm
  rw [executeUpdate_eq, executeUpdate_eq]
  cases hfault : e.faults .createDownloadsDir with
  | some f =>
      have hfailed : exec (createDirAll e .createDownloadsDir e.config.downloadsDir) w =
          (.error f.msg, w) := by
        unfold createDirAll guardIo
        rw [hfault]
        rfl
      rw [exec_bind_error hfailed, exec_bind_error hfailed]
  | none =>
      rw [exec_bind_ok (exec_createDownloadsDir hfault),
        exec_bind_ok (exec_createDownloadsDir hfault)]
      show exec (ofCrypto (Hash.fromHex upd.checksum) >>= _) _ =
        exec (ofCrypto (Hash.fromHex upd.checksum) >>= _) _
      cases hhex : Hash.fromHex upd.checksum with
      | error err => rfl
      | ok expected =>
          have hexpected : exec (ofCrypto (.ok expected)) (withDownloads e w) =
              (.ok expected, withDownloads e w) := rfl
          rw [exec_bind_ok hexpected, exec_bind_ok hexpected, exec_bind, exec_bind, hobtain]
          rfl

/-- What an update with the full binary needed, if it replaced a file. -/
theorem wp_executeUpdate_withoutDiff (hfresh : e.TempFresh)
    (hsig : ∀ url, upd.signatureUrl = some url → e.Repeats url)
    (hapart : ¬ DownloadFile e.config mb upd mb.installPath)
    (hfile : (w.file mb.installPath).isSome = true) :
    wp (executeUpdate X e mb upd.withoutDiff)
      (fun _ w' => e.faults .createDownloadsDir = none ∧ ∃ data,
        FullServed X e mb upd (withDownloads e w) data ∧ Deliverable X e mb upd data ∧
        (BinarySource.onDisk (fullPath e.config mb upd)).Readable e data ∧
        w'.file mb.installPath = some data) (fun _ _ => True) w := by
  rw [executeUpdate_eq]
  unfold createDirAll ofCrypto
  simp only [wp_bind]
  refine wp_guardIo (fun hdir => ?_) fun _ _ => trivial
  rw [wp_modify, wp_ofExcept]
  cases hhex : Hash.fromHex upd.withoutDiff.checksum with
  | error err => trivial
  | ok expected =>
      show wp (obtainBinary X e mb upd.withoutDiff) _ _ (withDownloads e w)
      unfold wp
      rw [exec_obtainBinary_of_skip (.inl rfl)]
      show wp (downloadFullBinary X e mb upd {}) _ _ (withDownloads e w)
      refine wp_mono ?_ (fun _ _ _ => trivial)
        (wp_and wp_downloadFullBinary_inv wp_downloadFullBinary)
      rintro ⟨metrics, src⟩ w₂ ⟨⟨hsrc, data, hserved, hdata⟩, hwithin, h₂⟩
      dsimp only at hsrc
      subst hsrc
      have hne : fullPath e.config mb upd ≠ mb.installPath := fun heq => hapart (.inr heq.symm)
      have hfile₂ : (w₂.file mb.installPath).isSome = true := by
        rw [h₂.file hapart]
        exact hfile
      have hinv : wp (deliver X e mb upd expected (metrics, .onDisk (fullPath e.config mb upd)))
          _ _ w₂ := wp_deliver_inv hsig hhex hfresh hne (.inr rfl) hfile₂ hdata
      refine wp_mono ?_ (fun _ _ _ => trivial) (wp_and (wp_deliver hwithin hdata) hinv)
      rintro _ w₃ ⟨hinstalled, hneeds, hread⟩
      exact ⟨hdir, data, hserved, hneeds, hread, hinstalled⟩

/-- An update is a download and a delivery, if its first steps do not fail. -/
theorem wp_executeUpdate_parts {expected : Hash} {Q : UpdateMetrics → World → Prop}
    {E : String → World → Prop} (hdir : e.faults .createDownloadsDir = none)
    (hhex : Hash.fromHex upd.checksum = .ok expected) :
    wp (executeUpdate X e mb upd) Q E w ↔
      wp (obtainBinary X e mb upd)
        (fun r w' => wp (deliver X e mb upd expected r) Q E w') E (withDownloads e w) := by
  have hexpected : exec (ofCrypto (Hash.fromHex upd.checksum)) (withDownloads e w) =
      (.ok expected, withDownloads e w) := by
    rw [hhex]
    rfl
  rw [← wp_bind, executeUpdate_eq]
  unfold wp
  rw [exec_bind_ok (exec_createDownloadsDir hdir), exec_bind_ok hexpected]

/-- A diff is tried if there is one and a file to apply it to. -/
theorem wp_obtainBinary_try {Q : UpdateMetrics × BinarySource → World → Prop}
    {E : String → World → Prop} (hurl : upd.diffUrl.isSome = true)
    (hfile : (w.file mb.installPath).isSome = true)
    (h : wp (applyDiffUpdate X e mb upd {})
      (fun r w' => (∀ b, r.2 = .ok b → Q (r.1, .inMemory b) w') ∧
        ((∀ b, r.2 ≠ .ok b) → wp (downloadFullBinary X e mb upd r.1) Q E w')) E w) :
    wp (obtainBinary X e mb upd) Q E w := by
  have hexists : w.pathExists mb.installPath = true := by simp [World.pathExists, hfile]
  unfold obtainBinary
  rw [wp_bind, wp_pathExists, if_pos ⟨hurl, hexists⟩, wp_bind]
  refine wp_mono (fun r w' hr => ?_) (fun _ _ h => h) h
  obtain ⟨metrics, r⟩ := r
  cases r with
  | ok b => exact hr.1 b rfl
  | error err => exact hr.2 fun b hb => by contradiction

/-- A diff update that does not patch, or that patches to the full binary, obtains the full
binary. -/
theorem wp_obtainBinary_of {data : Bytes}
    (hfull : ∀ url, upd.fullBinaryUrl = some url → e.Repeats url)
    (hapart : ¬ DownloadFile e.config mb upd mb.installPath)
    (hfile : (w.file mb.installPath).isSome = true) (hurl : upd.diffUrl.isSome = true)
    (hserved : FullServed X e mb upd (withDownloads e w) data)
    (hread : (BinarySource.onDisk (fullPath e.config mb upd)).Readable e data)
    (hdiff : ∀ b, DiffApplies X e mb upd w b → b = data) :
    wp (obtainBinary X e mb upd)
      (fun r w' => r.2.Within (DownloadFile e.config mb upd) ∧ r.2.content w' = some data ∧
        r.2.Readable e data ∧ (w'.file mb.installPath).isSome = true)
      (fun _ _ => False) (withDownloads e w) := by
  have htouches : Preserves (Touches (DownloadFile e.config mb upd))
      (applyDiffUpdate X e mb upd {}) :=
    preserves_applyDiffUpdate (downloadFrame_touches (.inl rfl))
  have hsame : Preserves (SameAt (fullPath e.config mb upd)) (applyDiffUpdate X e mb upd {}) :=
    preserves_applyDiffUpdate
      (downloadFrame_sameAt fullPath_ne_diffPath fun _ => fullPath_ne_parent)
  have hkept : ∀ w', Touches (DownloadFile e.config mb upd) (withDownloads e w) w' →
      (w'.file mb.installPath).isSome = true := by
    intro w' h
    rw [h.file hapart]
    exact hfile
  refine wp_obtainBinary_try hurl hfile ?_
  refine wp_mono ?_ (fun _ _ h => h.1) (wp_and wp_applyDiffUpdate_inv
    (wp_and (htouches.wp (fun _ _ h => h) fun _ _ h => h)
      (hsame.wp (fun _ _ h => h) fun _ _ h => h)))
  rintro r w₁ ⟨hinv, htouched, hlooks⟩
  refine ⟨fun b hb => ?_, fun _ => ?_⟩
  · obtain rfl := hdiff b (hinv b hb)
    exact ⟨trivial, rfl, trivial, hkept w₁ htouched⟩
  · -- the diff is of no use, and the download does not see that it was tried
    refine wp_mono ?_ (fun _ _ h => h.1)
      (wp_and (wp_downloadFullBinary_of hfull hserved hlooks) wp_downloadFullBinary)
    rintro ⟨metrics, src⟩ w₂ ⟨⟨hsrc, hdata⟩, hwithin, h₂⟩
    dsimp only at hsrc
    subst hsrc
    exact ⟨hwithin, hdata, hread, hkept w₂ (htouched.trans h₂)⟩

/-- A diff that applies is used. -/
theorem wp_obtainBinary_patched {b : Bytes} (hurl : upd.diffUrl.isSome = true)
    (hfile : (w.file mb.installPath).isSome = true) (h : DiffApplies X e mb upd w b) :
    wp (obtainBinary X e mb upd) (fun r _ => r.2 = .inMemory b) (fun _ _ => False)
      (withDownloads e w) := by
  refine wp_obtainBinary_try hurl hfile ?_
  refine wp_mono (fun r _ hr => ⟨fun b' hb' => ?_, fun hne => absurd hr (hne b)⟩) (fun _ _ h => h)
    (wp_applyDiffUpdate_of h)
  exact congrArg BinarySource.inMemory (Except.ok.inj (hb'.symm.trans hr))

end Fallback

/-- If the update without the diff succeeds, the update with it succeeds and installs the
same bytes exactly if the diff does not apply to the installed file or the result is the
full binary. -/
theorem diff_falls_back_iff (X : Crates) (e : Env) (mb : ManagedBinary) (upd : UpdateInfo)
    (w w₁ : World) (metrics : UpdateMetrics) (hfresh : e.TempFresh)
    (hfull : ∀ url, upd.fullBinaryUrl = some url → e.Repeats url)
    (hsig : ∀ url, upd.signatureUrl = some url → e.Repeats url)
    (hapart : ¬ DownloadFile e.config mb upd mb.installPath)
    (hfile : mb.installPath ∉ (withDownloads e w).dirs)
    (hok : exec (executeUpdate X e mb upd.withoutDiff) w = (.ok metrics, w₁)) :
    ((exec (executeUpdate X e mb upd) w).1.isOk = true ∧
        (exec (executeUpdate X e mb upd) w).2.file mb.installPath = w₁.file mb.installPath) ↔
      ∀ b, DiffApplies X e mb upd w b → w₁.file mb.installPath = some b := by
  by_cases htry : upd.diffUrl.isSome = true ∧ (w.file mb.installPath).isSome = true
  · obtain ⟨hurl, hsome⟩ := htry
    obtain ⟨hdir, data, hserved, hneeds, hread, hinstalled⟩ :=
      wp_exec_ok (wp_executeUpdate_withoutDiff hfresh hsig hapart hsome) hok
    rw [hinstalled]
    constructor
    · rintro ⟨hsucceeds, hsame⟩ b hb
      -- what the diff makes of the file is installed
      have hpatched : wp (executeUpdate X e mb upd)
          (fun _ w' => w'.file mb.installPath = some b) (fun _ _ => True) w := by
        rw [wp_executeUpdate_parts hdir hneeds.checksum]
        refine wp_mono ?_ (fun _ _ h => h.elim) (wp_obtainBinary_patched hurl hsome hb)
        rintro ⟨metrics, src⟩ w' hsrc
        dsimp only at hsrc
        subst hsrc
        exact wp_deliver trivial rfl
      cases hexec : exec (executeUpdate X e mb upd) w with
      | mk result w' =>
          rw [hexec] at hsucceeds hsame
          cases result with
          | error err => contradiction
          | ok metrics' => exact hsame.symm.trans (wp_exec_ok hpatched hexec)
    · intro hdiff
      have hdiff : ∀ b, DiffApplies X e mb upd w b → b = data := fun b hb =>
        (Option.some.inj (hdiff b hb)).symm
      have hwp : wp (executeUpdate X e mb upd)
          (fun _ w' => w'.file mb.installPath = some data) (fun _ _ => False) w := by
        rw [wp_executeUpdate_parts hdir hneeds.checksum]
        refine wp_mono ?_ (fun _ _ h => h)
          (wp_obtainBinary_of hfull hapart hsome hurl hserved hread hdiff)
        rintro r w' ⟨hwithin, hdata, hreadable, hkept⟩
        exact wp_mono (fun _ _ h => h.1) (fun _ _ h => h.2) (wp_and (wp_deliver hwithin hdata)
          (wp_deliver_of hneeds hfresh hapart hkept hwithin hdata hreadable))
      cases hexec : exec (executeUpdate X e mb upd) w with
      | mk result w' =>
          cases result with
          | error err => exact (wp_exec_error hwp hexec).elim
          | ok metrics' => exact ⟨rfl, wp_exec_ok hwp hexec⟩
  · -- the diff is not even tried
    have hskip : upd.diffUrl = none ∨ (withDownloads e w).pathExists mb.installPath = false := by
      by_cases hurl : upd.diffUrl.isSome = true
      · have hnone : (w.file mb.installPath).isSome = false :=
          Bool.eq_false_iff.mpr fun hsome => htry ⟨hurl, hsome⟩
        have hgone : ((withDownloads e w).file mb.installPath).isSome = false := hnone
        exact .inr (by simp [World.pathExists, hgone, hfile])
      · exact .inl (by simpa using hurl)
    rw [exec_executeUpdate_of_skip hskip, hok]
    refine ⟨fun _ b hb => ?_, fun _ => ⟨rfl, rfl⟩⟩
    obtain ⟨url, n, w₂, hurl, hdownload, -, text, raw, current, diff, -, -, -, -, -, hcurrent, -⟩ :=
      hb
    refine absurd ⟨by simp [hurl], ?_⟩ htry
    have htouches : Touches (DownloadFile e.config mb upd) (withDownloads e w)
        (exec (downloadFileWithProgress X e url (diffPath e.config mb upd))
          (withDownloads e w)).2 :=
      preserves_downloadFileWithProgress (.inl rfl) (withDownloads e w)
    rw [hdownload] at htouches
    have hbefore : (withDownloads e w).file mb.installPath = some current :=
      (htouches.file hapart).symm.trans hcurrent
    rw [show w.file mb.installPath = some current from hbefore]
    rfl

/-! ### a diff for another file -/

/-- The sample publisher's crates, with the hash of what the diff makes of `[9]`. -/
def sampleDiffCrates : Crates := { sampleCrates with
  crypto := { sampleCrypto with
    blake3 := fun b =>
      if b = [10] then
        ⟨[41, 81, 146, 234, 30, 200, 86, 109, 86, 59, 26, 117, 135, 229, 240, 25, 133, 128, 205,
          189, 4, 56, 66, 245, 9, 10, 76, 25, 124, 32, 198, 122], rfl⟩
      else sampleBlake3 b } }

/-- The update to `[2]`, with a diff from `[1]`. -/
def sampleDiffUpdate : UpdateInfo :=
  { sampleUpdate (.new 1 1 0) [2] with
    diffUrl := some "/diff"
    diffChecksum := some sampleIncrementHash.toHex }

/-- A client whose server has the diff, the full binary and its signature. -/
def sampleDiffEnv : Env := sampleEnv (("/diff", sampleIncrement) :: sampleFiles [2] sampleSig2)

/-- The client with version 1.0.0, and this content where it was installed. -/
def sampleInstalledWorld (content : Bytes) : World := sampleWorld1.write "/opt/app" content

/-- The outcome of an update of such a client. -/
def sampleOutcome (upd : UpdateInfo) (content : Bytes) : Except String UpdateMetrics × World :=
  exec (executeUpdate sampleDiffCrates sampleDiffEnv (sampleBinaryAt "1.0.0") upd)
    (sampleInstalledWorld content)

/-- The sample server answers a request always alike. -/
theorem sampleEnv_repeats (files : List (String × Bytes)) (url : String) :
    (sampleEnv files).Repeats url := by
  intro r sent sent' _
  simp only [sampleEnv, serveFiles, List.getLast?_append, List.getLast?_singleton, Option.some_or]

/-- The sample update downloads nothing to the install path. -/
theorem sampleDiff_apart :
    ¬ DownloadFile sampleConfig (sampleBinaryAt "1.0.0") sampleDiffUpdate "/opt/app" := by
  rintro (h | h)
  · exact absurd h (by decide +kernel)
  · exact absurd h (by decide +kernel)

/-- With the diff or without, the client that still has `[1]` is updated to `[2]`. -/
theorem diff_falls_back_iff_sample :
    ∃ metrics w₁, sampleOutcome sampleDiffUpdate.withoutDiff [1] = (.ok metrics, w₁) ∧
      w₁.file "/opt/app" = some [2] ∧
      ((sampleOutcome sampleDiffUpdate [1]).1.isOk = true ∧
        (sampleOutcome sampleDiffUpdate [1]).2.file "/opt/app" = w₁.file "/opt/app") ∧
      ∀ b, DiffApplies sampleDiffCrates sampleDiffEnv (sampleBinaryAt "1.0.0") sampleDiffUpdate
        (sampleInstalledWorld [1]) b → w₁.file "/opt/app" = some b := by
  have hfull : (sampleOutcome sampleDiffUpdate.withoutDiff [1]).1.isOk = true ∧
      (sampleOutcome sampleDiffUpdate.withoutDiff [1]).2.file "/opt/app" = some [2] := by
    decide +kernel
  have hdiff : (sampleOutcome sampleDiffUpdate [1]).1.isOk = true ∧
      (sampleOutcome sampleDiffUpdate [1]).2.file "/opt/app" = some [2] := by
    decide +kernel
  cases hrun : sampleOutcome sampleDiffUpdate.withoutDiff [1] with
  | mk result w₁ =>
      rw [hrun] at hfull
      cases result with
      | error err => exact absurd hfull.1 Bool.false_ne_true
      | ok metrics =>
          have hsame : (sampleOutcome sampleDiffUpdate [1]).1.isOk = true ∧
              (sampleOutcome sampleDiffUpdate [1]).2.file "/opt/app" = w₁.file "/opt/app" :=
            ⟨hdiff.1, hdiff.2.trans hfull.2.symm⟩
          refine ⟨metrics, w₁, rfl, hfull.2, hsame, ?_⟩
          exact (diff_falls_back_iff sampleDiffCrates sampleDiffEnv (sampleBinaryAt "1.0.0")
            sampleDiffUpdate (sampleInstalledWorld [1]) w₁ metrics (sampleEnv_tempFresh _)
            (fun url _ => sampleEnv_repeats _ url) (fun url _ => sampleEnv_repeats _ url)
            sampleDiff_apart (by decide +kernel) hrun).mp hsame

/-- The diff applies to a file that is not the one it was made for, and the update fails,
although the full binary would have been installed. -/
theorem diff_of_another_file :
    ¬ ∀ (X : Crates) (e : Env) (mb : ManagedBinary) (upd : UpdateInfo) (w w₁ : World)
      (metrics : UpdateMetrics), e.TempFresh →
      (∀ url, upd.fullBinaryUrl = some url → e.Repeats url) →
      (∀ url, upd.signatureUrl = some url → e.Repeats url) →
      ¬ DownloadFile e.config mb upd mb.installPath →
      mb.installPath ∉ (withDownloads e w).dirs →
      exec (executeUpdate X e mb upd.withoutDiff) w = (.ok metrics, w₁) →
      (exec (executeUpdate X e mb upd) w).1.isOk = true ∧
        (exec (executeUpdate X e mb upd) w).2.file mb.installPath = w₁.file mb.installPath := by
  intro h
  have hfull : (sampleOutcome sampleDiffUpdate.withoutDiff [9]).1.isOk = true := by
    decide +kernel
  have hfailed : (sampleOutcome sampleDiffUpdate [9]).1.isOk = false := by
    decide +kernel
  cases hrun : sampleOutcome sampleDiffUpdate.withoutDiff [9] with
  | mk result w₁ =>
      rw [hrun] at hfull
      cases result with
      | error err => exact absurd hfull Bool.false_ne_true
      | ok metrics =>
          have hsucceeds : (sampleOutcome sampleDiffUpdate [9]).1.isOk = true :=
            (h sampleDiffCrates sampleDiffEnv (sampleBinaryAt "1.0.0") sampleDiffUpdate
              (sampleInstalledWorld [9]) w₁ metrics (sampleEnv_tempFresh _)
              (fun url _ => sampleEnv_repeats _ url) (fun url _ => sampleEnv_repeats _ url)
              sampleDiff_apart (by decide +kernel) hrun).1
          exact Bool.false_ne_true (hfailed.symm.trans hsucceeds)

end Deltaship
