import Deltaship.Client.Fallback
import Deltaship.Client.Killed
import Deltaship.Client.Outcome

/-!
# Deltaship.Client.Leftovers

What killed and failed attempts leave: a part of a download, from its beginning on, or nothing.
What comes of them is resumed or fetched again.
-/

namespace Deltaship

open Prog Script

/-! ## downloads that succeed -/

/- The converse of what a download needs: from any part of the file on, with a server that delivers
and a host that stores, each step of the download goes through and leaves all of the file. -/

/-- All of a file is sent for every request for it, or what is left of it. -/
structure Env.Delivers (e : Env) (url : String) (content : Bytes) : Prop where
  serves : e.Serves url content
  answers : ∀ history range, ∃ status length body,
    e.serve (history ++ [.get url range]) = .response status length body none ∧
      (status = 416 ∨ isSuccess status = true)

/-- No step of a download to this file fails. -/
def Env.Stores (e : Env) (dest : String) : Prop := ∀ k op, e.faults (.download dest k op) = none

section Download

variable {X : Crates} {e : Env} {url dest : String} {content : Bytes} {k : Nat} {w : World}

/-- The size of a part is found where the file can be opened. -/
theorem wp_existingSize_of {op : DownloadOp} {Q : Nat → World → Prop} (hstores : e.Stores dest)
    (hdir : dest ∉ w.dirs) (h : Q ((w.file dest).getD []).length w) :
    wp (existingSize e (.download dest k op) dest) Q (fun _ _ => False) w := by
  unfold existingSize
  rw [wp_bind, wp_pathExists]
  cases hfile : w.file dest with
  | none =>
      rw [hfile] at h
      rw [if_neg (by simp [World.pathExists, hfile, hdir])]
      exact h
  | some b =>
      rw [hfile] at h
      rw [if_pos (by simp [World.pathExists, hfile])]
      exact wp_fileLen_of (hstores _ _) hfile h

/-- Without a fault a file that is there is removed. -/
theorem wp_removeFile_of {site : Site} {Q : Unit → World → Prop} (hfault : e.faults site = none)
    (hfile : (w.file dest).isSome = true) (h : Q () (w.remove dest)) :
    wp (removeFile e site dest) Q (fun _ _ => False) w := by
  obtain ⟨b, hb⟩ := Option.isSome_iff_exists.mp hfile
  unfold removeFile
  rw [wp_bind]
  exact wp_readFile_of hfault hb h

/-- Asking the server for the length changes no file and does not fail. -/
theorem wp_headLength :
    wp (headLength e url) (fun _ w' => w'.files = w.files ∧ w'.dirs = w.dirs) (fun _ _ => False)
      w := by
  unfold headLength request
  simp only [wp_bind, wp_modify, wp_get, wp_pure]
  cases e.serve (w.send (.head url)).sent with
  | failed msg => exact ⟨rfl, rfl⟩
  | response status length body cut => exact ⟨rfl, rfl⟩

/-- What cannot be resumed is removed. -/
theorem wp_dropPartial_of {existing : Nat} (hstores : e.Stores dest)
    (hfile : 0 < existing → (w.file dest).isSome = true) :
    wp (dropPartial e url dest k existing) (fun _ w' => w'.dirs = w.dirs) (fun _ _ => False) w := by
  unfold dropPartial
  by_cases hpos : existing > 0
  · simp only [if_pos hpos, wp_bind, wp_attempt]
    refine wp_mono (fun expected w₁ h₁ => ?_) (fun _ _ h => h) wp_headLength
    obtain ⟨hfiles, hdirs⟩ := h₁
    have hthere : (w₁.file dest).isSome = true := by
      rw [World.file, hfiles]
      exact hfile hpos
    have hremove : wp (removeFile e (.download dest k .removePartial) dest)
        (fun _ w' => w'.dirs = w.dirs) (fun _ _ => False) w₁ :=
      wp_removeFile_of (hstores _ _) hthere hdirs
    have hsame : Preserves Eq (verifyPartialDownload e dest k expected) :=
      preserves_verifyPartialDownload
    refine hsame.wp (fun verified w₂ h => ?_) fun _ w₂ h => ?_
    · obtain rfl := h
      cases verified with
      | false => exact hremove
      | true => exact hdirs
    · obtain rfl := h
      exact hremove
  · rw [if_neg hpos]
    exact rfl

theorem wp_appendFile_of {site : Site} {b : Bytes} (hfault : e.faults site = none) :
    wp (appendFile e site dest b) (fun _ _ => True) (fun _ _ => False) w := by
  unfold appendFile
  rw [wp_bind, wp_get, hfault]
  trivial

/-- A body that comes in whole is written down. -/
theorem wp_downloadStreamToFile_of (hstores : e.Stores dest) (body : List Bytes)
    (i downloaded : Nat) :
    wp (downloadStreamToFile e dest k none body i downloaded) (fun _ _ => True)
      (fun _ _ => False) w := by
  induction body generalizing i downloaded w with
  | nil =>
      unfold downloadStreamToFile
      simp only [context, wp_bind, wp_mapErr]
      exact wp_guardIo (fun _ => trivial) fun _ hne => hne (hstores _ _)
  | cons chunk rest ih =>
      unfold downloadStreamToFile
      simp only [context, wp_bind, wp_mapErr]
      exact wp_mono (fun _ _ _ => ih _ _) (fun _ _ h => h) (wp_appendFile_of (hstores _ _))

/-- Without a fault the file for a download is opened. -/
theorem wp_openDest_of {resume : Bool} (hstores : e.Stores dest) :
    wp (openDest e dest k resume) (fun _ _ => True) (fun _ _ => False) w := by
  unfold openDest createParent
  cases resume with
  | true =>
      rw [if_pos rfl, context, wp_mapErr]
      exact wp_guardIo (fun _ => trivial) fun _ hne => hne (hstores _ _)
  | false =>
      have hcreate : ∀ {w' : World}, wp (writeFile e (.download dest k .create) dest [])
          (fun _ _ => True) (fun _ _ => False) w' :=
        wp_writeFile (fun _ => trivial) fun _ _ hne _ => hne (hstores _ _)
      rw [if_neg Bool.false_ne_true]
      cases parentPath dest with
      | none =>
          simp only [context, wp_bind, wp_mapErr]
          exact hcreate
      | some parent =>
          simp only [context, createDirAll, wp_bind, wp_mapErr]
          exact wp_guardIo (fun _ => hcreate) fun _ hne => hne (hstores _ _)

/-- An attempt succeeds if the server delivers and the host stores. -/
theorem wp_downloadAttempt_of (hdelivers : e.Delivers url content) (hstores : e.Stores dest)
    (hdir : dest ∉ w.dirs) :
    wp (downloadAttempt X e url dest k) (fun _ _ => True) (fun _ _ => False) w := by
  unfold downloadAttempt
  simp only [wp_bind]
  refine wp_existingSize_of hstores hdir ?_
  refine wp_mono (fun _ w₁ hdirs => ?_) (fun _ _ h => h) (wp_dropPartial_of hstores fun hpos => ?_)
  · refine wp_existingSize_of hstores (by rwa [hdirs]) ?_
    obtain ⟨status, length, body, hreply, hstatus⟩ := hdelivers.answers w₁.sent
      (if ((w₁.file dest).getD []).length > 0 then some ((w₁.file dest).getD []).length else none)
    unfold request
    simp only [wp_bind, wp_modify, wp_get, wp_pure]
    rw [show e.serve (w₁.send _).sent = _ from hreply]
    dsimp only
    split
    · trivial
    · next hmore =>
        simp only [wp_bind]
        refine wp_bailIf (fun _ => ?_) fun hfailed => ?_
        · exact wp_mono (fun _ _ _ => wp_downloadStreamToFile_of hstores body 0 _)
            (fun _ _ h => h) (wp_openDest_of hstores)
        · rcases hstatus with h | h
          · exact hmore h
          · rw [hfailed] at h
            contradiction
  · cases hfile : w.file dest with
    | none => simp [hfile] at hpos
    | some b => rfl

/-- A download from any part of the file on is completed. -/
theorem wp_downloadFileWithProgress_of (hdelivers : e.Delivers url content)
    (hstores : e.Stores dest) (hdir : dest ∉ w.dirs) (hw : Partial content dest w) :
    wp (downloadFileWithProgress X e url dest) (Complete content dest) (fun _ _ => False) w := by
  have hdone : wp (downloadFileWithProgress X e url dest) (fun _ _ => True)
      (fun _ _ => False) w := by
    show wp (downloadLoop X e url dest (0 :: [1, 2]) []) _ _ w
    unfold downloadLoop
    rw [wp_bind, wp_attempt]
    exact wp_mono (fun _ _ _ => trivial) (fun _ _ h => h.elim)
      (wp_downloadAttempt_of hdelivers hstores hdir)
  have hcomplete := (keeps_downloadFileWithProgress (X := X) hdelivers.serves hw).2
  rw [Stepwise.run_downloadFileWithProgress] at hcomplete
  exact wp_mono (fun _ _ h => h.1) (fun _ _ h => h.2) (wp_and hcomplete hdone)

end Download

/-! ## what attempts leave -/

/- A download is resumed from whatever is at its place, so that an attempt depends on those before
it through the two downloads only. The invariant is that these files hold parts of what the server
delivers; it is kept by every step, also by one that is killed. -/

/-- The two downloads of an update hold parts of their files, or nothing. -/
structure Leftover (cfg : ClientConfig) (mb : ManagedBinary) (upd : UpdateInfo) (data raw : Bytes)
    (w : World) : Prop where
  full : Partial data (fullPath cfg mb upd) w
  diff : Partial raw (diffPath cfg mb upd) w

/-- What is left of the downloads before a step is all that is left behind it. -/
def Spares (cfg : ClientConfig) (mb : ManagedBinary) (upd : UpdateInfo) (data raw : Bytes)
    (w w' : World) : Prop := Leftover cfg mb upd data raw w → Leftover cfg mb upd data raw w'

section Spares

variable {cfg : ClientConfig} {mb : ManagedBinary} {upd : UpdateInfo} {data raw : Bytes}
  {w w' : World} {p : String}

instance : IsPreorder World (Spares cfg mb upd data raw) where
  refl _ := id
  trans _ _ _ h h' := h' ∘ h

/-- What leaves the downloads as they are spares them. -/
theorem spares_of_files (h : ∀ p, DownloadFile cfg mb upd p → w'.file p = w.file p) :
    Spares cfg mb upd data raw w w' := fun hw =>
  ⟨hw.full.of_file (h _ (.inr rfl)), hw.diff.of_file (h _ (.inl rfl))⟩

/-- So does what touches other paths only. -/
theorem Touches.spares {P : String → Prop} (h : Touches P w w')
    (hP : ∀ p, DownloadFile cfg mb upd p → ¬ P p) : Spares cfg mb upd data raw w w' :=
  spares_of_files fun p hp => h.file (hP p hp)

/-- So does a write elsewhere. -/
theorem spares_write {b : Bytes} (hp : ¬ DownloadFile cfg mb upd p) :
    Spares cfg mb upd data raw w (w.write p b) :=
  (Touches.write (P := (· = p)) rfl).spares fun _ hq heq => hp (heq ▸ hq)

/-- A file that is removed has nothing left. -/
theorem spares_remove : Spares cfg mb upd data raw w (w.remove p) := by
  have hpart : ∀ {content dest}, Partial content dest w → Partial content dest (w.remove p) := by
    intro content dest h
    by_cases hdest : dest = p
    · subst hdest
      exact partial_of_absent (World.file_remove_self _)
    · exact h.of_file (w.file_remove_ne hdest)
  exact fun hw => ⟨hpart hw.full, hpart hw.diff⟩

/-- So does a rename to elsewhere, which at most takes a download away. -/
theorem spares_rename {src dst : String} {b : Bytes} (hdst : ¬ DownloadFile cfg mb upd dst) :
    Spares cfg mb upd data raw w (w.rename src dst b) := by
  have hpart : ∀ {content dest}, dest ≠ dst → Partial content dest w →
      Partial content dest (w.rename src dst b) := by
    intro content dest hne h
    by_cases hdest : dest = src
    · subst hdest
      exact partial_of_absent (w.files.read_move_src b hne)
    · exact h.of_file (w.file_rename_ne b hdest hne)
  exact fun hw => ⟨hpart (fun heq => hdst (heq ▸ .inr rfl)) hw.full,
    hpart (fun heq => hdst (heq ▸ .inl rfl)) hw.diff⟩

/-- A program that touches other paths only spares the downloads. -/
theorem preserves_spares {α : Type} {m : M α} {P : String → Prop} (h : Preserves (Touches P) m)
    (hP : ∀ p, DownloadFile cfg mb upd p → ¬ P p) : Preserves (Spares cfg mb upd data raw) m :=
  fun w => (h w).spares hP

theorem preserves_quiet {α : Type} {m : M α} (h : Preserves (Touches fun _ => False) m) :
    Preserves (Spares cfg mb upd data raw) m := preserves_spares h fun _ _ => not_false

/-- A sidecar is no download. -/
theorem not_downloadFile_sigPathFor (q : String) : ¬ DownloadFile cfg mb upd (sigPathFor q) := by
  have hsuffix := suffix_sigPathFor q
  rintro (h | h)
  · exact Text.ne_of_suffix hsuffix (suffix_diffPath cfg mb upd) (by decide) (by decide) h
  · exact Text.ne_of_suffix hsuffix (suffix_fullPath cfg mb upd) (by decide) (by decide) h

end Spares

section Attempt

variable {X : Crates} {e : Env} {mb : ManagedBinary} {upd : UpdateInfo} {data raw : Bytes}
  {src : BinarySource} {url : String}

/-- The full binary is resumed from what is left of it. -/
theorem stays_downloadFull (hserves : e.Serves url data) :
    Stays (Spares e.config mb upd data raw)
      (Stepwise.downloadFileWithProgress X e url (fullPath e.config mb upd)) := by
  intro w w' hpass hw
  have hother : SameAt (diffPath e.config mb upd) w w' :=
    stays_downloadFileWithProgress
      (downloadFrame_sameAt fullPath_ne_diffPath.symm fun _ => diffPath_ne_parent) w w' hpass
  exact ⟨(keeps_downloadFileWithProgress hserves hw.full).1 w' hpass,
    hw.diff.of_file hother.file.symm⟩

/-- A diff is resumed from what is left of it. -/
theorem stays_downloadDiff (hserves : e.Serves url raw) :
    Stays (Spares e.config mb upd data raw)
      (Stepwise.downloadFileWithProgress X e url (diffPath e.config mb upd)) := by
  intro w w' hpass hw
  have hother : SameAt (fullPath e.config mb upd) w w' :=
    stays_downloadFileWithProgress
      (downloadFrame_sameAt fullPath_ne_diffPath fun _ => fullPath_ne_parent) w w' hpass
  exact ⟨hw.full.of_file hother.file.symm,
    (keeps_downloadFileWithProgress hserves hw.diff).1 w' hpass⟩

/-- Making the binary from the diff spares the downloads. -/
theorem preserves_patchWithDiff_spares :
    Preserves (Spares e.config mb upd data raw) (patchWithDiff X e mb upd) := by
  have hremove : Preserves (Spares e.config mb upd data raw)
      (ignore (removeFile e .removeDiff (diffPath e.config mb upd))) :=
    .ignore (preserves_removeFile_of fun _ => spares_remove)
  refine .bind preserves_orThrow fun _ => .bind preserves_ofCrypto fun expected => ?_
  refine .bind preserves_hashFile fun actual => .ite (.bind hremove fun _ => .throw) ?_
  refine .bind preserves_readFile fun _ => .bind preserves_readFile fun _ => ?_
  exact .bind hremove fun _ => .bind .ofExcept fun _ => .ofExcept

/-- So does downloading, as the server sends what belongs there. -/
theorem stays_obtainBinary_spares
    (hfull : ∀ url, upd.fullBinaryUrl = some url → e.Serves url data)
    (hdiff : ∀ url, upd.diffUrl = some url → e.Serves url raw) :
    Stays (Spares e.config mb upd data raw) (Stepwise.obtainBinary X e mb upd) := by
  have hwhole : ∀ metrics, Stays (Spares e.config mb upd data raw)
      (Stepwise.downloadFullBinary X e mb upd metrics) := by
    intro metrics
    refine .bind_of (.whole preserves_orThrow) fun url w w₁ hrun => ?_
    have hurl := wp_exec_ok (wp_orThrow (Q := fun a _ => upd.fullBinaryUrl = some a)
      (E := fun _ _ => True) (fun _ h => h) fun _ => trivial) hrun
    refine .bind (stays_downloadFull (hfull url hurl)) fun _ => ?_
    exact .bind (.whole preserves_fileLen) fun _ => .whole .pure
  refine .bind (.whole preserves_pathExists) fun installed => ?_
  split
  · refine .bind ?_ fun r => ?_
    · unfold Stepwise.applyDiffUpdate
      cases hurl : upd.diffUrl with
      | none => exact .whole .pure
      | some url =>
          refine .bind (.attempt (stays_downloadDiff (hdiff url hurl))) fun r => ?_
          cases r with
          | error err => exact .whole .pure
          | ok n =>
              refine .bind (.whole (.attempt preserves_fileLen)) fun r => ?_
              cases r with
              | error err => exact .whole .pure
              | ok size =>
                  exact .bind (.whole (.attempt preserves_patchWithDiff_spares)) fun _ =>
                    .whole .pure
    · obtain ⟨metrics, r⟩ := r
      cases r with
      | ok b => exact .whole .pure
      | error err => exact hwhole metrics
  · exact hwhole {}

/-- A binary on disk is removed at most. -/
theorem preserves_cleanup_spares : Preserves (Spares e.config mb upd data raw) (src.cleanup e) := by
  cases src with
  | inMemory b => exact .pure
  | onDisk path => exact .ignore (preserves_removeFile_of fun _ => spares_remove)

/-- So does the check of the checksum. -/
theorem preserves_checkSource_spares {expected : Hash} :
    Preserves (Spares e.config mb upd data raw) (checkSource X e src expected) := by
  have hverify : Preserves (Spares e.config mb upd data raw) (src.verifyChecksum X e expected) := by
    refine .bind ?_ fun actual => .bind (preserves_quiet (preserves_emit rfl)) fun _ =>
      preserves_bailIf
    cases src with
    | inMemory b => exact .pure
    | onDisk path => exact preserves_hashFile
  refine .bind (.attempt hverify) fun r => ?_
  cases r with
  | ok _ => exact .pure
  | error err => exact .bind preserves_cleanup_spares fun _ => .throw

/-- So does the check of the signature. -/
theorem preserves_verifySignature_spares :
    Preserves (Spares e.config mb upd data raw) (verifySignature X e mb upd src) := by
  refine .bind preserves_orThrow fun url => ?_
  refine .bind (preserves_quiet preserves_downloadBytes) fun _ => ?_
  refine .bind preserves_orThrow fun sig => .bind preserves_orThrow fun _ => ?_
  refine .bind preserves_ofCrypto fun key => .bind ?_ fun b => ?_
  · cases src with
    | inMemory b => exact .pure
    | onDisk path =>
        refine .bind preserves_fileLen fun _ => .bind preserves_bailIf fun _ => ?_
        exact .bind preserves_guardIo fun _ => .mapErr preserves_readFile
  · refine .bind (preserves_quiet (preserves_emit rfl)) fun _ => .ite .pure ?_
    exact .bind preserves_cleanup_spares fun _ => .throw

/-- A file with another name is written and renamed. -/
theorem stays_persistTemp {create rename : Site} {dir dst : String}
    {createErr persistErr : String → String} {fill : String → Script World String Unit}
    (htemp : ∀ p, DownloadFile e.config mb upd p → e.TempApart p)
    (hdst : ¬ DownloadFile e.config mb upd dst)
    (hfill : ∀ temp, ¬ DownloadFile e.config mb upd temp →
      Stays (Spares e.config mb upd data raw) (fill temp)) :
    Stays (Spares e.config mb upd data raw)
      (Stepwise.persistTemp e create rename dir dst createErr persistErr fill) := by
  refine .bind (.whole .get) fun w => ?_
  have hname : ¬ DownloadFile e.config mb upd (joinPath dir (e.tempName create w)) := fun h =>
    htemp _ h create w dir rfl
  refine .bind (.whole (.mapErr ?_)) fun _ => ?_
  · exact .bind preserves_guardIo fun _ => .bind preserves_pathExists fun _ => preserves_bailIf
  refine .bind (.whole fun _ => spares_write hname) fun _ => ?_
  refine .bind (.attempt (.bind (hfill _ hname) fun _ => .whole (.mapErr ?_))) fun r => ?_
  · exact .bind preserves_readFile fun _ => fun _ => spares_rename hdst
  · cases r with
    | ok _ => exact .whole .pure
    | error msg => exact .bind (.whole fun _ => spares_remove) fun _ => .whole .throw

/-- So does the installation, as it writes to temporary files and the install path. -/
theorem stays_installBinary_spares
    (htemp : ∀ p, DownloadFile e.config mb upd p → e.TempApart p)
    (hinstall : ¬ DownloadFile e.config mb upd mb.installPath) :
    Stays (Spares e.config mb upd data raw) (Stepwise.installBinary e mb src) := by
  refine .bind (.whole preserves_orThrow) fun parent => ?_
  refine .bind (.whole (preserves_quiet preserves_createDirAll)) fun _ => ?_
  refine stays_persistTemp htemp hinstall fun temp hname => ?_
  refine .bind (.whole preserves_guardIo) fun _ => .bind (.whole preserves_guardIo) fun _ => ?_
  refine .bind ?_ fun _ => ?_
  · cases src with
    | inMemory b => exact stays_writeFile fun _ _ => spares_write hname
    | onDisk path =>
        refine (stays_copyFile (P := (· = temp)) rfl).mono fun _ _ h => h.spares ?_
        rintro p hp rfl
        exact hname hp
  refine .bind (.whole preserves_cleanup_spares) fun _ => ?_
  refine .bind (.whole preserves_guardIo) fun _ => ?_
  refine .bind (.whole (.mapErr (preserves_validateInstallPath _ _))) fun _ => ?_
  exact .whole preserves_guardIo

/-- So does an update as a whole, wherever it is killed. -/
theorem stays_executeUpdate_spares
    (hfull : ∀ url, upd.fullBinaryUrl = some url → e.Serves url data)
    (hdiff : ∀ url, upd.diffUrl = some url → e.Serves url raw)
    (htemp : ∀ p, DownloadFile e.config mb upd p → e.TempApart p)
    (hinstall : ¬ DownloadFile e.config mb upd mb.installPath) :
    Stays (Spares e.config mb upd data raw) (Stepwise.executeUpdate X e mb upd) := by
  refine .bind (.whole (preserves_quiet preserves_createDirAll)) fun _ => ?_
  refine .bind (.whole preserves_ofCrypto) fun expected => ?_
  refine .bind (stays_obtainBinary_spares hfull hdiff) fun r => ?_
  refine .bind (.whole preserves_checkSource_spares) fun _ => ?_
  refine .bind (.whole preserves_verifySignature_spares) fun signature => ?_
  refine .bind (stays_installBinary_spares htemp hinstall) fun _ => ?_
  refine .bind (.whole ?_) fun _ => .bind ?_ fun _ => .whole .pure
  · exact .bind preserves_hashFile fun _ =>
      .bind (preserves_quiet (preserves_emit rfl)) fun _ => preserves_bailIf
  · refine .bind (.whole preserves_orThrow) fun parent => ?_
    refine stays_persistTemp htemp (not_downloadFile_sigPathFor _) fun temp hname => ?_
    exact .mapErr (stays_writeFile fun _ _ => spares_write hname)

/-- Wherever an update is killed, what is left of its downloads can be resumed. -/
theorem stays_applyUpdate_spares (hap : Apart e.config mb upd)
    (hfull : ∀ url, upd.fullBinaryUrl = some url → e.Serves url data)
    (hdiff : ∀ url, upd.diffUrl = some url → e.Serves url raw)
    (htemp : ∀ p, DownloadFile e.config mb upd p → e.TempApart p) :
    Stays (Spares e.config mb upd data raw) (Stepwise.applyUpdate X e mb upd) := by
  have hbackup : ∀ p, DownloadFile e.config mb upd p → ¬ BackupFile e.config mb p := by
    rintro p hp (rfl | rfl)
    · exact hap.backup_download hp
    · exact not_downloadFile_sigPathFor _ hp
  refine .bind (stays_prepareUpdate.mono fun _ _ h => ?_) fun r => ?_
  · exact spares_of_files fun p hp => h.file (hbackup p hp)
  refine .bind (.attempt (stays_executeUpdate_spares hfull hdiff htemp hap.install_download))
    fun result => ?_
  cases result with
  | ok metrics =>
      exact stays_finishUpdate.mono fun _ _ h => spares_of_files fun p _ =>
        congrArg (Files.read · p) h.files
  | error err =>
      refine .bind ?_ fun restoreError => ?_
      · unfold Stepwise.restoreBackup
        cases r.2 with
        | none => exact .whole .pure
        | some path =>
            refine .bind (.whole preserves_pathExists) fun found => ?_
            split
            · refine .bind (.attempt ((stays_copyFile (P := (· = mb.installPath)) rfl).mono
                fun _ _ h => h.spares ?_)) fun copied => ?_
              · rintro p hp rfl
                exact hap.install_download hp
              · cases copied with
                | ok _ => exact .whole .pure
                | error err => exact .whole .pure
            · exact .whole .pure
      · refine .bind (.whole (.of_wp fun w => wp_dbCall (fun _ _ => ?_) fun _ _ => refl_of _ w))
          fun _ => ?_
        · exact spares_of_files fun _ _ => rfl
        · cases restoreError with
          | none => exact .whole .throw
          | some restoreErr => exact .whole .throw

end Attempt

end Deltaship
