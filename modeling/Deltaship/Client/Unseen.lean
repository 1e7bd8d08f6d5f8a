import Deltaship.Client.Atomicity

/-!
# Deltaship.Client.Unseen

Downloads that do not see a difference: a download reads its destination and its partial file, the
directories above and the answers to its own address, so two clients that agree on these download
alike.
-/

namespace Deltaship

open Prog

/-! ## downloads that do not see a difference -/

/- Two worlds that look the same at the destination of a download are led by it to worlds that still
do, with the same outcome. This needs a server whose answer to an address does not depend on what
was asked before. -/

/-- Two worlds look the same at a path. -/
structure SameAt (p : String) (w w' : World) : Prop where
  file : w.file p = w'.file p
  dir : p ∈ w.dirs ↔ p ∈ w'.dirs

/-- The address of a request. -/
def HttpRequest.url : HttpRequest → String
  | .head url | .get url _ => url

/-- The server answers requests for an address alike, whatever was asked before. -/
def Env.Repeats (e : Env) (url : String) : Prop :=
  ∀ (r : HttpRequest) sent sent', r.url = url → e.serve (sent ++ [r]) = e.serve (sent' ++ [r])

section Respects

variable {X : Crates} {e : Env} {p dest url : String} {site : Site}

namespace SameAt

variable {w w' : World}

/-- Two equal worlds are the same at a path. -/
theorem refl (p : String) (w : World) : SameAt p w w := ⟨rfl, Iff.rfl⟩

/-- Being the same at a path is passed on. -/
theorem trans {w'' : World} (h : SameAt p w w') (h' : SameAt p w' w'') : SameAt p w w'' :=
  ⟨h.file.trans h'.file, h.dir.trans h'.dir⟩

instance : IsPreorder World (SameAt p) where
  refl := refl p
  trans _ _ _ := trans

/-- A path exists in both worlds or in neither. -/
theorem pathExists (h : SameAt p w w') : w.pathExists p = w'.pathExists p := by
  have hdir : w.dirs.contains p = w'.dirs.contains p := by
    rw [Bool.eq_iff_iff, List.contains_iff_mem, List.contains_iff_mem]
    exact h.dir
  unfold World.pathExists
  rw [h.file, hdir]

/-- The same write leaves them the same there. -/
theorem write (h : SameAt p w w') (b : Bytes) : SameAt p (w.write p b) (w'.write p b) :=
  ⟨by rw [World.file_write_self, World.file_write_self], h.dir⟩

/-- The same removal leaves them the same there. -/
theorem remove (h : SameAt p w w') : SameAt p (w.remove p) (w'.remove p) :=
  ⟨(w.files.read_remove_self p).trans (w'.files.read_remove_self p).symm, h.dir⟩

/-- The same new directory leaves them the same there. -/
theorem createDir (h : SameAt p w w') (dir : String) :
    SameAt p { w with dirs := w.dirs.insert dir } { w' with dirs := w'.dirs.insert dir } :=
  ⟨h.file, by simp only [List.mem_insert_iff, h.dir]⟩

end SameAt

/-- A download to another file does not touch the path. -/
theorem downloadFrame_sameAt (hne : p ≠ dest)
    (hparent : ∀ dir, parentPath dest = some dir → p ≠ dir) :
    DownloadFrame (SameAt p) dest where
  write w b := ⟨(w.file_write_ne b hne).symm, Iff.rfl⟩
  remove w := ⟨(w.file_remove_ne hne).symm, Iff.rfl⟩
  send w r := ⟨rfl, Iff.rfl⟩
  createDir w dir hdir := ⟨rfl, by simp [List.mem_insert_iff, hparent dir hdir]⟩

/-- Whether a call fails does not depend on the world. -/
theorem respects_guardIo {R : World → World → Prop} : Respects R (guardIo e site) := by
  unfold guardIo
  cases e.faults site with
  | none => exact .pure
  | some f => exact .throw

/-- Nor does an error that is returned on a condition. -/
theorem respects_bailIf {R : World → World → Prop} {c : Prop} [Decidable c] {msg : String} :
    Respects R (bailIf c msg) := .ite .throw .pure

theorem respects_orThrow {R : World → World → Prop} {α : Type} {o : Option α} {msg : String} :
    Respects R (orThrow o msg) := by
  cases o with
  | none => exact .throw
  | some a => exact .pure

theorem respects_pathExists : Respects (SameAt p) (pathExists p) := by
  intro w w' h
  exact ⟨congrArg Except.ok h.pathExists, h⟩

theorem respects_readFile : Respects (SameAt p) (readFile e site p) := by
  refine .bind respects_guardIo fun _ => ?_
  intro w w' h
  rw [exec_bind, exec_bind, exec_get, exec_get]
  dsimp only
  rw [h.file]
  cases w'.file p with
  | none => exact ⟨rfl, h⟩
  | some b => exact ⟨rfl, h⟩

theorem respects_fileLen : Respects (SameAt p) (fileLen e site p) :=
  .bind respects_readFile fun _ => .pure

theorem respects_writeFile {b : Bytes} : Respects (SameAt p) (writeFile e site p b) := by
  unfold writeFile
  cases e.faults site with
  | none => exact .of_modify fun _ _ h => h.write b
  | some f =>
      dsimp only
      cases f.written with
      | none => exact .throw
      | some n => exact .bind (.of_modify fun _ _ h => h.write _) fun _ => .throw

theorem respects_appendFile {b : Bytes} : Respects (SameAt p) (appendFile e site p b) := by
  intro w w' h
  unfold appendFile
  rw [exec_bind, exec_bind, exec_get, exec_get]
  dsimp only
  rw [h.file]
  cases e.faults site with
  | none => exact ⟨rfl, h.write _⟩
  | some f =>
      dsimp only
      cases f.written with
      | none => exact ⟨rfl, h⟩
      | some n => exact ⟨rfl, h.write _⟩

theorem respects_removeFile : Respects (SameAt p) (removeFile e site p) :=
  .bind respects_readFile fun _ => .of_modify fun _ _ h => h.remove

theorem respects_createDirAll {dir : String} : Respects (SameAt p) (createDirAll e site dir) :=
  .bind respects_guardIo fun _ => .of_modify fun _ _ h => h.createDir dir

/-- A request goes alike if the server answers it again as before. -/
theorem respects_request {r : HttpRequest} (hurl : e.Repeats r.url) :
    Respects (SameAt p) (request e r) := by
  intro w w' h
  exact ⟨congrArg Except.ok (hurl r w.sent w'.sent rfl), ⟨h.file, h.dir⟩⟩

/-! ### the download -/

/-- So does looking for a part that was downloaded before. -/
theorem respects_existingSize : Respects (SameAt dest) (existingSize e site dest) :=
  .bind respects_pathExists fun _ => .ite respects_fileLen .pure

/-- So does asking the server for the length. -/
theorem respects_headLength (hurl : e.Repeats url) : Respects (SameAt dest) (headLength e url) := by
  refine .bind (respects_request hurl) fun r => ?_
  cases r with
  | failed msg => exact .pure
  | response status length body cut => exact .pure

/-- So does the check of what was downloaded. -/
theorem respects_verifyPartialDownload {k : Nat} {expected : Option Nat} :
    Respects (SameAt dest) (verifyPartialDownload e dest k expected) :=
  .bind respects_fileLen fun _ => .ite .pure (.bind respects_readFile fun _ => .pure)

/-- So does writing the body as it comes in. -/
theorem respects_downloadStreamToFile {k : Nat} {cut : Option String} (body : List Bytes)
    (i downloaded : Nat) :
    Respects (SameAt dest) (downloadStreamToFile e dest k cut body i downloaded) := by
  induction body generalizing i downloaded with
  | nil =>
      unfold downloadStreamToFile
      cases cut with
      | some msg => exact .throw
      | none => exact .bind (.mapErr respects_guardIo) fun _ => .pure
  | cons chunk rest ih =>
      unfold downloadStreamToFile
      exact .bind (.mapErr respects_appendFile) fun _ => ih _ _

/-- So does opening the file for it. -/
theorem respects_openDest {k : Nat} {resume : Bool} :
    Respects (SameAt dest) (openDest e dest k resume) := by
  refine .ite (.mapErr respects_guardIo) (.bind ?_ fun _ => .mapErr respects_writeFile)
  unfold createParent
  cases parentPath dest with
  | none => exact .pure
  | some parent => exact .mapErr respects_createDirAll

/-- So does dropping a part that is too long. -/
theorem respects_dropPartial (hurl : e.Repeats url) {k existing : Nat} :
    Respects (SameAt dest) (dropPartial e url dest k existing) := by
  refine .ite ?_ .pure
  refine .bind (respects_headLength hurl) fun expected => ?_
  refine .bind (.attempt respects_verifyPartialDownload) fun r => ?_
  rcases r with _ | ⟨_ | _⟩
  · exact respects_removeFile
  · exact respects_removeFile
  · exact .pure

theorem respects_downloadAttempt (hurl : e.Repeats url) {k : Nat} :
    Respects (SameAt dest) (downloadAttempt X e url dest k) := by
  refine .bind respects_existingSize fun _ => ?_
  refine .bind (respects_dropPartial hurl) fun _ => ?_
  refine .bind respects_existingSize fun existing => ?_
  refine .bind (respects_request hurl) fun r => ?_
  cases r with
  | failed msg => exact .throw
  | response status length body cut =>
      refine .ite .pure (.bind respects_bailIf fun _ => ?_)
      exact .bind respects_openDest fun _ => respects_downloadStreamToFile _ _ _

theorem respects_giveUp {α : Type} {errors : List String} :
    Respects (SameAt dest) (giveUp e dest errors : M α) := by
  refine .bind (.bind respects_pathExists fun _ => ?_) fun _ => .throw
  exact .ite (.ignore respects_removeFile) .pure

/-- A download only looks at its destination, if the server repeats its answers. -/
theorem respects_downloadFileWithProgress (hurl : e.Repeats url) :
    Respects (SameAt dest) (downloadFileWithProgress X e url dest) := by
  unfold downloadFileWithProgress
  generalize List.range maxRetries = ks
  generalize ([] : List String) = errors
  induction ks generalizing errors with
  | nil => exact respects_giveUp
  | cons k rest ih =>
      unfold downloadLoop
      refine .bind (.attempt (respects_downloadAttempt hurl)) fun r => ?_
      cases r with
      | ok bytes => exact .pure
      | error err => exact .ite respects_giveUp (ih _)

end Respects

end Deltaship
