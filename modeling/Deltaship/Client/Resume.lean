import Deltaship.Client.Authenticity
import Deltaship.Lib.Script

/-!
# Deltaship.Client.Resume

Downloads that are resumed, by later attempts and by later processes.

The destination holds a part of the file at all times, in the middle of a download as well,
provided the server always sends the same file.  `Stepwise` has `download_file_with_progress` as
a tree of its steps, in which a process can be killed; `run_downloadFileWithProgress` says that
it is the same download.
-/

namespace Deltaship

open Prog Script

/-! ## a server with a fixed file -/

/-- What arrives of a body that should be `whole`: all of it, or a part if it breaks off. -/
def Sends (whole : Bytes) (body : List Bytes) (cut : Option String) : Prop :=
  body.flatten <+: whole ∧ (cut = none → body.flatten = whole)

/-- An answer for a file with this content: the rest for a `Range` that is honoured, else the
whole file; that nothing is left only if that is so.  Any other status may come at any time. -/
structure Answers (content : Bytes) (range : Option Nat) (status : Nat) (body : List Bytes)
    (cut : Option String) : Prop where
  complete : status = 416 → ∃ n, range = some n ∧ content.length ≤ n
  rest : status = 206 → ∃ n, range = some n ∧ Sends (content.drop n) body cut
  all : isSuccess status = true → status ≠ 206 → Sends content body cut

/-- All that the server has at this address is a file with this content. -/
def Env.Serves (e : Env) (url : String) (content : Bytes) : Prop :=
  ∀ history range status length body cut,
    e.serve (history ++ [.get url range]) = .response status length body cut →
      Answers content range status body cut

/-! ## a download in steps -/

namespace Stepwise

variable (X : Crates) (e : Env)

/-- Append a chunk; a part of it may have been written when the process is killed. -/
def appendChunk (dest : String) (k i : Nat) (chunk : Bytes) : Script World String Unit :=
  .step (context "Failed to write chunk to file"
      (appendFile e (.download dest k (.write i)) dest chunk))
    fun w w' => ∃ n, w' = w.write dest ((w.file dest).getD [] ++ chunk.take n)

/-- The end of a stream. -/
def endStream (dest : String) (k : Nat) (cut : Option String) (downloaded : Nat) : M Nat :=
  match cut with
  | some _ => throw "Failed to read chunk from stream"
  | none => do
      context "Failed to flush file" (guardIo e (.download dest k .flush))
      pure downloaded

/-- `download_stream_to_file`. -/
def downloadStreamToFile (dest : String) (k : Nat) (cut : Option String) :
    List Bytes → Nat → Nat → Script World String Nat
  | [], _, downloaded => whole (endStream e dest k cut downloaded)
  | chunk :: rest, i, downloaded =>
    .bind (appendChunk e dest k i chunk) fun _ =>
      downloadStreamToFile dest k cut rest (i + 1) (downloaded + chunk.length)

/-- Open the destination. -/
def openDest (dest : String) (k : Nat) (resume : Bool) : Script World String Unit :=
  if resume then
    whole (context s!"Failed to open file for appending: {debugPath dest}"
      (guardIo e (.download dest k .openAppend)))
  else
    .bind (whole (createParent e dest k)) fun _ =>
      whole (context s!"Failed to create file: {debugPath dest}"
        (writeFile e (.download dest k .create) dest []))

/-- Drop a partial file that cannot be resumed. -/
def dropPartial (url dest : String) (k existing : Nat) : Script World String Unit :=
  if existing > 0 then
    .bind (whole (headLength e url)) fun expected =>
      .bind (.attempt (whole (verifyPartialDownload e dest k expected))) fun
        | .ok true => whole (pure ())
        | .ok false => whole (removeFile e (.download dest k .removePartial) dest)
        | .error _ => whole (removeFile e (.download dest k .removePartial) dest)
  else whole (pure ())

/-- What an attempt does with an answer. -/
def receive (dest : String) (k existing : Nat) : Reply → Script World String Nat
  | .failed msg => whole (throw msg)
  | .response status _ body cut =>
    if status = 416 then whole (pure existing)
    else
      .bind (whole (bailIf (isSuccess status = false)
        s!"Download failed with status: {statusText X status}")) fun _ =>
      .bind (openDest e dest k (status == 206 && 0 < existing)) fun _ =>
      downloadStreamToFile e dest k cut body 0 (if status == 206 then existing else 0)

/-- `download_attempt`. -/
def downloadAttempt (url dest : String) (k : Nat) : Script World String Nat :=
  .bind (whole (existingSize e (.download dest k .metadata) dest)) fun partialSize =>
  .bind (dropPartial e url dest k partialSize) fun _ =>
  .bind (whole (existingSize e (.download dest k .recheck) dest)) fun existing =>
  .bind (whole (request e (.get url (if existing > 0 then some existing else none))))
    fun reply => receive X e dest k existing reply

/-- Remove what is left of a failed download and report the errors. -/
def giveUp (dest : String) (errors : List String) : Script World String Nat :=
  .bind (whole (removePartial e dest)) fun _ =>
    whole (throw s!"Download failed after {errors.length} attempt(s): {errorSummary errors}")

/-- The retry loop of `download_file_with_progress`. -/
def downloadLoop (url dest : String) : List Nat → List String → Script World String Nat
  | [], errors => giveUp e dest errors
  | k :: rest, errors =>
    .bind (.attempt (downloadAttempt X e url dest k)) fun
      | .ok bytes => whole (pure bytes)
      | .error err =>
        if (extractHttpStatus err).any permanentErrorCodes.contains then
          giveUp e dest (errors ++ [s!"Attempt {k + 1}: {err}"])
        else downloadLoop url dest rest (errors ++ [s!"Attempt {k + 1}: {err}"])

/-- `download_file_with_progress`. -/
def downloadFileWithProgress (url dest : String) : Script World String Nat :=
  downloadLoop X e url dest (List.range maxRetries) []

/-! ### it is the same download -/

section Run

variable {X e} {url dest : String}

/-- Writing the body does the same when it is not killed. -/
theorem run_downloadStreamToFile {k : Nat} {cut : Option String} (body : List Bytes)
    (i downloaded : Nat) :
    (downloadStreamToFile e dest k cut body i downloaded).run =
      Deltaship.downloadStreamToFile e dest k cut body i downloaded := by
  induction body generalizing i downloaded with
  | nil => cases cut <;> rfl
  | cons chunk rest ih =>
      unfold downloadStreamToFile Deltaship.downloadStreamToFile
      rw [run_bind]
      simp only [ih]
      rfl

theorem run_openDest {k : Nat} {resume : Bool} :
    (openDest e dest k resume).run = Deltaship.openDest e dest k resume := by
  cases resume <;> rfl

theorem run_dropPartial {k existing : Nat} :
    (dropPartial e url dest k existing).run = Deltaship.dropPartial e url dest k existing := by
  unfold dropPartial Deltaship.dropPartial
  split
  · simp only [run_bind, run_whole, run_attempt]
    congr 1
    funext expected
    congr 1
    funext r
    rcases r with _ | ⟨_ | _⟩ <;> rfl
  · rfl

theorem run_downloadAttempt {k : Nat} :
    (downloadAttempt X e url dest k).run = Deltaship.downloadAttempt X e url dest k := by
  unfold downloadAttempt Deltaship.downloadAttempt
  simp only [run_bind, run_whole, run_dropPartial]
  congr 1
  funext partialSize
  congr 1
  funext _
  congr 1
  funext existing
  congr 1
  funext reply
  cases reply with
  | failed msg => rfl
  | response status length body cut =>
      unfold receive
      dsimp only
      split
      · rfl
      · simp only [run_bind, run_whole, run_openDest, run_downloadStreamToFile]

theorem run_downloadLoop (ks : List Nat) (errors : List String) :
    (downloadLoop X e url dest ks errors).run = Deltaship.downloadLoop X e url dest ks errors := by
  induction ks generalizing errors with
  | nil => rfl
  | cons k rest ih =>
      unfold downloadLoop Deltaship.downloadLoop
      rw [run_bind, run_attempt, run_downloadAttempt]
      congr 1
      funext r
      cases r with
      | ok bytes => rfl
      | error err =>
          dsimp only
          split
          · rfl
          · exact ih _

/-- The steps are those of the download. -/
theorem run_downloadFileWithProgress :
    (downloadFileWithProgress X e url dest).run =
      Deltaship.downloadFileWithProgress X e url dest :=
  run_downloadLoop _ _

end Run

end Stepwise

/-! ## what the destination holds -/

/-- The destination is absent or holds a part of the file, from its beginning on. -/
def Partial (content : Bytes) (dest : String) (w : World) : Prop :=
  ∀ b, w.file dest = some b → b <+: content

/-- The destination holds the file. -/
def Complete (content : Bytes) (dest : String) (n : Nat) (w : World) : Prop :=
  w.file dest = some content ∧ n = content.length

section Holds

variable {content : Bytes} {url dest : String} {X : Crates} {e : Env} {w w' : World}

/-- A part that is left as it is stays one. -/
theorem Partial.of_file (h : Partial content dest w) (hfile : w'.file dest = w.file dest) :
    Partial content dest w' := by
  unfold Partial
  rwa [hfile]

/-- A part may be replaced by another one. -/
theorem partial_write {b : Bytes} (h : b <+: content) : Partial content dest (w.write dest b) := by
  intro b' hb'
  rw [World.file_write_self] at hb'
  exact Option.some.inj hb' ▸ h

/-- Where nothing is, nothing is a part of the content. -/
theorem partial_of_absent (h : w.file dest = none) : Partial content dest w := by
  intro b hb
  rw [h] at hb
  contradiction

/-- The size of a partial download is that of what the destination holds. -/
theorem wp_existingSize {site : Site} {Q : Nat → World → Prop} {E : String → World → Prop}
    (hok : Q ((w.file dest).getD []).length w) (hfail : ∀ msg, E msg w) :
    wp (existingSize e site dest) Q E w := by
  unfold existingSize
  rw [wp_bind, wp_pathExists]
  split
  · refine wp_fileLen (fun b _ hb => ?_) fun msg _ => hfail msg
    rw [hb] at hok
    exact hok
  · next hnot =>
      rw [w.file_eq_none_of_not_pathExists (by simpa using hnot)] at hok
      exact hok

/-- The destination is as before. -/
def SameDest (dest : String) (w w' : World) : Prop := w'.file dest = w.file dest

instance : IsPreorder World (SameDest dest) where
  refl _ := rfl
  trans _ _ _ h h' := Eq.trans h' h

/-- Making the directory leaves the file as it is. -/
theorem preserves_createParent_dest {k : Nat} :
    Preserves (SameDest dest) (createParent e dest k) := by
  unfold createParent
  split
  · exact .mapErr (preserves_createDirAll_of fun _ => rfl)
  · exact .pure

theorem preserves_request_dest {r : HttpRequest} : Preserves (SameDest dest) (request e r) :=
  fun _ => rfl

theorem preserves_headLength_dest : Preserves (SameDest dest) (headLength e url) := by
  refine .bind preserves_request_dest fun reply => ?_
  cases reply with
  | failed msg => exact .pure
  | response status length body cut => exact .pure

/-! ### the steps -/

/- A download may be killed at any point, and what it leaves is where the next one resumes. The
invariant is that the destination holds a part of the content; the only step that could break it,
appending to a part that the server has not continued, is guarded by the status and the range of the
answer. -/

/-- A chunk that continues the part leaves a longer part, wherever it is killed. -/
theorem keeps_appendChunk {k i : Nat} {chunk held : Bytes} (hfile : w.file dest = some held)
    (hchunk : held ++ chunk <+: content) :
    Keeps (Partial content dest) (Stepwise.appendChunk e dest k i chunk)
      (fun _ w' => w'.file dest = some (held ++ chunk)) (fun _ _ => True) w := by
  have hpart : ∀ n, held ++ chunk.take n <+: content := fun n =>
    ((List.prefix_append_right_inj held).mpr (List.take_prefix n chunk)).trans hchunk
  refine keeps_step ?_ ?_ ?_
  · intro b hb
    rw [hfile] at hb
    exact Option.some.inj hb ▸ (List.prefix_append _ _).trans hchunk
  · rintro w' ⟨n, rfl⟩
    rw [hfile]
    exact partial_write (hpart n)
  · rw [context, wp_mapErr]
    unfold appendFile
    rw [wp_bind, wp_get, hfile]
    cases e.faults (.download dest k (.write i)) with
    | none => exact ⟨partial_write hchunk, World.file_write_self _ _⟩
    | some f =>
        simp only
        cases f.written with
        | none =>
            refine ⟨fun b hb => ?_, trivial⟩
            rw [hfile] at hb
            exact Option.some.inj hb ▸ (List.prefix_append _ _).trans hchunk
        | some n => exact ⟨partial_write (hpart n), trivial⟩

/-- The rest of a body, behind what the destination holds. -/
theorem keeps_downloadStreamToFile {k : Nat} {cut : Option String} (body : List Bytes)
    (i : Nat) (held : Bytes) (hfile : w.file dest = some held)
    (hbody : held ++ body.flatten <+: content)
    (hend : cut = none → held ++ body.flatten = content) :
    Keeps (Partial content dest)
      (Stepwise.downloadStreamToFile e dest k cut body i held.length)
      (Complete content dest) (fun _ _ => True) w := by
  induction body generalizing i held w with
  | nil =>
      rw [List.flatten_nil, List.append_nil] at hbody hend
      have hpart : Partial content dest w := by
        intro b hb
        rw [hfile] at hb
        exact Option.some.inj hb ▸ hbody
      unfold Stepwise.downloadStreamToFile
      refine keeps_whole hpart ?_
      cases cut with
      | some msg => exact ⟨hpart, trivial⟩
      | none =>
          obtain rfl := hend rfl
          rw [Stepwise.endStream, wp_bind, context, wp_mapErr]
          exact wp_guardIo (fun _ => ⟨hpart, hfile, rfl⟩) fun _ _ => ⟨hpart, trivial⟩
  | cons chunk rest ih =>
      rw [List.flatten_cons, ← List.append_assoc] at hbody hend
      unfold Stepwise.downloadStreamToFile
      refine keeps_bind ?_
      refine keeps_mono (fun _ w' hw' => ?_) (fun _ _ h => h)
        (keeps_appendChunk hfile ((List.prefix_append _ _).trans hbody))
      have hrest := ih (i + 1) (held ++ chunk) hw' hbody hend
      rwa [List.length_append] at hrest

/-- Opening the destination empties it unless it is resumed. -/
theorem keeps_openDest {k : Nat} {resume : Bool} (hw : Partial content dest w) :
    Keeps (Partial content dest) (Stepwise.openDest e dest k resume)
      (fun _ w' => w'.file dest = if resume then w.file dest else some []) (fun _ _ => True) w := by
  cases resume with
  | true =>
      refine keeps_whole hw ?_
      rw [context, wp_mapErr]
      exact wp_guardIo (fun _ => ⟨hw, rfl⟩) fun _ _ => ⟨hw, trivial⟩
  | false =>
      refine keeps_bind (keeps_whole hw ?_)
      refine preserves_createParent_dest.wp (fun _ w₁ h₁ => ?_) fun _ w₁ h₁ =>
        ⟨hw.of_file h₁, trivial⟩
      refine ⟨hw.of_file h₁, keeps_whole (hw.of_file h₁) ?_⟩
      rw [context, wp_mapErr]
      unfold writeFile
      have hempty : Partial content dest (w₁.write dest []) := partial_write List.nil_prefix
      cases e.faults (.download dest k .create) with
      | none => exact ⟨hempty, World.file_write_self _ _⟩
      | some f =>
          simp only
          cases f.written with
          | none => exact ⟨hw.of_file h₁, trivial⟩
          | some n =>
              simp only [List.take_nil]
              exact ⟨hempty, trivial⟩

/-- A partial file that is not resumed is removed. -/
theorem keeps_dropPartial {k existing : Nat} (hw : Partial content dest w) :
    Keeps (Partial content dest) (Stepwise.dropPartial e url dest k existing)
      (fun _ w' => Partial content dest w') (fun _ _ => True) w := by
  have hremove : ∀ w, Partial content dest w →
      Keeps (Partial content dest) (whole (removeFile e (.download dest k .removePartial) dest))
        (fun _ w' => Partial content dest w') (fun _ _ => True) w := by
    intro w hw
    have hgone : Partial content dest (w.remove dest) :=
      partial_of_absent (World.file_remove_self _)
    exact keeps_whole hw (wp_removeFile ⟨hgone, hgone⟩ fun _ _ => ⟨hw, trivial⟩)
  unfold Stepwise.dropPartial
  split
  · refine keeps_bind (keeps_whole hw ?_)
    refine preserves_headLength_dest.wp (fun expected w₁ h₁ => ?_) fun _ w₁ h₁ =>
      ⟨hw.of_file h₁, trivial⟩
    have hw₁ := hw.of_file h₁
    refine ⟨hw₁, keeps_bind (keeps_attempt (keeps_whole hw₁ ?_))⟩
    refine preserves_verifyPartialDownload.wp (R := SameDest dest) (fun valid w₂ h₂ => ?_)
      fun _ w₂ h₂ => ?_
    · have hw₂ := hw₁.of_file h₂
      refine ⟨hw₂, ?_⟩
      cases valid with
      | true => exact keeps_whole hw₂ ⟨hw₂, hw₂⟩
      | false => exact hremove w₂ hw₂
    · have hw₂ := hw₁.of_file h₂
      exact ⟨hw₂, hremove w₂ hw₂⟩
  · exact keeps_whole hw ⟨hw, hw⟩

/-- What is held of the file, and what an honoured range adds to it. -/
theorem append_drop_of_prefix {α : Type} {held whole body : List α} (hheld : held <+: whole)
    (hbody : body <+: whole.drop held.length) : held ++ body <+: whole := by
  obtain ⟨rest, rfl⟩ := hheld
  rw [List.drop_left] at hbody
  exact (List.prefix_append_right_inj held).mpr hbody

/-- An answer is put behind what is held, or in its place. -/
theorem keeps_receive {k : Nat} {range : Option Nat} {reply : Reply}
    (hw : Partial content dest w)
    (hrange : range = if 0 < ((w.file dest).getD []).length then
      some ((w.file dest).getD []).length else none)
    (hreply : ∀ status length body cut, reply = .response status length body cut →
      Answers content range status body cut) :
    Keeps (Partial content dest)
      (Stepwise.receive X e dest k ((w.file dest).getD []).length reply)
      (Complete content dest) (fun _ _ => True) w := by
  cases reply with
  | failed msg => exact keeps_whole hw ⟨hw, trivial⟩
  | response status length body cut =>
      have hanswer := hreply status length body cut rfl
      unfold Stepwise.receive
      dsimp only
      split
      · next hcomplete =>
          -- the whole file is there already
          obtain ⟨n, hn, hlength⟩ := hanswer.complete hcomplete
          refine keeps_whole hw ⟨hw, ?_⟩
          cases hfile : w.file dest with
          | none => simp [hrange, hfile] at hn
          | some held =>
              rw [hfile, Option.getD_some] at hrange
              split at hrange
              · obtain rfl : held.length = n := Option.some.inj (hrange.symm.trans hn)
                have hall := (hw held hfile).eq_of_length_le hlength
                exact ⟨hall ▸ hfile, hall ▸ rfl⟩
              · rw [hrange] at hn
                contradiction
      · refine keeps_bind (keeps_whole hw (wp_bailIf (fun hsuccess => ⟨hw, ?_⟩)
          fun _ => ⟨hw, trivial⟩))
        refine keeps_bind (keeps_mono (fun _ w₁ h₁ => ?_) (fun _ _ h => h) (keeps_openDest hw))
        by_cases hpart : status = 206
        · -- the server honours the range
          obtain ⟨n, hn, hsends⟩ := hanswer.rest hpart
          rw [hrange] at hn
          split at hn
          · next hpos =>
              obtain rfl := Option.some.inj hn
              cases hfile : w.file dest with
              | none => simp [hfile] at hpos
              | some held =>
                  rw [hfile, Option.getD_some] at hsends hpos h₁
                  rw [if_pos (by simp [hpart, hpos])] at h₁
                  have hall := append_drop_of_prefix (hw held hfile) hsends.1
                  have hdone : cut = none → held ++ body.flatten = content := by
                    intro hcut
                    rw [hsends.2 hcut]
                    obtain ⟨rest, rfl⟩ := hw held hfile
                    rw [List.drop_left]
                  rw [Option.getD_some, if_pos (by simp [hpart])]
                  exact keeps_downloadStreamToFile body 0 held h₁ hall hdone
          · contradiction
        · have hsends := hanswer.all (by simpa using hsuccess) hpart
          rw [if_neg (by simp [hpart])] at h₁
          rw [if_neg (by simp [hpart])]
          exact keeps_downloadStreamToFile body 0 [] h₁ hsends.1 hsends.2

/-- An attempt leaves a part, and the content when it succeeds. -/
theorem keeps_downloadAttempt (hserves : e.Serves url content) {k : Nat}
    (hw : Partial content dest w) :
    Keeps (Partial content dest) (Stepwise.downloadAttempt X e url dest k)
      (Complete content dest) (fun _ _ => True) w := by
  unfold Stepwise.downloadAttempt
  refine keeps_bind (keeps_whole hw (wp_existingSize ⟨hw, ?_⟩ fun _ => ⟨hw, trivial⟩))
  refine keeps_bind (keeps_mono (fun _ w₁ hw₁ => ?_) (fun _ _ h => h) (keeps_dropPartial hw))
  refine keeps_bind (keeps_whole hw₁ (wp_existingSize ⟨hw₁, ?_⟩ fun _ => ⟨hw₁, trivial⟩))
  refine keeps_bind (keeps_whole hw₁ ?_)
  unfold request
  rw [wp_bind, wp_modify, wp_bind, wp_get, wp_pure]
  generalize hrange : (if ((w₁.file dest).getD []).length > 0 then
    some ((w₁.file dest).getD []).length else none) = range
  have hsend : (w₁.send (.get url range)).file dest = w₁.file dest := rfl
  have hw₂ := hw₁.of_file hsend
  exact ⟨hw₂, keeps_receive hw₂ hrange.symm fun status length body cut h =>
    hserves w₁.sent range status length body cut h⟩

/-- What is left of a failed download: nothing, if it can be removed. -/
theorem keeps_giveUp {errors : List String} (hw : Partial content dest w) :
    Keeps (Partial content dest) (Stepwise.giveUp e dest errors) (Complete content dest)
      (fun _ w' => w'.file dest = none ∨ e.faults (.downloadCleanup dest) ≠ none) w := by
  have hgone : Partial content dest (w.remove dest) := partial_of_absent (World.file_remove_self _)
  unfold Stepwise.giveUp
  refine keeps_bind (keeps_whole hw ?_)
  unfold removePartial
  rw [wp_bind, wp_pathExists]
  split
  · rw [wp_ignore]
    refine wp_exec_snd (P := fun w' => Partial content dest w' ∧ Keeps (Partial content dest) _
      (Complete content dest) _ w') (wp_removeFile ?_ fun _ hwhy => ?_)
    · exact ⟨hgone, keeps_whole hgone ⟨hgone, .inl (World.file_remove_self _)⟩⟩
    · exact ⟨hw, keeps_whole hw ⟨hw, hwhy.symm⟩⟩
  · next hnot =>
      exact ⟨hw, keeps_whole hw ⟨hw, .inl (w.file_eq_none_of_not_pathExists (by simpa using hnot))⟩⟩

/-- A whole download, from any part of the file on. -/
theorem keeps_downloadFileWithProgress (hserves : e.Serves url content)
    (hw : Partial content dest w) :
    Keeps (Partial content dest) (Stepwise.downloadFileWithProgress X e url dest)
      (Complete content dest)
      (fun _ w' => w'.file dest = none ∨ e.faults (.downloadCleanup dest) ≠ none) w := by
  unfold Stepwise.downloadFileWithProgress
  generalize List.range maxRetries = ks
  generalize ([] : List String) = errors
  induction ks generalizing errors w with
  | nil => exact keeps_giveUp hw
  | cons k rest ih =>
      unfold Stepwise.downloadLoop
      refine keeps_bind (keeps_attempt ?_)
      refine keeps_mono (fun bytes w₁ h₁ => ?_) (fun err w₁ h₁ => ?_)
        (keeps_and (keeps_downloadAttempt hserves hw))
      · exact keeps_whole h₁.1 h₁
      · dsimp only
        split
        · exact keeps_giveUp h₁.1
        · exact ih h₁.1 _

end Holds

/-! ## any number of downloads -/

/-- What happens to a destination that only downloads of one file write: they run to their end
or are killed, with any faults and any answers, and what else happens leaves it alone. -/
inductive Downloads (X : Crates) (url dest : String) (content : Bytes) : World → World → Prop
  | start (w : World) : Downloads X url dest content w w
  | ended {w w₁ : World} (e : Env) (h : Downloads X url dest content w w₁)
      (hserves : e.Serves url content) :
      Downloads X url dest content w (exec (downloadFileWithProgress X e url dest) w₁).2
  | killed {w w₁ w₂ : World} (e : Env) (h : Downloads X url dest content w w₁)
      (hserves : e.Serves url content)
      (hpass : (Stepwise.downloadFileWithProgress X e url dest).Passes w₁ w₂) :
      Downloads X url dest content w w₂
  | elsewhere {w w₁ w₂ : World} (h : Downloads X url dest content w w₁)
      (hsame : w₂.file dest = w₁.file dest) : Downloads X url dest content w w₂

section Run

variable {content : Bytes} {url dest : String} {X : Crates} {w w' : World}

/-- So do any number of them, with kills in between. -/
theorem Downloads.holds (h : Downloads X url dest content w w') (hw : Partial content dest w) :
    Partial content dest w' := by
  induction h with
  | start => exact hw
  | ended e _ hserves ih =>
      have hkeeps := keeps_downloadFileWithProgress (X := X) hserves ih
      have hfinal := hkeeps.1 _ (passes_exec _ _)
      rwa [Stepwise.run_downloadFileWithProgress] at hfinal
  | killed e _ hserves hpass ih => exact (keeps_downloadFileWithProgress hserves ih).1 _ hpass
  | elsewhere _ hsame ih => exact ih.of_file hsame

/-- At all times the destination is absent or holds a part of the file from its beginning on,
and a download leaves it complete if it succeeds, and absent if it fails and can remove it. -/
theorem download_resumes (habsent : w.file dest = none)
    (h : Downloads X url dest content w w') :
    (∀ b, w'.file dest = some b → b <+: content) ∧
      ∀ e : Env, e.Serves url content →
        (∀ n w₂, exec (downloadFileWithProgress X e url dest) w' = (.ok n, w₂) →
          w₂.file dest = some content ∧ n = content.length) ∧
        ∀ err w₂, exec (downloadFileWithProgress X e url dest) w' = (.error err, w₂) →
          w₂.file dest = none ∨ e.faults (.downloadCleanup dest) ≠ none := by
  have hw' := h.holds (partial_of_absent habsent)
  refine ⟨hw', fun e hserves => ?_⟩
  have hwp := (keeps_downloadFileWithProgress (X := X) hserves hw').2
  rw [Stepwise.run_downloadFileWithProgress] at hwp
  exact ⟨fun n w₂ hrun => wp_exec_ok hwp hrun, fun err w₂ hrun => wp_exec_error hwp hrun⟩

/-- A server that honours ranges, with the same file at every address; its first answer to a
`GET` request breaks off after `cutAt` bytes. -/
def serveRanges (content : Bytes) (cutAt : Nat) (history : List HttpRequest) : Reply :=
  match history.getLast? with
  | some (.get _ none) =>
    if history.length = 1 then .response 200 none [content.take cutAt] (some "connection reset")
    else .response 200 none [content] none
  | some (.get _ (some n)) =>
    if content.length ≤ n then .response 416 none [] none
    else .response 206 none [content.drop n] none
  | _ => .response 200 (some content.length) [] none

/-- The sample client with this server. -/
def sampleRangesEnv (content : Bytes) (cutAt : Nat) : Env :=
  { sampleEnv [] with serve := serveRanges content cutAt }

/-- The sample server sends the range it is asked for. -/
theorem serves_sampleRangesEnv (content : Bytes) (cutAt : Nat) (url : String) :
    (sampleRangesEnv content cutAt).Serves url content := by
  intro history range status length body cut hreply
  have hlast : (history ++ [HttpRequest.get url range]).getLast? = some (.get url range) := by simp
  simp only [sampleRangesEnv, serveRanges, hlast] at hreply
  cases range with
  | none =>
      dsimp only at hreply
      split at hreply
      · obtain ⟨rfl, -, rfl, rfl⟩ := Reply.response.inj hreply
        exact ⟨by simp, by simp, fun _ _ => ⟨by simpa using List.take_prefix _ _, by simp⟩⟩
      · obtain ⟨rfl, -, rfl, rfl⟩ := Reply.response.inj hreply
        exact ⟨by simp, by simp, fun _ _ => ⟨by simp, by simp⟩⟩
  | some n =>
      dsimp only at hreply
      split at hreply
      · next hlength =>
          obtain ⟨rfl, -, rfl, rfl⟩ := Reply.response.inj hreply
          exact ⟨fun _ => ⟨n, rfl, hlength⟩, by simp, by simp [isSuccess]⟩
      · obtain ⟨rfl, -, rfl, rfl⟩ := Reply.response.inj hreply
        exact ⟨by simp, fun _ => ⟨n, rfl, by simp, by simp⟩, by simp⟩

/-- A download that breaks off after two bytes and is resumed. -/
theorem download_resumes_sample :
    (exec (downloadFileWithProgress sampleCrates (sampleRangesEnv [1, 2, 3] 2) "/app" "/data/app")
      sampleWorld).2.file "/data/app" = some [1, 2, 3] := by
  have hrun : (exec (downloadFileWithProgress sampleCrates (sampleRangesEnv [1, 2, 3] 2) "/app"
      "/data/app") sampleWorld).1 = .ok 3 := by decide +kernel
  have hdone := (@download_resumes [1, 2, 3] "/app" "/data/app" sampleCrates sampleWorld _ rfl
    (.start _)).2 _ (serves_sampleRangesEnv [1, 2, 3] 2 "/app")
  exact (hdone.1 _ _ (exec_of_fst hrun)).1

end Run

end Deltaship
