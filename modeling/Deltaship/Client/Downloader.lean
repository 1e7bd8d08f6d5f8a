import Deltaship.Client.Frame
import Deltaship.Lib.Text

/-!
# Deltaship.Client.Downloader

`download_file_with_progress`, `download_file` and `download_bytes`.

A download resumes from whatever the destination holds: it asks the server for
the total size, drops a partial file that is larger, requests the rest with a
`Range` header and appends a `206` answer, but starts over on any other
success.  Up to three attempts are made unless an error names a permanent
status.  Whether a request may be sent at all (HTTPS only, for hosts other than
the loopback) is part of the server's answer: a refused request is a
`Reply.failed`.

Whatever the server sends, only the destination file changes
(`preserves_downloadFileWithProgress`).
-/

namespace Deltaship

/-- `MAX_RETRIES`. -/
def maxRetries : Nat := 3

/-- `PERMANENT_ERROR_CODES`. -/
def permanentErrorCodes : List Nat := [400, 401, 403, 404, 405, 410]

/-- `StatusCode::is_success`. -/
def isSuccess (status : Nat) : Bool := 200 ≤ status && status < 300

/-- `Display for StatusCode`. -/
def statusText (X : Crates) (status : Nat) : String := s!"{status} {X.statusReason status}"

/-- A word of an error text that is a status code, whatever surrounds its digits. -/
def statusWord (word : List Char) : Option Nat :=
  match Text.parseUnsigned 65536 (Text.trimMatches (fun c => !c.isDigit) word) with
  | some code => if 100 ≤ code ∧ code < 600 then some code else none
  | none => none

/-- `extract_http_status`: the first status code in the words behind `status`. -/
def extractHttpStatus (err : String) : Option Nat :=
  match Text.splitFirst "status".toList err.toList with
  | none => none
  | some (_, rest) => ((Text.words ("status".toList ++ rest)).drop 1).findSome? statusWord

example : extractHttpStatus "Download failed with status: 404 Not Found" = some 404 := by decide

section Downloads

variable (X : Crates) (e : Env)

/-- The size of a partial download, zero if there is none. -/
def existingSize (site : Site) (dest : String) : M Nat := do
  if ← pathExists dest then fileLen e site dest else pure 0

/-- The total size a `HEAD` request announces. -/
def headLength (url : String) : M (Option Nat) := do
  match ← request e (.head url) with
  | .failed _ => pure none
  | .response _ length _ _ => pure length

/-- `verify_partial_download`. -/
def verifyPartialDownload (dest : String) (k : Nat) (expectedTotalSize : Option Nat) :
    M Bool := do
  let existing ← fileLen e (.download dest k .partialMetadata) dest
  if expectedTotalSize.any fun total => total < existing then
    pure false
  else do
    -- the hash of the partial file is only logged, but a failing read counts
    let _ ← readFile e (.download dest k .partialHash) dest
    pure true

/-- `download_stream_to_file`: the chunks from the `i`-th on, with what was
downloaded before them. -/
def downloadStreamToFile (dest : String) (k : Nat) (cut : Option String) :
    List Bytes → Nat → Nat → M Nat
  | [], _, downloaded =>
    match cut with
    | some _ => throw "Failed to read chunk from stream"
    | none => do
        context "Failed to flush file" (guardIo e (.download dest k .flush))
        pure downloaded
  | chunk :: rest, i, downloaded => do
      context "Failed to write chunk to file" (appendFile e (.download dest k (.write i)) dest chunk)
      downloadStreamToFile dest k cut rest (i + 1) (downloaded + chunk.length)

/-- Create the directory of the destination. -/
def createParent (dest : String) (k : Nat) : M Unit :=
  match parentPath dest with
  | some parent =>
      context s!"Failed to create parent directory: {debugPath parent}"
        (createDirAll e (.download dest k .createDir) parent)
  | none => pure ()

/-- Open the destination: to append where the server resumes, else empty. -/
def openDest (dest : String) (k : Nat) (resume : Bool) : M Unit :=
  if resume then
    context s!"Failed to open file for appending: {debugPath dest}"
      (guardIo e (.download dest k .openAppend))
  else do
    createParent e dest k
    context s!"Failed to create file: {debugPath dest}" (writeFile e (.download dest k .create) dest [])

/-- Drop a partial file that cannot be resumed. -/
def dropPartial (url dest : String) (k existing : Nat) : M Unit :=
  if existing > 0 then do
    let expected ← headLength e url
    match ← Prog.attempt (verifyPartialDownload e dest k expected) with
    | .ok true => pure ()
    | .ok false => removeFile e (.download dest k .removePartial) dest
    | .error _ => removeFile e (.download dest k .removePartial) dest
  else pure ()

/-- `download_attempt`. -/
def downloadAttempt (url dest : String) (k : Nat) : M Nat := do
  let partialSize ← existingSize e (.download dest k .metadata) dest
  dropPartial e url dest k partialSize
  let existing ← existingSize e (.download dest k .recheck) dest
  match ← request e (.get url (if existing > 0 then some existing else none)) with
  | .failed msg => throw msg
  | .response status _ body cut =>
    -- 416: the file is already complete
    if status = 416 then pure existing
    else do
      bailIf (isSuccess status = false) s!"Download failed with status: {statusText X status}"
      let resumed := status == 206
      openDest e dest k (resumed && 0 < existing)
      downloadStreamToFile e dest k cut body 0 (if resumed then existing else 0)

/-- Remove what is left of a failed download, if it can be removed. -/
def removePartial (dest : String) : M Unit := do
  if ← pathExists dest then Prog.ignore (removeFile e (.downloadCleanup dest) dest) else pure ()

/-- The end of a download whose attempts all failed: remove the partial file
and report the errors. -/
def giveUp {α : Type} (dest : String) (errors : List String) : M α := do
  removePartial e dest
  let summary := errorSummary errors
  throw s!"Download failed after {errors.length} attempt(s): {summary}"

/-- The retry loop of `download_file_with_progress`. -/
def downloadLoop (url dest : String) : List Nat → List String → M Nat
  | [], errors => giveUp e dest errors
  | k :: rest, errors => do
      match ← Prog.attempt (downloadAttempt X e url dest k) with
      | .ok bytes => pure bytes
      | .error err =>
        let errors := errors ++ [s!"Attempt {k + 1}: {err}"]
        if (extractHttpStatus err).any permanentErrorCodes.contains then giveUp e dest errors
        else downloadLoop url dest rest errors

/-- `download_file_with_progress`. -/
def downloadFileWithProgress (url dest : String) : M Nat :=
  downloadLoop X e url dest (List.range maxRetries) []

/-- The chunk loop of `download_file`. -/
def downloadChunks (url dest : String) (cut : Option String) : List Bytes → Nat → M Unit
  | [], _ =>
    match cut with
    | some _ => throw s!"Failed to read chunk from {url}"
    | none => guardIo e (.download dest 0 .flush)
  | chunk :: rest, i => do
      context s!"Failed to write to file: {debugPath dest}"
        (appendFile e (.download dest 0 (.write i)) dest chunk)
      downloadChunks url dest cut rest (i + 1)

/-- `download_file`: a single attempt, without a look at the partial file. -/
def downloadFile (url dest : String) : M Unit := do
  let existing ← context s!"Failed to read metadata for {debugPath dest}"
    (existingSize e (.download dest 0 .metadata) dest)
  match ← request e (.get url (if existing > 0 then some existing else none)) with
  | .failed _ => throw s!"Failed to send HTTP request to {url}"
  | .response status _ body cut =>
    if status = 416 then pure ()
    else do
      bailIf (isSuccess status = false)
        s!"Download failed from {url}: status {statusText X status}"
      openDest e dest 0 (status == 206 && 0 < existing)
      downloadChunks e url dest cut body 0

/-- `download_bytes`. -/
def downloadBytes (url : String) : M Bytes := do
  match ← request e (.get url none) with
  | .failed msg => throw msg
  | .response status _ body cut => do
      bailIf (isSuccess status = false) s!"Download failed with status: {statusText X status}"
      match cut with
      | some msg => throw msg
      | none => pure body.flatten

end Downloads

/-! ## a download touches its destination only -/

section Frames

open Prog

/-- A relation that what a download to a file does cannot break. -/
structure DownloadFrame (R : World → World → Prop) (dest : String) : Prop where
  write : ∀ w b, R w (w.write dest b)
  remove : ∀ w, R w (w.remove dest)
  send : ∀ w r, R w (w.send r)
  createDir : ∀ (w : World) dir, parentPath dest = some dir →
    R w { w with dirs := w.dirs.insert dir }

/-- Touching the paths of a download is a frame for it. -/
theorem downloadFrame_touches {P : String → Prop} {dest : String} (hdest : P dest) :
    DownloadFrame (Touches P) dest :=
  ⟨fun _ _ => .write hdest, fun _ => .remove hdest, fun _ _ => .of_eq rfl rfl rfl,
    fun _ _ _ => .of_eq rfl rfl rfl⟩

variable {X : Crates} {e : Env} {P : String → Prop} {dest : String}
  {R : World → World → Prop} [IsPreorder World R]

/-- Looking for a part that is there changes nothing. -/
theorem preserves_existingSize {site : Site} : Preserves R (existingSize e site dest) :=
  .bind preserves_pathExists fun _ => .ite preserves_fileLen .pure

/-- Asking the server for the length stays within the frame. -/
theorem preserves_headLength (hR : DownloadFrame R dest) {url : String} :
    Preserves R (headLength e url) := by
  refine .bind (fun w => hR.send w _) fun r => ?_
  cases r with
  | failed msg => exact .pure
  | response status length body cut => exact .pure

theorem preserves_verifyPartialDownload {k : Nat} {expected : Option Nat} :
    Preserves R (verifyPartialDownload e dest k expected) :=
  .bind preserves_fileLen fun _ => .ite .pure (.bind preserves_readFile fun _ => .pure)

/-- The body goes to the file of the download, however it ends. -/
theorem preserves_downloadStreamToFile (hR : DownloadFrame R dest) {k : Nat}
    {cut : Option String} (body : List Bytes) (i downloaded : Nat) :
    Preserves R (downloadStreamToFile e dest k cut body i downloaded) := by
  induction body generalizing i downloaded with
  | nil =>
      unfold downloadStreamToFile
      cases cut with
      | some msg => exact .throw
      | none => exact .bind (.mapErr preserves_guardIo) fun _ => .pure
  | cons chunk rest ih =>
      unfold downloadStreamToFile
      exact .bind (.mapErr (preserves_appendFile_of hR.write)) fun _ => ih _ _

/-- Making its directory stays within the frame. -/
theorem preserves_createParent (hR : DownloadFrame R dest) {k : Nat} :
    Preserves R (createParent e dest k) := by
  unfold createParent
  split
  · next parent hparent =>
      exact .mapErr (preserves_createDirAll_of fun w => hR.createDir w parent hparent)
  · exact .pure

/-- So does opening it, anew or at its end. -/
theorem preserves_openDest (hR : DownloadFrame R dest) {k : Nat} {resume : Bool} :
    Preserves R (openDest e dest k resume) :=
  .ite (.mapErr preserves_guardIo)
    (.bind (preserves_createParent hR) fun _ => .mapErr (preserves_writeFile_of hR.write))

/-- So does dropping what is too long. -/
theorem preserves_dropPartial (hR : DownloadFrame R dest) {url : String} {k existing : Nat} :
    Preserves R (dropPartial e url dest k existing) := by
  refine .ite ?_ .pure
  refine .bind (preserves_headLength hR) fun expected => ?_
  refine .bind (.attempt preserves_verifyPartialDownload) fun r => ?_
  rcases r with _ | ⟨_ | _⟩
  · exact preserves_removeFile_of hR.remove
  · exact preserves_removeFile_of hR.remove
  · exact .pure

/-- So does one attempt. -/
theorem preserves_downloadAttempt (hR : DownloadFrame R dest) {url : String} {k : Nat} :
    Preserves R (downloadAttempt X e url dest k) := by
  refine .bind preserves_existingSize fun _ => ?_
  refine .bind (preserves_dropPartial hR) fun _ => ?_
  refine .bind preserves_existingSize fun existing => ?_
  refine .bind (fun w => hR.send w _) fun r => ?_
  cases r with
  | failed msg => exact .throw
  | response status length body cut =>
      refine .ite .pure (.bind preserves_bailIf fun _ => ?_)
      exact .bind (preserves_openDest hR) fun _ => preserves_downloadStreamToFile hR _ _ _

/-- So does removing what was downloaded. -/
theorem preserves_removePartial (hR : DownloadFrame R dest) :
    Preserves R (removePartial e dest) :=
  .bind preserves_pathExists fun _ =>
    .ite (.ignore (preserves_removeFile_of hR.remove)) .pure

/-- So does giving up. -/
theorem preserves_giveUp (hR : DownloadFrame R dest) {α : Type} {errors : List String} :
    Preserves R (giveUp e dest errors : M α) :=
  .bind (preserves_removePartial hR) fun _ => .throw

/-- So does a download as a whole. -/
theorem preserves_downloadFileWithProgress_of (hR : DownloadFrame R dest) {url : String} :
    Preserves R (downloadFileWithProgress X e url dest) := by
  unfold downloadFileWithProgress
  generalize List.range maxRetries = ks
  generalize ([] : List String) = errors
  induction ks generalizing errors with
  | nil => exact preserves_giveUp hR
  | cons k rest ih =>
      unfold downloadLoop
      refine .bind (.attempt (preserves_downloadAttempt hR)) fun r => ?_
      cases r with
      | ok bytes => exact .pure
      | error err => exact .ite (preserves_giveUp hR) (ih _)

/-- Whatever the server answers, a download changes no file but its
destination, and neither the database nor the log. -/
theorem preserves_downloadFileWithProgress (hdest : P dest) {url : String} :
    Preserves (Touches P) (downloadFileWithProgress X e url dest) :=
  preserves_downloadFileWithProgress_of (downloadFrame_touches hdest)

/-- So does a body that is written without resuming. -/
theorem preserves_downloadChunks (hR : DownloadFrame R dest) {url : String}
    {cut : Option String} (body : List Bytes) (i : Nat) :
    Preserves R (downloadChunks e url dest cut body i) := by
  induction body generalizing i with
  | nil =>
      unfold downloadChunks
      cases cut with
      | some msg => exact .throw
      | none => exact preserves_guardIo
  | cons chunk rest ih =>
      unfold downloadChunks
      exact .bind (.mapErr (preserves_appendFile_of hR.write)) fun _ => ih _

/-- A download in one attempt changes its destination only, too. -/
theorem preserves_downloadFile (hdest : P dest) {url : String} :
    Preserves (Touches P) (downloadFile X e url dest) := by
  have hR := downloadFrame_touches hdest
  refine .bind (.mapErr preserves_existingSize) fun existing => ?_
  refine .bind preserves_request fun r => ?_
  cases r with
  | failed msg => exact .throw
  | response status length body cut =>
      refine .ite .pure (.bind preserves_bailIf fun _ => ?_)
      exact .bind (preserves_openDest hR) fun _ => preserves_downloadChunks hR _ _

/-- Downloading into memory changes no file. -/
theorem preserves_downloadBytes {url : String} :
    Preserves (Touches P) (downloadBytes X e url) := by
  refine .bind preserves_request fun r => ?_
  cases r with
  | failed msg => exact .throw
  | response status length body cut =>
      refine .bind preserves_bailIf fun _ => ?_
      cases cut with
      | some msg => exact .throw
      | none => exact .pure

end Frames

end Deltaship
