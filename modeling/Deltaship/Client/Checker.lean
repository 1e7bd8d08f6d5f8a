import Deltaship.Client.Downloader

/-!
# Deltaship.Client.Checker

`UpdateChecker::check_for_updates`: ask the server for an update of one binary,
retry what looks transient, and turn an accepted answer into an `UpdateInfo`.

An `UpdateInfo` is what the rest of the client trusts least: everything in it
comes from the server.  What the checker promises about it is small and stated
at the end: the texts of its version and of its version id have a safe format.
-/

namespace Deltaship

/-- `MAX_RELEASE_NOTES_SIZE`. -/
def maxReleaseNotesSize : Nat := 64 * 1024

/-- `MAX_VERSION_LENGTH`. -/
def maxVersionLength : Nat := 64

/-- `char::is_ascii_alphanumeric`. -/
def isAsciiAlphanumeric (c : Char) : Bool := c.isAlpha || c.isDigit

/-- `UpdateInfo`. -/
structure UpdateInfo where
  version : Version
  versionId : String
  diffUrl : Option String
  diffChecksum : Option String
  diffSize : Option Nat
  fullBinaryUrl : Option String
  fullBinarySize : Option Nat
  checksum : String
  signatureUrl : Option String
  forced : Bool
  releaseNotes : Option String
deriving DecidableEq, Repr

/-! ## texts -/

/-- An upper-case hexadecimal digit. -/
def upperHexDigit (n : Nat) : Char :=
  if n < 10 then Char.ofNat (48 + n) else Char.ofNat (55 + n)

/-- `url_encode_path_segment`. -/
def urlEncodePathSegment (s : String) : String :=
  String.ofList (s.toList.flatMap fun c =>
    if isAsciiAlphanumeric c || c == '-' || c == '_' || c == '.' || c == '~' then [c]
    else (utf8 (String.singleton c)).flatMap fun b =>
      ['%', upperHexDigit (b.toNat / 16), upperHexDigit (b.toNat % 16)])

/-- `validate_version_format`. -/
def validateVersionFormat (version : String) : Except String Unit :=
  if version.isEmpty then .error "Version string cannot be empty"
  else if Text.byteLen version > maxVersionLength then
    .error s!"Version string too long: {Text.byteLen version} characters (max {maxVersionLength})"
  else if version.toList.head? = some '.' ∨ version.toList.getLast? = some '.' then
    .error s!"Invalid version format: '{version}'. Version strings cannot start or end with a dot."
  else if Text.contains version ".." then
    .error s!"Invalid version format: '{version}'. Version strings cannot contain consecutive dots."
  else if !version.toList.all fun c => isAsciiAlphanumeric c || c == '.' ||
      c == '-' || c == '_' then
    .error s!"Invalid version format: '{version}'. Only alphanumeric characters, dots, hyphens, and underscores are allowed."
  else .ok ()

/-- `sanitize_release_notes`: the length is in bytes, the cut in characters. -/
def sanitizeReleaseNotes (notes : Option String) : Option String :=
  notes.map fun s =>
    if Text.byteLen s > maxReleaseNotesSize then
      String.ofList (s.toList.take maxReleaseNotesSize) ++ "... [truncated]"
    else s

/-- `char::is_control`: the Unicode category `Cc`. -/
def isControl (c : Char) : Bool := c.toNat < 32 || (127 ≤ c.toNat && c.toNat < 160)

/-- The error of a check that was answered with an error status. -/
def statusError (X : Crates) (code : Nat) (body : String) : String :=
  let sanitized := String.ofList ((body.toList.take 200).map fun c =>
    if isControl c && c != '\n' then ' ' else c)
  let truncated := if Text.byteLen body > 200 then "... [truncated]" else ""
  s!"Update check failed with status {statusText X code}: {sanitized}{truncated}"

/-! ## retrying -/

/-- An error of one attempt; `transport` carries what the `reqwest` error says
about itself. -/
inductive CheckError where
  | transport (msg : String) (transient : Bool)
  | other (msg : String)
deriving DecidableEq, Repr

/-- `Display` of the error. -/
def CheckError.text : CheckError → String
  | .transport msg _ => msg
  | .other msg => msg

/-- What a word of an error text says about retrying: a status code that is
transient or permanent, or nothing. -/
def retryWord (word : List Char) : Option Bool :=
  match statusWord word with
  | some code =>
    if code = 429 ∨ (500 ≤ code ∧ code < 600) then some true
    else if permanentErrorCodes.contains code then some false
    else none
  | none => none

/-- `should_retry_error`.  A `reqwest` error of a check never carries a status. -/
def shouldRetryError (h : Host) (err : CheckError) : Bool :=
  let text := h.toLowercase err.text
  match err with
  | .transport _ true => true
  | _ =>
    if Text.contains text "timeout" || Text.contains text "connection" then true
    else ((Text.words text.toList).findSome? retryWord).getD true

/-! ## the check -/

section Check

variable (X : Crates) (e : Env)

/-- `str::trim_end_matches('/')`. -/
def trimEndSlashes (s : String) : String :=
  String.ofList (s.toList.reverse.dropWhile (· == '/')).reverse

/-- Prefix a path that the server gave without its own address. -/
def absolutize (base : String) (url : Option String) : Option String :=
  url.map fun u => if u.toList.head? = some '/' then base ++ u else u

/-- The update an answer offers, if it offers one. -/
def updateInfoOf (r : ServerUpdateResponse) : Except String (Option UpdateInfo) := do
  if !r.updateAvailable then return none
  match r.targetVersion with
  | none => throw "Update available but no target version provided"
  | some version =>
    let versionStr := X.semver.display version
    validateVersionFormat versionStr
    match r.checksum with
    | none => throw "Update available but no checksum provided"
    | some checksum =>
      let versionId := r.versionId.getD versionStr
      validateVersionFormat versionId
      let base := trimEndSlashes e.config.serverUrl
      return some
        { version, versionId, checksum
          diffUrl := absolutize base r.diffUrl
          diffChecksum := r.diffChecksum
          diffSize := r.diffSize
          fullBinaryUrl := absolutize base r.fullBinaryUrl
          fullBinarySize := r.fullBinarySize
          signatureUrl := absolutize base r.signatureUrl
          forced := r.forced
          releaseNotes := sanitizeReleaseNotes r.releaseNotes }

/-- `check_for_updates_attempt`. -/
def checkForUpdatesAttempt (binary : ManagedBinary) (url : String) :
    M (Except CheckError (Option UpdateInfo)) := do
  let reply ← askServer e ⟨url, binary.platform, binary.currentVersionString⟩
  match reply with
  | .failed msg transient => return .error (.transport msg transient)
  | .status code body =>
    if isSuccess code then return .error (.transport "error decoding response body" false)
    else return .error (.other (statusError X code body))
  | .json response => return (updateInfoOf X e response).mapError .other

/-- The retry loop of `check_for_updates`. -/
def checkLoop (binary : ManagedBinary) (url : String) :
    List Nat → List String → M (Option UpdateInfo)
  | [], errors => throw (checkFailure errors)
  | k :: rest, errors => do
      match ← checkForUpdatesAttempt X e binary url with
      | .ok result => pure result
      | .error err =>
        let errors := errors ++ [s!"Attempt {k + 1}: {err.text}"]
        if shouldRetryError e.host err then checkLoop binary url rest errors
        else throw (checkFailure errors)
where
  /-- The error of a check whose attempts all failed. -/
  checkFailure (errors : List String) : String :=
    let summary := errorSummary errors
    s!"Update check failed after {errors.length} attempt(s): {summary}"

/-- `check_for_updates`. -/
def checkForUpdates (binary : ManagedBinary) : M (Option UpdateInfo) :=
  let url := s!"{trimEndSlashes e.config.serverUrl}/api/v1/apps/{urlEncodePathSegment binary.binaryName}/check-update"
  checkLoop X e binary url (List.range maxRetries) []

end Check

/-! ## an update that is found was offered -/

section Offers

open Prog

variable {X : Crates} {e : Env} {w : World}

/-- Some answer of the server offers this version. -/
def Env.Offers (e : Env) (target : Version) : Prop :=
  ∃ asked r, e.serveCheck asked = .json r ∧ r.updateAvailable = true ∧
    r.targetVersion = some target

/-- An update is of the version that the server names. -/
theorem targetVersion_of_updateInfoOf {r : ServerUpdateResponse} {upd : UpdateInfo}
    (h : updateInfoOf X e r = .ok (some upd)) :
    r.updateAvailable = true ∧ r.targetVersion = some upd.version := by
  unfold updateInfoOf at h
  split at h
  · have hnone : none = some upd := Except.ok.inj h
    contradiction
  · next havail =>
      refine ⟨by simpa using havail, ?_⟩
      split at h
      · contradiction
      · next version hversion =>
          obtain ⟨-, -, h⟩ := Except.bind_eq_ok.mp h
          split at h
          · contradiction
          · obtain ⟨-, -, h⟩ := Except.bind_eq_ok.mp h
            rw [hversion, ← Option.some.inj (Except.ok.inj h)]

/-- What an attempt gives was offered by the server. -/
theorem wp_checkForUpdatesAttempt {binary : ManagedBinary} {url : String} :
    wp (checkForUpdatesAttempt X e binary url)
      (fun r _ => ∀ upd, r = .ok (some upd) → e.Offers upd.version) (fun _ _ => True) w := by
  simp only [checkForUpdatesAttempt, askServer, wp_bind, wp_modify, wp_get, wp_pure]
  split
  · intro upd h; contradiction
  · split <;> (intro upd h; contradiction)
  · next r hr =>
      intro upd h
      cases hinfo : updateInfoOf X e r with
      | error err => rw [hinfo] at h; contradiction
      | ok found =>
          rw [hinfo] at h
          obtain rfl := Except.ok.inj h
          exact ⟨_, r, hr, targetVersion_of_updateInfoOf hinfo⟩

/-- What a check returns, the server offered. -/
theorem wp_checkForUpdates {binary : ManagedBinary} :
    wp (checkForUpdates X e binary) (fun r _ => ∀ upd, r = some upd → e.Offers upd.version)
      (fun _ _ => True) w := by
  unfold checkForUpdates
  generalize List.range maxRetries = ks
  generalize ([] : List String) = errors
  induction ks generalizing errors w with
  | nil => trivial
  | cons k rest ih =>
      unfold checkLoop
      rw [wp_bind]
      refine wp_mono (fun r w' h => ?_) (fun _ _ _ => trivial) wp_checkForUpdatesAttempt
      cases r with
      | ok result => exact fun upd hupd => h upd (congrArg Except.ok hupd)
      | error err =>
          show wp (if shouldRetryError e.host err then _ else _) _ _ _
          split
          · exact ih _
          · trivial

end Offers

/-! ## a check changes nothing but the requests sent -/

section Frames

open Prog

variable {X : Crates} {e : Env} {P : String → Prop}

theorem preserves_checkForUpdatesAttempt {binary : ManagedBinary} {url : String} :
    Preserves (Touches P) (checkForUpdatesAttempt X e binary url) := by
  refine .bind (fun _ => .of_eq rfl rfl rfl) fun reply => ?_
  cases reply with
  | failed msg transient => exact .pure
  | status code body => exact .ite .pure .pure
  | json response => exact .pure

/-- An update check changes no file, no row and no log entry. -/
theorem preserves_checkForUpdates {binary : ManagedBinary} :
    Preserves (Touches P) (checkForUpdates X e binary) := by
  unfold checkForUpdates
  generalize List.range maxRetries = ks
  generalize ([] : List String) = errors
  induction ks generalizing errors with
  | nil => exact .throw
  | cons k rest ih =>
      unfold checkLoop
      refine .bind preserves_checkForUpdatesAttempt fun r => ?_
      cases r with
      | ok result => exact .pure
      | error err => exact .ite (ih _) .throw

end Frames

end Deltaship
