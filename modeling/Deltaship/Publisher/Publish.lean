import Deltaship.Publisher.Commands
import Deltaship.Publisher.Delta

/-!
# Deltaship.Publisher.Publish

`publish`: which version it uploads, and when it marks it as published.

Versions are unique within a binary, and a binary is a name *and* a platform.  The command is
given a name only and takes the first binary of that name, so it reaches a version exactly if its
binary is that one (`reaches_iff`); so does `sign`, if it is given a name.

The server is an input: what it answers depends on all that it was sent.  A request and its
retries are one.  The printed output is left out.
-/

namespace Deltaship

open Prog

namespace Publish

/-- The calls that can fail; `k` counts the diffs. -/
inductive Site where
  | openDb | listBinaries | getVersion | getConfig | readLine | readBinary | listJobs
  | fromVersion (k : Nat) | readDiff (k : Nat) | setPublished
deriving DecidableEq, Repr

/-- `PublishRequest`. -/
structure VersionRequest where
  appName : String
  version : String
  platform : String
  binaryData : Bytes
  signature : Bytes
  checksum : Bytes
deriving DecidableEq, Repr

/-- `PublishDiffRequest`. -/
structure DiffRequest where
  appName : String
  fromVersion : String
  toVersion : String
  platform : String
  diffData : Bytes
  checksum : Bytes
deriving DecidableEq, Repr

/-- What is sent to a server. -/
inductive Request where
  | version (request : VersionRequest)
  | diff (request : DiffRequest)
deriving DecidableEq, Repr

/-- `PublishResponse` and `PublishDiffResponse`, without the id. -/
structure Response where
  success : Bool
  message : String
deriving DecidableEq, Repr

/-- `ApiClient`: where requests go, and with which key. -/
structure ApiClient where
  baseUrl : String
  apiKey : Option String
deriving DecidableEq, Repr

/-- A project, with what publishing reads and writes of it. -/
structure Outgoing where
  project : Project
  /-- The `server_url` of the configuration. -/
  serverUrl : Option String
  /-- The versions that were marked as published, in this order. -/
  published : List String
  /-- What was sent. -/
  sent : List (ApiClient × Request)

/-- What the command cannot choose. -/
structure Env where
  faults : Site → Option HostFault
  /-- The line that is typed at the prompt. -/
  answer : String
  /-- What comes back for the last of these requests. -/
  server : List (ApiClient × Request) → Except String Response

/-- The publishing of a version; its errors are texts. -/
abbrev PublishM (α : Type) : Type := Prog Outgoing String α

/-- `DEFAULT_SERVER_URL`. -/
def defaultServerUrl : String := "http://localhost:8080"

section Run

variable (X : PublisherCrates) (e : Env)

/-- Fail if the call fails. -/
def call (site : Site) (text : String → String) : PublishM Unit :=
  match e.faults site with
  | none => pure ()
  | some fault => throw (text fault.text)

/-- A query of the database. -/
def query {α : Type} (site : Site) (f : PublisherDb → α) : PublishM α := do
  call e site id
  pure (f (← get).project.db)

/-- `fs::read`. -/
def readFile (site : Site) (path : String) (text : String → String) : PublishM Bytes := do
  call e site text
  Prog.ofExcept (Except.ofOption (text notFoundText) ((← get).project.content path.toList))

/-- Send a request and wait for the response. -/
def send (client : ApiClient) (request : Request) : PublishM (Except String Response) := do
  modify fun s => { s with sent := s.sent ++ [(client, request)] }
  pure (e.server (← get).sent)

/-- The binary to publish. -/
def findBinary (name : String) : PublishM DbBinary := do
  let binary? ← query e .listBinaries fun db => db.listBinaries.find? fun b => b.binaryName == name
  Prog.ofExcept (Except.ofOption (s!"Binary '{name}' not found in database.\n\nNext steps:\n" ++
    "  - List all binaries with: deltaship-publisher list\n" ++
    s!"  - Register this binary with: deltaship-publisher register --name {name} " ++
    "--version <VERSION> --file <PATH> --platform <PLATFORM>\n" ++
    "  - Check for typos in the binary name") binary?)

/-- The version to publish. -/
def findVersion (binary : DbBinary) (name version : String) : PublishM DbVersion := do
  let version? ← query e .getVersion fun db => db.getVersionByString binary.binaryId version
  Prog.ofExcept (Except.ofOption
    (s!"Version {version} not found for binary '{name}'.\n\nNext steps:\n" ++
      s!"  - List versions for this binary: deltaship-publisher list --name {name}\n" ++
      s!"  - Register the version: deltaship-publisher register --name {name} " ++
      s!"--version {version} --file <PATH> --platform {binary.platform}\n" ++
      "  - Check for typos in the version number") version?)

/-- The signature of the version. -/
def findSignature (dbVersion : DbVersion) (name version : String) : PublishM Bytes :=
  Prog.ofExcept (Except.ofOption (s!"Version {version} is not signed yet.\n\nNext steps:\n" ++
    s!"  - Sign the version with: deltaship-publisher sign --name {name} --version {version}\n" ++
    "  - You will need your signing key (default: .deltaship/keys/signing_key.pem)\n" ++
    "  - After signing, retry this publish command") dbVersion.signatureEd25519)

/-- The URL of the server. -/
def findBaseUrl : Option String → PublishM String
  | some url => pure url
  | none => do
      call e .getConfig id
      pure ((← get).serverUrl.getD defaultServerUrl)

/-- Validate and confirm a server that is not the default one. -/
def confirmBaseUrl (url : String) (yes : Bool) : PublishM Unit :=
  if url = defaultServerUrl then pure ()
  else if !Text.startsWith url "http://" && !Text.startsWith url "https://" then
    throw s!"Invalid server URL: '{url}'. Must start with http:// or https://"
  else if yes then pure ()
  else do
    call e .readLine id
    if Text.trim e.answer = "YES" then pure ()
    else throw "Publish cancelled. Server URL not confirmed."

/-- Read the file of the version. -/
def readBinary (dbVersion : DbVersion) : PublishM Bytes := do
  let path := dbVersion.filePath
  if !(← get).project.pathExists path.toList then
    throw (s!"Binary file not found at: {path}\n\nNext steps:\n" ++
      "  - The file may have been moved or deleted since registration\n" ++
      s!"  - Verify the file exists: ls -l {path}\n" ++
      "  - If the file was moved, update the path or re-register the version\n" ++
      "  - Ensure you're running this command from the correct directory")
  else do
    let data ← readFile e .readBinary path fun _ =>
      s!"Failed to read binary file from {path.quote}"
    if data.length ≠ dbVersion.fileSizeBytes then
      throw (s!"File size mismatch. Expected {dbVersion.fileSizeBytes} bytes, " ++
        s!"found {data.length} bytes. The file may have been modified.")
    else pure data

/-- Upload the version. -/
def uploadVersion (client : ApiClient) (request : VersionRequest) : PublishM Unit := do
  let response ← Prog.ofExcept (← send e client (.version request))
  if response.success then pure () else throw s!"Publish failed: {response.message}"

/-- What went wrong when a diff was sent, if anything did. -/
def uploadFailure (fromVersion toVersion : String) : Except String Response → Option String
  | .ok response =>
    if response.success then none
    else some s!"Failed to upload diff {fromVersion} -> {toVersion}: {response.message}"
  | .error text => some s!"Failed to upload diff {fromVersion} -> {toVersion}: {text}"

/-- Upload the `k`-th diff; what went wrong with it is returned. -/
def uploadDiff (client : ApiClient) (name version : String) (binary : DbBinary) (k : Nat)
    (job : DbDiffJob) : PublishM (Option String) :=
  match job.diffPath with
  | none => pure none
  | some path => do
    if !(← get).project.pathExists path.toList then pure (some s!"Diff file not found: {path}")
    else do
      match ← query e (.fromVersion k) fun db => db.getVersion job.fromVersionId with
      | none => pure (some s!"Source version not found for diff job {job.jobId}")
      | some fromVersion => do
        let diffData ← readFile e (.readDiff k) path id
        let checksum := job.diffHashBlake3.getD []
        let computed := (X.crypto.blake3 diffData).val
        if computed ≠ checksum then
          pure (some (s!"Diff checksum mismatch for {fromVersion.versionString} -> {version}: " ++
            s!"computed {computed}, expected {checksum}"))
        else do
          let response ← send e client (.diff
            ⟨name, fromVersion.versionString, version, binary.platform, diffData, checksum⟩)
          pure (uploadFailure fromVersion.versionString version response)

/-- Upload the diffs; what went wrong is collected. -/
def uploadDiffs (client : ApiClient) (name version : String) (binary : DbBinary) :
    List DbDiffJob → Nat → PublishM (List String)
  | [], _ => pure []
  | job :: rest, k => do
      let failure ← uploadDiff X e client name version binary k job
      let failures ← uploadDiffs client name version binary rest (k + 1)
      pure (failure.toList ++ failures)

/-- `get_diffs_for_version`. -/
def getDiffsForVersion (db : PublisherDb) (versionId : String) : List DbDiffJob :=
  (db.listDiffJobsByStatus .completed).filter fun j => j.toVersionId == versionId

/-- `set_version_published`. -/
def setVersionPublished (versionId : String) : PublishM Unit := do
  call e .setPublished id
  if ((← get).project.db.getVersion versionId).isNone then
    throw (DbError.notFound s!"Version not found: '{versionId}'").text
  else modify fun s => { s with published := s.published ++ [versionId] }

/-- `publish::run`. -/
def run (name version : String) (serverUrl apiKey : Option String) (yes : Bool) :
    PublishM Unit := do
  call e .openDb fun _ => "Failed to open database at \".deltaship/publisher.db\""
  let binary ← findBinary e name
  let dbVersion ← findVersion e binary name version
  let signature ← findSignature dbVersion name version
  let baseUrl ← findBaseUrl e serverUrl
  confirmBaseUrl e baseUrl yes
  let binaryData ← readBinary e dbVersion
  let client : ApiClient := ⟨baseUrl, apiKey⟩
  uploadVersion e client
    ⟨name, version, binary.platform, binaryData, signature, dbVersion.fileHashBlake3⟩
  let diffs ← query e .listJobs fun db => getDiffsForVersion db dbVersion.versionId
  let failures ← uploadDiffs X e client name version binary diffs 0
  if failures ≠ [] then
    throw (s!"Binary uploaded successfully, but {failures.length} diff upload(s) failed:\n  - " ++
      String.intercalate "\n  - " failures ++
      "\n\nVersion not marked as published. Fix the issues and re-run publish.")
  else setVersionPublished e dbVersion.versionId

end Run

/-! ## what a run does -/

/- The command goes through the selected versions in order. For each one it uploads the binary, then
the diffs of completed jobs, and marks the version last. A fault or a refusal of the server stops
the version it happens to; if nothing fails, only a damaged diff can. -/

/-- The versions that were uploaded. -/
def Outgoing.uploads (s : Outgoing) : List VersionRequest :=
  s.sent.filterMap fun p =>
    match p.2 with
    | .version request => some request
    | .diff _ => none

/-- Nothing fails, and the server takes what it is sent. -/
structure Env.Cooperative (e : Env) : Prop where
  faults : ∀ site, e.faults site = none
  server : ∀ sent, ∃ response, e.server sent = .ok response ∧ response.success = true

/-- The diff of a completed job is as it was recorded. -/
def Intact (X : PublisherCrates) (s : Project) (job : DbDiffJob) : Prop :=
  ∀ path, job.diffPath = some path → (s.db.getVersion job.fromVersionId).isSome = true ∧
    ∃ diff, s.content path.toList = some diff ∧
      (X.crypto.blake3 diff).val = job.diffHashBlake3.getD []

/-- What the command needs to publish a version of a binary. -/
structure Ready (X : PublisherCrates) (s : Project) (name version : String) (binary : DbBinary)
    (row : DbVersion) (data : Bytes) : Prop where
  first : s.db.listBinaries.find? (fun b => b.binaryName == name) = some binary
  found : s.db.getVersionByString binary.binaryId version = some row
  signed : row.signatureEd25519.isSome = true
  content : s.content row.filePath.toList = some data
  size : data.length = row.fileSizeBytes
  intact : ∀ job ∈ getDiffsForVersion s.db row.versionId, Intact X s job

/-- How a version is uploaded. -/
def uploadOf (name version : String) (binary : DbBinary) (row : DbVersion) (data : Bytes) :
    VersionRequest :=
  ⟨name, version, binary.platform, data, row.signatureEd25519.getD [], row.fileHashBlake3⟩

/-- Diffs were sent, and nothing else happened. -/
structure DiffsSent (s s' : Outgoing) : Prop where
  project : s'.project = s.project
  published : s'.published = s.published
  uploads : s'.uploads = s.uploads

/-- Where nothing was sent, the diffs are as they were. -/
theorem DiffsSent.refl (s : Outgoing) : DiffsSent s s := ⟨rfl, rfl, rfl⟩

/-- What is sent in two steps are diffs. -/
theorem DiffsSent.trans {s s' s'' : Outgoing} (h : DiffsSent s s') (h' : DiffsSent s' s'') :
    DiffsSent s s'' :=
  ⟨h'.project.trans h.project, h'.published.trans h.published, h'.uploads.trans h.uploads⟩

section Spec

variable {X : PublisherCrates} {e : Env} {s : Outgoing} {site : Site} {client : ApiClient}
  {name version : String} {binary : DbBinary}

/-- A call succeeds, or fails as the host lets it. -/
theorem wp_call {text : String → String} {Q : Unit → Outgoing → Prop}
    {E : String → Outgoing → Prop} (hok : Q () s) (hfail : e.faults site ≠ none → ∀ err, E err s) :
    wp (call e site text) Q E s := by
  unfold call
  split
  · exact hok
  · next fault hfault => exact hfail (by simp [hfault]) _

/-- A query answers from the database, or fails as the host lets it. -/
theorem wp_query {α : Type} {f : PublisherDb → α} {Q : α → Outgoing → Prop}
    {E : String → Outgoing → Prop} (hok : Q (f s.project.db) s)
    (hfail : e.faults site ≠ none → ∀ err, E err s) : wp (query e site f) Q E s := by
  unfold query
  rw [wp_bind]
  exact wp_call hok hfail

/-- A file is read as it is, or the command fails. -/
theorem wp_readFile {path : String} {text : String → String} {Q : Bytes → Outgoing → Prop}
    {E : String → Outgoing → Prop}
    (hok : ∀ b, s.project.content path.toList = some b → Q b s)
    (hfail : e.faults site ≠ none ∨ s.project.content path.toList = none → ∀ err, E err s) :
    wp (readFile e site path text) Q E s := by
  unfold readFile
  rw [wp_bind]
  refine wp_call ?_ fun h => hfail (.inl h)
  rw [wp_bind, wp_get]
  cases hb : s.project.content path.toList with
  | none => exact hfail (.inr hb) _
  | some b => exact hok b hb

/-- A job without a path has no file that could be damaged. -/
theorem Intact.none {job : DbDiffJob} {t : Project} (h : job.diffPath = none) : Intact X t job :=
  fun path hpath => by simp [h] at hpath

/-- A diff goes wrong only if it is damaged, or if something fails. -/
theorem wp_uploadDiff {k : Nat} {job : DbDiffJob} :
    wp (uploadDiff X e client name version binary k job)
      (fun failure s' => DiffsSent s s' ∧ (failure = none → Intact X s.project job) ∧
        (e.Cooperative → Intact X s.project job → failure = none))
      (fun _ _ => ¬ (e.Cooperative ∧ Intact X s.project job)) s := by
  unfold uploadDiff
  split
  · next hnone => exact ⟨.refl s, fun _ => .none hnone, fun _ _ => rfl⟩
  next path hpath =>
  rw [wp_bind, wp_get]
  split
  · next hmissing =>
      refine ⟨.refl s, by simp, fun _ hintact => ?_⟩
      obtain ⟨-, diff, hdiff, -⟩ := hintact path hpath
      simp [pathExists_of_content (Option.isSome_iff_exists.mpr ⟨diff, hdiff⟩)] at hmissing
  rw [wp_bind]
  refine wp_query ?_ fun hfault _ h => hfault (h.1.faults _)
  split
  · next hnone =>
      refine ⟨.refl s, by simp, fun _ hintact => ?_⟩
      exact absurd (hintact path hpath).1 (by simp [hnone])
  next fromVersion hfrom =>
  rw [wp_bind]
  refine wp_readFile (fun diff hdiff => ?_) fun hfail _ h => ?_
  · dsimp only
    split
    · next hhash =>
        refine ⟨.refl s, by simp, fun _ hintact => ?_⟩
        obtain ⟨-, diff', hdiff', hsame⟩ := hintact path hpath
        rw [Option.some.inj (hdiff.symm.trans hdiff')] at hhash
        contradiction
    · next hhash =>
        have hintact : Intact X s.project job := fun path' hpath' => by
          obtain rfl : path = path' := Option.some.inj (hpath.symm.trans hpath')
          exact ⟨by simp [hfrom], diff, hdiff, not_not.mp hhash⟩
        refine ⟨⟨rfl, rfl, by simp [Outgoing.uploads]⟩, fun _ => hintact, fun he _ => ?_⟩
        obtain ⟨response, hresponse, hsuccess⟩ := he.server (s.sent ++ [(client, .diff
          ⟨name, fromVersion.versionString, version, binary.platform, diff,
            job.diffHashBlake3.getD []⟩)])
        simp [uploadFailure, hresponse, hsuccess]
  · obtain ⟨-, diff, hdiff, -⟩ := h.2 path hpath
    simp [h.1.faults, hdiff] at hfail

/-- All diffs are uploaded exactly if none is damaged, unless something fails. -/
theorem wp_uploadDiffs {jobs : List DbDiffJob} {k : Nat} :
    wp (uploadDiffs X e client name version binary jobs k)
      (fun failures s' => DiffsSent s s' ∧
        (failures = [] → ∀ job ∈ jobs, Intact X s.project job) ∧
        (e.Cooperative → (∀ job ∈ jobs, Intact X s.project job) → failures = []))
      (fun _ _ => ¬ (e.Cooperative ∧ ∀ job ∈ jobs, Intact X s.project job)) s := by
  induction jobs generalizing s k with
  | nil => exact ⟨.refl s, by simp, fun _ _ => rfl⟩
  | cons job rest ih =>
      unfold uploadDiffs
      rw [wp_bind]
      refine wp_mono (fun failure s₁ h₁ => ?_) (fun _ _ h hall => h ⟨hall.1, hall.2 job (by simp)⟩)
        wp_uploadDiff
      obtain ⟨hsent, hfine, hfails⟩ := h₁
      rw [wp_bind]
      refine wp_mono (fun failures s₂ h₂ => ?_) (fun _ _ h hall => h ⟨hall.1, fun j hj => ?_⟩) ih
      · rw [hsent.project] at h₂
        obtain ⟨hsent', hfine', hfails'⟩ := h₂
        refine ⟨hsent.trans hsent', fun hnil => ?_, fun he hall => ?_⟩
        · obtain ⟨hhead, htail⟩ := List.append_eq_nil_iff.mp hnil
          simpa using ⟨hfine (by simpa using hhead), hfine' htail⟩
        · simp [hfails he (hall job (by simp)), hfails' he fun j hj => hall j (by simp [hj])]
      · rw [hsent.project]
        exact hall.2 j (by simp [hj])

/-- The binary is the first one of its name in the listing. -/
theorem wp_findBinary {Q : DbBinary → Outgoing → Prop} {E : String → Outgoing → Prop}
    (hok : ∀ b, s.project.db.listBinaries.find? (fun b => b.binaryName == name) = some b → Q b s)
    (hfail : e.faults .listBinaries ≠ none ∨
      s.project.db.listBinaries.find? (fun b => b.binaryName == name) = none → ∀ err, E err s) :
    wp (findBinary e name) Q E s := by
  unfold findBinary
  rw [wp_bind]
  refine wp_query ?_ fun h => hfail (.inl h)
  cases hb : s.project.db.listBinaries.find? fun b => b.binaryName == name with
  | none => exact hfail (.inr hb) _
  | some b => exact hok b hb

/-- The version is the one of this text and of the binary that was found. -/
theorem wp_findVersion {Q : DbVersion → Outgoing → Prop} {E : String → Outgoing → Prop}
    (hok : ∀ v, s.project.db.getVersionByString binary.binaryId version = some v → Q v s)
    (hfail : e.faults .getVersion ≠ none ∨
      s.project.db.getVersionByString binary.binaryId version = none → ∀ err, E err s) :
    wp (findVersion e binary name version) Q E s := by
  unfold findVersion
  rw [wp_bind]
  refine wp_query ?_ fun h => hfail (.inl h)
  cases hv : s.project.db.getVersionByString binary.binaryId version with
  | none => exact hfail (.inr hv) _
  | some v => exact hok v hv

/-- The file of a version is read if it has the size that was recorded. -/
theorem wp_readBinary {row : DbVersion} {Q : Bytes → Outgoing → Prop}
    {E : String → Outgoing → Prop}
    (hok : ∀ b, s.project.content row.filePath.toList = some b → b.length = row.fileSizeBytes →
      Q b s)
    (hfail : e.faults .readBinary ≠ none ∨ (∀ b, s.project.content row.filePath.toList = some b →
      b.length ≠ row.fileSizeBytes) → ∀ err, E err s) :
    wp (readBinary e row) Q E s := by
  unfold readBinary
  rw [wp_bind, wp_get]
  split
  · next hmissing =>
      refine hfail (.inr fun b hb => ?_) _
      simp [pathExists_of_content (Option.isSome_iff_exists.mpr ⟨b, hb⟩)] at hmissing
  rw [wp_bind]
  refine wp_readFile (fun b hb => ?_) fun h => hfail (h.imp_right fun hnone b hb => ?_)
  · split
    · next hsize =>
        exact hfail (.inr fun b' hb' => Option.some.inj (hb.symm.trans hb') ▸ hsize) _
    · next hsize => exact hok b hb (not_not.mp hsize)
  · simp [hnone] at hb

/-- The address is the one that was given, or that of the project, or the default. -/
theorem wp_findBaseUrl {serverUrl : Option String} {Q : String → Outgoing → Prop}
    {E : String → Outgoing → Prop}
    (hok : ∀ url, (serverUrl = some defaultServerUrl → url = defaultServerUrl) → Q url s)
    (hfail : e.faults .getConfig ≠ none → ∀ err, E err s) : wp (findBaseUrl e serverUrl) Q E s := by
  unfold findBaseUrl
  split
  · next url => exact hok url (by simp)
  · rw [wp_bind]
    exact wp_call (hok _ (by simp)) hfail

/-- An address that is not the default has to be confirmed. -/
theorem wp_confirmBaseUrl {url : String} {yes : Bool} {Q : Unit → Outgoing → Prop}
    {E : String → Outgoing → Prop} (hok : Q () s)
    (hfail : url ≠ defaultServerUrl → ∀ err, E err s) : wp (confirmBaseUrl e url yes) Q E s := by
  unfold confirmBaseUrl
  split
  · exact hok
  next hother =>
  split
  · exact hfail hother _
  split
  · exact hok
  rw [wp_bind]
  refine wp_call ?_ fun _ => hfail hother
  split
  · exact hok
  · exact hfail hother _

/-- The upload of a version is sent, or fails without having been. -/
theorem wp_uploadVersion {request : VersionRequest} {Q : Unit → Outgoing → Prop}
    {E : String → Outgoing → Prop}
    (hok : Q () { s with sent := s.sent ++ [(client, .version request)] })
    (hfail : ¬ e.Cooperative → ∀ err s', E err s') : wp (uploadVersion e client request) Q E s := by
  have hserver : e.Cooperative → ∃ response,
      e.server (s.sent ++ [(client, .version request)]) = .ok response ∧ response.success = true :=
    fun he => he.server _
  unfold uploadVersion send
  simp only [wp_bind, wp_modify, wp_get, wp_pure, wp_ofExcept]
  split
  · next response hresponse =>
      split
      · exact hok
      · next hrefused => exact hfail (fun he => by simp_all) _ _
  · next text htext => exact hfail (fun he => by simp_all) _ _

/-- A version is marked as published, or the command fails. -/
theorem wp_setVersionPublished {versionId : String} {Q : Unit → Outgoing → Prop}
    {E : String → Outgoing → Prop} (hok : Q () { s with published := s.published ++ [versionId] })
    (hfail : e.faults .setPublished ≠ none ∨ s.project.db.getVersion versionId = none →
      ∀ err, E err s) : wp (setVersionPublished e versionId) Q E s := by
  unfold setVersionPublished
  rw [wp_bind]
  refine wp_call ?_ fun h => hfail (.inl h)
  rw [wp_bind, wp_get]
  split
  · next hnone => exact hfail (.inr (by simpa using hnone)) _
  · exact hok

/-- A binary and a version of it that are found are the ones that the command needs. -/
theorem Ready.unique {t : Project} {binary' : DbBinary} {row row' : DbVersion} {data : Bytes}
    (h : Ready X t name version binary' row' data)
    (hbinary : t.db.listBinaries.find? (fun b => b.binaryName == name) = some binary)
    (hrow : t.db.getVersionByString binary.binaryId version = some row) :
    Ready X t name version binary row data := by
  obtain rfl : binary' = binary := Option.some.inj (h.first.symm.trans hbinary)
  obtain rfl : row' = row := Option.some.inj (h.found.symm.trans hrow)
  exact h

/-- A run that succeeds has uploaded and marked the version that it selects; one in which nothing
fails, at the default server, succeeds if the project is ready. -/
theorem wp_run {serverUrl apiKey : Option String} {yes : Bool} :
    wp (run X e name version serverUrl apiKey yes)
      (fun _ s' => ∃ binary row data, Ready X s.project name version binary row data ∧
        s'.uploads = s.uploads ++ [uploadOf name version binary row data] ∧
        s'.published = s.published ++ [row.versionId])
      (fun _ _ => ¬ (e.Cooperative ∧ serverUrl = some defaultServerUrl ∧
        ∃ binary row data, Ready X s.project name version binary row data)) s := by
  unfold run
  rw [wp_bind]
  refine wp_call ?_ fun hfault _ h => hfault (h.1.faults _)
  rw [wp_bind]
  refine wp_findBinary (fun binary hbinary => ?_) fun hfail _ h => ?_
  swap
  · obtain ⟨he, -, _, _, _, hready⟩ := h
    simp [he.faults, hready.first] at hfail
  rw [wp_bind]
  refine wp_findVersion (fun row hrow => ?_) fun hfail _ h => ?_
  swap
  · obtain ⟨he, -, _, _, _, hready⟩ := h
    obtain rfl := Option.some.inj (hready.first.symm.trans hbinary)
    simp [he.faults, hready.found] at hfail
  have hunique : ∀ {binary' row' data}, Ready X s.project name version binary' row' data →
      Ready X s.project name version binary row data := fun h => h.unique hbinary hrow
  rw [wp_bind]
  unfold findSignature
  cases hsig : row.signatureEd25519 with
  | none =>
      rintro ⟨-, -, _, _, _, hready⟩
      simpa [hsig] using (hunique hready).signed
  | some signature =>
  rw [wp_ofExcept]
  refine wp_bind.mpr (wp_findBaseUrl (fun url hurl => ?_) fun hfault _ h => hfault (h.1.faults _))
  refine wp_bind.mpr (wp_confirmBaseUrl ?_ fun hother _ h => hother (hurl h.2.1))
  rw [wp_bind]
  refine wp_readBinary (fun data hdata hsize => ?_) fun hfail _ h => ?_
  swap
  · obtain ⟨he, -, _, _, data, hready⟩ := h
    exact hfail.elim (fun hfault => hfault (he.faults _)) fun hno =>
      hno data (hunique hready).content (hunique hready).size
  rw [wp_bind]
  refine wp_uploadVersion ?_ fun hno _ _ h => hno h.1
  rw [wp_bind]
  refine wp_query ?_ fun hfault _ h => hfault (h.1.faults _)
  rw [wp_bind]
  refine wp_mono (fun failures s' h => ?_) (fun _ _ hno h => hno ⟨h.1, ?_⟩) wp_uploadDiffs
  · obtain ⟨hsent, hfine, hfails⟩ := h
    have hrowMem : row ∈ s.project.db.versions := (Table.mem_of_find hrow).1
    split
    · next hsome =>
        rintro ⟨he, -, _, _, _, hready⟩
        exact hsome (hfails he (hunique hready).intact)
    · next hnil =>
        refine wp_setVersionPublished ?_ fun hfail _ h => ?_
        · refine ⟨binary, row, data, ⟨hbinary, hrow, by simp [hsig], hdata, hsize,
            hfine (not_not.mp hnil)⟩, ?_, by simp [hsent.published]⟩
          have huploads := hsent.uploads
          simp [Outgoing.uploads, uploadOf, hsig] at huploads ⊢
          exact huploads
        · have hfound := PublisherDb.getVersion_of_mem hrowMem
          simp [h.1.faults, hsent.project, hfound] at hfail
  · obtain ⟨-, -, _, _, _, hready⟩ := h
    exact (hunique hready).intact

end Spec

/-! ## which versions are reached -/

/- Which versions a command can get to is decided by the database alone: a binary is found by its
name, as the first one of this name in the listing, whatever its platform is. -/

/-- A version that is registered for a binary and signed, and whose file has the recorded hash. -/
structure Registered (X : PublisherCrates) (s : Project) (binary : DbBinary) (row : DbVersion)
    (data : Bytes) : Prop where
  binaryMem : binary ∈ s.db.binaries
  rowMem : row ∈ s.db.versions
  owner : row.binaryId = binary.binaryId
  signed : row.signatureEd25519.isSome = true
  content : s.content row.filePath.toList = some data
  hash : (X.crypto.blake3 data).val = row.fileHashBlake3

/-- `UNIQUE (binary_id, version_string)`. -/
def VersionsUnique (db : PublisherDb) : Prop :=
  ∀ v ∈ db.versions, ∀ v' ∈ db.versions, v.binaryId = v'.binaryId →
    v.versionString = v'.versionString → v = v'

/-- Some command uploads the version with its platform, and marks it and no other. -/
def Publishable (X : PublisherCrates) (s : Outgoing) (binary : DbBinary) (row : DbVersion)
    (data : Bytes) : Prop :=
  ∃ e name version serverUrl apiKey yes s',
    exec (run X e name version serverUrl apiKey yes) s = (.ok (), s') ∧
      s'.uploads = s.uploads ++ [uploadOf binary.binaryName row.versionString binary row data] ∧
      s'.published = s.published ++ [row.versionId]

/-- `sign` can be told to sign the version, by a name and a version. -/
def Selectable (s : Project) (row : DbVersion) : Prop :=
  ∃ e name version,
    exec (Sign.findVersion e none (some name) (some version)) s = (.ok row, s)

/-- A binary that is the first of its name in the listing. -/
def FirstOfName (db : PublisherDb) (binary : DbBinary) : Prop :=
  db.listBinaries.find? (fun b => b.binaryName == binary.binaryName) = some binary

section Reached

variable {X : PublisherCrates} {s : Outgoing} {t : Project} {binary binary' : DbBinary}
  {row : DbVersion} {data : Bytes} {name version : String}

/-- Nothing fails. -/
def cooperativeEnv : Env := ⟨fun _ => none, "", fun _ => .ok ⟨true, ""⟩⟩

theorem cooperativeEnv_cooperative : cooperativeEnv.Cooperative :=
  ⟨fun _ => rfl, fun _ => ⟨⟨true, ""⟩, rfl, rfl⟩⟩

/-- Within a binary, a version is found by its text. -/
theorem getVersionByString_of_mem (hunique : VersionsUnique t.db) (hrow : row ∈ t.db.versions) :
    t.db.getVersionByString row.binaryId row.versionString = some row :=
  Table.find_of_unique hrow (by simp) fun v hv hsame => by
    simp only [Bool.and_eq_true, beq_iff_eq] at hsame
    exact hunique v hv row hrow hsame.1 hsame.2

/-- Only the first binary of a name is found by it. -/
theorem FirstOfName.of_find (hbinary : binary ∈ t.db.binaries)
    (hfirst : t.db.listBinaries.find? (fun b => b.binaryName == name) = some binary')
    (hid : binary'.binaryId = binary.binaryId) : FirstOfName t.db binary := by
  have hmem := PublisherDb.mem_listBinaries.mp (List.mem_of_find?_eq_some hfirst)
  obtain rfl : binary' = binary := Table.eq_of_key_eq hmem hbinary hid
  obtain rfl : binary'.binaryName = name := by simpa using List.find?_some hfirst
  exact hfirst

/-- A version is published by a command exactly if its binary is the first of its name, and
the file and the diffs are as they were recorded. -/
theorem publishable_iff (hunique : VersionsUnique s.project.db)
    (h : Registered X s.project binary row data) :
    Publishable X s binary row data ↔ FirstOfName s.project.db binary ∧
      data.length = row.fileSizeBytes ∧
      ∀ job ∈ getDiffsForVersion s.project.db row.versionId, Intact X s.project job := by
  constructor
  · rintro ⟨e, name, version, serverUrl, apiKey, yes, s', hrun, -, hpublished⟩
    obtain ⟨b, v, d, hready, -, hmarked⟩ := wp_exec_ok wp_run hrun
    obtain ⟨hv, hfound⟩ := Table.mem_of_find hready.found
    simp only [Bool.and_eq_true, beq_iff_eq] at hfound
    have hid : v.versionId = row.versionId := by simpa [hpublished] using hmarked.symm
    obtain rfl : v = row := Table.eq_of_key_eq hv h.rowMem hid
    obtain rfl : d = data := Option.some.inj (hready.content.symm.trans h.content)
    exact ⟨.of_find h.binaryMem hready.first (hfound.1.symm.trans h.owner), hready.size,
      hready.intact⟩
  · rintro ⟨hfirst, hsize, hintact⟩
    have hfound := getVersionByString_of_mem hunique h.rowMem
    rw [h.owner] at hfound
    have hready : Ready X s.project binary.binaryName row.versionString binary row data :=
      ⟨hfirst, hfound, h.signed, h.content, hsize, hintact⟩
    have hwp := @wp_run X cooperativeEnv s binary.binaryName row.versionString
      (some defaultServerUrl) none false
    obtain ⟨_, s', hrun, b, v, d, hready', huploads, hmarked⟩ := exists_exec_ok hwp
      fun _ _ hno => hno ⟨cooperativeEnv_cooperative, rfl, _, _, _, hready⟩
    obtain rfl := Option.some.inj (hready.first.symm.trans hready'.first)
    obtain rfl := Option.some.inj (hready.found.symm.trans hready'.found)
    obtain rfl := Option.some.inj (hready.content.symm.trans hready'.content)
    exact ⟨_, _, _, _, _, _, s', hrun, huploads, hmarked⟩

/-- Signing by name takes the first binary of the name, too. -/
theorem wp_signFindVersion {e : PublisherEnv} :
    wp (Sign.findVersion e none (some name) (some version))
      (fun v _ => ∃ b, t.db.listBinaries.find? (fun b => b.binaryName == name) = some b ∧
        t.db.getVersionByString b.binaryId version = some v) (fun _ _ => True) t := by
  unfold Sign.findVersion
  rw [wp_bind]
  refine wp_dbRead ?_ fun _ => trivial
  rw [wp_bind, wp_ofExcept]
  split
  · next b hb =>
      rw [wp_bind]
      refine wp_dbRead ?_ fun _ => trivial
      rw [wp_ofExcept]
      split
      · next v hv => exact ⟨b, Except.ofOption_eq_ok.mp hb, Except.ofOption_eq_ok.mp hv⟩
      · trivial
  · trivial

/-- By a name, `sign` selects the versions of the first binary of the name. -/
theorem selectable_iff (hunique : VersionsUnique t.db) (h : Registered X t binary row data) :
    Selectable t row ↔ FirstOfName t.db binary := by
  constructor
  · rintro ⟨e, name, version, hrun⟩
    obtain ⟨b, hb, hv⟩ := wp_exec_ok wp_signFindVersion hrun
    obtain ⟨-, hfound⟩ := Table.mem_of_find hv
    simp only [Bool.and_eq_true, beq_iff_eq] at hfound
    exact .of_find h.binaryMem hb (hfound.1.symm.trans h.owner)
  · intro hfirst
    have hfound := getVersionByString_of_mem hunique h.rowMem
    rw [h.owner] at hfound
    refine ⟨⟨fun _ => none, fun _ => "", 0, 0, "", fun _ => 0⟩, binary.binaryName,
      row.versionString, ?_⟩
    simp only [FirstOfName] at hfirst
    simp [Sign.findVersion, dbRead, hostOp, exec_bind, hfirst, hfound, Except.ofOption]

/-- The commands reach a version exactly if its binary is the first of its name; `publish` also
wants the file and the diffs to be as they were recorded. -/
theorem reaches_iff (hunique : VersionsUnique s.project.db)
    (h : Registered X s.project binary row data) :
    Publishable X s binary row data ∧ Selectable s.project row ↔
      FirstOfName s.project.db binary ∧ data.length = row.fileSizeBytes ∧
        ∀ job ∈ getDiffsForVersion s.project.db row.versionId, Intact X s.project job := by
  rw [publishable_iff hunique h, selectable_iff hunique h]
  tauto

end Reached

/-! ## a binary for two platforms -/

/-- The binary for a platform. -/
def sampleBuild (binaryId platform binaryPath : String) : DbBinary :=
  ⟨binaryId, "app", platform, binaryPath⟩

/-- A version of it that is signed. -/
def sampleSigned (versionId binaryId version filePath : String) (data : Bytes) : DbVersion :=
  { sampleDbVersion version filePath data with
    versionId
    binaryId
    signatureEd25519 := some (List.replicate 64 0) }

/-- Two versions for one platform, with a diff between them, and one for the other. -/
def sampleBuilds : Outgoing where
  project :=
    { sampleProject with
      db :=
        { PublisherDb.empty with
          binaries := ⟨[sampleBuild "b" "linux-x86_64" "/p/v1",
            sampleBuild "c" "windows-x86_64" "/p/v2"], by decide⟩
          versions := ⟨[sampleSigned "v1" "b" "1.0.0" "v1" [],
            sampleSigned "v2" "b" "1.1.0" "v2" (List.replicate 24 7),
            sampleSigned "w2" "c" "1.1.0" "v2" (List.replicate 24 7)], by decide⟩
          diffJobs := sampleDiffed.db.diffJobs }
      files := sampleProject.files.write
        (Lexical.normalize "/p/.deltaship/diffs/app/1.0.0-to-1.1.0.patch".toList) sampleDiff24 }
  serverUrl := none
  published := []
  sent := []

/-- No binary has two rows of one version. -/
theorem sampleBuilds_unique : VersionsUnique sampleBuilds.project.db := by
  intro v hv v' hv' hid hversion
  simp [sampleBuilds, Table.mem_def] at hv hv'
  obtain rfl | rfl | rfl := hv <;> obtain rfl | rfl | rfl := hv' <;>
    simp [sampleSigned, sampleDbVersion] at hid hversion ⊢

/-- The build for Linux is the first one of its name. -/
theorem sampleBuilds_first : FirstOfName sampleBuilds.project.db
    (sampleBuild "b" "linux-x86_64" "/p/v1") := by
  unfold FirstOfName
  decide

/-- Version 1.1.0 for Linux is registered, with its file as it was recorded. -/
theorem sampleBuilds_linux : Registered samplePublisherCrates sampleBuilds.project
    (sampleBuild "b" "linux-x86_64" "/p/v1")
    (sampleSigned "v2" "b" "1.1.0" "v2" (List.replicate 24 7)) (List.replicate 24 7) :=
  ⟨by simp [sampleBuilds, Table.mem_def], by simp [sampleBuilds, Table.mem_def], rfl, rfl,
    by decide, rfl⟩

theorem sampleBuilds_windows : Registered samplePublisherCrates sampleBuilds.project
    (sampleBuild "c" "windows-x86_64" "/p/v2")
    (sampleSigned "w2" "c" "1.1.0" "v2" (List.replicate 24 7)) (List.replicate 24 7) :=
  ⟨by simp [sampleBuilds, Table.mem_def], by simp [sampleBuilds, Table.mem_def], rfl, rfl,
    by decide, rfl⟩

/-- The version of the first platform is reached, with its diff. -/
theorem reaches_first :
    Publishable samplePublisherCrates sampleBuilds (sampleBuild "b" "linux-x86_64" "/p/v1")
        (sampleSigned "v2" "b" "1.1.0" "v2" (List.replicate 24 7)) (List.replicate 24 7) ∧
      Selectable sampleBuilds.project
        (sampleSigned "v2" "b" "1.1.0" "v2" (List.replicate 24 7)) := by
  refine (reaches_iff sampleBuilds_unique sampleBuilds_linux).mpr
    ⟨sampleBuilds_first, rfl, fun job hjob path hpath => ?_⟩
  have hdiffs : getDiffsForVersion sampleBuilds.project.db "v2" = [sampleJob] ∧
      sampleBuilds.project.content ".deltaship/diffs/app/1.0.0-to-1.1.0.patch".toList =
        some sampleDiff24 ∧
      (sampleBuilds.project.db.getVersion "v1").isSome = true := by decide
  obtain rfl : job = sampleJob := List.mem_singleton.mp (hdiffs.1 ▸ hjob)
  obtain rfl := Option.some.inj hpath
  exact ⟨hdiffs.2.2, _, hdiffs.2.1, rfl⟩

/-- The version of the other platform is not, although its file is as it was recorded. -/
theorem misses_second : ¬ ∀ (X : PublisherCrates) (s : Outgoing) (binary : DbBinary)
    (row : DbVersion) (data : Bytes), VersionsUnique s.project.db →
    Registered X s.project binary row data → data.length = row.fileSizeBytes →
    getDiffsForVersion s.project.db row.versionId = [] →
    Publishable X s binary row data ∧ Selectable s.project row := by
  intro h
  have hreached := h _ _ _ _ _ sampleBuilds_unique sampleBuilds_windows rfl rfl
  have hfirst := (selectable_iff sampleBuilds_unique sampleBuilds_windows).mp hreached.2
  have hsame := Option.some.inj (sampleBuilds_first.symm.trans hfirst)
  simp [sampleBuild] at hsame

end Publish

end Deltaship
