import Deltaship.Client.Commands
import Deltaship.Client.PathSegment
import Deltaship.Client.Recovery
import Deltaship.Client.RetryClass
import Deltaship.Core.Precedence
import Deltaship.Crypto.HexText
import Deltaship.Server.Offers

/-!
# Deltaship.System.Connection

A client that is connected with a server: its requests are answered by the server as it is then.

The client asks once and then downloads; between the two the server may go on serving publishers.
What an answer offers stays what it is as long as nothing is published for the same version
(`SameVersion`).
-/

namespace Deltaship

open Prog Runs

/-! ## the connection -/

/-- `Json<UpdateCheckResponse>`, as the client deserializes it. -/
def UpdateCheckResponse.received (r : UpdateCheckResponse) : ServerUpdateResponse where
  updateAvailable := r.updateAvailable
  targetVersion := r.targetVersion
  diffUrl := r.diffUrl
  diffChecksum := r.diffChecksum
  diffSize := r.diffSize
  fullBinaryUrl := r.fullBinaryUrl
  fullBinarySize := r.fullBinarySize
  checksum := r.checksum
  signatureUrl := r.signatureUrl
  forced := r.forced
  releaseNotes := r.releaseNotes
  versionId := none

/-- The query of an update check; the client sends no device id. -/
def CheckRequest.query (r : CheckRequest) : UpdateCheckQuery := ⟨r.currentVersion, r.platform, none⟩

/-- The answer to an update check. -/
def answerCheck (Y : ServerCrates) (a : Artifacts) (appName : String) (r : CheckRequest) :
    CheckReply :=
  match checkUpdate Y a appName r.query with
  | .ok resp => .json resp.received
  | .error err => .status err.status err.message

/-- A download is answered with the whole file, whatever range is asked for, or with an error. -/
def Answered : Except HttpError Bytes → Reply → Prop
  | .ok b, reply => ∃ length body, reply = .response 200 length body none ∧ body.flatten = b
  | .error err, reply => ∃ length body cut, reply = .response err.status length body cut

/-- No segment of a path is one that a client would take out. -/
def DotFree (path : String) : Prop :=
  path.toList.head? = some '/' ∧
    ∀ segment ∈ segments ((path.toList.splitOn '?').headD []), segment ≠ "." ∧ segment ≠ ".."

/-- A client that reaches a server: its checks for an application are answered from one state, and
its downloads from the states that the server has later. -/
structure Connected (Y : ServerCrates) (appName : String) (a : Artifacts)
    (later : List HttpRequest → Artifacts) (e : Env) : Prop where
  check : ∀ asked r, r.url = checkUrl (trimEndSlashes e.config.serverUrl) appName →
    e.serveCheck (asked ++ [r]) = answerCheck Y a appName r
  get : ∀ sent path range, DotFree path →
    Answered (resolve Y (later sent) path)
      (e.serve (sent ++ [.get (trimEndSlashes e.config.serverUrl ++ path) range]))

/-! ## what stays the same beside other requests -/

/-- What the server has of a version is the same. -/
structure SameVersion (p : VersionPath) (a a' : Artifacts) : Prop where
  manifest : a'.getVersionManifest p = a.getVersionManifest p
  binaries : ∀ platform, a'.binaries.read (p, platform) = a.binaries.read (p, platform)
  signature : a'.signatures.read p = a.signatures.read p
  diffs : ∀ fromVersion platform,
    a'.diffs.read (p.appName, diffFileName fromVersion p.version platform) =
      a.diffs.read (p.appName, diffFileName fromVersion p.version platform)

namespace SameVersion

variable {Y : ServerCrates} {p : VersionPath} {a a' a'' : Artifacts}

/-- A version is the same as it is. -/
theorem refl (p : VersionPath) (a : Artifacts) : SameVersion p a a :=
  ⟨rfl, fun _ => rfl, rfl, fun _ _ => rfl⟩

theorem trans (h : SameVersion p a a') (h' : SameVersion p a' a'') : SameVersion p a a'' :=
  ⟨h'.manifest.trans h.manifest, fun platform => (h'.binaries platform).trans (h.binaries platform),
    h'.signature.trans h.signature,
    fun f platform => (h'.diffs f platform).trans (h.diffs f platform)⟩

/-- A version that is the same answers the download of its binary alike. -/
theorem downloadBinary (h : SameVersion p a a') (platform : String) :
    Deltaship.downloadBinary Y a' p.appName p.version platform =
      Deltaship.downloadBinary Y a p.appName p.version platform := by
  simp only [Deltaship.downloadBinary, h.manifest, h.binaries]

/-- So it does with its signature. -/
theorem downloadSignature (h : SameVersion p a a') :
    Deltaship.downloadSignature Y a' p.appName p.version =
      Deltaship.downloadSignature Y a p.appName p.version := by
  simp only [Deltaship.downloadSignature, h.signature]

/-- So it does with a diff whose name can be taken apart. -/
theorem downloadDiff {fromVersion : String} (h : SameVersion p a a')
    (hsep : Separable fromVersion p.version)
    (hf : fromVersion.isEmpty = false) (ht : p.version.isEmpty = false) (platform : String) :
    Deltaship.downloadDiff Y a' p.appName (diffSpec fromVersion p.version) platform =
      Deltaship.downloadDiff Y a p.appName (diffSpec fromVersion p.version) platform := by
  simp only [Deltaship.downloadDiff, (parseDiffSpec_diffSpec_iff hf ht).mpr hsep, Except.ofOption]
  simp only [bind, Except.bind, h.manifest, h.diffs]

end SameVersion

/-- A request puts something into a version. -/
def Request.About (p : VersionPath) : Request → Prop
  | .publish _ _ q _ => q = p
  | .uploadDiff _ _ d _ => ⟨d.appName, d.toVersion⟩ = p
  | .activate .. | .rollout .. | .delete .. => False

/-- A request that succeeds, for other versions; the name of a diff can be taken apart. -/
def Elsewhere (Y : ServerCrates) (p : VersionPath) (s : Store) (q : Request) : Prop :=
  q.Succeeds Y s ∧ ¬ q.About p ∧
    match q with
    | .uploadDiff _ _ d _ => Separable d.fromVersion d.toVersion
    | _ => True

section Elsewhere

variable {Y : ServerCrates} {p : VersionPath} {a : Artifacts} {s s' : Store} {q : Request}

/-- The catalog is no part of a version. -/
theorem sameVersion_setCatalog {appName : String} {catalog : AppCatalog} :
    SameVersion p a (a.setCatalog appName catalog) := ⟨rfl, fun _ => rfl, rfl, fun _ _ => rfl⟩

/-- Publishing one version leaves the others the same. -/
theorem sameVersion_publish {q : VersionPath} {r : Release} {o : MapOrder} {b b' : Bool}
    (h : q ≠ p) : SameVersion p a (a.publish Y.semver q r o b b') where
  manifest := Artifacts.getVersionManifest_publish_ne (Ne.symm h)
  binaries _ := Files.read_write_ne _ _ fun hkey => h (Prod.mk.inj hkey).1.symm
  signature := Files.read_write_ne _ _ (Ne.symm h)
  diffs _ _ := rfl

/-- So does a diff to another version, as its name says which one. -/
theorem sameVersion_addDiff {d : DiffPath} {platform : Platform} {diff : DiffInfo} {b : Bytes}
    {manifest : VersionManifest} {artifact : PlatformArtifact} {o : MapOrder}
    (hdigit : Y.semver.StartsWithDigit) (haccepted : AcceptedDiff Y d diff b)
    (hsep : Separable d.fromVersion d.toVersion)
    (h : (⟨d.appName, d.toVersion⟩ : VersionPath) ≠ p) :
    SameVersion p a (a.addDiff d platform diff b manifest artifact o) where
  manifest := by
    unfold Artifacts.addDiff Artifacts.getVersionManifest
    rw [Files.read_write_ne _ _ (Ne.symm h)]
  binaries _ := rfl
  signature := rfl
  diffs fromVersion platform' := by
    refine Files.read_write_ne _ _ fun hkey => h ?_
    obtain ⟨happ, hfile⟩ := Prod.mk.inj hkey
    have hlist := congrArg String.toList hfile
    rw [toList_diffFileName, toList_diffFileName] at hlist
    obtain ⟨hspec, -⟩ := Platform.suffix_inj hlist
    obtain ⟨v, hv⟩ := Option.isSome_iff_exists.mp haccepted.parseTo
    obtain ⟨-, hto⟩ := diffSpec_inj hsep (hdigit hv) hspec
    rw [← happ, ← hto]

theorem sameVersion_next (hdigit : Y.semver.StartsWithDigit) (h : Elsewhere Y p s q) :
    SameVersion p s.toArtifacts (q.next Y s).toArtifacts := by
  obtain ⟨hok, habout, hsep⟩ := h
  have heffect := Request.effect Y s q
  rw [show (q.run Y s).1 = true from hok] at heffect
  generalize (Request.next Y s q).toArtifacts = a' at heffect ⊢
  cases heffect with
  | published hr => exact sameVersion_publish habout
  | diffAdded haccepted hmanifest hartifact =>
      exact sameVersion_addDiff hdigit haccepted hsep habout
  | activated hcatalog hchange => exact sameVersion_setCatalog
  | rolledOut hle => exact ⟨rfl, fun _ => rfl, rfl, fun _ _ => rfl⟩
  | marked hnone => exact ⟨rfl, fun _ => rfl, rfl, fun _ _ => rfl⟩
  | deleted hcatalog => exact ⟨rfl, fun _ => rfl, rfl, fun _ _ => rfl⟩

/-- Requests for other versions leave a version as it is. -/
theorem sameVersion_of_reaches (hdigit : Y.semver.StartsWithDigit)
    (h : Reaches (Request.next Y) (Elsewhere Y p) s s') :
    SameVersion p s.toArtifacts s'.toArtifacts :=
  h.invariant (I := fun s' => SameVersion p s.toArtifacts s'.toArtifacts) (.refl p _)
    fun _ _ hsame hq => hsame.trans (sameVersion_next hdigit hq)

end Elsewhere

/-! ## what is downloaded -/

section Downloads

variable {X : Crates} {Y : ServerCrates} {e : Env} {a : Artifacts}
  {later : List HttpRequest → Artifacts} {path : String} {b : Bytes}

/-- A name that can stand in an address, and is no dot segment. -/
def Segment (n : String) : Prop := Plain n ∧ n ≠ "." ∧ n ≠ ".."

instance (n : String) : Decidable (Segment n) := inferInstanceAs (Decidable (_ ∧ _))

/-- A path of segments that are no dot segments is not changed on the way. -/
theorem dotFree_of_pathOf {names : List String} {query : List Char} (hne : names ≠ [])
    (hnames : ∀ n ∈ names, Segment n)
    (hquery : query = [] ∨ ∃ rest, query = '?' :: rest)
    (hpath : path.toList = pathOf ("" :: names) ++ query) : DotFree path := by
  have hplain : ∀ n ∈ "" :: names, Plain n := by
    intro n hn
    rcases List.mem_cons.mp hn with rfl | hn
    · decide
    · exact (hnames n hn).1
  have hfront : (path.toList.splitOn '?').headD [] = pathOf ("" :: names) := by
    have hmark := splitOn_mark (mark_not_mem_pathOf fun n hn => (hplain n hn).2)
    rw [hpath]
    rcases hquery with rfl | ⟨rest, rfl⟩
    · rw [List.append_nil, hmark]
      rfl
    · rw [List.splitOn_append_cons_self, hmark]
      rfl
  refine ⟨?_, fun segment hsegment => ?_⟩
  · obtain ⟨n, rest, rfl⟩ := List.exists_cons_of_ne_nil hne
    rw [hpath, pathOf, List.map_cons, List.map_cons, List.intercalate_cons_cons]
    rfl
  · rw [hfront, segments_pathOf (fun n hn => (hplain n hn).1) (List.cons_ne_nil _ _)] at hsegment
    rcases List.mem_cons.mp hsegment with rfl | hmem
    · decide
    · exact (hnames segment hmem).2

/-- The name of an application is such a segment, unless it is one dot. -/
theorem segment_of_validateName {appName : String} (h : validateName appName = .ok ())
    (hdot : appName ≠ ".") : Segment appName := by
  refine ⟨plain_of_validateName h, hdot, ?_⟩
  rintro rfl
  contradiction

/-- So is a version, as it begins with a digit. -/
theorem segment_of_publishable {version : Version} (hdigit : Y.semver.StartsWithDigit)
    (h : Publishable Y.semver version) : Segment (Y.semver.display version) := by
  obtain ⟨c, rest, htext, hc⟩ := hdigit h.2
  refine ⟨plain_of_validateVersion h.1, fun heq => ?_, fun heq => ?_⟩
  · rw [heq] at htext
    obtain rfl := (List.cons.inj htext).1
    contradiction
  · rw [heq] at htext
    obtain rfl := (List.cons.inj htext).1
    contradiction

/-- So is the name of a diff, as it is too long for a dot segment. -/
theorem segment_diffSpec {f t : String} (hf : Plain f) (ht : Plain t) : Segment (diffSpec f t) := by
  have hlong : ∀ n : String, n.toList.length < 4 → diffSpec f t ≠ n := by
    rintro n hn rfl
    rw [toList_diffSpec] at hn
    simp at hn
    omega
  exact ⟨plain_diffSpec hf ht, hlong _ (by decide), hlong _ (by decide)⟩

section Addresses

variable {appName version spec f t : String} {platform : Platform}

/-- The address of a binary is not changed on the way. -/
theorem dotFree_binaryUrl (happ : Segment appName) (hversion : Segment version) :
    DotFree (binaryUrl ⟨appName, version⟩ platform) := by
  refine dotFree_of_pathOf (List.cons_ne_nil _ _) ?_ (.inr ⟨_, rfl⟩) toList_binaryUrl
  simp only [List.forall_mem_cons, happ, hversion, true_and]
  decide

theorem dotFree_signatureUrl (happ : Segment appName) (hversion : Segment version) :
    DotFree (signatureUrl ⟨appName, version⟩) := by
  refine dotFree_of_pathOf (List.cons_ne_nil _ _) ?_ (.inl rfl)
    (toList_signatureUrl.trans (List.append_nil _).symm)
  simp only [List.forall_mem_cons, happ, hversion, true_and]
  decide

theorem dotFree_diffUrl (happ : Segment appName) (hf : Plain f) (ht : Plain t) :
    DotFree (diffUrl appName f t platform) := by
  refine dotFree_of_pathOf (List.cons_ne_nil _ _) ?_ (.inr ⟨_, rfl⟩) toList_diffUrl
  simp only [List.forall_mem_cons, happ, segment_diffSpec hf ht, true_and]
  decide

end Addresses

/-- A file that stays what it is is delivered. -/
theorem Connected.delivers {appName : String} (h : Connected Y appName a later e)
    (hpath : DotFree path) (hfile : ∀ sent, resolve Y (later sent) path = .ok b) :
    e.Delivers (trimEndSlashes e.config.serverUrl ++ path) b := by
  have hreply : ∀ sent range, ∃ length body,
      e.serve (sent ++ [.get (trimEndSlashes e.config.serverUrl ++ path) range]) =
        .response 200 length body none ∧ body.flatten = b := by
    intro sent range
    have hget := h.get sent path range hpath
    rw [hfile] at hget
    exact hget
  refine ⟨fun sent range status length body cut hserve => ?_, fun sent range => ?_⟩
  · obtain ⟨length', body', hserve', hbody⟩ := hreply sent range
    obtain ⟨rfl, -, rfl, rfl⟩ := Reply.response.inj (hserve.symm.trans hserve')
    exact ⟨nofun, nofun, fun _ _ => ⟨hbody ▸ List.prefix_refl _, fun _ => hbody⟩⟩
  · obtain ⟨length, body, hserve, -⟩ := hreply sent range
    exact ⟨_, _, _, hserve, .inr rfl⟩

/-- A path from the server is put behind the client's address of it. -/
theorem trimEndSlashes_absolutize {base : String} (h : path.toList.head? = some '/') :
    absolutize base (some path) = some (base ++ path) := by
  simp [absolutize, h]

end Downloads

end Deltaship
