import Deltaship.System.Cycle

/-!
# Deltaship.System.Delivery

A client and a server together: what a publisher releases is what a cycle of the client installs,
also beside other requests to the server.
-/

namespace Deltaship

open Prog Runs

/-! ## end to end -/

/- One cycle of the client against a server that goes on serving others: the check, the download and
the installation, and the next check, which finds nothing. The two sides meet in the addresses and
in the checksums only. -/

/-- Both sides are built with the same crates, which do what they document. -/
structure SameCrates (X : Crates) (Y : ServerCrates) : Prop where
  crypto : X.crypto = Y.crypto
  semver : X.semver = Y.semver
  displayParse : Y.semver.DisplayParse
  startsWithDigit : Y.semver.StartsWithDigit
  preOrdered : Y.semver.PreOrdered

section EndToEnd

variable {X : Crates} {Y : ServerCrates} {e : Env} {a : Artifacts}
  {later : List HttpRequest → Artifacts} {mb : ManagedBinary} {w : World}

/-- A check is answered as the server answers it. -/
theorem Connected.serveCheck (h : Connected Y mb.binaryName a later e) {resp : UpdateCheckResponse}
    (hresp : checkUpdate Y a mb.binaryName (checkRequest e mb).query = .ok resp)
    (asked : List CheckRequest) :
    e.serveCheck (asked ++ [checkRequest e mb]) = .json resp.received := by
  rw [h.check asked (checkRequest e mb) rfl, answerCheck, hresp]

/-- What the server takes for newer, the client does. -/
theorem not_refusesDowngrade {text : Option String} {current target : Version}
    (hX : SameCrates X Y) (hcurrent : parseCurrent Y text = .ok current)
    (hnewer : Version.ge Y.semver current target = false) :
    refusesDowngrade X.semver text target = false := by
  cases text with
  | none => rfl
  | some text =>
      have hparse : Y.semver.parse text = some current := Except.ofOption_eq_ok.mp hcurrent
      have htrans := Version.transCmp hX.preOrdered
      have hlt : Version.cmp Y.semver current target = .lt := by
        unfold Version.ge at hnewer
        cases hcmp : Version.cmp Y.semver current target with
        | lt => rfl
        | eq => rw [hcmp] at hnewer; contradiction
        | gt => rw [hcmp] at hnewer; contradiction
      have hgt : Version.cmp Y.semver target current = .gt := by
        rw [htrans.eq_swap, hlt]
        rfl
      simp only [refusesDowngrade, hX.semver, hparse, Version.le, hgt]
      rfl

/-- A client at the latest version is not offered anything. -/
theorem checkUpdate_latest {appName : String} {query : UpdateCheckQuery} {platform : Platform}
    {current : Version} {catalog : AppCatalog} {info : VersionInfo} (hX : SameCrates X Y)
    (hoffer : OfferOf Y a appName query platform current catalog info)
    (hpublishable : Publishable Y.semver catalog.latestVersion) :
    checkUpdate Y a appName
      { query with currentVersion := some (Y.semver.display catalog.latestVersion) } = .ok {} := by
  have hge : Version.ge Y.semver catalog.latestVersion catalog.latestVersion = true := by
    unfold Version.ge
    rw [(Version.cmp_eq_iff hX.preOrdered).mpr (Version.eq_refl _)]
    rfl
  unfold checkUpdate
  rw [hoffer.nameOk, hoffer.parsePlatform, hoffer.catalogRead]
  show (Except.ofOption _ (Y.semver.parse _) >>= fun _ => _) = _
  rw [hpublishable.2]
  show (if _ then _ else _) = _
  rw [if_pos hge]
  rfl

/-- Neither the command nor the daemon finds anything to do. -/
def UpToDate (X : Crates) (e : Env) (mb : ManagedBinary) (w : World) : Prop :=
  ∃ w', Looked w w' ∧
    (∀ flags, exec (processBinaryUpdate X e flags mb) w = (.ok .alreadyCurrent, w')) ∧
    (mb.autoUpdate = true → exec (checkAndApply X e mb) w = (.ok (), w'))

/-- The command and the daemon install the new binary and record its version, and find nothing to
do afterwards as long as the server has no later version. -/
def Delivers (X : Crates) (Y : ServerCrates) (e : Env) (a : Artifacts) (mb : ManagedBinary)
    (upd : UpdateInfo) (data : Bytes) (flags : UpdateFlags) (w : World) : Prop :=
  ∃ w', exec (processBinaryUpdate X e flags mb) w = (.ok .updated, w') ∧
    (mb.autoUpdate = true → exec (checkAndApply X e mb) w = (.ok (), w')) ∧
    w'.file mb.installPath = some data ∧
    (w'.db.getBinary mb.binaryId).map ManagedBinary.unchecked = some
      (ManagedBinary.unchecked
        { mb with
          currentVersionId := some upd.versionId
          currentVersionString := some (X.semver.display upd.version) }) ∧
    ∀ later e' mb', Connected Y mb.binaryName a later e' → w'.db.getBinary mb.binaryId = some mb' →
      UpToDate X e' mb' w'

/-- A client whose record is that of the latest version has nothing to do. -/
theorem upToDate_of_latest {query : UpdateCheckQuery} {platform : Platform} {current : Version}
    {catalog : AppCatalog} {info : VersionInfo} {e' : Env} {mb' : ManagedBinary}
    {versionId : Option String} (hX : SameCrates X Y)
    (hoffer : OfferOf Y a mb.binaryName query platform current catalog info)
    (hpublishable : Publishable Y.semver catalog.latestVersion)
    (hquery : query = (checkRequest e mb).query)
    (hrow : ManagedBinary.unchecked mb' = ManagedBinary.unchecked
      { mb with
        currentVersionId := versionId
        currentVersionString := some (X.semver.display catalog.latestVersion) })
    (hconn : Connected Y mb.binaryName a later e') : UpToDate X e' mb' w := by
  have hname : mb'.binaryName = mb.binaryName := by
    simpa [ManagedBinary.unchecked] using congrArg ManagedBinary.binaryName hrow
  have hasked : (checkRequest e' mb').query = { query with
      currentVersion := some (Y.semver.display catalog.latestVersion) } := by
    have hplatform : mb'.platform = mb.platform := by
      simpa [ManagedBinary.unchecked] using congrArg ManagedBinary.platform hrow
    have hcurrent : mb'.currentVersionString =
        some (X.semver.display catalog.latestVersion) := by
      simpa [ManagedBinary.unchecked] using congrArg ManagedBinary.currentVersionString hrow
    rw [hquery, CheckRequest.query, checkRequest, hplatform, hcurrent, hX.semver]
    rfl
  have hnone := checkUpdate_latest hX hoffer hpublishable
  rw [← hasked, ← hname] at hnone
  rw [← hname] at hconn
  exact ⟨checked e' mb' w, looked_checked, exec_cycle_none (hconn.serveCheck hnone) rfl⟩

/-- An update that is reported as one has run to its end. -/
theorem exec_applyUpdate_ok {upd : UpdateInfo} {w' w'' : World}
    (h : ((.ok (if (exec (applyUpdate X e mb upd) w').1.toBool then .updated else .failed),
      (exec (applyUpdate X e mb upd) w').2) : Except String UpdateResult × World) =
      (.ok .updated, w'')) : exec (applyUpdate X e mb upd) w' = (.ok (), w'') := by
  obtain ⟨hresult, rfl⟩ := Prod.mk.inj h
  refine Prog.exec_of_fst ?_
  cases happly : (exec (applyUpdate X e mb upd) w').1 with
  | ok _ => rfl
  | error err =>
      rw [happly] at hresult
      have hfailed : UpdateResult.failed = .updated := Except.ok.inj hresult
      contradiction

end EndToEnd

/-! ### the sample client and the sample server -/

/- The server has two versions of `app` and the diff between them. The client has the first one; it
is offered the second one, and while it downloads, something else is published. -/

/-- What the sample server answers when a file is asked for. -/
def replyTo (a : Artifacts) (url : List Char) : Reply :=
  match Text.stripPrefix sampleConfig.serverUrl.toList url with
  | some path =>
    match resolve sampleServer a (String.ofList path) with
    | .ok b => .response 200 (some b.length) [b] none
    | .error err => .response err.status none [utf8 err.message] none
  | none => .failed "error sending request"

/-- A client without faults that reaches the sample server: in this state with its checks, and in
later ones with its downloads. -/
def serverEnv (a : Artifacts) (later : List HttpRequest → Artifacts) : Env :=
  { sampleEnv [] with
    serve := fun sent =>
      match sent.getLast? with
      | some (.get url _) => replyTo (later sent.dropLast) url.toList
      | _ => .failed "error sending request"
    serveCheck := fun asked =>
      match asked.getLast? with
      | some r =>
        if r.url = checkUrl sampleConfig.serverUrl "app" then answerCheck sampleServer a "app" r
        else .status 404 ""
      | none => .failed "error sending request" false }

/-- The request that uploads the diff between them. -/
def sampleIncrementUpload : Request :=
  .uploadDiff sampleServerEnv samplePublisher ⟨"app", "1.0.0", "1.1.0"⟩
    ⟨[⟨"platform", [utf8 "linux-x86_64"], false⟩, ⟨"diff", [sampleIncrement], false⟩,
      ⟨"checksum", [utf8 sampleIncrementHash.toHex], false⟩], false⟩

/-- The server after both versions and the diff were released. -/
def sampleIncrementStore : Store :=
  { sampleNewerStore with
    manifests := sampleFirstStore.manifests.write ⟨"app", "1.1.0"⟩ (some ⟨.new 1 1 0,
      Files.ofList [(.linuxX86_64, ⟨(sampleBlake3 [2]).toHex, 1,
        [⟨.new 1 0 0, sampleIncrementHash.toHex, 25, "bsdiff"⟩]⟩)]⟩)
    diffs := Files.ofList [(("app", "1.0.0-to-1.1.0-linux-x86_64"), sampleIncrement)] }

/-- While the client downloads, version 1.0.0 is published for Windows, too. -/
def sampleLater (sent : List HttpRequest) : Store :=
  if sent.length < 2 then sampleIncrementStore
  else (samplePublish .windowsX86_64 [2] sampleSig4).next sampleServer sampleIncrementStore

/-- The client that is offered version 1.1.0 while this goes on. -/
def sampleConnectedEnv : Env :=
  serverEnv sampleIncrementStore.toArtifacts fun sent => (sampleLater sent).toArtifacts

/-- The offer of version 1.1.0, as the client takes it. -/
def sampleDelivery : UpdateInfo where
  version := .new 1 1 0
  versionId := "1.1.0"
  diffUrl := some "http://localhost:3000/api/v1/apps/app/diffs/1.0.0-to-1.1.0?platform=linux-x86_64"
  diffChecksum := some sampleIncrementHash.toHex
  diffSize := some 25
  fullBinaryUrl :=
    some "http://localhost:3000/api/v1/apps/app/versions/1.1.0/binary?platform=linux-x86_64"
  fullBinarySize := none
  checksum := (sampleBlake3 [2]).toHex
  signatureUrl := some "http://localhost:3000/api/v1/apps/app/versions/1.1.0/signature"
  forced := false
  releaseNotes := none

/-- The answer that the client gets. -/
def sampleOffered : UpdateCheckResponse where
  updateAvailable := true
  targetVersion := some (.new 1 1 0)
  diffUrl := some "/api/v1/apps/app/diffs/1.0.0-to-1.1.0?platform=linux-x86_64"
  diffChecksum := some sampleIncrementHash.toHex
  diffSize := some 25
  fullBinaryUrl := some "/api/v1/apps/app/versions/1.1.0/binary?platform=linux-x86_64"
  checksum := some (sampleBlake3 [2]).toHex
  signatureUrl := some "/api/v1/apps/app/versions/1.1.0/signature"

/-- The address of the sample server ends in no slash. -/
theorem trimEndSlashes_sampleConfig :
    trimEndSlashes sampleConfig.serverUrl = sampleConfig.serverUrl := by
  decide

/-- Its requests are answered as the server is then. -/
theorem connected_serverEnv (a : Artifacts) (later : List HttpRequest → Artifacts) :
    Connected sampleServer "app" a later (serverEnv a later) where
  check asked r hurl := by
    unfold serverEnv
    simp only [List.getLast?_concat]
    exact if_pos (hurl.trans (congrArg (checkUrl · "app") trimEndSlashes_sampleConfig))
  get sent path range _ := by
    have hstrip : Text.stripPrefix sampleConfig.serverUrl.toList
        (trimEndSlashes sampleConfig.serverUrl ++ path).toList = some path.toList := by
      rw [trimEndSlashes_sampleConfig]
      simp [Text.stripPrefix]
    show Answered _ ((serverEnv a later).serve
      (sent ++ [.get (trimEndSlashes sampleConfig.serverUrl ++ path) range]))
    unfold serverEnv
    simp only [List.getLast?_concat, List.dropLast_concat, replyTo, hstrip, String.ofList_toList]
    cases resolve sampleServer (later sent) path with
    | ok b => exact ⟨_, _, rfl, by simp⟩
    | error err => exact ⟨_, _, _, rfl⟩

/-- The sample client and the sample server use the same crates. -/
theorem sameCrates_sample : SameCrates sampleCrates sampleServer where
  crypto := rfl
  semver := rfl
  displayParse := sampleSemver_displayParse
  startsWithDigit := semverOf_startsWithDigit sampleVersions
  preOrdered := semverOf_preOrdered sampleVersions

/-- The sample client can install it. -/
theorem installing_sampleDelivery :
    Installing sampleCrates sampleConnectedEnv (sampleBinaryAt "1.0.0") sampleDelivery [2]
      sampleWorld1 := by
  have hready : SampleReady sampleCrates sampleDelivery sampleWorld1 := by decide +kernel
  exact hready.installing (fun _ => rfl) (sampleEnv_tempFresh []) rfl rfl

/-- Versions 1.0.0 and 1.1.0 of `app` are released. -/
theorem reaches_sampleNewerStore :
    Reaches (Request.next sampleServer) (Releasing sampleServer sampleKey) Store.empty
      sampleNewerStore := by
  have hrun : Reaches (Request.next sampleServer) (Releasing sampleServer sampleKey) Store.empty
      (Request.next sampleServer Store.empty (samplePublish .linuxX86_64 [1] sampleSig1)) := by
    refine (Reaches.refl _).tail ⟨congrArg Prod.fst samplePublish_run,
      ⟨rfl, fun catalog v hread => ?_⟩, rfl,
      fun platform sig _ _ manifest other artifact b hread => ?_⟩
    · contradiction
    · exact nomatch (show none = some manifest from hread)
  rw [Request.next, samplePublish_run] at hrun
  have hrun := hrun.tail (a := samplePublishNewer) ⟨congrArg Prod.fst samplePublishNewer_run,
    ⟨rfl, fun catalog v hread hparse => ?_⟩, rfl,
    fun platform sig _ _ manifest other artifact b hread => ?_⟩
  · rwa [Request.next, samplePublishNewer_run] at hrun
  · obtain rfl := Option.some.inj hread
    obtain rfl := Option.some.inj hparse
    decide
  · exact nomatch (show none = some manifest from hread)

/-- The server takes the diff, whose name can be taken apart; then it offers version 1.1.0 and goes
on with another publication. -/
theorem sampleIncrementStore_served :
    Separable "1.0.0" "1.1.0" ∧
      sampleIncrementUpload.run sampleServer sampleNewerStore = (true, sampleIncrementStore) ∧
      checkUpdate sampleServer sampleIncrementStore.toArtifacts "app"
        ⟨some "1.0.0", "linux-x86_64", none⟩ = .ok sampleOffered ∧
      (samplePublish .windowsX86_64 [2] sampleSig4).Succeeds sampleServer sampleIncrementStore := by
  decide +kernel

/-- Two versions of `app` and the diff between them are released. -/
theorem reaches_sampleIncrementStore :
    Reaches (Request.next sampleServer) (Releasing sampleServer sampleKey) Store.empty
      sampleIncrementStore := by
  obtain ⟨hseparable, hupload, -, -⟩ := sampleIncrementStore_served
  have hrun := reaches_sampleNewerStore.tail (a := sampleIncrementUpload)
    ⟨congrArg Prod.fst hupload, hseparable, trivial⟩
  rwa [Request.next, hupload] at hrun

/-- That is another version than the one that is offered. -/
theorem reaches_sampleLater (sent : List HttpRequest) :
    Reaches (Request.next sampleServer) (Elsewhere sampleServer ⟨"app", "1.1.0"⟩)
      sampleIncrementStore (sampleLater sent) := by
  obtain ⟨-, -, -, hpublished⟩ := sampleIncrementStore_served
  unfold sampleLater
  split_ifs
  · exact .refl _
  · have helsewhere : ¬ (⟨"app", "1.0.0"⟩ : VersionPath) = ⟨"app", "1.1.0"⟩ := by decide
    exact (Reaches.refl _).tail ⟨hpublished, helsewhere, trivial⟩

end Deltaship
