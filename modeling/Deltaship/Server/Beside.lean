import Deltaship.Server.Requests

/-!
# Deltaship.Server.Beside

Requests beside each other, in any interleaving that the mutexes allow, and any of them stopped
anywhere: every version that is listed is stored (`listed_stored_beside`), and what was answered
stays true (`answers_last_beside`).
-/

namespace Deltaship

open Prog Thread

/-! ## requests beside each other -/

/- Requests as they are served: any number of them at once, each going on when it is its turn, and
each of them may be stopped between two steps or in the middle of a write. An update check is one of
them, and is answered from what it reads on its way. -/

/-- A request that changes the store, or the update check of a client. -/
inductive HttpCall where
  | publish (e : ServerEnv) (publisher : Publisher) (p : VersionPath) (form : Form)
  | uploadDiff (e : ServerEnv) (publisher : Publisher) (p : DiffPath) (form : Form)
  | activate (e : ServerEnv) (publisher : Publisher) (p : VersionPath)
  | rollout (e : ServerEnv) (publisher : Publisher) (p : VersionPath) (request : RolloutRequest)
  | delete (e : ServerEnv) (publisher : Publisher) (p : VersionPath)
  | check (appName : String) (query : UpdateCheckQuery)

namespace HttpCall

/-- The response, when it reports a success. -/
def Response : HttpCall → Type
  | publish .. | uploadDiff .. | activate .. => PublishResponse
  | rollout .. => RolloutResponse
  | delete .. => String
  | check .. => UpdateCheckResponse

/-- The serving of a call. -/
def code (X : ServerCrates) : (c : HttpCall) → HandlerThread c.Response
  | publish e publisher p form => Threaded.publishVersion X e publisher p form
  | uploadDiff e publisher p form => Threaded.uploadDiff X e publisher p form
  | activate e publisher p => Threaded.activateVersion X e publisher p
  | rollout e publisher p request => Threaded.updateRollout e publisher p request
  | delete e publisher p => Threaded.deleteVersion X e publisher p
  | check appName query => Threaded.checkUpdate X appName query

/-- A publication can read the manifest of its version, if there is one. -/
def ReadsManifest : HttpCall → Prop
  | publish e .. => e.faults (.manifest .read) = none
  | _ => True

/-- What a call that succeeds leaves in the store. -/
def Leaves : (c : HttpCall) → c.Response → Store → Prop
  | publish _ _ p form, _, s => ∃ platform,
      (lastText "platform" form.fields).bind Platform.parse = some platform ∧ s.Lists p platform
  | uploadDiff _ _ p form, _, s => ∃ platform,
      (lastText "platform" form.fields).bind Platform.parse = some platform ∧
        (s.diffs.read (p.appName,
          diffFileName p.fromVersion p.toVersion platform)).isSome = true
  | activate .., _, _ | rollout .., _, _ => True
  | delete _ _ p, _, s => p ∈ s.deleted
  | check .., resp, s => LeadsToFiles s resp

/-- No request holds a lock when it is received. -/
theorem held_code (X : ServerCrates) (c : HttpCall) : (c.code X).held = ∅ := by
  cases c <;> rfl

/-- Every request that can read the manifest it needs guards the store. -/
theorem guards_code {X : ServerCrates} {c : HttpCall} (hread : c.ReadsManifest) :
    (c.code X).Guards Rely (Backed X) ∅ (fun _ => True) c.Leaves fun _ _ => True := by
  cases c with
  | publish e publisher p form => exact guards_publishVersion hread
  | uploadDiff e publisher p form => exact guards_uploadDiff
  | activate e publisher p => exact guards_activateVersion
  | rollout e publisher p request =>
      exact guards_mono (fun _ h => h) (fun _ _ _ => trivial) (fun _ _ h => h)
        (guards_parked stable_true within_updateRollout)
  | delete e publisher p => exact guards_deleteVersion
  | check appName query => exact guards_checkUpdate

/-- It stays there when nothing goes away. -/
theorem stable_leaves (c : HttpCall) (resp : c.Response) : Stable (Rely ∅) (c.Leaves resp) := by
  refine stable_of_grows fun s s' hgrows h => ?_
  cases c with
  | publish e publisher p form =>
      obtain ⟨platform, htext, hlists⟩ := h
      exact ⟨platform, htext, hgrows.lists p platform hlists⟩
  | uploadDiff e publisher p form =>
      obtain ⟨platform, htext, hstored⟩ := h
      exact ⟨platform, htext, hgrows.diffs _ hstored⟩
  | activate e publisher p => trivial
  | rollout e publisher p request => trivial
  | delete e publisher p => exact hgrows.deleted p h
  | check appName query =>
      intro havailable hchecksum
      obtain ⟨p, platform, hbinary, hsignature, hfiles⟩ := h havailable hchecksum
      exact ⟨p, platform, hbinary, hsignature, hfiles.grow hgrows⟩

end HttpCall

/-- The addresses of a release lead to its files.  What a binary is checked against can be the
checksum of another publication of the same version. -/
structure Resolves (X : ServerCrates) (a : Artifacts) (binary signature : String) : Prop where
  signature : ∃ sig, resolve X a signature = .ok sig
  binary : ∃ b, resolve X a binary = .ok b ∨
    resolve X a binary = .error ⟨500, "File integrity check failed"⟩

/-- A file that is there is served, or is not the expected one. -/
theorem serveFile_some {X : ServerCrates} {b : Bytes} {expected : Option String} :
    serveFile X (some b) expected = .ok b ∨
      serveFile X (some b) expected = .error ⟨500, "File integrity check failed"⟩ := by
  cases expected with
  | none => exact .inl rfl
  | some checksum =>
      simp only [serveFile, Except.ofOption, Except.ensure]
      by_cases h : Text.asciiLower (X.crypto.blake3 b).toHex = Text.asciiLower checksum
      · left
        simp [h, Bind.bind, Except.bind, Pure.pure, Except.pure]
      · right
        simp [h, Bind.bind, Except.bind]

/-- What can be downloaded is found under its addresses. -/
theorem Downloadable.resolves {X : ServerCrates} {a : Artifacts} {p : VersionPath}
    {platform : Platform} (h : Downloadable a p platform) :
    Resolves X a (binaryUrl p platform) (signatureUrl p) := by
  have hname := plain_of_validateName h.nameOk
  have hversion := plain_of_validateVersion h.versionOk
  obtain ⟨b, hb⟩ := Option.isSome_iff_exists.mp h.binary
  obtain ⟨sig, hsig⟩ := Option.isSome_iff_exists.mp h.signature
  refine ⟨⟨sig, ?_⟩, b, ?_⟩
  · rw [resolve_signatureUrl hname hversion]
    exact downloadSignature_eq_ok h.nameOk h.versionOk hsig
  · rw [resolve_binaryUrl hname hversion]
    simp only [downloadBinary, requireName, h.nameOk, h.versionOk, requirePlatform,
      Platform.parse_asStr, Except.ofOption]
    show serveFile X (a.binaries.read (p, platform)) _ = _ ∨
      serveFile X (a.binaries.read (p, platform)) _ = _
    rw [hb]
    exact serveFile_some

/-- What the success of a call says about the store, from then on. -/
def HttpCall.Lasting (X : ServerCrates) : (c : HttpCall) → c.Response → Store → Prop
  | publish _ _ p form, _, s => ∃ platform,
      (lastText "platform" form.fields).bind Platform.parse = some platform ∧
        s.Lists p platform ∧ Resolves X s.toArtifacts (binaryUrl p platform) (signatureUrl p)
  | uploadDiff _ _ p form, _, s => ∃ platform,
      (lastText "platform" form.fields).bind Platform.parse = some platform ∧
        (s.diffs.read (p.appName,
          diffFileName p.fromVersion p.toVersion platform)).isSome = true
  | activate .., _, _ | rollout .., _, _ => True
  | delete _ _ p, _, s => p ∈ s.deleted
  | check .., resp, s => resp.updateAvailable = true → resp.checksum.isSome = true →
      ∃ binary signature, resp.fullBinaryUrl = some binary ∧ resp.signatureUrl = some signature ∧
        Resolves X s.toArtifacts binary signature

/-- What a request leaves in the store is what its answer says. -/
theorem HttpCall.lasting_of_leaves {X : ServerCrates} {c : HttpCall} {resp : c.Response} {s : Store}
    (hs : Backed X s) (h : c.Leaves resp s) : c.Lasting X resp s := by
  cases c with
  | publish e publisher p form =>
      obtain ⟨platform, htext, hlists⟩ := h
      exact ⟨platform, htext, hlists, (hs.manifests p platform hlists).resolves⟩
  | uploadDiff e publisher p form => exact h
  | activate e publisher p => trivial
  | rollout e publisher p request => trivial
  | delete e publisher p => exact h
  | check appName query =>
      intro havailable hchecksum
      obtain ⟨p, platform, hbinary, hsignature, hfiles⟩ := h havailable hchecksum
      exact ⟨_, _, hbinary, hsignature, hfiles.resolves⟩

theorem backed_empty (X : ServerCrates) : Backed X Store.empty :=
  ⟨fun _ _ h => by contradiction, fun _ _ h => by contradiction, fun _ _ h => by contradiction⟩

section Beside

variable {ι : Type} [DecidableEq ι]

/-- The calls that a server gets, before it has served any of them. -/
def serving (X : ServerCrates) (calls : ι → HttpCall) :
    Pool Store String HttpError fun i => (calls i).Response :=
  .start Store.empty fun i => (calls i).code X

/-- Whatever requests are served, and however far they are, the store is backed. -/
theorem safe_serving {X : ServerCrates} {calls : ι → HttpCall}
    (hread : ∀ i, (calls i).ReadsManifest)
    {pool : Pool Store String HttpError fun i => (calls i).Response}
    (hreach : Pool.Reaches (serving X calls) pool) :
    Pool.Safe Rely (Backed X) (fun i => (calls i).Leaves) (fun _ _ _ => True) pool :=
  Pool.safe_of_guards antitone_rely (fun i => (calls i).stable_leaves) (fun _ _ => stable_true)
    (backed_empty X) (fun i => (calls i).held_code X) (fun i => HttpCall.guards_code (hread i))
    hreach

/-- Whatever requests run beside each other, and wherever some of them are stopped: every platform
of a catalog is listed by a manifest of a version that counts as the entry's, and its binary and
its signature are stored. -/
theorem listed_stored_beside (X : ServerCrates) (calls : ι → HttpCall)
    (hread : ∀ i, (calls i).ReadsManifest)
    (pool : Pool Store String HttpError fun i => (calls i).Response)
    (hreach : Pool.Reaches (serving X calls) pool) (appName : String) (catalog : AppCatalog)
    (hcatalog : pool.state.getAppCatalog appName = some catalog) (info : VersionInfo)
    (hinfo : info ∈ catalog.versions) (platform : Platform)
    (hplatform : platform ∈ info.platforms) :
    ∃ p v, p.appName = appName ∧ X.semver.parse p.version = some v ∧
      Version.eq info.version v = true ∧ pool.state.Lists p platform ∧
      Downloadable pool.state.toArtifacts p platform := by
  have hbacked := (safe_serving hread hreach).inv
  obtain ⟨p, v, happ, hparse, heq, hlists⟩ :=
    hbacked.catalogs appName catalog hcatalog info hinfo platform hplatform
  exact ⟨p, v, happ, hparse, heq, hlists, hbacked.manifests p platform hlists⟩

/-- What a call that was answered with success says lasts, whatever runs beside it and behind it,
and wherever that is stopped. -/
theorem answers_last_beside (X : ServerCrates) (calls : ι → HttpCall)
    (hread : ∀ i, (calls i).ReadsManifest)
    (pool : Pool Store String HttpError fun i => (calls i).Response)
    (hreach : Pool.Reaches (serving X calls) pool) (i : ι) (resp : (calls i).Response)
    (hended : pool.phase i = .ended (.ok resp)) : (calls i).Lasting X resp pool.state := by
  have hsafe := safe_serving hread hreach
  have hfine := hsafe.fine i
  rw [hended] at hfine
  exact HttpCall.lasting_of_leaves hsafe.inv hfine

/-- One of the calls is served while the others wait. -/
theorem reaches_served (X : ServerCrates) (calls : ι → HttpCall) (i : ι)
    {pool : Pool Store String HttpError fun i => (calls i).Response}
    (hreach : Pool.Reaches (serving X calls) pool)
    (hphase : pool.phase i = .running ((calls i).code X))
    (hfree : ∀ j, j ≠ i → (pool.phase j).held = ∅) :
    ∃ pool', Pool.Reaches (serving X calls) pool' ∧
      pool'.state = (exec ((calls i).code X).run pool.state).2 ∧
      pool'.phase i = .ended (exec ((calls i).code X).run pool.state).1 ∧
      ∀ j, j ≠ i → pool'.phase j = pool.phase j :=
  ⟨_, hreach.trans (Pool.reaches_run hphase hfree), rfl, Pool.phase_move_self ..,
    fun _ hj => Pool.phase_move_ne _ _ _ hj⟩

end Beside

/-! ### two publications and an update check -/

/- Two publications of one application take turns at every step until the first is answered. The
second one is then stopped when a part of its catalog is in the temporary file, and the check of a
client comes behind it. -/

/-- Two publications of one application, and the check of a client that has no version yet. -/
def sampleCalls : Fin 3 → HttpCall
  | 0 => .publish sampleServerEnv samplePublisher ⟨"app", "1.0.0"⟩
      (sampleForm .linuxX86_64 [1] sampleSig1)
  | 1 => .publish sampleServerEnv samplePublisher ⟨"app", "1.1.0"⟩
      (sampleForm .linuxX86_64 [2] sampleSig2)
  | 2 => .check "app" ⟨none, "linux-x86_64", none⟩

/-- No request of the sample meets a fault. -/
theorem readsManifest_sampleCalls (i : Fin 3) : (sampleCalls i).ReadsManifest := by
  fin_cases i
  · exact rfl
  · exact rfl
  · trivial

/-- Rounds in which both publications have a turn. -/
def sampleRounds (n : ℕ) : List (Fin 3) :=
  (List.replicate n ((List.finRange 2).map Fin.castSucc)).flatten

/-- The check has no turn. -/
theorem notMem_sampleRounds (n : ℕ) : Fin.last 2 ∉ sampleRounds n := by
  simp [sampleRounds, List.mem_flatten]

/-- The publications take turns.  The second one waits for the mutex until the first one has
written its catalog, and is about to write its own. -/
def sampleTurns : Pool Store String HttpError fun i => (sampleCalls i).Response :=
  (serving sampleServer sampleCalls).play (sampleRounds 58)

/-- The catalog that the second publication writes. -/
def sampleBothCatalog : AppCatalog :=
  ⟨"app", [⟨.new 1 1 0, [.linuxX86_64], none, false, none⟩,
    ⟨.new 1 0 0, [.linuxX86_64], none, false, none⟩], .new 1 1 0⟩

/-- So many bytes of it are in the temporary file. -/
def sampleTorn (written : ℕ) (s : Store) : Store :=
  { s with
    temps := s.temps.write (.catalog "app") (.catalog sampleBothCatalog, some written) }

/-- The store when there are so many. -/
def sampleTurnsStore (written : ℕ) : Store :=
  { sampleFirstStore with
    manifests := sampleFirstStore.manifests.write ⟨"app", "1.1.0"⟩ (some ⟨.new 1 1 0,
      Files.ofList [(.linuxX86_64, ⟨(sampleBlake3 [2]).toHex, 1, []⟩)]⟩)
    binaries := sampleFirstStore.binaries.write (⟨"app", "1.1.0"⟩, .linuxX86_64) [2]
    signatures := sampleFirstStore.signatures.write ⟨"app", "1.1.0"⟩ sampleSig2.val
    temps := Files.empty.write (.catalog "app") (.catalog sampleBothCatalog, some written)
    dirs := [.diffs "app", .version ⟨"app", "1.1.0"⟩, .app "app", .versions "app",
      .version ⟨"app", "1.0.0"⟩] }

/-- One publication is answered, and the other one is about to write its catalog. -/
theorem sampleTurns_eq :
    sampleTurns.state = sampleTurnsStore 0 ∧ (sampleTurns.phase 0).locks = [] := by
  decide +kernel

set_option maxRecDepth 100000 in
/-- It is stopped behind the first five bytes. -/
theorem step_sampleTurns :
    Pool.Step sampleTurns (sampleTurns.move 1 .stopped (sampleTorn 5 sampleTurns.state)) :=
  .torn ⟨5, rfl⟩

/-- The second publication is stopped while it writes its catalog; the first one is answered, and
the check is not received yet. -/
theorem exists_reaches_torn :
    ∃ pool, Pool.Reaches (serving sampleServer sampleCalls) pool ∧
      pool.state = sampleTurnsStore 5 ∧ (∀ i, i ≠ 2 → (pool.phase i).held = ∅) ∧
      pool.phase 2 = .running ((sampleCalls 2).code sampleServer) := by
  have hwritten : sampleTorn 5 (sampleTurnsStore 0) = sampleTurnsStore 5 := by decide +kernel
  have hwaits : sampleTurns.phase 2 = (serving sampleServer sampleCalls).phase 2 := by
    rw [sampleTurns]
    exact Pool.phase_play_of_notMem (notMem_sampleRounds 58)
  have hreach : Pool.Reaches (serving sampleServer sampleCalls) sampleTurns := by
    rw [sampleTurns]
    exact Pool.reaches_play _ _
  refine ⟨_, hreach.tail step_sampleTurns,
    (congrArg (sampleTorn 5) sampleTurns_eq.1).trans hwritten, fun i hi => ?_, ?_⟩
  · by_cases hsecond : i = 1
    · rw [hsecond, Pool.phase_move_self]
      rfl
    · obtain rfl : i = 0 := by omega
      rw [Pool.phase_move_ne _ _ _ hsecond]
      exact Phase.held_eq_empty sampleTurns_eq.2
  · rw [Pool.phase_move_ne _ _ _ (by decide), hwaits]
    rfl

/-- What is in the catalog then is stored. -/
theorem listed_stored_beside_torn :
    ∃ p v, p.appName = "app" ∧ sampleServer.semver.parse p.version = some v ∧
      Version.eq (.new 1 0 0) v = true ∧ (sampleTurnsStore 5).Lists p .linuxX86_64 ∧
      Downloadable (sampleTurnsStore 5).toArtifacts p .linuxX86_64 := by
  obtain ⟨pool, hreach, hstate, -⟩ := exists_reaches_torn
  rw [← hstate]
  refine listed_stored_beside sampleServer sampleCalls readsManifest_sampleCalls pool hreach "app"
    ⟨"app", [⟨.new 1 0 0, [.linuxX86_64], none, false, none⟩], .new 1 0 0⟩ ?_
    ⟨.new 1 0 0, [.linuxX86_64], none, false, none⟩ (List.mem_singleton_self _)
    .linuxX86_64 (List.mem_singleton_self _)
  rw [hstate]
  rfl

/-- An update check is answered from the store as it is. -/
theorem exec_check_code (X : ServerCrates) (appName : String) (query : UpdateCheckQuery)
    (s : Store) : exec ((HttpCall.check appName query).code X).run s =
      (checkUpdate X s.toArtifacts appName query, s) :=
  exec_run_checkUpdate appName query s

/-- What the check answers then. -/
def sampleAnswer : UpdateCheckResponse :=
  match checkUpdate sampleServer (sampleTurnsStore 5).toArtifacts "app"
    ⟨none, "linux-x86_64", none⟩ with
  | .ok resp => resp
  | .error _ => {}

theorem sampleAnswer_eq :
    checkUpdate sampleServer (sampleTurnsStore 5).toArtifacts "app"
      ⟨none, "linux-x86_64", none⟩ = .ok sampleAnswer := by
  rfl

/-- The check is served behind it. -/
theorem exists_reaches_checked :
    ∃ pool, Pool.Reaches (serving sampleServer sampleCalls) pool ∧
      pool.state = sampleTurnsStore 5 ∧ pool.phase 2 = .ended (.ok sampleAnswer) := by
  obtain ⟨pool, hreach, hstate, hheld, hphase⟩ := exists_reaches_torn
  obtain ⟨pool', hreach', hstate', hended, -⟩ :=
    reaches_served sampleServer sampleCalls 2 hreach hphase hheld
  have hcheck : exec ((sampleCalls 2).code sampleServer).run (sampleTurnsStore 5) =
      (.ok sampleAnswer, sampleTurnsStore 5) :=
    (exec_check_code sampleServer "app" _ _).trans
      (congrArg (·, sampleTurnsStore 5) sampleAnswer_eq)
  rw [hstate, hcheck] at hstate' hended
  exact ⟨pool', hreach', hstate', hended⟩

/-- The addresses that it was answered resolve. -/
theorem answers_last_beside_torn :
    sampleAnswer.updateAvailable = true ∧ ∃ binary signature,
      sampleAnswer.fullBinaryUrl = some binary ∧ sampleAnswer.signatureUrl = some signature ∧
        Resolves sampleServer (sampleTurnsStore 5).toArtifacts binary signature := by
  obtain ⟨pool, hreach, hstate, hended⟩ := exists_reaches_checked
  have havailable : sampleAnswer.updateAvailable = true := by decide
  have hchecksum : sampleAnswer.checksum.isSome = true := by decide
  have hlasting := answers_last_beside sampleServer sampleCalls readsManifest_sampleCalls pool
    hreach 2 sampleAnswer hended
  rw [hstate] at hlasting
  exact ⟨havailable, hlasting havailable hchecksum⟩

end Deltaship
