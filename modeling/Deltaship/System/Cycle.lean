import Deltaship.System.Offered

/-!
# Deltaship.System.Cycle

A cycle of the client, from the check to the installed update, and the runs of the server before
it.
-/

namespace Deltaship

open Prog Runs

/-! ## a cycle of the client -/

/-- A row without the time of its last check. -/
def ManagedBinary.unchecked (b : ManagedBinary) : ManagedBinary := { b with lastCheckAt := none }

/-- Nothing has changed but the requests sent and the times of the last checks. -/
structure Looked (w w' : World) : Prop where
  files : w'.files = w.files
  dirs : w'.dirs = w.dirs
  installed : w'.db.installed = w.db.installed
  backups : w'.db.backups = w.db.backups
  history : w'.db.history = w.db.history
  binary : ∀ id, (w'.db.getBinary id).map ManagedBinary.unchecked =
    (w.db.getBinary id).map ManagedBinary.unchecked

instance : IsPreorder World Looked where
  refl _ := ⟨rfl, rfl, rfl, rfl, rfl, fun _ => rfl⟩
  trans _ _ _ h h' := ⟨h'.files.trans h.files, h'.dirs.trans h.dirs,
    h'.installed.trans h.installed, h'.backups.trans h.backups, h'.history.trans h.history,
    fun id => (h'.binary id).trans (h.binary id)⟩

section Cycle

variable {X : Crates} {e : Env} {mb : ManagedBinary} {upd : UpdateInfo} {data raw : Bytes}
  {w w' : World}

theorem looked_setLastCheck {binaryId : String} {now : Nat} {db : ClientDb}
    (h : ClientDb.setLastCheck binaryId now w.db = .ok db) : Looked w { w with db := db } := by
  unfold ClientDb.setLastCheck at h
  split at h
  · obtain rfl := Except.ok.inj h
    refine ⟨rfl, rfl, rfl, rfl, rfl, fun id => ?_⟩
    simp only [ClientDb.getBinary, Table.find, Table.rows_update, List.find?_map, Option.map_map]
    refine congrArg₂ Option.map (funext fun b => ?_)
      (congrArg (List.find? · _) (funext fun b => ?_))
    · simp only [Function.comp_apply]
      split <;> rfl
    · simp only [Function.comp_apply]
      split <;> rfl
  · contradiction

theorem preserves_recordCheck_looked : Preserves Looked (recordCheck e mb) :=
  .ignore (.of_wp fun w => wp_dbCall (fun _ h => looked_setLastCheck h) fun _ _ => refl_of _ w)

/-- A client that can install an update still can when it has looked for it. -/
theorem Looked.installing (h : Looked w w') (hw : Installing X e mb upd data w) :
    Installing X e mb upd data w' where
  noFault := hw.noFault
  fresh := hw.fresh
  apart := hw.apart
  size := hw.size
  parent := hw.parent
  valid := hw.valid
  installed := by
    rw [World.file, h.files]
    exact hw.installed
  known := by
    have hrow := congrArg Option.isSome (h.binary mb.binaryId)
    rw [Option.isSome_map, Option.isSome_map] at hrow
    exact hrow.trans hw.known
  bookable :=
    { noFault := hw.bookable.noFault
      hex := hw.bookable.hex
      nonempty := hw.bookable.nonempty
      version := hw.bookable.version
      fresh := by
        rw [h.installed]
        exact hw.bookable.fresh
      previous := by
        rw [World.file, h.files]
        exact hw.bookable.previous }
  dirs p hp := by
    rw [h.dirs]
    exact hw.dirs p hp
  sidecarDir := by
    rw [h.dirs]
    exact hw.sidecarDir

/-- An answer that is accepted is what the check returns. -/
theorem exec_checkForUpdates_of {r : ServerUpdateResponse} {found : Option UpdateInfo}
    (hserve : e.serveCheck (w.asked ++ [checkRequest e mb]) = .json r)
    (hinfo : updateInfoOf X e r = .ok found) :
    exec (checkForUpdates X e mb) w =
      (.ok found, { w with asked := w.asked ++ [checkRequest e mb] }) := by
  rw [checkForUpdates_eq]
  have hattempt : exec (checkForUpdatesAttempt X e mb
      (checkUrl (trimEndSlashes e.config.serverUrl) mb.binaryName)) w =
      (.ok (.ok found), { w with asked := w.asked ++ [checkRequest e mb] }) := by
    have hask : exec (askServer e (checkRequest e mb)) w =
        (.ok (.json r), { w with asked := w.asked ++ [checkRequest e mb] }) := by
      rw [← hserve]
      rfl
    unfold checkForUpdatesAttempt
    refine (exec_bind_ok hask).trans ?_
    show (Except.ok ((updateInfoOf X e r).mapError CheckError.other), _) = _
    rw [hinfo]
    rfl
  show exec (checkLoop X e mb _ (0 :: [1, 2]) []) w = _
  unfold checkLoop
  rw [exec_bind_ok hattempt]
  rfl

/-- The client after a check. -/
def checked (e : Env) (mb : ManagedBinary) (w : World) : World :=
  { (exec (recordCheck e mb) w).2 with
    asked := (exec (recordCheck e mb) w).2.asked ++ [checkRequest e mb] }

theorem looked_checked : Looked w (checked e mb w) := by
  have hrecord : Looked w (exec (recordCheck e mb) w).2 := preserves_recordCheck_looked w
  have hasked : Looked (exec (recordCheck e mb) w).2 (checked e mb w) :=
    ⟨rfl, rfl, rfl, rfl, rfl, fun _ => rfl⟩
  exact trans_of Looked hrecord hasked

/-- What `update` and the daemon do before they look at what a check found. -/
theorem exec_found {α : Type} {r : ServerUpdateResponse} {found : Option UpdateInfo}
    {k : Except String (Option UpdateInfo) → M α}
    (hserve : ∀ asked, e.serveCheck (asked ++ [checkRequest e mb]) = .json r)
    (hinfo : updateInfoOf X e r = .ok found) :
    exec (do
      recordCheck e mb
      k (← Prog.attempt (checkForUpdates X e mb))) w = exec (k (.ok found)) (checked e mb w) := by
  have hrecord : exec (recordCheck e mb) w = (.ok (), (exec (recordCheck e mb) w).2) := by
    rw [recordCheck, exec_ignore]
  have hcheck : exec (Prog.attempt (checkForUpdates X e mb)) (exec (recordCheck e mb) w).2 =
      (.ok (.ok found), checked e mb w) := by
    rw [exec_attempt, exec_checkForUpdates_of (hserve _) hinfo]
    rfl
  rw [exec_bind_ok hrecord, exec_bind_ok hcheck]

/-- An update that was found is applied by the command and by the daemon alike. -/
theorem exec_cycle_found {r : ServerUpdateResponse} {flags : UpdateFlags}
    (hserve : ∀ asked, e.serveCheck (asked ++ [checkRequest e mb]) = .json r)
    (hinfo : updateInfoOf X e r = .ok (some upd))
    (hpass : refusesDowngrade X.semver mb.currentVersionString upd.version = false)
    (hdry : flags.dryRun = false) (honly : flags.downloadOnly = false) :
    exec (processBinaryUpdate X e flags mb) w =
        (.ok (if (exec (applyUpdate X e mb upd) (checked e mb w)).1.toBool then .updated
          else .failed), (exec (applyUpdate X e mb upd) (checked e mb w)).2) ∧
      (mb.autoUpdate = true → exec (checkAndApply X e mb) w =
        (.ok (), (exec (applyUpdate X e mb upd) (checked e mb w)).2)) := by
  refine ⟨?_, fun hauto => ?_⟩
  · unfold processBinaryUpdate
    refine (exec_found hserve hinfo).trans ?_
    show exec (processUpdate X e flags mb upd) _ = _
    unfold processUpdate
    rw [hpass, hdry, honly]
    show exec (Prog.attempt (applyUpdate X e mb upd) >>= _) _ = _
    rw [exec_bind_ok (exec_attempt _ _)]
    cases (exec (applyUpdate X e mb upd) (checked e mb w)).1 with
    | ok _ => rfl
    | error _ => rfl
  · unfold checkAndApply
    rw [hauto]
    refine (exec_found hserve hinfo).trans ?_
    show exec (if _ then _ else _) _ = _
    rw [hpass]
    exact exec_ignore _ _

/-- A client that is told that there is no update does nothing more. -/
theorem exec_cycle_none {r : ServerUpdateResponse}
    (hserve : ∀ asked, e.serveCheck (asked ++ [checkRequest e mb]) = .json r)
    (hinfo : updateInfoOf X e r = .ok none) :
    (∀ flags, exec (processBinaryUpdate X e flags mb) w = (.ok .alreadyCurrent, checked e mb w)) ∧
      (mb.autoUpdate = true → exec (checkAndApply X e mb) w = (.ok (), checked e mb w)) := by
  refine ⟨fun flags => ?_, fun hauto => ?_⟩
  · unfold processBinaryUpdate
    exact exec_found hserve hinfo
  · unfold checkAndApply
    rw [hauto]
    exact exec_found hserve hinfo

end Cycle

/-! ## whole runs of the server -/

/-- A request of a publisher with this key that succeeds, keeps the promises of answers and signs
for all platforms of its version; versions are not deleted. -/
def Releasing (Y : ServerCrates) (pubkey : ByteVec 32) (s : Store) (q : Request) : Prop :=
  q.Succeeds Y s ∧ KeepsPromises Y s q ∧
    match q with
    | .publish _ publisher p form =>
        publisher.pubkey = some pubkey ∧ SignsOthers Y pubkey p form s.toArtifacts
    | .uploadDiff .. | .activate .. | .rollout .. => True
    | .delete .. => False

/-- Whatever is named can be downloaded, and is signed. -/
structure WellStocked (Y : ServerCrates) (pubkey : ByteVec 32) (a : Artifacts) : Prop where
  servable : Servable Y a
  signed : Signed Y pubkey a

section Server

variable {Y : ServerCrates} {pubkey : ByteVec 32} {a a' : Artifacts} {s s' : Store} {q : Request}

/-- Rollouts and markers do not matter to what can be downloaded. -/
theorem Servable.congr (h : Servable Y a) (hcatalogs : a'.catalogs = a.catalogs)
    (hmanifests : a'.manifests = a.manifests) (hbinaries : a'.binaries = a.binaries)
    (hsignatures : a'.signatures = a.signatures) (hdiffs : a'.diffs = a.diffs) :
    Servable Y a' := by
  have hartifact : ∀ p platform, a'.artifactAt p platform = a.artifactAt p platform := by
    intro p platform
    unfold Artifacts.artifactAt Artifacts.getVersionManifest
    rw [hmanifests]
  refine ⟨fun appName catalog hread => ?_, fun p platform artifact hread => ?_⟩
  · unfold Artifacts.getAppCatalog at hread
    rw [hcatalogs] at hread
    obtain ⟨hpublished, hdistinct, hlatest, hstored⟩ := h.catalogs appName catalog hread
    refine ⟨hpublished, hdistinct, hlatest, fun info hinfo platform hplatform => ?_⟩
    obtain ⟨artifact, b, sig, hb⟩ := hstored info hinfo platform hplatform
    exact ⟨artifact, b, sig, (hartifact _ _).trans hb.manifest, hbinaries ▸ hb.binary, hb.checksum,
      hsignatures ▸ hb.signature⟩
  · rw [hartifact] at hread
    exact (h.diffs p platform artifact hread).congr hdiffs

/-- What is signed is every artifact of a manifest. -/
theorem signed_iff : Signed Y pubkey a ↔ ∀ p platform artifact,
    a.artifactAt p platform = some artifact →
    ∃ b sig, a.binaries.read (p, platform) = some b ∧ ChecksumOf Y b artifact.checksum ∧
      downloadSignature Y a p.appName p.version = .ok sig.val ∧
      verifies Y pubkey (Y.crypto.blake3 b) p.version sig = true := by
  constructor
  · intro h p platform artifact hartifact
    obtain ⟨manifest, hmanifest, hplatform⟩ := Option.bind_eq_some_iff.mp hartifact
    exact h p manifest platform artifact hmanifest hplatform
  · intro h p manifest platform artifact hmanifest hplatform
    exact h p platform artifact (Option.bind_eq_some_iff.mpr ⟨manifest, hmanifest, hplatform⟩)

/-- What is signed stays signed when entries keep their checksums. -/
theorem Signed.congr (h : Signed Y pubkey a) (hbinaries : a'.binaries = a.binaries)
    (hsignatures : a'.signatures = a.signatures)
    (hartifact : ∀ p platform artifact', a'.artifactAt p platform = some artifact' →
      ∃ artifact, a.artifactAt p platform = some artifact ∧
        artifact'.checksum = artifact.checksum) : Signed Y pubkey a' := by
  refine signed_iff.mpr fun p platform artifact' hread => ?_
  obtain ⟨artifact, hold, hchecksum⟩ := hartifact p platform artifact' hread
  obtain ⟨b, sig, hbinary, hsum, hsig, hverifies⟩ := signed_iff.mp h p platform artifact hold
  refine ⟨b, sig, hbinaries ▸ hbinary, hchecksum ▸ hsum, ?_, hverifies⟩
  rw [downloadSignature_congr (a := a) (by rw [hsignatures])]
  exact hsig

/-- Every request of a releasing publisher leaves the server stocked. -/
theorem WellStocked.next (hS : Y.semver.DisplayParse) (hdigit : Y.semver.StartsWithDigit)
    (h : WellStocked Y pubkey s.toArtifacts) (hq : Releasing Y pubkey s q) :
    WellStocked Y pubkey (q.next Y s).toArtifacts := by
  obtain ⟨hok, hkeeps, hkind⟩ := hq
  have heffect := Request.effect Y s q
  rw [show (q.run Y s).1 = true from hok] at heffect
  cases q with
  | publish e publisher p form =>
      refine ⟨h.servable.next hS hdigit ⟨hok, trivial⟩ hkeeps, ?_⟩
      generalize (Request.next Y s _).toArtifacts = a' at heffect ⊢
      cases heffect with
      | published hr => exact signed_publish h.signed hkind.1 hr hkind.2
  | uploadDiff e publisher p form =>
      refine ⟨h.servable.next hS hdigit ⟨hok, trivial⟩ hkeeps, ?_⟩
      generalize (Request.next Y s _).toArtifacts = a' at heffect ⊢
      cases heffect with
      | @diffAdded _ _ _ _ platform _ _ manifest artifact _ haccepted hmanifest hartifact =>
          refine h.signed.congr rfl rfl fun q platform' artifact' hread => ?_
          by_cases hkey : (q, platform') = (⟨p.appName, p.toVersion⟩, platform)
          · obtain ⟨rfl, rfl⟩ := Prod.mk.inj hkey
            rw [artifactAt_addDiff_self] at hread
            obtain rfl := Option.some.inj hread
            exact ⟨artifact, Option.bind_eq_some_iff.mpr ⟨manifest, hmanifest, hartifact⟩, rfl⟩
          · rw [artifactAt_addDiff_ne hmanifest hkey] at hread
            exact ⟨artifact', hread, rfl⟩
  | activate e publisher p request =>
      refine ⟨h.servable.next hS hdigit ⟨hok, trivial⟩ hkeeps, ?_⟩
      generalize (Request.next Y s _).toArtifacts = a' at heffect ⊢
      cases heffect with
      | activated hcatalog hchange =>
          exact h.signed.congr rfl rfl fun _ _ artifact' hread => ⟨artifact', hread, rfl⟩
  | rollout e publisher p request =>
      generalize (Request.next Y s _).toArtifacts = a' at heffect ⊢
      cases heffect with
      | rolledOut hle =>
          exact ⟨h.servable.congr rfl rfl rfl rfl rfl,
            h.signed.congr rfl rfl fun _ _ artifact' hread => ⟨artifact', hread, rfl⟩⟩
  | delete e publisher p => contradiction

/-- In every run of releases, whatever is named can be downloaded, and is signed. -/
theorem wellStocked_of_reaches (hS : Y.semver.DisplayParse) (hdigit : Y.semver.StartsWithDigit)
    (h : Reaches (Request.next Y) (Releasing Y pubkey) Store.empty s) :
    WellStocked Y pubkey s.toArtifacts :=
  h.invariant (I := fun s => WellStocked Y pubkey s.toArtifacts) ⟨servable_empty, signed_empty⟩
    fun _ _ hs hq => hs.next hS hdigit hq

end Server

end Deltaship
