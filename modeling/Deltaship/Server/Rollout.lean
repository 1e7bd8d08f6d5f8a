import Deltaship.Lib.Runs
import Deltaship.Server.Effects
import Deltaship.Server.Update

/-!
# Deltaship.Server.Rollout

Whether a staged rollout reaches the devices it was requested for.

A percentage can be requested by `update_rollout`, and in the body of
`activate_version`, which does not use it.  In runs whose activations ask for
nothing new, a device is offered the latest version exactly if its bucket is below
the percentage requested last.
-/

namespace Deltaship

open Prog Runs

/-! ## the property -/

/-- The percentage a request asks for, for a version. -/
def Request.requests (p : VersionPath) : Request → Option Nat
  | .rollout _ _ p' request => if p' = p then some request.percentage else none
  | .activate _ _ p' request => if p' = p then request.bind (·.rolloutPercentage) else none
  | _ => none

/-- The percentage a run requested last for a version, with `n` before it. -/
def requestedPercentage (X : ServerCrates) (p : VersionPath) : Store → List Request → Nat → Nat
  | _, [], n => n
  | s, q :: rest, n =>
    requestedPercentage X p (q.next X s) rest
      (if (q.run X s).1 then (q.requests p).getD n else n)

/-- The bucket of a device: the first eight bytes of its hash, modulo 100. -/
def bucket (X : ServerCrates) (deviceId : String) : Nat :=
  fromLeBytes ((X.crypto.blake3 (utf8 deviceId)).val.take 8) % 100

/-- A device asks for an update it could be offered: its version is older than the
latest one, which supports its platform. -/
structure Eligible (X : ServerCrates) (a : Artifacts) (appName : String) (query : UpdateCheckQuery)
    (catalog : AppCatalog) : Prop where
  nameOk : validateName appName = .ok ()
  catalogRead : a.getAppCatalog appName = some catalog
  older : ∃ current, parseCurrent X query.currentVersion = .ok current ∧
    Version.ge X.semver current catalog.latestVersion = false
  supported : ∃ platform info, Platform.parse query.platform = some platform ∧
    info ∈ catalog.versions ∧ Version.eq info.version catalog.latestVersion = true ∧
    platform ∈ info.platforms

/-- After a run, a device is offered the latest version exactly if its bucket is
below the percentage requested last. -/
def RolloutEnforced (X : ServerCrates) (run : List Request) : Prop :=
  ∀ appName query catalog deviceId,
    Eligible X (final (Request.next X) Store.empty run).toArtifacts appName query catalog →
    query.deviceIdHash = some deviceId →
    ((∃ resp, checkUpdate X (final (Request.next X) Store.empty run).toArtifacts appName query =
        .ok resp ∧ resp.updateAvailable = true ∧
        resp.targetVersion = some catalog.latestVersion) ↔
      bucket X deviceId < requestedPercentage X
        ⟨appName, X.semver.display catalog.latestVersion⟩ Store.empty run 100)

/-- The percentage in force for a version. -/
def Artifacts.percentage (a : Artifacts) (p : VersionPath) : Nat :=
  ((a.getRolloutConfig p).getD .default).percentage

/-- The condition on a request: an activation of a version of the catalog asks for
no percentage, or for the one in force. -/
def AsksNothingNew (X : ServerCrates) (s : Store) : Request → Prop
  | .activate _ _ p request => ∀ catalog n, s.getAppCatalog p.appName = some catalog →
      (∃ info ∈ catalog.versions, X.semver.display info.version = p.version) →
      request.bind (·.rolloutPercentage) = some n → min n 100 = s.percentage p
  | _ => True

/-! ## what is in force -/

/-- The stored configuration is enabled, and has the requested percentage. -/
structure InForce (a : Artifacts) (p : VersionPath) (n : Nat) : Prop where
  enabled : ((a.getRolloutConfig p).getD .default).enabled = true
  percentage : a.percentage p = min n 100

section Step

variable {X : ServerCrates} {a a' : Artifacts} {p : VersionPath} {n : Nat} {q : Request}

/-- A percentage is in force as long as the configuration is the same. -/
theorem InForce.congr (h : InForce a p n) (hread : a'.getRolloutConfig p = a.getRolloutConfig p) :
    InForce a' p n := by
  obtain ⟨henabled, hpercentage⟩ := h
  unfold Artifacts.percentage at hpercentage
  refine ⟨?_, ?_⟩
  · rw [hread]
    exact henabled
  · unfold Artifacts.percentage
    rw [hread]
    exact hpercentage

/-- Every request that asks for nothing new leaves it in force. -/
theorem inForce_effect {s : Store} (h : InForce s.toArtifacts p n) (hasks : AsksNothingNew X s q)
    (heffect : q.Effect X s.toArtifacts (q.run X s).1 a') :
    InForce a' p (if (q.run X s).1 then (q.requests p).getD n else n) := by
  generalize (q.run X s).1 = ok at heffect
  cases heffect with
  | published => exact h.congr rfl
  | diffAdded => exact h.congr rfl
  | @activated e publisher p' request catalog catalog' hcatalog hchange =>
      have hsame : InForce (s.toArtifacts.setCatalog p'.appName catalog') p n := h.congr rfl
      rw [if_pos rfl, Request.requests]
      split
      · next hp =>
          subst hp
          cases hrequest : request.bind (·.rolloutPercentage) with
          | none => exact hsame
          | some m =>
              refine ⟨hsame.enabled, ?_⟩
              have hm := hasks catalog m hcatalog (activateCatalog_ok hchange).1 hrequest
              exact hm.symm
      · exact hsame
  | @rolledOut e publisher p' request b hle =>
      rw [if_pos rfl, Request.requests]
      by_cases hp : p' = p
      · subst hp
        rw [if_pos rfl, Option.getD_some]
        constructor
        · rw [Artifacts.getRolloutConfig_setRollout_self]
          cases b with
          | true => exact h.enabled
          | false => rfl
        · rw [Artifacts.percentage, Artifacts.getRolloutConfig_setRollout_self, Option.getD_some,
            Nat.min_eq_left hle]
          rfl
      · rw [if_neg hp, Option.getD_none]
        exact h.congr (Artifacts.getRolloutConfig_setRollout_ne fun hp' => hp hp'.symm)
  | marked =>
      have hsame : (if ok = true then n else n) = n := ite_self n
      exact hsame.symm ▸ h.congr rfl
  | deleted => exact h.congr rfl
  | failed hsame => exact h.congr (hsame.rollout p)

/-- What is in force after a run is what it requested. -/
theorem inForce_of_permitted {s : Store} {run : List Request} (h : InForce s.toArtifacts p n)
    (hrun : Permitted (Request.next X) (AsksNothingNew X) s run) :
    InForce (final (Request.next X) s run).toArtifacts p (requestedPercentage X p s run n) := by
  induction run generalizing s n with
  | nil => exact h
  | cons q rest ih => exact ih (inForce_effect h hrun.1 (Request.effect X s q)) hrun.2

/-! ## what is offered -/

/-- An eligible device is offered the latest version unless the rollout refuses
it. -/
theorem offered_iff_of_eligible {appName : String} {query : UpdateCheckQuery}
    {catalog : AppCatalog} (h : Eligible X a appName query catalog) :
    (∃ resp, checkUpdate X a appName query = .ok resp ∧ resp.updateAvailable = true ∧
      resp.targetVersion = some catalog.latestVersion) ↔
    rolloutRefusal X (a.getRolloutConfig ⟨appName, X.semver.display catalog.latestVersion⟩)
      query.deviceIdHash catalog.latestVersion = none := by
  obtain ⟨current, hcurrent, hnewer⟩ := h.older
  obtain ⟨platform, info, hplatform, hinfo, heq, hsupported⟩ := h.supported
  constructor
  · rintro ⟨resp, hresp, havailable, -⟩
    obtain ⟨_, _, catalog', _, hoffer, -⟩ := offerOf_of_checkUpdate hresp havailable
    obtain rfl := Option.some.inj (h.catalogRead.symm.trans hoffer.catalogRead)
    exact hoffer.rollout
  · intro hrefusal
    have hfound : (catalog.versions.find? fun v =>
        Version.eq v.version catalog.latestVersion && v.platforms.contains platform).isSome := by
      rw [List.find?_isSome]
      exact ⟨info, hinfo, by simp [heq, hsupported]⟩
    obtain ⟨found, hfound⟩ := Option.isSome_iff_exists.mp hfound
    refine ⟨offer X a appName query platform current found catalog.latestVersion, ?_, rfl, rfl⟩
    simp only [checkUpdate, h.nameOk, hplatform, hcurrent, h.catalogRead, Except.mapError,
      Except.ofOption, bind, Except.bind, hnewer, hfound, hrefusal, pure, Except.pure]
    rfl

/-- The rollout refuses a device exactly if its bucket is not below the percentage
in force. -/
theorem rolloutRefusal_eq_none_iff (h : InForce a p n) {deviceId : String} {latest : Version} :
    rolloutRefusal X (a.getRolloutConfig p) (some deviceId) latest = none ↔
      bucket X deviceId < n := by
  have hbucket : bucket X deviceId < 100 := Nat.mod_lt _ (by decide)
  obtain ⟨henabled, hpercentage⟩ := h
  unfold Artifacts.percentage at hpercentage
  cases hconfig : a.getRolloutConfig p with
  | none =>
      rw [hconfig] at hpercentage
      have hn : 100 = min n 100 := hpercentage
      simp only [rolloutRefusal, true_iff]
      omega
  | some config =>
      rw [hconfig, Option.getD_some] at henabled hpercentage
      have hdevice : deviceInRollout X deviceId config.percentage = true ↔
          bucket X deviceId < config.percentage := by
        unfold deviceInRollout bucket at *
        split
        · next hzero => simp [hzero]
        · split
          · simp only [true_iff]
            omega
          · exact decide_eq_true_iff
      simp only [rolloutRefusal, henabled, Bool.true_and]
      split
      · next hrefused =>
          rw [Bool.and_eq_true, decide_eq_true_eq, Bool.not_eq_true', ← Bool.not_eq_true, hdevice]
            at hrefused
          simp only [reduceCtorEq, false_iff]
          omega
      · next hkept =>
          rw [Bool.and_eq_true, decide_eq_true_eq, Bool.not_eq_true', ← Bool.not_eq_true, hdevice]
            at hkept
          simp only [true_iff]
          omega

end Step

/-! ## whole runs -/

/-- In every run whose activations ask for no new percentage, rollouts are
enforced. -/
theorem rolloutEnforced_of_asksNothingNew {X : ServerCrates} {run : List Request}
    (h : Permitted (Request.next X) (AsksNothingNew X) Store.empty run) :
    RolloutEnforced X run := by
  intro appName query catalog deviceId heligible hdevice
  rw [offered_iff_of_eligible heligible, hdevice]
  have hstart : InForce Store.empty.toArtifacts ⟨appName, X.semver.display catalog.latestVersion⟩
      100 := ⟨rfl, rfl⟩
  exact rolloutRefusal_eq_none_iff (inForce_of_permitted hstart h)

/-! ### an activation with a percentage -/

/-- A version is published, and then rolled out to half of the devices. -/
theorem rolloutEnforced_of_asksNothingNew_half :
    RolloutEnforced sampleServer [samplePublish .linuxX86_64 [1] sampleSig1,
      .rollout sampleServerEnv samplePublisher ⟨"app", "1.0.0"⟩ ⟨50⟩] :=
  rolloutEnforced_of_asksNothingNew ⟨trivial, trivial, trivial⟩

/-- The request that activates version 1.0.0 for no device. -/
def sampleActivate : Request :=
  .activate sampleServerEnv samplePublisher ⟨"app", "1.0.0"⟩ (some ⟨some 0⟩)

/-- A version that was activated for no device is offered to every device. -/
theorem activate_percentage_ignored :
    ¬ ∀ (X : ServerCrates) (run : List Request), RolloutEnforced X run := by
  intro h
  have hactivate : sampleActivate.run sampleServer sampleFirstStore = (true, sampleFirstStore) := by
    decide
  have hend : final (Request.next sampleServer) Store.empty
      [samplePublish .linuxX86_64 [1] sampleSig1, sampleActivate] = sampleFirstStore := by
    rw [final, List.foldl_cons, List.foldl_cons, List.foldl_nil, Request.next, Request.next,
      samplePublish_run, hactivate]
  have hrequested : requestedPercentage sampleServer ⟨"app", "1.0.0"⟩ Store.empty
      [samplePublish .linuxX86_64 [1] sampleSig1, sampleActivate] 100 = 0 := by
    rw [requestedPercentage, Request.next, samplePublish_run, requestedPercentage, Request.next,
      hactivate, requestedPercentage]
    rfl
  have hlaw := h sampleServer [samplePublish .linuxX86_64 [1] sampleSig1, sampleActivate] "app"
    ⟨none, "linux-x86_64", some "device"⟩
    ⟨"app", [⟨.new 1 0 0, [.linuxX86_64], none, false, none⟩], .new 1 0 0⟩ "device"
  rw [hend] at hlaw
  have heligible : Eligible sampleServer sampleFirstStore.toArtifacts "app"
      ⟨none, "linux-x86_64", some "device"⟩
      ⟨"app", [⟨.new 1 0 0, [.linuxX86_64], none, false, none⟩], .new 1 0 0⟩ :=
    ⟨by decide, rfl, ⟨.new 0 0 0, rfl, by decide⟩, .linuxX86_64, _,
      Platform.parse_asStr .linuxX86_64, List.mem_cons_self, rfl, List.mem_cons_self⟩
  have hoffered := (hlaw heligible rfl).mp ((offered_iff_of_eligible heligible).mpr rfl)
  rw [show sampleServer.semver.display (.new 1 0 0) = "1.0.0" by decide, hrequested]
    at hoffered
  exact absurd hoffered (Nat.not_lt_zero _)

/-! ## the percentage as a threshold -/

/-- A client is offered an update. -/
def Offered (X : ServerCrates) (a : Artifacts) (appName : String) (query : UpdateCheckQuery) :
    Prop :=
  ∃ resp, checkUpdate X a appName query = .ok resp ∧ resp.updateAvailable = true

/-- The state in which a version has this configuration, with another percentage. -/
def Artifacts.withPercentage (a : Artifacts) (p : VersionPath) (config : RolloutConfig)
    (percentage : Nat) : Artifacts :=
  a.setRollout p { config with percentage }

/-- The state in which a version has no configuration. -/
def Artifacts.withoutRollout (a : Artifacts) (p : VersionPath) : Artifacts :=
  { a with rollouts := a.rollouts.remove p }

section Threshold

variable {X : ServerCrates} {a a' : Artifacts} {appName : String} {query : UpdateCheckQuery}
  {config : RolloutConfig} {p : VersionPath} {deviceId : String} {latest : Version} {m n : Nat}

/-- A check is answered with an offer exactly if there is one. -/
theorem offered_iff : Offered X a appName query ↔
    ∃ platform current catalog info, OfferOf X a appName query platform current catalog info := by
  constructor
  · rintro ⟨resp, hresp, havailable⟩
    obtain ⟨platform, current, catalog, info, hoffer, -⟩ := offerOf_of_checkUpdate hresp havailable
    exact ⟨platform, current, catalog, info, hoffer⟩
  · rintro ⟨platform, current, catalog, info, hoffer⟩
    refine ⟨offer X a appName query platform current info catalog.latestVersion, ?_, rfl⟩
    simp only [checkUpdate, hoffer.nameOk, hoffer.parsePlatform, hoffer.parseCurrent,
      hoffer.catalogRead, Except.mapError, Except.ofOption, bind, Except.bind, hoffer.newer,
      hoffer.found, hoffer.rollout, pure, Except.pure]
    rfl

/-- An eligible device is offered the update unless the rollout refuses it. -/
theorem offered_iff_refusal {catalog : AppCatalog} (h : Eligible X a appName query catalog) :
    Offered X a appName query ↔
      rolloutRefusal X (a.getRolloutConfig ⟨appName, X.semver.display catalog.latestVersion⟩)
        query.deviceIdHash catalog.latestVersion = none := by
  rw [← offered_iff_of_eligible h]
  constructor
  · rintro ⟨resp, hresp, havailable⟩
    obtain ⟨_, _, catalog', _, hoffer, rfl⟩ := offerOf_of_checkUpdate hresp havailable
    obtain rfl : catalog' = catalog :=
      Option.some.inj (hoffer.catalogRead.symm.trans h.catalogRead)
    exact ⟨_, hresp, rfl, rfl⟩
  · rintro ⟨resp, hresp, havailable, -⟩
    exact ⟨resp, hresp, havailable⟩

/-- Of the rollouts only a refusal matters. -/
theorem Offered.congr (h : Offered X a appName query) (hcatalogs : a'.catalogs = a.catalogs)
    (hrefusal : ∀ catalog, a.getAppCatalog appName = some catalog →
      rolloutRefusal X (a.getRolloutConfig ⟨appName, X.semver.display catalog.latestVersion⟩)
        query.deviceIdHash catalog.latestVersion = none →
      rolloutRefusal X (a'.getRolloutConfig ⟨appName, X.semver.display catalog.latestVersion⟩)
        query.deviceIdHash catalog.latestVersion = none) : Offered X a' appName query := by
  obtain ⟨platform, current, catalog, info, hoffer⟩ := offered_iff.mp h
  have hcatalog : a'.getAppCatalog appName = some catalog := by
    rw [Artifacts.getAppCatalog, hcatalogs]
    exact hoffer.catalogRead
  exact offered_iff.mpr ⟨platform, current, catalog, info, hoffer.nameOk, hoffer.parsePlatform,
    hoffer.parseCurrent, hcatalog, hoffer.newer, hoffer.found,
    hrefusal catalog hoffer.catalogRead hoffer.rollout⟩

/-- A device stays in a rollout whose percentage grows. -/
theorem deviceInRollout_mono (h : m ≤ n) (hin : deviceInRollout X deviceId m = true) :
    deviceInRollout X deviceId n = true := by
  unfold deviceInRollout at *
  split at hin
  · contradiction
  · split
    · omega
    · split
      · rfl
      · split at hin
        · omega
        · simp only [decide_eq_true_eq] at *
          omega

/-- A device that is in is in at a larger percentage. -/
theorem rolloutRefusal_mono (h : m ≤ n) {deviceIdHash : Option String}
    (hnone : rolloutRefusal X (some { config with percentage := m }) deviceIdHash latest = none) :
    rolloutRefusal X (some { config with percentage := n }) deviceIdHash latest = none := by
  cases deviceIdHash with
  | none => rfl
  | some deviceId =>
      simp only [rolloutRefusal, ite_eq_right_iff, reduceCtorEq, imp_false, Bool.and_eq_true,
        decide_eq_true_eq, Bool.not_eq_true', not_and, Bool.not_eq_false] at *
      rintro ⟨henabled, hlt⟩
      exact deviceInRollout_mono h (hnone ⟨henabled, by omega⟩)

theorem rolloutRefusal_zero (henabled : config.enabled = true) :
    rolloutRefusal X (some { config with percentage := 0 }) (some deviceId) latest ≠ none := by
  simp [rolloutRefusal, henabled, deviceInRollout]

theorem rolloutRefusal_hundred {deviceIdHash : Option String} :
    rolloutRefusal X (some { config with percentage := 100 }) deviceIdHash latest = none := by
  cases deviceIdHash with
  | none => rfl
  | some deviceId => simp [rolloutRefusal]

end Threshold

/-- Whoever is offered an update at some percentage is offered it at a greater one; with a
configuration that is enabled no device is offered it at 0, and every device that would be
offered it without a configuration is offered it at 100. -/
theorem rollout_threshold (X : ServerCrates) (a : Artifacts) (appName : String)
    (query : UpdateCheckQuery) (config : RolloutConfig) (p : VersionPath) :
    (∀ m n, m ≤ n → n ≤ 100 → Offered X (a.withPercentage p config m) appName query →
      Offered X (a.withPercentage p config n) appName query) ∧
    (query.deviceIdHash.isSome = true → config.enabled = true →
      (∀ catalog, a.getAppCatalog appName = some catalog →
        p = ⟨appName, X.semver.display catalog.latestVersion⟩ →
        ¬ Offered X (a.withPercentage p config 0) appName query) ∧
      (Offered X (a.withoutRollout p) appName query →
        Offered X (a.withPercentage p config 100) appName query)) := by
  refine ⟨fun m n hmn _ h => ?_, fun hdevice henabled => ⟨fun catalog hcatalog hp h => ?_,
    fun h => ?_⟩⟩
  · refine h.congr rfl fun catalog _ hrefusal => ?_
    by_cases hlatest : (⟨appName, X.semver.display catalog.latestVersion⟩ : VersionPath) = p
    · rw [hlatest, Artifacts.withPercentage, Artifacts.getRolloutConfig_setRollout_self] at hrefusal
      rw [hlatest, Artifacts.withPercentage, Artifacts.getRolloutConfig_setRollout_self]
      exact rolloutRefusal_mono hmn hrefusal
    · rw [Artifacts.withPercentage, Artifacts.getRolloutConfig_setRollout_ne hlatest] at hrefusal
      rw [Artifacts.withPercentage, Artifacts.getRolloutConfig_setRollout_ne hlatest]
      exact hrefusal
  · obtain ⟨platform, current, catalog', info, hoffer⟩ := offered_iff.mp h
    have hsame : catalog' = catalog := Option.some.inj (hoffer.catalogRead.symm.trans hcatalog)
    have hrefusal := hoffer.rollout
    obtain ⟨deviceId, hdeviceId⟩ := Option.isSome_iff_exists.mp hdevice
    rw [hsame, ← hp, Artifacts.withPercentage, Artifacts.getRolloutConfig_setRollout_self,
      hdeviceId] at hrefusal
    exact rolloutRefusal_zero henabled hrefusal
  · refine h.congr rfl fun catalog _ hrefusal => ?_
    by_cases hlatest : (⟨appName, X.semver.display catalog.latestVersion⟩ : VersionPath) = p
    · rw [hlatest, Artifacts.withPercentage, Artifacts.getRolloutConfig_setRollout_self]
      exact rolloutRefusal_hundred
    · rw [Artifacts.withPercentage, Artifacts.getRolloutConfig_setRollout_ne hlatest]
      have hother : (a.withoutRollout p).getRolloutConfig
          ⟨appName, X.semver.display catalog.latestVersion⟩ =
          a.getRolloutConfig ⟨appName, X.semver.display catalog.latestVersion⟩ := by
        rw [Artifacts.getRolloutConfig, Artifacts.withoutRollout, Files.read_remove_ne _ hlatest]
        rfl
      rwa [hother] at hrefusal

/-- At 0 no device is offered the version that all would be offered, and at 100 each is. -/
theorem rollout_threshold_sample :
    ¬ Offered sampleServer (sampleFirstStore.withPercentage ⟨"app", "1.0.0"⟩ .default 0) "app"
        ⟨none, "linux-x86_64", some "device"⟩ ∧
      Offered sampleServer (sampleFirstStore.withPercentage ⟨"app", "1.0.0"⟩ .default 100) "app"
        ⟨none, "linux-x86_64", some "device"⟩ := by
  obtain ⟨hmono, hends⟩ := rollout_threshold sampleServer sampleFirstStore.toArtifacts "app"
    ⟨none, "linux-x86_64", some "device"⟩ .default ⟨"app", "1.0.0"⟩
  obtain ⟨hzero, -⟩ := hends rfl rfl
  refine ⟨hzero _ rfl (by decide), hmono 100 100 (le_refl _) (le_refl _) ?_⟩
  exact offered_iff.mpr ⟨.linuxX86_64, .new 0 0 0, _, _, by decide,
    Platform.parse_asStr .linuxX86_64, rfl, rfl, by decide, rfl, by decide⟩

end Deltaship
