import Deltaship.Server.Storing

/-!
# Deltaship.Server.Requests

The handlers keep what is visible stored, and what a request was answered with is true when it
ends.
-/

namespace Deltaship

open Prog Thread

/-! ## requests -/

/- Each handler is taken apart along its code, from the reading of the form to the last file that it
writes. What is known between two steps has to be stable, that is, left true by the other requests;
the lemmas for the steps are those of `Deltaship.Server.Storing`. -/

section Requests

variable {X : ServerCrates} {e : ServerEnv} {H : Set String} {P : Store → Prop}
  {publisher : Publisher} {p : VersionPath}

theorem guards_requireValid {r : Except ValidationError Unit} {err : HttpError} :
    (whole (requireValid r err) : HandlerThread Unit).Guards Rely (Backed X) H P
      (fun _ s => r = .ok () ∧ P s) fun _ _ => True := by
  refine guards_still fun s _ hs => ?_
  unfold requireValid
  cases r with
  | ok u => exact ⟨rfl, rfl, hs⟩
  | error _ => exact ⟨rfl, trivial⟩

/-- An answer with an error. -/
theorem guards_bail {α : Type} {temp : UploadPath} {err : HttpError} {Q : α → Store → Prop} :
    (Threaded.bail e temp err : HandlerThread α).Guards Rely (Backed X) H (fun _ => True) Q
      fun _ _ => True := by
  refine guards_bind (fun _ => stable_true) (guards_parked stable_true within_cleanup) fun _ => ?_
  exact guards_still fun _ _ _ => ⟨rfl, trivial⟩

/-- What the fields of a form say is known behind them. -/
theorem guards_collectFields {α : Type} {one : Nat → Field → α → HandlerThread α} {broken : Bool}
    {F : List Field → α → Prop} (hone : ∀ k seen field acc, F seen acc →
      (one k field acc).Guards Rely (Backed X) H (fun _ => True)
        (fun acc' _ => F (seen ++ [field]) acc' ∧ True) fun _ _ => True)
    (fields seen : List Field) (k : Nat) (acc : α) (hacc : F seen acc) :
    (Threaded.collectFields one broken fields k acc).Guards Rely (Backed X) H (fun _ => True)
      (fun acc' _ => F (seen ++ fields) acc' ∧ True) fun _ _ => True := by
  induction fields generalizing seen k acc with
  | nil =>
      refine guards_still fun s _ _ => ?_
      split
      · exact ⟨rfl, trivial⟩
      · exact ⟨rfl, by simpa using hacc⟩
  | cons field rest ih =>
      unfold Threaded.collectFields
      split
      · exact guards_still fun s _ _ => ⟨rfl, trivial⟩
      · refine guards_bind (fun _ _ _ _ h => h) (hone k seen field acc hacc) fun acc' => ?_
        refine guards_of_fact fun hacc' => ?_
        have hrest := ih (seen ++ [field]) (k + 1) acc' hacc'
        rwa [List.append_assoc] at hrest

/-- The platform that was collected is the text of the last field of that name. -/
def PlatformOf (seen : List Field) (acc : PublishForm) : Prop :=
  ∀ x, acc.platform = some x → lastText "platform" seen = some x

/-- The platform that is collected is that of the fields seen so far. -/
theorem guards_collectPublish (k : Nat) (seen : List Field) (field : Field) (acc : PublishForm)
    (hacc : PlatformOf seen acc) :
    (Threaded.collectPublish X e p k field acc).Guards Rely (Backed X) H (fun _ => True)
      (fun acc' _ => PlatformOf (seen ++ [field]) acc' ∧ True) fun _ _ => True := by
  have hother : field.name ≠ "platform" → PlatformOf (seen ++ [field]) acc := fun hname x hx => by
    unfold lastText
    rw [lastField_append_of_ne hname]
    exact hacc x hx
  unfold Threaded.collectPublish
  split
  · next hname =>
      refine guards_bind (fun _ => stable_true)
        (guards_parked stable_true within_streamFieldToTemp) fun streamed => ?_
      exact guards_still fun s _ _ => ⟨rfl, hother (by simp [hname]), trivial⟩
  · refine guards_still fun s _ _ => ?_
    unfold collectPublish
    split
    · next hbinary => contradiction
    · next hname =>
        rw [wp_bind]
        refine wp_check (fun text hread => wp_pure.mpr ⟨rfl, fun x hx => ?_, trivial⟩)
          fun _ => ⟨rfl, trivial⟩
        obtain rfl := Option.some.inj hx
        rw [lastText, lastField_append_of_eq hname]
        exact text_of_readFieldTextLimited hread
    · next hname =>
        rw [wp_bind]
        refine wp_check (fun text _ => ?_) fun _ => ⟨rfl, trivial⟩
        rw [wp_bind]
        exact wp_check (fun data _ => wp_pure.mpr ⟨rfl, hother (by simp [hname]), trivial⟩)
          fun _ => ⟨rfl, trivial⟩
    · next hname =>
        rw [wp_bind]
        exact wp_check (fun text _ => wp_pure.mpr ⟨rfl, hother (by simp [hname]), trivial⟩)
          fun _ => ⟨rfl, trivial⟩
    · next hname =>
        rw [wp_bind]
        refine wp_check (fun notes _ => ?_) fun _ => ⟨rfl, trivial⟩
        rw [wp_pure]
        split <;> exact ⟨rfl, hother (by simp [hname]), trivial⟩
    · next hplatform _ _ _ => exact ⟨rfl, hother hplatform, trivial⟩

/-- A publication that has stored everything is listed. -/
theorem guards_storePublish {version : Version} {streamed : StreamedField}
    {checked : CheckedPublish} {releaseNotes : Option String}
    (hname : validateName p.appName = .ok ()) (hversion : validateVersion p.version = .ok ())
    (hparse : X.semver.parse p.version = some version) (hread : e.faults (.manifest .read) = none) :
    (Threaded.storePublish X e p version streamed checked releaseNotes).Guards Rely (Backed X) ∅
      (fun _ => True) (fun _ s => s.Lists p checked.platform) fun _ _ => True := by
  have hbinary : Stable (Rely ∅) fun s => (s.binaries.read (p, checked.platform)).isSome = true :=
    stable_of_grows fun s s' hgrows h => hgrows.binaries _ h
  have hfiles : Stable (Rely ∅) fun s => Downloadable s.toArtifacts p checked.platform :=
    stable_of_grows fun s s' hgrows h => h.grow hgrows
  have hlists : Stable (Rely ∅) fun s => s.Lists p checked.platform :=
    stable_of_grows fun s s' hgrows h => hgrows.lists _ _ h
  refine guards_bind (M := fun saved s => saved = .ok () →
      (s.binaries.read (p, checked.platform)).isSome = true)
    (fun saved s s' hR h hsaved => hbinary s s' hR (h hsaved)) ?_ fun saved => ?_
  · exact guards_attempt (guards_adapt (guards_mono (fun _ h => h) (fun _ _ h _ => h)
      (fun _ _ _ h => nomatch h) guards_saveBinaryFromTemp))
  cases saved with
  | error err =>
      exact guards_mono (fun _ _ => trivial) (fun _ _ h => h) (fun _ _ h => h) guards_bail
  | ok u =>
      -- the signature, the manifest and the catalog, each behind what it needs
      refine guards_bind (fun _ => hfiles) ?_ fun _ => ?_
      · exact guards_mono (fun s h => ⟨trivial, h rfl⟩)
          (fun _ s h => ⟨hname, hversion, h.2, h.1⟩) (fun _ _ _ => trivial)
          (guards_frame hbinary antitone_rely guards_saveSignature)
      refine guards_bind (fun _ => hlists) (guards_updateManifest hread) fun _ => ?_
      exact guards_mono (fun _ h => ⟨h, h⟩) (fun _ _ h => h.2) (fun _ _ _ => trivial)
        (guards_frame hlists antitone_rely
          (guards_updateCatalogAtomic hparse rfl rfl))

/-- The platform that is checked is the one of the form. -/
theorem platform_of_checkPublish {form : PublishForm} {hash : Hash} {checked : CheckedPublish}
    (h : checkPublish X publisher p form hash = .ok checked) :
    form.platform.bind Platform.parse = some checked.platform := by
  unfold checkPublish at h
  obtain ⟨platform, hplatform, h⟩ := Except.bind_eq_ok.mp h
  obtain ⟨signature, -, h⟩ := Except.bind_eq_ok.mp h
  obtain ⟨checksum, -, h⟩ := Except.bind_eq_ok.mp h
  have hparsed := checkPlatform_ok hplatform
  split at h
  · obtain ⟨_, -, h⟩ := Except.bind_eq_ok.mp h
    obtain rfl := Except.ok.inj h
    exact hparsed
  · obtain rfl := Except.ok.inj h
    exact hparsed

/-- A publication that succeeds leaves its release listed, for good. -/
theorem guards_publishVersion {form : Form} (hread : e.faults (.manifest .read) = none) :
    (Threaded.publishVersion X e publisher p form).Guards Rely (Backed X) ∅ (fun _ => True)
      (fun _ s => ∃ platform,
        (lastText "platform" form.fields).bind Platform.parse = some platform ∧
          s.Lists p platform) fun _ _ => True := by
  refine guards_bind (fun _ _ _ _ h => h) guards_requireValid fun _ => ?_
  refine guards_of_fact fun hname => ?_
  refine guards_bind (fun _ _ _ _ h => h) guards_requireValid fun _ => ?_
  refine guards_of_fact fun hversion => ?_
  refine guards_bind (M := fun version _ => X.semver.parse p.version = some version ∧ True)
    (fun _ _ _ _ h => h) (guards_check (fun version _ hparse _ _ =>
      ⟨Except.ofOption_eq_ok.mp hparse, trivial⟩) fun _ _ _ _ _ => trivial) fun version => ?_
  refine guards_of_fact fun hparse => ?_
  refine guards_bind (fun _ => stable_true) (guards_parked stable_true within_requirePublisher)
    fun _ => ?_
  refine guards_bind (fun _ => stable_true) (guards_parked stable_true within_createDirs)
    fun _ => ?_
  refine guards_bind (fun _ _ _ _ h => h) (guards_collectFields guards_collectPublish form.fields
    [] 0 {} fun _ hx => nomatch hx) fun collected => ?_
  refine guards_of_fact fun hcollected => ?_
  refine guards_bind (fun _ => stable_true) (guards_parked stable_true within_check)
    fun streamed => ?_
  cases hchecked : checkPublish X publisher p collected streamed.hash with
  | error err => exact guards_bail
  | ok checked =>
      have hplatform : (lastText "platform" form.fields).bind Platform.parse =
          some checked.platform := by
        have hparsed := platform_of_checkPublish hchecked
        cases htext : collected.platform with
        | none =>
            rw [htext] at hparsed
            contradiction
        | some text =>
            rw [htext] at hparsed
            rw [show lastText "platform" form.fields = some text from hcollected text htext]
            exact hparsed
      have hstable : Stable (Rely ∅) fun s => s.Lists p checked.platform :=
        stable_of_grows fun s s' hgrows h => hgrows.lists _ _ h
      refine guards_bind (fun _ => hstable) (guards_storePublish hname hversion hparse hread)
        fun _ => ?_
      exact guards_still fun s _ h => ⟨rfl, checked.platform, hplatform, h⟩

/-- An activation names nothing that was not named. -/
theorem guards_activateVersion :
    (Threaded.activateVersion X e publisher p).Guards Rely (Backed X) ∅ (fun _ => True)
      (fun _ _ => True) fun _ _ => True := by
  refine guards_bind (fun _ => stable_true) (guards_parked stable_true within_requireValid)
    fun _ => ?_
  refine guards_bind (fun _ => stable_true) (guards_parked stable_true within_requirePublisher)
    fun _ => ?_
  refine guards_bind (fun _ => stable_true) (guards_parked stable_true within_requireValid)
    fun _ => ?_
  refine guards_bind (fun _ => stable_true) (guards_adapt guards_setLatestVersion) fun _ => ?_
  exact guards_still fun s _ _ => ⟨rfl, trivial⟩

/-- A deletion that succeeds leaves its version marked, for good. -/
theorem guards_deleteVersion :
    (Threaded.deleteVersion X e publisher p).Guards Rely (Backed X) ∅ (fun _ => True)
      (fun _ s => p ∈ s.deleted) fun _ _ => True := by
  refine guards_bind (fun _ => stable_true) (guards_parked stable_true within_requireValid)
    fun _ => ?_
  refine guards_bind (fun _ => stable_true) (guards_parked stable_true within_requirePublisher)
    fun _ => ?_
  refine guards_bind (fun _ => stable_true) (guards_parked stable_true within_requireValid)
    fun _ => ?_
  refine guards_bind (M := fun _ s => p ∈ s.deleted)
    (fun _ => stable_of_grows fun s s' hgrows h => hgrows.deleted p h)
    (guards_adapt guards_deleteVersionFiles) fun _ => ?_
  exact guards_still fun s _ h => ⟨rfl, h⟩

theorem within_updateRollout {request : RolloutRequest} :
    (Threaded.updateRollout e publisher p request).Within Parked := by
  refine ⟨within_requireValid, fun _ => ⟨within_requirePublisher, fun _ =>
    ⟨within_requireValid, fun _ => ?_⟩⟩⟩
  dsimp only
  split
  · exact within_throw
  · refine ⟨within_get, fun read => ?_⟩
    dsimp only
    split
    · exact within_throw
    · exact ⟨within_updateRolloutConfigAtomic, fun _ => within_pure⟩

/-- The platform that was collected is the text of the last field of that name. -/
def DiffPlatformOf (seen : List Field) (acc : DiffForm) : Prop :=
  ∀ x, acc.platform = some x → lastText "platform" seen = some x

theorem guards_collectDiff {p : DiffPath} (k : Nat) (seen : List Field) (field : Field)
    (acc : DiffForm) (hacc : DiffPlatformOf seen acc) :
    (Threaded.collectDiff X e p k field acc).Guards Rely (Backed X) H (fun _ => True)
      (fun acc' _ => DiffPlatformOf (seen ++ [field]) acc' ∧ True) fun _ _ => True := by
  have hother : field.name ≠ "platform" → DiffPlatformOf (seen ++ [field]) acc :=
    fun hname x hx => by
      unfold lastText
      rw [lastField_append_of_ne hname]
      exact hacc x hx
  unfold Threaded.collectDiff
  split
  · next hname =>
      refine guards_bind (fun _ => stable_true)
        (guards_parked stable_true within_streamFieldToTemp) fun streamed => ?_
      exact guards_still fun s _ _ => ⟨rfl, hother (by simp [hname]), trivial⟩
  · refine guards_still fun s _ _ => ?_
    unfold collectDiff
    split
    · next hdiff => contradiction
    · next hname =>
        rw [wp_bind]
        refine wp_check (fun text hread => wp_pure.mpr ⟨rfl, fun x hx => ?_, trivial⟩)
          fun _ => ⟨rfl, trivial⟩
        obtain rfl := Option.some.inj hx
        rw [lastText, lastField_append_of_eq hname]
        exact text_of_readFieldTextLimited hread
    · next hname =>
        rw [wp_bind]
        exact wp_check (fun text _ => wp_pure.mpr ⟨rfl, hother (by simp [hname]), trivial⟩)
          fun _ => ⟨rfl, trivial⟩
    · next hname =>
        rw [wp_bind]
        refine wp_check (fun algorithm _ => ?_) fun _ => ⟨rfl, trivial⟩
        split
        · exact wp_pure.mpr ⟨rfl, hother (by simp [hname]), trivial⟩
        · exact wp_throw.mpr ⟨rfl, trivial⟩
    · next hplatform _ _ => exact ⟨rfl, hother hplatform, trivial⟩

/-- A diff that was uploaded with success is there for good. -/
theorem guards_uploadDiff {p : DiffPath} {form : Form} :
    (Threaded.uploadDiff X e publisher p form).Guards Rely (Backed X) ∅ (fun _ => True)
      (fun _ s => ∃ platform,
        (lastText "platform" form.fields).bind Platform.parse = some platform ∧
          (s.diffs.read (p.appName,
            diffFileName p.fromVersion p.toVersion platform)).isSome = true) fun _ _ => True := by
  refine guards_bind (fun _ => stable_true) (guards_parked stable_true within_requireValid)
    fun _ => ?_
  refine guards_bind (fun _ => stable_true)
    (guards_parked stable_true within_requirePublisher) fun _ => ?_
  refine guards_bind (fun _ => stable_true) (guards_parked stable_true within_requireValid)
    fun _ => ?_
  refine guards_bind (fun _ => stable_true) (guards_parked stable_true within_requireValid)
    fun _ => ?_
  refine guards_bind (fun _ => stable_true) (guards_parked stable_true within_check)
    fun fromVersion => ?_
  refine guards_bind (fun _ => stable_true) (guards_parked stable_true within_check) fun _ => ?_
  refine guards_bind (fun _ => stable_true) (guards_parked stable_true within_createDirs)
    fun _ => ?_
  refine guards_bind (fun _ _ _ _ h => h) (guards_collectFields guards_collectDiff form.fields
    [] 0 {} fun _ hx => nomatch hx) fun collected => ?_
  refine guards_of_fact fun hcollected => ?_
  refine guards_bind (fun _ => stable_true) (guards_parked stable_true within_check)
    fun streamed => ?_
  cases hchecked : checkDiff collected streamed.hash with
  | error err => exact guards_bail
  | ok checked =>
      obtain ⟨platform, checksum⟩ := checked
      have hplatform : (lastText "platform" form.fields).bind Platform.parse = some platform := by
        unfold checkDiff at hchecked
        obtain ⟨platform', hparse, hchecked⟩ := Except.bind_eq_ok.mp hchecked
        obtain ⟨checksum', -, hchecked⟩ := Except.bind_eq_ok.mp hchecked
        obtain ⟨rfl, -⟩ := Prod.mk.inj (Except.ok.inj hchecked)
        have hparsed := checkPlatform_ok hparse
        cases htext : collected.platform with
        | none =>
            rw [htext] at hparsed
            contradiction
        | some text =>
            rw [htext] at hparsed
            rw [show lastText "platform" form.fields = some text from hcollected text htext]
            exact hparsed
      have hstored : Stable (Rely ∅) fun s : Store => (s.diffs.read (p.appName,
          diffFileName p.fromVersion p.toVersion platform)).isSome = true :=
        stable_of_grows fun s s' hgrows h => hgrows.diffs _ h
      refine guards_bind (fun _ => hstored) ?_ fun _ =>
        guards_still fun s _ h => ⟨rfl, platform, hplatform, h⟩
      refine guards_bind (M := fun saved s => saved = .ok () → (s.diffs.read (p.appName,
          diffFileName p.fromVersion p.toVersion platform)).isSome = true)
        (fun saved s s' hR h hsaved => hstored s s' hR (h hsaved)) ?_ fun saved => ?_
      · exact guards_attempt (guards_adapt (guards_mono (fun _ h => h) (fun _ _ h _ => h)
          (fun _ _ _ h => nomatch h) guards_saveDiffFromTemp))
      cases saved with
      | error err =>
          exact guards_mono (fun _ _ => trivial) (fun _ _ h => h) (fun _ _ h => h) guards_bail
      | ok u =>
          exact guards_adapt (guards_mono (fun _ h => ⟨trivial, h rfl⟩) (fun _ _ h => h.2)
            (fun _ _ _ => trivial) (guards_frame hstored antitone_rely guards_addDiffToManifest))

/-- What an answer points to can be downloaded, if it names a checksum. -/
def LeadsToFiles (s : Store) (resp : UpdateCheckResponse) : Prop :=
  resp.updateAvailable = true → resp.checksum.isSome = true → ∃ p platform,
    resp.fullBinaryUrl = some (binaryUrl p platform) ∧ resp.signatureUrl = some (signatureUrl p) ∧
      Downloadable s.toArtifacts p platform

/-- What an update check offers leads to files, and goes on to do so. -/
theorem guards_checkUpdate {appName : String} {query : UpdateCheckQuery} :
    (Threaded.checkUpdate X appName query).Guards Rely (Backed X) ∅ (fun _ => True)
      (fun resp s => LeadsToFiles s resp) fun _ _ => True := by
  have hnone : ∀ {resp : UpdateCheckResponse}, resp.updateAvailable = false →
      (whole (pure resp) : HandlerThread UpdateCheckResponse).Guards Rely (Backed X) ∅
        (fun _ => True) (fun resp s => LeadsToFiles s resp) fun _ _ => True :=
    fun hresp => guards_still fun s _ _ => ⟨rfl, fun havailable => by
      rw [hresp] at havailable
      contradiction⟩
  refine guards_bind (fun _ => stable_true) (guards_parked stable_true within_requireValid)
    fun _ => ?_
  refine guards_bind (fun _ => stable_true) (guards_parked stable_true within_check)
    fun platform => ?_
  refine guards_bind (fun _ => stable_true) (guards_parked stable_true within_check)
    fun current => ?_
  refine guards_bind (fun _ => stable_true) (guards_parked stable_true within_get) fun s₀ => ?_
  refine guards_bind (fun _ => stable_true) (guards_parked stable_true within_check)
    fun catalog => ?_
  dsimp only
  split
  · exact hnone rfl
  · split
    · exact hnone rfl
    · next info _ =>
        refine guards_bind (fun _ => stable_true) (guards_parked stable_true within_get)
          fun s₁ => ?_
        split
        · next refusal hrefusal =>
            refine hnone ?_
            unfold rolloutRefusal at hrefusal
            split at hrefusal
            · split at hrefusal
              · rw [← Option.some.inj hrefusal]
              · contradiction
            · contradiction
        · -- what is listed when the manifest is read is there
          refine guards_bind (M := fun (read : Store) s => ∀ p platform, read.Lists p platform →
              Downloadable s.toArtifacts p platform)
            (fun read => stable_of_grows fun s s' hgrows h p platform hlists =>
              (h p platform hlists).grow hgrows)
            (guards_get fun s hs _ => hs.manifests) fun s₂ => ?_
          refine guards_still fun s _ h => ⟨rfl, fun _ hchecksum => ⟨_, platform, rfl, rfl,
            h _ platform ?_⟩⟩
          have hartifact : ((s₂.artifactAt ⟨appName, X.semver.display catalog.latestVersion⟩
              platform).map (·.checksum)).isSome = true := hchecksum
          rwa [Option.isSome_map] at hartifact

end Requests

end Deltaship
