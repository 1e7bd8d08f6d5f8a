import Deltaship.Server.Traces

/-!
# Deltaship.Server.DiffTraces

What a diff upload leaves behind when it fails, and what both kinds of uploads do.

The form is read as that of a publication is.  Behind it there is one step that changes
what clients are sent, `save_diff`; the manifest is replaced last, or not at all.
-/

namespace Deltaship

open Prog

/-! ## the form of a diff upload -/

section DiffForm

variable (X : ServerCrates) (e : ServerEnv) (p : DiffPath)

/-- A field of a diff form can be read. -/
def readsDiff (k : Nat) (field : Field) : Bool :=
  match field.name with
  | "diff" => decide (Streams e k maxDiffFieldSize field)
  | "platform" => (readFieldTextLimited field maxTextFieldSize).toBool
  | "checksum" => (readFieldTextLimited field maxTextFieldSize).toBool
  | "algorithm" =>
      (readFieldTextLimited field maxTextFieldSize).toOption.any
        ["bsdiff", "courgette", "xdelta3"].contains
  | _ => true

/-- What a field adds to a diff form. -/
def addToDiff (k : Nat) (field : Field) (acc : DiffForm) : DiffForm :=
  match field.name with
  | "diff" =>
      { acc with diff := some ⟨uploadPath e (.diffs p.appName) k field,
          X.crypto.blake3 field.content, field.content.length⟩ }
  | "platform" => { acc with platform := field.text }
  | "checksum" => { acc with checksum := field.text }
  | "algorithm" => { acc with algorithm := field.text.getD acc.algorithm }
  | _ => acc

variable {X e p}

/-- A field of a diff form is read or refused, and the diff is streamed. -/
theorem readsField_collectDiff :
    ReadsField e (.diffs p.appName) "diff" (readsDiff e) (addToDiff X e p) (collectDiff X e p) := by
  intro k field acc s
  have hsame : Uploaded ∅ ∅ s s := Dressing.uploaded ⟨rfl, rfl⟩
  unfold collectDiff readsDiff addToDiff
  split
  · next hname =>
      simp only [hname, wp_bind]
      refine wp_mono (fun streamed s' h => ?_) (fun _ s' h => ?_) wp_streamFieldToTemp_uploads
      · obtain ⟨hstreams, rfl, huploads⟩ := h
        exact ⟨decide_eq_true hstreams, rfl, by simpa using huploads⟩
      · exact ⟨decide_eq_false h.1, by simpa [and_assoc, and_left_comm] using h.2⟩
  · next hname =>
      simp only [hname]
      refine wp_mono (fun a s' h => ⟨h.1, h.2.1, ?_⟩) (fun _ s' h => ⟨h.1, ?_⟩)
        (wp_readText (fun text => { acc with platform := text }) fun _ => rfl)
      · simpa [h.2.2] using hsame
      · simpa [h.2] using hsame
  · next hname =>
      simp only [hname]
      refine wp_mono (fun a s' h => ⟨h.1, h.2.1, ?_⟩) (fun _ s' h => ⟨h.1, ?_⟩)
        (wp_readText (fun text => { acc with checksum := text }) fun _ => rfl)
      · simpa [h.2.2] using hsame
      · simpa [h.2] using hsame
  · next hname =>
      simp only [hname, wp_bind]
      refine wp_check_cases (fun text hread => ?_) fun err hread => ⟨by rw [hread]; rfl, ?_⟩
      · rw [hread, text_of_readFieldTextLimited hread]
        split
        · next hknown => exact ⟨hknown, rfl, by simpa using hsame⟩
        · next hknown => exact ⟨eq_false_of_ne_true hknown, by simpa using hsame⟩
      · simpa using hsame
  · next hdiff hplatform hchecksum halgorithm =>
      have hne : field.name ≠ "diff" := hdiff
      exact ⟨by simp, by simp, by simpa [hne] using hsame⟩

/-- The diff that was collected is the last one of the form. -/
def LastDiff (X : ServerCrates) (seen : List Field) (acc : DiffForm) (s : Store) : Prop :=
  ∀ streamed, acc.diff = some streamed →
    ∃ field, lastField "diff" seen = some field ∧ Staged X field streamed s

/-- What is collected is the last field of each name. -/
theorem wp_collectDiff_last (k : Nat) (seen : List Field) (field : Field) (acc : DiffForm)
    (s : Store) (hacc : LastDiff X seen acc s) :
    wp (collectDiff X e p k field acc)
      (fun acc' s' => Staging s s' ∧ LastDiff X (seen ++ [field]) acc' s')
      (fun _ s' => Staging s s') s := by
  have hother : field.name ≠ "diff" → LastDiff X (seen ++ [field]) acc s := fun hne => by
    unfold LastDiff
    rwa [lastField_append_of_ne hne]
  unfold collectDiff
  split
  · next hname =>
      rw [wp_bind]
      refine wp_mono (fun streamed s' h => wp_pure.mpr ⟨h.1, fun x hx => ?_⟩) (fun _ _ h => h)
        wp_streamFieldToTemp
      obtain rfl := Option.some.inj hx
      exact ⟨field, lastField_append_of_eq hname, h.2⟩
  · next hname =>
      rw [wp_bind]
      exact wp_check (fun _ _ => ⟨.refl s, hother (by simp [hname])⟩) fun _ => .refl s
  · next hname =>
      rw [wp_bind]
      exact wp_check (fun _ _ => ⟨.refl s, hother (by simp [hname])⟩) fun _ => .refl s
  · next hname =>
      rw [wp_bind]
      refine wp_check (fun algorithm _ => ?_) fun _ => .refl s
      split
      · exact ⟨.refl s, hother (by simp [hname])⟩
      · exact Staging.refl s
  · next hdiff _ _ _ => exact ⟨.refl s, hother hdiff⟩

end DiffForm

/-! ## what a diff upload has stored when it fails -/

section DiffStages

variable {e : ServerEnv} {s : Store}

/-- A diff upload that fails in its last part has moved its temporary file or tried to remove
it, and leaves the diff that it has moved. -/
theorem wp_storeDiff_partly {p : DiffPath} {fromVersion : Version} {streamed : StreamedField}
    {platform : Platform} {checksum algorithm : String} {b : Bytes}
    (htemp : s.uploads.read streamed.tempPath = some b) :
    wp (storeDiff e p fromVersion streamed platform checksum algorithm) (fun _ _ => True)
      (fun _ s' => (¬ SavesDiff e ∧ Uploaded ∅ {t | Cleans e ∧ t = streamed.tempPath} s s') ∨
        (SavesDiff e ∧ s'.toArtifacts = { s.toArtifacts with
            diffs := s.diffs.write (p.appName, diffFileName p.fromVersion p.toVersion platform) b } ∧
          s'.uploads = s.uploads.remove streamed.tempPath)) s := by
  unfold storeDiff
  rw [wp_bind, wp_attempt, wp_adapt]
  refine wp_saveDiffFromTemp htemp (fun hsaves s₁ h₁ hu₁ => ?_) fun hsaves s₁ h₁ => ?_
  · rw [wp_adapt]
    refine wp_addDiffToManifest (fun _ _ _ _ _ _ => trivial) fun _ s' h => .inr ⟨hsaves, ?_, ?_⟩
    · rw [h.artifacts, h₁]
    · rw [h.uploads, hu₁]
  · exact wp_mono (fun _ _ h => h) (fun _ s' h => .inl ⟨hsaves, .of_dressing h₁ h⟩) wp_bail_uploads

end DiffStages

/-! ## a failed diff upload -/

/- The upload of a diff streams the form into a temporary file, checks what it has collected, and
then stores the diff, the directory and the manifest. Each way to fail is a case of `DiffFailed`,
with the store it leaves. -/

/-- The diffs and the manifests are byte for byte the same. -/
structure KeptDiffs (a a' : Artifacts) : Prop where
  diffs : ∀ k, a'.diffs.read k = a.diffs.read k
  manifests : ∀ p, a'.manifests.read p = a.manifests.read p

/-- Where nothing was done, every diff is kept. -/
theorem KeptDiffs.refl (a : Artifacts) : KeptDiffs a a := ⟨fun _ => rfl, fun _ => rfl⟩

/-- A write keeps the diffs exactly if it writes what was there, or to a new name. -/
theorem keptDiffs_write_iff {a : Artifacts} {k : String × String} {b : Bytes} :
    KeptDiffs a { a with diffs := a.diffs.write k b } ↔ a.diffs.read k = some b := by
  rw [← Files.read_write_eq_iff]
  exact ⟨fun h => h.diffs, fun h => ⟨h, fun _ => rfl⟩⟩

section DiffUpload

variable (X : ServerCrates) (e : ServerEnv) (publisher : Publisher) (p : DiffPath) (form : Form)

/-- The form of the request is read. -/
structure AdmitsDiff : Prop where
  nameOk : validateName p.appName = .ok ()
  allowed : publisher.canPublish p.appName = true
  fromOk : validateVersion p.fromVersion = .ok ()
  toOk : validateVersion p.toVersion = .ok ()
  parsesFrom : (X.semver.parse p.fromVersion).isSome = true
  parsesTo : (X.semver.parse p.toVersion).isSome = true
  dir : e.faults (.diffsDir 0) = none

/-- What is collected from a form that is read to its end. -/
def collectedDiff : DiffForm := addFields (addToDiff X e p) 0 form.fields {}

/-- The temporary file of the diff that is collected. -/
def diffTemp : Option UploadPath := (collectedDiff X e p form).diff.map (·.tempPath)

/-- A check fails, or the diff cannot be moved to its place. -/
def RefusesDiff : Prop :=
  ∀ streamed, (collectedDiff X e p form).diff = some streamed →
    (checkDiff (collectedDiff X e p form) streamed.hash).toBool = false ∨ ¬ SavesDiff e

/-- The form is stored as this diff for a platform, at least in part. -/
structure StoresDiff (platform : Platform) (b : Bytes) : Prop where
  read : readForm (readsDiff e) 0 form.fields = (form.fields, none)
  whole : form.broken = false
  saves : SavesDiff e
  content : (lastField "diff" form.fields).map Field.content = some b
  checked : ∃ streamed checksum, (collectedDiff X e p form).diff = some streamed ∧
    checkDiff (collectedDiff X e p form) streamed.hash = .ok (platform, checksum)

/-- A failing diff upload has left nothing. -/
structure DiffTraceless (s s' : Store) : Prop where
  uploads : NoUploadLeft s s'
  kept : KeptDiffs s.toArtifacts s'.toArtifacts

/-- Each temporary file that the request creates was there before, or it is the one that is
removed or moved; and the diff that it stores was there before. -/
structure DiffClean (s : Store) : Prop where
  reading : FormClean e (.diffs p.appName) "diff" (readsDiff e) form (diffTemp X e p form)
    (RefusesDiff X e p form) s
  moved : ∀ platform b, StoresDiff X e p form platform b → ∀ u ∈ diffTemp X e p form,
    ∀ t ∈ uploadPaths e (.diffs p.appName) "diff" 0 form.fields \ {u}, s.HasUpload t
  stored : ∀ platform b, StoresDiff X e p form platform b →
    s.diffs.read (p.appName, diffFileName p.fromVersion p.toVersion platform) = some b

/-- The form is read to its end, and has a diff: the last field of this name. -/
structure DiffCollected (s s' : Store) (streamed : StreamedField) (field : Field) : Prop where
  read : readForm (readsDiff e) 0 form.fields = (form.fields, none)
  whole : form.broken = false
  diff : (collectedDiff X e p form).diff = some streamed
  last : lastField "diff" form.fields = some field
  staged : Staged X field streamed s'
  uploads : Uploaded (uploadPaths e (.diffs p.appName) "diff" 0 form.fields) ∅ s s'

/-- How a diff upload fails, and what it leaves. -/
inductive DiffFailed (s s' : Store) : Prop where
  | turnedAway (hadmits : ¬ AdmitsDiff X e publisher p) (h : Dressing s s')
  | form (hadmits : AdmitsDiff X e publisher p)
      (h : FormFailed e (.diffs p.appName) "diff" (readsDiff e) form (diffTemp X e p form)
        (RefusesDiff X e p form) s s')
  | stored {platform : Platform} {b : Bytes} {u : UploadPath} (hadmits : AdmitsDiff X e publisher p)
      (hstores : StoresDiff X e p form platform b) (htemp : diffTemp X e p form = some u)
      (h : s'.toArtifacts = { s.toArtifacts with
        diffs := s.diffs.write (p.appName, diffFileName p.fromVersion p.toVersion platform) b })
      (huploads : ∀ t, s'.HasUpload t ↔
        (s.HasUpload t ∨ t ∈ uploadPaths e (.diffs p.appName) "diff" 0 form.fields) ∧
          t ∉ ({u} : Set UploadPath))

variable {X e publisher p form} {s s' s₁ s₂ : Store} {streamed : StreamedField} {field : Field}

/-- A form that is turned down behind its reading loses the temporary file of its diff, if
that can be removed. -/
theorem DiffCollected.failed (h : DiffCollected X e p form s s₂ streamed field)
    (hadmits : AdmitsDiff X e publisher p)
    (hwhy : (checkDiff (collectedDiff X e p form) streamed.hash).toBool = false ∨ ¬ SavesDiff e)
    (hbail : Uploaded ∅ {t | Cleans e ∧ t = streamed.tempPath} s₂ s') :
    DiffFailed X e publisher p form s s' := by
  have htemp : diffTemp X e p form = some streamed.tempPath := by
    rw [diffTemp, h.diff]
    rfl
  refine .form hadmits (.refused h.read h.whole htemp (fun x hx => ?_)
    (h.uploads.andRemoved hbail))
  rw [← Option.some.inj (h.diff.symm.trans hx)]
  exact hwhy

/-- A form that passes the checks is stored as a diff, or the storing fails in between. -/
theorem DiffCollected.wp_store (h : DiffCollected X e p form s s₂ streamed field)
    (hadmits : AdmitsDiff X e publisher p) {fromVersion : Version} {platform : Platform}
    {checksum : String}
    (hcheck : checkDiff (collectedDiff X e p form) streamed.hash = .ok (platform, checksum)) :
    wp (storeDiff e p fromVersion streamed platform checksum (collectedDiff X e p form).algorithm)
      (fun _ _ => True) (fun _ s' => DiffFailed X e publisher p form s s') s₂ := by
  have htemp : diffTemp X e p form = some streamed.tempPath := by
    rw [diffTemp, h.diff]
    rfl
  refine wp_mono (fun _ _ _ => trivial) (fun _ s' h' => ?_) (wp_storeDiff_partly h.staged.stored)
  rcases h' with ⟨hsaves, hbail⟩ | ⟨hsaves, hpartly, hmoved⟩
  · exact h.failed hadmits (.inr hsaves) hbail
  · have hstores : StoresDiff X e p form platform field.content :=
      ⟨h.read, h.whole, hsaves, by rw [h.last]; rfl, streamed, checksum, h.diff, hcheck⟩
    refine .stored hadmits hstores htemp (by rw [hpartly, h.uploads.artifacts]) fun t => ?_
    rw [hasUpload_of_removed hmoved, h.uploads.uploads t]
    simp

/-- What the reading of the form of a diff upload leaves. -/
theorem wp_collectDiff_cases (hstart : Dressing s s₁) :
    wp (collectFields (collectDiff X e p) form.broken form.fields 0 {})
      (fun collected s₂ => collected = collectedDiff X e p form ∧
        (∀ streamed, collected.diff = some streamed →
          ∃ field, DiffCollected X e p form s s₂ streamed field) ∧
        (collected.diff = none → FormFailed e (.diffs p.appName) "diff" (readsDiff e) form
          (diffTemp X e p form) (RefusesDiff X e p form) s s₂))
      (fun _ s₂ => FormFailed e (.diffs p.appName) "diff" (readsDiff e) form
        (diffTemp X e p form) (RefusesDiff X e p form) s s₂) s₁ := by
  have hempty : LastDiff X [] {} s₁ := fun _ h => by contradiction
  refine wp_mono (fun collected s₂ h₂ => ?_) (fun _ s₂ h₂ => ?_)
    (wp_and (wp_collectFields wp_collectDiff_last form.fields [] 0 {} hempty)
      (wp_collectFields_uploads readsField_collectDiff form.fields 0 {}))
  · obtain ⟨⟨-, hcollected⟩, hread, hbroken, rfl, huploads⟩ := h₂
    rw [List.nil_append] at hcollected
    have huploads := huploads.of_dressing hstart
    refine ⟨rfl, fun streamed hdiff => ?_, fun hnone => .cut hread (.inr ?_) huploads⟩
    · obtain ⟨field, hfield, hstaged⟩ := hcollected _ hdiff
      exact ⟨field, hread, hbroken, hdiff, hfield, hstaged, huploads⟩
    · exact congrArg (Option.map StreamedField.tempPath) hnone
  · rcases h₂.2 with ⟨seen, field, hread, h⟩ | ⟨hread, hbroken, h⟩
    · rw [Nat.zero_add] at h
      exact .stopped hread (.of_dressing hstart h)
    · exact .cut hread (.inl hbroken) (.of_dressing hstart h)

/-- How a diff upload can fail. -/
theorem wp_uploadDiff_failed :
    wp (uploadDiff X e publisher p form) (fun _ _ => True)
      (fun _ s' => DiffFailed X e publisher p form s s') s := by
  have haway : ¬ AdmitsDiff X e publisher p → DiffFailed X e publisher p form s s :=
    fun hadmits => .turnedAway hadmits ⟨rfl, rfl⟩
  unfold uploadDiff
  rw [wp_bind]
  refine wp_requireValid_cases (fun hname => ?_) fun hname _ => haway fun h => hname h.nameOk
  rw [wp_bind]
  refine wp_requirePublisher_cases (fun hallowed => ?_) fun hallowed _ =>
    haway fun h => hallowed h.allowed
  rw [wp_bind]
  refine wp_requireValid_cases (fun hfrom => ?_) fun hfrom _ => haway fun h => hfrom h.fromOk
  rw [wp_bind]
  refine wp_requireValid_cases (fun hto => ?_) fun hto _ => haway fun h => hto h.toOk
  rw [wp_bind]
  refine wp_check_cases (fun fromVersion hparse => ?_) fun _ hparse => haway fun h => ?_
  · rw [wp_bind]
    refine wp_check_cases (fun toVersion hparseTo => ?_) fun _ hparseTo => haway fun h => ?_
    · rw [wp_bind, wp_adapt]
      refine wp_createDirs_cases (fun hdir s₁ h₁ => ?_) fun hdir s₁ h₁ =>
        .turnedAway (fun h => hdir h.dir) h₁
      have hadmits : AdmitsDiff X e publisher p :=
        ⟨hname, hallowed, hfrom, hto,
          Option.isSome_iff_exists.mpr ⟨_, Except.ofOption_eq_ok.mp hparse⟩,
          Option.isSome_iff_exists.mpr ⟨_, Except.ofOption_eq_ok.mp hparseTo⟩, hdir⟩
      rw [wp_bind]
      refine wp_mono (fun collected s₂ h₂ => ?_) (fun _ s₂ h₂ => .form hadmits h₂)
        (wp_collectDiff_cases h₁)
      obtain ⟨rfl, hsome, hnone⟩ := h₂
      rw [wp_bind]
      cases hdiff : (collectedDiff X e p form).diff with
      | none => exact .form hadmits (hnone hdiff)
      | some streamed =>
          obtain ⟨field, h⟩ := hsome streamed hdiff
          rw [Except.ofOption, wp_ofExcept]
          dsimp only
          split
          · next err hcheck =>
              exact wp_mono (fun _ _ h => h)
                (fun _ _ hbail => h.failed hadmits (.inl (by rw [hcheck]; rfl)) hbail)
                wp_bail_uploads
          · next platform checksum hcheck =>
              rw [wp_bind]
              exact wp_mono (fun _ _ h => h) (fun _ _ h => h) (h.wp_store hadmits hcheck)
    · obtain ⟨version, hversion⟩ := Option.isSome_iff_exists.mp h.parsesTo
      rw [hversion] at hparseTo
      contradiction
  · obtain ⟨version, hversion⟩ := Option.isSome_iff_exists.mp h.parsesFrom
    rw [hversion] at hparse
    contradiction

/-- A form that gives a diff is not refused. -/
theorem StoresDiff.not_refuses {platform : Platform} {b : Bytes}
    (h : StoresDiff X e p form platform b) : ¬ RefusesDiff X e p form := by
  obtain ⟨streamed, checksum, hdiff, hchecked⟩ := h.checked
  intro hrefuses
  have hwhy := hrefuses streamed hdiff
  simp [hchecked, h.saves, Except.toBool] at hwhy

theorem StoresDiff.exists_temp {platform : Platform} {b : Bytes}
    (h : StoresDiff X e p form platform b) : ∃ u, diffTemp X e p form = some u := by
  obtain ⟨streamed, checksum, hdiff, -⟩ := h.checked
  exact ⟨streamed.tempPath, by rw [diffTemp, hdiff]; rfl⟩

/-- A form is stored as one diff only. -/
theorem StoresDiff.unique {platform platform' : Platform} {b b' : Bytes}
    (h : StoresDiff X e p form platform b) (h' : StoresDiff X e p form platform' b') :
    platform' = platform ∧ b' = b := by
  obtain ⟨streamed, checksum, hdiff, hchecked⟩ := h.checked
  obtain ⟨streamed', checksum', hdiff', hchecked'⟩ := h'.checked
  obtain rfl := Option.some.inj (hdiff.symm.trans hdiff')
  have hsame := Except.ok.inj (hchecked'.symm.trans hchecked)
  exact ⟨congrArg Prod.fst hsame, Option.some.inj (h'.content.symm.trans h.content)⟩

/-- A diff upload that fails leaves nothing if and only if it is clean, or turned away. -/
theorem diffTraceless_iff (h : DiffFailed X e publisher p form s s') :
    DiffTraceless s s' ↔
      (AdmitsDiff X e publisher p → DiffClean X e p form s) := by
  cases h with
  | turnedAway hadmits h =>
      refine iff_of_true ⟨fun t => ?_, ?_⟩ fun h => absurd h hadmits
      · simpa using ((h.uploaded).uploads t).mp
      · rw [h.artifacts]
        exact .refl _
  | form hadmits h =>
      have hkept : KeptDiffs s.toArtifacts s'.toArtifacts := by
        rw [h.artifacts]
        exact .refl _
      have hnone : ∀ platform b, ¬ StoresDiff X e p form platform b := fun platform b hstores => by
        obtain ⟨u, hu⟩ := hstores.exists_temp
        exact h.elim hstores.read hstores.whole hu hstores.not_refuses
      constructor
      · intro htraceless _
        exact ⟨h.noUploadLeft_iff.mp htraceless.uploads,
          fun platform b hstores => absurd hstores (hnone platform b),
          fun platform b hstores => absurd hstores (hnone platform b)⟩
      · intro hclean
        exact ⟨h.noUploadLeft_iff.mpr (hclean hadmits).reading, hkept⟩
  | @stored platform b u hadmits hstores htemp h huploads =>
      have hkept : KeptDiffs s.toArtifacts s'.toArtifacts ↔
          s.diffs.read (p.appName, diffFileName p.fromVersion p.toVersion platform) = some b := by
        rw [h]
        exact keptDiffs_write_iff
      constructor
      · intro htraceless _
        refine ⟨formClean_of_read hstores.read hstores.whole htemp hstores.not_refuses,
          fun _ _ _ u' hu => ?_, fun platform' b' hstores' => ?_⟩
        · rw [← Option.some.inj (htemp.symm.trans hu)]
          exact (noUploadLeft_iff huploads).mp htraceless.uploads
        · obtain ⟨rfl, rfl⟩ := hstores.unique hstores'
          exact hkept.mp htraceless.kept
      · intro hclean
        exact ⟨(noUploadLeft_iff huploads).mpr ((hclean hadmits).moved _ _ hstores _ htemp),
          hkept.mpr ((hclean hadmits).stored _ _ hstores)⟩

end DiffUpload

/-! ## failed requests -/

/-- A publication that fails leaves no trace if and only if it is turned away before its form,
or it is clean; the same for a diff upload. -/
theorem failed_traceless_iff (X : ServerCrates) (e : ServerEnv) (publisher : Publisher)
    (form : Form) (s : Store) :
    (∀ p, ¬ (Request.publish e publisher p form).Succeeds X s →
      (PublishTraceless s ((Request.publish e publisher p form).next X s) ↔
        (AdmitsPublish X e publisher p → PublishClean X e publisher p form s))) ∧
    ∀ p, ¬ (Request.uploadDiff e publisher p form).Succeeds X s →
      (DiffTraceless s ((Request.uploadDiff e publisher p form).next X s) ↔
        (AdmitsDiff X e publisher p → DiffClean X e p form s)) := by
  constructor
  · intro p hfails
    exact publishTraceless_iff (Request.failed_of_wp wp_publishVersion_cases hfails)
  · intro p hfails
    exact diffTraceless_iff (Request.failed_of_wp wp_uploadDiff_failed hfails)

/-! ### fields behind a streamed one -/

/-- A form with a streamed field, and then a platform that is not a text. -/
def sampleCutForm (name : String) : Form :=
  ⟨[⟨name, [[1]], false⟩, ⟨"platform", [[255]], false⟩], false⟩

/-- The host on which no signature can be written. -/
def sampleFullDisk : ServerEnv :=
  { sampleServerEnv with faults := fun site => if site = .saveSignature then some 0 else none }

/-- Both kinds of requests fail in the middle of their upload, without a trace. -/
theorem failed_traceless_iff_sample :
    (¬ (Request.publish sampleServerEnv samplePublisher ⟨"app", "1.0.0"⟩
        (sampleCutForm "binary")).Succeeds sampleServer Store.empty ∧
      (PublishTraceless Store.empty
          ((Request.publish sampleServerEnv samplePublisher ⟨"app", "1.0.0"⟩
            (sampleCutForm "binary")).next sampleServer Store.empty) ↔
        (AdmitsPublish sampleServer sampleServerEnv samplePublisher ⟨"app", "1.0.0"⟩ →
          PublishClean sampleServer sampleServerEnv samplePublisher ⟨"app", "1.0.0"⟩
            (sampleCutForm "binary") Store.empty))) ∧
    ¬ (Request.uploadDiff sampleServerEnv samplePublisher ⟨"app", "1.0.0", "1.0.0"⟩
        (sampleCutForm "diff")).Succeeds sampleServer Store.empty ∧
      (DiffTraceless Store.empty
          ((Request.uploadDiff sampleServerEnv samplePublisher ⟨"app", "1.0.0", "1.0.0"⟩
            (sampleCutForm "diff")).next sampleServer Store.empty) ↔
        (AdmitsDiff sampleServer sampleServerEnv samplePublisher ⟨"app", "1.0.0", "1.0.0"⟩ →
          DiffClean sampleServer sampleServerEnv ⟨"app", "1.0.0", "1.0.0"⟩
            (sampleCutForm "diff") Store.empty)) := by
  have hpublish : ¬ (Request.publish sampleServerEnv samplePublisher ⟨"app", "1.0.0"⟩
      (sampleCutForm "binary")).Succeeds sampleServer Store.empty := by
    decide
  have hdiff : ¬ (Request.uploadDiff sampleServerEnv samplePublisher ⟨"app", "1.0.0", "1.0.0"⟩
      (sampleCutForm "diff")).Succeeds sampleServer Store.empty := by
    decide
  exact ⟨⟨hpublish, (failed_traceless_iff sampleServer sampleServerEnv samplePublisher
      (sampleCutForm "binary") Store.empty).1 _ hpublish⟩,
    hdiff, (failed_traceless_iff sampleServer sampleServerEnv samplePublisher
      (sampleCutForm "diff") Store.empty).2 _ hdiff⟩

/-- The temporary file of a complete field is left if a later field cannot be read; and the
binary is left if the signature cannot be written. -/
theorem failed_traces :
    (¬ (Request.publish sampleServerEnv samplePublisher ⟨"app", "1.0.0"⟩
        (sampleCutForm "binary")).Succeeds sampleServer Store.empty ∧
      ¬ PublishTraceless Store.empty
          ((Request.publish sampleServerEnv samplePublisher ⟨"app", "1.0.0"⟩
            (sampleCutForm "binary")).next sampleServer Store.empty)) ∧
    (¬ (Request.uploadDiff sampleServerEnv samplePublisher ⟨"app", "1.0.0", "1.0.0"⟩
        (sampleCutForm "diff")).Succeeds sampleServer Store.empty ∧
      ¬ DiffTraceless Store.empty
          ((Request.uploadDiff sampleServerEnv samplePublisher ⟨"app", "1.0.0", "1.0.0"⟩
            (sampleCutForm "diff")).next sampleServer Store.empty)) ∧
    ¬ (Request.publish sampleFullDisk samplePublisher ⟨"app", "1.0.0"⟩
        (sampleForm .linuxX86_64 [1] sampleSig1)).Succeeds sampleServer Store.empty ∧
      ¬ PublishTraceless Store.empty
          ((Request.publish sampleFullDisk samplePublisher ⟨"app", "1.0.0"⟩
            (sampleForm .linuxX86_64 [1] sampleSig1)).next sampleServer Store.empty) := by
  have hleft : ∀ {t : UploadPath} {s' : Store}, s'.HasUpload t → ¬ NoUploadLeft Store.empty s' := by
    intro t s' hthere hleft
    have hbefore := hleft t hthere
    contradiction
  have hkept : ∀ {k : VersionPath × Platform} {b : Bytes} {s' : Store},
      s'.binaries.read k = some b → ¬ PublishTraceless Store.empty s' := by
    intro k b s' hread htraceless
    have hbefore := htraceless.kept.binaries k
    rw [hread] at hbefore
    contradiction
  have hbinary : ((Request.publish sampleFullDisk samplePublisher ⟨"app", "1.0.0"⟩
        (sampleForm .linuxX86_64 [1] sampleSig1)).run sampleServer Store.empty).1 = false ∧
      ((Request.publish sampleFullDisk samplePublisher ⟨"app", "1.0.0"⟩
        (sampleForm .linuxX86_64 [1] sampleSig1)).next sampleServer Store.empty).binaries.read
          (⟨"app", "1.0.0"⟩, .linuxX86_64) = some [1] := by
    decide +kernel
  refine ⟨⟨by decide, fun h => ?_⟩, ⟨by decide, fun h => ?_⟩,
    fun h => ?_, fun h => ?_⟩
  · refine hleft (t := ⟨.version ⟨"app", "1.0.0"⟩, "binary", (0, 0)⟩) ?_ h.uploads
    unfold Store.HasUpload
    decide
  · refine hleft (t := ⟨.diffs "app", "diff", (0, 0)⟩) ?_ h.uploads
    unfold Store.HasUpload
    decide
  · rw [Request.Succeeds, hbinary.1] at h
    exact Bool.noConfusion h
  · exact hkept hbinary.2 h

end Deltaship
