import Deltaship.Server.Stages

/-!
# Deltaship.Server.Effects

What each request does to the store, whatever fails.

A request that publishes streams its form first, which leaves nothing but
temporary files and directories (`Staging`), and then stores what it checked.  A
request that succeeds makes the change of `Deltaship.Server.Artifacts`; one that
fails leaves the catalogs and the rollouts as they read (`SameAnswers`), and the
markers of all versions but the one it deletes.
-/

namespace Deltaship

open Prog

/-! ## frames -/

/-- The catalogs and the rollouts read the same, and the same versions are
marked as deleted. -/
structure SameAnswers (a a' : Artifacts) : Prop where
  catalog : ∀ appName, a'.getAppCatalog appName = a.getAppCatalog appName
  rollout : ∀ p, a'.getRolloutConfig p = a.getRolloutConfig p
  deleted : a'.deleted = a.deleted

namespace SameAnswers

variable {a a' a'' : Artifacts}

/-- Where nothing was done, the answers are the same. -/
theorem refl (a : Artifacts) : SameAnswers a a := ⟨fun _ => rfl, fun _ => rfl, rfl⟩

/-- Twice the same answers are the same answers. -/
theorem trans (h : SameAnswers a a') (h' : SameAnswers a' a'') : SameAnswers a a'' :=
  ⟨fun n => (h'.catalog n).trans (h.catalog n), fun p => (h'.rollout p).trans (h.rollout p),
    h'.deleted.trans h.deleted⟩

/-- Answers depend on the catalogs, the rollouts and the markers. -/
theorem of_eq (hc : a'.catalogs = a.catalogs) (hr : a'.rollouts = a.rollouts)
    (hd : a'.deleted = a.deleted) : SameAnswers a a' :=
  ⟨fun n => by simp only [Artifacts.getAppCatalog, hc],
    fun p => by simp only [Artifacts.getRolloutConfig, hr], hd⟩

end SameAnswers

theorem Staging.sameAnswers {s s' : Store} (h : Staging s s') :
    SameAnswers s.toArtifacts s'.toArtifacts := by
  rw [show s'.toArtifacts = s.toArtifacts from h]
  exact .refl _

theorem Dressing.sameAnswers {s s' : Store} (h : Dressing s s') :
    SameAnswers s.toArtifacts s'.toArtifacts := Staging.sameAnswers h.artifacts

/-- A catalog that is only opened is read as before. -/
theorem SameAnswers.of_opened {a a' : Artifacts} {appName : String}
    (h : a' = { a with catalogs := openOrCreate a.catalogs appName }) : SameAnswers a a' := by
  subst h
  exact ⟨join_read_openOrCreate, fun _ => rfl, rfl⟩

/-! ## streaming a form -/

/- A form is read field by field. What is collected is what the last field of each name says, and a
file field is streamed into an upload of its own, together with its hash and its size. -/

section Streaming

variable {X : ServerCrates} {e : ServerEnv} {s : Store}

/-- Removing an upload is part of the staging. -/
theorem preserves_cleanupTemp {temp : UploadPath} : Preserves Staging (cleanup e temp) := by
  unfold cleanup
  split
  · exact fun _ => rfl
  · exact .pure

/-- A request that is refused has done some staging at most. -/
theorem wp_bail {α : Type} {temp : UploadPath} {err : HttpError} {Q : α → Store → Prop}
    {E : HttpError → Store → Prop} (hE : ∀ err s', Staging s s' → E err s') :
    wp (bail e temp err : Handler α) Q E s := by
  unfold bail
  exact preserves_cleanupTemp.wp_bind (fun _ s' h => hE _ s' h) fun err s' h => hE err s' h

/-- The upload holds the chunks that were streamed, one behind the other. -/
theorem wp_streamChunks {k maxSize : Nat} {temp : UploadPath} {field : Field}
    (chunks : List Bytes) (i : Nat) (written : Bytes)
    (hwritten : s.uploads.read temp = some written) :
    wp (streamChunks e k temp maxSize field chunks i written)
      (fun content s' => Staging s s' ∧ s'.uploads.read temp = some content ∧
        content = written ++ chunks.flatten)
      (fun _ s' => Staging s s') s := by
  induction chunks generalizing i written s with
  | nil =>
      unfold streamChunks
      split
      · exact wp_bail fun _ _ h => h
      · split
        · exact ⟨.refl s, hwritten, by simp⟩
        · exact wp_bail fun _ _ h => h
  | cons chunk rest ih =>
      unfold streamChunks
      split
      · exact wp_bail fun _ _ h => h
      · split
        · exact wp_bail fun _ _ h => h
        · rw [wp_bind, wp_modify]
          have hrest := ih (i + 1) (written ++ chunk)
            (s := { s with uploads := s.uploads.write temp (written ++ chunk) })
            (Files.read_write_self _ _ _)
          exact wp_mono (fun content s' h => ⟨h.1, h.2.1, by simpa using h.2.2⟩)
            (fun _ _ h => h) hrest

/-- A streamed field is in its temporary file. -/
structure Staged (X : ServerCrates) (field : Field) (streamed : StreamedField) (s : Store) :
    Prop where
  stored : s.uploads.read streamed.tempPath = some field.content
  hash : streamed.hash = X.crypto.blake3 field.content
  size : streamed.size = field.content.length

/-- The upload of a field holds its content, and its hash and size are those of the content. -/
theorem wp_streamFieldToTemp {dir : Dir} {k maxSize : Nat} {field : Field} :
    wp (streamFieldToTemp X e dir k maxSize field)
      (fun streamed s' => Staging s s' ∧ Staged X field streamed s')
      (fun _ s' => Staging s s') s := by
  unfold streamFieldToTemp
  simp only [wp_bind, wp_adapt]
  refine wp_createDirs (fun s₁ h₁ => ?_) fun _ h => h.artifacts
  refine wp_tryIo (fun _ => ?_) h₁.artifacts
  rw [wp_modify]
  refine wp_mono (fun content s' h => ?_) (fun _ _ h => Eq.trans h h₁.artifacts)
    (wp_streamChunks field.chunks 0 [] (Files.read_write_self _ _ _))
  obtain ⟨hstaging, hread, hcontent⟩ := h
  rw [List.nil_append] at hcontent
  exact ⟨Eq.trans hstaging h₁.artifacts, hcontent ▸ hread, hcontent ▸ rfl, hcontent ▸ rfl⟩

/-- What is kept field by field is kept by a form; `I` may mention the fields
that were read. -/
theorem wp_collectFields {α : Type} {one : Nat → Field → α → Handler α} {broken : Bool}
    {R : Store → Store → Prop} [IsPreorder Store R] {I : List Field → α → Store → Prop}
    (hone : ∀ k fields field acc s, I fields acc s → wp (one k field acc)
      (fun acc' s' => R s s' ∧ I (fields ++ [field]) acc' s') (fun _ s' => R s s') s)
    (fields seen : List Field) (k : Nat) (acc : α) (hI : I seen acc s) :
    wp (collectFields one broken fields k acc)
      (fun acc' s' => R s s' ∧ I (seen ++ fields) acc' s') (fun _ s' => R s s') s := by
  induction fields generalizing k acc s seen with
  | nil =>
      unfold collectFields
      split
      · exact refl_of R s
      · exact ⟨refl_of R s, by simpa using hI⟩
  | cons field rest ih =>
      unfold collectFields
      split
      · exact refl_of R s
      · rw [wp_bind]
        refine wp_mono (fun acc' s' h => ?_) (fun _ _ h => h) (hone k seen field acc s hI)
        refine wp_mono (fun _ _ h' => ⟨trans_of R h.1 h'.1, ?_⟩) (fun _ _ h' => trans_of R h.1 h')
          (ih (seen ++ [field]) (k + 1) acc' h.2)
        simpa using h'.2

/-- A text field that is read is the text of the field. -/
theorem text_of_readFieldTextLimited {field : Field} {maxSize : Nat} {text : String}
    (h : readFieldTextLimited field maxSize = .ok text) : field.text = some text := by
  unfold readFieldTextLimited at h
  obtain ⟨bytes, hbytes, h⟩ := Except.bind_eq_ok.mp h
  unfold readFieldBytesLimited at hbytes
  split at hbytes
  · contradiction
  · split at hbytes
    · contradiction
    · obtain rfl := Except.ok.inj hbytes
      unfold Field.text Field.content
      split at h
      · next htext => rw [htext, Except.ok.inj h]
      · contradiction

/-- What `publish_version` has collected is what the fields say. -/
structure CollectedPublish (X : ServerCrates) (seen : List Field) (acc : PublishForm) (s : Store) :
    Prop where
  binary : ∀ streamed, acc.binary = some streamed →
    ∃ field, lastField "binary" seen = some field ∧ Staged X field streamed s
  platform : ∀ text, acc.platform = some text → lastText "platform" seen = some text
  signature : ∀ data, acc.signature = some data →
    (lastText "signature" seen).bind (decodeSignature X) = some data

/-- What is collected comes from the fields seen so far, the last one of a name. -/
theorem wp_collectPublish {p : VersionPath} (k : Nat) (seen : List Field) (field : Field)
    (acc : PublishForm) (s : Store) (hacc : CollectedPublish X seen acc s) :
    wp (collectPublish X e p k field acc)
      (fun acc' s' => Staging s s' ∧ CollectedPublish X (seen ++ [field]) acc' s')
      (fun _ s' => Staging s s') s := by
  have hother : ∀ {name}, field.name ≠ name →
      lastField name (seen ++ [field]) = lastField name seen :=
    lastField_append_of_ne
  have htext : ∀ {name text}, field.name = name → field.text = some text →
      lastText name (seen ++ [field]) = some text := by
    intro name text hname htext
    simp [lastText, lastField_append_of_eq hname, htext]
  unfold collectPublish
  split
  · next hname =>
      rw [wp_bind]
      refine wp_mono (fun streamed s' h => wp_pure.mpr ⟨h.1, ?_, ?_, ?_⟩)
        (fun _ _ h => h) wp_streamFieldToTemp
      · intro x hx
        obtain rfl := Option.some.inj hx
        exact ⟨field, lastField_append_of_eq hname, h.2⟩
      · simpa [lastText, hother, hname] using hacc.platform
      · simpa [lastText, hother, hname] using hacc.signature
  · next hname =>
      rw [wp_bind]
      refine wp_check (fun text hread => wp_pure.mpr ⟨.refl s, ?_, ?_, ?_⟩) fun _ => .refl s
      · simpa [hother, hname] using hacc.binary
      · intro x hx
        obtain rfl := Option.some.inj hx
        exact htext hname (text_of_readFieldTextLimited hread)
      · simpa [lastText, hother, hname] using hacc.signature
  · next hname =>
      rw [wp_bind]
      refine wp_check (fun text hread => ?_) fun _ => .refl s
      generalize hdecoded : decodeSignature X text = decoded
      rw [wp_bind]
      refine wp_check (fun data hdata => wp_pure.mpr ⟨.refl s, ?_, ?_, ?_⟩) fun _ => .refl s
      · simpa [hother, hname] using hacc.binary
      · simpa [lastText, hother, hname] using hacc.platform
      · intro x hx
        obtain rfl := Option.some.inj hx
        rw [htext hname (text_of_readFieldTextLimited hread), Option.bind_some, hdecoded]
        exact Except.ofOption_eq_ok.mp hdata
  · next hname =>
      rw [wp_bind]
      refine wp_check (fun text hread => wp_pure.mpr ⟨.refl s, ?_, ?_, ?_⟩) fun _ => .refl s
      · simpa [hother, hname] using hacc.binary
      · simpa [lastText, hother, hname] using hacc.platform
      · simpa [lastText, hother, hname] using hacc.signature
  · next hname =>
      rw [wp_bind]
      refine wp_check (fun notes hread => wp_pure.mpr ⟨.refl s, ?_, ?_, ?_⟩) fun _ => .refl s
      all_goals split
      · simpa [hother, hname] using hacc.binary
      · simpa [hother, hname] using hacc.binary
      · simpa [lastText, hother, hname] using hacc.platform
      · simpa [lastText, hother, hname] using hacc.platform
      · simpa [lastText, hother, hname] using hacc.signature
      · simpa [lastText, hother, hname] using hacc.signature
  · next hbinary hplatform hsignature _ _ =>
      refine wp_pure.mpr ⟨.refl s, ?_, ?_, ?_⟩
      · simpa [hother hbinary] using hacc.binary
      · simpa [lastText, hother hplatform] using hacc.platform
      · simpa [lastText, hother hsignature] using hacc.signature

/-- What `upload_diff` has collected is what the fields say. -/
def CollectedDiff (X : ServerCrates) (acc : DiffForm) (s : Store) : Prop :=
  ∀ streamed, acc.diff = some streamed → ∃ field, Staged X field streamed s

/-- What is collected of a diff form is staged, with its hash. -/
theorem wp_collectDiff {p : DiffPath} (k : Nat) (field : Field) (acc : DiffForm) (s : Store)
    (hacc : CollectedDiff X acc s) :
    wp (collectDiff X e p k field acc) (fun acc' s' => Staging s s' ∧ CollectedDiff X acc' s')
      (fun _ s' => Staging s s') s := by
  unfold collectDiff
  split
  · rw [wp_bind]
    refine wp_mono (fun streamed s' h => ⟨h.1, ?_⟩) (fun _ _ h => h) wp_streamFieldToTemp
    intro x hx
    obtain rfl := Option.some.inj hx
    exact ⟨field, h.2⟩
  · rw [wp_bind]
    exact wp_check (fun _ _ => ⟨.refl s, hacc⟩) fun _ => .refl s
  · rw [wp_bind]
    exact wp_check (fun _ _ => ⟨.refl s, hacc⟩) fun _ => .refl s
  · rw [wp_bind]
    refine wp_check (fun algorithm _ => ?_) fun _ => .refl s
    split
    · exact ⟨.refl s, hacc⟩
    · exact Staging.refl s
  · exact ⟨.refl s, hacc⟩

end Streaming

/-! ## operations of the storage -/

/- What each operation of the storage leaves when it succeeds; one that fails leaves the catalogs as
they were. -/

section Storage

variable {S : SemverCrate} {e : ServerEnv} {s : Store} {p : VersionPath}
  {Q : Unit → Store → Prop} {E : StorageError → Store → Prop}

/-- Reading a catalog that must be there changes nothing. -/
theorem wp_readCatalog {appName : String} {Q : AppCatalog → Store → Prop}
    (hok : ∀ catalog, s.getAppCatalog appName = some catalog → Q catalog s)
    (hfail : ∀ err, E err s) : wp (readCatalog e appName) Q E s := by
  unfold readCatalog
  simp only [wp_bind]
  refine wp_tryIo (fun _ => wp_tryIo (fun _ => wp_tryIo (fun _ => ?_)
    (hfail _)) (hfail _)) (hfail _)
  rw [wp_get]
  split
  · next catalog h => exact hok catalog h
  · exact hfail _

/-- An activation writes the changed catalog, or has done some staging at most. -/
theorem wp_setLatestVersion
    (hok : ∀ catalog catalog' s', s.getAppCatalog p.appName = some catalog →
      activateCatalog S p.version catalog = .ok catalog' →
      s'.toArtifacts = s.toArtifacts.setCatalog p.appName catalog' → Q () s')
    (hfail : ∀ err s', Staging s s' → E err s') : wp (setLatestVersion S e p) Q E s := by
  unfold setLatestVersion
  rw [wp_bind, wp_get]
  split
  · exact hfail _ s (.refl s)
  · rw [wp_bind]
    refine wp_readCatalog (fun catalog hcatalog => ?_) fun err => hfail err s (.refl s)
    rw [wp_bind, wp_ofExcept]
    split
    · next catalog' hchange =>
        exact wp_replaceCatalog (fun s' h => hok _ _ s' hcatalog hchange h)
          fun s' h => hfail _ s' h.artifacts
    · exact hfail _ s (.refl s)

/-- A deletion writes the marker and the catalog; it can fail between the two. -/
theorem wp_deleteVersionFiles
    (hmissing : ∀ s', (s.catalogs.read p.appName).isNone = true →
      s'.toArtifacts = s.toArtifacts.markDeleted p → Q () s')
    (hok : ∀ catalog s', s.getAppCatalog p.appName = some catalog →
      s'.toArtifacts = (s.toArtifacts.markDeleted p).setCatalog p.appName
        (deleteCatalog S (fun v => (s.toArtifacts.markDeleted p).isDeleted ⟨p.appName, v⟩) p.version
          catalog) → Q () s')
    (hfail : ∀ err s', s'.toArtifacts = s.toArtifacts ∨
      s'.toArtifacts = s.toArtifacts.markDeleted p → E err s') :
    wp (deleteVersionFiles S e p) Q E s := by
  unfold deleteVersionFiles
  rw [wp_bind, wp_get]
  split
  · simp only [wp_bind]
    refine wp_tryIo (fun _ => ?_) (hfail _ s (.inl rfl))
    rw [wp_modify, wp_get]
    set s₁ : Store := { s with deleted := s.deleted.insert p } with hs₁
    have hmark : s₁.toArtifacts = s.toArtifacts.markDeleted p := rfl
    split
    · rw [wp_bind]
      refine wp_readCatalog (fun catalog hcatalog => ?_) fun err => hfail err s₁ (.inr hmark)
      rw [wp_bind, wp_get]
      exact wp_replaceCatalog (fun s' h => hok catalog s' hcatalog h)
        fun s' h => hfail _ s' (.inr (h.artifacts.trans hmark))
    · next hnone => exact hmissing s₁ (by simpa using hnone) hmark
  · exact hfail _ s (.inl rfl)

/-- A change of a rollout writes the configuration, or changes no answer. -/
theorem wp_updateRolloutConfigAtomic {update : RolloutConfig → RolloutConfig}
    {Q : RolloutConfig → Store → Prop}
    (hok : ∀ (b : Bool) config s',
      config = update ((if b then s.getRolloutConfig p else none).getD .default) →
      s'.toArtifacts = s.toArtifacts.setRollout p config → Q config s')
    (hfail : ∀ err s', SameAnswers s.toArtifacts s'.toArtifacts → E err s') :
    wp (updateRolloutConfigAtomic e p update) Q E s := by
  unfold updateRolloutConfigAtomic ensureVersionDir
  simp only [wp_bind]
  refine wp_createDirs (fun s₁ h₁ => ?_) fun s₁ h₁ => hfail _ s₁ (Staging.sameAnswers h₁.artifacts)
  refine wp_tryIo (fun _ => ?_) (hfail _ s₁ (Staging.sameAnswers h₁.artifacts))
  rw [wp_modify]
  set s₂ : Store := { s₁ with
    rollouts := if (s₁.rollouts.read p).isSome then s₁.rollouts else s₁.rollouts.write p none }
    with hs₂
  have hread : ∀ q, s₂.getRolloutConfig q = s.getRolloutConfig q := by
    intro q
    rw [hs₂, ← h₁.artifacts]
    simp only [Artifacts.getRolloutConfig]
    split
    · rfl
    · next hnone =>
        by_cases hq : q = p
        · simp [hq, Option.not_isSome_iff_eq_none.mp hnone]
        · rw [Files.read_write_ne _ _ hq]
  have hanswers : SameAnswers s.toArtifacts s₂.toArtifacts :=
    ⟨fun n => by simp only [Artifacts.getAppCatalog, hs₂, h₁.artifacts], hread,
      by simp only [hs₂, h₁.artifacts]⟩
  refine wp_tryIo (fun _ => ?_) (hfail _ _ hanswers)
  rw [wp_get, hread]
  refine wp_writeTemp (fun s₃ h₃ => ?_)
    fun s₃ h₃ => hfail _ s₃ (hanswers.trans (Staging.sameAnswers h₃.artifacts))
  refine wp_tryIo (fun _ => ?_)
    (hfail _ s₃ (hanswers.trans (Staging.sameAnswers h₃.artifacts)))
  rw [wp_modify, wp_pure]
  refine hok (!(e.faults (.rollout .read)).isSome) _ _ ?_ ?_
  · cases (e.faults (.rollout .read)).isSome <;> rfl
  · simp only [Artifacts.setRollout, h₃.artifacts, hs₂, ← h₁.artifacts]
    congr 1
    split
    · rfl
    · exact Files.write_write _ _ _ _

end Storage

/-! ## requests -/

/- One lemma for each handler: what a request that succeeds has done, and what one that fails may
have done. They are put together from those for streaming the form, for the checks and for the
operations of the storage. -/

section Requests

variable {X : ServerCrates} {e : ServerEnv} {s : Store} {publisher : Publisher}

/-- A name that is not valid is refused, and no other. -/
theorem wp_requireValid_cases {r : Except ValidationError Unit} {err : HttpError}
    {Q : Unit → Store → Prop} {E : HttpError → Store → Prop} (hok : r = .ok () → Q () s)
    (hfail : r ≠ .ok () → ∀ err, E err s) : wp (requireValid r err) Q E s := by
  unfold requireValid
  cases r with
  | ok u => exact hok rfl
  | error _ => exact hfail (by simp) _

/-- A publisher that may not publish is refused, and no other. -/
theorem wp_requirePublisher_cases {appName : String} {Q : Unit → Store → Prop}
    {E : HttpError → Store → Prop} (hok : publisher.canPublish appName = true → Q () s)
    (hfail : publisher.canPublish appName ≠ true → ∀ err, E err s) :
    wp (requirePublisher publisher appName) Q E s := by
  unfold requirePublisher
  split
  · next h => exact hok h
  · next h => exact hfail h _

/-- The names of a request were accepted. -/
theorem wp_requireValid {r : Except ValidationError Unit} {err : HttpError}
    {Q : Unit → Store → Prop} {E : HttpError → Store → Prop} (hok : r = .ok () → Q () s)
    (hfail : ∀ err, E err s) : wp (requireValid r err) Q E s :=
  wp_requireValid_cases hok fun _ => hfail

/-- What is done behind the check is done for a publisher that may publish. -/
theorem wp_requirePublisher {appName : String} {Q : Unit → Store → Prop}
    {E : HttpError → Store → Prop} (hok : publisher.canPublish appName = true → Q () s)
    (hfail : ∀ err, E err s) : wp (requirePublisher publisher appName) Q E s :=
  wp_requirePublisher_cases hok fun _ => hfail

/-- A checksum that passes is the one of the bytes. -/
theorem checksumOf_of_checkChecksum {b : Bytes} {checksum : Option String} {text : String}
    (h : checkChecksum (X.crypto.blake3 b) checksum = .ok text) : ChecksumOf X b text := by
  unfold checkChecksum at h
  obtain ⟨t, _, h⟩ := Except.bind_eq_ok.mp h
  obtain ⟨_, hformat, h⟩ := Except.bind_eq_ok.mp h
  obtain ⟨_, hvalue, h⟩ := Except.bind_eq_ok.mp h
  obtain rfl := Except.ok.inj h
  obtain ⟨hdigits, hlength⟩ := Except.ensure_eq_ok.mp hformat
  exact ⟨hdigits, hlength, Except.ensure_eq_ok.mp hvalue⟩

/-- A platform that passes is the one that the form names. -/
theorem checkPlatform_ok {platform : Option String} {q : Platform}
    (h : checkPlatform platform = .ok q) : platform.bind Platform.parse = some q := by
  unfold checkPlatform at h
  obtain ⟨text, htext, h⟩ := Except.bind_eq_ok.mp h
  rw [Except.ofOption_eq_ok.mp htext, Option.bind_some]
  exact Except.ofOption_eq_ok.mp h

/-- A signature that passes is the one in the form, with its length right. -/
theorem checkSignature_ok {signature : Option Bytes} {sig : Signature}
    (h : checkSignature signature = .ok sig) : signature = some sig.val := by
  unfold checkSignature at h
  obtain ⟨data, hdata, h⟩ := Except.bind_eq_ok.mp h
  rw [Except.ofOption_eq_ok.mp hdata, ← ByteVec.tryInto_eq_some.mp (Except.ofOption_eq_ok.mp h)]

/-- What a form that passed its checks holds. -/
theorem checkPublish_ok {p : VersionPath} {form : PublishForm} {b : Bytes}
    {checked : CheckedPublish}
    (h : checkPublish X publisher p form (X.crypto.blake3 b) = .ok checked) :
    form.platform.bind Platform.parse = some checked.platform ∧
    form.signature = some checked.signature.val ∧ ChecksumOf X b checked.checksum ∧
    ∀ pubkey, publisher.pubkey = some pubkey →
      verifies X pubkey (X.crypto.blake3 b) p.version checked.signature = true := by
  unfold checkPublish at h
  obtain ⟨platform, hplatform, h⟩ := Except.bind_eq_ok.mp h
  obtain ⟨signature, hsignature, h⟩ := Except.bind_eq_ok.mp h
  obtain ⟨checksum, hchecksum, h⟩ := Except.bind_eq_ok.mp h
  have hplatform := checkPlatform_ok hplatform
  have hsignature := checkSignature_ok hsignature
  have hchecksum := checksumOf_of_checkChecksum hchecksum
  split at h
  · next pubkey hpubkey =>
      obtain ⟨_, hverified, h⟩ := Except.bind_eq_ok.mp h
      obtain rfl := Except.ok.inj h
      refine ⟨hplatform, hsignature, hchecksum, fun pubkey' hpubkey' => ?_⟩
      obtain rfl := Option.some.inj (hpubkey.symm.trans hpubkey')
      exact Except.ensure_eq_ok.mp hverified
  · next hnone =>
      obtain rfl := Except.ok.inj h
      refine ⟨hplatform, hsignature, hchecksum, fun pubkey hpubkey => ?_⟩
      rw [hnone] at hpubkey
      contradiction

/-- Everything of a release is stored, or the failure lies at one of its stages. -/
theorem wp_storePublish {p : VersionPath} {streamed : StreamedField} {r : Release}
    (hparse : X.semver.parse p.version = some r.version)
    (htemp : s.uploads.read streamed.tempPath = some r.binary)
    (hsize : streamed.size = r.binary.length) :
    wp (storePublish X e p r.version streamed ⟨r.platform, r.signature, r.checksum⟩ r.releaseNotes)
      (fun _ s' => s'.toArtifacts =
        s.toArtifacts.publish X.semver p r e.mapOrder (!(e.faults (.manifest .read)).isSome)
          (!(e.faults (.catalog .read)).isSome))
      (fun _ s' => SameAnswers s.toArtifacts s'.toArtifacts) s := by
  unfold storePublish
  rw [wp_bind, wp_attempt, wp_adapt]
  refine wp_saveBinaryFromTemp htemp (fun _ s₁ h₁ _ => ?_)
    fun _ s₁ h₁ => wp_bail fun _ s' h => (Staging.trans h₁.artifacts h).sameAnswers
  have hsame : ∀ {s'}, SameAnswers s₁.toArtifacts s' → SameAnswers s.toArtifacts s' := by
    intro s' h
    refine .trans (.of_eq ?_ ?_ ?_) h <;> rw [h₁]
  rw [wp_adapt, wp_bind]
  refine wp_saveSignature (fun _ _ s₂ h₂ _ => ?_)
    (fun _ _ s₂ h₂ _ => hsame (.of_eq ?_ ?_ ?_)) fun _ _ h => hsame h.sameAnswers
  · have hsame₂ : ∀ {s'}, SameAnswers s₂.toArtifacts s' → SameAnswers s.toArtifacts s' := by
      intro s' h
      refine hsame (.trans (.of_eq ?_ ?_ ?_) h) <;> rw [h₂]
    rw [wp_bind]
    refine wp_updateManifest hparse (fun _ _ s₃ h₃ _ => ?_)
      (fun _ _ s₃ h₃ _ => hsame₂ (.of_eq ?_ ?_ ?_)) fun _ _ h => hsame₂ h.sameAnswers
    · have hsame₃ : ∀ {s'}, SameAnswers s₃.toArtifacts s' → SameAnswers s.toArtifacts s' := by
        intro s' h
        refine hsame₂ (.trans (.of_eq ?_ ?_ ?_) h) <;> rw [h₃]
      refine wp_updateCatalogAtomic (fun s₄ h₄ => ?_) (fun _ _ h _ => hsame₃ (.of_opened h))
        fun _ _ h => hsame₃ h.sameAnswers
      rw [h₄, h₃, h₂, h₁, hsize]
      rfl
    all_goals rw [h₃]
  all_goals rw [h₂]

/-- A successful `publish_version` is the publication of an accepted release. -/
theorem wp_publishVersion {p : VersionPath} {form : Form} :
    wp (publishVersion X e publisher p form)
      (fun _ s' => ∃ r, r.Accepted X publisher p form.fields ∧ s'.toArtifacts =
        s.toArtifacts.publish X.semver p r e.mapOrder (!(e.faults (.manifest .read)).isSome)
          (!(e.faults (.catalog .read)).isSome))
      (fun _ s' => SameAnswers s.toArtifacts s'.toArtifacts) s := by
  have hsame : SameAnswers s.toArtifacts s.toArtifacts := .refl _
  unfold publishVersion
  rw [wp_bind]
  refine wp_requireValid (fun hname => ?_) fun _ => hsame
  rw [wp_bind]
  refine wp_requireValid (fun hversion => ?_) fun _ => hsame
  rw [wp_bind]
  refine wp_check (fun version hparse => ?_) fun _ => hsame
  have hparse := Except.ofOption_eq_ok.mp hparse
  rw [wp_bind]
  refine wp_requirePublisher (fun hallowed => ?_) fun _ => hsame
  rw [wp_bind, wp_adapt]
  refine wp_createDirs (fun s₁ h₁ => ?_) fun _ h => Staging.sameAnswers h.artifacts
  have hstart : CollectedPublish X [] {} s₁ :=
    ⟨fun _ h => by contradiction, fun _ h => by contradiction, fun _ h => by contradiction⟩
  rw [wp_bind]
  refine wp_mono (fun collected s₂ h₂ => ?_)
    (fun _ _ h => (Staging.trans h₁.artifacts h).sameAnswers)
    (wp_collectFields wp_collectPublish form.fields [] 0 {} hstart)
  obtain ⟨hstaging, hcollected⟩ := h₂
  rw [List.nil_append] at hcollected
  have hartifacts : s₂.toArtifacts = s.toArtifacts := Eq.trans hstaging h₁.artifacts
  rw [← hartifacts]
  rw [wp_bind]
  refine wp_check (fun streamed hstreamed => ?_) fun _ => .refl _
  obtain ⟨field, hfield, hstaged⟩ := hcollected.binary _ (Except.ofOption_eq_ok.mp hstreamed)
  rw [hstaged.hash]
  split
  · exact wp_bail fun _ _ h => h.sameAnswers
  · next checked hchecked =>
      obtain ⟨hplatform, hsignature, hchecksum, hverified⟩ := checkPublish_ok hchecked
      let r : Release := ⟨version, checked.platform, field.content, checked.signature,
        checked.checksum, collected.releaseNotes⟩
      rw [wp_bind]
      refine wp_mono (fun _ s' h => ?_) (fun _ _ h => h)
        (wp_storePublish (r := r) hparse hstaged.stored hstaged.size)
      refine ⟨r, ⟨hname, hversion, hparse, hallowed, ?_, ?_, ?_, hchecksum, hverified⟩, h⟩
      · rw [hfield]
        rfl
      · obtain ⟨text, htext, htarget⟩ := Option.bind_eq_some_iff.mp hplatform
        rw [hcollected.platform text htext]
        exact htarget
      · exact hcollected.signature _ hsignature

/-- A successful `activate_version` replaces the catalog; the body of the request
makes no difference. -/
theorem wp_activateVersion {p : VersionPath} {request : Option ActivateRequest} :
    wp (activateVersion X e publisher p request)
      (fun _ s' => ∃ catalog catalog', s.getAppCatalog p.appName = some catalog ∧
        activateCatalog X.semver p.version catalog = .ok catalog' ∧
        s'.toArtifacts = s.toArtifacts.setCatalog p.appName catalog')
      (fun _ s' => SameAnswers s.toArtifacts s'.toArtifacts) s := by
  have hsame : SameAnswers s.toArtifacts s.toArtifacts := .refl _
  unfold activateVersion
  simp only [wp_bind, wp_adapt]
  refine wp_requireValid (fun _ => ?_) fun _ => hsame
  refine wp_requirePublisher (fun _ => ?_) fun _ => hsame
  refine wp_requireValid (fun _ => ?_) fun _ => hsame
  exact wp_setLatestVersion (fun catalog catalog' s' hcatalog hchange h =>
    ⟨catalog, catalog', hcatalog, hchange, h⟩) fun _ _ h => h.sameAnswers

/-- A successful `delete_version` marks the version and replaces the catalog, if
there is one; a failing one may have marked it. -/
theorem wp_deleteVersion {p : VersionPath} :
    wp (deleteVersion X e publisher p)
      (fun _ s' => ((s.catalogs.read p.appName).isNone = true ∧
          s'.toArtifacts = s.toArtifacts.markDeleted p) ∨
        ∃ catalog, s.getAppCatalog p.appName = some catalog ∧
          s'.toArtifacts = (s.toArtifacts.markDeleted p).setCatalog p.appName
            (deleteCatalog X.semver
              (fun v => (s.toArtifacts.markDeleted p).isDeleted ⟨p.appName, v⟩) p.version catalog))
      (fun _ s' => s'.toArtifacts = s.toArtifacts ∨
        s'.toArtifacts = s.toArtifacts.markDeleted p) s := by
  unfold deleteVersion
  simp only [wp_bind, wp_adapt]
  refine wp_requireValid (fun _ => ?_) fun _ => .inl rfl
  refine wp_requirePublisher (fun _ => ?_) fun _ => .inl rfl
  refine wp_requireValid (fun _ => ?_) fun _ => .inl rfl
  exact wp_deleteVersionFiles (fun s' hnone h => .inl ⟨hnone, h⟩)
    (fun catalog s' hcatalog h => .inr ⟨catalog, hcatalog, h⟩) fun _ _ h => h

/-- A successful `update_rollout` stores the requested percentage. -/
theorem wp_updateRollout {p : VersionPath} {request : RolloutRequest} :
    wp (updateRollout e publisher p request)
      (fun _ s' => request.percentage ≤ 100 ∧ ∃ (b : Bool),
        s'.toArtifacts = s.toArtifacts.setRollout p (changeRollout e.now request.percentage
          ((if b then s.getRolloutConfig p else none).getD .default)))
      (fun _ s' => SameAnswers s.toArtifacts s'.toArtifacts) s := by
  have hsame : SameAnswers s.toArtifacts s.toArtifacts := .refl _
  unfold updateRollout
  simp only [wp_bind]
  refine wp_requireValid (fun _ => ?_) fun _ => hsame
  refine wp_requirePublisher (fun _ => ?_) fun _ => hsame
  refine wp_requireValid (fun _ => ?_) fun _ => hsame
  split
  · exact hsame
  · next hle =>
      rw [wp_bind, wp_get]
      split
      · exact hsame
      · rw [wp_bind, wp_adapt]
        refine wp_updateRolloutConfigAtomic (fun b config s' hconfig h => ?_) fun _ _ h => h
        exact ⟨Nat.le_of_not_lt hle, b, by rw [h, hconfig]⟩

/-- A diff was accepted for a pair of versions. -/
structure AcceptedDiff (X : ServerCrates) (p : DiffPath) (diff : DiffInfo) (b : Bytes) : Prop where
  nameOk : validateName p.appName = .ok ()
  fromOk : validateVersion p.fromVersion = .ok ()
  toOk : validateVersion p.toVersion = .ok ()
  parseFrom : X.semver.parse p.fromVersion = some diff.fromVersion
  parseTo : (X.semver.parse p.toVersion).isSome = true
  checksum : ChecksumOf X b diff.checksum

/-- A diff is stored with its entry in the manifest, or the failure lies in between. -/
theorem wp_storeDiff {p : DiffPath} {fromVersion : Version} {streamed : StreamedField}
    {platform : Platform} {checksum algorithm : String} {b : Bytes}
    (htemp : s.uploads.read streamed.tempPath = some b) :
    wp (storeDiff e p fromVersion streamed platform checksum algorithm)
      (fun _ s' => ∃ manifest artifact,
        s.getVersionManifest ⟨p.appName, p.toVersion⟩ = some manifest ∧
        manifest.platforms.read platform = some artifact ∧
        s'.toArtifacts = s.toArtifacts.addDiff p platform
          ⟨fromVersion, checksum, streamed.size, algorithm⟩ b manifest artifact e.mapOrder)
      (fun _ s' => SameAnswers s.toArtifacts s'.toArtifacts) s := by
  unfold storeDiff
  rw [wp_bind, wp_attempt, wp_adapt]
  refine wp_saveDiffFromTemp htemp (fun _ s₁ h₁ _ => ?_)
    fun _ s₁ h₁ => wp_bail fun _ s' h => (Staging.trans h₁.artifacts h).sameAnswers
  rw [wp_adapt]
  refine wp_addDiffToManifest (fun manifest artifact s' hmanifest hartifact h => ?_)
    fun _ s' h => .trans (.of_eq ?_ ?_ ?_) h.sameAnswers
  · rw [h₁] at hmanifest h
    exact ⟨manifest, artifact, hmanifest, hartifact, h⟩
  all_goals rw [h₁]

/-- A successful `upload_diff` stores an accepted diff. -/
theorem wp_uploadDiff {p : DiffPath} {form : Form} :
    wp (uploadDiff X e publisher p form)
      (fun _ s' => ∃ platform diff b manifest artifact, AcceptedDiff X p diff b ∧
        s.getVersionManifest ⟨p.appName, p.toVersion⟩ = some manifest ∧
        manifest.platforms.read platform = some artifact ∧
        s'.toArtifacts = s.toArtifacts.addDiff p platform diff b manifest artifact e.mapOrder)
      (fun _ s' => SameAnswers s.toArtifacts s'.toArtifacts) s := by
  have hsame : SameAnswers s.toArtifacts s.toArtifacts := .refl _
  unfold uploadDiff
  rw [wp_bind]
  refine wp_requireValid (fun hname => ?_) fun _ => hsame
  rw [wp_bind]
  refine wp_requirePublisher (fun _ => ?_) fun _ => hsame
  rw [wp_bind]
  refine wp_requireValid (fun hfrom => ?_) fun _ => hsame
  rw [wp_bind]
  refine wp_requireValid (fun hto => ?_) fun _ => hsame
  rw [wp_bind]
  refine wp_check (fun fromVersion hparse => ?_) fun _ => hsame
  rw [wp_bind]
  refine wp_check (fun toVersion hparseTo => ?_) fun _ => hsame
  rw [wp_bind, wp_adapt]
  refine wp_createDirs (fun s₁ h₁ => ?_) fun _ h => Staging.sameAnswers h.artifacts
  have hstart : CollectedDiff X {} s₁ := fun _ h => by contradiction
  rw [wp_bind]
  refine wp_mono (fun collected s₂ h₂ => ?_)
    (fun _ _ h => (Staging.trans h₁.artifacts h).sameAnswers)
    (wp_collectFields (I := fun _ acc s => CollectedDiff X acc s)
      (fun k _ field acc s h => wp_collectDiff k field acc s h) form.fields [] 0 {} hstart)
  obtain ⟨hstaging, hcollected⟩ := h₂
  have hartifacts : s₂.toArtifacts = s.toArtifacts := Eq.trans hstaging h₁.artifacts
  rw [← hartifacts]
  rw [wp_bind]
  refine wp_check (fun streamed hstreamed => ?_) fun _ => .refl _
  obtain ⟨field, hstaged⟩ := hcollected _ (Except.ofOption_eq_ok.mp hstreamed)
  rw [hstaged.hash]
  split
  · exact wp_bail fun _ _ h => h.sameAnswers
  · next platform checksum hchecked =>
      unfold checkDiff at hchecked
      obtain ⟨_, _, hchecked⟩ := Except.bind_eq_ok.mp hchecked
      obtain ⟨_, hchecksum, hchecked⟩ := Except.bind_eq_ok.mp hchecked
      obtain ⟨rfl, rfl⟩ := Prod.mk.inj (Except.ok.inj hchecked)
      rw [wp_bind]
      refine wp_mono (fun _ s' h => ?_) (fun _ _ h => h) (wp_storeDiff hstaged.stored)
      obtain ⟨manifest, artifact, hmanifest, hartifact, h⟩ := h
      refine ⟨_, _, field.content, manifest, artifact, ?_, hmanifest, hartifact, h⟩
      exact ⟨hname, hfrom, hto, Except.ofOption_eq_ok.mp hparse,
        Option.isSome_iff_exists.mpr ⟨toVersion, Except.ofOption_eq_ok.mp hparseTo⟩,
        checksumOf_of_checkChecksum hchecksum⟩

end Requests

/-! ## everything a request can do -/

/- The handlers together: a request that succeeds has the effect of an accepted operation, and one
that fails has at most a part of it. Invariants of whole runs are proved from this list and do not
look at the handlers. -/

namespace Request

/-- What a request can do to the artifacts: if it succeeds, what it is for; if it
fails, nothing that an answer would show, but a deletion may have set its
marker. -/
inductive Effect (X : ServerCrates) (a : Artifacts) : Request → Bool → Artifacts → Prop where
  | published {e : ServerEnv} {publisher : Publisher} {p : VersionPath} {form : Form} {r : Release}
      {o : MapOrder} {b b' : Bool} (hr : r.Accepted X publisher p form.fields) :
      Effect X a (publish e publisher p form) true (a.publish X.semver p r o b b')
  | diffAdded {e : ServerEnv} {publisher : Publisher} {p : DiffPath} {form : Form}
      {platform : Platform} {diff : DiffInfo} {b : Bytes} {manifest : VersionManifest}
      {artifact : PlatformArtifact} {o : MapOrder} (hdiff : AcceptedDiff X p diff b)
      (hmanifest : a.getVersionManifest ⟨p.appName, p.toVersion⟩ = some manifest)
      (hartifact : manifest.platforms.read platform = some artifact) :
      Effect X a (uploadDiff e publisher p form) true
        (a.addDiff p platform diff b manifest artifact o)
  | activated {e : ServerEnv} {publisher : Publisher} {p : VersionPath}
      {request : Option ActivateRequest} {catalog catalog' : AppCatalog}
      (hcatalog : a.getAppCatalog p.appName = some catalog)
      (hchange : activateCatalog X.semver p.version catalog = .ok catalog') :
      Effect X a (activate e publisher p request) true (a.setCatalog p.appName catalog')
  | rolledOut {e : ServerEnv} {publisher : Publisher} {p : VersionPath} {request : RolloutRequest}
      {b : Bool} (hle : request.percentage ≤ 100) :
      Effect X a (rollout e publisher p request) true
        (a.setRollout p (changeRollout e.now request.percentage
          ((if b then a.getRolloutConfig p else none).getD .default)))
  | marked {e : ServerEnv} {publisher : Publisher} {p : VersionPath} {ok : Bool}
      (hnone : ok = true → a.getAppCatalog p.appName = none) :
      Effect X a (delete e publisher p) ok (a.markDeleted p)
  | deleted {e : ServerEnv} {publisher : Publisher} {p : VersionPath} {catalog : AppCatalog}
      (hcatalog : a.getAppCatalog p.appName = some catalog) :
      Effect X a (delete e publisher p) true
        ((a.markDeleted p).setCatalog p.appName
          (deleteCatalog X.semver (fun v => (a.markDeleted p).isDeleted ⟨p.appName, v⟩) p.version
            catalog))
  | failed {q : Request} {a' : Artifacts} (h : SameAnswers a a') : Effect X a q false a'

variable {X : ServerCrates} {s : Store}

/-- A program whose two outcomes are effects has an effect. -/
theorem effect_of_wp {α : Type} {m : Handler α} {q : Request}
    (h : wp m (fun _ s' => Effect X s.toArtifacts q true s'.toArtifacts)
      (fun _ s' => Effect X s.toArtifacts q false s'.toArtifacts) s) :
    Effect X s.toArtifacts q (run.outcome (exec m s)).1 (run.outcome (exec m s)).2.toArtifacts := by
  unfold run.outcome
  rcases hr : exec m s with ⟨r, s'⟩
  cases r with
  | ok a => exact wp_exec_ok h hr
  | error err => exact wp_exec_error h hr

/-- A request that succeeds leaves what its handler leaves. -/
theorem succeeded_of_wp {α : Type} {m : Handler α} {Q : Store → Prop}
    {E : HttpError → Store → Prop} (h : wp m (fun _ s' => Q s') E s)
    (hok : (run.outcome (exec m s)).1 = true) : Q (run.outcome (exec m s)).2 := by
  unfold run.outcome at hok ⊢
  rcases hr : exec m s with ⟨r, s'⟩
  rw [hr] at hok
  cases r with
  | ok a => exact wp_exec_ok h hr
  | error err => simp [Except.toBool] at hok

/-- A request that fails leaves what its handler leaves then. -/
theorem failed_of_wp {α : Type} {m : Handler α} {Q : α → Store → Prop} {E : Store → Prop}
    (h : wp m Q (fun _ s' => E s') s) (hfails : ¬ (run.outcome (exec m s)).1 = true) :
    E (run.outcome (exec m s)).2 := by
  unfold run.outcome at hfails ⊢
  rcases hr : exec m s with ⟨r, s'⟩
  rw [hr] at hfails
  cases r with
  | ok a => simp [Except.toBool] at hfails
  | error err => exact wp_exec_error h hr

/-- Every request has an effect. -/
theorem effect (X : ServerCrates) (s : Store) (q : Request) :
    Effect X s.toArtifacts q (q.run X s).1 (q.next X s).toArtifacts := by
  cases q with
  | publish e publisher p form =>
      refine effect_of_wp (wp_mono (fun _ s' h => ?_) (fun _ _ h => .failed h) wp_publishVersion)
      obtain ⟨r, hr, h⟩ := h
      rw [h]
      exact .published hr
  | uploadDiff e publisher p form =>
      refine effect_of_wp (wp_mono (fun _ s' h => ?_) (fun _ _ h => .failed h) wp_uploadDiff)
      obtain ⟨platform, diff, b, manifest, artifact, hdiff, hmanifest, hartifact, h⟩ := h
      rw [h]
      exact .diffAdded hdiff hmanifest hartifact
  | activate e publisher p request =>
      refine effect_of_wp (wp_mono (fun _ s' h => ?_) (fun _ _ h => .failed h) wp_activateVersion)
      obtain ⟨catalog, catalog', hcatalog, hchange, h⟩ := h
      rw [h]
      exact .activated hcatalog hchange
  | rollout e publisher p request =>
      refine effect_of_wp (wp_mono (fun _ s' h => ?_) (fun _ _ h => .failed h) wp_updateRollout)
      obtain ⟨hle, b, h⟩ := h
      rw [h]
      exact .rolledOut hle
  | delete e publisher p =>
      refine effect_of_wp (wp_mono (fun _ s' h => ?_) (fun _ s' h => ?_) wp_deleteVersion)
      · rcases h with ⟨hnone, h⟩ | ⟨catalog, hcatalog, h⟩
        · rw [h]
          refine .marked fun _ => ?_
          rw [Artifacts.getAppCatalog, Option.isNone_iff_eq_none.mp hnone, Option.join_none]
        · rw [h]
          exact .deleted hcatalog
      · rcases h with h | h
        · rw [h]
          exact .failed (.refl _)
        · rw [h]
          exact .marked fun h => by contradiction

/-- A publication that succeeds keeps what it can read of the manifest and the catalog. -/
theorem publish_next {e : ServerEnv} {publisher : Publisher} {p : VersionPath} {form : Form}
    (h : (publish e publisher p form).Succeeds X s) :
    ∃ r, r.Accepted X publisher p form.fields ∧
      ((publish e publisher p form).next X s).toArtifacts =
        s.toArtifacts.publish X.semver p r e.mapOrder (!(e.faults (.manifest .read)).isSome)
          (!(e.faults (.catalog .read)).isSome) :=
  succeeded_of_wp wp_publishVersion h

end Request

end Deltaship
