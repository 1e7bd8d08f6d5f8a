import Deltaship.Server.Effects
import Mathlib.Data.Set.Basic

/-!
# Deltaship.Server.Uploads

The temporary files of a form, and which of them are left.

A field that is streamed has a temporary file of its own.  If the streaming fails, this
file is removed; those of the fields before it are not (`wp_collectFields_uploads`).
-/

namespace Deltaship

open Prog

/-! ## temporary files that come and go -/

/-- The temporary file is there. -/
def Store.HasUpload (s : Store) (t : UploadPath) : Prop := (s.uploads.read t).isSome = true

/-- These temporary files were created, and then those removed; nothing else that answers are
made from has changed. -/
structure Uploaded (created removed : Set UploadPath) (s s' : Store) : Prop where
  artifacts : s'.toArtifacts = s.toArtifacts
  uploads : ∀ t, s'.HasUpload t ↔ (s.HasUpload t ∨ t ∈ created) ∧ t ∉ removed

/-- No temporary file is left that was not there before. -/
def NoUploadLeft (s s' : Store) : Prop := ∀ t, s'.HasUpload t → s.HasUpload t

section Uploaded

variable {created created' removed : Set UploadPath} {s s₁ s' : Store} {t : UploadPath}

theorem Dressing.uploaded (h : Dressing s s') : Uploaded ∅ ∅ s s' where
  artifacts := h.artifacts
  uploads t := by simp [Store.HasUpload, h.uploads]

/-- Uploads that are created in two steps are created. -/
theorem Uploaded.trans (h : Uploaded created ∅ s s₁) (h' : Uploaded created' removed s₁ s') :
    Uploaded (created ∪ created') removed s s' where
  artifacts := h'.artifacts.trans h.artifacts
  uploads t := by
    rw [h'.uploads, h.uploads, Set.mem_union]
    simp [or_assoc]

/-- What changes no file does not matter for the uploads. -/
theorem Uploaded.of_dressing (h : Dressing s s₁) (h' : Uploaded created removed s₁ s') :
    Uploaded created removed s s' := by
  simpa using h.uploaded.trans h'

/-- What was created is removed. -/
theorem Uploaded.andRemoved (h : Uploaded created ∅ s s₁) (h' : Uploaded ∅ removed s₁ s') :
    Uploaded created removed s s' := by
  simpa using h.trans h'

/-- One temporary file was removed. -/
theorem hasUpload_of_removed {u : UploadPath} (h : s'.uploads = s.uploads.remove u) :
    s'.HasUpload t ↔ s.HasUpload t ∧ t ≠ u := by
  unfold Store.HasUpload
  rw [h]
  by_cases ht : t = u
  · simp [ht]
  · simp [ht, Files.read_remove_ne _ ht]

/-- No upload is left exactly if each that was created is removed or was there before. -/
theorem noUploadLeft_iff (h : ∀ t, s'.HasUpload t ↔ (s.HasUpload t ∨ t ∈ created) ∧ t ∉ removed) :
    NoUploadLeft s s' ↔ ∀ t ∈ created \ removed, s.HasUpload t := by
  unfold NoUploadLeft
  refine forall_congr' fun t => ?_
  rw [h, Set.mem_sdiff]
  constructor
  · intro hleft hnew
    exact hleft ⟨.inr hnew.1, hnew.2⟩
  · intro hleft hthere
    exact hthere.1.elim id fun hnew => hleft ⟨hnew, hthere.2⟩

end Uploaded

/-! ## streaming a field -/

section Streaming

variable (X : ServerCrates) (e : ServerEnv)

/-- The temporary file of a field. -/
def uploadPath (dir : Dir) (k : Nat) (field : Field) : UploadPath :=
  ⟨dir, field.name, e.uniqSuffix k⟩

/-- The temporary file of the `k`-th field can be created. -/
def Opens (k : Nat) : Prop :=
  e.faults (.uploadDir k) = none ∧ e.faults (.uploadCreate k) = none

/-- These chunks arrive, fit behind `size` bytes and can be written, the first as the `i`-th,
and no failure comes behind them. -/
def Arrives (k maxSize : Nat) (field : Field) (chunks : List Bytes) (i size : Nat) : Prop :=
  size + chunks.flatten.length ≤ maxSize ∧
    (∀ j < chunks.length, e.faults (.uploadWrite k (i + j)) = none) ∧
    field.broken = false ∧ e.faults (.uploadFlush k) = none

/-- The `k`-th field can be streamed to its temporary file. -/
def Streams (k maxSize : Nat) (field : Field) : Prop :=
  Opens e k ∧ Arrives e k maxSize field field.chunks 0 0

/-- The temporary file can be removed. -/
def Cleans : Prop := e.faults .uploadCleanup = none

instance (k : Nat) : Decidable (Opens e k) := inferInstanceAs (Decidable (_ ∧ _))

instance (k maxSize : Nat) (field : Field) (chunks : List Bytes) (i size : Nat) :
    Decidable (Arrives e k maxSize field chunks i size) :=
  inferInstanceAs (Decidable (_ ∧ _))

instance (k maxSize : Nat) (field : Field) : Decidable (Streams e k maxSize field) :=
  inferInstanceAs (Decidable (_ ∧ _))

variable {X e} {s : Store} {temp : UploadPath}

/-- A failure removes the temporary file, if it can be removed. -/
theorem wp_bail_uploads {α : Type} {err : HttpError} {Q : α → Store → Prop} :
    wp (bail e temp err : Handler α) Q
      (fun _ s' => Uploaded ∅ {t | Cleans e ∧ t = temp} s s') s := by
  unfold bail cleanup
  rw [wp_bind]
  cases hclean : e.faults .uploadCleanup with
  | none =>
      refine ⟨rfl, fun t => ?_⟩
      by_cases ht : t = temp
      · subst ht
        simp [Store.HasUpload, Cleans, hclean]
      · simp [Store.HasUpload, ht, Files.read_remove_ne _ ht]
  | some n =>
      refine ⟨rfl, fun t => ?_⟩
      simp [Cleans, hclean]

/-- One more chunk is written. -/
theorem arrives_cons {k maxSize : Nat} {field : Field} {chunk : Bytes} {rest : List Bytes}
    {i size : Nat} :
    Arrives e k maxSize field (chunk :: rest) i size ↔ e.faults (.uploadWrite k i) = none ∧
      Arrives e k maxSize field rest (i + 1) (size + chunk.length) := by
  have hwrites : (∀ j < rest.length + 1, e.faults (.uploadWrite k (i + j)) = none) ↔
      e.faults (.uploadWrite k i) = none ∧
        ∀ j < rest.length, e.faults (.uploadWrite k (i + 1 + j)) = none := by
    rw [Nat.forall_lt_succ_left]
    simp only [Nat.add_zero, Nat.add_assoc, Nat.add_comm 1]
  simp only [Arrives, List.flatten_cons, List.length_append, List.length_cons, hwrites,
    Nat.add_assoc]
  tauto

/-- The rest of a field, behind what was written. -/
theorem wp_streamChunks_uploads {k maxSize : Nat} {field : Field} (chunks : List Bytes) (i : Nat)
    (written : Bytes) (hthere : s.HasUpload temp) (hfits : written.length ≤ maxSize) :
    wp (streamChunks e k temp maxSize field chunks i written)
      (fun content s' => Arrives e k maxSize field chunks i written.length ∧
        content = written ++ chunks.flatten ∧ Uploaded ∅ ∅ s s')
      (fun _ s' => ¬ Arrives e k maxSize field chunks i written.length ∧
        Uploaded ∅ {t | Cleans e ∧ t = temp} s s') s := by
  induction chunks generalizing i written s with
  | nil =>
      unfold streamChunks
      split
      · next hbroken =>
          exact wp_mono (fun _ _ h => h) (fun _ _ h => ⟨by simp [Arrives, hbroken], h⟩)
            wp_bail_uploads
      · next hends =>
          split
          · next hflush =>
              exact ⟨⟨by simpa using hfits, by simp, by simpa using hends, hflush⟩, by simp,
                Dressing.uploaded ⟨rfl, rfl⟩⟩
          · next hflush =>
              exact wp_mono (fun _ _ h => h) (fun _ _ h => ⟨by simp [Arrives, hflush], h⟩)
                wp_bail_uploads
  | cons chunk rest ih =>
      unfold streamChunks
      split
      · next hlarge =>
          refine wp_mono (fun _ _ h => h) (fun _ _ h => ⟨fun harrives => ?_, h⟩) wp_bail_uploads
          have hsize := (arrives_cons.mp harrives).2.1
          omega
      · next hsmall =>
          split
          · next hwrite =>
              refine wp_mono (fun _ _ h => h) (fun _ _ h => ⟨fun harrives => ?_, h⟩)
                wp_bail_uploads
              rw [(arrives_cons.mp harrives).1] at hwrite
              contradiction
          · next hwrite =>
              rw [wp_bind, wp_modify]
              -- the file was there before the chunk was written
              have hstart : Uploaded ∅ ∅ s
                  { s with uploads := s.uploads.write temp (written ++ chunk) } := by
                refine ⟨rfl, fun t => ?_⟩
                by_cases ht : t = temp
                · subst ht
                  simpa [Store.HasUpload] using hthere
                · simp [Store.HasUpload, Files.read_write_ne _ _ ht]
              have hrest := ih (s := { s with uploads := s.uploads.write temp (written ++ chunk) })
                (i + 1) (written ++ chunk) (by simp [Store.HasUpload])
                (by rw [List.length_append]; omega)
              rw [List.length_append] at hrest
              refine wp_mono (fun content s' h => ⟨arrives_cons.mpr ⟨hwrite, h.1⟩, ?_, ?_⟩)
                (fun _ s' h => ⟨fun harrives => h.1 (arrives_cons.mp harrives).2, ?_⟩) hrest
              · rw [h.2.1, List.append_assoc, List.flatten_cons]
              · simpa using hstart.trans h.2.2
              · simpa using hstart.trans h.2

/-- What the streaming of a field leaves. -/
theorem wp_streamFieldToTemp_uploads {X : ServerCrates} {dir : Dir} {k maxSize : Nat}
    {field : Field} :
    wp (streamFieldToTemp X e dir k maxSize field)
      (fun streamed s' => Streams e k maxSize field ∧
        streamed = ⟨uploadPath e dir k field, X.crypto.blake3 field.content, field.content.length⟩ ∧
        Uploaded {uploadPath e dir k field} ∅ s s')
      (fun _ s' => ¬ Streams e k maxSize field ∧
        Uploaded {t | Opens e k ∧ t = uploadPath e dir k field}
          {t | (Opens e k ∧ Cleans e) ∧ t = uploadPath e dir k field} s s') s := by
  unfold streamFieldToTemp
  simp only [wp_bind, wp_adapt]
  have hclosed : ∀ {s' : Store}, ¬ Opens e k → Dressing s s' →
      ¬ Streams e k maxSize field ∧ Uploaded {t | Opens e k ∧ t = uploadPath e dir k field}
        {t | (Opens e k ∧ Cleans e) ∧ t = uploadPath e dir k field} s s' := fun hclosed h =>
    ⟨fun hstreams => hclosed hstreams.1, by simpa [hclosed] using h.uploaded⟩
  refine wp_createDirs_cases (fun hdir s₁ h₁ => ?_) fun hdir s₁ h₁ => hclosed (fun h => hdir h.1) h₁
  refine wp_tryIo_cases (fun hcreate => ?_) fun hcreate => hclosed (fun h => hcreate h.2) h₁
  have hopens : Opens e k := ⟨hdir, hcreate⟩
  rw [wp_modify]
  have hcreated : Uploaded {uploadPath e dir k field} ∅ s
      { s₁ with uploads := s₁.uploads.write (uploadPath e dir k field) [] } := by
    refine ⟨h₁.artifacts, fun t => ?_⟩
    by_cases ht : t = uploadPath e dir k field
    · subst ht
      simp [Store.HasUpload]
    · simp [Store.HasUpload, Files.read_write_ne _ _ ht, ht, h₁.uploads]
  refine wp_mono (fun content s' h => ?_) (fun _ s' h => ?_)
    (wp_streamChunks_uploads field.chunks 0 [] (by simp [Store.HasUpload])
      (Nat.zero_le _))
  · obtain ⟨harrives, rfl, huploads⟩ := h
    exact ⟨⟨hopens, harrives⟩, rfl, by simpa using hcreated.trans huploads⟩
  · obtain ⟨harrives, huploads⟩ := h
    have hcleaned : Uploaded ∅ {t | Cleans e ∧ t = uploadPath e dir k field} _ s' := huploads
    exact ⟨fun hstreams => harrives hstreams.2, by simpa [hopens] using hcreated.trans hcleaned⟩

end Streaming

/-! ## reading a form -/

section Form

variable {α : Type} (e : ServerEnv) (dir : Dir) (name : String) (ok : Nat → Field → Bool)
  (add : Nat → Field → α → α)

/-- The fields that are read, and the one that the reading stops at. -/
def readForm : Nat → List Field → List Field × Option Field
  | _, [] => ([], none)
  | k, field :: rest =>
    if k + 1 ≤ maxMultipartFields ∧ ok k field = true then
      (field :: (readForm (k + 1) rest).1, (readForm (k + 1) rest).2)
    else ([], some field)

/-- What is collected from fields. -/
def addFields : Nat → List Field → α → α
  | _, [], acc => acc
  | k, field :: rest, acc => addFields (k + 1) rest (add k field acc)

/-- The temporary files of the fields with a name. -/
def uploadPaths : Nat → List Field → Set UploadPath
  | _, [] => ∅
  | k, field :: rest =>
    {t | field.name = name ∧ t = uploadPath e dir k field} ∪ uploadPaths (k + 1) rest

/-- The temporary file of the field that the reading stops at, if it is created. -/
def openedPath (k : Nat) (field : Field) : Set UploadPath :=
  {t | (k + 1 ≤ maxMultipartFields ∧ field.name = name ∧ Opens e k) ∧ t = uploadPath e dir k field}

/-- What is removed when the reading stops. -/
def cleanedPath (k : Nat) (field : Field) : Set UploadPath :=
  {t | Cleans e ∧ t ∈ openedPath e dir name k field}

/-- What one field of a form does. -/
def ReadsField (one : Nat → Field → α → Handler α) : Prop :=
  ∀ k field acc s, wp (one k field acc)
    (fun acc' s' => ok k field = true ∧ acc' = add k field acc ∧
      Uploaded {t | field.name = name ∧ t = uploadPath e dir k field} ∅ s s')
    (fun _ s' => ok k field = false ∧
      Uploaded {t | (field.name = name ∧ Opens e k) ∧ t = uploadPath e dir k field}
        {t | Cleans e ∧ (field.name = name ∧ Opens e k) ∧ t = uploadPath e dir k field} s s') s

variable {e dir name ok add} {one : Nat → Field → α → Handler α} {s : Store}

/-- What the reading of a form leaves: the temporary files of the fields that were read, and
of the field it stopped at if that one cannot be removed. -/
theorem wp_collectFields_uploads (hone : ReadsField e dir name ok add one) {broken : Bool}
    (fields : List Field) (k : Nat) (acc : α) :
    wp (collectFields one broken fields k acc)
      (fun acc' s' => readForm ok k fields = (fields, none) ∧ broken = false ∧
        acc' = addFields add k fields acc ∧ Uploaded (uploadPaths e dir name k fields) ∅ s s')
      (fun _ s' => (∃ seen field, readForm ok k fields = (seen, some field) ∧
          Uploaded (uploadPaths e dir name k seen ∪ openedPath e dir name (k + seen.length) field)
            (cleanedPath e dir name (k + seen.length) field) s s') ∨
        readForm ok k fields = (fields, none) ∧ broken = true ∧
          Uploaded (uploadPaths e dir name k fields) ∅ s s') s := by
  induction fields generalizing k acc s with
  | nil =>
      have hnone : Uploaded (uploadPaths e dir name k []) ∅ s s := Dressing.uploaded ⟨rfl, rfl⟩
      unfold collectFields
      cases broken with
      | true => exact .inr ⟨rfl, rfl, hnone⟩
      | false => exact ⟨rfl, rfl, rfl, hnone⟩
  | cons field rest ih =>
      unfold collectFields
      split
      · next hmany =>
          refine .inl ⟨[], field, if_neg fun h => by omega, ?_⟩
          have hopened : openedPath e dir name k field = ∅ :=
            Set.eq_empty_iff_forall_notMem.mpr fun t ht => by
              have hfew := ht.1.1
              omega
          simpa [cleanedPath, hopened, uploadPaths] using
            (Dressing.uploaded ⟨rfl, rfl⟩ : Uploaded ∅ ∅ s s)
      · next hfew =>
          have hfew : k + 1 ≤ maxMultipartFields := by omega
          rw [wp_bind]
          refine wp_mono (fun acc' s₁ h₁ => ?_) (fun _ s₁ h₁ => .inl ⟨[], field, ?_, ?_⟩)
            (hone k field acc s)
          · obtain ⟨hok, rfl, huploads⟩ := h₁
            have hread : readForm ok k (field :: rest) =
                (field :: (readForm ok (k + 1) rest).1, (readForm ok (k + 1) rest).2) :=
              if_pos ⟨hfew, hok⟩
            refine wp_mono (fun acc' s' h => ?_) (fun _ s' h => ?_) (ih (k + 1) _)
            · obtain ⟨hrest, hbroken, rfl, h⟩ := h
              exact ⟨by rw [hread, hrest], hbroken, rfl, huploads.trans h⟩
            · rcases h with ⟨seen, last, hrest, h⟩ | ⟨hrest, hbroken, h⟩
              · refine .inl ⟨field :: seen, last, by rw [hread, hrest], ?_⟩
                rw [List.length_cons, Nat.add_comm seen.length, ← Nat.add_assoc, uploadPaths,
                  Set.union_assoc]
                exact huploads.trans h
              · exact .inr ⟨by rw [hread, hrest], hbroken, huploads.trans h⟩
          · exact if_neg fun h => by simp [h.2] at h₁
          · simpa [openedPath, cleanedPath, uploadPaths, hfew] using h₁.2

/-! ### a form that is not stored -/

variable (e dir name ok)

/-- How a request fails that does not get to store its form, and what it leaves; `temp` is the
temporary file that is left of a form that was read. -/
inductive FormFailed (form : Form) (temp : Option UploadPath) (refuses : Prop) (s s' : Store) :
    Prop where
  | stopped {seen : List Field} {field : Field}
      (hread : readForm ok 0 form.fields = (seen, some field))
      (h : Uploaded (uploadPaths e dir name 0 seen ∪ openedPath e dir name seen.length field)
        (cleanedPath e dir name seen.length field) s s')
  | cut (hread : readForm ok 0 form.fields = (form.fields, none))
      (hwhy : form.broken = true ∨ temp = none)
      (h : Uploaded (uploadPaths e dir name 0 form.fields) ∅ s s')
  | refused {u : UploadPath} (hread : readForm ok 0 form.fields = (form.fields, none))
      (hbroken : form.broken = false) (htemp : temp = some u) (hrefuses : refuses)
      (h : Uploaded (uploadPaths e dir name 0 form.fields) {t | Cleans e ∧ t = u} s s')

/-- Each temporary file that such a request creates was there before, or it is the one that is
removed. -/
structure FormClean (form : Form) (temp : Option UploadPath) (refuses : Prop) (s : Store) :
    Prop where
  /-- The reading stops at a field. -/
  stopped : ∀ seen field, readForm ok 0 form.fields = (seen, some field) →
    ∀ t ∈ (uploadPaths e dir name 0 seen ∪ openedPath e dir name seen.length field) \
      cleanedPath e dir name seen.length field, s.HasUpload t
  /-- The form breaks off behind its last field, or no field was streamed. -/
  cut : readForm ok 0 form.fields = (form.fields, none) → form.broken = true ∨ temp = none →
    ∀ t ∈ uploadPaths e dir name 0 form.fields, s.HasUpload t
  /-- The form is refused. -/
  refused : readForm ok 0 form.fields = (form.fields, none) → form.broken = false →
    ∀ u, temp = some u → refuses →
    ∀ t ∈ uploadPaths e dir name 0 form.fields \ {t | Cleans e ∧ t = u}, s.HasUpload t

variable {e dir name ok} {form : Form} {temp : Option UploadPath} {refuses : Prop} {s' : Store}

/-- A form that fails changes nothing that is served. -/
theorem FormFailed.artifacts (h : FormFailed e dir name ok form temp refuses s s') :
    s'.toArtifacts = s.toArtifacts := by
  cases h with
  | stopped _ h => exact h.artifacts
  | cut _ _ h => exact h.artifacts
  | refused _ _ _ _ h => exact h.artifacts

/-- It leaves no upload exactly if each one streamed is removed again. -/
theorem FormFailed.noUploadLeft_iff (h : FormFailed e dir name ok form temp refuses s s') :
    NoUploadLeft s s' ↔ FormClean e dir name ok form temp refuses s := by
  cases h with
  | stopped hread h =>
      rw [Deltaship.noUploadLeft_iff h.uploads]
      constructor
      · intro hleft
        exact ⟨by simpa [hread] using hleft, by simp [hread], by simp [hread]⟩
      · intro hclean
        exact hclean.stopped _ _ hread
  | cut hread hwhy h =>
      rw [Deltaship.noUploadLeft_iff h.uploads]
      constructor
      · intro hleft
        refine ⟨by simp [hread], fun _ _ => by simpa using hleft, fun _ hbroken u htemp _ => ?_⟩
        simp [hbroken, htemp] at hwhy
      · intro hclean
        simpa using hclean.cut hread hwhy
  | refused hread hbroken htemp hrefuses h =>
      rw [Deltaship.noUploadLeft_iff h.uploads]
      constructor
      · intro hleft
        refine ⟨by simp [hread], by simp [hbroken, htemp], fun _ _ u hu _ => ?_⟩
        rw [← Option.some.inj (htemp.symm.trans hu)]
        exact hleft
      · intro hclean
        exact hclean.refused hread hbroken _ htemp hrefuses

/-- A form that is read and not refused does not fail. -/
theorem FormFailed.elim {u : UploadPath} (h : FormFailed e dir name ok form temp refuses s s')
    (hread : readForm ok 0 form.fields = (form.fields, none)) (hbroken : form.broken = false)
    (htemp : temp = some u) (hrefuses : ¬ refuses) : False := by
  cases h with
  | stopped hstop => simp [hread] at hstop
  | cut _ hwhy => simp [hbroken, htemp] at hwhy
  | refused _ _ _ h => exact hrefuses h

/-- A form that is read as a whole leaves the upload that is stored. -/
theorem formClean_of_read {u : UploadPath}
    (hread : readForm ok 0 form.fields = (form.fields, none)) (hbroken : form.broken = false)
    (htemp : temp = some u) (hrefuses : ¬ refuses) :
    FormClean e dir name ok form temp refuses s :=
  ⟨by simp [hread], by simp [hbroken, htemp], fun _ _ _ _ h => absurd h hrefuses⟩

end Form

end Deltaship
