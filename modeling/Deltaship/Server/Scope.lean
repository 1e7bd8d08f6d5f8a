import Deltaship.Server.DiffNames
import Deltaship.Server.Effects

/-!
# Deltaship.Server.Scope

Where a request may change something.

Every file and directory of the store has a path (`FileKey.path`).  A request
that passed its checks changes nothing but what is below the directory of its
application (`Confined`), and a request that did not changes nothing at all.  The
directories of two applications are apart, so a publisher that is restricted to
some applications changes nothing of the others.
-/

namespace Deltaship

open Lexical Prog

/-! ## the files as paths -/

/-- A file or a directory below `apps`. -/
inductive FileKey where
  | dir (d : Dir)
  | json (file : JsonFile)
  | temp (file : JsonFile)
  | binary (p : VersionPath) (platform : Platform)
  | signature (p : VersionPath)
  | marker (p : VersionPath)
  | diff (appName fileName : String)
  | upload (u : UploadPath)
deriving DecidableEq

/-- What is found at a path. -/
inductive Content where
  | directory
  | bytes (b : Bytes)
  | json (value : Option JsonValue)
  | temp (value : JsonValue) (written : Option Nat)
  | marker
deriving DecidableEq

/-- The content of a file. -/
def Store.content (s : Store) : FileKey → Option Content
  | .dir d => if d ∈ s.dirs then some .directory else none
  | .json (.catalog appName) => (s.catalogs.read appName).map fun c => .json (c.map .catalog)
  | .json (.manifest p) => (s.manifests.read p).map fun m => .json (m.map .manifest)
  | .json (.rollout p) => (s.rollouts.read p).map fun r => .json (r.map .rollout)
  | .temp file => (s.temps.read file).map fun t => .temp t.1 t.2
  | .binary p platform => (s.binaries.read (p, platform)).map .bytes
  | .signature p => (s.signatures.read p).map .bytes
  | .marker p => if p ∈ s.deleted then some .marker else none
  | .diff appName fileName => (s.diffs.read (appName, fileName)).map .bytes
  | .upload u => (s.uploads.read u).map .bytes

/-- The directory of a JSON file. -/
def JsonFile.dir : JsonFile → Dir
  | catalog appName => .app appName
  | manifest p => .version p
  | rollout p => .version p

/-- The name of a JSON file. -/
def JsonFile.name : JsonFile → String
  | catalog _ => "catalog.json"
  | manifest _ => "manifest.json"
  | rollout _ => "rollout.json"

/-- The name of a temporary file; `uniq_suffix` is the random number in
hexadecimal and the time. -/
def UploadPath.name (u : UploadPath) : String :=
  let uniqSuffix := String.ofList (Nat.toDigits 16 u.suffix.1 ++ Nat.toDigits 10 u.suffix.2)
  s!".upload-{u.field}-{uniqSuffix}.tmp"

section Paths

variable (dataDir : List Char)

/-- The path of a directory. -/
def Dir.path : Dir → List Char
  | app appName => appDir dataDir appName
  | versions appName => versionsDir dataDir appName
  | diffs appName => diffsDir dataDir appName
  | version p => versionDir dataDir p

/-- The path of a file. -/
def FileKey.path : FileKey → List Char
  | dir d => d.path dataDir
  | json file => join (file.dir.path dataDir) file.name.toList
  | temp file => join (file.dir.path dataDir) (file.name ++ ".tmp").toList
  | binary p platform => join (versionDir dataDir p) ("binary-" ++ platform.asStr).toList
  | signature p => join (versionDir dataDir p) "signature.sig".toList
  | marker p => join (versionDir dataDir p) ".deleted".toList
  | diff appName fileName => join (diffsDir dataDir appName) fileName.toList
  | upload u => join (u.dir.path dataDir) u.name.toList

/-- Something is found at a path. -/
def Store.Has (s : Store) (path : Path) (c : Content) : Prop :=
  ∃ k : FileKey, normalize (k.path dataDir) = path ∧ s.content k = some c

/-- A file is in the directory of an application, or below it. -/
def Below (appName : String) (k : FileKey) : Prop :=
  (normalize (appDir dataDir appName)).Contains (normalize (k.path dataDir))

end Paths

/-! ## what is below the directory of an application -/

/- Paths are compared after lexical normalization. All files of an application are written below its
directory, since names and versions are validated and the other parts of a path cannot lead out of
it. -/

/-- A directory of an application; its version, if it has one, was accepted. -/
def Dir.Of (n : String) : Dir → Prop
  | app appName => appName = n
  | versions appName => appName = n
  | diffs appName => appName = n
  | version p => p.appName = n ∧ validateVersion p.version = .ok ()

section Below

variable {n : String} {dataDir : List Char}

/-- The directory of an application contains that of its versions. -/
theorem contains_versionsDir :
    (normalize (appDir dataDir n)).Contains (normalize (versionsDir dataDir n)) := by
  unfold versionsDir
  exact contains_join (by decide) (by decide)

/-- It contains that of its diffs. -/
theorem contains_diffsDir :
    (normalize (appDir dataDir n)).Contains (normalize (diffsDir dataDir n)) := by
  unfold diffsDir
  exact contains_join (by decide) (by decide)

/-- It contains each of the directories that belong to the application. -/
theorem contains_dir {d : Dir} (h : d.Of n) :
    (normalize (appDir dataDir n)).Contains (normalize (d.path dataDir)) := by
  cases d with
  | app m => rw [show m = n from h]; exact .refl _
  | versions m => rw [show m = n from h]; exact contains_versionsDir
  | diffs m => rw [show m = n from h]; exact contains_diffsDir
  | version p =>
      obtain ⟨rfl, hversion⟩ := h
      exact contains_versionsDir.trans (contains_join_name hversion)

/-- A file of such a directory. -/
theorem contains_file {d : Dir} {name : List Char} (h : d.Of n) (hslash : '/' ∉ name)
    (hback : name ≠ ['.', '.']) :
    (normalize (appDir dataDir n)).Contains (normalize (join (d.path dataDir) name)) :=
  (contains_dir h).trans (contains_join hslash hback)

/-- Every directory that is made on the way to one of them lies below it. -/
theorem below_chain {d : Dir} (h : d.Of n) : ∀ d' ∈ d.chain, Below dataDir n (.dir d') := by
  intro d' hd'
  refine contains_dir (d := d') ?_
  cases d with
  | app m => rw [List.mem_singleton.mp hd']; exact h
  | versions m =>
      simp only [Dir.chain, List.mem_cons, List.not_mem_nil, or_false] at hd'
      rcases hd' with rfl | rfl <;> exact h
  | diffs m =>
      simp only [Dir.chain, List.mem_cons, List.not_mem_nil, or_false] at hd'
      rcases hd' with rfl | rfl <;> exact h
  | version p =>
      simp only [Dir.chain, List.mem_cons, List.not_mem_nil, or_false] at hd'
      rcases hd' with rfl | rfl | rfl
      · exact h.1
      · exact h.1
      · exact h

/-- The JSON files of an application lie below its directory. -/
theorem below_json {file : JsonFile} (h : file.dir.Of n) : Below dataDir n (.json file) := by
  refine contains_file h ?_ ?_ <;> cases file <;> dsimp only [JsonFile.name] <;> decide

/-- So do the files they are written to first. -/
theorem below_temp {file : JsonFile} (h : file.dir.Of n) : Below dataDir n (.temp file) := by
  refine contains_file h ?_ ?_ <;> cases file <;> dsimp only [JsonFile.name] <;> decide

section Version

variable {p : VersionPath}

/-- So do its binaries. -/
theorem below_binary {platform : Platform} (h : (Dir.version p).Of n) :
    Below dataDir n (.binary p platform) := by
  refine contains_file h ?_ ?_ <;> cases platform <;> decide

/-- So do its signatures. -/
theorem below_signature (h : (Dir.version p).Of n) : Below dataDir n (.signature p) :=
  contains_file h (by decide) (by decide)

/-- So do the markers of its deleted versions. -/
theorem below_marker (h : (Dir.version p).Of n) : Below dataDir n (.marker p) :=
  contains_file h (by decide) (by decide)

end Version

/-- The name of a diff is longer than `..`. -/
theorem below_diff {f t : String} {platform : Platform} (hf : validateVersion f = .ok ())
    (ht : validateVersion t = .ok ()) :
    Below dataDir n (.diff n (diffFileName f t platform)) := by
  refine contains_diffsDir.trans (contains_join (slash_not_mem_diffFileName hf ht) fun h => ?_)
  have hlength := congrArg List.length h
  rw [toList_diffFileName, toList_diffSpec] at hlength
  simp at hlength
  omega

/-- A number has no separator in it. -/
theorem slash_not_mem_toDigits {b : Nat} (hb : 1 < b) (k : Nat) : '/' ∉ Nat.toDigits b k := by
  induction k using Nat.strongRecOn with
  | ind k ih =>
      rw [Nat.toDigits_eq_if hb]
      split
      · simp
      · next hle =>
          have hlt : k / b < k := Nat.div_lt_self (by omega) hb
          simpa using ih _ hlt

/-- So do the uploads, as the name of a field has no separator. -/
theorem below_upload {u : UploadPath} (h : u.dir.Of n) (hfield : '/' ∉ u.field.toList) :
    Below dataDir n (.upload u) := by
  have hname : u.name.toList = ".upload-".toList ++ (u.field.toList ++ ("-".toList ++
      (Nat.toDigits 16 u.suffix.1 ++ Nat.toDigits 10 u.suffix.2 ++ ".tmp".toList))) := by
    simp [UploadPath.name, ToString.toString]
  refine contains_file h ?_ fun hback => ?_
  · have hhex := slash_not_mem_toDigits (b := 16) (by decide) u.suffix.1
    have hnanos := slash_not_mem_toDigits (b := 10) (by decide) u.suffix.2
    rw [hname]
    simp only [List.mem_append, not_or]
    exact ⟨by decide, hfield, by decide, ⟨hhex, hnanos⟩, by decide⟩
  · have hlength := congrArg List.length hback
    rw [hname] at hlength
    simp at hlength

end Below

/-! ## frames -/

/-- Outside `K` the two stores hold the same. -/
structure Confined (K : FileKey → Prop) (s s' : Store) : Prop where
  dirs : ∀ d, ¬ K (.dir d) → (d ∈ s'.dirs ↔ d ∈ s.dirs)
  catalogs : Files.AgreeOff (fun n => K (.json (.catalog n))) s.catalogs s'.catalogs
  manifests : Files.AgreeOff (fun p => K (.json (.manifest p))) s.manifests s'.manifests
  rollouts : Files.AgreeOff (fun p => K (.json (.rollout p))) s.rollouts s'.rollouts
  temps : Files.AgreeOff (fun file => K (.temp file)) s.temps s'.temps
  binaries : Files.AgreeOff (fun b => K (.binary b.1 b.2)) s.binaries s'.binaries
  signatures : Files.AgreeOff (fun p => K (.signature p)) s.signatures s'.signatures
  deleted : ∀ p, ¬ K (.marker p) → (p ∈ s'.deleted ↔ p ∈ s.deleted)
  diffs : Files.AgreeOff (fun d => K (.diff d.1 d.2)) s.diffs s'.diffs
  uploads : Files.AgreeOff (fun u => K (.upload u)) s.uploads s'.uploads

namespace Confined

variable {K : FileKey → Prop} {s s' s'' : Store}

/-- Where nothing was done, nothing else was changed. -/
theorem refl (K : FileKey → Prop) (s : Store) : Confined K s s :=
  ⟨fun _ _ => .rfl, .refl _ _, .refl _ _, .refl _ _, .refl _ _, .refl _ _, .refl _ _,
    fun _ _ => .rfl, .refl _ _, .refl _ _⟩

/-- Two changes within the same files are one. -/
theorem trans (h : Confined K s s') (h' : Confined K s' s'') : Confined K s s'' where
  dirs d hd := (h'.dirs d hd).trans (h.dirs d hd)
  catalogs := h.catalogs.trans h'.catalogs
  manifests := h.manifests.trans h'.manifests
  rollouts := h.rollouts.trans h'.rollouts
  temps := h.temps.trans h'.temps
  binaries := h.binaries.trans h'.binaries
  signatures := h.signatures.trans h'.signatures
  deleted p hp := (h'.deleted p hp).trans (h.deleted p hp)
  diffs := h.diffs.trans h'.diffs
  uploads := h.uploads.trans h'.uploads

instance : IsPreorder Store (Confined K) where
  refl := refl K
  trans _ _ _ := trans

/-- The other files have the content that they had. -/
theorem content (h : Confined K s s') {k : FileKey} (hk : ¬ K k) : s'.content k = s.content k := by
  cases k with
  | dir d => simp only [Store.content, h.dirs d hk]
  | json file =>
      cases file with
      | catalog n => simp only [Store.content, h.catalogs n hk]
      | manifest p => simp only [Store.content, h.manifests p hk]
      | rollout p => simp only [Store.content, h.rollouts p hk]
  | temp file => simp only [Store.content, h.temps file hk]
  | binary p platform => simp only [Store.content, h.binaries (p, platform) hk]
  | signature p => simp only [Store.content, h.signatures p hk]
  | marker p => simp only [Store.content, h.deleted p hk]
  | diff n fileName => simp only [Store.content, h.diffs (n, fileName) hk]
  | upload u => simp only [Store.content, h.uploads u hk]

end Confined

/-! ## operations -/

/- One lemma for each operation of the storage, also where it fails: it changes nothing outside the
directory of the application. The directories that it makes on the way are the ones above it. -/

section Operations

variable {S : SemverCrate} {e : ServerEnv} {dataDir : List Char} {n : String} {p : VersionPath}

/-- A call that can fail does nothing by itself. -/
theorem confined_tryIo {site : ServerSite} :
    Preserves (Confined (Below dataDir n)) (tryIo e site) := by
  unfold tryIo
  split
  · exact .pure
  · exact .throw

/-- Making directories of the application changes nothing outside it. -/
theorem confined_union {s : Store} {ds : List Dir} (h : ∀ d ∈ ds, Below dataDir n (.dir d)) :
    Confined (Below dataDir n) s { s with dirs := ds ∪ s.dirs } :=
  { Confined.refl _ s with
    dirs := fun d hd => by
      rw [List.mem_union_iff]
      exact or_iff_right fun hmem => hd (h d hmem) }

/-- So does making those on the way to one of them. -/
theorem confined_createDirs {site : ServerSite} {d : Dir} (h : d.Of n) :
    Preserves (Confined (Below dataDir n)) (createDirs e site d) := by
  unfold createDirs
  split
  · exact fun s => confined_union (below_chain h)
  · next k _ =>
      exact .bind
        (fun s => confined_union fun d' hd' => below_chain h d' (List.mem_of_mem_take hd'))
        fun _ => .throw

/-- A temporary file is written in the directory of its JSON file. -/
theorem confined_writeTemp {op : JsonOp → ServerSite} {file : JsonFile} {value : JsonValue}
    (h : file.dir.Of n) : Preserves (Confined (Below dataDir n)) (writeTemp e op file value) := by
  have hwrite :
      ∀ (s : Store) t, Confined (Below dataDir n) s { s with temps := s.temps.write file t } :=
    fun s t => { Confined.refl _ s with temps := .write (below_temp h) }
  unfold writeTemp
  split
  · exact fun s => hwrite s _
  · exact .bind (fun s => hwrite s _) fun _ => .throw

/-- Moving an upload into place stays within the application. -/
theorem confined_saveBinaryFromTemp {platform : Platform} {temp : UploadPath}
    (h : (Dir.version p).Of n) (htemp : Below dataDir n (.upload temp)) :
    Preserves (Confined (Below dataDir n)) (saveBinaryFromTemp e p platform temp) := by
  unfold saveBinaryFromTemp ensureVersionDir
  refine .bind (confined_createDirs h) fun _ => .bind confined_tryIo fun _ => .bind .get fun _ => ?_
  split
  · exact .throw
  · exact fun s =>
      { Confined.refl _ s with
        uploads := .remove htemp
        binaries := .write (below_binary h) }

/-- Saving a signature stays within it, also when the write fails in the middle. -/
theorem confined_saveSignature {data : Bytes} (h : (Dir.version p).Of n) :
    Preserves (Confined (Below dataDir n)) (saveSignature e p data) := by
  have hwrite : ∀ (s : Store) b,
      Confined (Below dataDir n) s { s with signatures := s.signatures.write p b } :=
    fun s b => { Confined.refl _ s with signatures := .write (below_signature h) }
  unfold saveSignature ensureVersionDir
  refine .bind (confined_createDirs h) fun _ => .bind confined_tryIo fun _ => ?_
  split
  · exact fun s => hwrite s _
  · exact .bind (fun s => hwrite s _) fun _ => .throw

/-- Moving a diff into place stays within it, as its versions are checked. -/
theorem confined_saveDiffFromTemp {f t : String} {platform : Platform} {temp : UploadPath}
    (hf : validateVersion f = .ok ()) (ht : validateVersion t = .ok ())
    (htemp : Below dataDir n (.upload temp)) :
    Preserves (Confined (Below dataDir n)) (saveDiffFromTemp e n f t platform temp) := by
  unfold saveDiffFromTemp ensureDiffsDir
  refine .bind (confined_createDirs rfl) fun _ => .bind confined_tryIo
    fun _ => .bind .get fun _ => ?_
  split
  · exact .throw
  · exact fun s =>
      { Confined.refl _ s with
        uploads := .remove htemp
        diffs := .write (below_diff hf ht) }

/-- A file that is created for a lock. -/
theorem agreeOff_create {π κ : Type} [DecidableEq π] {P : π → Prop} {f : Files π κ} {k : π} {b : κ}
    (h : P k) : Files.AgreeOff P f (if (f.read k).isSome then f else f.write k b) := by
  split
  · exact .refl P f
  · exact .write h

theorem confined_replaceCatalog {catalog : AppCatalog} :
    Preserves (Confined (Below dataDir n)) (replaceCatalog e n catalog) := by
  unfold replaceCatalog
  refine .bind (confined_writeTemp rfl) fun _ => .bind confined_tryIo fun _ s => ?_
  exact { Confined.refl _ s with
    temps := .remove (below_temp rfl)
    catalogs := .write (below_json rfl) }

theorem confined_updateCatalogAtomic {info : VersionInfo} :
    Preserves (Confined (Below dataDir n)) (updateCatalogAtomic S e n info) := by
  have hopen : Preserves (Confined (Below dataDir n)) (openCatalog e n) := by
    unfold openCatalog
    refine .bind confined_tryIo fun _ => .bind (fun s => ?_) fun _ => confined_tryIo
    exact { Confined.refl _ s with catalogs := agreeOff_create (below_json rfl) }
  unfold updateCatalogAtomic ensureAppDirs
  refine .bind ?_ fun _ => .bind hopen fun _ => .bind .get fun _ => confined_replaceCatalog
  exact .bind (confined_createDirs rfl) fun _ => confined_createDirs rfl

theorem confined_readCatalog : Preserves (Confined (Below dataDir n)) (readCatalog e n) := by
  unfold readCatalog
  refine .bind confined_tryIo fun _ => .bind confined_tryIo fun _ => .bind confined_tryIo fun _ =>
    .bind .get fun _ => ?_
  split
  · exact .pure
  · exact .throw

/-- Activating a version changes the catalog of the application only. -/
theorem confined_setLatestVersion :
    Preserves (Confined (Below dataDir p.appName)) (setLatestVersion S e p) := by
  unfold setLatestVersion
  refine .bind .get fun _ => .ite .throw ?_
  exact .bind confined_readCatalog fun _ => .bind .ofExcept fun _ => confined_replaceCatalog

/-- Marking a version as deleted stays within the application. -/
theorem confined_deleteVersionFiles (h : (Dir.version p).Of p.appName) :
    Preserves (Confined (Below dataDir p.appName)) (deleteVersionFiles S e p) := by
  unfold deleteVersionFiles
  refine .bind .get fun _ => .ite ?_ .throw
  refine .bind confined_tryIo fun _ => .bind (fun s => ?_)
    fun _ => .bind .get fun _ => .ite ?_ .pure
  · refine { Confined.refl _ s with deleted := fun q hq => ?_ }
    show q ∈ s.deleted.insert p ↔ q ∈ s.deleted
    rw [List.mem_insert_iff]
    refine or_iff_right fun heq => hq ?_
    rw [heq]
    exact below_marker h
  · exact .bind confined_readCatalog fun _ => .bind .get fun _ => confined_replaceCatalog

theorem confined_replaceManifest {manifest : VersionManifest} (h : (Dir.version p).Of n) :
    Preserves (Confined (Below dataDir n)) (replaceManifest e p manifest) := by
  unfold replaceManifest
  refine .bind (confined_writeTemp h) fun _ => .bind confined_tryIo fun _ s => ?_
  exact { Confined.refl _ s with
    temps := .remove (below_temp h)
    manifests := .write (below_json h) }

theorem confined_updateManifest {platform : Platform} {checksum : String} {size : Nat}
    (h : (Dir.version p).Of n) :
    Preserves (Confined (Below dataDir n)) (updateManifest S e p platform checksum size) := by
  unfold updateManifest ensureVersionDir
  refine .bind (confined_createDirs h) fun _ => .bind confined_tryIo fun _ => .bind (fun s => ?_)
    fun _ => .bind confined_tryIo fun _ => .bind .get fun _ => ?_
  · exact { Confined.refl _ s with manifests := agreeOff_create (below_json h) }
  · dsimp only
    split
    · exact confined_replaceManifest h
    · exact confined_replaceManifest h
    · exact .throw

theorem confined_addDiffToManifest {platform : Platform} {diff : DiffInfo}
    (h : (Dir.version p).Of n) :
    Preserves (Confined (Below dataDir n)) (addDiffToManifest e p platform diff) := by
  unfold addDiffToManifest
  refine .bind .get fun _ => .ite .throw ?_
  refine .bind confined_tryIo fun _ => .bind confined_tryIo fun _ => .bind confined_tryIo fun _ =>
    .bind .get fun _ => ?_
  split
  · exact .throw
  · split
    · exact .throw
    · exact confined_replaceManifest h

theorem confined_updateRolloutConfigAtomic {update : RolloutConfig → RolloutConfig}
    (h : (Dir.version p).Of n) :
    Preserves (Confined (Below dataDir n)) (updateRolloutConfigAtomic e p update) := by
  unfold updateRolloutConfigAtomic ensureVersionDir
  refine .bind (confined_createDirs h) fun _ => .bind confined_tryIo fun _ => .bind (fun s => ?_)
    fun _ => .bind confined_tryIo fun _ => .bind .get fun _ => .bind (confined_writeTemp h) fun _ =>
    .bind confined_tryIo fun _ => .bind (fun s => ?_) fun _ => .pure
  · exact { Confined.refl _ s with rollouts := agreeOff_create (below_json h) }
  · exact { Confined.refl _ s with
      temps := .remove (below_temp h)
      rollouts := .write (below_json h) }

end Operations

/-! ## forms -/

/- A form is streamed into files below the directory of the application as well. They are removed
when the request is answered with an error. -/

section Forms

variable {X : ServerCrates} {e : ServerEnv} {dataDir : List Char} {n : String} {s : Store}

/-- Answering with an error removes the upload and nothing else. -/
theorem confined_bail {α : Type} {temp : UploadPath} {err : HttpError}
    (h : Below dataDir n (.upload temp)) :
    Preserves (Confined (Below dataDir n)) (bail e temp err : Handler α) := by
  unfold bail cleanup
  refine .bind ?_ fun _ => .throw
  split
  · exact fun s => { Confined.refl _ s with uploads := .remove h }
  · exact .pure

theorem confined_streamChunks {k maxSize : Nat} {temp : UploadPath} {field : Field}
    (h : Below dataDir n (.upload temp)) (chunks : List Bytes) (i : Nat) (written : Bytes) :
    Preserves (Confined (Below dataDir n))
      (streamChunks e k temp maxSize field chunks i written) := by
  induction chunks generalizing i written with
  | nil =>
      unfold streamChunks
      refine .ite (confined_bail h) ?_
      split
      · exact .pure
      · exact confined_bail h
  | cons chunk rest ih =>
      unfold streamChunks
      refine .ite (confined_bail h) ?_
      split
      · exact confined_bail h
      · exact .bind (fun s => { Confined.refl _ s with uploads := .write h }) fun _ => ih _ _

/-- A streamed field is in a directory of the application. -/
theorem confined_streamFieldToTemp {dir : Dir} {k maxSize : Nat} {field : Field} (h : dir.Of n)
    (hfield : '/' ∉ field.name.toList) :
    wp (streamFieldToTemp X e dir k maxSize field)
      (fun streamed s' => Confined (Below dataDir n) s s' ∧
        Below dataDir n (.upload streamed.tempPath))
      (fun _ s' => Confined (Below dataDir n) s s') s := by
  have hbelow : Below dataDir n (.upload ⟨dir, field.name, e.uniqSuffix k⟩) := below_upload h hfield
  unfold streamFieldToTemp
  refine (confined_createDirs h).adapt.wp_bind (fun _ s₁ h₁ => ?_) fun _ _ h => h
  refine confined_tryIo.adapt.wp_bind (fun _ s₂ h₂ => ?_) fun _ _ h => h₁.trans h
  rw [wp_bind, wp_modify]
  have hwrite : Confined (Below dataDir n) s₂ { s₂ with uploads := s₂.uploads.write _ [] } :=
    { Confined.refl _ s₂ with uploads := .write hbelow }
  refine (confined_streamChunks hbelow _ _ _).wp_bind (fun _ s' h' => ?_) fun _ s' h' => ?_
  · exact wp_pure.mpr ⟨h₁.trans (h₂.trans (hwrite.trans h')), hbelow⟩
  · exact h₁.trans (h₂.trans (hwrite.trans h'))

/-- What `publish_version` has streamed is in a directory of the application. -/
theorem confined_collectPublish {p : VersionPath} (h : (Dir.version p).Of n) (k : Nat)
    (field : Field) (acc : PublishForm) (s : Store)
    (hacc : ∀ streamed, acc.binary = some streamed →
      Below dataDir n (.upload streamed.tempPath)) :
    wp (collectPublish X e p k field acc)
      (fun acc' s' => Confined (Below dataDir n) s s' ∧ ∀ streamed, acc'.binary = some streamed →
        Below dataDir n (.upload streamed.tempPath))
      (fun _ s' => Confined (Below dataDir n) s s') s := by
  have hsame : Confined (Below dataDir n) s s := .refl _ s
  unfold collectPublish
  split
  · next hname =>
      rw [wp_bind]
      refine wp_mono (fun streamed s' hs => wp_pure.mpr ⟨hs.1, fun x hx => ?_⟩) (fun _ _ hs => hs)
        (confined_streamFieldToTemp h (by rw [hname]; decide))
      rw [← Option.some.inj hx]
      exact hs.2
  · rw [wp_bind]
    exact wp_check (fun _ _ => wp_pure.mpr ⟨hsame, hacc⟩) fun _ => hsame
  · rw [wp_bind]
    refine wp_check (fun text _ => ?_) fun _ => hsame
    generalize decodeSignature X text = decoded
    rw [wp_bind]
    exact wp_check (fun _ _ => wp_pure.mpr ⟨hsame, hacc⟩) fun _ => hsame
  · rw [wp_bind]
    exact wp_check (fun _ _ => wp_pure.mpr ⟨hsame, hacc⟩) fun _ => hsame
  · rw [wp_bind]
    refine wp_check (fun notes _ => wp_pure.mpr ⟨hsame, ?_⟩) fun _ => hsame
    split
    · exact hacc
    · exact hacc
  · exact wp_pure.mpr ⟨hsame, hacc⟩

/-- Reading the fields of a diff form stays within the application. -/
theorem confined_collectDiff {p : DiffPath} (h : p.appName = n) (k : Nat) (field : Field)
    (acc : DiffForm) (s : Store)
    (hacc : ∀ streamed, acc.diff = some streamed → Below dataDir n (.upload streamed.tempPath)) :
    wp (collectDiff X e p k field acc)
      (fun acc' s' => Confined (Below dataDir n) s s' ∧ ∀ streamed, acc'.diff = some streamed →
        Below dataDir n (.upload streamed.tempPath))
      (fun _ s' => Confined (Below dataDir n) s s') s := by
  have hsame : Confined (Below dataDir n) s s := .refl _ s
  unfold collectDiff
  split
  · next hname =>
      rw [wp_bind]
      refine wp_mono (fun streamed s' hs => wp_pure.mpr ⟨hs.1, fun x hx => ?_⟩) (fun _ _ hs => hs)
        (confined_streamFieldToTemp h (by rw [hname]; decide))
      rw [← Option.some.inj hx]
      exact hs.2
  · rw [wp_bind]
    exact wp_check (fun _ _ => wp_pure.mpr ⟨hsame, hacc⟩) fun _ => hsame
  · rw [wp_bind]
    exact wp_check (fun _ _ => wp_pure.mpr ⟨hsame, hacc⟩) fun _ => hsame
  · rw [wp_bind]
    refine wp_check (fun algorithm _ => ?_) fun _ => hsame
    split
    · exact wp_pure.mpr ⟨hsame, hacc⟩
    · exact hsame
  · exact wp_pure.mpr ⟨hsame, hacc⟩

end Forms

/-! ## requests -/

/- The check of the publisher's scope comes before anything is written, and everything that is
written is below the directory of the application that the request names. -/

/-- What a request of a publisher for an application may do: nothing, or something
below the directory of the application, if the publisher may change it. -/
def Scoped (dataDir : List Char) (publisher : Publisher) (appName : String) (s s' : Store) : Prop :=
  s' = s ∨ publisher.canPublish appName = true ∧ validateName appName = .ok () ∧
    Confined (Below dataDir appName) s s'

section Requests

variable {X : ServerCrates} {e : ServerEnv} {dataDir : List Char} {publisher : Publisher}

/-- So does storing what a publication consists of. -/
theorem confined_storePublish {p : VersionPath} {version : Version} {streamed : StreamedField}
    {checked : CheckedPublish} {notes : Option String} (h : (Dir.version p).Of p.appName)
    (htemp : Below dataDir p.appName (.upload streamed.tempPath)) :
    Preserves (Confined (Below dataDir p.appName))
      (storePublish X e p version streamed checked notes) := by
  unfold storePublish
  refine .bind (confined_saveBinaryFromTemp h htemp).adapt.attempt fun r => ?_
  cases r with
  | error err => exact confined_bail htemp
  | ok _ =>
      refine Preserves.adapt (.bind (confined_saveSignature h) fun _ => ?_)
      exact .bind (confined_updateManifest h) fun _ => confined_updateCatalogAtomic

/-- A publication is refused or stays within its application. -/
theorem scoped_publishVersion {p : VersionPath} {form : Form} :
    Preserves (Scoped dataDir publisher p.appName) (publishVersion X e publisher p form) := by
  refine .of_wp fun s => ?_
  have hsame : Scoped dataDir publisher p.appName s s := .inl rfl
  unfold publishVersion
  rw [wp_bind]
  refine wp_requireValid (fun hname => ?_) fun _ => hsame
  rw [wp_bind]
  refine wp_requireValid (fun hversion => ?_) fun _ => hsame
  rw [wp_bind]
  refine wp_check (fun version _ => ?_) fun _ => hsame
  rw [wp_bind]
  refine wp_requirePublisher (fun hallowed => ?_) fun _ => hsame
  have hscoped : ∀ {s'}, Confined (Below dataDir p.appName) s s' →
      Scoped dataDir publisher p.appName s s' := fun h => .inr ⟨hallowed, hname, h⟩
  have hdir : (Dir.version p).Of p.appName := ⟨rfl, hversion⟩
  refine (confined_createDirs hdir).adapt.wp_bind (fun _ s₁ h₁ => ?_) fun _ _ h => hscoped h
  rw [wp_bind]
  refine wp_mono (fun collected s₂ h₂ => ?_) (fun _ _ h => hscoped (h₁.trans h))
    (wp_collectFields (fun k _ field acc s hacc => confined_collectPublish hdir k field acc s hacc)
      form.fields [] 0 {} fun _ h => by contradiction)
  have hfrom : ∀ {s'}, Confined (Below dataDir p.appName) s₂ s' →
      Scoped dataDir publisher p.appName s s' := fun h => hscoped (h₁.trans (h₂.1.trans h))
  rw [wp_bind]
  refine wp_check (fun streamed hstreamed => ?_) fun _ => hfrom (.refl _ _)
  have htemp := h₂.2 streamed (Except.ofOption_eq_ok.mp hstreamed)
  split
  · exact (confined_bail htemp).wp (fun _ _ h => hfrom h) fun _ _ h => hfrom h
  · exact (confined_storePublish hdir htemp).wp_bind (fun _ _ h => hfrom h) fun _ _ h => hfrom h

theorem confined_storeDiff {p : DiffPath} {fromVersion : Version} {streamed : StreamedField}
    {platform : Platform} {checksum algorithm : String}
    (hf : validateVersion p.fromVersion = .ok ()) (ht : validateVersion p.toVersion = .ok ())
    (htemp : Below dataDir p.appName (.upload streamed.tempPath)) :
    Preserves (Confined (Below dataDir p.appName))
      (storeDiff e p fromVersion streamed platform checksum algorithm) := by
  unfold storeDiff
  refine .bind (confined_saveDiffFromTemp hf ht htemp).adapt.attempt fun r => ?_
  cases r with
  | error err => exact confined_bail htemp
  | ok _ =>
      have hdir : (Dir.version ⟨p.appName, p.toVersion⟩).Of p.appName := ⟨rfl, ht⟩
      exact (confined_addDiffToManifest hdir).adapt

/-- The upload of a diff is refused or stays within its application. -/
theorem scoped_uploadDiff {p : DiffPath} {form : Form} :
    Preserves (Scoped dataDir publisher p.appName) (uploadDiff X e publisher p form) := by
  refine .of_wp fun s => ?_
  have hsame : Scoped dataDir publisher p.appName s s := .inl rfl
  unfold uploadDiff
  rw [wp_bind]
  refine wp_requireValid (fun hname => ?_) fun _ => hsame
  rw [wp_bind]
  refine wp_requirePublisher (fun hallowed => ?_) fun _ => hsame
  rw [wp_bind]
  refine wp_requireValid (fun hf => ?_) fun _ => hsame
  rw [wp_bind]
  refine wp_requireValid (fun ht => ?_) fun _ => hsame
  rw [wp_bind]
  refine wp_check (fun fromVersion _ => ?_) fun _ => hsame
  rw [wp_bind]
  refine wp_check (fun _ _ => ?_) fun _ => hsame
  have hscoped : ∀ {s'}, Confined (Below dataDir p.appName) s s' →
      Scoped dataDir publisher p.appName s s' := fun h => .inr ⟨hallowed, hname, h⟩
  have hdir : (Dir.diffs p.appName).Of p.appName := rfl
  refine (confined_createDirs hdir).adapt.wp_bind (fun _ s₁ h₁ => ?_) fun _ _ h => hscoped h
  rw [wp_bind]
  refine wp_mono (fun collected s₂ h₂ => ?_) (fun _ _ h => hscoped (h₁.trans h))
    (wp_collectFields (fun k _ field acc s hacc => confined_collectDiff rfl k field acc s hacc)
      form.fields [] 0 {} fun _ h => by contradiction)
  have hfrom : ∀ {s'}, Confined (Below dataDir p.appName) s₂ s' →
      Scoped dataDir publisher p.appName s s' := fun h => hscoped (h₁.trans (h₂.1.trans h))
  rw [wp_bind]
  refine wp_check (fun streamed hstreamed => ?_) fun _ => hfrom (.refl _ _)
  have htemp := h₂.2 streamed (Except.ofOption_eq_ok.mp hstreamed)
  split
  · exact (confined_bail htemp).wp (fun _ _ h => hfrom h) fun _ _ h => hfrom h
  · exact (confined_storeDiff hf ht htemp).wp_bind (fun _ _ h => hfrom h) fun _ _ h => hfrom h

/-- An activation is refused or stays within its application. -/
theorem scoped_activateVersion {p : VersionPath} {request : Option ActivateRequest} :
    Preserves (Scoped dataDir publisher p.appName) (activateVersion X e publisher p request) := by
  refine .of_wp fun s => ?_
  have hsame : Scoped dataDir publisher p.appName s s := .inl rfl
  unfold activateVersion
  rw [wp_bind]
  refine wp_requireValid (fun hname => ?_) fun _ => hsame
  rw [wp_bind]
  refine wp_requirePublisher (fun hallowed => ?_) fun _ => hsame
  rw [wp_bind]
  refine wp_requireValid (fun _ => ?_) fun _ => hsame
  exact confined_setLatestVersion.adapt.wp_bind (fun _ _ h => .inr ⟨hallowed, hname, h⟩)
    fun _ _ h => .inr ⟨hallowed, hname, h⟩

/-- A deletion is refused or stays within its application. -/
theorem scoped_deleteVersion {p : VersionPath} :
    Preserves (Scoped dataDir publisher p.appName) (deleteVersion X e publisher p) := by
  refine .of_wp fun s => ?_
  have hsame : Scoped dataDir publisher p.appName s s := .inl rfl
  unfold deleteVersion
  rw [wp_bind]
  refine wp_requireValid (fun hname => ?_) fun _ => hsame
  rw [wp_bind]
  refine wp_requirePublisher (fun hallowed => ?_) fun _ => hsame
  rw [wp_bind]
  refine wp_requireValid (fun hversion => ?_) fun _ => hsame
  exact (confined_deleteVersionFiles ⟨rfl, hversion⟩).adapt.wp_bind
    (fun _ _ h => .inr ⟨hallowed, hname, h⟩) fun _ _ h => .inr ⟨hallowed, hname, h⟩

/-- A change of a rollout is refused or stays within its application. -/
theorem scoped_updateRollout {p : VersionPath} {request : RolloutRequest} :
    Preserves (Scoped dataDir publisher p.appName) (updateRollout e publisher p request) := by
  refine .of_wp fun s => ?_
  have hsame : Scoped dataDir publisher p.appName s s := .inl rfl
  unfold updateRollout
  rw [wp_bind]
  refine wp_requireValid (fun hname => ?_) fun _ => hsame
  rw [wp_bind]
  refine wp_requirePublisher (fun hallowed => ?_) fun _ => hsame
  rw [wp_bind]
  refine wp_requireValid (fun hversion => ?_) fun _ => hsame
  split
  · exact hsame
  · rw [wp_bind, wp_get]
    split
    · exact hsame
    · exact (confined_updateRolloutConfigAtomic ⟨rfl, hversion⟩).adapt.wp_bind
        (fun _ _ h => .inr ⟨hallowed, hname, h⟩) fun _ _ h => .inr ⟨hallowed, hname, h⟩

end Requests

namespace Request

/-- The publisher a request was authenticated as. -/
def publisher : Request → Publisher
  | publish _ publisher _ _ | uploadDiff _ publisher _ _ | activate _ publisher _ _
  | rollout _ publisher _ _ | delete _ publisher _ => publisher

/-- The application a request names. -/
def appName : Request → String
  | publish _ _ p _ | activate _ _ p _ | rollout _ _ p _ | delete _ _ p => p.appName
  | uploadDiff _ _ p _ => p.appName

/-- Every request keeps to the scope of its publisher. -/
theorem next_scoped (X : ServerCrates) (s : Store) (q : Request) (dataDir : List Char) :
    Scoped dataDir q.publisher q.appName s (q.next X s) := by
  cases q with
  | publish e publisher p form => exact scoped_publishVersion s
  | uploadDiff e publisher p form => exact scoped_uploadDiff s
  | activate e publisher p request => exact scoped_activateVersion s
  | rollout e publisher p request => exact scoped_updateRollout s
  | delete e publisher p => exact scoped_deleteVersion s

end Request

/-- A file below the directory of one application is not below that of another. -/
theorem not_below_of_ne {dataDir : List Char} {n a : String} (hn : validateName n = .ok ())
    (hndot : n ≠ ".") (ha : validateName a = .ok ()) (hadot : a ≠ ".") (hne : n ≠ a) {k : FileKey}
    (hk : Below dataDir a k) : ¬ Below dataDir n k := by
  intro hk'
  unfold Below appDir at hk hk'
  rw [normalize_join_name ha hadot] at hk
  rw [normalize_join_name hn hndot] at hk'
  have hprefix := List.prefix_of_prefix_length_le hk'.2 hk.2 (by simp)
  have heq := hprefix.eq_of_length (by simp)
  exact hne (String.toList_inj.mp (List.singleton_inj.mp (List.append_cancel_left heq)))

/-- A publisher that may change some applications only, changes nothing at all of
any other. -/
theorem restricted_publisher_changes_nothing_else (X : ServerCrates) (s : Store) (q : Request)
    (dataDir : List Char) {allowed : List String}
    (hallowed : q.publisher.allowedApps = some allowed)
    (hnames : ∀ m ∈ allowed, validateName m = .ok () ∧ m ≠ ".") {a : String}
    (ha : validateName a = .ok ()) (hdot : a ≠ ".") (hnot : a ∉ allowed) :
    ∀ path c, (normalize (appDir dataDir a)).Contains path →
      ((q.next X s).Has dataDir path c ↔ s.Has dataDir path c) := by
  intro path c hpath
  rcases q.next_scoped X s dataDir with hsame | ⟨hpublish, hvalid, hconfined⟩
  · rw [hsame]
  · have hmem : q.appName ∈ allowed := by
      rw [Publisher.canPublish, hallowed] at hpublish
      exact List.contains_iff_mem.mp hpublish
    have hne : q.appName ≠ a := fun h => hnot (h ▸ hmem)
    refine exists_congr fun k => and_congr_right fun hk => ?_
    subst hk
    rw [hconfined.content (not_below_of_ne hvalid (hnames _ hmem).2 ha hdot hne hpath)]

/-- A publisher of `app` only, that deletes a version of it. -/
def sampleRestricted : Request :=
  .delete sampleServerEnv ⟨"publisher", some ["app"], none⟩ ⟨"app", "1.0.0"⟩

/-- The deletion does not make or remove the directory of `other`. -/
theorem restricted_publisher_other :
    (sampleRestricted.next sampleServer sampleFirstStore).Has "/data".toList
        (normalize (appDir "/data".toList "other")) .directory ↔
      sampleFirstStore.Has "/data".toList (normalize (appDir "/data".toList "other")) .directory :=
  restricted_publisher_changes_nothing_else sampleServer sampleFirstStore sampleRestricted
    "/data".toList rfl (by decide) (by decide) (by decide) (by decide) _ _ (.refl _)

end Deltaship
