import Deltaship.Publisher.Merge

/-!
# Deltaship.Publisher.MergeOrder

The order of the versions that a merge adds.

`merge_databases` does not copy the times of the versions but inserts them one after another, from
the newest on, and `list_versions` orders them by the second of insertion (`Appended`).  So the
order is that of the source exactly as long as no version is inserted in a later second than one
before it (`recency_iff`): then their places in the table decide.
-/

namespace Deltaship

open Prog

namespace Import

/-- What `list_versions` looks at. -/
structure Insertion where
  versionId : String
  binaryId : String
  createdAt : Nat
deriving DecidableEq, Repr

/-- The versions in the order in which they were inserted. -/
def insertions (db : PublisherDb) : List Insertion :=
  db.versions.rows.map fun v => ⟨v.versionId, v.binaryId, v.createdAt⟩

/-- How the copy of a version is inserted. -/
def copyOf (e : PublisherEnv) (p : DbBinary × DbVersion) : Insertion :=
  ⟨e.uuid (.mergedVersion p.2.versionId), e.uuid (.mergedBinary p.1.binaryId),
    e.mergedAt p.2.versionId⟩

/-- The database after these binaries, and these versions of binaries, were inserted. -/
structure Appended (e : PublisherEnv) (s : Project) (binaries : List DbBinary)
    (versions : List (DbBinary × DbVersion)) (db : PublisherDb) : Prop where
  binaries : db.binaries.rows.map (·.binaryId) =
    s.db.binaries.rows.map (·.binaryId) ++ binaries.map fun b => e.uuid (.mergedBinary b.binaryId)
  versions : insertions db = insertions s.db ++ versions.map (copyOf e)

section Loops

variable {S : SemverCrate} {e : PublisherEnv} {s s₁ : Project} {source db db' : PublisherDb}
  {binaries done : List DbBinary} {versions : List (DbBinary × DbVersion)} {binary new : DbBinary}
  {version : DbVersion}

theorem Appended.nil (e : PublisherEnv) (s : Project) : Appended e s [] [] s.db := by
  constructor <;> simp

/-- One more binary. -/
theorem Appended.insertBinary (h : Appended e s binaries versions db)
    {path : Except DbError String}
    (hinsert : PublisherDb.insertBinary (e.uuid (.mergedBinary binary.binaryId)) binary.binaryName
      binary.platform path db = .ok (new, db')) :
    Appended e s (binaries ++ [binary]) versions db' ∧
      new.binaryId = e.uuid (.mergedBinary binary.binaryId) := by
  obtain ⟨_, rows, -, rfl, -, hrows, rfl⟩ := PublisherDb.insertBinary_eq_ok hinsert
  exact ⟨⟨by simp [Table.rows_of_insert hrows, h.binaries], h.versions⟩, rfl⟩

/-- One more version. -/
theorem Appended.insertVersion (h : Appended e s binaries versions db)
    (hnew : new.binaryId = e.uuid (.mergedBinary binary.binaryId)) {path : String} {size : Nat}
    {blake3 sha256 : Bytes} {row : DbVersion}
    (hinsert : PublisherDb.insertVersion S (e.uuid (.mergedVersion version.versionId))
      (e.mergedAt version.versionId)
      ⟨new.binaryId, version.versionString, path, size, blake3, sha256⟩ db = .ok (row, db')) :
    Appended e s binaries (versions ++ [(binary, version)]) db' := by
  obtain ⟨_, rows, -, rfl, -, hrows, rfl⟩ := PublisherDb.insertVersion_eq_ok hinsert
  refine ⟨h.binaries, ?_⟩
  have hversions := h.versions
  simp only [insertions] at hversions ⊢
  simp [Table.rows_of_insert hrows, hversions, copyOf, hnew]

/-- A signature does not move a version. -/
theorem Appended.setVersionSignature (h : Appended e s binaries versions db) {id ts : String}
    {sig : Bytes} (hset : PublisherDb.setVersionSignature id sig ts db = .ok db') :
    Appended e s binaries versions db' := by
  unfold PublisherDb.setVersionSignature PublisherDb.updateVersion at hset
  split at hset
  · obtain rfl := Except.ok.inj hset
    refine ⟨h.binaries, h.versions ▸ ?_⟩
    simp only [insertions, Table.rows_update, List.map_map]
    refine List.map_congr_left fun v _ => ?_
    simp only [Function.comp_apply]
    split <;> rfl
  · contradiction

/-- A version is inserted. -/
theorem Appended.mergeVersion (h : Appended e s binaries versions s₁.db)
    (hnew : new.binaryId = e.uuid (.mergedBinary binary.binaryId)) :
    wp (mergeVersion S e binary new version)
      (fun _ s' => Appended e s binaries (versions ++ [(binary, version)]) s'.db)
      (fun _ _ => True) s₁ := by
  unfold Import.mergeVersion
  rw [wp_bind, wp_get, wp_bind]
  refine wp_dbInsert (fun row db₁ hinsert => ?_) fun _ => trivial
  have h₁ := h.insertVersion hnew hinsert
  split
  · exact wp_dbUpdate (fun db₂ hset => h₁.setVersionSignature hset) fun _ => trivial
  · exact h₁

/-- A binary is inserted with its versions, or passed over. -/
theorem Appended.mergeBinary
    (hmerged : Merged S s (done.filter fun b => IsNew s.db b)
      (versionsOf source (done.filter fun b => IsNew s.db b)) s₁.db)
    (h : Appended e s (done.filter fun b => IsNew s.db b)
      (versionsOf source (done.filter fun b => IsNew s.db b)) s₁.db)
    (hother : ∀ b ∈ done, b.binaryName = binary.binaryName → b.platform ≠ binary.platform) :
    wp (mergeBinary S e source binary)
      (fun _ s' => Appended e s ((done ++ [binary]).filter fun b => IsNew s.db b)
        (versionsOf source ((done ++ [binary]).filter fun b => IsNew s.db b)) s'.db)
      (fun _ _ => True) s₁ := by
  have hfound := hmerged.getBinaryByName fun b hb => hother b (List.mem_of_mem_filter hb)
  refine wp_mergeBinary (fun hold => ?_) (fun habsent path row db₁ hinsert => ?_)
    fun _ _ => trivial
  · simpa [List.filter_append, mt hfound.mpr hold] using h
  · have hnew := hfound.mp habsent
    obtain ⟨h₁, hrow⟩ := h.insertBinary hinsert
    refine wp_mono (fun _ s' hs' => ?_) (fun _ _ h => h)
      (wp_forEach (fun vs s' => Appended e s (done.filter (fun b => IsNew s.db b) ++ [binary])
          (versionsOf source (done.filter fun b => IsNew s.db b) ++ vs.map (Prod.mk binary)) s'.db)
        (by simpa using h₁) fun vs v rest s₂ _ hs₂ => ?_)
    · simpa [List.filter_append, hnew, versionsOf] using hs'
    · have hversion : wp (Import.mergeVersion S e binary row v) _ (fun _ _ => True) s₂ :=
        hs₂.mergeVersion hrow
      simpa using hversion

/-- The binaries that the target lacks are inserted with all their versions. -/
theorem wp_mergeDatabases_appended (hunique : BinariesUnique source) :
    wp (mergeDatabases S e source)
      (fun _ s' => Appended e s (newBinaries source s.db)
        (versionsOf source (newBinaries source s.db)) s'.db)
      (fun _ _ => True) s := by
  unfold mergeDatabases
  rw [wp_bind]
  refine wp_hostOp ?_ fun _ => trivial
  refine wp_mono (fun _ _ h => h.2) (fun _ _ h => h) (wp_forEach
    (fun done (s' : Project) => (s' = { s with db := s'.db } ∧
        Merged S s (done.filter fun b => IsNew s.db b)
          (versionsOf source (done.filter fun b => IsNew s.db b)) s'.db) ∧
      Appended e s (done.filter fun b => IsNew s.db b)
        (versionsOf source (done.filter fun b => IsNew s.db b)) s'.db)
    ⟨⟨rfl, Merged.nil S s⟩, Appended.nil e s⟩ fun done b rest s₁ hsplit hs₁ => ?_)
  obtain ⟨⟨hstate, hmerged⟩, happended⟩ := hs₁
  have hother := hunique.other_of_listBinaries hsplit
  have hstep := hmerged.mergeBinary (e := e) hother
  rw [← hstate] at hstep
  exact wp_mono (fun _ _ h => h) (fun _ _ _ => trivial)
    (wp_and hstep (Appended.mergeBinary hmerged happended hother))

end Loops

/-! ## the order -/

/- The rows of a merge are inserted in the order in which the source lists them, newest first, and
all of them may get one time of insertion. Ties are broken by the order of insertion, so that what
was newest in the source need not be newest in the target. -/

section Order

variable {e : PublisherEnv} {s : Project} {source db : PublisherDb} {binary : DbBinary}

/-- `ORDER BY created_at DESC`; ties stay in the order of insertion. -/
def newestFirst (l : List Insertion) : List Insertion :=
  l.insertionSort fun a b => b.createdAt ≤ a.createdAt

/-- What is listed is sorted by when it was inserted. -/
theorem listVersions_ids (db : PublisherDb) (binaryId : String) :
    (db.listVersions binaryId).map (·.versionId) =
      (newestFirst ((insertions db).filter fun i => i.binaryId == binaryId)).map (·.versionId) := by
  have hsort := List.map_insertionSort (fun a b : DbVersion => b.createdAt ≤ a.createdAt)
    (fun a b : Insertion => b.createdAt ≤ a.createdAt)
    (fun v : DbVersion => (⟨v.versionId, v.binaryId, v.createdAt⟩ : Insertion))
    (db.versions.rows.filter fun v => v.binaryId == binaryId) fun _ _ _ _ => Iff.rfl
  rw [newestFirst, insertions, List.filter_map]
  simp only [Function.comp_def]
  rw [← hsort, List.map_map]
  rfl

/-- Of a list of lists that are told apart by `p`, one is found. -/
theorem filter_flatMap_of_mem {α β : Type} {l : List α} {g : α → List β} {p : β → Bool} {a : α}
    (hl : l.Nodup) (ha : a ∈ l) (hyes : ∀ y ∈ g a, p y = true)
    (hno : ∀ x ∈ l, x ≠ a → ∀ y ∈ g x, p y = false) : (l.flatMap g).filter p = g a := by
  obtain ⟨front, back, rfl⟩ := List.append_of_mem ha
  have hnil : ∀ part : List α, (∀ x ∈ part, x ∈ front ++ a :: back ∧ x ≠ a) →
      (part.flatMap g).filter p = [] := fun part hpart => by
    rw [List.filter_eq_nil_iff]
    intro y hy
    obtain ⟨x, hx, hy⟩ := List.mem_flatMap.mp hy
    simp [hno x (hpart x hx).1 (hpart x hx).2 y hy]
  have hdistinct := List.nodup_append.mp hl
  rw [List.flatMap_append, List.flatMap_cons, List.filter_append, List.filter_append,
    List.filter_eq_self.mpr hyes, hnil front, hnil back, List.nil_append, List.append_nil]
  · exact fun x hx => ⟨by simp [hx], fun h =>
      (List.nodup_cons.mp hdistinct.2.1).1 (h ▸ hx)⟩
  · exact fun x hx => ⟨by simp [hx], hdistinct.2.2 x hx a List.mem_cons_self⟩

/-- The versions of a binary that was added are inserted in the order of the source. -/
theorem Appended.filter_insertions
    (h : Appended e s (newBinaries source s.db) (versionsOf source (newBinaries source s.db)) db)
    (hkey : ∀ v ∈ s.db.versions, ∃ b ∈ s.db.binaries, b.binaryId = v.binaryId)
    (hbinary : binary ∈ newBinaries source s.db) :
    (insertions db).filter (fun i => i.binaryId == e.uuid (.mergedBinary binary.binaryId)) =
      (source.listVersions binary.binaryId).map fun v => copyOf e (binary, v) := by
  have hids : (s.db.binaries.rows.map (·.binaryId) ++ (newBinaries source s.db).map
      fun b => e.uuid (.mergedBinary b.binaryId)).Nodup := h.binaries ▸ db.binaries.nodup
  obtain ⟨-, hnew, hfresh⟩ := List.nodup_append.mp hids
  have hold : (insertions s.db).filter
      (fun i => i.binaryId == e.uuid (.mergedBinary binary.binaryId)) = [] := by
    rw [List.filter_eq_nil_iff]
    intro i hi hsame
    obtain ⟨v, hv, rfl⟩ := List.mem_map.mp hi
    obtain ⟨b, hb, hid⟩ := hkey v hv
    exact hfresh _ (List.mem_map_of_mem hb) _ (List.mem_map_of_mem hbinary)
      (hid.trans (beq_iff_eq.mp hsame))
  rw [h.versions, List.filter_append, hold, List.nil_append, versionsOf, List.map_flatMap]
  rw [filter_flatMap_of_mem hnew.of_map hbinary]
  · rw [List.map_map]
    rfl
  · intro i hi
    obtain ⟨p, hp, rfl⟩ := List.mem_map.mp hi
    obtain ⟨v, -, rfl⟩ := List.mem_map.mp hp
    exact beq_self_eq_true _
  · intro b hb hne i hi
    obtain ⟨p, hp, rfl⟩ := List.mem_map.mp hi
    obtain ⟨v, -, rfl⟩ := List.mem_map.mp hp
    exact beq_eq_false_iff_ne.mpr fun hsame =>
      hne (List.inj_on_of_nodup_map hnew hb hbinary hsame)

/-- A list with distinct ids is sorted if sorting it does not move an id. -/
theorem newestFirst_ids_iff {l : List Insertion} (hl : (l.map (·.versionId)).Nodup) :
    (newestFirst l).map (·.versionId) = l.map (·.versionId) ↔
      l.Pairwise fun a b => b.createdAt ≤ a.createdAt := by
  have htotal : Std.Total fun a b : Insertion => b.createdAt ≤ a.createdAt :=
    ⟨fun a b => Nat.le_total b.createdAt a.createdAt⟩
  have htrans : IsTrans Insertion fun a b => b.createdAt ≤ a.createdAt :=
    ⟨fun _ _ _ hab hbc => Nat.le_trans hbc hab⟩
  have hperm : (newestFirst l).Perm l := List.perm_insertionSort _ _
  constructor
  · intro h
    have hsame : newestFirst l = l := List.ext_getElem hperm.length_eq fun i hi hi' => by
      have hid : ((newestFirst l).map (·.versionId))[i]? = (l.map (·.versionId))[i]? := by rw [h]
      rw [List.getElem?_map, List.getElem?_map, List.getElem?_eq_getElem hi,
        List.getElem?_eq_getElem hi'] at hid
      exact List.inj_on_of_nodup_map hl (hperm.mem_iff.mp (List.getElem_mem hi))
        (List.getElem_mem hi') (Option.some.inj hid)
    rw [← hsame]
    exact List.pairwise_insertionSort _ _
  · intro h
    rw [newestFirst, h.insertionSort_eq]

/-- What `list_versions` makes of the versions of a binary that a merge adds. -/
theorem listVersions_merged {S : SemverCrate} {s' : Project} (hunique : BinariesUnique source)
    (hkey : ∀ v ∈ s.db.versions, ∃ b ∈ s.db.binaries, b.binaryId = v.binaryId)
    (hbinary : binary ∈ source.binaries) (hnew : IsNew s.db binary)
    (hrun : exec (mergeDatabases S e source) s = (.ok (), s')) :
    (s'.db.listVersions (e.uuid (.mergedBinary binary.binaryId))).map (·.versionId) =
        (newestFirst ((source.listVersions binary.binaryId).map fun v =>
          copyOf e (binary, v))).map (·.versionId) ∧
      (((source.listVersions binary.binaryId).map fun v =>
        copyOf e (binary, v)).map (·.versionId)).Nodup := by
  have hmem : binary ∈ newBinaries source s.db :=
    List.mem_filter.mpr ⟨PublisherDb.mem_listBinaries.mpr hbinary, by simpa using hnew⟩
  have hinserted :=
    (wp_exec_ok (wp_mergeDatabases_appended hunique) hrun).filter_insertions hkey hmem
  rw [listVersions_ids, ← hinserted]
  refine ⟨rfl, List.Nodup.sublist (List.filter_sublist.map _) ?_⟩
  rw [insertions, List.map_map]
  exact s'.db.versions.nodup

/-- The versions of a binary that a merge adds have the order of the source exactly if none is
inserted in a later second than one before it. -/
theorem recency_iff {S : SemverCrate} {s' : Project} (hunique : BinariesUnique source)
    (hkey : ∀ v ∈ s.db.versions, ∃ b ∈ s.db.binaries, b.binaryId = v.binaryId)
    (hbinary : binary ∈ source.binaries) (hnew : IsNew s.db binary)
    (hrun : exec (mergeDatabases S e source) s = (.ok (), s')) :
    (s'.db.listVersions (e.uuid (.mergedBinary binary.binaryId))).map (·.versionId) =
        (source.listVersions binary.binaryId).map (fun v => e.uuid (.mergedVersion v.versionId)) ↔
      (source.listVersions binary.binaryId).Pairwise fun v v' =>
        e.mergedAt v'.versionId ≤ e.mergedAt v.versionId := by
  obtain ⟨hlist, hnodup⟩ := listVersions_merged hunique hkey hbinary hnew hrun
  have hids := newestFirst_ids_iff hnodup
  rw [← hlist, List.map_map, List.pairwise_map] at hids
  exact hids

end Order

/-! ## a merge that takes a second -/

/-- A binary with two versions. -/
def sampleReleases : PublisherDb :=
  { sampleProject.db with
    versions := ⟨[{ sampleDbVersion "1.0.0" "v1" [] with createdAt := 100 },
      { sampleDbVersion "1.1.0" "v2" [] with createdAt := 200 }], by decide⟩ }

/-- The directory of the sample project, with no versions. -/
def sampleEmptied : Project := { sampleProject with db := PublisherDb.empty }

/-- The older version is inserted so many seconds after the newer one. -/
def secondsLater (n : Nat) : PublisherEnv :=
  { samplePublisherEnv with mergedAt := fun id => if id = "v1" then n else 0 }

/-- The merge, if it takes so many seconds. -/
def sampleReleasesMerge (n : Nat) : Except String Unit × Project :=
  exec (mergeDatabases sampleSemver (secondsLater n) sampleReleases) sampleEmptied

/-- It succeeds within a second, and across one. -/
theorem sampleReleasesMerge_isOk :
    (sampleReleasesMerge 0).1.isOk = true ∧ (sampleReleasesMerge 1).1.isOk = true := by
  decide

/-- A merge that succeeds leaves the sample result. -/
theorem sampleReleasesMerge_ok {n : Nat} (h : (sampleReleasesMerge n).1.isOk = true) :
    exec (mergeDatabases sampleSemver (secondsLater n) sampleReleases) sampleEmptied =
      (.ok (), (sampleReleasesMerge n).2) := by
  refine exec_of_fst ?_
  change (sampleReleasesMerge n).1 = .ok ()
  cases hfst : (sampleReleasesMerge n).1 with
  | error err =>
      rw [hfst] at h
      contradiction
  | ok u => rfl

/-- No binary of the sample has two rows. -/
theorem sampleReleases_unique : BinariesUnique sampleReleases := by
  intro b hb b' hb' _ _
  rw [List.mem_singleton.mp hb, List.mem_singleton.mp hb']

/-- The binary of the sample. -/
def sampleReleased : DbBinary := ⟨"b", "app", "linux-x86_64", "/p/v1"⟩

theorem sampleReleased_mem : sampleReleased ∈ sampleReleases.binaries := List.mem_singleton.mpr rfl

theorem sampleReleased_new : IsNew sampleEmptied.db sampleReleased := rfl

/-- Every version of the target belongs to a binary. -/
theorem sampleEmptied_key : ∀ v ∈ sampleEmptied.db.versions,
    ∃ b ∈ sampleEmptied.db.binaries, b.binaryId = v.binaryId :=
  fun _ hv => absurd hv Table.not_mem_empty

/-- Within a second, the order is kept. -/
theorem recency_kept :
    ((sampleReleasesMerge 0).2.db.listVersions ((secondsLater 0).uuid (.mergedBinary "b"))).map
        (·.versionId) = (sampleReleases.listVersions "b").map fun v =>
          (secondsLater 0).uuid (.mergedVersion v.versionId) :=
  (recency_iff sampleReleases_unique sampleEmptied_key sampleReleased_mem sampleReleased_new
    (sampleReleasesMerge_ok sampleReleasesMerge_isOk.1)).mpr
      (List.pairwise_of_forall fun v v' => by simp [secondsLater])

/-- Across a second, the older version comes first. -/
theorem recency_reversed : ¬ ∀ (S : SemverCrate) (e : PublisherEnv) (s s' : Project)
    (source : PublisherDb) (binary : DbBinary), BinariesUnique source →
    (∀ v ∈ s.db.versions, ∃ b ∈ s.db.binaries, b.binaryId = v.binaryId) →
    binary ∈ source.binaries → IsNew s.db binary →
    exec (mergeDatabases S e source) s = (.ok (), s') →
    (s'.db.listVersions (e.uuid (.mergedBinary binary.binaryId))).map (·.versionId) =
      (source.listVersions binary.binaryId).map fun v => e.uuid (.mergedVersion v.versionId) := by
  intro h
  have hrun := sampleReleasesMerge_ok sampleReleasesMerge_isOk.2
  have hkept := h _ _ _ _ _ _ sampleReleases_unique sampleEmptied_key sampleReleased_mem
    sampleReleased_new hrun
  rw [(listVersions_merged sampleReleases_unique sampleEmptied_key sampleReleased_mem
    sampleReleased_new hrun).1] at hkept
  revert hkept
  decide

end Import

end Deltaship
