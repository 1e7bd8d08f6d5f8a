import Mathlib.Data.List.AList
import Mathlib.Order.Defs.Unbundled
import Mathlib.Tactic.Common

/-!
# Deltaship.Lib.Files

A file store: finitely many paths, each with its content.  Paths and contents
are arbitrary types.  The store is an association list with distinct keys, so
it can be walked as well as looked up.

`AgreeOff P f f'` is the frame condition of the developments built on this
module: outside the paths in `P` the two stores read the same.
-/

/-- Finitely many paths with their contents. -/
structure Files (π : Type) (κ : Type) where
  entries : AList fun _ : π => κ

instance {π κ : Type} [DecidableEq π] [DecidableEq κ] : DecidableEq (Files π κ) :=
  fun f g => decidable_of_iff (f.entries.entries = g.entries.entries)
    ⟨fun h => congrArg Files.mk (AList.ext h), fun h => congrArg (·.entries.entries) h⟩

namespace Files

variable {π κ : Type} [DecidableEq π]

/-- The store without files. -/
def empty : Files π κ := ⟨∅⟩

/-- The content of the file at a path, if there is one. -/
def read (f : Files π κ) (p : π) : Option κ := f.entries.lookup p

/-- Create or replace the file at a path. -/
def write (f : Files π κ) (p : π) (b : κ) : Files π κ := ⟨f.entries.insert p b⟩

/-- Remove the file at a path, if there is one. -/
def remove (f : Files π κ) (p : π) : Files π κ := ⟨f.entries.erase p⟩

/-- Rename the file at `src`, with content `b`, to `dst`.  Renaming a file to
itself leaves it where it is. -/
def move (f : Files π κ) (src dst : π) (b : κ) : Files π κ := (f.remove src).write dst b

/-- Keep the files for which this holds. -/
def retain (f : Files π κ) (keep : π → κ → Bool) : Files π κ :=
  ⟨⟨f.entries.entries.filter fun e => keep e.1 e.2,
    f.entries.nodupKeys.sublist List.filter_sublist⟩⟩

/-- The store with these files. -/
def ofList (l : List (π × κ)) : Files π κ := l.foldr (fun p f => f.write p.1 p.2) empty

omit [DecidableEq π] in
/-- The paths that hold a file. -/
def paths (f : Files π κ) : List π := f.entries.keys

omit [DecidableEq π] in
/-- The number of files. -/
def size (f : Files π κ) : Nat := f.paths.length

/-! ## reading back -/

/-- Nothing is read where no file was written. -/
@[simp] theorem read_empty (p : π) : (empty : Files π κ).read p = none := rfl

@[simp] theorem read_write_self (f : Files π κ) (p : π) (b : κ) :
    (f.write p b).read p = some b :=
  AList.lookup_insert f.entries

/-- A write leaves the other paths as they are. -/
theorem read_write_ne (f : Files π κ) {p q : π} (b : κ) (h : q ≠ p) :
    (f.write p b).read q = f.read q :=
  AList.lookup_insert_ne h

/-- What is there stays there. -/
theorem isSome_read_write {f : Files π κ} {p q : π} {b : κ} (h : (f.read q).isSome = true) :
    ((f.write p b).read q).isSome = true := by
  by_cases hq : q = p
  · rw [hq, read_write_self]
    rfl
  · rw [f.read_write_ne b hq]
    exact h

/-- A write changes nothing if and only if it writes what is there. -/
theorem read_write_eq_iff {f : Files π κ} {p : π} {b : κ} :
    (∀ q, (f.write p b).read q = f.read q) ↔ f.read p = some b := by
  constructor
  · intro h
    rw [← h p, read_write_self]
  · intro h q
    by_cases hq : q = p
    · rw [hq, read_write_self, h]
    · exact f.read_write_ne b hq

/-- Of two writes to one path only the second one is left. -/
@[simp] theorem write_write (f : Files π κ) (p : π) (b b' : κ) :
    (f.write p b).write p b' = f.write p b' :=
  congrArg Files.mk (AList.insert_insert f.entries)

/-- A file that was removed is not there. -/
@[simp] theorem read_remove_self (f : Files π κ) (p : π) : (f.remove p).read p = none :=
  AList.lookup_erase p f.entries

/-- A removal leaves the other paths as they are. -/
theorem read_remove_ne (f : Files π κ) {p q : π} (h : q ≠ p) :
    (f.remove p).read q = f.read q :=
  AList.lookup_erase_ne h

/-- What was moved is read where it was moved to. -/
@[simp] theorem read_move_self (f : Files π κ) (src dst : π) (b : κ) :
    (f.move src dst b).read dst = some b :=
  read_write_self _ _ _

/-- A move leaves all paths but its source and its target as they are. -/
theorem read_move_ne (f : Files π κ) {src dst q : π} (b : κ) (hs : q ≠ src) (hd : q ≠ dst) :
    (f.move src dst b).read q = f.read q := by
  rw [move, read_write_ne _ _ hd, read_remove_ne _ hs]

/-- A file that was moved is no longer where it was. -/
theorem read_move_src (f : Files π κ) {src dst : π} (b : κ) (h : src ≠ dst) :
    (f.move src dst b).read src = none := by
  rw [move, read_write_ne _ _ h, read_remove_self]

/-- The paths are those at which something is read. -/
theorem mem_paths {f : Files π κ} {p : π} : p ∈ f.paths ↔ (f.read p).isSome :=
  AList.lookup_isSome.symm

/-! ## counting -/

omit [DecidableEq π] in
theorem nodup_paths (f : Files π κ) : f.paths.Nodup := f.entries.keys_nodup

omit [DecidableEq π] in
/-- There are no files before one is written. -/
@[simp] theorem size_empty : (empty : Files π κ).size = 0 := rfl

/-- A path that is written comes first, once. -/
theorem paths_write (f : Files π κ) (p : π) (b : κ) :
    (f.write p b).paths = p :: f.paths.erase p := AList.keys_insert f.entries

/-- A path that is removed is listed no more. -/
theorem paths_remove (f : Files π κ) (p : π) : (f.remove p).paths = f.paths.erase p :=
  AList.keys_erase p f.entries

/-- Writing to a file that is there does not add one. -/
theorem size_write_of_read {f : Files π κ} {p : π} {b : κ} (h : (f.read p).isSome = true) :
    (f.write p b).size = f.size := by
  have hmem : p ∈ f.paths := mem_paths.mpr h
  rw [size, size, paths_write, List.length_cons, List.length_erase_of_mem hmem]
  exact Nat.sub_add_cancel (List.length_pos_of_mem hmem)

/-- A file at a new path is one more. -/
theorem size_write_of_none {f : Files π κ} {p : π} {b : κ} (h : f.read p = none) :
    (f.write p b).size = f.size + 1 := by
  have hmem : p ∉ f.paths := fun hmem => by simp [mem_paths, h] at hmem
  rw [size, size, paths_write, List.length_cons, List.erase_of_not_mem hmem]

/-- Removing a file does not make their number grow. -/
theorem size_remove_le (f : Files π κ) (p : π) : (f.remove p).size ≤ f.size := by
  rw [size, size, paths_remove]
  exact List.length_erase_le

/-- Removing distinct files that are there. -/
theorem size_foldl_remove {ps : List π} (hnodup : ps.Nodup) {f : Files π κ}
    (h : ∀ p ∈ ps, p ∈ f.paths) : (ps.foldl remove f).size = f.size - ps.length := by
  induction ps generalizing f with
  | nil => rfl
  | cons p ps ih =>
      obtain ⟨hp, hps⟩ := List.nodup_cons.mp hnodup
      have hrest : ∀ q ∈ ps, q ∈ (f.remove p).paths := fun q hq => by
        rw [paths_remove]
        have hne : q ≠ p := fun heq => hp (heq ▸ hq)
        exact (List.mem_erase_of_ne hne).mpr (h q (List.mem_cons_of_mem p hq))
      rw [List.foldl_cons, ih hps hrest, size, paths_remove,
        List.length_erase_of_mem (h p List.mem_cons_self), size, List.length_cons]
      omega

/-- Removing one after the other leaves every path that is not among them. -/
theorem read_foldl_remove_of_notMem {ps : List π} {f : Files π κ} {p : π} (h : p ∉ ps) :
    (ps.foldl remove f).read p = f.read p := by
  induction ps generalizing f with
  | nil => rfl
  | cons q ps ih =>
      obtain ⟨hne, hps⟩ := not_or.mp (mt List.mem_cons.mpr h)
      rw [List.foldl_cons, ih hps, read_remove_ne f hne]

/-- With no key twice, filtering entries filters what is looked up. -/
theorem dlookup_filter {entries : List (Sigma fun _ : π => κ)} (h : entries.NodupKeys)
    (keep : π → κ → Bool) (p : π) :
    List.dlookup p (entries.filter fun e => keep e.1 e.2) =
      (List.dlookup p entries).filter (keep p) := by
  induction entries with
  | nil => rfl
  | cons e entries ih =>
      obtain ⟨q, b⟩ := e
      obtain ⟨hq, hrest⟩ := List.nodupKeys_cons.mp h
      have hq' : q ∉ (entries.filter fun e => keep e.1 e.2).keys := fun hmem =>
        hq ((List.filter_sublist.map Sigma.fst).subset hmem)
      by_cases heq : p = q
      · subst heq
        rw [List.dlookup_cons_eq, Option.filter_some, List.filter_cons]
        cases hkeep : keep p b with
        | true => simp [List.dlookup_cons_eq]
        | false => simpa using List.dlookup_eq_none.mpr hq'
      · rw [List.dlookup_cons_ne entries ⟨q, b⟩ heq, ← ih hrest, List.filter_cons]
        split
        · exact List.dlookup_cons_ne _ (⟨q, b⟩ : Sigma fun _ : π => κ) heq
        · rfl

/-- A file is kept with its content, or not at all. -/
theorem read_retain (f : Files π κ) (keep : π → κ → Bool) (p : π) :
    (f.retain keep).read p = (f.read p).filter (keep p) :=
  dlookup_filter f.entries.nodupKeys keep p

omit [DecidableEq π] in
/-- What is retained is not more than what there was. -/
theorem size_retain_le (f : Files π κ) (keep : π → κ → Bool) : (f.retain keep).size ≤ f.size :=
  (List.filter_sublist.map Sigma.fst).length_le

theorem retain_eq_self {f : Files π κ} {keep : π → κ → Bool}
    (h : ∀ p b, f.read p = some b → keep p b = true) : f.retain keep = f := by
  have hfilter : f.entries.entries.filter (fun e => keep e.1 e.2) = f.entries.entries :=
    List.filter_eq_self.mpr fun e he => h e.1 e.2 (AList.mem_lookup_iff.mpr he)
  exact congrArg Files.mk (AList.ext hfilter)

/-- Dropping a file leaves fewer of them. -/
theorem size_retain_lt {f : Files π κ} {keep : π → κ → Bool} {p : π} {b : κ}
    (hread : f.read p = some b) (hkeep : keep p b = false) : (f.retain keep).size < f.size := by
  have hmem : (⟨p, b⟩ : Sigma fun _ : π => κ) ∈ f.entries.entries :=
    AList.mem_lookup_iff.mp hread
  have hlt : (f.entries.entries.filter fun e => keep e.1 e.2).length < f.entries.entries.length :=
    List.length_filter_lt_length_iff_exists.mpr ⟨_, hmem, by simp [hkeep]⟩
  simpa [size, paths, AList.keys, List.keys, retain] using hlt

/-- A bound on their number stays one if there is room for a new file. -/
theorem size_write_le {f : Files π κ} {p : π} {b : κ} {n : Nat} (h : f.size ≤ n)
    (hnew : f.read p = none → f.size < n) : (f.write p b).size ≤ n := by
  cases hread : f.read p with
  | none =>
      rw [size_write_of_none hread]
      exact hnew hread
  | some b' =>
      rw [size_write_of_read (Option.isSome_of_eq_some hread)]
      exact h

/-! ## the order of the files -/

/-- The files at these paths, in this order, as entries of a list. -/
def entriesAt (f : Files π κ) (order : List π) : List (Sigma fun _ : π => κ) :=
  order.filterMap fun p => (f.read p).map (Sigma.mk p)

/-- A path without a file gives no entry. -/
theorem entriesAt_cons_of_none {f : Files π κ} {p : π} (h : f.read p = none) (order : List π) :
    f.entriesAt (p :: order) = f.entriesAt order := by
  simp [entriesAt, h]

/-- A path with a file gives its entry, in its place in the order. -/
theorem entriesAt_cons_of_some {f : Files π κ} {p : π} {b : κ} (h : f.read p = some b)
    (order : List π) : f.entriesAt (p :: order) = ⟨p, b⟩ :: f.entriesAt order := by
  simp [entriesAt, h]

/-- Entries are made for the paths of the order only. -/
theorem mem_of_mem_keys_entriesAt {f : Files π κ} {order : List π} {p : π}
    (h : p ∈ (f.entriesAt order).keys) : p ∈ order := by
  obtain ⟨e, he, rfl⟩ := List.mem_map.mp h
  obtain ⟨q, hq, hread⟩ := List.mem_filterMap.mp he
  obtain ⟨b, -, rfl⟩ := Option.map_eq_some_iff.mp hread
  exact hq

/-- An order without repetitions gives no key twice. -/
theorem nodupKeys_entriesAt (f : Files π κ) {order : List π} (hnodup : order.Nodup) :
    (f.entriesAt order).NodupKeys := by
  induction order with
  | nil => exact List.nodupKeys_nil
  | cons p order ih =>
      obtain ⟨hp, hrest⟩ := List.nodup_cons.mp hnodup
      cases hread : f.read p with
      | none =>
          rw [entriesAt_cons_of_none hread]
          exact ih hrest
      | some b =>
          rw [entriesAt_cons_of_some hread]
          exact List.nodupKeys_cons.mpr
            ⟨fun hmem => hp (mem_of_mem_keys_entriesAt hmem), ih hrest⟩

/-- For a path of the order, the entries have what is read there. -/
theorem dlookup_entriesAt (f : Files π κ) {order : List π} {p : π} (hp : p ∈ order) :
    (f.entriesAt order).dlookup p = f.read p := by
  induction order with
  | nil => contradiction
  | cons q order ih =>
      by_cases heq : p = q
      · subst heq
        cases hread : f.read p with
        | none =>
            refine List.dlookup_eq_none.mpr fun hmem => ?_
            obtain ⟨e, he, hkey⟩ := List.mem_map.mp hmem
            obtain ⟨q, -, hq⟩ := List.mem_filterMap.mp he
            obtain ⟨b, hb, rfl⟩ := Option.map_eq_some_iff.mp hq
            obtain rfl : q = p := hkey
            rw [hread] at hb
            contradiction
        | some b =>
            rw [entriesAt_cons_of_some hread]
            exact List.dlookup_cons_eq (β := fun _ => κ) _ p b
      · have hrest : p ∈ order := (List.mem_cons.mp hp).resolve_left heq
        cases hread : f.read q with
        | none =>
            rw [entriesAt_cons_of_none hread]
            exact ih hrest
        | some b =>
            rw [entriesAt_cons_of_some hread]
            exact (List.dlookup_cons_ne _ ⟨q, b⟩ heq).trans (ih hrest)

/-- The files at these paths, in this order. -/
def arrange (f : Files π κ) (order : List π) (hnodup : order.Nodup) : Files π κ :=
  ⟨⟨f.entriesAt order, nodupKeys_entriesAt f hnodup⟩⟩

/-- The order of the files does not change what is read. -/
theorem read_arrange (f : Files π κ) {order : List π} (hnodup : order.Nodup) {p : π}
    (hp : p ∈ order) : (f.arrange order hnodup).read p = f.read p :=
  dlookup_entriesAt f hp

/-- Stores that read the same are one store in one order. -/
theorem arrange_congr {f g : Files π κ} {order : List π} {hnodup : order.Nodup}
    (h : ∀ p, f.read p = g.read p) : f.arrange order hnodup = g.arrange order hnodup := by
  have hentries : f.entriesAt order = g.entriesAt order := by
    unfold entriesAt
    simp only [h]
  exact congrArg Files.mk (AList.ext hentries)

omit [DecidableEq π] in
/-- The sum of what the files weigh. -/
def total (weight : κ → Nat) (f : Files π κ) : Nat :=
  f.entries.entries.foldr (fun e n => weight e.2 + n) 0

/-- Erasing a key does not make the total weight grow. -/
theorem total_kerase_le (weight : κ → Nat) (p : π) (l : List (Sigma fun _ : π => κ)) :
    (l.kerase p).foldr (fun e n => weight e.2 + n) 0 ≤ l.foldr (fun e n => weight e.2 + n) 0 := by
  induction l with
  | nil => simp
  | cons e l ih =>
      by_cases h : p = e.1
      · simp [List.kerase_cons_eq h]
      · simpa [List.kerase_cons_ne h] using ih

/-- A write adds at most the weight of what it writes. -/
theorem total_write_le (weight : κ → Nat) (f : Files π κ) (p : π) (b : κ) :
    (f.write p b).total weight ≤ weight b + f.total weight :=
  Nat.add_le_add_left (total_kerase_le weight p f.entries.entries) (weight b)

/-- A store with files holds one. -/
theorem exists_read_of_size_pos {f : Files π κ} (h : 0 < f.size) : ∃ p b, f.read p = some b := by
  obtain ⟨p, hp⟩ := List.exists_mem_of_length_pos h
  obtain ⟨b, hb⟩ := Option.isSome_iff_exists.mp (mem_paths.mp hp)
  exact ⟨p, b, hb⟩

/-! ## frames -/

/-- Outside `P` the two stores read the same. -/
def AgreeOff (P : π → Prop) (f f' : Files π κ) : Prop := ∀ p, ¬ P p → f'.read p = f.read p

namespace AgreeOff

variable {P P' : π → Prop} {f f' f'' : Files π κ}

/-- Every file system agrees with itself. -/
theorem refl (P : π → Prop) (f : Files π κ) : AgreeOff P f f := fun _ _ => rfl

/-- Two agreements off the same paths, one behind the other, are one. -/
theorem trans (h : AgreeOff P f f') (h' : AgreeOff P f' f'') : AgreeOff P f f'' :=
  fun p hp => (h' p hp).trans (h p hp)

instance : IsPreorder (Files π κ) (AgreeOff P) where
  refl := refl P
  trans _ _ _ := trans

/-- Agreeing off some paths is agreeing off more of them. -/
theorem mono (h : AgreeOff P f f') (hP : ∀ p, P p → P' p) : AgreeOff P' f f' :=
  fun p hp => h p fun hp' => hp (hP p hp')

/-- A write to one of the paths changes nothing off them. -/
theorem write {p : π} {b : κ} (hp : P p) : AgreeOff P f (f.write p b) :=
  fun _ hq => read_write_ne f b fun h => hq (h ▸ hp)

/-- A removal of one of the paths changes nothing off them. -/
theorem remove {p : π} (hp : P p) : AgreeOff P f (f.remove p) :=
  fun _ hq => read_remove_ne f fun h => hq (h ▸ hp)

end AgreeOff

end Files
