import Mathlib.Data.List.Nodup
import Mathlib.Data.List.Sort
import Mathlib.Tactic.Common

/-!
# Deltaship.Lib.Table

Keyed tables: finite lists of rows no two of which share a key, as a database
keeps them under a `PRIMARY KEY` or a `UNIQUE` constraint.  The constraint is a
field of the table, so a table that violates it cannot be built; `insert`
refuses a row whose key is taken, and `update` only accepts a row function
that leaves the key alone.  An `AutoTable` numbers its rows itself, as
`INTEGER PRIMARY KEY AUTOINCREMENT` does: no number is ever used twice.
-/

/-- Rows with pairwise distinct keys, in insertion order. -/
structure Table (ρ κ : Type) (key : ρ → κ) where
  rows : List ρ
  nodup : (rows.map key).Nodup

instance {ρ κ : Type} {key : ρ → κ} [DecidableEq ρ] : DecidableEq (Table ρ κ key) :=
  fun t u => decidable_of_iff (t.rows = u.rows)
    ⟨fun h => by cases t; cases u; simp_all, congrArg Table.rows⟩

namespace Table

variable {ρ κ : Type} {key : ρ → κ}

/-- The table without rows. -/
def empty : Table ρ κ key := ⟨[], List.nodup_nil⟩

instance : Membership ρ (Table ρ κ key) := ⟨fun t r => r ∈ t.rows⟩

/-- Being in a table is being one of its rows. -/
theorem mem_def {t : Table ρ κ key} {r : ρ} : r ∈ t ↔ r ∈ t.rows := Iff.rfl

@[simp] theorem not_mem_empty {r : ρ} : ¬ r ∈ (empty : Table ρ κ key) := List.not_mem_nil

@[simp] theorem rows_empty : (empty : Table ρ κ key).rows = [] := rfl

/-- A table is the list of its rows. -/
theorem ext {t u : Table ρ κ key} (h : t.rows = u.rows) : t = u := by
  cases t
  cases u
  cases h
  rfl

/-- Two rows of a table with the same key are the same row. -/
theorem eq_of_key_eq {t : Table ρ κ key} {r r' : ρ} (hr : r ∈ t) (hr' : r' ∈ t)
    (h : key r = key r') : r = r' :=
  List.inj_on_of_nodup_map t.nodup hr hr' h

/-! ## insert -/

/-- Append a row, unless its key is taken. -/
def insert [DecidableEq κ] (t : Table ρ κ key) (r : ρ) : Option (Table ρ κ key) :=
  if h : key r ∈ t.rows.map key then
    none
  else
    some ⟨t.rows ++ [r], by
      rw [List.map_append, List.map_cons, List.map_nil]
      exact List.nodup_append.mpr ⟨t.nodup, List.nodup_singleton _, by
        intro k hk k' hk' heq
        rw [List.mem_singleton.mp hk'] at heq
        exact h (heq ▸ hk)⟩⟩

section Insert

variable [DecidableEq κ] {t t' : Table ρ κ key} {r : ρ}

theorem rows_of_insert (h : t.insert r = some t') : t'.rows = t.rows ++ [r] := by
  unfold insert at h
  split at h
  · contradiction
  · rw [← Option.some.inj h]

/-- After an insertion there is one row more, and nothing else has changed. -/
theorem mem_insert (h : t.insert r = some t') {r' : ρ} : r' ∈ t' ↔ r' ∈ t ∨ r' = r := by
  rw [mem_def, rows_of_insert h, List.mem_append, List.mem_singleton, mem_def]

/-- A row that is accepted has a key of its own. -/
theorem key_ne_of_insert (h : t.insert r = some t') {r' : ρ} (hr' : r' ∈ t) :
    key r' ≠ key r := by
  unfold insert at h
  split at h
  · contradiction
  · next hnew => exact fun heq => hnew (heq ▸ List.mem_map_of_mem hr')

/-- A row whose key no row has is accepted. -/
theorem exists_insert (h : ∀ r' ∈ t, key r' ≠ key r) : ∃ t', t.insert r = some t' := by
  unfold insert
  split
  · next hk =>
      obtain ⟨r', hr', hkey⟩ := List.mem_map.mp hk
      exact absurd hkey (h r' hr')
  · exact ⟨_, rfl⟩

/-- A row whose key is taken is refused. -/
theorem insert_eq_none (h : ∃ r' ∈ t, key r' = key r) : t.insert r = none := by
  obtain ⟨r', hr', hkey⟩ := h
  exact dif_pos (List.mem_map.mpr ⟨r', hr', hkey⟩)

end Insert

/-! ## update, delete, find -/

/-- Apply `f` to the rows that satisfy `p`; `f` may not touch the key. -/
def update (t : Table ρ κ key) (p : ρ → Bool) (f : ρ → ρ) (hf : ∀ r, key (f r) = key r) :
    Table ρ κ key :=
  ⟨t.rows.map fun r => if p r then f r else r, by
    have hkeys : (t.rows.map fun r => if p r then f r else r).map key = t.rows.map key := by
      rw [List.map_map]
      refine List.map_congr_left fun r _ => ?_
      by_cases hp : p r
      · simp [hp, hf]
      · simp [hp]
    rw [hkeys]
    exact t.nodup⟩

/-- Remove the rows that satisfy `p`. -/
def delete (t : Table ρ κ key) (p : ρ → Bool) : Table ρ κ key :=
  ⟨t.rows.filter fun r => !p r, t.nodup.sublist (List.filter_sublist.map key)⟩

/-- The number of rows that satisfy `p`. -/
def count (t : Table ρ κ key) (p : ρ → Bool) : Nat := t.rows.countP p

/-- The first row that satisfies `p`. -/
def find (t : Table ρ κ key) (p : ρ → Bool) : Option ρ := t.rows.find? p

section Update

variable {t : Table ρ κ key} {p : ρ → Bool} {f : ρ → ρ} {r : ρ}

/-- A row of an updated table comes from one that was there. -/
theorem mem_update (hf : ∀ r, key (f r) = key r) :
    r ∈ t.update p f hf ↔ ∃ r' ∈ t, r = if p r' then f r' else r' := by
  simp only [mem_def, update, List.mem_map, eq_comm]

/-- A deletion keeps the order of the rows it leaves. -/
theorem rows_delete : (t.delete p).rows = t.rows.filter fun r => !p r := rfl

/-- A deletion leaves the rows that do not match. -/
theorem mem_delete : r ∈ t.delete p ↔ r ∈ t ∧ p r = false := by
  simp only [mem_def, delete, List.mem_filter, Bool.not_eq_true']

/-- What is found is a row that matches. -/
theorem mem_of_find (h : t.find p = some r) : r ∈ t ∧ p r = true :=
  ⟨List.mem_of_find?_eq_some h, List.find?_some h⟩

/-- The only row that satisfies the predicate is found. -/
theorem find_of_unique (hr : r ∈ t) (hp : p r = true) (hunique : ∀ r' ∈ t, p r' = true → r' = r) :
    t.find p = some r := by
  cases h : t.find p with
  | none =>
      have hnone := List.find?_eq_none.mp h r hr
      contradiction
  | some r' => rw [hunique r' (mem_of_find h).1 (mem_of_find h).2]

/-- Nothing is found exactly if no row matches. -/
theorem find_eq_none : t.find p = none ↔ ∀ r ∈ t, p r = false := by
  simp only [find, List.find?_eq_none, mem_def, Bool.not_eq_true]

/-- An update keeps the rows in their order. -/
theorem rows_update (hf : ∀ r, key (f r) = key r) :
    (t.update p f hf).rows = t.rows.map fun r => if p r then f r else r := rfl

/-- There are none exactly if no row matches. -/
theorem count_eq_zero : t.count p = 0 ↔ ∀ r ∈ t, p r = false := by
  simp only [count, List.countP_eq_zero, mem_def, Bool.not_eq_true]

/-- A condition that only one row can meet is met at most once. -/
theorem count_le_one (h : ∀ r ∈ t, ∀ r' ∈ t, p r = true → p r' = true → r = r') :
    t.count p ≤ 1 := by
  have hnodup : (t.rows.filter p).Nodup := (List.Nodup.of_map key t.nodup).filter p
  have hsame : ∀ r ∈ t.rows.filter p, ∀ r' ∈ t.rows.filter p, r = r' := by
    intro r hr r' hr'
    rw [List.mem_filter] at hr hr'
    exact h r hr.1 r' hr'.1 hr.2 hr'.2
  rw [count, List.countP_eq_length_filter]
  cases hl : t.rows.filter p with
  | nil => exact Nat.zero_le 1
  | cons r rest =>
      cases rest with
      | nil => exact Nat.le_refl 1
      | cons r' rest =>
          rw [hl] at hnodup hsame
          obtain rfl := hsame r (by simp) r' (by simp)
          simp at hnodup

end Update

end Table

/-- A table whose rows are numbered in insertion order. -/
structure AutoTable (ρ : Type) (key : ρ → Nat) where
  table : Table ρ Nat key
  next : Nat
  lt_next : ∀ r ∈ table, key r < next

instance {ρ : Type} {key : ρ → Nat} [DecidableEq ρ] : DecidableEq (AutoTable ρ key) :=
  fun t u => decidable_of_iff (t.table = u.table ∧ t.next = u.next)
    ⟨fun h => by cases t; cases u; simp_all, fun h => h ▸ ⟨rfl, rfl⟩⟩

namespace AutoTable

variable {ρ : Type} {key : ρ → Nat}

/-- The table without rows; numbering starts at one. -/
def empty : AutoTable ρ key := ⟨Table.empty, 1, fun _ h => absurd h Table.not_mem_empty⟩

instance : Membership ρ (AutoTable ρ key) := ⟨fun t r => r ∈ t.table⟩

/-- The rows, in insertion order. -/
def rows (t : AutoTable ρ key) : List ρ := t.table.rows

/-- Being in a table is being one of its rows. -/
theorem mem_rows {t : AutoTable ρ key} {r : ρ} : r ∈ t.rows ↔ r ∈ t := Iff.rfl

/-- Append the row that `mk` makes for the next number. -/
def insert (t : AutoTable ρ key) (mk : Nat → ρ) (hmk : ∀ n, key (mk n) = n) :
    AutoTable ρ key where
  table := ⟨t.rows ++ [mk t.next], by
    rw [List.map_append, List.map_cons, List.map_nil]
    refine List.nodup_append.mpr ⟨t.table.nodup, List.nodup_singleton _, ?_⟩
    intro k hk k' hk' heq
    rw [List.mem_singleton.mp hk', hmk] at heq
    obtain ⟨r, hr, hkey⟩ := List.mem_map.mp hk
    have hlt := t.lt_next r hr
    omega⟩
  next := t.next + 1
  lt_next := by
    intro r hr
    rcases List.mem_append.mp hr with h | h
    · exact Nat.lt_succ_of_lt (t.lt_next r h)
    · rw [List.mem_singleton.mp h, hmk]
      exact Nat.lt_succ_self _

/-- Apply `f` to the rows that satisfy `p`; `f` may not touch the number. -/
def update (t : AutoTable ρ key) (p : ρ → Bool) (f : ρ → ρ) (hf : ∀ r, key (f r) = key r) :
    AutoTable ρ key where
  table := t.table.update p f hf
  next := t.next
  lt_next := by
    intro r hr
    obtain ⟨r', hr', heq⟩ := (Table.mem_update hf).mp hr
    have hlt := t.lt_next r' hr'
    rw [heq]
    split
    · rw [hf]; exact hlt
    · exact hlt

/-- Remove the rows that satisfy `p`. -/
def delete (t : AutoTable ρ key) (p : ρ → Bool) : AutoTable ρ key where
  table := t.table.delete p
  next := t.next
  lt_next := fun r hr => t.lt_next r (Table.mem_delete.mp hr).1

theorem mem_insert {t : AutoTable ρ key} {mk : Nat → ρ} {hmk : ∀ n, key (mk n) = n} {r : ρ} :
    r ∈ t.insert mk hmk ↔ r ∈ t ∨ r = mk t.next := by
  show r ∈ t.rows ++ [mk t.next] ↔ _
  rw [List.mem_append, List.mem_singleton, mem_rows]

/-- A deletion leaves the rows that do not match. -/
theorem mem_delete {t : AutoTable ρ key} {p : ρ → Bool} {r : ρ} :
    r ∈ t.delete p ↔ r ∈ t ∧ p r = false := Table.mem_delete

/-- Two rows with the same number are the same row. -/
theorem eq_of_key_eq {t : AutoTable ρ key} {r r' : ρ} (hr : r ∈ t) (hr' : r' ∈ t)
    (h : key r = key r') : r = r' := Table.eq_of_key_eq hr hr' h

@[simp] theorem not_mem_empty {r : ρ} : ¬ r ∈ (empty : AutoTable ρ key) := Table.not_mem_empty

end AutoTable

/-! ## sorted rows -/

namespace List

/-- Filtering commutes with the insertion into a sorted list. -/
theorem filter_orderedInsert {α : Type} {r : α → α → Prop} [DecidableRel r] [IsTrans α r]
    {p : α → Bool} {a : α} {l : List α} (hl : l.Pairwise r) :
    (l.orderedInsert r a).filter p =
      if p a then (l.filter p).orderedInsert r a else l.filter p := by
  induction l with
  | nil => by_cases hp : p a <;> simp [hp]
  | cons b l ih =>
      obtain ⟨hb, hl⟩ := List.pairwise_cons.mp hl
      rw [List.orderedInsert]
      by_cases hr : r a b
      · rw [if_pos hr]
        by_cases hp : p a
        · have hfront : ((b :: l).filter p).orderedInsert r a = a :: (b :: l).filter p := by
            rcases hfilter : (b :: l).filter p with _ | ⟨c, rest⟩
            · rfl
            · have hc : c ∈ b :: l := List.mem_of_mem_filter (hfilter ▸ List.mem_cons_self)
              refine if_pos ?_
              rcases List.mem_cons.mp hc with rfl | hc
              · exact hr
              · exact trans_of r hr (hb c hc)
          rw [if_pos hp, hfront, List.filter_cons_of_pos hp]
        · rw [if_neg hp, List.filter_cons_of_neg hp]
      · rw [if_neg hr]
        by_cases hpb : p b <;> by_cases hp : p a <;> simp [hpb, hp, hr, ih hl]

/-- Filtering commutes with sorting. -/
theorem filter_insertionSort {α : Type} {r : α → α → Prop} [DecidableRel r] [IsTrans α r]
    [Std.Total r] (p : α → Bool) (l : List α) :
    (l.insertionSort r).filter p = (l.filter p).insertionSort r := by
  induction l with
  | nil => rfl
  | cons a l ih =>
      rw [List.insertionSort_cons, filter_orderedInsert (List.pairwise_insertionSort r l), ih]
      by_cases hp : p a <;> simp [hp]

/-- The last element comes first when sorted if and only if no other one may stand before it. -/
theorem head?_insertionSort_concat {α : Type} {r : α → α → Prop} [DecidableRel r] {a : α}
    {l : List α} (ha : a ∉ l) :
    ((l ++ [a]).insertionSort r).head? = some a ↔ ∀ b ∈ l, ¬ r b a := by
  induction l with
  | nil => simp
  | cons b l ih =>
      obtain ⟨hne, ha⟩ := not_or.mp (mt List.mem_cons.mpr ha)
      have hne : b ≠ a := Ne.symm hne
      rw [List.cons_append, List.insertionSort_cons, List.forall_mem_cons, ← ih ha]
      cases (l ++ [a]).insertionSort r with
      | nil => simp [hne]
      | cons c rest =>
          rw [List.orderedInsert, List.head?_cons, Option.some.injEq]
          split
          · next hr =>
              refine iff_of_false (by simp [hne]) fun h => ?_
              obtain ⟨hnot, rfl⟩ := h
              exact hnot hr
          · next hr =>
              rw [List.head?_cons, Option.some.injEq]
              refine ⟨?_, And.right⟩
              rintro rfl
              exact ⟨hr, rfl⟩

/-- Where what has a property stands behind what has not, the front of a list reaches to the
property if and only if it is longer than the part without. -/
theorem exists_mem_take_iff {α : Type} {p : α → Bool} {l : List α}
    (hl : l.Pairwise fun a b => p a = true → p b = true) {n : Nat} :
    (∃ a ∈ l.take n, p a = true) ↔ (∃ a ∈ l, p a = true) ∧ l.countP (fun a => !p a) < n := by
  induction l generalizing n with
  | nil => simp
  | cons a l ih =>
      obtain ⟨ha, hl⟩ := List.pairwise_cons.mp hl
      cases n with
      | zero => simp
      | succ n =>
          by_cases hp : p a = true
          · have hnone : l.countP (fun b => !p b) = 0 := by simpa using fun b hb => ha b hb hp
            simp [hp, hnone]
          · simp [hp, ih hl]

end List
