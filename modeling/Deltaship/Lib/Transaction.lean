import Deltaship.Lib.Prog

/-!
# Deltaship.Lib.Transaction

Transactions of a database connection, statement by statement.

A connection holds the rows that are stored and, while a transaction is open, the copy that the
statements of the transaction work on.  Only a commit stores the copy; a transaction that is
rolled back, or dropped by a caller that fails, leaves what is stored as it was.  The rule of this
module is `call_transaction_error`: it is enough that what stands between `begin` and `commit`
stays inside the transaction (`Isolated`).
-/

/-- A connection to a database. -/
structure Connection (σ : Type) where
  stored : σ
  working : Option σ

/-- A statement: the number of rows it affects and the database it makes, or the constraint that
rejects it. -/
abbrev Statement (σ ε : Type) : Type := σ → Except ε (Nat × σ)

namespace Connection

open Prog

variable {σ ε α β : Type}

/-- `BEGIN`. -/
def begin : Prog (Connection σ) ε Unit := modify fun c => { c with working := some c.stored }

/-- Run a statement in the open transaction, or on its own. -/
def execute (stmt : Statement σ ε) : Prog (Connection σ) ε Nat := do
  let c ← get
  match c.working with
  | some db =>
      let (n, db') ← Prog.ofExcept (stmt db)
      modify fun c => { c with working := some db' }
      pure n
  | none =>
      let (n, db') ← Prog.ofExcept (stmt c.stored)
      modify fun c => { c with stored := db' }
      pure n

/-- `ROLLBACK`. -/
def rollback : Prog (Connection σ) ε Unit := modify fun c => { c with working := none }

/-- `COMMIT`. -/
def commit : Prog (Connection σ) ε Unit :=
  modify fun c => { stored := c.working.getD c.stored, working := none }

/-- A transaction with this body. -/
def transaction (body : Prog (Connection σ) ε α) : Prog (Connection σ) ε α := do
  begin
  let a ← body
  commit
  pure a

/-- Run a program on a fresh connection.  A transaction that is still open at its end is dropped,
which rolls it back. -/
def call (m : Prog (Connection σ) ε α) (db : σ) : Except ε α × σ :=
  ((exec m ⟨db, none⟩).1, (exec m ⟨db, none⟩).2.stored)

/-- What a program does on a fresh connection is the outcome of the call. -/
theorem call_eq {m : Prog (Connection σ) ε α} {db : σ} {r : Except ε α × σ}
    (h : wp m (fun a c => (.ok a, c.stored) = r) (fun e c => (.error e, c.stored) = r)
      ⟨db, none⟩) : call m db = r := by
  unfold wp at h
  unfold call
  rcases hrun : exec m ⟨db, none⟩ with ⟨result, c⟩
  rw [hrun] at h
  cases result with
  | ok a => exact h
  | error e => exact h

/-! ## one statement -/

section Rules

variable {Q : α → Connection σ → Prop} {E : ε → Connection σ → Prop} {db : σ}

/-- A statement in an open transaction works on the copy. -/
theorem wp_execute {stmt : Statement σ ε} {Q : Nat → Connection σ → Prop} {db' : σ} :
    wp (execute stmt) Q E ⟨db', some db⟩ ↔ match stmt db with
      | .ok (n, db'') => Q n ⟨db', some db''⟩
      | .error e => E e ⟨db', some db⟩ := by
  unfold execute
  simp only [wp_bind, wp_get, wp_ofExcept]
  cases stmt db with
  | ok p => rfl
  | error e => rfl

@[simp] theorem wp_begin {Q : Unit → Connection σ → Prop} {c : Connection σ} :
    wp (begin : Prog (Connection σ) ε Unit) Q E c ↔ Q () ⟨c.stored, some c.stored⟩ := Iff.rfl

/-- A rollback goes back to the stored state. -/
@[simp] theorem wp_rollback {Q : Unit → Connection σ → Prop} {c : Connection σ} :
    wp (rollback : Prog (Connection σ) ε Unit) Q E c ↔ Q () ⟨c.stored, none⟩ := Iff.rfl

@[simp] theorem wp_commit {Q : Unit → Connection σ → Prop} {c : Connection σ} :
    wp (commit : Prog (Connection σ) ε Unit) Q E c ↔ Q () ⟨c.working.getD c.stored, none⟩ :=
  Iff.rfl

end Rules

/-! ## what stays inside a transaction -/

/-- In an open transaction the program stores nothing, and the transaction is open when it
returns. -/
def Isolated (m : Prog (Connection σ) ε α) : Prop :=
  ∀ stored db, wp m (fun _ c => c.stored = stored ∧ ∃ db', c.working = some db')
    (fun _ c => c.stored = stored) ⟨stored, some db⟩

namespace Isolated

/-- A given result changes nothing that is stored. -/
theorem pure {a : α} : Isolated (Pure.pure a : Prog (Connection σ) ε α) :=
  fun _ db => ⟨rfl, db, rfl⟩

theorem bind {m : Prog (Connection σ) ε α} {f : α → Prog (Connection σ) ε β} (hm : Isolated m)
    (hf : ∀ a, Isolated (f a)) : Isolated (m >>= f) := by
  intro stored db
  rw [wp_bind]
  refine wp_mono (fun a c hc => ?_) (fun _ _ h => h) (hm stored db)
  obtain ⟨c, w⟩ := c
  obtain ⟨rfl, db', rfl⟩ := hc
  exact hf a _ db'

theorem execute {stmt : Statement σ ε} : Isolated (Connection.execute stmt) := by
  intro stored db
  rw [wp_execute]
  cases stmt db with
  | ok p => exact ⟨rfl, p.2, rfl⟩
  | error e => rfl

/-- An exit of a transaction: roll back and fail. -/
theorem rollback_throw {e : ε} :
    Isolated (do rollback; throw e : Prog (Connection σ) ε α) := by
  intro stored db
  simp only [wp_bind, wp_rollback, wp_throw]

theorem ite {m m' : Prog (Connection σ) ε α} {c : Prop} [Decidable c] (hm : Isolated m)
    (hm' : Isolated m') : Isolated (if c then m else m') := by
  split
  · exact hm
  · exact hm'

end Isolated

/-- A transaction that fails stores nothing. -/
theorem call_transaction_error {body : Prog (Connection σ) ε α} (hbody : Isolated body) {db : σ}
    {e : ε} (h : (call (transaction body) db).1 = .error e) :
    (call (transaction body) db).2 = db := by
  have hwp : wp (transaction body) (fun _ _ => True) (fun _ c => c.stored = db) ⟨db, none⟩ := by
    unfold transaction
    simp only [wp_bind, wp_begin, wp_commit, wp_pure]
    exact wp_mono (fun _ _ _ => trivial) (fun _ _ h => h) (hbody db db)
  exact wp_exec_error hwp (exec_of_fst h)

end Connection
