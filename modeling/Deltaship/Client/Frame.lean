import Deltaship.Client.Io

/-!
# Deltaship.Client.Frame

What each operation of `Deltaship.Client.Io` does, in the two forms later
modules use: a rule that says which state a successful and a failed run ends
in (`wp_readFile`, `wp_persistTemp`, ...), and a frame that says which files
it may touch at all (`preserves_writeFile`, ...).

`Touches P` is the frame of everything that runs before an update is
installed: files in `P` may change, the database and the log may not.
-/

namespace Deltaship

/-! ## frames -/

/-- Events that rename nothing. -/
def Quiet (evs : List Event) : Prop := ∀ ev ∈ evs, ev.isRename = false

theorem Quiet.nil : Quiet [] := fun _ h => absurd h List.not_mem_nil

theorem Quiet.append {evs evs' : List Event} (h : Quiet evs) (h' : Quiet evs') :
    Quiet (evs ++ evs') := fun ev hev => (List.mem_append.mp hev).elim (h ev) (h' ev)

/-- Only files in `P` changed, the database did not, and nothing was renamed. -/
structure Touches (P : String → Prop) (w w' : World) : Prop where
  files : Files.AgreeOff P w.files w'.files
  db : w'.db = w.db
  log : ∃ evs, w'.log = w.log ++ evs ∧ Quiet evs

/-- Nothing was added to the log. -/
theorem log_unchanged (w : World) : ∃ evs, w.log = w.log ++ evs ∧ Quiet evs :=
  ⟨[], (List.append_nil _).symm, .nil⟩

namespace Touches

variable {P P' : String → Prop} {w w' : World}

theorem refl (P : String → Prop) (w : World) : Touches P w w := ⟨.refl P _, rfl, log_unchanged w⟩

/-- What is touched by two steps lies within the same paths. -/
theorem trans {w'' : World} (h : Touches P w w') (h' : Touches P w' w'') : Touches P w w'' := by
  obtain ⟨evs, hlog, hq⟩ := h.log
  obtain ⟨evs', hlog', hq'⟩ := h'.log
  exact ⟨h.files.trans h'.files, h'.db.trans h.db, evs ++ evs',
    by rw [hlog', hlog, List.append_assoc], hq.append hq'⟩

instance : IsPreorder World (Touches P) where
  refl := refl P
  trans _ _ _ := trans

/-- What is touched within some paths is touched within more of them. -/
theorem mono (h : Touches P w w') (hP : ∀ p, P p → P' p) : Touches P' w w' :=
  ⟨h.files.mono hP, h.db, h.log⟩

/-- A file outside the frame is as before. -/
theorem file (h : Touches P w w') {p : String} (hp : ¬ P p) : w'.file p = w.file p :=
  h.files p hp

theorem write {p : String} {b : Bytes} (hp : P p) : Touches P w (w.write p b) :=
  ⟨.write hp, rfl, log_unchanged w⟩

theorem remove {p : String} (hp : P p) : Touches P w (w.remove p) :=
  ⟨.remove hp, rfl, log_unchanged w⟩

/-- An event that is no rename touches no file. -/
theorem record (P : String → Prop) (w : World) (ev : Event) (hev : ev.isRename = false) :
    Touches P w (w.record ev) :=
  ⟨.refl P _, rfl, [ev], rfl, fun _ h => List.mem_singleton.mp h ▸ hev⟩

/-- A step that changes neither the files nor the database nor the log. -/
theorem of_eq (hf : w'.files = w.files) (hdb : w'.db = w.db) (hlog : w'.log = w.log) :
    Touches P w w' :=
  ⟨hf ▸ .refl P _, hdb, hlog ▸ log_unchanged w⟩

end Touches

/-! ## what each operation does -/

/- One lemma for every operation that the client performs on files, on the server and on its
database: what holds of the state when it succeeds, and when it fails. -/

section Specs

open Prog

variable {e : Env} {w : World} {site : Site} {p : String}

/-- A call succeeds or fails as the host lets it. -/
theorem wp_guardIo {Q : Unit → World → Prop} {E : String → World → Prop}
    (hok : e.faults site = none → Q () w) (hfail : ∀ msg, e.faults site ≠ none → E msg w) :
    wp (guardIo e site) Q E w := by
  unfold guardIo
  cases h : e.faults site with
  | none => exact hok h
  | some f => exact hfail f.msg (by rw [h]; exact Option.some_ne_none f)

/-- An error is returned exactly if its condition holds. -/
theorem wp_bailIf {c : Prop} [Decidable c] {msg : String} {Q : Unit → World → Prop}
    {E : String → World → Prop} (hok : ¬ c → Q () w) (hfail : c → E msg w) :
    wp (bailIf c msg) Q E w := by
  unfold bailIf
  split
  · next h => exact hfail h
  · next h => exact hok h

/-- An error is returned exactly if the value is missing. -/
theorem wp_orThrow {α : Type} {o : Option α} {msg : String} {Q : α → World → Prop}
    {E : String → World → Prop} (hok : ∀ a, o = some a → Q a w) (hfail : o = none → E msg w) :
    wp (orThrow o msg) Q E w := by
  cases o with
  | none => exact hfail rfl
  | some a => exact hok a rfl

/-- A read gives the content of the file, or fails without a change. -/
theorem wp_readFile {Q : Bytes → World → Prop} {E : String → World → Prop}
    (hok : ∀ b, e.faults site = none → w.file p = some b → Q b w)
    (hfail : ∀ msg, e.faults site ≠ none ∨ w.file p = none → E msg w) :
    wp (readFile e site p) Q E w := by
  unfold readFile
  rw [wp_bind]
  refine wp_guardIo (fun hf => ?_) fun msg hf => hfail msg (.inl hf)
  rw [wp_bind, wp_get]
  cases h : w.file p with
  | none => exact hfail _ (.inr h)
  | some b => exact hok b hf h

/-- The length is that of the content, or the call fails without a change. -/
theorem wp_fileLen {Q : Nat → World → Prop} {E : String → World → Prop}
    (hok : ∀ b, e.faults site = none → w.file p = some b → Q b.length w)
    (hfail : ∀ msg, e.faults site ≠ none ∨ w.file p = none → E msg w) :
    wp (fileLen e site p) Q E w := by
  unfold fileLen
  rw [wp_bind]
  exact wp_readFile (fun b hf hb => hok b hf hb) hfail

/-- A write leaves all of its bytes, or fails and touches its path only. -/
theorem wp_writeFile {b : Bytes} {Q : Unit → World → Prop} {E : String → World → Prop}
    (hok : e.faults site = none → Q () (w.write p b))
    (hfail : ∀ msg w', e.faults site ≠ none → Touches (· = p) w w' → E msg w') :
    wp (writeFile e site p b) Q E w := by
  unfold writeFile
  cases h : e.faults site with
  | none => exact hok h
  | some f =>
      have hne : e.faults site ≠ none := by rw [h]; exact Option.some_ne_none f
      simp only
      cases f.written with
      | none => exact hfail _ _ hne (.refl _ w)
      | some n => exact hfail _ _ hne (.write rfl)

/-- A copy leaves what the source holds, and a failing one touches its target only. -/
theorem wp_copyFile {src dst : String} {Q : Unit → World → Prop} {E : String → World → Prop}
    (hok : ∀ b, e.faults site = none → w.file src = some b →
      Q () (w.write dst (if src = dst then [] else b)))
    (hfail : ∀ msg w', e.faults site ≠ none ∨ w.file src = none ∧ w' = w →
      Touches (· = dst) w w' → E msg w') :
    wp (copyFile e site src dst) Q E w := by
  unfold copyFile
  rw [wp_bind, wp_get]
  cases h : w.file src with
  | none => exact hfail _ _ (.inr ⟨h, rfl⟩) (.refl _ w)
  | some b =>
      exact wp_writeFile (fun hf => hok b hf h) fun msg w' hf => hfail msg w' (.inl hf)

/-- A removal removes the file, or fails without a change. -/
theorem wp_removeFile {Q : Unit → World → Prop} {E : String → World → Prop}
    (hok : Q () (w.remove p))
    (hfail : ∀ msg, e.faults site ≠ none ∨ w.file p = none → E msg w) :
    wp (removeFile e site p) Q E w := by
  unfold removeFile
  rw [wp_bind]
  exact wp_readFile (fun _ _ _ => hok) hfail

/-- A rename moves the file, or fails without a change. -/
theorem wp_renameFile {src dst : String} {Q : Unit → World → Prop} {E : String → World → Prop}
    (hok : ∀ b, e.faults site = none → w.file src = some b → Q () (w.rename src dst b))
    (hfail : ∀ msg, e.faults site ≠ none ∨ w.file src = none → E msg w) :
    wp (renameFile e site src dst) Q E w := by
  unfold renameFile
  rw [wp_bind]
  exact wp_readFile (fun b hf hb => hok b hf hb) hfail

/-- Whether a path exists is asked of the state as it is. -/
theorem wp_pathExists {Q : Bool → World → Prop} {E : String → World → Prop} :
    wp (pathExists p) Q E w ↔ Q (w.pathExists p) w := Iff.rfl

/-- A query answers as the database does, or fails without a change. -/
theorem wp_dbQuery {α : Type} {op : ClientDb → Except DbError (α × ClientDb)}
    {Q : α → World → Prop} {E : String → World → Prop}
    (hok : ∀ a db, op w.db = .ok (a, db) → Q a { w with db })
    (hfail : ∀ msg, e.faults site ≠ none ∨ (∀ r, op w.db ≠ .ok r) → E msg w) :
    wp (dbQuery e site op) Q E w := by
  unfold dbQuery
  rw [wp_bind]
  refine wp_guardIo (fun _ => ?_) fun msg hf => hfail msg (.inl hf)
  rw [wp_bind, wp_get]
  cases h : op w.db with
  | error err => exact hfail _ (.inr fun r heq => by rw [h] at heq; contradiction)
  | ok r => exact hok r.1 r.2 h

/-- A statement changes the database as it says, or fails without a change. -/
theorem wp_dbCall {op : ClientDb → Except DbError ClientDb}
    {Q : Unit → World → Prop} {E : String → World → Prop}
    (hok : ∀ db, op w.db = .ok db → Q () { w with db })
    (hfail : ∀ msg, e.faults site ≠ none ∨ (∀ db, op w.db ≠ .ok db) → E msg w) :
    wp (dbCall e site op) Q E w := by
  refine wp_dbQuery (fun a db h => ?_) fun msg hwhy => hfail msg (hwhy.imp_right fun h db hop => ?_)
  · cases hop : op w.db with
    | error err => rw [hop] at h; contradiction
    | ok db' =>
        rw [hop] at h
        have hdb : db' = db := congrArg Prod.snd (Except.ok.inj h)
        exact hok db (hdb ▸ hop)
  · exact h ((), db) (by rw [hop]; rfl)

/- Where the operation cannot fail, its outcome is known. -/

/-- Without a fault, a file that is there is read. -/
theorem wp_readFile_of {b : Bytes} {Q : Bytes → World → Prop} {E : String → World → Prop}
    (hf : e.faults site = none) (hb : w.file p = some b) (h : Q b w) :
    wp (readFile e site p) Q E w := by
  refine wp_readFile (fun b' _ hb' => ?_) fun _ hwhy => ?_
  · rw [hb] at hb'
    exact Option.some.inj hb' ▸ h
  · rw [hf, hb] at hwhy
    rcases hwhy with h | h <;> contradiction

/-- Without a fault, a file that is there has a length. -/
theorem wp_fileLen_of {b : Bytes} {Q : Nat → World → Prop} {E : String → World → Prop}
    (hf : e.faults site = none) (hb : w.file p = some b) (h : Q b.length w) :
    wp (fileLen e site p) Q E w := by
  unfold fileLen
  rw [wp_bind]
  exact wp_readFile_of hf hb h

/-- Without a fault, a statement that the database accepts is executed. -/
theorem wp_dbCall_of {op : ClientDb → Except DbError ClientDb} {db : ClientDb}
    {Q : Unit → World → Prop} {E : String → World → Prop} (hf : e.faults site = none)
    (hop : op w.db = .ok db) (h : Q () { w with db }) : wp (dbCall e site op) Q E w := by
  refine wp_dbCall (fun db' hop' => ?_) fun _ hwhy => ?_
  · rw [hop] at hop'
    exact Except.ok.inj hop' ▸ h
  · rcases hwhy with h | h
    · exact absurd hf h
    · exact absurd hop (h db)

/-- A temporary file is new, is filled, and is then renamed; if anything fails
it is removed. -/
theorem wp_persistTemp {create rename : Site} {dir dst : String}
    {createErr persistErr : String → String} {fill : String → M Unit} {Q : Unit → World → Prop}
    {E : String → World → Prop}
    (hfail : ∀ msg, e.faults create ≠ none ∨ ¬ e.TempFresh → E msg w)
    (hfill : ∀ temp, w.pathExists temp = false →
      wp (fill temp)
        (fun _ w' => (∀ b, e.faults rename = none → w'.file temp = some b →
            Q () (w'.rename temp dst b)) ∧
          ∀ msg, e.faults rename ≠ none ∨ w'.file temp = none → E msg (w'.remove temp))
        (fun msg w' => E msg (w'.remove temp)) (w.write temp [])) :
    wp (persistTemp e create rename dir dst createErr persistErr fill) Q E w := by
  unfold persistTemp
  rw [wp_bind, wp_get]
  simp only [wp_bind, wp_mapErr]
  refine wp_guardIo (fun _ => ?_) fun msg hf => hfail _ (.inl hf)
  rw [wp_pathExists]
  refine wp_bailIf (fun hex => ?_) fun hex => hfail _ (.inr fun hfresh => ?_)
  · simp only [wp_modify, wp_attempt, wp_bind, wp_mapErr]
    refine wp_mono (fun _ w' h' => ?_) (fun msg w' h' => h')
      (hfill _ (Bool.eq_false_iff.mpr hex))
    exact wp_renameFile (fun b hf hb => h'.1 b hf hb) fun msg => h'.2 (persistErr msg)
  · rw [hfresh] at hex
    contradiction

end Specs

/-! ### frames of the operations -/

section Frames

open Prog

variable {e : Env} {site : Site} {p : String} {P : String → Prop}

/-- An operation that only reads keeps every preorder. -/
theorem preserves_guardIo {R : World → World → Prop} [IsPreorder World R] :
    Preserves R (guardIo e site) :=
  .of_wp fun w => wp_guardIo (fun _ => refl_of R w) fun _ _ => refl_of R w

theorem preserves_readFile {R : World → World → Prop} [IsPreorder World R] :
    Preserves R (readFile e site p) :=
  .of_wp fun w => wp_readFile (fun _ _ _ => refl_of R w) fun _ _ => refl_of R w

theorem preserves_fileLen {R : World → World → Prop} [IsPreorder World R] :
    Preserves R (fileLen e site p) :=
  .of_wp fun w => wp_fileLen (fun _ _ _ => refl_of R w) fun _ _ => refl_of R w

theorem preserves_pathExists {R : World → World → Prop} [IsPreorder World R] :
    Preserves R (pathExists p) := fun w => refl_of R w

theorem preserves_bailIf {R : World → World → Prop} [IsPreorder World R] {c : Prop} [Decidable c]
    {msg : String} : Preserves R (bailIf c msg) := .ite .throw .pure

/-- Returning one for a missing value changes nothing, either. -/
theorem preserves_orThrow {R : World → World → Prop} [IsPreorder World R] {α : Type}
    {o : Option α} {msg : String} : Preserves R (orThrow o msg) := by
  cases o with
  | none => exact .throw
  | some a => exact .pure

/-- A request is recorded, and no file is touched. -/
theorem preserves_request {r : HttpRequest} : Preserves (Touches P) (request e r) :=
  fun _ => .of_eq rfl rfl rfl

/-- An event that is no rename is recorded, and no file is touched. -/
theorem preserves_emit {ev : Event} (hev : ev.isRename = false) :
    Preserves (Touches P) (emit ev) :=
  fun w => .record P w ev hev

/-- Making a directory does what adding it does. -/
theorem preserves_createDirAll_of {R : World → World → Prop} [IsPreorder World R] {dir : String}
    (hdir : ∀ w : World, R w { w with dirs := w.dirs.insert dir }) :
    Preserves R (createDirAll e site dir) :=
  .of_wp fun w => by
    unfold createDirAll
    rw [wp_bind]
    exact wp_guardIo (fun _ => hdir w) fun _ _ => refl_of R w

theorem preserves_createDirAll {dir : String} : Preserves (Touches P) (createDirAll e site dir) :=
  preserves_createDirAll_of fun _ => .of_eq rfl rfl rfl

/-- Writing a file, in whole or in part, is one write. -/
theorem preserves_writeFile_of {R : World → World → Prop} [IsPreorder World R] {b : Bytes}
    (hwrite : ∀ w b, R w (w.write p b)) : Preserves R (writeFile e site p b) := by
  refine .of_wp fun w => ?_
  unfold writeFile
  cases e.faults site with
  | none => exact hwrite w b
  | some f =>
      simp only
      cases f.written with
      | none => exact refl_of R w
      | some n => exact hwrite w _

theorem preserves_writeFile {b : Bytes} (hp : P p) :
    Preserves (Touches P) (writeFile e site p b) :=
  preserves_writeFile_of fun _ _ => .write hp

/-- Appending to a file, in whole or in part, is one write. -/
theorem preserves_appendFile_of {R : World → World → Prop} [IsPreorder World R] {b : Bytes}
    (hwrite : ∀ w b, R w (w.write p b)) : Preserves R (appendFile e site p b) := by
  refine .of_wp fun w => ?_
  unfold appendFile
  rw [wp_bind, wp_get]
  cases e.faults site with
  | none => exact hwrite w _
  | some f =>
      simp only
      cases f.written with
      | none => exact refl_of R w
      | some n => exact hwrite w _

theorem preserves_copyFile {src dst : String} (hp : P dst) :
    Preserves (Touches P) (copyFile e site src dst) :=
  .of_wp fun _ => wp_copyFile (fun _ _ _ => .write hp) fun _ _ _ h => h.mono fun _ hq => hq ▸ hp

/-- Removing a file is one removal, or nothing. -/
theorem preserves_removeFile_of {R : World → World → Prop} [IsPreorder World R]
    (hremove : ∀ w, R w (w.remove p)) : Preserves R (removeFile e site p) :=
  .of_wp fun w => wp_removeFile (hremove w) fun _ _ => refl_of R w

theorem preserves_removeFile (hp : P p) : Preserves (Touches P) (removeFile e site p) :=
  preserves_removeFile_of fun _ => .remove hp

end Frames

end Deltaship
