import TangraTicket.Library.RelyGuarantee
import TangraTicket.Library.TableWrites

/-!
A relational database under READ COMMITTED, at the granularity of statements. A transaction's writes
stay pending until it commits; every statement sees the rows committed by then, with the
transaction's own writes over them. The row locks are the pending writes themselves: an updated or
deleted row is locked against other writers, and the rows an inserted row refers to against
deletion. A statement that is scheduled while another transaction holds a lock it needs is given up,
as the victim of a deadlock or of a cancelled wait; a statement that waits is one not scheduled yet.
-/

namespace TangraTicket.ReadCommitted

open KeyedTable CallProgram

structure Schema (κ ρ : Type) [DecidableEq κ] where
  key : ρ → κ
  parents : ρ → List κ
  rivals : ρ → ρ → Bool
  rivals_of_key : ∀ r r', key r = key r' → rivals r r' = true
  removal : Table κ ρ key → κ → List (Write κ ρ)
  removal_lawful : ∀ t k, Lawful parents t (removal t k)

variable {κ ρ ξ : Type} [DecidableEq κ] [DecidableEq ξ] {S : Schema κ ρ}

namespace Schema

variable (S)

structure Change where
  apply : ρ → ρ
  key_apply : ∀ r, S.key (apply r) = S.key r
  parents_apply : ∀ r, S.parents (apply r) ⊆ S.parents r

def removals (t : Table κ ρ S.key) (rs : List ρ) : List (Write κ ρ) :=
  rs.foldl (fun ws r => ws ++ S.removal (writeAll t ws) (S.key r)) []

def insertable (skip : Bool) : Table κ ρ S.key → List ρ → Option (List ρ)
  | _, [] => some []
  | t, r :: rs =>
    if t.rows.any (S.rivals r) then if skip then insertable skip t rs else none
    else (insertable skip (t.put r) rs).map (r :: ·)

def clash : Write κ ρ → Write κ ρ → Bool
  | .insert r, .insert r' => S.key r = S.key r' || S.rivals r r'
  | .insert r, .remove k => S.key r = k || k ∈ S.parents r
  | .remove k, .insert r => k = S.key r || k ∈ S.parents r
  | w, w' => w.target S.key = w'.target S.key

def disputes (t : Table κ ρ S.key) : Write κ ρ → Write κ ρ → Bool
  | .insert r, w' => (t.get? (w'.target S.key)).any (S.rivals r)
  | _, _ => false

end Schema

inductive SqlErr
  | uniqueViolation | foreignKeyViolation | failure
deriving DecidableEq

inductive Stmt (S : Schema κ ρ)
  | select (p : ρ → Bool)
  | aim (p : ρ → Bool)
  | delete (p : ρ → Bool)
  | update (p : ρ → Bool) (f : S.Change)
  | insert (rs : List ρ) (skip : Bool)
  | commit
  | rollback

def Stmt.Answer : Stmt S → Type
  | .select _ => Except SqlErr (List ρ)
  | .delete .. | .update .. => Except SqlErr ℕ
  | .aim _ | .insert .. | .commit => Except SqlErr Unit
  | .rollback => Unit

structure Call (S : Schema κ ρ) (ξ : Type) where
  tx : ξ
  stmt : Stmt S

abbrev Call.Answer (e : Call S ξ) : Type := e.stmt.Answer

/-- The committed rows, the writes of the open transactions, and the rows found by the statements
that wait. A row that a commit deletes is no longer found, even if the same commit puts another in
its place. -/
structure Db (S : Schema κ ρ) (ξ : Type) where
  rows : Table κ ρ S.key
  pending : List (ξ × Write κ ρ) := []
  found : List (ξ × κ) := []

namespace Db

variable (db : Db S ξ) (x : ξ)

def mine : List (Write κ ρ) := (db.pending.filter fun p => p.1 = x).map Prod.snd

def view : Table κ ρ S.key := writeAll db.rows (db.mine x)

def blocked (ws : List (Write κ ρ)) : Bool :=
  db.pending.any fun p => p.1 ≠ x && ws.any fun w => S.clash w p.2 || S.disputes db.rows w p.2

def removes (k : κ) : Bool := (db.mine x).any fun w => w.row?.isNone && w.target S.key = k

def commit : Db S ξ where
  rows := db.view x
  pending := db.pending.filter fun p => p.1 ≠ x
  found := db.found.filter fun p => p.1 ≠ x && !db.removes x p.2

def abort : Db S ξ where
  rows := db.rows
  pending := db.pending.filter fun p => p.1 ≠ x
  found := db.found.filter fun p => p.1 ≠ x

def find (p : ρ → Bool) : Db S ξ :=
  { db with
    found := (db.found.filter fun p => p.1 ≠ x) ++ ((db.view x).rows.filter p).map fun r =>
    (x, S.key r) }

def extend (ws : List (Write κ ρ)) : Db S ξ := { db with pending := db.pending ++ ws.map (x, ·) }

def attempt {β : Type} (ws : List (Write κ ρ)) (b : β) : Except SqlErr β × Db S ξ :=
  if db.blocked x ws then (.error .failure, db) else (.ok b, db.extend x ws)

def hits (p : ρ → Bool) : List ρ := (db.view x).rows.filter fun r => (x, S.key r) ∈ db.found && p r

def tryInsert (rs : List ρ) (skip : Bool) : Except SqlErr Unit × Db S ξ :=
  -- uniqueness is decided when no other transaction holds a rival, for the rows left out too
  if db.blocked x (rs.map .insert) then (.error .failure, db) else
  match S.insertable skip (db.view x) rs with
  | none => (.error .uniqueViolation, db)
  | some new =>
    if new.all fun r => (S.parents r).all fun k =>
      ((writeAll (db.view x) (new.map .insert)).get? k).isSome then
      (.ok (), db.extend x (new.map .insert))
    else (.error .foreignKeyViolation, db)

def perform : (st : Stmt S) → st.Answer × Db S ξ
  | .select p => (.ok ((db.view x).rows.filter p), db)
  | .aim p => (.ok (), db.find x p)
  | .delete p => db.attempt x (S.removals (db.view x) (db.hits x p)) (db.hits x p).length
  | .update p f => db.attempt x ((db.hits x p).map fun r => .update (f.apply r)) (db.hits x p).length
  | .insert rs skip => db.tryInsert x rs skip
  | .commit => (.ok (), db.commit x)
  | .rollback => ((), db.abort x)

/-- A lost connection, a cancelled request. A commit that fails has rolled back. -/
def fail : (st : Stmt S) → st.Answer × Db S ξ
  | .select _ => (.error .failure, db)
  | .aim _ => (.error .failure, db)
  | .delete .. => (.error .failure, db)
  | .update .. => (.error .failure, db)
  | .insert .. => (.error .failure, db)
  | .commit => (.error .failure, db.abort x)
  | .rollback => ((), db.abort x)

end Db

def step (fails : Bool) (e : Call S ξ) (db : Db S ξ) : e.Answer × Db S ξ :=
  if fails then db.fail e.tx e.stmt else db.perform e.tx e.stmt

namespace Db

variable {db : Db S ξ} {x y : ξ} {ws : List (Write κ ρ)}

theorem mem_mine {w : Write κ ρ} : w ∈ db.mine x ↔ (x, w) ∈ db.pending := by
  simp [mine]

theorem mine_extend_self : (db.extend x ws).mine x = db.mine x ++ ws := by
  simp [mine, extend, List.filter_map, Function.comp_def]

theorem mine_extend_other (h : x ≠ y) : (db.extend y ws).mine x = db.mine x := by
  simp [mine, extend, List.filter_map, Function.comp_def, h.symm]

theorem mine_drop_self :
    ((db.pending.filter fun p => p.1 ≠ x).filter fun p => p.1 = x).map Prod.snd = [] := by
  simp [List.filter_filter]

theorem mine_drop_other (h : x ≠ y) :
    ((db.pending.filter fun p => p.1 ≠ y).filter fun p => p.1 = x).map Prod.snd = db.mine x := by
  rw [List.filter_filter]
  refine congrArg (List.map Prod.snd) (List.filter_congr fun p _ => ?_)
  by_cases hp : p.1 = x <;> simp [hp, h]

theorem view_extend_self : (db.extend x ws).view x = writeAll (db.view x) ws := by
  rw [view, mine_extend_self, writeAll_append]
  rfl

theorem blocked_subset {ws' : List (Write κ ρ)} (h : db.blocked x ws' = false) (hsub : ws ⊆ ws') :
    db.blocked x ws = false := by
  rw [Bool.eq_false_iff] at h ⊢
  intro hb
  apply h
  obtain ⟨p, hp, hb⟩ := List.any_eq_true.mp hb
  refine List.any_eq_true.mpr ⟨p, hp, ?_⟩
  rw [Bool.and_eq_true] at hb ⊢
  obtain ⟨w, hw, hc⟩ := List.any_eq_true.mp hb.2
  exact ⟨hb.1, List.any_eq_true.mpr ⟨w, hsub hw, hc⟩⟩

end Db

theorem lawful_removals (t : Table κ ρ S.key) (rs : List ρ) : Lawful S.parents t (S.removals t rs) := by
  induction rs using List.reverseRecOn with
  | nil => exact .nil t
  | append_singleton rs r ih =>
    simp only [Schema.removals, List.foldl_append, List.foldl_cons, List.foldl_nil]
    exact ih.append (S.removal_lawful _ _)

theorem insertable_sublist {skip : Bool} {t : Table κ ρ S.key} {rs new : List ρ}
    (h : S.insertable skip t rs = some new) :
    new.Sublist rs := by
  induction rs generalizing t new with
  | nil =>
    obtain rfl := Option.some.inj h
    exact .slnil
  | cons r rs ih =>
    unfold Schema.insertable at h
    split_ifs at h
    · exact (ih h).cons r
    · obtain ⟨rest, hrest, rfl⟩ := Option.map_eq_some_iff.mp h
      exact (ih hrest).cons_cons r

theorem get?_of_no_rival {t : Table κ ρ S.key} {r : ρ} (h : ¬ t.rows.any (S.rivals r) = true) :
    t.get? (S.key r) = none := by
  refine Table.get?_eq_none.mpr fun r' hr' hk => h ?_
  exact List.any_eq_true.mpr ⟨r', hr', S.rivals_of_key r r' hk.symm⟩

theorem get?_of_insertable {skip : Bool} {t : Table κ ρ S.key} {rs new : List ρ}
    (h : S.insertable skip t rs = some new) :
    ∀ r ∈ new, t.get? (S.key r) = none := by
  induction rs generalizing t new with
  | nil =>
    obtain rfl := Option.some.inj h
    exact nofun
  | cons r rs ih =>
    unfold Schema.insertable at h
    split_ifs at h with hany
    · exact ih h
    · obtain ⟨rest, hrest, rfl⟩ := Option.map_eq_some_iff.mp h
      refine List.forall_mem_cons.mpr ⟨get?_of_no_rival hany, fun r' hr' => ?_⟩
      have hput := ih hrest r' hr'
      rw [Table.get?_put] at hput
      split_ifs at hput
      exact hput

theorem insertable_or_rival {skip : Bool} {t : Table κ ρ S.key} {rs new : List ρ}
    (h : S.insertable skip t rs = some new) :
    ∀ r ∈ rs, r ∈ new ∨ ∃ r', (r' ∈ t.rows ∨ r' ∈ new) ∧ S.rivals r r' = true := by
  induction rs generalizing t new with
  | nil => exact nofun
  | cons r rs ih =>
    unfold Schema.insertable at h
    split_ifs at h with hany
    · obtain ⟨r', hr', hrival⟩ := List.any_eq_true.mp hany
      exact List.forall_mem_cons.mpr ⟨.inr ⟨r', .inl hr', hrival⟩, ih h⟩
    · obtain ⟨rest, hrest, rfl⟩ := Option.map_eq_some_iff.mp h
      refine List.forall_mem_cons.mpr ⟨.inl List.mem_cons_self, fun r₁ hr₁ => ?_⟩
      obtain hin | ⟨r', hr' | hr', hrival⟩ := ih hrest r₁ hr₁
      · exact .inl (List.mem_cons_of_mem r hin)
      · obtain rfl | ⟨hold, -⟩ := Table.mem_put.mp hr'
        · exact .inr ⟨r', .inr List.mem_cons_self, hrival⟩
        · exact .inr ⟨r', .inl hold, hrival⟩
      · exact .inr ⟨r', .inr (List.mem_cons_of_mem r hr'), hrival⟩

theorem insertable_one {t : Table κ ρ S.key} {r : ρ} {new : List ρ}
    (h : S.insertable false t [r] = some new) : new = [r] := by
  unfold Schema.insertable at h
  split_ifs at h with hany hskip
  · cases hskip
  · exact (Option.some.inj h).symm

theorem lawful_inserts {t : Table κ ρ S.key} {new : List ρ}
    (h : new.all fun r => (S.parents r).all fun k => ((writeAll t (new.map .insert)).get? k).isSome) :
    Lawful S.parents t (new.map .insert) := by
  have hrow : ∀ w ∈ new.map (Write.insert (κ := κ)), ∃ r ∈ new, w = .insert r := by
    intro w hw
    obtain ⟨r, hr, rfl⟩ := List.mem_map.mp hw
    exact ⟨r, hr, rfl⟩
  refine lawful_of_puts ?_ ?_ ?_
  · intro w hw
    obtain ⟨r, -, rfl⟩ := hrow w hw
    exact nofun
  · intro _ w hw r' hr' k hk
    obtain ⟨r, hr, rfl⟩ := hrow w hw
    obtain rfl := Option.some.inj hr'
    have hp := List.all_eq_true.mp (List.all_eq_true.mp h r hr) k hk
    exact Option.isSome_iff_ne_none.mp hp
  · intro r' hr'
    obtain ⟨r, -, hr⟩ := hrow _ hr'
    cases hr

theorem lawful_updates (t : Table κ ρ S.key) (p : ρ → Bool) (f : S.Change) :
    Lawful S.parents t ((t.rows.filter p).map fun r => .update (f.apply r)) := by
  have hrow : ∀ w ∈ (t.rows.filter p).map (fun r => Write.update (κ := κ) (f.apply r)),
      ∃ r ∈ t.rows, w = .update (f.apply r) := by
    intro w hw
    obtain ⟨r, hr, rfl⟩ := List.mem_map.mp hw
    exact ⟨r, (List.mem_filter.mp hr).1, rfl⟩
  have hputs : ∀ w ∈ (t.rows.filter p).map (fun r => Write.update (κ := κ) (f.apply r)), w.row? ≠ none := by
    intro w hw
    obtain ⟨r, -, rfl⟩ := hrow w hw
    exact nofun
  refine lawful_of_puts hputs ?_ ?_
  · intro ht w hw r' hr' k hk
    obtain ⟨r, hr, rfl⟩ := hrow w hw
    obtain rfl := Option.some.inj hr'
    exact get?_writeAll_of_puts hputs (ht _ r (Table.get?_eq_some.mpr ⟨hr, rfl⟩) k (f.parents_apply r hk))
  · intro r' hr'
    obtain ⟨r, hr, he⟩ := hrow _ hr'
    obtain rfl := Write.update.inj he
    exact ⟨r, Table.get?_eq_some.mpr ⟨hr, (f.key_apply r).symm⟩, f.parents_apply r⟩

inductive Moves (x : ξ) (may : Prop) (db : Db S ξ) : Db S ξ → Prop
  | idle : Moves x may db db
  | find (p : ρ → Bool) : Moves x may db (db.find x p)
  | extend (ws : List (Write κ ρ)) (hfree : db.blocked x ws = false)
      (hws : Lawful S.parents (db.view x) ws) :
      Moves x may db (db.extend x ws)
  | commit (h : may) : Moves x may db (db.commit x)
  | abort : Moves x may db (db.abort x)

theorem moves_attempt {β : Type} {may : Prop} (x : ξ) (db : Db S ξ) {ws : List (Write κ ρ)} (b : β)
    (hws : Lawful S.parents (db.view x) ws) : Moves x may db (db.attempt x ws b).2 := by
  unfold Db.attempt
  split_ifs with hb
  · exact .idle
  · exact .extend ws (Bool.eq_false_iff.mpr hb) hws

theorem tryInsert_cases (x : ξ) (db : Db S ξ) (rs : List ρ) (skip : Bool) :
    (∃ err, db.tryInsert x rs skip = (.error err, db)) ∨
      ∃ new, S.insertable skip (db.view x) rs = some new ∧ db.blocked x (new.map .insert) = false ∧
        Lawful S.parents (db.view x) (new.map .insert) ∧
        db.tryInsert x rs skip = (.ok (), db.extend x (new.map .insert)) := by
  unfold Db.tryInsert
  split_ifs with hb
  · exact .inl ⟨_, rfl⟩
  · split
    · exact .inl ⟨_, rfl⟩
    · rename_i new hnew
      split_ifs with hp
      · have hsub := List.map_subset (Write.insert (κ := κ)) (insertable_sublist hnew).subset
        exact .inr ⟨new, hnew, Db.blocked_subset (Bool.eq_false_iff.mpr hb) hsub, lawful_inserts hp, rfl⟩
      · exact .inl ⟨_, rfl⟩

theorem step_moves (fails : Bool) (e : Call S ξ) (db : Db S ξ) :
    Moves e.tx (fails = false ∧ e.stmt = .commit) db (step fails e db).2 := by
  obtain ⟨x, st⟩ := e
  cases fails with
  | true =>
    cases st with
    | commit => exact .abort
    | rollback => exact .abort
    | _ => exact .idle
  | false =>
    cases st with
    | select p => exact .idle
    | aim p => exact .find p
    | delete p => exact moves_attempt x db _ (lawful_removals _ _)
    | update p f => exact moves_attempt x db _ (lawful_updates _ _ f)
    | insert rs skip =>
      obtain ⟨err, he⟩ | ⟨new, -, hfree, hws, he⟩ := tryInsert_cases x db rs skip
      · exact (congrArg Prod.snd he).symm ▸ .idle
      · exact (congrArg Prod.snd he).symm ▸ .extend _ hfree hws
    | commit => exact .commit ⟨rfl, rfl⟩
    | rollback => exact .abort

end TangraTicket.ReadCommitted
