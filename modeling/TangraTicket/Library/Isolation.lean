import TangraTicket.Library.RowLocks

/-!
Transactions that do not commit under each other's feet. READ COMMITTED lets a transaction act on
rows that another has changed since it read them; where no commit touches what a still open
transaction has read, what it read stays true until it ends, and so do the rows it has locked.
-/

namespace TangraTicket.ReadCommitted

open KeyedTable CallProgram

variable {κ ρ ξ α : Type} [DecidableEq κ] [DecidableEq ξ] {S : Schema κ ρ}

abbrev Log (S : Schema κ ρ) (ξ : Type) := List (Event (Call S ξ) Call.Answer)

def readOf : Event (Call S ξ) Call.Answer → Option (ρ → Bool)
  | ⟨⟨_, .select p⟩, _⟩ | ⟨⟨_, .aim p⟩, _⟩ => some p
  | _ => none

def reads (log : Log S ξ) : List (ρ → Bool) := log.filterMap readOf

omit [DecidableEq ξ] in
theorem reads_subset_append (l l' : Log S ξ) : reads l ⊆ reads (l ++ l') := by
  rw [reads, reads, List.filterMap_append]
  exact List.subset_append_left _ _

def Db.touched (db : Db S ξ) (x : ξ) : List ρ :=
  (db.mine x).flatMap fun w => (db.rows.get? (w.target S.key)).toList ++ w.row?.toList

def committing : Prog (Call S ξ) Call.Answer α → Option ξ
  | .call ⟨x, .commit⟩ _ => some x
  | _ => none

/-- A commit touches no row of `q` that a statement of another open transaction has looked for. -/
def Unstale (q : ρ → Bool) (cfg : Config ξ (Call S ξ) Call.Answer α (Db S ξ)) (i : ξ)
    (fails : Bool) : Prop :=
  fails = false → ∀ x, committing (cfg.threads i).prog = some x → ∀ j, j ≠ i →
    (cfg.threads j).prog.pending.isSome → ∀ r ∈ cfg.state.touched x, q r →
    ∀ p ∈ reads (cfg.threads j).log, p r = false

/-- What stays for transaction `x` while the others move. -/
structure Steady (q : ρ → Bool) (x : ξ) (log : Log S ξ) (s s' : Db S ξ) : Prop where
  mine : s'.mine x = s.mine x
  locked : ∀ w ∈ s.mine x, s'.rows.get? (w.target S.key) = s.rows.get? (w.target S.key)
  seen : ∀ p ∈ reads log, ∀ r, q r → p r → (r ∈ s'.rows.rows ↔ r ∈ s.rows.rows)
  found : ∀ k, (x, k) ∈ s'.found → (x, k) ∈ s.found
  kept : ∀ r ∈ s.rows.rows, q r → ∀ p ∈ reads log, p r → (x, S.key r) ∈ s.found → (x, S.key r) ∈ s'.found

variable {q : ρ → Bool} {x y : ξ} {log : Log S ξ} {s s' s'' : Db S ξ}

theorem Steady.refl : Steady q x log s s :=
  ⟨rfl, fun _ _ => rfl, fun _ _ _ _ _ => Iff.rfl, fun _ => id, fun _ _ _ _ _ _ => id⟩

theorem Steady.trans (h : Steady q x log s s') (h' : Steady q x log s' s'') : Steady q x log s s'' where
  mine := h'.mine.trans h.mine
  locked w hw := (h'.locked w (h.mine ▸ hw)).trans (h.locked w hw)
  seen p hp r hq hr := (h'.seen p hp r hq hr).trans (h.seen p hp r hq hr)
  found k hk := h.found k (h'.found k hk)
  kept r hr hq p hp hpr hk :=
    h'.kept r ((h.seen p hp r hq hpr).mpr hr) hq p hp hpr (h.kept r hr hq p hp hpr hk)

theorem mem_touched_old {w : Write κ ρ} {r : ρ} (hw : w ∈ s.mine y) (hr : r ∈ s.rows.rows)
    (hk : w.target S.key = S.key r) : r ∈ s.touched y := by
  refine List.mem_flatMap.mpr ⟨w, hw, List.mem_append_left _ ?_⟩
  rw [hk, Table.get?_eq_some.mpr ⟨hr, rfl⟩]
  exact List.mem_singleton_self r

theorem mem_touched_new {w : Write κ ρ} {r : ρ} (hw : w ∈ s.mine y) (hr : w.row? = some r) :
    r ∈ s.touched y := by
  refine List.mem_flatMap.mpr ⟨w, hw, List.mem_append_right _ ?_⟩
  rw [hr]
  exact List.mem_singleton_self r

theorem mem_commit_of_untouched {r : ρ} (h : r ∉ s.touched y) :
    r ∈ (s.commit y).rows.rows ↔ r ∈ s.rows.rows := by
  have hrow : ∀ t : Table κ ρ S.key, r ∈ t.rows ↔ t.get? (S.key r) = some r := fun t => by
    simp [Table.get?_eq_some]
  rw [hrow, hrow, Db.commit, Db.view]
  constructor
  · intro hr
    obtain ⟨w, hw, hrow⟩ | ⟨hold, -⟩ := get?_writeAll_some hr
    · exact absurd (mem_touched_new hw hrow) h
    · exact hold
  · intro hr
    rw [get?_writeAll_of_untouched, hr]
    intro w hw hk
    exact h (mem_touched_old hw (Table.get?_eq_some.mp hr).1 hk)

theorem mem_found_drop {k : κ} : (x, k) ∈ s.found.filter (fun p => p.1 ≠ y) ↔ (x, k) ∈ s.found ∧ x ≠ y := by
  simp [List.mem_filter]

theorem mem_found_commit {k : κ} :
    (x, k) ∈ (s.commit y).found ↔ (x, k) ∈ s.found ∧ x ≠ y ∧ s.removes y k = false := by
  simp [Db.commit, List.mem_filter]

theorem not_removes_of_untouched {r : ρ} (hr : r ∈ s.rows.rows) (h : r ∉ s.touched y) :
    s.removes y (S.key r) = false := by
  refine List.any_eq_false.mpr fun w hw => ?_
  have hne : w.target S.key ≠ S.key r := fun hk => h (mem_touched_old hw hr hk)
  simp [hne]

theorem steady_of_moves {may : Prop} (hs : Sound s) (hxy : x ≠ y) (hm : Moves y may s s')
    (hc : may → ∀ r ∈ s.touched y, q r → ∀ p ∈ reads log, p r = false) : Steady q x log s s' := by
  cases hm with
  | idle => exact .refl
  | find p =>
    have hfound : ∀ k, (x, k) ∈ (s.find y p).found ↔ (x, k) ∈ s.found := by
      intro k
      simp [Db.find, hxy, hxy.symm]
    refine ⟨rfl, fun _ _ => rfl, fun _ _ _ _ _ => Iff.rfl, fun k => (hfound k).mp, fun r _ _ _ _ _ => ?_⟩
    exact (hfound (S.key r)).mpr
  | extend ws hfree hws =>
    exact ⟨Db.mine_extend_other hxy, fun _ _ => rfl, fun _ _ _ _ _ => Iff.rfl, fun _ =>
      id, fun _ _ _ _ _ _ => id⟩
  | commit h =>
    have hun : ∀ p ∈ reads log, ∀ r, q r → p r → r ∉ s.touched y := by
      intro p hp r hq hpr hr
      rw [hc h r hr hq p hp] at hpr
      cases hpr
    refine ⟨Db.mine_drop_other hxy, fun w hw => hs.untouched hxy hw, ?_, ?_, ?_⟩
    · exact fun p hp r hq hpr => mem_commit_of_untouched (hun p hp r hq hpr)
    · exact fun k hk => (mem_found_commit.mp hk).1
    · intro r hr hq p hp hpr hk
      exact mem_found_commit.mpr ⟨hk, hxy, not_removes_of_untouched hr (hun p hp r hq hpr)⟩
  | abort =>
    refine ⟨Db.mine_drop_other hxy, fun _ _ => rfl, fun _ _ _ _ _ => Iff.rfl, ?_, ?_⟩
    · exact fun k hk => (mem_found_drop.mp hk).1
    · exact fun r _ _ _ _ _ hk => mem_found_drop.mpr ⟨hk, hxy⟩

theorem view_of_mine_nil (h : s.mine x = []) : s.view x = s.rows := by
  rw [Db.view, h]
  rfl

theorem mem_hits_of_steady {p : ρ → Bool} (hp : ∀ r, p r → q r) (hmine : s.mine x = [])
    (h : Steady q x log (s.find x p) s') (hlog : p ∈ reads log) {r : ρ} :
    r ∈ s'.hits x p ↔ r ∈ s'.rows.rows ∧ p r := by
  have hview : s'.view x = s'.rows := view_of_mine_nil (h.mine.trans hmine)
  rw [Db.hits, hview, List.mem_filter]
  refine and_congr_right fun hr => ?_
  rw [Bool.and_eq_true, and_iff_right_of_imp]
  intro hpr
  have hold : r ∈ s.rows.rows := (h.seen p hlog r (hp r hpr) hpr).mp hr
  have hfound : (x, S.key r) ∈ (s.find x p).found := by
    refine List.mem_append_right _ (List.mem_map_of_mem (List.mem_filter.mpr ⟨?_, hpr⟩))
    rwa [view_of_mine_nil hmine]
  exact decide_eq_true (h.kept r hold (hp r hpr) p hlog hpr hfound)

section Programs

variable {ε : Type} (g : SqlErr → ε) (x : ξ)

abbrev Sql (S : Schema κ ρ) (ξ ε α : Type) := Fallible (Call S ξ) Call.Answer ε α

def select (p : ρ → Bool) : Sql S ξ ε (List ρ) := Prog.orFail (Prog.perform (⟨x, .select p⟩ : Call S ξ)) g

def deleteWhere (p : ρ → Bool) : Sql S ξ ε ℕ := do
  Prog.orFail (Prog.perform (⟨x, .aim p⟩ : Call S ξ)) g
  Prog.orFail (Prog.perform (⟨x, .delete p⟩ : Call S ξ)) g

def updateWhere (p : ρ → Bool) (f : S.Change) : Sql S ξ ε ℕ := do
  Prog.orFail (Prog.perform (⟨x, .aim p⟩ : Call S ξ)) g
  Prog.orFail (Prog.perform (⟨x, .update p f⟩ : Call S ξ)) g

def insertInto (rs : List ρ) (skip : Bool) : Sql S ξ ε Unit :=
  Prog.orFail (Prog.perform (⟨x, .insert rs skip⟩ : Call S ξ)) g

def transact (body : Sql S ξ ε α) : Prog (Call S ξ) Call.Answer (Except ε α) := do
  match ← body.run with
  | .ok a =>
    let r : Except SqlErr Unit ← Prog.perform (⟨x, .commit⟩ : Call S ξ)
    pure ((r.mapError g).map fun _ => a)
  | .error e =>
    let _ ← Prog.perform (⟨x, .rollback⟩ : Call S ξ)
    pure (.error e)

end Programs

section Assured

variable (q : ρ → Bool) (I : Db S ξ → Prop) (J : ξ → Db S ξ → Db S ξ → Prop) (Pre : Log S ξ → Db S ξ → Prop)

structure Relies (x : ξ) (log : Log S ξ) (s s' : Db S ξ) : Prop where
  steady : Steady q x log s s'
  others : J x s s'

structure Promises (x : ξ) (log : Log S ξ) (e : Call S ξ) (s : Db S ξ) : Prop where
  own : e.tx = x
  ready : e.stmt = .commit → Pre log s
  keeps : ∀ fails, I (step fails e s).2 ∧ ∀ y, y ≠ x → J y s (step fails e s).2

abbrev Assured (x : ξ) (p : Prog (Call S ξ) Call.Answer α) (Q : α → Log S ξ → Db S ξ → Prop) (log : Log S ξ)
    (s : Db S ξ) : Prop :=
  Secure step (fun s => Sound s ∧ I s) (Relies q J x) (Promises I J Pre x) p Q log s

structure Robust : Prop where
  idle : ∀ y s s', s'.rows = s.rows → (∀ k, (y, k) ∈ s'.found ↔ (y, k) ∈ s.found) → J y s s'
  trans : ∀ y s s' s'', J y s s' → J y s' s'' → J y s s''
  found : ∀ s s', s'.rows = s.rows → s'.pending = s.pending → I s → I s'
  abort : ∀ s x, I s → I (s.abort x)

variable {I J Pre}

theorem assured_everywhere {p : ξ → Prog (Call S ξ) Call.Answer α} {Q : ξ → α → Log S ξ → Prop}
    {Pre : ξ → Log S ξ → Db S ξ → Prop} {db : Db S ξ} {cfg : Config ξ (Call S ξ) Call.Answer α (Db S ξ)}
    (hrob : Robust I J) (h : Reaches step (Unstale q) (Config.start db p) cfg)
    (hsound : Sound db) (hI : I db) (hp : ∀ i, Assured q I J (Pre i) i (p i) (fun a l _ => Q i a l) [] db) :
    (Sound cfg.state ∧ I cfg.state) ∧ ∀ i, Assured q I J (Pre i) i (cfg.threads i).prog
    (fun a l _ => Q i a l)
      (cfg.threads i).log cfg.state := by
  refine h.secure (fun i l s => ⟨.refl, hrob.idle i s s rfl fun _ => Iff.rfl⟩)
    (fun i l s s' s'' h h' => ⟨h.steady.trans h'.steady, hrob.trans i s s' s'' h.others h'.others⟩)
    ⟨hsound, hI⟩ hp ?_
  rintro cfg i c e k hc ⟨hs, hI⟩ hprog ⟨rfl, -, hkeeps⟩
  have hmoves := step_moves c e cfg.state
  refine ⟨⟨hs.moves hmoves, (hkeeps c).1⟩, fun j hj hopen => ⟨?_, (hkeeps c).2 j hj⟩⟩
  refine steady_of_moves hs hj hmoves ?_
  rintro ⟨hfails, hcommit⟩ r hr hq p hp
  have hcommitting : committing (cfg.threads e.tx).prog = some e.tx := by
    obtain ⟨x, st⟩ := e
    subst hcommit
    rw [hprog]
    rfl
  exact hc hfails e.tx hcommitting j hj (Option.isSome_iff_ne_none.mpr hopen) r hr hq p hp

namespace Robust

variable (hrob : Robust I J) (hI : I s)

include hrob hI

theorem still : I s ∧ ∀ y, y ≠ x → J y s s := ⟨hI, fun y _ => hrob.idle y s s rfl fun _ => Iff.rfl⟩

theorem finds (p : ρ → Bool) : I (s.find x p) ∧ ∀ y, y ≠ x → J y s (s.find x p) := by
  refine ⟨hrob.found s _ rfl rfl hI, fun y hy => hrob.idle y s _ rfl fun k => ?_⟩
  simp [Db.find, hy, hy.symm]

theorem aborts : I (s.abort x) ∧ ∀ y, y ≠ x → J y s (s.abort x) := by
  refine ⟨hrob.abort s x hI, fun y hy => hrob.idle y s _ rfl fun k => ?_⟩
  simp [Db.abort, hy]

theorem attempts {β : Type} {ws : List (Write κ ρ)}
    (hw : s.blocked x ws = false → I (s.extend x ws)) (b : β) :
    I (s.attempt x ws b).2 ∧ ∀ y, y ≠ x → J y s (s.attempt x ws b).2 := by
  unfold Db.attempt
  split_ifs with hb
  · exact hrob.still hI
  · exact ⟨hw (Bool.eq_false_iff.mpr hb), fun y _ => hrob.idle y s _ rfl fun _ => Iff.rfl⟩

end Robust

section Statements

variable {ε : Type} {g : SqlErr → ε} {q}

theorem Assured.select (hrob : Robust I J) {p : ρ → Bool} {K : List ρ → Log S ξ → Db S ξ → Prop}
    (hok : ∀ s', Sound s' → I s' → Relies q J x log s s' → K ((s'.view x).rows.filter p)
      (log ++ [⟨⟨x, .select p⟩, .ok ((s'.view x).rows.filter p)⟩]) s') :
    Assured q I J Pre x (select g x p).run (Succeeds K) log s := by
  refine (congrFun (congrFun (wp_orFail _ _ g (Succeeds K)) log) s).mpr ?_
  intro s' ⟨hs', hI'⟩ hr
  refine ⟨⟨rfl, nofun, fun fails => ?_⟩, fun fails => ?_⟩
  · cases fails <;> exact hrob.still hI'
  · cases fails with
    | true => trivial
    | false => exact hok s' hs' hI' hr

theorem Assured.aim (hrob : Robust I J) {p : ρ → Bool} {K : Unit → Log S ξ → Db S ξ → Prop}
    (hok : ∀ s', Sound s' → I s' → Relies q J x log s s' →
      K () (log ++ [⟨⟨x, .aim p⟩, .ok ()⟩]) (s'.find x p)) :
    Assured q I J Pre x (Prog.orFail (Prog.perform (⟨x, .aim p⟩ : Call S ξ)) g).run (Succeeds K) log s := by
  refine (congrFun (congrFun (wp_orFail _ _ g (Succeeds K)) log) s).mpr ?_
  intro s' ⟨hs', hI'⟩ hr
  refine ⟨⟨rfl, nofun, fun fails => ?_⟩, fun fails => ?_⟩
  · cases fails with
    | true => exact hrob.still hI'
    | false => exact hrob.finds hI' p
  · cases fails with
    | true => trivial
    | false => exact hok s' hs' hI' hr

theorem Assured.delete (hrob : Robust I J) {p : ρ → Bool} {K : ℕ → Log S ξ → Db S ξ → Prop}
    (hok : ∀ s' ws, Sound s' → I s' → Relies q J x log s s' → ws = S.removals (s'.view x) (s'.hits x p) →
      I (s'.extend x ws) ∧ K (s'.hits x p).length (log ++ [⟨⟨x, .delete p⟩, .ok (s'.hits x p).length⟩])
        (s'.extend x ws)) :
    Assured q I J Pre x (Prog.orFail (Prog.perform (⟨x, .delete p⟩ : Call S ξ)) g).run
      (Succeeds K) log s := by
  refine (congrFun (congrFun (wp_orFail _ _ g (Succeeds K)) log) s).mpr ?_
  intro s' ⟨hs', hI'⟩ hr
  have hdone := hok s' _ hs' hI' hr rfl
  refine ⟨⟨rfl, nofun, fun fails => ?_⟩, fun fails => ?_⟩
  · cases fails with
    | true => exact hrob.still hI'
    | false => exact hrob.attempts hI' (fun _ => hdone.1) _
  · cases fails with
    | true => trivial
    | false =>
      simp only [step, Db.perform, Db.attempt, Bool.false_eq_true, ↓reduceIte]
      split_ifs
      · trivial
      · exact hdone.2

theorem Assured.update (hrob : Robust I J) {p : ρ → Bool} {f : S.Change} {K : ℕ → Log S ξ → Db S ξ → Prop}
    (hok : ∀ s' ws, Sound s' → I s' → Relies q J x log s s' →
      ws = (s'.hits x p).map (fun r => .update (f.apply r)) →
      I (s'.extend x ws) ∧ K (s'.hits x p).length (log ++ [⟨⟨x, .update p f⟩, .ok (s'.hits x p).length⟩])
        (s'.extend x ws)) :
    Assured q I J Pre x (Prog.orFail (Prog.perform (⟨x, .update p f⟩ : Call S ξ)) g).run
      (Succeeds K) log s := by
  refine (congrFun (congrFun (wp_orFail _ _ g (Succeeds K)) log) s).mpr ?_
  intro s' ⟨hs', hI'⟩ hr
  have hdone := hok s' _ hs' hI' hr rfl
  refine ⟨⟨rfl, nofun, fun fails => ?_⟩, fun fails => ?_⟩
  · cases fails with
    | true => exact hrob.still hI'
    | false => exact hrob.attempts hI' (fun _ => hdone.1) _
  · cases fails with
    | true => trivial
    | false =>
      simp only [step, Db.perform, Db.attempt, Bool.false_eq_true, ↓reduceIte]
      split_ifs
      · trivial
      · exact hdone.2

theorem Assured.insertInto (hrob : Robust I J) {rs : List ρ} {skip : Bool}
    {K : Unit → Log S ξ → Db S ξ → Prop} (hok : ∀ s' new, Sound s' → I s' → Relies q J x log s s' →
      S.insertable skip (s'.view x) rs = some new →
      I (s'.extend x (new.map .insert)) ∧
        K () (log ++ [⟨⟨x, .insert rs skip⟩, .ok ()⟩]) (s'.extend x (new.map .insert))) :
    Assured q I J Pre x (insertInto g x rs skip).run (Succeeds K) log s := by
  refine (congrFun (congrFun (wp_orFail _ _ g (Succeeds K)) log) s).mpr ?_
  intro s' ⟨hs', hI'⟩ hr
  have hcases := tryInsert_cases x s' rs skip
  refine ⟨⟨rfl, nofun, fun fails => ?_⟩, fun fails => ?_⟩
  · cases fails with
    | true => exact hrob.still hI'
    | false =>
      obtain ⟨err, he⟩ | ⟨new, hnew, -, -, he⟩ := hcases
      · simp only [step, Db.perform, Bool.false_eq_true, ↓reduceIte, he]
        exact hrob.still hI'
      · simp only [step, Db.perform, Bool.false_eq_true, ↓reduceIte, he]
        exact ⟨(hok s' new hs' hI' hr hnew).1, fun y _ => hrob.idle y s' _ rfl fun _ => Iff.rfl⟩
  · cases fails with
    | true => trivial
    | false =>
      obtain ⟨err, he⟩ | ⟨new, hnew, -, -, he⟩ := hcases
      · simp only [step, Db.perform, Bool.false_eq_true, ↓reduceIte, he]
        trivial
      · simp only [step, Db.perform, Bool.false_eq_true, ↓reduceIte, he]
        exact (hok s' new hs' hI' hr hnew).2

theorem Assured.deleteWhere (hrob : Robust I J) {p : ρ → Bool} {K : ℕ → Log S ξ → Db S ξ → Prop}
    (hok : ∀ s₁ s₂ ws, Sound s₁ → I s₁ → Relies q J x log s s₁ → Sound s₂ → I s₂ →
      Relies q J x (log ++ [⟨⟨x, .aim p⟩, .ok ()⟩]) (s₁.find x p) s₂ → ws = S.removals (s₂.view x)
        (s₂.hits x p) →
      I (s₂.extend x ws) ∧ K (s₂.hits x p).length (log ++ [⟨⟨x, .aim p⟩, .ok ()⟩] ++
        [⟨⟨x, .delete p⟩, .ok (s₂.hits x p).length⟩]) (s₂.extend x ws)) :
    Assured q I J Pre x (deleteWhere g x p).run (Succeeds K) log s := by
  refine Secure.onward (Assured.aim hrob fun s₁ hs₁ hI₁ hr₁ => ?_)
  exact Assured.delete hrob fun s₂ ws hs₂ hI₂ hr₂ hws => hok s₁ s₂ ws hs₁ hI₁ hr₁ hs₂ hI₂ hr₂ hws

theorem Assured.updateWhere (hrob : Robust I J) {p : ρ → Bool} {f : S.Change}
    {K : ℕ → Log S ξ → Db S ξ → Prop}
    (hok : ∀ s₁ s₂ ws, Sound s₁ → I s₁ → Relies q J x log s s₁ → Sound s₂ → I s₂ →
      Relies q J x (log ++ [⟨⟨x, .aim p⟩, .ok ()⟩]) (s₁.find x p) s₂ →
      ws = (s₂.hits x p).map (fun r => .update (f.apply r)) →
      I (s₂.extend x ws) ∧ K (s₂.hits x p).length (log ++ [⟨⟨x, .aim p⟩, .ok ()⟩] ++
        [⟨⟨x, .update p f⟩, .ok (s₂.hits x p).length⟩]) (s₂.extend x ws)) :
    Assured q I J Pre x (updateWhere g x p f).run (Succeeds K) log s := by
  refine Secure.onward (Assured.aim hrob fun s₁ hs₁ hI₁ hr₁ => ?_)
  exact Assured.update hrob fun s₂ ws hs₂ hI₂ hr₂ hws => hok s₁ s₂ ws hs₁ hI₁ hr₁ hs₂ hI₂ hr₂ hws

def Ready (q : ρ → Bool) (I : Db S ξ → Prop) (J : ξ → Db S ξ → Db S ξ → Prop)
    (Pre : Log S ξ → Db S ξ → Prop) (x : ξ) (log : Log S ξ) (s : Db S ξ) : Prop :=
  ∀ s', Sound s' → I s' → Relies q J x log s s' →
    Pre log s' ∧ I (s'.commit x) ∧ ∀ y, y ≠ x → J y s' (s'.commit x)

def Committed (x : ξ) (K : α → Log S ξ → Prop) : Except ε α → Log S ξ → Prop
  | .ok a, l => ∃ l', l = l' ++ [⟨⟨x, .commit⟩, .ok ()⟩] ∧ K a l'
  | .error _, _ => True

theorem Assured.transact (hrob : Robust I J) {body : Sql S ξ ε α} {K : α → Log S ξ → Prop}
    (hbody : Assured q I J Pre x body.run (Succeeds fun a l s' => Ready q I J Pre x l s' ∧ K a l) log s) :
    Assured q I J Pre x (transact g x body) (fun r l _ => Committed x K r l) log s := by
  refine Secure.bind (hbody.mono fun r l s' hr => ?_)
  cases r with
  | error e =>
    intro s'' ⟨_, hI⟩ _
    refine ⟨⟨rfl, nofun, fun fails => ?_⟩, fun fails => trivial⟩
    cases fails <;> exact hrob.aborts hI
  | ok a =>
    obtain ⟨hready, hK⟩ := hr
    intro s'' ⟨hs, hI⟩ hrely
    obtain ⟨hPre, hcommit⟩ := hready s'' hs hI hrely
    refine ⟨⟨rfl, fun _ => hPre, fun fails => ?_⟩, fun fails => ?_⟩
    · cases fails with
      | true => exact hrob.aborts hI
      | false => exact hcommit
    · cases fails with
      | true => trivial
      | false => exact ⟨l, rfl, hK⟩

theorem Assured.returning (hrob : Robust I J) {K : α → Log S ξ → Prop} {e : Call S ξ}
    {k : e.Answer → Prog (Call S ξ) Call.Answer (Except ε α)}
    (h : Assured q I J Pre x (.call e k) (fun r l _ => Committed x K r l) log s) (hs : Sound s) (hI : I s)
    {fails : Bool} {a : α} (hret : k (step fails e s).1 = .ret (.ok a)) :
    (step fails e s).2 = s.commit x ∧ Pre log s ∧ K a log := by
  obtain ⟨hpromises, hans⟩ := h s ⟨hs, hI⟩ ⟨.refl, hrob.idle x s s rfl fun _ => Iff.rfl⟩
  have hdone := hans fails
  beta_reduce at hdone
  rw [hret] at hdone
  obtain ⟨l', hl, hK⟩ := hdone
  obtain ⟨rfl, hlast⟩ := List.append_inj' hl rfl
  obtain ⟨x', st⟩ := e
  have hcall := congrArg Event.call (List.cons.inj hlast).1
  obtain ⟨rfl, rfl⟩ := Call.mk.inj hcall
  cases fails with
  | true => cases (List.cons.inj hlast).1
  | false => exact ⟨rfl, hpromises.ready rfl, hK⟩

omit [DecidableEq ξ] in
theorem transact_ne_ret (g : SqlErr → ε) (x : ξ) (body : Sql S ξ ε α) (r : Except ε α) :
    transact g x body ≠ .ret r := by
  change Prog.bind body.run _ ≠ _
  cases body.run with
  | call e k => exact nofun
  | ret r =>
    cases r with
    | ok a => exact nofun
    | error e => exact nofun

theorem Moves.rows_eq {may : Prop} (h : Moves x may s s') (hmay : ¬ may) : s'.rows = s.rows := by
  cases h with
  | commit h => exact absurd h hmay
  | _ => rfl

theorem holds_of_returned {p : ξ → Prog (Call S ξ) Call.Answer (Except ε α)} {K : ξ → α → Log S ξ → Prop}
    {Pre : ξ → Log S ξ → Db S ξ → Prop} {db : Db S ξ}
    {cfg : Config ξ (Call S ξ) Call.Answer (Except ε α) (Db S ξ)} (hrob : Robust I J)
    (h : Reaches step (Unstale q) (Config.start db p) cfg) (hsound : Sound db) (hI : I db)
    (hp : ∀ i, Assured q I J (Pre i) i (p i) (fun r l _ => Committed i (K i) r l) [] db)
    (hnot : ∀ i r, p i ≠ .ret r) {P : ξ → α → Table κ ρ S.key → Prop}
    (hcommit : ∀ i a log s, Sound s → I s → Pre i log s → K i a log → P i a (s.commit i).rows)
    (hkeep : ∀ i a j log s, Sound s → I s → Pre j log s → P i a s.rows → P i a (s.commit j).rows)
    {i : ξ} {a : α} (hret : (cfg.threads i).prog = .ret (.ok a)) : P i a cfg.state.rows := by
  induction h with
  | refl => exact absurd hret (hnot i _)
  | @next cfg j c h hc ih =>
    obtain ⟨⟨hs, hI⟩, hall⟩ := assured_everywhere q hrob h hsound hI hp
    unfold Config.next at hret ⊢
    cases hj : (cfg.threads j).prog with
    | ret b =>
      rw [hj] at hret
      exact ih hret
    | call e k =>
      rw [hj] at hret
      have hassured := hall j
      rw [hj] at hassured
      change P i a (step c e cfg.state).2.rows
      by_cases hij : i = j
      · subst hij
        have hnow : k (step c e cfg.state).1 = .ret (.ok a) := by simpa [Config.answered] using hret
        obtain ⟨hstate, hPre, hK⟩ := hassured.returning hrob hs hI hnow
        rw [hstate]
        exact hcommit i a _ cfg.state hs hI hPre hK
      · have hbefore : (cfg.threads i).prog = .ret (.ok a) := by simpa [Config.answered, hij] using hret
        by_cases hmay : c = false ∧ e.stmt = .commit
        · have hrefl : Relies q J j (cfg.threads j).log cfg.state cfg.state :=
            ⟨.refl, hrob.idle j _ _ rfl fun _ => Iff.rfl⟩
          have hpromises := (hassured cfg.state ⟨hs, hI⟩ hrefl).1
          obtain ⟨x, st⟩ := e
          obtain ⟨rfl, rfl⟩ := hmay
          obtain rfl : x = j := hpromises.own
          exact hkeep i a x _ cfg.state hs hI (hpromises.ready rfl) (ih hbefore)
        · rw [(step_moves c e cfg.state).rows_eq hmay]
          exact ih hbefore

end Statements

end Assured

end TangraTicket.ReadCommitted
