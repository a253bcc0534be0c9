import TangraTicket.Library.Interleaving

/-!
Assertions about one thread that hold whatever the others do in between. What the others may do is a
relation `rely` between the states before and after; what a thread promises of each of its calls is
`G`. If every thread keeps its promises, and the promises of each are what the others rely on, all
assertions hold in every interleaving.
-/

namespace TangraTicket.CallProgram

variable {E : Type} {R : E → Type} {ι α β σ χ ε : Type}

section Secure

variable (step : χ → (e : E) → σ → R e × σ) (I : σ → Prop) (rely : List (Event E R) → σ → σ → Prop)
  (G : List (Event E R) → E → σ → Prop)

def secured (e : E) (K : R e → List (Event E R) → σ → Prop) (log : List (Event E R)) (s : σ) : Prop :=
  ∀ s', I s' → rely log s s' →
    G log e s' ∧ ∀ c, K (step c e s').1 (log ++ [⟨e, (step c e s').1⟩]) (step c e s').2

abbrev Secure (p : Prog E R α) (Q : α → List (Event E R) → σ → Prop) (log : List (Event E R))
    (s : σ) : Prop :=
  wp (secured step I rely G) p Q log s

variable {step I rely G} {log : List (Event E R)} {s : σ}

theorem Secure.mono {p : Prog E R α} {Q Q' : α → List (Event E R) → σ → Prop}
    (h : Secure step I rely G p Q log s) (hQ : ∀ a l s', Q a l s' → Q' a l s') :
    Secure step I rely G p Q' log s := by
  induction p generalizing log s with
  | ret a => exact hQ a log s h
  | call e k ih => exact fun s' hI hr => ⟨(h s' hI hr).1, fun c => ih _ ((h s' hI hr).2 c)⟩

theorem Secure.bind {p : Prog E R β} {f : β → Prog E R α} {Q : α → List (Event E R) → σ → Prop}
    (hp : Secure step I rely G p (fun b l s' => Secure step I rely G (f b) Q l s') log s) :
    Secure step I rely G (p >>= f) Q log s :=
  (congrFun (congrFun (wp_bind _ p f Q) log) s).mpr hp

theorem Secure.andThen {x : Fallible E R ε β} {f : β → Fallible E R ε α}
    {Q : Except ε α → List (Event E R) → σ → Prop} {S : Except ε β → List (Event E R) → σ → Prop}
    (hx : Secure step I rely G x.run S log s)
    (hok : ∀ b l s', S (.ok b) l s' → Secure step I rely G (f b).run Q l s')
    (herr : ∀ e l s', S (.error e) l s' → Q (.error e) l s') :
    Secure step I rely G (x >>= f).run Q log s := by
  refine (congrFun (congrFun (wp_tryBind _ x f Q) log) s).mpr (Secure.mono hx ?_)
  rintro (e | b) l s' hb
  · exact herr e l s' hb
  · exact hok b l s' hb

def Succeeds (K : α → List (Event E R) → σ → Prop) : Except ε α → List (Event E R) → σ → Prop
  | .ok a, l, s => K a l s
  | .error _, _, _ => True

theorem Secure.onward {x : Fallible E R ε β} {f : β → Fallible E R ε α}
    {K : α → List (Event E R) → σ → Prop}
    (hx : Secure step I rely G x.run
      (Succeeds fun b l s' => Secure step I rely G (f b).run (Succeeds K) l s') log s) :
    Secure step I rely G (x >>= f).run (Succeeds K) log s :=
  hx.andThen (fun _ _ _ hb => hb) fun _ _ _ _ => trivial

end Secure

section Parallel

variable [DecidableEq ι] {step : χ → (e : E) → σ → R e × σ} {C : Config ι E R α σ → ι → χ → Prop}
  {cfg₀ cfg : Config ι E R α σ} {I : σ → Prop} {rely : ι → List (Event E R) → σ → σ → Prop}
  {G : ι → List (Event E R) → E → σ → Prop} {Q : ι → α → List (Event E R) → Prop}

-- an assertion was made for whatever the others do
omit [DecidableEq ι] in
theorem Secure.interfered
    (htrans : ∀ i l s s' s'', rely i l s s' → rely i l s' s'' → rely i l s s'') {i : ι}
    {p : Prog E R α} {log : List (Event E R)} {s s' : σ}
    (h : Secure step I (rely i) (G i) p (fun a l _ => Q i a l) log s)
    (hr : p.pending ≠ none → rely i log s s') :
    Secure step I (rely i) (G i) p (fun a l _ => Q i a l) log s' := by
  cases p with
  | ret a => exact h
  | call e k => exact fun t hI ht => h t hI (htrans i log _ _ _ (hr nofun) ht)

theorem Reaches.secure (h : Reaches step C cfg₀ cfg) (hrefl : ∀ i l s, rely i l s s)
    (htrans : ∀ i l s s' s'', rely i l s s' → rely i l s' s'' → rely i l s s'') (h0 : I cfg₀.state)
    (hstart : ∀ i, Secure step I (rely i) (G i) (cfg₀.threads i).prog (fun a l _ => Q i a l)
      (cfg₀.threads i).log
      cfg₀.state)
    (hcall : ∀ cfg i c e k, C cfg i c → I cfg.state → (cfg.threads i).prog = .call e k →
      G i (cfg.threads i).log e cfg.state → I (step c e cfg.state).2 ∧ ∀ j, j ≠ i →
        (cfg.threads j).prog.pending ≠ none → rely j (cfg.threads j).log cfg.state (step c e cfg.state).2) :
    I cfg.state ∧ ∀ i, Secure step I (rely i) (G i) (cfg.threads i).prog (fun a l _ => Q i a l)
      (cfg.threads i).log
        cfg.state := by
  refine h.invariant (I := fun cfg => I cfg.state ∧ ∀ i, Secure step I (rely i) (G i) (cfg.threads i).prog
    (fun a l _ => Q i a l) (cfg.threads i).log cfg.state) ⟨h0, hstart⟩ ?_
  rintro cfg i c e k ⟨hI, hsec⟩ hc hp
  have hi := hsec i
  rw [hp] at hi
  obtain ⟨hG, hans⟩ := hi cfg.state hI (hrefl i _ _)
  obtain ⟨hI', hothers⟩ := hcall cfg i c e k hc hI hp hG
  refine ⟨hI', fun j => ?_⟩
  by_cases hj : j = i
  · subst hj
    simpa [Config.answered] using hans c
  · simpa [Config.answered, hj] using (hsec j).interfered htrans (hothers j hj)

end Parallel

end TangraTicket.CallProgram
