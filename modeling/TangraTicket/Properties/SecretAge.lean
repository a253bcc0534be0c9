import Mathlib.Tactic.Linarith
import TangraTicket.Services.Secrets

/-!
How old a served credential can be. Everything in the cache comes from a fetch at the time noted
with it; the two age limits then bound what `get` returns.
-/

namespace TangraTicket.Services.Secrets

open GoText Function

/-- A call that fetched the value of a reference. -/
structure Fetched (ref v : GoString) (call : Call) : Prop where
  ref_eq : call.ref = ref
  performed : call.reply.fetched = true
  answer_eq : call.answer = .ok v
  nonempty : v ≠ []

def Sourced (past : List Call) (cache : Cache) : Prop :=
  ∀ ref e, cache ref = some e → ∃ call ∈ past, Fetched ref e.val call ∧ call.time = e.stored

section Steps

variable {c : Cached} {past : List Call} {cache : Cache} {now : ℤ} {answer : Answer} {ref v : GoString}

theorem checked_eq_ok (h : checked answer = .ok v) : answer = .ok v ∧ v ≠ [] := by
  cases answer with
  | error message => cases h
  | ok w =>
    rw [checked] at h
    split_ifs at h with hw
    obtain rfl := Except.ok.inj h
    exact ⟨rfl, hw⟩

theorem checked_eq_error {err : SecretErr} (h : checked answer = .error err) :
    ∀ w, answer = .ok w → w = [] := by
  rintro w rfl
  rw [checked] at h
  split_ifs at h with hw
  exact hw

theorem lt_of_sub_lt {t u d : ℤ} (hd : d < 2 ^ 63) (h : sub t u < d) : t - u < d := by
  simp only [sub, max_lt_iff, min_lt_iff] at h
  omega

theorem younger_eq_some {limit : ℤ} {e : Entry} (hlimit : limit < 2 ^ 63)
    (h : Cached.younger limit now cache ref = some e) :
    cache ref = some e ∧ now - e.stored < limit := by
  obtain ⟨hmem, hage⟩ := Option.filter_eq_some_iff.mp h
  exact ⟨hmem, lt_of_sub_lt hlimit (by simpa using hage)⟩

theorem staleFor_lt (c : Cached) : c.staleFor < 2 ^ 63 := by
  rw [Cached.staleFor]
  split_ifs
  · have := @Int.bmod_lt (10 * c.refresh) (2 ^ 64) (by decide)
    norm_num at this ⊢
    omega
  · exact c.maxStale_lt

/-- What a call can come to. -/
inductive Outcome (c : Cached) (now : ℤ) (answer : Answer) (cache : Cache) (ref : GoString) :
    Reply × Cache → Prop
  | refused (err : SecretErr) (fetched : Bool) : Outcome c now answer cache ref
      (⟨.error err, fetched⟩, cache)
  | fresh {e : Entry} (he : cache ref = some e) (hage : now - e.stored < c.refresh) :
      Outcome c now answer cache ref (⟨.ok e.val, false⟩, cache)
  | fetched {v : GoString} (hv : answer = .ok v) (hne : v ≠ []) :
      Outcome c now answer cache ref (⟨.ok v, true⟩, update cache ref (some ⟨v, now⟩))
  | stale {e : Entry} (he : cache ref = some e) (hage : now - e.stored < c.staleFor)
      (hfail : ∀ w, answer = .ok w → w = []) :
      Outcome c now answer cache ref (⟨.ok e.val, true⟩, cache)

theorem get_outcome (c : Cached) (now : ℤ) (answer : Answer) (cache : Cache) (ref : GoString) :
    Outcome c now answer cache ref (c.get now answer cache ref) := by
  rw [Cached.get]
  split_ifs with hblank hfetcher
  · exact .refused _ _
  · split
    · rename_i e he
      exact .fresh (younger_eq_some c.refresh_lt he).1 (younger_eq_some c.refresh_lt he).2
    · exact .refused _ _
  · split
    · rename_i e he
      exact .fresh (younger_eq_some c.refresh_lt he).1 (younger_eq_some c.refresh_lt he).2
    · split
      · rename_i v hv
        exact .fetched (checked_eq_ok hv).1 (checked_eq_ok hv).2
      · rename_i err herr
        split
        · rename_i e he
          have hyoung := younger_eq_some (staleFor_lt c) he
          exact .stale hyoung.1 hyoung.2 (checked_eq_error herr)
        · exact .refused _ _

theorem Sourced.append (h : Sourced past cache) (call : Call) : Sourced (past ++ [call]) cache := by
  intro ref e he
  obtain ⟨src, hsrc, hfetched⟩ := h ref e he
  exact ⟨src, List.mem_append_left _ hsrc, hfetched⟩

theorem Sourced.get (h : Sourced past cache) (c : Cached) (now : ℤ) (answer : Answer) (ref : GoString) :
    Sourced (past ++ [c.call now answer cache ref]) (c.get now answer cache ref).2 := by
  have hout := get_outcome c now answer cache ref
  rw [Cached.call]
  generalize c.get now answer cache ref = out at hout ⊢
  cases hout with
  | refused | fresh | stale => exact h.append _
  | @fetched v hv hne =>
    intro ref' e he
    dsimp only at he
    by_cases hsame : ref' = ref
    · subst hsame
      rw [update_self, Option.some.injEq] at he
      subst he
      exact ⟨_, List.mem_append_right _ List.mem_cons_self, ⟨rfl, rfl, hv, hne⟩, rfl⟩
    · rw [update_of_ne hsame] at he
      exact h.append _ ref' e he

end Steps

theorem Run.sourced {c : Cached} {past : List Call} {cache : Cache} {t : ℤ}
    (h : Run c past cache t) : Sourced past cache := by
  induction h with
  | start now | invalidate h hnow ih => exact fun ref e he => by cases he
  | get h hnow answer ref ih => exact ih.get _ _ _ _

theorem Run.time_le {c : Cached} {past : List Call} {cache : Cache} {t : ℤ} (h : Run c past cache t) :
    ∀ call ∈ past, call.time ≤ t := by
  induction h with
  | start now => exact fun call hcall => by cases hcall
  | invalidate h hnow ih => exact fun call hcall => (ih call hcall).trans hnow
  | get h hnow answer ref ih =>
    refine List.forall_mem_append.mpr ⟨fun call hcall => (ih call hcall).trans hnow, fun call hcall => ?_⟩
    rw [List.mem_singleton.mp hcall]
    exact le_refl _

section Limits

variable {c : Cached} {past : List Call} {cache : Cache} {t now : ℤ} {answer : Answer} {ref v : GoString}

theorem obtained (h : Run c past cache t) (hnow : t ≤ now)
    (hv : (c.get now answer cache ref).1.result = .ok v) :
    Fetched ref v (c.call now answer cache ref) ∨
      ∃ call ∈ past, Fetched ref v call ∧ call.time ≤ now ∧ now - call.time < max c.refresh c.staleFor := by
  have hout := get_outcome c now answer cache ref
  rw [Cached.call]
  generalize c.get now answer cache ref = out at hout hv ⊢
  cases hout with
  | refused => cases hv
  | fetched hanswer hne =>
    obtain rfl := Except.ok.inj hv
    exact .inl ⟨rfl, rfl, hanswer, hne⟩
  | fresh he hage | stale he hage hfail =>
    obtain rfl := Except.ok.inj hv
    obtain ⟨call, hcall, hfetched, htime⟩ := h.sourced ref _ he
    exact .inr ⟨call, hcall, hfetched, (h.time_le call hcall).trans hnow, by rw [htime]; omega⟩

/-- From `r` on the fetcher answers this call with a value of the kind `new`. -/
def Renewed (new : GoString → Prop) (r : ℤ) (ref : GoString) (call : Call) : Prop :=
  call.ref = ref → r ≤ call.time → ∃ w, call.answer = .ok w ∧ w ≠ [] ∧ new w

theorem renewed (h : Run c past cache t) (hv : (c.get now answer cache ref).1.result = .ok v)
    {new : GoString → Prop} {r : ℤ}
    (hnew : ∀ call ∈ past ++ [c.call now answer cache ref], Renewed new r ref call) (hr : r ≤ now)
    (hlate : r + c.refresh ≤ now) : new v := by
  obtain ⟨hpast, hthis⟩ := List.forall_mem_append.mp hnew
  obtain ⟨w, hanswer, hwne, hnew⟩ := hthis _ List.mem_cons_self rfl hr
  have hout := get_outcome c now answer cache ref
  generalize c.get now answer cache ref = out at hout hv
  cases hout with
  | refused => cases hv
  | fresh he hage =>
    obtain rfl := Except.ok.inj hv
    obtain ⟨call, hcall, hfetched, htime⟩ := h.sourced ref _ he
    obtain ⟨u, hu, -, hnew⟩ := hpast call hcall hfetched.ref_eq (by omega)
    obtain rfl := Except.ok.inj (hfetched.answer_eq.symm.trans hu)
    exact hnew
  | fetched hv' =>
    obtain rfl := Except.ok.inj hv
    obtain rfl := Except.ok.inj (hanswer.symm.trans hv')
    exact hnew
  | stale he hage hfail => exact absurd (hfail w hanswer) hwne

/-- A value is returned by the call that fetched it, or less than the larger limit after; and once
the fetcher has new values, nothing older is returned when `Refresh` has passed. -/
theorem bounded_age (h : Run c past cache t) (hnow : t ≤ now)
    (hv : (c.get now answer cache ref).1.result = .ok v) :
    (Fetched ref v (c.call now answer cache ref) ∨
      ∃ call ∈ past, Fetched ref v call ∧ call.time ≤ now ∧ now - call.time < max c.refresh c.staleFor) ∧
    ∀ (new : GoString → Prop) (r : ℤ),
    (∀ call ∈ past ++ [c.call now answer cache ref], Renewed new r ref call) →
      r ≤ now → r + c.refresh ≤ now → new v :=
  ⟨obtained h hnow hv, fun _ _ hnew hr hlate => renewed h hv hnew hr hlate⟩

end Limits

/-- Without a refresh interval a value is returned at age zero, which is not below the limits. -/
theorem zero_refresh_age :
    let c : Cached := ⟨true, 0, 0, by decide, by decide⟩
    let call := c.call 0 (.ok [0x78]) Cached.invalidate [0x72]
    call.reply.result = .ok [0x78] ∧ Fetched [0x72] [0x78] call ∧ ¬ 0 - call.time <
    max c.refresh c.staleFor :=
  ⟨rfl, ⟨rfl, rfl, rfl, by decide⟩, by decide⟩

def tenSeconds : Cached := ⟨true, 10, 0, by decide, by decide⟩

theorem served_while_failing :
    let cache := (tenSeconds.get 0 (.ok [0x78]) Cached.invalidate [0x72]).2
    (tenSeconds.get 50 (.error []) cache [0x72]).1.result = .ok [0x78] ∧
      (Fetched [0x72] [0x78] (tenSeconds.call 50 (.error []) cache [0x72]) ∨
        ∃ call ∈ [tenSeconds.call 0 (.ok [0x78]) Cached.invalidate [0x72]],
          Fetched [0x72] [0x78] call ∧ call.time ≤ 50 ∧ 50 - call.time <
          max tenSeconds.refresh tenSeconds.staleFor) := by
  have hrun := (Run.start 0).get (c := tenSeconds) (le_refl 0) (.ok [0x78]) [0x72]
  exact ⟨by decide, (bounded_age hrun (by decide) (by decide)).1⟩

end TangraTicket.Services.Secrets
