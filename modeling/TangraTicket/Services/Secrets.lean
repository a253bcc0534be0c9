import Mathlib.Logic.Function.Basic
import TangraTicket.Library.GoText

/-!
The cached credentials. A value is served for `Refresh`, then read again; while the fetcher fails
the last good value is served until it is `MaxStale` old. A run is any sequence of `get` and
`Invalidate` calls on a clock that never goes back.
-/

namespace TangraTicket.Services.Secrets

open GoText Function

inductive SecretErr
  | notConfigured
  | unavailable
  | empty
  | fetch (message : GoString)
deriving DecidableEq

structure Cached where
  fetcher : Bool
  refresh : ℤ
  maxStale : ℤ
  -- durations are 64-bit
  refresh_lt : refresh < 2 ^ 63
  maxStale_lt : maxStale < 2 ^ 63

structure Entry where
  val : GoString
  stored : ℤ
deriving DecidableEq

abbrev Cache := GoString → Option Entry

/-- `time.Time.Sub` saturates. -/
def sub (t u : ℤ) : ℤ := max (-2 ^ 63) (min (2 ^ 63 - 1) (t - u))

/-- What the fetcher answers when it is called. -/
abbrev Answer := Except GoString GoString

def checked : Answer → Except SecretErr GoString
  | .ok v => if v = [] then .error .empty else .ok v
  | .error message => .error (.fetch message)

structure Reply where
  result : Except SecretErr GoString
  fetched : Bool

namespace Cached

variable (c : Cached)

def staleFor : ℤ := if c.maxStale ≤ 0 then Int.bmod (10 * c.refresh) (2 ^ 64) else c.maxStale

/-- The entry of a reference as long as it is younger than `limit`. -/
def younger (limit now : ℤ) (cache : Cache) (ref : GoString) : Option Entry :=
  (cache ref).filter fun e => sub now e.stored < limit

def get (now : ℤ) (answer : Answer) (cache : Cache) (ref : GoString) : Reply × Cache :=
  if trimSpace ref = [] then (⟨.error .notConfigured, false⟩, cache)
  else
    match younger c.refresh now cache ref with
    | some e => (⟨.ok e.val, false⟩, cache)
    | none =>
      if c.fetcher = false then (⟨.error .unavailable, false⟩, cache)
      else
        match checked answer with
        | .ok v => (⟨.ok v, true⟩, update cache ref (some ⟨v, now⟩))
        | .error err =>
          match younger c.staleFor now cache ref with
          | some e => (⟨.ok e.val, true⟩, cache)
          | none => (⟨.error err, true⟩, cache)

def invalidate : Cache := fun _ => none

end Cached

/-- A `get` call of a run: when, of what, what the fetcher would answer, and what came of it. -/
structure Call where
  time : ℤ
  ref : GoString
  answer : Answer
  reply : Reply

/-- The call that `get` makes of its arguments. -/
def Cached.call (c : Cached) (now : ℤ) (answer : Answer) (cache : Cache) (ref : GoString) : Call :=
  ⟨now, ref, answer, (c.get now answer cache ref).1⟩

/-- The calls of a run so far, the cache they leave and the time. -/
inductive Run (c : Cached) : List Call → Cache → ℤ → Prop
  | start (now : ℤ) : Run c [] Cached.invalidate now
  | get {past : List Call} {cache : Cache} {t now : ℤ} (h : Run c past cache t) (hnow : t ≤ now)
      (answer : Answer)
      (ref : GoString) : Run c (past ++ [c.call now answer cache ref]) (c.get now answer cache ref).2 now
  | invalidate {past : List Call} {cache : Cache} {t now : ℤ} (h : Run c past cache t) (hnow : t ≤ now) :
      Run c past Cached.invalidate now

end TangraTicket.Services.Secrets
