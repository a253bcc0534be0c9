import Mathlib.Algebra.Ring.Nat
import TangraTicket.Library.FixedWidth
import TangraTicket.Library.Machine

/-!
New ids (`internal/store/ids.go`). A call takes its random bytes and the time, passes a critical
section that gives it a millisecond and a sequence number, and writes them as a UUID of version 7.
-/

namespace TangraTicket.Store

open GoText

structure IdState where
  idLast : ℤ := 0
  idSeq : ℕ := 0

instance instNeZeroSixteen : NeZero 16 := ⟨Nat.succ_ne_zero 15⟩

/-- A call on its way to the critical section: the clock's milliseconds and the random bytes. -/
structure IdCall where
  ms : ℤ
  b : Fin 16 → UInt8

def sequenceStart (b : Fin 16 → UInt8) : ℕ := ((b 6).toNat &&& 0x07) <<< 8 ||| (b 7).toNat

/-- The critical section of `NewID`. The call's millisecond and sequence number are those of the
state it leaves. -/
def IdState.mint (s : IdState) (c : IdCall) : IdState :=
  if c.ms ≤ s.idLast then
    let seq := (s.idSeq + 1) % 2 ^ 16
    -- sequence exhausted: borrow the next millisecond
    if seq ≥ 1 <<< 12 then ⟨s.idLast + 1, 0⟩ else ⟨s.idLast, seq⟩
  else ⟨c.ms, sequenceStart c.b⟩

def hexChar (n : ℕ) : UInt8 := if n < 10 then 0x30 + n.toUInt8 else 0x57 + n.toUInt8

/-- `hex.EncodeToString`. -/
def encodeHex (bs : List UInt8) : GoString :=
  bs.flatMap fun b => [hexChar (b.toNat / 16), hexChar (b.toNat % 16)]

def idBytes (u seq : ℕ) (b : Fin 16 → UInt8) : List UInt8 :=
  [(u >>> 40).toUInt8, (u >>> 32).toUInt8, (u >>> 24).toUInt8, (u >>> 16).toUInt8,
    (u >>> 8).toUInt8, u.toUInt8, (0x70 : UInt8) ||| ((seq >>> 8).toUInt8 &&& 0x0f),
    (seq &&& 0xff).toUInt8, (b 8 &&& 0x3f) ||| 0x80, b 9, b 10, b 11, b 12, b 13, b 14, b 15]

/-- The id of a call with the random bytes `b` that leaves the state `s`. -/
def IdState.text (s : IdState) (b : Fin 16 → UInt8) : GoString :=
  let u := (s.idLast % 2 ^ 64).toNat
  let h := encodeHex (idBytes u s.idSeq b)
  h.take 8 ++ goString "-" ++ (h.drop 8).take 4 ++ goString "-" ++ (h.drop 12).take 4 ++ goString "-" ++
    (h.drop 16).take 4 ++ goString "-" ++ (h.drop 20).take 12

/-- The generator among any number of goroutines: the calls before the critical section, and the ids
in the order in which their calls passed it. -/
structure IdMachine where
  state : IdState := {}
  waiting : List IdCall := []
  minted : List GoString := []

inductive IdAction
  | begin (c : IdCall)
  | pass (i : ℕ)

def IdMachine.next (s : IdMachine) : IdAction → Option IdMachine
  | .begin c => some { s with waiting := c :: s.waiting }
  | .pass i =>
    s.waiting[i]?.map fun c =>
      { state := s.state.mint c
        waiting := s.waiting.eraseIdx i
        minted := s.minted ++ [(s.state.mint c).text c.b] }

end TangraTicket.Store
