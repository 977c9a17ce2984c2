import Liaozhai.Library.Transducer
import Liaozhai.Net.Codec

/-!
# The telnet parser behind `strip_iac`

A parser that reads each byte once, from left to right. The in-place scan of
`strip_iac` is one run of it over the buffer: the data bytes it puts out, then
the unfinished command, kept as it came. What the parser loses between two calls
is exactly the difference between its state and the two flags of the codec.
-/

namespace Liaozhai.Telnet

open Codec
set_option autoImplicit false

inductive State where
  | data
  | iac
  | negotiation (verb : UInt8)
  | sub
  | subIac
  deriving DecidableEq, Repr

def step : State → UInt8 → State × List UInt8
  | .data, b => if b = IAC then (.iac, []) else (.data, [b])
  | .iac, b =>
    if b = IAC then (.data, [IAC])
    else if isNegotiation b then (.negotiation b, [])
    else if b = SB then (.sub, [])
    else (.data, [])
  | .negotiation _, _ => (.data, [])
  | .sub, b => if b = IAC then (.subIac, []) else (.sub, [])
  | .subIac, b =>
    if b = SE then (.data, [])
    else if b = IAC then (.subIac, [])
    else (.sub, [])

def parse : State → List UInt8 → State × List UInt8 := Transducer.run step

@[simp] theorem step_data_iac : step .data IAC = (.iac, []) := rfl
@[simp] theorem step_iac_iac : step .iac IAC = (.data, [IAC]) := rfl
@[simp] theorem step_iac_sb : step .iac SB = (.sub, []) := rfl
@[simp] theorem step_sub_iac : step .sub IAC = (.subIac, []) := rfl
@[simp] theorem step_subIac_se : step .subIac SE = (.data, []) := rfl

namespace State

/-- The bytes of an unfinished command, which stay in the buffer. -/
def tail : State → List UInt8
  | .data => []
  | .iac => [IAC]
  | .negotiation verb => [IAC, verb]
  | .sub => []
  | .subIac => []

def inSub : State → Bool
  | .sub => true
  | .subIac => true
  | _ => false

def pending : State → Bool
  | .subIac => true
  | _ => false

/-- The state a call starts from: all that the flags remember. -/
def ofFlags : Bool → Bool → State
  | false, _ => .data
  | true, false => .sub
  | true, true => .subIac

/-- The state the next call starts from. -/
def resume (s : State) : State := ofFlags s.inSub s.pending

/-- The verb of an unfinished negotiation is one of the four. -/
def Valid : State → Prop
  | .negotiation verb => isNegotiation verb
  | _ => True

@[simp] theorem ofFlags_inSub (i p : Bool) : (ofFlags i p).inSub = i := by
  cases i <;> cases p <;> rfl

@[simp] theorem ofFlags_pending {i p : Bool} (h : i = false → p = false) :
    (ofFlags i p).pending = p := by
  cases i <;> cases p <;> simp_all [ofFlags, pending]

theorem pending_eq_false {s : State} (h : s.inSub = false) : s.pending = false := by
  cases s <;> simp_all [inSub, pending]

theorem resume_of_inSub {s : State} (h : s.inSub = true) : s.resume = s := by
  cases s <;> simp_all [inSub, resume, pending, ofFlags]

theorem resume_of_not_inSub {s : State} (h : s.inSub = false) : s.resume = .data := by
  simp [resume, h, ofFlags]

theorem tail_of_inSub {s : State} (h : s.inSub = true) : s.tail = [] := by
  cases s <;> simp_all [inSub, tail]

/-- No line ends inside an unfinished command. -/
theorem Valid.tail_plain {s : State} (hv : s.Valid) : LF ∉ s.tail ∧ CR ∉ s.tail := by
  cases s with
  | negotiation verb =>
    have hlf : verb ≠ LF := by
      rintro rfl
      simp [Valid] at hv
    have hcr : verb ≠ CR := by
      rintro rfl
      simp [Valid] at hv
    simp [tail, Ne.symm hlf, Ne.symm hcr]
  | _ => simp [tail]

end State

@[simp] theorem parse_nil (s : State) : parse s [] = (s, []) := rfl

theorem parse_cons (s : State) (b : UInt8) (bs : List UInt8) :
    parse s (b :: bs) = ((parse (step s b).1 bs).1, (step s b).2 ++ (parse (step s b).1 bs).2) := rfl

theorem parse_append (s : State) (as bs : List UInt8) :
    parse s (as ++ bs) =
      ((parse (parse s as).1 bs).1, (parse s as).2 ++ (parse (parse s as).1 bs).2) :=
  Transducer.run_append step s as bs

theorem step_valid (s : State) (b : UInt8) : (step s b).1.Valid := by
  cases s <;> simp only [step] <;> (repeat' split) <;> simp_all [State.Valid]

theorem parse_valid {s : State} (hs : s.Valid) (bs : List UInt8) : (parse s bs).1.Valid :=
  Transducer.run_invariant step (P := State.Valid) (fun s b _ _ => step_valid s b) hs

/-- Data without an IAC passes through unchanged. -/
theorem parse_data {bs : List UInt8} (h : IAC ∉ bs) : parse .data bs = (.data, bs) := by
  induction bs with
  | nil => rfl
  | cons b bs ih =>
    simp only [List.mem_cons, not_or] at h
    simp [parse_cons, step, ih h.2, Ne.symm h.1]

/-- Reading the unfinished command again leads back to the state it was left in. -/
theorem parse_tail {s : State} (hv : s.Valid) (hs : s.inSub = false) :
    parse .data s.tail = (s, []) := by
  cases s with
  | data => rfl
  | iac => simp [State.tail, parse_cons, step]
  | negotiation verb =>
    simp only [State.Valid] at hv
    have hverb := ne_iac_of_isNegotiation hv
    simp [State.tail, parse_cons, step, hverb, hv]
  | sub => simp [State.inSub] at hs
  | subIac => simp [State.inSub] at hs

end Liaozhai.Telnet
