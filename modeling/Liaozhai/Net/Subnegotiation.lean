import Liaozhai.Net.Escaped
import Liaozhai.Net.InPlace

/-!
# Escaped data inside a subnegotiation

A payload byte 0xFF travels as two. The second of them clears the pending flag of
`strip_iac`, falls through to the test for an IAC and sets the flag again: the scan
never knows whether a run of 0xFF was even or odd. So a payload byte SE after a
payload byte 0xFF ends the subnegotiation, and the payload behind them spills into
the data.
-/

namespace Liaozhai.Codec

open Telnet (parse)
set_option autoImplicit false

/-! ### A scan that starts outside a subnegotiation -/

theorem pass_opening {a : List UInt8} (h : IAC ∉ a) (pending : Bool) (r : List UInt8) :
    pass (false, pending) (a ++ IAC :: SB :: r) = emit a (pass (true, false) r) := by
  have hopening : pass (false, pending) (IAC :: SB :: r) = emit [] (pass (true, false) r) :=
    pass_token (.subnegotiation pending) r
  rw [pass_data h, hopening, emit_nil]

/-- IAC SB clears the pending flag, so its value before does not matter. -/
theorem stripIac_opening {c : TelnetLineCodec} {a : List UInt8} (r : List UInt8)
    (hsub : c.inSubnegotiation = false) (ha : IAC ∉ a) :
    c.stripIac (a ++ IAC :: SB :: r) =
      { c with subnegIacPending := false }.stripIac (a ++ IAC :: SB :: r) := by
  rw [TelnetLineCodec.stripIac_eq_pass, TelnetLineCodec.stripIac_eq_pass]
  simp only [TelnetLineCodec.flags, hsub, pass_opening ha]

/-! ### The payload -/

/-- What the scan takes for data: the payload behind the first SE that follows a
0xFF, where there is one. -/
def spilled (pending : Bool) : List UInt8 → Option (List UInt8)
  | [] => none
  | b :: l =>
    if b = IAC then spilled true l
    else if pending ∧ b = SE then some l
    else spilled false l

/-- A payload byte 0xFF with a payload byte SE right after it, and more payload behind. -/
def Spills (payload : List UInt8) : Prop :=
  ∃ before rest, rest ≠ [] ∧ payload = before ++ [IAC, SE] ++ rest

theorem parse_payload (pending : Bool) (l : List UInt8) :
    (spilled pending l = none ∧
      ∃ p, parse (.ofFlags true pending) (escape l) = (.ofFlags true p, [])) ∨
    ∃ rest, spilled pending l = some rest ∧
      parse (.ofFlags true pending) (escape l) = (.data, rest) := by
  induction l generalizing pending with
  | nil =>
    left
    exact ⟨rfl, pending, rfl⟩
  | cons b l ih =>
    have hcons : escape (b :: l) = escapeByte b ++ escape l := List.flatMap_cons
    rw [hcons, Telnet.parse_append, spilled]
    by_cases hiac : b = IAC
    · have hpair : parse (.ofFlags true pending) (escapeByte b) = (.ofFlags true true, []) := by
        rw [hiac]
        cases pending <;> rfl
      rw [if_pos hiac, hpair]
      exact ih true
    · rw [if_neg hiac, escapeByte, if_neg hiac]
      by_cases hse : pending ∧ b = SE
      · obtain ⟨rfl, rfl⟩ := hse
        have hend : parse (.ofFlags true true) [SE] = (.data, []) := rfl
        right
        exact ⟨l, if_pos ⟨rfl, rfl⟩, by rw [hend, parse_escape]; rfl⟩
      · have hskip : parse (.ofFlags true pending) [b] = (.ofFlags true false, []) := by
          cases pending with
          | false => simp [Telnet.State.ofFlags, Telnet.parse_cons, Telnet.step, hiac]
          | true =>
            have hb : b ≠ SE := by
              intro hb
              exact hse ⟨rfl, hb⟩
            simp [Telnet.State.ofFlags, Telnet.parse_cons, Telnet.step, hiac, hb]
        rw [if_neg hse, hskip]
        exact ih false

theorem spilled_split {pending : Bool} {l rest : List UInt8} (h : spilled pending l = some rest) :
    ∃ before, (if pending then [IAC] else []) ++ l = before ++ [IAC, SE] ++ rest := by
  induction l generalizing pending with
  | nil => simp [spilled] at h
  | cons b l ih =>
    rw [spilled] at h
    split at h
    · rename_i hb
      obtain ⟨before, hsplit⟩ := ih h
      refine ⟨(if pending then [IAC] else []) ++ before, ?_⟩
      rw [hb]
      simp only [if_true, List.singleton_append] at hsplit
      rw [hsplit]
      simp
    · split at h
      · rename_i hse
        obtain ⟨rfl, rfl⟩ := hse
        obtain rfl : l = rest := by simpa using h
        exact ⟨[], rfl⟩
      · obtain ⟨before, hsplit⟩ := ih h
        refine ⟨(if pending then [IAC] else []) ++ b :: before, ?_⟩
        simp only [Bool.false_eq_true, if_false, List.nil_append] at hsplit
        rw [hsplit]
        simp

/-- The first such place is no later than any other. -/
theorem spilled_of_split (pending : Bool) (before rest : List UInt8) :
    ∃ more, spilled pending (before ++ [IAC, SE] ++ rest) = some (more ++ rest) := by
  induction before generalizing pending with
  | nil => exact ⟨[], rfl⟩
  | cons b before ih =>
    simp only [List.cons_append, spilled]
    split
    · exact ih true
    · split
      · exact ⟨before ++ [IAC, SE], rfl⟩
      · exact ih false

theorem spills_iff (payload : List UInt8) :
    Spills payload ↔ (spilled false payload).getD [] ≠ [] := by
  constructor
  · rintro ⟨before, rest, hrest, rfl⟩
    obtain ⟨more, hmore⟩ := spilled_of_split false before rest
    rw [hmore]
    simp [hrest]
  · intro hspilled
    cases h : spilled false payload with
    | none => simp [h] at hspilled
    | some rest =>
      obtain ⟨before, hsplit⟩ := spilled_split h
      rw [h] at hspilled
      exact ⟨before, rest, hspilled, hsplit⟩

/-! ### The whole buffer -/

/-- One complete subnegotiation, its payload escaped, between two pieces of data. -/
theorem parse_subnegotiation {a b : List UInt8} (payload : List UInt8)
    (ha : IAC ∉ a) (hb : IAC ∉ b) :
    parse .data (a ++ [IAC, SB] ++ escape payload ++ [IAC, SE] ++ b) =
      (.data, a ++ (spilled false payload).getD [] ++ b) := by
  have hopen : parse .data [IAC, SB] = (.ofFlags true false, []) := rfl
  simp only [Telnet.parse_append, Telnet.parse_data ha, hopen]
  rcases parse_payload false payload with ⟨hnone, p, hp⟩ | ⟨rest, hsome, hrest⟩
  · have hclose : parse (.ofFlags true p) [IAC, SE] = (.data, []) := by
      cases p <;> rfl
    rw [hp, hclose, Telnet.parse_data hb, hnone]
    simp
  · have hclose : parse .data [IAC, SE] = (.data, []) := rfl
    rw [hrest, hclose, Telnet.parse_data hb, hsome]
    simp

/-- `strip_iac` removes the subnegotiation up to the first SE behind a 0xFF, and the
closing IAC SE in any case. -/
theorem stripIac_subnegotiation {c : TelnetLineCodec} {a b : List UInt8} (payload : List UInt8)
    (hsub : c.inSubnegotiation = false) (ha : IAC ∉ a) (hb : IAC ∉ b) :
    c.stripIac (a ++ [IAC, SB] ++ escape payload ++ [IAC, SE] ++ b) =
      ({ c with inSubnegotiation := false, subnegIacPending := false },
        a ++ (spilled false payload).getD [] ++ b) := by
  have hopening := stripIac_opening (escape payload ++ [IAC, SE] ++ b) hsub ha
  have hparse := parse_subnegotiation payload ha hb
  simp only [List.append_assoc, List.cons_append, List.nil_append] at hopening hparse ⊢
  have hflags : flagState { c with subnegIacPending := false } = .data := by
    simp [flagState, hsub, Telnet.State.ofFlags]
  rw [hopening, stripIac_eq_parse (fun _ => rfl), hflags, hparse]
  simp [atState, Telnet.State.inSub, Telnet.State.pending, Telnet.State.tail]

theorem subnegotiation_removed_iff {c : TelnetLineCodec} {a b : List UInt8}
    (payload : List UInt8) (hsub : c.inSubnegotiation = false) (ha : IAC ∉ a) (hb : IAC ∉ b) :
    ((c.stripIac (a ++ [IAC, SB] ++ escape payload ++ [IAC, SE] ++ b)).2 = a ++ b ∧
      (c.stripIac (a ++ [IAC, SB] ++ escape payload ++ [IAC, SE] ++ b)).1.inSubnegotiation =
        false ∧
      (c.stripIac (a ++ [IAC, SB] ++ escape payload ++ [IAC, SE] ++ b)).1.subnegIacPending =
        false) ↔
      ¬ Spills payload := by
  rw [stripIac_subnegotiation payload hsub ha hb, spills_iff, ne_eq, not_not]
  constructor
  · rintro ⟨hbuf, -, -⟩
    rw [List.append_assoc] at hbuf
    simpa using List.append_cancel_left hbuf
  · intro hnil
    rw [hnil, List.append_nil]
    exact ⟨rfl, rfl, rfl⟩

/-- A run of 0xFF before a byte other than SE is removed with its subnegotiation. -/
theorem subnegotiation_removed_run :
    (TelnetLineCodec.new.stripIac
      ([104] ++ [IAC, SB] ++ escape [0, IAC, IAC, 7, IAC] ++ [IAC, SE] ++ [105])).2 = [104, 105] ∧
    (TelnetLineCodec.new.stripIac
      ([104] ++ [IAC, SB] ++ escape [0, IAC, IAC, 7, IAC] ++ [IAC, SE] ++ [105])).1.inSubnegotiation
        = false ∧
    (TelnetLineCodec.new.stripIac
      ([104] ++ [IAC, SB] ++ escape [0, IAC, IAC, 7, IAC] ++ [IAC, SE] ++ [105])).1.subnegIacPending
        = false := by
  refine (subnegotiation_removed_iff [0, IAC, IAC, 7, IAC] rfl (by decide) (by decide)).mpr ?_
  rw [spills_iff]
  decide

/-- The payload 0xFF 0xF0 'A' leaves its last byte in the line. -/
theorem subnegotiation_spills :
    ¬ ∀ (c : TelnetLineCodec) (a b payload : List UInt8),
      c.inSubnegotiation = false → IAC ∉ a → IAC ∉ b →
        (c.stripIac (a ++ [IAC, SB] ++ escape payload ++ [IAC, SE] ++ b)).2 = a ++ b ∧
        (c.stripIac (a ++ [IAC, SB] ++ escape payload ++ [IAC, SE] ++ b)).1.inSubnegotiation =
          false ∧
        (c.stripIac (a ++ [IAC, SB] ++ escape payload ++ [IAC, SE] ++ b)).1.subnegIacPending =
          false := by
  intro h
  have hspill := (h .new [] [] [IAC, SE, 65] rfl (by decide) (by decide)).1
  exact absurd hspill (by decide +kernel)

end Liaozhai.Codec
