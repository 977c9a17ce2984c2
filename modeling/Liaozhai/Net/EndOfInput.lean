import Liaozhai.Net.Blocks
import Liaozhai.Net.Overlong

/-!
# The last line at the end of input

A peer may leave in the middle of a telnet sequence. The bytes of a two-byte or
three-byte command are still in the buffer then, and `decode_eof` cuts them off the last
line. The bytes of an open block are not: `strip_iac` has dropped them and set the flag,
so what `decode_eof` clears for the sake of the flag is the line itself.
-/

namespace Liaozhai.Codec

open Lines (Plain)
open Telnet (parse)
open Utf8Lossy (fromUtf8Lossy)
set_option autoImplicit false

universe u

variable {Text : Type u} {text : List UInt8 → Text}
variable {c : TelnetLineCodec} {d t bs : List UInt8} {s : Telnet.State}
variable {maxLineLength maxBufferSize : Nat}

/-- The beginning of a telnet sequence that never got its end. -/
inductive Unfinished : List UInt8 → Prop where
  | nothing : Unfinished []
  | iac : Unfinished [IAC]
  | negotiation (verb : UInt8) : isNegotiation verb = true → Unfinished [IAC, verb]
  | block (content : List UInt8) : IAC ∉ content → Unfinished (IAC :: SB :: content)
  | blockIac (content : List UInt8) : IAC ∉ content → Unfinished (IAC :: SB :: (content ++ [IAC]))

/-- `decode_eof` returns the line, and then nothing. -/
def DeliversLast (text : List UInt8 → Text) (c : TelnetLineCodec) (buf l : List UInt8) : Prop :=
  (decodeEof text c buf).result = .ok (some (.line (text l))) ∧
    (decodeEof text (decodeEof text c buf).state (decodeEof text c buf).buf).result = .ok none

/-- Either the parser is inside a block, or what it left is the unfinished command. -/
theorem Unfinished.parse_cases (h : Unfinished t) :
    [IAC, SB] <+: t ∧ (∃ s, s.inSub = true ∧ parse .data t = (s, [])) ∨
      ¬ [IAC, SB] <+: t ∧ ∃ s : Telnet.State, s.Valid ∧ s.inSub = false ∧ t = s.tail := by
  cases h with
  | nothing => exact .inr ⟨by decide, .data, trivial, rfl, rfl⟩
  | iac => exact .inr ⟨by decide, .iac, trivial, rfl, rfl⟩
  | negotiation verb hverb =>
    right
    refine ⟨?_, .negotiation verb, hverb, rfl, rfl⟩
    intro hpre
    have hsb : SB = verb := by simpa using hpre
    rw [← hsb, isNegotiation_sb] at hverb
    cases hverb
  | block content hiac =>
    have hparse : parse .data (IAC :: SB :: content) = parse .sub content := rfl
    left
    refine ⟨⟨content, rfl⟩, .sub, rfl, ?_⟩
    rw [hparse, parse_sub hiac]
  | blockIac content hiac =>
    have hparse : parse .data (IAC :: SB :: (content ++ [IAC])) = parse .sub (content ++ [IAC]) :=
      rfl
    left
    refine ⟨⟨content ++ [IAC], rfl⟩, .subIac, rfl, ?_⟩
    rw [hparse, Telnet.parse_append, parse_sub hiac]
    rfl

/-- A line before an unfinished command is delivered without it. -/
theorem deliversLast_tail (text : List UInt8 → Text) (hc : AtRest c) (hv : s.Valid)
    (hs : s.inSub = false) (hne : d ≠ []) (hd : Plain d) (hiac : IAC ∉ d)
    (hline : (d ++ s.tail).length ≤ c.maxLineLength)
    (hbuf : (d ++ s.tail).length ≤ c.maxBufferSize) : DeliversLast text c (d ++ s.tail) d := by
  have hplace : Place ⟨s, d⟩ := ⟨hv, hs, hd, hiac⟩
  have hbetween := hplace.between hc hbuf hline
  have heof := @Between.decodeEof_line _ text _ _ _ _ hbetween hc.discarding hne
  have hthen := @decodeEof_nil _ text (atState c s) hc.discarding
  rw [DeliversLast, heof]
  exact ⟨rfl, by rw [hthen]⟩

/-- Inside a block the line is cleared. -/
theorem decodeEof_inSub (text : List UInt8 → Text) (hc : AtRest c) (hs : s.inSub = true)
    (ht : parse .data t = (s, [])) (hne : d ≠ []) (hd : Plain d) (hiac : IAC ∉ d)
    (hline : d.length ≤ c.maxLineLength) (hbuf : (d ++ t).length ≤ c.maxBufferSize) :
    (decodeEof text c (d ++ t)).result = .ok none := by
  have hparse : parse .data (d ++ t) = (s, d) := by
    rw [Telnet.parse_append, Telnet.parse_data hiac, ht, List.append_nil]
  have hstrip : c.stripIac (d ++ t) = (atState c s, d) := by
    have hfresh := stripIac_eq_parse (c := atState c .data) (flagsAgree_atState c .data) (d ++ t)
    have hstart : flagState (atState c .data) = .data := rfl
    rw [hstart, hparse, Telnet.State.tail_of_inSub hs, List.append_nil, hc.atState_eq rfl] at hfresh
    exact hfresh
  have hdecode : decode text c (d ++ t) = ⟨.ok none, atState c s, d⟩ := by
    rw [decode_eq_answer hbuf, hstrip, answer, Lines.findLineTerminator_plain hd]
    simp only [atState_discarding, hc.discarding, Bool.false_eq_true, if_false]
    rw [atState_maxLineLength, if_neg (Nat.not_lt_of_le hline)]
  have hsub : (atState c s).inSubnegotiation = true := hs
  simp only [decodeEof, hdecode, atState_discarding, hc.discarding, hne, hsub, or_self,
    Bool.false_eq_true, if_false, true_or, if_true]

/-- The line before an unfinished sequence is delivered, if and only if the buffer is
within its limit and the sequence is not an open block. -/
theorem deliversLast_iff (hne : d ≠ []) (hd : Plain d) (hiac : IAC ∉ d)
    (hline : d.length + 2 ≤ maxLineLength) (ht : Unfinished t) :
    DeliversLast fromUtf8Lossy (.withLimits maxLineLength maxBufferSize) (d ++ t) d ↔
      (d ++ t).length ≤ maxBufferSize ∧ ¬ [IAC, SB] <+: t := by
  have hc := atRest_withLimits maxLineLength maxBufferSize
  by_cases hbuf : (d ++ t).length ≤ maxBufferSize
  · rw [and_iff_right hbuf]
    rcases ht.parse_cases with ⟨hblock, s, hs, hparse⟩ | ⟨hblock, s, hv, hs, rfl⟩
    · have hcleared := decodeEof_inSub fromUtf8Lossy hc hs hparse hne hd hiac
        (Nat.le_of_add_right_le hline) hbuf
      refine iff_of_false ?_ (fun hnot => hnot hblock)
      intro hdelivers
      have hresult := hcleared.symm.trans hdelivers.1
      cases hresult
    · have htail := Telnet.length_tail_le s
      have hlen : (d ++ s.tail).length ≤ maxLineLength := by
        rw [List.length_append]
        omega
      exact iff_of_true (deliversLast_tail fromUtf8Lossy hc hv hs hne hd hiac hlen hbuf) hblock
  · refine iff_of_false ?_ (fun hboth => hbuf hboth.1)
    intro hdelivers
    have hover : decode fromUtf8Lossy (.withLimits maxLineLength maxBufferSize) (d ++ t) =
        ⟨.error (.bufferOverflow maxBufferSize), .withLimits maxLineLength maxBufferSize, d ++ t⟩ :=
      decode_overflow (Nat.lt_of_not_le hbuf)
    have hresult := hdelivers.1
    rw [decodeEof, hover] at hresult
    cases hresult

/-- A line with the beginning of a negotiation behind it. -/
theorem deliversLast_negotiation :
    DeliversLast fromUtf8Lossy (.withLimits 7 9) ([104, 101, 108, 108, 111] ++ [IAC, WILL])
        [104, 101, 108, 108, 111] ∧
      fromUtf8Lossy [104, 101, 108, 108, 111] = "hello" := by
  have hiff := @deliversLast_iff [104, 101, 108, 108, 111] [IAC, WILL] 7 9 (by decide) (by decide)
    (by decide) (by decide) (.negotiation WILL (by decide))
  exact ⟨hiff.mpr (by decide), by decide +kernel⟩

/-- The same line with an open block behind it is lost. -/
theorem openBlock_losesLine :
    Unfinished [IAC, SB, 24] ∧
      ¬ DeliversLast fromUtf8Lossy (.withLimits 7 9) ([104, 101, 108, 108, 111] ++ [IAC, SB, 24])
        [104, 101, 108, 108, 111] ∧
      (decodeEof fromUtf8Lossy (.withLimits 7 9)
        ([104, 101, 108, 108, 111] ++ [IAC, SB, 24])).result = .ok none := by
  have hcleared : (decodeEof fromUtf8Lossy (.withLimits 7 9)
      ([104, 101, 108, 108, 111] ++ [IAC, SB, 24])).result = .ok none := by
    decide +kernel
  refine ⟨.block [24] (by decide), ?_, hcleared⟩
  intro hdelivers
  have hresult := hcleared.symm.trans hdelivers.1
  cases hresult

end Liaozhai.Codec
