import Liaozhai.Net.Decode

/-!
# Read after read

What the codec remembers between two reads, seen from outside: the state of the
telnet parser and the unterminated data. A read parses its own bytes, delivers
the lines completed by them and keeps the rest. The codec does the same as long
as the bytes it leaves behind its first line may be scanned again.
-/

namespace Liaozhai.Codec

open Lines (Plain Terminator complete residue plain_residue residue_suffix lastLine)
open Telnet (parse)
set_option autoImplicit false

universe u

structure Kept where
  parser : Telnet.State
  partialLine : List UInt8
  deriving DecidableEq, Repr

def Kept.fresh : Kept := ⟨.data, []⟩

/-- The data in the buffer after a read, before a line is taken off it. -/
def Kept.data (k : Kept) (r : List UInt8) : List UInt8 := k.partialLine ++ (parse k.parser r).2

def readStep (k : Kept) (r : List UInt8) : Kept × List (List UInt8) :=
  (⟨(parse k.parser r).1, residue (k.data r)⟩, complete (k.data r))

/-- The data that stays in the buffer when a call has taken its line off. -/
def leftover (bs : List UInt8) : List UInt8 :=
  match findLineTerminator bs with
  | some pos => bs.drop (consumeTerminator bs pos)
  | none => bs

theorem leftover_plain {bs : List UInt8} (h : Plain bs) : leftover bs = bs := by
  rw [leftover, Lines.findLineTerminator_plain h]

theorem leftover_terminator {l t rest : List UInt8} (hl : Plain l) (ht : Terminator t rest) :
    leftover (l ++ (t ++ rest)) = rest := by
  rw [leftover, Lines.findLineTerminator_terminator hl ht]
  simp only [Lines.consumeTerminator_terminator ht]
  rw [← List.append_assoc, ← List.length_append, List.drop_left]

theorem leftover_suffix (bs : List UInt8) : leftover bs <:+ bs := by
  unfold leftover
  split
  · exact List.drop_suffix _ _
  · exact List.suffix_refl _

theorem residue_leftover (bs : List UInt8) : residue (leftover bs) = residue bs := by
  rcases Lines.plain_or_line bs with hplain | ⟨l, t, rest, rfl, hl, ht⟩
  · rw [leftover_plain hplain]
  · rw [leftover_terminator hl ht, Lines.residue_terminator hl ht]

/-- A read within the limits of `c`. -/
structure Fits (c : TelnetLineCodec) (k : Kept) (r : List UInt8) : Prop where
  buffer : (k.partialLine ++ k.parser.tail ++ r).length ≤ c.maxBufferSize
  line : (residue (k.data r) ++ (parse k.parser r).1.tail).length ≤ c.maxLineLength

/-- A read that the codec takes like `readStep`. -/
structure Safe (c : TelnetLineCodec) (k : Kept) (r : List UInt8) : Prop extends Fits c k r where
  clean : Clean (parse k.parser r).1 (leftover (k.data r))

/-- The codec and its buffer between two reads. -/
structure Between (c : TelnetLineCodec) (k : Kept) (c' : TelnetLineCodec) (buf : List UInt8) :
    Prop where
  codec : c' = atState c k.parser
  buf : buf = k.partialLine ++ k.parser.tail
  valid : k.parser.Valid
  clean : Clean k.parser k.partialLine
  plain : Plain k.partialLine
  buffer : (k.partialLine ++ k.parser.tail).length ≤ c.maxBufferSize
  line : (k.partialLine ++ k.parser.tail).length ≤ c.maxLineLength

variable {Text : Type u} {text : List UInt8 → Text}
variable {c c' : TelnetLineCodec} {buf r : List UInt8} {k : Kept}

theorem between_fresh (maxLineLength maxBufferSize : Nat) :
    Between (.withLimits maxLineLength maxBufferSize) .fresh
      (.withLimits maxLineLength maxBufferSize) [] where
  codec := rfl
  buf := rfl
  valid := trivial
  clean := clean_nil _
  plain := by simp [Plain, Kept.fresh]
  buffer := Nat.zero_le _
  line := Nat.zero_le _

theorem Clean.suffix {s : Telnet.State} {bs bs' : List UInt8} (h : Clean s bs)
    (hsuffix : bs' <:+ bs) : Clean s bs' := by
  refine ⟨fun hmem => h.iac (hsuffix.subset hmem), fun hs => ?_⟩
  have hnil := h.sub hs
  rw [hnil] at hsuffix
  exact List.suffix_nil.mp hsuffix

/-- The first call after a read scans the whole buffer. -/
theorem Between.decode_eq (h : Between c k c' buf)
    (hbuf : (k.partialLine ++ k.parser.tail ++ r).length ≤ c.maxBufferSize) :
    decode text c' (buf ++ r) =
      answer text (atState c (parse k.parser r).1) (k.data r ++ (parse k.parser r).1.tail) := by
  obtain ⟨rfl, rfl, hv, hk, -, -, -⟩ := h
  have hdecode := @decode_eq_answer _ text (atState c k.parser) _ hbuf
  rw [hk.stripIac_eq hv r] at hdecode
  exact hdecode

theorem Between.data_length (h : Between c k c' buf) (r : List UInt8) :
    (k.data r ++ (parse k.parser r).1.tail).length ≤
      (k.partialLine ++ k.parser.tail ++ r).length := by
  have hshort := (atState c k.parser).length_stripIac_le (k.partialLine ++ k.parser.tail ++ r)
  rw [h.clean.stripIac_eq h.valid r] at hshort
  exact hshort

/-- The next calls scan what the first call left. The unterminated data is kept, or it is
too long and lost. -/
theorem Between.afterRead_cases (h : Between c k c' buf) (hd : c.discarding = false)
    (hbuf : (k.partialLine ++ k.parser.tail ++ r).length ≤ c.maxBufferSize)
    (hclean : Clean (parse k.parser r).1 (leftover (k.data r))) :
    (decoder text).afterRead c' (buf ++ r) =
      if (residue (k.data r) ++ (parse k.parser r).1.tail).length ≤ c.maxLineLength then
        ⟨(complete (k.data r)).map fun l => .line (text l), none, atState c (parse k.parser r).1,
          residue (k.data r) ++ (parse k.parser r).1.tail⟩
      else
        ⟨((complete (k.data r)).map fun l => .line (text l)) ++ [.lineTooLong], none,
          { atState c (parse k.parser r).1 with discarding := true }, []⟩ := by
  have hv := Telnet.parse_valid h.valid r
  have hshort := Nat.le_trans (h.data_length r) hbuf
  have hdecode := @Between.decode_eq _ text _ _ _ _ _ h hbuf
  rcases Lines.plain_or_line (k.data r) with hplain | ⟨l, t, rest, hdata, hl, ht⟩
  · rw [leftover_plain hplain] at hclean
    have hagain := @decode_eq_answer _ text (atState c (parse k.parser r).1) _ hshort
    rw [hclean.stripIac_self hv] at hagain
    have hsame : (decoder text).afterRead c' (buf ++ r) =
        (decoder text).afterRead (atState c (parse k.parser r).1)
          (k.data r ++ (parse k.parser r).1.tail) :=
      Framed.drain_congr (hdecode.trans hagain.symm)
    rw [hsame, hclean.afterRead_cases hd hv hshort]
  · rw [hdata] at hclean hshort hdecode ⊢
    rw [leftover_terminator hl ht] at hclean
    rw [Lines.residue_terminator hl ht, Lines.complete_terminator hl ht]
    have hlater := @Clean.afterRead_cases _ text c _ _ hclean hd hv
      (by simp only [List.length_append] at hshort ⊢; omega)
    refine (Framed.drain_some (hdecode.trans (answer_line hd hl ht hv))).trans
      ((congrArg _ hlater).trans ?_)
    split
    · rfl
    · rfl

theorem Between.afterRead_eq (h : Between c k c' buf) (hd : c.discarding = false)
    (hr : Safe c k r) :
    (decoder text).afterRead c' (buf ++ r) =
      ⟨(complete (k.data r)).map fun l => .line (text l), none, atState c (parse k.parser r).1,
        residue (k.data r) ++ (parse k.parser r).1.tail⟩ := by
  rw [h.afterRead_cases hd hr.buffer hr.clean, if_pos hr.line]

theorem Between.deliverFrom_cons {rs : List (List UInt8)} (h : Between c k c' buf)
    (hd : c.discarding = false) (hr : Safe c k r) :
    (decoder text).deliverFrom c' buf (r :: rs) =
      (complete (k.data r)).map (fun l => .ok (.line (text l))) ++
        (decoder text).deliverFrom (atState c (parse k.parser r).1)
          (residue (k.data r) ++ (parse k.parser r).1.tail) rs := by
  have hafter := @Between.afterRead_eq _ text _ _ _ _ _ h hd hr
  rw [(decoder text).deliverFrom_cons (by rw [hafter]), hafter, List.map_map]
  rfl

theorem Between.step (h : Between c k c' buf) (hr : Safe c k r) :
    Between c (readStep k r).1 (atState c (parse k.parser r).1)
      (residue (k.data r) ++ (parse k.parser r).1.tail) where
  codec := rfl
  buf := rfl
  valid := Telnet.parse_valid h.valid r
  clean := by
    have hres := residue_suffix (leftover (k.data r))
    rw [residue_leftover] at hres
    exact hr.clean.suffix hres
  plain := plain_residue _
  buffer := by
    have hshort := h.data_length r
    have hres := (residue_suffix (k.data r)).length_le
    have hbuf := hr.buffer
    simp only [readStep, List.length_append] at hres hshort hbuf ⊢
    omega
  line := hr.line

theorem trimmedEnd_le_length (bs : List UInt8) : trimmedEnd bs ≤ bs.length := by
  unfold trimmedEnd
  dsimp only
  split
  · exact Nat.sub_le _ _
  · split
    · exact Nat.sub_le _ _
    · exact Nat.le_refl _

theorem trimmedEnd_of_iac_notMem {bs : List UInt8} (h : IAC ∉ bs) : trimmedEnd bs = bs.length := by
  have hbefore : ∀ i, i < bs.length → byteAt bs i ≠ IAC := by
    intro i hi he
    rw [byteAt_eq_getElem hi] at he
    exact h (he ▸ List.getElem_mem hi)
  unfold trimmedEnd
  dsimp only
  rw [if_neg, if_neg]
  · rintro ⟨hlen, hiac⟩
    exact hbefore _ (by omega) hiac
  · rintro ⟨hlen, hiac, -⟩
    exact hbefore _ (by omega) hiac

/-- An unfinished command is not part of the last line. -/
theorem trimmedEnd_append_tail {s : Telnet.State} (hv : s.Valid) (htail : s.tail ≠ [])
    (bs : List UInt8) : trimmedEnd (bs ++ s.tail) = bs.length := by
  have hat0 := Lines.byteAt_append bs s.tail 0
  have hat1 := Lines.byteAt_append bs s.tail 1
  unfold trimmedEnd
  cases s with
  | iac =>
    simp only [Telnet.State.tail, List.length_append, List.length_cons, List.length_nil] at *
    have hlast : bs.length + (0 + 1) - 1 = bs.length + 0 := by omega
    rw [hlast, hat0, if_neg, if_pos]
    · rfl
    · exact ⟨by omega, rfl⟩
    · rintro ⟨-, -, hverb⟩
      exact absurd hverb (by decide)
  | negotiation verb =>
    simp only [Telnet.State.tail, List.length_append, List.length_cons, List.length_nil] at *
    have hlast : bs.length + (0 + 1 + 1) - 1 = bs.length + 1 := by omega
    have hbefore : bs.length + (0 + 1 + 1) - 2 = bs.length + 0 := by omega
    rw [hlast, hbefore, hat0, hat1, if_pos]
    · rfl
    · exact ⟨by omega, rfl, hv⟩
  | _ => exact absurd rfl htail

theorem trimmedEnd_tail {s : Telnet.State} {bs : List UInt8} (hv : s.Valid) (hiac : IAC ∉ bs) :
    trimmedEnd (bs ++ s.tail) = bs.length := by
  by_cases htail : s.tail = []
  · rw [htail, List.append_nil, trimmedEnd_of_iac_notMem hiac]
  · exact trimmedEnd_append_tail hv htail bs

theorem trimmedEnd_le {s : Telnet.State} (hv : s.Valid) (bs : List UInt8) :
    trimmedEnd (bs ++ s.tail) ≤ bs.length := by
  by_cases htail : s.tail = []
  · rw [htail, List.append_nil]
    exact trimmedEnd_le_length bs
  · exact Nat.le_of_eq (trimmedEnd_append_tail hv htail bs)

theorem decodeEof_nil (hd : c.discarding = false) :
    decodeEof text c [] = ⟨.ok none, c, []⟩ := by
  have hstrip : c.stripIac [] = (c, []) := rfl
  have hdecode : decode text c [] = ⟨.ok none, c, []⟩ := by
    rw [decode_eq_answer (Nat.zero_le _), hstrip]
    simp [answer, findLineTerminator, hd]
  simp only [decodeEof, hdecode]
  rw [if_pos (by simp)]
  cases c
  simp_all

theorem Between.decodeEof_eq (h : Between c k c' buf) (hd : c.discarding = false) :
    decodeEof text c' buf =
      if k.partialLine ++ k.parser.tail = [] then ⟨.ok none, atState c k.parser, []⟩
      else if k.parser.inSub ∨ byteAt (k.partialLine ++ k.parser.tail) 0 = IAC then
        ⟨.ok none, atState c .data, []⟩
      else if k.partialLine.length = 0 then ⟨.ok none, atState c k.parser, []⟩
      else ⟨.ok (some (.line (text k.partialLine))), atState c k.parser, []⟩ := by
  obtain ⟨rfl, rfl, hv, hk, hplain, hbuf, hline⟩ := h
  have hdecode : decode text (atState c k.parser) (k.partialLine ++ k.parser.tail) =
      ⟨.ok none, atState c k.parser, k.partialLine ++ k.parser.tail⟩ := by
    have hanswer := @decode_eq_answer _ text (atState c k.parser) _ hbuf
    rw [hk.stripIac_self hv] at hanswer
    exact hanswer.trans (answer_plain hd hplain hv hline)
  have hkeep : ({ atState c k.parser with discarding := false } : TelnetLineCodec) =
      atState c k.parser := by
    rw [← hd]
    rfl
  simp only [decodeEof, hdecode, trimmedEnd_tail hv hk.iac, List.take_left, hkeep,
    atState_discarding, hd, Bool.false_eq_true, or_false]
  simp only [atState, hd]
  rfl

/-- A line that is not empty is delivered without the unfinished command behind it. -/
theorem Between.decodeEof_line (h : Between c k c' buf) (hd : c.discarding = false)
    (hne : k.partialLine ≠ []) :
    decodeEof text c' buf = ⟨.ok (some (.line (text k.partialLine))), atState c k.parser, []⟩ := by
  have heof := @Between.decodeEof_eq _ text _ _ _ _ h hd
  have hsub : k.parser.inSub = false := by
    cases hs : k.parser.inSub with
    | true => exact absurd (h.clean.sub hs) hne
    | false => rfl
  obtain ⟨b, bs, hbs⟩ := List.exists_cons_of_ne_nil hne
  have hb : byteAt (k.partialLine ++ k.parser.tail) 0 ≠ IAC := by
    intro he
    apply h.clean.iac
    rw [hbs] at he ⊢
    have hb' : b = IAC := he
    rw [hb']
    exact List.mem_cons_self
  have hlen : k.partialLine.length ≠ 0 := by
    rw [hbs]
    simp
  rw [if_neg (by simp [hne]), hsub, if_neg (by simp [hb]), if_neg hlen] at heof
  exact heof

theorem Between.afterEof_results (h : Between c k c' buf) (hd : c.discarding = false) :
    ((decoder text).afterEof c' buf).results =
      (lastLine k.partialLine).map fun l => .ok (.line (text l)) := by
  by_cases hnil : k.partialLine = []
  · -- nothing but an unfinished command can be left, and it is dropped
    have hnone : ∃ c'', decodeEof text c' buf = ⟨.ok none, c'', []⟩ := by
      rw [@Between.decodeEof_eq _ text _ _ _ _ h hd, hnil]
      split
      · exact ⟨_, rfl⟩
      · split
        · exact ⟨_, rfl⟩
        · exact ⟨_, rfl⟩
    obtain ⟨c'', hnone⟩ := hnone
    rw [(decoder text).afterEof_none hnone, lastLine, if_pos hnil]
    rfl
  · rw [(decoder text).afterEof_some (@Between.decodeEof_line _ text _ _ _ _ h hd hnil),
      (decoder text).afterEof_none (decodeEof_nil (c := atState c k.parser) hd),
      lastLine, if_neg hnil]
    rfl

/-- Along safe reads the codec gives the lines of the read machine. -/
theorem afterReads_safe {maxLineLength maxBufferSize : Nat} {reads : List (List UInt8)}
    (hsafe : Transducer.Along readStep (Safe (.withLimits maxLineLength maxBufferSize))
      .fresh reads) :
    ((decoder text).afterReads (.withLimits maxLineLength maxBufferSize) [] reads).error = none ∧
      ((decoder text).afterReads (.withLimits maxLineLength maxBufferSize) [] reads).items =
        (Transducer.run readStep .fresh reads).2.map (fun l => .line (text l)) ∧
      Between (.withLimits maxLineLength maxBufferSize) (Transducer.run readStep .fresh reads).1
        ((decoder text).afterReads (.withLimits maxLineLength maxBufferSize) [] reads).state
        ((decoder text).afterReads (.withLimits maxLineLength maxBufferSize) [] reads).buf :=
  (decoder text).afterReads_simulation readStep
    (fun l => .line (text l)) (Safe (.withLimits maxLineLength maxBufferSize))
    (Between (.withLimits maxLineLength maxBufferSize))
    (fun k c' buf r hk hr => by
      rw [hk.afterRead_eq rfl hr]
      exact ⟨rfl, rfl, hk.step hr⟩)
    (between_fresh maxLineLength maxBufferSize) hsafe

/-- At the end of input the unterminated line follows. -/
theorem deliver_eq {maxLineLength maxBufferSize : Nat} {reads : List (List UInt8)}
    (hsafe : Transducer.Along readStep (Safe (.withLimits maxLineLength maxBufferSize))
      .fresh reads) :
    (decoder text).deliver (.withLimits maxLineLength maxBufferSize) reads =
      ((Transducer.run readStep .fresh reads).2 ++
        lastLine (Transducer.run readStep .fresh reads).1.partialLine).map
          fun l => .ok (.line (text l)) := by
  obtain ⟨herr, hitems, hend⟩ := @afterReads_safe _ text _ _ _ hsafe
  rw [Framed.Decoder.deliver, (decoder text).deliverFrom_of_error_eq_none herr, hitems, hend.afterEof_results rfl,
    List.map_append, List.map_map]
  rfl

end Liaozhai.Codec
