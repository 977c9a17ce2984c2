import Liaozhai.Net.StripIac
import Liaozhai.Net.Lines

/-!
# What the calls of `decode` do with a buffer

`decode` strips the buffer and takes one line off its front. Repeated until it
asks for more, it delivers every complete line of a buffer that stripping leaves
alone, and keeps the unterminated rest.
-/

namespace Liaozhai.Codec

open Lines (Plain Terminator complete residue)
open Telnet (parse)
set_option autoImplicit false

universe u

variable {Text : Type u} {text : List UInt8 → Text}
variable {c : TelnetLineCodec} {buf : List UInt8}

/-- The answer of `decode` once the buffer is stripped. -/
def answer (text : List UInt8 → Text) (c : TelnetLineCodec) (buf : List UInt8) : Answer Text :=
  match findLineTerminator buf with
  | some pos =>
    let rest := buf.drop (consumeTerminator buf pos)
    if c.discarding then decode text { c with discarding := false } rest
    else ⟨.ok (some (.line (text (buf.take pos)))), c, rest⟩
  | none =>
    if c.discarding then ⟨.ok none, c, []⟩
    else if buf.length > c.maxLineLength then
      ⟨.ok (some .lineTooLong), { c with discarding := true }, []⟩
    else ⟨.ok none, c, buf⟩

theorem decode_eq_answer (h : buf.length ≤ c.maxBufferSize) :
    decode text c buf = answer text (c.stripIac buf).1 (c.stripIac buf).2 := by
  rw [decode, if_neg (by omega)]
  unfold answer
  dsimp only
  split
  · rename_i hf
    rw [hf]
  · rename_i hf
    rw [hf]

theorem decode_overflow (h : c.maxBufferSize < buf.length) :
    decode text c buf = ⟨.error (.bufferOverflow c.maxBufferSize), c, buf⟩ := by
  rw [decode, if_pos h]

@[simp] theorem stripIac_maxBufferSize :
    (c.stripIac buf).1.maxBufferSize = c.maxBufferSize := rfl

@[simp] theorem stripIac_maxLineLength :
    (c.stripIac buf).1.maxLineLength = c.maxLineLength := rfl

@[simp] theorem stripIac_discarding : (c.stripIac buf).1.discarding = c.discarding := rfl

/-- The ways a call of `decode` can go. At the end of a discarded line it goes on with
what is behind the line. -/
theorem decode_induct {P : TelnetLineCodec → List UInt8 → Answer Text → Prop}
    (overflow : ∀ c buf, c.maxBufferSize < buf.length →
      P c buf ⟨.error (.bufferOverflow c.maxBufferSize), c, buf⟩)
    (resumed : ∀ c buf pos, buf.length ≤ c.maxBufferSize →
      findLineTerminator (c.stripIac buf).2 = some pos → c.discarding = true →
      P { (c.stripIac buf).1 with discarding := false }
        ((c.stripIac buf).2.drop (consumeTerminator (c.stripIac buf).2 pos))
        (decode text { (c.stripIac buf).1 with discarding := false }
          ((c.stripIac buf).2.drop (consumeTerminator (c.stripIac buf).2 pos))) →
      P c buf (decode text { (c.stripIac buf).1 with discarding := false }
        ((c.stripIac buf).2.drop (consumeTerminator (c.stripIac buf).2 pos))))
    (line : ∀ c buf pos, buf.length ≤ c.maxBufferSize →
      findLineTerminator (c.stripIac buf).2 = some pos → c.discarding = false →
      P c buf ⟨.ok (some (.line (text ((c.stripIac buf).2.take pos)))), (c.stripIac buf).1,
        (c.stripIac buf).2.drop (consumeTerminator (c.stripIac buf).2 pos)⟩)
    (discarded : ∀ c buf, buf.length ≤ c.maxBufferSize →
      findLineTerminator (c.stripIac buf).2 = none → c.discarding = true →
      P c buf ⟨.ok none, (c.stripIac buf).1, []⟩)
    (tooLong : ∀ c buf, buf.length ≤ c.maxBufferSize →
      findLineTerminator (c.stripIac buf).2 = none → c.discarding = false →
      c.maxLineLength < (c.stripIac buf).2.length →
      P c buf ⟨.ok (some .lineTooLong), { (c.stripIac buf).1 with discarding := true }, []⟩)
    (waiting : ∀ c buf, buf.length ≤ c.maxBufferSize →
      findLineTerminator (c.stripIac buf).2 = none → c.discarding = false →
      (c.stripIac buf).2.length ≤ c.maxLineLength →
      P c buf ⟨.ok none, (c.stripIac buf).1, (c.stripIac buf).2⟩)
    (c : TelnetLineCodec) (buf : List UInt8) : P c buf (decode text c buf) := by
  induction hn : buf.length using Nat.strongRecOn generalizing c buf with
  | ind n ih =>
    subst hn
    by_cases hlen : buf.length ≤ c.maxBufferSize
    · rw [decode_eq_answer hlen]
      unfold answer
      cases hf : findLineTerminator (c.stripIac buf).2 with
      | some pos =>
        dsimp only
        rw [stripIac_discarding]
        cases hd : c.discarding with
        | true =>
          rw [if_pos rfl]
          exact resumed c buf pos hlen hf hd (ih _ (c.length_drop_stripIac_lt hf) _ _ rfl)
        | false =>
          rw [if_neg Bool.false_ne_true]
          exact line c buf pos hlen hf hd
      | none =>
        dsimp only
        rw [stripIac_discarding]
        cases hd : c.discarding with
        | true =>
          rw [if_pos rfl]
          exact discarded c buf hlen hf hd
        | false =>
          rw [if_neg Bool.false_ne_true]
          split
          · rename_i hlong
            exact tooLong c buf hlen hf hd hlong
          · rename_i hshort
            exact waiting c buf hlen hf hd (Nat.le_of_not_lt hshort)
    · rw [decode_overflow (by omega)]
      exact overflow c buf (by omega)

/-- No call lengthens the buffer, and a call that returns a frame shortens it. -/
theorem decode_shrinks (c : TelnetLineCodec) (buf : List UInt8) :
    (decode text c buf).buf.length ≤ buf.length ∧
      ∀ i, (decode text c buf).result = .ok (some i) →
        (decode text c buf).buf.length < buf.length := by
  refine @decode_induct _ text
    (fun _ buf a => a.buf.length ≤ buf.length ∧ ∀ i, a.result = .ok (some i) → a.buf.length < buf.length)
    ?overflow ?resumed ?line ?discarded ?tooLong ?waiting c buf
  case overflow =>
    intro c buf _
    exact ⟨Nat.le_refl _, by simp⟩
  case resumed =>
    intro c buf pos _ hf _ ih
    have hlt := c.length_drop_stripIac_lt hf
    exact ⟨Nat.le_trans ih.1 (Nat.le_of_lt hlt), fun _ _ => Nat.lt_of_le_of_lt ih.1 hlt⟩
  case line =>
    intro c buf pos _ hf _
    have hlt := c.length_drop_stripIac_lt hf
    exact ⟨Nat.le_of_lt hlt, fun _ _ => hlt⟩
  case discarded =>
    intro c buf _ _ _
    exact ⟨Nat.zero_le _, by simp⟩
  case tooLong =>
    intro c buf _ _ _ hlong
    have hle := c.length_stripIac_le buf
    refine ⟨Nat.zero_le _, fun _ _ => ?_⟩
    simp only [List.length_nil]
    omega
  case waiting =>
    intro c buf _ _ _ _
    exact ⟨c.length_stripIac_le buf, by simp⟩

/-- What the codec and its buffer are like when a call asks for more. -/
structure Retained (c : TelnetLineCodec) (buf : List UInt8) : Prop where
  plain : Plain buf
  length : buf.length ≤ c.maxLineLength
  discarding : c.discarding = true → buf = []

theorem retained_nil (c : TelnetLineCodec) : Retained c [] :=
  ⟨Lines.plain_nil, Nat.zero_le _, fun _ => rfl⟩

theorem plain_of_findLineTerminator {bs : List UInt8} (h : findLineTerminator bs = none) :
    Plain bs := by
  rcases Lines.plain_or_line bs with hplain | ⟨l, t, rest, rfl, hl, ht⟩
  · exact hplain
  · rw [Lines.findLineTerminator_terminator hl ht] at h
    cases h

/-- A call that asks for more leaves the beginning of a line within the limit, and
nothing of a line that is discarded. -/
theorem decode_none_retained (c : TelnetLineCodec) (buf : List UInt8)
    (h : (decode text c buf).result = .ok none) :
    Retained (decode text c buf).state (decode text c buf).buf := by
  revert h
  refine @decode_induct _ text
    (fun _ _ a => a.result = .ok none → Retained a.state a.buf)
    ?overflow ?resumed ?line ?discarded ?tooLong ?waiting c buf
  case overflow =>
    intro c buf _ h
    cases h
  case resumed =>
    intro c buf pos _ _ _ ih
    exact ih
  case line =>
    intro c buf pos _ _ _ h
    cases h
  case discarded =>
    intro c buf _ _ _ _
    exact retained_nil _
  case tooLong =>
    intro c buf _ _ _ _ h
    cases h
  case waiting =>
    intro c buf _ hf hd hline _
    refine ⟨plain_of_findLineTerminator hf, hline, fun hdisc => ?_⟩
    rw [stripIac_discarding, hd] at hdisc
    cases hdisc

theorem decode_limits (c : TelnetLineCodec) (buf : List UInt8) :
    (decode text c buf).state.maxLineLength = c.maxLineLength ∧
      (decode text c buf).state.maxBufferSize = c.maxBufferSize := by
  refine @decode_induct _ text
    (fun c _ a => a.state.maxLineLength = c.maxLineLength ∧ a.state.maxBufferSize = c.maxBufferSize)
    ?overflow ?resumed ?line ?discarded ?tooLong ?waiting c buf
  case overflow =>
    intro c buf _
    exact ⟨rfl, rfl⟩
  case resumed =>
    intro c buf pos _ _ _ ih
    exact ih
  case line =>
    intro c buf pos _ _ _
    exact ⟨rfl, rfl⟩
  case discarded =>
    intro c buf _ _ _
    exact ⟨rfl, rfl⟩
  case tooLong =>
    intro c buf _ _ _ _
    exact ⟨rfl, rfl⟩
  case waiting =>
    intro c buf _ _ _ _
    exact ⟨rfl, rfl⟩

/-- A call fails exactly on a buffer over the limit: behind a discarded line there is
less than was in the buffer. -/
theorem decode_error_iff (c : TelnetLineCodec) (buf : List UInt8) (e : TelnetCodecError) :
    (decode text c buf).result = .error e ↔
      c.maxBufferSize < buf.length ∧ e = .bufferOverflow c.maxBufferSize := by
  refine @decode_induct _ text
    (fun c buf a => a.result = .error e ↔ c.maxBufferSize < buf.length ∧ e = .bufferOverflow c.maxBufferSize)
    ?overflow ?resumed ?line ?discarded ?tooLong ?waiting c buf
  case overflow =>
    intro c buf hlong
    rw [and_iff_right hlong, Except.error.injEq, eq_comm]
  case resumed =>
    intro c buf pos hlen hf _ ih
    have hlt := c.length_drop_stripIac_lt hf
    refine ih.trans (iff_of_false ?_ ?_)
    · rintro ⟨hlong, -⟩
      exact absurd (Nat.lt_trans hlong hlt) (Nat.not_lt_of_le hlen)
    · rintro ⟨hlong, -⟩
      exact absurd hlong (Nat.not_lt_of_le hlen)
  case line =>
    intro c buf pos hlen _ _
    exact iff_of_false nofun (fun h => absurd h.1 (Nat.not_lt_of_le hlen))
  case discarded =>
    intro c buf hlen _ _
    exact iff_of_false nofun (fun h => absurd h.1 (Nat.not_lt_of_le hlen))
  case tooLong =>
    intro c buf hlen _ _ _
    exact iff_of_false nofun (fun h => absurd h.1 (Nat.not_lt_of_le hlen))
  case waiting =>
    intro c buf hlen _ _ _
    exact iff_of_false nofun (fun h => absurd h.1 (Nat.not_lt_of_le hlen))

theorem decode_consumes (c : TelnetLineCodec) (buf : List UInt8) (i : CodecItem Text)
    (h : (decode text c buf).result = .ok (some i)) :
    (decode text c buf).buf.length < buf.length :=
  (decode_shrinks c buf).2 i h

theorem decodeEof_consumes (c : TelnetLineCodec) (buf : List UInt8) (i : CodecItem Text)
    (h : (decodeEof text c buf).result = .ok (some i)) :
    (decodeEof text c buf).buf.length < buf.length := by
  obtain ⟨hle, hlt⟩ := @decode_shrinks _ text c buf
  unfold decodeEof at h ⊢
  dsimp only at h ⊢
  split at h
  · simp at h
  · rename_i item hr
    exact hlt item hr
  · rename_i hr
    split_ifs at h ⊢ with hempty hsub hend
    · simp at h
    · simp at h
    · simp at h
    · have hpos : 0 < (decode text c buf).buf.length :=
        List.length_pos_of_ne_nil fun he => hempty (.inl he)
      simp only [List.length_nil]
      omega

/-- The codec as a framed decoder. -/
def decoder (text : List UInt8 → Text) :
    Framed.Decoder TelnetLineCodec UInt8 (CodecItem Text) TelnetCodecError where
  decode := decode text
  decodeEof := decodeEof text
  decode_consumes := decode_consumes
  decodeEof_consumes := decodeEof_consumes

/-! ### The text of a line -/

def CodecItem.map {Text' : Type*} (g : Text → Text') : CodecItem Text → CodecItem Text'
  | .line l => .line (g l)
  | .lineTooLong => .lineTooLong

theorem decode_eq_map (c : TelnetLineCodec) (buf : List UInt8) :
    decode text c buf = (decode id c buf).mapItem (CodecItem.map text) := by
  induction hn : buf.length using Nat.strongRecOn generalizing c buf with
  | ind n ih =>
    subst hn
    by_cases hlen : buf.length ≤ c.maxBufferSize
    · rw [decode_eq_answer hlen, decode_eq_answer hlen]
      unfold answer
      cases hf : findLineTerminator (c.stripIac buf).2 with
      | some pos =>
        dsimp only
        split
        · exact ih _ (c.length_drop_stripIac_lt hf) _ _ rfl
        · rfl
      | none =>
        dsimp only
        split
        · rfl
        · split <;> rfl
    · rw [decode_overflow (by omega), decode_overflow (by omega)]
      rfl

theorem decodeEof_eq_map (c : TelnetLineCodec) (buf : List UInt8) :
    decodeEof text c buf = (decodeEof id c buf).mapItem (CodecItem.map text) := by
  unfold decodeEof
  rw [decode_eq_map c buf]
  cases hdecode : decode id c buf with
  | mk result s' buf' =>
    cases result with
    | error e => rfl
    | ok o =>
      cases o with
      | some i => rfl
      | none =>
        dsimp only [Framed.Answer.mapItem, Except.map, Option.map]
        split_ifs <;> rfl

/-- The texts are decoded from the bytes of each line, and from nothing else. -/
theorem deliver_eq_map (c : TelnetLineCodec) (reads : List (List UInt8)) :
    (decoder text).deliver c reads =
      ((decoder id).deliver c reads).map (Except.map (CodecItem.map text)) :=
  (decoder id).deliverFrom_map _ (decoder text) decode_eq_map decodeEof_eq_map c [] reads

/-- Stripping a buffer first does not change the answer, if it then stays as it is. -/
theorem decode_stripIac {c' : TelnetLineCodec} {buf' : List UInt8}
    (hlen : buf.length ≤ c.maxBufferSize) (h : c.stripIac buf = (c', buf'))
    (h' : c'.stripIac buf' = (c', buf')) : decode text c buf = decode text c' buf' := by
  have hmax : c'.maxBufferSize = c.maxBufferSize := by
    rw [← @stripIac_maxBufferSize c buf, h]
  have hle : buf'.length ≤ c'.maxBufferSize := by
    have hshort := c.length_stripIac_le buf
    simp only [h] at hshort
    omega
  rw [decode_eq_answer hlen, decode_eq_answer hle, h, h']

/-! ### Buffers that read the same when they are scanned again -/

/-- The codec with the flags of a parser state. -/
def atState (c : TelnetLineCodec) (s : Telnet.State) : TelnetLineCodec :=
  { c with inSubnegotiation := s.inSub, subnegIacPending := s.pending }

@[simp] theorem atState_maxBufferSize (s : Telnet.State) :
    (atState c s).maxBufferSize = c.maxBufferSize := rfl

@[simp] theorem atState_maxLineLength (s : Telnet.State) :
    (atState c s).maxLineLength = c.maxLineLength := rfl

@[simp] theorem atState_discarding (s : Telnet.State) :
    (atState c s).discarding = c.discarding := rfl

@[simp] theorem withLimits_discarding (maxLineLength maxBufferSize : Nat) :
    (TelnetLineCodec.withLimits maxLineLength maxBufferSize).discarding = false := rfl

/-- The parser state that the flags stand for. -/
def flagState (c : TelnetLineCodec) : Telnet.State :=
  .ofFlags c.inSubnegotiation c.subnegIacPending

/-- The pending flag is only set inside a subnegotiation. -/
def FlagsAgree (c : TelnetLineCodec) : Prop :=
  c.inSubnegotiation = false → c.subnegIacPending = false

theorem flagsAgree_atState (c : TelnetLineCodec) (s : Telnet.State) : FlagsAgree (atState c s) :=
  Telnet.State.pending_eq_false

theorem stripIac_eq_parse (h : FlagsAgree c) (buf : List UInt8) :
    c.stripIac buf = (atState c (parse (flagState c) buf).1,
      (parse (flagState c) buf).2 ++ (parse (flagState c) buf).1.tail) :=
  TelnetLineCodec.stripIac_eq h

/-- Bytes that a later call may scan again without a change: none of them is an
IAC, and none of them is left inside a subnegotiation. -/
structure Clean (s : Telnet.State) (bs : List UInt8) : Prop where
  iac : IAC ∉ bs
  sub : s.inSub = true → bs = []

theorem clean_nil (s : Telnet.State) : Clean s [] := ⟨by simp, fun _ => rfl⟩

variable {s : Telnet.State} {bs : List UInt8}

theorem clean_outside (hs : s.inSub = false) (hbs : IAC ∉ bs) : Clean s bs := by
  refine ⟨hbs, ?_⟩
  intro hsub
  rw [hs] at hsub
  cases hsub

theorem Clean.parse_eq (h : Clean s bs) (hv : s.Valid) (r : List UInt8) :
    parse s.resume (bs ++ s.tail ++ r) = ((parse s r).1, bs ++ (parse s r).2) := by
  cases hs : s.inSub with
  | true =>
    rw [h.sub hs, Telnet.State.resume_of_inSub hs, Telnet.State.tail_of_inSub hs]
    rfl
  | false =>
    rw [Telnet.State.resume_of_not_inSub hs, Telnet.parse_append, Telnet.parse_append,
      Telnet.parse_data h.iac, Telnet.parse_tail hv hs, List.append_nil]

/-- Stripping such a buffer with a read appended parses the read alone. -/
theorem Clean.stripIac_eq (h : Clean s bs) (hv : s.Valid) (r : List UInt8) :
    (atState c s).stripIac (bs ++ s.tail ++ r) =
      (atState c (parse s r).1, bs ++ (parse s r).2 ++ (parse s r).1.tail) := by
  have hparse : parse (flagState (atState c s)) (bs ++ s.tail ++ r) =
      ((parse s r).1, bs ++ (parse s r).2) := h.parse_eq hv r
  rw [stripIac_eq_parse (flagsAgree_atState c s), hparse]
  rfl

theorem Clean.stripIac_self (h : Clean s bs) (hv : s.Valid) :
    (atState c s).stripIac (bs ++ s.tail) = (atState c s, bs ++ s.tail) := by
  have hself := h.stripIac_eq (c := c) hv []
  simpa using hself

theorem answer_open (c : TelnetLineCodec) (hbs : Plain bs) (hv : s.Valid) :
    answer text c (bs ++ s.tail) =
      if c.discarding then ⟨.ok none, c, []⟩
      else if (bs ++ s.tail).length > c.maxLineLength then
        ⟨.ok (some .lineTooLong), { c with discarding := true }, []⟩
      else ⟨.ok none, c, bs ++ s.tail⟩ := by
  have hfind : findLineTerminator (bs ++ s.tail) = none :=
    Lines.findLineTerminator_plain
      (Lines.plain_append.mpr ⟨hbs, Telnet.State.Valid.tail_plain hv⟩)
  rw [answer, hfind]

theorem answer_terminated {l t rest : List UInt8} (c : TelnetLineCodec) (hl : Plain l)
    (ht : Terminator t rest) (hv : s.Valid) :
    answer text c (l ++ (t ++ rest) ++ s.tail) =
      if c.discarding then decode text { c with discarding := false } (rest ++ s.tail)
      else ⟨.ok (some (.line (text l))), c, rest ++ s.tail⟩ := by
  have happ : l ++ (t ++ rest) ++ s.tail = l ++ (t ++ (rest ++ s.tail)) := by
    simp only [List.append_assoc]
  have ht' : Terminator t (rest ++ s.tail) :=
    ht.append (Telnet.State.Valid.tail_plain hv).1
  have hdrop : (l ++ (t ++ (rest ++ s.tail))).drop (l.length + t.length) = rest ++ s.tail := by
    rw [← List.append_assoc, ← List.length_append, List.drop_left]
  rw [happ, answer, Lines.findLineTerminator_terminator hl ht']
  simp only [Lines.consumeTerminator_terminator ht', List.take_left, hdrop]

theorem answer_plain (hd : c.discarding = false) (hbs : Plain bs) (hv : s.Valid)
    (hline : (bs ++ s.tail).length ≤ c.maxLineLength) :
    answer text c (bs ++ s.tail) = ⟨.ok none, c, bs ++ s.tail⟩ := by
  rw [answer_open c hbs hv, hd, if_neg (by simp), if_neg (by omega)]

theorem answer_line {l t rest : List UInt8} (hd : c.discarding = false) (hl : Plain l)
    (ht : Terminator t rest) (hv : s.Valid) :
    answer text c (l ++ (t ++ rest) ++ s.tail) =
      ⟨.ok (some (.line (text l))), c, rest ++ s.tail⟩ := by
  rw [answer_terminated c hl ht hv, hd, if_neg (by simp)]

theorem decode_nil_discarding (hd : c.discarding = true) :
    decode text c [] = ⟨.ok none, c, []⟩ := by
  have hstrip : c.stripIac [] = (c, []) := rfl
  rw [decode_eq_answer (Nat.zero_le _), hstrip]
  simp [answer, findLineTerminator, hd]

/-- The calls after a read deliver every complete line of a clean buffer. The rest
is kept, or it is too long and lost. -/
theorem Clean.afterRead_cases (h : Clean s bs) (hd : c.discarding = false) (hv : s.Valid)
    (hbuf : (bs ++ s.tail).length ≤ c.maxBufferSize) :
    (decoder text).afterRead (atState c s) (bs ++ s.tail) =
      if (residue bs ++ s.tail).length ≤ c.maxLineLength then
        ⟨(complete bs).map fun l => .line (text l), none, atState c s, residue bs ++ s.tail⟩
      else
        ⟨((complete bs).map fun l => .line (text l)) ++ [.lineTooLong], none,
          { atState c s with discarding := true }, []⟩ := by
  induction hn : bs.length using Nat.strongRecOn generalizing bs with
  | ind n ih =>
    have hdecode := @decode_eq_answer _ text (atState c s) _ hbuf
    rw [h.stripIac_self hv] at hdecode
    rcases Lines.plain_or_line bs with hplain | ⟨l, t, rest, rfl, hl, ht⟩
    · rw [Lines.residue_plain hplain, Lines.complete_plain hplain]
      split
      · rename_i hline
        exact Framed.drain_none (hdecode.trans (answer_plain hd hplain hv hline))
      · rename_i hline
        have hlost : answer text (atState c s) (bs ++ s.tail) = _ :=
          answer_open (atState c s) hplain hv
        rw [atState_discarding, hd, if_neg Bool.false_ne_true, atState_maxLineLength,
          if_pos (Nat.lt_of_not_le hline)] at hlost
        exact (Framed.drain_some (hdecode.trans hlost)).trans
          (congrArg _ (Framed.drain_none (decode_nil_discarding rfl)))
    · rw [Lines.residue_terminator hl ht, Lines.complete_terminator hl ht]
      have hpos := ht.length_pos
      have hiac := h.iac
      simp only [List.mem_append, not_or] at hiac
      simp only [List.length_append] at hn hbuf
      have hrest : Clean s rest := by
        refine ⟨hiac.2.2, fun hs => ?_⟩
        have hnil := h.sub hs
        simp only [List.append_eq_nil_iff] at hnil
        exact hnil.2.2
      have hlater := ih rest.length (by omega) hrest (by rw [List.length_append]; omega) rfl
      refine (Framed.drain_some (hdecode.trans (answer_line hd hl ht hv))).trans
        ((congrArg _ hlater).trans ?_)
      split
      · rfl
      · rfl

end Liaozhai.Codec
