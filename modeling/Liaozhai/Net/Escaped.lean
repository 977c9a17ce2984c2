import Liaozhai.Library.Utf8Lossy
import Liaozhai.Net.Streams

/-!
# Escaped data

A client sends the data byte 0xFF as two. `strip_iac` writes one literal 0xFF
back into the buffer, and every later call scans it again. Each byte is worth two
points when it is delivered; a literal that waits for a second scan is worth one,
the price of one half of a pair. No call delivers more than it scans, so a
stream that leaves a literal behind a line cannot be delivered in full.
-/

namespace Liaozhai.Codec

open Lines (Plain Terminator complete residue lines lastLine segments)
open Telnet (parse payload stateAfter)
open Utf8Lossy (fromUtf8Lossy)
set_option autoImplicit false

/-- A data byte on the wire. -/
def escapeByte (b : UInt8) : List UInt8 := if b = IAC then [IAC, IAC] else [b]

def escape (l : List UInt8) : List UInt8 := l.flatMap escapeByte

def encodeLines (ls : List (List UInt8)) : List UInt8 := ls.flatMap fun l => escape l ++ [LF]

theorem parse_escapeByte (b : UInt8) : parse .data (escapeByte b) = (.data, [b]) := by
  unfold escapeByte
  split
  · rename_i h
    rw [h]
    rfl
  · rename_i h
    exact Telnet.parse_data (by simpa using Ne.symm h)

theorem parse_escape (l : List UInt8) : parse .data (escape l) = (.data, l) := by
  induction l with
  | nil => rfl
  | cons b l ih =>
    have hcons : escape (b :: l) = escapeByte b ++ escape l := List.flatMap_cons
    rw [hcons, Telnet.parse_append, parse_escapeByte, ih]
    rfl

theorem encodeLines_cons (l : List UInt8) (ls : List (List UInt8)) :
    encodeLines (l :: ls) = escape l ++ [LF] ++ encodeLines ls := List.flatMap_cons

theorem parse_encoded_line (l : List UInt8) :
    parse .data (escape l ++ [LF]) = (.data, l ++ [LF]) := by
  rw [Telnet.parse_append, parse_escape]
  rfl

theorem parse_encodeLines (ls : List (List UInt8)) :
    parse .data (encodeLines ls) = (.data, Lines.join ls []) := by
  induction ls with
  | nil => rfl
  | cons l ls ih =>
    rw [encodeLines_cons, Telnet.parse_append, parse_encoded_line, ih, Lines.join_cons]
    simp

theorem payload_encodeLines (ls : List (List UInt8)) :
    payload (encodeLines ls) = Lines.join ls [] :=
  congrArg Prod.snd (parse_encodeLines ls)

theorem payload_encoded_line (l rest : List UInt8) :
    payload (escape l ++ [LF] ++ rest) = l ++ ([LF] ++ payload rest) ∧
      stateAfter (escape l ++ [LF] ++ rest) = stateAfter rest := by
  have hline := parse_encoded_line l
  constructor
  · rw [Telnet.payload_append, payload, stateAfter, hline, List.append_assoc]
    rfl
  · rw [Telnet.stateAfter_append, stateAfter, hline]
    rfl

/-- No prefix of the encoding holds more of a line than its encoding is long. -/
theorem shortLines_encodeLines {ls : List (List UInt8)} {maxLineLength : Nat}
    (hls : ∀ l ∈ ls, Plain l) (hline : ∀ l ∈ ls, (escape l).length ≤ maxLineLength) :
    ShortLines maxLineLength (encodeLines ls) := by
  induction ls with
  | nil =>
    intro pre hpre
    rw [List.prefix_nil.mp hpre]
    exact Nat.zero_le _
  | cons l ls ih =>
    intro pre hpre
    have hl := hls l List.mem_cons_self
    have hshort := ih (fun m hm => hls m (List.mem_cons_of_mem _ hm))
      fun m hm => hline m (List.mem_cons_of_mem _ hm)
    rw [encodeLines_cons] at hpre
    have hcases : pre <+: escape l ∨ ∃ pre', pre' <+: encodeLines ls ∧
        pre = escape l ++ [LF] ++ pre' := by
      rcases List.prefix_or_prefix_of_prefix hpre (List.prefix_append _ _) with hin | ⟨pre', rfl⟩
      · rcases List.prefix_concat_iff.mp hin with rfl | hin
        · exact .inr ⟨[], List.nil_prefix, (List.append_nil _).symm⟩
        · exact .inl hin
      · exact .inr ⟨pre', (List.prefix_append_right_inj _).mp hpre, rfl⟩
    rcases hcases with hin | ⟨pre', hpre', rfl⟩
    · have hlen := Telnet.payload_length pre
      have hres := (Lines.residue_suffix (payload pre)).length_le
      have hmax := hline l List.mem_cons_self
      have hin' := hin.length_le
      rw [List.length_append]
      omega
    · obtain ⟨hpay, hstate⟩ := payload_encoded_line l pre'
      rw [hpay, hstate, Lines.residue_terminator hl (.lf _)]
      exact hshort pre' hpre'

theorem outsideSub_escape (l : List UInt8) : OutsideSub .data (escape l) := by
  induction l with
  | nil => trivial
  | cons b l ih =>
    have hcons : escape (b :: l) = escapeByte b ++ escape l := List.flatMap_cons
    rw [hcons, OutsideSub, Transducer.along_append]
    change _ ∧ OutsideSub (parse .data (escapeByte b)).1 (escape l)
    rw [parse_escapeByte]
    refine ⟨?_, ih⟩
    unfold escapeByte
    split
    · exact ⟨rfl, rfl, trivial⟩
    · rename_i hb
      refine ⟨?_, trivial⟩
      simp [Telnet.step, hb, Telnet.State.inSub]

theorem outsideSub_encodeLines (ls : List (List UInt8)) : OutsideSub .data (encodeLines ls) := by
  induction ls with
  | nil => trivial
  | cons l ls ih =>
    rw [encodeLines_cons, OutsideSub, Transducer.along_append, Transducer.along_append]
    change (OutsideSub .data (escape l) ∧ OutsideSub (parse .data (escape l)).1 [LF]) ∧
      OutsideSub (parse .data (escape l ++ [LF])).1 (encodeLines ls)
    rw [parse_escape, parse_encoded_line]
    exact ⟨⟨outsideSub_escape l, rfl, trivial⟩, ih⟩

/-! ### What bytes are worth -/

/-- A byte that is going to be scanned. -/
def worth (b : UInt8) : Nat := if b = LF ∨ b = CR then 0 else if b = IAC then 1 else 2

def weight (bs : List UInt8) : Nat := (bs.map worth).sum

/-- A byte that is delivered in a line. -/
def textWorth (b : UInt8) : Nat := if b = LF ∨ b = CR then 0 else 2

def textWeight (bs : List UInt8) : Nat := (bs.map textWorth).sum

def itemWorth : CodecItem (List UInt8) → Nat
  | .line l => textWeight l
  | .lineTooLong => 0

@[simp] theorem weight_nil : weight [] = 0 := rfl

@[simp] theorem weight_append (as bs : List UInt8) : weight (as ++ bs) = weight as + weight bs := by
  simp [weight]

@[simp] theorem textWeight_nil : textWeight [] = 0 := rfl

@[simp] theorem textWeight_append (as bs : List UInt8) :
    textWeight (as ++ bs) = textWeight as + textWeight bs := by
  simp [textWeight]

theorem worth_le (b : UInt8) : worth b ≤ textWorth b := by
  unfold worth textWorth
  split
  · exact Nat.le_refl 0
  · split <;> omega

theorem weight_cons (b : UInt8) (bs : List UInt8) : weight (b :: bs) = worth b + weight bs := by
  simp [weight]

theorem textWeight_cons (b : UInt8) (bs : List UInt8) :
    textWeight (b :: bs) = textWorth b + textWeight bs := by
  simp [textWeight]

theorem weight_le (bs : List UInt8) : weight bs ≤ textWeight bs := by
  induction bs with
  | nil => exact Nat.le_refl 0
  | cons b bs ih =>
    have hb := worth_le b
    rw [weight_cons, textWeight_cons]
    omega

theorem weight_eq {bs : List UInt8} (h : IAC ∉ bs) : weight bs = textWeight bs := by
  induction bs with
  | nil => rfl
  | cons b bs ih =>
    rw [List.mem_cons, not_or] at h
    have hb : worth b = textWorth b := by
      unfold worth textWorth
      rw [if_neg (Ne.symm h.1)]
    rw [weight_cons, textWeight_cons, hb, ih h.2]

/-- A literal 0xFF that is going to be scanned again has lost half its worth. -/
theorem weight_lt {bs : List UInt8} (h : IAC ∈ bs) : weight bs < textWeight bs := by
  obtain ⟨as, cs, rfl⟩ := List.append_of_mem h
  have has := weight_le as
  have hcs := weight_le cs
  have hiac : worth IAC = 1 ∧ textWorth IAC = 2 := by decide
  rw [weight_append, textWeight_append, weight_cons, textWeight_cons, hiac.1, hiac.2]
  omega

theorem step_weight (s : Telnet.State) (b : UInt8) :
    textWeight (Telnet.step s b).2 + weight (Telnet.step s b).1.tail ≤ weight s.tail + worth b := by
  cases s with
  | data =>
    by_cases hb : b = IAC
    · subst hb
      decide
    · have hplain : weight [b] = textWeight [b] := weight_eq (by simpa using Ne.symm hb)
      rw [weight_cons, weight_nil] at hplain
      simp only [Telnet.step, hb, if_false, Telnet.State.tail, weight_nil]
      omega
  | iac =>
    by_cases hb : b = IAC
    · subst hb
      decide
    · simp only [Telnet.step, hb, if_false]
      split
      · simp [Telnet.State.tail, weight_cons]
      · split <;> simp [Telnet.State.tail]
  | negotiation verb => simp [Telnet.step, Telnet.State.tail]
  | sub =>
    simp only [Telnet.step]
    split <;> simp [Telnet.State.tail]
  | subIac =>
    simp only [Telnet.step]
    split
    · simp [Telnet.State.tail]
    · split <;> simp [Telnet.State.tail]

/-- The parser puts out no more than it reads. -/
theorem parse_weight (s : Telnet.State) (bs : List UInt8) :
    textWeight (parse s bs).2 + weight (parse s bs).1.tail ≤ weight s.tail + weight bs := by
  induction bs generalizing s with
  | nil => simp
  | cons b bs ih =>
    have hstep := step_weight s b
    have hrest := ih (Telnet.step s b).1
    rw [Telnet.parse_cons, weight_cons]
    simp only [textWeight_append]
    omega

theorem textWeight_terminator {t rest : List UInt8} (ht : Terminator t rest) :
    textWeight t = 0 := by
  cases ht <;> rfl

/-- The lines and the unterminated rest of some data are worth what it is worth. -/
theorem textWeight_lines (bs : List UInt8) :
    ((complete bs).map textWeight).sum + textWeight (residue bs) = textWeight bs := by
  induction hn : bs.length using Nat.strongRecOn generalizing bs with
  | ind n ih =>
    rcases Lines.plain_or_line bs with hplain | ⟨l, t, rest, rfl, hl, ht⟩
    · rw [Lines.complete_plain hplain, Lines.residue_plain hplain]
      simp
    · have hpos := ht.length_pos
      simp only [List.length_append] at hn
      have hrest := ih rest.length (by omega) rest rfl
      rw [Lines.complete_terminator hl ht, Lines.residue_terminator hl ht]
      simp only [List.map_cons, List.sum_cons, textWeight_append, textWeight_terminator ht]
      omega

/-! ### No call delivers more than it scans -/

theorem flagState_tail (c : TelnetLineCodec) : (flagState c).tail = [] := by
  unfold flagState
  cases c.inSubnegotiation <;> cases c.subnegIacPending <;> rfl

theorem flagState_valid (c : TelnetLineCodec) : (flagState c).Valid := by
  unfold flagState
  cases c.inSubnegotiation <;> cases c.subnegIacPending <;> trivial

/-- The buffer left by a call that asks for more: data that this call has put
out, and an unfinished command. -/
def Waiting (budget : Nat) (buf : List UInt8) : Prop :=
  ∃ (s : Telnet.State) (bs : List UInt8), s.Valid ∧ buf = bs ++ s.tail ∧
    textWeight bs + weight s.tail ≤ budget

theorem waiting_nil (budget : Nat) : Waiting budget [] :=
  ⟨.data, [], trivial, rfl, Nat.zero_le _⟩

/-- One call: the flags stay consistent, no more is delivered than was scanned,
and so much is still there when it asks for more. -/
structure Weighed (buf : List UInt8) (a : Answer (List UInt8)) : Prop where
  flags : FlagsAgree a.state
  weight : a.delivered itemWorth + weight a.buf ≤ weight buf
  waiting : a.result = .ok none → Waiting (Codec.weight buf) a.buf

theorem decode_weighed {c : TelnetLineCodec} (hc : FlagsAgree c) (buf : List UInt8) :
    Weighed buf (decode id c buf) := by
  induction hn : buf.length using Nat.strongRecOn generalizing c buf with
  | ind n ih =>
    by_cases hbuf : buf.length ≤ c.maxBufferSize
    · have hv := Telnet.parse_valid (flagState_valid c) buf
      have hparse := parse_weight (flagState c) buf
      have hshort := c.length_stripIac_le buf
      rw [stripIac_eq_parse hc] at hshort
      rw [flagState_tail, weight_nil, Nat.zero_add] at hparse
      rw [decode_eq_answer hbuf, stripIac_eq_parse hc]
      generalize (parse (flagState c) buf).1 = s at *
      generalize (parse (flagState c) buf).2 = bs at *
      have hflags := flagsAgree_atState c s
      rcases Lines.plain_or_line bs with hplain | ⟨l, t, rest, rfl, hl, ht⟩
      · rw [answer_open _ hplain hv]
        have hle := weight_le bs
        split_ifs
        · exact ⟨hflags, by simp [Framed.Answer.delivered], fun _ => waiting_nil _⟩
        · exact ⟨hflags, by simp [Framed.Answer.delivered, itemWorth], by simp⟩
        · refine ⟨hflags, ?_, fun _ => ⟨s, bs, hv, rfl, hparse⟩⟩
          simp only [Framed.Answer.delivered, weight_append]
          omega
      · rw [answer_terminated _ hl ht hv]
        have hpos := ht.length_pos
        have hle := weight_le rest
        have hzero := textWeight_terminator ht
        simp only [textWeight_append, List.length_append] at hparse hshort
        split_ifs
        · have hrest : (rest ++ s.tail).length < n := by
            rw [List.length_append]
            omega
          have hlater := ih _ hrest (c := { atState c s with discarding := false }) hflags
            (rest ++ s.tail) rfl
          have hless : weight (rest ++ s.tail) ≤ weight buf := by
            rw [weight_append]
            omega
          refine ⟨hlater.flags, Nat.le_trans hlater.weight hless, fun hnone => ?_⟩
          obtain ⟨s', bs', hv', hbuf', hworth⟩ := hlater.waiting hnone
          exact ⟨s', bs', hv', hbuf', Nat.le_trans hworth hless⟩
        · refine ⟨hflags, ?_, by simp⟩
          simp only [Framed.Answer.delivered, itemWorth, weight_append, id]
          omega
    · rw [decode_overflow (by omega)]
      exact ⟨hc, Nat.le_of_eq (Nat.zero_add _), by simp⟩

theorem decode_conserves : Framed.Conserves itemWorth weight FlagsAgree (decode id) :=
  fun _ buf hc => ⟨(decode_weighed hc buf).flags, (decode_weighed hc buf).weight⟩

theorem textWeight_take_le (n : Nat) (bs : List UInt8) : textWeight (bs.take n) ≤ textWeight bs := by
  have hsplit := textWeight_append (bs.take n) (bs.drop n)
  rw [List.take_append_drop] at hsplit
  omega

theorem decodeEof_conserves : Framed.Conserves itemWorth weight FlagsAgree (decodeEof id) := by
  intro c buf hc
  have hdecode := decode_weighed hc buf
  unfold decodeEof
  dsimp only
  cases hr : (decode id c buf).result with
  | error e =>
    refine ⟨hdecode.flags, ?_⟩
    have hweight := hdecode.weight
    simp only [Framed.Answer.delivered, hr] at hweight ⊢
    exact hweight
  | ok o =>
    cases o with
    | some i =>
      refine ⟨hdecode.flags, ?_⟩
      have hweight := hdecode.weight
      simp only [Framed.Answer.delivered, hr] at hweight ⊢
      exact hweight
    | none =>
      obtain ⟨s, bs, hv, hbuf, hworth⟩ := hdecode.waiting hr
      dsimp only
      split_ifs
      · exact ⟨hdecode.flags, Nat.zero_le _⟩
      · exact ⟨fun _ => rfl, Nat.zero_le _⟩
      · exact ⟨hdecode.flags, Nat.zero_le _⟩
      · refine ⟨hdecode.flags, ?_⟩
        have hend := trimmedEnd_le hv bs
        have htake := textWeight_take_le (trimmedEnd (bs ++ s.tail)) bs
        simp only [Framed.Answer.delivered, itemWorth, id, weight_nil, hbuf,
          List.take_append_of_le_length hend]
        omega

/-! ### A literal left behind a line is lost -/

/-- A read within the limits that ends outside any block, or keeps no data. -/
structure ReadFits (c : TelnetLineCodec) (k : Kept) (r : List UInt8) : Prop extends Fits c k r where
  sub : (parse k.parser r).1.inSub = true → leftover (k.data r) = []

variable {c c' : TelnetLineCodec} {buf r : List UInt8} {k : Kept} {rs : List (List UInt8)}

theorem data_weight (h : Between c k c' buf) (r : List UInt8) :
    textWeight (k.data r) + weight (parse k.parser r).1.tail ≤ weight buf + weight r := by
  have hparse := parse_weight k.parser r
  have hpart := weight_eq h.clean.iac
  rw [h.buf, Kept.data, textWeight_append, weight_append]
  omega

theorem deliverFrom_le (hc : FlagsAgree c') :
    Framed.total itemWorth ((decoder id).deliverFrom c' buf rs) ≤
      weight buf + (rs.map weight).sum :=
  (decoder id).deliverFrom_conserves decode_conserves decodeEof_conserves
    (fun as bs => Nat.le_of_eq (weight_append as bs)) hc

theorem total_lines (ls : List (List UInt8)) :
    Framed.total itemWorth
        (ls.map fun l => (.ok (.line l) : Except TelnetCodecError (CodecItem (List UInt8)))) =
      (ls.map textWeight).sum := by
  rw [Framed.total, List.map_map]
  rfl

/-- A read that leaves a literal behind its first line. -/
theorem Between.unclean_read (h : Between c k c' buf) (hd : c.discarding = false)
    (hr : ReadFits c k r) (hiac : IAC ∈ leftover (k.data r)) :
    Framed.total itemWorth ((decoder id).deliverFrom c' buf (r :: rs)) <
      weight buf + weight r + (rs.map weight).sum := by
  have hv := Telnet.parse_valid h.valid r
  have hdecode := @Between.decode_eq _ id _ _ _ _ _ h hr.buffer
  have hline := hr.line
  have hdata := data_weight h r
  have hlost := weight_lt hiac
  have hflags := flagsAgree_atState c (parse k.parser r).1
  rcases Lines.plain_or_line (k.data r) with hplain | ⟨l, t, rest, hsplit, hl, ht⟩
  · rw [Lines.residue_plain hplain] at hline
    rw [leftover_plain hplain] at hlost
    have hnone := hdecode.trans (answer_plain hd hplain hv hline)
    have hlater := @deliverFrom_le _ (k.data r ++ (parse k.parser r).1.tail) rs hflags
    rw [Framed.Decoder.deliverFrom_cons_none _ hnone]
    rw [weight_append] at hlater
    omega
  · rw [hsplit] at hdecode hdata hlost
    rw [leftover_terminator hl ht] at hlost
    have hsome := hdecode.trans (answer_line hd hl ht hv)
    have hlater := @deliverFrom_le _ (rest ++ (parse k.parser r).1.tail) ([] :: rs) hflags
    have hzero := textWeight_terminator ht
    rw [Framed.Decoder.deliverFrom_cons_some _ hsome, Framed.total_cons]
    rw [List.map_cons, List.sum_cons, weight_append, weight_nil] at hlater
    simp only [textWeight_append] at hdata
    simp only [Framed.resultWorth, itemWorth, id]
    omega

/-- A run whose reads fit, but do not all take their literals. -/
theorem Between.unclean_run (h : Between c k c' buf) (hd : c.discarding = false)
    (hfits : Transducer.Along readStep (ReadFits c) k rs)
    (hiac : ¬ Transducer.Along readStep (fun k r => IAC ∉ leftover (k.data r)) k rs) :
    Framed.total itemWorth ((decoder id).deliverFrom c' buf rs) <
      weight buf + (rs.map weight).sum := by
  induction rs generalizing k c' buf with
  | nil => exact absurd trivial hiac
  | cons r rs ih =>
    rw [List.map_cons, List.sum_cons, ← Nat.add_assoc]
    by_cases hread : IAC ∈ leftover (k.data r)
    · exact h.unclean_read hd hfits.1 hread
    · have hsafe : Safe c k r := ⟨hfits.1.toFits, hread, hfits.1.sub⟩
      have hlater := ih (h.step hsafe) hfits.2 fun hrest => hiac ⟨hread, hrest⟩
      have hdata := data_weight h r
      have hlines := textWeight_lines (k.data r)
      have hres := weight_eq (h.step hsafe).clean.iac
      have htotal := total_lines (complete (k.data r))
      have hkept : weight (residue (k.data r)) = textWeight (residue (k.data r)) := hres
      rw [h.deliverFrom_cons hd hsafe, Framed.total_append]
      simp only [id]
      rw [weight_append] at hlater
      omega

/-- No literal 0xFF stays in the buffer when the first line of a read is taken off. -/
def LiteralsTaken (reads : List (List UInt8)) : Prop :=
  ∀ pre r post, reads = pre ++ r :: post → IAC ∉ leftover ((Kept.after pre.flatten).data r)

theorem weight_escape (l : List UInt8) : weight (escape l) = textWeight l := by
  induction l with
  | nil => rfl
  | cons b l ih =>
    have hcons : escape (b :: l) = escapeByte b ++ escape l := List.flatMap_cons
    have hbyte : weight (escapeByte b) = textWorth b := by
      unfold escapeByte
      split
      · rename_i hb
        rw [hb]
        decide
      · rename_i hb
        have hplain : weight [b] = textWeight [b] := weight_eq (by simpa using Ne.symm hb)
        rw [hplain, textWeight_cons, textWeight_nil, Nat.add_zero]
    rw [hcons, weight_append, hbyte, ih, textWeight_cons]

/-- The encoding is worth its lines. -/
theorem weight_encodeLines (ls : List (List UInt8)) :
    weight (encodeLines ls) = (ls.map textWeight).sum := by
  induction ls with
  | nil => rfl
  | cons l ls ih =>
    have hlf : weight [LF] = 0 := by decide
    rw [encodeLines_cons, weight_append, weight_append, weight_escape, hlf, ih, List.map_cons,
      List.sum_cons, Nat.add_zero]

theorem weight_flatten (reads : List (List UInt8)) :
    weight reads.flatten = (reads.map weight).sum := by
  induction reads with
  | nil => rfl
  | cons r rs ih => rw [List.flatten_cons, weight_append, ih, List.map_cons, List.sum_cons]

section Items
variable {maxLineLength maxBufferSize : Nat} {ls reads : List (List UInt8)}

theorem inSub_of_encoding (hreads : reads.flatten = encodeLines ls) {pre : List (List UInt8)}
    {r : List UInt8} {post : List (List UInt8)} (hsplit : reads = pre ++ r :: post) :
    (stateAfter (pre.flatten ++ r)).inSub = false := by
  have hstart : pre.flatten ++ r <+: encodeLines ls := by
    rw [← hreads, hsplit]
    exact ⟨post.flatten, by simp⟩
  exact stateAfter_of_outsideSub (outsideSub_encodeLines ls) hstart

/-- A literal left behind a line is missing from what is delivered. -/
theorem literalsTaken_of_deliver (hls : ∀ l ∈ ls, Plain l)
    (hline : ∀ l ∈ ls, (escape l).length ≤ maxLineLength)
    (hbuf : (encodeLines ls).length ≤ maxBufferSize) (hreads : reads.flatten = encodeLines ls)
    (hdeliver : (decoder id).deliver (.withLimits maxLineLength maxBufferSize) reads =
      ls.map fun l => .ok (.line l)) : LiteralsTaken reads := by
  have hfits : Transducer.Along readStep (ReadFits (.withLimits maxLineLength maxBufferSize))
      .fresh reads := by
    have hlimits := fits_reads (hreads ▸ hbuf) (hreads ▸ shortLines_encodeLines hls hline)
    rw [Transducer.along_iff] at hlimits ⊢
    intro pre r post hsplit
    refine ⟨hlimits pre r post hsplit, fun hsub => ?_⟩
    have hout := inSub_of_encoding hreads hsplit
    rw [run_readStep_fst] at hsub
    rw [Telnet.stateAfter_append] at hout
    exact absurd hsub (by simp [Kept.after, hout])
  have htotal : Framed.total itemWorth
      ((decoder id).deliver (.withLimits maxLineLength maxBufferSize) reads) =
        (reads.map weight).sum := by
    rw [hdeliver, total_lines, ← weight_encodeLines, ← hreads, weight_flatten]
  have halong : Transducer.Along readStep (fun k r => IAC ∉ leftover (k.data r)) .fresh reads := by
    by_contra hiac
    have hless := (between_fresh maxLineLength maxBufferSize).unclean_run rfl hfits hiac
    rw [weight_nil, Nat.zero_add] at hless
    exact absurd htotal (Nat.ne_of_lt hless)
  rw [Transducer.along_iff] at halong
  intro pre r post hsplit
  have hiac := halong pre r post hsplit
  rw [run_readStep_fst] at hiac
  exact hiac

theorem deliver_of_literalsTaken {Text : Type} {text : List UInt8 → Text}
    (hls : ∀ l ∈ ls, Plain l) (hline : ∀ l ∈ ls, (escape l).length ≤ maxLineLength)
    (hbuf : (encodeLines ls).length ≤ maxBufferSize) (hreads : reads.flatten = encodeLines ls)
    (htaken : LiteralsTaken reads) :
    (decoder text).deliver (.withLimits maxLineLength maxBufferSize) reads =
      ls.map fun l => .ok (.line (text l)) := by
  have hclean : CleanReads reads := by
    intro pre r post hsplit
    refine ⟨htaken pre r post hsplit, fun hsub => ?_⟩
    rw [inSub_of_encoding hreads hsplit] at hsub
    contradiction
  have hcr : CR ∉ payload reads.flatten := by
    rw [hreads, payload_encodeLines]
    exact Lines.cr_notMem_join hls Lines.plain_nil
  rw [deliver_lines hcr (hreads ▸ hbuf) (hreads ▸ shortLines_encodeLines hls hline) hclean, hreads,
    payload_encodeLines, Lines.lines_join hls Lines.plain_nil]
  simp [lastLine]

/-- The lines come back as they were if and only if no read leaves a literal 0xFF
behind its first line. -/
theorem escaped_lines_iff (hls : ∀ l ∈ ls, LF ∉ l ∧ CR ∉ l)
    (hline : ∀ l ∈ ls, (escape l).length ≤ maxLineLength)
    (hbuf : (encodeLines ls).length ≤ maxBufferSize) (hreads : reads.flatten = encodeLines ls) :
    ((decoder id).deliver (.withLimits maxLineLength maxBufferSize) reads =
        ls.map (fun l => .ok (.line l)) ↔ LiteralsTaken reads) ∧
      (LiteralsTaken reads →
        (decoder fromUtf8Lossy).deliver (.withLimits maxLineLength maxBufferSize) reads =
          ls.map fun l => .ok (.line (fromUtf8Lossy l))) :=
  ⟨⟨literalsTaken_of_deliver hls hline hbuf hreads,
    deliver_of_literalsTaken hls hline hbuf hreads⟩,
    deliver_of_literalsTaken hls hline hbuf hreads⟩

end Items

/-- The same two lines in two reads and in one. -/
theorem literalsTaken_cut :
    LiteralsTaken [[97, LF], [IAC, IAC, 98, LF]] ∧ ¬ LiteralsTaken [[97, LF, IAC, IAC, 98, LF]] := by
  have hcut := @escaped_lines_iff 10 30 [[97], [IAC, 98]] [[97, LF], [IAC, IAC, 98, LF]]
    (by decide) (by decide) (by decide) rfl
  have hwhole := @escaped_lines_iff 10 30 [[97], [IAC, 98]] [[97, LF, IAC, IAC, 98, LF]]
    (by decide) (by decide) (by decide) rfl
  exact ⟨hcut.1.mp (by decide +kernel), mt hwhole.1.mpr (by decide +kernel)⟩

/-- In one read, the second line loses its 0xFF and the byte after it. -/
theorem escaped_line_lost :
    encodeLines [[97], [IAC, 98]] = [97, LF, IAC, IAC, 98, LF] ∧
      (decoder fromUtf8Lossy).deliver (.withLimits 10 30) [[97, LF, IAC, IAC, 98, LF]] =
        [.ok (.line "a"), .ok (.line "")] ∧
      fromUtf8Lossy [IAC, 98] = "\uFFFDb" := by
  decide +kernel

end Liaozhai.Codec
