import Liaozhai.Net.Transparency

/-!
# Commands inside an over-long line

An over-long line is discarded read by read, and each time the whole buffer is
cleared, with the unfinished command that it may end in. The bytes of that command
which come later are then read as data. They do no harm as long as none of them is
a CR, an LF or an IAC: the line they fall into is discarded anyway.
-/

namespace Liaozhai.Codec

open Lines (Plain Terminator complete residue lastLine segments)
open Telnet (parse payload stateAfter)
open Utf8Lossy (fromUtf8Lossy)
set_option autoImplicit false

universe u

variable {Text : Type u} {text : List UInt8 → Text}
variable {c c' : TelnetLineCodec} {buf r more : List UInt8} {k : Kept} {s : Telnet.State}

/-- The texts of the lines among the items. -/
def lineTexts (rs : List (Except TelnetCodecError (CodecItem Text))) : List Text :=
  rs.filterMap fun
    | .ok (.line l) => some l
    | _ => none

@[simp] theorem lineTexts_append (rs rs' : List (Except TelnetCodecError (CodecItem Text))) :
    lineTexts (rs ++ rs') = lineTexts rs ++ lineTexts rs' :=
  List.filterMap_append

@[simp] theorem lineTexts_map (ls : List (List UInt8)) :
    lineTexts (ls.map fun l => .ok (.line (text l))) = ls.map text := by
  simp [lineTexts, List.filterMap_map]

/-- The bytes of an unfinished command that are still to come. -/
def commandRest : Telnet.State → List UInt8 → List UInt8
  | .negotiation _, bs => bs.take 1
  | .iac, b :: bs => b :: if isNegotiation b then bs.take 1 else []
  | _, _ => []

theorem commandRest_negotiation (verb b : UInt8) (bs : List UInt8) :
    commandRest (.negotiation verb) (b :: bs) = [b] := rfl

theorem commandRest_iac (b : UInt8) (bs : List UInt8) :
    commandRest .iac (b :: bs) = b :: if isNegotiation b then bs.take 1 else [] := rfl

/-- Bytes that neither end a line nor begin a command. -/
def Harmless (bs : List UInt8) : Prop := ∀ b ∈ bs, b ≠ LF ∧ b ≠ CR ∧ b ≠ IAC

instance (bs : List UInt8) : Decidable (Harmless bs) := inferInstanceAs (Decidable (∀ b ∈ bs, _))

theorem Harmless.plain {bs : List UInt8} (h : Harmless bs) : Plain bs :=
  ⟨fun hmem => (h LF hmem).1 rfl, fun hmem => (h CR hmem).2.1 rfl⟩

theorem parse_data_cons {b : UInt8} {bs : List UInt8} (hb : b ≠ IAC) :
    parse .data (b :: bs) = ((parse .data bs).1, b :: (parse .data bs).2) := by
  rw [Telnet.parse_cons, Telnet.step, if_neg hb]
  rfl

/-- What a read looks like to a codec that has lost the beginning of a command: the
rest of the command comes first, as data. -/
theorem parse_after_loss (hs : s.inSub = false) (hout : OutsideSub s r)
    (hrest : Harmless (commandRest s (r ++ more))) :
    ∃ lead, Harmless lead ∧ (parse .data r).2 = lead ++ (parse s r).2 ∧
      ((parse .data r).1 = (parse s r).1 ∨
        (parse .data r).1 = .data ∧ (parse s r).2 = []) := by
  have hnegotiation : ∀ verb bs, Harmless (commandRest (.negotiation verb) (bs ++ more)) →
      ∃ lead, Harmless lead ∧ (parse .data bs).2 = lead ++ (parse (.negotiation verb) bs).2 ∧
        ((parse .data bs).1 = (parse (.negotiation verb) bs).1 ∨
          (parse .data bs).1 = .data ∧ (parse (.negotiation verb) bs).2 = []) := by
    intro verb bs hrest
    cases bs with
    | nil => exact ⟨[], nofun, rfl, .inr ⟨rfl, rfl⟩⟩
    | cons b bs =>
      rw [List.cons_append, commandRest_negotiation] at hrest
      have hb := hrest b List.mem_cons_self
      rw [parse_data_cons hb.2.2]
      refine ⟨[b], ?_, rfl, .inl rfl⟩
      intro a ha
      exact List.mem_singleton.mp ha ▸ hb
  cases s with
  | data => exact ⟨[], nofun, rfl, .inl rfl⟩
  | negotiation verb => exact hnegotiation verb r hrest
  | iac =>
    cases r with
    | nil => exact ⟨[], nofun, rfl, .inr ⟨rfl, rfl⟩⟩
    | cons b bs =>
      rw [List.cons_append, commandRest_iac] at hrest
      have hb := hrest b List.mem_cons_self
      rw [parse_data_cons hb.2.2]
      by_cases hverb : isNegotiation b = true
      · have hstep : parse .iac (b :: bs) = parse (.negotiation b) bs := by
          rw [Telnet.parse_cons, Telnet.step, if_neg hb.2.2, if_pos hverb]
          rfl
        have hrest' : Harmless (commandRest (.negotiation b) (bs ++ more)) := by
          intro a ha
          rw [if_pos hverb] at hrest
          exact hrest a (List.mem_cons_of_mem _ ha)
        obtain ⟨lead, hlead, hdata, hstate⟩ := hnegotiation b bs hrest'
        rw [hstep]
        refine ⟨b :: lead, ?_, by rw [hdata]; rfl, hstate⟩
        intro a ha
        rcases List.mem_cons.mp ha with rfl | ha
        · exact hb
        · exact hlead a ha
      · have hsb : b ≠ SB := by
          rintro rfl
          simp [OutsideSub, Transducer.Along, Telnet.State.inSub] at hout
        have hstep : parse .iac (b :: bs) = parse .data bs := by
          rw [Telnet.parse_cons, Telnet.step, if_neg hb.2.2, if_neg hverb, if_neg hsb]
          rfl
        rw [hstep]
        refine ⟨[b], ?_, rfl, .inl rfl⟩
        intro a ha
        exact List.mem_singleton.mp ha ▸ hb
  | sub => cases hs
  | subIac => cases hs

/-- A stretch of a stream without subnegotiations, whose data has no IAC and no CR. -/
structure Simple (s : Telnet.State) (bs : List UInt8) : Prop where
  outside : OutsideSub s bs
  iac : IAC ∉ (parse s bs).2
  cr : CR ∉ (parse s bs).2

theorem Simple.append {as bs : List UInt8} (h : Simple s (as ++ bs)) :
    Simple s as ∧ Simple (parse s as).1 bs := by
  obtain ⟨houtside, hiac, hcr⟩ := h
  obtain ⟨hfirst, hlater⟩ := (Transducer.along_append _).mp houtside
  simp only [Telnet.parse_append, List.mem_append, not_or] at hiac hcr
  exact ⟨⟨hfirst, hiac.1, hcr.1⟩, hlater, hiac.2, hcr.2⟩

/-- A place in such a stream. -/
structure Place (k : Kept) : Prop where
  valid : k.parser.Valid
  outside : k.parser.inSub = false
  plain : Plain k.partialLine
  iac : IAC ∉ k.partialLine

theorem Place.next (h : Place k) (hr : Simple k.parser r) : Place (readStep k r).1 := by
  have hdata : IAC ∉ k.data r := by
    rw [Kept.data, List.mem_append, not_or]
    exact ⟨h.iac, hr.iac⟩
  refine ⟨Telnet.parse_valid h.valid r, ?_, Lines.plain_residue _, ?_⟩
  · exact Transducer.run_prefix_of_along Telnet.step (Q := fun s => s.inSub = false) hr.outside
      h.outside (List.prefix_refl r)
  · exact fun hmem => hdata ((Lines.residue_suffix _).subset hmem)

theorem place_fresh : Place .fresh := ⟨trivial, rfl, Lines.plain_nil, List.not_mem_nil⟩

/-- The codec while it discards a line. -/
def TelnetLineCodec.discard (c : TelnetLineCodec) : TelnetLineCodec :=
  { c with discarding := true }

@[simp] theorem TelnetLineCodec.discard_discarding (c : TelnetLineCodec) :
    c.discard.discarding = true := rfl

/-- The codec at a place: it keeps the line in progress, or has lost it. -/
inductive KeepsUp (c : TelnetLineCodec) (k : Kept) : TelnetLineCodec → List UInt8 → Prop where
  | kept : (k.partialLine ++ k.parser.tail).length ≤ c.maxBufferSize →
      (k.partialLine ++ k.parser.tail).length ≤ c.maxLineLength →
      KeepsUp c k c (k.partialLine ++ k.parser.tail)
  | lost : KeepsUp c k c.discard []

/-- A codec between commands and lines. -/
structure AtRest (c : TelnetLineCodec) : Prop where
  discarding : c.discarding = false
  inSubnegotiation : c.inSubnegotiation = false
  subnegIacPending : c.subnegIacPending = false

theorem atRest_withLimits (maxLineLength maxBufferSize : Nat) :
    AtRest (.withLimits maxLineLength maxBufferSize) := ⟨rfl, rfl, rfl⟩

theorem AtRest.atState_eq (h : AtRest c) (hs : s.inSub = false) : atState c s = c := by
  obtain ⟨_, hsub, hpending⟩ := h
  rw [atState, hs, Telnet.State.pending_eq_false hs, ← hsub]
  cases c
  simp_all

theorem Place.between (h : Place k) (hc : AtRest c)
    (hbuf : (k.partialLine ++ k.parser.tail).length ≤ c.maxBufferSize)
    (hline : (k.partialLine ++ k.parser.tail).length ≤ c.maxLineLength) :
    Between c k c (k.partialLine ++ k.parser.tail) where
  codec := (hc.atState_eq h.outside).symm
  buf := rfl
  valid := h.valid
  clean := clean_outside h.outside h.iac
  plain := h.plain
  buffer := hbuf
  line := hline

theorem afterRead_clean (text : List UInt8 → Text) {bs : List UInt8} (hc : AtRest c)
    (hs : s.inSub = false) (hv : s.Valid) (hbs : IAC ∉ bs)
    (hbuf : (bs ++ s.tail).length ≤ c.maxBufferSize) :
    (decoder text).afterRead c (bs ++ s.tail) =
      if (residue bs ++ s.tail).length ≤ c.maxLineLength then
        ⟨(complete bs).map fun l => .line (text l), none, c, residue bs ++ s.tail⟩
      else
        ⟨((complete bs).map fun l => .line (text l)) ++ [.lineTooLong], none, c.discard, []⟩ := by
  have hclean := clean_outside hs hbs
  have hcases := @Clean.afterRead_cases _ text c s bs hclean hc.discarding hv hbuf
  rw [hc.atState_eq hs] at hcases
  exact hcases

theorem keepsUp_afterRead (text : List UInt8 → Text) {bs : List UInt8} (hc : AtRest c)
    (hs : s.inSub = false) (hv : s.Valid) (hbs : IAC ∉ bs) (hbuf : (bs ++ s.tail).length ≤ c.maxBufferSize) :
    ((decoder text).afterRead c (bs ++ s.tail)).error = none ∧
      KeepsUp c ⟨s, residue bs⟩ ((decoder text).afterRead c (bs ++ s.tail)).state
        ((decoder text).afterRead c (bs ++ s.tail)).buf ∧
      lineTexts (((decoder text).afterRead c (bs ++ s.tail)).items.map .ok) =
        (complete bs).map text := by
  have hres := (Lines.residue_suffix bs).length_le
  rw [afterRead_clean text hc hs hv hbs hbuf]
  split
  · rename_i hline
    refine ⟨rfl, .kept ?_ hline, ?_⟩
    · rw [List.length_append] at hbuf ⊢
      dsimp only
      omega
    · simp [lineTexts, List.filterMap_map]
  · exact ⟨rfl, .lost, by simp [lineTexts, List.filterMap_map]⟩

/-- A read that is added to a clean buffer is parsed from where the buffer ends. -/
theorem afterRead_append (text : List UInt8 → Text) {bs : List UInt8} (hc : AtRest c)
    (hv : s.Valid) (hs : s.inSub = false) (hs' : (parse s r).1.inSub = false) (hbs : IAC ∉ bs) (hr : IAC ∉ (parse s r).2)
    (hbuf : (bs ++ s.tail ++ r).length ≤ c.maxBufferSize) :
    (decoder text).afterRead c (bs ++ s.tail ++ r) =
        (decoder text).afterRead c (bs ++ (parse s r).2 ++ (parse s r).1.tail) ∧
      (bs ++ (parse s r).2 ++ (parse s r).1.tail).length ≤ c.maxBufferSize := by
  have hclean := clean_outside hs hbs
  have hclean' : Clean (parse s r).1 (bs ++ (parse s r).2) := by
    apply clean_outside hs'
    rw [List.mem_append, not_or]
    exact ⟨hbs, hr⟩
  have hstrip := @Clean.stripIac_eq c s bs hclean hv r
  have hself := @Clean.stripIac_self c _ _ hclean' (Telnet.parse_valid hv r)
  rw [hc.atState_eq hs] at hstrip
  rw [hc.atState_eq hs'] at hstrip hself
  have hshort := c.length_stripIac_le (bs ++ s.tail ++ r)
  rw [hstrip] at hshort
  refine ⟨?_, Nat.le_trans hshort hbuf⟩
  exact Framed.drain_congr (decode_stripIac hbuf hstrip hself)

/-- A read while a line is discarded is scanned by itself. -/
theorem decode_discard (text : List UInt8 → Text) (hv : s.Valid) (htail : s.tail = [])
    (hbuf : r.length ≤ c.maxBufferSize) :
    decode text (atState c s).discard r =
        answer text (atState c (parse s r).1).discard ((parse s r).2 ++ (parse s r).1.tail) ∧
      ((parse s r).2 ++ (parse s r).1.tail).length ≤ r.length := by
  have hstrip : (atState c s).discard.stripIac r =
      ((atState c (parse s r).1).discard, (parse s r).2 ++ (parse s r).1.tail) := by
    have hclean := @Clean.stripIac_eq c.discard s [] (clean_nil s) hv r
    rw [htail] at hclean
    exact hclean
  have hanswer := @decode_eq_answer _ text (atState c s).discard r hbuf
  have hshort := (atState c s).discard.length_stripIac_le r
  rw [hstrip] at hanswer hshort
  exact ⟨hanswer, hshort⟩

/-- The line goes on. -/
theorem afterRead_discard_open (text : List UInt8 → Text) (hv : s.Valid) (htail : s.tail = [])
    (hbuf : r.length ≤ c.maxBufferSize) (hplain : Plain (parse s r).2) :
    (decoder text).afterRead (atState c s).discard r =
      ⟨[], none, (atState c (parse s r).1).discard, []⟩ :=
  Framed.drain_none ((decode_discard text hv htail hbuf).1.trans
    (answer_open _ hplain (Telnet.parse_valid hv r)))

/-- It ends, and the calls go on behind its end. -/
theorem afterRead_discard_line {l t rest : List UInt8} (text : List UInt8 → Text)
    (hd : c.discarding = false) (hv : s.Valid) (htail : s.tail = [])
    (hbuf : r.length ≤ c.maxBufferSize) (hout : (parse s r).2 = l ++ (t ++ rest)) (hl : Plain l)
    (ht : Terminator t rest) :
    (rest ++ (parse s r).1.tail).length ≤ c.maxBufferSize ∧
      (decoder text).afterRead (atState c s).discard r =
        (decoder text).afterRead (atState c (parse s r).1) (rest ++ (parse s r).1.tail) := by
  obtain ⟨hdecode, hshort⟩ := decode_discard text hv htail hbuf
  rw [hout] at hdecode hshort
  constructor
  · simp only [List.length_append] at hshort ⊢
    omega
  · have hnext : answer text (atState c (parse s r).1).discard _ = _ :=
      answer_terminated (atState c (parse s r).1).discard hl ht (Telnet.parse_valid hv r)
    rw [TelnetLineCodec.discard_discarding, if_pos rfl] at hnext
    have hback : { (atState c (parse s r).1).discard with discarding := false } =
        atState c (parse s r).1 := by
      rw [TelnetLineCodec.discard, ← hd]
      rfl
    rw [hback] at hnext
    exact Framed.drain_congr (hdecode.trans hnext)

/-- A read after a loss: the discarded line goes on, or it ends and the calls go on
behind its end. -/
theorem afterRead_lost (text : List UInt8 → Text) (hc : AtRest c) (hs : s.inSub = false)
    (hr : Simple s r) (hs' : (parse s r).1.inSub = false) (hbuf : r.length ≤ c.maxBufferSize)
    (hrest : Harmless (commandRest s (r ++ more))) :
    (Plain (parse s r).2 ∧
        (decoder text).afterRead c.discard r =
          ⟨[], none, c.discard, []⟩) ∨
      ∃ l rest, (parse s r).2 = l ++ ([LF] ++ rest) ∧ Plain l ∧
        (rest ++ (parse s r).1.tail).length ≤ c.maxBufferSize ∧
        (decoder text).afterRead c.discard r =
          (decoder text).afterRead c (rest ++ (parse s r).1.tail) := by
  obtain ⟨lead, hlead, hdata, hstate⟩ := parse_after_loss hs hr.outside hrest
  have hs'' : (parse .data r).1.inSub = false := by
    rcases hstate with hstate | ⟨hstate, _⟩
    · rw [hstate]
      exact hs'
    · rw [hstate]
      rfl
  have hfrom : atState c .data = c := hc.atState_eq rfl
  have hto : atState c (parse .data r).1 = c := hc.atState_eq hs''
  rcases Lines.plain_or_line (parse s r).2 with hplain | ⟨l, t, rest, hout, hl, ht⟩
  · have hboth : Plain (parse .data r).2 := by
      rw [hdata]
      exact Lines.plain_append.mpr ⟨hlead.plain, hplain⟩
    have hread := afterRead_discard_open (c := c) (s := .data) text trivial rfl hbuf hboth
    rw [hfrom, hto] at hread
    exact .inl ⟨hplain, hread⟩
  · obtain rfl : t = [LF] := ht.eq_lf fun hmem => hr.cr (by rw [hout]; simp [hmem])
    have hsame : (parse .data r).1 = (parse s r).1 := by
      rcases hstate with hstate | ⟨_, hnil⟩
      · exact hstate
      · rw [hnil] at hout
        simp at hout
    have hbs : (parse .data r).2 = lead ++ l ++ ([LF] ++ rest) := by
      rw [hdata, hout, List.append_assoc]
    have hlead' : Plain (lead ++ l) := Lines.plain_append.mpr ⟨hlead.plain, hl⟩
    obtain ⟨hlen, hread⟩ := afterRead_discard_line (s := .data) text hc.discarding trivial rfl hbuf
      hbs hlead' (.lf rest)
    rw [hfrom, hto, hsame] at hread
    rw [hsame] at hlen
    exact .inr ⟨l, rest, hout, hl, hlen, hread⟩

/-- A read keeps the codec in step with the stream, and delivers none but its lines. -/
theorem KeepsUp.read (h : KeepsUp c k c' buf) (text : List UInt8 → Text) (hc : AtRest c)
    (hk : Place k) (hr : Simple k.parser r) (hbuf : (buf ++ r).length ≤ c.maxBufferSize)
    (hrest : c'.discarding = true → Harmless (commandRest k.parser (r ++ more))) :
    ((decoder text).afterRead c' (buf ++ r)).error = none ∧
      KeepsUp c (readStep k r).1 ((decoder text).afterRead c' (buf ++ r)).state
        ((decoder text).afterRead c' (buf ++ r)).buf ∧
      (lineTexts (((decoder text).afterRead c' (buf ++ r)).items.map .ok)).Sublist
        ((readStep k r).2.map text) := by
  have hk' := hk.next hr
  cases h with
  | kept hbefore hline =>
    obtain ⟨hread, hlen⟩ := afterRead_append text hc hk.valid hk.outside hk'.outside hk.iac
      hr.iac hbuf
    have hiac : IAC ∉ k.data r := by
      rw [Kept.data, List.mem_append, not_or]
      exact ⟨hk.iac, hr.iac⟩
    obtain ⟨herr, hfollows, hlines⟩ := keepsUp_afterRead text hc hk'.outside hk'.valid hiac
      hlen
    have hread' : (decoder text).afterRead c (k.partialLine ++ k.parser.tail ++ r) =
        (decoder text).afterRead c (k.data r ++ (readStep k r).1.parser.tail) := hread
    rw [hread', hlines]
    exact ⟨herr, hfollows, List.Sublist.refl _⟩
  | lost =>
    rw [List.nil_append] at hbuf ⊢
    rcases afterRead_lost text hc hk.outside hr hk'.outside hbuf (hrest rfl) with
      ⟨hplain, hread⟩ | ⟨l, rest, hout, hl, hlen, hread⟩
    · rw [hread]
      exact ⟨rfl, .lost, List.nil_sublist _⟩
    · have hiac : IAC ∉ rest := fun hmem => hr.iac (by rw [hout]; simp [hmem])
      obtain ⟨herr, hfollows, hlines⟩ := keepsUp_afterRead text hc hk'.outside hk'.valid
        hiac hlen
      have hdata : k.data r = k.partialLine ++ l ++ ([LF] ++ rest) := by
        rw [Kept.data, hout, List.append_assoc]
      have hfirst : Plain (k.partialLine ++ l) := Lines.plain_append.mpr ⟨hk.plain, hl⟩
      have hread' : (decoder text).afterRead c.discard r =
          (decoder text).afterRead c (rest ++ (readStep k r).1.parser.tail) := hread
      have hresidue : (readStep k r).1 = ⟨(readStep k r).1.parser, residue rest⟩ := by
        rw [readStep, hdata, Lines.residue_terminator hfirst (.lf rest)]
      have hcomplete : (readStep k r).2 = (k.partialLine ++ l) :: complete rest := by
        rw [readStep, hdata, Lines.complete_terminator hfirst (.lf rest)]
      rw [hread', hlines, hcomplete, List.map_cons]
      refine ⟨herr, ?_, List.sublist_cons_self _ _⟩
      rw [hresidue]
      exact hfollows

/-- A discard ends with the input, and its line has had its item. -/
theorem afterEof_discard (c : TelnetLineCodec) :
    ((decoder text).afterEof c.discard []).results = [] := by
  have hnone : decodeEof text c.discard [] =
      ⟨.ok none, { c.discard with discarding := false }, []⟩ := by
    simp only [decodeEof, decode_nil_discarding c.discard_discarding, true_or, if_true]
  rw [(decoder text).afterEof_none hnone]
  rfl

theorem KeepsUp.eof (h : KeepsUp c k c' buf) (hc : AtRest c) (hk : Place k) :
    (lineTexts ((decoder text).afterEof c' buf).results).Sublist [text k.partialLine] := by
  cases h with
  | kept hbuf hline =>
    have hbetween := hk.between hc hbuf hline
    rw [hbetween.afterEof_results hc.discarding, lineTexts_map, lastLine]
    split
    · exact List.nil_sublist _
    · exact List.Sublist.refl _
  | lost =>
    rw [afterEof_discard]
    exact List.nil_sublist _

/-- Wherever the codec discards a line between two reads and the stream is inside a
command there, the rest of the command is harmless. -/
def KeepsCommands (text : List UInt8 → Text) (c : TelnetLineCodec) (reads : List (List UInt8)) :
    Prop :=
  ∀ n ≤ reads.length, ((decoder text).afterReads c [] (reads.take n)).state.discarding = true →
    Harmless (commandRest (stateAfter (reads.take n).flatten) (reads.drop n).flatten)

instance (text : List UInt8 → Text) (c : TelnetLineCodec) (reads : List (List UInt8)) :
    Decidable (KeepsCommands text c reads) :=
  inferInstanceAs (Decidable (∀ n ≤ reads.length, _))

theorem lineTexts_deliverFrom (text : List UInt8 → Text) {reads : List (List UInt8)}
    (h : KeepsUp c k c' buf) (hc : AtRest c) (hk : Place k) (hstream : Simple k.parser reads.flatten)
    (hrest : ∀ pre post, reads = pre ++ post →
      ((decoder text).afterReads c' buf pre).state.discarding = true →
        Harmless (commandRest (parse k.parser pre.flatten).1 post.flatten)) :
    (lineTexts ((decoder text).deliverFrom c' buf reads)).Sublist
      ((segments (k.partialLine ++ (parse k.parser reads.flatten).2)).map text) := by
  induction reads generalizing k c' buf with
  | nil =>
    rw [(decoder text).deliverFrom_nil]
    have hsegments : segments (k.partialLine ++ (parse k.parser ([] : List (List UInt8)).flatten).2) =
        [k.partialLine] := by
      rw [List.flatten_nil, Telnet.parse_nil, List.append_nil, segments,
        Lines.complete_plain hk.plain, Lines.residue_plain hk.plain]
      rfl
    rw [hsegments]
    exact h.eof hc hk
  | cons r rs ih =>
    rw [List.flatten_cons] at hstream
    obtain ⟨hr, hrs⟩ := hstream.append
    by_cases hbuf : (buf ++ r).length ≤ c.maxBufferSize
    · obtain ⟨herr, hfollows, hlines⟩ := h.read text hc hk hr hbuf (hrest [] (r :: rs) rfl)
      have hlater := ih hfollows (hk.next hr) hrs <| by
        rintro pre post rfl hdisc
        have hstate := hrest (r :: pre) post rfl
        rw [(decoder text).afterReads_cons herr, List.flatten_cons, Telnet.parse_append] at hstate
        exact hstate hdisc
      have hcr : CR ∉ k.data r := by
        rw [Kept.data, List.mem_append, not_or]
        exact ⟨hk.plain.2, hr.cr⟩
      have hsegments : segments (k.partialLine ++ (parse k.parser (r :: rs).flatten).2) =
          (readStep k r).2 ++ segments ((readStep k r).1.partialLine ++
            (parse (readStep k r).1.parser rs.flatten).2) := by
        rw [List.flatten_cons, Telnet.parse_append, ← List.append_assoc, segments, segments]
        change complete (k.data r ++ _) ++ [residue (k.data r ++ _)] = _
        rw [Lines.complete_append hcr, Lines.residue_append, List.append_assoc]
        rfl
      rw [(decoder text).deliverFrom_cons herr, lineTexts_append, hsegments, List.map_append]
      exact hlines.append hlater
    · have hmax : c'.maxBufferSize = c.maxBufferSize := by
        cases h with
        | kept _ _ => rfl
        | lost => rfl
      have hover := @decode_overflow _ text c' (buf ++ r) (by omega)
      have hread : (decoder text).afterRead c' (buf ++ r) = _ := Framed.drain_error hover
      rw [(decoder text).deliverFrom_cons_error (by rw [hread]), hread]
      exact List.nil_sublist _

section Commands
variable {maxLineLength maxBufferSize : Nat} {pieces : List (Piece Command)}
  {reads : List (List UInt8)}

/-- A stream of data and commands is simple. -/
theorem simple_streamOf (hcr : CR ∉ dataOf pieces) (hiac : IAC ∉ dataOf pieces)
    (hreads : reads.flatten = streamOf Command.bytes pieces) :
    Simple Kept.fresh.parser reads.flatten := by
  have hparse : parse .data reads.flatten = (.data, dataOf pieces) := by
    rw [hreads, parse_streamOf Command.parse_bytes hiac]
  refine ⟨hreads ▸ outsideSub_streamOf hiac, ?_, ?_⟩
  · rw [Kept.fresh, hparse]
    exact hiac
  · rw [Kept.fresh, hparse]
    exact hcr

/-- Commands inserted anywhere, lines of any length and reads cut anywhere: the lines
delivered are some of the segments, in order, if no rest of a command that a discard
has cut off can end a line or begin a command. -/
theorem overlong_lines_sublist (hcr : CR ∉ dataOf pieces) (hiac : IAC ∉ dataOf pieces)
    (hreads : reads.flatten = streamOf Command.bytes pieces)
    (hrest : KeepsCommands fromUtf8Lossy (.withLimits maxLineLength maxBufferSize) reads) :
    (lineTexts ((decoder fromUtf8Lossy).deliver (.withLimits maxLineLength maxBufferSize)
      reads)).Sublist ((segments (dataOf pieces)).map fromUtf8Lossy) := by
  have hfollows : KeepsUp (.withLimits maxLineLength maxBufferSize) .fresh
      (.withLimits maxLineLength maxBufferSize) [] :=
    .kept (Nat.zero_le _) (Nat.zero_le _)
  have hcut : ∀ pre post, reads = pre ++ post →
      ((decoder fromUtf8Lossy).afterReads (.withLimits maxLineLength maxBufferSize) []
          pre).state.discarding = true → Harmless (commandRest (parse .data pre.flatten).1 post.flatten) := by
    rintro pre post rfl hdisc
    have hat := hrest pre.length (by simp)
    rw [List.take_left, List.drop_left] at hat
    exact hat hdisc
  have hlines := lineTexts_deliverFrom fromUtf8Lossy hfollows (atRest_withLimits _ _) place_fresh
    (simple_streamOf hcr hiac hreads) hcut
  rw [Kept.fresh, hreads, parse_streamOf Command.parse_bytes hiac] at hlines
  exact hlines

end Commands

/-- Four bytes of a line come with the beginning of a command, and the limit is three. -/
theorem overlong_lines_cutCommand :
    lineTexts ((decoder fromUtf8Lossy).deliver (.withLimits 3 30)
      [[104, 101, 108, 108, IAC, WILL], [1, 111, LF, 104, 105]]) = ["hi"] ∧
    ["hi"].Sublist ([[104, 101, 108, 108, 111], [104, 105]].map fromUtf8Lossy) := by
  have hlines := @overlong_lines_sublist 3 30
    [.byte 104, .byte 101, .byte 108, .byte 108, .inserted (.negotiation WILL 1 (by decide)),
      .byte 111, .byte LF, .byte 104, .byte 105]
    [[104, 101, 108, 108, IAC, WILL], [1, 111, LF, 104, 105]]
    (by decide) (by decide) rfl (by decide +kernel)
  have hdelivered : lineTexts ((decoder fromUtf8Lossy).deliver (.withLimits 3 30)
      [[104, 101, 108, 108, IAC, WILL], [1, 111, LF, 104, 105]]) = ["hi"] := by
    decide +kernel
  rw [hdelivered] at hlines
  exact ⟨hdelivered, hlines⟩

/-- The same line, where the option byte of the command is an LF. -/
def lfOption : List (Piece Command) :=
  [.byte 104, .byte 101, .byte 108, .byte 108, .inserted (.negotiation WILL LF (by decide)),
    .byte 111, .byte LF]

/-- The option byte ends the discarded line, and what remains of the segment is
delivered as a line. -/
theorem option_ends_discard :
    streamOf Command.bytes lfOption = [[104, 101, 108, 108, IAC, WILL], [LF, 111, LF]].flatten ∧
    CR ∉ dataOf lfOption ∧ IAC ∉ dataOf lfOption ∧
    lineTexts ((decoder fromUtf8Lossy).deliver (.withLimits 3 30)
      [[104, 101, 108, 108, IAC, WILL], [LF, 111, LF]]) = ["o"] ∧
    ¬ ["o"].Sublist ((segments (dataOf lfOption)).map fromUtf8Lossy) := by
  refine ⟨rfl, ?_, ?_, ?_, ?_⟩
  · decide
  · decide
  · decide +kernel
  · decide +kernel

end Liaozhai.Codec
