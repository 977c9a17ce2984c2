import Liaozhai.Net.Transparency

/-!
# Subnegotiation blocks between data bytes

A read may end inside a block while the buffer still holds data from before the
block. The next call scans that data with the codec inside the block, and drops
it. Without such a read the blocks are transparent. With one, less is delivered
than was sent: the mass of a run, one for each byte and each line end, can only
fall when a prefix of the data is missing.
-/

namespace Liaozhai.Codec

open Lines (Plain Terminator complete residue lines lastLine segments)
open Telnet (parse payload stateAfter)
open Utf8Lossy (fromUtf8Lossy)
set_option autoImplicit false

structure Block where
  content : List UInt8
  free : IAC ∉ content

def Block.bytes (q : Block) : List UInt8 := [IAC, SB] ++ q.content ++ [IAC, SE]

theorem parse_sub {bs : List UInt8} (h : IAC ∉ bs) : parse .sub bs = (.sub, []) := by
  induction bs with
  | nil => rfl
  | cons b bs ih =>
    rw [List.mem_cons, not_or] at h
    rw [Telnet.parse_cons, Telnet.step, if_neg (Ne.symm h.1), ih h.2]
    rfl

theorem Block.parse_bytes (q : Block) : parse .data q.bytes = (.data, []) := by
  have hopen : parse .data [IAC, SB] = (.sub, []) := rfl
  have hclose : parse .sub [IAC, SE] = (.data, []) := rfl
  rw [Block.bytes, Telnet.parse_append, Telnet.parse_append, hopen, parse_sub q.free, hclose]
  rfl

/-- No read ends inside a block with data behind its first line. -/
def NothingBehind (reads : List (List UInt8)) : Prop :=
  ∀ pre r post, reads = pre ++ r :: post → (stateAfter (pre.flatten ++ r)).inSub = true →
    leftover ((Kept.after pre.flatten).data r) = []

/-! ### A parser that is still inside a block -/

/-- Outside a block, only `IAC SB` follows. -/
def OnlyBlocks : Telnet.State → List UInt8 → Prop :=
  Transducer.Along Telnet.step fun s b => s = .iac → b = SB

/-- `q` is inside a block that `s` has left, or is about to leave. -/
inductive Lags : Telnet.State → Telnet.State → Prop where
  | left : Lags .sub .data
  | opening : Lags .subIac .iac
  | closing : Lags .sub .subIac

/-- What the lagging parser still puts out is the end of what it should. -/
theorem Lags.suffix {q s : Telnet.State} (h : Lags q s) {bs : List UInt8} (hs : OnlyBlocks s bs) :
    OnlyBlocks q bs ∧ (parse q bs).2 <:+ (parse s bs).2 := by
  induction bs generalizing q s with
  | nil => exact ⟨trivial, List.suffix_refl _⟩
  | cons b bs ih =>
    obtain ⟨hnow, hlater⟩ := hs
    rw [Telnet.parse_cons, Telnet.parse_cons]
    cases h with
    | left =>
      by_cases hb : b = IAC
      · subst hb
        obtain ⟨honly, hsuffix⟩ := ih .opening hlater
        exact ⟨⟨by simp, honly⟩, hsuffix⟩
      · have hsub : Telnet.step .sub b = (.sub, []) := by simp [Telnet.step, hb]
        have hdata : Telnet.step .data b = (.data, [b]) := by simp [Telnet.step, hb]
        rw [hdata] at hlater
        obtain ⟨honly, hsuffix⟩ := ih .left hlater
        refine ⟨⟨by simp, ?_⟩, ?_⟩
        · rw [hsub]
          exact honly
        · rw [hsub, hdata]
          exact hsuffix.trans (List.suffix_cons _ _)
    | opening =>
      obtain rfl := hnow rfl
      exact ⟨⟨by simp, hlater⟩, List.suffix_refl _⟩
    | closing =>
      by_cases hse : b = SE
      · subst hse
        obtain ⟨honly, hsuffix⟩ := ih .left hlater
        exact ⟨⟨by simp, honly⟩, hsuffix⟩
      · have hsame : Telnet.step .subIac b = Telnet.step .sub b := by
          simp [Telnet.step, hse]
        rw [hsame] at hlater ⊢
        exact ⟨⟨by simp, hlater⟩, List.suffix_refl _⟩

/-! ### Mass -/

/-- One for each byte of a line and one for its end. -/
def mass (ls : List (List UInt8)) : Nat := (ls.map fun l => l.length + 1).sum

def itemMass : CodecItem (List UInt8) → Nat
  | .line l => l.length + 1
  | .lineTooLong => 0

@[simp] theorem mass_nil : mass [] = 0 := rfl

@[simp] theorem mass_cons (l : List UInt8) (ls : List (List UInt8)) :
    mass (l :: ls) = l.length + 1 + mass ls := by
  simp [mass]

@[simp] theorem mass_append (ls ls' : List (List UInt8)) : mass (ls ++ ls') = mass ls + mass ls' := by
  simp [mass]

theorem total_mass (ls : List (List UInt8)) :
    Framed.total itemMass
        (ls.map fun l => (.ok (.line l) : Except TelnetCodecError (CodecItem (List UInt8)))) =
      mass ls := by
  rw [Framed.total, List.map_map]
  rfl

/-- One more byte in front, one more in the lines. -/
theorem mass_lines_cons {b : UInt8} (hcr : b ≠ CR) (bs : List UInt8) :
    mass (lines bs) < mass (lines (b :: bs)) := by
  by_cases hlf : b = LF
  · have hline : lines ([] ++ ([LF] ++ bs)) = [] :: lines bs :=
      Lines.lines_terminator Lines.plain_nil (.lf bs)
    rw [hlf]
    change _ < mass (lines ([] ++ ([LF] ++ bs)))
    rw [hline, mass_cons]
    omega
  · have hplain : ∀ {l}, Plain l → Plain (b :: l) := by
      intro l hl
      exact ⟨by simp [Ne.symm hlf, hl.1], by simp [Ne.symm hcr, hl.2]⟩
    rcases Lines.plain_or_line bs with hbs | ⟨l, t, rest, rfl, hl, ht⟩
    · rw [Lines.lines_plain hbs, Lines.lines_plain (hplain hbs)]
      unfold lastLine
      split
      · simp
      · simp
    · rw [← List.cons_append, Lines.lines_terminator hl ht, Lines.lines_terminator (hplain hl) ht]
      simp

theorem mass_lines_suffix {bs' bs : List UInt8} (h : bs' <:+ bs) (hcr : CR ∉ bs) :
    mass (lines bs') ≤ mass (lines bs) := by
  obtain ⟨as, rfl⟩ := h
  induction as with
  | nil => exact Nat.le_refl _
  | cons a as ih =>
    rw [List.cons_append, List.mem_cons, not_or] at hcr
    exact Nat.le_trans (ih hcr.2) (Nat.le_of_lt (mass_lines_cons (Ne.symm hcr.1) _))

theorem mass_lines_lt {as bs : List UInt8} (has : as ≠ []) (hcr : CR ∉ as ++ bs) :
    mass (lines bs) < mass (lines (as ++ bs)) := by
  obtain ⟨a, as', rfl⟩ := List.exists_cons_of_ne_nil has
  rw [List.cons_append, List.mem_cons, not_or] at hcr
  exact Nat.lt_of_le_of_lt (mass_lines_suffix (List.suffix_append as' bs) hcr.2)
    (mass_lines_cons (Ne.symm hcr.1) _)

/-- A missing start cannot make the unterminated rest longer. -/
theorem residue_length_suffix {bs' bs : List UInt8} (h : bs' <:+ bs) :
    (residue bs').length ≤ (residue bs).length := by
  obtain ⟨as, rfl⟩ := h
  have has := Lines.plain_residue as
  rw [Lines.residue_append]
  rcases Lines.plain_or_line bs' with hbs | ⟨l, t, rest, rfl, hl, ht⟩
  · rw [Lines.residue_plain hbs, Lines.residue_plain (Lines.plain_append.mpr ⟨has, hbs⟩)]
    simp
  · rewrite [Lines.residue_terminator hl ht, ← List.append_assoc,
      Lines.residue_terminator (Lines.plain_append.mpr ⟨has, hl⟩) ht]
    exact Nat.le_refl _

/-! ### Reads that end inside a block -/

/-- The data still to come, from a configuration between two reads. -/
def Kept.rest (k : Kept) (stream : List UInt8) : List UInt8 :=
  k.partialLine ++ (parse k.parser stream).2

/-- What the rest of a run may rely on: the limits hold, only blocks are inserted,
and the data has none of the bytes that are excluded. -/
structure Remaining (c : TelnetLineCodec) (k : Kept) (stream : List UInt8) : Prop where
  buffer : (k.partialLine ++ k.parser.tail ++ stream).length ≤ c.maxBufferSize
  line : ∀ pre, pre <+: stream → (residue (k.rest pre)).length + 2 ≤ c.maxLineLength
  blocks : OnlyBlocks k.parser stream
  noCr : CR ∉ k.rest stream
  noIac : IAC ∉ k.rest stream
  noSe : SE ∉ k.rest stream

variable {c c' : TelnetLineCodec} {buf r : List UInt8} {k : Kept} {rs : List (List UInt8)}
variable {stream : List UInt8}

theorem Kept.rest_append (k : Kept) (r stream : List UInt8) :
    k.rest (r ++ stream) = k.data r ++ (parse (parse k.parser r).1 stream).2 := by
  rw [Kept.rest, Telnet.parse_append, Kept.data, List.append_assoc]

theorem Remaining.noCr_data (h : Remaining c k (r ++ stream)) : CR ∉ k.data r := by
  intro hmem
  apply h.noCr
  rw [Kept.rest_append]
  exact List.mem_append_left _ hmem

theorem Remaining.fits (h : Remaining c k (r ++ stream)) : Fits c k r where
  buffer := by
    have hbuf := h.buffer
    simp only [List.length_append] at hbuf ⊢
    omega
  line := by
    have hline := h.line r (List.prefix_append r stream)
    have htail := Telnet.length_tail_le (parse k.parser r).1
    rw [List.length_append]
    change (residue (k.rest r)).length + _ ≤ _
    omega

/-- After a read: the parser where it should be, or behind with an empty buffer. -/
inductive Follows (s : Telnet.State) (bs : List UInt8) : Kept → Prop where
  | kept {p : List UInt8} : p <:+ bs → Follows s bs ⟨s, p⟩
  | lost {q : Telnet.State} : Lags q s → Follows s bs ⟨q, []⟩

theorem Follows.mono {s : Telnet.State} {bs : List UInt8} {k' : Kept} (h : Follows s [] k') :
    Follows s bs k' := by
  cases h with
  | kept hp => exact .kept (hp.trans List.nil_suffix)
  | lost hlags => exact .lost hlags

theorem Follows.rest_suffix {s : Telnet.State} {bs : List UInt8} {k' : Kept} (h : Follows s bs k')
    (hblocks : OnlyBlocks s stream) : k'.rest stream <:+ bs ++ (parse s stream).2 := by
  cases h with
  | kept hp =>
    obtain ⟨as, rfl⟩ := hp
    rw [List.append_assoc]
    exact List.suffix_append _ _
  | lost hlags => exact (hlags.suffix hblocks).2.trans (List.suffix_append _ _)

theorem Follows.onlyBlocks {s : Telnet.State} {bs : List UInt8} {k' : Kept} (h : Follows s bs k')
    (hblocks : OnlyBlocks s stream) : OnlyBlocks k'.parser stream := by
  cases h with
  | kept hp => exact hblocks
  | lost hlags => exact (hlags.suffix hblocks).1

theorem Remaining.next (h : Remaining c k (r ++ stream)) {k' : Kept}
    (hk : Follows (parse k.parser r).1 (k.data r) k')
    (hbuf : (k'.partialLine ++ k'.parser.tail).length ≤
      (k.partialLine ++ k.parser.tail ++ r).length) : Remaining c k' stream := by
  have hboth := (Transducer.along_append Telnet.step).mp h.blocks
  have hblocks : OnlyBlocks (parse k.parser r).1 stream := hboth.2
  have hrest := hk.rest_suffix hblocks
  rw [← Kept.rest_append] at hrest
  constructor
  · have hmax := h.buffer
    simp only [List.length_append] at hmax hbuf ⊢
    omega
  · intro pre hpre
    obtain ⟨post, rfl⟩ := hpre
    have hpre := hk.rest_suffix ((Transducer.along_append Telnet.step).mp hblocks).1
    rw [← Kept.rest_append] at hpre
    have hless := residue_length_suffix hpre
    have hmax := h.line (r ++ pre) ⟨post, List.append_assoc _ _ _⟩
    omega
  · exact hk.onlyBlocks hblocks
  · exact fun hmem => h.noCr (hrest.subset hmem)
  · exact fun hmem => h.noIac (hrest.subset hmem)
  · exact fun hmem => h.noSe (hrest.subset hmem)

theorem flagState_atState {s : Telnet.State} (hs : s.inSub = true) : flagState (atState c s) = s :=
  Telnet.State.resume_of_inSub hs

/-- Retained data that is scanned inside a block. -/
theorem parse_retained {s : Telnet.State} (hs : s.inSub = true) {bs : List UInt8} (hbs : bs ≠ [])
    (hiac : IAC ∉ bs) (hse : SE ∉ bs) : parse s bs = (.sub, []) := by
  cases s with
  | sub => exact parse_sub hiac
  | subIac =>
    obtain ⟨b, bs, rfl⟩ := List.exists_cons_of_ne_nil hbs
    rw [List.mem_cons, not_or] at hiac hse
    rw [Telnet.parse_cons, Telnet.step, if_neg (Ne.symm hse.1), if_neg (Ne.symm hiac.1),
      parse_sub hiac.2]
    rfl
  | _ => simp [Telnet.State.inSub] at hs

theorem decode_retained {s : Telnet.State} (hs : s.inSub = true) {bs : List UInt8} (hbs : bs ≠ [])
    (hiac : IAC ∉ bs) (hse : SE ∉ bs) (hbuf : (bs ++ r).length ≤ c.maxBufferSize) :
    decode id (atState c s) (bs ++ r) = decode id (atState c .sub) r := by
  have hr : r.length ≤ c.maxBufferSize := by
    rw [List.length_append] at hbuf
    omega
  have hparse : parse s (bs ++ r) = parse .sub r := by
    rw [Telnet.parse_append, parse_retained hs hbs hiac hse]
    rfl
  rw [@decode_eq_answer _ id (atState c s) _ hbuf, @decode_eq_answer _ id (atState c .sub) _ hr,
    stripIac_eq_parse (flagsAgree_atState c s), stripIac_eq_parse (flagsAgree_atState c .sub),
    flagState_atState hs, flagState_atState rfl, hparse]
  rfl

/-- Data retained inside a block is never delivered. -/
theorem deliverFrom_retained {s : Telnet.State} (hs : s.inSub = true) {bs : List UInt8}
    (hbs : bs ≠ []) (hiac : IAC ∉ bs) (hse : SE ∉ bs)
    (hbuf : (bs ++ rs.flatten).length ≤ c.maxBufferSize) :
    (decoder id).deliverFrom (atState c s) bs rs = (decoder id).deliverFrom (atState c .sub) [] rs := by
  cases rs with
  | nil =>
    have hdecode := decode_retained (r := []) hs hbs hiac hse hbuf
    rw [List.append_nil] at hdecode
    have heof : decodeEof id (atState c s) bs = decodeEof id (atState c .sub) [] := by
      rw [decodeEof, decodeEof, hdecode]
    have hdrain : (decoder id).afterEof (atState c s) bs =
        (decoder id).afterEof (atState c .sub) [] := Framed.drain_congr heof
    rw [(decoder id).deliverFrom_nil, (decoder id).deliverFrom_nil, hdrain]
  | cons r rs =>
    apply (decoder id).deliverFrom_cons_congr
    apply decode_retained hs hbs hiac hse
    simp only [List.flatten_cons, List.length_append] at hbuf ⊢
    omega

theorem deliverFrom_empty_read (hd : c.discarding = false) (s : Telnet.State) :
    (decoder id).deliverFrom (atState c s) [] ([] :: rs) =
      (decoder id).deliverFrom (atState c s) [] rs := by
  apply (decoder id).deliverFrom_cons_none
  change decode id (atState c s) [] = _
  have hstrip : (atState c s).stripIac [] = (atState c s, []) := rfl
  rw [decode_eq_answer (Nat.zero_le _), hstrip]
  simp [answer, findLineTerminator, hd]

/-- A read that is not clean: its first line is delivered, and the codec goes on
inside the block with an empty buffer. -/
theorem Between.lost_read (h : Between c k c' buf) (hd : c.discarding = false)
    (hr : Remaining c k (r ++ rs.flatten))
    (hclean : ¬ Clean (parse k.parser r).1 (leftover (k.data r))) :
    leftover (k.data r) ≠ [] ∧ Follows (parse k.parser r).1 [] ⟨.sub, []⟩ ∧
      ∃ ls, (∀ bs, lines (k.data r ++ bs) = ls ++ lines (leftover (k.data r) ++ bs)) ∧
        (decoder id).deliverFrom c' buf (r :: rs) =
          ls.map (fun l => .ok (.line l)) ++ (decoder id).deliverFrom (atState c .sub) [] rs := by
  have hsub : leftover (k.data r) ⊆ k.rest (r ++ rs.flatten) := by
    rw [Kept.rest_append]
    exact List.Subset.trans (leftover_suffix _).subset (List.subset_append_left _ _)
  have hiac : IAC ∉ leftover (k.data r) := fun hmem => hr.noIac (hsub hmem)
  have hse : SE ∉ leftover (k.data r) := fun hmem => hr.noSe (hsub hmem)
  have hcr := hr.noCr_data
  have hin : (parse k.parser r).1.inSub = true ∧ leftover (k.data r) ≠ [] := by
    by_contra hnot
    exact hclean ⟨hiac, fun hs => by_contra fun hne => hnot ⟨hs, hne⟩⟩
  obtain ⟨hs, hne⟩ := hin
  have hfollows : Follows (parse k.parser r).1 [] ⟨.sub, []⟩ := by
    cases hstate : (parse k.parser r).1 with
    | sub => exact .kept List.nil_suffix
    | subIac => exact .lost .closing
    | _ => simp [hstate, Telnet.State.inSub] at hs
  have hv := Telnet.parse_valid h.valid r
  have htail := Telnet.State.tail_of_inSub hs
  have hdata := h.data_length r
  have hmax := hr.buffer
  have hline := hr.fits.line
  have hdecode := @Between.decode_eq _ id _ _ _ _ _ h hr.fits.buffer
  simp only [htail, List.append_nil, List.length_append] at hdata hmax hline hdecode
  refine ⟨hne, hfollows, ?_⟩
  rcases Lines.plain_or_line (k.data r) with hplain | ⟨l, t, rest, hsplit, hl, ht⟩
  · have hnone : decode id c' (buf ++ r) =
        ⟨.ok none, atState c (parse k.parser r).1, k.data r⟩ := by
      have hanswer := @answer_plain _ id (atState c (parse k.parser r).1) _ _ hd hplain hv
      simp only [htail, List.append_nil, Lines.residue_plain hplain] at hanswer hline
      exact hdecode.trans (hanswer hline)
    rw [leftover_plain hplain] at hne hiac hse ⊢
    refine ⟨[], fun bs => rfl, ?_⟩
    rw [(decoder id).deliverFrom_cons_none hnone]
    exact deliverFrom_retained hs hne hiac hse (by rw [List.length_append]; omega)
  · rw [hsplit] at hdata hdecode hcr hne hiac hse ⊢
    rw [leftover_terminator hl ht] at hne hiac hse ⊢
    obtain rfl : t = [LF] := ht.eq_lf fun hmem => hcr (by simp [hmem])
    have hsome : decode id c' (buf ++ r) =
        ⟨.ok (some (.line l)), atState c (parse k.parser r).1, rest⟩ := by
      have hanswer := @answer_line _ id (atState c (parse k.parser r).1) _ _ _ _ hd hl ht hv
      simp only [htail, List.append_nil] at hanswer
      exact hdecode.trans hanswer
    refine ⟨[l], fun bs => ?_, ?_⟩
    · rw [List.append_assoc, List.append_assoc, Lines.lines_terminator hl (.lf _)]
      rfl
    · simp only [List.length_append] at hdata
      rw [(decoder id).deliverFrom_cons_some hsome,
        deliverFrom_retained hs hne hiac hse
          (by simp only [List.flatten_cons, List.length_append, List.length_nil]; omega),
        deliverFrom_empty_read hd]
      rfl

theorem between_sub : Between c ⟨.sub, []⟩ (atState c .sub) [] where
  codec := rfl
  buf := rfl
  valid := trivial
  clean := clean_nil _
  plain := Lines.plain_nil
  buffer := Nat.zero_le _
  line := Nat.zero_le _

def CleanStep (k : Kept) (r : List UInt8) : Prop :=
  Clean (parse k.parser r).1 (leftover (k.data r))

/-- No run delivers more mass than there is to come, and one with a read that is
not clean delivers less. -/
theorem Between.mass_le (h : Between c k c' buf) (hd : c.discarding = false)
    (hr : Remaining c k rs.flatten) :
    Framed.total itemMass ((decoder id).deliverFrom c' buf rs) ≤ mass (lines (k.rest rs.flatten)) ∧
      (¬ Transducer.Along readStep CleanStep k rs →
        Framed.total itemMass ((decoder id).deliverFrom c' buf rs) <
          mass (lines (k.rest rs.flatten))) := by
  induction rs generalizing k c' buf with
  | nil =>
    have hlast : lines (k.rest []) = lastLine k.partialLine := by
      rw [Kept.rest, Telnet.parse_nil, List.append_nil, Lines.lines_plain h.plain]
    have htotal := total_mass (lastLine k.partialLine)
    rw [(decoder id).deliverFrom_nil, h.afterEof_results hd, List.flatten_nil, hlast]
    simp only [id]
    exact ⟨Nat.le_of_eq htotal, fun hnot => absurd trivial hnot⟩
  | cons r rs ih =>
    rw [List.flatten_cons] at hr ⊢
    by_cases hclean : CleanStep k r
    · have hsafe : Safe c k r := ⟨hr.fits, hclean⟩
      have hshort := h.data_length r
      have hres := (Lines.residue_suffix (k.data r)).length_le
      have hnext : Remaining c (readStep k r).1 rs.flatten := by
        apply hr.next (.kept (Lines.residue_suffix (k.data r)))
        simp only [List.length_append] at hshort ⊢
        omega
      have hcr := hr.noCr_data
      have hlines : lines (k.rest (r ++ rs.flatten)) =
          complete (k.data r) ++ lines ((readStep k r).1.rest rs.flatten) := by
        rw [Kept.rest_append, lines, Lines.complete_append hcr, Lines.residue_append,
          List.append_assoc]
        rfl
      obtain ⟨hle, hlt⟩ := ih (h.step hsafe) hnext
      have htotal := total_mass (complete (k.data r))
      rw [h.deliverFrom_cons hd hsafe, Framed.total_append, hlines, mass_append]
      simp only [id]
      refine ⟨by omega, fun hnot => ?_⟩
      have hless := hlt fun hrest => hnot ⟨hclean, hrest⟩
      omega
    · obtain ⟨hne, hfollows, ls, hlines, hdeliver⟩ := h.lost_read hd hr hclean
      have hnext : Remaining c ⟨.sub, []⟩ rs.flatten := hr.next hfollows.mono (Nat.zero_le _)
      have hrest : Kept.rest ⟨.sub, []⟩ rs.flatten <:+ (parse (parse k.parser r).1 rs.flatten).2 :=
        hfollows.rest_suffix ((Transducer.along_append Telnet.step).mp hr.blocks).2
      have hcr : CR ∉ leftover (k.data r) ++ (parse (parse k.parser r).1 rs.flatten).2 := by
        intro hmem
        apply hr.noCr
        rw [Kept.rest_append]
        rcases List.mem_append.mp hmem with hold | hnew
        · exact List.mem_append_left _ ((leftover_suffix _).subset hold)
        · exact List.mem_append_right _ hnew
      have hmass := mass_lines_suffix hrest fun hmem => hcr (List.mem_append_right _ hmem)
      have hlost := mass_lines_lt hne hcr
      have hlater := (ih between_sub hnext).1
      have htotal := total_mass ls
      rw [hdeliver, Framed.total_append, Kept.rest_append, hlines, mass_append]
      constructor
      · omega
      · intro _
        omega

/-! ### Streams with blocks -/

theorem Block.onlyBlocks (q : Block) : OnlyBlocks .data q.bytes := by
  have hcontent : ∀ bs, IAC ∉ bs → OnlyBlocks .sub (bs ++ [IAC, SE]) := by
    intro bs hbs
    induction bs with
    | nil => simp [OnlyBlocks, Transducer.Along, Telnet.step]
    | cons b bs ih =>
      rw [List.mem_cons, not_or] at hbs
      have hsub : Telnet.step .sub b = (.sub, []) := by simp [Telnet.step, Ne.symm hbs.1]
      refine ⟨by simp, ?_⟩
      rw [hsub]
      exact ih hbs.2
  rw [Block.bytes, List.append_assoc]
  exact ⟨by simp, by simp, hcontent q.content q.free⟩

theorem onlyBlocks_streamOf {pieces : List (Piece Block)} (hdata : IAC ∉ dataOf pieces) :
    OnlyBlocks .data (streamOf Block.bytes pieces) := by
  induction pieces with
  | nil => trivial
  | cons p ps ih =>
    simp only [dataOf, List.flatMap_cons, List.mem_append, not_or] at hdata ih
    rw [streamOf, List.flatMap_cons, OnlyBlocks, Transducer.along_append]
    change OnlyBlocks .data (p.encode Block.bytes) ∧
      OnlyBlocks (parse .data (p.encode Block.bytes)).1 (streamOf Block.bytes ps)
    rw [Piece.parse_encode Block.parse_bytes hdata.1]
    refine ⟨?_, ih hdata.2⟩
    cases p with
    | byte b => exact ⟨by simp, trivial⟩
    | inserted q => exact q.onlyBlocks

section Items
variable {maxLineLength maxBufferSize : Nat} {pieces : List (Piece Block)}
variable {reads readsT : List (List UInt8)}

theorem cleanReads_iff (hiac : IAC ∉ payload reads.flatten) :
    CleanReads reads ↔ NothingBehind reads := by
  constructor
  · intro hclean pre r post hsplit
    exact (hclean pre r post hsplit).sub
  · exact cleanReads_of_iac_notMem hiac

theorem remaining_fresh (hcr : CR ∉ dataOf pieces) (hiac : IAC ∉ dataOf pieces)
    (hse : SE ∉ dataOf pieces) (hline : ∀ l ∈ segments (dataOf pieces), l.length + 2 ≤ maxLineLength)
    (hbuf : (streamOf Block.bytes pieces).length ≤ maxBufferSize) :
    Remaining (.withLimits maxLineLength maxBufferSize) .fresh (streamOf Block.bytes pieces) := by
  have hpayload := payload_streamOf Block.parse_bytes hiac
  have hrest : Kept.fresh.rest (streamOf Block.bytes pieces) = dataOf pieces := hpayload
  constructor
  · exact hbuf
  · intro pre hpre
    have hstart := Telnet.payload_prefix hpre
    rw [hpayload] at hstart
    obtain ⟨more, hmore⟩ := hstart
    obtain ⟨l, hl, hstart⟩ := Lines.exists_segment_prefix (payload pre) more
    rw [hmore] at hl
    have hmax := hline l hl
    have hlen := hstart.length_le
    change (residue (payload pre)).length + 2 ≤ maxLineLength
    omega
  · exact onlyBlocks_streamOf hiac
  · rw [hrest]
    exact hcr
  · rw [hrest]
    exact hiac
  · rw [hrest]
    exact hse

theorem deliver_of_nothingBehind {Text : Type} {text : List UInt8 → Text}
    (hcr : CR ∉ dataOf pieces) (hiac : IAC ∉ dataOf pieces)
    (hline : ∀ l ∈ segments (dataOf pieces), l.length + 2 ≤ maxLineLength)
    (hbuf : (streamOf Block.bytes pieces).length ≤ maxBufferSize)
    (hreads : reads.flatten = streamOf Block.bytes pieces) (hbehind : NothingBehind reads) :
    (decoder text).deliver (.withLimits maxLineLength maxBufferSize) reads =
      (lines (dataOf pieces)).map fun l => .ok (.line (text l)) := by
  have hpayload : payload reads.flatten = dataOf pieces := by
    rw [hreads, payload_streamOf Block.parse_bytes hiac]
  have hshort : ShortLines maxLineLength reads.flatten := by
    apply shortLines_of_segments
    rw [hpayload]
    exact hline
  rw [deliver_lines (hpayload ▸ hcr) (hreads ▸ hbuf) hshort
    ((cleanReads_iff (hpayload ▸ hiac)).mpr hbehind), hpayload]

/-- A run with a read that leaves data behind inside a block delivers too little. -/
theorem mass_deliver_lt (hcr : CR ∉ dataOf pieces) (hiac : IAC ∉ dataOf pieces)
    (hse : SE ∉ dataOf pieces) (hline : ∀ l ∈ segments (dataOf pieces), l.length + 2 ≤ maxLineLength)
    (hbuf : (streamOf Block.bytes pieces).length ≤ maxBufferSize)
    (hreads : reads.flatten = streamOf Block.bytes pieces) (hbehind : ¬ NothingBehind reads) :
    Framed.total itemMass ((decoder id).deliver (.withLimits maxLineLength maxBufferSize) reads) <
      mass (lines (dataOf pieces)) := by
  have hpayload : payload reads.flatten = dataOf pieces := by
    rw [hreads, payload_streamOf Block.parse_bytes hiac]
  have hremaining := remaining_fresh hcr hiac hse hline hbuf
  rw [← hreads] at hremaining
  have hlt := ((between_fresh maxLineLength maxBufferSize).mass_le rfl hremaining).2
  have hrest : Kept.fresh.rest reads.flatten = dataOf pieces := hpayload
  rw [hrest] at hlt
  apply hlt
  intro halong
  apply hbehind
  rw [← cleanReads_iff (hpayload ▸ hiac)]
  rw [Transducer.along_iff] at halong
  intro pre r post hsplit
  have hclean := halong pre r post hsplit
  rw [run_readStep_fst] at hclean
  rw [Telnet.stateAfter_append]
  exact hclean

theorem deliver_data {Text : Type} {text : List UInt8 → Text} (hcr : CR ∉ dataOf pieces)
    (hiac : IAC ∉ dataOf pieces)
    (hline : ∀ l ∈ segments (dataOf pieces), l.length + 2 ≤ maxLineLength)
    (hbuf : (streamOf Block.bytes pieces).length ≤ maxBufferSize)
    (hreadsT : readsT.flatten = dataOf pieces) :
    (decoder text).deliver (.withLimits maxLineLength maxBufferSize) readsT =
      (lines (dataOf pieces)).map fun l => .ok (.line (text l)) := by
  have hpayload : payload readsT.flatten = dataOf pieces := by
    rw [hreadsT, (payload_eq_self hiac).1]
  have hshort : ShortLines maxLineLength readsT.flatten := by
    apply shortLines_of_segments
    rw [hpayload]
    exact hline
  have hlen : (dataOf pieces).length ≤ (streamOf Block.bytes pieces).length := by
    have hle := Telnet.payload_length (streamOf Block.bytes pieces)
    rw [payload_streamOf Block.parse_bytes hiac] at hle
    omega
  rw [deliver_lines (hpayload ▸ hcr) (hreadsT ▸ Nat.le_trans hlen hbuf) hshort
    (cleanReads_plain (hreadsT ▸ hiac)), hpayload]

/-! ### The mass of the texts -/

def textMass : CodecItem String → Nat
  | .line s => s.length + 1
  | .lineTooLong => 0

theorem textMass_le (rs : List (Except TelnetCodecError (CodecItem (List UInt8)))) :
    Framed.total textMass (rs.map (Except.map (CodecItem.map fromUtf8Lossy))) ≤
      Framed.total itemMass rs := by
  induction rs with
  | nil => exact Nat.le_refl 0
  | cons r rs ih =>
    have hr : Framed.resultWorth textMass (Except.map (CodecItem.map fromUtf8Lossy) r) ≤
        Framed.resultWorth itemMass r := by
      cases r with
      | error e => exact Nat.le_refl 0
      | ok i =>
        cases i with
        | lineTooLong => exact Nat.le_refl 0
        | line l =>
          have hlen := Utf8Lossy.length_lossyChars_le l
          simp only [Except.map, CodecItem.map, Framed.resultWorth, textMass, itemMass,
            fromUtf8Lossy, String.length_ofList]
          omega
    rw [List.map_cons, Framed.total_cons, Framed.total_cons]
    omega

theorem textMass_ascii {ls : List (List UInt8)} (h : ∀ l ∈ ls, ∀ b ∈ l, b < 0x80) :
    Framed.total textMass (ls.map fun l =>
        (.ok (.line (fromUtf8Lossy l)) : Except TelnetCodecError (CodecItem String))) = mass ls := by
  induction ls with
  | nil => rfl
  | cons l ls ih =>
    have hlen := Utf8Lossy.length_lossyChars_ascii (h l List.mem_cons_self)
    have hrest := ih fun m hm => h m (List.mem_cons_of_mem _ hm)
    rw [List.map_cons, Framed.total_cons, hrest, mass_cons]
    simp only [Framed.resultWorth, textMass, fromUtf8Lossy, String.length_ofList, hlen]

theorem mem_of_mem_lines {bs l : List UInt8} {b : UInt8} (hl : l ∈ lines bs) (hb : b ∈ l) :
    b ∈ bs := by
  induction hn : bs.length using Nat.strongRecOn generalizing bs with
  | ind n ih =>
    rcases Lines.plain_or_line bs with hplain | ⟨l', t, rest, rfl, hl', ht⟩
    · rw [Lines.lines_plain hplain, lastLine] at hl
      split at hl
      · simp at hl
      · rw [List.mem_singleton] at hl
        exact hl ▸ hb
    · rw [Lines.lines_terminator hl' ht, List.mem_cons] at hl
      rcases hl with rfl | hl
      · exact List.mem_append_left _ hb
      · have hpos := ht.length_pos
        simp only [List.length_append] at hn
        exact List.mem_append_right _ (List.mem_append_right _ (ih rest.length (by omega) hl rfl))

/-- Blocks are transparent when no read leaves data behind inside one. Data
without a byte 0xF0, which the codec could take for the end of a block, is
delivered in no other case; for ASCII data the texts themselves tell. -/
theorem blocks_transparent_iff (hcr : CR ∉ dataOf pieces) (hiac : IAC ∉ dataOf pieces)
    (hline : ∀ l ∈ segments (dataOf pieces), l.length + 2 ≤ maxLineLength)
    (hbuf : (streamOf Block.bytes pieces).length ≤ maxBufferSize)
    (hreads : reads.flatten = streamOf Block.bytes pieces)
    (hreadsT : readsT.flatten = dataOf pieces) :
    (NothingBehind reads →
      (decoder fromUtf8Lossy).deliver (.withLimits maxLineLength maxBufferSize) reads =
        (decoder fromUtf8Lossy).deliver (.withLimits maxLineLength maxBufferSize) readsT) ∧
    (SE ∉ dataOf pieces →
      ((decoder id).deliver (.withLimits maxLineLength maxBufferSize) reads =
          (decoder id).deliver (.withLimits maxLineLength maxBufferSize) readsT ↔
        NothingBehind reads)) ∧
    ((∀ b ∈ dataOf pieces, b < 0x80) →
      ((decoder fromUtf8Lossy).deliver (.withLimits maxLineLength maxBufferSize) reads =
          (decoder fromUtf8Lossy).deliver (.withLimits maxLineLength maxBufferSize) readsT ↔
        NothingBehind reads)) := by
  have hgood : ∀ {Text : Type} {text : List UInt8 → Text}, NothingBehind reads →
      (decoder text).deliver (.withLimits maxLineLength maxBufferSize) reads =
        (decoder text).deliver (.withLimits maxLineLength maxBufferSize) readsT := by
    intro Text text hbehind
    rw [deliver_of_nothingBehind hcr hiac hline hbuf hreads hbehind,
      deliver_data hcr hiac hline hbuf hreadsT]
  refine ⟨hgood, fun hse => ⟨fun hsame => ?_, hgood⟩, fun hascii => ⟨fun hsame => ?_, hgood⟩⟩
  · by_contra hbehind
    have hlt := mass_deliver_lt hcr hiac hse hline hbuf hreads hbehind
    rw [hsame, deliver_data hcr hiac hline hbuf hreadsT] at hlt
    exact absurd (total_mass (lines (dataOf pieces))) (Nat.ne_of_lt hlt)
  · by_contra hbehind
    have hse : SE ∉ dataOf pieces := fun hmem => absurd (hascii SE hmem) (by decide)
    have hlt := mass_deliver_lt hcr hiac hse hline hbuf hreads hbehind
    have hle := textMass_le
      ((decoder id).deliver (.withLimits maxLineLength maxBufferSize) reads)
    have hfull := textMass_ascii fun l hl b hb => hascii b (mem_of_mem_lines hl hb)
    rw [← deliver_eq_map, hsame, deliver_data hcr hiac hline hbuf hreadsT, hfull] at hle
    omega

end Items

/-- `hello` with a block in the middle: cut inside the block, and cut around it. -/
theorem blocks_transparent_hello :
    ¬ NothingBehind [[104, 101, 108, IAC, SB, 120], [IAC, SE, 108, 111, LF]] ∧
      NothingBehind [[104, 101, 108], [IAC, SB, 120, IAC, SE, 108, 111, LF]] := by
  have hsplit := @blocks_transparent_iff 10 30
    [.byte 104, .byte 101, .byte 108, .inserted ⟨[120], by decide⟩, .byte 108, .byte 111, .byte LF]
    [[104, 101, 108, IAC, SB, 120], [IAC, SE, 108, 111, LF]] [[104, 101, 108, 108, 111, LF]]
    (by decide) (by decide) (by decide) (by decide) rfl rfl
  have haround := @blocks_transparent_iff 10 30
    [.byte 104, .byte 101, .byte 108, .inserted ⟨[120], by decide⟩, .byte 108, .byte 111, .byte LF]
    [[104, 101, 108], [IAC, SB, 120, IAC, SE, 108, 111, LF]] [[104, 101, 108, 108, 111, LF]]
    (by decide) (by decide) (by decide) (by decide) rfl rfl
  exact ⟨mt (hsplit.2.2 (by decide +kernel)).mpr (by decide +kernel),
    (haround.2.2 (by decide +kernel)).mp (by decide +kernel)⟩

/-- The start of the line is scanned as a part of the block. -/
theorem block_swallows_partial_line :
    streamOf Block.bytes
        [.byte 104, .byte 101, .byte 108, .inserted ⟨[120], by decide⟩, .byte 108, .byte 111,
          .byte LF] =
        [[104, 101, 108, IAC, SB, 120], [IAC, SE, 108, 111, LF]].flatten ∧
      (decoder fromUtf8Lossy).deliver (.withLimits 10 30)
        [[104, 101, 108, IAC, SB, 120], [IAC, SE, 108, 111, LF]] = [.ok (.line "lo")] ∧
      (decoder fromUtf8Lossy).deliver (.withLimits 10 30) [[104, 101, 108, 108, 111, LF]] =
        [.ok (.line "hello")] := by
  refine ⟨rfl, ?_, ?_⟩
  · decide +kernel
  · decide +kernel

end Liaozhai.Codec
