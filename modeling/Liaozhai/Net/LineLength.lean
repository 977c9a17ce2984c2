import Liaozhai.Net.Recovery

/-!
# The length of a line

`decode` compares the buffer with `max_line_length` when it finds no terminator in
it. Where it finds one it takes the line off, whatever its length. So the limit
holds for the lines of a run exactly when every longer line is too long already where
a read ends inside it: no read may end a line that it takes past the limit itself.
-/

namespace Liaozhai.Codec

open Lines (Plain complete residue)
open Telnet (parse payload stateAfter)
open Utf8Lossy (asBytes)
set_option autoImplicit false

universe u

variable {Text : Type u} {text : List UInt8 → Text}
variable {c c' : TelnetLineCodec} {buf bs r : List UInt8} {limit maxBufferSize : Nat}
  {pre reads : List (List UInt8)}

def IsTerminator (b : UInt8) : Prop := b = LF ∨ b = CR

/-- If a line of the data is complete, a terminator stands within the limit. -/
def EndsWithin (limit : Nat) (bs : List UInt8) : Prop :=
  (∃ b ∈ bs, IsTerminator b) → ∃ b ∈ bs.take (limit + 1), IsTerminator b

/-- The data from which a call takes a line: the stripped buffer, past the end of
the line that is discarded. -/
def lineData (c : TelnetLineCodec) (buf : List UInt8) : List UInt8 :=
  let c' := (c.stripIac buf).1
  let buf' := (c.stripIac buf).2
  if c.discarding then
    match findLineTerminator buf' with
    | some pos =>
      ({ c' with discarding := false }.stripIac (buf'.drop (consumeTerminator buf' pos))).2
    | none => []
  else buf'

/-- A call within the buffer limit that comes upon no over-long complete line. -/
def CallEndsWithin (c : TelnetLineCodec) (buf : List UInt8) : Prop :=
  buf.length ≤ c.maxBufferSize → EndsWithin c.maxLineLength (lineData c buf)

theorem endsWithin_iff :
    EndsWithin limit bs ↔ ∀ pos, findLineTerminator bs = some pos → pos ≤ limit := by
  constructor
  · intro h pos hfind
    obtain ⟨hlt, hpos, hbefore⟩ := List.findIdx?_eq_some_iff_getElem.mp hfind
    have hterm : IsTerminator bs[pos] := by simpa [IsTerminator] using hpos
    obtain ⟨b, hb, hbterm⟩ := h ⟨bs[pos], List.getElem_mem hlt, hterm⟩
    obtain ⟨i, hi, rfl⟩ := List.mem_iff_getElem.mp hb
    rw [List.length_take] at hi
    rw [List.getElem_take] at hbterm
    by_contra hgt
    have hnot := hbefore i (by omega)
    rcases hbterm with hlf | hcr
    · simp [hlf] at hnot
    · simp [hcr] at hnot
  · rintro h ⟨b, hb, hbterm⟩
    cases hfind : findLineTerminator bs with
    | none =>
      have hnone := List.findIdx?_eq_none_iff.mp hfind b hb
      rcases hbterm with rfl | rfl
      · simp at hnone
      · simp at hnone
    | some pos =>
      obtain ⟨hlt, hpos, _⟩ := List.findIdx?_eq_some_iff_getElem.mp hfind
      have hle := h pos hfind
      refine ⟨bs[pos], ?_, by simpa [IsTerminator] using hpos⟩
      rw [List.mem_take_iff_getElem]
      exact ⟨pos, by omega, rfl⟩

/-- The lines that a call returns are within the limit. -/
def ReturnsWithin (limit : Nat)
    (result : Except TelnetCodecError (Option (CodecItem (List UInt8)))) : Prop :=
  ∀ i, result = .ok (some i) → ∀ l, i = .line l → l.length ≤ limit

theorem returnsWithin_of_ne_line
    {result : Except TelnetCodecError (Option (CodecItem (List UInt8)))}
    (h : ∀ l, result ≠ .ok (some (.line l))) : ReturnsWithin limit result := by
  rintro _ rfl l rfl
  exact absurd rfl (h l)

theorem decode_returnsWithin_iff_of_not_discarding (hd : c.discarding = false)
    (hlen : buf.length ≤ c.maxBufferSize) :
    ReturnsWithin c.maxLineLength (decode id c buf).result ↔
      EndsWithin c.maxLineLength (c.stripIac buf).2 := by
  rw [decode_eq_answer hlen, endsWithin_iff]
  unfold answer
  cases hf : findLineTerminator (c.stripIac buf).2 with
  | some pos =>
    have hlt := (List.findIdx?_eq_some_iff_findIdx_eq.mp hf).1
    simp only [stripIac_discarding, hd, Bool.false_eq_true, if_false, id]
    constructor
    · rintro h _ ⟨⟩
      have hline := h _ rfl _ rfl
      rw [List.length_take] at hline
      omega
    · rintro h _ ⟨⟩ l ⟨⟩
      rw [List.length_take]
      exact Nat.le_trans (Nat.min_le_left _ _) (h pos rfl)
  | none =>
    refine iff_of_true ?_ nofun
    simp only [stripIac_discarding, hd, Bool.false_eq_true, if_false]
    split
    · exact returnsWithin_of_ne_line nofun
    · exact returnsWithin_of_ne_line nofun

theorem decode_returnsWithin_iff (c : TelnetLineCodec) (buf : List UInt8) :
    ReturnsWithin c.maxLineLength (decode id c buf).result ↔ CallEndsWithin c buf := by
  by_cases hlen : buf.length ≤ c.maxBufferSize
  · rw [CallEndsWithin, imp_iff_right hlen]
    unfold lineData
    dsimp only
    cases hd : c.discarding with
    | false => exact decode_returnsWithin_iff_of_not_discarding hd hlen
    | true =>
      rw [decode_eq_answer hlen]
      unfold answer
      cases hf : findLineTerminator (c.stripIac buf).2 with
      | some pos =>
        have hlt := c.length_drop_stripIac_lt hf
        simp only [stripIac_discarding, hd, if_true]
        have hshort := Nat.le_trans (Nat.le_of_lt hlt) hlen
        exact decode_returnsWithin_iff_of_not_discarding
          (c := { (c.stripIac buf).1 with discarding := false }) rfl hshort
      | none =>
        simp only [stripIac_discarding, hd, if_true]
        refine iff_of_true (returnsWithin_of_ne_line nofun) ?_
        rintro ⟨b, hb, _⟩
        exact absurd hb List.not_mem_nil
  · rw [decode_overflow (by omega)]
    exact iff_of_true (returnsWithin_of_ne_line nofun) fun hle => absurd hle hlen

/-- The line at the end of input is within the limit by itself. -/
theorem decodeEof_returnsWithin_iff (c : TelnetLineCodec) (buf : List UInt8) :
    ReturnsWithin c.maxLineLength (decodeEof id c buf).result ↔ CallEndsWithin c buf := by
  rw [← decode_returnsWithin_iff]
  unfold decodeEof
  dsimp only
  split
  · rename_i e he
    exact Iff.of_eq (congrArg _ he.symm)
  · rename_i item hitem
    exact Iff.of_eq (congrArg _ hitem.symm)
  · rename_i hnone
    rw [hnone]
    refine iff_of_true ?_ (returnsWithin_of_ne_line nofun)
    split_ifs
    · exact returnsWithin_of_ne_line nofun
    · exact returnsWithin_of_ne_line nofun
    · exact returnsWithin_of_ne_line nofun
    · have hle := (decode_none_retained c buf hnone).length
      rw [(decode_limits c buf).1] at hle
      rintro _ ⟨⟩ l ⟨⟩
      exact Nat.le_trans (List.length_take_le' _ _) hle

theorem decodeEof_maxLineLength (c : TelnetLineCodec) (buf : List UInt8) :
    (decodeEof text c buf).state.maxLineLength = c.maxLineLength := by
  have hdecode := (@decode_limits _ text c buf).1
  unfold decodeEof
  dsimp only
  split
  · exact hdecode
  · exact hdecode
  · split_ifs
    · exact hdecode
    · exact hdecode
    · exact hdecode
    · exact hdecode

/-! ### The stream and its reads -/

/-- The data of the line in progress and the bytes of the command in progress. -/
def held (stream : List UInt8) : List UInt8 := residue (payload stream) ++ (stateAfter stream).tail

/-- The line in progress after some reads was too long where one of them ended. -/
def TooLongBefore (limit : Nat) (reads : List (List UInt8)) : Prop :=
  ∃ pre post, reads = pre ++ post ∧ limit < (held pre.flatten).length ∧
    Plain (parse (stateAfter pre.flatten) post.flatten).2

/-- A line that a read ends is within the limit, or the reads before have left it too
long already. -/
def InTime (limit : Nat) (pre : List (List UInt8)) (r : List UInt8) : Prop :=
  (∀ l ∈ (readStep (Kept.after pre.flatten) r).2.head?,
      l.length ≤ limit ∨ TooLongBefore limit pre) ∧
    ∀ l ∈ (readStep (Kept.after pre.flatten) r).2.tail, l.length ≤ limit

/-- No read ends a line that it takes past the limit itself. -/
def EndsInTime (limit : Nat) (reads : List (List UInt8)) : Prop :=
  ∀ pre r post, reads = pre ++ r :: post → InTime limit pre r

/-- No read ends inside a command while a line is discarded. -/
def CutsNoCommand (limit : Nat) (reads : List (List UInt8)) : Prop :=
  ∀ pre, pre <+: reads → TooLongBefore limit pre → (stateAfter pre.flatten).tail = []

/-- The lines of a run are decoded from at most so many bytes each. -/
def LinesWithin (limit : Nat) (items : List (Except TelnetCodecError (CodecItem (List UInt8)))) :
    Prop :=
  ∀ l, .ok (.line l) ∈ items → l.length ≤ limit

theorem held_append (pre : List (List UInt8)) (r : List UInt8) :
    held (pre ++ [r]).flatten =
      residue ((Kept.after pre.flatten).data r) ++ (parse (stateAfter pre.flatten) r).1.tail := by
  rw [held, List.flatten_append, List.flatten_singleton, Kept.payload_append,
    Telnet.stateAfter_append]

theorem tooLongBefore_snoc :
    TooLongBefore limit (pre ++ [r]) ↔
      limit < (held (pre ++ [r]).flatten).length ∨
        TooLongBefore limit pre ∧ Plain (parse (stateAfter pre.flatten) r).2 := by
  have hsplit : ∀ p q : List (List UInt8),
      (parse (stateAfter p.flatten) (q ++ [r]).flatten).2 =
        (parse (stateAfter p.flatten) q.flatten).2 ++
          (parse (stateAfter (p ++ q).flatten) r).2 := by
    intro p q
    rw [List.flatten_append, List.flatten_singleton, Telnet.parse_append, List.flatten_append,
      Telnet.stateAfter_append]
  constructor
  · rintro ⟨p, q, heq, hlong, hplain⟩
    rcases List.eq_nil_or_concat q with rfl | ⟨q, r', rfl⟩
    · rw [List.append_nil] at heq
      rw [heq]
      exact .inl hlong
    · rw [List.concat_eq_append, ← List.append_assoc] at heq
      obtain ⟨rfl, hr⟩ := List.append_inj' heq rfl
      obtain rfl := (List.cons.inj hr).1
      rw [List.concat_eq_append, hsplit, Lines.plain_append] at hplain
      exact .inr ⟨⟨p, q, rfl, hlong, hplain.1⟩, hplain.2⟩
  · rintro (hlong | ⟨⟨p, q, rfl, hlong, hplain⟩, hr⟩)
    · exact ⟨pre ++ [r], [], (List.append_nil _).symm, hlong, Lines.plain_nil⟩
    · refine ⟨p, q ++ [r], List.append_assoc _ _ _, hlong, ?_⟩
      rw [hsplit, Lines.plain_append]
      exact ⟨hplain, hr⟩

theorem not_tooLongBefore_nil : ¬ TooLongBefore limit [] := by
  rintro ⟨p, q, hnil, hlong, _⟩
  obtain ⟨rfl, rfl⟩ := List.append_eq_nil_iff.mp hnil.symm
  exact Nat.not_lt_zero _ hlong

/-- Where the codec stands between two reads: it keeps the line in progress, or it
discards it, having found it too long. -/
inductive Stands (c : TelnetLineCodec) (pre : List (List UInt8)) :
    TelnetLineCodec → List UInt8 → Prop where
  | keeps {c' : TelnetLineCodec} {buf : List UInt8} : ¬ TooLongBefore c.maxLineLength pre →
      Between c (Kept.after pre.flatten) c' buf → Stands c pre c' buf
  | discards : TooLongBefore c.maxLineLength pre →
      Stands c pre (atState c (stateAfter pre.flatten)).discard []

theorem stands_nil (maxLineLength maxBufferSize : Nat) :
    Stands (.withLimits maxLineLength maxBufferSize) []
      (.withLimits maxLineLength maxBufferSize) [] :=
  .keeps not_tooLongBefore_nil (between_fresh maxLineLength maxBufferSize)

/-- What the calls after a read leave behind the last line they take off. -/
theorem stands_snoc (hclean : Clean (parse (stateAfter pre.flatten) r).1
      (leftover ((Kept.after pre.flatten).data r)))
    (hbuf : (held (pre ++ [r]).flatten).length ≤ c.maxBufferSize)
    (hended : ¬ (TooLongBefore c.maxLineLength pre ∧ Plain (parse (stateAfter pre.flatten) r).2)) :
    if (held (pre ++ [r]).flatten).length ≤ c.maxLineLength then
      Stands c (pre ++ [r]) (atState c (parse (stateAfter pre.flatten) r).1)
        (held (pre ++ [r]).flatten)
    else Stands c (pre ++ [r]) (atState c (parse (stateAfter pre.flatten) r).1).discard [] := by
  have hstate : stateAfter (pre ++ [r]).flatten = (parse (stateAfter pre.flatten) r).1 := by
    rw [List.flatten_append, List.flatten_singleton, Telnet.stateAfter_append]
  have hline : residue (payload (pre ++ [r]).flatten) =
      residue ((Kept.after pre.flatten).data r) := by
    rw [List.flatten_append, List.flatten_singleton, Kept.payload_append]
  split
  · rename_i hshort
    refine .keeps ?_ ⟨?_, rfl, ?_, ?_, Lines.plain_residue _, hbuf, hshort⟩
    · rw [tooLongBefore_snoc]
      rintro (hlong | hgoes)
      · omega
      · exact hended hgoes
    · rw [Kept.after, hstate]
    · exact Telnet.parse_valid (s := .data) trivial _
    · have hres := Lines.residue_suffix (leftover ((Kept.after pre.flatten).data r))
      rw [residue_leftover] at hres
      rw [Kept.after, hstate, hline]
      exact hclean.suffix hres
  · rename_i hlong
    rw [← hstate]
    exact .discards (tooLongBefore_snoc.mpr (.inl (Nat.lt_of_not_le hlong)))

/-- The items after a read are its lines, with or without a notice at the end. -/
theorem stands_of_read
    {d : Framed.Drained TelnetLineCodec UInt8 (CodecItem (List UInt8)) TelnetCodecError}
    {P : Prop} [Decidable P] {ls : List (List UInt8)}
    (hread : d = if P then ⟨ls.map fun l => .line (id l), none, c', buf⟩
      else ⟨(ls.map fun l => .line (id l)) ++ [.lineTooLong], none, c'.discard, []⟩)
    (hnext : if P then Stands c pre c' buf else Stands c pre c'.discard []) :
    d.error = none ∧ Stands c pre d.state d.buf ∧
      ((∀ l, .line l ∈ d.items → l.length ≤ limit) ↔ ∀ l ∈ ls, l.length ≤ limit) := by
  rw [hread]
  split
  · rename_i hP
    rw [if_pos hP] at hnext
    refine ⟨rfl, hnext, ?_⟩
    simp
  · rename_i hP
    rw [if_neg hP] at hnext
    refine ⟨rfl, hnext, ?_⟩
    simp

/-- A read brings the codec from one place to the next, and the lines it delivers are
within the limit if and only if the read ends none that it takes past the limit. -/
theorem Stands.read (h : Stands c pre c' buf) (hd : c.discarding = false)
    (hclean : Clean (parse (stateAfter pre.flatten) r).1
      (leftover ((Kept.after pre.flatten).data r)))
    (hcut : TooLongBefore c.maxLineLength pre → (stateAfter pre.flatten).tail = [])
    (hbuf : (buf ++ r).length ≤ c.maxBufferSize) :
    ((decoder id).afterRead c' (buf ++ r)).error = none ∧
      Stands c (pre ++ [r]) ((decoder id).afterRead c' (buf ++ r)).state
        ((decoder id).afterRead c' (buf ++ r)).buf ∧
      ((∀ l, .line l ∈ ((decoder id).afterRead c' (buf ++ r)).items → l.length ≤ c.maxLineLength) ↔
        InTime c.maxLineLength pre r) := by
  have hv : (stateAfter pre.flatten).Valid := Telnet.parse_valid (s := .data) trivial _
  have hheld := held_append pre r
  cases h with
  | keeps hnot hbetween =>
    have hlen : ((Kept.after pre.flatten).partialLine ++ (Kept.after pre.flatten).parser.tail ++
        r).length ≤ c.maxBufferSize := hbetween.buf ▸ hbuf
    have hread := @Between.afterRead_cases _ id _ _ _ _ _ hbetween hd hlen hclean
    have hshort : (held (pre ++ [r]).flatten).length ≤ c.maxBufferSize := by
      have hdata := Nat.le_trans (hbetween.data_length r) hlen
      have hres := (Lines.residue_suffix ((Kept.after pre.flatten).data r)).length_le
      rw [hheld]
      simp only [List.length_append] at hdata hres ⊢
      exact Nat.le_trans (Nat.add_le_add_right hres _) hdata
    have hnext := stands_snoc hclean hshort fun hgoes => hnot hgoes.1
    -- all the lines that the read ends are delivered
    have hlines : InTime c.maxLineLength pre r ↔
        ∀ l ∈ complete ((Kept.after pre.flatten).data r), l.length ≤ c.maxLineLength := by
      rw [InTime, readStep]
      cases complete ((Kept.after pre.flatten).data r) with
      | nil => simp
      | cons l ls => simp [hnot]
    rw [hheld] at hnext
    obtain ⟨herr, hstands, hitems⟩ := stands_of_read hread hnext
    exact ⟨herr, hstands, hitems.trans hlines.symm⟩
  | discards hlong =>
    rw [List.nil_append] at hbuf ⊢
    have hpre : Plain (residue (payload pre.flatten)) := Lines.plain_residue _
    rcases Lines.plain_or_line (parse (stateAfter pre.flatten) r).2 with
      hplain | ⟨l, t, rest, hout, hl, ht⟩
    · -- the line that goes on has no items
      have hread := afterRead_discard_open id hv (hcut hlong) hbuf hplain
      have hnone : (readStep (Kept.after pre.flatten) r).2 = [] :=
        Lines.complete_plain (Lines.plain_append.mpr ⟨hpre, hplain⟩)
      have hstate : stateAfter (pre ++ [r]).flatten = (parse (stateAfter pre.flatten) r).1 := by
        rw [List.flatten_append, List.flatten_singleton, Telnet.stateAfter_append]
      rw [hread, ← hstate, InTime, hnone]
      refine ⟨rfl, .discards (tooLongBefore_snoc.mpr (.inr ⟨hlong, hplain⟩)), ?_⟩
      simp
    · obtain ⟨hlen, hread⟩ := afterRead_discard_line id hd hv (hcut hlong) hbuf hout hl ht
      have hdata : (Kept.after pre.flatten).data r =
          residue (payload pre.flatten) ++ l ++ (t ++ rest) := by
        have hsame : (Kept.after pre.flatten).data r =
            residue (payload pre.flatten) ++ (parse (stateAfter pre.flatten) r).2 := rfl
        rw [hsame, hout, List.append_assoc]
      have hfirst : Plain (residue (payload pre.flatten) ++ l) := Lines.plain_append.mpr ⟨hpre, hl⟩
      have hres := (Lines.residue_suffix rest).length_le
      rw [hdata, Lines.residue_terminator hfirst ht] at hheld
      have hshort : (held (pre ++ [r]).flatten).length ≤ c.maxBufferSize := by
        rw [hheld]
        simp only [List.length_append] at hlen ⊢
        omega
      have hends : ¬ (TooLongBefore c.maxLineLength pre ∧
          Plain (parse (stateAfter pre.flatten) r).2) := by
        rintro ⟨_, hplain⟩
        rw [hout] at hplain
        have hnil := (Lines.complete_terminator hl ht).symm.trans (Lines.complete_plain hplain)
        cases hnil
      have hnext := stands_snoc hclean hshort hends
      rw [hdata, leftover_terminator hfirst ht] at hclean
      have hlater := @Clean.afterRead_cases _ id c _ _ hclean hd (Telnet.parse_valid hv r) hlen
      -- the line that was in progress is discarded, and the others are delivered
      have hlines : InTime c.maxLineLength pre r ↔
          ∀ l ∈ complete rest, l.length ≤ c.maxLineLength := by
        rw [InTime, readStep, hdata, Lines.complete_terminator hfirst ht]
        simp [hlong]
      rw [hheld] at hnext
      obtain ⟨herr, hstands, hitems⟩ := stands_of_read (hread.trans hlater) hnext
      exact ⟨herr, hstands, hitems.trans hlines.symm⟩

/-- The line at the end of input is within the limit by itself. -/
theorem Stands.eof (h : Stands c pre c' buf) (hd : c.discarding = false) :
    LinesWithin c.maxLineLength ((decoder id).afterEof c' buf).results := by
  intro l hl
  cases h with
  | keeps hnot hbetween =>
    rw [hbetween.afterEof_results hd] at hl
    obtain ⟨l', hl', heq⟩ := List.mem_map.mp hl
    obtain rfl : l' = l := by simpa using heq
    have hline := hbetween.line
    rw [Lines.lastLine] at hl'
    split at hl'
    · cases hl'
    · rw [List.mem_singleton.mp hl']
      rw [List.length_append] at hline
      omega
  | discards _ =>
    rw [afterEof_discard] at hl
    cases hl

/-- The reads after the first `pre` end their lines in time. -/
def LaterInTime (limit : Nat) (pre reads : List (List UInt8)) : Prop :=
  ∀ mid r post, reads = mid ++ r :: post → InTime limit (pre ++ mid) r

theorem laterInTime_cons :
    LaterInTime limit pre (r :: reads) ↔
      InTime limit pre r ∧ LaterInTime limit (pre ++ [r]) reads := by
  constructor
  · intro h
    refine ⟨?_, ?_⟩
    · have hfirst := h [] r reads rfl
      rw [List.append_nil] at hfirst
      exact hfirst
    · rintro mid r' post rfl
      have hlater := h (r :: mid) r' post rfl
      rw [List.append_cons] at hlater
      exact hlater
  · rintro ⟨hfirst, hlater⟩ mid r' post hsplit
    cases mid with
    | nil =>
      obtain ⟨rfl, rfl⟩ := List.cons.inj hsplit
      rw [List.append_nil]
      exact hfirst
    | cons r'' mid =>
      obtain ⟨rfl, rfl⟩ := List.cons.inj hsplit
      rw [List.append_cons]
      exact hlater mid r' post rfl

theorem linesWithin_append
    {items items' : List (Except TelnetCodecError (CodecItem (List UInt8)))} :
    LinesWithin limit (items ++ items') ↔ LinesWithin limit items ∧ LinesWithin limit items' := by
  constructor
  · intro h
    constructor
    · intro l hl
      exact h l (List.mem_append_left _ hl)
    · intro l hl
      exact h l (List.mem_append_right _ hl)
  · rintro ⟨h, h'⟩ l hl
    rcases List.mem_append.mp hl with hl | hl
    · exact h l hl
    · exact h' l hl

theorem linesWithin_map_ok {items : List (CodecItem (List UInt8))} :
    LinesWithin limit (items.map .ok) ↔ ∀ l, .line l ∈ items → l.length ≤ limit := by
  refine forall_congr' fun l => imp_congr_left ?_
  simp

/-- From any place in a run: lines that end in time are within the limit, and the
other way round as long as the buffer is. -/
theorem Stands.linesWithin (h : Stands c pre c' buf) (hd : c.discarding = false)
    (hclean : CleanReads (pre ++ reads)) (hcut : CutsNoCommand c.maxLineLength (pre ++ reads)) :
    (LaterInTime c.maxLineLength pre reads →
        LinesWithin c.maxLineLength ((decoder id).deliverFrom c' buf reads)) ∧
      ((decoder id).EachRead (fun buf => buf.length ≤ c.maxBufferSize) c' buf reads →
        LinesWithin c.maxLineLength ((decoder id).deliverFrom c' buf reads) →
        LaterInTime c.maxLineLength pre reads) := by
  induction reads generalizing pre c' buf with
  | nil =>
    rw [(decoder id).deliverFrom_nil]
    refine ⟨fun _ => h.eof hd, ?_⟩
    intro _ _ mid r post hsplit
    exact absurd hsplit.symm (List.append_ne_nil_of_right_ne_nil mid (List.cons_ne_nil r post))
  | cons r rs ih =>
    by_cases hbuf : (buf ++ r).length ≤ c.maxBufferSize
    · have hclean' := hclean pre r rs rfl
      rw [Telnet.stateAfter_append] at hclean'
      obtain ⟨herr, hstands, hread⟩ :=
        h.read hd hclean' (hcut pre (List.prefix_append pre (r :: rs))) hbuf
      rw [List.append_cons] at hclean hcut
      obtain ⟨henough, hneeded⟩ := ih hstands hclean hcut
      rw [(decoder id).deliverFrom_cons herr, linesWithin_append, linesWithin_map_ok, hread,
        laterInTime_cons]
      refine ⟨fun hall => ⟨hall.1, henough hall.2⟩, ?_⟩
      rintro ⟨_, hlater⟩ ⟨hnow, hrest⟩
      exact ⟨hnow, hneeded hlater hrest⟩
    · -- the run ends with the overflow
      have hmax : c'.maxBufferSize = c.maxBufferSize := by
        cases h with
        | keeps _ hbetween => rw [hbetween.codec, atState_maxBufferSize]
        | discards _ => rfl
      have hover := @decode_overflow _ id c' (buf ++ r) (by omega)
      have hread : (decoder id).afterRead c' (buf ++ r) = _ := Framed.drain_error hover
      rw [(decoder id).deliverFrom_cons_error (by rw [hread]), hread]
      refine ⟨fun _ l hl => ?_, fun hwithin => absurd hwithin.1 hbuf⟩
      simp [Framed.Drained.results] at hl

/-- The lines of any run are within the limit exactly when every call is made where it
returns no other. -/
theorem linesWithin_iff_calls (maxLineLength maxBufferSize : Nat) (reads : List (List UInt8)) :
    LinesWithin maxLineLength
        ((decoder id).deliver (.withLimits maxLineLength maxBufferSize) reads) ↔
      ∀ call ∈ (decoder (id : List UInt8 → List UInt8)).calls
          (.withLimits maxLineLength maxBufferSize) [] reads,
        CallEndsWithin call.1 call.2 := by
  have hdecode : Framed.Allows (fun c => c.maxLineLength = maxLineLength)
      (fun i => ∀ l, i = CodecItem.line l → l.length ≤ maxLineLength) CallEndsWithin
      (decoder (id : List UInt8 → List UInt8)).decode := by
    rintro c buf rfl
    exact ⟨(decode_limits c buf).1, decode_returnsWithin_iff c buf⟩
  have heof : Framed.Allows (fun c => c.maxLineLength = maxLineLength)
      (fun i => ∀ l, i = CodecItem.line l → l.length ≤ maxLineLength) CallEndsWithin
      (decoder (id : List UInt8 → List UInt8)).decodeEof := by
    rintro c buf rfl
    exact ⟨decodeEof_maxLineLength c buf, decodeEof_returnsWithin_iff c buf⟩
  rw [← (decoder id).deliverFrom_allows hdecode heof rfl]
  constructor
  · rintro h _ hi l rfl
    exact h l hi
  · intro h l hl
    exact h _ hl l rfl

/-- The lines of a run are decoded from at most `max_line_length` bytes each if and only
if no read ends a line that it takes past the limit itself. This is where no byte is
scanned a second time to an effect and no discard cuts a command. Of any run at all, it
is so if and only if every call of `decode` or `decode_eof` that finds a terminator where
it looks for its line finds one within `max_line_length` bytes. -/
theorem line_length_le_iff (text : List UInt8 → Text) (maxLineLength maxBufferSize : Nat)
    (reads : List (List UInt8)) :
    (decoder text).deliver (.withLimits maxLineLength maxBufferSize) reads =
        ((decoder id).deliver (.withLimits maxLineLength maxBufferSize) reads).map
          (Except.map (CodecItem.map text)) ∧
      (CleanReads reads → CutsNoCommand maxLineLength reads →
        (EndsInTime maxLineLength reads → LinesWithin maxLineLength
          ((decoder id).deliver (.withLimits maxLineLength maxBufferSize) reads)) ∧
        (WithinBuffer id (.withLimits maxLineLength maxBufferSize) [] reads →
          LinesWithin maxLineLength
            ((decoder id).deliver (.withLimits maxLineLength maxBufferSize) reads) →
          EndsInTime maxLineLength reads)) ∧
      (LinesWithin maxLineLength
          ((decoder id).deliver (.withLimits maxLineLength maxBufferSize) reads) ↔
        ∀ call ∈ (decoder id).calls (.withLimits maxLineLength maxBufferSize) [] reads,
          CallEndsWithin call.1 call.2) := by
  refine ⟨deliver_eq_map _ reads, ?_, linesWithin_iff_calls maxLineLength maxBufferSize reads⟩
  intro hclean hcut
  exact (stands_nil maxLineLength maxBufferSize).linesWithin rfl hclean hcut

theorem cutsNoCommand_plain (limit : Nat) (hiac : IAC ∉ reads.flatten) :
    CutsNoCommand limit reads := by
  rintro pre ⟨post, rfl⟩ _
  rw [List.flatten_append, List.mem_append, not_or] at hiac
  rw [(payload_eq_self hiac.1).2]
  rfl

/-- A line that passes the limit in one read and ends in the next, and two that are
within it. -/
theorem line_length_le_split :
    LinesWithin 2 ((decoder id).deliver (.withLimits 2 16) [[97, 98, 99], [100, LF, 97, LF]]) ∧
      EndsInTime 2 [[97, 98, LF, 97], [LF]] := by
  have hsplit : IAC ∉ [[97, 98, 99], [100, LF, 97, LF]].flatten := by decide
  have hshort : IAC ∉ [[97, 98, LF, 97], [LF]].flatten := by decide
  have hin : EndsInTime 2 [[97, 98, 99], [100, LF, 97, LF]] := by
    intro pre r post h
    rcases List.cons_eq_append_iff.mp h with ⟨rfl, hr⟩ | ⟨pre, rfl, hlater⟩
    · obtain ⟨rfl, _⟩ := List.cons.inj hr
      have hnone : (readStep (Kept.after [].flatten) [97, 98, 99]).2 = [] := by decide
      rw [InTime, hnone]
      simp
    · rcases List.cons_eq_append_iff.mp hlater with ⟨rfl, hr⟩ | ⟨pre, rfl, hlast⟩
      · obtain ⟨rfl, _⟩ := List.cons.inj hr
        have hlong : TooLongBefore 2 [[97, 98, 99]] :=
          ⟨[[97, 98, 99]], [], rfl, by decide, Lines.plain_nil⟩
        refine ⟨fun _ _ => .inr hlong, ?_⟩
        decide
      · cases pre with
        | nil => cases hlast
        | cons _ _ => cases hlast
  have hwithin : LinesWithin 2 ((decoder id).deliver (.withLimits 2 16)
      [[97, 98, LF, 97], [LF]]) := by
    have hitems : (decoder id).deliver (.withLimits 2 16) [[97, 98, LF, 97], [LF]] =
        [.ok (.line [97, 98]), .ok (.line [97])] := by decide +kernel
    intro l hl
    rw [hitems] at hl
    rcases List.mem_cons.mp hl with heq | hl
    · cases heq
      decide
    · cases List.mem_singleton.mp hl
      decide
  have henough := (line_length_le_iff (id : List UInt8 → List UInt8) 2 16
    [[97, 98, 99], [100, LF, 97, LF]]).2.1 (cleanReads_plain hsplit)
      (cutsNoCommand_plain 2 hsplit)
  have hneeded := (line_length_le_iff (id : List UInt8 → List UInt8) 2 16
    [[97, 98, LF, 97], [LF]]).2.1 (cleanReads_plain hshort) (cutsNoCommand_plain 2 hshort)
  exact ⟨henough.1 hin, hneeded.2 (by decide +kernel) hwithin⟩

/-- A line that comes in one read with its terminator is delivered, however long it is. -/
theorem deliver_terminated {l : List UInt8} {maxLineLength : Nat} (hl : Plain l) (hiac : IAC ∉ l)
    (hbuf : l.length + 1 ≤ maxBufferSize) :
    (decoder text).deliver (.withLimits maxLineLength maxBufferSize) [l ++ [LF]] =
      [.ok (.line (text l))] := by
  have hiac' : IAC ∉ l ++ [LF] := by
    simp [hiac, Ne.symm lf_ne_iac]
  have hparse : parse Kept.fresh.parser (l ++ [LF]) = (.data, l ++ [LF]) := Telnet.parse_data hiac'
  have hkept : Kept.fresh.data (l ++ [LF]) = l ++ [LF] := by
    rw [Kept.data, hparse]
    rfl
  have hresidue : residue (l ++ [LF]) = [] := Lines.residue_terminator hl (.lf [])
  have hcomplete : complete (l ++ [LF]) = [l] := Lines.complete_terminator hl (.lf [])
  have hsafe : Safe (.withLimits maxLineLength maxBufferSize) .fresh (l ++ [LF]) := by
    refine ⟨⟨?_, ?_⟩, ?_⟩
    · have hlen : (l ++ [LF]).length ≤ maxBufferSize := by
        rw [List.length_append]
        exact hbuf
      exact hlen
    · rw [hkept, hresidue, hparse]
      exact Nat.zero_le _
    · rw [hparse, hkept]
      exact clean_outside rfl fun hmem => hiac' ((leftover_suffix _).subset hmem)
  have halong : Transducer.Along readStep (Safe (.withLimits maxLineLength maxBufferSize)) .fresh
      [l ++ [LF]] := ⟨hsafe, trivial⟩
  have hrun : Transducer.run readStep .fresh [l ++ [LF]] = (⟨.data, []⟩, [l]) := by
    rw [Transducer.run_cons, readStep, hparse, hkept, hresidue, hcomplete]
    rfl
  rw [deliver_eq halong, hrun]
  rfl

/-- Five bytes and an LF in one read, with a limit of three. -/
theorem overlong_line_delivered :
    .ok (.line (asBytes "hello")) ∈
        (decoder id).deliver (.withLimits 3 16) [asBytes "hello" ++ [LF]] ∧
      ¬ (asBytes "hello").length ≤ 3 := by
  refine ⟨?_, by decide +kernel⟩
  rw [deliver_terminated (by decide +kernel) (by decide +kernel) (by decide +kernel)]
  exact List.mem_singleton_self _

end Liaozhai.Codec
