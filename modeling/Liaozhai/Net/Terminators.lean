import Liaozhai.Library.Utf8Lossy
import Liaozhai.Net.Streams

/-!
# Line ends cut between two reads

`consume_terminator` looks one byte ahead to tell CR LF from a lone CR. At the
end of a read there is no byte to look at: the CR ends the line alone, and the LF
that opens the next read ends an empty one. Two ways of cutting the same text
give the same items exactly when they cut equally many CR LF pairs between any
two text bytes.
-/

namespace Liaozhai.Codec

open Lines (LineState residue lines lastLine segments)
open Telnet (parse payload stateAfter)
open Utf8Lossy (fromUtf8Lossy)
set_option autoImplicit false

universe u

/-- The bytes of a read, the first of them marked. -/
def markFirst : List UInt8 → List (UInt8 × Bool)
  | [] => []
  | b :: bs => (b, true) :: bs.map fun b => (b, false)

/-- The bytes of all reads, marked where a read starts. -/
def marked (reads : List (List UInt8)) : List (UInt8 × Bool) := reads.flatMap markFirst

/-- The number of CR LF pairs cut between two reads, counted up to each text byte
and up to the end. -/
def cutPairs (afterCr : Bool) (n : Nat) : List (UInt8 × Bool) → List Nat
  | [] => [n]
  | (b, first) :: bs =>
    if b = LF then cutPairs false (if afterCr && first then n + 1 else n) bs
    else if b = CR then cutPairs true n bs
    else n :: cutPairs false n bs

theorem cutPairs_lf (afterCr : Bool) (n : Nat) (first : Bool) (bs : List (UInt8 × Bool)) :
    cutPairs afterCr n ((LF, first) :: bs) =
      cutPairs false (if afterCr && first then n + 1 else n) bs := by
  rw [cutPairs, if_pos rfl]

theorem cutPairs_cr (afterCr : Bool) (n : Nat) (first : Bool) (bs : List (UInt8 × Bool)) :
    cutPairs afterCr n ((CR, first) :: bs) = cutPairs true n bs := by
  rw [cutPairs, if_neg cr_ne_lf, if_pos rfl]

theorem cutPairs_text {b : UInt8} (hlf : b ≠ LF) (hcr : b ≠ CR) (afterCr : Bool) (n : Nat)
    (first : Bool) (bs : List (UInt8 × Bool)) :
    cutPairs afterCr n ((b, first) :: bs) = n :: cutPairs false n bs := by
  rw [cutPairs, if_neg hlf, if_neg hcr]

def cutCounts (reads : List (List UInt8)) : List Nat := cutPairs false 0 (marked reads)

/-- The line splitter of the codec: a read forgets the CR before it. -/
def cutStep (s : LineState) (x : UInt8 × Bool) : LineState × List (List UInt8) :=
  Lines.step (if x.2 then ⟨s.partialLine, false⟩ else s) x.1

theorem cutStep_lf (s : LineState) (first : Bool) :
    cutStep s (LF, first) = (.fresh, if s.afterCr && !first then [] else [s.partialLine]) := by
  cases first <;> simp [cutStep, Lines.step]

theorem cutStep_cr (s : LineState) (first : Bool) :
    cutStep s (CR, first) = (⟨[], true⟩, [s.partialLine]) := by
  cases first <;> simp [cutStep, Lines.step]

theorem cutStep_text {b : UInt8} (hlf : b ≠ LF) (hcr : b ≠ CR) (s : LineState) (first : Bool) :
    cutStep s (b, first) = (⟨s.partialLine ++ [b], false⟩, []) := by
  cases first <;> simp [cutStep, Lines.step, hlf, hcr]

def cutSplit : LineState → List (UInt8 × Bool) → LineState × List (List UInt8) :=
  Transducer.run cutStep

theorem map_fst_markFirst (r : List UInt8) : (markFirst r).map Prod.fst = r := by
  cases r with
  | nil => rfl
  | cons b bs => simp [markFirst, Function.comp_def]

theorem map_fst_marked (reads : List (List UInt8)) :
    (marked reads).map Prod.fst = reads.flatten := by
  induction reads with
  | nil => rfl
  | cons r rs ih =>
    rw [marked, List.flatMap_cons, List.map_append, map_fst_markFirst, List.flatten_cons]
    exact congrArg _ ih

theorem cutSplit_unmarked (s : LineState) (bs : List UInt8) :
    cutSplit s (bs.map fun b => (b, false)) = Lines.split s bs := by
  induction bs generalizing s with
  | nil => rfl
  | cons b bs ih =>
    rw [List.map_cons, cutSplit, Transducer.run_cons, Lines.split_cons, ← ih]
    rfl

theorem cutSplit_markFirst {r : List UInt8} (hr : r ≠ []) (s : LineState) :
    cutSplit s (markFirst r) = Lines.split ⟨s.partialLine, false⟩ r := by
  cases r with
  | nil => contradiction
  | cons b bs =>
    rw [markFirst, cutSplit, Transducer.run_cons, Lines.split_cons, ← cutSplit_unmarked]
    rfl

/-- One read of plain data, seen by the marked splitter. -/
theorem readStep_eq_cutSplit {r : List UInt8} (s : LineState) (hs : Lines.Plain s.partialLine)
    (hr : IAC ∉ r) :
    readStep ⟨.data, s.partialLine⟩ r =
      (⟨.data, (cutSplit s (markFirst r)).1.partialLine⟩, (cutSplit s (markFirst r)).2) := by
  have hsplit : Lines.split .fresh (s.partialLine ++ r) =
      Lines.split ⟨s.partialLine, false⟩ r := by
    rw [Lines.split_append, LineState.fresh, Lines.split_plain hs]
    rfl
  have hstep : readStep ⟨.data, s.partialLine⟩ r =
      (⟨.data, (Lines.split ⟨s.partialLine, false⟩ r).1.partialLine⟩,
        (Lines.split ⟨s.partialLine, false⟩ r).2) := by
    rw [readStep, Kept.data, Telnet.parse_data hr, Lines.residue, Lines.complete, hsplit]
  rw [hstep]
  by_cases hnil : r = []
  · rw [hnil]
    rfl
  · rw [cutSplit_markFirst hnil]

theorem run_readStep_eq_cutSplit {reads : List (List UInt8)} (hiac : IAC ∉ reads.flatten)
    (s : LineState) (hs : Lines.Plain s.partialLine) :
    Transducer.run readStep ⟨.data, s.partialLine⟩ reads =
      (⟨.data, (cutSplit s (marked reads)).1.partialLine⟩, (cutSplit s (marked reads)).2) := by
  induction reads generalizing s with
  | nil => rfl
  | cons r rs ih =>
    rw [List.flatten_cons, List.mem_append, not_or] at hiac
    have hstep := readStep_eq_cutSplit s hs hiac.1
    have hnext : Lines.Plain (cutSplit s (markFirst r)).1.partialLine := by
      have hres := Lines.plain_residue (Kept.data ⟨.data, s.partialLine⟩ r)
      have hkept := congrArg (fun x => x.1.partialLine) hstep
      dsimp only at hkept
      rw [← hkept]
      exact hres
    rw [Transducer.run_cons, hstep, ih hiac.2 _ hnext]
    have hcut : cutSplit s (marked (r :: rs)) =
        ((cutSplit (cutSplit s (markFirst r)).1 (marked rs)).1,
          (cutSplit s (markFirst r)).2 ++ (cutSplit (cutSplit s (markFirst r)).1 (marked rs)).2) :=
      Transducer.run_append cutStep s (markFirst r) (marked rs)
    rw [hcut]

/-- Lines that a codec delivers for marked bytes, from a state of the splitter. -/
def cutLines (s : LineState) (xs : List (UInt8 × Bool)) : List (List UInt8) :=
  (cutSplit s xs).2 ++ lastLine (cutSplit s xs).1.partialLine

theorem cutLines_cons (s : LineState) (x : UInt8 × Bool) (xs : List (UInt8 × Bool)) :
    cutLines s (x :: xs) = (cutStep s x).2 ++ cutLines (cutStep s x).1 xs := by
  rw [cutLines, cutSplit, Transducer.run_cons, List.append_assoc]
  rfl

/-- A line that has begun is not empty when it is delivered. -/
theorem cutLines_of_partial {s : LineState} (hs : s.partialLine ≠ []) (hcr : s.afterCr = false)
    (xs : List (UInt8 × Bool)) : ∃ l ls, cutLines s xs = l :: ls ∧ l ≠ [] := by
  induction xs generalizing s with
  | nil => exact ⟨s.partialLine, [], by simp [cutLines, cutSplit, lastLine, hs], hs⟩
  | cons x xs ih =>
    obtain ⟨b, first⟩ := x
    rw [cutLines_cons]
    by_cases hb : b = LF
    · rw [hb, cutStep_lf, hcr]
      exact ⟨s.partialLine, _, rfl, hs⟩
    by_cases hb' : b = CR
    · rw [hb', cutStep_cr]
      exact ⟨s.partialLine, _, rfl, hs⟩
    rw [cutStep_text hb hb']
    exact ih (by simp) rfl

section Compare
variable {Text : Type u} {f : List UInt8 → Text}

theorem replicate_append_cons_inj {α : Type u} {e x y : α} {a b : Nat} {l m : List α}
    (hx : x ≠ e) (hy : y ≠ e) :
    List.replicate a e ++ x :: l = List.replicate b e ++ y :: m ↔ a = b ∧ x :: l = y :: m := by
  induction a generalizing b with
  | zero =>
    cases b with
    | zero => simp
    | succ b => simp [List.replicate_succ, hx]
  | succ a ih =>
    cases b with
    | zero => simp [List.replicate_succ, Ne.symm hy]
    | succ b => simp [List.replicate_succ, ih]

theorem replicate_append_cons_self {α : Type u} (e : α) (n : Nat) (l : List α) :
    List.replicate n e ++ e :: l = e :: (List.replicate n e ++ l) := by
  induction n with
  | zero => rfl
  | succ n ih => simp [List.replicate_succ, ih]

/-- A line delivered by both cuts does not change the comparison. -/
theorem emit_iff {p : List UInt8} {m n : Nat} (hmn : p ≠ [] → m = n) {ls ls' : List Text} :
    List.replicate m (f []) ++ f p :: ls = List.replicate n (f []) ++ f p :: ls' ↔
      List.replicate m (f []) ++ ls = List.replicate n (f []) ++ ls' := by
  by_cases hp : p = []
  · rw [hp, replicate_append_cons_self, replicate_append_cons_self, List.cons.injEq]
    exact and_iff_right rfl
  · rw [hmn hp]
    simp

/-- Two cuts of the same bytes, from states that differ in the number of empty
lines delivered since the last text byte. -/
theorem cutLines_iff (hf : ∀ l, f l = f [] → l = []) {xs ys : List (UInt8 × Bool)}
    (hbytes : xs.map Prod.fst = ys.map Prod.fst) {s : LineState}
    (hs : s.afterCr = true → s.partialLine = []) {m n : Nat} (hmn : s.partialLine ≠ [] → m = n) :
    List.replicate m (f []) ++ (cutLines s xs).map f =
        List.replicate n (f []) ++ (cutLines s ys).map f ↔
      cutPairs s.afterCr m xs = cutPairs s.afterCr n ys := by
  induction xs generalizing ys s m n with
  | nil =>
    obtain rfl : ys = [] := by simpa using hbytes.symm
    by_cases hp : s.partialLine = []
    · simp [cutLines, cutSplit, lastLine, hp, cutPairs]
    · simp [hmn hp]
  | cons x xs ih =>
    cases ys with
    | nil => simp at hbytes
    | cons y ys =>
      obtain ⟨b, first⟩ := x
      obtain ⟨b', first'⟩ := y
      simp only [List.map_cons, List.cons.injEq] at hbytes
      obtain ⟨rfl, hbytes⟩ := hbytes
      rw [cutLines_cons, cutLines_cons]
      by_cases hlf : b = LF
      · rw [hlf, cutStep_lf, cutStep_lf]
        cases hcr : s.afterCr with
        | false =>
          have hnext := ih hbytes (s := .fresh) (by simp [LineState.fresh]) (m := m) (n := n)
            (by simp [LineState.fresh])
          rw [cutPairs_lf, cutPairs_lf]
          exact (emit_iff hmn).trans hnext
        | true =>
          have hempty : ∀ k first zs,
              List.replicate k (f []) ++ ((if true && !first then [] else [s.partialLine]) ++
                cutLines .fresh zs).map f =
              List.replicate (if first then k + 1 else k) (f []) ++ (cutLines .fresh zs).map f := by
            intro k first zs
            rw [hs hcr]
            cases first with
            | false => rfl
            | true =>
              simp [List.replicate_succ, replicate_append_cons_self]
          rw [cutPairs_lf, cutPairs_lf, hempty, hempty]
          exact ih hbytes (by simp [LineState.fresh]) (by simp [LineState.fresh])
      by_cases hcr : b = CR
      · rw [hcr, cutStep_cr, cutStep_cr, cutPairs_cr, cutPairs_cr]
        exact (emit_iff hmn).trans (ih hbytes (s := ⟨[], true⟩) (fun _ => rfl) (by simp))
      rw [cutStep_text hlf hcr, cutStep_text hlf hcr, cutPairs_text hlf hcr, cutPairs_text hlf hcr]
      by_cases hmn' : m = n
      · subst hmn'
        rw [List.cons.injEq, ← ih hbytes (s := ⟨s.partialLine ++ [b], false⟩) (by simp) fun _ => rfl]
        simp
      · obtain ⟨l, ls, hl, hne⟩ := cutLines_of_partial
          (s := ⟨s.partialLine ++ [b], false⟩) (by simp) rfl xs
        obtain ⟨l', ls', hl', hne'⟩ := cutLines_of_partial
          (s := ⟨s.partialLine ++ [b], false⟩) (by simp) rfl ys
        have hleft := replicate_append_cons_inj (a := m) (b := n) (l := ls.map f) (m := ls'.map f)
          (mt (hf l) hne) (mt (hf l') hne')
        rw [List.nil_append, List.nil_append, hl, hl', List.map_cons, List.map_cons, hleft]
        constructor
        · intro h
          exact absurd h.1 hmn'
        · intro h
          exact absurd (List.cons.inj h).1 hmn'

end Compare

section Items
variable {maxLineLength maxBufferSize : Nat}

theorem safe_plain {reads : List (List UInt8)} (hiac : IAC ∉ reads.flatten)
    (hline : ∀ l ∈ segments reads.flatten, l.length ≤ maxLineLength)
    (hbuf : reads.flatten.length ≤ maxBufferSize) :
    Transducer.Along readStep (Safe (.withLimits maxLineLength maxBufferSize)) .fresh reads := by
  have hpre : ∀ pre, pre <+: reads.flatten → IAC ∉ pre :=
    fun pre h hmem => hiac (h.subset hmem)
  have hshort : ShortLines maxLineLength reads.flatten := by
    intro pre h
    obtain ⟨hdata, hstate⟩ := payload_eq_self (hpre pre h)
    obtain ⟨more, hmore⟩ := h
    obtain ⟨l, hl, hstart⟩ := Lines.exists_segment_prefix pre more
    rw [hmore] at hl
    rw [hdata, hstate, Telnet.State.tail, List.append_nil]
    exact Nat.le_trans hstart.length_le (hline l hl)
  exact safe_reads hbuf hshort (cleanReads_plain hiac)

theorem run_readStep_plain {reads : List (List UInt8)} (hiac : IAC ∉ reads.flatten) :
    Transducer.run readStep .fresh reads =
      (⟨.data, (cutSplit .fresh (marked reads)).1.partialLine⟩,
        (cutSplit .fresh (marked reads)).2) :=
  run_readStep_eq_cutSplit hiac .fresh Lines.plain_nil

theorem deliver_cutLines {Text : Type u} {text : List UInt8 → Text} {reads : List (List UInt8)}
    (hiac : IAC ∉ reads.flatten)
    (hline : ∀ l ∈ segments reads.flatten, l.length ≤ maxLineLength)
    (hbuf : reads.flatten.length ≤ maxBufferSize) :
    (decoder text).deliver (.withLimits maxLineLength maxBufferSize) reads =
      (cutLines .fresh (marked reads)).map fun l => .ok (.line (text l)) := by
  rw [deliver_eq (safe_plain hiac hline hbuf), run_readStep_plain hiac]
  rfl

/-- Two cuts give the same items if and only if they cut equally many CR LF pairs
before every text byte and before the end. -/
theorem same_items_iff {T : List UInt8} {reads reads' : List (List UInt8)}
    (hreads : reads.flatten = T) (hreads' : reads'.flatten = T) (hiac : IAC ∉ T)
    (hline : ∀ l ∈ segments T, l.length ≤ maxLineLength) (hbuf : T.length ≤ maxBufferSize) :
    (decoder fromUtf8Lossy).deliver (.withLimits maxLineLength maxBufferSize) reads =
        (decoder fromUtf8Lossy).deliver (.withLimits maxLineLength maxBufferSize) reads' ↔
      cutCounts reads = cutCounts reads' := by
  subst hreads
  have hitem : ∀ l, (.ok (.line (fromUtf8Lossy l)) : Except TelnetCodecError (CodecItem String)) =
      .ok (.line (fromUtf8Lossy [])) → l = [] := by
    intro l h
    injection h with h
    injection h with h
    exact Utf8Lossy.fromUtf8Lossy_eq_empty.mp (h.trans (Utf8Lossy.fromUtf8Lossy_eq_empty.mpr rfl))
  have hbytes : (marked reads).map Prod.fst = (marked reads').map Prod.fst := by
    rw [map_fst_marked, map_fst_marked, hreads']
  rw [deliver_cutLines hiac hline hbuf,
    deliver_cutLines (hreads'.symm ▸ hiac) (hreads'.symm ▸ hline) (hreads'.symm ▸ hbuf)]
  exact cutLines_iff hitem hbytes (s := .fresh) (fun _ => rfl) (m := 0) (n := 0) (fun _ => rfl)

end Items

/-- A read that ends between CR and LF delivers one more line. -/
theorem same_items_cut_pair :
    (decoder fromUtf8Lossy).deliver (.withLimits 10 30) [[97, CR], [LF, 98, LF]] ≠
      (decoder fromUtf8Lossy).deliver (.withLimits 10 30) [[97, CR, LF, 98, LF]] := by
  have hiff := @same_items_iff 10 30 [97, CR, LF, 98, LF] [[97, CR], [LF, 98, LF]]
    [[97, CR, LF, 98, LF]] rfl rfl (by decide) (by decide) (by decide)
  rw [Ne, hiff]
  decide

theorem cut_pair_adds_line :
    ∃ reads reads' : List (List UInt8), reads.flatten = reads'.flatten ∧ IAC ∉ reads.flatten ∧
      (∀ l ∈ segments reads.flatten, l.length ≤ 10) ∧ reads.flatten.length ≤ 30 ∧
      (decoder fromUtf8Lossy).deliver (.withLimits 10 30) reads =
        [.ok (.line "a"), .ok (.line ""), .ok (.line "b")] ∧
      (decoder fromUtf8Lossy).deliver (.withLimits 10 30) reads' =
        [.ok (.line "a"), .ok (.line "b")] := by
  refine ⟨[[97, CR], [LF, 98, LF]], [[97, CR, LF, 98, LF]], ?_⟩
  decide +kernel

end Liaozhai.Codec
