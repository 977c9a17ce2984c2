import Liaozhai.Net.Terminators

/-!
# Typed lines

What the codec delivers for text that is typed line by line, under any line ends
and any cuts: the lines, with empty ones after them where a CR LF pair was cut.
-/

namespace Liaozhai.Codec

open Lines (LineState Plain Terminator segments)
open Utf8Lossy (asBytes byte_ne_of_mem_asBytes fromUtf8Lossy)
set_option autoImplicit false

variable {l t rest : List UInt8} {s : LineState} {xs : List (UInt8 × Bool)}

theorem cutLines_text (hl : Plain l) (hne : l ≠ []) (hbytes : xs.map Prod.fst = l ++ rest) :
    ∃ ys, ys.map Prod.fst = rest ∧ cutLines s xs = cutLines ⟨s.partialLine ++ l, false⟩ ys := by
  induction l generalizing s xs with
  | nil => contradiction
  | cons b l ih =>
    obtain ⟨⟨b', first⟩, xs, rfl, rfl, hrest⟩ := List.map_eq_cons_iff.mp hbytes
    obtain ⟨hlf, hcr, hplain⟩ := hl.cons
    have hstep : cutLines s ((b', first) :: xs) = cutLines ⟨s.partialLine ++ [b'], false⟩ xs := by
      rw [cutLines_cons, cutStep_text hlf hcr]
      rfl
    by_cases hnil : l = []
    · subst hnil
      exact ⟨xs, hrest, hstep⟩
    · obtain ⟨ys, hys, hlast⟩ := ih hplain hnil hrest (s := ⟨s.partialLine ++ [b'], false⟩)
      refine ⟨ys, hys, ?_⟩
      rw [hstep, hlast, List.append_assoc]
      rfl

/-- A line end delivers the line, and an empty one when it is a pair that was cut. -/
theorem cutLines_end (ht : Terminator t rest) (hs : s.afterCr = false)
    (hbytes : xs.map Prod.fst = t ++ rest) :
    ∃ n ys s', ys.map Prod.fst = rest ∧ s'.partialLine = [] ∧
      cutLines s xs = s.partialLine :: (List.replicate n [] ++ cutLines s' ys) := by
  cases ht with
  | lf =>
    obtain ⟨⟨b, first⟩, ys, rfl, rfl, hys⟩ := List.map_eq_cons_iff.mp hbytes
    refine ⟨0, ys, .fresh, hys, rfl, ?_⟩
    rw [cutLines_cons, cutStep_lf, hs]
    rfl
  | crLf =>
    obtain ⟨⟨b, first⟩, ys', rfl, rfl, hys'⟩ := List.map_eq_cons_iff.mp hbytes
    obtain ⟨⟨b', first'⟩, ys, rfl, rfl, hys⟩ := List.map_eq_cons_iff.mp hys'
    cases first' with
    | false =>
      refine ⟨0, ys, .fresh, hys, rfl, ?_⟩
      rw [cutLines_cons, cutStep_cr, cutLines_cons, cutStep_lf]
      rfl
    | true =>
      refine ⟨1, ys, .fresh, hys, rfl, ?_⟩
      rw [cutLines_cons, cutStep_cr, cutLines_cons, cutStep_lf]
      rfl
  | cr _ =>
    obtain ⟨⟨b, first⟩, ys, rfl, rfl, hys⟩ := List.map_eq_cons_iff.mp hbytes
    refine ⟨0, ys, ⟨[], true⟩, hys, rfl, ?_⟩
    rw [cutLines_cons, cutStep_cr]
    rfl

theorem cutLines_typed (hl : Plain l) (hne : l ≠ []) (ht : Terminator t rest)
    (hs : s.partialLine = []) (hbytes : xs.map Prod.fst = l ++ (t ++ rest)) :
    ∃ n ys s', ys.map Prod.fst = rest ∧ s'.partialLine = [] ∧
      cutLines s xs = l :: (List.replicate n [] ++ cutLines s' ys) := by
  obtain ⟨ys, hys, htext⟩ := cutLines_text hl hne hbytes
  rw [htext, hs, List.nil_append]
  exact cutLines_end ht rfl hys

/-- Two typed lines, whichever way they end and are cut. -/
theorem deliver_typed {first second t t' : List UInt8} {reads : List (List UInt8)}
    {maxLineLength maxBufferSize : Nat}
    (hfirst : Plain first ∧ first ≠ []) (hsecond : Plain second ∧ second ≠ [])
    (ht : Terminator t (second ++ (t' ++ []))) (ht' : Terminator t' [])
    (hreads : reads.flatten = first ++ (t ++ (second ++ (t' ++ []))))
    (hiac : IAC ∉ reads.flatten) (hbuf : reads.flatten.length ≤ maxBufferSize)
    (hlen : first.length ≤ maxLineLength) (hlen' : second.length ≤ maxLineLength) :
    ∃ m n, (decoder fromUtf8Lossy).deliver (.withLimits maxLineLength maxBufferSize) reads =
      .ok (.line (fromUtf8Lossy first)) :: (List.replicate m (.ok (.line "")) ++
        .ok (.line (fromUtf8Lossy second)) :: List.replicate n (.ok (.line ""))) := by
  have hline : ∀ l ∈ segments reads.flatten, l.length ≤ maxLineLength := by
    rw [hreads, segments, Lines.complete_terminator hfirst.1 ht,
      Lines.complete_terminator hsecond.1 ht', Lines.residue_terminator hfirst.1 ht,
      Lines.residue_terminator hsecond.1 ht']
    intro l hl
    rcases List.mem_cons.mp hl with rfl | hl
    · exact hlen
    rcases List.mem_cons.mp hl with rfl | hl
    · exact hlen'
    · obtain rfl := List.mem_singleton.mp hl
      exact Nat.zero_le _
  have hempty : fromUtf8Lossy [] = "" := Utf8Lossy.fromUtf8Lossy_eq_empty.mpr rfl
  have hbytes : (marked reads).map Prod.fst = first ++ (t ++ (second ++ (t' ++ []))) := by
    rw [map_fst_marked, hreads]
  obtain ⟨m, ys, s, hys, hs, hfirstLine⟩ := cutLines_typed hfirst.1 hfirst.2 ht (s := .fresh) rfl hbytes
  obtain ⟨n, zs, s', hzs, hs', hsecondLine⟩ := cutLines_typed hsecond.1 hsecond.2 ht' hs hys
  obtain rfl := List.map_eq_nil_iff.mp hzs
  refine ⟨m, n, ?_⟩
  have hend : cutLines s' [] = [] := by
    simp [cutLines, cutSplit, Lines.lastLine, hs']
  rw [deliver_cutLines hiac hline hbuf, hfirstLine, hsecondLine, hend]
  simp [hempty]

end Liaozhai.Codec
