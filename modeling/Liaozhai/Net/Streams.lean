import Mathlib.Data.List.Induction
import Liaozhai.Net.Reads

/-!
# Whole streams

The data of a stream is what the telnet parser puts out for it. When the data
has no CR, the lines of a run over several reads are the lines of the data,
however the stream was cut.
-/

namespace Liaozhai.Telnet

set_option autoImplicit false

/-- The data bytes of a stream. -/
def payload (bs : List UInt8) : List UInt8 := (parse .data bs).2

def stateAfter (bs : List UInt8) : State := (parse .data bs).1

theorem payload_append (as bs : List UInt8) :
    payload (as ++ bs) = payload as ++ (parse (stateAfter as) bs).2 := by
  rw [payload, parse_append]
  rfl

theorem stateAfter_append (as bs : List UInt8) :
    stateAfter (as ++ bs) = (parse (stateAfter as) bs).1 := by
  rw [stateAfter, parse_append]
  rfl

theorem payload_prefix {as bs : List UInt8} (h : as <+: bs) : payload as <+: payload bs :=
  Transducer.run_prefix step .data h

theorem step_length (s : State) (b : UInt8) :
    (step s b).2.length + (step s b).1.tail.length ≤ s.tail.length + 1 := by
  cases s <;> simp only [step] <;> (repeat' split) <;> simp [State.tail]

theorem parse_length (s : State) (bs : List UInt8) :
    (parse s bs).2.length + (parse s bs).1.tail.length ≤ s.tail.length + bs.length := by
  induction bs generalizing s with
  | nil => simp
  | cons b bs ih =>
    have hstep := step_length s b
    have hrest := ih (step s b).1
    rw [parse_cons]
    simp only [List.length_append, List.length_cons]
    omega

/-- A stream is at least as long as its data and the unfinished command after it. -/
theorem payload_length (bs : List UInt8) :
    (payload bs).length + (stateAfter bs).tail.length ≤ bs.length := by
  have h := parse_length .data bs
  rw [State.tail, List.length_nil, Nat.zero_add] at h
  exact h

theorem length_tail_le (s : State) : s.tail.length ≤ 2 := by
  cases s <;> simp [State.tail]

end Liaozhai.Telnet

namespace Liaozhai.Codec

open Lines (complete residue lines segments)
open Telnet (parse payload stateAfter)
set_option autoImplicit false

universe u

variable {Text : Type u} {text : List UInt8 → Text}
variable {maxLineLength maxBufferSize : Nat}

/-- What is kept after a stream, however it was cut into reads. -/
def Kept.after (bs : List UInt8) : Kept := ⟨stateAfter bs, residue (payload bs)⟩

theorem Kept.payload_append (as bs : List UInt8) :
    residue (payload (as ++ bs)) = residue ((Kept.after as).data bs) := by
  rw [Telnet.payload_append, Lines.residue_append]
  rfl

theorem Kept.after_append (as bs : List UInt8) :
    Kept.after (as ++ bs) = (readStep (Kept.after as) bs).1 := by
  rw [Kept.after, Telnet.stateAfter_append, Kept.payload_append]
  rfl

theorem run_readStep_fst (reads : List (List UInt8)) :
    (Transducer.run readStep .fresh reads).1 = Kept.after reads.flatten := by
  induction reads using List.reverseRecOn with
  | nil => rfl
  | append_singleton rs r ih =>
    rw [Transducer.run_append, ih, List.flatten_append, List.flatten_singleton, Kept.after_append]
    rfl

theorem run_readStep_snd {reads : List (List UInt8)} (h : CR ∉ payload reads.flatten) :
    (Transducer.run readStep .fresh reads).2 = complete (payload reads.flatten) := by
  induction reads using List.reverseRecOn with
  | nil => rfl
  | append_singleton rs r ih =>
    rw [List.flatten_append, List.flatten_singleton, Telnet.payload_append] at h ⊢
    have hrs : CR ∉ payload rs.flatten := fun hmem => h (List.mem_append_left _ hmem)
    rw [Transducer.run_append_snd, run_readStep_fst, ih hrs, Lines.complete_append hrs,
      Transducer.run_cons]
    simp only [Transducer.run_nil, List.append_nil]
    rfl

/-- The bytes that stay behind the first line of a read are clean at every read. -/
def CleanReads (reads : List (List UInt8)) : Prop :=
  ∀ pre r post, reads = pre ++ r :: post →
    Clean (stateAfter (pre.flatten ++ r)) (leftover ((Kept.after pre.flatten).data r))

/-- No step leads into a subnegotiation. -/
def OutsideSub : Telnet.State → List UInt8 → Prop :=
  Transducer.Along Telnet.step fun s b => (Telnet.step s b).1.inSub = false

theorem stateAfter_of_outsideSub {pre stream : List UInt8} (h : OutsideSub .data stream)
    (hpre : pre <+: stream) : (stateAfter pre).inSub = false :=
  Transducer.run_prefix_of_along Telnet.step (Q := fun s => s.inSub = false) h rfl hpre

/-- Data without an IAC and outside any block may be scanned again. -/
theorem cleanReads_of_iac_notMem {reads : List (List UInt8)}
    (hiac : IAC ∉ payload reads.flatten)
    (hsub : ∀ pre r post, reads = pre ++ r :: post →
      (stateAfter (pre.flatten ++ r)).inSub = true →
        leftover ((Kept.after pre.flatten).data r) = []) :
    CleanReads reads := by
  intro pre r post hsplit
  refine ⟨fun hmem => hiac ?_, hsub pre r post hsplit⟩
  have hstream : reads.flatten = pre.flatten ++ r ++ post.flatten := by
    rw [hsplit]
    simp
  rw [hstream, Telnet.payload_append, Telnet.payload_append]
  apply List.mem_append_left
  rcases List.mem_append.mp ((leftover_suffix _).subset hmem) with hold | hnew
  · exact List.mem_append_left _ ((Lines.residue_suffix _).subset hold)
  · exact List.mem_append_right _ hnew

theorem payload_eq_self {bs : List UInt8} (h : IAC ∉ bs) :
    payload bs = bs ∧ stateAfter bs = .data := by
  constructor
  · exact congrArg Prod.snd (Telnet.parse_data h)
  · exact congrArg Prod.fst (Telnet.parse_data h)

theorem cleanReads_plain {reads : List (List UInt8)} (hiac : IAC ∉ reads.flatten) :
    CleanReads reads := by
  apply cleanReads_of_iac_notMem
  · rw [(payload_eq_self hiac).1]
    exact hiac
  · intro pre r post hsplit hsub
    have hstart : pre.flatten ++ r <+: reads.flatten := by
      rw [hsplit]
      exact ⟨post.flatten, by simp⟩
    have hstate := (payload_eq_self fun hmem => hiac (hstart.subset hmem)).2
    rw [hstate] at hsub
    contradiction

/-- No prefix of the stream holds too much of one line. -/
def ShortLines (maxLineLength : Nat) (stream : List UInt8) : Prop :=
  ∀ pre, pre <+: stream →
    (residue (payload pre) ++ (stateAfter pre).tail).length ≤ maxLineLength

theorem fits_reads {reads : List (List UInt8)} (hbuf : reads.flatten.length ≤ maxBufferSize)
    (hline : ShortLines maxLineLength reads.flatten) :
    Transducer.Along readStep (Fits (.withLimits maxLineLength maxBufferSize)) .fresh reads := by
  rw [Transducer.along_iff]
  intro pre r post hsplit
  have hstream : reads.flatten = pre.flatten ++ r ++ post.flatten := by
    rw [hsplit]
    simp
  rw [run_readStep_fst]
  constructor
  · have hlen := Telnet.payload_length pre.flatten
    have hres := (Lines.residue_suffix (payload pre.flatten)).length_le
    rw [hstream] at hbuf
    simp only [Kept.after, List.length_append] at hbuf ⊢
    change _ ≤ maxBufferSize
    omega
  · have hshort := hline (pre.flatten ++ r) ⟨post.flatten, hstream.symm⟩
    rw [Kept.payload_append, Telnet.stateAfter_append] at hshort
    exact hshort

theorem safe_reads {reads : List (List UInt8)} (hbuf : reads.flatten.length ≤ maxBufferSize)
    (hline : ShortLines maxLineLength reads.flatten) (hclean : CleanReads reads) :
    Transducer.Along readStep (Safe (.withLimits maxLineLength maxBufferSize)) .fresh reads := by
  have hfits := fits_reads hbuf hline
  rw [Transducer.along_iff] at hfits ⊢
  intro pre r post hsplit
  refine ⟨hfits pre r post hsplit, ?_⟩
  have hstep := hclean pre r post hsplit
  rw [Telnet.stateAfter_append] at hstep
  rw [run_readStep_fst]
  exact hstep

/-- With clean reads the codec delivers the lines of the data. -/
theorem deliver_lines {reads : List (List UInt8)} (hcr : CR ∉ payload reads.flatten)
    (hbuf : reads.flatten.length ≤ maxBufferSize)
    (hline : ShortLines maxLineLength reads.flatten) (hclean : CleanReads reads) :
    (decoder text).deliver (.withLimits maxLineLength maxBufferSize) reads =
      (lines (payload reads.flatten)).map fun l => .ok (.line (text l)) := by
  rw [deliver_eq (safe_reads hbuf hline hclean), run_readStep_fst, run_readStep_snd hcr]
  rfl

/-- Lines with two bytes to spare are short on every prefix. -/
theorem shortLines_of_segments {stream : List UInt8}
    (h : ∀ l ∈ segments (payload stream), l.length + 2 ≤ maxLineLength) :
    ShortLines maxLineLength stream := by
  intro pre hpre
  obtain ⟨more, hmore⟩ := Telnet.payload_prefix hpre
  obtain ⟨l, hl, hpre⟩ := Lines.exists_segment_prefix (payload pre) more
  rw [hmore] at hl
  have hlen := hpre.length_le
  have htail := Telnet.length_tail_le (stateAfter pre)
  have hmax := h l hl
  rw [List.length_append]
  omega

end Liaozhai.Codec
