import Liaozhai.Net.Recovery

/-!
# When a line within the limit is rejected

The limit is meant for the data of a line, but `decode` measures the buffer, and the
buffer may end in the one or two bytes of an unfinished command. A line within the
limit is rejected exactly when a read ends inside a command and the data of the line so
far leaves no room for those bytes.
-/

namespace Liaozhai.Codec

open Lines (complete residue segments)
open Telnet (parse payload stateAfter)
open Utf8Lossy (fromUtf8Lossy)
set_option autoImplicit false

universe u

variable {Text : Type u} {text : List UInt8 → Text}
variable {c : TelnetLineCodec} {r : List UInt8} {rs : List (List UInt8)} {k : Kept}

/-- What a read leaves of a line, with the beginning of a command behind it, is within
the limit. -/
def LeavesShort (limit : Nat) (k : Kept) (r : List UInt8) : Prop :=
  (residue (k.data r) ++ (parse k.parser r).1.tail).length ≤ limit

instance (limit : Nat) (k : Kept) (r : List UInt8) : Decidable (LeavesShort limit k r) :=
  inferInstanceAs (Decidable (_ ≤ _))

/-- The data of the line in progress and the bytes of the command in progress are within
the limit wherever a read ends. -/
def RoomForCommands (limit : Nat) (reads : List (List UInt8)) : Prop :=
  ∀ pre, pre <+: reads →
    (residue (payload pre.flatten)).length + (stateAfter pre.flatten).tail.length ≤ limit

theorem roomForCommands_iff {limit : Nat} {reads : List (List UInt8)} :
    RoomForCommands limit reads ↔
      Transducer.Along readStep (LeavesShort limit) .fresh reads := by
  have hafter : ∀ (pre : List (List UInt8)) (r : List UInt8),
      LeavesShort limit (Transducer.run readStep .fresh pre).1 r ↔
        (residue (payload (pre ++ [r]).flatten)).length +
          (stateAfter (pre ++ [r]).flatten).tail.length ≤ limit := by
    intro pre r
    rw [run_readStep_fst, LeavesShort, List.length_append, List.flatten_append,
      List.flatten_singleton, Kept.payload_append, Telnet.stateAfter_append]
    rfl
  rw [Transducer.along_iff]
  constructor
  · rintro h pre r post rfl
    rw [hafter]
    exact h (pre ++ [r]) ⟨post, by simp⟩
  · rintro h pre ⟨post, rfl⟩
    rcases List.eq_nil_or_concat pre with rfl | ⟨pre, r, rfl⟩
    · exact Nat.zero_le _
    · rw [List.concat_eq_append, ← hafter]
      exact h pre r post (by simp)

theorem lineTooLong_notMem_lines (ls : List (List UInt8)) :
    (.ok .lineTooLong : Except TelnetCodecError (CodecItem Text)) ∉
      ls.map fun l => .ok (.line (text l)) := by
  intro hmem
  obtain ⟨l, _, hl⟩ := List.mem_map.mp hmem
  cases hl

/-- The calls after a read at a place of the stream. -/
theorem afterRead_place (text : List UInt8 → Text) (hc : AtRest c) (hk : Place k)
    (hr : Simple k.parser r)
    (hbuf : (k.partialLine ++ k.parser.tail ++ r).length ≤ c.maxBufferSize) :
    (decoder text).afterRead c (k.partialLine ++ k.parser.tail ++ r) =
      if LeavesShort c.maxLineLength k r then
        ⟨(complete (k.data r)).map fun l => .line (text l), none, c,
          residue (k.data r) ++ (parse k.parser r).1.tail⟩
      else
        ⟨((complete (k.data r)).map fun l => .line (text l)) ++ [.lineTooLong], none,
          c.discard, []⟩ := by
  have hk' := hk.next hr
  have hiac : IAC ∉ k.data r := by
    rw [Kept.data, List.mem_append, not_or]
    exact ⟨hk.iac, hr.iac⟩
  obtain ⟨hread, hlen⟩ := afterRead_append text hc hk.valid hk.outside hk'.outside hk.iac hr.iac hbuf
  exact hread.trans (afterRead_clean text hc hk'.outside hk'.valid hiac hlen)

/-- What a read leaves is not longer than the buffer was. -/
theorem readStep_length (hc : AtRest c) (hk : Place k) (hr : Simple k.parser r)
    (hbuf : (k.partialLine ++ k.parser.tail ++ r).length ≤ c.maxBufferSize) :
    ((readStep k r).1.partialLine ++ (readStep k r).1.parser.tail).length ≤ c.maxBufferSize := by
  have hk' := hk.next hr
  have hlen := (afterRead_append id hc hk.valid hk.outside hk'.outside hk.iac hr.iac hbuf).2
  have hres := (Lines.residue_suffix (k.data r)).length_le
  rw [Kept.data, List.length_append] at hres
  simp only [readStep, Kept.data, List.length_append] at hlen ⊢
  omega

/-- The run rejects no line exactly when every read leaves a short one. -/
theorem rejects_iff (text : List UInt8 → Text) {reads : List (List UInt8)} (hc : AtRest c)
    (hk : Place k) (hstream : Simple k.parser reads.flatten)
    (hline : (k.partialLine ++ k.parser.tail).length ≤ c.maxLineLength)
    (hkept : (k.partialLine ++ k.parser.tail).length ≤ c.maxBufferSize)
    (hbuf : WithinBuffer text c (k.partialLine ++ k.parser.tail) reads) :
    .ok .lineTooLong ∉ (decoder text).deliverFrom c (k.partialLine ++ k.parser.tail) reads ↔
      Transducer.Along readStep (LeavesShort c.maxLineLength) k reads := by
  induction reads generalizing k with
  | nil =>
    have hbetween := hk.between hc hkept hline
    rw [(decoder text).deliverFrom_nil, hbetween.afterEof_results hc.discarding]
    exact iff_of_true (lineTooLong_notMem_lines _) trivial
  | cons r rs ih =>
    rw [List.flatten_cons] at hstream
    obtain ⟨hr, hrs⟩ := hstream.append
    obtain ⟨hlen, hlater⟩ := withinBuffer_cons hbuf
    have hread := afterRead_place text hc hk hr hlen
    have herr : ((decoder text).afterRead c (k.partialLine ++ k.parser.tail ++ r)).error = none := by
      rw [hread]
      split
      · rfl
      · rfl
    rw [(decoder text).deliverFrom_cons herr, Transducer.Along]
    by_cases hshort : LeavesShort c.maxLineLength k r
    · rw [if_pos hshort] at hread
      rw [hread] at hlater ⊢
      have hnext := ih (hk.next hr) hrs hshort (readStep_length hc hk hr hlen) hlater
      rw [List.map_map, List.mem_append, not_or, and_iff_right hshort]
      exact (and_iff_right (lineTooLong_notMem_lines _)).trans hnext
    · -- the line is lost here, whatever its data
      rw [if_neg hshort] at hread
      rw [hread]
      refine iff_of_false (fun hnone => hnone ?_) (fun hall => hshort hall.1)
      simp

section Commands
variable {maxLineLength maxBufferSize : Nat} {pieces : List (Piece Command)}
  {reads : List (List UInt8)}

/-- With commands between the data, no line is rejected if and only if wherever a read
ends the data of the line so far leaves room for the command in progress. -/
theorem lineTooLong_notMem_iff (hcr : CR ∉ dataOf pieces) (hiac : IAC ∉ dataOf pieces)
    (hreads : reads.flatten = streamOf Command.bytes pieces)
    (hbuf : WithinBuffer fromUtf8Lossy (.withLimits maxLineLength maxBufferSize) [] reads) :
    .ok .lineTooLong ∉
        (decoder fromUtf8Lossy).deliver (.withLimits maxLineLength maxBufferSize) reads ↔
      RoomForCommands maxLineLength reads := by
  rw [roomForCommands_iff]
  exact rejects_iff fromUtf8Lossy (atRest_withLimits _ _) place_fresh
    (simple_streamOf hcr hiac hreads) (Nat.zero_le _) (Nat.zero_le _) hbuf

end Commands

/-- Three data bytes, and a command before the end of the line. -/
def shortLine : List (Piece Command) :=
  [.byte 97, .byte 98, .byte 99, .inserted (.simple 241 (by decide)), .byte LF]

/-- Cut behind its data, the line is delivered. -/
theorem shortLine_delivered :
    .ok .lineTooLong ∉ (decoder fromUtf8Lossy).deliver (.withLimits 3 8)
        [[97, 98, 99], [IAC, 241, LF]] ∧
      RoomForCommands 3 [[97, 98, 99], [IAC, 241, LF]] := by
  have hiff := @lineTooLong_notMem_iff 3 8 shortLine [[97, 98, 99], [IAC, 241, LF]]
    (by decide) (by decide) rfl (by decide +kernel)
  have hdelivered : .ok .lineTooLong ∉ (decoder fromUtf8Lossy).deliver (.withLimits 3 8)
      [[97, 98, 99], [IAC, 241, LF]] := by
    decide +kernel
  exact ⟨hdelivered, hiff.mp hdelivered⟩

/-- Cut inside the command, the same line is rejected, although it has no more than the
three bytes of the limit. -/
theorem shortLine_rejected :
    [[97, 98, 99, IAC], [241, LF]].flatten = streamOf Command.bytes shortLine ∧
      CR ∉ dataOf shortLine ∧ IAC ∉ dataOf shortLine ∧
      (∀ l ∈ segments (dataOf shortLine), l.length ≤ 3) ∧
      WithinBuffer fromUtf8Lossy (.withLimits 3 8) [] [[97, 98, 99, IAC], [241, LF]] ∧
      .ok .lineTooLong ∈ (decoder fromUtf8Lossy).deliver (.withLimits 3 8)
        [[97, 98, 99, IAC], [241, LF]] := by
  refine ⟨rfl, ?_, ?_, ?_, ?_, ?_⟩
  · decide
  · decide
  · decide
  · decide +kernel
  · decide +kernel

end Liaozhai.Codec
