import Liaozhai.Library.Utf8Lossy
import Liaozhai.Net.Streams

/-!
# Telnet sequences between data bytes

A stream is data with telnet sequences inserted anywhere. The parser drops every
complete sequence, so the data of the stream is the data alone. The two-byte and
three-byte commands never disturb the codec. A subnegotiation block does when a
read ends inside it and the codec still holds data from before the block: that
data is scanned again as if it belonged to the block.
-/

namespace Liaozhai.Codec

open Lines (Plain complete residue lines lastLine segments)
open Telnet (parse payload stateAfter)
open Utf8Lossy (fromUtf8Lossy)
set_option autoImplicit false

universe u v

inductive Piece (Sequence : Type v) where
  | byte (b : UInt8)
  | inserted (q : Sequence)

section Pieces
variable {Sequence : Type v} (bytes : Sequence → List UInt8)

def Piece.data : Piece Sequence → List UInt8
  | .byte b => [b]
  | .inserted _ => []

def Piece.encode : Piece Sequence → List UInt8
  | .byte b => [b]
  | .inserted q => bytes q

/-- The data bytes alone. -/
def dataOf (pieces : List (Piece Sequence)) : List UInt8 := pieces.flatMap Piece.data

/-- The data bytes with the sequences between them. -/
def streamOf (pieces : List (Piece Sequence)) : List UInt8 := pieces.flatMap (Piece.encode bytes)

variable {bytes}

theorem Piece.parse_encode {p : Piece Sequence} (hbytes : ∀ q, parse .data (bytes q) = (.data, []))
    (hp : IAC ∉ p.data) : parse .data (p.encode bytes) = (.data, p.data) := by
  cases p with
  | byte b => exact Telnet.parse_data hp
  | inserted q => exact hbytes q

theorem parse_streamOf {pieces : List (Piece Sequence)}
    (hbytes : ∀ q, parse .data (bytes q) = (.data, [])) (hdata : IAC ∉ dataOf pieces) :
    parse .data (streamOf bytes pieces) = (.data, dataOf pieces) := by
  induction pieces with
  | nil => rfl
  | cons p ps ih =>
    simp only [dataOf, List.flatMap_cons, List.mem_append, not_or] at hdata ih
    rw [streamOf, List.flatMap_cons, Telnet.parse_append, Piece.parse_encode hbytes hdata.1]
    change ((parse .data (streamOf bytes ps)).1, _ ++ (parse .data (streamOf bytes ps)).2) = _
    rw [ih hdata.2]
    rfl

theorem payload_streamOf {pieces : List (Piece Sequence)}
    (hbytes : ∀ q, parse .data (bytes q) = (.data, [])) (hdata : IAC ∉ dataOf pieces) :
    payload (streamOf bytes pieces) = dataOf pieces :=
  congrArg Prod.snd (parse_streamOf hbytes hdata)

end Pieces

/-! ### Commands -/

inductive Command where
  | simple (cmd : UInt8) (other : cmd ≠ IAC ∧ cmd ≠ SB ∧ isNegotiation cmd = false)
  | negotiation (verb option : UInt8) (isVerb : isNegotiation verb = true)

def Command.bytes : Command → List UInt8
  | .simple cmd _ => [IAC, cmd]
  | .negotiation verb option _ => [IAC, verb, option]

theorem Command.parse_bytes (q : Command) : parse .data q.bytes = (.data, []) := by
  cases q with
  | simple cmd other =>
    obtain ⟨hiac, hsb, hverb⟩ := other
    simp [Command.bytes, Telnet.parse_cons, Telnet.step, hiac, hsb, hverb]
  | negotiation verb option isVerb =>
    have hiac : verb ≠ IAC := by
      rintro rfl
      simp at isVerb
    simp [Command.bytes, Telnet.parse_cons, Telnet.step, hiac, isVerb]

theorem Command.outsideSub (q : Command) : OutsideSub .data q.bytes := by
  cases q with
  | simple cmd other =>
    obtain ⟨hiac, hsb, hverb⟩ := other
    simp [OutsideSub, Transducer.Along, Command.bytes, Telnet.step, Telnet.State.inSub, hiac, hsb,
      hverb]
  | negotiation verb option isVerb =>
    have hiac : verb ≠ IAC := by
      rintro rfl
      simp at isVerb
    simp [OutsideSub, Transducer.Along, Command.bytes, Telnet.step, Telnet.State.inSub, hiac,
      isVerb]

theorem outsideSub_streamOf {pieces : List (Piece Command)} (hdata : IAC ∉ dataOf pieces) :
    OutsideSub .data (streamOf Command.bytes pieces) := by
  induction pieces with
  | nil => trivial
  | cons p ps ih =>
    simp only [dataOf, List.flatMap_cons, List.mem_append, not_or] at hdata ih
    rw [streamOf, List.flatMap_cons, OutsideSub, Transducer.along_append]
    change _ ∧ OutsideSub (parse .data (p.encode Command.bytes)).1 (streamOf Command.bytes ps)
    rw [Piece.parse_encode Command.parse_bytes hdata.1]
    refine ⟨?_, ih hdata.2⟩
    cases p with
    | byte b =>
      have hb : b ≠ IAC := by
        rintro rfl
        simp [Piece.data] at hdata
      simp [Piece.encode, Transducer.Along, Telnet.step, Telnet.State.inSub, hb]
    | inserted q => exact q.outsideSub

section Commands
variable {maxLineLength maxBufferSize : Nat} {ls : List (List UInt8)} {last : List UInt8}
variable {pieces : List (Piece Command)} {reads : List (List UInt8)}

/-- Commands inserted anywhere and reads cut anywhere leave the lines as they are. -/
theorem commands_transparent (hdata : dataOf pieces = Lines.join ls last)
    (hlf : ∀ l ∈ ls ++ [last], LF ∉ l) (hcr : CR ∉ dataOf pieces) (hiac : IAC ∉ dataOf pieces)
    (hline : ∀ l ∈ ls ++ [last], l.length + 2 ≤ maxLineLength)
    (hbuf : (streamOf Command.bytes pieces).length ≤ maxBufferSize)
    (hreads : reads.flatten = streamOf Command.bytes pieces) :
    (decoder fromUtf8Lossy).deliver (.withLimits maxLineLength maxBufferSize) reads =
      (ls ++ lastLine last).map fun l => .ok (.line (fromUtf8Lossy l)) := by
  have hpayload : payload reads.flatten = dataOf pieces := by
    rw [hreads, payload_streamOf Command.parse_bytes hiac]
  obtain ⟨hls, hlast⟩ := Lines.plain_of_join (hdata ▸ hcr) hlf
  have hshort : ShortLines maxLineLength reads.flatten := by
    apply shortLines_of_segments
    rw [hpayload, hdata, Lines.segments_join hls hlast]
    exact hline
  have hclean : CleanReads reads := by
    apply cleanReads_of_iac_notMem
    · rw [hpayload]
      exact hiac
    · intro pre r post hsplit hsub
      have hpre : pre.flatten ++ r <+: streamOf Command.bytes pieces := by
        rw [← hreads, hsplit]
        exact ⟨post.flatten, by simp⟩
      rw [stateAfter_of_outsideSub (outsideSub_streamOf hiac) hpre] at hsub
      contradiction
  rw [deliver_lines (hpayload ▸ hcr) (hreads ▸ hbuf) hshort hclean, hpayload, hdata,
    Lines.lines_join hls hlast]

end Commands

theorem commands_transparent_split :
    (decoder fromUtf8Lossy).deliver (.withLimits 10 30)
        [[IAC, WILL], [10, 104, IAC], [241, 105, LF, 33]] =
      [.ok (.line "hi"), .ok (.line "!")] := by
  have hreads := @commands_transparent 10 30 [[104, 105]] [33]
    [.inserted (.negotiation WILL 10 (by decide)), .byte 104,
      .inserted (.simple 241 (by decide)), .byte 105, .byte LF, .byte 33]
    [[IAC, WILL], [10, 104, IAC], [241, 105, LF, 33]]
    rfl (by decide) (by decide) (by decide) (by decide) (by decide) rfl
  rw [hreads]
  decide +kernel

end Liaozhai.Codec
