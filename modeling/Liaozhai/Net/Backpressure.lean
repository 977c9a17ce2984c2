import Liaozhai.Net.BufferLimit
import Liaozhai.Net.Socket

/-!
# What a connection holds in memory

The handler reads on only when the codec has asked for more, and then little is left
in the buffer. So however much the client sends ahead, the buffer holds the beginning
of a line and one read, and the buffer limit matters to a single read only.
-/

namespace Liaozhai.Net.Socket

open Codec
open Framed (Reader ReaderEvent)
open SocketEvent (chunks handed)
open Utf8Lossy (fromUtf8Lossy)
set_option autoImplicit false

variable {ctx : SessionContext} {codec : TelnetLineCodec} {s : Socket} {es : List SocketEvent}
  {r r' : Reader TelnetLineCodec UInt8} {e : LineEvent} {events : List LineEvent} {n : Nat}

theorem decodeEof_limits (c : TelnetLineCodec) (buf : List UInt8) :
    (decodeEof fromUtf8Lossy c buf).state.maxLineLength = c.maxLineLength ∧
      (decodeEof fromUtf8Lossy c buf).state.maxBufferSize = c.maxBufferSize ∧
      (decodeEof fromUtf8Lossy c buf).buf.length ≤ buf.length := by
  obtain ⟨hline, hbuf⟩ := @decode_limits _ fromUtf8Lossy c buf
  obtain ⟨hle, _⟩ := @decode_shrinks _ fromUtf8Lossy c buf
  unfold decodeEof
  dsimp only
  split
  · exact ⟨hline, hbuf, hle⟩
  · exact ⟨hline, hbuf, hle⟩
  · split
    · exact ⟨hline, hbuf, Nat.zero_le _⟩
    · split
      · exact ⟨hline, hbuf, Nat.zero_le _⟩
      · split
        · exact ⟨hline, hbuf, Nat.zero_le _⟩
        · exact ⟨hline, hbuf, Nat.zero_le _⟩

theorem decodeEof_error {c : TelnetLineCodec} {buf : List UInt8} {error : TelnetCodecError}
    (h : (decodeEof fromUtf8Lossy c buf).result = .error error) : c.maxBufferSize < buf.length := by
  have hdecode : (decode fromUtf8Lossy c buf).result = .error error := by
    unfold decodeEof at h
    dsimp only at h
    split at h
    · rename_i heq
      rw [heq]
      exact h
    · cases h
    · split at h
      · cases h
      · split at h
        · cases h
        · split at h
          · cases h
          · cases h
  exact ((decode_error_iff c buf error).mp hdecode).1

/-- What a reader holds, if its reads bring at most `n` bytes. -/
structure Bounded (codec : TelnetLineCodec) (n : Nat) (r : Reader TelnetLineCodec UInt8) : Prop where
  line : r.state.maxLineLength = codec.maxLineLength
  buffer : r.state.maxBufferSize = codec.maxBufferSize
  held : r.buf.length ≤ codec.maxLineLength + n
  starved : r.phase = .starved → r.buf.length ≤ codec.maxLineLength

theorem bounded_decode (h : Bounded codec n r) {c : TelnetLineCodec} {buf : List UInt8}
    {result : Except TelnetCodecError (Option (CodecItem String))} {phase : Framed.Phase}
    (hcall : (decoder fromUtf8Lossy).decode r.state r.buf = ⟨result, c, buf⟩)
    (hphase : phase ≠ .starved) : Bounded codec n ⟨c, buf, phase⟩ := by
  have hcall' : decode fromUtf8Lossy r.state r.buf = ⟨result, c, buf⟩ := hcall
  have hlimits := @decode_limits _ fromUtf8Lossy r.state r.buf
  have hle := (@decode_shrinks _ fromUtf8Lossy r.state r.buf).1
  rw [hcall'] at hlimits hle
  have hheld := h.held
  exact ⟨hlimits.1.trans h.line, hlimits.2.trans h.buffer, Nat.le_trans hle hheld,
    fun hstarved => absurd hstarved hphase⟩

theorem bounded_decodeEof (h : Bounded codec n r) {c : TelnetLineCodec} {buf : List UInt8}
    {result : Except TelnetCodecError (Option (CodecItem String))} {phase : Framed.Phase}
    (hcall : (decoder fromUtf8Lossy).decodeEof r.state r.buf = ⟨result, c, buf⟩)
    (hphase : phase ≠ .starved) : Bounded codec n ⟨c, buf, phase⟩ := by
  have hcall' : decodeEof fromUtf8Lossy r.state r.buf = ⟨result, c, buf⟩ := hcall
  obtain ⟨hline, hbuffer, hle⟩ := decodeEof_limits r.state r.buf
  rw [hcall'] at hline hbuffer hle
  have hheld := h.held
  exact ⟨hline.trans h.line, hbuffer.trans h.buffer, Nat.le_trans hle hheld,
    fun hstarved => absurd hstarved hphase⟩

theorem bounded_step (h : Bounded codec n r) (htakes : Reader.Takes (decoder fromUtf8Lossy) r e r')
    (hchunk : ∀ chunk, e.chunk? = some chunk → chunk.length ≤ n) : Bounded codec n r' := by
  cases htakes with
  | @read chunk hphase hne =>
    have hshort := hchunk chunk (Reader.chunk?_read hne)
    have hheld := h.starved hphase
    refine ⟨h.line, h.buffer, ?_, ?_⟩
    · simp only [List.length_append]
      omega
    · intro hstarved
      cases hstarved
  | noMore hphase =>
    refine ⟨h.line, h.buffer, h.held, ?_⟩
    intro hstarved
    cases hstarved
  | @asked c buf hphase hcall =>
    have hcall' : decode fromUtf8Lossy r.state r.buf = ⟨.ok none, c, buf⟩ := hcall
    have hlimits := @decode_limits _ fromUtf8Lossy r.state r.buf
    have hkept := (decode_none_retained r.state r.buf (by rw [hcall'])).length
    rw [hcall'] at hlimits hkept
    have hline := hlimits.1.trans h.line
    change buf.length ≤ c.maxLineLength at hkept
    change c.maxLineLength = codec.maxLineLength at hline
    rw [hline] at hkept
    exact ⟨hline, hlimits.2.trans h.buffer, Nat.le_trans hkept (Nat.le_add_right _ _),
      fun _ => hkept⟩
  | frame hphase hcall => exact bounded_decode h hcall Framed.Phase.noConfusion
  | failed hphase hcall => exact bounded_decode h hcall Framed.Phase.noConfusion
  | lastFrame hphase hcall => exact bounded_decodeEof h hcall Framed.Phase.noConfusion
  | ended hphase hcall => exact bounded_decodeEof h hcall Framed.Phase.noConfusion
  | lastFailed hphase hcall => exact bounded_decodeEof h hcall Framed.Phase.noConfusion

/-- With room for a read on top of a line no call fails. -/
theorem no_error_step (h : Bounded codec n r) (hroom : codec.maxLineLength + n ≤ codec.maxBufferSize)
    (htakes : Reader.Takes (decoder fromUtf8Lossy) r e r') (error : TelnetCodecError) :
    e.frame? ≠ some (.error error) := by
  have hheld := h.held
  have hbuffer := h.buffer
  intro hframe
  cases htakes with
  | @failed c buf err hphase hcall =>
    have hcall' : decode fromUtf8Lossy r.state r.buf = ⟨.error err, c, buf⟩ := hcall
    have hlong := ((decode_error_iff r.state r.buf err).mp (by rw [hcall'])).1
    omega
  | @lastFailed c buf err hphase hcall =>
    have hcall' : decodeEof fromUtf8Lossy r.state r.buf = ⟨.error err, c, buf⟩ := hcall
    have hlong := @decodeEof_error r.state r.buf err (by rw [hcall'])
    omega
  | read | noMore | asked | frame | lastFrame | ended => cases hframe

theorem bounded_run (h : Bounded codec n r)
    (hrun : Machine.run (Reader.step (decoder fromUtf8Lossy)) r events = some r')
    (hreads : ∀ chunk ∈ ReaderEvent.chunks events, chunk.length ≤ n) :
    Bounded codec n r' ∧ (codec.maxLineLength + n ≤ codec.maxBufferSize →
      ∀ error, .error error ∉ ReaderEvent.frames events) := by
  induction events generalizing r with
  | nil =>
    obtain rfl := Option.some.inj hrun
    exact ⟨h, fun _ _ hmem => List.not_mem_nil hmem⟩
  | cons e events ih =>
    obtain ⟨t, ht, hrest⟩ := Machine.run_cons.mp hrun
    have htakes := Reader.step_cases ht
    rw [ReaderEvent.chunks, Reader.filterMap_cons_toList] at hreads
    have hchunk : ∀ chunk, e.chunk? = some chunk → chunk.length ≤ n := by
      intro chunk heq
      apply hreads
      rw [heq]
      exact List.mem_append_left _ (List.mem_singleton_self chunk)
    obtain ⟨hbounded, hnever⟩ := ih (bounded_step h htakes hchunk) hrest
      (fun chunk hmem => hreads chunk (List.mem_append_right _ hmem))
    refine ⟨hbounded, ?_⟩
    intro hroom error hmem
    rw [ReaderEvent.frames, Reader.filterMap_cons_toList] at hmem
    rcases List.mem_append.mp hmem with hnow | hlater
    · exact no_error_step h hroom htakes error (Option.mem_toList.mp hnow)
    · exact hnever hroom error hlater

/-- However much the client sends ahead and however slow the handler is: with reads of at
most `n` bytes a connection buffers no more than a line and one read, and no more than a
line while it waits for bytes. If the buffer limit leaves room for both, no overflow is
ever reported. -/
theorem memory_bounded (hrun : run ctx (new ctx codec) es = some s)
    (hreads : ∀ chunk ∈ chunks es, chunk.length ≤ n) :
    s.reader.buf.length ≤ codec.maxLineLength + n ∧
      (s.reader.phase = .starved → s.reader.buf.length ≤ codec.maxLineLength) ∧
      (codec.maxLineLength + n ≤ codec.maxBufferSize → ∀ error, .error error ∉ handed es) := by
  have hfresh : Bounded codec n (.fresh codec) :=
    ⟨rfl, rfl, Nat.zero_le _, fun _ => Nat.zero_le _⟩
  obtain ⟨hbounded, hnever⟩ := bounded_run hfresh (reader_run hrun) hreads
  exact ⟨hbounded.held, hbounded.starved, hnever⟩

theorem memory_bounded_cutName : ∃ s,
    run ⟨⟨[]⟩, 3⟩ (new ⟨⟨[]⟩, 3⟩ (.withLimits 10 20)) cutName = some s ∧ s.reader.buf.length ≤ 13 := by
  have hruns : (run ⟨⟨[]⟩, 3⟩ (new ⟨⟨[]⟩, 3⟩ (.withLimits 10 20)) cutName).isSome = true := by
    decide +kernel
  obtain ⟨s, hrun⟩ := Option.isSome_iff_exists.mp hruns
  have hreads : ∀ chunk ∈ chunks cutName, chunk.length ≤ 3 := by
    have hchunks : chunks cutName = [[97, 108, 105], [99, 101, LF]] := rfl
    rw [hchunks]
    decide
  exact ⟨s, hrun, (memory_bounded hrun hreads).1⟩

end Liaozhai.Net.Socket
