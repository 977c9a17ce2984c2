import Liaozhai.Library.Utf8Lossy
import Liaozhai.Net.Decode

/-!
# When the buffer can overflow

A call that asks for more retains the beginning of one line and nothing else. So the
buffer limit is exceeded, if at all, by a read that is added to such a beginning, and the
call that returns the error is the first one after that read.
-/

namespace Liaozhai.Codec

open Lines (Plain)
open Utf8Lossy (fromUtf8Lossy)
set_option autoImplicit false

universe u

variable {Text : Type u} {text : List UInt8 → Text}
variable {c : TelnetLineCodec} {buf : List UInt8} {reads : List (List UInt8)}

theorem decode_limits_buffer (text : List UInt8 → Text) :
    Framed.Limits (fun c => c.maxBufferSize) (decode text) where
  fails_iff := by
    intro c buf
    constructor
    · rintro ⟨e, he⟩
      exact ((decode_error_iff c buf e).mp he).1
    · intro hlong
      exact ⟨_, (decode_error_iff c buf _).mpr ⟨hlong, rfl⟩⟩
  same := fun c buf => (decode_limits c buf).2

/-- The bytes retained after reads without an error, when they began within the limit. -/
theorem afterReads_length (text : List UInt8 → Text) (hbuf : buf.length ≤ c.maxLineLength)
    (herr : ((decoder text).afterReads c buf reads).error = none) :
    ((decoder text).afterReads c buf reads).buf.length ≤ c.maxLineLength := by
  have hretains : ∀ c buf, (decode text c buf).result = .ok none →
      (decode text c buf).buf.length ≤ (decode text c buf).state.maxLineLength :=
    fun c buf hnone => (decode_none_retained c buf hnone).length
  have hkeeps : ∀ c' buf', c'.maxLineLength = c.maxLineLength →
      (decode text c' buf').state.maxLineLength = c.maxLineLength :=
    fun c' buf' hc' => (decode_limits c' buf').1.trans hc'
  have hlimit : ((decoder text).afterReads c buf reads).state.maxLineLength = c.maxLineLength :=
    (decoder text).afterReads_keeps hkeeps rfl
  have hlen := @Framed.Decoder.afterReads_retains _ _ _ _
    (fun (c' : TelnetLineCodec) (buf' : List UInt8) => buf'.length ≤ c'.maxLineLength)
    c buf (decoder text) reads hretains hbuf herr
  rw [hlimit] at hlen
  exact hlen

/-- An overflow is the answer to the first call after a read. -/
theorem afterReads_bufferOverflow {e : TelnetCodecError}
    (herr : ((decoder text).afterReads c buf reads).error = some e) :
    ∃ pre r post, reads = pre ++ r :: post ∧
      ((decoder text).afterReads c buf pre).error = none ∧
      c.maxBufferSize < ((decoder text).afterReads c buf pre).buf.length + r.length ∧
      (decode text ((decoder text).afterReads c buf pre).state
        (((decoder text).afterReads c buf pre).buf ++ r)).result = .error e ∧
      e = .bufferOverflow c.maxBufferSize := by
  obtain ⟨pre, r, post, hsplit, hbefore, hfirst, hlong⟩ :=
    (decoder text).afterReads_overflow (decode_limits_buffer text) herr
  have hkeeps : ∀ c' buf', c'.maxBufferSize = c.maxBufferSize →
      (decode text c' buf').state.maxBufferSize = c.maxBufferSize :=
    fun c' buf' hc' => (decode_limits c' buf').2.trans hc'
  have hlimit : ((decoder text).afterReads c buf pre).state.maxBufferSize = c.maxBufferSize :=
    (decoder text).afterReads_keeps hkeeps rfl
  have he := ((decode_error_iff _ _ e).mp hfirst).2
  rw [hlimit] at he
  exact ⟨pre, r, post, hsplit, hbefore, hlong, hfirst, he⟩

/-- Whatever state the codec is in, and whatever bytes come: a call that asks for more
retains no line end and no more than the line limit, and nothing while it discards. So a
buffer overflow is the answer to the first call after a read that exceeds the buffer limit
together with the bytes retained, and no read overflows that leaves room for them. -/
theorem buffer_bounded (text : List UInt8 → Text) :
    (∀ c buf, (decode text c buf).result = .ok none →
      Plain (decode text c buf).buf ∧ (decode text c buf).buf.length ≤ c.maxLineLength ∧
        ((decode text c buf).state.discarding = true → (decode text c buf).buf = [])) ∧
    (∀ c buf reads e, ((decoder text).afterReads c buf reads).error = some e →
      ∃ pre r post, reads = pre ++ r :: post ∧
        ((decoder text).afterReads c buf pre).error = none ∧
        c.maxBufferSize < ((decoder text).afterReads c buf pre).buf.length + r.length ∧
        (decode text ((decoder text).afterReads c buf pre).state
          (((decoder text).afterReads c buf pre).buf ++ r)).result = .error e ∧
        e = .bufferOverflow c.maxBufferSize) ∧
    (∀ c buf reads, buf.length ≤ c.maxLineLength →
      (∀ r ∈ reads, c.maxLineLength + r.length ≤ c.maxBufferSize) →
      ((decoder text).afterReads c buf reads).error = none) := by
  refine ⟨?_, ?_, ?_⟩
  · intro c buf hnone
    obtain ⟨hplain, hlen, hdiscarding⟩ := decode_none_retained c buf hnone
    rw [(decode_limits c buf).1] at hlen
    exact ⟨hplain, hlen, hdiscarding⟩
  · intro c buf reads e herr
    exact afterReads_bufferOverflow herr
  · intro c buf reads hbuf hroom
    cases herr : ((decoder text).afterReads c buf reads).error with
    | none => rfl
    | some e =>
      obtain ⟨pre, r, post, hsplit, hbefore, hlong, _⟩ := afterReads_bufferOverflow herr
      have hlen := afterReads_length text hbuf hbefore
      have hmem : r ∈ reads := by
        rw [hsplit]
        exact List.mem_append_right _ List.mem_cons_self
      have hfits := hroom r hmem
      omega

/-- Two bytes and the beginning of a command are retained, and the next read is too much
for them. With reads of five bytes there is room. -/
theorem buffer_bounded_cutCommand :
    (decode fromUtf8Lossy (.withLimits 3 8) [97, 98, IAC]).buf.length ≤ 3 ∧
      (∃ pre r post, [[97, 98, IAC], [241, 99, 100, 101, 102, 103]] = pre ++ r :: post ∧
        ((decoder fromUtf8Lossy).afterReads (.withLimits 3 8) [] pre).error = none ∧
        8 < ((decoder fromUtf8Lossy).afterReads (.withLimits 3 8) [] pre).buf.length + r.length) ∧
      ((decoder fromUtf8Lossy).afterReads (.withLimits 3 8) []
        [[97, 98, IAC], [241, 99, 100, 101, 102]]).error = none := by
  obtain ⟨hnone, hover, hnever⟩ := buffer_bounded fromUtf8Lossy
  have hlen := hnone (.withLimits 3 8) [97, 98, IAC] (by decide +kernel)
  obtain ⟨pre, r, post, hsplit, hbefore, hlong, _⟩ :=
    hover (.withLimits 3 8) [] [[97, 98, IAC], [241, 99, 100, 101, 102, 103]] (.bufferOverflow 8)
      (by decide +kernel)
  have hroom := hnever (.withLimits 3 8) [] [[97, 98, IAC], [241, 99, 100, 101, 102]]
    (by decide) (by decide)
  exact ⟨hlen.2.1, ⟨pre, r, post, hsplit, hbefore, hlong⟩, hroom⟩

end Liaozhai.Codec
