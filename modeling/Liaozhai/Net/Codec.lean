import Liaozhai.Core.Constants
import Mathlib.Data.List.Basic
import Liaozhai.Library.Framed

/-!
# The telnet line codec

`strip_iac` is modelled as it stands: one buffer, a read and a write cursor, and
the two subnegotiation flags of the codec. `decode` and `decode_eof` follow their
source branch by branch. The text of a line is a parameter `text`; the codec of
the server uses the lossy UTF-8 decoding, and the identity gives the bytes each
line was decoded from.
-/

namespace Liaozhai.Codec

set_option autoImplicit false

universe u

abbrev IAC : UInt8 := 0xFF
abbrev SB : UInt8 := 0xFA
abbrev SE : UInt8 := 0xF0
abbrev WILL : UInt8 := 0xFB
abbrev WONT : UInt8 := 0xFC
abbrev DO : UInt8 := 0xFD
abbrev DONT : UInt8 := 0xFE

abbrev LF : UInt8 := 10
abbrev CR : UInt8 := 13

@[simp] theorem lf_ne_cr : LF ≠ CR := by decide
@[simp] theorem cr_ne_lf : CR ≠ LF := by decide
@[simp] theorem lf_ne_iac : LF ≠ IAC := by decide
@[simp] theorem cr_ne_iac : CR ≠ IAC := by decide
@[simp] theorem iac_ne_se : IAC ≠ SE := by decide

inductive TelnetCodecError where
  | io (error : String)
  | bufferOverflow (max : Nat)
  deriving DecidableEq, Repr

inductive CodecItem (Text : Type u) where
  | line (text : Text)
  | lineTooLong
  deriving DecidableEq, Repr

structure TelnetLineCodec where
  maxLineLength : Nat
  maxBufferSize : Nat
  discarding : Bool
  inSubnegotiation : Bool
  subnegIacPending : Bool
  deriving DecidableEq, Repr

def TelnetLineCodec.withLimits (maxLineLength maxBufferSize : Nat) : TelnetLineCodec where
  maxLineLength
  maxBufferSize
  discarding := false
  inSubnegotiation := false
  subnegIacPending := false

def TelnetLineCodec.new : TelnetLineCodec :=
  .withLimits Constants.maxLineLength Constants.maxBufferSize

/-- `buf[i]`, for the indices the code uses: all of them are inside the buffer. -/
def byteAt (buf : List UInt8) (i : Nat) : UInt8 := buf.getD i 0

theorem byteAt_eq_getElem {buf : List UInt8} {i : Nat} (h : i < buf.length) :
    byteAt buf i = buf[i] := by
  simp [byteAt, h]

theorem drop_eq_byteAt_cons {buf : List UInt8} {i : Nat} (h : i < buf.length) :
    buf.drop i = byteAt buf i :: buf.drop (i + 1) := by
  rw [List.drop_eq_getElem_cons h, byteAt_eq_getElem h]

/-- `WILL | WONT | DO | DONT`, the verbs that an option byte follows. -/
def isNegotiation (cmd : UInt8) : Bool :=
  cmd == WILL || cmd == WONT || cmd == DO || cmd == DONT

@[simp] theorem isNegotiation_lf : isNegotiation LF = false := by decide
@[simp] theorem isNegotiation_cr : isNegotiation CR = false := by decide
@[simp] theorem isNegotiation_iac : isNegotiation IAC = false := by decide
@[simp] theorem isNegotiation_sb : isNegotiation SB = false := by decide

theorem ne_iac_of_isNegotiation {cmd : UInt8} (h : isNegotiation cmd) : cmd ≠ IAC := by
  rintro rfl
  rw [isNegotiation_iac] at h
  cases h

/-- The variables of the loop in `strip_iac`. -/
structure Scan where
  buf : List UInt8
  read : Nat
  write : Nat
  inSubnegotiation : Bool
  subnegIacPending : Bool
  deriving DecidableEq, Repr

inductive Flow where
  | next (s : Scan)
  | stop (s : Scan)
  deriving DecidableEq, Repr

/-- `buf[write] = buf[read]`, skipped when the cursors agree. -/
def Scan.moved (s : Scan) : List UInt8 :=
  if s.write ≠ s.read then s.buf.set s.write (byteAt s.buf s.read) else s.buf

/-- `for i in 0..remaining { buf[write + i] = buf[read + i]; }` -/
def Scan.movedTail (s : Scan) (remaining : Nat) : List UInt8 :=
  (List.range remaining).foldl
    (fun buf i => buf.set (s.write + i) (byteAt buf (s.read + i))) s.buf

/-- One iteration inside a subnegotiation. -/
def Scan.skip (s : Scan) : Scan :=
  let b := byteAt s.buf s.read
  if s.subnegIacPending ∧ b = SE then
    { s with inSubnegotiation := false, subnegIacPending := false, read := s.read + 1 }
  else if s.subnegIacPending ∧ b ≠ IAC then
    { s with subnegIacPending := false, read := s.read + 1 }
  -- A second IAC clears the pending flag, falls through and sets it again.
  else if b = IAC then
    { s with subnegIacPending := true, read := s.read + 1 }
  else
    { s with read := s.read + 1 }

/-- One iteration at an IAC outside a subnegotiation. -/
def Scan.command (s : Scan) : Flow :=
  if s.buf.length ≤ s.read + 1 then
    .stop { s with buf := s.moved, write := s.write + 1 }
  else
    let cmd := byteAt s.buf (s.read + 1)
    if cmd = IAC then
      .next { s with buf := s.buf.set s.write IAC, write := s.write + 1, read := s.read + 2 }
    else if isNegotiation cmd then
      if s.buf.length ≤ s.read + 2 then
        let remaining := s.buf.length - s.read
        .stop { s with buf := s.movedTail remaining, write := s.write + remaining }
      else
        .next { s with read := s.read + 3 }
    else if cmd = SB then
      .next { s with inSubnegotiation := true, subnegIacPending := false, read := s.read + 2 }
    else
      .next { s with read := s.read + 2 }

/-- The body of `while read < len`. -/
def Scan.body (s : Scan) : Flow :=
  if s.inSubnegotiation then .next s.skip
  else if byteAt s.buf s.read ≠ IAC then
    .next { s with buf := s.moved, write := s.write + 1, read := s.read + 1 }
  else s.command

/-- The loop. Every iteration that does not break moves `read` forward, so `len`
iterations are enough. -/
def Scan.loop : Nat → Scan → Scan
  | 0, s => s
  | fuel + 1, s =>
    if s.read < s.buf.length then
      match s.body with
      | .next s' => s'.loop fuel
      | .stop s' => s'
    else s

/-- `strip_iac`: the codec and the buffer it leaves. -/
def TelnetLineCodec.stripIac (c : TelnetLineCodec) (buf : List UInt8) :
    TelnetLineCodec × List UInt8 :=
  let s := Scan.loop buf.length ⟨buf, 0, 0, c.inSubnegotiation, c.subnegIacPending⟩
  ({ c with inSubnegotiation := s.inSubnegotiation, subnegIacPending := s.subnegIacPending },
    s.buf.take s.write)

def findLineTerminator (buf : List UInt8) : Option Nat :=
  buf.findIdx? fun b => b == LF || b == CR

def consumeTerminator (buf : List UInt8) (pos : Nat) : Nat :=
  if byteAt buf pos = CR ∧ pos + 1 < buf.length ∧ byteAt buf (pos + 1) = LF then pos + 2
  else pos + 1

theorem lt_consumeTerminator (buf : List UInt8) (pos : Nat) : pos < consumeTerminator buf pos := by
  unfold consumeTerminator
  split <;> omega

@[simp] theorem length_foldl_set (f : List UInt8 → Nat → Nat) (g : List UInt8 → Nat → UInt8)
    (is : List Nat) (buf : List UInt8) :
    (is.foldl (fun buf i => buf.set (f buf i) (g buf i)) buf).length = buf.length := by
  induction is generalizing buf with
  | nil => rfl
  | cons i is ih => simp [ih]

@[simp] theorem Scan.length_moved (s : Scan) : s.moved.length = s.buf.length := by
  unfold moved
  split <;> simp

@[simp] theorem Scan.length_movedTail (s : Scan) (remaining : Nat) :
    (s.movedTail remaining).length = s.buf.length := by
  simp [movedTail]

@[simp] theorem Scan.skip_buf (s : Scan) : s.skip.buf = s.buf := by
  unfold skip
  dsimp only
  split
  · rfl
  · split
    · rfl
    · split <;> rfl

def Flow.scan : Flow → Scan
  | .next s => s
  | .stop s => s

theorem Scan.length_command (s : Scan) : s.command.scan.buf.length = s.buf.length := by
  unfold command
  dsimp only
  split
  · simp [Flow.scan]
  · split
    · simp [Flow.scan]
    · split
      · split <;> simp [Flow.scan]
      · split <;> simp [Flow.scan]

theorem Scan.length_body (s : Scan) : s.body.scan.buf.length = s.buf.length := by
  unfold body
  split
  · simp [Flow.scan]
  · split
    · simp [Flow.scan]
    · exact s.length_command

theorem Scan.length_loop (fuel : Nat) (s : Scan) : (s.loop fuel).buf.length = s.buf.length := by
  induction fuel generalizing s with
  | zero => rfl
  | succ fuel ih =>
    have hbody := s.length_body
    rw [loop]
    split
    · cases h : s.body with
      | next s' =>
        rw [h] at hbody
        exact (ih s').trans hbody
      | stop s' =>
        rw [h] at hbody
        exact hbody
    · rfl

theorem TelnetLineCodec.length_stripIac_le (c : TelnetLineCodec) (buf : List UInt8) :
    (c.stripIac buf).2.length ≤ buf.length := by
  simp only [stripIac, List.length_take, Scan.length_loop]
  omega

/-- What is left after a terminated line is shorter than the buffer was. -/
theorem TelnetLineCodec.length_drop_stripIac_lt (c : TelnetLineCodec) {buf : List UInt8} {pos : Nat}
    (h : findLineTerminator (c.stripIac buf).2 = some pos) :
    ((c.stripIac buf).2.drop (consumeTerminator (c.stripIac buf).2 pos)).length < buf.length := by
  have hpos := (List.findIdx?_eq_some_iff_findIdx_eq.mp h).1
  have hle := c.length_stripIac_le buf
  have hlt := lt_consumeTerminator (c.stripIac buf).2 pos
  rw [List.length_drop]
  omega

section Decode
variable {Text : Type u} (text : List UInt8 → Text)

abbrev Answer (Text : Type u) :=
  Framed.Answer TelnetLineCodec UInt8 (CodecItem Text) TelnetCodecError

def decode (c : TelnetLineCodec) (buf : List UInt8) : Answer Text :=
  if buf.length > c.maxBufferSize then
    ⟨.error (.bufferOverflow c.maxBufferSize), c, buf⟩
  else
    let c' := (c.stripIac buf).1
    let buf' := (c.stripIac buf).2
    match _h : findLineTerminator buf' with
    | some pos =>
      let rest := buf'.drop (consumeTerminator buf' pos)
      if c'.discarding then
        decode { c' with discarding := false } rest
      else
        ⟨.ok (some (.line (text (buf'.take pos)))), c', rest⟩
    | none =>
      if c'.discarding then ⟨.ok none, c', []⟩
      else if buf'.length > c'.maxLineLength then
        ⟨.ok (some .lineTooLong), { c' with discarding := true }, []⟩
      else ⟨.ok none, c', buf'⟩
termination_by buf.length
decreasing_by exact c.length_drop_stripIac_lt _h

/-- The length of the last line at the end of input, without an unfinished
command after it. -/
def trimmedEnd (buf : List UInt8) : Nat :=
  let n := buf.length
  if 2 ≤ n ∧ byteAt buf (n - 2) = IAC ∧ isNegotiation (byteAt buf (n - 1)) then n - 2
  else if 1 ≤ n ∧ byteAt buf (n - 1) = IAC then n - 1
  else n

def decodeEof (c : TelnetLineCodec) (buf : List UInt8) : Answer Text :=
  let a := decode text c buf
  match a.result with
  | .error e => ⟨.error e, a.state, a.buf⟩
  | .ok (some item) => ⟨.ok (some item), a.state, a.buf⟩
  | .ok none =>
    if a.buf = [] ∨ a.state.discarding then
      ⟨.ok none, { a.state with discarding := false }, []⟩
    else if a.state.inSubnegotiation ∨ byteAt a.buf 0 = IAC then
      ⟨.ok none, { a.state with inSubnegotiation := false, subnegIacPending := false }, []⟩
    else if trimmedEnd a.buf = 0 then ⟨.ok none, a.state, []⟩
    else ⟨.ok (some (.line (text (a.buf.take (trimmedEnd a.buf))))), a.state, []⟩

end Decode

end Liaozhai.Codec
