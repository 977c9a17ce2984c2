import Liaozhai.Net.Telnet

/-!
# `strip_iac` is one run of the telnet parser

The loop invariant separates the rewritten prefix `buf[..write]` from the unread
suffix `buf[read..]`. An iteration takes a token of one to three bytes from the
suffix and appends what the parser puts out for it to the prefix; `write ≤ read`
keeps the two apart.
-/

namespace Liaozhai.Codec

open Telnet (parse)
set_option autoImplicit false

/-! ### Tokens -/

/-- The two flags after a byte inside a subnegotiation. -/
def subFlags (pending : Bool) (b : UInt8) : Bool × Bool :=
  if pending && b == SE then (false, false) else (true, b == IAC)

/-- The bytes that one iteration passes and what it puts out, between the flags before
and after. -/
inductive Token : Bool × Bool → List UInt8 → List UInt8 → Bool × Bool → Prop
  | inside (pending : Bool) (b : UInt8) : Token (true, pending) [b] [] (subFlags pending b)
  | data (pending : Bool) {b : UInt8} (h : b ≠ IAC) :
    Token (false, pending) [b] [b] (false, pending)
  | escaped (pending : Bool) : Token (false, pending) [IAC, IAC] [IAC] (false, pending)
  | negotiation (pending : Bool) {verb : UInt8} (option : UInt8) (h : isNegotiation verb) :
    Token (false, pending) [IAC, verb, option] [] (false, pending)
  | subnegotiation (pending : Bool) : Token (false, pending) [IAC, SB] [] (true, false)
  | command (pending : Bool) {cmd : UInt8} (hiac : cmd ≠ IAC) (hneg : isNegotiation cmd = false)
    (hsb : cmd ≠ SB) : Token (false, pending) [IAC, cmd] [] (false, pending)

/-- What a break leaves in the buffer. -/
inductive Truncated : List UInt8 → Prop
  | iac : Truncated [IAC]
  | negotiation {verb : UInt8} (h : isNegotiation verb) : Truncated [IAC, verb]

section Tokens
variable {flags flags' : Bool × Bool} {bs out : List UInt8}

theorem Token.length_pos (h : Token flags bs out flags') : 0 < bs.length := by
  cases h <;> exact Nat.succ_pos _

/-- The pending flag stays unset outside a subnegotiation. -/
theorem Token.agrees (h : Token flags bs out flags') (hflags : flags.1 = false → flags.2 = false) :
    flags'.1 = false → flags'.2 = false := by
  cases h with
  | inside pending b =>
    unfold subFlags
    split
    · intro _
      rfl
    · intro hsub
      cases hsub
  | subnegotiation pending =>
    intro _
    rfl
  | _ => exact hflags

theorem step_subFlags (pending : Bool) (b : UInt8) :
    Telnet.step (.ofFlags true pending) b =
      (.ofFlags (subFlags pending b).1 (subFlags pending b).2, []) := by
  by_cases hse : b = SE
  · subst hse
    cases pending <;> rfl
  by_cases hiac : b = IAC
  · subst hiac
    cases pending <;> rfl
  have hse' : (b == SE) = false := beq_eq_false_iff_ne.mpr hse
  have hiac' : (b == IAC) = false := beq_eq_false_iff_ne.mpr hiac
  cases pending <;> simp [subFlags, Telnet.step, Telnet.State.ofFlags, hse, hiac, hse', hiac']

theorem Token.parse (h : Token flags bs out flags') :
    parse (.ofFlags flags.1 flags.2) bs = (.ofFlags flags'.1 flags'.2, out) := by
  cases h with
  | inside pending b => rw [Telnet.parse_cons, step_subFlags, Telnet.parse_nil, List.append_nil]
  | data pending hiac => simp [Telnet.parse_cons, Telnet.step, Telnet.State.ofFlags, hiac]
  | escaped pending => simp [Telnet.parse_cons, Telnet.State.ofFlags]
  | negotiation pending option hneg =>
    have hiac := ne_iac_of_isNegotiation hneg
    simp [Telnet.parse_cons, Telnet.step, Telnet.State.ofFlags, hneg, hiac]
  | subnegotiation pending => simp [Telnet.parse_cons, Telnet.State.ofFlags]
  | command pending hiac hneg hsb =>
    simp [Telnet.parse_cons, Telnet.step, Telnet.State.ofFlags, hiac, hneg, hsb]

theorem Truncated.parse (h : Truncated bs) :
    ∃ t : Telnet.State, t.inSub = false ∧ t.pending = false ∧
      Telnet.parse .data bs = (t, []) ∧ t.tail = bs := by
  cases h with
  | iac => exact ⟨.iac, rfl, rfl, rfl, rfl⟩
  | @negotiation verb hneg =>
    refine ⟨.negotiation verb, rfl, rfl, ?_, rfl⟩
    have hiac := ne_iac_of_isNegotiation hneg
    simp [Telnet.parse_cons, Telnet.step, hneg, hiac]

end Tokens

namespace Scan

/-- The part already rewritten. -/
def done (s : Scan) : List UInt8 := s.buf.take s.write

/-- The part not yet read. -/
def left (s : Scan) : List UInt8 := s.buf.drop s.read

def state (s : Scan) : Telnet.State := .ofFlags s.inSubnegotiation s.subnegIacPending

/-- The cursors are in order and inside the buffer, and the pending flag is set
only inside a subnegotiation. -/
structure Ordered (s : Scan) : Prop where
  write_le : s.write ≤ s.read
  read_le : s.read ≤ s.buf.length
  pending : s.inSubnegotiation = false → s.subnegIacPending = false

theorem take_succ_set {l : List UInt8} {i : Nat} {b : UInt8} (h : i < l.length) :
    (l.set i b).take (i + 1) = l.take i ++ [b] := by
  rw [List.take_add_one, List.take_set_of_le (Nat.le_refl i), List.getElem?_set_self h]
  rfl

theorem take_succ_byteAt {l : List UInt8} {i : Nat} (h : i < l.length) :
    l.take (i + 1) = l.take i ++ [byteAt l i] := by
  rw [List.take_add_one, byteAt_eq_getElem h, List.getElem?_eq_getElem h]
  rfl

/-- Copying one byte down extends the prefix and leaves the suffix alone. -/
theorem take_moved {s : Scan} (hw : s.write ≤ s.read) (hr : s.read < s.buf.length) :
    s.moved.take (s.write + 1) = s.done ++ [byteAt s.buf s.read] := by
  unfold moved done
  split
  · exact take_succ_set (by omega)
  · have heq : s.write = s.read := by omega
    rw [heq]
    exact take_succ_byteAt hr

theorem drop_moved {s : Scan} {n : Nat} (hw : s.write < n) : s.moved.drop n = s.buf.drop n := by
  unfold moved
  split
  · exact List.drop_set_of_lt hw
  · rfl

/-! ### What one iteration reads -/

def flags (s : Scan) : Bool × Bool := (s.inSubnegotiation, s.subnegIacPending)

theorem skip_flags {s : Scan} (hsub : s.inSubnegotiation = true) :
    s.skip.flags = subFlags s.subnegIacPending (byteAt s.buf s.read) := by
  unfold skip flags subFlags
  cases s.subnegIacPending with
  | false => by_cases hiac : byteAt s.buf s.read = IAC <;> simp [hiac, hsub]
  | true =>
    by_cases hse : byteAt s.buf s.read = SE
    · simp [hse]
    · by_cases hiac : byteAt s.buf s.read = IAC <;> simp [hse, hiac, hsub]

theorem skip_cursors (s : Scan) : s.skip.write = s.write ∧ s.skip.read = s.read + 1 := by
  unfold skip
  dsimp only
  split_ifs <;> exact ⟨rfl, rfl⟩

/-- An iteration that goes on passes one token from the suffix to the prefix. -/
structure Passes (s s' : Scan) : Prop where
  write_le : s'.write ≤ s'.read
  length : s'.buf.length = s.buf.length
  token : ∃ bs out, Token s.flags bs out s'.flags ∧ s'.read = s.read + bs.length ∧
    s.left = bs ++ s'.left ∧ s'.done = s.done ++ out

/-- An iteration that breaks keeps the suffix, an unfinished command, as it came. -/
structure Keeps (s r : Scan) : Prop where
  inSub : s.inSubnegotiation = false
  flags : r.flags = s.flags
  length : r.buf.length = s.buf.length
  write_le : r.write ≤ s.buf.length
  left : Truncated s.left
  done : r.done = s.done ++ s.left

/-- An iteration that puts nothing out moves the read cursor past its token. -/
theorem passes_of_read {s s' : Scan} {bs : List UInt8} (hw : s.write ≤ s.read)
    (htoken : Token s.flags bs [] s'.flags) (hbuf : s'.buf = s.buf) (hwrite : s'.write = s.write)
    (hread : s'.read = s.read + bs.length) (hleft : s.left = bs ++ s.buf.drop (s.read + bs.length)) :
    s.Passes s' := by
  refine ⟨by omega, by rw [hbuf], bs, [], htoken, hread, ?_, ?_⟩
  · rw [hleft, left, hbuf, hread]
  · rw [done, done, hbuf, hwrite, List.append_nil]

theorem skip_passes {s : Scan} (hw : s.write ≤ s.read) (hr : s.read < s.buf.length)
    (hsub : s.inSubnegotiation = true) : s.Passes s.skip := by
  obtain ⟨hwrite, hread⟩ := s.skip_cursors
  have htoken : Token s.flags [byteAt s.buf s.read] [] s.skip.flags := by
    rw [skip_flags hsub, flags, hsub]
    exact .inside _ _
  exact passes_of_read hw htoken s.skip_buf hwrite hread (drop_eq_byteAt_cons hr)

theorem copy_passes {s : Scan} (hw : s.write ≤ s.read) (hr : s.read < s.buf.length)
    (hsub : s.inSubnegotiation = false) (hiac : byteAt s.buf s.read ≠ IAC) :
    s.Passes { s with buf := s.moved, write := s.write + 1, read := s.read + 1 } := by
  refine ⟨Nat.succ_le_succ hw, s.length_moved, [byteAt s.buf s.read], [byteAt s.buf s.read],
    ?_, rfl, ?_, take_moved hw hr⟩
  · simp only [flags, hsub]
    exact .data _ hiac
  · have hdrop : s.moved.drop (s.read + 1) = s.buf.drop (s.read + 1) := drop_moved (by omega)
    simp only [left, hdrop]
    exact drop_eq_byteAt_cons hr

theorem command_passes {s s' : Scan} (hw : s.write ≤ s.read) (hr : s.read < s.buf.length)
    (hsub : s.inSubnegotiation = false) (hiac : byteAt s.buf s.read = IAC)
    (h : s.command = .next s') : s.Passes s' := by
  have hflags : s.flags = (false, s.subnegIacPending) := by rw [flags, hsub]
  unfold command at h
  dsimp only at h
  split at h
  · cases h
  rename_i hlen
  have hleft : s.left = IAC :: byteAt s.buf (s.read + 1) :: s.buf.drop (s.read + 2) := by
    rw [left, drop_eq_byteAt_cons hr, drop_eq_byteAt_cons (by omega), hiac]
  split at h
  · -- IAC IAC: one literal byte is written below the read cursor.
    rename_i hcmd
    cases h
    refine ⟨?_, List.length_set, [IAC, IAC], [IAC], ?_, rfl, ?_, take_succ_set (by omega)⟩
    · simp only
      omega
    · simp only [flags, hsub]
      exact .escaped _
    · rw [hleft, hcmd, left, List.drop_set_of_lt (by simp only; omega)]
      rfl
  rename_i hcmd
  split at h
  · rename_i hneg
    split at h
    · cases h
    · -- A whole negotiation: verb and option are skipped.
      cases h
      have htoken := Token.negotiation s.subnegIacPending (byteAt s.buf (s.read + 2)) hneg
      rw [← hflags] at htoken
      refine passes_of_read hw htoken rfl rfl rfl ?_
      rw [hleft, drop_eq_byteAt_cons (by omega)]
      rfl
  · rename_i hneg
    split at h
    · -- IAC SB
      rename_i hsb
      cases h
      have htoken := Token.subnegotiation s.subnegIacPending
      rw [← hflags] at htoken
      refine passes_of_read hw htoken rfl rfl rfl ?_
      rw [hleft, hsb]
      rfl
    · rename_i hsb
      cases h
      have htoken := Token.command s.subnegIacPending hcmd (by simpa using hneg) hsb
      rw [← hflags] at htoken
      exact passes_of_read hw htoken rfl rfl rfl hleft

/-- Copying the last two bytes down, in order, even where the ranges overlap. -/
theorem take_movedTail_two {s : Scan} (hw : s.write ≤ s.read) (hr : s.read + 1 < s.buf.length) :
    (s.movedTail 2).take (s.write + 2) =
      s.done ++ [byteAt s.buf s.read, byteAt s.buf (s.read + 1)] := by
  have hsecond : byteAt (s.buf.set s.write (byteAt s.buf s.read)) (s.read + 1) =
      byteAt s.buf (s.read + 1) := by
    simp only [byteAt, List.getD_eq_getElem?_getD]
    rw [List.getElem?_set_ne (by omega)]
  have hcopy : s.movedTail 2 = (s.buf.set s.write (byteAt s.buf s.read)).set (s.write + 1)
      (byteAt s.buf (s.read + 1)) := by
    simp [movedTail, List.range_succ, hsecond]
  rw [hcopy, take_succ_set (by simp; omega), take_succ_set (by omega)]
  simp [done]

theorem command_keeps {s r : Scan} (hw : s.write ≤ s.read) (hr : s.read < s.buf.length)
    (hsub : s.inSubnegotiation = false) (hiac : byteAt s.buf s.read = IAC)
    (h : s.command = .stop r) : s.Keeps r := by
  unfold command at h
  dsimp only at h
  split at h
  · rename_i hlen
    cases h
    have hleft : s.left = [IAC] := by
      rw [left, drop_eq_byteAt_cons hr, List.drop_eq_nil_of_le hlen, hiac]
    refine ⟨hsub, rfl, s.length_moved, ?_, ?_, ?_⟩
    · simp only
      omega
    · rw [hleft]
      exact .iac
    · rw [hleft, ← hiac]
      exact take_moved hw hr
  rename_i hlen
  split at h
  · cases h
  split at h
  · rename_i hneg
    split at h
    · rename_i hlen2
      cases h
      have htwo : s.buf.length - s.read = 2 := by omega
      have hleft : s.left = [IAC, byteAt s.buf (s.read + 1)] := by
        rw [left, drop_eq_byteAt_cons hr, drop_eq_byteAt_cons (by omega),
          List.drop_eq_nil_of_le hlen2, hiac]
      refine ⟨hsub, rfl, s.length_movedTail _, ?_, ?_, ?_⟩
      · simp only
        omega
      · rw [hleft]
        exact .negotiation hneg
      · rw [hleft, ← hiac]
        simp only [done, htwo]
        exact take_movedTail_two hw (by omega)
    · cases h
  · split at h <;> cases h

theorem body_passes {s s' : Scan} (hw : s.write ≤ s.read) (hr : s.read < s.buf.length)
    (h : s.body = .next s') : s.Passes s' := by
  unfold body at h
  split at h
  · rename_i hsub
    cases h
    exact skip_passes hw hr hsub
  · rename_i hsub
    split at h
    · rename_i hiac
      cases h
      exact copy_passes hw hr (by simpa using hsub) hiac
    · rename_i hiac
      exact command_passes hw hr (by simpa using hsub) (by simpa using hiac) h

theorem body_keeps {s r : Scan} (hw : s.write ≤ s.read) (hr : s.read < s.buf.length)
    (h : s.body = .stop r) : s.Keeps r := by
  unfold body at h
  split at h
  · cases h
  · rename_i hsub
    split at h
    · cases h
    · rename_i hiac
      exact command_keeps hw hr (by simpa using hsub) (by simpa using hiac) h

theorem Passes.read_le {s s' : Scan} (h : s.Passes s') (hr : s.read < s.buf.length) :
    s'.read ≤ s'.buf.length := by
  obtain ⟨bs, _, _, hread, hleft, _⟩ := h.token
  have hlen := congrArg List.length hleft
  simp only [left, List.length_append, List.length_drop] at hlen
  have hbuf := h.length
  omega

/-! ### The parser -/

/-- What an iteration that goes on does: some bytes of the suffix are parsed and
their output is appended to the prefix. -/
structure Advances (s s' : Scan) : Prop where
  ordered : s'.Ordered
  length : s'.buf.length = s.buf.length
  read_lt : s.read < s'.read
  parsed : ∃ bs out, s.left = bs ++ s'.left ∧ parse s.state bs = (s'.state, out) ∧
    s'.done = s.done ++ out

/-- What an iteration that breaks does: the suffix is an unfinished command, and
it is kept as it came. -/
structure Breaks (s s' : Scan) : Prop where
  inSub : s.inSubnegotiation = false
  flags : s'.inSubnegotiation = false ∧ s'.subnegIacPending = false
  kept : ∃ t : Telnet.State, t.inSub = false ∧ t.pending = false ∧
    parse .data s.left = (t, []) ∧ s'.done = s.done ++ t.tail

theorem body_next {s s' : Scan} (ho : s.Ordered) (hr : s.read < s.buf.length)
    (h : s.body = .next s') : s.Advances s' := by
  have hpasses := body_passes ho.write_le hr h
  obtain ⟨bs, out, htoken, hread, hleft, hdone⟩ := hpasses.token
  have hpos := htoken.length_pos
  refine ⟨⟨hpasses.write_le, hpasses.read_le hr, ?_⟩, hpasses.length, by omega, bs, out, hleft,
    htoken.parse, hdone⟩
  exact htoken.agrees ho.pending

theorem body_stop {s s' : Scan} (ho : s.Ordered) (hr : s.read < s.buf.length)
    (h : s.body = .stop s') : s.Breaks s' := by
  have hkeeps := body_keeps ho.write_le hr h
  obtain ⟨t, hsub, hpend, hparse, htail⟩ := hkeeps.left.parse
  obtain ⟨hsub', hpend'⟩ := Prod.mk.inj hkeeps.flags
  refine ⟨hkeeps.inSub, ⟨?_, ?_⟩, t, hsub, hpend, hparse, ?_⟩
  · rw [hsub', hkeeps.inSub]
  · rw [hpend', ho.pending hkeeps.inSub]
  · rw [htail]
    exact hkeeps.done

/-- With nothing left to read, the scan agrees with its own state. -/
theorem finished {s : Scan} (ho : s.Ordered) (hleft : s.left = []) :
    s.done = s.done ++ (parse s.state s.left).2 ++ (parse s.state s.left).1.tail ∧
      s.inSubnegotiation = (parse s.state s.left).1.inSub ∧
      s.subnegIacPending = (parse s.state s.left).1.pending := by
  rw [hleft]
  refine ⟨?_, ?_, ?_⟩
  · cases hi : s.inSubnegotiation <;> cases hp : s.subnegIacPending <;>
      simp [state, hi, hp, Telnet.State.ofFlags, Telnet.State.tail]
  · simp [state]
  · exact (Telnet.State.ofFlags_pending ho.pending).symm

/-- The loop ends with the prefix extended by the parse of the suffix. -/
theorem loop_spec (fuel : Nat) {s : Scan} (ho : s.Ordered) (hfuel : s.buf.length ≤ s.read + fuel) :
    (s.loop fuel).done =
        s.done ++ (parse s.state s.left).2 ++ (parse s.state s.left).1.tail ∧
      (s.loop fuel).inSubnegotiation = (parse s.state s.left).1.inSub ∧
      (s.loop fuel).subnegIacPending = (parse s.state s.left).1.pending := by
  induction fuel generalizing s with
  | zero =>
    rw [loop]
    exact finished ho (List.drop_eq_nil_of_le (by omega))
  | succ fuel ih =>
    rw [loop]
    split
    · rename_i hr
      cases hbody : s.body with
      | next s' =>
        obtain ⟨ho', hlen, hlt, bs, out, hleft, hparse, hdone⟩ := body_next ho hr hbody
        obtain ⟨hd, hi, hp⟩ := ih ho' (by omega)
        rw [hleft, Telnet.parse_append, hparse]
        exact ⟨by rw [hd, hdone, List.append_assoc s.done out], hi, hp⟩
      | stop s' =>
        obtain ⟨hsub, ⟨hi, hp⟩, t, hts, htp, hparse, hdone⟩ := body_stop ho hr hbody
        have hstate : s.state = .data := by simp [state, hsub, Telnet.State.ofFlags]
        rw [hstate, hparse]
        exact ⟨by rw [hdone, List.append_nil], by rw [hi, hts], by rw [hp, htp]⟩
    · exact finished ho (List.drop_eq_nil_of_le (by omega))

end Scan

/-- `strip_iac` as a function: the parser's output and its unfinished command. -/
theorem TelnetLineCodec.stripIac_eq {c : TelnetLineCodec} {buf : List UInt8}
    (hp : c.inSubnegotiation = false → c.subnegIacPending = false) :
    c.stripIac buf =
      ({ c with
          inSubnegotiation := (parse (.ofFlags c.inSubnegotiation c.subnegIacPending) buf).1.inSub
          subnegIacPending := (parse (.ofFlags c.inSubnegotiation c.subnegIacPending) buf).1.pending },
        (parse (.ofFlags c.inSubnegotiation c.subnegIacPending) buf).2 ++
          (parse (.ofFlags c.inSubnegotiation c.subnegIacPending) buf).1.tail) := by
  obtain ⟨hdone, hsub, hpend⟩ := Scan.loop_spec buf.length
    (s := ⟨buf, 0, 0, c.inSubnegotiation, c.subnegIacPending⟩)
    ⟨Nat.le_refl 0, Nat.zero_le _, hp⟩ (by simp)
  simp only [Scan.done, Scan.left, Scan.state, List.take_zero, List.drop_zero,
    List.nil_append] at hdone hsub hpend
  simp only [stripIac, hsub, hpend, hdone]

end Liaozhai.Codec
