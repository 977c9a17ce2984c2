import Liaozhai.Library.Loop
import Liaozhai.Net.StripIac

/-!
# The scan of `strip_iac` in one buffer

The loop is run with indices that panic outside the buffer. At its head the rewritten
prefix does not reach past the read cursor, so the suffix is still the input, and a
pass over the input puts out the prefix and then what it puts out for the suffix.
-/

namespace Liaozhai.Codec

open Loop (While)
set_option autoImplicit false

/-! ### A pass over the input -/

/-- Output in front of what the rest of a pass gives. -/
def emit (out : List UInt8) (rest : List UInt8 × Bool × Bool) : List UInt8 × Bool × Bool :=
  (out ++ rest.1, rest.2)

theorem emit_nil (rest : List UInt8 × Bool × Bool) : emit [] rest = rest := rfl

theorem emit_emit (out out' : List UInt8) (rest : List UInt8 × Bool × Bool) :
    emit out (emit out' rest) = emit (out ++ out') rest := by
  rw [emit, emit, emit, List.append_assoc]

/-- The bytes from left to right: what is put out, and the two flags at the end. -/
def pass : Bool × Bool → List UInt8 → List UInt8 × Bool × Bool
  | flags, [] => ([], flags)
  | (true, pending), b :: bs => pass (subFlags pending b) bs
  | (false, pending), b :: bs =>
    if b ≠ IAC then emit [b] (pass (false, pending) bs)
    else
      match bs with
      | [] => ([IAC], false, pending)
      | cmd :: bs =>
        if cmd = IAC then emit [IAC] (pass (false, pending) bs)
        else if isNegotiation cmd then
          match bs with
          | [] => ([IAC, cmd], false, pending)
          | _ :: bs => pass (false, pending) bs
        else if cmd = SB then pass (true, false) bs
        else pass (false, pending) bs

/-- A token is passed by itself. -/
theorem pass_token {flags flags' : Bool × Bool} {bs out : List UInt8}
    (h : Token flags bs out flags') (rest : List UInt8) :
    pass flags (bs ++ rest) = emit out (pass flags' rest) := by
  cases h with
  | inside pending b => rfl
  | data pending hiac =>
    rw [List.singleton_append, pass.eq_def]
    simp only [ne_eq, hiac, not_false_eq_true, if_true]
  | escaped pending =>
    rw [List.cons_append, List.singleton_append, pass.eq_def]
    simp only [ne_eq, not_true_eq_false, if_false, if_true]
  | negotiation pending option hneg =>
    have hiac := ne_iac_of_isNegotiation hneg
    simp [pass, emit_nil, hneg, hiac]
  | subnegotiation pending =>
    have hiac : SB ≠ IAC := by decide
    rw [List.cons_append, List.singleton_append, pass.eq_def]
    simp [emit_nil, hiac]
  | command pending hiac hneg hsb =>
    rw [List.cons_append, List.singleton_append, pass.eq_def]
    simp [emit_nil, hiac, hneg, hsb]

theorem pass_data {a : List UInt8} (h : IAC ∉ a) (pending : Bool) (rest : List UInt8) :
    pass (false, pending) (a ++ rest) = emit a (pass (false, pending) rest) := by
  induction a with
  | nil => exact (emit_nil _).symm
  | cons b a ih =>
    obtain ⟨hb, ha⟩ := not_or.mp (mt List.mem_cons.mpr h)
    have htoken := pass_token (.data pending (Ne.symm hb)) (a ++ rest)
    rw [List.cons_append, ← List.singleton_append, htoken, ih ha, emit_emit]
    rfl

/-- A command that the end of the input cuts off is put out as it came. -/
theorem pass_truncated {bs : List UInt8} (h : Truncated bs) (pending : Bool) :
    pass (false, pending) bs = (bs, false, pending) := by
  cases h with
  | iac => simp [pass]
  | negotiation hneg =>
    have hiac := ne_iac_of_isNegotiation hneg
    simp [pass, hneg, hiac]

/-! ### Indices -/

/-- `buf[i] = b` -/
def setAt (buf : List UInt8) (i : Nat) (b : UInt8) : Option (List UInt8) :=
  if i < buf.length then some (buf.set i b) else none

/-- `buf[i] = buf[j]` -/
def copyAt (buf : List UInt8) (i j : Nat) : Option (List UInt8) :=
  buf[j]?.bind fun b => setAt buf i b

namespace Scan

def checkedMoved (s : Scan) : Option (List UInt8) :=
  if s.write ≠ s.read then copyAt s.buf s.write s.read else some s.buf

def checkedMovedTail (s : Scan) (remaining : Nat) : Option (List UInt8) :=
  (List.range remaining).foldlM (fun buf i => copyAt buf (s.write + i) (s.read + i)) s.buf

def checkedSkip (s : Scan) : Option Scan := do
  let b ← s.buf[s.read]?
  if s.subnegIacPending ∧ b = SE then
    return { s with inSubnegotiation := false, subnegIacPending := false, read := s.read + 1 }
  else if s.subnegIacPending ∧ b ≠ IAC then
    return { s with subnegIacPending := false, read := s.read + 1 }
  else if b = IAC then
    return { s with subnegIacPending := true, read := s.read + 1 }
  else
    return { s with read := s.read + 1 }

def checkedCommand (s : Scan) : Option Flow := do
  if s.buf.length ≤ s.read + 1 then
    let buf ← s.checkedMoved
    return .stop { s with buf := buf, write := s.write + 1 }
  else
    let cmd ← s.buf[s.read + 1]?
    if cmd = IAC then
      let buf ← setAt s.buf s.write IAC
      return .next { s with buf := buf, write := s.write + 1, read := s.read + 2 }
    else if isNegotiation cmd then
      if s.buf.length ≤ s.read + 2 then
        let remaining := s.buf.length - s.read
        let buf ← s.checkedMovedTail remaining
        return .stop { s with buf := buf, write := s.write + remaining }
      else
        return .next { s with read := s.read + 3 }
    else if cmd = SB then
      return .next { s with inSubnegotiation := true, subnegIacPending := false, read := s.read + 2 }
    else
      return .next { s with read := s.read + 2 }

/-- The body of the loop, which panics at an index outside the buffer. -/
def checkedBody (s : Scan) : Option Flow := do
  if s.inSubnegotiation then
    let s' ← s.checkedSkip
    return .next s'
  else
    let b ← s.buf[s.read]?
    if b ≠ IAC then
      let buf ← s.checkedMoved
      return .next { s with buf := buf, write := s.write + 1, read := s.read + 1 }
    else s.checkedCommand

end Scan

theorem getElem?_eq_byteAt {buf : List UInt8} {i : Nat} (h : i < buf.length) :
    buf[i]? = some (byteAt buf i) := by
  rw [byteAt_eq_getElem h, List.getElem?_eq_getElem h]

theorem setAt_eq {buf : List UInt8} {i : Nat} {b : UInt8} (h : i < buf.length) :
    setAt buf i b = some (buf.set i b) := by
  rw [setAt, if_pos h]

theorem copyAt_eq {buf : List UInt8} {i j : Nat} (hi : i < buf.length) (hj : j < buf.length) :
    copyAt buf i j = some (buf.set i (byteAt buf j)) := by
  rw [copyAt, getElem?_eq_byteAt hj, Option.bind_some, setAt_eq hi]

namespace Scan

theorem checkedMoved_eq {s : Scan} (hw : s.write ≤ s.read) (hr : s.read < s.buf.length) :
    s.checkedMoved = some s.moved := by
  unfold checkedMoved moved
  split
  · exact copyAt_eq (by omega) hr
  · rfl

theorem checkedMovedTail_eq {s : Scan} (hw : s.write ≤ s.read) {remaining : Nat}
    (hr : s.read + remaining ≤ s.buf.length) :
    s.checkedMovedTail remaining = some (s.movedTail remaining) := by
  induction remaining with
  | zero => rfl
  | succ n ih =>
    have hlen := s.length_movedTail n
    have hcopy : copyAt (s.movedTail n) (s.write + n) (s.read + n) =
        some ((s.movedTail n).set (s.write + n) (byteAt (s.movedTail n) (s.read + n))) := by
      apply copyAt_eq
      · omega
      · omega
    have hchecked : s.checkedMovedTail (n + 1) =
        (s.checkedMovedTail n).bind fun buf => copyAt buf (s.write + n) (s.read + n) := by
      simp [checkedMovedTail, List.range_succ]
    have hmoved : s.movedTail (n + 1) =
        (s.movedTail n).set (s.write + n) (byteAt (s.movedTail n) (s.read + n)) := by
      simp [movedTail, List.range_succ]
    rw [hchecked, ih (by omega), Option.bind_some, hcopy, hmoved]

theorem checkedSkip_eq {s : Scan} (hr : s.read < s.buf.length) :
    s.checkedSkip = some s.skip := by
  unfold checkedSkip skip
  rw [getElem?_eq_byteAt hr]
  simp only [Option.bind_eq_bind, Option.bind_some]
  split_ifs <;> rfl

theorem checkedCommand_eq {s : Scan} (hw : s.write ≤ s.read) (hr : s.read < s.buf.length) :
    s.checkedCommand = some s.command := by
  unfold checkedCommand command
  split
  · rw [checkedMoved_eq hw hr]
    rfl
  · rename_i hlen
    rw [getElem?_eq_byteAt (by omega)]
    simp only [Option.bind_eq_bind, Option.bind_some]
    split_ifs with hiac hneg hend
    · rw [setAt_eq (by omega)]
      rfl
    · rw [checkedMovedTail_eq hw (by omega)]
      rfl
    · rfl
    · rfl
    · rfl

/-- With the cursors in order no index of an iteration is outside the buffer. -/
theorem checkedBody_eq {s : Scan} (hw : s.write ≤ s.read) (hr : s.read < s.buf.length) :
    s.checkedBody = some s.body := by
  unfold checkedBody body
  split
  · rw [checkedSkip_eq hr]
    rfl
  · rw [getElem?_eq_byteAt hr]
    simp only [Option.bind_eq_bind, Option.bind_some]
    split
    · rw [checkedMoved_eq hw hr]
      rfl
    · exact checkedCommand_eq hw hr

/-! ### The loop -/

/-- What holds at the head of the loop over an input. -/
structure InPlace (flags : Bool × Bool) (input : List UInt8) (s : Scan) : Prop where
  write_le : s.write ≤ s.read
  read_le : s.read ≤ input.length
  length : s.buf.length = input.length
  unread : s.buf.drop s.read = input.drop s.read
  passed : pass flags input = emit s.done (pass s.flags s.left)

/-- What holds after the loop. -/
structure Finished (flags : Bool × Bool) (input : List UInt8) (r : Scan) : Prop where
  write_le : r.write ≤ input.length
  length : r.buf.length = input.length
  passed : pass flags input = (r.done, r.flags)

end Scan

def Flow.sum : Flow → Scan ⊕ Scan
  | .next s => .inl s
  | .stop s => .inr s

/-- `while read < len` -/
def iterations : While Scan where
  guard s := s.read < s.buf.length
  body s := s.checkedBody.map Flow.sum

namespace Scan

variable {flags : Bool × Bool} {input : List UInt8} {s s' r : Scan}

theorem InPlace.next (h : s.InPlace flags input) (hr : s.read < s.buf.length)
    (hbody : s.body = .next s') : s'.InPlace flags input := by
  have hpasses := body_passes h.write_le hr hbody
  have hread := hpasses.read_le hr
  have hlen := hpasses.length.trans h.length
  obtain ⟨bs, out, htoken, hcursor, hleft, hdone⟩ := hpasses.token
  have hunread : s'.left = input.drop s'.read := by
    calc s'.left = (bs ++ s'.left).drop bs.length := (List.drop_left).symm
      _ = s.left.drop bs.length := by rw [hleft]
      _ = (input.drop s.read).drop bs.length := by rw [left, h.unread]
      _ = input.drop s'.read := by rw [List.drop_drop, hcursor]
  refine ⟨hpasses.write_le, by omega, hlen, hunread, ?_⟩
  rw [h.passed, hleft, pass_token htoken, emit_emit, hdone]

theorem InPlace.break (h : s.InPlace flags input) (hr : s.read < s.buf.length)
    (hbody : s.body = .stop r) : r.Finished flags input := by
  have hkeeps := body_keeps h.write_le hr hbody
  have hlen := h.length
  have hwrite := hkeeps.write_le
  refine ⟨by omega, hkeeps.length.trans hlen, ?_⟩
  have hflags : s.flags = (false, s.subnegIacPending) := by rw [Scan.flags, hkeeps.inSub]
  rw [h.passed, hflags, pass_truncated hkeeps.left, emit, hkeeps.done, hkeeps.flags, hflags]

theorem InPlace.exit (h : s.InPlace flags input) (hr : ¬ s.read < s.buf.length) :
    s.Finished flags input := by
  have hlen := h.length
  have hwrite := h.write_le
  have hread := h.read_le
  have hleft : s.left = [] := List.drop_eq_nil_of_le (by omega)
  refine ⟨by omega, hlen, ?_⟩
  rw [h.passed, hleft, pass, emit, List.append_nil]

theorem InPlace.body_eq (h : s.InPlace flags input) (hr : iterations.guard s) :
    iterations.body s = some s.body.sum := by
  change s.checkedBody.map Flow.sum = _
  rw [checkedBody_eq h.write_le hr]
  rfl

theorem InPlace.keeps (h : s.InPlace flags input) (hr : iterations.guard s)
    (hbody : iterations.body s = some (.inl s')) : s'.InPlace flags input := by
  rw [h.body_eq hr, Option.some_inj] at hbody
  cases hflow : s.body with
  | next t =>
    rw [hflow] at hbody
    obtain rfl := Sum.inl.inj hbody
    exact h.next hr hflow
  | stop t =>
    rw [hflow] at hbody
    cases hbody

theorem InPlace.breaks (h : s.InPlace flags input) (hr : iterations.guard s)
    (hbody : iterations.body s = some (.inr r)) : r.Finished flags input := by
  rw [h.body_eq hr, Option.some_inj] at hbody
  cases hflow : s.body with
  | next t =>
    rw [hflow] at hbody
    cases hbody
  | stop t =>
    rw [hflow] at hbody
    obtain rfl := Sum.inr.inj hbody
    exact h.break hr hflow

/-- The loop ends, and only in the state that `Scan.loop` computes. -/
theorem InPlace.ends (h : s.InPlace flags input) (fuel : Nat)
    (hfuel : s.buf.length ≤ s.read + fuel) : iterations.Ends s r ↔ r = s.loop fuel := by
  induction fuel generalizing s with
  | zero =>
    have hguard : ¬ iterations.guard s := by
      change ¬ s.read < s.buf.length
      omega
    rw [While.ends_exit hguard, loop]
  | succ fuel ih =>
    rw [loop]
    split
    · rename_i hr
      have hbody := h.body_eq hr
      cases hflow : s.body with
      | next s' =>
        rw [hflow] at hbody
        have hpasses := body_passes h.write_le hr hflow
        obtain ⟨bs, _, htoken, hcursor, _⟩ := hpasses.token
        have hpos := htoken.length_pos
        have hlen := hpasses.length
        rw [While.ends_next hr hbody]
        exact ih (h.next hr hflow) (by omega)
      | stop s' =>
        rw [hflow] at hbody
        exact While.ends_break hr hbody
    · rename_i hr
      exact While.ends_exit hr

end Scan

def TelnetLineCodec.flags (c : TelnetLineCodec) : Bool × Bool :=
  (c.inSubnegotiation, c.subnegIacPending)

/-- The state before the loop. -/
def TelnetLineCodec.scan (c : TelnetLineCodec) (buf : List UInt8) : Scan :=
  ⟨buf, 0, 0, c.inSubnegotiation, c.subnegIacPending⟩

theorem TelnetLineCodec.scan_inPlace (c : TelnetLineCodec) (buf : List UInt8) :
    (c.scan buf).InPlace c.flags buf :=
  ⟨Nat.le_refl 0, Nat.zero_le _, rfl, rfl, rfl⟩

variable (c : TelnetLineCodec) (buf : List UInt8)

theorem TelnetLineCodec.scan_ends (r : Scan) :
    iterations.Ends (c.scan buf) r ↔ r = (c.scan buf).loop buf.length :=
  (c.scan_inPlace buf).ends buf.length (Nat.le_add_left _ _)

theorem TelnetLineCodec.scan_finished :
    ((c.scan buf).loop buf.length).Finished c.flags buf := by
  have hend := (c.scan_ends buf _).mpr rfl
  apply While.ends_post (P := Scan.InPlace c.flags buf) _ _ _ (c.scan_inPlace buf) hend
  · intro t t' ht hguard hbody
    exact ht.keeps hguard hbody
  · intro t ht hguard
    exact ht.exit hguard
  · intro t r ht hguard hbody
    exact ht.breaks hguard hbody

/-- `strip_iac` as a pass over the buffer. -/
theorem TelnetLineCodec.stripIac_eq_pass :
    c.stripIac buf =
      ({ c with
          inSubnegotiation := (pass c.flags buf).2.1
          subnegIacPending := (pass c.flags buf).2.2 },
        (pass c.flags buf).1) := by
  rw [(c.scan_finished buf).passed]
  rfl

/-- The in-place scan is sound: at the head of its loop the cursors are in order and the
suffix is the input, no index is outside the buffer, and the loop ends with the output
and the flags of a pass over the input. -/
theorem TelnetLineCodec.stripIac_sound :
    (∀ s, iterations.Visits (c.scan buf) s →
      s.InPlace c.flags buf ∧ (s.read < s.buf.length → s.checkedBody = some s.body)) ∧
    (∀ r, iterations.Ends (c.scan buf) r ↔ r = (c.scan buf).loop buf.length) ∧
    ((c.scan buf).loop buf.length).Finished c.flags buf ∧
    c.stripIac buf =
      ({ c with
          inSubnegotiation := (pass c.flags buf).2.1
          subnegIacPending := (pass c.flags buf).2.2 },
        (pass c.flags buf).1) := by
  refine ⟨?_, c.scan_ends buf, c.scan_finished buf, c.stripIac_eq_pass buf⟩
  intro s hvisits
  have hs : s.InPlace c.flags buf := by
    apply While.visits_invariant _ (c.scan_inPlace buf) hvisits
    intro t t' ht hguard hbody
    exact ht.keeps hguard hbody
  refine ⟨hs, ?_⟩
  intro hr
  exact Scan.checkedBody_eq hs.write_le hr

-- The two bytes of the tail are copied over each other.
example : (TelnetLineCodec.new.stripIac [IAC, IAC, IAC, WILL]).2 = [IAC, IAC, WILL] := rfl

end Liaozhai.Codec
