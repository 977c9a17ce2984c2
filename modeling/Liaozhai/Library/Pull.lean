import Liaozhai.Library.Framed
import Liaozhai.Library.Machine

/-!
# A decoder that is asked for one frame at a time

Between two frames the user of a framed reader does other things, and the reader
reads no further. A `Reader` takes the steps of the read loop one by one: a read
that has returned, a call that asked for more, a frame handed out. After an error
and after the end of input nothing more is asked for.

However the calls and the reads are spread over time, the frames are those of the
run that reads everything first.
-/

namespace Liaozhai.Framed

set_option autoImplicit false

universe u v w x

inductive Phase where
  | starved
  | readable
  | ending
  | finished
  deriving DecidableEq, Repr

structure Reader (State : Type u) (Byte : Type v) where
  state : State
  buf : List Byte
  phase : Phase

/-- A read of no bytes is the end of input. -/
inductive ReaderEvent (Byte : Type v) (Item : Type w) (Error : Type x) where
  | read (chunk : List Byte)
  | asked
  | returned (result : Option (Except Error Item))

variable {State : Type u} {Byte : Type v} {Item : Type w} {Error : Type x}

namespace Answer

def handedOut (a : Answer State Byte Item Error) : Option (Except Error Item) :=
  match a.result with
  | .ok item => item.map .ok
  | .error e => some (.error e)

/-- Another frame may follow a frame, and nothing follows the rest. -/
def leaves (a : Answer State Byte Item Error) (phase : Phase) : Reader State Byte :=
  match a.result with
  | .ok (some _) => ⟨a.state, a.buf, phase⟩
  | _ => ⟨a.state, a.buf, .finished⟩

end Answer

namespace ReaderEvent

def chunk? : ReaderEvent Byte Item Error → Option (List Byte)
  | .read chunk => if chunk.isEmpty then none else some chunk
  | _ => none

def frame? : ReaderEvent Byte Item Error → Option (Except Error Item)
  | .returned result => result
  | _ => none

/-- The reads that brought bytes. -/
def chunks (es : List (ReaderEvent Byte Item Error)) : List (List Byte) := es.filterMap chunk?

/-- What was handed out, but for the end. -/
def frames (es : List (ReaderEvent Byte Item Error)) : List (Except Error Item) :=
  es.filterMap frame?

end ReaderEvent

open ReaderEvent (chunks frames)

namespace Decoder
variable (D : Decoder State Byte Item Error) {s s' : State} {buf buf' r r' : List Byte}
  {rs : List (List Byte)}

theorem afterReads_cons_congr (h : D.afterRead s (buf ++ r) = D.afterRead s' (buf' ++ r')) :
    D.afterReads s buf (r :: rs) = D.afterReads s' buf' (r' :: rs) := by
  simp only [afterReads, h]

theorem afterReads_cons_none (h : D.decode s (buf ++ r) = ⟨.ok none, s', buf'⟩) :
    D.afterReads s buf (r :: rs) = D.afterReads s' buf' rs := by
  have hread : D.afterRead s (buf ++ r) = ⟨[], none, s', buf'⟩ := drain_none h
  rw [D.afterReads_cons (by rw [hread]), hread]
  rfl

theorem afterReads_cons_some {i : Item} (h : D.decode s (buf ++ r) = ⟨.ok (some i), s', buf'⟩) :
    D.afterReads s buf (r :: rs) = (D.afterReads s' buf' ([] :: rs)).cons i := by
  have hread : D.afterRead s (buf ++ r) = (D.afterRead s' (buf' ++ [])).cons i := by
    rw [List.append_nil]
    exact drain_some h
  cases herr : (D.afterRead s' (buf' ++ [])).error with
  | none =>
    rw [D.afterReads_cons herr, D.afterReads_cons (by rw [hread]; exact herr), hread]
    rfl
  | some e =>
    simp only [afterReads, hread, Drained.cons_error, herr, Option.isSome_some, if_true]

end Decoder

namespace Reader

def fresh (s : State) : Reader State Byte := ⟨s, [], .starved⟩

section Step
variable [DecidableEq Item] [DecidableEq Error] (D : Decoder State Byte Item Error)

def step (r : Reader State Byte) : ReaderEvent Byte Item Error → Option (Reader State Byte)
  | .read chunk =>
    if r.phase = .starved then
      some (if chunk.isEmpty then { r with phase := .ending }
        else ⟨r.state, r.buf ++ chunk, .readable⟩)
    else none
  | .asked =>
    match r.phase, (D.decode r.state r.buf).result with
    | .readable, .ok none =>
      some ⟨(D.decode r.state r.buf).state, (D.decode r.state r.buf).buf, .starved⟩
    | _, _ => none
  | .returned result =>
    match r.phase with
    | .readable =>
      if result.isSome ∧ result = (D.decode r.state r.buf).handedOut then
        some ((D.decode r.state r.buf).leaves .readable)
      else none
    | .ending =>
      if result = (D.decodeEof r.state r.buf).handedOut then
        some ((D.decodeEof r.state r.buf).leaves .ending)
      else none
    | _ => none

end Step

variable {D : Decoder State Byte Item Error} {r r' : Reader State Byte}
  {e : ReaderEvent Byte Item Error} {es : List (ReaderEvent Byte Item Error)}

/-- All the steps of a reader, each with the answer of the call it makes. -/
inductive Takes (D : Decoder State Byte Item Error) (r : Reader State Byte) :
    ReaderEvent Byte Item Error → Reader State Byte → Prop where
  | read {chunk : List Byte} : r.phase = .starved → chunk ≠ [] →
      Takes D r (.read chunk) ⟨r.state, r.buf ++ chunk, .readable⟩
  | noMore : r.phase = .starved → Takes D r (.read []) ⟨r.state, r.buf, .ending⟩
  | asked {s : State} {buf : List Byte} : r.phase = .readable →
      D.decode r.state r.buf = ⟨.ok none, s, buf⟩ → Takes D r .asked ⟨s, buf, .starved⟩
  | frame {s : State} {buf : List Byte} {i : Item} : r.phase = .readable →
      D.decode r.state r.buf = ⟨.ok (some i), s, buf⟩ →
      Takes D r (.returned (some (.ok i))) ⟨s, buf, .readable⟩
  | failed {s : State} {buf : List Byte} {err : Error} : r.phase = .readable →
      D.decode r.state r.buf = ⟨.error err, s, buf⟩ →
      Takes D r (.returned (some (.error err))) ⟨s, buf, .finished⟩
  | lastFrame {s : State} {buf : List Byte} {i : Item} : r.phase = .ending →
      D.decodeEof r.state r.buf = ⟨.ok (some i), s, buf⟩ →
      Takes D r (.returned (some (.ok i))) ⟨s, buf, .ending⟩
  | ended {s : State} {buf : List Byte} : r.phase = .ending →
      D.decodeEof r.state r.buf = ⟨.ok none, s, buf⟩ →
      Takes D r (.returned none) ⟨s, buf, .finished⟩
  | lastFailed {s : State} {buf : List Byte} {err : Error} : r.phase = .ending →
      D.decodeEof r.state r.buf = ⟨.error err, s, buf⟩ →
      Takes D r (.returned (some (.error err))) ⟨s, buf, .finished⟩

theorem step_cases [DecidableEq Item] [DecidableEq Error] (h : r.step D e = some r') :
    Takes D r e r' := by
  cases e with
  | read chunk =>
    obtain ⟨hphase, heq⟩ := Option.ite_none_right_eq_some.mp h
    obtain rfl := Option.some.inj heq
    cases chunk with
    | nil => exact .noMore hphase
    | cons b bs => exact .read hphase (List.cons_ne_nil b bs)
  | asked =>
    cases hphase : r.phase with
    | readable =>
      cases hcall : D.decode r.state r.buf with
      | mk result s buf =>
        simp only [step, hphase, hcall] at h
        cases result with
        | error err => cases h
        | ok item =>
          cases item with
          | some i => cases h
          | none =>
            obtain rfl := Option.some.inj h
            exact .asked hphase hcall
    | starved | ending | finished =>
      simp only [step, hphase] at h
      cases h
  | returned result =>
    cases hphase : r.phase with
    | readable =>
      simp only [step, hphase] at h
      obtain ⟨⟨hsome, rfl⟩, heq⟩ := Option.ite_none_right_eq_some.mp h
      obtain rfl := Option.some.inj heq
      cases hcall : D.decode r.state r.buf with
      | mk result s buf =>
        rw [hcall] at hsome
        cases result with
        | error err => exact .failed hphase hcall
        | ok item =>
          cases item with
          | none => cases hsome
          | some i => exact .frame hphase hcall
    | ending =>
      simp only [step, hphase] at h
      obtain ⟨rfl, heq⟩ := Option.ite_none_right_eq_some.mp h
      obtain rfl := Option.some.inj heq
      cases hcall : D.decodeEof r.state r.buf with
      | mk result s buf =>
        cases result with
        | error err => exact .lastFailed hphase hcall
        | ok item =>
          cases item with
          | none => exact .ended hphase hcall
          | some i => exact .lastFrame hphase hcall
    | starved | finished =>
      simp only [step, hphase] at h
      cases h

/-! ### All that is still to come -/

variable (D) in
/-- What the reader will hand out if the reads `more` are all that come. -/
def rest (r : Reader State Byte) (more : List (List Byte)) : List (Except Error Item) :=
  match r.phase with
  | .starved => D.deliverFrom r.state r.buf more
  | .readable => D.deliverFrom r.state r.buf ([] :: more)
  | .ending => (D.afterEof r.state r.buf).results
  | .finished => []

variable (D) in
/-- The same without the calls at the end of input. -/
def ahead (r : Reader State Byte) (more : List (List Byte)) : Drained State Byte Item Error :=
  match r.phase with
  | .starved => D.afterReads r.state r.buf more
  | _ => D.afterReads r.state r.buf ([] :: more)

theorem chunk?_read {chunk : List Byte} (h : chunk ≠ []) :
    (.read chunk : ReaderEvent Byte Item Error).chunk? = some chunk := by
  cases chunk with
  | nil => exact absurd rfl h
  | cons b bs => rfl

/-- A step hands out the first of what is to come. -/
theorem rest_step (h : Takes D r e r') {more : List (List Byte)}
    (hmore : r'.phase = .ending → more = []) :
    r.rest D (e.chunk?.toList ++ more) = e.frame?.toList ++ r'.rest D more := by
  cases h with
  | read hphase hchunk =>
    rw [chunk?_read hchunk]
    simp only [rest, hphase]
    apply D.deliverFrom_cons_of_afterRead_eq
    rw [List.append_nil]
  | noMore hphase =>
    obtain rfl := hmore rfl
    simp only [rest, hphase]
    exact D.deliverFrom_nil r.state r.buf
  | asked hphase hcall =>
    simp only [rest, hphase]
    apply D.deliverFrom_cons_none
    rw [List.append_nil, hcall]
  | frame hphase hcall =>
    simp only [rest, hphase]
    apply D.deliverFrom_cons_some
    rw [List.append_nil, hcall]
  | @failed s buf err hphase hcall =>
    have hread : D.afterRead r.state (r.buf ++ []) = ⟨[], some err, s, buf⟩ := by
      rw [List.append_nil]
      exact drain_error hcall
    simp only [rest, hphase]
    rw [D.deliverFrom_cons_error (congrArg Drained.error hread), hread]
    rfl
  | lastFrame hphase hcall =>
    simp only [rest, hphase]
    exact congrArg Drained.results (D.afterEof_some hcall)
  | ended hphase hcall =>
    simp only [rest, hphase]
    exact congrArg Drained.results (D.afterEof_none hcall)
  | @lastFailed s buf err hphase hcall =>
    have hread : D.afterEof r.state r.buf = ⟨[], some err, s, buf⟩ := drain_error hcall
    simp only [rest, hphase]
    exact congrArg Drained.results hread

/-- After the end of input nothing is read. -/
theorem over_step (h : Takes D r e r') (hover : r.phase = .ending ∨ r.phase = .finished) :
    (r'.phase = .ending ∨ r'.phase = .finished) ∧ e.chunk? = none := by
  cases h with
  | read hphase | noMore hphase | asked hphase | frame hphase | failed hphase =>
    rw [hphase] at hover
    rcases hover with hover | hover
    · cases hover
    · cases hover
  | lastFrame => exact ⟨.inl rfl, rfl⟩
  | ended => exact ⟨.inr rfl, rfl⟩
  | lastFailed => exact ⟨.inr rfl, rfl⟩

variable [DecidableEq Item] [DecidableEq Error] {s : State}

theorem over_run (hrun : Machine.run (step D) r es = some r')
    (hover : r.phase = .ending ∨ r.phase = .finished) :
    (r'.phase = .ending ∨ r'.phase = .finished) ∧ chunks es = [] := by
  induction es generalizing r with
  | nil =>
    obtain rfl := Option.some.inj hrun
    exact ⟨hover, rfl⟩
  | cons e es ih =>
    obtain ⟨t, ht, hlater⟩ := Machine.run_cons.mp hrun
    obtain ⟨hover, hchunk⟩ := over_step (step_cases ht) hover
    obtain ⟨hend, hchunks⟩ := ih hlater hover
    refine ⟨hend, ?_⟩
    rw [chunks, List.filterMap_cons_none hchunk]
    exact hchunks

theorem filterMap_cons_toList {α β : Type*} (f : α → Option β) (a : α) (as : List α) :
    (a :: as).filterMap f = (f a).toList ++ as.filterMap f := by
  rw [List.filterMap_cons]
  cases f a with
  | none => rfl
  | some b => rfl

theorem rest_run (hrun : Machine.run (step D) r es = some r') :
    r.rest D (chunks es) = frames es ++ r'.rest D [] := by
  induction es generalizing r with
  | nil =>
    obtain rfl := Option.some.inj hrun
    rfl
  | cons e es ih =>
    obtain ⟨t, ht, hlater⟩ := Machine.run_cons.mp hrun
    have hmore : t.phase = .ending → chunks es = [] :=
      fun hphase => (over_run hlater (.inl hphase)).2
    have hnow := rest_step (step_cases ht) hmore
    rw [ih hlater, ← List.append_assoc] at hnow
    rw [chunks, frames, filterMap_cons_toList, filterMap_cons_toList]
    exact hnow

/-- The frames so far begin the run over the reads so far, and what is missing is still to come. -/
theorem deliver_run (hrun : Machine.run (step D) (fresh s) es = some r') :
    D.deliver s (chunks es) = frames es ++ r'.rest D [] :=
  rest_run hrun

/-- A reader that waits for bytes has handed out all there is in those it read. -/
theorem ahead_run (hrun : Machine.run (step D) r es = some r') (hphase : r'.phase = .starved) :
    ∃ items, frames es = items.map .ok ∧
      r.ahead D (chunks es) = ⟨items, none, r'.state, r'.buf⟩ := by
  induction es generalizing r with
  | nil =>
    obtain rfl := Option.some.inj hrun
    refine ⟨[], rfl, ?_⟩
    simp only [ahead, hphase]
    rfl
  | cons e es ih =>
    obtain ⟨t, ht, hlater⟩ := Machine.run_cons.mp hrun
    have hgoes : ¬ (t.phase = .ending ∨ t.phase = .finished) := by
      intro hover
      rcases (over_run hlater hover).1 with hend | hend
      · rw [hphase] at hend
        cases hend
      · rw [hphase] at hend
        cases hend
    obtain ⟨items, hframes, hahead⟩ := ih hlater
    rw [chunks, frames, filterMap_cons_toList, filterMap_cons_toList]
    cases step_cases ht with
    | read hstarved hchunk =>
      refine ⟨items, hframes, ?_⟩
      rw [chunk?_read hchunk, ← hahead]
      simp only [ahead, hstarved]
      apply D.afterReads_cons_congr
      rw [List.append_nil]
    | asked hreadable hcall =>
      refine ⟨items, hframes, ?_⟩
      rw [← hahead]
      simp only [ahead, hreadable]
      apply D.afterReads_cons_none
      rw [List.append_nil, hcall]
    | @frame s' buf' i hreadable hcall =>
      refine ⟨i :: items, congrArg (Except.ok i :: ·) hframes, ?_⟩
      have hcons := congrArg (Drained.cons i) hahead
      simp only [ahead, hreadable] at hcons ⊢
      rw [← List.append_nil r.buf] at hcall
      exact (D.afterReads_cons_some hcall).trans hcons
    | noMore | lastFrame => exact absurd (.inl rfl) hgoes
    | failed | ended | lastFailed => exact absurd (.inr rfl) hgoes

end Reader

end Liaozhai.Framed
