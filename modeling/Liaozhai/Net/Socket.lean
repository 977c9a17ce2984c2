import Liaozhai.Library.Pull
import Liaozhai.Library.Turns
import Liaozhai.Net.Conversation
import Liaozhai.Net.Terminators

/-!
# The handler and its socket

`FramedRead` with the codec, polled by the handler. The handler asks for an item
when it waits and at no other time, so what the client sends is read in pieces of
any size, at any moment between the handler's own calls.
-/

namespace Liaozhai.Net

open Codec Constants
open Framed (Reader ReaderEvent)
open Utf8Lossy (asBytes fromUtf8Lossy)
set_option autoImplicit false

abbrev LineEvent := ReaderEvent UInt8 (CodecItem String) TelnetCodecError

structure Socket where
  reader : Reader TelnetLineCodec UInt8
  conn : Connection

/-- A step of the read loop, or one of the handler. -/
inductive SocketEvent where
  | read (chunk : List UInt8)
  | asked
  | own (e : Event)

namespace Connection
variable {ctx : SessionContext} {c c' : Connection} {e : Event} {es : List Event}

theorem aligned_run (hrun : run ctx (new ctx) es = some c) : Aligned ctx c := by
  apply Machine.run_invariant _ ⟨rfl, rfl⟩ hrun
  intro t e t' h hstep
  exact aligned_step h hstep

theorem view_waiting (hp : c.point = .waiting) :
    view ctx c = ⟨stageOf c.session.state, c.authFailures⟩ := by
  simp only [view, hp]

theorem stageOf_ne_ended (state : SessionState) : stageOf state ≠ .ended := by
  cases state with
  | authenticating username =>
    cases username with
    | none => exact Stage.noConfusion
    | some _ => exact Stage.noConfusion
  | worldSelection _ => exact Stage.noConfusion

/-- The conversation is not over where the handler listens. -/
theorem live_of_waiting (hp : c.point = .waiting) : (view ctx c).stage ≠ .ended := by
  rw [view_waiting hp]
  exact stageOf_ne_ended c.session.state

/-- It does not begin again. -/
theorem ended_view_step (h : Aligned ctx c) (hended : (view ctx c).stage = .ended)
    (hstep : step ctx c e = some c') : (view ctx c').stage = .ended := by
  have hview := (keeps_step h hstep).1
  cases step_cases hstep with
  | throttleChecked _ hp | verifyReturned _ hp =>
    simp only [view, hp] at hended
    cases hended
  | received _ hp | cancelled hp => exact absurd hended (live_of_waiting hp)
  | wrote result _ =>
    rw [hview]
    cases result with
    | ok _ => exact hended
    | error _ => rfl
  | shutDown | verifyCalled | limiterReset | loginRecorded | maxRetries | retry =>
    rw [hview]
    exact hended

end Connection

namespace SocketEvent

def own? : SocketEvent → Option Event
  | .own e => some e
  | _ => none

/-- The reader's part in a step. A read that fails is no call of the codec. -/
def line? : SocketEvent → Option LineEvent
  | .read chunk => some (.read chunk)
  | .asked => some .asked
  | .own (.received (some (.error (.io _)))) => none
  | .own (.received item) => some (.returned item)
  | .own _ => none

/-- The reads that brought bytes. -/
def chunks (es : List SocketEvent) : List (List UInt8) :=
  ReaderEvent.chunks (es.filterMap line?)

/-- What the codec handed out. -/
def handed (es : List SocketEvent) : List Item := ReaderEvent.frames (es.filterMap line?)

def received? : SocketEvent → Option (Option Item)
  | .own (.received item) => some item
  | _ => none

/-- What the handler got, with the end of input or the failure of a read. -/
def received (es : List SocketEvent) : List (Option Item) := es.filterMap received?

theorem handed_snoc (es : List SocketEvent) (e : SocketEvent) :
    handed (es ++ [e]) = handed es ++ handed [e] := by
  simp only [handed, ReaderEvent.frames, List.filterMap_append]

theorem received_snoc (es : List SocketEvent) (e : SocketEvent) :
    received (es ++ [e]) = received es ++ received [e] :=
  List.filterMap_append

end SocketEvent

open SocketEvent (chunks handed handed_snoc received received_snoc)

namespace Socket

def new (ctx : SessionContext) (codec : TelnetLineCodec) : Socket := ⟨.fresh codec, .new ctx⟩

/-- A read fails where it could have brought bytes. -/
def readerAfter (r : Reader TelnetLineCodec UInt8) :
    SocketEvent → Option (Reader TelnetLineCodec UInt8)
  | .own (.received (some (.error (.io _)))) => if r.phase = .starved then some r else none
  | e =>
    match e.line? with
    | some e' => r.step (decoder fromUtf8Lossy) e'
    | none => some r

/-- The reader is polled while the handler waits for an item. -/
def connAfter (ctx : SessionContext) (c : Connection) : SocketEvent → Option Connection
  | .own e => c.step ctx e
  | _ => if c.point = .waiting then some c else none

def step (ctx : SessionContext) (s : Socket) (e : SocketEvent) : Option Socket :=
  (readerAfter s.reader e).bind fun reader =>
    (connAfter ctx s.conn e).map fun conn => ⟨reader, conn⟩

def run (ctx : SessionContext) : Socket → List SocketEvent → Option Socket :=
  Machine.run (step ctx)

variable {ctx : SessionContext} {codec : TelnetLineCodec} {s s' : Socket} {e : SocketEvent}
  {es : List SocketEvent}

theorem step_eq_some (h : step ctx s e = some s') :
    readerAfter s.reader e = some s'.reader ∧ connAfter ctx s.conn e = some s'.conn := by
  obtain ⟨reader, hreader, h⟩ := Option.bind_eq_some_iff.mp h
  obtain ⟨conn, hconn, rfl⟩ := Option.map_eq_some_iff.mp h
  exact ⟨hreader, hconn⟩

theorem readerAfter_follows {r r' : Reader TelnetLineCodec UInt8} (h : readerAfter r e = some r') :
    Machine.run (Reader.step (decoder fromUtf8Lossy)) r e.line?.toList = some r' := by
  unfold readerAfter at h
  split at h
  · obtain ⟨_, hsame⟩ := Option.ite_none_right_eq_some.mp h
    exact hsame
  · split at h
    · rename_i e' hline
      rw [hline]
      exact Machine.run_cons.mpr ⟨r', h, rfl⟩
    · rename_i hline
      rw [hline]
      exact h

/-- The reader makes a run of its own. -/
theorem reader_run (hrun : run ctx s es = some s') :
    Machine.run (Reader.step (decoder fromUtf8Lossy)) s.reader (es.filterMap SocketEvent.line?) =
      some s'.reader := by
  apply Machine.run_filterMap _ hrun
  intro t e t' hstep
  exact readerAfter_follows (step_eq_some hstep).1

theorem connAfter_follows {c c' : Connection} (h : connAfter ctx c e = some c') :
    Connection.run ctx c e.own?.toList = some c' := by
  cases e with
  | own e => exact Machine.run_cons.mpr ⟨c', h, rfl⟩
  | read | asked =>
    obtain ⟨_, hsame⟩ := Option.ite_none_right_eq_some.mp h
    exact hsame

/-- So does the handler: it cannot tell the socket from any other source of items. -/
theorem conn_run (hrun : run ctx s es = some s') :
    Connection.run ctx s.conn (es.filterMap SocketEvent.own?) = some s'.conn := by
  apply Machine.run_filterMap _ hrun
  intro t e t' hstep
  exact connAfter_follows (step_eq_some hstep).2

/-- What the handler got beyond the frames, when it has ended. -/
def Tail (reader : Reader TelnetLineCodec UInt8) (tail : List (Option Item)) : Prop :=
  tail = [none] ∧ reader.phase = .finished ∨ ∃ error, tail = [some (.error (.io error))]

/-- The handler got the frames in their order, then at most one end or failure. -/
structure Ordered (ctx : SessionContext) (es : List SocketEvent) (s : Socket) : Prop where
  aligned : Connection.Aligned ctx s.conn
  frames : ∃ tail, received es = (handed es).map some ++ tail ∧
    (tail = [] ∨ (Connection.view ctx s.conn).stage = .ended ∧ Tail s.reader tail)

theorem Ordered.waiting (h : Ordered ctx es s) (hp : s.conn.point = .waiting) :
    received es = (handed es).map some := by
  obtain ⟨tail, hframes, hnil | ⟨hended, _⟩⟩ := h.frames
  · rw [hframes, hnil, List.append_nil]
  · exact absurd hended (Connection.live_of_waiting hp)

/-- A step in which nothing is received. -/
theorem Ordered.other (h : Ordered ctx es s) (hreader : s'.reader = s.reader)
    (haligned : Connection.Aligned ctx s'.conn)
    (hended : (Connection.view ctx s.conn).stage = .ended →
      (Connection.view ctx s'.conn).stage = .ended)
    (hreceived : received [e] = []) (hhanded : handed [e] = []) : Ordered ctx (es ++ [e]) s' := by
  refine ⟨haligned, ?_⟩
  obtain ⟨tail, hframes, htail⟩ := h.frames
  refine ⟨tail, ?_, ?_⟩
  · rw [received_snoc, handed_snoc, hreceived, hhanded, List.append_nil, List.append_nil, hframes]
  · rw [hreader]
    rcases htail with hnil | ⟨hover, htail⟩
    · exact .inl hnil
    · exact .inr ⟨hended hover, htail⟩

theorem received_item {item : Option Item} (c : Connection)
    {r r' : Reader TelnetLineCodec UInt8}
    (hreader : readerAfter r (.own (.received item)) = some r') :
    ∃ tail, received [.own (.received item)] = (handed [.own (.received item)]).map some ++ tail ∧
      (tail = [] ∨ (Connection.view ctx (c.takeItem item)).stage = .ended ∧ Tail r' tail) := by
  cases item with
  | none =>
    have hcall : r.step (decoder fromUtf8Lossy) (.returned none) = some r' := hreader
    refine ⟨[none], rfl, .inr ⟨rfl, .inl ⟨rfl, ?_⟩⟩⟩
    cases Reader.step_cases hcall with
    | ended => rfl
  | some result =>
    cases result with
    | ok i => exact ⟨[], rfl, .inl rfl⟩
    | error error =>
      cases error with
      | io error => exact ⟨_, rfl, .inr ⟨rfl, .inr ⟨error, rfl⟩⟩⟩
      | bufferOverflow max => exact ⟨[], rfl, .inl rfl⟩

/-- A step in which the handler gets an item. -/
theorem Ordered.item (h : Ordered ctx es s) {item : Option Item} (hp : s.conn.point = .waiting)
    (haligned : Connection.Aligned ctx (s.conn.takeItem item))
    {reader : Reader TelnetLineCodec UInt8}
    (hreader : readerAfter s.reader (.own (.received item)) = some reader) :
    Ordered ctx (es ++ [.own (.received item)]) ⟨reader, s.conn.takeItem item⟩ := by
  obtain ⟨tail, hlast, htail⟩ := @received_item ctx _ s.conn _ _ hreader
  refine ⟨haligned, tail, ?_, htail⟩
  rw [received_snoc, handed_snoc, h.waiting hp, hlast, List.map_append, List.append_assoc]

/-- A step of the read loop. -/
theorem Ordered.polled (h : Ordered ctx es s) (hp : s.conn.point = .waiting)
    (hconn : s'.conn = s.conn) (hreceived : received [e] = []) (hhanded : handed [e] = []) :
    Ordered ctx (es ++ [e]) s' := by
  refine ⟨hconn ▸ h.aligned, [], ?_, .inl rfl⟩
  rw [received_snoc, handed_snoc, h.waiting hp, hreceived, hhanded, List.append_nil, List.append_nil,
    List.append_nil]

theorem ordered_step (h : Ordered ctx es s) (hstep : step ctx s e = some s') :
    Ordered ctx (es ++ [e]) s' := by
  obtain ⟨hreader, hconn⟩ := step_eq_some hstep
  cases e with
  | read | asked =>
    obtain ⟨hp, hsame⟩ := Option.ite_none_right_eq_some.mp hconn
    exact h.polled hp (Option.some.inj hsame).symm rfl rfl
  | own e =>
    change s.conn.step ctx e = some s'.conn at hconn
    have haligned := Connection.aligned_step h.aligned hconn
    have hended : (Connection.view ctx s.conn).stage = .ended →
        (Connection.view ctx s'.conn).stage = .ended := by
      intro hover
      exact Connection.ended_view_step h.aligned hover hconn
    cases e with
    | received item =>
      obtain ⟨reader, conn⟩ := s'
      cases Connection.step_cases hconn with
      | received _ hp => exact h.item hp haligned hreader
    | throttleChecked | wrote | shutDown | cancelled | verifyCalled | verifyReturned
    | limiterReset | loginRecorded | failureRecorded =>
      exact h.other (Option.some.inj hreader).symm haligned hended rfl rfl

theorem ordered_run (hrun : run ctx (new ctx codec) es = some s) : Ordered ctx es s := by
  apply Machine.run_history (P := Ordered ctx) _ _ hrun
  · intro pre t e t' _ h hstep
    exact ordered_step h hstep
  · exact ⟨⟨rfl, rfl⟩, [], rfl, .inl rfl⟩

/-- Pace and pieces do not matter. However the client's bytes are cut and whenever the
handler comes to ask for them, it gets what the codec makes of the bytes read so far, in
order, nothing twice; then at most one end of input, with nothing left, or one failure.
When the reader is starved, nothing that is complete is left. -/
theorem received_inOrder (hrun : run ctx (new ctx codec) es = some s) :
    ∃ rest tail,
      (decoder fromUtf8Lossy).deliver codec (chunks es) = handed es ++ rest ∧
      received es = (handed es).map some ++ tail ∧
      (tail = [] ∨ tail = [none] ∧ rest = [] ∨ ∃ error, tail = [some (.error (.io error))]) ∧
      (s.reader.phase = .starved →
        handed es = ((decoder fromUtf8Lossy).afterReads codec [] (chunks es)).results) := by
  have hreader := reader_run hrun
  obtain ⟨tail, hreceived, htail⟩ := (ordered_run hrun).frames
  refine ⟨s.reader.rest (decoder fromUtf8Lossy) [], tail, Reader.deliver_run hreader, hreceived, ?_, ?_⟩
  · rcases htail with hnil | ⟨_, ⟨hnone, hfinished⟩ | hfailed⟩
    · exact .inl hnil
    · refine .inr (.inl ⟨hnone, ?_⟩)
      simp only [Reader.rest, hfinished]
    · exact .inr (.inr hfailed)
  · intro hstarved
    obtain ⟨items, hframes, hahead⟩ := Reader.ahead_run hreader hstarved
    have hreads : (decoder fromUtf8Lossy).afterReads codec [] (chunks es) =
        ⟨items, none, s.reader.state, s.reader.buf⟩ := hahead
    rw [hreads]
    exact hframes.trans (List.append_nil _).symm

/-- The name arrives in two pieces. -/
def cutName : List SocketEvent :=
  [.own (.throttleChecked false),
    .own (.wrote (asBytes (banner ++ Session.initialPrompt)) (.ok ())),
    .read [97, 108, 105], .asked, .read [99, 101, LF],
    .own (.received (some (.ok (.line "alice"))))]

theorem received_inOrder_cutName :
    ∃ rest, (decoder fromUtf8Lossy).deliver (.withLimits 10 20) [[97, 108, 105], [99, 101, LF]] =
      .ok (.line "alice") :: rest := by
  have hruns : (run ⟨⟨[]⟩, 3⟩ (new ⟨⟨[]⟩, 3⟩ (.withLimits 10 20)) cutName).isSome = true := by
    decide +kernel
  obtain ⟨s, hrun⟩ := Option.isSome_iff_exists.mp hruns
  obtain ⟨rest, _, hdeliver, _⟩ := received_inOrder hrun
  exact ⟨rest, hdeliver⟩

end Socket

end Liaozhai.Net
