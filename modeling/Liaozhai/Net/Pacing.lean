import Liaozhai.Net.Socket

/-!
# What the client cannot notice

Where the conversation stands tells whether the rate limiter, the client or the
account store speaks next. So how the client's bytes arrive, early or late, in one
piece or in many, has no influence on what the client is answered: the text that it
typed and the answers of the others decide everything.
-/

namespace Liaozhai.Net

open Codec Constants
open Lines (lastLine segments)
open Turns (InTurn sentBy)
open Utf8Lossy (asBytes fromUtf8Lossy)
set_option autoImplicit false

inductive Source where
  | limiter
  | client
  | store
  deriving DecidableEq

def Told.source : Told → Option Source
  | .throttled _ => some .limiter
  | .item _ => some .client
  | .checked _ => some .store
  | .stopped | .lost => none

/-- Who speaks next. -/
def Stage.turn : Stage → Option Source
  | .greeting => some .limiter
  | .name | .password _ | .world _ => some .client
  | .checking _ => some .store
  | .ended => none

namespace Connection
variable {ctx : SessionContext} {c c' : Connection} {e : Event} {es : List Event} {told : Told}

theorem turn_stageOf (state : SessionState) : (stageOf state).turn = some .client := by
  cases state with
  | authenticating username =>
    cases username with
    | none => rfl
    | some _ => rfl
  | worldSelection _ => rfl

theorem stageOf_injective {state state' : SessionState} (h : stageOf state = stageOf state') :
    state = state' := by
  cases state with
  | authenticating username =>
    cases state' with
    | authenticating username' =>
      cases username with
      | none =>
        cases username' with
        | none => rfl
        | some _ => cases h
      | some _ =>
        cases username' with
        | none => cases h
        | some _ => rw [Stage.password.inj h]
    | worldSelection _ =>
      cases username with
      | none => cases h
      | some _ => cases h
  | worldSelection account =>
    cases state' with
    | authenticating username' =>
      cases username' with
      | none => cases h
      | some _ => cases h
    | worldSelection account' => rw [Stage.world.inj h]

theorem session_ext {session session' : Session} (hstate : session.state = session'.state)
    (hregistry : session.registry = session'.registry) : session = session' := by
  cases session
  cases session'
  obtain rfl := hstate
  obtain rfl := hregistry
  rfl

/-- A handler that waits is known from its conversation. -/
theorem waiting_said (hrun : run ctx (new ctx) es = some c) (hp : c.point = .waiting) :
    (Conversation.converse ctx (es.filterMap told?)).1 =
        ⟨stageOf c.session.state, c.authFailures⟩ ∧
      (Conversation.converse ctx (es.filterMap told?)).2.flatMap Said.bytes = emitted es := by
  obtain ⟨hview, hsent⟩ := said_run hrun
  have howed : owed ctx c = [] := by
    simp only [owed, hp, output, Option.getD_none]
  rw [howed, List.append_nil] at hsent
  exact ⟨hview.symm.trans (view_waiting hp), hsent.symm⟩

/-- What the handler is told comes from whoever speaks next, unless it ends everything. -/
theorem turn_step (h : Aligned ctx c) (hstep : step ctx c e = some c')
    (hlive : (view ctx c').stage ≠ .ended) (htold : told? e = some told) :
    told.source = (view ctx c).stage.turn ∧ told.source.isSome := by
  have hview := (keeps_step h hstep).1
  rw [htold] at hview
  cases step_cases hstep with
  | throttleChecked throttled hp =>
    obtain rfl := Option.some.inj htold
    simp only [view, hp]
    exact ⟨rfl, rfl⟩
  | received item hp =>
    obtain rfl := Option.some.inj htold
    rw [view_waiting hp, turn_stageOf]
    exact ⟨rfl, rfl⟩
  | verifyReturned result hp =>
    obtain rfl := Option.some.inj htold
    simp only [view, hp]
    exact ⟨rfl, rfl⟩
  | cancelled hp =>
    obtain rfl := Option.some.inj htold
    exact absurd (congrArg Conversation.stage hview) hlive
  | wrote result _ =>
    cases result with
    | ok _ => cases htold
    | error error =>
      obtain rfl := Option.some.inj htold
      exact absurd (congrArg Conversation.stage hview) hlive
  | shutDown | verifyCalled | limiterReset | loginRecorded | maxRetries | retry => cases htold

/-- In turn, as the conversation goes. -/
def TakesTurns (ctx : SessionContext) (told : List Told) : Prop :=
  InTurn (Conversation.respond ctx) (fun k => k.stage.turn) Told.source ⟨.greeting, 0⟩ told

theorem takesTurns_run (hrun : run ctx (new ctx) es = some c)
    (hlive : (view ctx c).stage ≠ .ended) : TakesTurns ctx (es.filterMap told?) := by
  induction es using List.reverseRecOn generalizing c with
  | nil => trivial
  | append_singleton es e ih =>
    obtain ⟨t, ht, hstep⟩ := Machine.run_snoc.mp hrun
    have haligned := aligned_run ht
    have hbefore : (view ctx t).stage ≠ .ended :=
      fun hended => hlive (ended_view_step haligned hended hstep)
    have hturns := ih ht hbefore
    have hview := (said_run ht).1
    rw [List.filterMap_append]
    apply (Transducer.along_append _).mpr ⟨hturns, ?_⟩
    cases htold : told? e with
    | none =>
      rw [List.filterMap_cons_none htold]
      trivial
    | some told =>
      rw [List.filterMap_cons_some htold]
      have hturn := turn_step haligned hstep hlive htold
      rw [hview] at hturn
      exact ⟨hturn, trivial⟩

end Connection

namespace Socket
variable {ctx : SessionContext} {codec : TelnetLineCodec} {s s' : Socket}
  {es es' : List SocketEvent}

open Connection (emitted told? view)
open SocketEvent (chunks handed own? received)

/-- All that the handler was told. -/
def told (es : List SocketEvent) : List Told := (es.filterMap own?).filterMap told?

/-- The answers of the rate limiter and of the account store. -/
def answers (es : List SocketEvent) : List Told :=
  (told es).filter fun told => told.source ≠ some .client

theorem sentBy_client (es : List SocketEvent) :
    sentBy Told.source .client (told es) = (received es).map .item := by
  induction es with
  | nil => rfl
  | cons e es ih =>
    cases e with
    | read | asked => exact ih
    | own e =>
      cases e with
      | received item => exact congrArg (Told.item item :: ·) ih
      | wrote bytes result =>
        cases result with
        | ok _ => exact ih
        | error _ => exact ih
      | throttleChecked | shutDown | cancelled | verifyCalled | verifyReturned | limiterReset
      | loginRecorded | failureRecorded => exact ih

theorem sentBy_other {p : Source} (hp : p ≠ .client) (es : List SocketEvent) :
    sentBy Told.source p (told es) = sentBy Told.source p (answers es) := by
  rw [sentBy, sentBy, answers, List.filter_filter]
  apply List.filter_congr
  intro told _
  by_cases hsource : told.source = some p
  · have hclient : told.source ≠ some .client := by
      rw [hsource]
      exact fun heq => hp (Option.some.inj heq)
    simp [hsource, hp]
  · simp [hsource]

variable {maxLineLength maxBufferSize : Nat}

/-- A starved reader has handed out the lines of the bytes, as the reads cut them. -/
theorem handed_starved
    (hrun : run ctx (new ctx (.withLimits maxLineLength maxBufferSize)) es = some s)
    (hstarved : s.reader.phase = .starved) (hiac : IAC ∉ (chunks es).flatten)
    (hline : ∀ l ∈ segments (chunks es).flatten, l.length ≤ maxLineLength)
    (hbuf : (chunks es).flatten.length ≤ maxBufferSize) :
    handed es =
      ((cutSplit .fresh (marked (chunks es))).2.map fromUtf8Lossy).map fun l => .ok (.line l) := by
  obtain ⟨_, _, _, _, _, hall⟩ := received_inOrder hrun
  obtain ⟨herr, hitems, _⟩ := @afterReads_safe _ fromUtf8Lossy _ _ _ (safe_plain hiac hline hbuf)
  rw [hall hstarved, Framed.Drained.results, herr, hitems, run_readStep_plain hiac, List.map_map,
    List.map_map]
  exact List.append_nil _

/-- Reads of the same bytes, with equally many CR LF pairs cut before each text byte and
before the end, complete the same lines. -/
theorem completed_same {reads reads' : List (List UInt8)} (hbytes : reads.flatten = reads'.flatten)
    (hcuts : cutCounts reads = cutCounts reads') (hiac : IAC ∉ reads.flatten) :
    (cutSplit .fresh (marked reads)).2.map fromUtf8Lossy =
      (cutSplit .fresh (marked reads')).2.map fromUtf8Lossy := by
  have hempty : ∀ l, fromUtf8Lossy l = fromUtf8Lossy [] → l = [] := by
    intro l hl
    exact Utf8Lossy.fromUtf8Lossy_eq_empty.mp
      (hl.trans (Utf8Lossy.fromUtf8Lossy_eq_empty.mpr rfl))
  have hmarked : (marked reads).map Prod.fst = (marked reads').map Prod.fst := by
    rw [map_fst_marked, map_fst_marked, hbytes]
  have hlines := (cutLines_iff hempty hmarked (s := .fresh) (fun _ => rfl) (m := 0) (n := 0)
    fun _ => rfl).mpr hcuts
  have hkept : (cutSplit .fresh (marked reads)).1.partialLine =
      (cutSplit .fresh (marked reads')).1.partialLine := by
    have hold := run_readStep_plain hiac
    have hnew := run_readStep_plain (hbytes ▸ hiac)
    have hsame := run_readStep_fst reads
    rw [hbytes, ← run_readStep_fst reads', hold, hnew] at hsame
    exact congrArg Kept.partialLine hsame
  simp only [List.replicate_zero, List.nil_append, cutLines, hkept, List.map_append] at hlines
  exact List.append_cancel_right hlines

/-- The client cannot notice how its bytes travelled. Take two runs in which it sent the
same text and the rate limiter and the account store gave the same answers, and in which
the reads had cut equally many CR LF pairs before each text byte and before the end. They
have come to the same point with the same output when they wait for more. -/
theorem same_conversation
    (hrun : run ctx (new ctx (.withLimits maxLineLength maxBufferSize)) es = some s)
    (hrun' : run ctx (new ctx (.withLimits maxLineLength maxBufferSize)) es' = some s')
    (hwaiting : s.conn.point = .waiting ∧ s'.conn.point = .waiting)
    (hstarved : s.reader.phase = .starved ∧ s'.reader.phase = .starved)
    (hbytes : (chunks es).flatten = (chunks es').flatten)
    (hcuts : cutCounts (chunks es) = cutCounts (chunks es'))
    (hiac : IAC ∉ (chunks es).flatten)
    (hline : ∀ l ∈ segments (chunks es).flatten, l.length ≤ maxLineLength)
    (hbuf : (chunks es).flatten.length ≤ maxBufferSize) (hanswers : answers es = answers es') :
    s.conn.session = s'.conn.session ∧ s.conn.authFailures = s'.conn.authFailures ∧
      emitted (es.filterMap own?) = emitted (es'.filterMap own?) := by
  have hhanded : handed es = handed es' := by
    rw [handed_starved hrun hstarved.1 hiac hline hbuf,
      handed_starved hrun' hstarved.2 (hbytes ▸ hiac) (hbytes ▸ hline) (hbytes ▸ hbuf),
      completed_same hbytes hcuts hiac]
  have hreceived : received es = received es' := by
    rw [(ordered_run hrun).waiting hwaiting.1, (ordered_run hrun').waiting hwaiting.2, hhanded]
  have htold : told es = told es' := by
    apply Turns.eq_of_sentBy
      (Connection.takesTurns_run (conn_run hrun) (Connection.live_of_waiting hwaiting.1))
      (Connection.takesTurns_run (conn_run hrun') (Connection.live_of_waiting hwaiting.2))
    intro p
    by_cases hp : p = .client
    · subst hp
      exact (sentBy_client es).trans ((congrArg _ hreceived).trans (sentBy_client es').symm)
    · exact (sentBy_other hp es).trans ((congrArg _ hanswers).trans (sentBy_other hp es').symm)
  obtain ⟨hstage, hsaid⟩ := Connection.waiting_said (conn_run hrun) hwaiting.1
  obtain ⟨hstage', hsaid'⟩ := Connection.waiting_said (conn_run hrun') hwaiting.2
  have hsame : (es.filterMap own?).filterMap told? = (es'.filterMap own?).filterMap told? := htold
  rw [hsame] at hstage hsaid
  obtain ⟨hstate, hfailures⟩ := Conversation.mk.inj (hstage.symm.trans hstage')
  have hregistry := (Connection.aligned_run (conn_run hrun)).registry
  have hregistry' := (Connection.aligned_run (conn_run hrun')).registry
  refine ⟨?_, hfailures, hsaid.symm.trans hsaid'⟩
  exact Connection.session_ext (Connection.stageOf_injective hstate) (hregistry.trans hregistry'.symm)

/-- The name arrives at once. -/
def wholeName : List SocketEvent :=
  [.own (.throttleChecked false),
    .own (.wrote (asBytes (banner ++ Session.initialPrompt)) (.ok ())),
    .read [97, 108, 105, 99, 101, LF], .own (.received (some (.ok (.line "alice"))))]

/-- The handler asks for a password, and the reader for more bytes. -/
def askedAgain : List SocketEvent :=
  [.own (.wrote (iacWillEcho ++ asBytes passwordPrompt) (.ok ())), .asked]

theorem same_conversation_cutName :
    ∃ s s' : Socket, s.conn.session.state = .authenticating (some "alice") ∧
      s.conn.session = s'.conn.session ∧ s.conn.authFailures = s'.conn.authFailures ∧
      emitted ((cutName ++ askedAgain).filterMap own?) =
        emitted ((wholeName ++ askedAgain).filterMap own?) := by
  have hrun : (run ⟨⟨[]⟩, 3⟩ (new ⟨⟨[]⟩, 3⟩ (.withLimits 10 20)) (cutName ++ askedAgain)).map
      (fun s => (s.conn, s.reader.phase)) =
        some (⟨.waiting, ⟨.authenticating (some "alice"), ⟨[]⟩⟩, 0, 1⟩, .starved) := by
    decide +kernel
  have hrun' : (run ⟨⟨[]⟩, 3⟩ (new ⟨⟨[]⟩, 3⟩ (.withLimits 10 20)) (wholeName ++ askedAgain)).map
      (fun s => (s.conn, s.reader.phase)) =
        some (⟨.waiting, ⟨.authenticating (some "alice"), ⟨[]⟩⟩, 0, 1⟩, .starved) := by
    decide +kernel
  obtain ⟨⟨reader, conn⟩, hrun, heq⟩ := Option.map_eq_some_iff.mp hrun
  obtain ⟨⟨reader', conn'⟩, hrun', heq'⟩ := Option.map_eq_some_iff.mp hrun'
  obtain ⟨rfl, hphase⟩ := Prod.mk.inj heq
  obtain ⟨rfl, hphase'⟩ := Prod.mk.inj heq'
  exact ⟨_, _, rfl, same_conversation hrun hrun' ⟨rfl, rfl⟩ ⟨hphase, hphase'⟩ rfl (by decide)
    (by decide) (by decide) (by decide) rfl⟩

end Socket

end Liaozhai.Net
