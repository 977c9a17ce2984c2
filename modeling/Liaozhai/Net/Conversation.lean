import Liaozhai.Library.Lagging
import Liaozhai.Net.Echo

/-!
# The conversation

What a client and the server say to each other, without the calls that the handler
makes for it: a name is asked for, then a password, the credentials are checked, and
a world is selected. The handler says exactly this, though it says it later.
-/

namespace Liaozhai.Net

open Auth Codec Constants Worlds
open RustString (parseUsize replace trim)
open Utf8Lossy (asBytes)
set_option autoImplicit false

inductive Stage where
  | greeting
  | name
  | password (username : String)
  | checking (username : String)
  | world (account : Account)
  | ended
  deriving DecidableEq

structure Conversation where
  stage : Stage
  failures : Nat
  deriving DecidableEq

/-- What the handler is told: by the rate limiter, the client, the shutdown token, the
account store, or a write that failed. -/
inductive Told where
  | throttled (throttled : Bool)
  | item (item : Option Item)
  | stopped
  | checked (result : Except String (Option Account))
  | lost

inductive Said where
  | text (words : String)
  | willEcho
  | wontEcho
  deriving DecidableEq

def Said.bytes : Said → List UInt8
  | .text words => asBytes words
  | .willEcho => iacWillEcho
  | .wontEcho => iacWontEcho

/-- The world that a line selects, or the complaint about it. -/
def chosen (registry : WorldRegistry) (line : String) : Except String WorldMetadata :=
  match parseUsize (trim line) with
  | none => .error worldSelectionNonNumericMsg
  | some n =>
    match registry.getByPosition n with
    | some world => .ok world
    | none => .error (replace worldSelectionOutOfRangeMsg "{n}" (toString registry.len))

def farewell (world : WorldMetadata) : String :=
  "\r\n" ++ replace worldSelectedTemplate "{world}" world.name

/-- The greeting with the list of worlds, if that can be written. -/
def welcome (registry : WorldRegistry) (account : Account) : Option String :=
  (formatWorldList registry.worlds).map fun worldList =>
    replace welcomeTemplate "{username}" account.username ++ worldList ++ "\r\n" ++
      formatWorldSelectPrompt registry.len

namespace Conversation

def goTo (k : Conversation) (stage : Stage) : Conversation := { k with stage }

variable (ctx : SessionContext)

/-- A line, at the stages where one is read. -/
def typed (k : Conversation) (line : String) : Conversation × List Said :=
  match k.stage with
  | .name =>
    if isSessionTerminator line then (k.goTo .ended, [.text goodbyeMsg])
    else if trim line = "" then (k, [.text (emptyUsernameMsg ++ usernamePrompt)])
    else (k.goTo (.password (trim line)), [.willEcho, .text passwordPrompt])
  | .password username =>
    if isSessionTerminator line then (k.goTo .ended, [.wontEcho, .text goodbyeMsg])
    else if trim line = "" then (k, [.text (emptyPasswordMsg ++ passwordPrompt)])
    else (k.goTo (.checking username), [.wontEcho])
  | .world _ =>
    if isSessionTerminator line then (k.goTo .ended, [.text goodbyeMsg])
    else
      match chosen ctx.worldRegistry line with
      | .ok world => (k.goTo .ended, [.text (farewell world)])
      | .error complaint =>
        (k, [.text (complaint ++ formatWorldSelectPrompt ctx.worldRegistry.len)])
  | _ => (k, [])

def checked (k : Conversation) : Except String (Option Account) → Conversation × List Said
  | .error _ => (k.goTo .ended, [.text authInternalErrorMsg])
  | .ok (some account) =>
    match welcome ctx.worldRegistry account with
    | some greeting => (k.goTo (.world account), [.text greeting])
    | none => (k.goTo .ended, [])
  | .ok none =>
    if ctx.maxLoginAttempts ≤ k.failures + 1 then
      (⟨.ended, k.failures + 1⟩, [.text authMaxRetriesMsg])
    else (⟨.name, k.failures + 1⟩, [.text (authFailedMsg ++ usernamePrompt)])

def respond (k : Conversation) : Told → Conversation × List Said
  | .throttled true => (k.goTo .ended, [.text authRateLimitedMsg])
  | .throttled false => (k.goTo .name, [.text (banner ++ usernamePrompt)])
  | .item (some (.ok (.line line))) => typed ctx k line
  | .item (some (.ok .lineTooLong)) => (k, [.text lineTooLongMsg])
  | .item (some (.error (.bufferOverflow _))) => (k.goTo .ended, [.text bufferOverflowMsg])
  | .item (some (.error (.io _))) | .item none | .lost => (k.goTo .ended, [])
  | .stopped => (k.goTo .ended, [.text shutdownMsg])
  | .checked result => checked ctx k result

/-- A conversation from its beginning, with all that was said. -/
def converse (told : List Told) : Conversation × List Said :=
  Transducer.run (respond ctx) ⟨.greeting, 0⟩ told

end Conversation

namespace Connection

def told? : Event → Option Told
  | .throttleChecked throttled => some (.throttled throttled)
  | .received item => some (.item item)
  | .cancelled => some .stopped
  | .verifyReturned result => some (.checked result)
  | .wrote _ (.error _) => some .lost
  | _ => none

/-- All that the handler tried to write. -/
def emitted (es : List Event) : List UInt8 :=
  es.flatMap fun e =>
    match e with
    | .wrote bytes _ => bytes
    | _ => []

def stageOf : SessionState → Stage
  | .authenticating none => .name
  | .authenticating (some username) => .password username
  | .worldSelection account => .world account

/-- The conversation at a point of the handler, with all that is owed already said. -/
def view (ctx : SessionContext) (c : Connection) : Conversation :=
  let stage :=
    match c.point with
    | .start => .greeting
    | .banner => .name
    | .waiting | .stay _ | .lineTooLongNotice => stageOf c.session.state
    | .advance next _ => stageOf next
    | .restoreEcho username _ | .verify username _ | .verifying username _ => .checking username
    | .reset account | .recordLogin account =>
      if (welcome ctx.worldRegistry account).isSome then .world account else .ended
    | .recordFailure => if ctx.maxLoginAttempts ≤ c.authFailures then .ended else .name
    | _ => .ended
  ⟨stage, c.authFailures⟩

/-- What the handler has not written yet of its last answer. -/
def owed (ctx : SessionContext) (c : Connection) : List UInt8 :=
  match c.point with
  | .restoreEchoGoodbye goodbye => iacWontEcho ++ asBytes goodbye
  | .reset account | .recordLogin account =>
    ((welcome ctx.worldRegistry account).map asBytes).getD []
  | .recordFailure =>
    if ctx.maxLoginAttempts ≤ c.authFailures then asBytes authMaxRetriesMsg
    else asBytes (authFailedMsg ++ usernamePrompt)
  | point => (output point).getD []

/-- What the books rely on: the session asks for a name until the banner is written,
and it has the registry of the context. -/
structure Aligned (ctx : SessionContext) (c : Connection) : Prop where
  consistent : Consistent c.session.state c.point
  registry : c.session.registry = ctx.worldRegistry

variable {ctx : SessionContext} {c c' : Connection} {e : Event} {es : List Event}

theorem aligned_step (h : Aligned ctx c) (hstep : step ctx c e = some c') : Aligned ctx c' := by
  refine ⟨consistent_step h.consistent hstep, ?_⟩
  rcases step_session hstep with hsame | ⟨next, frame, _, _, rfl⟩
  · rw [hsame]
    exact h.registry
  · exact h.registry

/-- The conversation's answer to what a step is told, as bytes. -/
def reply (ctx : SessionContext) (k : Conversation) (told : Told) : Conversation × List UInt8 :=
  ((k.respond ctx told).1, (k.respond ctx told).2.flatMap Said.bytes)

/-- The books of one step. -/
def Keeps (ctx : SessionContext) (c : Connection) (e : Event) (c' : Connection) : Prop :=
  view ctx c' = (Lagging.answer (reply ctx) (view ctx c) (told? e)).1 ∧
    emitted [e] ++ owed ctx c' = owed ctx c ++ (Lagging.answer (reply ctx) (view ctx c) (told? e)).2

/-- What a line that is no terminator does at the world prompt. -/
theorem handleInput_chosen {session : Session} {account : Account} {line : String}
    (hstate : session.state = .worldSelection account) (hquit : isSessionTerminator line = false) :
    (∃ world, chosen session.registry line = .ok world ∧
        session.handleInput line = .disconnect (farewell world)) ∨
      ∃ complaint, chosen session.registry line = .error complaint ∧
        session.handleInput line =
          .stay (complaint ++ formatWorldSelectPrompt session.registry.len) := by
  rw [Session.handleInput, hstate]
  simp only [Session.handleWorldSelectionInput, Session.isSessionTerminator_trim, hquit,
    Bool.false_eq_true, if_false]
  by_cases hempty : trim line = ""
  · have hnone : parseUsize (trim line) = none := by
      rw [hempty]
      rfl
    rw [if_pos hempty, chosen, hnone]
    exact .inr ⟨_, rfl, rfl⟩
  · rw [if_neg hempty, chosen]
    cases parseUsize (trim line) with
    | none => exact .inr ⟨_, rfl, rfl⟩
    | some n =>
      dsimp only
      cases session.registry.getByPosition n with
      | none => exact .inr ⟨_, rfl, rfl⟩
      | some world => exact .inl ⟨world, rfl, rfl⟩

/-- The session and the conversation answer a line alike. -/
theorem typed_cases {session : Session} {k : Conversation} (hk : k.stage = stageOf session.state)
    (hregistry : session.registry = ctx.worldRegistry) (line : String) :
    (∃ output, session.handleInput line = .stay output ∧
        k.typed ctx line = (k, [.text output])) ∨
      (∃ username output,
        session.handleInput line = .advance (.authenticating (some username)) output ∧
          k.typed ctx line = (k.goTo (.password username), [.willEcho, .text output])) ∨
      (∃ username password, session.handleInput line = .authPending username password ∧
        k.typed ctx line = (k.goTo (.checking username), [.wontEcho])) ∨
      ∃ goodbye, session.handleInput line = .disconnect goodbye ∧
        k.typed ctx line = (k.goTo .ended,
          if session.isPasswordInput then [.wontEcho, .text goodbye] else [.text goodbye]) := by
  cases hquit : isSessionTerminator line with
  | true =>
    refine .inr (.inr (.inr ⟨goodbyeMsg, Session.handleInput_terminator hquit, ?_⟩))
    rw [Conversation.typed, hk, Session.isPasswordInput]
    cases session.state with
    | authenticating username =>
      cases username with
      | none => simp only [stageOf, hquit, if_true, Bool.false_eq_true, if_false]
      | some username => simp only [stageOf, hquit, if_true]
    | worldSelection account => simp only [stageOf, hquit, if_true, Bool.false_eq_true, if_false]
  | false =>
    cases hstate : session.state with
    | authenticating username =>
      rw [hstate] at hk
      by_cases hempty : trim line = ""
      · left
        cases username with
        | none =>
          simp only [Session.handleInput, hstate, Session.handleUsernameInput, Conversation.typed, hk,
            stageOf, hquit, hempty, Bool.false_eq_true, if_false, if_true]
          exact ⟨_, rfl, rfl⟩
        | some username =>
          simp only [Session.handleInput, hstate, Session.handlePasswordInput, Conversation.typed, hk,
            stageOf, hquit, hempty, Bool.false_eq_true, if_false, if_true]
          exact ⟨_, rfl, rfl⟩
      · cases username with
        | none =>
          right
          left
          simp only [Session.handleInput, hstate, Session.handleUsernameInput,
            Session.isSessionTerminator_trim, Conversation.typed, hk, stageOf, hquit, hempty,
            Bool.false_eq_true, if_false]
          exact ⟨_, _, rfl, rfl⟩
        | some username =>
          right
          right
          left
          simp only [Session.handleInput, hstate, Session.handlePasswordInput,
            Session.isSessionTerminator_trim, Conversation.typed, hk, stageOf, hquit, hempty,
            Bool.false_eq_true, if_false]
          exact ⟨_, _, rfl, rfl⟩
    | worldSelection account =>
      rw [hstate, stageOf] at hk
      have hecho : session.isPasswordInput = false := by
        rw [Session.isPasswordInput, hstate]
      rcases handleInput_chosen hstate hquit with ⟨world, hchosen, hline⟩ | ⟨complaint, hchosen, hline⟩
      · rw [hregistry] at hchosen
        refine .inr (.inr (.inr ⟨_, hline, ?_⟩))
        simp only [Conversation.typed, hk, hquit, hchosen, hecho, Bool.false_eq_true, if_false]
      · rw [hregistry] at hchosen hline
        refine .inl ⟨_, hline, ?_⟩
        simp only [Conversation.typed, hk, hquit, hchosen, Bool.false_eq_true, if_false]

theorem bytes_two (a b : Said) : [a, b].flatMap Said.bytes = a.bytes ++ b.bytes := by
  rw [List.flatMap_cons, List.flatMap_singleton]

/-- A line is answered as the conversation says. -/
theorem keeps_line (h : Aligned ctx c) (hp : c.point = .waiting) (line : String) :
    Keeps ctx c (.received (some (.ok (.line line)))) (c.takeLine line) := by
  have hview : view ctx c = ⟨stageOf c.session.state, c.authFailures⟩ := by
    simp only [view, hp]
  have howed : owed ctx c = [] := by
    simp only [owed, hp, output, Option.getD_none]
  have htyped := @typed_cases ctx c.session (view ctx c) (by rw [hview]) h.registry line
  rw [Keeps, howed]
  simp only [told?, Lagging.answer, reply, Conversation.respond, takeLine]
  rcases htyped with ⟨output, hline, htyped⟩ | ⟨username, output, hline, htyped⟩ |
    ⟨username, password, hline, htyped⟩ | ⟨goodbye, hline, htyped⟩
  · rw [hline, htyped, hview, List.flatMap_singleton]
    exact ⟨rfl, rfl⟩
  · rw [hline, htyped, hview, bytes_two]
    exact ⟨rfl, rfl⟩
  · rw [hline, htyped, hview, List.flatMap_singleton]
    exact ⟨rfl, rfl⟩
  · rw [hline, htyped, hview]
    cases c.session.isPasswordInput with
    | true =>
      rw [if_pos rfl, bytes_two]
      exact ⟨rfl, rfl⟩
    | false =>
      rw [if_neg Bool.false_ne_true, List.flatMap_singleton]
      exact ⟨rfl, rfl⟩

theorem keeps_item (h : Aligned ctx c) (hp : c.point = .waiting) (item : Option Item) :
    Keeps ctx c (.received item) (c.takeItem item) := by
  have hview : view ctx c = ⟨stageOf c.session.state, c.authFailures⟩ := by
    simp only [view, hp]
  have howed : owed ctx c = [] := by
    simp only [owed, hp, output, Option.getD_none]
  match item with
  | some (.ok (.line line)) => exact keeps_line h hp line
  | some (.ok .lineTooLong) =>
    rw [Keeps, howed, hview]
    exact ⟨rfl, (List.append_nil _).symm⟩
  | some (.error (.bufferOverflow _)) =>
    rw [Keeps, howed, hview]
    exact ⟨rfl, (List.append_nil _).symm⟩
  | some (.error (.io _)) =>
    rw [Keeps, howed, hview]
    exact ⟨rfl, rfl⟩
  | none =>
    rw [Keeps, howed, hview]
    exact ⟨rfl, rfl⟩

theorem keeps_write {bytes : List UInt8} (h : Aligned ctx c) (hout : output c.point = some bytes)
    (result : Except String Unit) : Keeps ctx c (.wrote bytes result) (c.afterWrite result) := by
  have hsent : emitted [.wrote bytes result] = bytes := List.flatMap_singleton _ _
  have hconsistent := h.consistent
  cases hp : c.point with
  | restoreEchoGoodbye goodbye =>
    rw [hp] at hout
    obtain rfl := Option.some.inj hout
    have hafter : c.afterWrite result = c.goTo (.goodbye goodbye) := by
      simp only [afterWrite, hp]
    rw [Keeps, hsent, hafter]
    cases result with
    | ok _ => simp [view, owed, hp, told?, Lagging.answer, output, goTo]
    | error _ =>
      simp [view, owed, hp, told?, Lagging.answer, output, goTo, reply, Conversation.respond,
        Conversation.goTo]
  | banner =>
    rw [hp] at hout hconsistent
    obtain rfl := Option.some.inj hout
    have hstate : c.session.state = .authenticating none := hconsistent
    rw [Keeps, hsent]
    cases result with
    | ok _ => simp [view, owed, hp, told?, Lagging.answer, output, goTo, afterWrite, hstate, stageOf]
    | error _ =>
      simp [view, owed, hp, told?, Lagging.answer, output, goTo, afterWrite, reply,
        Conversation.respond, Conversation.goTo]
  | limitedNotice | shutdownNotice | storeErrorNotice | maxRetriesNotice | goodbye _
  | bufferOverflowNotice | stay _ | advance _ _ | restoreEcho _ _ | lineTooLongNotice =>
    rw [hp] at hout
    obtain rfl := Option.some.inj hout
    rw [Keeps, hsent]
    cases result with
    | ok _ =>
      simp [view, owed, hp, told?, Lagging.answer, output, goTo, afterWrite, continueIf,
        Session.apply]
    | error _ =>
      simp [view, owed, hp, told?, Lagging.answer, output, goTo, afterWrite, continueIf, reply,
        Conversation.respond, Conversation.goTo]
  | start | limitedShutdown | waiting | verify _ _ | verifying _ _ | reset _ | recordLogin _
  | recordFailure | closing | closed _ | panicked =>
    rw [hp] at hout
    cases hout

theorem keeps_step (h : Aligned ctx c) (hstep : step ctx c e = some c') : Keeps ctx c e c' := by
  cases step_cases hstep with
  | throttleChecked throttled hp =>
    cases throttled with
    | true => simp [Keeps, view, owed, hp, told?, emitted, Lagging.answer, reply, Conversation.respond,
        Conversation.goTo, output, goTo, Said.bytes]
    | false => simp [Keeps, view, owed, hp, told?, emitted, Lagging.answer, reply, Conversation.respond,
        Conversation.goTo, output, goTo, Said.bytes, Session.initialPrompt]
  | wrote result hout => exact keeps_write h hout result
  | shutDown _ hp =>
    rcases hp with hp | hp
    · simp [Keeps, view, owed, hp, told?, emitted, Lagging.answer, output, goTo]
    · simp [Keeps, view, owed, hp, told?, emitted, Lagging.answer, output, goTo]
  | received item hp => exact keeps_item h hp item
  | cancelled hp =>
    simp [Keeps, view, owed, hp, told?, emitted, Lagging.answer, reply, Conversation.respond,
      Conversation.goTo, output, goTo, Said.bytes]
  | verifyCalled hp => simp [Keeps, view, owed, hp, told?, emitted, Lagging.answer, output, goTo]
  | verifyReturned result hp =>
    match result with
    | .error _ =>
      simp [Keeps, view, owed, hp, told?, emitted, Lagging.answer, reply, Conversation.respond,
        Conversation.checked, Conversation.goTo, output, goTo, afterVerify, Said.bytes]
    | .ok (some account) =>
      cases hwelcome : welcome ctx.worldRegistry account with
      | none =>
        simp [Keeps, view, owed, hp, told?, emitted, Lagging.answer, reply, Conversation.respond,
          Conversation.checked, Conversation.goTo, output, goTo, afterVerify, hwelcome]
      | some greeting =>
        simp [Keeps, view, owed, hp, told?, emitted, Lagging.answer, reply, Conversation.respond,
          Conversation.checked, Conversation.goTo, output, goTo, afterVerify, Said.bytes, hwelcome]
    | .ok none =>
      by_cases hmax : ctx.maxLoginAttempts ≤ c.authFailures + 1
      · simp [Keeps, view, owed, hp, told?, emitted, Lagging.answer, reply, Conversation.respond,
          Conversation.checked, output, afterVerify, Said.bytes, hmax]
      · simp [Keeps, view, owed, hp, told?, emitted, Lagging.answer, reply, Conversation.respond,
          Conversation.checked, output, afterVerify, Said.bytes, hmax]
  | limiterReset hp => simp [Keeps, view, owed, hp, told?, emitted, Lagging.answer, goTo]
  | loginRecorded result hp =>
    cases hlist : formatWorldList ctx.worldRegistry.worlds with
    | none =>
      simp [Keeps, view, owed, hp, told?, emitted, Lagging.answer, output, goTo, complete,
        Session.completeAuth, welcome, h.registry, hlist]
    | some list =>
      simp [Keeps, view, owed, hp, told?, emitted, Lagging.answer, output, goTo, complete,
        Session.completeAuth, welcome, h.registry, stageOf, hlist]
  | maxRetries hp hmax =>
    simp [Keeps, view, owed, hp, told?, emitted, Lagging.answer, output, goTo, hmax]
  | retry hp hmax =>
    have hmore : ¬ ctx.maxLoginAttempts ≤ c.authFailures := Nat.not_le_of_lt hmax
    simp [Keeps, view, owed, hp, told?, emitted, Lagging.answer, output, goTo, complete,
      Session.completeAuth, hmore, stageOf]

theorem said_run (hrun : run ctx (new ctx) es = some c) :
    view ctx c = (Conversation.converse ctx (es.filterMap told?)).1 ∧
      emitted es ++ owed ctx c =
        (Conversation.converse ctx (es.filterMap told?)).2.flatMap Said.bytes := by
  have hkeeps : ∀ t e t', Aligned ctx t → step ctx t e = some t' → Aligned ctx t' := by
    intro t e t' h hstep
    exact aligned_step h hstep
  have haccount : ∀ t e t', Aligned ctx t → step ctx t e = some t' → Keeps ctx t e t' := by
    intro t e t' h hstep
    exact keeps_step h hstep
  have hstart : Aligned ctx (new ctx) := ⟨rfl, rfl⟩
  obtain ⟨hview, hsent⟩ := Lagging.run_account hkeeps haccount hstart hrun
  have hspelled : Transducer.run (reply ctx) ⟨.greeting, 0⟩ (es.filterMap told?) =
      ((Conversation.converse ctx (es.filterMap told?)).1,
        (Conversation.converse ctx (es.filterMap told?)).2.flatMap Said.bytes) :=
    Transducer.run_flatMap (Conversation.respond ctx) Said.bytes ⟨.greeting, 0⟩ _
  have hnew : view ctx (new ctx) = ⟨.greeting, 0⟩ := rfl
  rw [hnew, hspelled] at hview hsent
  refine ⟨hview, ?_⟩
  have hsplit : es.flatMap (fun e => emitted [e]) = emitted es := by
    simp only [emitted, List.flatMap_singleton]
  rw [hsplit] at hsent
  exact hsent

end Connection

end Liaozhai.Net
