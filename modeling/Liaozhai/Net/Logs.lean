import Liaozhai.Net.Connection

/-!
# The log of a connection

The events that the handler emits through `tracing`, with their levels, fields and
messages. They belong to the step they are emitted in, and read nothing but the
state before it and the answer it gets.
-/

namespace Liaozhai.Net

open Codec
set_option autoImplicit false

inductive Level where
  | trace
  | debug
  | info
  | warn
  deriving DecidableEq, Repr

inductive LogValue where
  | text (value : String)
  | number (value : Nat)
  | state (value : SessionState)
  | transition (value : Transition)
  deriving DecidableEq, Repr

structure LogEvent where
  level : Level
  fields : List (String × LogValue)
  message : String
  deriving DecidableEq, Repr

/-- The two fields of every event. -/
structure Identity where
  connId : String
  peer : String

def Identity.event (who : Identity) (level : Level) (fields : List (String × LogValue))
    (message : String) : LogEvent :=
  ⟨level, ("conn_id", .text who.connId) :: ("peer", .text who.peer) :: fields, message⟩

/-- The warning about a call that failed. -/
def Identity.failed (who : Identity) (message : String) : Except String Unit → List LogEvent
  | .ok () => []
  | .error e => [who.event .warn [("error", .text e)] message]

namespace Connection
variable (ctx : SessionContext) (who : Identity)

/-- The username of the pending credentials: the session has not moved on from it. -/
def username (c : Connection) : String :=
  match c.session.state with
  | .authenticating (some username) => username
  | _ => ""

def sessionEnding (c : Connection) : LogEvent :=
  who.event .debug [("from", .state c.session.state)] "session ending"

/-- After a write. -/
def loggedWrite (c : Connection) (result : Except String Unit) : List LogEvent :=
  match c.point with
  | .banner => who.failed "failed to send banner" result
  | .stay _ => who.failed "failed to write output" result
  | .advance next _ =>
    match result with
    | .error _ => who.failed "failed to write output" result
    | .ok () =>
      [who.event .debug [("from", .state c.session.state), ("to", .state next)] "state transition"]
  | .restoreEcho _ _ => who.failed "failed to write IAC WONT ECHO" result
  | .restoreEchoGoodbye _ => [c.sessionEnding who]
  | .lineTooLongNotice => who.failed "failed to send line-too-long notice" result
  | _ => []

def loggedLine (c : Connection) (line : String) : List LogEvent :=
  let loggedLine := if c.session.isPasswordInput then "<redacted>" else line
  who.event .trace [("line_count", .number (c.lineCount + 1)), ("line", .text loggedLine)]
      "received line" ::
    match c.session.handleInput line with
    | .disconnect _ => if c.session.isPasswordInput then [] else [c.sessionEnding who]
    | _ => []

def loggedItem (c : Connection) : Option Item → List LogEvent
  | some (.ok (.line line)) => c.loggedLine who line
  | some (.ok .lineTooLong) => [who.event .warn [] "line exceeded maximum length"]
  | some (.error (.bufferOverflow max)) =>
    [who.event .warn [("max_size", .number max)] "per-connection buffer overflow"]
  | some (.error (.io e)) => [who.event .warn [("error", .text e)] "I/O error reading from client"]
  | none => [who.event .debug [] "client disconnected (EOF)"]

/-- After `complete_auth`. -/
def loggedCompletion (transition : Option Transition) : List LogEvent :=
  match transition with
  | none | some (.advance _ _) => []
  | some other =>
    [who.event .warn [("transition", .transition other)] "unexpected transition from complete_auth"]

/-- What the handler logs in one step. -/
def logged (c : Connection) : Event → List LogEvent
  | .throttleChecked _ => [who.event .info [] "connection accepted"]
  | .wrote _ result => c.loggedWrite who result
  | .shutDown result =>
    match c.point with
    | .limitedShutdown => [who.event .info [] "rate-limited, disconnected immediately"]
    | _ =>
      who.failed "failed to shut down write half" result ++
        [who.event .info [("line_count", .number c.lineCount)] "connection closed"]
  | .received item => c.loggedItem who item
  | .cancelled => [who.event .debug [] "shutdown signal received"]
  | .verifyCalled _ _ => []
  | .verifyReturned (.error e) => [who.event .warn [("error", .text e)] "auth store error"]
  | .verifyReturned (.ok _) => []
  | .limiterReset => []
  | .loginRecorded _ result =>
    match c.point with
    | .recordLogin account =>
      who.failed "failed to record login" result ++
        who.event .info [("username", .text c.username)] "authentication successful" ::
          loggedCompletion who (c.session.completeAuth (some account))
    | _ => []
  | .failureRecorded =>
    who.event .warn [("username", .text c.username), ("failures", .number c.authFailures)]
        "authentication failed" ::
      if c.authFailures ≥ ctx.maxLoginAttempts then []
      else loggedCompletion who (c.session.completeAuth none)

/-- The log of a run. -/
def logs : Connection → List Event → List LogEvent
  | _, [] => []
  | c, e :: es =>
    c.logged ctx who e ++
      match step ctx c e with
      | some c' => logs c' es
      | none => []

variable {ctx who} {c c' : Connection} {e : Event} {es : List Event}

theorem logs_cons (h : step ctx c e = some c') :
    logs ctx who c (e :: es) = c.logged ctx who e ++ logs ctx who c' es := by
  rw [logs, h]

/-- `complete_auth` never takes the handler by surprise. -/
theorem loggedCompletion_completeAuth (session : Session) (authResult : Option Auth.Account) :
    loggedCompletion who (session.completeAuth authResult) = [] := by
  cases authResult with
  | none => rfl
  | some account =>
    rw [Session.completeAuth]
    cases formatWorldList session.registry.worlds with
    | none => rfl
    | some list => rfl

end Connection

end Liaozhai.Net
