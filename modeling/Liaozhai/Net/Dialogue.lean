import Liaozhai.Net.Connection

/-!
# Dialogues

A connection that nothing disturbs: its address is not throttled, every write
succeeds, the server stays up, and the account store answers. The handler then
runs by itself on the items of the client.
-/

namespace Liaozhai.Net

open Auth Codec Constants Worlds
open RustString (trim)
open Connection (output step)
set_option autoImplicit false

/-- The handler and the items that are still to be received. -/
structure Dialogue where
  connection : Connection
  inbox : List Item
  deriving DecidableEq

namespace Dialogue
variable (ctx : SessionContext) (verify : String → String → Option Account)

/-- The next call of the handler, with the answer it gets. -/
def call (d : Dialogue) : Option (Event × List Item) :=
  match output d.connection.point with
  | some bytes => some (.wrote bytes (.ok ()), d.inbox)
  | none =>
    match d.connection.point, d.inbox with
    | .start, inbox => some (.throttleChecked false, inbox)
    | .waiting, item :: inbox => some (.received (some item), inbox)
    | .verify username password, inbox => some (.verifyCalled username password, inbox)
    | .verifying username password, inbox =>
      some (.verifyReturned (.ok (verify username password)), inbox)
    | .reset _, inbox => some (.limiterReset, inbox)
    | .recordLogin account, inbox => some (.loginRecorded account.id (.ok ()), inbox)
    | .recordFailure, inbox => some (.failureRecorded, inbox)
    | .limitedShutdown, inbox => some (.shutDown (.ok ()), inbox)
    | .closing, inbox => some (.shutDown (.ok ()), inbox)
    | _, _ => none

def next (d : Dialogue) : Option Dialogue :=
  (call verify d).bind fun (e, inbox) => (step ctx d.connection e).map fun c => ⟨c, inbox⟩

def EntersAs (account : Account) (d : Dialogue) : Prop :=
  d.connection.session.state = .worldSelection account

/-- The dialogue comes to the world selection of `account`. -/
def LogsIn (account : Account) : Dialogue → Prop :=
  Machine.Reaches (next ctx verify) (EntersAs account)

def standing (point : Point) (session : Session) (failures lines : Nat) (inbox : List Item) :
    Dialogue :=
  ⟨⟨point, session, failures, lines⟩, inbox⟩

/-- A dialogue at its beginning. -/
def begin (items : List Item) : Dialogue := ⟨.new ctx, items⟩

def lineItem (text : String) : Item := .ok (.line text)

variable {ctx verify} {account : Account} {session : Session} {failures lines : Nat}
  {inbox : List Item} {text username password : String}

/-- Every step of a dialogue is a step of the handler. -/
theorem next_step {d d' : Dialogue} (h : next ctx verify d = some d') :
    ∃ e, step ctx d.connection e = some d'.connection := by
  obtain ⟨⟨e, inbox⟩, _, hmap⟩ := Option.bind_eq_some_iff.mp h
  obtain ⟨c, hstep, rfl⟩ := Option.map_eq_some_iff.mp hmap
  exact ⟨e, hstep⟩

theorem next_output {c : Connection} {bytes : List UInt8} (h : output c.point = some bytes) :
    next ctx verify ⟨c, inbox⟩ = some ⟨c.afterWrite (.ok ()), inbox⟩ := by
  simp only [next, call, h, Option.bind_some, step, if_true, Option.map_some]

theorem next_line :
    next ctx verify (standing .waiting session failures lines (lineItem text :: inbox)) =
      some ⟨Connection.takeLine ⟨.waiting, session, failures, lines⟩ text, inbox⟩ := rfl

theorem next_verify :
    next ctx verify (standing (.verify username password) session failures lines inbox) =
      some (standing (.verifying username password) session failures lines inbox) := by
  simp only [next, call, standing, output, Option.bind_some, step, and_self, if_true,
    Option.map_some]
  rfl

theorem next_recordLogin :
    next ctx verify (standing (.recordLogin account) session failures lines inbox) =
      some ⟨Connection.complete ⟨.recordLogin account, session, failures, lines⟩ (some account),
        inbox⟩ := by
  simp only [next, call, standing, output, Option.bind_some, step, if_true, Option.map_some]

theorem logsIn_next {d d' : Dialogue} (hnext : next ctx verify d = some d')
    (hstate : d.connection.session.state ≠ .worldSelection account) :
    LogsIn ctx verify account d ↔ LogsIn ctx verify account d' :=
  Machine.reaches_iff_next hnext hstate

theorem logsIn_begin (items : List Item) :
    LogsIn ctx verify account (begin ctx items) ↔
      LogsIn ctx verify account (standing .waiting (.new ctx.worldRegistry) 0 0 items) := by
  calc LogsIn ctx verify account (begin ctx items)
    _ ↔ LogsIn ctx verify account (standing .banner (.new ctx.worldRegistry) 0 0 items) :=
      logsIn_next rfl nofun
    _ ↔ LogsIn ctx verify account (standing .waiting (.new ctx.worldRegistry) 0 0 items) :=
      logsIn_next (next_output rfl) nofun

section Line
variable (hstate : session.state ≠ .worldSelection account)
include hstate

theorem not_logsIn_closing :
    ¬ LogsIn ctx verify account (standing .closing session failures lines inbox) := by
  have hclosed : next ctx verify (standing .closing session failures lines inbox) =
      some (standing (.closed (.ok ())) session failures lines inbox) := rfl
  rw [logsIn_next hclosed hstate]
  exact Machine.not_reaches_of_halted rfl hstate

theorem not_logsIn_panicked :
    ¬ LogsIn ctx verify account (standing .panicked session failures lines inbox) :=
  Machine.not_reaches_of_halted rfl hstate

/-- A handler without an item to take waits. -/
theorem not_logsIn_nil : ¬ LogsIn ctx verify account (standing .waiting session failures lines []) :=
  Machine.not_reaches_of_halted rfl hstate

theorem not_logsIn_disconnect {goodbye : String}
    (h : session.handleInput text = .disconnect goodbye) :
    ¬ LogsIn ctx verify account
      (standing .waiting session failures lines (lineItem text :: inbox)) := by
  have hgoodbye : ¬ LogsIn ctx verify account
      (standing (.goodbye goodbye) session failures (lines + 1) inbox) := by
    rw [logsIn_next (next_output rfl) hstate]
    exact not_logsIn_closing hstate
  rw [logsIn_next next_line hstate]
  simp only [Connection.takeLine, h]
  split
  · exact mt (logsIn_next (next_output rfl) hstate).mp hgoodbye
  · exact hgoodbye

theorem logsIn_stay {text' : String} (h : session.handleInput text = .stay text') :
    LogsIn ctx verify account (standing .waiting session failures lines (lineItem text :: inbox)) ↔
      LogsIn ctx verify account (standing .waiting session failures (lines + 1) inbox) := by
  rw [logsIn_next next_line hstate]
  simp only [Connection.takeLine, h]
  exact logsIn_next (next_output rfl) hstate

theorem logsIn_advance {state : SessionState} {text' : String}
    (h : session.handleInput text = .advance state text') :
    LogsIn ctx verify account (standing .waiting session failures lines (lineItem text :: inbox)) ↔
      LogsIn ctx verify account
        (standing .waiting (session.apply state) failures (lines + 1) inbox) := by
  rw [logsIn_next next_line hstate]
  simp only [Connection.takeLine, h]
  exact logsIn_next (next_output rfl) hstate

theorem logsIn_authPending (h : session.handleInput text = .authPending username password) :
    LogsIn ctx verify account (standing .waiting session failures lines (lineItem text :: inbox)) ↔
      LogsIn ctx verify account
        ⟨Connection.afterVerify ⟨.verifying username password, session, failures, lines + 1⟩
          (.ok (verify username password)), inbox⟩ := by
  rw [logsIn_next next_line hstate]
  simp only [Connection.takeLine, h]
  calc LogsIn ctx verify account
        (standing (.restoreEcho username password) session failures (lines + 1) inbox)
    _ ↔ LogsIn ctx verify account
        (standing (.verify username password) session failures (lines + 1) inbox) :=
      logsIn_next (next_output rfl) hstate
    _ ↔ LogsIn ctx verify account
        (standing (.verifying username password) session failures (lines + 1) inbox) :=
      logsIn_next next_verify hstate
    _ ↔ _ := logsIn_next rfl hstate

/-- The right credentials open the world selection, if the worlds can be listed. -/
theorem logsIn_verified (h : session.handleInput text = .authPending username password)
    (hverify : verify username password = some account) :
    LogsIn ctx verify account
        (standing .waiting session failures lines (lineItem text :: inbox)) ↔
      (formatWorldList session.registry.worlds).isSome = true := by
  rw [logsIn_authPending hstate h, hverify]
  have hreset : next ctx verify
      (standing (.reset account) session failures (lines + 1) inbox) =
        some (standing (.recordLogin account) session failures (lines + 1) inbox) := rfl
  refine (logsIn_next hreset hstate).trans ((logsIn_next next_recordLogin hstate).trans ?_)
  rw [Connection.complete, Session.completeAuth]
  cases formatWorldList session.registry.worlds with
  | none => exact iff_of_false (not_logsIn_panicked hstate) Bool.false_ne_true
  | some list =>
    refine iff_of_true ?_ rfl
    exact (logsIn_next (next_output rfl) hstate).mpr (Machine.reaches_self rfl)

/-- Wrong credentials lead back to the username prompt, or end the connection. -/
theorem logsIn_refused (h : session.handleInput text = .authPending username password)
    (hverify : verify username password = none)
    (hlogs : LogsIn ctx verify account
      (standing .waiting session failures lines (lineItem text :: inbox))) :
    LogsIn ctx verify account
      (standing .waiting (session.apply (.authenticating none)) (failures + 1) (lines + 1)
        inbox) := by
  rw [logsIn_authPending hstate h, hverify] at hlogs
  change LogsIn ctx verify account
    (standing .recordFailure session (failures + 1) (lines + 1) inbox) at hlogs
  by_cases hmax : failures + 1 ≥ ctx.maxLoginAttempts
  · have hnext : next ctx verify
        (standing .recordFailure session (failures + 1) (lines + 1) inbox) =
          some (standing .maxRetriesNotice session (failures + 1) (lines + 1) inbox) := by
      simp only [next, call, standing, output, Option.bind_some, step, hmax, if_true,
        Option.map_some]
      rfl
    rw [logsIn_next hnext hstate, logsIn_next (next_output rfl) hstate] at hlogs
    exact absurd hlogs (not_logsIn_closing hstate)
  · have hnext : next ctx verify
        (standing .recordFailure session (failures + 1) (lines + 1) inbox) =
          some ⟨Connection.complete ⟨.recordFailure, session, failures + 1, lines + 1⟩ none,
            inbox⟩ := by
      simp only [next, call, standing, output, Option.bind_some, step, hmax, if_false,
        Option.map_some]
    rw [logsIn_next hnext hstate] at hlogs
    exact (logsIn_next (next_output rfl) hstate).mp hlogs

/-- An empty line is asked for again. -/
theorem logsIn_blanks (hname : ∃ name, session.state = .authenticating name) (n : Nat) :
    LogsIn ctx verify account
        (standing .waiting session failures lines (List.replicate n (lineItem "") ++ inbox)) ↔
      LogsIn ctx verify account (standing .waiting session failures (lines + n) inbox) := by
  have hblank : ∃ text', session.handleInput "" = .stay text' := by
    obtain ⟨name, hname⟩ := hname
    cases name with
    | none => exact ⟨emptyUsernameMsg ++ usernamePrompt, by rw [Session.handleInput, hname]; rfl⟩
    | some name => exact ⟨emptyPasswordMsg ++ passwordPrompt, by rw [Session.handleInput, hname]; rfl⟩
  obtain ⟨text', hblank⟩ := hblank
  induction n generalizing lines with
  | zero => rfl
  | succ n ih =>
    have hrest := @ih (lines + 1)
    rw [Nat.add_right_comm] at hrest
    rw [List.replicate_succ, List.cons_append, logsIn_stay hstate hblank]
    exact hrest

end Line

end Dialogue

end Liaozhai.Net
