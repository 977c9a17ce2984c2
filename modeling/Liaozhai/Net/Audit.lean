import Liaozhai.Library.Transducer
import Liaozhai.Net.Attempts
import Liaozhai.Net.Logs
import Liaozhai.Net.Prompts

/-!
# The log as an audit trail

What an operator reads about logins in the log of a connection is what the account
store answered: an entry for every answer, in order and with the name that was asked
about, and no other.
-/

namespace Liaozhai.Net

open Auth
set_option autoImplicit false

def Identity.accepted (who : Identity) (username : String) : LogEvent :=
  who.event .info [("username", .text username)] "authentication successful"

def Identity.rejected (who : Identity) (failures : Nat) (username : String) : LogEvent :=
  who.event .warn [("username", .text username), ("failures", .number failures)]
    "authentication failed"

/-- The entries about logins. -/
def verdictMessages : List String := ["authentication successful", "authentication failed"]

def isVerdict (entry : LogEvent) : Bool := decide (entry.message ∈ verdictMessages)

/-- What the entries follow from: the name that the store was just asked about, and
how many it refused. -/
structure Tally where
  asked : Option String
  failures : Nat

def Tally.read (who : Identity) (t : Tally) : Event → Tally × List LogEvent
  | .verifyCalled username _ => (⟨some username, t.failures⟩, [])
  | .verifyReturned (.ok (some _)) => (⟨none, t.failures⟩, t.asked.toList.map who.accepted)
  | .verifyReturned (.ok none) =>
    (⟨none, t.failures + 1⟩, t.asked.toList.map (who.rejected (t.failures + 1)))
  | _ => (⟨none, t.failures⟩, [])

/-- The entry for each answer of the store. -/
def verdicts (who : Identity) (es : List Event) : List LogEvent :=
  (Transducer.run (Tally.read who) ⟨none, 0⟩ es).2

variable {who : Identity} {es : List Event} {username : String} {entry : LogEvent}

/-- Only an event by itself counts as asked about. -/
theorem asked_of_read (h : (Transducer.run (Tally.read who) ⟨none, 0⟩ es).1.asked = some username) :
    ∃ before password, es = before ++ [.verifyCalled username password] := by
  rcases List.eq_nil_or_concat' es with rfl | ⟨before, e, rfl⟩
  · cases h
  · rw [Transducer.run_append_fst] at h
    cases e with
    | verifyCalled name password =>
      obtain rfl := Option.some.inj h
      exact ⟨before, password, rfl⟩
    | verifyReturned result =>
      match result with
      | .error _ => cases h
      | .ok (some _) => cases h
      | .ok none => cases h
    | throttleChecked _ | wrote _ _ | shutDown _ | received _ | cancelled | limiterReset
    | loginRecorded _ _ | failureRecorded => cases h

/-- The entry that an answer of the store leaves. -/
def LeftBy (who : Identity) (username : String) (entry : LogEvent) : Option Account → Prop
  | some _ => entry = who.accepted username
  | none => ∃ failures, entry = who.rejected failures username

theorem mem_verdicts (h : entry ∈ verdicts who es) :
    ∃ before username password result since,
      es = before ++ .verifyCalled username password :: .verifyReturned (.ok result) :: since ∧
        LeftBy who username entry result := by
  obtain ⟨pre, e, since, rfl, hentry⟩ := Transducer.mem_run _ h
  -- the answer comes right after its question
  have hsplit : ∀ {username},
      (Transducer.run (Tally.read who) ⟨none, 0⟩ pre).1.asked = some username →
      ∃ before password,
        pre ++ e :: since = before ++ .verifyCalled username password :: e :: since := by
    intro username hasked
    obtain ⟨before, password, rfl⟩ := asked_of_read hasked
    refine ⟨before, password, ?_⟩
    rw [List.append_assoc]
    rfl
  cases e with
  | verifyReturned result =>
    match result with
    | .error _ => cases hentry
    | .ok (some account) =>
      obtain ⟨name, hname, rfl⟩ := List.mem_map.mp hentry
      obtain ⟨before, password, hes⟩ := hsplit (Option.mem_toList.mp hname)
      exact ⟨before, name, password, some account, since, hes, rfl⟩
    | .ok none =>
      obtain ⟨name, hname, rfl⟩ := List.mem_map.mp hentry
      obtain ⟨before, password, hes⟩ := hsplit (Option.mem_toList.mp hname)
      exact ⟨before, name, password, none, since, hes, _, rfl⟩
  | verifyCalled _ _ | throttleChecked _ | wrote _ _ | shutDown _ | received _ | cancelled
  | limiterReset | loginRecorded _ _ | failureRecorded => cases hentry

namespace Connection
variable {ctx : SessionContext} {who : Identity} {c c' : Connection} {e : Event} {es : List Event}
  {t : Tally}

/-- The entry that the handler still owes: it reports to the limiter and to the store
before it writes to the log. -/
def due (who : Identity) (c : Connection) : List LogEvent :=
  match c.point with
  | .reset _ | .recordLogin _ => [who.accepted c.username]
  | .recordFailure => [who.rejected c.authFailures c.username]
  | _ => []

theorem due_length_le (who : Identity) (c : Connection) : (c.due who).length ≤ 1 := by
  unfold due
  split
  · exact Nat.le_refl 1
  · exact Nat.le_refl 1
  · exact Nat.le_refl 1
  · exact Nat.zero_le 1

theorem due_of_output {bytes : List UInt8} (h : output c.point = some bytes) : c.due who = [] := by
  unfold due
  split
  · rename_i hp
    rw [hp] at h
    cases h
  · rename_i hp
    rw [hp] at h
    cases h
  · rename_i hp
    rw [hp] at h
    cases h
  · rfl

theorem due_afterWrite (result : Except String Unit) : (c.afterWrite result).due who = [] := by
  obtain ⟨point, session, heq, hfrom⟩ := afterWrite_eq c result
  rw [heq]
  cases hfrom with
  | limitedShutdown | waiting | verify _ _ | goodbye _ | closing | closed _ => rfl

theorem due_takeItem (item : Option Item) : (c.takeItem item).due who = [] := by
  obtain ⟨point, lineCount, heq, hfrom⟩ := takeItem_eq c item
  rw [heq]
  cases hfrom with
  | stay _ | advance _ _ | restoreEcho _ _ | restoreEchoGoodbye _ | goodbye _ | lineTooLongNotice
  | bufferOverflowNotice | closing => rfl

theorem due_complete (authResult : Option Account) : (c.complete authResult).due who = [] := by
  obtain ⟨point, heq, hfrom⟩ := complete_eq c authResult
  rw [heq]
  cases hfrom with
  | retry _ | welcome _ _ | panicked => rfl

section Filter
variable {level : Level} {fields : List (String × LogValue)} {message : String}

theorem filter_event (h : message ∉ verdictMessages) :
    [who.event level fields message].filter isVerdict = [] :=
  List.filter_cons_of_neg (mt of_decide_eq_true h)

theorem filter_failed (h : message ∉ verdictMessages) (result : Except String Unit) :
    (who.failed message result).filter isVerdict = [] := by
  cases result with
  | ok _ => rfl
  | error reason => exact filter_event h

theorem filter_loggedWrite (result : Except String Unit) :
    (c.loggedWrite who result).filter isVerdict = [] := by
  unfold loggedWrite
  split
  · exact filter_failed (by decide) result
  · exact filter_failed (by decide) result
  · split
    · exact filter_failed (by decide) _
    · exact filter_event (by decide)
  · exact filter_failed (by decide) result
  · exact filter_event (by decide)
  · exact filter_failed (by decide) result
  · rfl

theorem filter_loggedItem (item : Option Item) :
    (c.loggedItem who item).filter isVerdict = [] := by
  unfold loggedItem
  split
  · rename_i line
    rw [loggedLine, ← List.singleton_append, List.filter_append, filter_event (by decide),
      List.nil_append]
    split
    · split
      · rfl
      · exact filter_event (by decide)
    · rfl
  · exact filter_event (by decide)
  · exact filter_event (by decide)
  · exact filter_event (by decide)
  · exact filter_event (by decide)

theorem filter_shutDown (result : Except String Unit) :
    (c.logged ctx who (.shutDown result)).filter isVerdict = [] := by
  unfold logged
  dsimp only
  split
  · exact filter_event (by decide)
  · rw [List.filter_append, filter_failed (by decide), filter_event (by decide)]
    rfl

theorem filter_loginRecorded {account : Account} (hp : c.point = .recordLogin account)
    (result : Except String Unit) :
    (c.logged ctx who (.loginRecorded account.id result)).filter isVerdict =
      [who.accepted c.username] := by
  rw [logged, hp]
  dsimp only
  rw [List.filter_append, filter_failed (by decide), loggedCompletion_completeAuth]
  rfl

theorem filter_failureRecorded :
    (c.logged ctx who .failureRecorded).filter isVerdict =
      [who.rejected c.authFailures c.username] := by
  rw [logged, loggedCompletion_completeAuth, ite_self]
  rfl

end Filter

/-- The tally of the events so far, and where the handler stands. -/
structure Agrees (t : Tally) (c : Connection) : Prop where
  failures : t.failures = c.authFailures
  asked : ∀ username password, c.point = .verifying username password → t.asked = some username

theorem failures_step (h : t.failures = c.authFailures) (hstep : step ctx c e = some c') :
    (t.read who e).1.failures = c'.authFailures := by
  cases step_cases hstep with
  | wrote result _ => exact h.trans (afterWrite_authFailures c result).symm
  | received item _ => exact h.trans (takeItem_authFailures c item).symm
  | loginRecorded result _ => exact h.trans (complete_authFailures c _).symm
  | retry _ _ => exact h.trans (complete_authFailures c _).symm
  | verifyReturned result _ =>
    match result with
    | .error _ => exact h
    | .ok (some _) => exact h
    | .ok none => exact congrArg Nat.succ h
  | throttleChecked | shutDown | cancelled | verifyCalled | limiterReset | maxRetries => exact h

theorem agrees_step (h : Agrees t c) (hstep : step ctx c e = some c') :
    Agrees (t.read who e).1 c' := by
  refine ⟨failures_step h.failures hstep, ?_⟩
  intro username password hp
  obtain rfl := eq_verifyCalled hstep hp
  rfl

/-- What a step adds to the log or leaves due is what the tally makes of its event. -/
theorem audit_step (hcons : Consistent c.session.state c.point) (h : Agrees t c)
    (hstep : step ctx c e = some c') :
    (c.logged ctx who e).filter isVerdict ++ c'.due who = c.due who ++ (t.read who e).2 := by
  cases step_cases hstep with
  | throttleChecked throttled hp =>
    have hdue : c.due who = [] := by rw [due, hp]
    have hlogged : (c.logged ctx who (.throttleChecked throttled)).filter isVerdict = [] :=
      filter_event (by decide)
    rw [hdue, hlogged]
    cases throttled with
    | true => rfl
    | false => rfl
  | @wrote bytes result hout =>
    have hlogged : (c.logged ctx who (.wrote bytes result)).filter isVerdict = [] :=
      filter_loggedWrite result
    rw [due_of_output hout, due_afterWrite, hlogged]
    rfl
  | shutDown result hp =>
    have hdue : c.due who = [] := by
      rcases hp with hp | hp
      · rw [due, hp]
      · rw [due, hp]
    rw [hdue, filter_shutDown]
    rfl
  | received item hp =>
    have hdue : c.due who = [] := by rw [due, hp]
    have hlogged : (c.logged ctx who (.received item)).filter isVerdict = [] :=
      filter_loggedItem item
    rw [hdue, due_takeItem, hlogged]
    rfl
  | cancelled hp =>
    have hdue : c.due who = [] := by rw [due, hp]
    have hlogged : (c.logged ctx who .cancelled).filter isVerdict = [] := filter_event (by decide)
    rw [hdue, hlogged]
    rfl
  | verifyCalled hp =>
    have hdue : c.due who = [] := by rw [due, hp]
    rw [hdue]
    rfl
  | @verifyReturned username password result hp =>
    have hdue : c.due who = [] := by rw [due, hp]
    have hasked := h.asked username password hp
    rw [hp] at hcons
    have hname : c.username = username := by
      rw [Connection.username, show c.session.state = _ from hcons]
    rw [hdue]
    cases result with
    | error reason =>
      have hlogged : (c.logged ctx who (.verifyReturned (.error reason))).filter isVerdict = [] :=
        filter_event (by decide)
      rw [hlogged]
      rfl
    | ok answer =>
      cases answer with
      | some account =>
        have hafter : (c.afterVerify (.ok (some account))).due who = [who.accepted c.username] := rfl
        have hread : (t.read who (.verifyReturned (.ok (some account)))).2 =
            [who.accepted username] := by
          rw [Tally.read, hasked]
          rfl
        rw [hafter, hread, hname]
        rfl
      | none =>
        have hafter : (c.afterVerify (.ok none)).due who =
            [who.rejected (c.authFailures + 1) c.username] := rfl
        have hread : (t.read who (.verifyReturned (.ok none))).2 =
            [who.rejected (t.failures + 1) username] := by
          rw [Tally.read, hasked]
          rfl
        rw [hafter, hread, hname, h.failures]
        rfl
  | @limiterReset account hp =>
    have hdue : c.due who = [who.accepted c.username] := by rw [due, hp]
    rw [hdue]
    rfl
  | @loginRecorded account result hp =>
    have hdue : c.due who = [who.accepted c.username] := by rw [due, hp]
    rw [hdue, filter_loginRecorded hp, due_complete]
    rfl
  | maxRetries hp _ =>
    have hdue : c.due who = [who.rejected c.authFailures c.username] := by rw [due, hp]
    rw [hdue, filter_failureRecorded]
    rfl
  | retry hp _ =>
    have hdue : c.due who = [who.rejected c.authFailures c.username] := by rw [due, hp]
    rw [hdue, filter_failureRecorded, due_complete]
    rfl

theorem audit_run (hcons : Consistent c.session.state c.point) (h : Agrees t c)
    (hrun : run ctx c es = some c') :
    (logs ctx who c es).filter isVerdict ++ c'.due who =
      c.due who ++ (Transducer.run (Tally.read who) t es).2 := by
  induction es generalizing c t with
  | nil =>
    obtain rfl := Option.some.inj hrun
    exact (List.append_nil _).symm
  | cons e es ih =>
    obtain ⟨c₁, hstep, hrest⟩ := Machine.run_cons.mp hrun
    have hagrees : Agrees (t.read who e).1 c₁ := agrees_step h hstep
    have hnow : (c.logged ctx who e).filter isVerdict ++ c₁.due who = c.due who ++ (t.read who e).2 :=
      audit_step hcons h hstep
    have hlater := ih (consistent_step hcons hstep) hagrees hrest
    rw [logs_cons hstep, List.filter_append, List.append_assoc, hlater, ← List.append_assoc, hnow,
      List.append_assoc, Transducer.run_cons]

/-- The log of a connection has an entry for each answer of the store, and at most the
last of them is still due. -/
theorem audit_exact (hrun : run ctx (new ctx) es = some c) :
    (logs ctx who (new ctx) es).filter isVerdict ++ c.due who = verdicts who es := by
  have hagrees : Agrees ⟨none, 0⟩ (new ctx) := ⟨rfl, nofun⟩
  exact audit_run rfl hagrees hrun

end Connection

end Liaozhai.Net
