import Liaozhai.Library.Answers
import Liaozhai.Net.Logs

/-!
# Redaction

The redacted run: every password that is typed is replaced by one and the same
text. The handler takes the same steps on it, writes the same bytes and logs the
same events. So two runs that are given the same, passwords aside, cannot be told
apart: the handler makes the same calls in them, and writes and logs the same.
-/

namespace Liaozhai.Net.Connection

open Answers Auth Codec Constants RustString
open Utf8Lossy (asBytes)
set_option autoImplicit false

/-- A line that makes up credentials with the username. -/
def IsPassword (session : Session) (line : String) : Prop :=
  session.isPasswordInput = true ∧ trim line ≠ "" ∧ isSessionTerminator line = false

instance (session : Session) (line : String) : Decidable (IsPassword session line) :=
  inferInstanceAs (Decidable (_ ∧ _ ∧ _))

/-- The text in the place of a password. -/
def placeholder : String := "<redacted>"

theorem trim_placeholder : trim placeholder = placeholder := by
  decide +kernel

theorem isPassword_placeholder {session : Session} (h : session.isPasswordInput = true) :
    IsPassword session placeholder := by
  refine ⟨h, ?_, ?_⟩
  · decide +kernel
  · decide +kernel

def redactedPoint : Point → Point
  | .restoreEcho username _ => .restoreEcho username placeholder
  | .verify username _ => .verify username placeholder
  | .verifying username _ => .verifying username placeholder
  | point => point

def redacted (c : Connection) : Connection := { c with point := redactedPoint c.point }

def redactedLine (session : Session) (line : String) : String :=
  if IsPassword session line then placeholder else line

def redactedItem (session : Session) : Option Item → Option Item
  | some (.ok (.line line)) => some (.ok (.line (redactedLine session line)))
  | item => item

def redactedEvent (c : Connection) : Event → Event
  | .received item => .received (redactedItem c.session item)
  | .verifyCalled username _ => .verifyCalled username placeholder
  | e => e

/-- The calls that the handler makes. An item of input and the cancellation are the
two answers to its wait. -/
inductive Call where
  | isThrottled
  | write
  | shutdown
  | next
  | verify
  | verified
  | reset
  | recordLogin
  | recordFailure
  deriving DecidableEq

def callOf : Event → Call
  | .throttleChecked _ => .isThrottled
  | .wrote _ _ => .write
  | .shutDown _ => .shutdown
  | .received _ => .next
  | .cancelled => .next
  | .verifyCalled _ _ => .verify
  | .verifyReturned _ => .verified
  | .limiterReset => .reset
  | .loginRecorded _ _ => .recordLogin
  | .failureRecorded => .recordFailure

/-- The call that a point stands before. -/
def callAt : Point → Option Call
  | .start => some .isThrottled
  | .limitedNotice | .banner | .shutdownNotice | .stay _ | .advance _ _ | .restoreEcho _ _
  | .storeErrorNotice | .maxRetriesNotice | .restoreEchoGoodbye _ | .goodbye _
  | .lineTooLongNotice | .bufferOverflowNotice => some .write
  | .limitedShutdown | .closing => some .shutdown
  | .waiting => some .next
  | .verify _ _ => some .verify
  | .verifying _ _ => some .verified
  | .reset _ => some .reset
  | .recordLogin _ => some .recordLogin
  | .recordFailure => some .recordFailure
  | .closed _ | .panicked => none

/-- The bytes of every write, with its result. -/
def sent (es : List Event) : List (List UInt8 × Except String Unit) :=
  es.filterMap fun
    | .wrote bytes result => some (bytes, result)
    | _ => none

variable {ctx : SessionContext} {who : Identity} {c c' c₁ c₂ c₁' c₂' : Connection}
  {e e₁ e₂ : Event} {es es₁ es₂ : List Event} {session : Session} {line username : String}

@[simp] theorem redacted_session (c : Connection) : c.redacted.session = c.session := rfl

@[simp] theorem redacted_lineCount (c : Connection) : c.redacted.lineCount = c.lineCount := rfl

@[simp] theorem redacted_authFailures (c : Connection) :
    c.redacted.authFailures = c.authFailures := rfl

/-- The state of a session at the password prompt. -/
theorem handleInput_isPassword (h : IsPassword session line) :
    ∃ username, session.state = .authenticating (some username) ∧
      session.handleInput line = .authPending username (trim line) := by
  obtain ⟨hinput, hne, hquit⟩ := h
  obtain ⟨username, hstate⟩ := Session.isPasswordInput_iff.mp hinput
  refine ⟨username, hstate, ?_⟩
  simp [Session.handleInput, hstate, Session.handlePasswordInput, hquit, hne]

/-- Only a password makes up credentials. -/
theorem isPassword_of_authPending {name password : String}
    (h : session.handleInput line = .authPending name password) : IsPassword session line := by
  obtain ⟨hstate, hne, hquit, _⟩ := Session.handleInput_eq_authPending h
  exact ⟨Session.isPasswordInput_iff.mpr ⟨_, hstate⟩, hne, hquit⟩

theorem output_redacted (c : Connection) : output c.redacted.point = output c.point := by
  rw [redacted]
  cases c.point with
  | _ => rfl

theorem afterWrite_redacted (c : Connection) (result : Except String Unit) :
    c.redacted.afterWrite result = (c.afterWrite result).redacted := by
  obtain ⟨point, session, authFailures, lineCount⟩ := c
  cases point with
  | banner =>
    cases result with
    | ok _ => rfl
    | error _ => rfl
  | stay _ | advance _ _ | restoreEcho _ _ | lineTooLongNotice =>
    cases result with
    | ok _ => rfl
    | error _ => rfl
  | _ => rfl

theorem takeLine_redacted (c : Connection) (line : String) :
    c.redacted.takeLine (redactedLine c.session line) = (c.takeLine line).redacted := by
  unfold redactedLine
  split
  · rename_i hpassword
    obtain ⟨username, _, hline⟩ := handleInput_isPassword hpassword
    obtain ⟨username', _, hplaceholder⟩ :=
      handleInput_isPassword (isPassword_placeholder hpassword.1)
    have hsame : username' = username := by
      simp_all
    simp only [takeLine, redacted_session, hline, hplaceholder, hsame, trim_placeholder]
    rfl
  · rename_i hpassword
    obtain ⟨point, session, authFailures, lineCount⟩ := c
    change takeLine ⟨redactedPoint point, session, authFailures, lineCount⟩ line = _
    simp only [takeLine]
    cases hline : session.handleInput line with
    | stay output => rfl
    | advance next output => rfl
    | disconnect goodbye =>
      dsimp only
      by_cases hinput : session.isPasswordInput = true
      · rw [if_pos hinput, if_pos hinput]
        rfl
      · rw [if_neg hinput, if_neg hinput]
        rfl
    | authPending username password => exact absurd (isPassword_of_authPending hline) hpassword

theorem takeItem_redacted (c : Connection) (item : Option Item) :
    c.redacted.takeItem (redactedItem c.session item) = (c.takeItem item).redacted := by
  match item with
  | some (.ok (.line line)) => exact takeLine_redacted c line
  | some (.ok .lineTooLong) => rfl
  | some (.error (.bufferOverflow _)) => rfl
  | some (.error (.io _)) => rfl
  | none => rfl

theorem afterVerify_redacted (c : Connection) (result : Except String (Option Account)) :
    c.redacted.afterVerify result = (c.afterVerify result).redacted := by
  match result with
  | .error _ => rfl
  | .ok (some _) => rfl
  | .ok none => rfl

theorem complete_redacted (c : Connection) (authResult : Option Account) :
    c.redacted.complete authResult = (c.complete authResult).redacted := by
  cases authResult with
  | none => rfl
  | some account =>
    rw [complete, complete, redacted_session, Session.completeAuth]
    cases formatWorldList c.session.registry.worlds with
    | none => rfl
    | some list => rfl

theorem step_redacted (h : step ctx c e = some c') :
    step ctx c.redacted (redactedEvent c e) = some c'.redacted := by
  cases step_cases h with
  | throttleChecked throttled hp =>
    cases throttled with
    | true => simp [step, redactedEvent, redacted, hp, redactedPoint, goTo]
    | false => simp [step, redactedEvent, redacted, hp, redactedPoint, goTo]
  | wrote result hout =>
    simp only [redactedEvent, step, output_redacted, hout, if_true, afterWrite_redacted]
  | shutDown result hp =>
    rcases hp with hp | hp
    · simp [step, redactedEvent, redacted, hp, redactedPoint, goTo]
    · simp [step, redactedEvent, redacted, hp, redactedPoint, goTo]
  | received item hp =>
    have hp' : c.redacted.point = .waiting := by rw [redacted, hp]; rfl
    simp only [redactedEvent, step, hp', takeItem_redacted]
  | cancelled hp => simp [step, redactedEvent, redacted, hp, redactedPoint, goTo]
  | verifyCalled hp => simp [step, redactedEvent, redacted, hp, redactedPoint, goTo]
  | verifyReturned result hp =>
    have hp' : ∃ u p, c.redacted.point = .verifying u p := by rw [redacted, hp]; exact ⟨_, _, rfl⟩
    obtain ⟨u, p, hp'⟩ := hp'
    simp only [redactedEvent, step, hp', afterVerify_redacted]
  | limiterReset hp => simp [step, redactedEvent, redacted, hp, redactedPoint, goTo]
  | @loginRecorded account result hp =>
    have hp' : c.redacted.point = .recordLogin account := by rw [redacted, hp]; rfl
    simp only [redactedEvent, step, hp', if_true, complete_redacted]
  | maxRetries hp hmax =>
    have hp' : c.redacted.point = .recordFailure := by rw [redacted, hp]; rfl
    simp only [redactedEvent, step, hp', redacted_authFailures, ge_iff_le, if_pos hmax]
    rfl
  | retry hp hmax =>
    have hp' : c.redacted.point = .recordFailure := by rw [redacted, hp]; rfl
    simp only [redactedEvent, step, hp', redacted_authFailures, ge_iff_le,
      if_neg (Nat.not_le_of_lt hmax), complete_redacted]

theorem logged_redacted (c : Connection) (e : Event) :
    c.redacted.logged ctx who (redactedEvent c e) = c.logged ctx who e := by
  obtain ⟨point, session, authFailures, lineCount⟩ := c
  match e with
  | .wrote _ result =>
    cases point with
    | _ => rfl
  | .shutDown result =>
    cases point with
    | _ => rfl
  | .loginRecorded _ result =>
    cases point with
    | _ => rfl
  | .received (some (.ok (.line line))) =>
    change loggedLine who _ (redactedLine session line) = loggedLine who _ line
    unfold redactedLine
    split
    · rename_i hpassword
      obtain ⟨username, _, hline⟩ := handleInput_isPassword hpassword
      obtain ⟨username', _, hplaceholder⟩ :=
        handleInput_isPassword (isPassword_placeholder hpassword.1)
      have hinput : session.isPasswordInput = true := hpassword.1
      simp [loggedLine, redacted, hline, hplaceholder, hinput]
    · rfl
  | .received (some (.ok .lineTooLong)) => rfl
  | .received (some (.error (.bufferOverflow _))) => rfl
  | .received (some (.error (.io _))) => rfl
  | .received none => rfl
  | .throttleChecked _ => rfl
  | .cancelled => rfl
  | .verifyCalled _ _ => rfl
  | .verifyReturned (.error _) => rfl
  | .verifyReturned (.ok _) => rfl
  | .limiterReset => rfl
  | .failureRecorded => rfl

theorem sent_redacted (c : Connection) (e : Event) : sent [redactedEvent c e] = sent [e] := by
  cases e with
  | _ => rfl

/-- Two items, equal or both of them passwords. -/
def SameItem (session : Session) : Option Item → Option Item → Prop
  | some (.ok (.line line)), some (.ok (.line line')) =>
    line = line' ∨ IsPassword session line ∧ IsPassword session line'
  | item, item' => item = item'

instance (session : Session) : ∀ item item', Decidable (SameItem session item item')
  | some (.ok (.line line)), some (.ok (.line line')) =>
    inferInstanceAs (Decidable (line = line' ∨ IsPassword session line ∧ IsPassword session line'))
  | some (.ok (.line _)), some (.ok .lineTooLong) | some (.ok (.line _)), some (.error _)
  | some (.ok (.line _)), none => inferInstanceAs (Decidable (_ = _))
  | some (.ok .lineTooLong), _ | some (.error _), _ | none, _ => inferInstanceAs (Decidable (_ = _))

/-- What the handler is given by two events: the same, or a password in the place of
another. What it writes, and what it passes to the account store, is its own. -/
def SameInput (session : Session) : Event → Event → Prop
  | .throttleChecked throttled, .throttleChecked throttled' => throttled = throttled'
  | .wrote _ result, .wrote _ result' => result = result'
  | .shutDown result, .shutDown result' => result = result'
  | .received item, .received item' => SameItem session item item'
  | .cancelled, .cancelled => True
  | .verifyCalled _ _, .verifyCalled _ _ => True
  | .verifyReturned result, .verifyReturned result' => result = result'
  | .limiterReset, .limiterReset => True
  | .loginRecorded _ result, .loginRecorded _ result' => result = result'
  | .failureRecorded, .failureRecorded => True
  | _, _ => False

instance (session : Session) (e e' : Event) : Decidable (SameInput session e e') := by
  unfold SameInput
  split
  · infer_instance
  · infer_instance
  · infer_instance
  · infer_instance
  · infer_instance
  · infer_instance
  · infer_instance
  · infer_instance
  · infer_instance
  · infer_instance
  · infer_instance

/-- Two runs that are given the same: the same answers to the checks of the limiter,
the same results of the writes, the same items, passwords aside, and so on, each
call by itself. Which calls are made, and in what order, is left to the handler. -/
def SameInputs (ctx : SessionContext) (es₁ es₂ : List Event) : Prop :=
  SameAnswers (step ctx) callOf (fun c => SameInput c.session) (.new ctx) es₁ (.new ctx) es₂

/-- The handler has taken `n` items and waits, or has come to its end before. -/
def TakesAll (n : Nat) (es : List Event) (c : Connection) : Prop :=
  es.countP (fun e => callOf e = .next) ≤ n ∧
    (callAt c.point = none ∨
      callAt c.point = some .next ∧ es.countP (fun e => callOf e = .next) = n)

instance (n : Nat) (es : List Event) (c : Connection) : Decidable (TakesAll n es c) :=
  inferInstanceAs (Decidable (_ ∧ (_ ∨ _ ∧ _)))

/-- The points stand before calls. -/
theorem call_step (h : step ctx c e = some c') : callAt c.point = some (callOf e) := by
  cases step_cases h with
  | throttleChecked _ hp => rw [hp]; rfl
  | wrote _ hout =>
    cases hp : c.point with
    | limitedNotice | banner | shutdownNotice | stay _ | advance _ _ | restoreEcho _ _
    | storeErrorNotice | maxRetriesNotice | restoreEchoGoodbye _ | goodbye _
    | lineTooLongNotice | bufferOverflowNotice => rfl
    | _ => rw [hp] at hout; cases hout
  | shutDown _ hp =>
    rcases hp with hp | hp
    · rw [hp]; rfl
    · rw [hp]; rfl
  | received _ hp => rw [hp]; rfl
  | cancelled hp => rw [hp]; rfl
  | verifyCalled hp => rw [hp]; rfl
  | verifyReturned _ hp => rw [hp]; rfl
  | limiterReset hp => rw [hp]; rfl
  | loginRecorded _ hp => rw [hp]; rfl
  | maxRetries hp _ => rw [hp]; rfl
  | retry hp _ => rw [hp]; rfl

theorem callAt_redacted (c : Connection) : callAt c.redacted.point = callAt c.point := by
  rw [redacted]
  cases c.point with
  | _ => rfl

theorem redactedItem_eq {item item' : Option Item} (h : SameItem session item item') :
    redactedItem session item = redactedItem session item' := by
  unfold SameItem at h
  split at h
  · rcases h with rfl | ⟨hline, hline'⟩
    · rfl
    · rw [redactedItem, redactedItem, redactedLine, redactedLine, if_pos hline, if_pos hline']
  · rw [h]

/-- With the same input, two handlers that look the same take the same redacted step. -/
theorem redactedEvent_eq (hsame : c₁.redacted = c₂.redacted)
    (hinput : SameInput c₁.session e₁ e₂) (h₁ : step ctx c₁ e₁ = some c₁')
    (h₂ : step ctx c₂ e₂ = some c₂') : redactedEvent c₁ e₁ = redactedEvent c₂ e₂ := by
  obtain ⟨hpoint, hsession, _, _⟩ := Connection.mk.inj hsame
  unfold SameInput at hinput
  split at hinput
  · rw [hinput]
    rfl
  · -- what is written depends on the redacted point only
    obtain rfl := hinput
    cases step_cases h₁ with
    | wrote _ hout₁ =>
      cases step_cases h₂ with
      | wrote _ hout₂ =>
        rw [← output_redacted c₁, hsame, output_redacted c₂, hout₂] at hout₁
        obtain rfl := Option.some.inj hout₁
        rfl
  · rw [hinput]
    rfl
  · rw [redactedEvent, redactedEvent, ← hsession, redactedItem_eq hinput]
  · rfl
  · cases step_cases h₁ with
    | verifyCalled hp₁ =>
      cases step_cases h₂ with
      | verifyCalled hp₂ =>
        rw [hp₁, hp₂] at hpoint
        obtain ⟨rfl, _⟩ := Point.verify.inj hpoint
        rfl
  · rw [hinput]
    rfl
  · rfl
  · obtain rfl := hinput
    cases step_cases h₁ with
    | loginRecorded _ hp₁ =>
      cases step_cases h₂ with
      | loginRecorded _ hp₂ =>
        rw [hp₁, hp₂] at hpoint
        obtain rfl := Point.recordLogin.inj hpoint
        rfl
  · rfl
  · exact hinput.elim

theorem sent_append (es es' : List Event) : sent (es ++ es') = sent es ++ sent es' :=
  List.filterMap_append

theorem sent_cons (e : Event) (es : List Event) : sent (e :: es) = sent [e] ++ sent es :=
  sent_append [e] es

/-- One step of two runs with the same input. -/
theorem step_indistinguishable (who : Identity) (hsame : c₁.redacted = c₂.redacted)
    (hinput : SameInput c₁.session e₁ e₂) (h₁ : step ctx c₁ e₁ = some c₁')
    (h₂ : step ctx c₂ e₂ = some c₂') :
    c₁'.redacted = c₂'.redacted ∧ sent [e₁] = sent [e₂] ∧
      c₁.logged ctx who e₁ = c₂.logged ctx who e₂ := by
  have hevent := redactedEvent_eq hsame hinput h₁ h₂
  refine ⟨?_, ?_, ?_⟩
  · have hstep := step_redacted h₂
    rw [← hsame, ← hevent, step_redacted h₁] at hstep
    exact Option.some.inj hstep
  · rw [← sent_redacted c₁ e₁, hevent, sent_redacted c₂ e₂]
  · rw [← logged_redacted c₁ e₁, hsame, hevent, logged_redacted c₂ e₂]

/-- What two runs show of a step alike: the write, the log, the call. -/
def LooksAlike (ctx : SessionContext) (who : Identity) (c₁ : Connection) (e₁ : Event)
    (c₂ : Connection) (e₂ : Event) : Prop :=
  sent [e₁] = sent [e₂] ∧ c₁.logged ctx who e₁ = c₂.logged ctx who e₂ ∧ callOf e₁ = callOf e₂

theorem logs_eq_collect (c : Connection) (es : List Event) :
    logs ctx who c es = Machine.collect (step ctx) (fun c e => c.logged ctx who e) c es := by
  induction es generalizing c with
  | nil => rfl
  | cons e es ih =>
    rw [logs, Machine.collect]
    cases step ctx c e with
    | none => rfl
    | some c' => exact congrArg _ (ih c')

theorem logs_append (h : run ctx c es = some c') (es' : List Event) :
    logs ctx who c (es ++ es') = logs ctx who c es ++ logs ctx who c' es' := by
  rw [logs_eq_collect, logs_eq_collect, logs_eq_collect, Machine.collect_append h]

theorem lockstep_alike
    (h : Lockstep (step ctx) (LooksAlike ctx who) c₁ es₁ c₂ es₂) :
    sent es₁ = sent es₂ ∧ logs ctx who c₁ es₁ = logs ctx who c₂ es₂ ∧
      es₁.countP (fun e => callOf e = .next) = es₂.countP (fun e => callOf e = .next) := by
  refine ⟨?_, ?_, ?_⟩
  · induction h with
    | nil _ _ => rfl
    | @cons _ _ _ _ e₁ e₂ es₁ es₂ halike _ _ _ ih => rw [sent_cons, sent_cons e₂, halike.1, ih]
  · rw [logs_eq_collect, logs_eq_collect]
    exact h.collect_eq fun _ _ _ _ halike => halike.2.1
  · induction h with
    | nil _ _ => rfl
    | cons halike _ _ _ ih => rw [List.countP_cons, List.countP_cons, ih, halike.2.2]

/-- Of two runs that are given the same, one goes through all that the other does. -/
theorem runs_indistinguishable (who : Identity) (hinputs : SameInputs ctx es₁ es₂)
    (h₁ : run ctx (.new ctx) es₁ = some c₁) (h₂ : run ctx (.new ctx) es₂ = some c₂) :
    (∃ mid post c, es₂ = mid ++ post ∧ run ctx (.new ctx) mid = some c ∧
        run ctx c post = some c₂ ∧ c₁.redacted = c.redacted ∧
        Lockstep (step ctx) (LooksAlike ctx who) (.new ctx) es₁ (.new ctx) mid) ∨
      ∃ mid post c, es₁ = mid ++ post ∧ run ctx (.new ctx) mid = some c ∧
        run ctx c post = some c₁ ∧ c.redacted = c₂.redacted ∧
        Lockstep (step ctx) (LooksAlike ctx who) (.new ctx) mid (.new ctx) es₂ := by
  have hcalls : ∀ c e c', step ctx c e = some c' → callAt c.point = some (callOf e) := by
    intro c e c' h
    exact call_step h
  have hnext : ∀ c c' : Connection, c.redacted = c'.redacted →
      callAt c.point = callAt c'.point := by
    intro c c' hsame
    rw [← callAt_redacted c, hsame, callAt_redacted]
  refine lockstep_of_sameAnswers hcalls hnext ?_ rfl hinputs h₁ h₂
  intro c₁ c₂ e₁ e₂ c₁' c₂' hsame hinput hstep₁ hstep₂
  obtain ⟨hsame', hsent, hlogged⟩ := step_indistinguishable who hsame hinput hstep₁ hstep₂
  have hcall := hnext c₁ c₂ hsame
  rw [call_step hstep₁, call_step hstep₂] at hcall
  exact ⟨hsame', hsent, hlogged, Option.some.inj hcall⟩

/-- A handler that has taken all its items makes no more calls. -/
theorem eq_nil_of_takesAll {n : Nat} {mid post : List Event} (htaken : TakesAll n es₁ c₁)
    (hsame : c₁.redacted = c.redacted)
    (hcount : es₁.countP (fun e => callOf e = .next) = mid.countP (fun e => callOf e = .next))
    (hpost : run ctx c post = some c₂) (hall : TakesAll n (mid ++ post) c₂) : post = [] := by
  cases post with
  | nil => rfl
  | cons e post =>
    obtain ⟨c', hstep, _⟩ := Machine.run_cons.mp hpost
    have hcall : callAt c₁.point = some (callOf e) := by
      rw [← callAt_redacted c₁, hsame, callAt_redacted, call_step hstep]
    have hle := hall.1
    rw [List.countP_append, List.countP_cons, ← hcount] at hle
    rcases htaken.2 with hended | ⟨hwaits, hn⟩
    · rw [hended] at hcall
      cases hcall
    · -- the next item would be one too many
      have he : callOf e = .next := Option.some.inj (hcall.symm.trans hwaits)
      simp only [he, decide_true, if_true] at hle
      omega

/-- Two runs of the handler that are given the same, except for the passwords that are
typed: at any moment what one has written and logged is the start of what the other
has, and if both have taken the same number of items, or have come to their end
before, then all of it is the same. -/
theorem passwords_unobservable (who : Identity) (hinputs : SameInputs ctx es₁ es₂)
    (h₁ : run ctx (.new ctx) es₁ = some c₁) (h₂ : run ctx (.new ctx) es₂ = some c₂) :
    ((sent es₁ <+: sent es₂ ∧ logs ctx who (.new ctx) es₁ <+: logs ctx who (.new ctx) es₂) ∨
        (sent es₂ <+: sent es₁ ∧ logs ctx who (.new ctx) es₂ <+: logs ctx who (.new ctx) es₁)) ∧
      ∀ n, TakesAll n es₁ c₁ → TakesAll n es₂ c₂ →
        sent es₁ = sent es₂ ∧ logs ctx who (.new ctx) es₁ = logs ctx who (.new ctx) es₂ := by
  rcases runs_indistinguishable who hinputs h₁ h₂ with
    ⟨mid, post, c, rfl, hmid, hpost, hsame, hlock⟩ | ⟨mid, post, c, rfl, hmid, hpost, hsame, hlock⟩
  · obtain ⟨hsent, hlogs, hcount⟩ := lockstep_alike hlock
    rw [sent_append, logs_append hmid, hsent, hlogs]
    refine ⟨.inl ⟨List.prefix_append _ _, List.prefix_append _ _⟩, ?_⟩
    intro n htaken hall
    obtain rfl := eq_nil_of_takesAll htaken hsame hcount hpost hall
    exact ⟨(List.append_nil _).symm, (List.append_nil _).symm⟩
  · obtain ⟨hsent, hlogs, hcount⟩ := lockstep_alike hlock
    rw [sent_append, logs_append hmid, hsent, hlogs]
    refine ⟨.inr ⟨List.prefix_append _ _, List.prefix_append _ _⟩, ?_⟩
    intro n hall htaken
    obtain rfl := eq_nil_of_takesAll htaken hsame.symm hcount.symm hpost hall
    exact ⟨List.append_nil _, List.append_nil _⟩

/-- A login with some password that the account store refuses. -/
def refusedLogin (password : String) : List Event :=
  [.throttleChecked false, .wrote (asBytes (banner ++ Session.initialPrompt)) (.ok ()),
    .received (some (.ok (.line "alice"))),
    .wrote (iacWillEcho ++ asBytes passwordPrompt) (.ok ()),
    .received (some (.ok (.line password))), .wrote iacWontEcho (.ok ()),
    .verifyCalled "alice" password, .verifyReturned (.ok none), .failureRecorded,
    .wrote (asBytes (authFailedMsg ++ usernamePrompt)) (.ok ())]

theorem passwords_unobservable_refusedLogin :
    sent (refusedLogin "sceret") = sent (refusedLogin "secert") ∧
      logs ⟨⟨[]⟩, 3⟩ ⟨"c", "p"⟩ (.new ⟨⟨[]⟩, 3⟩) (refusedLogin "sceret") =
        logs ⟨⟨[]⟩, 3⟩ ⟨"c", "p"⟩ (.new ⟨⟨[]⟩, 3⟩) (refusedLogin "secert") := by
  have hinputs : SameInputs ⟨⟨[]⟩, 3⟩ (refusedLogin "sceret") (refusedLogin "secert") := by
    intro call
    cases call with
    | _ => decide +kernel
  have hsome : ∀ password ∈ ["sceret", "secert"],
      ∃ c ∈ run ⟨⟨[]⟩, 3⟩ (.new ⟨⟨[]⟩, 3⟩) (refusedLogin password),
        TakesAll 2 (refusedLogin password) c := by decide +kernel
  obtain ⟨c₁, h₁, htaken₁⟩ := hsome "sceret" (by simp)
  obtain ⟨c₂, h₂, htaken₂⟩ := hsome "secert" (by simp)
  exact (passwords_unobservable ⟨"c", "p"⟩ hinputs h₁ h₂).2 2 htaken₁ htaken₂

end Liaozhai.Net.Connection
