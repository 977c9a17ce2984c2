import Liaozhai.Library.Machine
import Liaozhai.Library.Utf8Lossy
import Liaozhai.Net.Codec
import Liaozhai.Net.Session

/-!
# The connection handler

`handle_connection_with_codec` as a machine. A step is one call that the rest of
the server can see: a write, the wait for the next item, a call of the account
store or of the rate limiter. Between two such calls the handler runs alone, so
the point where it stands, its session and its counters are all of its state.
-/

namespace Liaozhai.Net

open Auth Codec Constants Worlds
open Utf8Lossy (asBytes)
set_option autoImplicit false

/-- The part of `SessionContext` that the handler reads. -/
structure SessionContext where
  worldRegistry : WorldRegistry
  maxLoginAttempts : Nat
  deriving DecidableEq

abbrev Item := Except TelnetCodecError (CodecItem String)

/-- What the handler does, together with the answer it gets. -/
inductive Event where
  | throttleChecked (throttled : Bool)
  | wrote (bytes : List UInt8) (result : Except String Unit)
  | shutDown (result : Except String Unit)
  | received (item : Option Item)
  | cancelled
  | verifyCalled (username password : String)
  | verifyReturned (result : Except String (Option Account))
  | limiterReset
  | loginRecorded (id : AccountId) (result : Except String Unit)
  | failureRecorded

/-- The call the handler is about to make, or how its task has ended. -/
inductive Point where
  | start
  | limitedNotice
  | limitedShutdown
  | banner
  | waiting
  | shutdownNotice
  | stay (output : String)
  | advance (next : SessionState) (frame : List UInt8)
  | restoreEcho (username password : String)
  | verify (username password : String)
  | verifying (username password : String)
  | storeErrorNotice
  | reset (account : Account)
  | recordLogin (account : Account)
  | recordFailure
  | maxRetriesNotice
  | restoreEchoGoodbye (goodbye : String)
  | goodbye (goodbye : String)
  | lineTooLongNotice
  | bufferOverflowNotice
  | closing
  | closed (result : Except String Unit)
  | panicked
  deriving DecidableEq

structure Connection where
  point : Point
  session : Session
  authFailures : Nat
  lineCount : Nat
  deriving DecidableEq

namespace Connection

def new (ctx : SessionContext) : Connection := ⟨.start, .new ctx.worldRegistry, 0, 0⟩

/-- The output of an `Advance`, with the ECHO negotiation of the state it leads to. -/
def frameOf (next : SessionState) (output : String) : List UInt8 :=
  match next with
  | .authenticating (some _) => iacWillEcho ++ asBytes output
  | .worldSelection _ => iacWontEcho ++ asBytes output
  | .authenticating none => asBytes output

/-- The bytes of the write that a point stands before. -/
def output : Point → Option (List UInt8)
  | .limitedNotice => some (asBytes authRateLimitedMsg)
  | .banner => some (asBytes (banner ++ Session.initialPrompt))
  | .shutdownNotice => some (asBytes shutdownMsg)
  | .stay output => some (asBytes output)
  | .advance _ frame => some frame
  | .restoreEcho _ _ => some iacWontEcho
  | .storeErrorNotice => some (asBytes authInternalErrorMsg)
  | .maxRetriesNotice => some (asBytes authMaxRetriesMsg)
  | .restoreEchoGoodbye _ => some iacWontEcho
  | .goodbye goodbye => some (asBytes goodbye)
  | .lineTooLongNotice => some (asBytes lineTooLongMsg)
  | .bufferOverflowNotice => some (asBytes bufferOverflowMsg)
  | _ => none

def goTo (c : Connection) (point : Point) : Connection := { c with point }

/-- After a write that ends the connection when it fails. -/
def continueIf (c : Connection) (result : Except String Unit) (next : Connection) : Connection :=
  match result with
  | .ok () => next
  | .error _ => c.goTo .closing

def afterWrite (c : Connection) (result : Except String Unit) : Connection :=
  match c.point with
  | .limitedNotice => c.goTo .limitedShutdown
  | .banner =>
    match result with
    | .ok () => c.goTo .waiting
    | .error e => c.goTo (.closed (.error e))
  | .stay _ => c.continueIf result (c.goTo .waiting)
  | .advance next _ =>
    c.continueIf result { c with point := .waiting, session := c.session.apply next }
  | .restoreEcho username password => c.continueIf result (c.goTo (.verify username password))
  | .restoreEchoGoodbye goodbye => c.goTo (.goodbye goodbye)
  | .lineTooLongNotice => c.continueIf result (c.goTo .waiting)
  -- the other writes are followed by `break`
  | _ => c.goTo .closing

/-- A line of input. -/
def takeLine (c : Connection) (line : String) : Connection :=
  let c := { c with lineCount := c.lineCount + 1 }
  match c.session.handleInput line with
  | .stay output => c.goTo (.stay output)
  | .advance next output => c.goTo (.advance next (frameOf next output))
  | .authPending username password => c.goTo (.restoreEcho username password)
  | .disconnect goodbye =>
    if c.session.isPasswordInput then c.goTo (.restoreEchoGoodbye goodbye)
    else c.goTo (.goodbye goodbye)

def takeItem (c : Connection) : Option Item → Connection
  | some (.ok (.line line)) => c.takeLine line
  | some (.ok .lineTooLong) => c.goTo .lineTooLongNotice
  | some (.error (.bufferOverflow _)) => c.goTo .bufferOverflowNotice
  | some (.error (.io _)) => c.goTo .closing
  | none => c.goTo .closing

/-- `complete_auth` and what follows it. -/
def complete (c : Connection) (authResult : Option Account) : Connection :=
  match c.session.completeAuth authResult with
  | some (.advance next output) => c.goTo (.advance next (asBytes output))
  | some _ => c.goTo .closing
  | none => c.goTo .panicked

def afterVerify (c : Connection) : Except String (Option Account) → Connection
  | .error _ => c.goTo .storeErrorNotice
  | .ok (some account) => c.goTo (.reset account)
  | .ok none => { c with point := .recordFailure, authFailures := c.authFailures + 1 }

def step (ctx : SessionContext) (c : Connection) (e : Event) : Option Connection :=
  match e with
  | .throttleChecked throttled =>
    match c.point with
    | .start => some (c.goTo (if throttled then .limitedNotice else .banner))
    | _ => none
  | .wrote bytes result => if output c.point = some bytes then some (c.afterWrite result) else none
  | .shutDown _ =>
    match c.point with
    | .limitedShutdown => some (c.goTo (.closed (.ok ())))
    | .closing => some (c.goTo (.closed (.ok ())))
    | _ => none
  | .received item =>
    match c.point with
    | .waiting => some (c.takeItem item)
    | _ => none
  | .cancelled =>
    match c.point with
    | .waiting => some (c.goTo .shutdownNotice)
    | _ => none
  | .verifyCalled username password =>
    match c.point with
    | .verify u p =>
      if username = u ∧ password = p then some (c.goTo (.verifying u p)) else none
    | _ => none
  | .verifyReturned result =>
    match c.point with
    | .verifying _ _ => some (c.afterVerify result)
    | _ => none
  | .limiterReset =>
    match c.point with
    | .reset account => some (c.goTo (.recordLogin account))
    | _ => none
  | .loginRecorded id _ =>
    match c.point with
    | .recordLogin account => if id = account.id then some (c.complete (some account)) else none
    | _ => none
  | .failureRecorded =>
    match c.point with
    | .recordFailure =>
      if c.authFailures ≥ ctx.maxLoginAttempts then some (c.goTo .maxRetriesNotice)
      else some (c.complete none)
    | _ => none

def run (ctx : SessionContext) : Connection → List Event → Option Connection :=
  Machine.run (step ctx)

@[simp] theorem goTo_point (c : Connection) (point : Point) : (c.goTo point).point = point := rfl

@[simp] theorem goTo_session (c : Connection) (point : Point) :
    (c.goTo point).session = c.session := rfl

@[simp] theorem goTo_authFailures (c : Connection) (point : Point) :
    (c.goTo point).authFailures = c.authFailures := rfl

variable {ctx : SessionContext} {c c' : Connection} {e : Event}

/-- All the steps there are, each with the point it starts at. -/
inductive Takes (ctx : SessionContext) (c : Connection) : Event → Connection → Prop where
  | throttleChecked (throttled : Bool) : c.point = .start →
      Takes ctx c (.throttleChecked throttled)
        (c.goTo (if throttled then .limitedNotice else .banner))
  | wrote {bytes : List UInt8} (result : Except String Unit) : output c.point = some bytes →
      Takes ctx c (.wrote bytes result) (c.afterWrite result)
  | shutDown (result : Except String Unit) :
      c.point = .limitedShutdown ∨ c.point = .closing →
      Takes ctx c (.shutDown result) (c.goTo (.closed (.ok ())))
  | received (item : Option Item) : c.point = .waiting →
      Takes ctx c (.received item) (c.takeItem item)
  | cancelled : c.point = .waiting → Takes ctx c .cancelled (c.goTo .shutdownNotice)
  | verifyCalled {username password : String} : c.point = .verify username password →
      Takes ctx c (.verifyCalled username password) (c.goTo (.verifying username password))
  | verifyReturned {username password : String} (result : Except String (Option Account)) :
      c.point = .verifying username password →
      Takes ctx c (.verifyReturned result) (c.afterVerify result)
  | limiterReset {account : Account} : c.point = .reset account →
      Takes ctx c .limiterReset (c.goTo (.recordLogin account))
  | loginRecorded {account : Account} (result : Except String Unit) :
      c.point = .recordLogin account →
      Takes ctx c (.loginRecorded account.id result) (c.complete (some account))
  | maxRetries : c.point = .recordFailure → ctx.maxLoginAttempts ≤ c.authFailures →
      Takes ctx c .failureRecorded (c.goTo .maxRetriesNotice)
  | retry : c.point = .recordFailure → c.authFailures < ctx.maxLoginAttempts →
      Takes ctx c .failureRecorded (c.complete none)

theorem step_cases (h : step ctx c e = some c') : Takes ctx c e c' := by
  cases e with
  | throttleChecked throttled =>
    simp only [step] at h
    split at h
    · rename_i hpoint
      obtain rfl := Option.some.inj h
      exact .throttleChecked throttled hpoint
    · cases h
  | wrote bytes result =>
    simp only [step] at h
    split at h
    · rename_i hbytes
      obtain rfl := Option.some.inj h
      exact .wrote result hbytes
    · cases h
  | shutDown result =>
    simp only [step] at h
    split at h
    · rename_i hpoint
      obtain rfl := Option.some.inj h
      exact .shutDown result (.inl hpoint)
    · rename_i hpoint
      obtain rfl := Option.some.inj h
      exact .shutDown result (.inr hpoint)
    · cases h
  | received item =>
    simp only [step] at h
    split at h
    · rename_i hpoint
      obtain rfl := Option.some.inj h
      exact .received item hpoint
    · cases h
  | cancelled =>
    simp only [step] at h
    split at h
    · rename_i hpoint
      obtain rfl := Option.some.inj h
      exact .cancelled hpoint
    · cases h
  | verifyCalled username password =>
    simp only [step] at h
    split at h
    · rename_i hpoint
      split at h
      · rename_i hsame
        obtain ⟨rfl, rfl⟩ := hsame
        obtain rfl := Option.some.inj h
        exact .verifyCalled hpoint
      · cases h
    · cases h
  | verifyReturned result =>
    simp only [step] at h
    split at h
    · rename_i hpoint
      obtain rfl := Option.some.inj h
      exact .verifyReturned result hpoint
    · cases h
  | limiterReset =>
    simp only [step] at h
    split at h
    · rename_i hpoint
      obtain rfl := Option.some.inj h
      exact .limiterReset hpoint
    · cases h
  | loginRecorded id result =>
    simp only [step] at h
    split at h
    · rename_i hpoint
      split at h
      · rename_i hid
        obtain rfl := Option.some.inj h
        exact hid ▸ .loginRecorded result hpoint
      · cases h
    · cases h
  | failureRecorded =>
    simp only [step] at h
    split at h
    · rename_i hpoint
      split at h
      · rename_i hmax
        obtain rfl := Option.some.inj h
        exact .maxRetries hpoint hmax
      · rename_i hmax
        obtain rfl := Option.some.inj h
        exact .retry hpoint (Nat.lt_of_not_le hmax)
    · cases h

/-- The points that an item of input leads to. -/
inductive FromItem : Point → Prop where
  | stay (output : String) : FromItem (.stay output)
  | advance (next : SessionState) (frame : List UInt8) : FromItem (.advance next frame)
  | restoreEcho (username password : String) : FromItem (.restoreEcho username password)
  | restoreEchoGoodbye (goodbye : String) : FromItem (.restoreEchoGoodbye goodbye)
  | goodbye (goodbye : String) : FromItem (.goodbye goodbye)
  | lineTooLongNotice : FromItem .lineTooLongNotice
  | bufferOverflowNotice : FromItem .bufferOverflowNotice
  | closing : FromItem .closing

theorem takeItem_eq (c : Connection) (item : Option Item) :
    ∃ point lineCount, c.takeItem item = { c with point, lineCount } ∧ FromItem point := by
  unfold takeItem takeLine
  split
  · dsimp only
    split
    · exact ⟨_, _, rfl, .stay _⟩
    · exact ⟨_, _, rfl, .advance _ _⟩
    · exact ⟨_, _, rfl, .restoreEcho _ _⟩
    · split
      · exact ⟨_, _, rfl, .restoreEchoGoodbye _⟩
      · exact ⟨_, _, rfl, .goodbye _⟩
  · exact ⟨_, _, rfl, .lineTooLongNotice⟩
  · exact ⟨_, _, rfl, .bufferOverflowNotice⟩
  · exact ⟨_, _, rfl, .closing⟩
  · exact ⟨_, _, rfl, .closing⟩

/-- The points that a write leads to. -/
inductive FromWrite : Point → Prop where
  | limitedShutdown : FromWrite .limitedShutdown
  | waiting : FromWrite .waiting
  | verify (username password : String) : FromWrite (.verify username password)
  | goodbye (goodbye : String) : FromWrite (.goodbye goodbye)
  | closing : FromWrite .closing
  | closed (result : Except String Unit) : FromWrite (.closed result)

theorem continueIf_eq {point : Point} {session : Session} (h : FromWrite point)
    (result : Except String Unit) :
    ∃ point' session', c.continueIf result { c with point, session } =
      { c with point := point', session := session' } ∧ FromWrite point' := by
  cases result with
  | ok _ => exact ⟨point, session, rfl, h⟩
  | error _ => exact ⟨.closing, c.session, rfl, .closing⟩

theorem afterWrite_eq (c : Connection) (result : Except String Unit) :
    ∃ point session, c.afterWrite result = { c with point, session } ∧ FromWrite point := by
  unfold afterWrite
  split
  · exact ⟨_, _, rfl, .limitedShutdown⟩
  · split
    · exact ⟨_, _, rfl, .waiting⟩
    · exact ⟨_, _, rfl, .closed _⟩
  · exact continueIf_eq .waiting result
  · exact continueIf_eq .waiting result
  · exact continueIf_eq (.verify _ _) result
  · exact ⟨_, _, rfl, .goodbye _⟩
  · exact continueIf_eq .waiting result
  · exact ⟨_, _, rfl, .closing⟩

@[simp] theorem takeItem_session (c : Connection) (item : Option Item) :
    (c.takeItem item).session = c.session := by
  obtain ⟨point, lineCount, heq, _⟩ := takeItem_eq c item
  rw [heq]

theorem complete_none (c : Connection) :
    c.complete none =
      c.goTo (.advance (.authenticating none) (asBytes (authFailedMsg ++ usernamePrompt))) := rfl

/-- After a login the worlds are listed, or the list panics. -/
theorem complete_some (c : Connection) (account : Account) :
    c.complete (some account) = c.goTo .panicked ∨
      ∃ frame, c.complete (some account) =
        c.goTo (.advance (.worldSelection account) frame) := by
  rw [complete, Session.completeAuth]
  cases formatWorldList c.session.registry.worlds with
  | none => exact .inl rfl
  | some list => exact .inr ⟨_, rfl⟩

/-- The points that the end of an authentication leads to. -/
inductive FromComplete : Point → Prop where
  | retry (frame : List UInt8) : FromComplete (.advance (.authenticating none) frame)
  | welcome (account : Account) (frame : List UInt8) :
      FromComplete (.advance (.worldSelection account) frame)
  | panicked : FromComplete .panicked

theorem complete_eq (c : Connection) (authResult : Option Account) :
    ∃ point, c.complete authResult = c.goTo point ∧ FromComplete point := by
  cases authResult with
  | none => exact ⟨_, complete_none c, .retry _⟩
  | some account =>
    rcases complete_some c account with heq | ⟨frame, heq⟩
    · exact ⟨_, heq, .panicked⟩
    · exact ⟨_, heq, .welcome account frame⟩

@[simp] theorem complete_session (c : Connection) (authResult : Option Account) :
    (c.complete authResult).session = c.session := by
  obtain ⟨point, heq, _⟩ := complete_eq c authResult
  rw [heq, goTo_session]

@[simp] theorem afterVerify_session (c : Connection) (result : Except String (Option Account)) :
    (c.afterVerify result).session = c.session := by
  match result with
  | .error _ => rfl
  | .ok (some _) => rfl
  | .ok none => rfl

theorem continueIf_session {result : Except String Unit} {next : Connection}
    (h : next.session = c.session) : (c.continueIf result next).session = c.session := by
  cases result with
  | ok _ => exact h
  | error _ => rfl

/-- Only the write of an `Advance` changes the session. -/
theorem afterWrite_session (c : Connection) (result : Except String Unit) :
    (c.afterWrite result).session = c.session ∨
      ∃ next frame, c.point = .advance next frame ∧ result = .ok () ∧
        c.afterWrite result = { c with point := .waiting, session := c.session.apply next } := by
  unfold afterWrite
  split
  · exact .inl rfl
  · split
    · exact .inl rfl
    · exact .inl rfl
  · exact .inl (continueIf_session rfl)
  · rename_i next frame hpoint
    cases result with
    | ok _ => exact .inr ⟨next, frame, hpoint, rfl, rfl⟩
    | error _ => exact .inl rfl
  · exact .inl (continueIf_session rfl)
  · exact .inl rfl
  · exact .inl (continueIf_session rfl)
  · exact .inl rfl

theorem step_session (hstep : step ctx c e = some c') :
    c'.session = c.session ∨
      ∃ next frame, c.point = .advance next frame ∧ e = .wrote frame (.ok ()) ∧
        c' = { c with point := .waiting, session := c.session.apply next } := by
  cases step_cases hstep with
  | wrote result hout =>
    rcases afterWrite_session c result with h | ⟨next, frame, hpoint, rfl, h⟩
    · exact .inl h
    · rw [hpoint] at hout
      cases hout
      exact .inr ⟨next, _, hpoint, rfl, h⟩
  | received item _ => exact .inl (takeItem_session c item)
  | verifyReturned result _ => exact .inl (afterVerify_session c result)
  | loginRecorded result _ => exact .inl (complete_session c _)
  | retry _ _ => exact .inl (complete_session c _)
  | throttleChecked | shutDown | cancelled | verifyCalled | limiterReset | maxRetries =>
    exact .inl rfl

/-- Only the call of `verify_credentials` leads to the wait for it. -/
theorem eq_verifyCalled {username password : String}
    (h : step ctx c e = some c') (hp : c'.point = .verifying username password) :
    e = .verifyCalled username password := by
  cases step_cases h with
  | throttleChecked throttled _ =>
    cases throttled with
    | true => cases hp
    | false => cases hp
  | wrote result _ =>
    obtain ⟨point, session, heq, hfrom⟩ := afterWrite_eq c result
    rw [heq] at hp
    subst hp
    cases hfrom
  | received item _ =>
    obtain ⟨point, lineCount, heq, hfrom⟩ := takeItem_eq c item
    rw [heq] at hp
    subst hp
    cases hfrom
  | verifyCalled _ =>
    injection hp with hu hpw
    rw [hu, hpw]
  | verifyReturned result _ =>
    match result with
    | .error _ => cases hp
    | .ok (some _) => cases hp
    | .ok none => cases hp
  | @loginRecorded account _ _ =>
    obtain ⟨point, heq, hfrom⟩ := complete_eq c (some account)
    rw [heq, goTo_point] at hp
    subst hp
    cases hfrom
  | shutDown _ _ | cancelled _ | limiterReset _ | maxRetries _ _ | retry _ _ => cases hp

theorem point_verifyCalled {username password : String}
    (h : step ctx c (.verifyCalled username password) = some c') :
    c'.point = .verifying username password := by
  cases step_cases h with
  | verifyCalled _ => rfl

end Connection

end Liaozhai.Net
