import Liaozhai.Net.Prompts

/-!
# The authentication gate

What a run must have done before its session selects worlds. An attempt is told
by the events of the run: the line that named the account, the line read at the
password prompt, and the answer of the account store.
-/

namespace Liaozhai.Net.Connection

open Auth Codec Constants Worlds
open RustString (trim)
open Utf8Lossy (asBytes)
set_option autoImplicit false

def lineReceived (text : String) : Event := .received (some (.ok (.line text)))

def passwordPrompted : Event := .wrote (iacWillEcho ++ asBytes passwordPrompt) (.ok ())

variable (ctx : SessionContext)

/-- The run `es` leads to the wait for the next item, with the session in `state`. -/
def WaitsIn (es : List Event) (state : SessionState) : Prop :=
  ∃ c, run ctx (new ctx) es = some c ∧ c.point = .waiting ∧ c.session.state = state

def EndsIn (es : List Event) (state : SessionState) : Prop :=
  ∃ c, run ctx (new ctx) es = some c ∧ c.session.state = state

/-- The last event is a line at the username prompt that names `username`. -/
def Named (es : List Event) (username : String) : Prop :=
  ∃ before text, es = before ++ [lineReceived text] ∧ username = trim text ∧ username ≠ "" ∧
    WaitsIn ctx before (.authenticating none)

/-- A line at the username prompt moved the session to the password prompt, where
it has been since. -/
def Pending (es : List Event) (username : String) : Prop :=
  ∃ named since, es = named ++ passwordPrompted :: since ∧ Named ctx named username ∧
    ∀ upto, upto <+: since →
      EndsIn ctx (named ++ passwordPrompted :: upto) (.authenticating (some username))

/-- A line read at the password prompt of an attempt, and the events after it. -/
def Attempt (es : List Event) (username password : String) (tail : List Event) : Prop :=
  ∃ before text, es = before ++ lineReceived text :: tail ∧ password = trim text ∧
    password ≠ "" ∧ WaitsIn ctx before (.authenticating (some username)) ∧
    Pending ctx before username

/-- The account store accepted the credentials of an attempt. -/
def Verified (es : List Event) (account : Account) : Prop :=
  ∃ username password since, Attempt ctx es username password
    (.wrote iacWontEcho (.ok ()) :: .verifyCalled username password ::
      .verifyReturned (.ok (some account)) :: since)

/-- What a run has done to come to a point. -/
def ToldPoint (es : List Event) : Point → Prop
  | .advance (.authenticating (some username)) _ => Named ctx es username
  | .advance (.worldSelection account) _ | .reset account | .recordLogin account =>
    Verified ctx es account
  | .restoreEcho username password => Attempt ctx es username password []
  | .verify username password => Attempt ctx es username password [.wrote iacWontEcho (.ok ())]
  | .verifying username password =>
    Attempt ctx es username password
      [.wrote iacWontEcho (.ok ()), .verifyCalled username password]
  | _ => True

/-- What a run has done to bring the session into a state. -/
def ToldState (es : List Event) : SessionState → Prop
  | .authenticating none => True
  | .authenticating (some username) => Pending ctx es username
  | .worldSelection account => Verified ctx es account

variable {ctx} {c c' : Connection} {e : Event} {es : List Event}
  {username password : String} {account : Account}

theorem Attempt.snoc {tail : List Event} (h : Attempt ctx es username password tail) :
    Attempt ctx (es ++ [e]) username password (tail ++ [e]) := by
  obtain ⟨before, text, rfl, hrest⟩ := h
  exact ⟨before, text, by simp, hrest⟩

theorem Verified.snoc (h : Verified ctx es account) : Verified ctx (es ++ [e]) account := by
  obtain ⟨username, password, since, hattempt⟩ := h
  exact ⟨username, password, since ++ [e], by simpa using hattempt.snoc⟩

theorem Pending.snoc (h : Pending ctx es username)
    (hend : EndsIn ctx (es ++ [e]) (.authenticating (some username))) :
    Pending ctx (es ++ [e]) username := by
  obtain ⟨named, since, rfl, hnamed, hsince⟩ := h
  refine ⟨named, since ++ [e], by simp, hnamed, ?_⟩
  intro upto hupto
  rcases List.prefix_concat_iff.mp hupto with rfl | hupto
  · simpa using hend
  · exact hsince upto hupto

theorem ToldState.snoc {state : SessionState} (h : ToldState ctx es state)
    (hend : EndsIn ctx (es ++ [e]) state) : ToldState ctx (es ++ [e]) state := by
  match state with
  | .authenticating none => trivial
  | .authenticating (some _) => exact Pending.snoc h hend
  | .worldSelection _ => exact Verified.snoc h

/-- The write of an `Advance` brings the session into the state it was told for. -/
theorem told_advance {next : SessionState} {frame : List UInt8}
    (hpoint : ToldPoint ctx es (.advance next frame))
    (hcons : Consistent c.session.state (.advance next frame))
    (hend : EndsIn ctx (es ++ [.wrote frame (.ok ())]) next) :
    ToldState ctx (es ++ [.wrote frame (.ok ())]) next := by
  match next with
  | .authenticating none => trivial
  | .authenticating (some username) =>
    obtain ⟨_, rfl⟩ := hcons
    refine ⟨es, [], rfl, hpoint, ?_⟩
    intro upto hupto
    obtain rfl := List.prefix_nil.mp hupto
    exact hend
  | .worldSelection account => exact Verified.snoc hpoint

theorem toldState_step (hrun : run ctx (new ctx) es = some c)
    (hpoint : ToldPoint ctx es c.point) (hstate : ToldState ctx es c.session.state)
    (hstep : step ctx c e = some c') : ToldState ctx (es ++ [e]) c'.session.state := by
  have hrun' : run ctx (new ctx) (es ++ [e]) = some c' := Machine.run_snoc.mpr ⟨c, hrun, hstep⟩
  rcases step_session hstep with hsame | ⟨next, frame, hadvance, rfl, rfl⟩
  · rw [hsame]
    exact hstate.snoc ⟨c', hrun', congrArg _ hsame⟩
  · have hcons := consistent_run hrun
    rw [hadvance] at hpoint hcons
    exact told_advance hpoint hcons ⟨_, hrun', rfl⟩

/-- A line taken at a prompt begins an attempt or completes its credentials. -/
theorem toldPoint_takeLine (text : String) (hrun : run ctx (new ctx) es = some c)
    (hwaits : c.point = .waiting) (hstate : ToldState ctx es c.session.state) :
    ToldPoint ctx (es ++ [lineReceived text]) (c.takeLine text).point := by
  match hsession : c.session.state with
  | .authenticating none =>
    rcases Session.handleInput_username hsession text with h | h | ⟨hname, h⟩
    · simp only [takeLine, h]
      split
      · trivial
      · trivial
    · simp only [takeLine, h]
      trivial
    · simp only [takeLine, h]
      exact ⟨es, text, rfl, rfl, hname, c, hrun, hwaits, hsession⟩
  | .authenticating (some username) =>
    rw [hsession] at hstate
    rcases Session.handleInput_password hsession text with h | h | ⟨hpassword, h⟩
    · simp only [takeLine, h]
      split
      · trivial
      · trivial
    · simp only [takeLine, h]
      trivial
    · simp only [takeLine, h]
      exact ⟨es, text, rfl, rfl, hpassword, ⟨c, hrun, hwaits, hsession⟩, hstate⟩
  | .worldSelection account =>
    rcases Session.handleInput_world hsession text with ⟨output, h⟩ | ⟨goodbye, h⟩
    · simp only [takeLine, h]
      trivial
    · simp only [takeLine, h]
      split
      · trivial
      · trivial

theorem toldPoint_takeItem (item : Option Item) (hrun : run ctx (new ctx) es = some c)
    (hwaits : c.point = .waiting) (hstate : ToldState ctx es c.session.state) :
    ToldPoint ctx (es ++ [.received item]) (c.takeItem item).point := by
  match item with
  | some (.ok (.line text)) => exact toldPoint_takeLine text hrun hwaits hstate
  | some (.ok .lineTooLong) => trivial
  | some (.error (.bufferOverflow _)) => trivial
  | some (.error (.io _)) => trivial
  | none => trivial

theorem toldPoint_afterWrite {bytes : List UInt8} (result : Except String Unit)
    (hout : output c.point = some bytes) (hpoint : ToldPoint ctx es c.point) :
    ToldPoint ctx (es ++ [.wrote bytes result]) (c.afterWrite result).point := by
  match hp : c.point, result with
  | .restoreEcho username password, .ok () =>
    rw [hp] at hout hpoint
    cases hout
    simp only [afterWrite, hp, continueIf]
    exact hpoint.snoc
  | .restoreEcho username password, .error _ =>
    simp only [afterWrite, hp, continueIf]
    trivial
  | .advance next frame, .ok () | .advance next frame, .error _
  | .stay _, .ok () | .stay _, .error _
  | .lineTooLongNotice, .ok () | .lineTooLongNotice, .error _
  | .banner, .ok () | .banner, .error _ =>
    simp only [afterWrite, hp, continueIf]
    trivial
  | .start, _ | .limitedNotice, _ | .limitedShutdown, _ | .waiting, _ | .shutdownNotice, _
  | .verify _ _, _ | .verifying _ _, _ | .storeErrorNotice, _ | .reset _, _ | .recordLogin _, _
  | .recordFailure, _ | .maxRetriesNotice, _ | .restoreEchoGoodbye _, _ | .goodbye _, _
  | .bufferOverflowNotice, _ | .closing, _ | .closed _, _ | .panicked, _ =>
    simp only [afterWrite, hp]
    trivial

theorem toldPoint_step (hrun : run ctx (new ctx) es = some c)
    (hpoint : ToldPoint ctx es c.point) (hstate : ToldState ctx es c.session.state)
    (hstep : step ctx c e = some c') : ToldPoint ctx (es ++ [e]) c'.point := by
  cases step_cases hstep with
  | throttleChecked throttled _ =>
    cases throttled with
    | true => trivial
    | false => trivial
  | wrote result hout => exact toldPoint_afterWrite result hout hpoint
  | shutDown _ _ => trivial
  | received item hwaits => exact toldPoint_takeItem item hrun hwaits hstate
  | cancelled _ => trivial
  | verifyCalled hp =>
    rw [hp] at hpoint
    exact hpoint.snoc
  | verifyReturned result hp =>
    rw [hp] at hpoint
    match result with
    | .error _ => trivial
    | .ok (some account) => exact ⟨_, _, [], hpoint.snoc⟩
    | .ok none => trivial
  | limiterReset hp =>
    rw [hp] at hpoint
    exact hpoint.snoc
  | @loginRecorded account result hp =>
    rw [hp] at hpoint
    rcases complete_some c account with heq | ⟨frame, heq⟩
    · rw [heq]
      trivial
    · rw [heq]
      exact hpoint.snoc
  | maxRetries _ _ => trivial
  | retry _ _ => trivial

/-- Every run tells how it came to its point and to the state of its session. -/
theorem told_run (hrun : run ctx (new ctx) es = some c) :
    ToldPoint ctx es c.point ∧ ToldState ctx es c.session.state := by
  apply Machine.run_history (P := fun es c => ToldPoint ctx es c.point ∧
    ToldState ctx es c.session.state) _ _ hrun
  · intro es t e t' hrun h hstep
    exact ⟨toldPoint_step hrun h.1 h.2 hstep, toldState_step hrun h.1 h.2 hstep⟩
  · exact ⟨trivial, trivial⟩

/-- The points between an accepted login and the world list, and those after a
write that failed there. -/
def GrantPoint (account : Account) : Point → Prop
  | .reset granted | .recordLogin granted | .advance (.worldSelection granted) _ =>
    granted = account
  | .closing | .closed _ | .panicked => True
  | _ => False

def LoggedIn (account : Account) (c : Connection) : Prop :=
  c.session.state = .worldSelection account ∨
    PasswordAsked c.session.state ∧ GrantPoint account c.point

theorem not_worldSelection_of_asked {state : SessionState} (h : PasswordAsked state) :
    state ≠ .worldSelection account := by
  obtain ⟨username, rfl⟩ := h
  exact fun heq => nomatch heq

theorem worldSelection_step (hcons : Consistent c.session.state c.point)
    (hstate : c.session.state = .worldSelection account) (hstep : step ctx c e = some c') :
    c'.session.state = .worldSelection account := by
  rcases step_session hstep with hsame | ⟨next, frame, hadvance, _, _⟩
  · rw [hsame]
    exact hstate
  · rw [hadvance, hstate] at hcons
    -- no `Advance` starts in the world selection
    match next with
    | .authenticating none => exact absurd rfl (not_worldSelection_of_asked hcons.1)
    | .authenticating (some _) => cases hcons.1
    | .worldSelection _ => exact absurd rfl (not_worldSelection_of_asked hcons.1)

theorem loggedIn_step (hcons : Consistent c.session.state c.point) (h : LoggedIn account c)
    (hstep : step ctx c e = some c') : LoggedIn account c' := by
  rcases h with hstate | ⟨hasked, hpoint⟩
  · exact .inl (worldSelection_step hcons hstate hstep)
  · cases step_cases hstep with
    | limiterReset hp =>
      rw [hp] at hpoint
      exact .inr ⟨hasked, hpoint⟩
    | @loginRecorded granted result hp =>
      rw [hp] at hpoint
      rcases complete_some c granted with heq | ⟨frame, heq⟩
      · rw [heq]
        exact .inr ⟨hasked, trivial⟩
      · rw [heq]
        exact .inr ⟨hasked, hpoint⟩
    | shutDown result hp => exact .inr ⟨hasked, trivial⟩
    | wrote result hout =>
      match hp : c.point, result with
      | .advance (.worldSelection granted) frame, .ok () =>
        rw [hp] at hpoint
        obtain rfl : granted = account := hpoint
        simp only [afterWrite, hp, continueIf]
        exact .inl rfl
      | .advance (.worldSelection granted) frame, .error _ =>
        simp only [afterWrite, hp, continueIf]
        exact .inr ⟨hasked, trivial⟩
      | .reset _, _ | .recordLogin _, _ | .closing, _ | .closed _, _ | .panicked, _ =>
        rw [hp] at hout
        cases hout
      | .advance (.authenticating _) _, _ | .start, _ | .limitedNotice, _ | .limitedShutdown, _
      | .banner, _ | .waiting, _ | .shutdownNotice, _ | .stay _, _ | .restoreEcho _ _, _
      | .verify _ _, _ | .verifying _ _, _ | .storeErrorNotice, _ | .recordFailure, _
      | .maxRetriesNotice, _ | .restoreEchoGoodbye _, _ | .goodbye _, _ | .lineTooLongNotice, _
      | .bufferOverflowNotice, _ =>
        rw [hp] at hpoint
        cases hpoint
    | throttleChecked _ hp | received _ hp | cancelled hp | verifyCalled hp | verifyReturned _ hp
    | maxRetries hp _ | retry hp _ =>
      rw [hp] at hpoint
      cases hpoint

theorem not_verifyCalled_of_loggedIn (hcons : Consistent c.session.state c.point)
    (h : LoggedIn account c) (hstep : step ctx c (.verifyCalled username password) = some c') :
    False := by
  cases step_cases hstep with
  | verifyCalled hp =>
    rw [hp] at hcons
    rcases h with hstate | ⟨_, hpoint⟩
    · rw [show c.session.state = _ from hcons] at hstate
      cases hstate
    · rw [hp] at hpoint
      exact hpoint

/-- After a login no more credentials are checked, and the session stays logged in. -/
theorem loggedIn_run {es' : List Event} (hcons : Consistent c.session.state c.point)
    (h : LoggedIn account c) (hrun : run ctx c es' = some c') :
    Consistent c'.session.state c'.point ∧ LoggedIn account c' ∧
      ∀ username password, .verifyCalled username password ∉ es' := by
  apply Machine.run_history (P := fun es' c' => Consistent c'.session.state c'.point ∧
    LoggedIn account c' ∧ ∀ username password, .verifyCalled username password ∉ es') _ _ hrun
  · rintro es' t e t' _ ⟨hcons, hin, hnone⟩ hstep
    refine ⟨consistent_step hcons hstep, loggedIn_step hcons hin hstep, ?_⟩
    intro username password hmem
    rcases List.mem_append.mp hmem with hmem | hmem
    · exact hnone username password hmem
    · rw [List.mem_singleton] at hmem
      subst hmem
      exact not_verifyCalled_of_loggedIn hcons hin hstep
  · exact ⟨hcons, h, fun _ _ => List.not_mem_nil⟩

theorem worldSelection_run {es' : List Event} (hcons : Consistent c.session.state c.point)
    (hstate : c.session.state = .worldSelection account) (hrun : run ctx c es' = some c') :
    c'.session.state = .worldSelection account := by
  have hkept := Machine.run_invariant
    (P := fun c => Consistent c.session.state c.point ∧ c.session.state = .worldSelection account)
    (fun t e t' h hstep => ⟨consistent_step h.1 hstep, worldSelection_step h.1 h.2 hstep⟩)
    ⟨hcons, hstate⟩ hrun
  exact hkept.2

/-- A write that shows worlds is that of a session that was verified. -/
theorem verified_of_worldOutput {bytes : List UInt8} {result : Except String Unit}
    (hrun : run ctx (new ctx) es = some c) (hworld : WorldOutput bytes)
    (hstep : step ctx c (.wrote bytes result) = some c') :
    ∃ account, Verified ctx es account ∧
      (result = .ok () → c'.session.state = .worldSelection account) := by
  have hcons := consistent_run hrun
  obtain ⟨hpoint, hstate⟩ := told_run hrun
  by_cases hselected : WorldSelected c.session.state
  · obtain ⟨account, hselected⟩ := hselected
    rw [hselected] at hstate
    exact ⟨account, hstate, fun _ => worldSelection_step hcons hselected hstep⟩
  · by_cases hadvance : ∃ account frame, c.point = .advance (.worldSelection account) frame
    · obtain ⟨account, frame, hp⟩ := hadvance
      rw [hp] at hpoint
      refine ⟨account, hpoint, ?_⟩
      rintro rfl
      cases step_cases hstep with
      | wrote _ _ =>
        simp only [afterWrite, hp, continueIf]
        rfl
    · push Not at hadvance
      cases step_cases hstep with
      | wrote _ hout =>
        exact absurd hworld
          (not_worldOutput_of_open (output_mem_openTexts hcons hout hselected hadvance))

/-- A session selects worlds, and a write shows them, only after the account store
accepted the credentials of one attempt: a name that was read at the username
prompt and a password that was read at the password prompt it led to. From then
on the session keeps its account and no credentials are checked. -/
theorem worldSelection_gated (hrun : run ctx (new ctx) es = some c) :
    (∀ account, c.session.state = .worldSelection account → Verified ctx es account) ∧
    (∀ bytes result c', WorldOutput bytes → step ctx c (.wrote bytes result) = some c' →
      ∃ account, Verified ctx es account ∧
        (result = .ok () → c'.session.state = .worldSelection account)) ∧
    (∀ account es' c', c.session.state = .worldSelection account → run ctx c es' = some c' →
      c'.session.state = .worldSelection account ∧
        ∀ username password, .verifyCalled username password ∉ es') ∧
    ∀ account es' c', step ctx c (.verifyReturned (.ok (some account))) = some c' → ∀ c'',
      run ctx c' es' = some c'' →
        (∀ username password, .verifyCalled username password ∉ es') ∧
          ∀ other, c''.session.state = .worldSelection other → other = account := by
  have hcons := consistent_run hrun
  refine ⟨?_, ?_, ?_, ?_⟩
  · intro account hstate
    have htold := (told_run hrun).2
    rw [hstate] at htold
    exact htold
  · intro bytes result c' hworld hstep
    exact verified_of_worldOutput hrun hworld hstep
  · intro account es' c' hstate hrest
    exact ⟨worldSelection_run hcons hstate hrest, (loggedIn_run hcons (.inl hstate) hrest).2.2⟩
  · intro account es' c' hstep c'' hrest
    have hin : LoggedIn account c' := by
      cases step_cases hstep with
      | verifyReturned _ hp =>
        rw [hp] at hcons
        exact .inr ⟨⟨_, hcons⟩, rfl⟩
    obtain ⟨_, hin'', hnone⟩ := loggedIn_run (consistent_step hcons hstep) hin hrest
    refine ⟨hnone, ?_⟩
    intro other hother
    rcases hin'' with hstate | ⟨hasked, _⟩
    · rw [hstate] at hother
      cases hother
      rfl
    · exact absurd hother (not_worldSelection_of_asked hasked)

def teaHouse : SessionContext := ⟨⟨[⟨"tea", "Tea House", "A quiet house."⟩]⟩, 3⟩

def alice : Account := ⟨1, "alice", 0, none⟩

/-- A wrong password, and then a login. -/
def secondAttempt : List Event :=
  [.throttleChecked false, .wrote (asBytes (banner ++ Session.initialPrompt)) (.ok ()),
    lineReceived "alice", passwordPrompted, lineReceived "sceret", .wrote iacWontEcho (.ok ()),
    .verifyCalled "alice" "sceret", .verifyReturned (.ok none), .failureRecorded,
    .wrote (asBytes (authFailedMsg ++ usernamePrompt)) (.ok ()),
    lineReceived " alice", passwordPrompted, lineReceived "secret", .wrote iacWontEcho (.ok ()),
    .verifyCalled "alice" "secret", .verifyReturned (.ok (some alice)), .limiterReset,
    .loginRecorded 1 (.ok ()),
    .wrote (asBytes ("Welcome, alice.\r\n\r\nAvailable worlds:\r\n  1. Tea House A quiet house.\r\n" ++
      "\r\nSelect a world (1-1, or 'quit'): ")) (.ok ())]

theorem worldSelection_gated_secondAttempt : Verified teaHouse secondAttempt alice :=
  (worldSelection_gated (c := ⟨.waiting, ⟨.worldSelection alice, teaHouse.worldRegistry⟩, 1, 4⟩)
    (by decide +kernel)).1 alice rfl

end Liaozhai.Net.Connection
