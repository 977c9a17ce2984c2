import Liaozhai.Net.Prompts

/-!
# Echo

The ECHO negotiations in what the handler writes. A client shows what is typed
until IAC WILL ECHO, and again after IAC WONT ECHO.
-/

namespace Liaozhai.Net.Connection

open Auth Codec Constants Worlds
open Utf8Lossy (asBytes byte_ne_of_mem_asBytes)
set_option autoImplicit false

/-- Whether the last ECHO negotiation in the bytes is IAC WILL ECHO; `suppressed`
is the answer before them. -/
def echoAfter (suppressed : Bool) : List UInt8 → Bool
  | [] => suppressed
  | b :: rest =>
    if iacWillEcho.isPrefixOf (b :: rest) then echoAfter true rest
    else if iacWontEcho.isPrefixOf (b :: rest) then echoAfter false rest
    else echoAfter suppressed rest

/-- What the run has written to the client. -/
def written (es : List Event) : List UInt8 :=
  es.flatMap fun e =>
    match e with
    | .wrote bytes (.ok ()) => bytes
    | _ => []

def echoSuppressed (es : List Event) : Bool := echoAfter false (written es)

/-- The bytes take the echo from one setting to another, whatever is written after them. -/
def Turns (bytes : List UInt8) (before after : Bool) : Prop :=
  ∀ rest, echoAfter before (bytes ++ rest) = echoAfter after rest

variable {ctx : SessionContext} {c c' : Connection} {e : Event} {es : List Event}
  {bytes bytes' : List UInt8} {b b' b'' : Bool}

theorem Turns.append (h : Turns bytes b b') (h' : Turns bytes' b' b'') :
    Turns (bytes ++ bytes') b b'' := by
  intro rest
  rw [List.append_assoc, h, h']

theorem turns_will : Turns iacWillEcho b true := by
  intro rest
  simp [iacWillEcho, iacWontEcho, echoAfter]

theorem turns_wont : Turns iacWontEcho b false := by
  intro rest
  simp [iacWillEcho, iacWontEcho, echoAfter]

theorem turns_of_ne (h : ∀ x ∈ bytes, x ≠ 0xFF) : Turns bytes b b := by
  induction bytes with
  | nil =>
    intro rest
    rfl
  | cons x bytes ih =>
    intro rest
    have hx : ¬ (0xFF : UInt8) = x := fun heq => h x List.mem_cons_self heq.symm
    have hrest := ih fun y hy => h y (List.mem_cons_of_mem x hy)
    rw [List.cons_append, echoAfter, if_neg, if_neg]
    · exact hrest rest
    · simp [iacWontEcho, hx]
    · simp [iacWillEcho, hx]

/-- A text leaves the echo as it is. -/
theorem turns_text (s : String) : Turns (asBytes s) b b :=
  turns_of_ne fun _ hx => byte_ne_of_mem_asBytes hx

/-- The echo at a point, as far as it matters there: once the password is taken it
is on, although the session still asks for the password. -/
def echoAt (session : Session) : Point → Option Bool
  | .verify _ _ | .verifying _ _ | .storeErrorNotice | .reset _ | .recordLogin _ | .recordFailure
  | .maxRetriesNotice | .advance _ _ | .goodbye _ => some false
  | .closing | .closed _ | .panicked => none
  | _ => some session.isPasswordInput

theorem isPasswordInput_of_asked {session : Session} (h : PasswordAsked session.state) :
    session.isPasswordInput = true :=
  Session.isPasswordInput_iff.mpr h

theorem isPasswordInput_of_none {session : Session} (h : session.state = .authenticating none) :
    session.isPasswordInput = false := by
  rw [Session.isPasswordInput, h]

theorem isPasswordInput_of_world {session : Session} (h : WorldSelected session.state) :
    session.isPasswordInput = false := by
  obtain ⟨account, h⟩ := h
  rw [Session.isPasswordInput, h]

/-- Taking an item changes no echo. -/
theorem echoAt_takeItem (c : Connection) (item : Option Item) :
    echoAt c.session (c.takeItem item).point = none ∨
      echoAt c.session (c.takeItem item).point = some c.session.isPasswordInput := by
  match item with
  | some (.ok (.line line)) =>
    match hstate : c.session.state with
    | .authenticating none =>
      have hecho := isPasswordInput_of_none hstate
      rcases Session.handleInput_username hstate line with h | h | ⟨_, h⟩
      all_goals simp [takeItem, takeLine, h, hecho, echoAt]
    | .authenticating (some username) =>
      have hecho := isPasswordInput_of_asked ⟨username, hstate⟩
      rcases Session.handleInput_password hstate line with h | h | ⟨_, h⟩
      all_goals simp [takeItem, takeLine, h, hecho, echoAt]
    | .worldSelection account =>
      have hecho := isPasswordInput_of_world ⟨account, hstate⟩
      rcases Session.handleInput_world hstate line with ⟨output, h⟩ | ⟨goodbye, h⟩
      all_goals simp [takeItem, takeLine, h, hecho, echoAt]
  | some (.ok .lineTooLong) => exact .inr rfl
  | some (.error (.bufferOverflow _)) => exact .inr rfl
  | some (.error (.io _)) => exact .inl rfl
  | none => exact .inl rfl

/-- A write turns the echo to what it is at the next point. -/
theorem turns_output (hcons : Consistent c.session.state c.point)
    (hout : output c.point = some bytes) (hb : echoAt c.session c.point = some b)
    (hb' : echoAt (c.afterWrite (.ok ())).session (c.afterWrite (.ok ())).point = some b') :
    Turns bytes b b' := by
  match hp : c.point with
  | .advance (.authenticating (some _)) frame =>
    rw [hp] at hcons hout
    obtain ⟨_, rfl⟩ := hcons
    cases hout
    simp only [afterWrite, hp, continueIf, echoAt] at hb'
    cases hb'
    exact turns_will.append (turns_text _)
  | .advance (.authenticating none) frame =>
    rw [hp] at hcons hout hb
    obtain ⟨_, rfl⟩ := hcons
    cases hout
    cases hb
    simp only [afterWrite, hp, continueIf, echoAt] at hb'
    cases hb'
    exact turns_text _
  | .advance (.worldSelection _) frame =>
    rw [hp] at hcons hout hb
    obtain ⟨_, text, rfl⟩ := hcons
    cases hout
    cases hb
    simp only [afterWrite, hp, continueIf, echoAt] at hb'
    cases hb'
    exact turns_text _
  | .restoreEcho _ _ | .restoreEchoGoodbye _ =>
    rw [hp] at hout
    cases hout
    simp only [afterWrite, hp, continueIf, goTo, echoAt] at hb'
    cases hb'
    exact turns_wont
  | .limitedNotice | .banner | .stay _ | .lineTooLongNotice =>
    rw [hp] at hout hb
    cases hout
    cases hb
    simp only [afterWrite, hp, continueIf, goTo, echoAt] at hb'
    cases hb'
    exact turns_text _
  | .shutdownNotice | .storeErrorNotice | .maxRetriesNotice | .goodbye _ | .bufferOverflowNotice =>
    simp only [afterWrite, hp, goTo, echoAt] at hb'
    cases hb'
  | .start | .limitedShutdown | .waiting | .verify _ _ | .verifying _ _ | .reset _
  | .recordLogin _ | .recordFailure | .closing | .closed _ | .panicked =>
    rw [hp] at hout
    cases hout

theorem written_snoc : written (es ++ [e]) = written es ++ written [e] := by
  rw [written, List.flatMap_append]
  rfl

theorem echoAt_of_output {session : Session} {point : Point} (hout : output point = some bytes) :
    ∃ b, echoAt session point = some b := by
  cases point with
  | closing | closed _ | panicked => cases hout
  | _ => exact ⟨_, rfl⟩

theorem turns_step (hcons : Consistent c.session.state c.point) (hstep : step ctx c e = some c')
    (hok : ∀ bytes result, e = .wrote bytes result → result = .ok ())
    (hb' : echoAt c'.session c'.point = some b') :
    ∃ b, echoAt c.session c.point = some b ∧ Turns (written [e]) b b' := by
  have hsilent : Turns [] b' b' := fun _ => rfl
  cases step_cases hstep with
  | wrote result hout =>
    obtain rfl := hok _ result rfl
    obtain ⟨b, hb⟩ : ∃ b, echoAt c.session c.point = some b := echoAt_of_output hout
    refine ⟨b, hb, ?_⟩
    rw [written, List.flatMap_singleton]
    exact turns_output hcons hout hb hb'
  | received item hp =>
    rw [takeItem_session] at hb'
    rcases echoAt_takeItem c item with h | h
    · rw [h] at hb'
      cases hb'
    · rw [h] at hb'
      rw [hp]
      exact ⟨b', hb', hsilent⟩
  | throttleChecked throttled hp =>
    rw [hp]
    cases throttled with
    | true => exact ⟨b', hb', hsilent⟩
    | false => exact ⟨b', hb', hsilent⟩
  | shutDown _ hp => cases hb'
  | verifyReturned result hp =>
    rw [hp]
    match result with
    | .error _ => exact ⟨b', hb', hsilent⟩
    | .ok (some _) => exact ⟨b', hb', hsilent⟩
    | .ok none => exact ⟨b', hb', hsilent⟩
  | @loginRecorded account _ hp =>
    rw [hp]
    rcases complete_some c account with heq | ⟨frame, heq⟩
    · rw [heq] at hb'
      cases hb'
    · rw [heq] at hb'
      exact ⟨b', hb', hsilent⟩
  | cancelled hp | verifyCalled hp | limiterReset hp | maxRetries hp _ | retry hp _ =>
    rw [hp]
    exact ⟨b', hb', hsilent⟩

def WritesSucceed (es : List Event) : Prop :=
  ∀ bytes result, .wrote bytes result ∈ es → result = .ok ()

theorem turns_run (hrun : run ctx (new ctx) es = some c) (hok : WritesSucceed es)
    (hb : echoAt c.session c.point = some b) : Turns (written es) false b := by
  have hall := Machine.run_history (P := fun es c => WritesSucceed es → ∀ b,
    echoAt c.session c.point = some b → Turns (written es) false b) ?_ ?_ hrun
  · exact hall hok b hb
  · intro es t e t' hrun h hstep hok b' hb'
    have hlast : ∀ bytes result, e = .wrote bytes result → result = .ok () := by
      rintro bytes result rfl
      exact hok bytes result (List.mem_append_right es List.mem_cons_self)
    obtain ⟨b, hb, hturns⟩ := turns_step (consistent_run hrun) hstep hlast hb'
    have hbefore := h (fun bytes result hmem => hok bytes result (List.mem_append_left [e] hmem)) b hb
    rw [written_snoc]
    exact hbefore.append hturns
  · rintro _ b ⟨⟩ rest
    rfl

theorem step_asks (hcons : Consistent c.session.state c.point) (hstep : step ctx c e = some c')
    (hbefore : ¬ PasswordAsked c.session.state) (hafter : PasswordAsked c'.session.state) :
    e = .wrote (iacWillEcho ++ asBytes passwordPrompt) (.ok ()) := by
  rcases step_session hstep with hsame | ⟨next, frame, hadvance, rfl, rfl⟩
  · rw [hsame] at hafter
    exact absurd hafter hbefore
  · obtain ⟨username, hname⟩ := hafter
    obtain rfl : next = .authenticating (some username) := hname
    rw [hadvance] at hcons
    rw [hcons.2]

/-- While the handler waits for an item, the echo is suppressed exactly at the
password prompt, and the write that comes to that prompt suppresses it first. -/
theorem echoSuppressed_iff (hrun : run ctx (new ctx) es = some c) (hok : WritesSucceed es) :
    (c.point = .waiting → (echoSuppressed es = true ↔ PasswordAsked c.session.state)) ∧
      ∀ e c', step ctx c e = some c' → ¬ PasswordAsked c.session.state →
        PasswordAsked c'.session.state →
          e = .wrote (iacWillEcho ++ asBytes passwordPrompt) (.ok ()) := by
  constructor
  · intro hp
    have hturns : Turns (written es) false c.session.isPasswordInput :=
      turns_run hrun hok (by rw [hp]; rfl)
    have hecho : echoSuppressed es = c.session.isPasswordInput := by
      have hall := hturns []
      rwa [List.append_nil] at hall
    rw [hecho]
    exact Session.isPasswordInput_iff
  · intro e c' hstep
    exact step_asks (consistent_run hrun) hstep

def nameGiven : List Event :=
  [.throttleChecked false, .wrote (asBytes (banner ++ Session.initialPrompt)) (.ok ()),
    .received (some (.ok (.line "alice"))),
    .wrote (iacWillEcho ++ asBytes passwordPrompt) (.ok ())]

theorem echoSuppressed_nameGiven : echoSuppressed nameGiven = true := by
  have hok : WritesSucceed nameGiven := by
    intro bytes result hmem
    simp only [nameGiven, List.mem_cons, List.not_mem_nil, or_false, reduceCtorEq, false_or,
      Event.wrote.injEq] at hmem
    rcases hmem with ⟨_, rfl⟩ | ⟨_, rfl⟩
    · rfl
    · rfl
  have hrun : run ⟨⟨[]⟩, 3⟩ (new ⟨⟨[]⟩, 3⟩) nameGiven =
      some ⟨.waiting, ⟨.authenticating (some "alice"), ⟨[]⟩⟩, 0, 1⟩ := by decide +kernel
  exact ((echoSuppressed_iff hrun hok).1 rfl).mpr ⟨"alice", rfl⟩

end Liaozhai.Net.Connection
