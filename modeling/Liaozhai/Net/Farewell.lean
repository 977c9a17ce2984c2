import Liaozhai.Net.Echo

/-!
# The end of a session

The server ends a session on five occasions, each with a last text before the
write half is shut down. At the password prompt a goodbye is preceded by IAC WONT
ECHO; the shutdown notice and the overflow notice are not.
-/

namespace Liaozhai.Net.Connection

open Auth Codec Constants Worlds
open Utf8Lossy (asBytes)
set_option autoImplicit false

variable {ctx : SessionContext} {c c' t : Connection} {e : Event} {es pre post : List Event}
  {text : String} {b : Bool}

/-- The text after which the loop is left, whether it is written or not. -/
def lastText : Point → Option String
  | .shutdownNotice => some shutdownMsg
  | .storeErrorNotice => some authInternalErrorMsg
  | .maxRetriesNotice => some authMaxRetriesMsg
  | .goodbye goodbye => some goodbye
  | .bufferOverflowNotice => some bufferOverflowMsg
  | _ => none

theorem output_lastText {point : Point} (h : lastText point = some text) :
    output point = some (asBytes text) := by
  cases point with
  | shutdownNotice | storeErrorNotice | maxRetriesNotice | goodbye _ | bufferOverflowNotice =>
    obtain rfl := Option.some.inj h
    rfl
  | _ => cases h

theorem afterWrite_lastText (h : lastText c.point = some text) (result : Except String Unit) :
    c.afterWrite result = c.goTo .closing := by
  cases hp : c.point with
  | shutdownNotice | storeErrorNotice | maxRetriesNotice | goodbye _ | bufferOverflowNotice =>
    simp only [afterWrite, hp]
  | _ =>
    rw [hp] at h
    cases h

theorem step_lastText (h : lastText c.point = some text) (hstep : step ctx c e = some c') :
    ∃ result, e = .wrote (asBytes text) result ∧ c' = c.goTo .closing := by
  cases step_cases hstep with
  | wrote result hout =>
    rw [output_lastText h] at hout
    obtain rfl := Option.some.inj hout
    exact ⟨result, rfl, afterWrite_lastText h result⟩
  | shutDown _ hp =>
    rcases hp with hp | hp
    all_goals
      rw [hp] at h
      cases h
  | throttleChecked _ hp | received _ hp | cancelled hp | verifyCalled hp | verifyReturned _ hp
  | limiterReset hp | loginRecorded _ hp | maxRetries hp _ | retry hp _ =>
    rw [hp] at h
    cases h

theorem step_closing (h : c.point = .closing) (hstep : step ctx c e = some c') :
    ∃ result, e = .shutDown result ∧ c'.point = .closed (.ok ()) := by
  cases step_cases hstep with
  | shutDown result _ => exact ⟨result, rfl, rfl⟩
  | wrote _ hout =>
    rw [h] at hout
    cases hout
  | throttleChecked _ hp | received _ hp | cancelled hp | verifyCalled hp | verifyReturned _ hp
  | limiterReset hp | loginRecorded _ hp | maxRetries hp _ | retry hp _ =>
    rw [h] at hp
    cases hp

theorem step_closed {result : Except String Unit} (h : c.point = .closed result) :
    step ctx c e ≠ some c' := by
  intro hstep
  cases step_cases hstep with
  | wrote _ hout =>
    rw [h] at hout
    cases hout
  | shutDown _ hp =>
    rcases hp with hp | hp
    all_goals
      rw [h] at hp
      cases hp
  | throttleChecked _ hp | received _ hp | cancelled hp | verifyCalled hp | verifyReturned _ hp
  | limiterReset hp | loginRecorded _ hp | maxRetries hp _ | retry hp _ =>
    rw [h] at hp
    cases hp

theorem run_closing (h : c.point = .closing) (hrun : run ctx c es = some c') :
    es = [] ∧ c'.point = .closing ∨
      ∃ result, es = [.shutDown result] ∧ c'.point = .closed (.ok ()) := by
  cases es with
  | nil =>
    obtain rfl := Option.some.inj hrun
    exact .inl ⟨rfl, h⟩
  | cons e es =>
    obtain ⟨t, hstep, hrest⟩ := Machine.run_cons.mp hrun
    obtain ⟨result, rfl, hclosed⟩ := step_closing h hstep
    cases es with
    | nil =>
      obtain rfl := Option.some.inj hrest
      exact .inr ⟨result, rfl, hclosed⟩
    | cons e' es =>
      obtain ⟨t', hstep', _⟩ := Machine.run_cons.mp hrest
      exact absurd hstep' (step_closed hclosed)

/-- Nothing comes after the last text but the shutdown of the write half. -/
theorem run_lastText (h : lastText c.point = some text) (hrun : run ctx c es = some c') :
    es = [] ∧ c' = c ∨
      (∃ result, es = [.wrote (asBytes text) result] ∧ c'.point = .closing) ∨
      ∃ result result', es = [.wrote (asBytes text) result, .shutDown result'] ∧
        c'.point = .closed (.ok ()) := by
  cases es with
  | nil => exact .inl ⟨rfl, (Option.some.inj hrun).symm⟩
  | cons e es =>
    obtain ⟨t, hstep, hrest⟩ := Machine.run_cons.mp hrun
    obtain ⟨result, rfl, rfl⟩ := step_lastText h hstep
    rcases run_closing rfl hrest with ⟨rfl, hp⟩ | ⟨result', rfl, hp⟩
    · exact .inr (.inl ⟨result, rfl, hp⟩)
    · exact .inr (.inr ⟨result, result', rfl, hp⟩)

/-- The server decides to end the session: a terminator or a world selected, the
retry limit, an error of the account store, an overflow of the codec's buffer, or
the shutdown of the server. -/
inductive ServerEnds (ctx : SessionContext) (c : Connection) : Event → Prop where
  | disconnect {line goodbye : String} : c.session.handleInput line = .disconnect goodbye →
      ServerEnds ctx c (.received (some (.ok (.line line))))
  | maxRetries : ctx.maxLoginAttempts ≤ c.authFailures → ServerEnds ctx c .failureRecorded
  | storeError (error : String) : ServerEnds ctx c (.verifyReturned (.error error))
  | bufferOverflow (max : Nat) : ServerEnds ctx c (.received (some (.error (.bufferOverflow max))))
  | cancelled : ServerEnds ctx c .cancelled

/-- The decisions at the password prompt that no IAC WONT ECHO follows. -/
def LeavesEcho (c : Connection) (e : Event) : Prop :=
  PasswordAsked c.session.state ∧
    (e = .cancelled ∨ ∃ max, e = .received (some (.error (.bufferOverflow max))))

theorem not_leavesEcho (hcancelled : e ≠ .cancelled)
    (hoverflow : ∀ max, e ≠ .received (some (.error (.bufferOverflow max)))) : ¬ LeavesEcho c e := by
  rintro ⟨_, h | ⟨max, h⟩⟩
  · exact hcancelled h
  · exact hoverflow max h

theorem writesSucceed_append {es' : List Event} (h : WritesSucceed (es ++ es')) :
    WritesSucceed es ∧ WritesSucceed es' := by
  constructor
  · intro bytes result hmem
    exact h bytes result (List.mem_append_left es' hmem)
  · intro bytes result hmem
    exact h bytes result (List.mem_append_right es hmem)

theorem written_append {es' : List Event} : written (es ++ es') = written es ++ written es' :=
  List.flatMap_append

theorem written_lastText (hok : WritesSucceed es) {result result' : Except String Unit}
    (hes : es = [.wrote (asBytes text) result, .shutDown result']) : written es = asBytes text := by
  have hresult : result = .ok () := by
    refine hok (asBytes text) result ?_
    rw [hes]
    exact List.mem_cons_self
  rw [hes, hresult]
  exact List.append_nil _

/-- The last text leaves the echo as it is. -/
theorem turns_lastText (h : lastText c.point = some text) (hrun : run ctx c es = some c')
    (hclosed : c'.point = .closed (.ok ())) (hok : WritesSucceed es) : Turns (written es) b b := by
  rcases run_lastText h hrun with ⟨rfl, rfl⟩ | ⟨_, rfl, hp⟩ | ⟨_, _, hes, _⟩
  · rw [hclosed] at h
    cases h
  · rw [hclosed] at hp
    cases hp
  · rw [written_lastText hok hes]
    exact turns_text text

theorem step_restoreEchoGoodbye {goodbye : String} (h : c.point = .restoreEchoGoodbye goodbye)
    (hstep : step ctx c e = some c') :
    ∃ result, e = .wrote iacWontEcho result ∧ c' = c.goTo (.goodbye goodbye) := by
  cases step_cases hstep with
  | wrote result hout =>
    rw [h] at hout
    obtain rfl := Option.some.inj hout
    refine ⟨result, rfl, ?_⟩
    simp only [afterWrite, h]
  | shutDown _ hp =>
    rcases hp with hp | hp
    all_goals
      rw [h] at hp
      cases hp
  | throttleChecked _ hp | received _ hp | cancelled hp | verifyCalled hp | verifyReturned _ hp
  | limiterReset hp | loginRecorded _ hp | maxRetries hp _ | retry hp _ =>
    rw [h] at hp
    cases hp

/-- Before the goodbye of a session at the password prompt the echo is restored. -/
theorem turns_goodbye {goodbye : String} (h : c.point = .restoreEchoGoodbye goodbye)
    (hrun : run ctx c es = some c') (hclosed : c'.point = .closed (.ok ()))
    (hok : WritesSucceed es) : Turns (written es) b false := by
  cases es with
  | nil =>
    obtain rfl := Option.some.inj hrun
    rw [h] at hclosed
    cases hclosed
  | cons e es =>
    obtain ⟨t, hstep, hrest⟩ := Machine.run_cons.mp hrun
    obtain ⟨result, rfl, rfl⟩ := step_restoreEchoGoodbye h hstep
    obtain ⟨hfirst, hlater⟩ := @writesSucceed_append [_] es hok
    obtain rfl := hfirst _ result List.mem_cons_self
    exact turns_wont.append (turns_lastText rfl hrest hclosed hlater)

/-- The point that a decision of the server leads to, and the echo there. -/
theorem step_serverEnds (hends : ServerEnds ctx c e)
    (hstep : step ctx c e = some c') :
    (∃ goodbye, c'.point = .restoreEchoGoodbye goodbye) ∧ ¬ LeavesEcho c e ∨
      ∃ text b, lastText c'.point = some text ∧ echoAt c'.session c'.point = some b ∧
        (b = false ↔ ¬ LeavesEcho c e) := by
  cases hends with
  | @disconnect line goodbye hline =>
    have hleaves : ¬ LeavesEcho c (.received (some (.ok (.line line)))) :=
      not_leavesEcho (by simp) (by simp)
    cases step_cases hstep with
    | received _ hp =>
      simp only [takeItem, takeLine, hline]
      split
      · exact .inl ⟨⟨goodbye, rfl⟩, hleaves⟩
      · exact .inr ⟨goodbye, false, rfl, rfl, iff_of_true rfl hleaves⟩
  | maxRetries hmax =>
    have hleaves : ¬ LeavesEcho c .failureRecorded := not_leavesEcho (by simp) (by simp)
    cases step_cases hstep with
    | maxRetries _ _ => exact .inr ⟨_, false, rfl, rfl, iff_of_true rfl hleaves⟩
    | retry _ hlt => exact absurd hmax (Nat.not_le_of_lt hlt)
  | storeError error =>
    have hleaves : ¬ LeavesEcho c (.verifyReturned (.error error)) :=
      not_leavesEcho (by simp) (by simp)
    cases step_cases hstep with
    | verifyReturned _ _ => exact .inr ⟨_, false, rfl, rfl, iff_of_true rfl hleaves⟩
  | bufferOverflow max =>
    cases step_cases hstep with
    | received _ _ =>
      refine .inr ⟨_, c.session.isPasswordInput, rfl, rfl, ?_⟩
      rw [← Bool.not_eq_true, Session.isPasswordInput_iff]
      exact not_congr (and_iff_left (.inr ⟨max, rfl⟩)).symm
  | cancelled =>
    cases step_cases hstep with
    | cancelled _ =>
      refine .inr ⟨_, c.session.isPasswordInput, rfl, rfl, ?_⟩
      rw [← Bool.not_eq_true, Session.isPasswordInput_iff]
      exact not_congr (and_iff_left (.inl rfl)).symm

/-- A session that the server ends leaves the echo of the client on, except when
it is ended by a shutdown or an overflow at the password prompt. -/
theorem echo_restored_iff (hpre : run ctx (new ctx) pre = some t) (hends : ServerEnds ctx t e)
    (hrun : run ctx t (e :: post) = some c) (hclosed : c.point = .closed (.ok ()))
    (hok : WritesSucceed (pre ++ e :: post)) :
    echoSuppressed (pre ++ e :: post) = false ↔ ¬ LeavesEcho t e := by
  obtain ⟨t', hstep, hrest⟩ := Machine.run_cons.mp hrun
  have hupto : run ctx (new ctx) (pre ++ [e]) = some t' := Machine.run_snoc.mpr ⟨t, hpre, hstep⟩
  have hsplit : pre ++ e :: post = (pre ++ [e]) ++ post := List.append_cons pre e post
  rw [hsplit] at hok ⊢
  obtain ⟨hokUpto, hokPost⟩ := writesSucceed_append hok
  -- the echo after all that is written, from the echo at the point reached by the decision
  have hecho : ∀ {b b'}, echoAt t'.session t'.point = some b → Turns (written post) b b' →
      echoSuppressed ((pre ++ [e]) ++ post) = b' := by
    intro b b' hb hturns
    have hall := ((turns_run hupto hokUpto hb).append hturns) []
    rwa [List.append_nil, ← written_append] at hall
  rcases step_serverEnds hends hstep with ⟨⟨goodbye, hp⟩, hleaves⟩ | ⟨text, b, hlast, hb, hiff⟩
  · have hb : echoAt t'.session t'.point = some t'.session.isPasswordInput := by
      rw [hp]
      rfl
    rw [hecho hb (turns_goodbye hp hrest hclosed hokPost)]
    exact iff_of_true rfl hleaves
  · rw [hecho hb (turns_lastText hlast hrest hclosed hokPost), hiff]

/-- The client quits at the password prompt. -/
theorem echo_restored_quit :
    echoSuppressed (nameGiven ++ .received (some (.ok (.line "quit"))) ::
      [.wrote iacWontEcho (.ok ()), .wrote (asBytes goodbyeMsg) (.ok ()), .shutDown (.ok ())]) =
        false := by
  have hpre : run ⟨⟨[]⟩, 3⟩ (new ⟨⟨[]⟩, 3⟩) nameGiven =
      some ⟨.waiting, ⟨.authenticating (some "alice"), ⟨[]⟩⟩, 0, 1⟩ := by decide +kernel
  have hquit : (⟨.authenticating (some "alice"), ⟨[]⟩⟩ : Session).handleInput "quit" =
      .disconnect goodbyeMsg := by decide +kernel
  refine (echo_restored_iff hpre (.disconnect hquit)
    (c := ⟨.closed (.ok ()), ⟨.authenticating (some "alice"), ⟨[]⟩⟩, 0, 2⟩) ?_ rfl ?_).mpr ?_
  · decide +kernel
  · intro bytes result hmem
    simp only [nameGiven, List.cons_append, List.nil_append, List.mem_cons, List.not_mem_nil,
      or_false, reduceCtorEq, false_or, Event.wrote.injEq] at hmem
    rcases hmem with ⟨_, rfl⟩ | ⟨_, rfl⟩ | ⟨_, rfl⟩ | ⟨_, rfl⟩
    all_goals rfl
  · exact not_leavesEcho (by simp) (by simp)

/-- The server shuts down while the client is asked for the password. -/
theorem shutdown_leaves_echo :
    run ⟨⟨[]⟩, 3⟩ (new ⟨⟨[]⟩, 3⟩)
        (nameGiven ++ .cancelled :: [.wrote (asBytes shutdownMsg) (.ok ()), .shutDown (.ok ())]) =
      some ⟨.closed (.ok ()), ⟨.authenticating (some "alice"), ⟨[]⟩⟩, 0, 1⟩ ∧
    echoSuppressed
        (nameGiven ++ .cancelled :: [.wrote (asBytes shutdownMsg) (.ok ()), .shutDown (.ok ())]) =
      true := by
  constructor
  · decide +kernel
  · decide +kernel

end Liaozhai.Net.Connection
