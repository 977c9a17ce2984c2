import Liaozhai.Net.Attempts
import Liaozhai.Net.Authentication
import Liaozhai.Net.Farewell

/-!
# Accounting of the attempts

The calls of the account store in a run against its reports to the rate limiter:
each refusal is reported once, an acceptance resets once, and an error of the
store does neither.
-/

namespace Liaozhai.Net.Connection

open Auth Constants
open Utf8Lossy (asBytes)
set_option autoImplicit false

def isCall : Event → Bool
  | .verifyCalled _ _ => true
  | _ => false

def isRefusal : Event → Bool
  | .verifyReturned (.ok none) => true
  | _ => false

def isAcceptance : Event → Bool
  | .verifyReturned (.ok (some _)) => true
  | _ => false

def isStoreError : Event → Bool
  | .verifyReturned (.error _) => true
  | _ => false

def isReset : Event → Bool
  | .limiterReset => true
  | _ => false

def isReport : Event → Bool
  | .failureRecorded => true
  | _ => false

/-- The calls that are not answered yet. -/
def unanswered : Point → Nat
  | .verifying _ _ => 1
  | _ => 0

/-- The acceptances that have not reset the limiter yet. -/
def unreset : Point → Nat
  | .reset _ => 1
  | _ => 0

/-- The refusals that are not reported yet. -/
def unreported : Point → Nat
  | .recordFailure => 1
  | _ => 0

variable {ctx : SessionContext} {c c' t : Connection} {e : Event} {es pre post : List Event}

/-- Nothing of an attempt is pending. -/
structure Settled (point : Point) : Prop where
  unanswered : unanswered point = 0
  unreset : unreset point = 0
  unreported : unreported point = 0

theorem settled_takeItem (c : Connection) (item : Option Item) :
    Settled (c.takeItem item).point := by
  obtain ⟨point, lineCount, heq, hfrom⟩ := takeItem_eq c item
  rw [heq]
  cases hfrom with
  | _ => exact ⟨rfl, rfl, rfl⟩

theorem settled_afterWrite (c : Connection) (result : Except String Unit) :
    Settled (c.afterWrite result).point := by
  obtain ⟨point, session, heq, hfrom⟩ := afterWrite_eq c result
  rw [heq]
  cases hfrom with
  | _ => exact ⟨rfl, rfl, rfl⟩

theorem settled_complete (c : Connection) (authResult : Option Account) :
    Settled (c.complete authResult).point := by
  obtain ⟨point, heq, hfrom⟩ := complete_eq c authResult
  rw [heq]
  cases hfrom with
  | _ => exact ⟨rfl, rfl, rfl⟩

theorem settled_of_output {point : Point} {bytes : List UInt8} (h : output point = some bytes) :
    Settled point := by
  cases point with
  | verifying _ _ | reset _ | recordFailure => cases h
  | _ => exact ⟨rfl, rfl, rfl⟩

/-- The steps that have to do with an attempt. -/
def isAttempt : Event → Bool
  | .verifyCalled _ _ | .verifyReturned _ | .limiterReset | .failureRecorded => true
  | _ => false

/-- The other steps leave the books as they are. -/
theorem step_settled (hstep : step ctx c e = some c') (hother : isAttempt e = false) :
    Settled c.point ∧ Settled c'.point ∧ c'.authFailures = c.authFailures := by
  cases step_cases hstep with
  | throttleChecked throttled hp =>
    rw [hp]
    cases throttled with
    | true => exact ⟨⟨rfl, rfl, rfl⟩, ⟨rfl, rfl, rfl⟩, rfl⟩
    | false => exact ⟨⟨rfl, rfl, rfl⟩, ⟨rfl, rfl, rfl⟩, rfl⟩
  | wrote result hout =>
    exact ⟨settled_of_output hout, settled_afterWrite c result, afterWrite_authFailures c result⟩
  | shutDown _ hp =>
    rcases hp with hp | hp
    all_goals
      rw [hp]
      exact ⟨⟨rfl, rfl, rfl⟩, ⟨rfl, rfl, rfl⟩, rfl⟩
  | received item hp =>
    rw [hp]
    exact ⟨⟨rfl, rfl, rfl⟩, settled_takeItem c item, takeItem_authFailures c item⟩
  | cancelled hp =>
    rw [hp]
    exact ⟨⟨rfl, rfl, rfl⟩, ⟨rfl, rfl, rfl⟩, rfl⟩
  | loginRecorded _ hp =>
    rw [hp]
    exact ⟨⟨rfl, rfl, rfl⟩, settled_complete c _, complete_authFailures c _⟩
  | verifyCalled _ | verifyReturned _ _ | limiterReset _ | maxRetries _ _ | retry _ _ =>
    cases hother

/-- A refusal is reported before anything else happens. -/
theorem unreported_eq_zero (hstep : step ctx c e = some c') (h : isReport e = false) :
    unreported c.point = 0 := by
  cases hattempt : isAttempt e with
  | false => exact (step_settled hstep hattempt).1.unreported
  | true =>
    cases step_cases hstep with
    | verifyCalled hp | verifyReturned _ hp | limiterReset hp =>
      rw [hp]
      rfl
    | maxRetries _ _ | retry _ _ => cases h
    | throttleChecked _ _ | wrote _ _ | shutDown _ _ | received _ _ | cancelled _
    | loginRecorded _ _ => cases hattempt

theorem unreported_of_refusal (hstep : step ctx c e = some c') (h : isRefusal e = true) :
    unreported c'.point = 1 := by
  cases step_cases hstep with
  | verifyReturned result _ =>
    rcases result with error | (_ | account)
    · cases h
    · rfl
    · cases h
  | verifyCalled _ | limiterReset _ | maxRetries _ _ | retry _ _ | throttleChecked _ _
  | wrote _ _ | shutDown _ _ | received _ _ | cancelled _ | loginRecorded _ _ => cases h

theorem unreported_le_one (point : Point) : unreported point ≤ 1 := by
  unfold unreported
  split
  · exact Nat.le_refl 1
  · exact Nat.zero_le 1

/-- A call of the store was answered with an account or with an error. -/
def Answered (c : Connection) : Prop :=
  (∃ account, LoggedIn account c) ∨
    PasswordAsked c.session.state ∧ c.point = .storeErrorNotice ∨
    c.point = .closing ∨ ∃ result, c.point = .closed result

theorem answered_step (hcons : Consistent c.session.state c.point) (h : Answered c)
    (hstep : step ctx c e = some c') : Answered c' := by
  rcases h with ⟨account, h⟩ | ⟨_, hp⟩ | hp | ⟨_, hp⟩
  · exact .inl ⟨account, loggedIn_step hcons h hstep⟩
  · have hlast : lastText c.point = some authInternalErrorMsg := by rw [hp]; rfl
    obtain ⟨_, _, rfl⟩ := step_lastText hlast hstep
    exact .inr (.inr (.inl rfl))
  · obtain ⟨_, _, hclosed⟩ := step_closing hp hstep
    exact .inr (.inr (.inr ⟨_, hclosed⟩))
  · exact absurd hstep (step_closed hp)

/-- With an answer given, no attempt is made any more. -/
theorem not_answered_of_attempt (hcons : Consistent c.session.state c.point)
    (hp : (∃ username password, c.point = .verify username password) ∨
      (∃ username password, c.point = .verifying username password) ∨ c.point = .recordFailure) :
    ¬ Answered c := by
  have hasked : PasswordAsked c.session.state := by
    rcases hp with ⟨username, _, hp⟩ | ⟨username, _, hp⟩ | hp
    · rw [hp] at hcons
      exact ⟨username, hcons⟩
    · rw [hp] at hcons
      exact ⟨username, hcons⟩
    · rw [hp] at hcons
      exact hcons
  rintro (⟨account, hstate | ⟨_, hgrant⟩⟩ | ⟨_, hp'⟩ | hp' | ⟨_, hp'⟩)
  · exact not_worldSelection_of_asked hasked hstate
  · rcases hp with ⟨_, _, hp⟩ | ⟨_, _, hp⟩ | hp
    all_goals
      rw [hp] at hgrant
      exact hgrant
  all_goals
    rcases hp with ⟨_, _, hp⟩ | ⟨_, _, hp⟩ | hp
    all_goals
      rw [hp'] at hp
      cases hp

/-- The books of a run and the connection it leads to. -/
structure Accounted (ctx : SessionContext) (es : List Event) (c : Connection) : Prop where
  refusals : es.countP isRefusal = c.authFailures
  reports : es.countP isReport + unreported c.point = es.countP isRefusal
  resets : es.countP isReset + unreset c.point = es.countP isAcceptance
  calls : es.countP isCall = es.countP isRefusal + es.countP isAcceptance +
    es.countP isStoreError + unanswered c.point
  answers : es.countP isAcceptance + es.countP isStoreError = 0 ∨
    es.countP isAcceptance + es.countP isStoreError = 1 ∧ Answered c ∧
      c.authFailures < attemptLimit ctx

theorem accounted_new : Accounted ctx [] (new ctx) := ⟨rfl, rfl, rfl, rfl, .inl rfl⟩

theorem countP_snoc (p : Event → Bool) :
    (es ++ [e]).countP p = es.countP p + if p e then 1 else 0 := by
  rw [List.countP_append, List.countP_singleton]

/-- What a step adds to the two sides of the books. -/
structure Balanced (c : Connection) (e : Event) (c' : Connection) : Prop where
  refusals : c'.authFailures = c.authFailures + if isRefusal e then 1 else 0
  reports : (if isReport e then 1 else 0) + unreported c'.point =
    (if isRefusal e then 1 else 0) + unreported c.point
  resets : (if isReset e then 1 else 0) + unreset c'.point =
    (if isAcceptance e then 1 else 0) + unreset c.point
  calls : (if isCall e then 1 else 0) + unanswered c.point =
    (if isRefusal e then 1 else 0) + (if isAcceptance e then 1 else 0) +
      (if isStoreError e then 1 else 0) + unanswered c'.point

/-- What is not part of an attempt adds nothing. -/
theorem balanced_of_other (hstep : step ctx c e = some c') (hother : isAttempt e = false) :
    Balanced c e c' := by
  obtain ⟨hbefore, hafter, hsame⟩ := step_settled hstep hother
  have hout : isRefusal e = false ∧ isReport e = false ∧ isReset e = false ∧
      isAcceptance e = false ∧ isCall e = false ∧ isStoreError e = false := by
    cases e with
    | verifyCalled _ _ | verifyReturned _ | limiterReset | failureRecorded => cases hother
    | _ => exact ⟨rfl, rfl, rfl, rfl, rfl, rfl⟩
  obtain ⟨hrefusal, hreport, hreset, hacceptance, hcall, herror⟩ := hout
  constructor
  · rw [hrefusal, hsame]
    rfl
  · rw [hrefusal, hreport, hbefore.unreported, hafter.unreported]
  · rw [hreset, hacceptance, hbefore.unreset, hafter.unreset]
  · rw [hcall, hrefusal, hacceptance, herror, hbefore.unanswered, hafter.unanswered]
    rfl

theorem step_balanced (hstep : step ctx c e = some c') : Balanced c e c' := by
  cases hattempt : isAttempt e with
  | false => exact balanced_of_other hstep hattempt
  | true =>
    cases step_cases hstep with
    | throttleChecked _ _ | wrote _ _ | shutDown _ _ | received _ _ | cancelled _
    | loginRecorded _ _ => cases hattempt
    | verifyCalled hp | limiterReset hp | maxRetries hp _ | retry hp _ =>
      constructor
      · rfl
      all_goals
        rw [hp]
        rfl
    | verifyReturned result hp =>
      rcases result with error | (_ | account)
      all_goals
        constructor
        · rfl
        all_goals
          rw [hp]
          rfl

theorem Accounted.answers_eq_zero (h : Accounted ctx es c) (hnot : ¬ Answered c) :
    es.countP isAcceptance + es.countP isStoreError = 0 := by
  rcases h.answers with hzero | ⟨_, hanswered, _⟩
  · exact hzero
  · exact absurd hanswered hnot

/-- Only a return of the store answers, and it does so once. -/
theorem answers_step (hcons : Consistent c.session.state c.point) (hlimit : WithinLimit ctx c)
    (h : Accounted ctx es c) (hstep : step ctx c e = some c') :
    (es ++ [e]).countP isAcceptance + (es ++ [e]).countP isStoreError = 0 ∨
      (es ++ [e]).countP isAcceptance + (es ++ [e]).countP isStoreError = 1 ∧ Answered c' ∧
        c'.authFailures < attemptLimit ctx := by
  rw [countP_snoc, countP_snoc]
  by_cases hreturned : ∃ result, e = .verifyReturned result
  · obtain ⟨result, rfl⟩ := hreturned
    cases step_cases hstep with
    | verifyReturned _ hp =>
      have hzero := h.answers_eq_zero (not_answered_of_attempt hcons (.inr (.inl ⟨_, _, hp⟩)))
      have hlt : c.authFailures < attemptLimit ctx := hlimit.lt_of_point hp id
      have hasked : PasswordAsked c.session.state := by
        rw [hp] at hcons
        exact ⟨_, hcons⟩
      obtain ⟨hacceptance, herror⟩ := Nat.add_eq_zero_iff.mp hzero
      rw [hacceptance, herror]
      rcases result with error | (_ | account)
      · exact .inr ⟨rfl, .inr (.inl ⟨hasked, rfl⟩), hlt⟩
      · exact .inl rfl
      · exact .inr ⟨rfl, .inl ⟨account, .inr ⟨hasked, rfl⟩⟩, hlt⟩
  · have hout : isRefusal e = false ∧ isAcceptance e = false ∧ isStoreError e = false := by
      cases e with
      | verifyReturned result => exact absurd ⟨result, rfl⟩ hreturned
      | _ => exact ⟨rfl, rfl, rfl⟩
    obtain ⟨hrefusal, hacceptance, herror⟩ := hout
    have hsame := (step_balanced hstep).refusals
    rw [hrefusal] at hsame
    rw [hacceptance, herror]
    rcases h.answers with hzero | ⟨hone, hanswered, hlt⟩
    · exact .inl hzero
    · exact .inr ⟨hone, answered_step hcons hanswered hstep, hsame ▸ hlt⟩

theorem accounted_step (hcons : Consistent c.session.state c.point) (hlimit : WithinLimit ctx c)
    (h : Accounted ctx es c) (hstep : step ctx c e = some c') : Accounted ctx (es ++ [e]) c' := by
  obtain ⟨hrefusals, hreports, hresets, hcalls⟩ := step_balanced hstep
  refine ⟨?_, ?_, ?_, ?_, answers_step hcons hlimit h hstep⟩
  · rw [countP_snoc, hrefusals, h.refusals]
  · rw [countP_snoc, countP_snoc]
    have hbefore := h.reports
    omega
  · rw [countP_snoc, countP_snoc]
    have hbefore := h.resets
    omega
  · rw [countP_snoc, countP_snoc, countP_snoc, countP_snoc]
    have hbefore := h.calls
    omega

theorem accounted_run (hrun : run ctx (new ctx) es = some c) : Accounted ctx es c := by
  have hall := Machine.run_history (P := fun es c => Consistent c.session.state c.point ∧
    WithinLimit ctx c ∧ Accounted ctx es c) ?_ ?_ hrun
  · exact hall.2.2
  · rintro es t e t' _ ⟨hcons, hlimit, h⟩ hstep
    exact ⟨consistent_step hcons hstep, withinLimit_step hlimit hstep,
      accounted_step hcons hlimit h hstep⟩
  · exact ⟨rfl, withinLimit_new, accounted_new⟩

theorem calls_le (hcons : Consistent c.session.state c.point) (hlimit : WithinLimit ctx c)
    (h : Accounted ctx es c) : es.countP isCall ≤ attemptLimit ctx := by
  have hrefusals := h.refusals
  have hcalls := h.calls
  have hle := hlimit.le
  by_cases hcalled : ∃ username password, c.point = .verifying username password
  · have hzero := h.answers_eq_zero (not_answered_of_attempt hcons (.inr (.inl hcalled)))
    obtain ⟨username, password, hp⟩ := hcalled
    have hlt := hlimit.lt_of_point hp id
    rw [hp, unanswered] at hcalls
    omega
  · have hnone : unanswered c.point = 0 := by
      unfold unanswered
      split
      · rename_i username password hp
        exact absurd ⟨username, password, hp⟩ hcalled
      · rfl
    rcases h.answers with hzero | ⟨hone, _, hlt⟩
    · omega
    · omega

/-- The refusal that uses up the attempts is reported, and the session ends with
the notice. -/
theorem spent_run (hrun : run ctx c post = some c') (hp : c.point = .recordFailure)
    (hspent : attemptLimit ctx ≤ c.authFailures) (hmem : e ∈ post) :
    e = .failureRecorded ∨ (∃ result, e = .wrote (asBytes authMaxRetriesMsg) result) ∨
      ∃ result, e = .shutDown result := by
  cases post with
  | nil => cases hmem
  | cons e' post =>
    obtain ⟨t, hstep, hrest⟩ := Machine.run_cons.mp hrun
    have hnotice : e' = .failureRecorded ∧ lastText t.point = some authMaxRetriesMsg := by
      cases step_cases hstep with
      | maxRetries _ _ => exact ⟨rfl, rfl⟩
      | retry _ hlt =>
        exact absurd hspent (Nat.not_le_of_lt (Nat.lt_of_lt_of_le hlt (Nat.le_max_right 1 _)))
      | wrote _ hout =>
        rw [hp] at hout
        cases hout
      | shutDown _ hp' =>
        rcases hp' with hp' | hp'
        all_goals
          rw [hp] at hp'
          cases hp'
      | throttleChecked _ hp' | received _ hp' | cancelled hp' | verifyCalled hp'
      | verifyReturned _ hp' | limiterReset hp' | loginRecorded _ hp' =>
        rw [hp] at hp'
        cases hp'
    rcases List.mem_cons.mp hmem with rfl | hmem
    · exact .inl hnotice.1
    · rcases run_lastText hnotice.2 hrest with ⟨rfl, _⟩ | ⟨result, rfl, _⟩ | ⟨result, result', rfl, _⟩
      · cases hmem
      · exact .inr (.inl ⟨result, List.mem_singleton.mp hmem⟩)
      · rcases List.mem_cons.mp hmem with rfl | hmem
        · exact .inr (.inl ⟨result, rfl⟩)
        · exact .inr (.inr ⟨result', List.mem_singleton.mp hmem⟩)

/-- A connection makes at most `max 1 max_login_attempts` calls of the store. It
reports each refusal once, and resets the limiter once for an acceptance, of which
there is at most one. After the last refusal nothing is read and nothing is
written but the notice. -/
theorem attempts_accounted (hrun : run ctx (new ctx) es = some c) :
    es.countP isCall ≤ max 1 ctx.maxLoginAttempts ∧
      es.countP isReport + unreported c.point = es.countP isRefusal ∧
      es.countP isReset + unreset c.point = es.countP isAcceptance ∧
      es.countP isAcceptance ≤ 1 ∧
      ∀ pre post, es = pre ++ .verifyReturned (.ok none) :: post →
        pre.countP isRefusal + 1 = max 1 ctx.maxLoginAttempts → ∀ e ∈ post,
          e = .failureRecorded ∨ (∃ result, e = .wrote (asBytes authMaxRetriesMsg) result) ∨
            ∃ result, e = .shutDown result := by
  have hcons := consistent_run hrun
  have hlimit : WithinLimit ctx c :=
    Machine.run_invariant (fun _ _ _ h hstep => withinLimit_step h hstep) withinLimit_new hrun
  have haccounted := accounted_run hrun
  refine ⟨calls_le hcons hlimit haccounted, haccounted.reports, haccounted.resets, ?_, ?_⟩
  · rcases haccounted.answers with hzero | ⟨hone, _⟩
    · omega
    · omega
  · rintro pre post rfl hlast e hmem
    obtain ⟨t, hpre, hrest⟩ := Machine.run_append.mp hrun
    obtain ⟨t', hstep, hpost⟩ := Machine.run_cons.mp hrest
    cases step_cases hstep with
    | verifyReturned _ _ =>
      refine spent_run hpost rfl ?_ hmem
      have hcount := (accounted_run hpre).refusals
      rw [afterVerify, attemptLimit, ← hlast, hcount]

theorem attempts_accounted_secondAttempt :
    secondAttempt.countP isCall ≤ 3 ∧ secondAttempt.countP isReport = 1 ∧
      secondAttempt.countP isReset = 1 := by
  have hrun : run teaHouse (new teaHouse) secondAttempt =
      some ⟨.waiting, ⟨.worldSelection alice, teaHouse.worldRegistry⟩, 1, 4⟩ := by decide +kernel
  obtain ⟨hcalls, hreports, hresets, _⟩ := attempts_accounted hrun
  exact ⟨hcalls, hreports, hresets⟩

end Liaozhai.Net.Connection
