import Liaozhai.Auth.Earned
import Liaozhai.Server.Admission

/-!
# Turned away

An address that the limiter turns away has earned it: its clients had that many
guesses refused since one of them last logged in. This holds of every interleaving of
the handlers, whatever other addresses do to the table of the limiter meanwhile.
-/

namespace Liaozhai.Server

open Auth Net
open AuthRateLimiter (Call atSecond eventsOf failuresWithin host sinceReset)
set_option autoImplicit false

namespace Client
variable {ctx : SessionContext} {limiter limiter' : AuthRateLimiter} {client client' : Client}
  {action : Action} {ip : IpAddr}

/-- The calls of the limiter that an action is. -/
def limiterCalls (client : Client) : Action → List Call
  | .checked clock => [.isThrottled client.ip clock]
  | .reset => [.reset client.ip]
  | .failed iter clock => [.recordFailure client.ip iter clock]
  | .other _ => []

theorem act_limiter (h : client.act ctx limiter action = some (limiter', client')) :
    AuthRateLimiter.run limiter (client.limiterCalls action) = some limiter' := by
  cases action with
  | checked clock =>
    obtain ⟨_, _, ⟨⟩⟩ := Option.map_eq_some_iff.mp h
    rfl
  | reset =>
    obtain ⟨_, _, ⟨⟩⟩ := Option.map_eq_some_iff.mp h
    rfl
  | failed iter clock =>
    obtain ⟨hiter, h⟩ := Option.ite_none_right_eq_some.mp h
    obtain ⟨_, _, ⟨⟩⟩ := Option.map_eq_some_iff.mp h
    rw [limiterCalls, AuthRateLimiter.run, Machine.run_cons]
    exact ⟨_, if_pos hiter, rfl⟩
  | other e =>
    obtain ⟨_, h⟩ := Option.ite_none_left_eq_some.mp h
    obtain ⟨_, _, ⟨⟩⟩ := Option.map_eq_some_iff.mp h
    rfl

/-- A failure comes on record only by a guess that was refused before. -/
theorem act_refused (h : client.act ctx limiter action = some (limiter', client'))
    (calls : List Call) :
    (sinceReset (eventsOf ip (calls ++ client.limiterCalls action))).length +
        unreported ip client' ≤
      (sinceReset (eventsOf ip calls)).length + unreported ip client +
        if client.isFailedGuess ip action then 1 else 0 := by
  obtain ⟨hacts, hsame⟩ := act_cases h
  by_cases hip : client.ip = ip
  · rw [unreported, unreported, if_pos hip, if_pos (hsame.trans hip)]
    cases hacts with
    | checked clock hstep =>
      have hreports := (Connection.step_balanced hstep).reports
      simp only [Connection.isReport, Connection.isRefusal, Bool.false_eq_true, if_false] at hreports
      rw [limiterCalls, AuthRateLimiter.eventsOf_snoc, Call.event, Option.toList_none, List.append_nil]
      omega
    | reset hstep =>
      have hreports := (Connection.step_balanced hstep).reports
      simp only [Connection.isReport, Connection.isRefusal, Bool.false_eq_true, if_false] at hreports
      rw [limiterCalls, AuthRateLimiter.eventsOf_snoc, Call.event, if_pos hip, Option.toList_some,
        AuthRateLimiter.sinceReset_reset, List.length_nil]
      omega
    | failed iter clock hstep =>
      have hreports := (Connection.step_balanced hstep).reports
      simp only [Connection.isReport, Connection.isRefusal, Bool.false_eq_true, if_false,
        if_true] at hreports
      rw [limiterCalls, AuthRateLimiter.eventsOf_snoc, Call.event, if_pos hip, Option.toList_some,
        AuthRateLimiter.sinceReset_failure, List.length_append, List.length_singleton]
      omega
    | @other e _ hother hstep =>
      have hreports := (Connection.step_balanced hstep).reports
      have hreport : Connection.isReport e = false := by
        cases e with
        | failureRecorded => cases hother
        | _ => rfl
      rw [hreport] at hreports
      have hguess : client.isFailedGuess ip (.other e) = Connection.isRefusal e := by
        simp only [isFailedGuess, hip, true_and, Bool.decide_eq_true]
      rw [limiterCalls, List.append_nil, hguess]
      simp only [Bool.false_eq_true, if_false] at hreports
      omega
  · rw [unreported, unreported, if_neg hip, if_neg (fun h => hip (hsame.symm.trans h))]
    have hevents : eventsOf ip (calls ++ client.limiterCalls action) = eventsOf ip calls := by
      cases action with
      | checked clock =>
        rw [limiterCalls, AuthRateLimiter.eventsOf_snoc, Call.event, Option.toList_none, List.append_nil]
      | reset | failed _ _ =>
        rw [limiterCalls, AuthRateLimiter.eventsOf_snoc, Call.event, if_neg hip, Option.toList_none,
          List.append_nil]
      | other _ => rw [limiterCalls, List.append_nil]
    rw [hevents]
    exact Nat.le_add_right _ _

end Client

namespace ServerState
variable {ctx : SessionContext} {s s' s₀ : ServerState} {e : ServerEvent} {es : List ServerEvent}
  {ip : IpAddr} {maxConnections maxFailures maxEntries : Nat} {window : Duration}

def limiterCalls (s : ServerState) : ServerEvent → List Call
  | .acted id action =>
    (s.clients.processes[id]?).toList.flatMap fun client => client.limiterCalls action
  | _ => []

/-- The calls of the limiter in a run, in their order. -/
def allCalls (ctx : SessionContext) : ServerState → List ServerEvent → List Call :=
  Machine.collect (step ctx) limiterCalls

theorem step_limiter (h : step ctx s e = some s') :
    AuthRateLimiter.run s.clients.shared (s.limiterCalls e) = some s'.clients.shared := by
  cases step_cases h with
  | loop _ _ | aborted _ _ _ | accepted _ _ _ | completed _ _ _ _ _ => rfl
  | acted _ hclient hact =>
    rw [limiterCalls, hclient, Option.toList_some, List.flatMap_singleton]
    exact Client.act_limiter hact

theorem allCalls_run
    (hrun : run ctx (start maxConnections window maxFailures maxEntries) es = some s) :
    AuthRateLimiter.run (.new window maxFailures maxEntries)
      (allCalls ctx (start maxConnections window maxFailures maxEntries) es) =
        some s.clients.shared := by
  have hfollows : ∀ t e t', step ctx t e = some t' →
      Machine.run AuthRateLimiter.step t.clients.shared (t.limiterCalls e) =
        some t'.clients.shared := by
    intro t e t' hstep
    exact step_limiter hstep
  exact Machine.run_collect hfollows hrun

/-- The refused guesses of an address that are still to be reported. -/
def pendingReports (ip : IpAddr) (s : ServerState) : Nat :=
  Interleaved.load (Client.unreported ip) s.clients

theorem refused_step (calls : List Call) (h : step ctx s e = some s') :
    (sinceReset (eventsOf ip (calls ++ s.limiterCalls e))).length + s'.pendingReports ip ≤
      (sinceReset (eventsOf ip calls)).length + s.pendingReports ip +
        if failedGuess ip s e then 1 else 0 := by
  cases step_cases h with
  | loop _ _ | aborted _ _ _ | completed _ _ _ _ _ =>
    rw [limiterCalls, List.append_nil]
    · exact Nat.le_add_right _ _
    · intro id action heq
      cases heq
  | accepted new _ _ =>
    have hnew : Client.unreported ip ⟨new, .new ctx⟩ = 0 := ite_self 0
    simp only [limiterCalls, List.append_nil, pendingReports, Interleaved.load, List.map_append,
      List.map_singleton, List.sum_append, List.sum_singleton, hnew, failedGuess]
    exact Nat.le_refl _
  | @acted id action client client' limiter _ hclient hact =>
    have hsum : ((s.clients.processes.set id client').map (Client.unreported ip)).sum +
        Client.unreported ip client = (s.clients.processes.map (Client.unreported ip)).sum +
          Client.unreported ip client' := Interleaved.sum_set hclient client'
    have hrefused := @Client.act_refused _ _ _ _ _ _ ip hact calls
    have hguess : failedGuess ip s (.acted id action) = client.isFailedGuess ip action := by
      rw [failedGuess, hclient]
      rfl
    rw [hguess, limiterCalls, hclient, Option.toList_some, List.flatMap_singleton, pendingReports,
      pendingReports, Interleaved.load, Interleaved.load]
    dsimp only
    omega

/-- The failures on record since the last reset were all refused guesses. -/
theorem refused_run
    (hrun : run ctx (start maxConnections window maxFailures maxEntries) es = some s) :
    (sinceReset (eventsOf ip
        (allCalls ctx (start maxConnections window maxFailures maxEntries) es))).length +
        s.pendingReports ip ≤
      Machine.count (step ctx) (failedGuess ip)
        (start maxConnections window maxFailures maxEntries) es := by
  apply Machine.run_history (P := fun es s => (sinceReset (eventsOf ip
      (allCalls ctx (start maxConnections window maxFailures maxEntries) es))).length +
        s.pendingReports ip ≤ Machine.count (step ctx) (failedGuess ip)
          (start maxConnections window maxFailures maxEntries) es) _ _ hrun
  · intro pre t e t' hpre ih hstep
    have hnow := @refused_step _ _ _ _ ip
      (allCalls ctx (start maxConnections window maxFailures maxEntries) pre) hstep
    rw [allCalls, Machine.collect_snoc hpre, Machine.count_snoc hpre]
    rw [allCalls] at ih hnow
    omega
  · exact Nat.le_refl _

theorem isThrottled_of_turnedAway {id : Nat} {client client' : Client} {clock : Clock}
    (hstep : step ctx s (.acted id (.checked clock)) = some s')
    (hclient : s.clients.processes[id]? = some client)
    (hclient' : s'.clients.processes[id]? = some client')
    (haway : client'.connection.point = .limitedNotice) :
    (s.clients.shared.isThrottled client.ip clock).1 = true := by
  cases step_cases hstep with
  | acted _ hbefore hact =>
    obtain rfl := Option.some.inj (hclient.symm.trans hbefore)
    have hlt := (List.getElem?_eq_some_iff.mp hclient).1
    rw [List.getElem?_set_self hlt] at hclient'
    obtain rfl := Option.some.inj hclient'
    obtain ⟨_, hclient', ⟨⟩⟩ := Option.map_eq_some_iff.mp hact
    obtain ⟨c, hc, rfl⟩ := Option.map_eq_some_iff.mp hclient'
    cases Connection.step_cases hc with
    | throttleChecked throttled hp =>
      rw [Connection.goTo_point] at haway
      split at haway
      · rename_i hthrottled
        exact hthrottled
      · cases haway

/-- In every run of the server an address is turned away only after its clients had
`max_failures` guesses refused. On a clock that does not go back these are reported
within the window, since a client of the address last logged in. -/
theorem turnedAway_earned {id : Nat} {client client' : Client} {clock : Clock}
    (hrun : run ctx (start maxConnections window maxFailures maxEntries) es = some s)
    (hstep : step ctx s (.acted id (.checked clock)) = some s')
    (hclient : s.clients.processes[id]? = some client)
    (hclient' : s'.clients.processes[id]? = some client')
    (haway : client'.connection.point = .limitedNotice) :
    maxFailures ≤ Machine.count (step ctx) (failedGuess client.ip)
        (start maxConnections window maxFailures maxEntries) es ∧
      (((allCalls ctx (start maxConnections window maxFailures maxEntries) es ++
          [Call.isThrottled client.ip clock]).flatMap Call.readings).Pairwise (· ≤ ·) →
        maxFailures ≤ failuresWithin window clock.now (eventsOf client.ip
          (allCalls ctx (start maxConnections window maxFailures maxEntries) es))) := by
  have hthrottled : (s.clients.shared.isThrottled client.ip clock).1 = true :=
    isThrottled_of_turnedAway hstep hclient hclient' haway
  have hcalls := allCalls_run hrun
  refine ⟨?_, ?_⟩
  · have hmax := (AuthRateLimiter.settings_run hcalls).2
    have hrefused := @refused_run _ _ _ client.ip _ _ _ _ hrun
    calc maxFailures
      _ ≤ (s.clients.shared.recent client.ip clock).length :=
        hmax ▸ AuthRateLimiter.maxFailures_le_recent hthrottled
      _ ≤ (s.clients.shared.onRecord client.ip).length := AuthRateLimiter.recent_suffix.length_le
      _ ≤ (sinceReset (eventsOf client.ip
            (allCalls ctx (start maxConnections window maxFailures maxEntries) es))).length :=
        (AuthRateLimiter.onRecord_suffix_run hcalls client.ip).length_le
      _ ≤ Machine.count (step ctx) (failedGuess client.ip)
            (start maxConnections window maxFailures maxEntries) es :=
        Nat.le_trans (Nat.le_add_right _ _) hrefused
  · intro hordered
    exact AuthRateLimiter.failuresWithin_of_isThrottled hordered hcalls hthrottled

/-- The first client fails once, and the second is turned away for it. -/
theorem turnedAway_earned_second :
    1 ≤ Machine.count (step ⟨⟨[]⟩, 1⟩) (failedGuess (host 1)) (start 1 60000000000 1 10)
        (.accepted (host 1) :: failsOnce 0 [] (atSecond 101) ++ [.accepted (host 1)]) ∧
      1 ≤ failuresWithin 60000000000 102000000000 (eventsOf (host 1)
        (allCalls ⟨⟨[]⟩, 1⟩ (start 1 60000000000 1 10)
          (.accepted (host 1) :: failsOnce 0 [] (atSecond 101) ++ [.accepted (host 1)]))) := by
  have hsome : ((run ⟨⟨[]⟩, 1⟩ (start 1 60000000000 1 10)
      (.accepted (host 1) :: failsOnce 0 [] (atSecond 101) ++ [.accepted (host 1)])).bind fun s =>
        (step ⟨⟨[]⟩, 1⟩ s (.acted 1 (.checked (atSecond 102)))).bind fun s' =>
          (s.clients.processes[1]?).bind fun client => (s'.clients.processes[1]?).map fun client' =>
            (client.ip, client'.connection.point)) = some (host 1, .limitedNotice) := by
    decide +kernel
  obtain ⟨s, hrun, hsome⟩ := Option.bind_eq_some_iff.mp hsome
  obtain ⟨s', hstep, hsome⟩ := Option.bind_eq_some_iff.mp hsome
  obtain ⟨client, hclient, hsome⟩ := Option.bind_eq_some_iff.mp hsome
  obtain ⟨client', hclient', hpair⟩ := Option.map_eq_some_iff.mp hsome
  obtain ⟨hip, haway⟩ := Prod.mk.inj hpair
  obtain ⟨hrefused, hwithin⟩ := turnedAway_earned hrun hstep hclient hclient' haway
  rw [hip] at hrefused hwithin
  refine ⟨hrefused, hwithin ?_⟩
  decide +kernel

end ServerState

end Liaozhai.Server
