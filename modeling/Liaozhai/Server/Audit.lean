import Liaozhai.Net.Audit
import Liaozhai.Net.Farewell
import Liaozhai.Server.Logins

/-!
# The audit trail of the service

The entries about logins in the log of the server are complete and true: the account
store was asked about what a client typed, and its answer was right.
-/

namespace Liaozhai.Server.Service

open Auth Constants Net
open Net.Connection (Attempt logs)
open StoreCall (drawn)
open Utf8Lossy (asBytes)
set_option autoImplicit false

universe u v

variable {Hash : Type u} {Salt : Type v} {ctx : SessionContext} {argon2 : Argon2 Hash Salt}
  {s s₀ : Service Hash} {es : List (ServiceEvent Salt)} {id : Nat} {client : Client}
  {cfg : AppConfig} {dummyHash : Hash} {earlier : List (StoreCall Salt)}
  {username password : String}

/-- What a handler has logged in a run. -/
def logOf (ctx : SessionContext) (argon2 : Argon2 Hash Salt) (who : Identity) (s₀ : Service Hash)
    (es : List (ServiceEvent Salt)) (id : Nat) : List LogEvent :=
  logs ctx who (.new ctx) (handled ctx argon2 s₀ es id)

/-- A question to the store is about what was typed at the prompts. -/
theorem attempt_of_asked {events before since : List Net.Event} {c : Connection}
    (hrun : Connection.run ctx (.new ctx) events = some c)
    (hevents : events = before ++ .verifyCalled username password :: since) :
    Attempt ctx events username password
      (.wrote iacWontEcho (.ok ()) :: .verifyCalled username password :: since) := by
  rw [List.append_cons] at hevents
  subst hevents
  obtain ⟨asked, hasked, _⟩ := Machine.run_append.mp hrun
  obtain ⟨_, _, hlast⟩ := Machine.run_snoc.mp hasked
  have htold := (Connection.told_run hasked).1
  rw [Connection.point_verifyCalled hlast] at htold
  obtain ⟨typed, text, htyped, hrest⟩ := htold
  refine ⟨typed, text, ?_, hrest⟩
  rw [htyped, List.append_assoc]
  rfl

/-- An entry that is right: the client typed, at the prompts of one attempt, the name in
it, and the accounts had what it says for that name and the typed password while the
handler waited for the answer. -/
def Truthful (ctx : SessionContext) (argon2 : Argon2 Hash Salt) (dummyHash : Hash)
    (earlier : List (StoreCall Salt)) (who : Identity) (s₀ : Service Hash)
    (es : List (ServiceEvent Salt)) (id : Nat) (entry : LogEvent) : Prop :=
  ∃ asked username password result tail,
    handled ctx argon2 s₀ es id =
      asked ++ .verifyCalled username password :: .verifyReturned (.ok result) :: tail ∧
    Attempt ctx (handled ctx argon2 s₀ es id) username password
      (.wrote iacWontEcho (.ok ()) :: .verifyCalled username password ::
        .verifyReturned (.ok result) :: tail) ∧
    LeftBy who username entry result ∧
    Decided ctx argon2 dummyHash earlier s₀ es id asked username password result

/-- The handler has returned. -/
def IsClosed (server : ServerState) (id : Nat) : Prop :=
  ∃ client result, server.clients.processes[id]? = some client ∧
    client.connection.point = .closed result

theorem isClosed_step {server server' : ServerState} {e : ServerEvent} (h : IsClosed server id)
    (hstep : server.step ctx e = some server') : IsClosed server' id := by
  obtain ⟨client, result, hclient, hclosed⟩ := h
  rcases handler_step hstep id with ⟨action, before, after, _, hbefore, _, hact⟩ | ⟨_, hsame | hnew⟩
  · obtain rfl := Option.some.inj (hclient.symm.trans hbefore)
    exact absurd (Client.event_step hact) (Connection.step_closed hclosed)
  · exact ⟨client, result, hsame.trans hclient, hclosed⟩
  · rw [hclient] at hnew
    cases hnew.1

theorem isClosed_of_completed {server server' : ServerState} {outcome : Outcome}
    (hstep : server.step ctx (.completed id outcome) = some server')
    (hreturned : outcome ≠ .panic) : IsClosed server' id := by
  obtain ⟨hend, hloop⟩ := Option.ite_none_right_eq_some.mp hstep
  obtain ⟨_, _, rfl⟩ := Option.map_eq_some_iff.mp hloop
  obtain ⟨client, hclient, hend⟩ := (Option.any_eq_true ..).mp hend
  obtain ⟨result, hclosed⟩ := closed_of_mayEnd hend hreturned
  exact ⟨client, result, hclient, hclosed⟩

/-- A handler whose task has completed without a panic is closed for good. -/
theorem isClosed_run {outcome : Outcome} (hrun : run ctx argon2 s₀ es = some s)
    (hreturned : outcome ≠ .panic) (hmem : .server (.completed id outcome) ∈ es) :
    IsClosed s.server id := by
  have hall := Machine.run_history (P := fun es s => .server (.completed id outcome) ∈ es →
    IsClosed s.server id) ?_ ?_ hrun
  · exact hall hmem
  · intro es t e t' _ ih hstep hmem
    cases step_cases hstep with
    | server _ hserver _ =>
      rcases List.mem_append.mp hmem with hold | hnew
      · exact isClosed_step (ih hold) hserver
      · obtain ⟨⟩ := List.mem_singleton.mp hnew
        exact isClosed_of_completed hserver hreturned
    | signalled | loginCalled _ _ _ _ | performed _ | created _ | declined _ =>
      rcases List.mem_append.mp hmem with hold | hnew
      · exact ih hold
      · cases List.mem_singleton.mp hnew
  · exact fun hnil => absurd hnil List.not_mem_nil

/-- The log is an audit trail. Each answer of the account store to a handler leaves one
entry, in order, but for the last one, which can still be due. A handler that has
returned has written it too; one that panics, or is aborted while it records a login, may
never write it. Every entry is true. -/
theorem audit_trail (who : Identity) (hargon : argon2.Exact) (htotal : argon2.Total)
    (hs₀ : s₀ = start argon2 cfg dummyHash earlier) (hrun : run ctx argon2 s₀ es = some s)
    (hfresh : (drawn (history ctx argon2 earlier s₀ es)).Nodup)
    (hclient : s.server.clients.processes[id]? = some client) :
    (logOf ctx argon2 who s₀ es id).filter isVerdict ++ client.connection.due who =
        verdicts who (handled ctx argon2 s₀ es id) ∧
      (client.connection.due who).length ≤ 1 ∧
      (∀ outcome, outcome ≠ .panic → .server (.completed id outcome) ∈ es →
        client.connection.due who = []) ∧
      ∀ entry ∈ logOf ctx argon2 who s₀ es id, isVerdict entry = true →
        Truthful ctx argon2 dummyHash earlier who s₀ es id entry := by
  have hhandles := handled_run (hs₀ ▸ rfl) hrun id
  rw [hclient] at hhandles
  have hexact : (logOf ctx argon2 who s₀ es id).filter isVerdict ++ client.connection.due who =
      verdicts who (handled ctx argon2 s₀ es id) := Connection.audit_exact hhandles
  refine ⟨hexact, Connection.due_length_le who client.connection, ?_, ?_⟩
  · intro outcome hreturned hmem
    obtain ⟨closed, result, hclosed, hp⟩ := isClosed_run hrun hreturned hmem
    obtain rfl := Option.some.inj (hclient.symm.trans hclosed)
    rw [Connection.due, hp]
  intro entry hentry hverdict
  have hmem : entry ∈ verdicts who (handled ctx argon2 s₀ es id) := by
    rw [← hexact]
    exact List.mem_append_left _ (List.mem_filter.mpr ⟨hentry, hverdict⟩)
  obtain ⟨asked, username, password, result, tail, hevents, hleft⟩ := mem_verdicts hmem
  exact ⟨asked, username, password, result, tail, hevents, attempt_of_asked hhandles hevents, hleft,
    answered_run hargon htotal hs₀ hrun hfresh hevents⟩

/-- Alice picks no world, and her handler returns. -/
def aliceQuits : List (ServiceEvent Unit) :=
  aliceLogsIn ++
    firstActs [.other (.received (some (.ok (.line "quit")))),
      .other (.wrote (asBytes goodbyeMsg) (.ok ())), .other (.shutDown (.ok ()))] ++
    [.server (.completed 0 .normal)]

theorem audit_trail_alice :
    (logOf ⟨⟨[]⟩, 3⟩ AccountStore.clear ⟨"c1", "10.0.0.1"⟩ freshService aliceQuits 0).filter
        isVerdict =
      verdicts ⟨"c1", "10.0.0.1"⟩
        (handled ⟨⟨[]⟩, 3⟩ AccountStore.clear freshService aliceQuits 0) ∧
      Truthful ⟨⟨[]⟩, 3⟩ AccountStore.clear "" [] ⟨"c1", "10.0.0.1"⟩ freshService aliceQuits 0
        (Identity.accepted ⟨"c1", "10.0.0.1"⟩ "alice") := by
  have hsome : ((run ⟨⟨[]⟩, 3⟩ AccountStore.clear freshService aliceQuits).bind fun s =>
      s.server.clients.processes[0]?).isSome = true := by
    decide +kernel
  obtain ⟨client, hsome⟩ := Option.isSome_iff_exists.mp hsome
  obtain ⟨s, hrun, hclient⟩ := Option.bind_eq_some_iff.mp hsome
  obtain ⟨hexact, _, hreturned, htruthful⟩ := audit_trail ⟨"c1", "10.0.0.1"⟩
    AccountStore.clear_exact (fun password _ => ⟨password, rfl⟩) rfl hrun (by decide +kernel) hclient
  have hwritten := hreturned .normal nofun (List.mem_append_right _ List.mem_cons_self)
  rw [hwritten, List.append_nil] at hexact
  have haccepted : Identity.accepted ⟨"c1", "10.0.0.1"⟩ "alice" ∈
      (logOf ⟨⟨[]⟩, 3⟩ AccountStore.clear ⟨"c1", "10.0.0.1"⟩ freshService aliceQuits 0).filter
        isVerdict := by
    decide +kernel
  obtain ⟨hmem, hverdict⟩ := List.mem_filter.mp haccepted
  exact ⟨hexact, htruthful _ hmem hverdict⟩

end Liaozhai.Server.Service
