import Liaozhai.Auth.Refinement
import Liaozhai.Library.Calls
import Liaozhai.Server.Accounts
import Liaozhai.Server.Admission

/-!
# The service

All of `run`: the accept loop with its handlers and their rate limiter, the account
store they share, and the token that shuts them down. A call of the store is a
blocking task, which takes the mutex at some moment, even when its handler is gone
by then. Meanwhile another process may create accounts in the same database.
-/

namespace Liaozhai.Server

open Auth Net
open Calls (Pool Task)
open RustString (trim)
set_option autoImplicit false

universe u v

deriving instance DecidableEq for StoreReply

/-- What a handler asks of the account store. -/
inductive Request where
  | verifyCredentials (username password : String)
  | recordLogin (id : AccountId)
  deriving DecidableEq

/-- The call under the mutex; `unix_now()` is read there. -/
def Request.call {Salt : Type v} : Request → Int → StoreCall Salt
  | .verifyCredentials username password, _ => .verifyCredentials username password
  | .recordLogin id, now => .recordLogin id now

abbrev StorePool (Hash : Type u) := Pool (AccountStore Hash) Request StoreReply

/-- The part of the configuration that the service is started with. -/
structure AppConfig where
  maxConnections : Nat
  rateLimitWindow : Duration
  rateLimitMaxFailures : Nat
  rateLimiterMaxEntries : Nat

structure Service (Hash : Type u) where
  server : ServerState
  store : StorePool Hash
  cancelled : Bool

inductive ServiceEvent (Salt : Type v) where
  | signalled
  | server (e : ServerEvent)
  | loginCalled (id : Nat)
  | performed (id : Nat) (now : Int)
  | accountCreated (username password confirm : String) (salt : Salt) (id : AccountId) (now : Int)

/-- Each `select!` is biased: it looks at the token first. -/
def allowed (cancelled : Bool) : ServerEvent → Bool
  | .loop .shutdown | .acted _ (.other .cancelled) => cancelled
  | .loop .acceptFailed | .loop .refused | .accepted _ | .acted _ (.other (.received _)) =>
    !cancelled
  | _ => true

/-- What an event of the server is for the tasks of the store. -/
def follow {Hash : Type u} (store : StorePool Hash) : ServerEvent → Option (StorePool Hash)
  | .acted id (.other (.verifyCalled username password)) =>
    store.invoke id (.verifyCredentials username password)
  | .acted id (.other (.verifyReturned (.ok result))) =>
    if store.reply? id = some (.verified result) then some (store.forget id) else none
  | .acted id (.other (.loginRecorded _ (.ok _))) =>
    if store.reply? id = some .recorded then some (store.forget id) else none
  -- an error of the database or of the task
  | .acted id (.other (.verifyReturned (.error _)))
  | .acted id (.other (.loginRecorded _ (.error _))) =>
    if (store.tasks id).isSome then some (store.forget id) else none
  | _ => some store

/-- The checks of `AccountAction::Create` before it calls the store. -/
def Asked (username password confirm : String) : Prop :=
  trim username ≠ "" ∧ password = confirm ∧ password ≠ ""

instance (username password confirm : String) : Decidable (Asked username password confirm) :=
  inferInstanceAs (Decidable (_ ∧ _ ∧ _))

/-- The event of the handler that an action is. -/
def Client.event (limiter : AuthRateLimiter) (client : Client) : Action → Net.Event
  | .checked clock => .throttleChecked (limiter.isThrottled client.ip clock).1
  | .reset => .limiterReset
  | .failed _ _ => .failureRecorded
  | .other e => e

theorem Client.event_step {ctx : SessionContext} {limiter limiter' : AuthRateLimiter}
    {client client' : Client} {action : Action}
    (h : client.act ctx limiter action = some (limiter', client')) :
    client.connection.step ctx (client.event limiter action) = some client'.connection := by
  have hacts := (Client.act_cases h).1
  generalize client'.connection = connection' at hacts
  cases hacts with
  | checked clock hstep => exact hstep
  | reset hstep => exact hstep
  | failed iter clock hstep => exact hstep
  | other _ hstep => exact hstep

namespace Service
variable {Hash : Type u} {Salt : Type v} (ctx : SessionContext) (argon2 : Argon2 Hash Salt)

/-- The account whose login the handler is about to record. -/
def loginOf (s : Service Hash) (id : Nat) : Option AccountId :=
  (s.server.clients.processes[id]?).bind fun client =>
    match client.connection.point with
    | .recordLogin account => some account.id
    | _ => none

def step (s : Service Hash) : ServiceEvent Salt → Option (Service Hash)
  | .signalled => some { s with cancelled := true }
  | .server e =>
    if allowed s.cancelled e then
      (s.server.step ctx e).bind fun server =>
        (follow s.store e).map fun store => { s with server, store }
    else none
  | .loginCalled id =>
    if id ∈ s.server.loop.running then
      (s.loginOf id).bind fun account =>
        (s.store.invoke id (.recordLogin account)).map fun store => { s with store }
    else none
  | .performed id now =>
    (s.store.perform (AccountStore.call argon2) Request.call id now).map fun store =>
      { s with store }
  | .accountCreated username password confirm salt id now =>
    match create argon2 s.store.object username password confirm salt id now with
    | .ok (object, _) => some { s with store := { s.store with object } }
    | .error _ => some s

def run : Service Hash → List (ServiceEvent Salt) → Option (Service Hash) :=
  Machine.run (step ctx argon2)

/-- A fresh server on a database as some earlier calls left it. -/
def start (cfg : AppConfig) (dummyHash : Hash) (earlier : List (StoreCall Salt)) : Service Hash :=
  ⟨.start cfg.maxConnections cfg.rateLimitWindow cfg.rateLimitMaxFailures cfg.rateLimiterMaxEntries,
    ⟨Calls.after (AccountStore.call argon2) (.opened dummyHash) earlier, fun _ => none⟩, false⟩

/-- The calls that an event makes under the mutex. -/
def callsOf (s : Service Hash) : ServiceEvent Salt → List (StoreCall Salt)
  | .performed id now =>
    match s.store.tasks id with
    | some (.queued request) => [request.call now]
    | _ => []
  | .accountCreated username password confirm salt id now =>
    if Asked username password confirm then [.createAccount (trim username) password salt id now]
    else []
  | _ => []

/-- What the handler does in a step. -/
def eventOf (s : Service Hash) (id : Nat) : ServiceEvent Salt → List Net.Event
  | .server (.acted actor action) =>
    if actor = id then
      (s.server.clients.processes[id]?).toList.map fun client =>
        client.event s.server.clients.shared action
    else []
  | _ => []

/-- What the handler has done in a run. -/
def handled (s : Service Hash) (es : List (ServiceEvent Salt)) (id : Nat) : List Net.Event :=
  Machine.collect (step ctx argon2) (fun s e => s.eventOf id e) s es

/-- All calls on the database, those of the run after the earlier ones. -/
def history (earlier : List (StoreCall Salt)) (s : Service Hash) (es : List (ServiceEvent Salt)) :
    List (StoreCall Salt) :=
  earlier ++ Machine.collect (step ctx argon2) callsOf s es

variable {ctx argon2} {s s' : Service Hash} {e : ServiceEvent Salt}
  {es : List (ServiceEvent Salt)} {id : Nat}

/-- All the steps there are. -/
inductive Takes (ctx : SessionContext) (argon2 : Argon2 Hash Salt) (s : Service Hash) :
    ServiceEvent Salt → Service Hash → Prop where
  | signalled : Takes ctx argon2 s .signalled ⟨s.server, s.store, true⟩
  | server {e : ServerEvent} {server : ServerState} {store : StorePool Hash} :
      allowed s.cancelled e = true → s.server.step ctx e = some server →
      follow s.store e = some store → Takes ctx argon2 s (.server e) ⟨server, store, s.cancelled⟩
  | loginCalled {id : Nat} {client : Client} {account : Account} {store : StorePool Hash} :
      id ∈ s.server.loop.running → s.server.clients.processes[id]? = some client →
      client.connection.point = .recordLogin account →
      s.store.invoke id (.recordLogin account.id) = some store →
      Takes ctx argon2 s (.loginCalled id) ⟨s.server, store, s.cancelled⟩
  | performed {id : Nat} {now : Int} {store : StorePool Hash} :
      s.store.perform (AccountStore.call argon2) Request.call id now = some store →
      Takes ctx argon2 s (.performed id now) ⟨s.server, store, s.cancelled⟩
  | created {username password confirm : String} {salt : Salt} {id : AccountId} {now : Int} :
      Asked username password confirm →
      Takes ctx argon2 s (.accountCreated username password confirm salt id now)
        ⟨s.server, s.store.perturb (AccountStore.call argon2)
          (.createAccount (trim username) password salt id now), s.cancelled⟩
  | declined {username password confirm : String} {salt : Salt} {id : AccountId} {now : Int} :
      ¬ Asked username password confirm →
      Takes ctx argon2 s (.accountCreated username password confirm salt id now) s

/-- `account create` either declines or makes the one call. -/
theorem create_cases (store : AccountStore Hash) (username password confirm : String) (salt : Salt)
    (id : AccountId) (now : Int) :
    (Asked username password confirm ∧
      create argon2 store username password confirm salt id now =
        store.createAccount argon2 (trim username) password salt id now) ∨
    (¬ Asked username password confirm ∧
      ∃ e, create argon2 store username password confirm salt id now = .error e) := by
  simp only [create, Asked]
  split_ifs with hname hconfirm hpassword
  · exact .inr ⟨fun h => h.1 hname, _, rfl⟩
  · exact .inr ⟨fun h => hconfirm h.2.1, _, rfl⟩
  · exact .inr ⟨fun h => h.2.2 hpassword, _, rfl⟩
  · exact .inl ⟨⟨hname, not_not.mp hconfirm, hpassword⟩, rfl⟩

theorem step_cases (h : step ctx argon2 s e = some s') : Takes ctx argon2 s e s' := by
  cases e with
  | signalled =>
    obtain rfl := Option.some.inj h
    exact .signalled
  | server e =>
    obtain ⟨hallowed, h⟩ := Option.ite_none_right_eq_some.mp h
    obtain ⟨server, hserver, h⟩ := Option.bind_eq_some_iff.mp h
    obtain ⟨store, hstore, rfl⟩ := Option.map_eq_some_iff.mp h
    exact .server hallowed hserver hstore
  | loginCalled id =>
    obtain ⟨hrunning, h⟩ := Option.ite_none_right_eq_some.mp h
    obtain ⟨account, haccount, h⟩ := Option.bind_eq_some_iff.mp h
    obtain ⟨store, hstore, rfl⟩ := Option.map_eq_some_iff.mp h
    obtain ⟨client, hclient, hpoint⟩ := Option.bind_eq_some_iff.mp haccount
    split at hpoint
    · rename_i hp
      obtain rfl := Option.some.inj hpoint
      exact .loginCalled hrunning hclient hp hstore
    · cases hpoint
  | performed id now =>
    obtain ⟨store, hstore, rfl⟩ := Option.map_eq_some_iff.mp h
    exact .performed hstore
  | accountCreated username password confirm salt id now =>
    rcases @create_cases _ _ argon2 s.store.object username password confirm salt id now with
      ⟨hasked, hcreate⟩ | ⟨hdeclined, message, hcreate⟩
    · have hcall : (s.store.object.call argon2
          (.createAccount (trim username) password salt id now)).1 = s'.store.object ∧
          s' = { s with store := { s.store with object := s'.store.object } } := by
        cases hmade : s.store.object.createAccount argon2 (trim username) password salt id now with
        | ok made =>
          simp only [step, hcreate, hmade] at h
          obtain rfl := Option.some.inj h
          simp only [AccountStore.call, hmade, and_self]
        | error message =>
          simp only [step, hcreate, hmade] at h
          obtain rfl := Option.some.inj h
          simp only [AccountStore.call, hmade, and_self]
      rw [hcall.2, ← hcall.1]
      exact .created hasked
    · simp only [step, hcreate] at h
      obtain rfl := Option.some.inj h
      exact .declined hdeclined

/-- A handler after a step of the server: it acted, or it is as it was, or it has
just been spawned. -/
theorem handler_step {server server' : ServerState} {e : ServerEvent}
    (h : server.step ctx e = some server') (id : Nat) :
    (∃ action client client', e = .acted id action ∧
        server.clients.processes[id]? = some client ∧
        server'.clients.processes[id]? = some client' ∧
        client.act ctx server.clients.shared action = some (server'.clients.shared, client')) ∨
      (∀ action, e ≠ .acted id action) ∧
        (server'.clients.processes[id]? = server.clients.processes[id]? ∨
          server.clients.processes[id]? = none ∧
            ∃ ip, server'.clients.processes[id]? = some ⟨ip, .new ctx⟩) := by
  cases ServerState.step_cases h with
  | loop _ _ | aborted _ _ _ | completed _ _ _ _ _ => exact .inr ⟨nofun, .inl rfl⟩
  | accepted ip _ _ =>
    refine .inr ⟨nofun, ?_⟩
    rcases Nat.lt_trichotomy id server.clients.processes.length with hlt | heq | hgt
    · exact .inl (List.getElem?_append_left hlt)
    · subst heq
      exact .inr ⟨List.getElem?_eq_none (Nat.le_refl _), ip, List.getElem?_concat_length⟩
    · left
      have hlong : (server.clients.processes ++ [(⟨ip, .new ctx⟩ : Client)]).length ≤ id := by
        rw [List.length_append, List.length_singleton]
        exact hgt
      rw [List.getElem?_eq_none hlong, List.getElem?_eq_none (Nat.le_of_lt hgt)]
  | @acted actor action client client' limiter hrunning hbefore hact =>
    by_cases hid : actor = id
    · subst hid
      have hlt := (List.getElem?_eq_some_iff.mp hbefore).1
      exact .inl ⟨action, client, client', rfl, hbefore, List.getElem?_set_self hlt, hact⟩
    · refine .inr ⟨?_, .inl (List.getElem?_set_ne hid)⟩
      intro other heq
      injection heq with hsame _
      exact hid hsame

theorem handled_snoc {s₀ : Service Hash} (hrun : run ctx argon2 s₀ es = some s) :
    handled ctx argon2 s₀ (es ++ [e]) id = handled ctx argon2 s₀ es id ++ s.eventOf id e :=
  Machine.collect_snoc hrun

theorem eventOf_acted {client : Client} {action : Action}
    (h : s.server.clients.processes[id]? = some client) :
    s.eventOf id (.server (.acted id action) : ServiceEvent Salt) =
      [client.event s.server.clients.shared action] := by
  rw [eventOf, if_pos rfl, h]
  rfl

theorem eventOf_eq_nil (h : ∀ action, e ≠ .server (.acted id action)) : s.eventOf id e = [] := by
  cases e with
  | server e =>
    cases e with
    | acted actor action =>
      apply if_neg
      intro hactor
      exact h action (hactor ▸ rfl)
    | loop _ | accepted _ | completed _ _ => rfl
  | signalled | loginCalled _ | performed _ _ | accountCreated _ _ _ _ _ _ => rfl

/-- What a run of the service has made of a handler. -/
def Handles (ctx : SessionContext) (events : List Net.Event) (handler : Option Client) : Prop :=
  match handler with
  | none => events = []
  | some client => Connection.run ctx (.new ctx) events = some client.connection

theorem handles_step {events : List Net.Event}
    (h : Handles ctx events (s.server.clients.processes[id]?))
    (hstep : step ctx argon2 s e = some s') :
    Handles ctx (events ++ s.eventOf id e) (s'.server.clients.processes[id]?) := by
  have hidle : (∀ action, e ≠ .server (.acted id action)) →
      s'.server.clients.processes[id]? = s.server.clients.processes[id]? →
      Handles ctx (events ++ s.eventOf id e) (s'.server.clients.processes[id]?) := by
    intro hnot hsame
    rw [eventOf_eq_nil hnot, List.append_nil, hsame]
    exact h
  cases step_cases hstep with
  | server _ hserver _ =>
    rcases handler_step hserver id with
      ⟨action, client, client', rfl, hclient, hclient', hact⟩ | ⟨hnot, hsame | ⟨hnone, ip, hnew⟩⟩
    · rw [hclient] at h
      rw [eventOf_acted hclient, hclient']
      exact Machine.run_snoc.mpr ⟨client.connection, h, Client.event_step hact⟩
    · refine hidle ?_ hsame
      rintro action ⟨⟩
      exact hnot action rfl
    · rw [hnone] at h
      obtain rfl : events = [] := h
      rw [hnew, eventOf_eq_nil]
      · rfl
      · rintro action ⟨⟩
        exact hnot action rfl
  | signalled | loginCalled _ _ _ _ | performed _ | created _ | declined _ => exact hidle nofun rfl

/-- What a handler did in a run of the service is a run of the handler. -/
theorem handled_run {s₀ : Service Hash} (hs₀ : s₀.server.clients.processes = [])
    (hrun : run ctx argon2 s₀ es = some s) (id : Nat) :
    Handles ctx (handled ctx argon2 s₀ es id) (s.server.clients.processes[id]?) := by
  refine Machine.run_history (P := fun es s => Handles ctx (handled ctx argon2 s₀ es id)
    (s.server.clients.processes[id]?)) ?_ ?_ hrun
  · intro es t e t' hbefore h hstep
    rw [handled_snoc hbefore]
    exact handles_step h hstep
  · rw [hs₀]
    rfl

theorem history_snoc {s₀ : Service Hash} {earlier : List (StoreCall Salt)}
    (hrun : run ctx argon2 s₀ es = some s) :
    history ctx argon2 earlier s₀ (es ++ [e]) = history ctx argon2 earlier s₀ es ++ s.callsOf e := by
  rw [history, Machine.collect_snoc hrun, ← List.append_assoc]
  rfl

end Service

end Liaozhai.Server
