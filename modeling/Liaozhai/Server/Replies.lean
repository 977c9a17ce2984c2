import Liaozhai.Server.Service

/-!
# Replies of the account store

Where the tasks of the store stand with the handlers that wait for them, and that
the answer a handler gets is the right one: that of the map of accounts at some
moment between its call and its return, whatever the other handlers and the other
process do meanwhile.
-/

namespace Liaozhai.Server

open Auth Constants Net
open Auth.AuthRateLimiter (atSecond host)
open Calls (Linear Task)
open RustString (trim)
open StoreCall (drawn)
open Utf8Lossy (asBytes)
set_option autoImplicit false

universe u v

/-- The events of a handler that bring back an answer of the account store. -/
def isReturn : Net.Event → Bool
  | .verifyReturned _ | .loginRecorded _ _ => true
  | _ => false

/-- All that an event of the server can be for the tasks. -/
inductive Follows {Hash : Type u} (store : StorePool Hash) : ServerEvent → StorePool Hash → Prop where
  | called {id : Nat} {username password : String} {store' : StorePool Hash} :
      store.invoke id (.verifyCredentials username password) = some store' →
      Follows store (.acted id (.other (.verifyCalled username password))) store'
  | returned {id : Nat} {e : Net.Event} : isReturn e = true →
      (∀ result, e = .verifyReturned (.ok result) → store.reply? id = some (.verified result)) →
      Follows store (.acted id (.other e)) (store.forget id)
  | other {e : ServerEvent} :
      (∀ id e', e = .acted id (.other e') → isReturn e' = false ∧ ∀ u p, e' ≠ .verifyCalled u p) →
      Follows store e store

theorem follow_cases {Hash : Type u} {store store' : StorePool Hash} {e : ServerEvent}
    (h : follow store e = some store') : Follows store e store' := by
  unfold follow at h
  split at h
  · exact .called h
  · obtain ⟨hreply, ⟨⟩⟩ := Option.ite_none_right_eq_some.mp h
    refine .returned rfl ?_
    rintro _ ⟨⟩
    exact hreply
  · obtain ⟨_, ⟨⟩⟩ := Option.ite_none_right_eq_some.mp h
    exact .returned rfl nofun
  · obtain ⟨_, ⟨⟩⟩ := Option.ite_none_right_eq_some.mp h
    exact .returned rfl nofun
  · obtain ⟨_, ⟨⟩⟩ := Option.ite_none_right_eq_some.mp h
    exact .returned rfl nofun
  · rename_i hcalled hverified hrecorded hfailed hfailed'
    obtain rfl := Option.some.inj h
    refine .other ?_
    rintro id e' rfl
    cases e' with
    | verifyCalled username password => exact absurd rfl (hcalled id username password)
    | verifyReturned result =>
      cases result with
      | ok result => exact absurd rfl (hverified id result)
      | error message => exact absurd rfl (hfailed id message)
    | loginRecorded account result =>
      cases result with
      | ok result => exact absurd rfl (hrecorded id account result)
      | error message => exact absurd rfl (hfailed' id account message)
    | throttleChecked _ | wrote _ _ | shutDown _ | received _ | cancelled | limiterReset
    | failureRecorded => exact ⟨rfl, nofun⟩

theorem Follows.tasks_ne {Hash : Type u} {store store' : StorePool Hash} {e : ServerEvent} {id : Nat}
    (h : Follows store e store') (hother : ∀ action, e ≠ .acted id action) :
    store'.tasks id = store.tasks id := by
  cases h with
  | @called actor _ _ _ hinvoke =>
    obtain ⟨_, rfl⟩ := Calls.Pool.invoke_eq hinvoke
    apply Calls.Pool.set_tasks_ne
    rintro rfl
    exact hother _ rfl
  | @returned actor _ _ _ =>
    apply Calls.Pool.set_tasks_ne
    rintro rfl
    exact hother _ rfl
  | other _ => rfl

namespace Service
variable {Hash : Type u} {Salt : Type v} {ctx : SessionContext} {argon2 : Argon2 Hash Salt}
  {s s' : Service Hash} {e : ServiceEvent Salt} {es : List (ServiceEvent Salt)} {id : Nat}

/-! ### The tasks and their handlers -/

/-- The point of a handler that waits for the request. -/
def Awaits : Point → Request → Prop
  | .verifying username password, request => request = .verifyCredentials username password
  | .recordLogin account, request => request = .recordLogin account.id
  | _, _ => False

/-- A task is for what its handler waits for, and a handler that waits for a
verification has a task. -/
def Fits : Option (Task Request StoreReply) → Option Client → Prop
  | some task, some client => Awaits client.connection.point task.request
  | some _, none => False
  | none, some client => ∀ username password, client.connection.point ≠ .verifying username password
  | none, none => True

theorem fits_of_fresh {task : Option (Task Request StoreReply)} {ip : IpAddr}
    (h : Fits task none) : Fits task (some ⟨ip, .new ctx⟩) := by
  cases task with
  | some _ => exact h.elim
  | none => exact nofun

/-- A handler that waits for the store goes on with its answer only. -/
theorem isReturn_of_awaits {c c' : Connection} {e : Net.Event} {request : Request}
    (hawaits : Awaits c.point request) (h : c.step ctx e = some c') : isReturn e = true := by
  cases Connection.step_cases h with
  | verifyReturned _ _ | loginRecorded _ _ => rfl
  | shutDown _ hp =>
    rcases hp with hp | hp
    · rw [hp] at hawaits
      exact hawaits.elim
    · rw [hp] at hawaits
      exact hawaits.elim
  | wrote _ hout =>
    exfalso
    unfold Awaits at hawaits
    split at hawaits
    · rename_i hp
      rw [hp] at hout
      cases hout
    · rename_i hp
      rw [hp] at hout
      cases hout
    · exact hawaits
  | throttleChecked _ hp | received _ hp | cancelled hp | verifyCalled hp | limiterReset hp
  | maxRetries hp _ | retry hp _ =>
    rw [hp] at hawaits
    exact hawaits.elim

theorem fits_server {server server' : ServerState} {store store' : StorePool Hash} {e : ServerEvent}
    (h : Fits (store.tasks id) (server.clients.processes[id]?))
    (hserver : server.step ctx e = some server') (hfollow : Follows store e store') :
    Fits (store'.tasks id) (server'.clients.processes[id]?) := by
  rcases handler_step hserver id with
    ⟨action, client, client', rfl, hclient, hclient', hact⟩ | ⟨hnot, hsame | ⟨hnone, ip, hnew⟩⟩
  · have hstep := Client.event_step hact
    rw [hclient] at h
    rw [hclient']
    cases hfollow with
    | @called _ username password _ hinvoke =>
      obtain ⟨_, rfl⟩ := Calls.Pool.invoke_eq hinvoke
      have hp : client'.connection.point = .verifying username password := Connection.point_verifyCalled hstep
      rw [Calls.Pool.set_tasks_self]
      simp only [Fits, hp, Task.request, Awaits]
    | @returned _ event hreturn _ =>
      rw [Calls.Pool.forget, Calls.Pool.set_tasks_self]
      intro username password hp
      obtain rfl : event = .verifyCalled username password := Connection.eq_verifyCalled hstep hp
      cases hreturn
    | other hother =>
      have hquiet : isReturn (client.event server.clients.shared action) = false ∧
          ∀ u p, client.event server.clients.shared action ≠ .verifyCalled u p := by
        cases action with
        | checked _ | reset | failed _ _ => exact ⟨rfl, by intro u p heq; cases heq⟩
        | other e' => exact hother id e' rfl
      cases htask : store.tasks id with
      | some task =>
        rw [htask] at h
        have hreturn := isReturn_of_awaits h hstep
        rw [hquiet.1] at hreturn
        cases hreturn
      | none =>
        intro username password hp
        exact hquiet.2 username password (Connection.eq_verifyCalled hstep hp)
  · rw [hfollow.tasks_ne hnot, hsame]
    exact h
  · rw [hfollow.tasks_ne hnot, hnew]
    rw [hnone] at h
    exact fits_of_fresh h

theorem fits_step (h : ∀ id, Fits (s.store.tasks id) (s.server.clients.processes[id]?))
    (hstep : step ctx argon2 s e = some s') (id : Nat) :
    Fits (s'.store.tasks id) (s'.server.clients.processes[id]?) := by
  cases step_cases hstep with
  | signalled => exact h id
  | server _ hserver hfollow => exact fits_server (h id) hserver (follow_cases hfollow)
  | @loginCalled caller client account store hrunning hclient hp hinvoke =>
    obtain ⟨_, rfl⟩ := Calls.Pool.invoke_eq hinvoke
    by_cases hid : id = caller
    · subst hid
      rw [Calls.Pool.set_tasks_self, hclient]
      simp only [Fits, hp, Task.request, Awaits]
    · rw [Calls.Pool.set_tasks_ne hid]
      exact h id
  | @performed caller now store hperform =>
    obtain ⟨request, hqueued, rfl⟩ := Calls.Pool.perform_eq hperform
    by_cases hid : id = caller
    · subst hid
      have hbefore := h id
      rw [hqueued] at hbefore
      rw [Calls.Pool.set_tasks_self]
      cases hclient : s.server.clients.processes[id]? with
      | none =>
        rw [hclient] at hbefore
        exact hbefore
      | some client =>
        rw [hclient] at hbefore
        exact hbefore
    · rw [Calls.Pool.set_tasks_ne hid]
      exact h id
  | created _ => exact h id
  | declined _ => exact h id

variable {cfg : AppConfig} {dummyHash : Hash} {earlier : List (StoreCall Salt)}

theorem fits_run {s₀ : Service Hash} (hs₀ : s₀ = start argon2 cfg dummyHash earlier)
    (hrun : run ctx argon2 s₀ es = some s) (id : Nat) :
    Fits (s.store.tasks id) (s.server.clients.processes[id]?) := by
  refine Machine.run_invariant (P := fun s : Service Hash =>
    ∀ id, Fits (s.store.tasks id) (s.server.clients.processes[id]?)) ?_ ?_ hrun id
  · intro t e t' h hstep
    exact fits_step h hstep
  · intro id
    rw [hs₀]
    trivial

/-! ### The calls and their replies -/

/-- The call that the task of a handler comes from. -/
def callEvent (id : Nat) : Request → ServiceEvent Salt
  | .verifyCredentials username password =>
    .server (.acted id (.other (.verifyCalled username password)))
  | .recordLogin _ => .loginCalled id

def IsCallOf (id : Nat) : ServiceEvent Salt → Prop
  | .loginCalled caller => caller = id
  | .server (.acted caller (.other (.verifyCalled _ _))) => caller = id
  | _ => False

/-- What a step of the service is for the store. -/
inductive Effect (argon2 : Argon2 Hash Salt) (s : Service Hash) (e : ServiceEvent Salt)
    (store : StorePool Hash) : Prop where
  | called (id : Nat) (request : Request) : e = callEvent id request →
      s.store.invoke id request = some store → Effect argon2 s e store
  | performed (id : Nat) (now : Int) : e = .performed id now →
      s.store.perform (AccountStore.call argon2) Request.call id now = some store →
      Effect argon2 s e store
  | perturbed (now : StoreCall Salt) : (∀ id, ¬ IsCallOf id e) → s.callsOf e = [now] →
      store = s.store.perturb (AccountStore.call argon2) now → Effect argon2 s e store
  | forgot (id : Nat) : (∀ id, ¬ IsCallOf id e) → s.callsOf e = [] → store = s.store.forget id →
      Effect argon2 s e store
  | kept : (∀ id, ¬ IsCallOf id e) → s.callsOf e = [] → store = s.store → Effect argon2 s e store

theorem effect_cases (h : step ctx argon2 s e = some s') : Effect argon2 s e s'.store := by
  cases step_cases h with
  | signalled => exact .kept (fun _ => id) rfl rfl
  | server _ _ hfollow =>
    cases follow_cases hfollow with
    | called hinvoke => exact .called _ _ rfl hinvoke
    | @returned caller e' hreturn _ =>
      refine .forgot caller ?_ rfl rfl
      intro id hcall
      cases e' with
      | verifyCalled => cases hreturn
      | _ => exact hcall
    | other hother =>
      refine .kept ?_ rfl rfl
      intro id hcall
      unfold IsCallOf at hcall
      split at hcall
      · rename_i heq
        cases heq
      · rename_i heq
        cases heq
        exact (hother _ _ rfl).2 _ _ rfl
      · exact hcall
  | loginCalled _ _ _ hinvoke => exact .called _ _ rfl hinvoke
  | performed hperform => exact .performed _ _ rfl hperform
  | created hasked => exact .perturbed _ (fun _ => id) (if_pos hasked) rfl
  | declined hdeclined => exact .kept (fun _ => id) (if_neg hdeclined) rfl

/-- The call of a handler, the last one it made, came after the calls in `mark`. -/
def Called (ctx : SessionContext) (argon2 : Argon2 Hash Salt) (earlier : List (StoreCall Salt))
    (s₀ : Service Hash) (es : List (ServiceEvent Salt)) (id : Nat) (request : Request)
    (mark : List (StoreCall Salt)) : Prop :=
  ∃ before since, es = before ++ callEvent id request :: since ∧
    history ctx argon2 earlier s₀ before = mark ∧ ∀ e ∈ since, ¬ IsCallOf id e

theorem Called.snoc {s₀ : Service Hash} {request : Request} {mark : List (StoreCall Salt)}
    (h : Called ctx argon2 earlier s₀ es id request mark) (he : ¬ IsCallOf id e) :
    Called ctx argon2 earlier s₀ (es ++ [e]) id request mark := by
  obtain ⟨before, since, rfl, hmark, hsince⟩ := h
  refine ⟨before, since ++ [e], ?_, hmark, ?_⟩
  · rw [List.append_assoc, List.cons_append]
  · intro e' he'
    rcases List.mem_append.mp he' with he' | he'
    · exact hsince e' he'
    · exact List.mem_singleton.mp he' ▸ he

/-- The books of a run: the store took the calls of the history one after another,
and every task comes from a call of its handler. -/
structure Ledger (ctx : SessionContext) (argon2 : Argon2 Hash Salt) (dummyHash : Hash)
    (earlier : List (StoreCall Salt)) (s₀ : Service Hash) (es : List (ServiceEvent Salt))
    (s : Service Hash) (marks : Nat → List (StoreCall Salt)) : Prop where
  linear : Calls.Linear (AccountStore.call argon2) Request.call (.opened dummyHash) marks
    (history ctx argon2 earlier s₀ es) s.store
  called : ∀ id task, s.store.tasks id = some task →
    Called ctx argon2 earlier s₀ es id task.request (marks id)

theorem isCallOf_callEvent {caller : Nat} {request : Request}
    (h : IsCallOf id (callEvent caller request : ServiceEvent Salt)) : caller = id := by
  cases request with
  | verifyCredentials username password => exact h
  | recordLogin account => exact h

theorem callsOf_callEvent (s : Service Hash) (id : Nat) (request : Request) :
    s.callsOf (callEvent id request : ServiceEvent Salt) = [] := by
  cases request with
  | verifyCredentials username password => rfl
  | recordLogin account => rfl

section Step
variable {s₀ : Service Hash} {marks : Nat → List (StoreCall Salt)}

theorem ledger_called {request : Request} (hrun : run ctx argon2 s₀ es = some s)
    (h : Ledger ctx argon2 dummyHash earlier s₀ es s marks)
    (hinvoke : s.store.invoke id request = some s'.store) :
    Ledger ctx argon2 dummyHash earlier s₀ (es ++ [callEvent id request]) s'
      (Function.update marks id (history ctx argon2 earlier s₀ es)) := by
  refine ⟨?_, ?_⟩
  · rw [history_snoc hrun, callsOf_callEvent, List.append_nil]
    exact h.linear.invoke hinvoke
  · intro other task htask
    obtain ⟨_, hset⟩ := Calls.Pool.invoke_eq hinvoke
    rw [hset] at htask
    by_cases hother : other = id
    · subst hother
      rw [Calls.Pool.set_tasks_self] at htask
      obtain rfl := Option.some.inj htask
      rw [Function.update_self]
      exact ⟨es, [], rfl, rfl, fun e he => absurd he List.not_mem_nil⟩
    · rw [Calls.Pool.set_tasks_ne hother] at htask
      rw [Function.update_of_ne hother]
      apply (h.called other task htask).snoc
      intro hcall
      exact hother (isCallOf_callEvent hcall).symm

/-- An event that is no call. -/
theorem ledger_other (h : Ledger ctx argon2 dummyHash earlier s₀ es s marks)
    (hcall : ∀ id, ¬ IsCallOf id e)
    (hlinear : Calls.Linear (AccountStore.call argon2) Request.call (.opened dummyHash) marks
      (history ctx argon2 earlier s₀ (es ++ [e])) s'.store)
    (htasks : ∀ id task, s'.store.tasks id = some task →
      ∃ before, s.store.tasks id = some before ∧ before.request = task.request) :
    Ledger ctx argon2 dummyHash earlier s₀ (es ++ [e]) s' marks := by
  refine ⟨hlinear, ?_⟩
  intro id task htask
  obtain ⟨before, hbefore, hrequest⟩ := htasks id task htask
  rw [← hrequest]
  exact (h.called id before hbefore).snoc (hcall id)

theorem ledger_step (hrun : run ctx argon2 s₀ es = some s)
    (h : Ledger ctx argon2 dummyHash earlier s₀ es s marks)
    (hstep : step ctx argon2 s e = some s') :
    ∃ marks', Ledger ctx argon2 dummyHash earlier s₀ (es ++ [e]) s' marks' := by
  cases effect_cases hstep with
  | called id request he hinvoke =>
    subst he
    exact ⟨_, ledger_called hrun h hinvoke⟩
  | performed id now he hperform =>
    subst he
    obtain ⟨request, hqueued, hlinear⟩ := h.linear.perform hperform
    refine ⟨marks, ledger_other h (fun _ => not_false) ?_ ?_⟩
    · rw [history_snoc hrun, callsOf, hqueued]
      exact hlinear
    · intro other task htask
      obtain ⟨request', hqueued', hset⟩ := Calls.Pool.perform_eq hperform
      rw [hset] at htask
      by_cases hother : other = id
      · subst hother
        rw [Calls.Pool.set_tasks_self] at htask
        obtain rfl := Option.some.inj htask
        exact ⟨_, hqueued', rfl⟩
      · rw [Calls.Pool.set_tasks_ne hother] at htask
        exact ⟨task, htask, rfl⟩
  | perturbed now hcall hcalls hstore =>
    refine ⟨marks, ledger_other h hcall ?_ ?_⟩
    · rw [history_snoc hrun, hcalls, hstore]
      exact h.linear.perturb now
    · intro other task htask
      rw [hstore] at htask
      exact ⟨task, htask, rfl⟩
  | forgot id hcall hcalls hstore =>
    refine ⟨marks, ledger_other h hcall ?_ ?_⟩
    · rw [history_snoc hrun, hcalls, hstore, List.append_nil]
      exact h.linear.forget id
    · intro other task htask
      rw [hstore] at htask
      exact ⟨task, Calls.Pool.tasks_of_forget htask, rfl⟩
  | kept hcall hcalls hstore =>
    refine ⟨marks, ledger_other h hcall ?_ ?_⟩
    · rw [history_snoc hrun, hcalls, hstore, List.append_nil]
      exact h.linear
    · intro other task htask
      rw [hstore] at htask
      exact ⟨task, htask, rfl⟩

theorem ledger_run (hs₀ : s₀ = start argon2 cfg dummyHash earlier)
    (hrun : run ctx argon2 s₀ es = some s) :
    ∃ marks, Ledger ctx argon2 dummyHash earlier s₀ es s marks := by
  refine Machine.run_history (P := fun es s => ∃ marks, Ledger ctx argon2 dummyHash earlier s₀ es s
    marks) ?_ ?_ hrun
  · intro es t e t' hbefore h hstep
    obtain ⟨marks, h⟩ := h
    exact ledger_step hbefore h hstep
  · refine ⟨fun _ => [], ?_, ?_⟩
    · rw [hs₀, history, Machine.collect, List.append_nil]
      exact Calls.Linear.start earlier
    · intro id task htask
      rw [hs₀] at htask
      cases htask

end Step

theorem after_eq_run (dummyHash : Hash) (history : List (StoreCall Salt)) :
    Calls.after (AccountStore.call argon2) (.opened dummyHash) history =
      ((AccountStore.opened dummyHash).run argon2 history).1 := by
  induction history using List.reverseRecOn with
  | nil => rfl
  | append_singleton history now ih =>
    rw [Calls.after_append_singleton, ih, AccountStore.run_append_singleton]

/-- The reply of a verification is that of the map which the calls up to some moment
make; that moment is after the call of the handler. -/
theorem reply_right (hargon : argon2.Exact) (htotal : argon2.Total) {s₀ : Service Hash}
    {marks : Nat → List (StoreCall Salt)} (h : Ledger ctx argon2 dummyHash earlier s₀ es s marks)
    (hfresh : (drawn (history ctx argon2 earlier s₀ es)).Nodup) {result : Option Account}
    (hreply : s.store.reply? id = some (.verified result)) :
    ∃ username password pre,
      Called ctx argon2 earlier s₀ es id (.verifyCredentials username password) (marks id) ∧
      (∃ task, s.store.tasks id = some task ∧
        task.request = .verifyCredentials username password) ∧
      marks id <+: pre ∧ pre <+: history ctx argon2 earlier s₀ es ∧
      ∀ account, result = some account ↔
        AccountStore.Created argon2 dummyHash pre password account ∧
          sameUsername account.username username = true := by
  obtain ⟨request, hdone⟩ := Calls.Pool.reply?_eq hreply
  obtain ⟨pre, stamp, hmark, hpre, hresult⟩ := h.linear.replies id request _ hdone
  have hcalled := h.called id _ hdone
  cases request with
  | recordLogin account => cases hresult
  | verifyCredentials username password =>
    have hearlier : pre <+: history ctx argon2 earlier s₀ es :=
      (List.prefix_append pre _).trans hpre
    have hpreFresh : (drawn pre).Nodup :=
      (hearlier.filterMap StoreCall.drawn?).sublist.nodup hfresh
    have htracks := AccountStore.Tracks.run hargon htotal dummyHash hpreFresh
    refine ⟨username, password, pre, hcalled, ⟨_, hdone, rfl⟩, hmark, hearlier, ?_⟩
    intro account
    rw [after_eq_run] at hresult
    injection hresult with hresult
    rw [hresult, htracks.verifyCredentials_eq_some,
      AccountStore.created_iff_after hargon htotal hpreFresh, AccountStore.sameUsername_iff]

variable {result : Option Account}

theorem reply?_of_verifyReturned
    (hstep : step ctx argon2 s (.server (.acted id (.other (.verifyReturned (.ok result))))) =
      some s') : s.store.reply? id = some (.verified result) := by
  cases step_cases hstep with
  | server _ _ hfollow =>
    cases follow_cases hfollow with
    | returned _ hreply => exact hreply result rfl
    | other hother => cases (hother id _ rfl).1

/-- The handlers share the account store as if it were the map of accounts: what a
handler gets for its username and password is what the map has for them at a moment
between the call and the return. -/
theorem verifyReturned_linearizable (hargon : argon2.Exact) (htotal : argon2.Total)
    {s₀ : Service Hash} (hs₀ : s₀ = start argon2 cfg dummyHash earlier)
    (hrun : run ctx argon2 s₀ es = some s)
    (hfresh : (drawn (history ctx argon2 earlier s₀ es)).Nodup)
    (hstep : step ctx argon2 s (.server (.acted id (.other (.verifyReturned (.ok result))))) =
      some s') :
    ∃ username password before since pre,
      es = before ++ .server (.acted id (.other (.verifyCalled username password))) :: since ∧
      (∀ e ∈ since, ¬ IsCallOf id e) ∧
      history ctx argon2 earlier s₀ before <+: pre ∧ pre <+: history ctx argon2 earlier s₀ es ∧
      ∀ account, result = some account ↔
        AccountStore.Created argon2 dummyHash pre password account ∧
          sameUsername account.username username = true := by
  obtain ⟨marks, hledger⟩ := ledger_run hs₀ hrun
  obtain ⟨username, password, pre, ⟨before, since, hes, hmark, hsince⟩, _, hle, hpre, hright⟩ :=
    reply_right hargon htotal hledger hfresh (reply?_of_verifyReturned hstep)
  rw [← hmark] at hle
  exact ⟨username, password, before, since, pre, hes, hsince, hle, hpre, hright⟩

/-- A fresh server on an empty database whose hashes are the passwords. -/
def freshService : Service String :=
  start AccountStore.clear ⟨5, 60000000000, 10, 100⟩ "" []

def firstActs (actions : List Action) : List (ServiceEvent Unit) :=
  actions.map fun action => .server (.acted 0 action)

/-- The first client types a name and a password, and the handler calls the store. -/
def typesIn (name password : String) : List (ServiceEvent Unit) :=
  firstActs [.other (.received (some (.ok (.line name)))),
    .other (.wrote (iacWillEcho ++ asBytes passwordPrompt) (.ok ())),
    .other (.received (some (.ok (.line password)))),
    .other (.wrote iacWontEcho (.ok ())), .other (.verifyCalled name password)]

def greeted : List (ServiceEvent Unit) :=
  .server (.accepted (host 1)) ::
    firstActs [.checked (atSecond 101),
      .other (.wrote (asBytes (banner ++ Session.initialPrompt)) (.ok ()))]

/-- Alice's account is created before she types; Bob's while her task is queued. -/
def aliceTypesIn : List (ServiceEvent Unit) :=
  .accountCreated "Alice" "secret" "secret" () 7 100 :: greeted ++ typesIn "alice" "secret" ++
    [.accountCreated "bob" "other" "other" () 8 102, .performed 0 103]

theorem verifyReturned_linearizable_alice :
    ∃ pre, AccountStore.Created AccountStore.clear "" pre "secret" ⟨7, "Alice", 100, none⟩ := by
  have hsome : ((run ⟨⟨[]⟩, 3⟩ AccountStore.clear freshService aliceTypesIn).bind fun s =>
      step ⟨⟨[]⟩, 3⟩ AccountStore.clear s (.server (.acted 0
        (.other (.verifyReturned (.ok (some ⟨7, "Alice", 100, none⟩))))))).isSome = true := by
    decide +kernel
  obtain ⟨s', h⟩ := Option.isSome_iff_exists.mp hsome
  obtain ⟨s, hrun, hstep⟩ := Option.bind_eq_some_iff.mp h
  obtain ⟨username, password, before, since, pre, hes, _, _, hpre, hright⟩ :=
    verifyReturned_linearizable AccountStore.clear_exact (fun password _ => ⟨password, rfl⟩) rfl hrun
      (by decide +kernel) hstep
  have hcalled : ServiceEvent.server (.acted 0 (.other (.verifyCalled username password))) ∈
      aliceTypesIn := by
    rw [hes]
    exact List.mem_append_right before List.mem_cons_self
  simp only [aliceTypesIn, greeted, typesIn, firstActs, List.map_cons, List.map_nil,
    List.cons_append, List.nil_append, List.mem_cons, List.not_mem_nil, reduceCtorEq, false_or,
    or_false, ServiceEvent.server.injEq, ServerEvent.acted.injEq, Action.other.injEq,
    Event.verifyCalled.injEq, true_and] at hcalled
  obtain ⟨rfl, rfl⟩ := hcalled
  exact ⟨pre, ((hright ⟨7, "Alice", 100, none⟩).mp rfl).1⟩

end Service

end Liaozhai.Server
