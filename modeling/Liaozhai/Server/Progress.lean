import Liaozhai.Server.Replies

/-!
# What is left to do

A handler that reads no more input has few steps left; the tasks of the store and the
books of the accept loop are counted along. Every step of the service but an input
lowers the sum. A handler that does not wait for its client has a step to take, or its
task of the store has one.
-/

namespace Liaozhai.Server

open Auth Constants Net
open Calls (Task)
open Interleaved (loadOf)
open Net.Connection (output)
set_option autoImplicit false

universe u v

/-- The steps that a handler has left at most, if it reads no more input. -/
def rank : Point → Nat
  | .closed _ | .panicked => 1
  | .closing | .limitedShutdown => 2
  | .limitedNotice | .shutdownNotice | .maxRetriesNotice | .storeErrorNotice
  | .bufferOverflowNotice | .goodbye _ => 3
  | .restoreEchoGoodbye _ | .waiting => 4
  | .banner | .stay _ | .advance _ _ | .lineTooLongNotice => 5
  | .start | .recordFailure | .recordLogin _ => 6
  | .reset _ => 9
  | .verifying _ _ => 10
  | .verify _ _ => 12
  | .restoreEcho _ _ => 13

/-- A step, with the steps of the store that come of it. -/
def cost : Net.Event → Nat
  | .verifyCalled _ _ => 2
  | .limiterReset => 3
  | _ => 1

section Handler
variable {ctx : SessionContext} {c c' : Connection} {e : Net.Event}

theorem rank_continueIf {result : Except String Unit} {next : Connection} {n : Nat}
    (hnext : rank next.point ≤ n) (hn : 2 ≤ n) : rank (c.continueIf result next).point ≤ n := by
  cases result with
  | ok _ => exact hnext
  | error _ => exact hn

theorem rank_afterWrite {bytes : List UInt8} (hout : output c.point = some bytes)
    (result : Except String Unit) : rank (c.afterWrite result).point + 1 ≤ rank c.point := by
  match hp : c.point with
  | .limitedNotice | .shutdownNotice | .storeErrorNotice | .maxRetriesNotice | .goodbye _
  | .bufferOverflowNotice | .restoreEchoGoodbye _ =>
    simp only [Connection.afterWrite, hp]
    exact Nat.le_refl _
  | .banner =>
    simp only [Connection.afterWrite, hp]
    split
    · exact Nat.le_refl _
    · exact (by decide : 1 + 1 ≤ 5)
  | .stay _ | .advance _ _ | .lineTooLongNotice =>
    simp only [Connection.afterWrite, hp]
    exact Nat.succ_le_succ (rank_continueIf (Nat.le_refl 4) (by decide))
  | .restoreEcho _ _ =>
    simp only [Connection.afterWrite, hp]
    exact Nat.succ_le_succ (rank_continueIf (Nat.le_refl 12) (by decide))
  | .start | .limitedShutdown | .waiting | .verify _ _ | .verifying _ _ | .reset _
  | .recordLogin _ | .recordFailure | .closing | .closed _ | .panicked =>
    rw [hp] at hout
    cases hout

/-- Without input every step of a handler brings it nearer to its end. -/
theorem rank_step (h : c.step ctx e = some c') (he : ∀ item, e ≠ .received item) :
    rank c'.point + cost e ≤ rank c.point := by
  cases Connection.step_cases h with
  | throttleChecked throttled hp =>
    rw [hp]
    cases throttled with
    | true => exact (by decide : 3 + 1 ≤ 6)
    | false => exact (by decide : 5 + 1 ≤ 6)
  | wrote result hout => exact rank_afterWrite hout result
  | shutDown _ hp =>
    rcases hp with hp | hp
    · rw [hp]
      exact Nat.le_refl _
    · rw [hp]
      exact Nat.le_refl _
  | received item _ => exact absurd rfl (he item)
  | verifyReturned result hp =>
    rw [hp]
    match result with
    | .error _ => exact (by decide : 3 + 1 ≤ 10)
    | .ok (some _) => exact (by decide : 9 + 1 ≤ 10)
    | .ok none => exact (by decide : 6 + 1 ≤ 10)
  | @loginRecorded account _ hp =>
    rw [hp]
    rcases Connection.complete_some c account with heq | ⟨frame, heq⟩
    · rw [heq]
      exact (by decide : 1 + 1 ≤ 6)
    · rw [heq]
      exact (by decide : 5 + 1 ≤ 6)
  | cancelled hp | verifyCalled hp | limiterReset hp | maxRetries hp _ | retry hp _ =>
    rw [hp]
    simp only [rank, cost, Connection.goTo_point, Connection.complete, Session.completeAuth]
    omega

theorem rank_pos (point : Point) : 0 < rank point := by
  cases point <;> exact Nat.zero_lt_succ _

theorem cost_pos (e : Net.Event) : 0 < cost e := by
  unfold cost
  split <;> decide

end Handler

/-- The steps of the store that a task and its handler still stand for. -/
def taskWork : Option (Task Request StoreReply) → Point → Nat
  | some (.queued _), _ => 1
  | none, .recordLogin _ => 2
  | _, _ => 0

def loopWork (loop : AcceptLoop) : Nat :=
  match loop.phase with
  | .accepting => loop.joinSet.length + 2
  | .draining _ => loop.joinSet.length + 1
  | _ => 0

theorem taskWork_le (task : Option (Task Request StoreReply)) (point : Point) :
    taskWork task point ≤ 2 := by
  unfold taskWork
  split
  · decide
  · decide
  · decide

/-- Away from `record_login` a task is all the work there is. -/
theorem taskWork_le_of_ne {point point' : Point} (h : ∀ account, point' ≠ .recordLogin account)
    (task : Option (Task Request StoreReply)) : taskWork task point' ≤ taskWork task point := by
  match task, hp : point' with
  | some (.queued _), _ => exact Nat.le_refl 1
  | some (.done _ _), _ => exact Nat.zero_le _
  | none, .recordLogin account => exact absurd rfl (h account)
  | none, .start | none, .limitedNotice | none, .limitedShutdown | none, .banner | none, .waiting
  | none, .shutdownNotice | none, .stay _ | none, .advance _ _ | none, .restoreEcho _ _
  | none, .verify _ _ | none, .verifying _ _ | none, .storeErrorNotice | none, .reset _
  | none, .recordFailure | none, .maxRetriesNotice | none, .restoreEchoGoodbye _
  | none, .goodbye _ | none, .lineTooLongNotice | none, .bufferOverflowNotice | none, .closing
  | none, .closed _ | none, .panicked => exact Nat.zero_le _

/-- Only the reset of the limiter leads to `record_login`. -/
theorem point_ne_recordLogin {ctx : SessionContext} {c c' : Connection} {e : Net.Event}
    (h : c.step ctx e = some c') (he : e ≠ .limiterReset) (account : Account) :
    c'.point ≠ .recordLogin account := by
  intro hp
  cases Connection.step_cases h with
  | throttleChecked throttled _ =>
    cases throttled with
    | true => cases hp
    | false => cases hp
  | wrote result _ =>
    obtain ⟨point, session, heq, hfrom⟩ := Connection.afterWrite_eq c result
    rw [heq] at hp
    subst hp
    cases hfrom
  | received item _ =>
    obtain ⟨point, lineCount, heq, hfrom⟩ := Connection.takeItem_eq c item
    rw [heq] at hp
    subst hp
    cases hfrom
  | verifyReturned result _ =>
    match result with
    | .error _ => cases hp
    | .ok (some _) => cases hp
    | .ok none => cases hp
  | limiterReset _ => exact he rfl
  | @loginRecorded account _ _ =>
    obtain ⟨point, heq, hfrom⟩ := Connection.complete_eq c (some account)
    rw [heq, Connection.goTo_point] at hp
    subst hp
    cases hfrom
  | shutDown _ _ | cancelled _ | verifyCalled _ | maxRetries _ _ | retry _ _ => cases hp

namespace Service
variable {Hash : Type u} {Salt : Type v} {ctx : SessionContext} {argon2 : Argon2 Hash Salt}
  {s s' s₀ : Service Hash} {e : ServiceEvent Salt} {es : List (ServiceEvent Salt)} {id : Nat}
  {cfg : AppConfig} {dummyHash : Hash} {earlier : List (StoreCall Salt)}

/-- What a handler that acts has left, with its task. -/
theorem work_acted {client client' : Client} {action : Action} {limiter limiter' : AuthRateLimiter}
    {store store' : StorePool Hash} (hact : client.act ctx limiter action = some (limiter', client'))
    (hfollow : Follows store (.acted id action) store')
    (hinput : ∀ item, action ≠ .other (.received item)) :
    rank client'.connection.point + taskWork (store'.tasks id) client'.connection.point + 1 ≤
      rank client.connection.point + taskWork (store.tasks id) client.connection.point := by
  have hstep := Client.event_step hact
  have hrank := rank_step hstep (by
    intro item hitem
    cases action with
    | other e' => exact hinput item (congrArg Action.other hitem)
    | checked _ | reset | failed _ _ => cases hitem)
  cases hfollow with
  | called hinvoke =>
    obtain ⟨_, rfl⟩ := Calls.Pool.invoke_eq hinvoke
    rw [Calls.Pool.set_tasks_self]
    simp only [Client.event, cost] at hrank
    simp only [taskWork]
    omega
  | @returned _ event hreturn _ =>
    have hne : event ≠ .limiterReset := by
      rintro rfl
      cases hreturn
    have hnone : taskWork none client'.connection.point = 0 := by
      have hstep' : client.connection.step ctx event = some client'.connection := hstep
      exact Nat.le_zero.mp (@taskWork_le_of_ne .closing _ (point_ne_recordLogin hstep' hne) none)
    have hcost := cost_pos event
    rw [Calls.Pool.forget, Calls.Pool.set_tasks_self, hnone]
    have hrank' : rank client'.connection.point + cost event ≤ rank client.connection.point := hrank
    omega
  | other _ =>
    by_cases hreset : client.event limiter action = .limiterReset
    · rw [hreset] at hrank
      have hle := taskWork_le (store.tasks id) client'.connection.point
      simp only [cost] at hrank
      omega
    · have hle := @taskWork_le_of_ne client.connection.point _
        (point_ne_recordLogin hstep hreset) (store.tasks id)
      have hcost := cost_pos (client.event limiter action)
      omega

def pendingWork (s : Service Hash) (id : Nat) : Nat :=
  (s.server.clients.processes[id]?).elim 0 fun client =>
    taskWork (s.store.tasks id) client.connection.point

/-- All that is left to do for a service that was told to shut down. -/
def work (s : Service Hash) : Nat :=
  s.server.runningLoad (fun client => rank client.connection.point) +
    (∑ id ∈ Finset.range s.server.clients.processes.length, s.pendingWork id) +
    loopWork s.server.loop

/-- The events of the service itself: not the signals, nor the other process. -/
def isOwn : ServiceEvent Salt → Bool
  | .signalled | .accountCreated _ _ _ _ _ _ => false
  | _ => true

/-- What comes from outside: lines and connections. -/
def isInput : ServiceEvent Salt → Bool
  | .server (.acted _ (.other (.received _))) | .server (.accepted _)
  | .server (.loop .refused) | .server (.loop .acceptFailed) => true
  | _ => false

/-- What holds of a service at any time. -/
structure Tended (ctx : SessionContext) (cfg : AppConfig) (s : Service Hash) : Prop where
  sound : ServerState.Sound ctx cfg.maxConnections cfg.rateLimitWindow cfg.rateLimitMaxFailures s.server
  fits : ∀ id, Fits (s.store.tasks id) (s.server.clients.processes[id]?)

/-- Where only the loop steps, the tasks and the handlers keep their work. -/
theorem work_of_loop {loop : AcceptLoop} {store : StorePool Hash}
    (htasks : store.tasks = s.store.tasks) :
    work (⟨⟨loop, s.server.clients⟩, store, s.cancelled⟩ : Service Hash) =
      loadOf (fun client => rank client.connection.point) s.server.clients.processes loop.running +
        (∑ id ∈ Finset.range s.server.clients.processes.length, s.pendingWork id) + loopWork loop := by
  have hsame : ∀ id, pendingWork (⟨⟨loop, s.server.clients⟩, store, s.cancelled⟩ : Service Hash) id =
      s.pendingWork id := by
    intro id
    rw [pendingWork, pendingWork, htasks]
  simp only [work, ServerState.runningLoad, hsame]

theorem follows_tasks {store store' : StorePool Hash} {e : ServerEvent} (h : Follows store e store')
    (he : ∀ id action, e ≠ .acted id action) : store'.tasks = store.tasks := by
  funext id
  exact h.tasks_ne (he id)

theorem loopWork_step {loop loop' : AcceptLoop} {e : LoopEvent} (h : loop.step e = some loop')
    (hquiet : isInput (.server (.loop e) : ServiceEvent Salt) = false) (he : ∀ id, e ≠ .accepted id)
    (he' : ∀ id outcome, e ≠ .completed id outcome) : loopWork loop' + 1 ≤ loopWork loop := by
  cases AcceptLoop.step_cases h with
  | acceptFailed _ | refused _ _ => cases hquiet
  | accepted _ _ _ => exact absurd rfl (he _)
  | completed outcome _ => exact absurd rfl (he' _ outcome)
  | shutdown hphase =>
    rw [loopWork, loopWork, hphase]
  | @joined id drained hphase hmem _ =>
    have hpos := List.length_pos_of_mem hmem
    rw [loopWork, loopWork, hphase]
    simp only [List.length_erase_of_mem hmem]
    omega
  | drainFinished hphase hempty =>
    rw [loopWork, loopWork, hphase]
    exact Nat.le_add_left _ _
  | drainTimedOut hphase =>
    rw [loopWork, loopWork, hphase]
    exact Nat.le_add_left _ _

/-- A handler that acts lowers the work that is left. -/
theorem work_of_acted {action : Action} {client client' : Client} {limiter : AuthRateLimiter}
    {store : StorePool Hash} (h : Tended ctx cfg s)
    (hinput : ∀ item, action ≠ .other (.received item)) (hid : id ∈ s.server.loop.running)
    (hclient : s.server.clients.processes[id]? = some client)
    (hact : client.act ctx s.server.clients.shared action = some (limiter, client'))
    (hfollow : Follows s.store (.acted id action) store) :
    work (⟨⟨s.server.loop, limiter, s.server.clients.processes.set id client'⟩, store, s.cancelled⟩ :
      Service Hash) + 1 ≤ s.work := by
  have hlt := (List.getElem?_eq_some_iff.mp hclient).1
  have hload := ServerState.runningLoad_acted h.sound hid hclient
    (fun client => rank client.connection.point) client' limiter
  have hleft := work_acted hact hfollow hinput
  have hothers : ∀ other, other ≠ id →
      pendingWork (⟨⟨s.server.loop, limiter, s.server.clients.processes.set id client'⟩, store,
        s.cancelled⟩ : Service Hash) other = s.pendingWork other := by
    intro other hother
    have htask : store.tasks other = s.store.tasks other := by
      apply hfollow.tasks_ne
      intro action' heq
      injection heq with hsame _
      exact hother hsame.symm
    have hprocess : (s.server.clients.processes.set id client')[other]? =
        s.server.clients.processes[other]? := List.getElem?_set_ne (Ne.symm hother)
    simp only [pendingWork, hprocess, htask]
  have hsum := Interleaved.sum_range_step hlt hothers
  have hbefore : s.pendingWork id = taskWork (s.store.tasks id) client.connection.point := by
    rw [pendingWork, hclient]
    rfl
  have hafter : pendingWork (⟨⟨s.server.loop, limiter, s.server.clients.processes.set id client'⟩,
      store, s.cancelled⟩ : Service Hash) id =
        taskWork (store.tasks id) client'.connection.point := by
    simp only [pendingWork, List.getElem?_set_self hlt]
    rfl
  rw [hbefore, hafter] at hsum
  simp only [work, List.length_set] at hload ⊢
  omega

theorem work_server {server : ServerState} {store : StorePool Hash} {e : ServerEvent}
    (h : Tended ctx cfg s) (hquiet : isInput (.server e : ServiceEvent Salt) = false)
    (hserver : s.server.step ctx e = some server) (hfollow : Follows s.store e store) :
    work (⟨server, store, s.cancelled⟩ : Service Hash) + 1 ≤ s.work := by
  have htasks : (∀ id action, e ≠ .acted id action) → store.tasks = s.store.tasks :=
    follows_tasks hfollow
  cases ServerState.step_cases hserver with
  | loop hloop hrunning =>
    have hless := loopWork_step hloop hquiet (by rintro id rfl; cases hserver)
      (by rintro id outcome rfl; cases hserver)
    have htasks := htasks (by intro id action heq; cases heq)
    rw [work_of_loop htasks, hrunning, work, ServerState.runningLoad]
    omega
  | aborted _ hloop hrunning =>
    have hless := loopWork_step hloop hquiet (by intro id heq; cases heq)
      (by intro id outcome heq; cases heq)
    have htasks := htasks (by intro id action heq; cases heq)
    rw [work_of_loop htasks, hrunning, work, loadOf, List.map_nil, List.sum_nil]
    omega
  | accepted _ _ _ => cases hquiet
  | acted hid hclient hact =>
    refine work_of_acted h ?_ hid hclient hact hfollow
    intro item heq
    subst heq
    cases hquiet
  | @completed id outcome loop client hclient _ hloop hid hrunning =>
    have hload := ServerState.runningLoad_completed hclient hid hrunning
      fun client => rank client.connection.point
    have hpos := rank_pos client.connection.point
    have hsame : loopWork loop = loopWork s.server.loop := by
      cases AcceptLoop.step_cases hloop with
      | completed _ _ => rfl
    simp only [ServerState.runningLoad] at hload
    have htasks := htasks (by intro id action heq; cases heq)
    rw [work_of_loop htasks, hsame, work, ServerState.runningLoad]
    omega

/-- A task that is queued or performed. -/
theorem work_of_task {store : StorePool Hash} (hlt : id < s.server.clients.processes.length)
    (hothers : ∀ other, other ≠ id → store.tasks other = s.store.tasks other)
    (hless : pendingWork (⟨s.server, store, s.cancelled⟩ : Service Hash) id + 1 ≤ s.pendingWork id) :
    work (⟨s.server, store, s.cancelled⟩ : Service Hash) + 1 ≤ s.work := by
  have hsum := @Interleaved.sum_range_step id s.server.clients.processes.length s.pendingWork
    (pendingWork (⟨s.server, store, s.cancelled⟩ : Service Hash)) hlt (by
      intro other hother
      simp only [pendingWork, hothers other hother])
  simp only [work]
  omega

/-- Every step of the service without input lowers the work that is left. -/
theorem work_step (h : Tended ctx cfg s) (hquiet : isInput e = false)
    (hstep : step ctx argon2 s e = some s') : s'.work + (if isOwn e then 1 else 0) ≤ s.work := by
  cases step_cases hstep with
  | signalled => exact Nat.le_refl _
  | created _ => exact Nat.le_refl _
  | declined _ => exact Nat.le_refl _
  | server _ hserver hfollow => exact work_server h hquiet hserver (follow_cases hfollow)
  | @loginCalled id client account store _ hclient hp hinvoke =>
    obtain ⟨hnone, rfl⟩ := Calls.Pool.invoke_eq hinvoke
    apply work_of_task (List.getElem?_eq_some_iff.mp hclient).1
    · intro other hother
      exact Calls.Pool.set_tasks_ne hother
    · simp only [pendingWork, hclient, Option.elim_some, Calls.Pool.set_tasks_self, hnone, hp, taskWork]
      exact Nat.le_refl 2
  | @performed id now store hperform =>
    obtain ⟨request, hqueued, rfl⟩ := Calls.Pool.perform_eq hperform
    have hfits := h.fits id
    rw [hqueued] at hfits
    cases hclient : s.server.clients.processes[id]? with
    | none =>
      rw [hclient] at hfits
      exact hfits.elim
    | some client =>
      apply work_of_task (List.getElem?_eq_some_iff.mp hclient).1
      · intro other hother
        exact Calls.Pool.set_tasks_ne hother
      · simp only [pendingWork, hclient, Option.elim_some, Calls.Pool.set_tasks_self, hqueued, taskWork]
        exact Nat.le_refl 1

/-! ### A step to take -/

theorem isSome_server {server : ServerState} {store : StorePool Hash} {e : ServerEvent}
    (hallowed : allowed s.cancelled e = true) (hserver : s.server.step ctx e = some server)
    (hfollow : follow s.store e = some store) :
    (step ctx argon2 s (.server e)).isSome = true := by
  rw [step, if_pos hallowed, hserver, Option.bind_some, hfollow]
  rfl

theorem isSome_loop {e : LoopEvent} {loop : AcceptLoop}
    (hallowed : allowed s.cancelled (.loop e) = true)
    (hserver : s.server.step ctx (.loop e) = (s.server.loop.step e).map fun loop =>
      { s.server with loop })
    (hloop : s.server.loop.step e = some loop) :
    (step ctx argon2 s (.server (.loop e))).isSome = true := by
  rw [hloop] at hserver
  exact isSome_server hallowed hserver rfl

theorem isSome_acted {action : Action} {client client' : Client} {limiter : AuthRateLimiter}
    {store : StorePool Hash} (hallowed : allowed s.cancelled (.acted id action) = true)
    (hid : id ∈ s.server.loop.running) (hclient : s.server.clients.processes[id]? = some client)
    (hact : client.act ctx s.server.clients.shared action = some (limiter, client'))
    (hfollow : follow s.store (.acted id action) = some store) :
    (step ctx argon2 s (.server (.acted id action))).isSome = true := by
  have hserver : s.server.step ctx (.acted id action) =
      some ⟨s.server.loop, limiter, s.server.clients.processes.set id client'⟩ := by
    rw [ServerState.step, if_pos hid, Clients.step, Interleaved.step, hclient, Option.bind_some, hact]
    rfl
  exact isSome_server hallowed hserver hfollow

theorem isSome_other {event : Net.Event} {client : Client} {store : StorePool Hash}
    (hevent : isLimiterCall event = false)
    (hallowed : allowed s.cancelled (.acted id (.other event)) = true)
    (hid : id ∈ s.server.loop.running) (hclient : s.server.clients.processes[id]? = some client)
    (hstep : (client.connection.step ctx event).isSome = true)
    (hfollow : follow s.store (.acted id (.other event)) = some store) :
    (step ctx argon2 s (.server (.acted id (.other event)))).isSome = true := by
  obtain ⟨c, hc⟩ := Option.isSome_iff_exists.mp hstep
  have hact : client.act ctx s.server.clients.shared (.other event) =
      some (s.server.clients.shared, ⟨client.ip, c⟩) := by
    rw [Client.act, if_neg (by rw [hevent]; exact Bool.false_ne_true), Client.step, hc]
    rfl
  exact isSome_acted hallowed hid hclient hact hfollow

/-- A reply is of the kind that its request asks for. -/
def Answers : Request → StoreReply → Prop
  | .verifyCredentials _ _, .verified _ => True
  | .recordLogin _, .recorded => True
  | _, _ => False

/-- The steps of the service that need no input. -/
def isBusy (e : ServiceEvent Salt) : Bool := isOwn e && !isInput e

/-- A task that is queued will be performed. -/
theorem task_progress {request : Request} (htask : s.store.tasks id = some (.queued request)) :
    ∃ e, isBusy e = true ∧ (step ctx argon2 s e).isSome = true := by
  refine ⟨.performed id 0, rfl, ?_⟩
  rw [step, Calls.Pool.perform_queued htask]
  rfl

/-- A handler that has come to its end leaves the loop. -/
theorem isSome_completed {outcome : Outcome} {client : Client} (hid : id ∈ s.server.loop.running)
    (hclient : s.server.clients.processes[id]? = some client)
    (hend : mayEnd client.connection outcome = true) :
    (step ctx argon2 s (.server (.completed id outcome))).isSome = true := by
  have hany : ((s.server.clients.processes[id]?).any fun client =>
      mayEnd client.connection outcome) = true := by
    rw [hclient]
    exact hend
  have hserver : s.server.step ctx (.completed id outcome) = some ⟨{ s.server.loop with
      permits := s.server.loop.permits + 1
      running := s.server.loop.running.erase id }, s.server.clients⟩ := by
    rw [ServerState.step, if_pos hany, AcceptLoop.step, if_pos hid]
    rfl
  exact isSome_server rfl hserver rfl

/-- A handler that runs can take a step, or its task can, unless it waits for its client. -/
theorem handler_progress (h : Tended ctx cfg s)
    (hreplies : ∀ id request reply, s.store.tasks id = some (.done request reply) →
      Answers request reply) (hid : id ∈ s.server.loop.running) {client : Client}
    (hclient : s.server.clients.processes[id]? = some client)
    (hwaiting : client.connection.point ≠ .waiting) :
    ∃ e, isBusy e = true ∧ (step ctx argon2 s e).isSome = true := by
  have hfits := h.fits id
  rw [hclient] at hfits
  have hwrite : ∀ bytes, output client.connection.point = some bytes →
      ∃ e, isBusy e = true ∧ (step ctx argon2 s e).isSome = true := by
    intro bytes hout
    refine ⟨.server (.acted id (.other (.wrote bytes (.ok ())))), rfl, ?_⟩
    exact isSome_other rfl rfl hid hclient (by rw [Connection.step, if_pos hout]; rfl) rfl
  cases hp : client.connection.point with
  | limitedNotice | banner | shutdownNotice | stay _ | advance _ _ | restoreEcho _ _
  | storeErrorNotice | maxRetriesNotice | restoreEchoGoodbye _ | goodbye _ | lineTooLongNotice
  | bufferOverflowNotice =>
    exact hwrite _ (by rw [hp]; rfl)
  | start =>
    refine ⟨.server (.acted id (.checked ⟨0, 0, 0, 0⟩)), rfl, ?_⟩
    have hact : client.act ctx s.server.clients.shared (.checked ⟨0, 0, 0, 0⟩) = some
        ((s.server.clients.shared.isThrottled client.ip ⟨0, 0, 0, 0⟩).2, ⟨client.ip,
          client.connection.goTo (if (s.server.clients.shared.isThrottled client.ip ⟨0, 0, 0, 0⟩).1
            then .limitedNotice else .banner)⟩) := by
      simp only [Client.act, Client.step, Connection.step, hp, Option.map_some]
    exact isSome_acted rfl hid hclient hact rfl
  | limitedShutdown =>
    refine ⟨.server (.acted id (.other (.shutDown (.ok ())))), rfl, ?_⟩
    exact isSome_other rfl rfl hid hclient (by rw [Connection.step, hp]; rfl) rfl
  | closing =>
    refine ⟨.server (.acted id (.other (.shutDown (.ok ())))), rfl, ?_⟩
    exact isSome_other rfl rfl hid hclient (by rw [Connection.step, hp]; rfl) rfl
  | waiting => exact absurd hp hwaiting
  | verify username password =>
    refine ⟨.server (.acted id (.other (.verifyCalled username password))), rfl, ?_⟩
    have hnone : s.store.tasks id = none := by
      cases htask : s.store.tasks id with
      | none => rfl
      | some task =>
        rw [htask, Fits, hp] at hfits
        exact hfits.elim
    have hfollow : follow s.store (.acted id (.other (.verifyCalled username password))) =
        some (s.store.set id (some (.queued (.verifyCredentials username password)))) := by
      rw [follow, Calls.Pool.invoke, hnone]
    exact isSome_other rfl rfl hid hclient (by simp [Connection.step, hp]) hfollow
  | verifying username password =>
    cases htask : s.store.tasks id with
    | none =>
      rw [htask] at hfits
      exact absurd hp (hfits username password)
    | some task =>
      cases task with
      | queued request => exact task_progress htask
      | done request reply =>
        have hanswers := hreplies id request reply htask
        rw [htask, Fits, hp] at hfits
        obtain rfl : request = .verifyCredentials username password := hfits
        cases reply with
        | verified result =>
          refine ⟨.server (.acted id (.other (.verifyReturned (.ok result)))), rfl, ?_⟩
          have hfollow : follow s.store (.acted id (.other (.verifyReturned (.ok result)))) =
              some (s.store.forget id) := by
            rw [follow, Calls.Pool.reply?, htask, if_pos rfl]
          exact isSome_other rfl rfl hid hclient (by rw [Connection.step, hp]; rfl) hfollow
        | created _ | recorded | listed _ => exact hanswers.elim
  | reset account =>
    refine ⟨.server (.acted id .reset), rfl, ?_⟩
    have hact : client.act ctx s.server.clients.shared .reset = some
        (s.server.clients.shared.reset client.ip,
          ⟨client.ip, client.connection.goTo (.recordLogin account)⟩) := by
      simp only [Client.act, Client.step, Connection.step, hp, Option.map_some]
    exact isSome_acted rfl hid hclient hact rfl
  | recordLogin account =>
    cases htask : s.store.tasks id with
    | none =>
      refine ⟨.loginCalled id, rfl, ?_⟩
      have hlogin : s.loginOf id = some account.id := by
        rw [loginOf, hclient, Option.bind_some, hp]
      rw [step, if_pos hid, hlogin, Option.bind_some, Calls.Pool.invoke, htask]
      rfl
    | some task =>
      cases task with
      | queued request => exact task_progress htask
      | done request reply =>
        have hanswers := hreplies id request reply htask
        rw [htask, Fits, hp] at hfits
        obtain rfl : request = .recordLogin account.id := hfits
        cases reply with
        | recorded =>
          refine ⟨.server (.acted id (.other (.loginRecorded account.id (.ok ())))), rfl, ?_⟩
          have hfollow : follow s.store (.acted id (.other (.loginRecorded account.id (.ok ())))) =
              some (s.store.forget id) := by
            rw [follow, Calls.Pool.reply?, htask, if_pos rfl]
          exact isSome_other rfl rfl hid hclient (by simp [Connection.step, hp]) hfollow
        | created _ | verified _ | listed _ => exact hanswers.elim
  | recordFailure =>
    refine ⟨.server (.acted id (.failed s.server.clients.shared.failures.entries ⟨0, 0, 0, 0⟩)), rfl, ?_⟩
    obtain ⟨c, hc⟩ : ∃ c, client.connection.step ctx .failureRecorded = some c := by
      simp only [Connection.step, hp]
      split
      · exact ⟨_, rfl⟩
      · exact ⟨_, rfl⟩
    have hact : client.act ctx s.server.clients.shared
        (.failed s.server.clients.shared.failures.entries ⟨0, 0, 0, 0⟩) = some
          (s.server.clients.shared.recordFailure client.ip s.server.clients.shared.failures.entries
            ⟨0, 0, 0, 0⟩, ⟨client.ip, c⟩) := by
      rw [Client.act, if_pos (List.Perm.refl _), Client.step, hc]
      rfl
    exact isSome_acted rfl hid hclient hact rfl
  | closed result =>
    obtain ⟨outcome, hend⟩ : ∃ outcome, mayEnd client.connection outcome = true := by
      cases result with
      | ok _ => exact ⟨.normal, by unfold mayEnd; rw [hp]⟩
      | error _ => exact ⟨.error, by unfold mayEnd; rw [hp]⟩
    exact ⟨.server (.completed id outcome), rfl, isSome_completed hid hclient hend⟩
  | panicked =>
    have hend : mayEnd client.connection .panic = true := by unfold mayEnd; rw [hp]; rfl
    exact ⟨.server (.completed id .panic), rfl, isSome_completed hid hclient hend⟩

/-- The loop has returned, no handler runs, and every permit is back. -/
def Over (cfg : AppConfig) (s : Service Hash) : Prop :=
  s.server.loop.Returned ∧ s.server.loop.running = [] ∧ s.server.loop.permits = cfg.maxConnections

/-! ### Runs -/

theorem server_run (hrun : run ctx argon2 s₀ es = some s) :
    ∃ es', ServerState.run ctx s₀.server es' = some s.server := by
  refine Machine.run_project ?_ hrun
  intro s e s' hstep
  cases step_cases hstep with
  | server _ hserver _ => exact .inr ⟨_, hserver⟩
  | signalled | loginCalled _ _ _ _ | performed _ | created _ | declined _ => exact .inl rfl

theorem loop_run {server server' : ServerState} {events : List ServerEvent}
    (hrun : ServerState.run ctx server events = some server') :
    ∃ events', AcceptLoop.run server.loop events' = some server'.loop := by
  refine Machine.run_project ?_ hrun
  intro s e s' hstep
  cases ServerState.step_cases hstep with
  | loop hloop _ => exact .inr ⟨_, hloop⟩
  | aborted _ hloop _ => exact .inr ⟨_, hloop⟩
  | accepted _ hloop _ => exact .inr ⟨_, hloop⟩
  | completed _ _ hloop _ _ => exact .inr ⟨_, hloop⟩
  | acted _ _ _ => exact .inl rfl

section Run
variable (hs₀ : s₀ = start argon2 cfg dummyHash earlier) (hrun : run ctx argon2 s₀ es = some s)
include hs₀ hrun

theorem tended_run : Tended ctx cfg s := by
  refine ⟨?_, fits_run hs₀ hrun⟩
  obtain ⟨es', hserver⟩ := server_run hrun
  rw [hs₀] at hserver
  exact ServerState.sound_run hserver

theorem over_of_returned (hreturned : s.server.loop.Returned) : Over cfg s := by
  obtain ⟨es', hserver⟩ := server_run hrun
  obtain ⟨es'', hloop⟩ := loop_run hserver
  rw [hs₀] at hloop
  have hkept := AcceptLoop.kept_run hloop
  have hsub := hkept.sublist
  rw [AcceptLoop.returned_run hloop hreturned] at hsub
  have hempty := List.sublist_nil.mp hsub
  have hpermits := hkept.permits
  rw [hempty] at hpermits
  exact ⟨hreturned, hempty, hpermits⟩

theorem answers_run (id : Nat) (request : Request) (reply : StoreReply)
    (hdone : s.store.tasks id = some (.done request reply)) : Answers request reply := by
  obtain ⟨marks, hledger⟩ := ledger_run hs₀ hrun
  obtain ⟨pre, stamp, _, _, rfl⟩ := hledger.linear.replies id request reply hdone
  cases request with
  | verifyCredentials username password => trivial
  | recordLogin account => trivial

end Run

/-- The steps that one handler has left. -/
def rankOf (id : Nat) (s : Service Hash) : Nat :=
  (s.server.clients.processes[id]?).elim 0 fun client => rank client.connection.point

def isActOf (id : Nat) : ServiceEvent Salt → Bool
  | .server (.acted actor _) => actor = id
  | _ => false

/-- A line for this handler. -/
def isLineOf (id : Nat) : ServiceEvent Salt → Bool
  | .server (.acted actor (.other (.received _))) => actor = id
  | _ => false

theorem isLineOf_of_isInput (h : isInput e = false) (id : Nat) : isLineOf id e = false := by
  unfold isLineOf
  split
  · cases h
  · rfl

theorem rankOf_step (hquiet : isLineOf id e = false) (hstep : step ctx argon2 s e = some s') :
    s'.rankOf id + (if isActOf id e then 1 else 0) ≤ s.rankOf id ∨
      s.server.clients.processes[id]? = none := by
  cases step_cases hstep with
  | @server event _ _ _ hserver _ =>
    rcases handler_step hserver id with
      ⟨action, client, client', rfl, hclient, hclient', hact⟩ | ⟨hnot, hsame | ⟨hnone, _⟩⟩
    · left
      have hrank := rank_step (Client.event_step hact) (by
        intro item hitem
        cases action with
        | other e' =>
          obtain rfl : e' = .received item := hitem
          exact of_decide_eq_false hquiet rfl
        | checked _ | reset | failed _ _ => cases hitem)
      have hcost := cost_pos (client.event s.server.clients.shared action)
      simp only [rankOf, hclient, hclient', Option.elim_some, isActOf, decide_true, if_true]
      omega
    · left
      have hact : isActOf id (.server event : ServiceEvent Salt) = false := by
        cases event with
        | acted actor action =>
          apply decide_eq_false
          rintro rfl
          exact hnot action rfl
        | loop _ | accepted _ | completed _ _ => rfl
      rw [rankOf, rankOf, hsame, hact]
      exact Nat.le_refl _
    · exact .inr hnone
  | signalled | loginCalled _ _ _ _ | performed _ | created _ | declined _ =>
    exact .inl (Nat.le_refl _)

theorem handler_stays (hsome : (s.server.clients.processes[id]?).isSome = true)
    (hstep : step ctx argon2 s e = some s') : (s'.server.clients.processes[id]?).isSome = true := by
  cases step_cases hstep with
  | server _ hserver _ =>
    rcases handler_step hserver id with
      ⟨action, client, client', rfl, hclient, hclient', hact⟩ | ⟨hnot, hsame | ⟨hnone, _⟩⟩
    · rw [hclient']
      rfl
    · rw [hsame]
      exact hsome
    · rw [hnone] at hsome
      cases hsome
  | signalled | loginCalled _ _ _ _ | performed _ | created _ | declined _ => exact hsome

theorem rank_le (point : Point) : rank point ≤ 13 := by
  unfold rank
  split <;> decide

/-- Between two lines a handler takes at most twelve steps, whatever the others do. -/
theorem countP_isActOf_le (hsome : (s.server.clients.processes[id]?).isSome = true)
    (hquiet : ∀ e ∈ es, isLineOf id e = false) (hrun : run ctx argon2 s es = some s') :
    es.countP (isActOf id) ≤ 12 := by
  have hkeeps : ∀ t e t', (t.server.clients.processes[id]?).isSome = true →
      Machine.guarded (fun e => !isLineOf id e) (step ctx argon2) t e = some t' →
      (t'.server.clients.processes[id]?).isSome = true := by
    intro t e t' h hstep
    obtain ⟨_, hstep⟩ := Option.ite_none_right_eq_some.mp hstep
    exact handler_stays h hstep
  have hlowers : ∀ t e t', (t.server.clients.processes[id]?).isSome = true →
      Machine.guarded (fun e => !isLineOf id e) (step ctx argon2) t e = some t' →
      rankOf id t' + (if isActOf id e then 1 else 0) ≤ rankOf id t := by
    intro t e t' h hstep
    obtain ⟨hline, hstep⟩ := Option.ite_none_right_eq_some.mp hstep
    have hrank := rankOf_step (Bool.eq_false_of_not_eq_true' hline) hstep
    exact hrank.resolve_right (Option.isSome_iff_ne_none.mp h)
  have hguarded : Machine.run (Machine.guarded (fun e => !isLineOf id e) (step ctx argon2)) s es =
      some s' := by
    apply Machine.run_guarded.mpr ⟨hrun, ?_⟩
    intro e he
    rw [hquiet e he]
    rfl
  have hkept := Machine.run_invariant hkeeps hsome hguarded
  have hcount := Machine.countP_le_measure hkeeps hlowers hsome hguarded
  obtain ⟨client, hclient⟩ := Option.isSome_iff_exists.mp hsome
  obtain ⟨client', hclient'⟩ := Option.isSome_iff_exists.mp hkept
  have hbefore := rank_le client.connection.point
  have hafter := rank_pos client'.connection.point
  rw [rankOf, rankOf, hclient, hclient', Option.elim_some, Option.elim_some] at hcount
  omega

end Service

end Liaozhai.Server
