import Liaozhai.Server.Guesses
import Liaozhai.Server.Slots

/-!
# Admission

The server as a whole: the accept loop, the handlers that it runs and the rate
limiter that they share. A handler acts as long as its task runs. The bound on the
failed guesses of an address combines the permits of the loop, the check on
connect and the attempts of each connection.
-/

namespace Liaozhai.Server

open Auth Constants Net
open Auth.AuthRateLimiter (atSecond host)
open Interleaved (loadOf)
open Net.Connection (attemptLimit isOpen)
open Utf8Lossy (asBytes)
set_option autoImplicit false

structure ServerState where
  loop : AcceptLoop
  clients : Clients

inductive ServerEvent where
  | loop (e : LoopEvent)
  | accepted (ip : IpAddr)
  | acted (id : Nat) (action : Action)
  | completed (id : Nat) (outcome : Outcome)

/-- A task can be dropped where it awaits. Between the answer of the account store
and the call of the limiter it neither awaits nor panics. -/
def mayStop : Net.Point → Bool
  | .reset _ | .recordFailure => false
  | _ => true

def mayEnd (connection : Connection) (outcome : Outcome) : Bool :=
  match connection.point, outcome with
  | .closed (.ok _), .normal => true
  | .closed (.error _), .error => true
  | point, .panic => mayStop point
  | _, _ => false

theorem mayStop_of_mayEnd {connection : Connection} {outcome : Outcome}
    (h : mayEnd connection outcome = true) : mayStop connection.point = true := by
  unfold mayEnd at h
  split at h
  · rename_i hp
    rw [hp]
    rfl
  · rename_i hp
    rw [hp]
    rfl
  · exact h
  · cases h

theorem closed_of_mayEnd {connection : Connection} {outcome : Outcome}
    (h : mayEnd connection outcome = true) (hreturned : outcome ≠ .panic) :
    ∃ result, connection.point = .closed result := by
  unfold mayEnd at h
  split at h
  · exact ⟨_, by assumption⟩
  · exact ⟨_, by assumption⟩
  · exact absurd rfl hreturned
  · cases h

namespace Client
variable {ctx : SessionContext} {client : Client} {ip : IpAddr}

theorem unreported_of_mayStop (h : mayStop client.connection.point = true) :
    unreported ip client = 0 := by
  rw [unreported]
  split
  · unfold Connection.unreported
    split
    · rename_i hp
      rw [hp] at h
      cases h
    · rfl
  · rfl

theorem share_le {client : Client} (h : Connection.WithinLimit ctx client.connection) :
    share ctx ip client ≤ attemptLimit ctx := by
  have hle := Connection.remaining_le_limit h
  rw [share]
  split
  · refine Nat.le_trans hle ?_
    split
    · exact Nat.le_refl _
    · exact Nat.zero_le _
  · exact Nat.zero_le _

end Client

namespace ServerState
variable (ctx : SessionContext)

def step (s : ServerState) : ServerEvent → Option ServerState
  | .loop e =>
    match e with
    -- these two come with a handler
    | .accepted _ | .completed _ _ => none
    | .drainTimedOut =>
      if s.loop.running.all fun id =>
          (s.clients.processes[id]?).all fun client => mayStop client.connection.point then
        (s.loop.step .drainTimedOut).map fun loop => { s with loop }
      else none
    | e => (s.loop.step e).map fun loop => { s with loop }
  | .accepted ip =>
    (s.loop.step (.accepted s.clients.processes.length)).bind fun loop =>
      (s.clients.step ctx (.joined ⟨ip, .new ctx⟩)).map fun clients => ⟨loop, clients⟩
  | .acted id action =>
    if id ∈ s.loop.running then
      (s.clients.step ctx (.acted id action)).map fun clients => { s with clients }
    else none
  | .completed id outcome =>
    if (s.clients.processes[id]?).any fun client => mayEnd client.connection outcome then
      (s.loop.step (.completed id outcome)).map fun loop => { s with loop }
    else none

def run : ServerState → List ServerEvent → Option ServerState := Machine.run (step ctx)

def start (maxConnections : Nat) (window : Duration) (maxFailures maxEntries : Nat) : ServerState :=
  ⟨.start maxConnections, .start window maxFailures maxEntries⟩

variable {ctx} {s s' s₀ : ServerState} {e : ServerEvent} {es : List ServerEvent} {ip : IpAddr}
  {maxConnections maxFailures maxEntries : Nat} {window : Duration} {t₀ : Instant}

/-- All the steps there are. -/
inductive Takes (ctx : SessionContext) (s : ServerState) : ServerEvent → ServerState → Prop where
  | loop {e : LoopEvent} {loop : AcceptLoop} : s.loop.step e = some loop →
      loop.running = s.loop.running → Takes ctx s (.loop e) ⟨loop, s.clients⟩
  | aborted {loop : AcceptLoop} :
      (∀ id ∈ s.loop.running, ∀ client, s.clients.processes[id]? = some client →
        mayStop client.connection.point = true) →
      s.loop.step .drainTimedOut = some loop → loop.running = [] →
      Takes ctx s (.loop .drainTimedOut) ⟨loop, s.clients⟩
  | accepted (ip : IpAddr) {loop : AcceptLoop} :
      s.loop.step (.accepted s.clients.processes.length) = some loop →
      loop.running = s.loop.running ++ [s.clients.processes.length] →
      Takes ctx s (.accepted ip) ⟨loop, s.clients.shared, s.clients.processes ++ [⟨ip, .new ctx⟩]⟩
  | acted {id : Nat} {action : Action} {client client' : Client} {limiter : AuthRateLimiter} :
      id ∈ s.loop.running → s.clients.processes[id]? = some client →
      client.act ctx s.clients.shared action = some (limiter, client') →
      Takes ctx s (.acted id action) ⟨s.loop, limiter, s.clients.processes.set id client'⟩
  | completed {id : Nat} {outcome : Outcome} {loop : AcceptLoop} {client : Client} :
      s.clients.processes[id]? = some client → mayStop client.connection.point = true →
      s.loop.step (.completed id outcome) = some loop → id ∈ s.loop.running →
      loop.running = s.loop.running.erase id →
      Takes ctx s (.completed id outcome) ⟨loop, s.clients⟩

theorem step_cases (h : step ctx s e = some s') : Takes ctx s e s' := by
  cases e with
  | loop e =>
    cases e with
    | accepted _ | completed _ _ => cases h
    | drainTimedOut =>
      obtain ⟨hall, h⟩ := Option.ite_none_right_eq_some.mp h
      obtain ⟨loop, hloop, rfl⟩ := Option.map_eq_some_iff.mp h
      refine .aborted ?_ hloop (AcceptLoop.running_step hloop)
      intro id hid client hclient
      have hstop := List.all_eq_true.mp hall id hid
      rw [hclient] at hstop
      exact hstop
    | acceptFailed | refused | shutdown | joined _ | drainFinished =>
      obtain ⟨loop, hloop, rfl⟩ := Option.map_eq_some_iff.mp h
      exact .loop hloop (AcceptLoop.running_step hloop)
  | accepted ip =>
    obtain ⟨loop, hloop, h⟩ := Option.bind_eq_some_iff.mp h
    obtain ⟨clients, hclients, rfl⟩ := Option.map_eq_some_iff.mp h
    obtain ⟨_, rfl⟩ := Interleaved.step_joined hclients
    exact .accepted ip hloop (AcceptLoop.running_step hloop)
  | acted id action =>
    obtain ⟨hrunning, h⟩ := Option.ite_none_right_eq_some.mp h
    obtain ⟨clients, hclients, rfl⟩ := Option.map_eq_some_iff.mp h
    obtain ⟨client, limiter, client', hclient, hact, rfl⟩ := Interleaved.step_acted hclients
    exact .acted hrunning hclient hact
  | completed id outcome =>
    obtain ⟨hend, h⟩ := Option.ite_none_right_eq_some.mp h
    obtain ⟨loop, hloop, rfl⟩ := Option.map_eq_some_iff.mp h
    obtain ⟨client, hclient, hend⟩ := (Option.any_eq_true ..).mp hend
    have hmem : id ∈ s.loop.running := by
      cases AcceptLoop.step_cases hloop with
      | completed _ hmem => exact hmem
    exact .completed hclient (mayStop_of_mayEnd hend) hloop hmem (AcceptLoop.running_step hloop)

/-- What holds of the loop, the handlers and the limiter at all times. -/
structure Sound (ctx : SessionContext) (maxConnections : Nat) (window : Duration)
    (maxFailures : Nat) (s : ServerState) : Prop where
  loop : AcceptLoop.Kept maxConnections s.loop
  known : ∀ id ∈ s.loop.running, id < s.clients.processes.length
  clients : Clients.Kept ctx maxFailures s.clients
  window_eq : s.clients.shared.window = window

theorem sound_start : Sound ctx maxConnections window maxFailures
    (start maxConnections window maxFailures maxEntries) := by
  refine ⟨AcceptLoop.kept_start, nofun, ⟨rfl, ?_⟩, rfl⟩
  intro client hclient
  exact absurd hclient List.not_mem_nil

theorem clients_joined (h : Clients.Kept ctx maxFailures s.clients) :
    Clients.Kept ctx maxFailures
      ⟨s.clients.shared, s.clients.processes ++ [⟨ip, .new ctx⟩]⟩ := by
  have hstep : Clients.step ctx s.clients (.joined ⟨ip, .new ctx⟩) =
      some ⟨s.clients.shared, s.clients.processes ++ [⟨ip, .new ctx⟩]⟩ := by
    simp [Clients.step, Interleaved.step, Client.isFresh]
  exact Clients.kept_step h hstep

theorem clients_acted {id : Nat} {action : Action} {client client' : Client}
    {limiter : AuthRateLimiter} (h : Clients.Kept ctx maxFailures s.clients)
    (hclient : s.clients.processes[id]? = some client)
    (hact : client.act ctx s.clients.shared action = some (limiter, client')) :
    Clients.Kept ctx maxFailures ⟨limiter, s.clients.processes.set id client'⟩ := by
  have hstep : Clients.step ctx s.clients (.acted id action) =
      some ⟨limiter, s.clients.processes.set id client'⟩ := by
    simp [Clients.step, Interleaved.step, hclient, hact]
  exact Clients.kept_step h hstep

theorem sound_step (h : Sound ctx maxConnections window maxFailures s)
    (hstep : step ctx s e = some s') : Sound ctx maxConnections window maxFailures s' := by
  obtain ⟨hloop, hknown, hclients, hwindow⟩ := h
  cases step_cases hstep with
  | loop hstep' hrunning =>
    refine ⟨AcceptLoop.kept_step hloop hstep', ?_, hclients, hwindow⟩
    rw [hrunning]
    exact hknown
  | aborted _ hstep' hrunning =>
    refine ⟨AcceptLoop.kept_step hloop hstep', ?_, hclients, hwindow⟩
    rw [hrunning]
    exact nofun
  | accepted ip hstep' hrunning =>
    refine ⟨AcceptLoop.kept_step hloop hstep', ?_, clients_joined hclients, hwindow⟩
    intro id hid
    rw [hrunning] at hid
    rw [List.length_append, List.length_singleton]
    rcases List.mem_append.mp hid with hid | hid
    · exact Nat.lt_succ_of_lt (hknown id hid)
    · rw [List.mem_singleton.mp hid]
      exact Nat.lt_succ_self _
  | acted hid hclient hact =>
    refine ⟨hloop, ?_, clients_acted hclients hclient hact, ?_⟩
    · intro id hid
      rw [List.length_set]
      exact hknown id hid
    · exact (Client.act_settings hact).1.trans hwindow
  | completed _ _ hstep' _ hrunning =>
    refine ⟨AcceptLoop.kept_step hloop hstep', ?_, hclients, hwindow⟩
    intro id hid
    rw [hrunning] at hid
    exact hknown id (List.mem_of_mem_erase hid)

theorem sound_run (hrun : run ctx (start maxConnections window maxFailures maxEntries) es = some s) :
    Sound ctx maxConnections window maxFailures s := by
  apply Machine.run_invariant _ sound_start hrun
  intro t e t' h hstep
  exact sound_step h hstep

/-- The load of the running handlers. -/
def runningLoad (weight : Client → Nat) (s : ServerState) : Nat :=
  loadOf weight s.clients.processes s.loop.running

/-- What the running handlers may still report is bounded by the permits. -/
theorem runningLoad_share_le (h : Sound ctx maxConnections window maxFailures s) (ip : IpAddr) :
    s.runningLoad (Client.share ctx ip) ≤ maxConnections * attemptLimit ctx := by
  have hpermits := h.loop.permits
  have hshares : s.runningLoad (Client.share ctx ip) ≤ s.loop.running.length * attemptLimit ctx := by
    apply Interleaved.loadOf_le
    intro id _ client hclient
    exact Client.share_le (h.clients.withinLimit client (List.mem_of_getElem? hclient))
  exact Nat.le_trans hshares (Nat.mul_le_mul_right _ (by omega))

/-- Nothing is lost from the load when a handler ends, if it had nothing left. -/
theorem runningLoad_completed {id : Nat} {loop : AcceptLoop} {client : Client}
    (hclient : s.clients.processes[id]? = some client) (hid : id ∈ s.loop.running)
    (hrunning : loop.running = s.loop.running.erase id) (weight : Client → Nat) :
    runningLoad weight ⟨loop, s.clients⟩ + weight client = s.runningLoad weight := by
  have herase := Interleaved.loadOf_erase weight s.clients.processes hid
  rw [hclient] at herase
  rw [runningLoad, hrunning]
  exact herase

theorem runningLoad_accepted {weight : Client → Nat} {loop : AcceptLoop} {client : Client}
    (h : Sound ctx maxConnections window maxFailures s)
    (hrunning : loop.running = s.loop.running ++ [s.clients.processes.length]) :
    runningLoad weight ⟨loop, s.clients.shared, s.clients.processes ++ [client]⟩ =
      s.runningLoad weight + weight client := by
  rw [runningLoad, hrunning, Interleaved.loadOf_concat, Interleaved.loadOf_joined h.known,
    List.getElem?_append_right (Nat.le_refl _), Nat.sub_self]
  rfl

theorem runningLoad_acted {id : Nat} {client : Client}
    (h : Sound ctx maxConnections window maxFailures s) (hid : id ∈ s.loop.running)
    (hclient : s.clients.processes[id]? = some client) (weight : Client → Nat) (client' : Client)
    (limiter : AuthRateLimiter) :
    runningLoad weight ⟨s.loop, limiter, s.clients.processes.set id client'⟩ + weight client =
      s.runningLoad weight + weight client' :=
  Interleaved.loadOf_acted (h.loop.sublist.nodup h.loop.nodup) hid hclient client'

/-! ### The bound for one address -/

/-- The client that acts, with the limiter before the call. -/
def ActsAs (P : AuthRateLimiter → Client → Action → Prop) (s : ServerState) : ServerEvent → Prop
  | .acted id action => ∀ client ∈ s.clients.processes[id]?, P s.clients.shared client action
  | _ => True

instance {P : AuthRateLimiter → Client → Action → Prop}
    [∀ limiter client action, Decidable (P limiter client action)] (s : ServerState) :
    ∀ e, Decidable (ActsAs P s e)
  | .acted id action => inferInstanceAs
      (Decidable (∀ client ∈ s.clients.processes[id]?, P s.clients.shared client action))
  | .loop _ | .accepted _ | .completed _ _ => inferInstanceAs (Decidable True)

/-- The account store answers `None` to a guess from the address. -/
def failedGuess (ip : IpAddr) (s : ServerState) : ServerEvent → Bool
  | .acted id action => (s.clients.processes[id]?).any fun client => client.isFailedGuess ip action
  | _ => false

/-- Nobody from the address is connected, and nothing is on record for it. -/
structure Quiet (ip : IpAddr) (s : ServerState) : Prop where
  onRecord : s.clients.shared.onRecord ip = []
  absent : ∀ id ∈ s.loop.running, ∀ client ∈ s.clients.processes[id]?, client.ip ≠ ip

/-- The failed guesses so far are on record or about to be, and the record has room
for all that the running handlers may still report. -/
structure Counted (ctx : SessionContext) (ip : IpAddr) (t₀ : Instant)
    (maxConnections maxFailures : Nat) (guesses : Nat) (s : ServerState) : Prop where
  reported : guesses ≤ s.clients.shared.recordedSince ip t₀ + s.runningLoad (Client.unreported ip)
  room : (s.clients.shared.onRecord ip).length + s.runningLoad (Client.share ctx ip) ≤
    maxFailures - 1 + maxConnections * attemptLimit ctx

theorem runningLoad_of_absent {weight : Client → Nat}
    (hzero : ∀ client : Client, client.ip ≠ ip → weight client = 0) (h : Quiet ip s) :
    s.runningLoad weight = 0 := by
  have hle : s.runningLoad weight ≤ s.loop.running.length * 0 := by
    apply Interleaved.loadOf_le
    intro id hid client hclient
    exact Nat.le_of_eq (hzero client (h.absent id hid client hclient))
  exact Nat.le_zero.mp hle

theorem counted_start (h : Quiet ip s) : Counted ctx ip t₀ maxConnections maxFailures 0 s := by
  refine ⟨Nat.zero_le _, ?_⟩
  have hshare : ∀ client : Client, client.ip ≠ ip → Client.share ctx ip client = 0 :=
    fun client hne => if_neg hne
  rw [h.onRecord, runningLoad_of_absent hshare h]
  exact Nat.zero_le _

theorem counted_accepted {guesses : Nat} {loop : AcceptLoop} {new : IpAddr}
    (hsound : Sound ctx maxConnections window maxFailures s)
    (h : Counted ctx ip t₀ maxConnections maxFailures guesses s)
    (hrunning : loop.running = s.loop.running ++ [s.clients.processes.length]) :
    Counted ctx ip t₀ maxConnections maxFailures guesses
      ⟨loop, s.clients.shared, s.clients.processes ++ [⟨new, .new ctx⟩]⟩ := by
  obtain ⟨hreported, hroom⟩ := h
  have hshare : Client.share ctx ip ⟨new, .new ctx⟩ = 0 :=
    Clients.share_of_fresh (by simp [Client.isFresh])
  refine ⟨?_, ?_⟩
  · rw [runningLoad_accepted hsound hrunning]
    exact Nat.le_trans hreported (Nat.add_le_add_left (Nat.le_add_right _ _) _)
  · rw [runningLoad_accepted hsound hrunning, hshare]
    exact hroom

theorem counted_acted {guesses id : Nat} {action : Action} {client client' : Client}
    {limiter : AuthRateLimiter} (hmax : 1 ≤ maxFailures)
    (hsound : Sound ctx maxConnections window maxFailures s)
    (h : Counted ctx ip t₀ maxConnections maxFailures guesses s)
    (hid : id ∈ s.loop.running) (hclient : s.clients.processes[id]? = some client)
    (hact : client.act ctx s.clients.shared action = some (limiter, client'))
    (hsound' : Sound ctx maxConnections window maxFailures
      ⟨s.loop, limiter, s.clients.processes.set id client'⟩)
    (hordinary : Client.Ordinary ip t₀ window s.clients.shared client action)
    (hprunes : Client.Prunes ip window s.clients.shared client action) :
    Counted ctx ip t₀ maxConnections maxFailures
      (guesses + if client.isFailedGuess ip action then 1 else 0)
      ⟨s.loop, limiter, s.clients.processes.set id client'⟩ := by
  obtain ⟨hreported, hroom⟩ := h
  have hreports := Client.act_reports hact hsound.window_eq hordinary hprunes
  refine ⟨?_, ?_⟩
  · have hload := runningLoad_acted hsound hid hclient (Client.unreported ip) client' limiter
    dsimp only
    omega
  · have hload := runningLoad_acted hsound hid hclient (Client.share ctx ip) client' limiter
    have hmax' : 1 ≤ s.clients.shared.maxFailures := hsound.clients.maxFailures_eq ▸ hmax
    have hinv := hsound.clients.withinLimit client (List.mem_of_getElem? hclient)
    rcases Client.act_spends hmax' hinv hact with (hspent :
        (limiter.onRecord ip).length + Client.share ctx ip client' ≤
          (s.clients.shared.onRecord ip).length + Client.share ctx ip client) | hlow
    · dsimp only
      omega
    · have hshares := runningLoad_share_le hsound' ip
      rw [hsound.clients.maxFailures_eq] at hlow
      dsimp only
      omega

/-- One step of the count. -/
theorem counted_step {guesses : Nat} (hmax : 1 ≤ maxFailures)
    (hsound : Sound ctx maxConnections window maxFailures s)
    (h : Counted ctx ip t₀ maxConnections maxFailures guesses s)
    (hstep : step ctx s e = some s') (hordinary : ActsAs (Client.Ordinary ip t₀ window) s e)
    (hprunes : ActsAs (Client.Prunes ip window) s e) :
    Counted ctx ip t₀ maxConnections maxFailures
      (guesses + if failedGuess ip s e then 1 else 0) s' := by
  have hsound' := sound_step hsound hstep
  cases step_cases hstep with
  | loop _ hrunning =>
    obtain ⟨hreported, hroom⟩ := h
    refine ⟨?_, ?_⟩
    · rw [runningLoad, hrunning]
      exact hreported
    · rw [runningLoad, hrunning]
      exact hroom
  | @aborted loop hstop _ hrunning =>
    obtain ⟨hreported, hroom⟩ := h
    have hnone : s.runningLoad (Client.unreported ip) ≤ s.loop.running.length * 0 := by
      apply Interleaved.loadOf_le
      intro id hid client hclient
      exact Nat.le_of_eq (Client.unreported_of_mayStop (hstop id hid client hclient))
    refine ⟨?_, ?_⟩
    · exact Nat.le_trans hreported (Nat.add_le_add_left (Nat.le_trans hnone (Nat.zero_le _)) _)
    · rw [runningLoad, hrunning]
      exact Nat.le_trans (Nat.add_le_add_left (Nat.zero_le _) _) hroom
  | accepted _ _ hrunning => exact counted_accepted hsound h hrunning
  | @acted id action client client' limiter hid hclient hact =>
    have hguess : failedGuess ip s (.acted id action) = client.isFailedGuess ip action := by
      rw [failedGuess, hclient, Option.any_some]
    rw [hguess]
    exact counted_acted hmax hsound h hid hclient hact hsound' (hordinary client hclient)
      (hprunes client hclient)
  | @completed id outcome loop client hclient hstop _ hid hrunning =>
    obtain ⟨hreported, hroom⟩ := h
    have hunreported := runningLoad_completed hclient hid hrunning (Client.unreported ip)
    have hshare := runningLoad_completed hclient hid hrunning (Client.share ctx ip)
    rw [Client.unreported_of_mayStop hstop] at hunreported
    refine ⟨?_, ?_⟩
    · rw [← hunreported] at hreported
      exact hreported
    · dsimp only
      omega

theorem counted_run {before : List ServerEvent} (hmax : 1 ≤ maxFailures)
    (hbefore : run ctx (start maxConnections window maxFailures maxEntries) before = some s₀)
    (hquiet : Quiet ip s₀) (hrun : run ctx s₀ es = some s)
    (hordinary : Machine.Along (step ctx) (ActsAs (Client.Ordinary ip t₀ window)) s₀ es)
    (hprunes : Machine.Along (step ctx) (ActsAs (Client.Prunes ip window)) s₀ es) :
    Sound ctx maxConnections window maxFailures s ∧
      Counted ctx ip t₀ maxConnections maxFailures
        (Machine.count (step ctx) (failedGuess ip) s₀ es) s := by
  have hall := Machine.run_history (P := fun pre t => pre <+: es →
    Sound ctx maxConnections window maxFailures t ∧
      Counted ctx ip t₀ maxConnections maxFailures
        (Machine.count (step ctx) (failedGuess ip) s₀ pre) t) ?_ ?_ hrun
  · exact hall (List.prefix_refl _)
  · rintro pre t e t' hpre ih hstep ⟨post, rfl⟩
    obtain ⟨hsound, hcounted⟩ := ih ⟨e :: post, by simp⟩
    have hsplit : pre ++ [e] ++ post = pre ++ e :: post := by simp
    rw [Machine.count_snoc hpre]
    refine ⟨sound_step hsound hstep, counted_step hmax hsound hcounted hstep ?_ ?_⟩
    · exact (Machine.along_iff hrun).mp hordinary pre e post t hsplit hpre
    · exact (Machine.along_iff hrun).mp hprunes pre e post t hsplit hpre
  · intro _
    exact ⟨sound_run hbefore, counted_start hquiet⟩

/-- In a period shorter than the window at most `(maxFailures - 1) + maxConnections *
max 1 maxLoginAttempts` guesses from an address fail, if no call of the limiter
prunes its record by another cutoff than the window ago. -/
theorem failedGuesses_le {before : List ServerEvent} (hmax : 1 ≤ maxFailures)
    (hbefore : run ctx (start maxConnections window maxFailures maxEntries) before = some s₀)
    (hquiet : Quiet ip s₀) (hrun : run ctx s₀ es = some s)
    (hordinary : Machine.Along (step ctx) (ActsAs (Client.Ordinary ip t₀ window)) s₀ es)
    (hprunes : Machine.Along (step ctx) (ActsAs (Client.Prunes ip window)) s₀ es) :
    Machine.count (step ctx) (failedGuess ip) s₀ es ≤
      maxFailures - 1 + maxConnections * max 1 ctx.maxLoginAttempts := by
  obtain ⟨hsound, hcounted⟩ := counted_run hmax hbefore hquiet hrun hordinary hprunes
  have hpending : s.runningLoad (Client.unreported ip) ≤ s.runningLoad (Client.share ctx ip) := by
    apply Interleaved.loadOf_mono
    intro id _ client hclient
    exact Client.unreported_le_share
      (hsound.clients.withinLimit client (List.mem_of_getElem? hclient))
  calc
    Machine.count (step ctx) (failedGuess ip) s₀ es
      ≤ s.clients.shared.recordedSince ip t₀ + s.runningLoad (Client.unreported ip) :=
        hcounted.reported
    _ ≤ (s.clients.shared.onRecord ip).length + s.runningLoad (Client.share ctx ip) :=
        Nat.add_le_add (AuthRateLimiter.recordedSince_le _ _ _) hpending
    _ ≤ maxFailures - 1 + maxConnections * max 1 ctx.maxLoginAttempts := hcounted.room

/-- A client from the first host that is let in when it connects and fails once. -/
def failsOnce (id : Nat) (iter : Iteration) (clock : Clock) : List ServerEvent :=
  [.acted id (.checked clock),
    .acted id (.other (.wrote (asBytes (banner ++ Session.initialPrompt)) (.ok ()))),
    .acted id (.other (.received (some (.ok (.line "alice"))))),
    .acted id (.other (.wrote (iacWillEcho ++ asBytes passwordPrompt) (.ok ()))),
    .acted id (.other (.received (some (.ok (.line "sceret"))))),
    .acted id (.other (.wrote iacWontEcho (.ok ()))),
    .acted id (.other (.verifyCalled "alice" "sceret")),
    .acted id (.other (.verifyReturned (.ok none))),
    .acted id (.failed iter clock),
    .acted id (.other (.wrote (asBytes authMaxRetriesMsg) (.ok ()))),
    .acted id (.other (.shutDown (.ok ()))),
    .completed id .normal]

/-- The one permit goes to a client that fails, then to one that is turned away. -/
def secondThrottled : List ServerEvent :=
  .accepted (host 1) :: failsOnce 0 [] (atSecond 101) ++
    [.accepted (host 1), .acted 1 (.checked (atSecond 102))]

theorem failedGuesses_le_secondThrottled :
    Machine.count (step ⟨⟨[]⟩, 1⟩) (failedGuess (host 1)) (start 1 60000000000 1 10)
      secondThrottled ≤ 1 := by
  have hsome : (run ⟨⟨[]⟩, 1⟩ (start 1 60000000000 1 10) secondThrottled).isSome = true := by
    decide +kernel
  obtain ⟨s, hrun⟩ := Option.isSome_iff_exists.mp hsome
  have hordinary : Machine.Along (step ⟨⟨[]⟩, 1⟩)
      (ActsAs (Client.Ordinary (host 1) 100000000000 60000000000)) (start 1 60000000000 1 10)
      secondThrottled := by decide +kernel
  have hprunes : Machine.Along (step ⟨⟨[]⟩, 1⟩) (ActsAs (Client.Prunes (host 1) 60000000000))
      (start 1 60000000000 1 10) secondThrottled := by decide +kernel
  have hquiet : Quiet (host 1) (start 1 60000000000 1 10) := ⟨rfl, nofun⟩
  have hbefore : run ⟨⟨[]⟩, 1⟩ (start 1 60000000000 1 10) [] =
      some (start 1 60000000000 1 10) := rfl
  exact failedGuesses_le (Nat.le_refl 1) hbefore hquiet hrun hordinary hprunes

/-- The permit goes to one client and then to another, half a minute after the clock began. -/
def bothFail : List ServerEvent :=
  .accepted (host 1) :: failsOnce 0 [] (atSecond 31) ++
    .accepted (host 1) :: failsOnce 1 [⟨host 1, []⟩] (atSecond 32)

/-- Nothing is a window of one minute ago, so the check on connect prunes the
failure of a second before, and the address fails again. -/
theorem failedGuesses_bothFail :
    (run ⟨⟨[]⟩, 1⟩ (start 1 60000000000 1 10) bothFail).isSome = true ∧
    Quiet (host 1) (start 1 60000000000 1 10) ∧
    Machine.Along (step ⟨⟨[]⟩, 1⟩) (ActsAs (Client.Ordinary (host 1) 30000000000 60000000000))
      (start 1 60000000000 1 10) bothFail ∧
    ¬ Machine.count (step ⟨⟨[]⟩, 1⟩) (failedGuess (host 1)) (start 1 60000000000 1 10) bothFail ≤
      1 - 1 + 1 * max 1 1 := by
  refine ⟨?_, ⟨rfl, nofun⟩, ?_, ?_⟩
  · decide +kernel
  · decide +kernel
  · decide +kernel

end ServerState

end Liaozhai.Server
