import Liaozhai.Auth.SlidingWindow
import Liaozhai.Library.Interleaved
import Liaozhai.Net.Accounting

/-!
# Guesses from one address

Many connections over one rate limiter, their steps interleaved in any order. The
limiter is asked once for each connection, when it opens; each failure is
reported to it.
-/

namespace Liaozhai.Server

open Auth Constants Net
open Auth.AuthRateLimiter (Evicts atSecond cutoff host)
open Net.Connection (attemptLimit isOpen remaining WithinLimit)
open Utf8Lossy (asBytes)
set_option autoImplicit false

/-- A connection and the address of its peer. -/
structure Client where
  ip : IpAddr
  connection : Connection
  deriving DecidableEq

/-- What a connection does: a call of the rate limiter, or anything else. -/
inductive Action where
  | checked (clock : Clock)
  | reset
  | failed (iter : Iteration) (clock : Clock)
  | other (e : Net.Event)

/-- The events of a connection that are calls of the rate limiter. -/
def isLimiterCall : Net.Event → Bool
  | .throttleChecked _ | .limiterReset | .failureRecorded => true
  | _ => false

/-- The readings of a call lie in a period that is shorter than the window. -/
def InPeriod (t₀ : Instant) (window : Duration) (clock : Clock) : Prop :=
  ∀ t ∈ [clock.now, clock.again, clock.stamp], t₀ ≤ t ∧ t < t₀ + window

instance (t₀ : Instant) (window : Duration) (clock : Clock) :
    Decidable (InPeriod t₀ window clock) :=
  inferInstanceAs (Decidable (∀ t ∈ [clock.now, clock.again, clock.stamp], _))

/-- `Instant::now() - window` is an instant of the platform. -/
def Representable (window : Duration) (clock : Clock) : Prop := clock.earliest ≤ clock.now - window

instance (window : Duration) (clock : Clock) : Decidable (Representable window clock) :=
  inferInstanceAs (Decidable (_ ≤ _))

theorem cutoff_of_representable {window : Duration} {clock : Clock}
    (hclock : Representable window clock) : cutoff window clock = clock.now - window := by
  have hsub : clock.earliest ≤ clock.now - window := hclock
  rw [cutoff, Clock.checkedSub, if_pos hsub, Option.getD_some]

theorem cutoff_le {t₀ : Instant} {window : Duration} {clock : Clock}
    (hperiod : InPeriod t₀ window clock) (hclock : Representable window clock) :
    cutoff window clock ≤ t₀ := by
  have hnow := (hperiod clock.now List.mem_cons_self).2
  rw [cutoff_of_representable hclock]
  exact Int.sub_right_le_of_le_add (Int.le_of_lt hnow)

namespace Client
variable (ctx : SessionContext)

def step (client : Client) (e : Net.Event) : Option Client :=
  (client.connection.step ctx e).map fun connection => { client with connection }

def act (limiter : AuthRateLimiter) (client : Client) : Action → Option (AuthRateLimiter × Client)
  | .checked clock =>
    let answer := limiter.isThrottled client.ip clock
    (client.step ctx (.throttleChecked answer.1)).map fun client' => (answer.2, client')
  | .reset => (client.step ctx .limiterReset).map fun client' => (limiter.reset client.ip, client')
  | .failed iter clock =>
    if iter.Perm limiter.failures.entries then
      (client.step ctx .failureRecorded).map fun client' =>
        (limiter.recordFailure client.ip iter clock, client')
    else none
  | .other e =>
    if isLimiterCall e then none
    else (client.step ctx e).map fun client' => (limiter, client')

def isFresh (client : Client) : Bool := client.connection = .new ctx

variable {ctx} {limiter limiter' : AuthRateLimiter} {client client' : Client} {action : Action}

/-- All the actions there are. -/
inductive Acts (ctx : SessionContext) (limiter : AuthRateLimiter) (client : Client) :
    Action → AuthRateLimiter → Connection → Prop where
  | checked (clock : Clock) {c : Connection} :
      client.connection.step ctx (.throttleChecked (limiter.isThrottled client.ip clock).1) =
        some c → Acts ctx limiter client (.checked clock) (limiter.isThrottled client.ip clock).2 c
  | reset {c : Connection} : client.connection.step ctx .limiterReset = some c →
      Acts ctx limiter client .reset (limiter.reset client.ip) c
  | failed (iter : Iteration) (clock : Clock) {c : Connection} :
      client.connection.step ctx .failureRecorded = some c →
      Acts ctx limiter client (.failed iter clock) (limiter.recordFailure client.ip iter clock) c
  | other {e : Net.Event} {c : Connection} : isLimiterCall e = false →
      client.connection.step ctx e = some c → Acts ctx limiter client (.other e) limiter c

theorem act_cases (h : client.act ctx limiter action = some (limiter', client')) :
    Acts ctx limiter client action limiter' client'.connection ∧ client'.ip = client.ip := by
  cases action with
  | checked clock =>
    obtain ⟨_, hclient, ⟨⟩⟩ := Option.map_eq_some_iff.mp h
    obtain ⟨c, hstep, rfl⟩ := Option.map_eq_some_iff.mp hclient
    exact ⟨.checked clock hstep, rfl⟩
  | reset =>
    obtain ⟨_, hclient, ⟨⟩⟩ := Option.map_eq_some_iff.mp h
    obtain ⟨c, hstep, rfl⟩ := Option.map_eq_some_iff.mp hclient
    exact ⟨.reset hstep, rfl⟩
  | failed iter clock =>
    obtain ⟨_, h⟩ := Option.ite_none_right_eq_some.mp h
    obtain ⟨_, hclient, ⟨⟩⟩ := Option.map_eq_some_iff.mp h
    obtain ⟨c, hstep, rfl⟩ := Option.map_eq_some_iff.mp hclient
    exact ⟨.failed iter clock hstep, rfl⟩
  | other e =>
    obtain ⟨hother, h⟩ := Option.ite_none_left_eq_some.mp h
    obtain ⟨_, hclient, ⟨⟩⟩ := Option.map_eq_some_iff.mp h
    obtain ⟨c, hstep, rfl⟩ := Option.map_eq_some_iff.mp hclient
    exact ⟨.other (Bool.not_eq_true _ ▸ hother) hstep, rfl⟩

/-- Every action is a step of the handler. -/
theorem act_step (h : client.act ctx limiter action = some (limiter', client')) :
    ∃ e, client.connection.step ctx e = some client'.connection := by
  cases (act_cases h).1 with
  | checked _ hstep => exact ⟨_, hstep⟩
  | reset hstep => exact ⟨_, hstep⟩
  | failed _ _ hstep => exact ⟨_, hstep⟩
  | other _ hstep => exact ⟨_, hstep⟩

theorem act_settings (h : client.act ctx limiter action = some (limiter', client')) :
    limiter'.window = limiter.window ∧ limiter'.maxFailures = limiter.maxFailures := by
  cases (act_cases h).1 with
  | checked _ _ => exact AuthRateLimiter.isThrottled_settings
  | reset _ => exact ⟨rfl, rfl⟩
  | failed _ _ _ => exact ⟨rfl, rfl⟩
  | other _ _ => exact ⟨rfl, rfl⟩

/-- The failures that a client may still report for an address. -/
def share (ctx : SessionContext) (ip : IpAddr) (client : Client) : Nat :=
  if client.ip = ip then remaining ctx client.connection else 0

theorem share_le_of_remaining_le {ip : IpAddr} (hip : client'.ip = client.ip)
    (h : remaining ctx client'.connection ≤ remaining ctx client.connection) :
    share ctx ip client' ≤ share ctx ip client := by
  rw [share, share, hip]
  split
  · exact h
  · exact Nat.le_refl _

/-- An action adds nothing to the record of an address and the share of the client
together, unless it is the check that lets the client in. -/
theorem act_spends {ip : IpAddr} (hmax : 1 ≤ limiter.maxFailures)
    (hinv : WithinLimit ctx client.connection)
    (h : client.act ctx limiter action = some (limiter', client')) :
    (limiter'.onRecord ip).length + share ctx ip client' ≤
        (limiter.onRecord ip).length + share ctx ip client ∨
      (limiter'.onRecord ip).length ≤ limiter.maxFailures - 1 := by
  obtain ⟨hacts, hip⟩ := act_cases h
  cases hacts with
  | checked clock hstep =>
    have hrecord : ((limiter.isThrottled client.ip clock).2.onRecord ip).length ≤
        (limiter.onRecord ip).length := AuthRateLimiter.length_onRecord_isThrottled_le
    cases hthrottled : (limiter.isThrottled client.ip clock).1 with
    | true =>
      rw [hthrottled] at hstep
      have hshare := Connection.remaining_step hstep nofun nofun
      exact .inl (Nat.add_le_add hrecord (share_le_of_remaining_le hip hshare))
    | false =>
      by_cases hsame : client.ip = ip
      · -- the check that lets the client in
        subst hsame
        have hrecent := (AuthRateLimiter.isThrottled_eq_false hmax).mp hthrottled
        rw [AuthRateLimiter.onRecord_isThrottled]
        exact .inr (Nat.le_sub_one_of_lt hrecent)
      · rw [share, share, hip, if_neg hsame, if_neg hsame]
        exact .inl hrecord
  | reset hstep =>
    have hshare := Connection.remaining_step hstep nofun nofun
    exact .inl (Nat.add_le_add AuthRateLimiter.length_onRecord_erase_le
      (share_le_of_remaining_le hip hshare))
  | failed iter clock hstep =>
    have hrecord := @AuthRateLimiter.length_onRecord_recordFailure_le limiter client.ip iter clock ip
    have hshare := Connection.remaining_failureRecorded hinv hstep
    left
    by_cases hsame : client.ip = ip
    · rw [share, share, hip, if_pos hsame, if_pos hsame]
      rw [if_pos hsame.symm] at hrecord
      omega
    · rw [share, share, hip, if_neg hsame, if_neg hsame]
      rw [if_neg (Ne.symm hsame)] at hrecord
      exact hrecord
  | other hother hstep =>
    have hshare := Connection.remaining_step hstep (by rintro rfl; cases hother)
      (by rintro rfl; cases hother)
    exact .inl (Nat.add_le_add_left (share_le_of_remaining_le hip hshare) _)

/-! ### Failed guesses and their reports -/

/-- An action in the period that removes nothing from the record of an address: no
successful login from there, and no eviction of its entry. -/
def Ordinary (ip : IpAddr) (t₀ : Instant) (window : Duration) (limiter : AuthRateLimiter)
    (client : Client) : Action → Prop
  | .checked clock => InPeriod t₀ window clock
  | .reset => client.ip ≠ ip
  | .failed iter clock => InPeriod t₀ window clock ∧ ¬ Evicts limiter client.ip iter ip
  | .other _ => True

/-- Where a call prunes what is on record for the address, the cutoff is the window ago. -/
def Prunes (ip : IpAddr) (window : Duration) (limiter : AuthRateLimiter) (client : Client) :
    Action → Prop
  | .checked clock | .failed _ clock =>
    client.ip = ip → limiter.onRecord ip ≠ [] → Representable window clock
  | .reset | .other _ => True

instance (ip : IpAddr) (t₀ : Instant) (window : Duration) (limiter : AuthRateLimiter)
    (client : Client) : ∀ action, Decidable (Ordinary ip t₀ window limiter client action)
  | .checked clock => inferInstanceAs (Decidable (InPeriod t₀ window clock))
  | .reset => inferInstanceAs (Decidable (client.ip ≠ ip))
  | .failed iter clock =>
    inferInstanceAs (Decidable (InPeriod t₀ window clock ∧ ¬ Evicts limiter client.ip iter ip))
  | .other _ => inferInstanceAs (Decidable True)

instance (ip : IpAddr) (window : Duration) (limiter : AuthRateLimiter) (client : Client) :
    ∀ action, Decidable (Prunes ip window limiter client action)
  | .checked clock | .failed _ clock =>
    inferInstanceAs
      (Decidable (client.ip = ip → limiter.onRecord ip ≠ [] → Representable window clock))
  | .reset | .other _ => inferInstanceAs (Decidable True)

def unreported (ip : IpAddr) (client : Client) : Nat :=
  if client.ip = ip then Connection.unreported client.connection.point else 0

/-- A guess from the address is refused. -/
def isFailedGuess (ip : IpAddr) (client : Client) : Action → Bool
  | .other e => client.ip = ip ∧ Connection.isRefusal e
  | _ => false

section Reports
variable {ip : IpAddr} {t₀ : Instant} {window : Duration}

theorem unreported_eq_zero {e : Event} {c' : Connection}
    (hstep : Connection.step ctx client.connection e = some c') (h : Connection.isReport e = false) :
    unreported ip client = 0 := by
  rw [unreported, Connection.unreported_eq_zero hstep h, ite_self]

theorem unreported_of_fresh (h : client.isFresh ctx = true) : unreported ip client = 0 := by
  rw [unreported, of_decide_eq_true h]
  split
  · rfl
  · rfl

/-- A refusal that is not reported yet counts among what may still be reported. -/
theorem unreported_le_share (h : WithinLimit ctx client.connection) :
    unreported ip client ≤ share ctx ip client := by
  rw [unreported, share]
  split
  · unfold Connection.unreported
    split
    · rename_i hp
      have hle := h.le
      rw [Connection.remaining_recordFailure hp]
      omega
    · exact Nat.zero_le _
  · exact Nat.le_refl _

/-- In the period a call drops nothing of it. -/
theorem countP_recent {clock : Clock} (hwindow : limiter.window = window)
    (hperiod : InPeriod t₀ window clock)
    (hclock : limiter.onRecord ip ≠ [] → Representable window clock) :
    ((limiter.recent ip clock).countP fun t => t₀ ≤ t) = limiter.recordedSince ip t₀ := by
  apply AuthRateLimiter.countP_recent
  intro hne
  rw [hwindow]
  exact cutoff_le hperiod (hclock hne)

/-- Every refused guess of the period is on the record, or about to be. -/
theorem act_reports (h : client.act ctx limiter action = some (limiter', client'))
    (hwindow : limiter.window = window)
    (hordinary : Ordinary ip t₀ window limiter client action)
    (hprunes : Prunes ip window limiter client action) :
    limiter.recordedSince ip t₀ + unreported ip client +
        (if isFailedGuess ip client action then 1 else 0) ≤
      limiter'.recordedSince ip t₀ + unreported ip client' := by
  obtain ⟨hacts, hip⟩ := act_cases h
  cases hacts with
  | checked clock hstep =>
    have hzero : unreported ip client = 0 := unreported_eq_zero hstep rfl
    have hsame : (limiter.isThrottled client.ip clock).2.recordedSince ip t₀ =
        limiter.recordedSince ip t₀ := by
      by_cases hsame : client.ip = ip
      · rw [AuthRateLimiter.recordedSince, hsame, AuthRateLimiter.onRecord_isThrottled]
        exact countP_recent hwindow hordinary (hprunes hsame)
      · exact AuthRateLimiter.recordedSince_congr
          (AuthRateLimiter.onRecord_isThrottled_ne (Ne.symm hsame))
    rw [hsame, hzero]
    exact Nat.le_add_right _ _
  | reset hstep =>
    have hzero : unreported ip client = 0 := unreported_eq_zero hstep rfl
    have hsame : (limiter.reset client.ip).recordedSince ip t₀ = limiter.recordedSince ip t₀ :=
      AuthRateLimiter.recordedSince_congr (AuthRateLimiter.onRecord_erase_ne (Ne.symm hordinary))
    rw [hsame, hzero]
    exact Nat.le_add_right _ _
  | failed iter clock hstep =>
    obtain ⟨hperiod, hkept⟩ := hordinary
    by_cases hsame : client.ip = ip
    · have hstamp : t₀ ≤ clock.stamp := (hperiod clock.stamp (by simp)).1
      have hrecord : (limiter.recordFailure client.ip iter clock).recordedSince ip t₀ =
          limiter.recordedSince ip t₀ + 1 := by
        rw [AuthRateLimiter.recordedSince, hsame, AuthRateLimiter.onRecord_recordFailure,
          List.countP_append, List.countP_singleton, if_pos (decide_eq_true hstamp),
          countP_recent hwindow hperiod (hprunes hsame)]
      have hone : unreported ip client ≤ 1 := by
        rw [unreported, if_pos hsame]
        exact Connection.unreported_le_one _
      rw [hrecord]
      simp only [isFailedGuess, Bool.false_eq_true, if_false]
      omega
    · have hzero : unreported ip client = 0 := by
        rw [unreported, if_neg hsame]
      have hrecord : (limiter.recordFailure client.ip iter clock).recordedSince ip t₀ =
          limiter.recordedSince ip t₀ :=
        AuthRateLimiter.recordedSince_congr
          (AuthRateLimiter.onRecord_recordFailure_ne (Ne.symm hsame) hkept)
      rw [hrecord, hzero]
      exact Nat.le_add_right _ _
  | @other e _ hother hstep =>
    have hreport : Connection.isReport e = false := by
      cases e with
      | failureRecorded => cases hother
      | _ => rfl
    rw [unreported_eq_zero hstep hreport, Nat.add_zero]
    refine Nat.add_le_add_left ?_ _
    -- a refusal leads to the point before its report
    split
    · rename_i hguess
      obtain ⟨hsame, hrefused⟩ := of_decide_eq_true hguess
      rw [unreported, if_pos (hip.trans hsame), Connection.unreported_of_refusal hstep hrefused]
    · exact Nat.zero_le _

end Reports

end Client

abbrev Clients := Interleaved.System AuthRateLimiter Client

abbrev ClientsEvent := Interleaved.Event Client Action

namespace Clients
variable (ctx : SessionContext)

def step : Clients → ClientsEvent → Option Clients :=
  Interleaved.step (Client.isFresh ctx) (Client.act ctx)

def run : Clients → List ClientsEvent → Option Clients := Machine.run (step ctx)

def start (window : Duration) (maxFailures maxEntries : Nat) : Clients :=
  ⟨.new window maxFailures maxEntries, []⟩

/-- The number of connections of an address that are past its check and not closed. -/
def openFrom (ip : IpAddr) (s : Clients) : Nat :=
  s.processes.countP fun client => client.ip = ip ∧ client.connection.isOpen

/-- The account store answers `None` to a guess from the address. -/
def failedGuess (ip : IpAddr) (s : Clients) : ClientsEvent → Bool
  | .acted index action => (s.processes[index]?).any fun client => client.isFailedGuess ip action
  | .joined _ => false

variable {ctx} {s s' s₀ : Clients} {e : ClientsEvent} {es before : List ClientsEvent} {ip : IpAddr}
  {t₀ : Instant} {window : Duration} {maxFailures maxEntries allowed : Nat}

/-- What holds of the limiter and the connections at all times. -/
structure Kept (ctx : SessionContext) (maxFailures : Nat) (s : Clients) : Prop where
  maxFailures_eq : s.shared.maxFailures = maxFailures
  withinLimit : ∀ client ∈ s.processes, WithinLimit ctx client.connection

theorem withinLimit_of_fresh {client : Client} (h : client.isFresh ctx = true) :
    WithinLimit ctx client.connection := by
  rw [of_decide_eq_true h]
  exact Connection.withinLimit_new

theorem settings_step (hstep : step ctx s e = some s') :
    s'.shared.window = s.shared.window ∧ s'.shared.maxFailures = s.shared.maxFailures := by
  cases e with
  | joined client =>
    obtain ⟨_, rfl⟩ := Interleaved.step_joined hstep
    exact ⟨rfl, rfl⟩
  | acted index action =>
    obtain ⟨client, limiter, client', _, hact, rfl⟩ := Interleaved.step_acted hstep
    exact Client.act_settings hact

theorem window_run (hrun : run ctx s es = some s') : s'.shared.window = s.shared.window := by
  refine Machine.run_invariant (P := fun t => t.shared.window = s.shared.window) ?_ rfl hrun
  intro t e t' h hstep
  exact (settings_step hstep).1.trans h

theorem kept_step (h : Kept ctx maxFailures s) (hstep : step ctx s e = some s') :
    Kept ctx maxFailures s' := by
  refine ⟨?_, ?_⟩
  · exact (settings_step hstep).2.trans h.maxFailures_eq
  · refine Interleaved.all_step (fun client => WithinLimit ctx client.connection)
      (fun _ hfresh => withinLimit_of_fresh hfresh) ?_ h.withinLimit hstep
    intro limiter client action limiter' client' hinv hact
    obtain ⟨e, he⟩ := Client.act_step hact
    exact Connection.withinLimit_step hinv he

theorem share_of_fresh {client : Client} (h : client.isFresh ctx = true) :
    client.share ctx ip = 0 := by
  rw [Client.share, of_decide_eq_true h]
  split
  · rfl
  · rfl

/-- The shares of an address are those of its open connections. -/
theorem load_le (h : Kept ctx maxFailures s) (hopen : s.openFrom ip ≤ allowed) :
    Interleaved.load (Client.share ctx ip) s ≤ allowed * attemptLimit ctx := by
  refine Nat.le_trans (Interleaved.load_le_countP ?_) (Nat.mul_le_mul_right _ hopen)
  intro client hmem
  have hle := Connection.remaining_le_limit (h.withinLimit client hmem)
  rw [Client.share]
  by_cases hip : client.ip = ip
  · simpa [hip] using hle
  · simp [hip]

/-- The failures on record, with those that the open connections may still report. -/
def Budget (ctx : SessionContext) (ip : IpAddr) (maxFailures allowed : Nat) (s : Clients) : Prop :=
  (s.shared.onRecord ip).length + Interleaved.load (Client.share ctx ip) s ≤
    maxFailures - 1 + allowed * attemptLimit ctx

theorem budget_step (hmax : 1 ≤ maxFailures) (hkept : Kept ctx maxFailures s)
    (hopen : s'.openFrom ip ≤ allowed) (h : Budget ctx ip maxFailures allowed s)
    (hstep : step ctx s e = some s') : Budget ctx ip maxFailures allowed s' := by
  refine Interleaved.budget_step (fun limiter => (limiter.onRecord ip).length)
    (fun _ hfresh => share_of_fresh hfresh) ?_ hkept.withinLimit
    (load_le (kept_step hkept hstep) hopen) h hstep
  intro client action limiter' client' hinv hact
  have hmax' : 1 ≤ s.shared.maxFailures := hkept.maxFailures_eq ▸ hmax
  rw [← hkept.maxFailures_eq]
  exact Client.act_spends hmax' hinv hact

theorem kept_run (hrun : run ctx (start window maxFailures maxEntries) es = some s) :
    Kept ctx maxFailures s := by
  refine Machine.run_invariant (fun t e t' => kept_step) ?_ hrun
  exact ⟨rfl, fun client hmem => absurd hmem List.not_mem_nil⟩

theorem budget_run (hmax : 1 ≤ maxFailures)
    (hrun : run ctx (start window maxFailures maxEntries) es = some s)
    (hopen : Machine.Throughout (step ctx) (fun t => t.openFrom ip ≤ allowed)
      (start window maxFailures maxEntries) es) :
    Budget ctx ip maxFailures allowed s := by
  have hall := Machine.run_history (P := fun es t => Machine.Throughout (step ctx)
    (fun t => t.openFrom ip ≤ allowed) (start window maxFailures maxEntries) es →
      Budget ctx ip maxFailures allowed t) ?_ ?_ hrun
  · exact hall hopen
  · intro es t e t' hbefore h hstep hopen
    have hkept : Kept ctx maxFailures t := kept_run hbefore
    have hnow : t'.openFrom ip ≤ allowed :=
      hopen (es ++ [e]) t' (List.prefix_refl _) (Machine.run_snoc.mpr ⟨t, hbefore, hstep⟩)
    refine budget_step hmax hkept hnow (h ?_) hstep
    intro pre u hpre
    exact hopen pre u (hpre.trans (List.prefix_append es [e]))
  · intro _
    exact Nat.zero_le _

/-- The client at an index passed the check of its address. -/
def PassedCheck (ctx : SessionContext) (first : Clients) (es : List ClientsEvent) (index : Nat)
    (client : Client) : Prop :=
  ∃ pre clock post t, es = pre ++ .acted index (.checked clock) :: post ∧
    run ctx first pre = some t ∧ (t.shared.isThrottled client.ip clock).1 = false

theorem PassedCheck.later {first : Clients} {index : Nat} {client client' : Client}
    (h : PassedCheck ctx first es index client) (hip : client'.ip = client.ip) (e : ClientsEvent) :
    PassedCheck ctx first (es ++ [e]) index client' := by
  obtain ⟨pre, clock, post, t, rfl, hpre, hfree⟩ := h
  refine ⟨pre, clock, post ++ [e], t, ?_, hpre, ?_⟩
  · rw [List.append_assoc, List.cons_append]
  · rw [hip]
    exact hfree

theorem not_isOpen_of_fresh {client : Client} (h : client.isFresh ctx = true) :
    client.connection.isOpen = false := by
  rw [of_decide_eq_true h]
  rfl

/-- Only the check of its address opens a client. -/
theorem isOpen_act {limiter limiter' : AuthRateLimiter} {client client' : Client} {action : Action}
    (h : client.act ctx limiter action = some (limiter', client'))
    (hopen : client'.connection.isOpen = true) :
    client.connection.isOpen = true ∨
      ∃ clock, action = .checked clock ∧ (limiter.isThrottled client.ip clock).1 = false := by
  cases (Client.act_cases h).1 with
  | checked clock hstep =>
    rcases Connection.isOpen_step hstep hopen with hbefore | hcheck
    · exact .inl hbefore
    · exact .inr ⟨clock, rfl, Net.Event.throttleChecked.inj hcheck⟩
  | reset hstep => exact .inl ((Connection.isOpen_step hstep hopen).resolve_right nofun)
  | failed iter clock hstep => exact .inl ((Connection.isOpen_step hstep hopen).resolve_right nofun)
  | other hother hstep =>
    refine .inl ((Connection.isOpen_step hstep hopen).resolve_right ?_)
    rintro rfl
    cases hother

/-- Every open client passed the check of its address. -/
theorem passedCheck_run {first : Clients} (hfirst : first.processes = [])
    (hrun : run ctx first es = some s) :
    ∀ index client, s.processes[index]? = some client → client.connection.isOpen = true →
      PassedCheck ctx first es index client := by
  refine Machine.run_history (P := fun es t => ∀ index client, t.processes[index]? = some client →
    client.connection.isOpen = true → PassedCheck ctx first es index client) ?_ ?_ hrun
  · intro es t e t' hbefore h hstep index client hclient hopen
    rcases Interleaved.step_process hstep hclient with
      hold | hfresh | ⟨action, before, rfl, hthere, hact⟩
    · exact (h index client hold hopen).later rfl e
    · rw [not_isOpen_of_fresh hfresh] at hopen
      cases hopen
    · have hip := (Client.act_cases hact).2
      rcases isOpen_act hact hopen with hopen | ⟨clock, rfl, hfree⟩
      · exact (h index before hthere hopen).later hip _
      · refine ⟨es, clock, [], t, rfl, hbefore, ?_⟩
        rw [hip]
        exact hfree
  · intro index client hclient
    rw [hfirst] at hclient
    cases hclient

/-- A guess is made by a client that is open. -/
theorem isOpen_of_verifyCalled {index : Nat} {username password : String}
    (h : step ctx s (.acted index (.other (.verifyCalled username password))) = some s') :
    ∃ client, s.processes[index]? = some client ∧ client.connection.isOpen = true := by
  obtain ⟨client, limiter, client', hclient, hact, _⟩ := Interleaved.step_acted h
  refine ⟨client, hclient, ?_⟩
  cases (Client.act_cases hact).1 with
  | other _ hstep =>
    generalize client'.connection = connection' at hstep
    cases Connection.step_cases hstep with
    | verifyCalled hp => rw [isOpen, hp]

/-- One step of the count of failed guesses. -/
theorem reported_step {guesses : Nat} (hwindow : s.shared.window = window)
    (hstep : step ctx s e = some s')
    (hordinary : Interleaved.ActsAs (Client.Ordinary ip t₀ window) s e)
    (hprunes : Interleaved.ActsAs (Client.Prunes ip window) s e)
    (h : guesses ≤ s.shared.recordedSince ip t₀ + Interleaved.load (Client.unreported ip) s) :
    guesses + (if failedGuess ip s e then 1 else 0) ≤
      s'.shared.recordedSince ip t₀ + Interleaved.load (Client.unreported ip) s' := by
  cases e with
  | joined client =>
    obtain ⟨hfresh, rfl⟩ := Interleaved.step_joined hstep
    have hzero : Client.unreported ip client = 0 := Client.unreported_of_fresh hfresh
    simp only [failedGuess, Interleaved.load, List.map_append, List.map_singleton, List.sum_append,
      List.sum_singleton, hzero] at h ⊢
    exact h
  | acted index action =>
    obtain ⟨client, limiter, client', hclient, hact, rfl⟩ := Interleaved.step_acted hstep
    have hreports := Client.act_reports hact hwindow (hordinary client hclient)
      (hprunes client hclient)
    have hload : ((s.processes.set index client').map (Client.unreported ip)).sum +
        Client.unreported ip client = (s.processes.map (Client.unreported ip)).sum +
          Client.unreported ip client' := Interleaved.sum_set hclient client'
    have hguess : failedGuess ip s (.acted index action) = client.isFailedGuess ip action := by
      rw [failedGuess, hclient, Option.any_some]
    rw [hguess]
    simp only [Interleaved.load] at h ⊢
    omega

/-- The failed guesses of a period are on record at its end, but for those that are about
to be reported. -/
theorem reported_run (hwindow : s₀.shared.window = window) (hrun : run ctx s₀ es = some s)
    (hordinary : Machine.Along (step ctx)
      (Interleaved.ActsAs (Client.Ordinary ip t₀ window)) s₀ es)
    (hprunes : Machine.Along (step ctx) (Interleaved.ActsAs (Client.Prunes ip window)) s₀ es) :
    Machine.count (step ctx) (failedGuess ip) s₀ es ≤
      s.shared.recordedSince ip t₀ + Interleaved.load (Client.unreported ip) s := by
  have hall := Machine.run_history (P := fun pre t => pre <+: es →
    Machine.count (step ctx) (failedGuess ip) s₀ pre ≤
      t.shared.recordedSince ip t₀ + Interleaved.load (Client.unreported ip) t) ?_ ?_ hrun
  · exact hall (List.prefix_refl _)
  · rintro pre t e t' hpre ih hstep ⟨post, rfl⟩
    have hsplit : pre ++ [e] ++ post = pre ++ e :: post := by simp
    rw [Machine.count_snoc hpre]
    refine reported_step ((window_run hpre).trans hwindow) hstep ?_ ?_ (ih ⟨e :: post, by simp⟩)
    · exact (Machine.along_iff hrun).mp hordinary pre e post t hsplit hpre
    · exact (Machine.along_iff hrun).mp hprunes pre e post t hsplit hpre
  · exact fun _ => Nat.zero_le _

/-- Whoever makes a guess passed the check of its address when it connected: if the clock
reaches back that far, fewer failures than the maximum were on record for the window up to
then. After that the record of an address grows by what the connections open by then may
still fail. No more guesses fail within a window, unless one succeeds or the address is
evicted. -/
theorem guess_gated (hmax : 1 ≤ maxFailures)
    (hbefore : run ctx (start window maxFailures maxEntries) before = some s₀)
    (hrun : run ctx s₀ es = some s) :
    (∀ index username password s',
      step ctx s (.acted index (.other (.verifyCalled username password))) = some s' →
      ∃ client pre clock post t, s.processes[index]? = some client ∧
        before ++ es = pre ++ .acted index (.checked clock) :: post ∧
        run ctx (start window maxFailures maxEntries) pre = some t ∧
        (t.shared.isThrottled client.ip clock).1 = false ∧
        (Representable window clock →
          t.shared.recordedSince client.ip (clock.now - window) < maxFailures)) ∧
      ∀ ip allowed,
        Machine.Throughout (step ctx) (fun t => t.openFrom ip ≤ allowed)
          (start window maxFailures maxEntries) (before ++ es) →
        (s.shared.onRecord ip).length ≤ maxFailures - 1 + allowed * max 1 ctx.maxLoginAttempts ∧
        ∀ t₀, Machine.Along (step ctx)
            (Interleaved.ActsAs (Client.Ordinary ip t₀ window)) s₀ es →
          Machine.Along (step ctx) (Interleaved.ActsAs (Client.Prunes ip window)) s₀ es →
          Machine.count (step ctx) (failedGuess ip) s₀ es ≤
            maxFailures - 1 + allowed * max 1 ctx.maxLoginAttempts := by
  have hall : run ctx (start window maxFailures maxEntries) (before ++ es) = some s :=
    Machine.run_append.mpr ⟨s₀, hbefore, hrun⟩
  constructor
  · intro index username password s' hstep
    obtain ⟨client, hclient, hopen⟩ := isOpen_of_verifyCalled hstep
    obtain ⟨pre, clock, post, t, hes, hpre, hfree⟩ :=
      passedCheck_run rfl hall index client hclient hopen
    refine ⟨client, pre, clock, post, t, hclient, hes, hpre, hfree, ?_⟩
    intro hclock
    have hkept : Kept ctx maxFailures t := kept_run hpre
    have hwindow : t.shared.window = window := window_run hpre
    have hmax' : 1 ≤ t.shared.maxFailures := hkept.maxFailures_eq ▸ hmax
    have hrecent := (AuthRateLimiter.isThrottled_eq_false hmax').mp hfree
    have hcutoff : t.shared.onRecord client.ip ≠ [] →
        cutoff t.shared.window clock ≤ clock.now - window := by
      intro _
      rw [hwindow, cutoff_of_representable hclock]
    rw [hkept.maxFailures_eq] at hrecent
    rw [← AuthRateLimiter.countP_recent hcutoff]
    exact Nat.lt_of_le_of_lt List.countP_le_length hrecent
  · intro ip allowed hopen
    have hbudget := budget_run hmax hall hopen
    refine ⟨Nat.le_trans (Nat.le_add_right _ _) hbudget, ?_⟩
    intro t₀ hordinary hprunes
    have hpending : Interleaved.load (Client.unreported ip) s ≤
        Interleaved.load (Client.share ctx ip) s := by
      apply Interleaved.load_mono
      intro client hclient
      exact Client.unreported_le_share ((kept_run hall).withinLimit client hclient)
    calc
      Machine.count (step ctx) (failedGuess ip) s₀ es
        ≤ s.shared.recordedSince ip t₀ + Interleaved.load (Client.unreported ip) s :=
          reported_run (window_run hbefore) hrun hordinary hprunes
      _ ≤ (s.shared.onRecord ip).length + Interleaved.load (Client.share ctx ip) s :=
          Nat.add_le_add (AuthRateLimiter.recordedSince_le _ _ _) hpending
      _ ≤ maxFailures - 1 + allowed * max 1 ctx.maxLoginAttempts := hbudget

/-- The first client types a name and a password up to the call of the store. -/
def typed (name password : String) : List ClientsEvent :=
  [.other (.received (some (.ok (.line name)))),
    .other (.wrote (iacWillEcho ++ asBytes passwordPrompt) (.ok ())),
    .other (.received (some (.ok (.line password)))),
    .other (.wrote iacWontEcho (.ok ()))].map (.acted 0)

/-- A client from the first host connects, fails once and types another password. -/
def failedOnce : List ClientsEvent :=
  .joined ⟨host 1, .new ⟨⟨[]⟩, 2⟩⟩ :: .acted 0 (.checked (atSecond 101)) ::
    .acted 0 (.other (.wrote (asBytes (banner ++ Session.initialPrompt)) (.ok ()))) ::
    typed "alice" "sceret" ++
    [.other (.verifyCalled "alice" "sceret"), .other (.verifyReturned (.ok none)),
      .failed [] (atSecond 102),
      .other (.wrote (asBytes (authFailedMsg ++ usernamePrompt)) (.ok ()))].map (.acted 0) ++
    typed "alice" "secert"

theorem guess_gated_failedOnce :
    ∃ s, run ⟨⟨[]⟩, 2⟩ (start 60000000000 1 10) failedOnce = some s ∧
      (∃ client pre clock post t, s.processes[0]? = some client ∧
        failedOnce = pre ++ .acted 0 (.checked clock) :: post ∧
        run ⟨⟨[]⟩, 2⟩ (start 60000000000 1 10) pre = some t ∧
        (t.shared.isThrottled client.ip clock).1 = false ∧
        (Representable 60000000000 clock →
          t.shared.recordedSince client.ip (clock.now - 60000000000) < 1)) ∧
      (s.shared.onRecord (host 1)).length ≤ 2 ∧
      Machine.count (step ⟨⟨[]⟩, 2⟩) (failedGuess (host 1)) (start 60000000000 1 10) failedOnce ≤
        2 := by
  have hsome : ((run ⟨⟨[]⟩, 2⟩ (start 60000000000 1 10) failedOnce).bind fun s =>
      step ⟨⟨[]⟩, 2⟩ s (.acted 0 (.other (.verifyCalled "alice" "secert")))).isSome = true := by
    decide +kernel
  obtain ⟨s', h⟩ := Option.isSome_iff_exists.mp hsome
  obtain ⟨s, hrun, hstep⟩ := Option.bind_eq_some_iff.mp h
  have hopen : Machine.Throughout (step ⟨⟨[]⟩, 2⟩) (fun t => t.openFrom (host 1) ≤ 1)
      (start 60000000000 1 10) failedOnce := by decide +kernel
  have hordinary : Machine.Along (step ⟨⟨[]⟩, 2⟩)
      (Interleaved.ActsAs (Client.Ordinary (host 1) 100000000000 60000000000))
      (start 60000000000 1 10) failedOnce := by decide +kernel
  have hprunes : Machine.Along (step ⟨⟨[]⟩, 2⟩)
      (Interleaved.ActsAs (Client.Prunes (host 1) 60000000000)) (start 60000000000 1 10)
      failedOnce := by decide +kernel
  have hbefore : run ⟨⟨[]⟩, 2⟩ (start 60000000000 1 10) [] = some (start 60000000000 1 10) := rfl
  obtain ⟨hchecked, hbounded⟩ := guess_gated (Nat.le_refl 1) hbefore hrun
  have hgate := hchecked 0 "alice" "secert" s' hstep
  obtain ⟨hrecord, hfailed⟩ := hbounded (host 1) 1 hopen
  rw [List.nil_append] at hgate
  exact ⟨s, hrun, hgate, hrecord, hfailed _ hordinary hprunes⟩

/-- The address of that client is throttled by its failure, and yet the client
makes another guess, which brings the record past the maximum of one. -/
theorem guess_from_throttled :
    ∃ s s' s'', run ⟨⟨[]⟩, 2⟩ (start 60000000000 1 10) failedOnce = some s ∧
      (s.shared.isThrottled (host 1) (atSecond 103)).1 = true ∧
      step ⟨⟨[]⟩, 2⟩ s (.acted 0 (.other (.verifyCalled "alice" "secert"))) = some s' ∧
      run ⟨⟨[]⟩, 2⟩ s' [.acted 0 (.other (.verifyReturned (.ok none))),
        .acted 0 (.failed [⟨host 1, [102000000000]⟩] (atSecond 103))] = some s'' ∧
      ¬ (s''.shared.recent (host 1) (atSecond 103)).length ≤ 1 := by
  refine ⟨_, _, _, rfl, ?_, rfl, rfl, ?_⟩
  · decide +kernel
  · decide +kernel

end Clients

end Liaozhai.Server
