import Liaozhai.Auth.SlidingWindow

/-!
# Two limiters with different windows

Two limiters take the same calls, and one of them has the longer window. Its deques
extend those of the other, unless `prune` finds that the clock does not reach back
for the longer window: the substitute cutoff is the present, and the longer window
loses what the shorter one keeps.
-/

namespace Liaozhai.Auth.AuthRateLimiter

open ExpiringQueue (expire)
set_option autoImplicit false

variable {limiter limiter' next next' : AuthRateLimiter} {ip other : IpAddr} {iter : Iteration}
  {clock : Clock} {call call' : Call} {calls calls' : List Call} {shorter longer : Duration}
  {maxFailures maxEntries : Nat}

/-- The same call on two maps, each iterated in an order of its own. -/
inductive SameCall : Call → Call → Prop where
  | isThrottled (ip : IpAddr) (clock : Clock) :
    SameCall (.isThrottled ip clock) (.isThrottled ip clock)
  | recordFailure (ip : IpAddr) (iter iter' : Iteration) (clock : Clock) :
    SameCall (.recordFailure ip iter clock) (.recordFailure ip iter' clock)
  | reset (ip : IpAddr) : SameCall (.reset ip) (.reset ip)

/-- The call makes room in a full table. -/
def Evicting (limiter : AuthRateLimiter) : Call → Prop
  | .recordFailure ip iter _ => ∃ other, Evicts limiter ip iter other
  | _ => False

instance : ∀ limiter call, Decidable (Evicting limiter call)
  | _, .isThrottled _ _ => isFalse id
  | _, .reset _ => isFalse id
  | limiter, .recordFailure ip iter _ =>
    decidable_of_iff (ip ∉ limiter.failures.keys ∧ limiter.maxEntries ≤ limiter.len ∧
      ∃ oldest ∈ findOldestEntry iter, oldest = oldest) (by
        simp only [Evicting, Evicts, Option.mem_def, and_true, exists_and_left]
        rfl)

/-- The clock reaches back for the shorter window and not for the window of the
limiter, and a failure on record is within the one and before the reading. -/
def Forgets (shorter : Duration) (limiter : AuthRateLimiter) (ip : IpAddr) (clock : Clock) : Prop :=
  clock.checkedSub limiter.window = none ∧ (clock.checkedSub shorter).isSome ∧
    ∃ t ∈ limiter.onRecord ip, clock.now - shorter ≤ t ∧ t < clock.again

instance : Decidable (Forgets shorter limiter ip clock) :=
  inferInstanceAs (Decidable (_ ∧ _ ∧ ∃ t ∈ limiter.onRecord ip, _))

/-- A call that evicts no entry and forgets no failure. -/
def Lossless (shorter : Duration) (limiter : AuthRateLimiter) (call : Call) : Prop :=
  ¬ Evicting limiter call ∧ ∀ clock ∈ call.clock?, ¬ Forgets shorter limiter call.ip clock

instance : Decidable (Lossless shorter limiter call) :=
  inferInstanceAs (Decidable (_ ∧ ∀ clock ∈ call.clock?, _))

/-- The table of one limiter has every deque of the other as the end of its own. -/
def Covers (limiter limiter' : AuthRateLimiter) : Prop :=
  ∀ ip deque, limiter.failures.lookup ip = some deque →
    ∃ deque', limiter'.failures.lookup ip = some deque' ∧ deque <:+ deque'

theorem Covers.onRecord (h : Covers limiter limiter') (ip : IpAddr) :
    limiter.onRecord ip <:+ limiter'.onRecord ip := by
  cases hlookup : limiter.failures.lookup ip with
  | none =>
    rw [AuthRateLimiter.onRecord, hlookup]
    exact List.nil_suffix
  | some deque =>
    obtain ⟨deque', hlookup', hsuffix⟩ := h ip deque hlookup
    rw [AuthRateLimiter.onRecord, AuthRateLimiter.onRecord, hlookup, hlookup']
    exact hsuffix

/-! ### One call on both -/

/-- The longer window drops nothing that the shorter one keeps. -/
theorem recent_suffix_recent (hle : limiter.window ≤ limiter'.window)
    (hsuffix : limiter.onRecord ip <:+ limiter'.onRecord ip)
    (hkeeps : ¬ Forgets limiter.window limiter' ip clock) :
    limiter.recent ip clock <:+ limiter'.recent ip clock := by
  have hcutoff : clock.now - limiter'.window ≤ clock.now - limiter.window :=
    Int.sub_le_sub_left (Int.ofNat_le.mpr hle) _
  rw [recent_eq_expire, recent_eq_expire]
  apply ExpiringQueue.expire_suffix_expire hsuffix
  intro t ht hlt
  cases hlonger : clock.checkedSub limiter'.window with
  | some cut =>
    have hreach : clock.earliest ≤ clock.now - limiter'.window := by
      by_contra hnot
      rw [Clock.checkedSub, if_neg hnot] at hlonger
      cases hlonger
    have hreach' : clock.earliest ≤ clock.now - limiter.window := Int.le_trans hreach hcutoff
    rw [cutoff, Clock.checkedSub, if_pos hreach, Option.getD_some] at hlt
    rw [cutoff, Clock.checkedSub, if_pos hreach', Option.getD_some]
    exact Int.lt_of_lt_of_le hlt hcutoff
  | none =>
    rw [cutoff, hlonger, Option.getD_none] at hlt
    cases hshorter : clock.checkedSub limiter.window with
    | none =>
      rw [cutoff, hshorter]
      exact hlt
    | some cut =>
      by_contra hkept
      apply hkeeps
      refine ⟨hlonger, by rw [hshorter]; rfl, t, ht, ?_, hlt⟩
      have hcut : cut = clock.now - limiter.window := by
        rw [Clock.checkedSub] at hshorter
        split at hshorter
        · exact (Option.some.inj hshorter).symm
        · cases hshorter
      rw [cutoff, hshorter, Option.getD_some, hcut] at hkept
      exact not_lt.mp hkept

theorem evicted_of_not_evicting (h : ¬ Evicting limiter (.recordFailure ip iter clock)) :
    limiter.evicted ip iter = limiter.failures := by
  unfold evicted
  split
  · rename_i hfull
    split
    · rename_i oldest holdest
      exact absurd ⟨oldest, hfull.1, hfull.2, holdest⟩ h
    · rfl
  · rfl

theorem Covers.step (h : Covers limiter limiter') (hle : limiter.window ≤ limiter'.window)
    (hsame : SameCall call call') (hlossless : Lossless limiter.window limiter' call')
    (hstep : step limiter call = some next) (hstep' : step limiter' call' = some next') :
    Covers next next' := by
  obtain ⟨hroom, hkeeps⟩ := hlossless
  intro other deque hlookup
  cases hsame with
  | isThrottled ip clock =>
    cases hstep
    cases hstep'
    by_cases hother : other = ip
    · subst hother
      rw [lookup_isThrottled] at hlookup ⊢
      obtain ⟨old, hold, rfl⟩ := Option.map_eq_some_iff.mp hlookup
      obtain ⟨old', hold', _⟩ := h other old hold
      rw [hold', Option.map_some]
      exact ⟨_, rfl, recent_suffix_recent hle (h.onRecord other) (hkeeps clock rfl)⟩
    · rw [lookup_isThrottled_ne hother] at hlookup ⊢
      exact h other deque hlookup
  | recordFailure ip iter iter' clock =>
    simp only [AuthRateLimiter.step] at hstep hstep'
    split at hstep
    · split at hstep'
      · cases hstep
        cases hstep'
        by_cases hother : other = ip
        · subst hother
          rw [lookup_recordFailure] at hlookup ⊢
          obtain rfl := Option.some.inj hlookup
          obtain ⟨old, hold⟩ :=
            recent_suffix_recent hle (h.onRecord other) (hkeeps clock rfl)
          refine ⟨_, rfl, old, ?_⟩
          exact (List.append_assoc _ _ _).symm.trans (congrArg (· ++ [clock.stamp]) hold)
        · rw [lookup_recordFailure_ne hother] at hlookup ⊢
          rw [evicted_of_not_evicting hroom]
          exact h other deque (lookup_evicted hlookup)
      · cases hstep'
    · cases hstep
  | reset ip =>
    cases hstep
    cases hstep'
    by_cases hother : other = ip
    · rw [reset, hother, AList.lookup_erase] at hlookup
      cases hlookup
    · rw [reset, AList.lookup_erase_ne hother] at hlookup
      rw [reset, AList.lookup_erase_ne hother]
      exact h other deque hlookup

/-! ### Runs -/

theorem run_maxFailures (hrun : run limiter calls = some next) :
    next.maxFailures = limiter.maxFailures := by
  apply Machine.run_invariant (P := fun reached => reached.maxFailures = limiter.maxFailures) ?_
    rfl hrun
  intro reached call next hreached hstep
  exact (step_settings hstep).2.trans hreached

theorem Covers.run (h : Covers limiter limiter') (hwindow : limiter.window = shorter)
    (hwindow' : limiter'.window = longer) (hle : shorter ≤ longer)
    (hsame : List.Forall₂ SameCall calls calls') (hrun : run limiter calls = some next)
    (hrun' : AuthRateLimiter.run limiter' calls' = some next')
    (halong : Machine.Along AuthRateLimiter.step (Lossless shorter) limiter' calls') :
    Covers next next' ∧ next.window = shorter ∧ next'.window = longer := by
  induction hsame generalizing limiter limiter' with
  | nil =>
    obtain rfl := Option.some.inj hrun
    obtain rfl := Option.some.inj hrun'
    exact ⟨h, hwindow, hwindow'⟩
  | cons hcall _ ih =>
    obtain ⟨mid, hstep, hrest⟩ := Machine.run_cons.mp hrun
    obtain ⟨mid', hstep', hrest'⟩ := Machine.run_cons.mp hrun'
    obtain ⟨hlossless, hlater⟩ := (Machine.along_cons hstep').mp halong
    rw [← hwindow] at hlossless
    have hmid := h.step (by rw [hwindow, hwindow']; exact hle) hcall hlossless hstep hstep'
    exact ih hmid ((step_settings hstep).1.trans hwindow)
      ((step_settings hstep').1.trans hwindow') hrest hrest' hlater

/-- What the shorter window throttles, the longer one throttles at the same point, in
every run without an eviction in which the longer window never forgets. -/
theorem longer_window_throttles (hle : shorter ≤ longer)
    (hsame : List.Forall₂ SameCall calls calls')
    (hrun : run (new shorter maxFailures maxEntries) calls = some limiter)
    (hrun' : run (new longer maxFailures maxEntries) calls' = some limiter')
    (halong : Machine.Along step (Lossless shorter) (new longer maxFailures maxEntries) calls')
    (hkeeps : ¬ Forgets shorter limiter' ip clock)
    (hthrottled : (limiter.isThrottled ip clock).1 = true) :
    (limiter'.isThrottled ip clock).1 = true := by
  have hstart : Covers (new shorter maxFailures maxEntries) (new longer maxFailures maxEntries) := by
    intro ip deque hlookup
    simp [new] at hlookup
  obtain ⟨hcovers, hwindow, hwindow'⟩ := hstart.run rfl rfl hle hsame hrun hrun' halong
  cases hlookup : limiter.failures.lookup ip with
  | none => simp [isThrottled, hlookup] at hthrottled
  | some deque =>
    obtain ⟨deque', hlookup', _⟩ := hcovers ip deque hlookup
    have hrecent : (limiter.recent ip clock).length ≤ (limiter'.recent ip clock).length := by
      apply List.IsSuffix.length_le
      apply recent_suffix_recent (by rw [hwindow, hwindow']; exact hle) (hcovers.onRecord ip)
      rw [hwindow]
      exact hkeeps
    have hmax : limiter'.maxFailures = limiter.maxFailures := by
      rw [run_maxFailures hrun, run_maxFailures hrun']
      rfl
    rw [isThrottled_of_lookup hlookup, decide_eq_true_iff] at hthrottled
    rw [isThrottled_of_lookup hlookup', decide_eq_true_iff, hmax]
    exact Nat.le_trans hthrottled hrecent

def twoFailures : List Call :=
  [.recordFailure (host 1) [] (atSecond 11),
    .recordFailure (host 1) [⟨host 1, [11000000000]⟩] (atSecond 12)]

theorem longer_window_throttles_ten_seconds :
    ∃ limiter limiter', run (new 1000000000 2 4) twoFailures = some limiter ∧
      run (new 10000000000 2 4) twoFailures = some limiter' ∧
      (limiter'.isThrottled (host 1) (atSecond 12)).1 = true := by
  have hsame : List.Forall₂ SameCall twoFailures twoFailures :=
    .cons (.recordFailure _ _ _ _) (.cons (.recordFailure _ _ _ _) .nil)
  refine ⟨_, _, rfl, rfl, ?_⟩
  exact @longer_window_throttles _ _ (host 1) (atSecond 12) _ _ 1000000000 10000000000 2 4
    (by decide) hsame rfl rfl (by decide +kernel) (by decide +kernel) (by decide +kernel)

/-- Half a second after a failure, five seconds after the clock started: a window of one
second finds the failure, a window of ten seconds does not. -/
theorem longer_window_forgets :
    ¬ ∀ (shorter longer : Duration) (maxFailures maxEntries : Nat) (calls calls' : List Call)
      (limiter limiter' : AuthRateLimiter) (ip : IpAddr) (clock : Clock),
      shorter ≤ longer → List.Forall₂ SameCall calls calls' →
      ((calls ++ [Call.isThrottled ip clock]).flatMap Call.readings).Pairwise (· ≤ ·) →
      run (new shorter maxFailures maxEntries) calls = some limiter →
      run (new longer maxFailures maxEntries) calls' = some limiter' →
      Machine.Along step (fun reached call => ¬ Evicting reached call)
        (new shorter maxFailures maxEntries) calls →
      Machine.Along step (fun reached call => ¬ Evicting reached call)
        (new longer maxFailures maxEntries) calls' →
      (limiter.isThrottled ip clock).1 = true → (limiter'.isThrottled ip clock).1 = true := by
  intro h
  have hforgets := h 1000000000 10000000000 1 4 [.recordFailure (host 1) [] (atSecond 5)]
    [.recordFailure (host 1) [] (atSecond 5)] _ _ (host 1)
    ⟨0, 5500000000, 5500000000, 5500000000⟩ (by decide) (.cons (.recordFailure _ _ _ _) .nil)
    (by decide) rfl rfl (by decide +kernel) (by decide +kernel) (by decide +kernel)
  exact absurd hforgets (by decide +kernel)

end Liaozhai.Auth.AuthRateLimiter
