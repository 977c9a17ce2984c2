import Liaozhai.Auth.SlidingWindow

/-!
# Throttled for its own failures

A full table evicts, entries expire, and a clock without a past empties a record: the
limiter forgets. It never makes anything up. In every run the record of an address is
the end of the list of its failures since its last reset, so an address that is
throttled has failed as often as that, and within the window.
-/

namespace Liaozhai.Auth.AuthRateLimiter

open ExpiringQueue (expire expire_suffix length_expire)
set_option autoImplicit false

variable {limiter limiter' : AuthRateLimiter} {ip other : IpAddr} {iter : Iteration}
  {clock : Clock} {call : Call} {calls : List Call} {window : Duration}
  {maxFailures maxEntries : Nat}

theorem onRecord_evicted_suffix :
    onRecord { limiter with failures := limiter.evicted ip iter } other <:+
      limiter.onRecord other := by
  rw [onRecord, onRecord]
  cases hlookup : (limiter.evicted ip iter).lookup other with
  | none => exact List.nil_suffix
  | some deque =>
    have hkept := lookup_evicted hlookup
    simp only [hkept, List.suffix_refl]

theorem recent_suffix : limiter.recent ip clock <:+ limiter.onRecord ip :=
  expire_suffix _ _

/-- A call takes failures off the front of the records, and adds its own to one. -/
theorem onRecord_suffix_step (h : limiter.onRecord ip <:+ sinceReset (eventsOf ip calls))
    (hstep : step limiter call = some limiter') :
    limiter'.onRecord ip <:+ sinceReset (eventsOf ip (calls ++ [call])) := by
  rw [eventsOf_snoc]
  cases call with
  | isThrottled ip' clock =>
    cases hstep
    rw [Call.event, Option.toList_none, List.append_nil]
    by_cases hip : ip = ip'
    · subst hip
      rw [onRecord_isThrottled]
      exact recent_suffix.trans h
    · rw [onRecord_isThrottled_ne hip]
      exact h
  | recordFailure ip' iter clock =>
    obtain ⟨_, hstep⟩ := Option.ite_none_right_eq_some.mp hstep
    cases hstep
    rw [Call.event]
    by_cases hip : ip = ip'
    · subst hip
      rw [if_pos rfl, Option.toList_some, sinceReset_failure, onRecord_recordFailure]
      obtain ⟨old, hold⟩ := recent_suffix.trans h
      exact ⟨old, by rw [← List.append_assoc, hold]⟩
    · rw [if_neg (Ne.symm hip), Option.toList_none, List.append_nil, recordFailure,
        onRecord_insert_ne hip]
      exact onRecord_evicted_suffix.trans h
  | reset ip' =>
    cases hstep
    rw [Call.event]
    by_cases hip : ip = ip'
    · subst hip
      rw [reset, onRecord_erase_self]
      exact List.nil_suffix
    · rw [if_neg (Ne.symm hip), Option.toList_none, List.append_nil, reset, onRecord_erase_ne hip]
      exact h

theorem onRecord_suffix_run (hrun : run (new window maxFailures maxEntries) calls = some limiter)
    (ip : IpAddr) : limiter.onRecord ip <:+ sinceReset (eventsOf ip calls) := by
  apply Machine.run_history
    (P := fun calls limiter => limiter.onRecord ip <:+ sinceReset (eventsOf ip calls)) _ _ hrun
  · intro calls limiter call limiter' _ h hstep
    exact onRecord_suffix_step h hstep
  · exact List.suffix_refl _

theorem settings_run (hrun : run (new window maxFailures maxEntries) calls = some limiter) :
    limiter.window = window ∧ limiter.maxFailures = maxFailures := by
  apply Machine.run_invariant
    (P := fun limiter : AuthRateLimiter => limiter.window = window ∧
      limiter.maxFailures = maxFailures) _ _ hrun
  · intro limiter call limiter' h hstep
    obtain ⟨hwindow, hmax⟩ := step_settings hstep
    exact ⟨hwindow.trans h.1, hmax.trans h.2⟩
  · exact ⟨rfl, rfl⟩

/-- A throttled address has that many failures in its record. -/
theorem maxFailures_le_recent (h : (limiter.isThrottled ip clock).1 = true) :
    limiter.maxFailures ≤ (limiter.recent ip clock).length := by
  cases hlookup : limiter.failures.lookup ip with
  | none =>
    rw [isThrottled, hlookup] at h
    cases h
  | some deque =>
    rw [isThrottled_of_lookup hlookup] at h
    exact of_decide_eq_true h

/-- What `prune` leaves is from within the window, even where the clock has no such past. -/
theorem le_cutoff (h : clock.now ≤ clock.again) : clock.now - window ≤ cutoff window clock := by
  rw [cutoff, Clock.checkedSub]
  split
  · exact Int.le_refl _
  · rw [Option.getD_none]
    exact Int.le_trans (Int.sub_le_self _ (Int.natCast_nonneg _)) h

theorem failuresWithin_of_isThrottled
    (hordered : ((calls ++ [Call.isThrottled ip clock]).flatMap Call.readings).Pairwise (· ≤ ·))
    (hrun : run (new window maxFailures maxEntries) calls = some limiter)
    (hthrottled : (limiter.isThrottled ip clock).1 = true) :
    maxFailures ≤ failuresWithin window clock.now (eventsOf ip calls) := by
  obtain ⟨hwindow, hmax⟩ := settings_run hrun
  have hsuffix := onRecord_suffix_run hrun ip
  rw [List.flatMap_append] at hordered
  obtain ⟨hearlier, hcall, _⟩ := List.pairwise_append.mp hordered
  have hsorted : (limiter.onRecord ip).Pairwise (· ≤ ·) :=
    (hearlier.sublist (sinceReset_sublist ip calls)).sublist hsuffix.sublist
  have hclock : clock.now ≤ clock.again := by
    rw [List.flatMap_singleton] at hcall
    exact (List.pairwise_cons.mp hcall).1 _ List.mem_cons_self
  calc maxFailures
    _ ≤ (limiter.recent ip clock).length := hmax ▸ maxFailures_le_recent hthrottled
    _ = (limiter.onRecord ip).countP fun t => cutoff window clock ≤ t := by
      rw [recent_eq_expire, length_expire hsorted, hwindow]
    _ ≤ (sinceReset (eventsOf ip calls)).countP fun t => cutoff window clock ≤ t :=
      hsuffix.sublist.countP_le
    _ ≤ failuresWithin window clock.now (eventsOf ip calls) := by
      apply List.countP_mono_left
      intro t _ ht
      apply decide_eq_true
      exact Int.le_trans (le_cutoff hclock) (of_decide_eq_true ht)

/-- Whatever the table has evicted, an address is throttled only for `max_failures`
failures of its own after its last reset, all of them within the window. So, unless
`max_failures` is 0, it is let in again once a window has passed since its last
failures. -/
theorem isThrottled_earned
    (hordered : ((calls ++ [Call.isThrottled ip clock]).flatMap Call.readings).Pairwise (· ≤ ·))
    (hrun : run (new window maxFailures maxEntries) calls = some limiter) :
    ((limiter.isThrottled ip clock).1 = true →
        maxFailures ≤ failuresWithin window clock.now (eventsOf ip calls)) ∧
      (1 ≤ maxFailures → (∀ t ∈ sinceReset (eventsOf ip calls), t < clock.now - window) →
        (limiter.isThrottled ip clock).1 = false) := by
  refine ⟨failuresWithin_of_isThrottled hordered hrun, ?_⟩
  intro hmax hold
  have hnone : failuresWithin window clock.now (eventsOf ip calls) = 0 := by
    rw [failuresWithin, List.countP_eq_zero]
    intro t ht hrecent
    exact absurd (of_decide_eq_true hrecent) (Int.not_le.mpr (hold t ht))
  rw [← Bool.not_eq_true]
  intro hthrottled
  have hearned := failuresWithin_of_isThrottled hordered hrun hthrottled
  omega

/-- The table has room for one address, and the second failure of the first host has
evicted the second host. -/
def evictedSecond : List Call :=
  [.recordFailure (host 2) [] (atSecond 11),
    .recordFailure (host 1) [⟨host 2, [11000000000]⟩] (atSecond 12),
    .recordFailure (host 1) [⟨host 1, [12000000000]⟩] (atSecond 13)]

theorem isThrottled_earned_evicted :
    2 ≤ failuresWithin 2000000000 14000000000 (eventsOf (host 1) evictedSecond) ∧
      ∃ limiter, run (new 2000000000 2 1) evictedSecond = some limiter ∧
        (limiter.isThrottled (host 1) (atSecond 16)).1 = false := by
  have hsome : ((run (new 2000000000 2 1) evictedSecond).map fun limiter =>
      (limiter.isThrottled (host 1) (atSecond 14)).1) = some true := by decide +kernel
  obtain ⟨limiter, hrun, hthrottled⟩ := Option.map_eq_some_iff.mp hsome
  have hfourteen : ((evictedSecond ++ [Call.isThrottled (host 1) (atSecond 14)]).flatMap
      Call.readings).Pairwise (· ≤ ·) := by decide +kernel
  have hsixteen : ((evictedSecond ++ [Call.isThrottled (host 1) (atSecond 16)]).flatMap
      Call.readings).Pairwise (· ≤ ·) := by decide +kernel
  refine ⟨(isThrottled_earned hfourteen hrun).1 hthrottled, limiter, hrun, ?_⟩
  refine (isThrottled_earned hsixteen hrun).2 (Nat.le_succ 1) ?_
  decide +kernel

end Liaozhai.Auth.AuthRateLimiter
