import Liaozhai.Auth.RateLimiter
import Liaozhai.Library.ExpiringQueue
import Mathlib.Data.List.Dedup

/-!
# The sliding window

`prune` runs only when an address is asked about or fails again, and it removes
entries for good. On a clock that does not go back, the deque of an address lags
behind the failures since its last reset by expired failures only, so `is_throttled`
counts what a limiter that forgets nothing would count.
-/

namespace Liaozhai.Auth.AuthRateLimiter

open ExpiringQueue (expire Lags)
set_option autoImplicit false

/-! ### What the calls say -/

namespace Call

def ip : Call → IpAddr
  | .isThrottled ip _ => ip
  | .recordFailure ip _ _ => ip
  | .reset ip => ip

def clock? : Call → Option Clock
  | .isThrottled _ clock => some clock
  | .recordFailure _ _ clock => some clock
  | .reset _ => none

/-- The readings of the clock in the call, in their order. -/
def readings : Call → List Instant
  | .isThrottled _ clock => [clock.now, clock.again]
  | .recordFailure _ _ clock => [clock.now, clock.again, clock.stamp]
  | .reset _ => []

end Call

/-- What happens to the failures of an address. -/
inductive Event where
  | failure (t : Instant)
  | reset
  deriving DecidableEq, Repr

def Call.event (ip : IpAddr) : Call → Option Event
  | .isThrottled _ _ => none
  | .recordFailure ip' _ clock => if ip' = ip then some (.failure clock.stamp) else none
  | .reset ip' => if ip' = ip then some .reset else none

def eventsOf (ip : IpAddr) (calls : List Call) : List Event := calls.filterMap (Call.event ip)

/-- The recorded times of the failures after the last reset. -/
def sinceReset (events : List Event) : List Instant :=
  events.foldl
    (fun failures event =>
      match event with
      | .failure t => failures ++ [t]
      | .reset => [])
    []

/-- Calls on a clock that does not go back and reaches back for a window at each
call, on no more addresses than the table has room for. -/
structure Regular (window : Duration) (maxEntries : Nat) (calls : List Call) : Prop where
  ordered : (calls.flatMap Call.readings).Pairwise (· ≤ ·)
  representable : ∀ call ∈ calls, ∀ clock ∈ call.clock?, (clock.checkedSub window).isSome
  few : (calls.map Call.ip).dedup.length ≤ maxEntries

variable {limiter limiter' : AuthRateLimiter} {ip other : IpAddr} {iter : Iteration}
  {clock : Clock} {call : Call} {calls : List Call} {window : Duration}
  {maxFailures maxEntries : Nat}

theorem eventsOf_snoc (ip : IpAddr) (calls : List Call) (call : Call) :
    eventsOf ip (calls ++ [call]) = eventsOf ip calls ++ (call.event ip).toList := by
  rw [eventsOf, List.filterMap_append]
  cases h : call.event ip with
  | none => simp [h, eventsOf]
  | some event => simp [h, eventsOf]

theorem sinceReset_failure (events : List Event) (t : Instant) :
    sinceReset (events ++ [.failure t]) = sinceReset events ++ [t] := by
  rw [sinceReset, List.foldl_append]
  rfl

theorem sinceReset_reset (events : List Event) : sinceReset (events ++ [.reset]) = [] := by
  rw [sinceReset, List.foldl_append]
  rfl

/-- The failures on record are among the readings, in the order of the readings. -/
theorem sinceReset_sublist (ip : IpAddr) (calls : List Call) :
    (sinceReset (eventsOf ip calls)).Sublist (calls.flatMap Call.readings) := by
  induction calls using List.reverseRecOn with
  | nil => exact List.Sublist.slnil
  | append_singleton calls call ih =>
    rw [eventsOf_snoc, List.flatMap_append]
    have hkept : (sinceReset (eventsOf ip calls)).Sublist
        (calls.flatMap Call.readings ++ [call].flatMap Call.readings) :=
      ih.trans (List.sublist_append_left _ _)
    cases call with
    | isThrottled ip' clock =>
      rw [Call.event, Option.toList_none, List.append_nil]
      exact hkept
    | recordFailure ip' iter clock =>
      rw [Call.event]
      split
      · rw [Option.toList_some, sinceReset_failure]
        apply ih.append
        simp [Call.readings]
      · rw [Option.toList_none, List.append_nil]
        exact hkept
    | reset ip' =>
      rw [Call.event]
      split
      · rw [Option.toList_some, sinceReset_reset]
        exact List.nil_sublist _
      · rw [Option.toList_none, List.append_nil]
        exact hkept

namespace Regular

theorem sorted (h : Regular window maxEntries calls) (ip : IpAddr) :
    (sinceReset (eventsOf ip calls)).Pairwise (· ≤ ·) :=
  h.ordered.sublist (sinceReset_sublist ip calls)

theorem of_snoc (h : Regular window maxEntries (calls ++ [call])) :
    Regular window maxEntries calls := by
  refine ⟨?_, ?_, ?_⟩
  · have hordered := h.ordered
    rw [List.flatMap_append] at hordered
    exact (List.pairwise_append.mp hordered).1
  · intro call' hcall'
    exact h.representable call' (List.mem_append_left _ hcall')
  · refine Nat.le_trans ?_ h.few
    apply List.Subperm.length_le
    apply List.subperm_of_subset (List.nodup_dedup _)
    intro ip hip
    rw [List.mem_dedup] at hip ⊢
    rw [List.map_append]
    exact List.mem_append_left _ hip

theorem readings_le (h : Regular window maxEntries (calls ++ [call])) {r : Instant}
    (hr : r ∈ calls.flatMap Call.readings) {now : Instant} (hnow : now ∈ call.readings) :
    r ≤ now := by
  have hordered := h.ordered
  rw [List.flatMap_append] at hordered
  apply (List.pairwise_append.mp hordered).2.2 r hr now
  simpa using hnow

theorem cutoff_eq (h : Regular window maxEntries (calls ++ [call]))
    (hclock : clock ∈ call.clock?) : cutoff window clock = clock.now - window := by
  have hsome := h.representable call (by simp) clock hclock
  unfold cutoff
  unfold Clock.checkedSub at hsome ⊢
  split
  · rfl
  · rename_i hearlier
    rw [if_neg hearlier] at hsome
    cases hsome

end Regular

/-! ### What every call keeps -/

theorem onRecord_erase_self :
    onRecord { limiter with failures := limiter.failures.erase ip } ip = [] := by
  rw [onRecord, AList.lookup_erase]
  rfl

theorem recent_eq_expire (limiter : AuthRateLimiter) (ip : IpAddr) (clock : Clock) :
    limiter.recent ip clock = expire (cutoff limiter.window clock) (limiter.onRecord ip) := rfl

/-- The failures on record for an address from an instant on. -/
def recordedSince (limiter : AuthRateLimiter) (ip : IpAddr) (t₀ : Instant) : Nat :=
  (limiter.onRecord ip).countP fun t => t₀ ≤ t

theorem recordedSince_le (limiter : AuthRateLimiter) (ip : IpAddr) (t₀ : Instant) :
    limiter.recordedSince ip t₀ ≤ (limiter.onRecord ip).length :=
  List.countP_le_length

theorem recordedSince_congr {limiter' : AuthRateLimiter} {t₀ : Instant}
    (h : limiter'.onRecord ip = limiter.onRecord ip) :
    limiter'.recordedSince ip t₀ = limiter.recordedSince ip t₀ := by
  rw [recordedSince, recordedSince, h]

/-- A call drops nothing from the cutoff on. -/
theorem countP_recent {t₀ : Instant}
    (h : limiter.onRecord ip ≠ [] → cutoff limiter.window clock ≤ t₀) :
    ((limiter.recent ip clock).countP fun t => t₀ ≤ t) = limiter.recordedSince ip t₀ := by
  rw [recordedSince, recent_eq_expire]
  by_cases hnone : limiter.onRecord ip = []
  · rw [hnone, ExpiringQueue.expire_nil]
  · exact ExpiringQueue.countP_expire (h hnone)

theorem isThrottled_failures_mem :
    other ∈ (limiter.isThrottled ip clock).2.failures ↔ other ∈ limiter.failures := by
  unfold isThrottled
  split
  · rename_i deque hdeque
    dsimp only
    rw [AList.mem_insert]
    constructor
    · rintro (rfl | hmem)
      · exact AList.lookup_isSome.mp (by rw [hdeque]; rfl)
      · exact hmem
    · exact Or.inr
  · rfl

theorem isThrottled_of_lookup {deque : List Instant}
    (h : limiter.failures.lookup ip = some deque) :
    (limiter.isThrottled ip clock).1 =
      decide ((limiter.recent ip clock).length ≥ limiter.maxFailures) := by
  rw [isThrottled, h, recent, onRecord, h]
  rfl

theorem lookup_isThrottled :
    (limiter.isThrottled ip clock).2.failures.lookup ip =
      (limiter.failures.lookup ip).map fun _ => limiter.recent ip clock := by
  unfold isThrottled
  split
  · rename_i deque hdeque
    rw [AList.lookup_insert, hdeque, recent, onRecord, hdeque]
    rfl
  · rename_i hnone
    rw [hnone]
    rfl

theorem lookup_isThrottled_ne (h : other ≠ ip) :
    (limiter.isThrottled ip clock).2.failures.lookup other = limiter.failures.lookup other := by
  unfold isThrottled
  split
  · exact AList.lookup_insert_ne h
  · rfl

theorem lookup_recordFailure :
    (limiter.recordFailure ip iter clock).failures.lookup ip =
      some (limiter.recent ip clock ++ [clock.stamp]) := by
  rw [← onRecord_recordFailure, onRecord, recordFailure, AList.lookup_insert]
  rfl

theorem lookup_recordFailure_ne (h : other ≠ ip) :
    (limiter.recordFailure ip iter clock).failures.lookup other =
      (limiter.evicted ip iter).lookup other :=
  AList.lookup_insert_ne h

/-- An eviction takes an entry away or leaves it as it is. -/
theorem lookup_evicted {deque : List Instant}
    (h : (limiter.evicted ip iter).lookup other = some deque) :
    limiter.failures.lookup other = some deque := by
  unfold evicted at h
  split at h
  · split at h
    · rename_i oldest _
      by_cases hother : other = oldest
      · rw [hother, AList.lookup_erase] at h
        cases h
      · rw [AList.lookup_erase_ne hother] at h
        exact h
    · exact h
  · exact h

theorem isThrottled_settings :
    (limiter.isThrottled ip clock).2.window = limiter.window ∧
      (limiter.isThrottled ip clock).2.maxFailures = limiter.maxFailures := by
  unfold isThrottled
  split
  · exact ⟨rfl, rfl⟩
  · exact ⟨rfl, rfl⟩

theorem step_settings (hstep : step limiter call = some limiter') :
    limiter'.window = limiter.window ∧ limiter'.maxFailures = limiter.maxFailures := by
  cases call with
  | isThrottled ip clock =>
    cases hstep
    exact isThrottled_settings
  | recordFailure ip iter clock =>
    simp only [step] at hstep
    split at hstep
    · cases hstep
      exact ⟨rfl, rfl⟩
    · cases hstep
  | reset ip =>
    cases hstep
    exact ⟨rfl, rfl⟩

theorem evicted_subset (h : other ∈ limiter.evicted ip iter) : other ∈ limiter.failures := by
  unfold evicted at h
  split at h
  · split at h
    · exact (AList.mem_erase.mp h).2
    · exact h
  · exact h

/-- Only a call on an address brings it into the table. -/
theorem step_failures_mem (hstep : step limiter call = some limiter')
    (hmem : other ∈ limiter'.failures) : other = call.ip ∨ other ∈ limiter.failures := by
  cases call with
  | isThrottled ip clock =>
    cases hstep
    exact .inr (isThrottled_failures_mem.mp hmem)
  | recordFailure ip iter clock =>
    simp only [step] at hstep
    split at hstep
    · cases hstep
      rcases (AList.mem_insert _).mp hmem with rfl | hold
      · exact .inl rfl
      · exact .inr (evicted_subset hold)
    · cases hstep
  | reset ip =>
    cases hstep
    exact .inr (AList.mem_erase.mp hmem).2

/-- What the limiter knows after some calls. -/
structure Tracks (window : Duration) (maxFailures maxEntries : Nat) (calls : List Call)
    (limiter : AuthRateLimiter) : Prop where
  window_eq : limiter.window = window
  maxFailures_eq : limiter.maxFailures = maxFailures
  maxEntries_eq : limiter.maxEntries = maxEntries
  touched : ∀ ip ∈ limiter.failures, ip ∈ calls.map Call.ip
  lags : ∀ ip bound, (∀ r ∈ calls.flatMap Call.readings, r - window ≤ bound) →
    Lags bound (sinceReset (eventsOf ip calls)) (limiter.onRecord ip)

/-- A table with room for every address evicts none. -/
theorem Tracks.not_evicts (h : Tracks window maxFailures maxEntries calls limiter)
    (hregular : Regular window maxEntries (calls ++ [.recordFailure ip iter clock])) :
    ¬ Evicts limiter ip iter other := by
  rintro ⟨hnew, hfull, _⟩
  have hnodup : (ip :: limiter.failures.keys).Nodup :=
    List.nodup_cons.mpr ⟨hnew, limiter.failures.keys_nodup⟩
  have hsubset : ip :: limiter.failures.keys ⊆
      ((calls ++ [Call.recordFailure ip iter clock]).map Call.ip).dedup := by
    intro ip' hip'
    rw [List.mem_dedup, List.map_append]
    rcases List.mem_cons.mp hip' with rfl | hold
    · exact List.mem_append_right _ List.mem_cons_self
    · exact List.mem_append_left _ (h.touched ip' hold)
  have hlen := (List.subperm_of_subset hnodup hsubset).length_le
  have hfew := hregular.few
  rw [h.maxEntries_eq, len] at hfull
  rw [List.length_cons] at hlen
  omega

/-- A call expires what the record has lost its interest in. -/
theorem Tracks.recent_lags (h : Tracks window maxFailures maxEntries calls limiter)
    (hregular : Regular window maxEntries (calls ++ [call])) (hclock : clock ∈ call.clock?)
    (hnow : clock.now ∈ call.readings) (ip : IpAddr) :
    Lags (clock.now - window) (sinceReset (eventsOf ip calls)) (limiter.recent ip clock) := by
  rw [recent_eq_expire, h.window_eq, hregular.cutoff_eq hclock]
  apply Lags.expire
  apply h.lags
  intro r hr
  exact Int.sub_le_sub_right (hregular.readings_le hr hnow) _

theorem step_tracks (h : Tracks window maxFailures maxEntries calls limiter)
    (hregular : Regular window maxEntries (calls ++ [call]))
    (hstep : step limiter call = some limiter') :
    Tracks window maxFailures maxEntries (calls ++ [call]) limiter' := by
  obtain ⟨hwindow, hmax⟩ := step_settings hstep
  refine ⟨hwindow.trans h.window_eq, hmax.trans h.maxFailures_eq,
    (step_maxEntries hstep).trans h.maxEntries_eq, ?_, ?_⟩
  · intro other hmem
    rw [List.map_append]
    rcases step_failures_mem hstep hmem with rfl | hold
    · exact List.mem_append_right _ List.mem_cons_self
    · exact List.mem_append_left _ (h.touched other hold)
  · intro other bound hbound
    rw [List.flatMap_append] at hbound
    have hbefore : Lags bound (sinceReset (eventsOf other calls)) (limiter.onRecord other) := by
      apply h.lags
      intro r hr
      exact hbound r (List.mem_append_left _ hr)
    have hrecent : ∀ clock, clock ∈ call.clock? → clock.now ∈ call.readings →
        Lags bound (sinceReset (eventsOf other calls)) (limiter.recent other clock) := by
      intro clock hclock hnow
      apply (h.recent_lags hregular hclock hnow other).mono
      exact hbound clock.now (List.mem_append_right _ (by simpa using hnow))
    rw [eventsOf_snoc]
    cases call with
    | isThrottled ip clock =>
      cases hstep
      rw [Call.event, Option.toList_none, List.append_nil]
      by_cases hother : other = ip
      · subst hother
        rw [onRecord_isThrottled]
        exact hrecent clock rfl List.mem_cons_self
      · rw [onRecord_isThrottled_ne hother]
        exact hbefore
    | recordFailure ip iter clock =>
      simp only [step] at hstep
      split at hstep
      · cases hstep
        rw [Call.event]
        by_cases hother : other = ip
        · subst hother
          rw [if_pos rfl, Option.toList_some, sinceReset_failure, onRecord_recordFailure]
          exact (hrecent clock rfl List.mem_cons_self).push clock.stamp
        · rw [if_neg (Ne.symm hother), Option.toList_none, List.append_nil,
            onRecord_recordFailure_ne hother (h.not_evicts hregular)]
          exact hbefore
      · cases hstep
    | reset ip =>
      cases hstep
      rw [Call.event]
      by_cases hother : other = ip
      · subst hother
        rw [if_pos rfl, Option.toList_some, sinceReset_reset, reset, onRecord_erase_self]
        exact Lags.refl _ _
      · rw [if_neg (Ne.symm hother), Option.toList_none, List.append_nil, reset,
          onRecord_erase_ne hother]
        exact hbefore

theorem run_tracks (hregular : Regular window maxEntries calls)
    (hrun : run (new window maxFailures maxEntries) calls = some limiter) :
    Tracks window maxFailures maxEntries calls limiter := by
  refine Machine.run_history
    (P := fun calls limiter => Regular window maxEntries calls →
      Tracks window maxFailures maxEntries calls limiter) ?_ ?_ hrun hregular
  · intro calls limiter call limiter' _ htracks hstep hsnoc
    exact step_tracks (htracks hsnoc.of_snoc) hsnoc hstep
  · intro _
    refine ⟨rfl, rfl, rfl, ?_, ?_⟩
    · intro ip hip
      simp [new] at hip
    · intro ip bound _
      exact Lags.refl _ _

/-! ### The answer -/

/-- The failures after the last reset that lie within the window. -/
def failuresWithin (window : Duration) (now : Instant) (events : List Event) : Nat :=
  (sinceReset events).countP fun t => now - window ≤ t

theorem isThrottled_eq_true (hmax : 1 ≤ limiter.maxFailures) :
    (limiter.isThrottled ip clock).1 = true ↔
      limiter.maxFailures ≤ (limiter.recent ip clock).length := by
  rw [← Bool.not_eq_false, isThrottled_eq_false hmax, Nat.not_lt]

theorem isThrottled_iff_within (hmax : 1 ≤ maxFailures)
    (hregular : Regular window maxEntries (calls ++ [.isThrottled ip clock]))
    (hrun : run (new window maxFailures maxEntries) calls = some limiter) :
    (limiter.isThrottled ip clock).1 = true ↔
      maxFailures ≤ failuresWithin window clock.now (eventsOf ip calls) := by
  have htracks := run_tracks hregular.of_snoc hrun
  have hlags : Lags (clock.now - window) (sinceReset (eventsOf ip calls))
      (limiter.onRecord ip) := by
    apply htracks.lags
    intro r hr
    exact Int.sub_le_sub_right (hregular.readings_le hr List.mem_cons_self) _
  have hlength : (limiter.recent ip clock).length =
      failuresWithin window clock.now (eventsOf ip calls) := by
    rw [recent_eq_expire, htracks.window_eq, hregular.cutoff_eq rfl]
    exact hlags.length_expire (hregular.of_snoc.sorted ip)
  rw [isThrottled_eq_true (by rw [htracks.maxFailures_eq]; exact hmax), hlength,
    htracks.maxFailures_eq]

/-- `is_throttled` counts the failures of the address within the window, and nothing
but the failures and resets of the address decides what it answers. -/
theorem isThrottled_sliding_window (hmax : 1 ≤ maxFailures)
    (hregular : Regular window maxEntries (calls ++ [.isThrottled ip clock]))
    (hrun : run (new window maxFailures maxEntries) calls = some limiter) :
    ((limiter.isThrottled ip clock).1 = true ↔
        maxFailures ≤ failuresWithin window clock.now (eventsOf ip calls)) ∧
      ∀ calls' limiter', Regular window maxEntries (calls' ++ [.isThrottled ip clock]) →
        run (new window maxFailures maxEntries) calls' = some limiter' →
        eventsOf ip calls' = eventsOf ip calls →
        (limiter'.isThrottled ip clock).1 = (limiter.isThrottled ip clock).1 := by
  have hcount := isThrottled_iff_within hmax hregular hrun
  refine ⟨hcount, ?_⟩
  intro calls' limiter' hregular' hrun' hevents
  have hcount' := isThrottled_iff_within hmax hregular' hrun'
  rw [hevents] at hcount'
  exact Bool.eq_iff_iff.mpr (hcount'.trans hcount.symm)

/-- Three failures of an address, a failure of another and a question in between. -/
def mixedCalls : List Call :=
  [.recordFailure (host 1) [] (atSecond 11),
    .recordFailure (host 2) [⟨host 1, [11000000000]⟩] (atSecond 12),
    .recordFailure (host 1) [⟨host 2, [12000000000]⟩, ⟨host 1, [11000000000]⟩] (atSecond 12),
    .isThrottled (host 1) (atSecond 14),
    .recordFailure (host 1) [⟨host 1, [12000000000]⟩, ⟨host 2, [12000000000]⟩] (atSecond 14)]

/-- The failures of the first address alone. -/
def ownCalls : List Call :=
  [.recordFailure (host 1) [] (atSecond 11),
    .recordFailure (host 1) [⟨host 1, [11000000000]⟩] (atSecond 12),
    .recordFailure (host 1) [⟨host 1, [11000000000, 12000000000]⟩] (atSecond 14)]

/-- With a window of two seconds the second and the third failure count. -/
theorem isThrottled_sliding_window_mixed :
    ∃ limiter limiter', run (new 2000000000 2 2) mixedCalls = some limiter ∧
      run (new 2000000000 2 2) ownCalls = some limiter' ∧
      ((limiter.isThrottled (host 1) (atSecond 14)).1 = true ↔ 2 ≤ 2) ∧
      (limiter'.isThrottled (host 1) (atSecond 14)).1 =
        (limiter.isThrottled (host 1) (atSecond 14)).1 := by
  refine ⟨_, _, rfl, rfl, ?_⟩
  have hwindow := @isThrottled_sliding_window _ (host 1) (atSecond 14) mixedCalls 2000000000 2 2
    (by decide) ⟨by decide, by decide, by decide⟩ rfl
  exact ⟨hwindow.1, hwindow.2 ownCalls _ ⟨by decide, by decide, by decide⟩ rfl rfl⟩

end Liaozhai.Auth.AuthRateLimiter
