import Liaozhai.Auth.SlidingWindow

/-!
# Which address is evicted

The victim is chosen by the last entry of each deque, and an entry of the table
whose deque is empty has no last entry. `is_throttled` empties the deque of an
address whose failures have all expired and leaves the entry in the table, so such
an address is never chosen, however long ago it failed.
-/

namespace Liaozhai.Auth.AuthRateLimiter

set_option autoImplicit false

/-- The times of all failures recorded for an address. -/
def failureTimes (ip : IpAddr) (calls : List Call) : List Instant :=
  calls.filterMap fun call =>
    match call with
    | .recordFailure ip' _ clock => if ip' = ip then some clock.stamp else none
    | _ => none

def lastFailure (calls : List Call) (ip : IpAddr) : Option Instant :=
  (failureTimes ip calls).getLast?

/-- One address last failed no later than another. -/
def NoLater (calls : List Call) (ip other : IpAddr) : Prop :=
  ∃ t ∈ lastFailure calls ip, ∃ u ∈ lastFailure calls other, t ≤ u

instance (calls : List Call) (ip other : IpAddr) : Decidable (NoLater calls ip other) :=
  inferInstanceAs (Decidable (∃ t ∈ lastFailure calls ip, ∃ u ∈ lastFailure calls other, t ≤ u))

/-- An eviction takes the address that failed least recently, and none with a failure
within the window while all failures of an address that stays are outside. -/
def EvictsLeastRecent (calls : List Call) (limiter : AuthRateLimiter) : Call → Prop
  | .recordFailure ip iter clock =>
    ∀ oldest, Evicts limiter ip iter oldest → ∀ other ∈ limiter.failures.erase oldest,
      NoLater calls oldest other ∧
        ((∃ t ∈ failureTimes oldest calls, clock.now - limiter.window ≤ t) →
          ∃ t ∈ failureTimes other calls, clock.now - limiter.window ≤ t)
  | _ => True

/-- A new address comes to a full table. An entry with a failure left is in it, and an
entry without one whose address failed before those of all the former. -/
def Overlooks (calls : List Call) (limiter : AuthRateLimiter) : Call → Prop
  | .recordFailure ip _ _ =>
    ip ∉ limiter.failures.keys ∧ limiter.maxEntries ≤ limiter.len ∧
      (∃ live ∈ limiter.failures.entries, live.2 ≠ []) ∧
      ∃ stale ∈ limiter.failures.entries, stale.2 = [] ∧
        ∀ live ∈ limiter.failures.entries, live.2 ≠ [] → ¬ NoLater calls live.1 stale.1
  | _ => False

instance : ∀ calls limiter call, Decidable (Overlooks calls limiter call)
  | _, _, .isThrottled _ _ => isFalse id
  | _, _, .reset _ => isFalse id
  | _, _, .recordFailure _ _ _ => inferInstanceAs (Decidable (_ ∧ _ ∧ (∃ live ∈ _, _) ∧
      ∃ stale ∈ _, _ ∧ ∀ live ∈ _, _))

variable {limiter limiter' : AuthRateLimiter} {ip other oldest : IpAddr} {iter : Iteration}
  {clock : Clock} {call : Call} {calls : List Call} {window : Duration}
  {maxFailures maxEntries : Nat}

/-! ### The last failure -/

theorem failureTimes_recordFailure (calls : List Call) (ip : IpAddr) (iter : Iteration)
    (clock : Clock) :
    failureTimes ip (calls ++ [.recordFailure ip iter clock]) =
      failureTimes ip calls ++ [clock.stamp] := by
  simp [failureTimes]

theorem lastFailure_recordFailure (calls : List Call) (ip : IpAddr) (iter : Iteration)
    (clock : Clock) :
    lastFailure (calls ++ [.recordFailure ip iter clock]) ip = some clock.stamp := by
  rw [lastFailure, failureTimes_recordFailure, List.getLast?_concat]

/-- Only a failure of the address itself changes when it last failed. -/
theorem lastFailure_snoc (h : ∀ iter clock, call ≠ .recordFailure ip iter clock) :
    lastFailure (calls ++ [call]) ip = lastFailure calls ip := by
  cases call with
  | isThrottled ip' clock => simp [lastFailure, failureTimes]
  | reset ip' => simp [lastFailure, failureTimes]
  | recordFailure ip' iter clock =>
    have hne : ip' ≠ ip := by
      rintro rfl
      exact h iter clock rfl
    simp [lastFailure, failureTimes, hne]

theorem failureTimes_sublist (ip : IpAddr) (calls : List Call) :
    (failureTimes ip calls).Sublist (calls.flatMap Call.readings) := by
  induction calls with
  | nil => exact List.Sublist.slnil
  | cons call calls ih =>
    have hlater : (failureTimes ip calls).Sublist
        (call.readings ++ calls.flatMap Call.readings) :=
      ih.trans (List.sublist_append_right _ _)
    cases call with
    | isThrottled ip' clock => exact hlater
    | reset ip' => exact hlater
    | recordFailure ip' iter clock =>
      by_cases hip : ip' = ip
      · have hcons : failureTimes ip (.recordFailure ip' iter clock :: calls) =
            [clock.stamp] ++ failureTimes ip calls := by simp [failureTimes, hip]
        rw [hcons, List.flatMap_cons]
        apply List.Sublist.append _ ih
        simp [Call.readings]
      · have hcons : failureTimes ip (.recordFailure ip' iter clock :: calls) =
            failureTimes ip calls := by simp [failureTimes, hip]
        rw [hcons]
        exact hlater

/-- No failure of an address is later than its last one. -/
theorem le_lastFailure (hordered : (calls.flatMap Call.readings).Pairwise (· ≤ ·))
    {t u : Instant} (ht : t ∈ failureTimes ip calls) (hu : u ∈ lastFailure calls ip) : t ≤ u := by
  obtain ⟨earlier, hsplit⟩ := List.getLast?_eq_some_iff.mp hu
  have hsorted := hordered.sublist (failureTimes_sublist ip calls)
  rw [hsplit] at hsorted ht
  rcases List.mem_append.mp ht with hmem | hmem
  · exact (List.pairwise_append.mp hsorted).2.2 t hmem u List.mem_cons_self
  · rw [List.mem_singleton.mp hmem]

theorem NoLater.trans {third : IpAddr} (h : NoLater calls ip other)
    (h' : NoLater calls other third) : NoLater calls ip third := by
  obtain ⟨t, ht, u, hu, hle⟩ := h
  obtain ⟨u', hu', v, hv, hle'⟩ := h'
  obtain rfl : u = u' := Option.some.inj (hu.symm.trans hu')
  exact ⟨t, ht, v, hv, Int.le_trans hle hle'⟩

theorem NoLater.within (h : NoLater calls ip other)
    (hordered : (calls.flatMap Call.readings).Pairwise (· ≤ ·)) {cut : Instant}
    (hlive : ∃ t ∈ failureTimes ip calls, cut ≤ t) :
    ∃ t ∈ failureTimes other calls, cut ≤ t := by
  obtain ⟨last, hlast, last', hlast', hle⟩ := h
  obtain ⟨t, ht, hcut⟩ := hlive
  refine ⟨last', List.mem_of_getLast? hlast', ?_⟩
  exact Int.le_trans hcut (Int.le_trans (le_lastFailure hordered ht hlast) hle)

/-! ### What the deques remember -/

/-- Every address in the table has failed, and a deque with entries ends with its last
failure. -/
def Remembers (calls : List Call) (limiter : AuthRateLimiter) : Prop :=
  ∀ ip deque, limiter.failures.lookup ip = some deque →
    ∃ t, lastFailure calls ip = some t ∧ (deque ≠ [] → deque.getLast? = some t)

theorem prune_getLast? {deque : List Instant} {window : Duration}
    (h : prune deque window clock ≠ []) :
    (prune deque window clock).getLast? = deque.getLast? := by
  obtain ⟨old, hold⟩ := ExpiringQueue.expire_suffix (cutoff window clock) deque
  have hdeque : old ++ prune deque window clock = deque := hold
  have hlast : deque.getLast? = (old ++ prune deque window clock).getLast? := by rw [hdeque]
  rw [hlast, List.getLast?_append, List.getLast?_eq_some_getLast h]
  rfl

theorem step_remembers (h : Remembers calls limiter) (hstep : step limiter call = some limiter') :
    Remembers (calls ++ [call]) limiter' := by
  intro other deque hlookup
  cases call with
  | isThrottled ip clock =>
    cases hstep
    rw [lastFailure_snoc (by simp)]
    by_cases hother : other = ip
    · subst hother
      rw [lookup_isThrottled] at hlookup
      obtain ⟨old, hold, rfl⟩ := Option.map_eq_some_iff.mp hlookup
      obtain ⟨t, ht, hlast⟩ := h other old hold
      refine ⟨t, ht, ?_⟩
      rw [recent, onRecord, hold, Option.getD_some]
      intro hne
      rw [prune_getLast? hne]
      apply hlast
      rintro rfl
      exact hne rfl
    · rw [lookup_isThrottled_ne hother] at hlookup
      exact h other deque hlookup
  | recordFailure ip iter clock =>
    simp only [step] at hstep
    split at hstep
    · cases hstep
      by_cases hother : other = ip
      · subst hother
        rw [lookup_recordFailure] at hlookup
        obtain rfl := Option.some.inj hlookup
        refine ⟨clock.stamp, lastFailure_recordFailure _ _ _ _, ?_⟩
        intro _
        exact List.getLast?_concat
      · rw [lookup_recordFailure_ne hother] at hlookup
        have hne : ∀ iter' clock', Call.recordFailure ip iter clock ≠
            .recordFailure other iter' clock' := by
          intro iter' clock' heq
          injection heq with hip
          exact hother hip.symm
        rw [lastFailure_snoc hne]
        exact h other deque (lookup_evicted hlookup)
    · cases hstep
  | reset ip =>
    cases hstep
    rw [lastFailure_snoc (by simp)]
    by_cases hother : other = ip
    · rw [reset, hother, AList.lookup_erase] at hlookup
      cases hlookup
    · rw [reset, AList.lookup_erase_ne hother] at hlookup
      exact h other deque hlookup

theorem run_remembers (hrun : run (new window maxFailures maxEntries) calls = some limiter) :
    Remembers calls limiter := by
  refine Machine.run_history (P := Remembers) ?_ ?_ hrun
  · intro calls limiter call limiter' _ hremembers hstep
    exact step_remembers hremembers hstep
  · intro ip deque hlookup
    simp [new] at hlookup

/-! ### The choice -/

/-- The chosen entry has a last failure, and no entry has an earlier one. -/
theorem findOldestEntry_least (h : findOldestEntry iter = some oldest) :
    ∃ entry ∈ iter, entry.1 = oldest ∧ ∃ t, entry.2.getLast? = some t ∧
      ∀ entry' ∈ iter, ∀ u, entry'.2.getLast? = some u → t ≤ u := by
  obtain ⟨chosen, hmin, rfl⟩ := Option.map_eq_some_iff.mp h
  obtain ⟨entry, hentry, hstamp⟩ := List.mem_filterMap.mp (List.minOn?_mem hmin)
  obtain ⟨t, ht, rfl⟩ := Option.map_eq_some_iff.mp hstamp
  refine ⟨entry, hentry, rfl, t, ht, ?_⟩
  intro entry' hentry' u hu
  have hmem : (entry'.1, u) ∈ iter.filterMap fun entry =>
      entry.2.getLast?.map fun t => (entry.1, t) :=
    List.mem_filterMap.mpr ⟨entry', hentry', by rw [hu]; rfl⟩
  have hle := List.apply_get_minOn?_le_of_mem (f := Prod.snd) hmem
  simpa [hmin] using hle

theorem lookup_of_mem_entries {entry : Sigma fun _ : IpAddr => List Instant}
    (h : entry ∈ limiter.failures.entries) : limiter.failures.lookup entry.1 = some entry.2 :=
  AList.mem_lookup_iff.mpr h

/-- The chosen address has a failure left, and failed no later than any other that has. -/
theorem chosen_noLater (hremembers : Remembers calls limiter)
    (hiter : iter.Perm limiter.failures.entries) (holdest : findOldestEntry iter = some oldest) :
    ∃ entry ∈ limiter.failures.entries, entry.1 = oldest ∧ entry.2 ≠ [] ∧
      ∀ live ∈ limiter.failures.entries, live.2 ≠ [] → NoLater calls oldest live.1 := by
  obtain ⟨entry, hentry, rfl, t, ht, hleast⟩ := findOldestEntry_least holdest
  have hkept : entry.2 ≠ [] := by
    intro hnil
    rw [hnil] at ht
    cases ht
  refine ⟨entry, hiter.mem_iff.mp hentry, rfl, hkept, ?_⟩
  intro live hlive hne
  obtain ⟨t', hlast, hback⟩ := hremembers _ _ (lookup_of_mem_entries (hiter.mem_iff.mp hentry))
  obtain ⟨u, hu, hback'⟩ := hremembers _ _ (lookup_of_mem_entries hlive)
  obtain rfl : t' = t := Option.some.inj ((hback hkept).symm.trans ht)
  exact ⟨t', hlast, u, hu, hleast live (hiter.mem_iff.mpr hlive) u (hback' hne)⟩

/-- An entry without a failure is not the chosen one, and stays. -/
theorem stale_stays {entry stale : Sigma fun _ : IpAddr => List Instant}
    (hentry : entry ∈ limiter.failures.entries) (hkept : entry.2 ≠ [])
    (hstale : stale ∈ limiter.failures.entries) (hempty : stale.2 = []) :
    stale.1 ∈ limiter.failures.erase entry.1 := by
  rw [AList.mem_erase]
  refine ⟨?_, AList.mem_keys.mpr (List.mem_keys_of_mem hstale)⟩
  intro hsame
  have hlookup := lookup_of_mem_entries hstale
  rw [hsame, lookup_of_mem_entries hentry, hempty] at hlookup
  exact hkept (Option.some.inj hlookup)

/-- The eviction follows the history exactly if it overlooks no address. -/
theorem evictsLeastRecent_iff (hremembers : Remembers calls limiter)
    (hordered : (calls.flatMap Call.readings).Pairwise (· ≤ ·))
    (hstep : step limiter call = some limiter') :
    EvictsLeastRecent calls limiter call ↔ ¬ Overlooks calls limiter call := by
  cases call with
  | isThrottled ip clock => exact iff_of_true trivial id
  | reset ip => exact iff_of_true trivial id
  | recordFailure ip iter clock =>
    have hiter : iter.Perm limiter.failures.entries := by
      by_contra hnot
      rw [step, if_neg hnot] at hstep
      cases hstep
    constructor
    · rintro hlaw ⟨hnew, hfull, ⟨live, hlive, hne⟩, stale, hstale, hempty, hlater⟩
      obtain ⟨oldest, holdest⟩ : ∃ oldest, findOldestEntry iter = some oldest := by
        rw [← Option.ne_none_iff_exists']
        intro hnone
        exact hne (findOldestEntry_eq_none.mp hnone live (hiter.mem_iff.mpr hlive))
      obtain ⟨entry, hentry, rfl, hkept, _⟩ := chosen_noLater hremembers hiter holdest
      have hstays := stale_stays hentry hkept hstale hempty
      exact hlater entry hentry hkept (hlaw entry.1 ⟨hnew, hfull, holdest⟩ stale.1 hstays).1
    · rintro hnone oldest ⟨hnew, hfull, holdest⟩ other hother
      obtain ⟨entry, hentry, rfl, hkept, hlive⟩ := chosen_noLater hremembers hiter holdest
      have hnoLater : NoLater calls entry.1 other := by
        obtain ⟨deque, hdeque⟩ :=
          Option.isSome_iff_exists.mp (AList.lookup_isSome.mpr (AList.mem_erase.mp hother).2)
        have hmem : ⟨other, deque⟩ ∈ limiter.failures.entries := AList.mem_lookup_iff.mp hdeque
        by_cases hempty : deque = []
        · -- it hides behind an address with a failure left, or it is overlooked
          by_contra hlater
          apply hnone
          refine ⟨hnew, hfull, ⟨entry, hentry, hkept⟩, ⟨other, deque⟩, hmem, hempty, ?_⟩
          intro live hmemLive hne hle
          exact hlater ((hlive live hmemLive hne).trans hle)
        · exact hlive ⟨other, deque⟩ hmem hempty
      exact ⟨hnoLater, hnoLater.within hordered⟩

/-- In every run on a clock that does not go back, each eviction takes the address
that failed least recently if and only if no call overlooks an address. -/
theorem evicts_least_recent_iff (hordered : (calls.flatMap Call.readings).Pairwise (· ≤ ·))
    (hrun : run (new window maxFailures maxEntries) calls = some limiter) :
    (∀ pre call post reached, calls = pre ++ call :: post →
        run (new window maxFailures maxEntries) pre = some reached →
        EvictsLeastRecent pre reached call) ↔
      ∀ pre call post reached, calls = pre ++ call :: post →
        run (new window maxFailures maxEntries) pre = some reached →
        ¬ Overlooks pre reached call := by
  have hiff : ∀ pre call post reached, calls = pre ++ call :: post →
      run (new window maxFailures maxEntries) pre = some reached →
      (EvictsLeastRecent pre reached call ↔ ¬ Overlooks pre reached call) := by
    rintro pre call post reached rfl hpre
    obtain ⟨t, ht, hrest⟩ := Machine.run_append.mp hrun
    obtain rfl : reached = t := Option.some.inj (hpre.symm.trans ht)
    obtain ⟨next, hstep, _⟩ := Machine.run_cons.mp hrest
    rw [List.flatMap_append] at hordered
    exact evictsLeastRecent_iff (run_remembers hpre) (List.pairwise_append.mp hordered).1 hstep
  constructor
  · intro hlaw pre call post reached hsplit hpre
    exact (hiff pre call post reached hsplit hpre).mp (hlaw pre call post reached hsplit hpre)
  · intro hnone pre call post reached hsplit hpre
    exact (hiff pre call post reached hsplit hpre).mpr (hnone pre call post reached hsplit hpre)

/-- Room for two addresses: the third takes the place of the first. -/
def fullTableCalls : List Call :=
  [.recordFailure (host 1) [] (atSecond 1), .recordFailure (host 2) [⟨host 1, [1000000000]⟩]
      (atSecond 2), .isThrottled (host 1) (atSecond 2),
    .recordFailure (host 3) [⟨host 1, [1000000000]⟩, ⟨host 2, [2000000000]⟩] (atSecond 3)]

theorem evicts_least_recent_full_table :
    ∃ reached, run (new 1000000000 3 2) (fullTableCalls.take 3) = some reached ∧
      EvictsLeastRecent (fullTableCalls.take 3) reached (.recordFailure (host 3)
        [⟨host 1, [1000000000]⟩, ⟨host 2, [2000000000]⟩] (atSecond 3)) := by
  have hsome : (run (new 1000000000 3 2) fullTableCalls).isSome = true := by decide +kernel
  obtain ⟨limiter, hrun⟩ := Option.isSome_iff_exists.mp hsome
  have hchecked : ∀ i (h : i < fullTableCalls.length),
      ∀ reached ∈ run (new 1000000000 3 2) (fullTableCalls.take i),
        ¬ Overlooks (fullTableCalls.take i) reached (fullTableCalls.get ⟨i, h⟩) := by
    decide +kernel
  have hlaw := (evicts_least_recent_iff (by decide) hrun).mpr <| by
    intro pre call post reached hsplit hpre
    have htake : fullTableCalls.take pre.length = pre := by rw [hsplit, List.take_left]
    have hlen : pre.length < fullTableCalls.length := by rw [hsplit]; simp
    have hget : fullTableCalls.get ⟨pre.length, hlen⟩ = call := by simp [hsplit]
    have hcall := hchecked pre.length hlen reached (by rw [htake]; exact hpre)
    rw [htake, hget] at hcall
    exact hcall
  have hbefore : (run (new 1000000000 3 2) (fullTableCalls.take 3)).isSome = true := by
    decide +kernel
  obtain ⟨reached, hreached⟩ := Option.isSome_iff_exists.mp hbefore
  exact ⟨reached, hreached, hlaw (fullTableCalls.take 3) _ [] reached rfl hreached⟩

/-- The first address fails, its failure expires and a question empties its entry. Two
seconds later the second address fails; a third one evicts it while the first stays. -/
theorem live_address_evicted :
    ¬ ∀ (window : Duration) (maxFailures maxEntries : Nat) (calls : List Call)
      (limiter : AuthRateLimiter), 1 ≤ maxEntries →
      (calls.flatMap Call.readings).Pairwise (· ≤ ·) →
      run (new window maxFailures maxEntries) calls = some limiter →
      ∀ pre call post reached, calls = pre ++ call :: post →
        run (new window maxFailures maxEntries) pre = some reached →
        EvictsLeastRecent pre reached call := by
  intro h
  have hsome : (run (new 1000000000 3 2) evictingCalls).isSome = true := by decide +kernel
  obtain ⟨limiter, hrun⟩ := Option.isSome_iff_exists.mp hsome
  have hlaw := h 1000000000 3 2 evictingCalls limiter (by decide) (by decide) hrun
    (evictingCalls.take 3) _ [] _ rfl rfl (host 2) (by decide +kernel) (host 1) (by decide +kernel)
  exact absurd hlaw.1 (by decide +kernel)

end Liaozhai.Auth.AuthRateLimiter
