import Liaozhai.Library.Machine
import Mathlib.Data.List.AList

/-!
# The rate limiter

`AuthRateLimiter` as a table of failure times by address. Its calls run one at a
time under the mutex. A `HashMap` iterates in no fixed order, so a call that
iterates comes with the order it meets.
-/

namespace Liaozhai.Auth

set_option autoImplicit false

inductive IpAddr where
  | v4 (bits : BitVec 32)
  | v6 (bits : BitVec 128)
  deriving DecidableEq, Repr

/-- Nanoseconds on the monotonic clock. -/
abbrev Instant := Int

/-- Nanoseconds. -/
abbrev Duration := Nat

/-- The clock in one call: the two readings of `prune`, the time stamp after them,
and the earliest instant of the platform. -/
structure Clock where
  earliest : Instant
  now : Instant
  again : Instant
  stamp : Instant
  deriving DecidableEq, Repr

/-- `Instant::now().checked_sub(window)`. -/
def Clock.checkedSub (clock : Clock) (window : Duration) : Option Instant :=
  if clock.earliest ≤ clock.now - window then some (clock.now - window) else none

abbrev FailureMap := AList fun _ : IpAddr => List Instant

/-- The entries of the map in the order of an iteration. -/
abbrev Iteration := List (Sigma fun _ : IpAddr => List Instant)

structure AuthRateLimiter where
  window : Duration
  maxFailures : Nat
  maxEntries : Nat
  failures : FailureMap

def prune (deque : List Instant) (window : Duration) (clock : Clock) : List Instant :=
  let cutoff := (clock.checkedSub window).getD clock.again
  deque.dropWhile fun t => t < cutoff

/-- The address with the oldest most-recent failure, the first in the iteration. -/
def findOldestEntry (iter : Iteration) : Option IpAddr :=
  let stamped := iter.filterMap fun entry => entry.2.getLast?.map fun t => (entry.1, t)
  (stamped.minOn? Prod.snd).map Prod.fst

namespace AuthRateLimiter

def new (window : Duration) (maxFailures maxEntries : Nat) : AuthRateLimiter :=
  ⟨window, maxFailures, maxEntries, ∅⟩

def len (limiter : AuthRateLimiter) : Nat := limiter.failures.keys.length

def isThrottled (limiter : AuthRateLimiter) (ip : IpAddr) (clock : Clock) :
    Bool × AuthRateLimiter :=
  match limiter.failures.lookup ip with
  | some deque =>
    let deque := prune deque limiter.window clock
    (deque.length ≥ limiter.maxFailures,
      { limiter with failures := limiter.failures.insert ip deque })
  | none => (false, limiter)

/-- The map after the eviction that a new address may need. -/
def evicted (limiter : AuthRateLimiter) (ip : IpAddr) (iter : Iteration) : FailureMap :=
  if ip ∉ limiter.failures ∧ limiter.len ≥ limiter.maxEntries then
    match findOldestEntry iter with
    | some oldest => limiter.failures.erase oldest
    | none => limiter.failures
  else limiter.failures

def recordFailure (limiter : AuthRateLimiter) (ip : IpAddr) (iter : Iteration) (clock : Clock) :
    AuthRateLimiter :=
  let map := limiter.evicted ip iter
  let deque := prune ((map.lookup ip).getD []) limiter.window clock
  { limiter with failures := map.insert ip (deque ++ [clock.stamp]) }

def reset (limiter : AuthRateLimiter) (ip : IpAddr) : AuthRateLimiter :=
  { limiter with failures := limiter.failures.erase ip }

inductive Call where
  | isThrottled (ip : IpAddr) (clock : Clock)
  | recordFailure (ip : IpAddr) (iter : Iteration) (clock : Clock)
  | reset (ip : IpAddr)

def step (limiter : AuthRateLimiter) : Call → Option AuthRateLimiter
  | .isThrottled ip clock => some (limiter.isThrottled ip clock).2
  | .recordFailure ip iter clock =>
    if iter.Perm limiter.failures.entries then some (limiter.recordFailure ip iter clock) else none
  | .reset ip => some (limiter.reset ip)

def run : AuthRateLimiter → List Call → Option AuthRateLimiter := Machine.run step

variable {limiter limiter' : AuthRateLimiter} {ip : IpAddr} {iter : Iteration} {clock : Clock}
  {call : Call} {calls : List Call}

theorem findOldestEntry_mem {oldest : IpAddr} (h : findOldestEntry iter = some oldest) :
    oldest ∈ iter.keys := by
  obtain ⟨⟨_, t⟩, hmin, rfl⟩ := Option.map_eq_some_iff.mp h
  obtain ⟨entry, hentry, hstamp⟩ := List.mem_filterMap.mp (List.minOn?_mem hmin)
  obtain ⟨_, _, hpair⟩ := Option.map_eq_some_iff.mp hstamp
  cases hpair
  exact List.mem_keys_of_mem hentry

theorem findOldestEntry_eq_none :
    findOldestEntry iter = none ↔ ∀ entry ∈ iter, entry.2 = [] := by
  rw [findOldestEntry, Option.map_eq_none_iff, ← Option.not_isSome_iff_eq_none,
    List.isSome_minOn?_iff, not_not, List.filterMap_eq_nil_iff]
  simp only [Option.map_eq_none_iff, List.getLast?_eq_none_iff]

@[simp] theorem len_insert_of_mem {map : FailureMap} {deque : List Instant} (h : ip ∈ map) :
    (map.insert ip deque).keys.length = map.keys.length := by
  rw [AList.keys_insert, List.length_cons, List.length_erase_of_mem (AList.mem_keys.mp h)]
  have hpos := List.length_pos_of_mem (AList.mem_keys.mp h)
  omega

theorem len_insert_of_notMem {map : FailureMap} {deque : List Instant} (h : ip ∉ map) :
    (map.insert ip deque).keys.length = map.keys.length + 1 := by
  rw [AList.keys_insert, List.length_cons, List.erase_of_not_mem (mt AList.mem_keys.mpr h)]

theorem len_erase_le (map : FailureMap) (ip : IpAddr) :
    (map.erase ip).keys.length ≤ map.keys.length := by
  rw [AList.keys_erase]
  exact List.length_erase_le

theorem len_isThrottled : (limiter.isThrottled ip clock).2.len = limiter.len := by
  unfold isThrottled
  split
  · rename_i deque hdeque
    exact len_insert_of_mem (AList.lookup_isSome.mp (by rw [hdeque]; rfl))
  · rfl

/-- A new address comes when the table is full, and no entry has a failure left
that would name it for eviction. -/
def Stuck (limiter : AuthRateLimiter) : Call → Prop
  | .recordFailure ip _ _ =>
    ip ∉ limiter.failures ∧ limiter.maxEntries ≤ limiter.len ∧
      ∀ entry ∈ limiter.failures.entries, entry.2 = []
  | _ => False

instance : ∀ limiter call, Decidable (Stuck limiter call)
  | _, .isThrottled _ _ => isFalse id
  | _, .reset _ => isFalse id
  | limiter, .recordFailure ip _ _ =>
    inferInstanceAs (Decidable (ip ∉ limiter.failures.keys ∧ limiter.maxEntries ≤ limiter.len ∧
      ∀ entry ∈ limiter.failures.entries, entry.2 = []))

theorem len_le_of_mem (h : ip ∈ limiter.failures) :
    (limiter.recordFailure ip iter clock).len = limiter.len := by
  have hkept : limiter.evicted ip iter = limiter.failures := by
    rw [evicted, if_neg]
    exact fun hnew => hnew.1 h
  rw [len, recordFailure, hkept]
  exact len_insert_of_mem h

/-- An eviction makes room for a new address. -/
theorem len_recordFailure_of_evicted {oldest : IpAddr} (h : ip ∉ limiter.failures)
    (hfull : limiter.maxEntries ≤ limiter.len) (holdest : findOldestEntry iter = some oldest)
    (hiter : iter.Perm limiter.failures.entries) :
    (limiter.recordFailure ip iter clock).len = limiter.len := by
  have hmem : oldest ∈ limiter.failures.keys :=
    (hiter.map Sigma.fst).mem_iff.mp (findOldestEntry_mem holdest)
  have herase : limiter.evicted ip iter = limiter.failures.erase oldest := by
    rw [evicted, if_pos ⟨h, hfull⟩, holdest]
  have hnew : ip ∉ limiter.failures.erase oldest := fun hin => h (AList.mem_erase.mp hin).2
  have hpos := List.length_pos_of_mem hmem
  rw [len, recordFailure, herase]
  dsimp only
  rw [len_insert_of_notMem hnew, AList.keys_erase, List.length_erase_of_mem hmem, len]
  omega

theorem len_recordFailure_of_none (h : ip ∉ limiter.failures)
    (hnone : findOldestEntry iter = none ∨ limiter.len < limiter.maxEntries) :
    (limiter.recordFailure ip iter clock).len = limiter.len + 1 := by
  have hkept : limiter.evicted ip iter = limiter.failures := by
    rcases hnone with hnone | hroom
    · rw [evicted, hnone]
      split
      · rfl
      · rfl
    · rw [evicted, if_neg]
      exact fun hfull => absurd hfull.2 (Nat.not_le_of_lt hroom)
  rw [len, recordFailure, hkept]
  exact len_insert_of_notMem h

theorem stuck_iff (hiter : iter.Perm limiter.failures.entries) :
    Stuck limiter (.recordFailure ip iter clock) ↔
      ip ∉ limiter.failures ∧ limiter.maxEntries ≤ limiter.len ∧ findOldestEntry iter = none := by
  have hempty : (∀ entry ∈ iter, entry.2 = []) ↔
      ∀ entry ∈ limiter.failures.entries, entry.2 = [] :=
    forall_congr' fun entry => imp_congr_left hiter.mem_iff
  rw [Stuck, findOldestEntry_eq_none, hempty]

/-- `record_failure` keeps the bound unless it is stuck. -/
theorem len_recordFailure_le_iff (hlen : limiter.len ≤ limiter.maxEntries)
    (hiter : iter.Perm limiter.failures.entries) :
    (limiter.recordFailure ip iter clock).len ≤ limiter.maxEntries ↔
      ¬ Stuck limiter (.recordFailure ip iter clock) := by
  rw [stuck_iff hiter]
  by_cases hmem : ip ∈ limiter.failures
  · rw [len_le_of_mem hmem]
    exact iff_of_true hlen fun hstuck => hstuck.1 hmem
  · by_cases hroom : limiter.len < limiter.maxEntries
    · rw [len_recordFailure_of_none hmem (.inr hroom)]
      exact iff_of_true hroom fun hstuck => absurd hstuck.2.1 (Nat.not_le_of_lt hroom)
    · have hfull := Nat.le_of_not_lt hroom
      cases holdest : findOldestEntry iter with
      | some oldest =>
        rw [len_recordFailure_of_evicted hmem hfull holdest hiter]
        exact iff_of_true hlen fun hstuck => nomatch hstuck.2.2
      | none =>
        rw [len_recordFailure_of_none hmem (.inl holdest)]
        refine iff_of_false (by omega) ?_
        intro hfree
        exact hfree ⟨hmem, hfull, rfl⟩

theorem step_maxEntries (hstep : step limiter call = some limiter') :
    limiter'.maxEntries = limiter.maxEntries := by
  cases call with
  | isThrottled ip clock =>
    cases hstep
    unfold isThrottled
    split
    · rfl
    · rfl
  | recordFailure ip iter clock =>
    simp only [step] at hstep
    split at hstep
    · cases hstep
      rfl
    · cases hstep
  | reset ip =>
    cases hstep
    rfl

/-- A call keeps the bound unless it is stuck. -/
theorem step_len_le_iff (hlen : limiter.len ≤ limiter.maxEntries)
    (hstep : step limiter call = some limiter') :
    limiter'.len ≤ limiter.maxEntries ↔ ¬ Stuck limiter call := by
  cases call with
  | isThrottled ip clock =>
    cases hstep
    rw [len_isThrottled]
    exact iff_of_true hlen id
  | recordFailure ip iter clock =>
    simp only [step] at hstep
    split at hstep
    · rename_i hiter
      cases hstep
      exact len_recordFailure_le_iff hlen hiter
    · cases hstep
  | reset ip =>
    cases hstep
    exact iff_of_true (Nat.le_trans (len_erase_le _ ip) hlen) id

/-- In every run the table stays within `max_entries` if and only if no call is
stuck. -/
theorem len_le_maxEntries_iff {window : Duration} {maxFailures maxEntries : Nat}
    (hrun : run (new window maxFailures maxEntries) calls = some limiter) :
    (∀ pre reached, pre <+: calls → run (new window maxFailures maxEntries) pre = some reached →
        reached.len ≤ maxEntries) ↔
      ∀ pre call post reached, calls = pre ++ call :: post →
        run (new window maxFailures maxEntries) pre = some reached → ¬ Stuck reached call := by
  have hiff := Machine.throughout_iff_along (fun reached => reached.maxEntries = maxEntries)
    (Q := fun reached => reached.len ≤ maxEntries) (P := fun reached call => ¬ Stuck reached call)
    ?_ ?_ rfl (Nat.zero_le _) hrun
  · exact hiff.trans (Machine.along_iff hrun)
  · intro t call t' hmax hstep
    exact (step_maxEntries hstep).trans hmax
  · rintro t call t' rfl hlen hstep
    exact step_len_le_iff hlen hstep

def host (n : Nat) : IpAddr := .v4 (BitVec.ofNat 32 n)

def atSecond (n : Nat) : Clock :=
  let now : Instant := n * 1000000000
  ⟨0, now, now, now⟩

/-- A window of one second and room for two addresses: the first failure expires,
and the third address takes the place of the second. -/
def evictingCalls : List Call :=
  [.recordFailure (host 1) [] (atSecond 1), .isThrottled (host 1) (atSecond 3),
    .recordFailure (host 2) [⟨host 1, []⟩] (atSecond 3),
    .recordFailure (host 3) [⟨host 1, []⟩, ⟨host 2, [3000000000]⟩] (atSecond 4)]

theorem len_le_maxEntries_evicting :
    Machine.Throughout step (fun reached => reached.len ≤ 2) (new 1000000000 3 2)
      evictingCalls := by
  have hsome : (run (new 1000000000 3 2) evictingCalls).isSome = true := by decide +kernel
  obtain ⟨limiter, hrun⟩ := Option.isSome_iff_exists.mp hsome
  have hfree : Machine.Along step (fun reached call => ¬ Stuck reached call)
      (new 1000000000 3 2) evictingCalls := by decide +kernel
  exact (len_le_maxEntries_iff hrun).mpr ((Machine.along_iff hrun).mp hfree)

/-- The first failure expires and `is_throttled` empties its entry. The table has
room for one address, and the second address finds nothing to evict. -/
theorem emptied_entry_not_evicted :
    ∃ limiter, run (new 1000000000 3 1)
      [.recordFailure (host 1) [] (atSecond 1), .isThrottled (host 1) (atSecond 3),
        .recordFailure (host 2) [⟨host 1, []⟩] (atSecond 3)] = some limiter ∧ ¬ limiter.len ≤ 1 := by
  refine ⟨_, rfl, ?_⟩
  decide +kernel

section Record

/-- The failures on record for an address. -/
def onRecord (limiter : AuthRateLimiter) (ip : IpAddr) : List Instant :=
  (limiter.failures.lookup ip).getD []

/-- What a call for the address leaves of them: `prune` drops those before the cutoff,
which is now itself when the clock has no instant the window ago. -/
def recent (limiter : AuthRateLimiter) (ip : IpAddr) (clock : Clock) : List Instant :=
  prune (limiter.onRecord ip) limiter.window clock

variable {other : IpAddr}

theorem length_prune_le (deque : List Instant) (window : Duration) (clock : Clock) :
    (prune deque window clock).length ≤ deque.length :=
  (List.dropWhile_suffix _).length_le

/-- An address is throttled when its recent failures reach the maximum. -/
theorem isThrottled_eq_false (hmax : 1 ≤ limiter.maxFailures) :
    (limiter.isThrottled ip clock).1 = false ↔
      (limiter.recent ip clock).length < limiter.maxFailures := by
  unfold isThrottled recent onRecord
  split
  · rename_i deque hdeque
    rw [hdeque, Option.getD_some, decide_eq_false_iff_not, Nat.not_le]
  · rename_i hnone
    rw [hnone]
    exact iff_of_true rfl hmax

theorem onRecord_insert (deque : List Instant) (map : FailureMap) :
    onRecord { limiter with failures := map.insert ip deque } ip = deque := by
  rw [onRecord, AList.lookup_insert]
  rfl

theorem onRecord_insert_ne (h : other ≠ ip) (deque : List Instant) (map : FailureMap) :
    onRecord { limiter with failures := map.insert ip deque } other =
      onRecord { limiter with failures := map } other := by
  rw [onRecord, onRecord, AList.lookup_insert_ne h]

theorem length_onRecord_erase_le :
    (onRecord { limiter with failures := limiter.failures.erase ip } other).length ≤
      (limiter.onRecord other).length := by
  by_cases h : other = ip
  · rw [onRecord, h, AList.lookup_erase]
    exact Nat.zero_le _
  · rw [onRecord, AList.lookup_erase_ne h]
    exact Nat.le_refl _

theorem onRecord_isThrottled :
    (limiter.isThrottled ip clock).2.onRecord ip = limiter.recent ip clock := by
  unfold isThrottled
  split
  · rename_i deque hdeque
    rw [onRecord_insert, recent, onRecord, hdeque, Option.getD_some]
  · rename_i hnone
    rw [recent, onRecord, hnone]
    rfl

theorem length_onRecord_isThrottled_le :
    ((limiter.isThrottled ip clock).2.onRecord other).length ≤ (limiter.onRecord other).length := by
  by_cases h : other = ip
  · subst h
    rw [onRecord_isThrottled]
    exact length_prune_le _ _ _
  · unfold isThrottled
    split
    · rw [onRecord_insert_ne h]
    · exact Nat.le_refl _

theorem length_onRecord_evicted_le :
    (onRecord { limiter with failures := limiter.evicted ip iter } other).length ≤
      (limiter.onRecord other).length := by
  unfold evicted
  split
  · split
    · exact length_onRecord_erase_le
    · exact Nat.le_refl _
  · exact Nat.le_refl _

/-- A failure adds at most one to the record of its address, and nothing to others. -/
theorem length_onRecord_recordFailure_le :
    ((limiter.recordFailure ip iter clock).onRecord other).length ≤
      (limiter.onRecord other).length + if other = ip then 1 else 0 := by
  have hevicted := @length_onRecord_evicted_le limiter ip iter other
  by_cases h : other = ip
  · subst h
    have hprune := length_prune_le (((limiter.evicted other iter).lookup other).getD [])
      limiter.window clock
    rw [recordFailure, onRecord_insert, if_pos rfl, List.length_append, List.length_singleton]
    exact Nat.succ_le_succ (Nat.le_trans hprune hevicted)
  · rw [recordFailure, onRecord_insert_ne h, if_neg h]
    exact hevicted

/-! ### Records that nothing shortens -/

/-- The cutoff of `prune`. -/
def cutoff (window : Duration) (clock : Clock) : Instant :=
  (clock.checkedSub window).getD clock.again

/-- A failure of `ip` evicts the entry of another address. -/
def Evicts (limiter : AuthRateLimiter) (ip : IpAddr) (iter : Iteration) (other : IpAddr) : Prop :=
  ip ∉ limiter.failures ∧ limiter.maxEntries ≤ limiter.len ∧ findOldestEntry iter = some other

instance : Decidable (Evicts limiter ip iter other) :=
  inferInstanceAs (Decidable (ip ∉ limiter.failures.keys ∧ limiter.maxEntries ≤ limiter.len ∧
    findOldestEntry iter = some other))

theorem onRecord_isThrottled_ne (h : other ≠ ip) :
    (limiter.isThrottled ip clock).2.onRecord other = limiter.onRecord other := by
  unfold isThrottled
  split
  · exact onRecord_insert_ne h _ _
  · rfl

theorem onRecord_erase_ne (h : other ≠ ip) :
    onRecord { limiter with failures := limiter.failures.erase ip } other =
      limiter.onRecord other := by
  rw [onRecord, AList.lookup_erase_ne h]
  rfl

/-- The eviction touches no other entry than the one it removes. -/
theorem onRecord_evicted (h : ¬ Evicts limiter ip iter other) :
    onRecord { limiter with failures := limiter.evicted ip iter } other =
      limiter.onRecord other := by
  unfold evicted
  split
  · rename_i hfull
    split
    · rename_i oldest holdest
      apply onRecord_erase_ne
      rintro rfl
      exact h ⟨hfull.1, hfull.2, holdest⟩
    · rfl
  · rfl

/-- A new address has no record, whatever is evicted for it. -/
theorem onRecord_evicted_self :
    onRecord { limiter with failures := limiter.evicted ip iter } ip = limiter.onRecord ip := by
  by_cases h : Evicts limiter ip iter ip
  · obtain ⟨hnew, hlen, holdest⟩ := h
    have hnone : limiter.failures.lookup ip = none := AList.lookup_eq_none.mpr hnew
    rw [evicted, if_pos ⟨hnew, hlen⟩, holdest, onRecord, onRecord, hnone]
    dsimp only
    rw [AList.lookup_erase]
  · exact onRecord_evicted h

theorem onRecord_recordFailure :
    (limiter.recordFailure ip iter clock).onRecord ip =
      limiter.recent ip clock ++ [clock.stamp] := by
  rw [recordFailure, onRecord_insert, recent, ← @onRecord_evicted_self limiter ip iter]
  rfl

theorem onRecord_recordFailure_ne (h : other ≠ ip) (hkept : ¬ Evicts limiter ip iter other) :
    (limiter.recordFailure ip iter clock).onRecord other = limiter.onRecord other := by
  rw [recordFailure, onRecord_insert_ne h]
  exact onRecord_evicted hkept

end Record

end AuthRateLimiter

end Liaozhai.Auth
