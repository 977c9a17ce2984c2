import Mathlib.Order.Lattice
import Mathlib.Data.List.TakeWhile

/-!
# Queues that forget from the front

A queue of times drops its old entries only when it is used, and each time only
those before a cutoff. It lags behind the record that forgets nothing: what it lacks
is older than every cutoff to come.
-/

namespace Liaozhai.ExpiringQueue

set_option autoImplicit false

universe u

variable {Time : Type u} [LinearOrder Time] {cutoff cutoff' bound bound' : Time}
  {record queue queue' : List Time}

/-- The queue without its front entries before the cutoff. -/
def expire (cutoff : Time) (queue : List Time) : List Time :=
  queue.dropWhile fun t => t < cutoff

@[simp] theorem expire_nil : expire cutoff [] = [] := rfl

theorem expire_suffix (cutoff : Time) (queue : List Time) : expire cutoff queue <:+ queue :=
  List.dropWhile_suffix _

theorem expire_of_lt {t : Time} (h : t < cutoff) :
    expire cutoff (t :: queue) = expire cutoff queue := by
  rw [expire, List.dropWhile_cons, if_pos (decide_eq_true h)]
  rfl

theorem expire_of_le {t : Time} (h : cutoff ≤ t) : expire cutoff (t :: queue) = t :: queue := by
  rw [expire, List.dropWhile_cons, if_neg]
  simpa using h

theorem expire_append_of_lt {old : List Time} (h : ∀ t ∈ old, t < cutoff) :
    expire cutoff (old ++ queue) = expire cutoff queue := by
  apply List.dropWhile_append_of_pos
  intro t ht
  exact decide_eq_true (h t ht)

/-- In a queue in time order, the front entries before the cutoff are all of them. -/
theorem length_expire (hsorted : queue.Pairwise (· ≤ ·)) :
    (expire cutoff queue).length = queue.countP fun t => cutoff ≤ t := by
  induction queue with
  | nil => rfl
  | cons t queue ih =>
    obtain ⟨hhead, htail⟩ := List.pairwise_cons.mp hsorted
    rcases lt_or_ge t cutoff with hlt | hle
    · rw [expire_of_lt hlt, ih htail, List.countP_cons_of_neg]
      simpa using hlt
    · have hall : ∀ u ∈ t :: queue, decide (cutoff ≤ u) = true := by
        intro u hu
        rcases List.mem_cons.mp hu with rfl | hmem
        · exact decide_eq_true hle
        · exact decide_eq_true (le_trans hle (hhead u hmem))
      rw [expire_of_le hle, List.countP_eq_length.mpr hall]

/-- The entries that are not before the cutoff all stay. -/
theorem countP_expire {t : Time} (h : cutoff ≤ t) :
    ((expire cutoff queue).countP fun u => t ≤ u) = queue.countP fun u => t ≤ u := by
  induction queue with
  | nil => rfl
  | cons u queue ih =>
    rcases lt_or_ge u cutoff with hlt | hle
    · have hold : u < t := lt_of_lt_of_le hlt h
      rw [expire_of_lt hlt, ih, List.countP_cons_of_neg]
      simpa using hold
    · rw [expire_of_le hle]

/-- A queue that is ahead stays ahead, unless the other drops an entry that it keeps. -/
theorem expire_suffix_expire (h : queue <:+ queue')
    (hcutoff : ∀ t ∈ queue', t < cutoff' → t < cutoff) :
    expire cutoff queue <:+ expire cutoff' queue' := by
  induction queue' generalizing queue with
  | nil =>
    obtain rfl := List.suffix_nil.mp h
    exact List.suffix_rfl
  | cons t queue' ih =>
    have hlater : ∀ u ∈ queue', u < cutoff' → u < cutoff := by
      intro u hu
      exact hcutoff u (List.mem_cons_of_mem _ hu)
    rcases lt_or_ge t cutoff' with hlt | hle
    · rw [expire_of_lt hlt]
      rcases List.suffix_cons_iff.mp h with rfl | hsuffix
      · rw [expire_of_lt (hcutoff t List.mem_cons_self hlt)]
        exact ih List.suffix_rfl hlater
      · exact ih hsuffix hlater
    · rw [expire_of_le hle]
      exact (expire_suffix cutoff queue).trans h

/-- The queue is the record without some front entries, all of them before the bound. -/
def Lags (bound : Time) (record queue : List Time) : Prop :=
  ∃ old, record = old ++ queue ∧ ∀ t ∈ old, t < bound

namespace Lags

theorem refl (bound : Time) (queue : List Time) : Lags bound queue queue :=
  ⟨[], rfl, by simp⟩

theorem mono (h : Lags bound record queue) (hle : bound ≤ bound') :
    Lags bound' record queue := by
  obtain ⟨old, rfl, hold⟩ := h
  refine ⟨old, rfl, ?_⟩
  intro t ht
  exact lt_of_lt_of_le (hold t ht) hle

theorem push (h : Lags bound record queue) (t : Time) :
    Lags bound (record ++ [t]) (queue ++ [t]) := by
  obtain ⟨old, rfl, hold⟩ := h
  exact ⟨old, List.append_assoc old queue [t], hold⟩

theorem expire (h : Lags cutoff record queue) :
    Lags cutoff record (expire cutoff queue) := by
  obtain ⟨old, rfl, hold⟩ := h
  refine ⟨old ++ queue.takeWhile fun t => t < cutoff, ?_, ?_⟩
  · rw [List.append_assoc, ExpiringQueue.expire, List.takeWhile_append_dropWhile]
  · intro t ht
    rcases List.mem_append.mp ht with ht | ht
    · exact hold t ht
    · simpa using List.mem_takeWhile_imp ht

/-- From the cutoff on, the queue shows what the record shows. -/
theorem length_expire (h : Lags cutoff record queue) (hsorted : record.Pairwise (· ≤ ·)) :
    (ExpiringQueue.expire cutoff queue).length = record.countP fun t => cutoff ≤ t := by
  rw [← ExpiringQueue.length_expire hsorted]
  obtain ⟨old, rfl, hold⟩ := h
  rw [expire_append_of_lt hold]

end Lags

end Liaozhai.ExpiringQueue
