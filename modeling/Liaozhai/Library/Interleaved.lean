import Mathlib.Algebra.BigOperators.Group.Finset.Basic
import Mathlib.Algebra.BigOperators.Group.List.Basic
import Mathlib.Algebra.Order.BigOperators.Group.List
import Liaozhai.Library.Machine

/-!
# Interleaved processes

Any number of processes that act one at a time on a shared state. New ones may
join at any moment. A budget of the shared state is kept when every action either
spends what its process has left or starts from a low level.
-/

namespace Liaozhai.Interleaved

set_option autoImplicit false

universe u v w

structure System (Shared : Type u) (Process : Type v) where
  shared : Shared
  processes : List Process
  deriving DecidableEq

inductive Event (Process : Type v) (Action : Type w) where
  | joined (process : Process)
  | acted (index : Nat) (action : Action)

variable {Shared : Type u} {Process : Type v} {Action : Type w}

section Step
variable (fresh : Process → Bool) (act : Shared → Process → Action → Option (Shared × Process))

def step (s : System Shared Process) : Event Process Action → Option (System Shared Process)
  | .joined process =>
    if fresh process then some { s with processes := s.processes ++ [process] } else none
  | .acted index action =>
    (s.processes[index]?).bind fun process =>
      (act s.shared process action).map fun (shared, process') =>
        ⟨shared, s.processes.set index process'⟩

variable {fresh act} {s s' : System Shared Process} {index : Nat} {action : Action}

theorem step_acted (h : step fresh act s (.acted index action) = some s') :
    ∃ process shared process', s.processes[index]? = some process ∧
      act s.shared process action = some (shared, process') ∧
      s' = ⟨shared, s.processes.set index process'⟩ := by
  obtain ⟨process, hprocess, hmap⟩ := Option.bind_eq_some_iff.mp h
  obtain ⟨⟨shared, process'⟩, hact, rfl⟩ := Option.map_eq_some_iff.mp hmap
  exact ⟨process, shared, process', hprocess, hact, rfl⟩

theorem step_joined {process : Process} (h : step fresh act s (.joined process) = some s') :
    fresh process = true ∧ s' = { s with processes := s.processes ++ [process] } := by
  obtain ⟨hfresh, ⟨⟩⟩ := Option.ite_none_right_eq_some.mp h
  exact ⟨hfresh, rfl⟩

/-- A process after a step was there before it, or has just joined, or has just acted. -/
theorem step_process {e : Event Process Action} {process : Process}
    (hstep : step fresh act s e = some s') (h : s'.processes[index]? = some process) :
    s.processes[index]? = some process ∨ fresh process = true ∨
      ∃ action before, e = .acted index action ∧ s.processes[index]? = some before ∧
        act s.shared before action = some (s'.shared, process) := by
  cases e with
  | joined new =>
    obtain ⟨hfresh, rfl⟩ := step_joined hstep
    rw [List.getElem?_append] at h
    split at h
    · exact .inl h
    · obtain rfl := List.mem_singleton.mp (List.mem_of_getElem? h)
      exact .inr (.inl hfresh)
  | acted acting action =>
    obtain ⟨before, shared, after, hbefore, hact, rfl⟩ := step_acted hstep
    rw [List.getElem?_set] at h
    split at h
    · rename_i hsame
      subst hsame
      obtain ⟨_, ⟨⟩⟩ := Option.ite_none_right_eq_some.mp h
      exact .inr (.inr ⟨action, before, rfl, hbefore, hact⟩)
    · exact .inl h

/-- `P` holds of the process that acts and the shared state it acts on. -/
def ActsAs (P : Shared → Process → Action → Prop) (s : System Shared Process) :
    Event Process Action → Prop
  | .joined _ => True
  | .acted index action => ∀ process ∈ s.processes[index]?, P s.shared process action

instance {P : Shared → Process → Action → Prop}
    [∀ shared process action, Decidable (P shared process action)] (s : System Shared Process) :
    ∀ e, Decidable (ActsAs P s e)
  | .joined _ => inferInstanceAs (Decidable True)
  | .acted index action =>
    inferInstanceAs (Decidable (∀ process ∈ s.processes[index]?, P s.shared process action))

/-- What the fresh processes have and every action keeps holds of all processes. -/
theorem all_step (Inv : Process → Prop) (starts : ∀ process, fresh process = true → Inv process)
    (keeps : ∀ shared process action shared' process', Inv process →
      act shared process action = some (shared', process') → Inv process')
    (h : ∀ process ∈ s.processes, Inv process) {e : Event Process Action}
    (hstep : step fresh act s e = some s') : ∀ process ∈ s'.processes, Inv process := by
  intro process hprocess
  obtain ⟨index, hindex⟩ := List.mem_iff_getElem?.mp hprocess
  rcases step_process hstep hindex with hold | hfresh | ⟨action, before, _, hbefore, hact⟩
  · exact h process (List.mem_of_getElem? hold)
  · exact starts process hfresh
  · exact keeps _ before action _ process (h before (List.mem_of_getElem? hbefore)) hact

end Step

section Load
variable (weight : Process → Nat)

def load (s : System Shared Process) : Nat := (s.processes.map weight).sum

variable {weight}

theorem sum_set {ps : List Process} {index : Nat} {process : Process}
    (h : ps[index]? = some process) (process' : Process) :
    ((ps.set index process').map weight).sum + weight process =
      (ps.map weight).sum + weight process' := by
  induction ps generalizing index with
  | nil => cases h
  | cons p ps ih =>
    cases index with
    | zero =>
      obtain rfl : p = process := by simpa using h
      simp only [List.set_cons_zero, List.map_cons, List.sum_cons]
      omega
    | succ index =>
      have hrest := @ih index (by simpa using h)
      simp only [List.set_cons_succ, List.map_cons, List.sum_cons]
      omega

theorem load_mono {weight' : Process → Nat} {s : System Shared Process}
    (h : ∀ process ∈ s.processes, weight process ≤ weight' process) :
    load weight s ≤ load weight' s :=
  List.sum_le_sum h

/-- The load is bounded by the number of the processes that count. -/
theorem load_le_countP {counts : Process → Bool} {n : Nat} {ps : List Process}
    (h : ∀ process ∈ ps, weight process ≤ if counts process then n else 0) :
    (ps.map weight).sum ≤ ps.countP counts * n := by
  induction ps with
  | nil => exact Nat.zero_le _
  | cons p ps ih =>
    have hp := h p List.mem_cons_self
    have hps := ih fun q hq => h q (List.mem_cons_of_mem p hq)
    rw [List.map_cons, List.sum_cons, List.countP_cons, Nat.add_mul]
    split at hp
    · rename_i hcounts
      rw [if_pos hcounts]
      omega
    · rename_i hcounts
      rw [if_neg hcounts]
      omega

variable {fresh : Process → Bool} {act : Shared → Process → Action → Option (Shared × Process)}
  {low room : Nat} {Inv : Process → Prop}

/-- One step of the budget: what is held and what the processes may still add stays
within a low level and the room for all that may be added to it. -/
theorem budget_step (held : Shared → Nat) {s s' : System Shared Process} {e : Event Process Action}
    (starts : ∀ process, fresh process = true → weight process = 0)
    (spends : ∀ process action shared' process', Inv process →
      act s.shared process action = some (shared', process') →
        held shared' + weight process' ≤ held s.shared + weight process ∨ held shared' ≤ low)
    (hinv : ∀ process ∈ s.processes, Inv process) (hload : load weight s' ≤ room)
    (h : held s.shared + load weight s ≤ low + room) (hstep : step fresh act s e = some s') :
    held s'.shared + load weight s' ≤ low + room := by
  cases e with
  | joined process =>
    obtain ⟨hfresh, rfl⟩ := step_joined hstep
    have hzero := starts process hfresh
    simp only [load, List.map_append, List.map_cons, List.map_nil, List.sum_append, List.sum_cons,
      List.sum_nil] at h ⊢
    omega
  | acted index action =>
    obtain ⟨process, shared, process', hprocess, hact, rfl⟩ := step_acted hstep
    have hset : ((s.processes.set index process').map weight).sum + weight process =
        (s.processes.map weight).sum + weight process' := sum_set hprocess process'
    rcases spends process action _ process' (hinv process (List.mem_of_getElem? hprocess)) hact
      with hspent | hlow
    · simp only [load] at h ⊢
      omega
    · simp only at hload ⊢
      omega

end Load

/-! ### Processes that run

A process keeps its index when it ends. The load of the running ones is taken
over their indices. -/

section Running
variable {weight : Process → Nat} {ps : List Process} {ids : List Nat} {index : Nat}
  {process : Process}

def loadOf (weight : Process → Nat) (ps : List Process) (ids : List Nat) : Nat :=
  (ids.map fun index => (ps[index]?).elim 0 weight).sum

theorem loadOf_concat :
    loadOf weight ps (ids ++ [index]) = loadOf weight ps ids + (ps[index]?).elim 0 weight := by
  simp [loadOf]

theorem loadOf_congr {ps' : List Process} (h : ∀ index ∈ ids, ps'[index]? = ps[index]?) :
    loadOf weight ps' ids = loadOf weight ps ids := by
  rw [loadOf, loadOf]
  refine congrArg List.sum (List.map_congr_left ?_)
  intro index hindex
  rw [h index hindex]

theorem loadOf_joined (h : ∀ index ∈ ids, index < ps.length) :
    loadOf weight (ps ++ [process]) ids = loadOf weight ps ids := by
  apply loadOf_congr
  intro index hindex
  exact List.getElem?_append_left (h index hindex)

theorem loadOf_erase (weight : Process → Nat) (ps : List Process) (h : index ∈ ids) :
    loadOf weight ps (ids.erase index) + (ps[index]?).elim 0 weight = loadOf weight ps ids := by
  rw [Nat.add_comm]
  exact List.sum_map_erase (fun index => (ps[index]?).elim 0 weight) h

theorem loadOf_acted (hnodup : ids.Nodup) (hindex : index ∈ ids) (h : ps[index]? = some process)
    (process' : Process) :
    loadOf weight (ps.set index process') ids + weight process =
      loadOf weight ps ids + weight process' := by
  have hlt := (List.getElem?_eq_some_iff.mp h).1
  have hothers : loadOf weight (ps.set index process') (ids.erase index) =
      loadOf weight ps (ids.erase index) := by
    apply loadOf_congr
    intro other hother
    have hne : index ≠ other := fun heq => hnodup.not_mem_erase (heq ▸ hother)
    exact List.getElem?_set_ne hne
  have hbefore := loadOf_erase weight ps hindex
  have hafter := loadOf_erase weight (ps.set index process') hindex
  rw [h, Option.elim_some] at hbefore
  rw [List.getElem?_set_self hlt, Option.elim_some, hothers] at hafter
  omega

theorem loadOf_le {n : Nat}
    (h : ∀ index ∈ ids, ∀ process, ps[index]? = some process → weight process ≤ n) :
    loadOf weight ps ids ≤ ids.length * n := by
  induction ids with
  | nil => exact Nat.zero_le _
  | cons index ids ih =>
    have hrest : loadOf weight ps ids ≤ ids.length * n :=
      ih fun other hother => h other (List.mem_cons_of_mem index hother)
    have hfirst : (ps[index]?).elim 0 weight ≤ n := by
      cases hprocess : ps[index]? with
      | none => exact Nat.zero_le n
      | some process => exact h index List.mem_cons_self process hprocess
    rw [loadOf, List.map_cons, List.sum_cons, List.length_cons, Nat.succ_mul, Nat.add_comm]
    exact Nat.add_le_add hrest hfirst

theorem loadOf_mono {weight' : Process → Nat}
    (h : ∀ index ∈ ids, ∀ process, ps[index]? = some process → weight process ≤ weight' process) :
    loadOf weight ps ids ≤ loadOf weight' ps ids := by
  apply List.sum_le_sum
  intro index hindex
  cases hprocess : ps[index]? with
  | none => exact Nat.le_refl _
  | some process => exact h index hindex process hprocess

/-- A sum over the processes when the share of one of them changes. -/
theorem sum_range_step {n : Nat} {share share' : Nat → Nat} (hindex : index < n)
    (hothers : ∀ other, other ≠ index → share' other = share other) :
    (∑ i ∈ Finset.range n, share' i) + share index =
      (∑ i ∈ Finset.range n, share i) + share' index := by
  have hmem := Finset.mem_range.mpr hindex
  have hbefore := Finset.add_sum_erase (Finset.range n) share hmem
  have hafter := Finset.add_sum_erase (Finset.range n) share' hmem
  have hrest : ∑ i ∈ (Finset.range n).erase index, share' i =
      ∑ i ∈ (Finset.range n).erase index, share i :=
    Finset.sum_congr rfl fun other hother => hothers other (Finset.ne_of_mem_erase hother)
  omega

end Running

end Liaozhai.Interleaved
