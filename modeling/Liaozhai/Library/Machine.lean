import Mathlib.Algebra.Order.Ring.Nat
import Mathlib.Data.List.Induction
import Mathlib.Logic.Relation

/-!
# Runs of a state machine

A machine takes a step on an event, or refuses it. What every step keeps holds at
the end of every run; with the events so far in view, so does what a step keeps
of a state and its history.
-/

namespace Liaozhai.Machine

set_option autoImplicit false

universe u v w x

variable {State : Type u} {Event : Type v}

def run (step : State → Event → Option State) : State → List Event → Option State
  | s, [] => some s
  | s, e :: es => (step s e).bind fun s' => run step s' es

variable {step : State → Event → Option State}

@[simp] theorem run_nil (s : State) : run step s [] = some s := rfl

theorem run_cons {s s' : State} {e : Event} {es : List Event} :
    run step s (e :: es) = some s' ↔ ∃ t, step s e = some t ∧ run step t es = some s' := by
  rw [run, Option.bind_eq_some_iff]

theorem run_append {s s' : State} {es es' : List Event} :
    run step s (es ++ es') = some s' ↔ ∃ t, run step s es = some t ∧ run step t es' = some s' := by
  induction es generalizing s with
  | nil => simp
  | cons e es ih =>
    rw [List.cons_append, run_cons]
    constructor
    · rintro ⟨t, ht, hrest⟩
      obtain ⟨t', ht', hrest'⟩ := ih.mp hrest
      exact ⟨t', run_cons.mpr ⟨t, ht, ht'⟩, hrest'⟩
    · rintro ⟨t', ht', hrest'⟩
      obtain ⟨t, ht, hrest⟩ := run_cons.mp ht'
      exact ⟨t, ht, ih.mpr ⟨t', hrest, hrest'⟩⟩

theorem run_snoc {s s' : State} {es : List Event} {e : Event} :
    run step s (es ++ [e]) = some s' ↔ ∃ t, run step s es = some t ∧ step t e = some s' := by
  rw [run_append]
  constructor
  · rintro ⟨t, ht, hlast⟩
    obtain ⟨t', ht', hnil⟩ := run_cons.mp hlast
    obtain rfl : t' = s' := by simpa using hnil
    exact ⟨t, ht, ht'⟩
  · rintro ⟨t, ht, hlast⟩
    exact ⟨t, ht, run_cons.mpr ⟨s', hlast, rfl⟩⟩

/-- What holds at the start and is kept by every step holds after every run. -/
theorem run_invariant {P : State → Prop} {s s' : State} {es : List Event}
    (keeps : ∀ t e t', P t → step t e = some t' → P t') (hs : P s)
    (hrun : run step s es = some s') : P s' := by
  induction es generalizing s with
  | nil =>
    obtain rfl : s = s' := by simpa using hrun
    exact hs
  | cons e es ih =>
    obtain ⟨t, ht, hrest⟩ := run_cons.mp hrun
    exact ih (keeps s e t hs ht) hrest

/-- The same for a property of the events so far and the state they lead to. -/
theorem run_history {P : List Event → State → Prop} {s s' : State} {es : List Event}
    (keeps : ∀ es t e t', run step s es = some t → P es t → step t e = some t' → P (es ++ [e]) t')
    (hs : P [] s) (hrun : run step s es = some s') : P es s' := by
  induction es using List.reverseRecOn generalizing s' with
  | nil =>
    obtain rfl : s = s' := by simpa using hrun
    exact hs
  | append_singleton es e ih =>
    obtain ⟨t, ht, hlast⟩ := run_snoc.mp hrun
    exact keeps es t e s' ht (ih ht) hlast

section Along
variable {P : State → Event → Prop} {Q : State → Prop} {s s' t : State} {e : Event}
  {es : List Event}

/-- `P` holds of every state met and the event taken there. -/
def Along (step : State → Event → Option State) (P : State → Event → Prop) :
    State → List Event → Prop
  | _, [] => True
  | s, e :: es =>
    P s e ∧
      match step s e with
      | some t => Along step P t es
      | none => True

instance decidableAlong [∀ s e, Decidable (P s e)] : ∀ s es, Decidable (Along step P s es)
  | _, [] => isTrue trivial
  | s, e :: es =>
    match h : step s e with
    | some t =>
      have := decidableAlong t es
      decidable_of_iff (P s e ∧ Along step P t es) (by rw [Along, h])
    | none => decidable_of_iff (P s e) (by rw [Along, h]; exact (and_iff_left trivial).symm)

/-- `Q` holds of every state reached. -/
def Throughout (step : State → Event → Option State) (Q : State → Prop) (s : State)
    (es : List Event) : Prop :=
  ∀ pre t, pre <+: es → run step s pre = some t → Q t

theorem along_cons (h : step s e = some t) :
    Along step P s (e :: es) ↔ P s e ∧ Along step P t es := by
  rw [Along, h]

theorem along_iff (hrun : run step s es = some s') :
    Along step P s es ↔
      ∀ pre e post t, es = pre ++ e :: post → run step s pre = some t → P t e := by
  induction es generalizing s with
  | nil => simp [Along]
  | cons a as ih =>
    obtain ⟨u, hu, hrest⟩ := run_cons.mp hrun
    rw [along_cons hu, ih hrest]
    constructor
    · rintro ⟨hnow, hlater⟩ pre e post t hsplit hpre
      cases pre with
      | nil =>
        obtain ⟨rfl, rfl⟩ : a = e ∧ as = post := by simpa using hsplit
        obtain rfl : s = t := by simpa using hpre
        exact hnow
      | cons a' pre =>
        obtain ⟨rfl, rfl⟩ : a = a' ∧ as = pre ++ e :: post := by simpa using hsplit
        obtain ⟨u', hu', hpre⟩ := run_cons.mp hpre
        obtain rfl : u = u' := Option.some.inj (hu.symm.trans hu')
        exact hlater pre e post t rfl hpre
    · intro h
      refine ⟨h [] a as s rfl rfl, ?_⟩
      intro pre e post t hsplit hpre
      rw [hsplit] at h
      exact h (a :: pre) e post t rfl (run_cons.mpr ⟨u, hu, hpre⟩)

theorem throughout_self (h : Throughout step Q s es) : Q s :=
  h [] s (List.nil_prefix) rfl

theorem throughout_nil : Throughout step Q s [] ↔ Q s := by
  constructor
  · exact throughout_self
  · intro hs pre t hpre hrun
    obtain rfl := List.prefix_nil.mp hpre
    obtain rfl : s = t := by simpa using hrun
    exact hs

theorem throughout_cons (h : step s e = some t) :
    Throughout step Q s (e :: es) ↔ Q s ∧ Throughout step Q t es := by
  constructor
  · intro hall
    refine ⟨throughout_self hall, ?_⟩
    intro pre u hpre hrun
    exact hall (e :: pre) u (List.cons_prefix_cons.mpr ⟨rfl, hpre⟩) (run_cons.mpr ⟨t, h, hrun⟩)
  · rintro ⟨hs, hall⟩ pre u hpre hrun
    cases pre with
    | nil =>
      obtain rfl : s = u := by simpa using hrun
      exact hs
    | cons e' pre =>
      obtain ⟨rfl, hstart⟩ := List.cons_prefix_cons.mp hpre
      obtain ⟨t', ht', hrest⟩ := run_cons.mp hrun
      obtain rfl : t = t' := Option.some.inj (h.symm.trans ht')
      exact hall pre u hstart hrest

/-- A run does not go past a refused event. -/
theorem throughout_refused (h : step s e = none) : Throughout step Q s (e :: es) ↔ Q s := by
  constructor
  · exact throughout_self
  · intro hs pre t hpre hrun
    cases pre with
    | nil =>
      obtain rfl : s = t := by simpa using hrun
      exact hs
    | cons e' pre =>
      obtain ⟨rfl, _⟩ := List.cons_prefix_cons.mp hpre
      obtain ⟨t', ht', _⟩ := run_cons.mp hrun
      rw [h] at ht'
      cases ht'

instance decidableThroughout [∀ s, Decidable (Q s)] :
    ∀ s es, Decidable (Throughout step Q s es)
  | s, [] => decidable_of_iff (Q s) throughout_nil.symm
  | s, e :: es =>
    match h : step s e with
    | some t =>
      have := decidableThroughout t es
      decidable_of_iff (Q s ∧ Throughout step Q t es) (throughout_cons h).symm
    | none => decidable_of_iff (Q s) (throughout_refused h).symm

/-- What is kept by the steps that meet a condition holds of every state of a run
whose steps all meet it. -/
theorem throughout_of_along (keeps : ∀ t e t', Q t → P t e → step t e = some t' → Q t')
    (hs : Q s) (halong : Along step P s es) : Throughout step Q s es := by
  induction es generalizing s with
  | nil => exact throughout_nil.mpr hs
  | cons e es ih =>
    cases hnext : step s e with
    | some t =>
      obtain ⟨hnow, hlater⟩ := (along_cons hnext).mp halong
      exact (throughout_cons hnext).mpr ⟨hs, ih (keeps s e t hs hnow hnext) hlater⟩
    | none => exact (throughout_refused hnext).mpr hs

/-- When a step keeps `Q` exactly under a condition, `Q` holds of every state of a
run if and only if every step of the run meets the condition. -/
theorem throughout_iff_along (Inv : State → Prop)
    (keeps : ∀ t e t', Inv t → step t e = some t' → Inv t')
    (exact_at : ∀ t e t', Inv t → Q t → step t e = some t' → (Q t' ↔ P t e))
    (hinv : Inv s) (hs : Q s) (hrun : run step s es = some s') :
    Throughout step Q s es ↔ Along step P s es := by
  induction es generalizing s with
  | nil => exact iff_of_true (throughout_nil.mpr hs) trivial
  | cons e es ih =>
    obtain ⟨t, ht, hrest⟩ := run_cons.mp hrun
    have hat := exact_at s e t hinv hs ht
    rw [throughout_cons ht, along_cons ht]
    constructor
    · rintro ⟨_, hlater⟩
      have htQ := throughout_self hlater
      exact ⟨hat.mp htQ, (ih (keeps s e t hinv ht) htQ hrest).mp hlater⟩
    · rintro ⟨hnow, hlater⟩
      have htQ := hat.mpr hnow
      exact ⟨hs, (ih (keeps s e t hinv ht) htQ hrest).mpr hlater⟩

end Along

section Project
variable {State' : Type w} {Event' : Type x} {step' : State' → Event' → Option State'}

/-- A part of the state that steps along or stays makes a run of its own. -/
theorem run_project {part : State → State'} {s s' : State} {es : List Event}
    (follows : ∀ s e s', step s e = some s' →
      part s' = part s ∨ ∃ e', step' (part s) e' = some (part s'))
    (hrun : run step s es = some s') : ∃ es', run step' (part s) es' = some (part s') := by
  induction es generalizing s with
  | nil =>
    obtain rfl := Option.some.inj hrun
    exact ⟨[], rfl⟩
  | cons e es ih =>
    obtain ⟨t, ht, hrest⟩ := run_cons.mp hrun
    obtain ⟨es', hes'⟩ := ih hrest
    rcases follows s e t ht with hsame | ⟨e', he'⟩
    · rw [hsame] at hes'
      exact ⟨es', hes'⟩
    · exact ⟨e' :: es', run_cons.mpr ⟨part t, he', hes'⟩⟩

/-- Its events are those of the whole that it takes part in. -/
theorem run_filterMap {part : State → State'} {f : Event → Option Event'} {s s' : State}
    {es : List Event}
    (follows : ∀ s e s', step s e = some s' →
      run step' (part s) (f e).toList = some (part s'))
    (hrun : run step s es = some s') : run step' (part s) (es.filterMap f) = some (part s') := by
  induction es generalizing s with
  | nil =>
    obtain rfl := Option.some.inj hrun
    rfl
  | cons e es ih =>
    obtain ⟨t, ht, hrest⟩ := run_cons.mp hrun
    have hnow := follows s e t ht
    have hlater := ih hrest
    cases hf : f e with
    | none =>
      rw [hf] at hnow
      rw [List.filterMap_cons_none hf, Option.some.inj hnow]
      exact hlater
    | some e' =>
      rw [hf] at hnow
      obtain ⟨u, hu, hnil⟩ := run_cons.mp hnow
      obtain rfl := Option.some.inj hnil
      rw [List.filterMap_cons_some hf]
      exact run_cons.mpr ⟨part t, hu, hlater⟩

end Project

section Guarded

/-- The machine that takes some of the events only. -/
def guarded (ok : Event → Bool) (step : State → Event → Option State) (s : State) (e : Event) :
    Option State :=
  if ok e then step s e else none

theorem run_guarded {ok : Event → Bool} {s s' : State} {es : List Event} :
    run (guarded ok step) s es = some s' ↔ run step s es = some s' ∧ ∀ e ∈ es, ok e = true := by
  induction es generalizing s with
  | nil => simp
  | cons e es ih =>
    rw [run_cons, run_cons, List.forall_mem_cons]
    constructor
    · rintro ⟨t, ht, hrest⟩
      obtain ⟨hok, ht⟩ := Option.ite_none_right_eq_some.mp ht
      obtain ⟨hrest, hall⟩ := ih.mp hrest
      exact ⟨⟨t, ht, hrest⟩, hok, hall⟩
    · rintro ⟨⟨t, ht, hrest⟩, hok, hall⟩
      exact ⟨t, (if_pos hok).trans ht, ih.mpr ⟨hrest, hall⟩⟩

end Guarded

section Measure
variable {measure : State → Nat} {own : Event → Bool} {Inv : State → Prop} {s s' : State}
  {es : List Event}

/-- Steps that each lower a measure are bounded in number by it. -/
theorem countP_le_measure (keeps : ∀ s e s', Inv s → step s e = some s' → Inv s')
    (lowers : ∀ s e s', Inv s → step s e = some s' →
      measure s' + (if own e then 1 else 0) ≤ measure s)
    (hs : Inv s) (hrun : run step s es = some s') : measure s' + es.countP own ≤ measure s := by
  induction es generalizing s with
  | nil =>
    obtain rfl := Option.some.inj hrun
    exact Nat.le_refl _
  | cons e es ih =>
    obtain ⟨t, ht, hrest⟩ := run_cons.mp hrun
    have hlater := ih (keeps s e t hs ht) hrest
    have hnow := lowers s e t hs ht
    rw [List.countP_cons]
    omega

/-- And if there is always one to take until the end is reached, it can be reached. -/
theorem exists_run_of_measure {Done : State → Prop}
    (keeps : ∀ s e s', Inv s → step s e = some s' → Inv s')
    (lowers : ∀ s e s', Inv s → step s e = some s' →
      measure s' + (if own e then 1 else 0) ≤ measure s)
    (progress : ∀ s, Inv s → Done s ∨ ∃ e s', own e = true ∧ step s e = some s') (hs : Inv s) :
    ∃ es s', run step s es = some s' ∧ (∀ e ∈ es, own e = true) ∧ Done s' := by
  generalize hn : measure s = n
  induction n using Nat.strongRecOn generalizing s with
  | ind n ih =>
    rcases progress s hs with hdone | ⟨e, t, hown, ht⟩
    · exact ⟨[], s, rfl, fun e he => absurd he List.not_mem_nil, hdone⟩
    · have hlow := lowers s e t hs ht
      rw [if_pos hown] at hlow
      obtain ⟨es, s', hrun, hall, hdone⟩ := ih (measure t) (by omega) (keeps s e t hs ht) rfl
      refine ⟨e :: es, s', run_cons.mpr ⟨t, ht, hrun⟩, ?_, hdone⟩
      intro e' he'
      rcases List.mem_cons.mp he' with rfl | he'
      · exact hown
      · exact hall e' he'

end Measure

section Relation
variable {State' : Type w} {step' : State' → Event → Option State'} {P : State → Event → Prop}
  {R : State → State' → Prop}

/-- Two machines that keep a relation at every step take the same runs. -/
theorem run_rel {s : State} {t : State'} {es : List Event}
    (keeps : ∀ s t e, R s t → P s e → Option.Rel R (step s e) (step' t e)) (h : R s t)
    (halong : Along step P s es) : Option.Rel R (run step s es) (run step' t es) := by
  induction es generalizing s t with
  | nil => exact .some h
  | cons e es ih =>
    have hnext : P s e := by
      rw [Along] at halong
      exact halong.1
    have hstep := keeps s t e h hnext
    cases hs : step s e with
    | none =>
      rw [hs] at hstep
      cases ht : step' t e with
      | none =>
        rw [run, run, hs, ht]
        exact .none
      | some t' =>
        rw [ht] at hstep
        cases hstep
    | some s' =>
      rw [hs] at hstep
      cases ht : step' t e with
      | none =>
        rw [ht] at hstep
        cases hstep
      | some t' =>
        rw [ht] at hstep
        cases hstep with
        | some hrel =>
          rw [run, run, hs, ht]
          exact ih hrel ((along_cons hs).mp halong).2

end Relation

section Count
variable {P : State → Event → Bool} {s t : State} {e : Event} {es : List Event}

/-- The number of steps of a run at which `P` holds. -/
def count (step : State → Event → Option State) (P : State → Event → Bool) :
    State → List Event → Nat
  | _, [] => 0
  | s, e :: es =>
    (if P s e then 1 else 0) +
      match step s e with
      | some t => count step P t es
      | none => 0

theorem count_snoc (hrun : run step s es = some t) :
    count step P s (es ++ [e]) = count step P s es + if P t e then 1 else 0 := by
  induction es generalizing s with
  | nil =>
    obtain rfl := Option.some.inj hrun
    simp only [List.nil_append, count, Nat.zero_add]
    cases step s e with
    | none => rfl
    | some _ => rfl
  | cons a as ih =>
    obtain ⟨u, hu, hrest⟩ := run_cons.mp hrun
    simp only [List.cons_append, count, hu, ih hrest, Nat.add_assoc]

end Count

section Collect
variable {Output : Type w} {f : State → Event → List Output} {s t : State} {e : Event}
  {es : List Event}

/-- What the steps of a run give, in their order. -/
def collect (step : State → Event → Option State) (f : State → Event → List Output) :
    State → List Event → List Output
  | _, [] => []
  | s, e :: es =>
    f s e ++
      match step s e with
      | some t => collect step f t es
      | none => []

theorem collect_cons (h : step s e = some t) :
    collect step f s (e :: es) = f s e ++ collect step f t es := by
  rw [collect, h]

theorem collect_append (hrun : run step s es = some t) (es' : List Event) :
    collect step f s (es ++ es') = collect step f s es ++ collect step f t es' := by
  induction es generalizing s with
  | nil =>
    obtain rfl := Option.some.inj hrun
    rfl
  | cons a as ih =>
    obtain ⟨u, hu, hrest⟩ := run_cons.mp hrun
    simp only [List.cons_append, collect, hu, ih hrest, List.append_assoc]

theorem collect_snoc (hrun : run step s es = some t) :
    collect step f s (es ++ [e]) = collect step f s es ++ f t e := by
  rw [collect_append hrun, collect]
  cases step t e with
  | none => rw [List.append_nil]
  | some _ => simp only [collect, List.append_nil]

/-- A part of the state that is stepped by what the steps give has a run on all of it. -/
theorem run_collect {State' : Type x} {step' : State' → Output → Option State'}
    {part : State → State'}
    (follows : ∀ s e s', step s e = some s' → run step' (part s) (f s e) = some (part s'))
    (hrun : run step s es = some t) : run step' (part s) (collect step f s es) = some (part t) := by
  induction es generalizing s with
  | nil =>
    obtain rfl := Option.some.inj hrun
    rfl
  | cons a as ih =>
    obtain ⟨u, hu, hrest⟩ := run_cons.mp hrun
    simp only [collect, hu]
    exact run_append.mpr ⟨part u, follows s a u hu, ih hrest⟩

/-- Where steps give one output at most, each output of a run has its step. -/
theorem collect_split (hone : ∀ s e, f s e = [] ∨ ∃ x, f s e = [x]) (hrun : run step s es = some t)
    {before after : List Output} {x : Output} (h : collect step f s es = before ++ x :: after) :
    ∃ pre e post u u', es = pre ++ e :: post ∧ run step s pre = some u ∧ step u e = some u' ∧
      collect step f s pre = before ∧ f u e = [x] := by
  induction es generalizing s before with
  | nil => exact absurd h.symm (List.append_ne_nil_of_right_ne_nil before (List.cons_ne_nil _ _))
  | cons a as ih =>
    obtain ⟨u, hu, hrest⟩ := run_cons.mp hrun
    have hlater : ∀ {before'}, collect step f u as = before' ++ x :: after →
        f s a ++ before' = before →
        ∃ pre e post v v', a :: as = pre ++ e :: post ∧ run step s pre = some v ∧
          step v e = some v' ∧ collect step f s pre = before ∧ f v e = [x] := by
      intro before' hsplit hbefore
      obtain ⟨pre, e, post, v, v', rfl, hpre, hstep, hcollect, hx⟩ := ih hrest hsplit
      refine ⟨a :: pre, e, post, v, v', rfl, run_cons.mpr ⟨u, hu, hpre⟩, hstep, ?_, hx⟩
      simp only [collect, hu, hcollect, hbefore]
    simp only [collect, hu] at h
    rcases hone s a with hnone | ⟨y, hy⟩
    · rw [hnone, List.nil_append] at h
      apply hlater h
      rw [hnone, List.nil_append]
    · rw [hy] at h
      cases before with
      | nil =>
        obtain ⟨rfl, _⟩ := List.cons.inj h
        exact ⟨[], a, as, s, u, rfl, rfl, hu, rfl, hy⟩
      | cons z before =>
        obtain ⟨rfl, hsplit⟩ := List.cons.inj h
        apply hlater hsplit
        rw [hy]
        rfl

/-- What a run gives was given by one of its steps. -/
theorem mem_collect {x : Output} (h : x ∈ collect step f s es) :
    ∃ pre e post u, es = pre ++ e :: post ∧ run step s pre = some u ∧ x ∈ f u e := by
  induction es generalizing s with
  | nil => cases h
  | cons a as ih =>
    rw [collect] at h
    rcases List.mem_append.mp h with hnow | hlater
    · exact ⟨[], a, as, s, rfl, rfl, hnow⟩
    · cases hu : step s a with
      | none =>
        rw [hu] at hlater
        cases hlater
      | some u =>
        rw [hu] at hlater
        obtain ⟨pre, e, post, v, rfl, hpre, hx⟩ := ih hlater
        exact ⟨a :: pre, e, post, v, rfl, run_cons.mpr ⟨u, hu, hpre⟩, hx⟩

end Collect

section Reaches
variable {next : State → Option State} {P : State → Prop} {s t : State}

/-- A machine that runs by itself comes to a state with the property. -/
def Reaches (next : State → Option State) (P : State → Prop) (s : State) : Prop :=
  ∃ t, Relation.ReflTransGen (fun a b => next a = some b) s t ∧ P t

theorem reaches_self (h : P s) : Reaches next P s := ⟨s, .refl, h⟩

/-- A step is taken on every way to the property. -/
theorem reaches_iff_next (hnext : next s = some t) (hs : ¬ P s) :
    Reaches next P s ↔ Reaches next P t := by
  constructor
  · rintro ⟨u, hway, hu⟩
    rcases Relation.ReflTransGen.cases_head_iff.mp hway with rfl | ⟨t', ht', hrest⟩
    · exact absurd hu hs
    · obtain rfl : t = t' := Option.some.inj (hnext.symm.trans ht')
      exact ⟨u, hrest, hu⟩
  · rintro ⟨u, hway, hu⟩
    exact ⟨u, hway.head hnext, hu⟩

theorem not_reaches_of_halted (hnext : next s = none) (hs : ¬ P s) : ¬ Reaches next P s := by
  rintro ⟨u, hway, hu⟩
  rcases Relation.ReflTransGen.cases_head_iff.mp hway with rfl | ⟨t, ht, _⟩
  · exact hs hu
  · rw [hnext] at ht
    cases ht

end Reaches

end Liaozhai.Machine
