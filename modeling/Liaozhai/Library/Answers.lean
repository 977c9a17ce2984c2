import Liaozhai.Library.Machine

/-!
# Two runs with the same answers

The steps of a machine are calls, which its environment answers. Which call comes
next is the machine's own choice; what a run is given is, for each call, the answers
to it in their order. Two runs that are given the same go through the same calls, as
long as the states tell the calls apart by a relation that the steps keep.
-/

namespace Liaozhai.Answers

open Machine
set_option autoImplicit false

universe u v w

variable {State : Type u} {Event : Type v} {Call : Type w}

section Agree
variable {α : Type u} {β : Type v} {R : α → β → Prop} {x : α} {y : β} {xs : List α} {ys : List β}

/-- Two lists agree as far as both of them go. -/
def Agree (R : α → β → Prop) : List α → List β → Prop
  | x :: xs, y :: ys => R x y ∧ Agree R xs ys
  | _, _ => True

instance decidableAgree [∀ x y, Decidable (R x y)] : ∀ xs ys, Decidable (Agree R xs ys)
  | x :: xs, y :: ys =>
    have := decidableAgree xs ys
    inferInstanceAs (Decidable (R x y ∧ Agree R xs ys))
  | [], _ | _ :: _, [] => isTrue trivial

theorem agree_cons : Agree R (x :: xs) (y :: ys) ↔ R x y ∧ Agree R xs ys := Iff.rfl

end Agree

variable [DecidableEq Call] {step : State → Event → Option State} {call : Event → Call}
  {same : State → Event → Event → Prop} {s s' t t' : State} {e e' : Event} {es es' : List Event}

/-- The answers to one call in a run, each with the state in which it comes. -/
def answers (step : State → Event → Option State) (call : Event → Call) (k : Call) :
    State → List Event → List (State × Event) :=
  collect step fun s e => if call e = k then [(s, e)] else []

/-- Each call is given the same answers in both runs. -/
def SameAnswers (step : State → Event → Option State) (call : Event → Call)
    (same : State → Event → Event → Prop) (s : State) (es : List Event) (t : State)
    (es' : List Event) : Prop :=
  ∀ k, Agree (fun x y => same x.1 x.2 y.2) (answers step call k s es) (answers step call k t es')

theorem answers_cons {k : Call} (h : step s e = some s') :
    answers step call k s (e :: es) =
      (if call e = k then [(s, e)] else []) ++ answers step call k s' es :=
  collect_cons h

/-- The first answers are the same, and so are the later ones. -/
theorem SameAnswers.of_cons (hsame : SameAnswers step call same s (e :: es) t (e' :: es'))
    (hcall : call e = call e') (hs : step s e = some s') (ht : step t e' = some t') :
    same s e e' ∧ SameAnswers step call same s' es t' es' := by
  constructor
  · have hfirst := hsame (call e)
    rw [answers_cons hs, answers_cons ht, if_pos rfl, if_pos hcall.symm] at hfirst
    exact (agree_cons.mp hfirst).1
  · intro k
    have hall := hsame k
    rw [answers_cons hs, answers_cons ht, ← hcall] at hall
    by_cases hk : call e = k
    · rw [if_pos hk, if_pos hk] at hall
      exact (agree_cons.mp hall).2
    · rw [if_neg hk, if_neg hk] at hall
      exact hall

/-- Two runs, step by step, with `P` between the steps. -/
inductive Lockstep (step : State → Event → Option State)
    (P : State → Event → State → Event → Prop) :
    State → List Event → State → List Event → Prop where
  | nil (s t : State) : Lockstep step P s [] t []
  | cons {s s' t t' : State} {e e' : Event} {es es' : List Event} : P s e t e' →
      step s e = some s' → step t e' = some t' → Lockstep step P s' es t' es' →
      Lockstep step P s (e :: es) t (e' :: es')

variable {P : State → Event → State → Event → Prop} {R : State → State → Prop}
  {callAt : State → Option Call}

/-- What the steps give alike, the runs give alike. -/
theorem Lockstep.collect_eq {Output : Type w} {f : State → Event → List Output}
    (alike : ∀ s e t e', P s e t e' → f s e = f t e') (h : Lockstep step P s es t es') :
    collect step f s es = collect step f t es' := by
  induction h with
  | nil _ _ => rfl
  | cons hP hs ht _ ih => rw [collect_cons hs, collect_cons ht, alike _ _ _ _ hP, ih]

/-- Of two runs with the same answers, one goes through all the steps of the other. -/
theorem lockstep_of_sameAnswers
    (calls : ∀ s e s', step s e = some s' → callAt s = some (call e))
    (next : ∀ s t, R s t → callAt s = callAt t)
    (keeps : ∀ s t e e' s' t', R s t → same s e e' → step s e = some s' →
      step t e' = some t' → R s' t' ∧ P s e t e')
    (h : R s t) (hsame : SameAnswers step call same s es t es')
    (hs : run step s es = some s') (ht : run step t es' = some t') :
    (∃ mid post u, es' = mid ++ post ∧ run step t mid = some u ∧ run step u post = some t' ∧
        R s' u ∧ Lockstep step P s es t mid) ∨
      ∃ mid post u, es = mid ++ post ∧ run step s mid = some u ∧ run step u post = some s' ∧
        R u t' ∧ Lockstep step P s mid t es' := by
  induction es generalizing s t es' with
  | nil =>
    obtain rfl := Option.some.inj hs
    exact .inl ⟨[], es', t, rfl, rfl, ht, h, .nil s t⟩
  | cons e es ih =>
    cases es' with
    | nil =>
      obtain rfl := Option.some.inj ht
      exact .inr ⟨[], e :: es, s, rfl, rfl, hs, h, .nil s t⟩
    | cons e' es' =>
      obtain ⟨s₁, hs₁, hs⟩ := run_cons.mp hs
      obtain ⟨t₁, ht₁, ht⟩ := run_cons.mp ht
      -- the states tell which call comes next
      have hcall : call e = call e' := by
        have hnext := next s t h
        rw [calls s e s₁ hs₁, calls t e' t₁ ht₁] at hnext
        exact Option.some.inj hnext
      obtain ⟨hnow, hlater⟩ := hsame.of_cons hcall hs₁ ht₁
      obtain ⟨hrel, hP⟩ := keeps s t e e' s₁ t₁ h hnow hs₁ ht₁
      rcases ih hrel hlater hs ht with ⟨mid, post, u, rfl, hmid, hpost, hu, hlock⟩ |
        ⟨mid, post, u, rfl, hmid, hpost, hu, hlock⟩
      · exact .inl ⟨e' :: mid, post, u, rfl, run_cons.mpr ⟨t₁, ht₁, hmid⟩, hpost, hu,
          .cons hP hs₁ ht₁ hlock⟩
      · exact .inr ⟨e :: mid, post, u, rfl, run_cons.mpr ⟨s₁, hs₁, hmid⟩, hpost, hu,
          .cons hP hs₁ ht₁ hlock⟩

end Liaozhai.Answers
