import Mathlib.Logic.Relation

/-!
# Loops that break and panic

A loop is a guard and a body. The body of an iteration goes on, breaks, or panics.
An invariant is what every iteration that goes on keeps; it holds at the head of the
loop whenever it is reached, and the state a loop ends in is judged from it.
-/

namespace Liaozhai.Loop

set_option autoImplicit false

universe u

/-- `while guard { body }`. The body goes on with a state on the left, breaks with one on
the right, and panics with none. -/
structure While (State : Type u) where
  guard : State → Prop
  body : State → Option (State ⊕ State)

namespace While

variable {State : Type u} {L : While State} {P Q : State → Prop} {s s' t r : State}

/-- The states at the head of the loop. -/
def Visits (L : While State) : State → State → Prop :=
  Relation.ReflTransGen fun s s' => L.guard s ∧ L.body s = some (.inl s')

/-- The states the loop ends in, where the guard fails or the body breaks. -/
def Ends (L : While State) (s r : State) : Prop :=
  ∃ t, L.Visits s t ∧ (¬ L.guard t ∧ r = t ∨ L.guard t ∧ L.body t = some (.inr r))

/-- What every iteration keeps holds at the head of the loop. -/
theorem visits_invariant
    (keeps : ∀ t t', P t → L.guard t → L.body t = some (.inl t') → P t')
    (hs : P s) (h : L.Visits s t) : P t := by
  induction h with
  | refl => exact hs
  | tail _ hstep ih => exact keeps _ _ ih hstep.1 hstep.2

/-- What the invariant gives where the guard fails and where the body breaks holds in
the end. -/
theorem ends_post
    (keeps : ∀ t t', P t → L.guard t → L.body t = some (.inl t') → P t')
    (exits : ∀ t, P t → ¬ L.guard t → Q t)
    (breaks : ∀ t r, P t → L.guard t → L.body t = some (.inr r) → Q r)
    (hs : P s) (h : L.Ends s r) : Q r := by
  obtain ⟨t, hvisits, hend⟩ := h
  have ht := visits_invariant keeps hs hvisits
  rcases hend with ⟨hguard, rfl⟩ | ⟨hguard, hbody⟩
  · exact exits r ht hguard
  · exact breaks t r ht hguard hbody

theorem ends_exit (hguard : ¬ L.guard s) : L.Ends s r ↔ r = s := by
  constructor
  · intro h
    obtain ⟨t, hvisits, hend⟩ := h
    rcases Relation.ReflTransGen.cases_head_iff.mp hvisits with rfl | ⟨s', hstep, _⟩
    · rcases hend with ⟨_, hr⟩ | ⟨ht, _⟩
      · exact hr
      · exact absurd ht hguard
    · exact absurd hstep.1 hguard
  · intro hr
    exact ⟨s, .refl, .inl ⟨hguard, hr⟩⟩

theorem ends_break (hguard : L.guard s) (hbody : L.body s = some (.inr s')) :
    L.Ends s r ↔ r = s' := by
  constructor
  · intro h
    obtain ⟨t, hvisits, hend⟩ := h
    rcases Relation.ReflTransGen.cases_head_iff.mp hvisits with rfl | ⟨t', hstep, _⟩
    · rcases hend with ⟨ht, _⟩ | ⟨_, hbreak⟩
      · exact absurd hguard ht
      · exact (Sum.inr.inj (Option.some.inj (hbody.symm.trans hbreak))).symm
    · cases hbody.symm.trans hstep.2
  · intro hr
    rw [hr]
    exact ⟨s, .refl, .inr ⟨hguard, hbody⟩⟩

theorem ends_next (hguard : L.guard s) (hbody : L.body s = some (.inl s')) :
    L.Ends s r ↔ L.Ends s' r := by
  constructor
  · intro h
    obtain ⟨t, hvisits, hend⟩ := h
    rcases Relation.ReflTransGen.cases_head_iff.mp hvisits with rfl | ⟨t', hstep, hrest⟩
    · rcases hend with ⟨ht, _⟩ | ⟨_, hbreak⟩
      · exact absurd hguard ht
      · cases hbody.symm.trans hbreak
    · have hsame := Sum.inl.inj (Option.some.inj (hbody.symm.trans hstep.2))
      rw [hsame]
      exact ⟨t, hrest, hend⟩
  · intro h
    obtain ⟨t, hvisits, hend⟩ := h
    exact ⟨t, hvisits.head ⟨hguard, hbody⟩, hend⟩

end While

end Liaozhai.Loop
