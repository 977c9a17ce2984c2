import Liaozhai.Library.Machine
import Liaozhai.Library.Transducer

/-!
# Output that lags behind

A machine takes an input in one step and puts out the answer to it in later ones, so
at any time some output is owed. If every step keeps the books (what it puts out and
what is owed after it are what was owed before it and the answer to its input), then
so does every run.
-/

namespace Liaozhai.Lagging

set_option autoImplicit false

universe u v w x y

variable {State : Type u} {Event : Type v} {Abs : Type w} {In : Type x} {Out : Type y}

/-- A step without input has no answer. -/
def answer (respond : Abs → In → Abs × List Out) (a : Abs) : Option In → Abs × List Out
  | some i => respond a i
  | none => (a, [])

variable {step : State → Event → Option State} {view : State → Abs} {input : Event → Option In}
  {emit : Event → List Out} {owed : State → List Out} {respond : Abs → In → Abs × List Out}
  {Inv : State → Prop} {s s' : State} {es : List Event}

theorem run_filterMap_cons (a : Abs) (e : Event) (es : List Event) :
    Transducer.run respond a ((e :: es).filterMap input) =
      ((Transducer.run respond (answer respond a (input e)).1 (es.filterMap input)).1,
        (answer respond a (input e)).2 ++
          (Transducer.run respond (answer respond a (input e)).1 (es.filterMap input)).2) := by
  cases h : input e with
  | none =>
    rw [List.filterMap_cons_none h]
    rfl
  | some i =>
    rw [List.filterMap_cons_some h]
    rfl

/-- A run has put out the answers to its inputs, but for what it still owes. -/
theorem run_account (keeps : ∀ s e s', Inv s → step s e = some s' → Inv s')
    (account : ∀ s e s', Inv s → step s e = some s' →
      view s' = (answer respond (view s) (input e)).1 ∧
        emit e ++ owed s' = owed s ++ (answer respond (view s) (input e)).2)
    (hs : Inv s) (hrun : Machine.run step s es = some s') :
    view s' = (Transducer.run respond (view s) (es.filterMap input)).1 ∧
      es.flatMap emit ++ owed s' =
        owed s ++ (Transducer.run respond (view s) (es.filterMap input)).2 := by
  induction es generalizing s with
  | nil =>
    obtain rfl := Option.some.inj hrun
    exact ⟨rfl, (List.append_nil _).symm⟩
  | cons e es ih =>
    obtain ⟨t, ht, hrest⟩ := Machine.run_cons.mp hrun
    obtain ⟨hview, howed⟩ := account s e t hs ht
    obtain ⟨hviews, howeds⟩ := ih (keeps s e t hs ht) hrest
    rw [run_filterMap_cons, ← hview]
    refine ⟨hviews, ?_⟩
    rw [List.flatMap_cons, List.append_assoc, howeds, ← List.append_assoc, howed, List.append_assoc]

end Liaozhai.Lagging
