import Liaozhai.Library.Transducer

/-!
# Inputs that take turns

A machine hears from several sources, and its state tells which of them it listens
to. Then the order in which inputs of different sources arrive carries no
information: what each source sends determines the whole run.
-/

namespace Liaozhai.Turns

set_option autoImplicit false

universe u v w x

variable {State : Type u} {Input : Type v} {Out : Type w} {Source : Type x} [DecidableEq Source]
  {step : State → Input → State × List Out} {turn : State → Option Source}
  {source : Input → Option Source} {s : State} {is js : List Input}

variable (step turn source) in
/-- Every input comes from a source that is listened to. -/
def InTurn (s : State) (is : List Input) : Prop :=
  Transducer.Along step (fun s i => source i = turn s ∧ (source i).isSome) s is

/-- The inputs of one source. -/
def sentBy (source : Input → Option Source) (p : Source) (is : List Input) : List Input :=
  is.filter fun i => source i = some p

theorem sentBy_cons_of_eq {p : Source} {i : Input} (h : source i = some p) (is : List Input) :
    sentBy source p (i :: is) = i :: sentBy source p is :=
  List.filter_cons_of_pos (decide_eq_true h)

theorem sentBy_cons_of_ne {p : Source} {i : Input} (h : source i ≠ some p) (is : List Input) :
    sentBy source p (i :: is) = sentBy source p is := by
  apply List.filter_cons_of_neg
  rw [decide_eq_true_eq]
  exact h

/-- Two sequences in turn that agree source by source are the same. -/
theorem eq_of_sentBy (his : InTurn step turn source s is) (hjs : InTurn step turn source s js)
    (hsame : ∀ p, sentBy source p is = sentBy source p js) : is = js := by
  induction is generalizing s js with
  | nil =>
    cases js with
    | nil => rfl
    | cons j js =>
      obtain ⟨⟨_, hsome⟩, _⟩ := hjs
      obtain ⟨p, hp⟩ := Option.isSome_iff_exists.mp hsome
      have hnow := hsame p
      rw [sentBy_cons_of_eq hp] at hnow
      cases hnow
  | cons i is ih =>
    obtain ⟨⟨hturn, hsome⟩, hlater⟩ := his
    obtain ⟨p, hp⟩ := Option.isSome_iff_exists.mp hsome
    cases js with
    | nil =>
      have hnow := hsame p
      rw [sentBy_cons_of_eq hp] at hnow
      cases hnow
    | cons j js =>
      obtain ⟨⟨hturn', _⟩, hlater'⟩ := hjs
      have hp' : source j = some p := by
        rw [hturn', ← hturn, hp]
      have hnow := hsame p
      rw [sentBy_cons_of_eq hp, sentBy_cons_of_eq hp'] at hnow
      obtain rfl := (List.cons.inj hnow).1
      refine congrArg (i :: ·) (ih hlater hlater' ?_)
      intro q
      by_cases hq : source i = some q
      · have hthen := hsame q
        rw [sentBy_cons_of_eq hq, sentBy_cons_of_eq hq] at hthen
        exact (List.cons.inj hthen).2
      · have hthen := hsame q
        rw [sentBy_cons_of_ne hq, sentBy_cons_of_ne hq] at hthen
        exact hthen

end Liaozhai.Turns
