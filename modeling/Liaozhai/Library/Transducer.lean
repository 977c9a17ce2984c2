import Mathlib.Data.List.Basic

/-!
# Machines that read one symbol at a time

A transducer reads a list symbol by symbol and puts out a list at each symbol.
The only fact that matters to the users is that a run over `as ++ bs` is the run
over `as` followed by the run over `bs` from the state reached: cutting the
input into pieces changes nothing.
-/

namespace Liaozhai.Transducer

set_option autoImplicit false

universe u v w

variable {State : Type u} {Symbol : Type v} {Out : Type w}

/-- All the symbols in order, with the outputs concatenated. -/
def run (step : State → Symbol → State × List Out) : State → List Symbol → State × List Out
  | s, [] => (s, [])
  | s, b :: bs =>
    let now := step s b
    let later := run step now.1 bs
    (later.1, now.2 ++ later.2)

variable (step : State → Symbol → State × List Out)

@[simp] theorem run_nil (s : State) : run step s [] = (s, []) := rfl

theorem run_cons (s : State) (b : Symbol) (bs : List Symbol) :
    run step s (b :: bs) =
      ((run step (step s b).1 bs).1, (step s b).2 ++ (run step (step s b).1 bs).2) := rfl

theorem run_append (s : State) (as bs : List Symbol) :
    run step s (as ++ bs) =
      ((run step (run step s as).1 bs).1, (run step s as).2 ++ (run step (run step s as).1 bs).2) := by
  induction as generalizing s with
  | nil => simp
  | cons a as ih => simp only [List.cons_append, run_cons, ih, List.append_assoc]

theorem run_append_fst (s : State) (as bs : List Symbol) :
    (run step s (as ++ bs)).1 = (run step (run step s as).1 bs).1 := by
  rw [run_append]

theorem run_append_snd (s : State) (as bs : List Symbol) :
    (run step s (as ++ bs)).2 = (run step s as).2 ++ (run step (run step s as).1 bs).2 := by
  rw [run_append]

/-- Spelling out each output gives the run spelled out. -/
theorem run_flatMap {Out' : Type w} (f : Out → List Out') (s : State) (bs : List Symbol) :
    run (fun s b => ((step s b).1, (step s b).2.flatMap f)) s bs =
      ((run step s bs).1, (run step s bs).2.flatMap f) := by
  induction bs generalizing s with
  | nil => rfl
  | cons b bs ih => simp only [run_cons, ih, List.flatMap_append]

/-- The output over a prefix is a prefix of the output. -/
theorem run_prefix (s : State) {as cs : List Symbol} (h : as <+: cs) :
    (run step s as).2 <+: (run step s cs).2 := by
  obtain ⟨bs, rfl⟩ := h
  rw [run_append_snd]
  exact List.prefix_append _ _

/-- What is put out is put out at some symbol. -/
theorem mem_run {x : Out} {s : State} {bs : List Symbol} (h : x ∈ (run step s bs).2) :
    ∃ pre b post, bs = pre ++ b :: post ∧ x ∈ (step (run step s pre).1 b).2 := by
  induction bs generalizing s with
  | nil => exact absurd h List.not_mem_nil
  | cons b bs ih =>
    rw [run_cons] at h
    rcases List.mem_append.mp h with hnow | hlater
    · exact ⟨[], b, bs, rfl, hnow⟩
    · obtain ⟨pre, b', post, rfl, hx⟩ := ih hlater
      exact ⟨b :: pre, b', post, rfl, hx⟩

/-- `P` holds of every state met and the symbol read there. -/
def Along (P : State → Symbol → Prop) : State → List Symbol → Prop
  | _, [] => True
  | s, b :: bs => P s b ∧ Along P (step s b).1 bs

theorem along_iff {P : State → Symbol → Prop} {s : State} {bs : List Symbol} :
    Along step P s bs ↔ ∀ pre b post, bs = pre ++ b :: post → P (run step s pre).1 b := by
  induction bs generalizing s with
  | nil => simp [Along]
  | cons a as ih =>
    rw [Along, ih]
    constructor
    · rintro ⟨hnow, hlater⟩ pre b post h
      cases pre with
      | nil =>
        obtain ⟨rfl, rfl⟩ : a = b ∧ as = post := by simpa using h
        exact hnow
      | cons a' pre =>
        obtain ⟨rfl, rfl⟩ : a = a' ∧ as = pre ++ b :: post := by simpa using h
        exact hlater pre b post rfl
    · intro h
      refine ⟨h [] a as rfl, fun pre b post hsplit => ?_⟩
      rw [hsplit] at h
      exact h (a :: pre) b post rfl

theorem along_append {P : State → Symbol → Prop} {s : State} {as bs : List Symbol} :
    Along step P s (as ++ bs) ↔ Along step P s as ∧ Along step P (run step s as).1 bs := by
  induction as generalizing s with
  | nil => simp [Along]
  | cons a as ih => simp only [List.cons_append, Along, ih, run_cons, and_assoc]

/-- If every step along the input leads into `Q`, so does every prefix of it. -/
theorem run_prefix_of_along {Q : State → Prop} {s : State} {as bs : List Symbol}
    (h : Along step (fun s b => Q (step s b).1) s bs) (hs : Q s) (hpre : as <+: bs) :
    Q (run step s as).1 := by
  obtain ⟨cs, rfl⟩ := hpre
  have has := ((along_append step).mp h).1
  clear h
  induction as generalizing s with
  | nil => exact hs
  | cons a as ih => exact ih has.1 has.2

/-- A state property that no symbol of the input can leave holds at the end. -/
theorem run_invariant {P : State → Prop} {s : State} {bs : List Symbol}
    (keeps : ∀ s b, b ∈ bs → P s → P (step s b).1) (hs : P s) : P (run step s bs).1 := by
  induction bs generalizing s with
  | nil => exact hs
  | cons b bs ih =>
    rw [run_cons]
    exact ih (fun s b hb => keeps s b (List.mem_cons_of_mem _ hb))
      (keeps s b List.mem_cons_self hs)

end Liaozhai.Transducer
