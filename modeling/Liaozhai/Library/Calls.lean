import Mathlib.Data.List.Infix
import Mathlib.Logic.Function.Basic

/-!
# Calls on a shared object

An object that takes one operation at a time, and callers that leave it to a pool
to perform theirs. A call is queued, takes effect at some later moment, and its
reply is fetched after that. Each reply is then the one that the object gives at a
moment between the call and the fetch.
-/

namespace Liaozhai.Calls

set_option autoImplicit false

universe u v w x y

inductive Task (Request : Type v) (Reply : Type w) where
  | queued (request : Request)
  | done (request : Request) (reply : Reply)

def Task.request {Request : Type v} {Reply : Type w} : Task Request Reply → Request
  | .queued request => request
  | .done request _ => request

/-- The object, and the task of each caller that has one. -/
structure Pool (Obj : Type u) (Request : Type v) (Reply : Type w) where
  object : Obj
  tasks : Nat → Option (Task Request Reply)

variable {Obj : Type u} {Request : Type v} {Reply : Type w} {Op : Type x} {Stamp : Type y}

/-- The object after some operations. -/
def after (apply : Obj → Op → Obj × Reply) (first : Obj) (history : List Op) : Obj :=
  history.foldl (fun object op => (apply object op).1) first

namespace Pool
variable (apply : Obj → Op → Obj × Reply) (op : Request → Stamp → Op)

def set (pool : Pool Obj Request Reply) (caller : Nat) (task : Option (Task Request Reply)) :
    Pool Obj Request Reply :=
  { pool with tasks := Function.update pool.tasks caller task }

def invoke (pool : Pool Obj Request Reply) (caller : Nat) (request : Request) :
    Option (Pool Obj Request Reply) :=
  match pool.tasks caller with
  | none => some (pool.set caller (some (.queued request)))
  | some _ => none

/-- A queued task takes effect. What an operation needs of that moment is its stamp. -/
def perform (pool : Pool Obj Request Reply) (caller : Nat) (stamp : Stamp) :
    Option (Pool Obj Request Reply) :=
  match pool.tasks caller with
  | some (.queued request) =>
    let answer := apply pool.object (op request stamp)
    some ({ pool with object := answer.1 }.set caller (some (.done request answer.2)))
  | _ => none

def reply? (pool : Pool Obj Request Reply) (caller : Nat) : Option Reply :=
  match pool.tasks caller with
  | some (.done _ reply) => some reply
  | _ => none

def forget (pool : Pool Obj Request Reply) (caller : Nat) : Pool Obj Request Reply :=
  pool.set caller none

/-- Somebody else performs an operation. -/
def perturb (pool : Pool Obj Request Reply) (now : Op) : Pool Obj Request Reply :=
  { pool with object := (apply pool.object now).1 }

variable {apply op} {pool pool' : Pool Obj Request Reply} {caller other : Nat} {request : Request}
  {reply : Reply} {stamp : Stamp} {task : Option (Task Request Reply)}

@[simp] theorem set_object : (pool.set caller task).object = pool.object := rfl

@[simp] theorem set_tasks_self : (pool.set caller task).tasks caller = task := by
  simp only [set, Function.update_self]

theorem set_tasks_ne (h : other ≠ caller) :
    (pool.set caller task).tasks other = pool.tasks other := by
  simp only [set, Function.update_of_ne h]

/-- What is forgotten has no task left, and the others keep theirs. -/
theorem tasks_of_forget {task : Task Request Reply}
    (h : (pool.forget caller).tasks other = some task) : pool.tasks other = some task := by
  by_cases hother : other = caller
  · rw [hother, forget, set_tasks_self] at h
    cases h
  · rw [forget, set_tasks_ne hother] at h
    exact h

theorem invoke_eq (h : pool.invoke caller request = some pool') :
    pool.tasks caller = none ∧ pool' = pool.set caller (some (.queued request)) := by
  rw [invoke] at h
  split at h
  · rename_i hnone
    exact ⟨hnone, (Option.some.inj h).symm⟩
  · cases h

theorem perform_eq (h : pool.perform apply op caller stamp = some pool') :
    ∃ request, pool.tasks caller = some (.queued request) ∧
      pool' = (pool.perturb apply (op request stamp)).set caller
        (some (.done request (apply pool.object (op request stamp)).2)) := by
  rw [perform] at h
  split at h
  · rename_i request hqueued
    exact ⟨request, hqueued, (Option.some.inj h).symm⟩
  · cases h

theorem perform_queued (h : pool.tasks caller = some (.queued request)) (stamp : Stamp) :
    pool.perform apply op caller stamp =
      some ((pool.perturb apply (op request stamp)).set caller
        (some (.done request (apply pool.object (op request stamp)).2))) := by
  rw [perform, h]
  rfl

theorem perform_eq_none (h : ∀ request, pool.tasks caller ≠ some (.queued request)) (stamp : Stamp) :
    pool.perform apply op caller stamp = none := by
  rw [perform]
  split
  · rename_i request hqueued
    exact absurd hqueued (h request)
  · rfl

/-- The same tasks on another object. -/
def onto (pool : Pool Obj Request Reply) (object : Obj) : Pool Obj Request Reply :=
  { pool with object }

@[simp] theorem onto_tasks (object : Obj) : (pool.onto object).tasks = pool.tasks := rfl

@[simp] theorem forget_onto (object : Obj) (caller : Nat) :
    (pool.onto object).forget caller = (pool.forget caller).onto object := rfl

@[simp] theorem reply?_onto (object : Obj) (caller : Nat) :
    (pool.onto object).reply? caller = pool.reply? caller := rfl

theorem invoke_onto (object : Obj) (caller : Nat) (request : Request) :
    (pool.onto object).invoke caller request =
      (pool.invoke caller request).map fun pool => pool.onto object := by
  rw [invoke, invoke, onto_tasks]
  split
  · rfl
  · rfl

theorem reply?_eq (h : pool.reply? caller = some reply) :
    ∃ request, pool.tasks caller = some (.done request reply) := by
  rw [reply?] at h
  split at h
  · rename_i request reply' hdone
    obtain rfl := Option.some.inj h
    exact ⟨request, hdone⟩
  · cases h

end Pool

section Linear
variable {apply : Obj → Op → Obj × Reply} {op : Request → Stamp → Op}

theorem after_append_singleton (first : Obj) (history : List Op) (now : Op) :
    after apply first (history ++ [now]) = (apply (after apply first history) now).1 :=
  List.foldl_concat _ first now history

/-- The object took the operations of the history one after another. `marks` has for
a caller the operations before its call; its own came later. -/
structure Linear (apply : Obj → Op → Obj × Reply) (op : Request → Stamp → Op) (first : Obj)
    (marks : Nat → List Op) (history : List Op) (pool : Pool Obj Request Reply) : Prop where
  object : pool.object = after apply first history
  marked : ∀ caller, pool.tasks caller ≠ none → marks caller <+: history
  replies : ∀ caller request reply, pool.tasks caller = some (.done request reply) →
    ∃ pre stamp, marks caller <+: pre ∧ pre ++ [op request stamp] <+: history ∧
      reply = (apply (after apply first pre) (op request stamp)).2

namespace Linear
variable {first : Obj} {marks : Nat → List Op} {history : List Op}
  {pool pool' : Pool Obj Request Reply} {caller : Nat} {request : Request} {stamp : Stamp}

theorem start (history : List Op) :
    Linear apply op first marks history ⟨after apply first history, fun _ => none⟩ :=
  ⟨rfl, fun _ h => absurd rfl h, nofun⟩

theorem invoke (h : Linear apply op first marks history pool)
    (hinvoke : pool.invoke caller request = some pool') :
    Linear apply op first (Function.update marks caller history) history pool' := by
  obtain ⟨_, rfl⟩ := Pool.invoke_eq hinvoke
  refine ⟨h.object, ?_, ?_⟩
  · intro other htask
    by_cases hother : other = caller
    · rw [hother, Function.update_self]
    · rw [Pool.set_tasks_ne hother] at htask
      rw [Function.update_of_ne hother]
      exact h.marked other htask
  · intro other request' reply hdone
    by_cases hother : other = caller
    · rw [hother, Pool.set_tasks_self] at hdone
      cases hdone
    · rw [Pool.set_tasks_ne hother] at hdone
      rw [Function.update_of_ne hother]
      exact h.replies other request' reply hdone

theorem perturb (h : Linear apply op first marks history pool) (now : Op) :
    Linear apply op first marks (history ++ [now]) (pool.perturb apply now) := by
  have hlater : history <+: history ++ [now] := List.prefix_append history [now]
  refine ⟨?_, ?_, ?_⟩
  · rw [after_append_singleton, ← h.object]
    rfl
  · intro other htask
    exact (h.marked other htask).trans hlater
  · intro other request' reply hdone
    obtain ⟨pre, stamp, hmark, hpre, hreply⟩ := h.replies other request' reply hdone
    exact ⟨pre, stamp, hmark, hpre.trans hlater, hreply⟩

theorem perform (h : Linear apply op first marks history pool)
    (hperform : pool.perform apply op caller stamp = some pool') :
    ∃ request, pool.tasks caller = some (.queued request) ∧
      Linear apply op first marks (history ++ [op request stamp]) pool' := by
  obtain ⟨request, hqueued, rfl⟩ := Pool.perform_eq hperform
  have hafter := h.perturb (op request stamp)
  have htask : (pool.perturb apply (op request stamp)).tasks caller = some (.queued request) :=
    hqueued
  refine ⟨request, hqueued, hafter.object, ?_, ?_⟩
  · intro other hother
    by_cases heq : other = caller
    · rw [heq]
      apply hafter.marked caller
      rw [htask]
      exact Option.some_ne_none _
    · rw [Pool.set_tasks_ne heq] at hother
      exact hafter.marked other hother
  · intro other request' reply hdone
    by_cases heq : other = caller
    · rw [heq, Pool.set_tasks_self] at hdone
      cases hdone
      refine ⟨history, stamp, ?_, List.prefix_refl _, ?_⟩
      · rw [heq]
        apply h.marked caller
        rw [hqueued]
        exact Option.some_ne_none _
      · rw [h.object]
    · rw [Pool.set_tasks_ne heq] at hdone
      exact hafter.replies other request' reply hdone

theorem forget (h : Linear apply op first marks history pool) (caller : Nat) :
    Linear apply op first marks history (pool.forget caller) := by
  refine ⟨h.object, ?_, ?_⟩
  · intro other htask
    obtain ⟨task, htask⟩ := Option.ne_none_iff_exists'.mp htask
    apply h.marked other
    rw [Pool.tasks_of_forget htask]
    exact Option.some_ne_none task
  · intro other request reply hdone
    exact h.replies other request reply (Pool.tasks_of_forget hdone)

end Linear

end Linear

end Liaozhai.Calls
