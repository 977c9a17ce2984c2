import Liaozhai.Library.Machine
import Mathlib.Data.List.Nodup

/-!
# The accept loop

`run_accept_loop` with its three books: the permits of the semaphore, the tasks in
the `JoinSet` and the count of the drain. A task gives its permit back when it
completes and stays in the `JoinSet` until `join_next` takes it out.
-/

namespace Liaozhai.Server

set_option autoImplicit false

inductive Phase where
  | accepting
  | draining (drained : Nat)
  | finished (drained : Nat)
  | abandoned (remaining : Nat)
  deriving DecidableEq, Repr

inductive Outcome where
  | normal
  | error
  | panic
  deriving DecidableEq, Repr

structure AcceptLoop where
  phase : Phase
  permits : Nat
  running : List Nat
  joinSet : List Nat
  deriving DecidableEq, Repr

inductive LoopEvent where
  | acceptFailed
  | accepted (id : Nat)
  | refused
  | completed (id : Nat) (outcome : Outcome)
  | shutdown
  | joined (id : Nat)
  | drainFinished
  | drainTimedOut
  deriving DecidableEq, Repr

namespace AcceptLoop

def start (maxConnections : Nat) : AcceptLoop := ⟨.accepting, maxConnections, [], []⟩

def step (s : AcceptLoop) : LoopEvent → Option AcceptLoop
  | .acceptFailed => if s.phase = .accepting then some s else none
  | .accepted id =>
    if s.phase = .accepting ∧ 0 < s.permits ∧ id ∉ s.joinSet then
      some { s with
        permits := s.permits - 1
        running := s.running ++ [id]
        joinSet := s.joinSet ++ [id] }
    else none
  | .refused => if s.phase = .accepting ∧ s.permits = 0 then some s else none
  | .completed id _ =>
    if id ∈ s.running then
      some { s with permits := s.permits + 1, running := s.running.erase id }
    else none
  | .shutdown => if s.phase = .accepting then some { s with phase := .draining 0 } else none
  | .joined id =>
    match s.phase with
    | .draining drained =>
      if id ∈ s.joinSet ∧ id ∉ s.running then
        some { s with phase := .draining (drained + 1), joinSet := s.joinSet.erase id }
      else none
    | _ => none
  | .drainFinished =>
    match s.phase with
    | .draining drained => if s.joinSet = [] then some { s with phase := .finished drained } else none
    | _ => none
  | .drainTimedOut =>
    match s.phase with
    | .draining _ =>
      -- `JoinSet::shutdown` aborts what is left and waits for it
      some ⟨.abandoned s.joinSet.length, s.permits + s.running.length, [], []⟩
    | _ => none

def run : AcceptLoop → List LoopEvent → Option AcceptLoop := Machine.run step

variable {maxConnections : Nat} {s s' s'' : AcceptLoop} {e : LoopEvent} {es : List LoopEvent}

/-- All the steps there are. -/
inductive Takes (s : AcceptLoop) : LoopEvent → AcceptLoop → Prop where
  | acceptFailed : s.phase = .accepting → Takes s .acceptFailed s
  | accepted {id : Nat} : s.phase = .accepting → 0 < s.permits → id ∉ s.joinSet →
      Takes s (.accepted id)
        ⟨s.phase, s.permits - 1, s.running ++ [id], s.joinSet ++ [id]⟩
  | refused : s.phase = .accepting → s.permits = 0 → Takes s .refused s
  | completed {id : Nat} (outcome : Outcome) : id ∈ s.running →
      Takes s (.completed id outcome) ⟨s.phase, s.permits + 1, s.running.erase id, s.joinSet⟩
  | shutdown : s.phase = .accepting →
      Takes s .shutdown ⟨.draining 0, s.permits, s.running, s.joinSet⟩
  | joined {id drained : Nat} : s.phase = .draining drained → id ∈ s.joinSet → id ∉ s.running →
      Takes s (.joined id) ⟨.draining (drained + 1), s.permits, s.running, s.joinSet.erase id⟩
  | drainFinished {drained : Nat} : s.phase = .draining drained → s.joinSet = [] →
      Takes s .drainFinished ⟨.finished drained, s.permits, s.running, s.joinSet⟩
  | drainTimedOut {drained : Nat} : s.phase = .draining drained →
      Takes s .drainTimedOut
        ⟨.abandoned s.joinSet.length, s.permits + s.running.length, [], []⟩

theorem step_cases (h : step s e = some s') : Takes s e s' := by
  cases e with
  | acceptFailed =>
    obtain ⟨hphase, ⟨⟩⟩ := Option.ite_none_right_eq_some.mp h
    exact .acceptFailed hphase
  | accepted id =>
    obtain ⟨⟨hphase, hpermit, hfresh⟩, ⟨⟩⟩ := Option.ite_none_right_eq_some.mp h
    exact .accepted hphase hpermit hfresh
  | refused =>
    obtain ⟨⟨hphase, hfull⟩, ⟨⟩⟩ := Option.ite_none_right_eq_some.mp h
    exact .refused hphase hfull
  | completed id outcome =>
    obtain ⟨hmem, ⟨⟩⟩ := Option.ite_none_right_eq_some.mp h
    exact .completed outcome hmem
  | shutdown =>
    obtain ⟨hphase, ⟨⟩⟩ := Option.ite_none_right_eq_some.mp h
    exact .shutdown hphase
  | joined id =>
    simp only [step] at h
    split at h
    · rename_i drained hphase
      obtain ⟨⟨hmem, hdone⟩, ⟨⟩⟩ := Option.ite_none_right_eq_some.mp h
      exact .joined hphase hmem hdone
    · cases h
  | drainFinished =>
    simp only [step] at h
    split at h
    · rename_i drained hphase
      obtain ⟨hempty, ⟨⟩⟩ := Option.ite_none_right_eq_some.mp h
      exact .drainFinished hphase hempty
    · cases h
  | drainTimedOut =>
    simp only [step] at h
    split at h
    · rename_i drained hphase
      cases h
      exact .drainTimedOut hphase
    · cases h

/-- What holds of the books at all times: every running task is in the `JoinSet`
and holds a permit. -/
structure Kept (maxConnections : Nat) (s : AcceptLoop) : Prop where
  sublist : s.running.Sublist s.joinSet
  nodup : s.joinSet.Nodup
  permits : s.permits + s.running.length = maxConnections

theorem kept_start : Kept maxConnections (start maxConnections) :=
  ⟨List.Sublist.refl [], List.nodup_nil, rfl⟩

theorem kept_step (h : Kept maxConnections s) (hstep : step s e = some s') :
    Kept maxConnections s' := by
  obtain ⟨hsub, hnodup, hpermits⟩ := h
  cases step_cases hstep with
  | acceptFailed _ => exact ⟨hsub, hnodup, hpermits⟩
  | refused _ _ => exact ⟨hsub, hnodup, hpermits⟩
  | shutdown _ => exact ⟨hsub, hnodup, hpermits⟩
  | drainFinished _ _ => exact ⟨hsub, hnodup, hpermits⟩
  | accepted _ hpermit hfresh =>
    refine ⟨hsub.append (List.Sublist.refl _), ?_, ?_⟩
    · rw [List.nodup_append]
      refine ⟨hnodup, List.nodup_singleton _, ?_⟩
      intro a ha b hb heq
      rw [List.mem_singleton] at hb
      exact hfresh (hb ▸ heq ▸ ha)
    · rw [List.length_append, List.length_singleton]
      dsimp only
      omega
  | completed _ hmem =>
    refine ⟨List.erase_sublist.trans hsub, hnodup, ?_⟩
    have hpos := List.length_pos_of_mem hmem
    rw [List.length_erase_of_mem hmem]
    dsimp only
    omega
  | @joined id _ _ _ hdone =>
    refine ⟨?_, hnodup.erase id, hpermits⟩
    have herase := hsub.erase id
    rwa [List.erase_of_not_mem hdone] at herase
  | drainTimedOut _ => exact ⟨List.Sublist.refl [], List.nodup_nil, hpermits⟩

/-- The loop waits: for a client, or for a task that still runs. -/
def Waits (s : AcceptLoop) : Prop :=
  match s.phase with
  | .accepting => True
  | .draining _ => ∀ id ∈ s.joinSet, id ∈ s.running
  | _ => False

/-- Where the loop waits, the `JoinSet` holds the running tasks and no others. -/
def Tracks (s : AcceptLoop) : Prop := s.Waits → s.joinSet = s.running

theorem eq_running_of_subset (h : Kept maxConnections s)
    (hsubset : ∀ id ∈ s.joinSet, id ∈ s.running) : s.joinSet = s.running := by
  have hlen := h.nodup.length_le_of_subset hsubset
  exact (h.sublist.eq_of_length_le hlen).symm

theorem tracks_of_draining {drained : Nat} (h : Kept maxConnections s)
    (hphase : s.phase = .draining drained) : s.Tracks := by
  intro hwaits
  rw [Waits, hphase] at hwaits
  exact eq_running_of_subset h hwaits

/-- A task completes while the loop still accepts, where nothing takes it out. -/
def Leaks (s : AcceptLoop) : LoopEvent → Prop
  | .completed _ _ => s.phase = .accepting
  | _ => False

instance : ∀ s e, Decidable (Leaks s e)
  | s, .completed _ _ => inferInstanceAs (Decidable (s.phase = .accepting))
  | _, .acceptFailed | _, .accepted _ | _, .refused | _, .shutdown | _, .joined _
  | _, .drainFinished | _, .drainTimedOut => isFalse nofun

/-- A task that completes is still in the `JoinSet`, and runs no more. -/
theorem joinSet_ne_of_completed {id : Nat} (h : Kept maxConnections s) (hmem : id ∈ s.running) :
    s.joinSet ≠ s.running.erase id := by
  intro hsame
  have hin : id ∈ s.joinSet := h.sublist.subset hmem
  have hout : id ∉ s.running.erase id := (h.sublist.nodup h.nodup).not_mem_erase
  exact hout (hsame ▸ hin)

theorem tracks_step_iff (h : Kept maxConnections s) (htracks : s.Tracks)
    (hstep : step s e = some s') : s'.Tracks ↔ ¬ Leaks s e := by
  have hkept := kept_step h hstep
  cases step_cases hstep with
  | acceptFailed _ => exact iff_of_true htracks id
  | refused _ _ => exact iff_of_true htracks id
  | shutdown _ => exact iff_of_true (tracks_of_draining hkept rfl) id
  | drainFinished _ _ => exact iff_of_true nofun id
  | drainTimedOut _ => exact iff_of_true nofun id
  | joined _ _ _ => exact iff_of_true (tracks_of_draining hkept rfl) id
  | accepted hphase _ _ =>
    refine iff_of_true ?_ id
    intro _
    have hsame := htracks (by rw [Waits, hphase]; trivial)
    dsimp only
    rw [hsame]
  | completed _ hmem =>
    obtain ⟨phase, permits, running, joinSet⟩ := s
    cases phase with
    | accepting =>
      refine iff_of_false ?_ (not_not_intro rfl)
      intro htracks'
      exact joinSet_ne_of_completed h hmem (htracks' trivial)
    | draining _ => exact iff_of_true (tracks_of_draining hkept rfl) nofun
    | finished _ => exact iff_of_true nofun nofun
    | abandoned _ => exact iff_of_true nofun nofun

/-- At every moment, waiting or not: the books differ as soon as a task completes. -/
theorem same_step_iff (h : Kept maxConnections s) (hsame : s.joinSet = s.running)
    (hstep : step s e = some s') :
    s'.joinSet = s'.running ↔ ∀ id outcome, e ≠ .completed id outcome := by
  cases step_cases hstep with
  | acceptFailed _ | refused _ _ | shutdown _ | drainFinished _ _ => exact iff_of_true hsame nofun
  | drainTimedOut _ => exact iff_of_true rfl nofun
  | accepted _ _ _ =>
    refine iff_of_true ?_ nofun
    dsimp only
    rw [hsame]
  | joined _ hmem hdone => exact absurd (hsame ▸ hmem) hdone
  | @completed id outcome hmem =>
    exact iff_of_false (joinSet_ne_of_completed h hmem) fun hnone => hnone id outcome rfl

/-- Along a run without leaks the `JoinSet` is bounded, and equal to the running
tasks while the loop accepts. -/
def Bounded (maxConnections : Nat) (s : AcceptLoop) : Prop :=
  Kept maxConnections s ∧ s.joinSet.length ≤ maxConnections ∧
    (s.phase = .accepting → s.joinSet = s.running)

theorem bounded_step (h : Bounded maxConnections s) (hleak : ¬ Leaks s e)
    (hstep : step s e = some s') : Bounded maxConnections s' := by
  obtain ⟨hkept, hlen, hsame⟩ := h
  have hkept' := kept_step hkept hstep
  refine ⟨hkept', ?_⟩
  cases step_cases hstep with
  | acceptFailed _ => exact ⟨hlen, hsame⟩
  | refused _ _ => exact ⟨hlen, hsame⟩
  | shutdown _ => exact ⟨hlen, nofun⟩
  | drainFinished _ _ => exact ⟨hlen, nofun⟩
  | drainTimedOut _ => exact ⟨Nat.zero_le _, nofun⟩
  | joined _ _ _ => exact ⟨Nat.le_trans List.length_erase_le hlen, nofun⟩
  | accepted hphase _ _ =>
    have hpermits := hkept'.permits
    have hsame' := hsame hphase
    dsimp only at hpermits ⊢
    rw [hsame']
    exact ⟨by omega, fun _ => rfl⟩
  | completed outcome hmem =>
    refine ⟨hlen, ?_⟩
    intro haccepting
    exact absurd haccepting hleak

/-- What the drain has taken out and what is left of it make up what it began with. -/
def Drains (total : Nat) (s : AcceptLoop) : Prop :=
  match s.phase with
  | .accepting => False
  | .draining drained => drained + s.joinSet.length = total
  | .finished drained => drained = total
  | .abandoned _ => True

theorem drains_step {total : Nat} (h : Drains total s) (hstep : step s e = some s') :
    Drains total s' := by
  cases step_cases hstep with
  | acceptFailed _ => exact h
  | refused _ _ => exact h
  | completed _ _ => exact h
  | accepted hphase _ _ =>
    rw [Drains, hphase] at h
    exact h.elim
  | shutdown hphase =>
    rw [Drains, hphase] at h
    exact h.elim
  | joined hphase hmem _ =>
    rw [Drains, hphase] at h
    have hpos := List.length_pos_of_mem hmem
    rw [Drains]
    dsimp only at h ⊢
    rw [List.length_erase_of_mem hmem]
    omega
  | drainFinished hphase hempty =>
    rw [Drains, hphase] at h
    dsimp only at h
    rw [hempty] at h
    exact h
  | drainTimedOut _ => trivial

theorem phase_run (hrun : run (start maxConnections) es = some s) :
    s.phase = .accepting ↔ .shutdown ∉ es := by
  apply Machine.run_history (P := fun es s => s.phase = .accepting ↔ LoopEvent.shutdown ∉ es) _ _
    hrun
  · intro es t e t' _ h hstep
    rw [List.mem_append, List.mem_singleton, not_or]
    cases step_cases hstep with
    | shutdown _ => exact iff_of_false nofun fun hnot => hnot.2 rfl
    | acceptFailed _ | refused _ _ | accepted _ _ _ | completed _ _ =>
      exact h.trans (and_iff_left nofun).symm
    | joined hphase _ _ | drainFinished hphase _ | drainTimedOut hphase =>
      refine iff_of_false nofun ?_
      intro hnot
      have haccepting := h.mpr hnot.1
      rw [hphase] at haccepting
      cases haccepting
  · exact iff_of_true rfl List.not_mem_nil

theorem noLeaks_iff (hrun : run (start maxConnections) es = some s) :
    Machine.Along step (fun s e => ¬ Leaks s e) (start maxConnections) es ↔
      ∀ pre id outcome post, es = pre ++ .completed id outcome :: post → .shutdown ∈ pre := by
  rw [Machine.along_iff hrun]
  constructor
  · intro h pre id outcome post hsplit
    rw [hsplit] at hrun
    obtain ⟨t, ht, _⟩ := Machine.run_append.mp hrun
    by_contra hnot
    exact h pre _ post t hsplit ht ((phase_run ht).mpr hnot)
  · intro h pre e post t hsplit ht hleak
    match e with
    | .completed id outcome => exact (phase_run ht).mp hleak (h pre id outcome post hsplit)

theorem noCompletions_iff (hrun : run (start maxConnections) es = some s) :
    Machine.Along step (fun _ e => ∀ id outcome, e ≠ .completed id outcome)
        (start maxConnections) es ↔ ∀ id outcome, .completed id outcome ∉ es := by
  rw [Machine.along_iff hrun]
  constructor
  · intro h id outcome hmem
    obtain ⟨pre, post, rfl⟩ := List.append_of_mem hmem
    obtain ⟨t, ht, _⟩ := Machine.run_append.mp hrun
    exact h pre _ post t rfl ht id outcome rfl
  · rintro h pre _ post t rfl _ id outcome rfl
    exact h id outcome (List.mem_append_right pre List.mem_cons_self)

/-- After the shutdown the drain counts what was in the `JoinSet` then. -/
theorem drained_eq {drained : Nat} (hstep : step s .shutdown = some s')
    (hrun : run s' es = some s'') (hphase : s''.phase = .finished drained) :
    drained = s.joinSet.length := by
  have hbegin : Drains s.joinSet.length s' := by
    cases step_cases hstep with
    | shutdown _ => exact Nat.zero_add _
  have hend := Machine.run_invariant (P := Drains s.joinSet.length)
    (fun _ _ _ h hstep => drains_step h hstep) hbegin hrun
  rw [Drains, hphase] at hend
  exact hend

theorem tracks_throughout_iff (hrun : run (start maxConnections) es = some s) :
    Machine.Throughout step Tracks (start maxConnections) es ↔
      Machine.Along step (fun s e => ¬ Leaks s e) (start maxConnections) es := by
  refine Machine.throughout_iff_along (Kept maxConnections) ?_ ?_ kept_start (fun _ => rfl) hrun
  · intro t e t' h hstep
    exact kept_step h hstep
  · intro t e t' h htracks hstep
    exact tracks_step_iff h htracks hstep

theorem same_throughout_iff (hrun : run (start maxConnections) es = some s) :
    Machine.Throughout step (fun t => t.joinSet = t.running) (start maxConnections) es ↔
      Machine.Along step (fun _ e => ∀ id outcome, e ≠ .completed id outcome)
        (start maxConnections) es := by
  refine Machine.throughout_iff_along (Kept maxConnections) ?_ ?_ kept_start rfl hrun
  · intro t e t' h hstep
    exact kept_step h hstep
  · intro t e t' h hsame hstep
    exact same_step_iff h hsame hstep

/-- In every run the `JoinSet` holds exactly the running tasks wherever the loop
waits, stays within `max_connections`, and gives a `drained` count of the tasks
that ran at the shutdown, if and only if no task completes before the shutdown.
Between a completion and its `join_next` the two differ in any case. -/
theorem joinSet_tracks_iff (hrun : run (start maxConnections) es = some s) :
    (((∀ pre t, pre <+: es → run (start maxConnections) pre = some t →
          (t.Waits → t.joinSet = t.running) ∧ t.joinSet.length ≤ maxConnections) ∧
        ∀ drained pre post t, s.phase = .finished drained → es = pre ++ .shutdown :: post →
          run (start maxConnections) pre = some t → drained = t.running.length) ↔
      ∀ pre id outcome post, es = pre ++ .completed id outcome :: post → .shutdown ∈ pre) ∧
    ((∀ pre t, pre <+: es → run (start maxConnections) pre = some t → t.joinSet = t.running) ↔
      ∀ id outcome, .completed id outcome ∉ es) := by
  have htracks := tracks_throughout_iff hrun
  refine ⟨?_, (same_throughout_iff hrun).trans (noCompletions_iff hrun)⟩
  rw [← noLeaks_iff hrun, ← htracks]
  constructor
  · rintro ⟨hbooks, _⟩ pre t hpre ht
    exact (hbooks pre t hpre ht).1
  · intro hall
    have hbounded := Machine.throughout_of_along (Q := Bounded maxConnections)
      (fun _ _ _ h hleak hstep => bounded_step h hleak hstep)
      ⟨kept_start, Nat.zero_le _, fun _ => rfl⟩ (htracks.mp hall)
    refine ⟨?_, ?_⟩
    · intro pre t hpre ht
      exact ⟨hall pre t hpre ht, (hbounded pre t hpre ht).2.1⟩
    · rintro drained pre post t hphase rfl ht
      obtain ⟨t', ht', hrest⟩ := Machine.run_append.mp hrun
      obtain rfl : t = t' := Option.some.inj (ht.symm.trans ht')
      obtain ⟨u, hu, hrest⟩ := Machine.run_cons.mp hrest
      have haccepting : t.phase = .accepting := by
        cases step_cases hu with
        | shutdown hphase => exact hphase
      rw [drained_eq hu hrest hphase, (hbounded pre t (List.prefix_append _ _) ht).2.2 haccepting]

/-- Two clients, a third one refused, and a drain of both. -/
def drainOfTwo : List LoopEvent :=
  [.accepted 1, .accepted 2, .refused, .shutdown, .completed 2 .normal, .joined 2,
    .completed 1 .panic, .joined 1, .drainFinished]

theorem joinSet_tracks_drainOfTwo :
    Machine.Throughout step (fun t => t.joinSet.length ≤ 2) (start 2) drainOfTwo := by
  have hrun : run (start 2) drainOfTwo = some ⟨.finished 2, 2, [], []⟩ := by decide
  have hnone : Machine.Along step (fun s e => ¬ Leaks s e) (start 2) drainOfTwo := by decide
  have hbooks := (joinSet_tracks_iff hrun).1.mpr ((noLeaks_iff hrun).mp hnone)
  intro pre t hpre ht
  exact (hbooks.1 pre t hpre ht).2

/-- A client that left before the shutdown is still in the `JoinSet`, past
`max_connections`, and the drain counts it. -/
theorem completed_task_not_reaped :
    (∃ s, run (start 1) [.accepted 1, .completed 1 .normal, .accepted 2] = some s ∧
      s.phase = .accepting ∧ s.joinSet ≠ s.running ∧ ¬ s.joinSet.length ≤ 1) ∧
    ∃ s t, run (start 1) [.accepted 1, .completed 1 .normal] = some t ∧
      run t [.shutdown, .joined 1, .drainFinished] = some s ∧ s.phase = .finished 1 ∧
      t.running.length = 0 := by
  refine ⟨⟨⟨.accepting, 0, [2], [1, 2]⟩, ?_⟩, ⟨.finished 1, 1, [], []⟩, ⟨.accepting, 1, [], [1]⟩, ?_⟩
  · decide
  · decide

end AcceptLoop

end Liaozhai.Server
