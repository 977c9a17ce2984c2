import Liaozhai.Core.Constants
import Liaozhai.Library.Utf8Lossy
import Liaozhai.Server.Listener

/-!
# Connection slots

The permits of the semaphore over a whole run of the accept loop: who is turned
away, who is let in, and what is left when the loop returns.
-/

namespace Liaozhai.Server.AcceptLoop

open Utf8Lossy (asBytes)
set_option autoImplicit false

variable {maxConnections : Nat} {s s' : AcceptLoop} {e : LoopEvent} {es : List LoopEvent}

theorem running_step (hstep : step s e = some s') :
    s'.running =
      match e with
      | .accepted id => s.running ++ [id]
      | .completed id _ => s.running.erase id
      | .drainTimedOut => []
      | _ => s.running := by
  cases step_cases hstep with
  | acceptFailed _ | accepted _ _ _ | refused _ _ | completed _ _ | shutdown _ | joined _ _ _
  | drainFinished _ _ | drainTimedOut _ => rfl

/-- What the loop itself writes to a client. -/
def loopOutput : LoopEvent → List UInt8
  | .refused => asBytes Constants.serverFullMsg
  | _ => []

/-- A connection was taken from the listener. -/
def Arrives : LoopEvent → Prop
  | .accepted _ | .refused => True
  | _ => False

def Returned (s : AcceptLoop) : Prop :=
  match s.phase with
  | .finished _ | .abandoned _ => True
  | _ => False

theorem kept_run (hrun : run (start maxConnections) es = some s) : Kept maxConnections s := by
  apply Machine.run_invariant _ kept_start hrun
  intro t e t' h hstep
  exact kept_step h hstep

/-- A loop that has returned has no task left. -/
theorem returned_run (hrun : run (start maxConnections) es = some s) (h : s.Returned) :
    s.joinSet = [] := by
  have hall : s.Returned → s.joinSet = [] := by
    refine Machine.run_invariant (P := fun s => s.Returned → s.joinSet = []) ?_ ?_ hrun
    · intro t e t' ht hstep hreturned
      cases step_cases hstep with
      | acceptFailed _ | refused _ _ | completed _ _ => exact ht hreturned
      | accepted hphase _ _ =>
        rw [Returned, hphase] at hreturned
        exact hreturned.elim
      | shutdown _ | joined _ _ _ => exact hreturned.elim
      | drainFinished _ hempty => exact hempty
      | drainTimedOut _ => rfl
    · intro hreturned
      exact hreturned.elim
  exact hall h

theorem loopOutput_refused : loopOutput .refused ≠ [] := by
  decide +kernel

/-- An arrival is turned away exactly when no permit is left. -/
theorem arrives_output_iff (harrives : Arrives e) (hstep : step s e = some s') :
    loopOutput e = asBytes Constants.serverFullMsg ↔ s.permits = 0 := by
  cases step_cases hstep with
  | refused _ hfull => exact iff_of_true rfl hfull
  | accepted _ hpermit _ =>
    exact iff_of_false (Ne.symm loopOutput_refused) (Nat.ne_of_gt hpermit)
  | acceptFailed _ | completed _ _ | shutdown _ | joined _ _ _ | drainFinished _ _
  | drainTimedOut _ => exact harrives.elim

theorem permits_eq_zero_iff (h : Kept maxConnections s) :
    s.permits = 0 ↔ s.running.length = maxConnections := by
  have hpermits := h.permits
  constructor
  · intro hzero
    omega
  · intro hfull
    omega

/-- At most `max_connections` handlers run. A connection is turned away, with the
message, exactly when that many run; none is started after the shutdown; and when
the loop has returned, none runs and all permits are back. -/
theorem slots_accounted (hrun : run (start maxConnections) es = some s) :
    s.running.length ≤ maxConnections ∧
      (s.phase = .accepting → ∀ id, id ∉ s.joinSet →
        ((step s .refused).isSome ↔ s.running.length = maxConnections) ∧
          ((step s (.accepted id)).isSome ↔ s.running.length ≠ maxConnections)) ∧
      (∀ e s', Arrives e → step s e = some s' →
        (loopOutput e = asBytes Constants.serverFullMsg ↔ s.running.length = maxConnections)) ∧
      (∀ pre id post, es = pre ++ .accepted id :: post → .shutdown ∉ pre) ∧
      (s.Returned → s.running = [] ∧ s.permits = maxConnections) := by
  have hkept := kept_run hrun
  have hfull := permits_eq_zero_iff hkept
  have hpermits := hkept.permits
  refine ⟨by omega, ?_, ?_, ?_, ?_⟩
  · intro hphase id hid
    have hrefused : (step s .refused).isSome ↔ s.permits = 0 := by
      simp [step, hphase]
    have haccepted : (step s (.accepted id)).isSome ↔ 0 < s.permits := by
      simp [step, hphase, hid]
    rw [hrefused, haccepted, Nat.pos_iff_ne_zero]
    exact ⟨hfull, not_congr hfull⟩
  · intro e s' harrives hstep
    rw [arrives_output_iff harrives hstep, hfull]
  · rintro pre id post rfl
    obtain ⟨t, hpre, hrest⟩ := Machine.run_append.mp hrun
    obtain ⟨t', hstep, _⟩ := Machine.run_cons.mp hrest
    cases step_cases hstep with
    | accepted hphase _ _ => exact (phase_run hpre).mp hphase
  · intro hreturned
    have hempty : s.running = [] := by
      have hsub := hkept.sublist
      rw [returned_run hrun hreturned] at hsub
      exact List.sublist_nil.mp hsub
    rw [hempty] at hpermits
    exact ⟨hempty, hpermits⟩

theorem slots_accounted_drainOfTwo :
    (run (start 2) drainOfTwo).map (fun s => (s.running, s.permits)) = some ([], 2) := by
  have hrun : run (start 2) drainOfTwo = some ⟨.finished 2, 2, [], []⟩ := by decide
  obtain ⟨hempty, hpermits⟩ := (slots_accounted hrun).2.2.2.2 trivial
  rw [hrun, Option.map_some, hempty, hpermits]

end Liaozhai.Server.AcceptLoop
