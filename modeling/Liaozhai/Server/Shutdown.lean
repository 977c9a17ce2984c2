import Liaozhai.Server.Progress

/-!
# Graceful shutdown

Once the token is cancelled, the service comes to an end by itself: nothing is taken
in any more, so the work that is left only shrinks, and while the loop has not
returned there is always a step to take.
-/

namespace Liaozhai.Server

open Auth Net
set_option autoImplicit false

universe u v

namespace Service
variable {Hash : Type u} {Salt : Type v} {ctx : SessionContext} {argon2 : Argon2 Hash Salt}
  {s s' s₀ : Service Hash} {e : ServiceEvent Salt} {es : List (ServiceEvent Salt)} {id : Nat}
  {cfg : AppConfig} {dummyHash : Hash} {earlier : List (StoreCall Salt)}

/-- After the signal nothing is taken in. -/
theorem quiet_of_cancelled (h : s.cancelled = true) (hstep : step ctx argon2 s e = some s') :
    isInput e = false := by
  cases step_cases hstep with
  | @server event _ _ hallowed _ _ =>
    rw [h] at hallowed
    cases event with
    | accepted _ => cases hallowed
    | loop e =>
      cases e with
      | acceptFailed | refused => cases hallowed
      | accepted | completed | shutdown | joined | drainFinished | drainTimedOut => rfl
    | completed _ _ => rfl
    | acted _ action =>
      cases action with
      | checked _ | reset | failed _ _ => rfl
      | other e =>
        cases e with
        | received _ => cases hallowed
        | throttleChecked | wrote | shutDown | cancelled | verifyCalled | verifyReturned
        | limiterReset | loginRecorded | failureRecorded => rfl
  | signalled | loginCalled _ _ _ _ | performed _ | created _ | declined _ => rfl

theorem cancelled_step (h : s.cancelled = true) (hstep : step ctx argon2 s e = some s') :
    s'.cancelled = true := by
  cases step_cases hstep with
  | signalled => rfl
  | server _ _ _ | loginCalled _ _ _ _ | performed _ | created _ | declined _ => exact h

theorem quiet_run (h : s.cancelled = true) (hrun : run ctx argon2 s es = some s') :
    ∀ e ∈ es, isInput e = false := by
  induction es generalizing s with
  | nil =>
    intro e he
    cases he
  | cons e es ih =>
    obtain ⟨t, ht, hrest⟩ := Machine.run_cons.mp hrun
    exact List.forall_mem_cons.mpr ⟨quiet_of_cancelled h ht, ih (cancelled_step h ht) hrest⟩

theorem isOwn_of_isBusy (h : isBusy e = true) : isOwn e = true :=
  (Bool.and_eq_true_iff.mp h).1

/-- Then a handler that waits is told to stop. -/
theorem running_progress (h : Tended ctx cfg s) (hcancelled : s.cancelled = true)
    (hreplies : ∀ id request reply, s.store.tasks id = some (.done request reply) →
      Answers request reply) (hid : id ∈ s.server.loop.running) :
    ∃ e, isOwn e = true ∧ (step ctx argon2 s e).isSome = true := by
  obtain ⟨client, hclient⟩ : ∃ client, s.server.clients.processes[id]? = some client :=
    ⟨_, List.getElem?_eq_getElem (h.sound.known id hid)⟩
  by_cases hp : client.connection.point = .waiting
  · refine ⟨.server (.acted id (.other .cancelled)), rfl, ?_⟩
    exact isSome_other rfl hcancelled hid hclient (by rw [Connection.step, hp]; rfl) rfl
  · obtain ⟨e, hbusy, hsome⟩ := handler_progress h hreplies hid hclient hp
    exact ⟨e, isOwn_of_isBusy hbusy, hsome⟩

/-- After the signal there is a step to take until the end. -/
theorem progress (h : Tended ctx cfg s) (hcancelled : s.cancelled = true)
    (hreplies : ∀ id request reply, s.store.tasks id = some (.done request reply) →
      Answers request reply) (hover : s.server.loop.Returned → Over cfg s) :
    Over cfg s ∨ ∃ e, isOwn e = true ∧ (step ctx argon2 s e).isSome = true := by
  match hphase : s.server.loop.phase with
  | .accepting =>
    refine .inr ⟨.server (.loop .shutdown), rfl, ?_⟩
    have hloop : s.server.loop.step .shutdown = some { s.server.loop with phase := .draining 0 } :=
      if_pos hphase
    exact isSome_loop hcancelled rfl hloop
  | .draining drained =>
    right
    cases hset : s.server.loop.joinSet with
    | nil =>
      refine ⟨.server (.loop .drainFinished), rfl, ?_⟩
      have hloop : s.server.loop.step .drainFinished =
          some { s.server.loop with phase := .finished drained } := by
        rw [AcceptLoop.step, hphase]
        exact if_pos hset
      exact isSome_loop rfl rfl hloop
    | cons id ids =>
      by_cases hid : id ∈ s.server.loop.running
      · exact running_progress h hcancelled hreplies hid
      · refine ⟨.server (.loop (.joined id)), rfl, ?_⟩
        have hmem : id ∈ s.server.loop.joinSet := by
          rw [hset]
          exact List.mem_cons_self
        have hloop : s.server.loop.step (.joined id) = some { s.server.loop with
            phase := .draining (drained + 1)
            joinSet := s.server.loop.joinSet.erase id } := by
          rw [AcceptLoop.step, hphase]
          exact if_pos ⟨hmem, hid⟩
        exact isSome_loop rfl rfl hloop
  | .finished _ => exact .inl (hover (by rw [AcceptLoop.Returned, hphase]; trivial))
  | .abandoned _ => exact .inl (hover (by rw [AcceptLoop.Returned, hphase]; trivial))

/-- After the signal the service comes to its end. It has a bounded number of steps
left, and each handler at most twelve; there is a way to the end, and every run that
cannot be continued is there: the loop has returned, no handler runs, and every
permit is back. -/
theorem shutdown_completes (hs₀ : s₀ = start argon2 cfg dummyHash earlier)
    (hrun : run ctx argon2 s₀ es = some s) (hcancelled : s.cancelled = true) :
    (∀ es' s', run ctx argon2 s es' = some s' →
      es'.countP isOwn ≤ s.work ∧
        ∀ id, (s.server.clients.processes[id]?).isSome = true → es'.countP (isActOf id) ≤ 12) ∧
      (∃ es' s', run ctx argon2 s es' = some s' ∧ (∀ e ∈ es', isOwn e = true) ∧ Over cfg s') ∧
      ∀ es' s', run ctx argon2 s es' = some s' →
        (∀ e, isOwn e = true → step ctx argon2 s' e = none) → Over cfg s' := by
  have hkeeps : ∀ t e t', ((∃ es, run ctx argon2 s₀ es = some t) ∧ t.cancelled = true) →
      step ctx argon2 t e = some t' →
      (∃ es, run ctx argon2 s₀ es = some t') ∧ t'.cancelled = true := by
    intro t e t' h hstep
    obtain ⟨⟨before, hbefore⟩, hc⟩ := h
    exact ⟨⟨before ++ [e], Machine.run_snoc.mpr ⟨t, hbefore, hstep⟩⟩, cancelled_step hc hstep⟩
  have hlowers : ∀ t e t', ((∃ es, run ctx argon2 s₀ es = some t) ∧ t.cancelled = true) →
      step ctx argon2 t e = some t' → t'.work + (if isOwn e then 1 else 0) ≤ t.work := by
    intro t e t' h hstep
    obtain ⟨⟨before, hbefore⟩, hc⟩ := h
    exact work_step (tended_run hs₀ hbefore) (quiet_of_cancelled hc hstep) hstep
  have hprogress : ∀ t, ((∃ es, run ctx argon2 s₀ es = some t) ∧ t.cancelled = true) →
      Over cfg t ∨ ∃ e t', isOwn e = true ∧ step ctx argon2 t e = some t' := by
    intro t h
    obtain ⟨⟨before, hbefore⟩, hc⟩ := h
    rcases progress (tended_run hs₀ hbefore) hc (answers_run hs₀ hbefore)
      (over_of_returned hs₀ hbefore) with hover | ⟨e, hown, hsome⟩
    · exact .inl hover
    · obtain ⟨t', ht'⟩ := Option.isSome_iff_exists.mp hsome
      exact .inr ⟨e, t', hown, ht'⟩
  have hstart : (∃ es, run ctx argon2 s₀ es = some s) ∧ s.cancelled = true :=
    ⟨⟨es, hrun⟩, hcancelled⟩
  refine ⟨?_, ?_, ?_⟩
  · intro es' s' hrest
    refine ⟨?_, ?_⟩
    · have hcount := Machine.countP_le_measure hkeeps hlowers hstart hrest
      omega
    · intro id hsome
      refine countP_isActOf_le hsome ?_ hrest
      intro e he
      exact isLineOf_of_isInput (quiet_run hcancelled hrest e he) id
  · exact Machine.exists_run_of_measure hkeeps hlowers hprogress hstart
  · intro es' s' hrest hstuck
    have hthere := Machine.run_invariant hkeeps hstart hrest
    rcases hprogress s' hthere with hover | ⟨e, t', hown, ht'⟩
    · exact hover
    · rw [hstuck e hown] at ht'
      cases ht'

/-- The signal comes while Alice's password is being checked. -/
theorem shutdown_completes_alice :
    ∃ s, run ⟨⟨[]⟩, 3⟩ AccountStore.clear freshService (aliceTypesIn ++ [.signalled]) = some s ∧
      ∃ es' s', run ⟨⟨[]⟩, 3⟩ AccountStore.clear s es' = some s' ∧
        s'.server.loop.permits = 5 ∧ s'.server.loop.running = [] := by
  have hrun : ((run ⟨⟨[]⟩, 3⟩ AccountStore.clear freshService (aliceTypesIn ++ [.signalled])).map
      fun s => s.cancelled) = some true := by
    decide +kernel
  obtain ⟨s, hs, hcancelled⟩ := Option.map_eq_some_iff.mp hrun
  obtain ⟨_, ⟨es', s', hrest, _, hover⟩, _⟩ := shutdown_completes rfl hs hcancelled
  exact ⟨s, hs, es', s', hrest, hover.2.2, hover.2.1⟩

end Service

end Liaozhai.Server
