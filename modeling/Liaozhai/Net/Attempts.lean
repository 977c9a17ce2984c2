import Liaozhai.Net.Connection

/-!
# Login attempts

The failures a connection has counted, and how many it may still report to the
rate limiter.
-/

namespace Liaozhai.Net.Connection

open Auth
set_option autoImplicit false

variable {ctx : SessionContext} {c c' : Connection} {e : Event}

/-- Even with a limit of zero one attempt is made. -/
def attemptLimit (ctx : SessionContext) : Nat := max 1 ctx.maxLoginAttempts

@[simp] theorem takeItem_authFailures (c : Connection) (item : Option Item) :
    (c.takeItem item).authFailures = c.authFailures := by
  obtain ⟨point, lineCount, heq, _⟩ := takeItem_eq c item
  rw [heq]

@[simp] theorem complete_authFailures (c : Connection) (authResult : Option Account) :
    (c.complete authResult).authFailures = c.authFailures := by
  obtain ⟨point, heq, _⟩ := complete_eq c authResult
  rw [heq, goTo_authFailures]

@[simp] theorem afterWrite_authFailures (c : Connection) (result : Except String Unit) :
    (c.afterWrite result).authFailures = c.authFailures := by
  obtain ⟨point, session, heq, _⟩ := afterWrite_eq c result
  rw [heq]

/-- The points that a connection may come to with all its attempts made. -/
def Spent : Point → Prop
  | .recordFailure | .maxRetriesNotice | .closing | .closed _ => True
  | _ => False

structure WithinLimit (ctx : SessionContext) (c : Connection) : Prop where
  le : c.authFailures ≤ attemptLimit ctx
  lt : ¬ Spent c.point → c.authFailures < attemptLimit ctx
  pos : c.point = .recordFailure → 0 < c.authFailures

theorem withinLimit_of_lt (h : c.authFailures < attemptLimit ctx) (hp : c.point ≠ .recordFailure) :
    WithinLimit ctx c :=
  ⟨Nat.le_of_lt h, fun _ => h, fun heq => absurd heq hp⟩

theorem withinLimit_of_spent (h : c.authFailures ≤ attemptLimit ctx) (hspent : Spent c.point)
    (hp : c.point ≠ .recordFailure) : WithinLimit ctx c :=
  ⟨h, fun hnot => absurd hspent hnot, fun heq => absurd heq hp⟩

theorem withinLimit_new : WithinLimit ctx (new ctx) :=
  withinLimit_of_lt (Nat.lt_of_lt_of_le Nat.zero_lt_one (Nat.le_max_left 1 _)) nofun

theorem WithinLimit.lt_of_point {point : Point} (h : WithinLimit ctx c) (hp : c.point = point)
    (hspent : ¬ Spent point) : c.authFailures < attemptLimit ctx :=
  h.lt (hp ▸ hspent)

/-- No write leads to the report of a failure. -/
theorem afterWrite_point_ne (c : Connection) (result : Except String Unit) :
    (c.afterWrite result).point ≠ .recordFailure := by
  obtain ⟨point, session, heq, hfrom⟩ := afterWrite_eq c result
  rw [heq]
  rintro rfl
  cases hfrom

theorem takeItem_point_ne (c : Connection) (item : Option Item) :
    (c.takeItem item).point ≠ .recordFailure := by
  obtain ⟨point, lineCount, heq, hfrom⟩ := takeItem_eq c item
  rw [heq]
  rintro rfl
  cases hfrom

theorem complete_point_ne (c : Connection) (authResult : Option Account) :
    (c.complete authResult).point ≠ .recordFailure := by
  obtain ⟨point, heq, hfrom⟩ := complete_eq c authResult
  rw [heq, goTo_point]
  rintro rfl
  cases hfrom

theorem output_ne_recordFailure {bytes : List UInt8} (h : output c.point = some bytes) :
    c.point ≠ .recordFailure := by
  intro hp
  rw [hp] at h
  cases h

theorem withinLimit_step (h : WithinLimit ctx c) (hstep : step ctx c e = some c') :
    WithinLimit ctx c' := by
  cases step_cases hstep with
  | throttleChecked throttled hp =>
    refine withinLimit_of_lt (h.lt_of_point hp id) ?_
    cases throttled with
    | true => exact nofun
    | false => exact nofun
  | received item hp =>
    refine withinLimit_of_lt ?_ (takeItem_point_ne c item)
    rw [takeItem_authFailures]
    exact h.lt_of_point hp id
  | cancelled hp => exact withinLimit_of_lt (h.lt_of_point hp id) nofun
  | verifyCalled hp => exact withinLimit_of_lt (h.lt_of_point hp id) nofun
  | limiterReset hp => exact withinLimit_of_lt (h.lt_of_point hp id) nofun
  | loginRecorded result hp =>
    refine withinLimit_of_lt ?_ (complete_point_ne c _)
    rw [complete_authFailures]
    exact h.lt_of_point hp id
  | shutDown result hp => exact withinLimit_of_spent h.le trivial nofun
  | maxRetries hp _ => exact withinLimit_of_spent h.le trivial nofun
  | retry hp hretry =>
    exact withinLimit_of_lt (Nat.lt_of_lt_of_le hretry (Nat.le_max_right 1 _)) nofun
  | verifyReturned result hp =>
    have hlt := h.lt_of_point hp id
    match result with
    | .error _ => exact withinLimit_of_lt hlt nofun
    | .ok (some _) => exact withinLimit_of_lt hlt nofun
    | .ok none => exact ⟨hlt, fun hnot => absurd trivial hnot, fun _ => Nat.succ_pos _⟩
  | wrote result hout =>
    have hne := afterWrite_point_ne c result
    by_cases hspent : Spent c.point
    · -- the last notice, and then the end
      cases hp : c.point with
      | maxRetriesNotice =>
        refine withinLimit_of_spent ?_ ?_ hne
        · rw [afterWrite_authFailures]
          exact h.le
        · simp only [afterWrite, hp]
          exact trivial
      | recordFailure | closing | closed _ =>
        rw [hp] at hout
        cases hout
      | _ =>
        rw [hp] at hspent
        exact hspent.elim
    · refine withinLimit_of_lt ?_ hne
      rw [afterWrite_authFailures]
      exact h.lt hspent

/-- Past the check of its address, and not yet at its end. -/
def isOpen (c : Connection) : Bool :=
  match c.point with
  | .start | .limitedNotice | .limitedShutdown | .closed _ | .panicked => false
  | _ => true

/-- Only the check of the address opens a connection. -/
theorem isOpen_step (hstep : step ctx c e = some c') (h : c'.isOpen = true) :
    c.isOpen = true ∨ e = .throttleChecked false := by
  cases step_cases hstep with
  | throttleChecked throttled hp =>
    cases throttled with
    | true => cases h
    | false => exact .inr rfl
  | shutDown _ _ => cases h
  | wrote result hout =>
    cases hp : c.point with
    | limitedNotice =>
      simp only [afterWrite, hp, isOpen, goTo_point] at h
      cases h
    | start | limitedShutdown | closed _ | panicked =>
      rw [hp] at hout
      cases hout
    | _ =>
      left
      rw [isOpen, hp]
  | received _ hp | cancelled hp | verifyCalled hp | verifyReturned _ hp | limiterReset hp
  | loginRecorded _ hp | maxRetries hp _ | retry hp _ =>
    left
    rw [isOpen, hp]

/-- The failures that a connection may still report. -/
def remaining (ctx : SessionContext) (c : Connection) : Nat :=
  if c.isOpen then
    if c.point = .recordFailure then attemptLimit ctx + 1 - c.authFailures
    else attemptLimit ctx - c.authFailures
  else 0

theorem remaining_le (h : c.point ≠ .recordFailure) :
    remaining ctx c ≤ attemptLimit ctx - c.authFailures := by
  rw [remaining, if_neg h]
  split
  · exact Nat.le_refl _
  · exact Nat.zero_le _

theorem remaining_of_open (hopen : c.isOpen = true) (h : c.point ≠ .recordFailure) :
    remaining ctx c = attemptLimit ctx - c.authFailures := by
  rw [remaining, if_pos hopen, if_neg h]

theorem remaining_recordFailure (h : c.point = .recordFailure) :
    remaining ctx c = attemptLimit ctx + 1 - c.authFailures := by
  have hopen : c.isOpen = true := by
    rw [isOpen, h]
  rw [remaining, if_pos hopen, if_pos h]

theorem remaining_le_limit (h : WithinLimit ctx c) :
    remaining ctx c ≤ if c.isOpen then attemptLimit ctx else 0 := by
  by_cases hopen : c.isOpen
  · rw [if_pos hopen]
    by_cases hp : c.point = .recordFailure
    · have hpos := h.pos hp
      rw [remaining_recordFailure hp]
      omega
    · exact Nat.le_trans (remaining_le hp) (Nat.sub_le _ _)
  · rw [if_neg hopen, remaining, if_neg hopen]

/-- A step that reports no failure leaves no more to report, unless it is the
check that lets the connection in. -/
theorem remaining_step (hstep : step ctx c e = some c') (hcheck : e ≠ .throttleChecked false)
    (hrecord : e ≠ .failureRecorded) : remaining ctx c' ≤ remaining ctx c := by
  -- from an open point to one that reports no failure
  have hmoves : ∀ {point}, c.point = point → c.isOpen = true → point ≠ .recordFailure →
      c'.point ≠ .recordFailure → c'.authFailures = c.authFailures →
      remaining ctx c' ≤ remaining ctx c := by
    rintro point rfl hopen hne hne' hsame
    rw [remaining_of_open hopen hne, ← hsame]
    exact remaining_le hne'
  cases step_cases hstep with
  | throttleChecked throttled hp =>
    cases throttled with
    | true => exact Nat.zero_le _
    | false => exact absurd rfl hcheck
  | shutDown result hp => exact Nat.zero_le _
  | maxRetries hp _ => exact absurd rfl hrecord
  | retry hp _ => exact absurd rfl hrecord
  | received item hp =>
    exact hmoves hp (by rw [isOpen, hp]) nofun (takeItem_point_ne c item)
      (takeItem_authFailures c item)
  | cancelled hp => exact hmoves hp (by rw [isOpen, hp]) nofun nofun rfl
  | verifyCalled hp => exact hmoves hp (by rw [isOpen, hp]) nofun nofun rfl
  | limiterReset hp => exact hmoves hp (by rw [isOpen, hp]) nofun nofun rfl
  | loginRecorded result hp =>
    exact hmoves hp (by rw [isOpen, hp]) nofun (complete_point_ne c _) (complete_authFailures c _)
  | verifyReturned result hp =>
    have hopen : c.isOpen = true := by
      rw [isOpen, hp]
    match result with
    | .error _ => exact hmoves hp hopen nofun nofun rfl
    | .ok (some _) => exact hmoves hp hopen nofun nofun rfl
    | .ok none =>
      rw [remaining_of_open hopen (by rw [hp]; exact nofun), remaining_recordFailure rfl]
      simp only [afterVerify]
      omega
  | wrote result hout =>
    have hne := output_ne_recordFailure hout
    have hne' := afterWrite_point_ne c result
    by_cases hopen : c.isOpen = true
    · exact hmoves rfl hopen hne hne' (afterWrite_authFailures c result)
    · cases hp : c.point with
      | limitedNotice =>
        rw [remaining, if_neg]
        · exact Nat.zero_le _
        · simp only [afterWrite, hp, isOpen, goTo_point]
          exact nofun
      | start | limitedShutdown | closed _ | panicked =>
        rw [hp] at hout
        cases hout
      | _ =>
        rw [isOpen, hp] at hopen
        exact absurd rfl hopen

/-- A report spends what the connection had left. -/
theorem remaining_failureRecorded (h : WithinLimit ctx c)
    (hstep : step ctx c .failureRecorded = some c') : remaining ctx c' + 1 ≤ remaining ctx c := by
  cases step_cases hstep with
  | maxRetries hp _ =>
    have hafter : remaining ctx (c.goTo .maxRetriesNotice) ≤ attemptLimit ctx - c.authFailures :=
      remaining_le nofun
    have hle := h.le
    rw [remaining_recordFailure hp]
    omega
  | retry hp _ =>
    have hafter : remaining ctx (c.complete none) ≤ attemptLimit ctx - c.authFailures :=
      remaining_le nofun
    have hle := h.le
    rw [remaining_recordFailure hp]
    omega

end Liaozhai.Net.Connection
