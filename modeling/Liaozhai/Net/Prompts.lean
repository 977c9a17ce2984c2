import Liaozhai.Net.Connection

/-!
# Prompts

Which session states go with which points of the handler, and what the handler
writes there. Both hold on every run, whatever the client, the account store and
the network do.
-/

namespace Liaozhai.Net

open Auth Codec Constants Worlds
open RustString (replace)
open Utf8Lossy (asBytes asBytes_append)
set_option autoImplicit false

def WorldSelected (state : SessionState) : Prop := ∃ account, state = .worldSelection account

def PasswordAsked (state : SessionState) : Prop := ∃ username, state = .authenticating (some username)

namespace Connection

/-- The session states of a point, and the text it stands before. -/
def Consistent (state : SessionState) : Point → Prop
  | .start | .limitedNotice | .limitedShutdown | .banner => state = .authenticating none
  | .stay output =>
    WorldSelected state ∨
      state = .authenticating none ∧ output = emptyUsernameMsg ++ usernamePrompt ∨
      PasswordAsked state ∧ output = emptyPasswordMsg ++ passwordPrompt
  | .advance (.authenticating (some _)) frame =>
    state = .authenticating none ∧ frame = iacWillEcho ++ asBytes passwordPrompt
  | .advance (.authenticating none) frame =>
    PasswordAsked state ∧ frame = asBytes (authFailedMsg ++ usernamePrompt)
  | .advance (.worldSelection _) frame => PasswordAsked state ∧ ∃ output, frame = asBytes output
  | .restoreEcho username _ | .verify username _ | .verifying username _ =>
    state = .authenticating (some username)
  | .reset _ | .recordLogin _ | .recordFailure | .storeErrorNotice | .maxRetriesNotice =>
    PasswordAsked state
  | .restoreEchoGoodbye goodbye => PasswordAsked state ∧ goodbye = goodbyeMsg
  | .goodbye goodbye => WorldSelected state ∨ goodbye = goodbyeMsg
  | _ => True

variable {ctx : SessionContext} {c c' : Connection} {e : Event} {es : List Event}

theorem consistent_takeLine (c : Connection) (line : String) :
    Consistent (c.takeLine line).session.state (c.takeLine line).point := by
  match hstate : c.session.state with
  | .authenticating none =>
    rcases Session.handleInput_username hstate line with h | h | ⟨hname, h⟩
    · have hecho : c.session.isPasswordInput = false := by
        rw [Session.isPasswordInput, hstate]
      simp only [takeLine, h, hecho, Bool.false_eq_true, if_false]
      exact .inr rfl
    · simp only [takeLine, h]
      exact .inr (.inl ⟨hstate, rfl⟩)
    · simp only [takeLine, h]
      exact ⟨hstate, rfl⟩
  | .authenticating (some username) =>
    rcases Session.handleInput_password hstate line with h | h | ⟨hpassword, h⟩
    · have hecho : c.session.isPasswordInput = true :=
        Session.isPasswordInput_iff.mpr ⟨username, hstate⟩
      simp only [takeLine, h, hecho, if_true]
      exact ⟨⟨username, hstate⟩, rfl⟩
    · simp only [takeLine, h]
      exact .inr (.inr ⟨⟨username, hstate⟩, rfl⟩)
    · simp only [takeLine, h]
      exact hstate
  | .worldSelection account =>
    have hworld : WorldSelected c.session.state := ⟨account, hstate⟩
    rcases Session.handleInput_world hstate line with ⟨output, h⟩ | ⟨goodbye, h⟩
    · simp only [takeLine, h]
      exact .inl hworld
    · have hecho : c.session.isPasswordInput = false := by
        rw [Session.isPasswordInput, hstate]
      simp only [takeLine, h, hecho, Bool.false_eq_true, if_false]
      exact .inl hworld

theorem consistent_takeItem (c : Connection) (item : Option Item) :
    Consistent (c.takeItem item).session.state (c.takeItem item).point := by
  match item with
  | some (.ok (.line line)) => exact consistent_takeLine c line
  | some (.ok .lineTooLong) => trivial
  | some (.error (.bufferOverflow _)) => trivial
  | some (.error (.io _)) => trivial
  | none => trivial

theorem consistent_continueIf {next : Connection} (result : Except String Unit)
    (h : Consistent next.session.state next.point) :
    Consistent (c.continueIf result next).session.state (c.continueIf result next).point := by
  cases result with
  | ok _ => exact h
  | error _ => trivial

theorem consistent_afterWrite (h : Consistent c.session.state c.point)
    (result : Except String Unit) :
    Consistent (c.afterWrite result).session.state (c.afterWrite result).point := by
  unfold afterWrite
  split
  · rename_i hpoint
    rw [hpoint] at h
    exact h
  · split
    · trivial
    · trivial
  · exact consistent_continueIf result trivial
  · exact consistent_continueIf result trivial
  · rename_i hpoint
    rw [hpoint] at h
    exact consistent_continueIf result h
  · rename_i hpoint
    rw [hpoint] at h
    exact .inr h.2
  · exact consistent_continueIf result trivial
  · trivial

theorem consistent_complete (h : PasswordAsked c.session.state) (authResult : Option Account) :
    Consistent (c.complete authResult).session.state (c.complete authResult).point := by
  cases authResult with
  | none => exact ⟨h, rfl⟩
  | some account =>
    rw [complete, Session.completeAuth]
    cases formatWorldList c.session.registry.worlds with
    | none => trivial
    | some list => exact ⟨h, _, rfl⟩

/-- A step leads to a point that goes with the session. -/
theorem consistent_step (h : Consistent c.session.state c.point) (hstep : step ctx c e = some c') :
    Consistent c'.session.state c'.point := by
  cases step_cases hstep with
  | throttleChecked throttled hpoint =>
    rw [hpoint] at h
    cases throttled with
    | true => exact h
    | false => exact h
  | wrote result _ => exact consistent_afterWrite h result
  | shutDown _ _ => trivial
  | received item _ => exact consistent_takeItem c item
  | cancelled _ => trivial
  | verifyCalled hpoint =>
    rw [hpoint] at h
    exact h
  | verifyReturned result hpoint =>
    rw [hpoint] at h
    match result with
    | .error _ => exact ⟨_, h⟩
    | .ok (some _) => exact ⟨_, h⟩
    | .ok none => exact ⟨_, h⟩
  | limiterReset hpoint =>
    rw [hpoint] at h
    exact h
  | loginRecorded result hpoint =>
    rw [hpoint] at h
    exact consistent_complete h _
  | maxRetries hpoint _ =>
    rw [hpoint] at h
    exact h
  | retry hpoint _ =>
    rw [hpoint] at h
    exact consistent_complete h _

theorem consistent_run (hrun : run ctx (new ctx) es = some c) :
    Consistent c.session.state c.point := by
  apply Machine.run_invariant (P := fun c => Consistent c.session.state c.point) _ _ hrun
  · intro t e t' h hstep
    exact consistent_step h hstep
  · exact rfl

/-- All that is written before a login. Nothing in it comes from the client. -/
def openTexts : List (List UInt8) :=
  [asBytes authRateLimitedMsg, asBytes (banner ++ Session.initialPrompt), asBytes shutdownMsg,
    asBytes (emptyUsernameMsg ++ usernamePrompt), asBytes (emptyPasswordMsg ++ passwordPrompt),
    iacWillEcho ++ asBytes passwordPrompt, asBytes (authFailedMsg ++ usernamePrompt), iacWontEcho,
    asBytes authInternalErrorMsg, asBytes authMaxRetriesMsg, asBytes goodbyeMsg,
    asBytes lineTooLongMsg, asBytes bufferOverflowMsg]

theorem output_mem_openTexts {bytes : List UInt8} (h : Consistent c.session.state c.point)
    (hout : output c.point = some bytes) (hstate : ¬ WorldSelected c.session.state)
    (hnext : ∀ account frame, c.point ≠ .advance (.worldSelection account) frame) :
    bytes ∈ openTexts := by
  rw [openTexts]
  match hpoint : c.point with
  | .stay text =>
    rw [hpoint] at h hout
    rcases h with h | ⟨_, rfl⟩ | ⟨_, rfl⟩
    · exact absurd h hstate
    · cases hout
      simp
    · cases hout
      simp
  | .advance (.authenticating (some _)) frame =>
    rw [hpoint] at h hout
    obtain ⟨_, rfl⟩ := h
    cases hout
    simp
  | .advance (.authenticating none) frame =>
    rw [hpoint] at h hout
    obtain ⟨_, rfl⟩ := h
    cases hout
    simp
  | .advance (.worldSelection account) frame => exact absurd hpoint (hnext account frame)
  | .goodbye text =>
    rw [hpoint] at h hout
    rcases h with h | rfl
    · exact absurd h hstate
    · cases hout
      simp
  | .limitedNotice | .banner | .shutdownNotice | .restoreEcho _ _ | .storeErrorNotice
  | .maxRetriesNotice | .restoreEchoGoodbye _ | .lineTooLongNotice | .bufferOverflowNotice =>
    rw [hpoint] at hout
    cases hout
    simp
  | .start | .limitedShutdown | .waiting | .verify _ _ | .verifying _ _ | .reset _
  | .recordLogin _ | .recordFailure | .closing | .closed _ | .panicked =>
    rw [hpoint] at hout
    cases hout

/-- The bytes hold a world list or the goodbye of a world that was selected. -/
def WorldOutput (bytes : List UInt8) : Prop :=
  (∃ worlds list, formatWorldList worlds = some list ∧ asBytes list <:+: bytes) ∨
    ∃ name, asBytes ("\r\n" ++ replace worldSelectedTemplate "{world}" name) <:+: bytes

theorem header_infix_worldList {worlds : List WorldMetadata} {list : String}
    (h : formatWorldList worlds = some list) : asBytes worldsHeader <:+: asBytes list := by
  obtain ⟨rows, _, rfl⟩ := Option.map_eq_some_iff.mp h
  rw [String.append_assoc, asBytes_append]
  exact (List.prefix_append _ _).isInfix

theorem replace_worldSelected (name : String) :
    replace worldSelectedTemplate "{world}" name =
      "In v0.1, you would now be in " ++ (name ++ ". Disconnecting.\r\n") := by
  apply String.toList_injective
  rw [replace, String.toList_ofList, String.toList_append, String.toList_append]
  rfl

theorem selected_infix_goodbye (name : String) :
    asBytes "In v0.1, you would now be in " <:+:
      asBytes ("\r\n" ++ replace worldSelectedTemplate "{world}" name) := by
  rw [replace_worldSelected, asBytes_append, asBytes_append]
  exact List.infix_append' _ _ _

theorem not_worldOutput_of_open {bytes : List UInt8} (h : bytes ∈ openTexts) :
    ¬ WorldOutput bytes := by
  have hopen : ∀ text ∈ openTexts, ¬ asBytes worldsHeader <:+: text ∧
      ¬ asBytes "In v0.1, you would now be in " <:+: text := by decide +kernel
  rintro (⟨worlds, list, hlist, hinfix⟩ | ⟨name, hgoodbye⟩)
  · exact (hopen bytes h).1 ((header_infix_worldList hlist).trans hinfix)
  · exact (hopen bytes h).2 ((selected_infix_goodbye name).trans hgoodbye)

end Connection

end Liaozhai.Net
