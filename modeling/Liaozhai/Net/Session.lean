import Liaozhai.Core.Constants
import Liaozhai.Auth.Store
import Liaozhai.Worlds.Registry

/-!
# The session

The pure state machine of one connection: username, password, world selection.
A line of input gives a transition; the connection handler writes its output and
applies it. Credentials are checked outside, and `complete_auth` takes the result.
-/

namespace Liaozhai.Net

open Auth Constants RustString Worlds
set_option autoImplicit false

inductive SessionState where
  | authenticating (username : Option String)
  | worldSelection (account : Account)
  deriving DecidableEq, Repr

inductive Transition where
  | stay (output : String)
  | advance (next : SessionState) (output : String)
  | disconnect (goodbye : String)
  | authPending (username password : String)
  deriving DecidableEq, Repr

structure Session where
  state : SessionState
  registry : WorldRegistry
  deriving DecidableEq, Repr

def isSessionTerminator (line : String) : Bool :=
  toAsciiLowercase (trim line) ∈ ["quit", "exit", "bye", "disconnect"]

/-- One row per world: number, padded name and description. The width of the name
column is a number of bytes, the padding counts characters. -/
def formatRow (nameWidth : Nat) (world : WorldMetadata) (num : Nat) : Option String :=
  (padRight world.name nameWidth).map fun name =>
    "  " ++ toString num ++ ". " ++ name ++ world.shortDescription ++ "\r\n"

def nameWidth (worlds : List WorldMetadata) : Nat :=
  (worlds.map fun w => w.name.utf8ByteSize).foldl max 0 + 1

/-- Without a list when a row panics. -/
def formatWorldList (worlds : List WorldMetadata) : Option String :=
  (worlds.zipIdx.mapM fun (w, i) => formatRow (nameWidth worlds) w (i + 1)).map fun rows =>
    worldsHeader ++ "\r\n" ++ String.join rows

def formatWorldSelectPrompt (count : Nat) : String :=
  replace worldSelectPromptTemplate "{n}" (toString count)

namespace Session

def new (registry : WorldRegistry) : Session := ⟨.authenticating none, registry⟩

def initialPrompt : String := usernamePrompt

def handleUsernameInput (input : String) : Transition :=
  let trimmed := trim input
  if isSessionTerminator trimmed then .disconnect goodbyeMsg
  else if trimmed = "" then .stay (emptyUsernameMsg ++ usernamePrompt)
  else .advance (.authenticating (some trimmed)) passwordPrompt

def handlePasswordInput (username input : String) : Transition :=
  let trimmed := trim input
  if isSessionTerminator trimmed then .disconnect goodbyeMsg
  else if trimmed = "" then .stay (emptyPasswordMsg ++ passwordPrompt)
  else .authPending username trimmed

def handleWorldSelectionInput (session : Session) (input : String) : Transition :=
  let trimmed := trim input
  let count := session.registry.len
  if isSessionTerminator trimmed then .disconnect goodbyeMsg
  else if trimmed = "" then
    .stay (worldSelectionNonNumericMsg ++ formatWorldSelectPrompt count)
  else
    match parseUsize trimmed with
    | some n =>
      match session.registry.getByPosition n with
      | some world => .disconnect ("\r\n" ++ replace worldSelectedTemplate "{world}" world.name)
      | none =>
        .stay (replace worldSelectionOutOfRangeMsg "{n}" (toString count) ++
          formatWorldSelectPrompt count)
    | none => .stay (worldSelectionNonNumericMsg ++ formatWorldSelectPrompt count)

def handleInput (session : Session) (input : String) : Transition :=
  match session.state with
  | .authenticating none => handleUsernameInput input
  | .authenticating (some name) => handlePasswordInput name input
  | .worldSelection _ => session.handleWorldSelectionInput input

def apply (session : Session) (next : SessionState) : Session := { session with state := next }

def isPasswordInput (session : Session) : Bool :=
  match session.state with
  | .authenticating (some _) => true
  | _ => false

/-- Without a transition when the list of worlds panics. -/
def completeAuth (session : Session) (authResult : Option Account) : Option Transition :=
  match authResult with
  | some account =>
    let welcome := replace welcomeTemplate "{username}" account.username
    (formatWorldList session.registry.worlds).map fun worldList =>
      let selectPrompt := formatWorldSelectPrompt session.registry.len
      .advance (.worldSelection account) (welcome ++ worldList ++ "\r\n" ++ selectPrompt)
  | none => some (.advance (.authenticating none) (authFailedMsg ++ usernamePrompt))

variable {session : Session} {username : String} {account : Account}

@[simp] theorem isSessionTerminator_trim (line : String) :
    isSessionTerminator (trim line) = isSessionTerminator line := by
  rw [isSessionTerminator, trim_trim]
  rfl

/-- The words that end a session do so at every prompt. -/
theorem handleInput_terminator {line : String} (h : isSessionTerminator line = true) :
    session.handleInput line = .disconnect goodbyeMsg := by
  rw [handleInput]
  split
  · simp [handleUsernameInput, h]
  · simp [handlePasswordInput, h]
  · simp [handleWorldSelectionInput, h]

/-- A line at the username prompt quits, asks again or names the account. -/
theorem handleInput_username (h : session.state = .authenticating none) (line : String) :
    session.handleInput line = .disconnect goodbyeMsg ∨
      session.handleInput line = .stay (emptyUsernameMsg ++ usernamePrompt) ∨
      trim line ≠ "" ∧
        session.handleInput line = .advance (.authenticating (some (trim line))) passwordPrompt := by
  rw [handleInput, h]
  simp only [handleUsernameInput]
  split_ifs with hquit hempty
  · exact .inl rfl
  · exact .inr (.inl rfl)
  · exact .inr (.inr ⟨hempty, rfl⟩)

/-- A line at the password prompt quits, asks again or completes the credentials. -/
theorem handleInput_password (h : session.state = .authenticating (some username))
    (line : String) :
    session.handleInput line = .disconnect goodbyeMsg ∨
      session.handleInput line = .stay (emptyPasswordMsg ++ passwordPrompt) ∨
      trim line ≠ "" ∧ session.handleInput line = .authPending username (trim line) := by
  rw [handleInput, h]
  simp only [handlePasswordInput]
  split_ifs with hquit hempty
  · exact .inl rfl
  · exact .inr (.inl rfl)
  · exact .inr (.inr ⟨hempty, rfl⟩)

/-- A line at the world prompt asks again or ends the session. -/
theorem handleInput_world (h : session.state = .worldSelection account) (line : String) :
    (∃ output, session.handleInput line = .stay output) ∨
      ∃ goodbye, session.handleInput line = .disconnect goodbye := by
  rw [handleInput, h]
  simp only [handleWorldSelectionInput]
  split_ifs with hquit hempty
  · exact .inr ⟨_, rfl⟩
  · exact .inl ⟨_, rfl⟩
  · split
    · split
      · exact .inr ⟨_, rfl⟩
      · exact .inl ⟨_, rfl⟩
    · exact .inl ⟨_, rfl⟩

/-- Credentials are made up by a line at the password prompt that neither quits nor
is empty. -/
theorem handleInput_eq_authPending {line password : String}
    (h : session.handleInput line = .authPending username password) :
    session.state = .authenticating (some username) ∧ trim line ≠ "" ∧
      isSessionTerminator line = false ∧ password = trim line := by
  have hquit : isSessionTerminator line = false := by
    cases hquit : isSessionTerminator line with
    | false => rfl
    | true =>
      rw [handleInput_terminator hquit] at h
      cases h
  cases hstate : session.state with
  | authenticating named =>
    cases named with
    | none =>
      rcases handleInput_username hstate line with hline | hline | ⟨_, hline⟩
      · cases h.symm.trans hline
      · cases h.symm.trans hline
      · cases h.symm.trans hline
    | some name =>
      rcases handleInput_password hstate line with hline | hline | ⟨hne, hline⟩
      · cases h.symm.trans hline
      · cases h.symm.trans hline
      · cases h.symm.trans hline
        exact ⟨rfl, hne, hquit, rfl⟩
  | worldSelection account =>
    rcases handleInput_world hstate line with ⟨output, hline⟩ | ⟨goodbye, hline⟩
    · cases h.symm.trans hline
    · cases h.symm.trans hline

theorem isPasswordInput_iff :
    session.isPasswordInput = true ↔ ∃ username, session.state = .authenticating (some username) := by
  rw [isPasswordInput]
  split
  · rename_i username h
    exact ⟨fun _ => ⟨username, h⟩, fun _ => rfl⟩
  · rename_i h
    constructor
    · intro hfalse
      cases hfalse
    · rintro ⟨username, husername⟩
      exact absurd husername (h username)

end Session

end Liaozhai.Net
