import Liaozhai.Auth.Store
import Liaozhai.Net.Dialogue
import Liaozhai.Net.TypedLines
import Liaozhai.Net.WorldList

/-!
# Accounts that can log in

`account create` and the prompts of a connection each have their own rules for
names and passwords. An account can log in when the two agree about it.
-/

namespace Liaozhai.Server

open Auth Codec Net
open Constants (maxLineLength maxBufferSize)
open Net.Dialogue (LogsIn begin lineItem standing)
open RustString (trim)
open Utf8Lossy (asBytes fromUtf8Lossy)
set_option autoImplicit false

universe u v

variable {Hash : Type u} {Salt : Type v} (argon2 : Argon2 Hash Salt)

/-- `AccountAction::Create`. -/
def create (store : AccountStore Hash) (username password confirm : String) (salt : Salt)
    (id : AccountId) (now : Int) : Except String (AccountStore Hash × Account) :=
  let username := trim username
  if username = "" then .error "Username cannot be empty."
  else if password ≠ confirm then .error "Passwords do not match."
  else if password = "" then .error "Password cannot be empty."
  else store.createAccount argon2 username password salt id now

variable {argon2} {store store' : AccountStore Hash} {username password confirm : String}
  {salt : Salt} {id : AccountId} {now : Int} {account : Account}

theorem create_ok
    (h : create argon2 store username password confirm salt id now = .ok (store', account)) :
    trim username ≠ "" ∧ password ≠ "" ∧
      store.createAccount argon2 (trim username) password salt id now = .ok (store', account) := by
  simp only [create] at h
  split_ifs at h with hname hconfirm hpassword
  exact ⟨hname, hpassword, h⟩

/-- What can be typed as one line. -/
def OneLine (text : String) : Prop :=
  '\r' ∉ text.toList ∧ '\n' ∉ text.toList ∧ (asBytes text).length ≤ maxLineLength

instance (text : String) : Decidable (OneLine text) :=
  inferInstanceAs (Decidable (_ ∧ _ ∧ _))

/-- LF, CR LF or CR. -/
def lineEnds : List (List UInt8) := [[LF], [CR, LF], [CR]]

theorem OneLine.plain {text : String} (h : OneLine text) : Lines.Plain (asBytes text) :=
  ⟨fun hmem => h.2.1 (Utf8Lossy.ascii_mem_asBytes hmem (by decide) rfl),
    fun hmem => h.1 (Utf8Lossy.ascii_mem_asBytes hmem (by decide) rfl)⟩

theorem asBytes_ne_nil {text : String} (h : text ≠ "") : asBytes text ≠ [] := by
  intro hnil
  have hempty := Utf8Lossy.fromUtf8Lossy_eq_empty.mpr hnil
  rw [Utf8Lossy.fromUtf8Lossy_asBytes] at hempty
  exact h hempty

theorem terminator_of_mem {t rest : List UInt8} (ht : t ∈ lineEnds) (hrest : rest.head? ≠ some LF) :
    Lines.Terminator t rest := by
  simp only [lineEnds, List.mem_cons, List.not_mem_nil, or_false] at ht
  rcases ht with rfl | rfl | rfl
  · exact .lf rest
  · exact .crLf rest
  · exact .cr hrest

theorem length_le_of_mem_lineEnds {t : List UInt8} (ht : t ∈ lineEnds) : t.length ≤ 2 := by
  simp only [lineEnds, List.mem_cons, List.not_mem_nil, or_false] at ht
  rcases ht with rfl | rfl | rfl
  all_goals decide

theorem iac_notMem_lineEnd {t : List UInt8} (ht : t ∈ lineEnds) : IAC ∉ t := by
  simp only [lineEnds, List.mem_cons, List.not_mem_nil, or_false] at ht
  rcases ht with rfl | rfl | rfl
  all_goals decide

/-- The items of a client that types a name and a password. -/
theorem deliver_credentials (hu : OneLine username) (hu' : username ≠ "") (hp : OneLine password)
    (hp' : password ≠ "") {t t' : List UInt8} (ht : t ∈ lineEnds) (ht' : t' ∈ lineEnds)
    {reads : List (List UInt8)}
    (hreads : reads.flatten = asBytes username ++ (t ++ (asBytes password ++ t'))) :
    ∃ m n, (decoder fromUtf8Lossy).deliver .new reads =
      lineItem username :: (List.replicate m (lineItem "") ++
        lineItem password :: List.replicate n (lineItem "")) := by
  have hhead : (asBytes password ++ (t' ++ [])).head? ≠ some LF := by
    rw [List.head?_append_of_ne_nil _ (asBytes_ne_nil hp')]
    intro hlf
    exact hp.plain.1 (List.mem_of_mem_head? hlf)
  have hiac : IAC ∉ reads.flatten := by
    rw [hreads]
    simp only [List.mem_append, not_or]
    exact ⟨fun h => Utf8Lossy.byte_ne_of_mem_asBytes h rfl, iac_notMem_lineEnd ht,
      fun h => Utf8Lossy.byte_ne_of_mem_asBytes h rfl, iac_notMem_lineEnd ht'⟩
  have hbuf : reads.flatten.length ≤ maxBufferSize := by
    have htwo := length_le_of_mem_lineEnds ht
    have htwo' := length_le_of_mem_lineEnds ht'
    have hulen := hu.2.2
    have hplen := hp.2.2
    rw [hreads]
    simp only [List.length_append, maxLineLength, maxBufferSize] at hulen hplen ⊢
    omega
  obtain ⟨m, n, hitems⟩ := deliver_typed ⟨hu.plain, asBytes_ne_nil hu'⟩
    ⟨hp.plain, asBytes_ne_nil hp'⟩ (terminator_of_mem ht hhead) (terminator_of_mem ht' (by simp))
    (by rw [hreads, List.append_nil]) hiac hbuf hu.2.2 hp.2.2
  rw [Utf8Lossy.fromUtf8Lossy_asBytes, Utf8Lossy.fromUtf8Lossy_asBytes] at hitems
  exact ⟨m, n, hitems⟩

section Prompts
variable {ctx : SessionContext} {verify : String → String → Option Account} {session : Session}
  {failures lines : Nat} {inbox : List Item}

/-- A name that ends no session brings the dialogue to the password prompt. -/
theorem logsIn_username (hstate : session.state = .authenticating none)
    (hname : trim username ≠ "") (m : Nat) :
    LogsIn ctx verify account (standing .waiting session failures lines
        (lineItem username :: (List.replicate m (lineItem "") ++ inbox))) ↔
      isSessionTerminator username = false ∧
        LogsIn ctx verify account (standing .waiting
          (session.apply (.authenticating (some (trim username)))) failures (lines + 1 + m)
          inbox) := by
  have hother : session.state ≠ .worldSelection account := by
    intro h
    rw [hstate] at h
    cases h
  cases hquit : isSessionTerminator username with
  | true =>
    simp only [Bool.true_eq_false, false_and, iff_false]
    exact Dialogue.not_logsIn_disconnect hother (Session.handleInput_terminator hquit)
  | false =>
    have hadvance : session.handleInput username =
        .advance (.authenticating (some (trim username))) Constants.passwordPrompt := by
      rw [Session.handleInput, hstate]
      simp [Session.handleUsernameInput, hquit, hname]
    rw [Dialogue.logsIn_advance hother hadvance]
    simp only [true_and]
    have hother' : (session.apply (.authenticating (some (trim username)))).state ≠
        .worldSelection account := by
      intro h
      cases h
    exact Dialogue.logsIn_blanks hother' ⟨_, rfl⟩ m

/-- A password opens the account when it is the very one that the hash was made
from and ends no session, and the worlds can be listed. -/
theorem logsIn_password {name : String} (hstate : session.state = .authenticating (some name))
    (hpassword : password ≠ "")
    (hverify : ∀ guess, verify name guess = if guess = password then some account else none)
    (n : Nat) :
    LogsIn ctx verify account (standing .waiting session failures lines
        (lineItem password :: List.replicate n (lineItem ""))) ↔
      isSessionTerminator password = false ∧ trim password = password ∧
        (formatWorldList session.registry.worlds).isSome = true := by
  have hother : session.state ≠ .worldSelection account := by
    rw [hstate]
    exact nofun
  -- what is left of the inbox brings no login
  have hrest : ∀ {session' : Session} {failures' lines'},
      (∃ name, session'.state = .authenticating name) →
        ¬ LogsIn ctx verify account
          (standing .waiting session' failures' lines' (List.replicate n (lineItem ""))) := by
    rintro session' failures' lines' ⟨name, hname⟩
    have hother' : session'.state ≠ .worldSelection account := by
      rw [hname]
      exact nofun
    rw [← List.append_nil (List.replicate n _), Dialogue.logsIn_blanks hother' ⟨name, hname⟩]
    exact Dialogue.not_logsIn_nil hother'
  cases hquit : isSessionTerminator password with
  | true =>
    simp only [Bool.true_eq_false, false_and, iff_false]
    exact Dialogue.not_logsIn_disconnect hother (Session.handleInput_terminator hquit)
  | false =>
    simp only [true_and]
    by_cases hempty : trim password = ""
    · have hstay : session.handleInput password =
          .stay (Constants.emptyPasswordMsg ++ Constants.passwordPrompt) := by
        have hblank : isSessionTerminator "" = false := rfl
        rw [Session.handleInput, hstate]
        simp [Session.handlePasswordInput, hempty, hblank]
      rw [Dialogue.logsIn_stay hother hstay, hempty]
      exact iff_of_false (hrest ⟨_, hstate⟩) fun h => hpassword h.1.symm
    · have hpending : session.handleInput password = .authPending name (trim password) := by
        rw [Session.handleInput, hstate]
        simp [Session.handlePasswordInput, hquit, hempty]
      by_cases htrim : trim password = password
      · have hright := hverify (trim password)
        rw [if_pos htrim] at hright
        exact (Dialogue.logsIn_verified hother hpending hright).trans (and_iff_right htrim).symm
      · have hwrong := hverify (trim password)
        rw [if_neg htrim] at hwrong
        exact iff_of_false
          (fun hlogs => hrest ⟨none, rfl⟩ (Dialogue.logsIn_refused hother hpending hwrong hlogs))
          fun h => htrim h.1

end Prompts

/-- An account that was created logs in, with the line of its name and the line of
its password, if and only if neither is a word that ends a session, the password has
no white space at its ends, and no world has a name that is too long to be padded. -/
theorem created_logsIn_iff (hargon : argon2.Exact)
    (hcreate : create argon2 store username password confirm salt id now = .ok (store', account))
    (hu : OneLine username) (hp : OneLine password) (ctx : SessionContext)
    {t t' : List UInt8} (ht : t ∈ lineEnds) (ht' : t' ∈ lineEnds) {reads : List (List UInt8)}
    (hreads : reads.flatten = asBytes username ++ (t ++ (asBytes password ++ t'))) :
    LogsIn ctx (store'.verifyCredentials argon2) account
        (begin ctx ((decoder fromUtf8Lossy).deliver .new reads)) ↔
      isSessionTerminator username = false ∧ isSessionTerminator password = false ∧
        trim password = password ∧
        ∀ world ∈ ctx.worldRegistry.worlds, world.name.utf8ByteSize ≤ 65534 := by
  obtain ⟨hname, hpassword, hcreate⟩ := create_ok hcreate
  have hu' : username ≠ "" := by
    rintro rfl
    exact hname rfl
  obtain ⟨m, n, hitems⟩ := deliver_credentials hu hu' hp hpassword ht ht' hreads
  rw [hitems, Dialogue.logsIn_begin, logsIn_username rfl hname,
    logsIn_password rfl hpassword (AccountStore.createAccount_verify hargon hcreate),
    WorldList.isSome_formatWorldList]
  rfl

/-- A hash function that keeps the password. -/
def keeping : Argon2 String Unit := ⟨fun password _ => .ok password, fun guess hash => guess == hash⟩

theorem keeping_exact : keeping.Exact := by
  rintro password salt hash ⟨⟩ guess
  exact beq_iff_eq

def typedLines (username password : String) : List UInt8 :=
  asBytes username ++ ([CR, LF] ++ (asBytes password ++ [CR, LF]))

theorem created_logsIn_alice :
    LogsIn ⟨⟨[]⟩, 3⟩
      (AccountStore.verifyCredentials keeping ⟨[⟨1, "Alice", "s3 cret", 7, none⟩], "dummy"⟩)
      ⟨1, "Alice", 7, none⟩
      (begin ⟨⟨[]⟩, 3⟩ ((decoder fromUtf8Lossy).deliver .new [typedLines " Alice" "s3 cret"])) := by
  have hcreate : create keeping ⟨[], "dummy"⟩ " Alice" "s3 cret" "s3 cret" () 1 7 =
      .ok (⟨[⟨1, "Alice", "s3 cret", 7, none⟩], "dummy"⟩, ⟨1, "Alice", 7, none⟩) := by rfl
  have hend : [CR, LF] ∈ lineEnds := by decide
  have hreads : [typedLines " Alice" "s3 cret"].flatten =
      asBytes " Alice" ++ ([CR, LF] ++ (asBytes "s3 cret" ++ [CR, LF])) := List.flatten_singleton
  have hiff := created_logsIn_iff keeping_exact hcreate (by decide +kernel) (by decide +kernel)
    ⟨⟨[]⟩, 3⟩ hend hend hreads
  exact hiff.mpr (by decide +kernel)

/-- An account named like a word that ends a session. -/
theorem quit_never_logs_in :
    ∃ store' account, keeping.Exact ∧
      create keeping ⟨[], "dummy"⟩ "quit" "secret" "secret" () 1 7 = .ok (store', account) ∧
      OneLine "quit" ∧ OneLine "secret" ∧
      ¬ LogsIn ⟨⟨[]⟩, 3⟩ (store'.verifyCredentials keeping) account
        (begin ⟨⟨[]⟩, 3⟩ ((decoder fromUtf8Lossy).deliver .new [typedLines "quit" "secret"])) := by
  refine ⟨⟨[⟨1, "quit", "secret", 7, none⟩], "dummy"⟩, ⟨1, "quit", 7, none⟩, keeping_exact, by rfl,
    by decide +kernel, by decide +kernel, ?_⟩
  have hitems : (decoder fromUtf8Lossy).deliver .new [typedLines "quit" "secret"] =
      [lineItem "quit", lineItem "secret"] := by decide +kernel
  rw [hitems, Dialogue.logsIn_begin]
  exact Dialogue.not_logsIn_disconnect nofun (Session.handleInput_terminator rfl)

end Liaozhai.Server
