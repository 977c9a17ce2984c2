import Liaozhai.Auth.Store
import Mathlib.Logic.Function.Basic

/-!
# A map of accounts

What the account store is for: a map from usernames without ASCII case to an
account and its password. An entry of the map is told from the calls alone: it is
the one of the first new account at its key, with the latest login since.
-/

namespace Liaozhai.Auth

open RustString (toAsciiLowercase)
set_option autoImplicit false

universe v

inductive StoreCall (Salt : Type v) where
  | createAccount (username password : String) (salt : Salt) (id : AccountId) (now : Int)
  | verifyCredentials (username password : String)
  | recordLogin (id : AccountId) (now : Int)
  | listAccounts

namespace StoreCall
variable {Salt : Type v}

/-- The UUID that the call draws. -/
def drawn? : StoreCall Salt → Option AccountId
  | .createAccount _ _ _ id _ => some id
  | _ => none

def drawn (history : List (StoreCall Salt)) : List AccountId := history.filterMap drawn?

def loginTime? (id : AccountId) : StoreCall Salt → Option Int
  | .recordLogin id' now => if id' = id then some now else none
  | _ => none

/-- The time of the latest login that was recorded for this id. -/
def latestLogin (id : AccountId) (history : List (StoreCall Salt)) : Option Int :=
  (history.filterMap (loginTime? id)).getLast?

theorem drawn_append_singleton (history : List (StoreCall Salt)) (now : StoreCall Salt) :
    drawn (history ++ [now]) = drawn history ++ now.drawn?.toList := by
  rw [drawn, List.filterMap_append]
  cases now with
  | createAccount | verifyCredentials | recordLogin | listAccounts => rfl

theorem latestLogin_append_singleton (id : AccountId) (history : List (StoreCall Salt))
    (now : StoreCall Salt) :
    latestLogin id (history ++ [now]) = (now.loginTime? id).or (latestLogin id history) := by
  rw [latestLogin, List.filterMap_append, List.getLast?_append, List.filterMap_cons]
  cases now.loginTime? id with
  | none => rfl
  | some time => rfl

/-- Without a login in the first part, only the second counts. -/
theorem latestLogin_append {id : AccountId} {pre : List (StoreCall Salt)}
    (hpre : ∀ now, .recordLogin id now ∉ pre) (post : List (StoreCall Salt)) :
    latestLogin id (pre ++ post) = latestLogin id post := by
  have hnone : pre.filterMap (loginTime? id) = [] := by
    apply List.filterMap_eq_nil_iff.mpr
    intro now hnow
    cases now with
    | recordLogin id' time =>
      apply if_neg
      intro heq
      exact hpre time (heq ▸ hnow)
    | createAccount | verifyCredentials | listAccounts => rfl
  rw [latestLogin, List.filterMap_append, hnone, List.nil_append]
  rfl

end StoreCall

/-- What the map has for a username. -/
structure Entry where
  account : Account
  password : String

/-- An entry after a call. -/
def Entry.next {Salt : Type v} (entry : Entry) : StoreCall Salt → Entry
  | .recordLogin id now =>
    if entry.account.id = id then
      { entry with account := { entry.account with lastLoginAt := some now } }
    else entry
  | _ => entry

theorem Entry.next_eq {Salt : Type v} (entry : Entry) (now : StoreCall Salt) :
    entry.next now =
      { entry with
        account := { entry.account with
          lastLoginAt := (now.loginTime? entry.account.id).or entry.account.lastLoginAt } } := by
  cases now with
  | recordLogin id time =>
    rw [next, StoreCall.loginTime?]
    by_cases hid : entry.account.id = id
    · rw [if_pos hid, if_pos hid.symm]
      rfl
    · rw [if_neg hid, if_neg (Ne.symm hid)]
      rfl
  | createAccount | verifyCredentials | listAccounts => rfl

/-- By the folded username. -/
abbrev AccountMap := String → Option Entry

namespace AccountMap
variable {Salt : Type v}

def next (map : AccountMap) : StoreCall Salt → AccountMap
  | .createAccount username password _ id now =>
    if map (toAsciiLowercase username) = none then
      Function.update map (toAsciiLowercase username) (some ⟨⟨id, username, now, none⟩, password⟩)
    else map
  | now => fun key => (map key).map (·.next now)

/-- The map that some calls make. -/
def after (history : List (StoreCall Salt)) : AccountMap := history.foldl next fun _ => none

variable {map : AccountMap} {history pre post : List (StoreCall Salt)} {now : StoreCall Salt}
  {key username password : String} {salt : Salt} {id : AccountId} {time : Int} {entry : Entry}

theorem after_append_singleton (history : List (StoreCall Salt)) (now : StoreCall Salt) :
    after (history ++ [now]) = (after history).next now :=
  List.foldl_concat next _ now history

/-- No call takes an entry away. -/
theorem next_of_some (h : map key = some entry) (now : StoreCall Salt) :
    map.next now key = some (entry.next now) := by
  cases now with
  | createAccount username password salt id time =>
    rw [next]
    split
    · rename_i hfree
      rw [Function.update_of_ne, h]
      · rfl
      · intro heq
        rw [heq, hfree] at h
        cases h
    · exact h
  | verifyCredentials | recordLogin | listAccounts => exact congrArg (Option.map _) h

/-- Only a new account makes one. -/
theorem next_of_none (h : map key = none) (hnext : map.next now key = some entry) :
    ∃ salt, now = .createAccount entry.account.username entry.password salt entry.account.id
        entry.account.createdAt ∧
      toAsciiLowercase entry.account.username = key ∧ entry.account.lastLoginAt = none := by
  cases now with
  | createAccount username password salt id time =>
    rw [next] at hnext
    split at hnext
    · by_cases hkey : key = toAsciiLowercase username
      · rw [hkey, Function.update_self] at hnext
        obtain rfl := Option.some.inj hnext
        exact ⟨salt, rfl, hkey.symm, rfl⟩
      · rw [Function.update_of_ne hkey, h] at hnext
        cases hnext
    · rw [h] at hnext
      cases hnext
  | verifyCredentials | recordLogin | listAccounts =>
    obtain ⟨entry', hentry', _⟩ := Option.map_eq_some_iff.mp hnext
    rw [h] at hentry'
    cases hentry'

/-- From a new account on, the map has its entry with the latest login. -/
theorem after_created (hkey : toAsciiLowercase username = key) (hfree : after pre key = none)
    (post : List (StoreCall Salt)) :
    after (pre ++ .createAccount username password salt id time :: post) key =
      some ⟨⟨id, username, time, StoreCall.latestLogin id post⟩, password⟩ := by
  induction post using List.reverseRecOn with
  | nil =>
    rw [after_append_singleton, next, hkey, if_pos hfree, Function.update_self]
    rfl
  | append_singleton post now ih =>
    rw [← List.cons_append, ← List.append_assoc, after_append_singleton, next_of_some ih,
      Entry.next_eq, StoreCall.latestLogin_append_singleton]

/-- What some calls put into the map stays there, up to its login time. -/
theorem after_of_prefix (h : after pre key = some entry) (hpre : pre <+: history) :
    ∃ login, after history key =
      some ⟨{ entry.account with lastLoginAt := login }, entry.password⟩ := by
  obtain ⟨post, rfl⟩ := hpre
  induction post using List.reverseRecOn with
  | nil =>
    rw [List.append_nil]
    exact ⟨entry.account.lastLoginAt, h⟩
  | append_singleton post now ih =>
    obtain ⟨login, hlogin⟩ := ih
    rw [← List.append_assoc, after_append_singleton, next_of_some hlogin, Entry.next_eq]
    exact ⟨_, rfl⟩

/-- An entry is that of the call that made it, with the latest login since. -/
theorem after_eq_some :
    after history key = some entry ↔
      ∃ pre salt post,
        history = pre ++ .createAccount entry.account.username entry.password salt entry.account.id
          entry.account.createdAt :: post ∧
        toAsciiLowercase entry.account.username = key ∧ after pre key = none ∧
        entry.account.lastLoginAt = StoreCall.latestLogin entry.account.id post := by
  constructor
  · intro h
    induction history using List.reverseRecOn generalizing entry with
    | nil => cases h
    | append_singleton history now ih =>
      rw [after_append_singleton] at h
      cases hbefore : after history key with
      | none =>
        obtain ⟨salt, rfl, hkey, hlogin⟩ := next_of_none hbefore h
        exact ⟨history, salt, [], rfl, hkey, hbefore, hlogin⟩
      | some entry' =>
        rw [next_of_some hbefore, Entry.next_eq] at h
        obtain rfl := Option.some.inj h
        obtain ⟨pre, salt, post, rfl, hkey, hfree, hlogin⟩ := ih hbefore
        refine ⟨pre, salt, post ++ [now], ?_, hkey, hfree, ?_⟩
        · rw [List.append_assoc, List.cons_append]
        · rw [StoreCall.latestLogin_append_singleton, ← hlogin]
  · intro hcreated
    obtain ⟨pre, salt, post, hhistory, hkey, hfree, hlogin⟩ := hcreated
    rw [hhistory, after_created hkey hfree, ← hlogin]

end AccountMap

end Liaozhai.Auth
