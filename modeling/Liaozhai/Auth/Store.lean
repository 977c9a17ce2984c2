import Liaozhai.Library.RustString

/-!
# The account store

The table of accounts and the calls on it. The hash function stays abstract: a
hash is made from a password and a salt, and a password is verified against it.
The column `username` is UNIQUE and compares without ASCII case.
-/

namespace Liaozhai.Auth

open RustString (toAsciiLowercase)
set_option autoImplicit false

universe u v

/-- A UUID. -/
abbrev AccountId := BitVec 128

structure Account where
  id : AccountId
  username : String
  createdAt : Int
  lastLoginAt : Option Int
  deriving DecidableEq, Repr

/-- `generate_hash` for some parameters, and `verify_password`. -/
structure Argon2 (Hash : Type u) (Salt : Type v) where
  hashPassword : String → Salt → Except String Hash
  verifyPassword : String → Hash → Bool

/-- A hash of a password verifies that password and no other. -/
def Argon2.Exact {Hash : Type u} {Salt : Type v} (argon2 : Argon2 Hash Salt) : Prop :=
  ∀ password salt hash, argon2.hashPassword password salt = .ok hash →
    ∀ guess, argon2.verifyPassword guess hash = true ↔ guess = password

structure Row (Hash : Type u) where
  id : AccountId
  username : String
  passwordHash : Hash
  createdAt : Int
  lastLoginAt : Option Int

def Row.account {Hash : Type u} (row : Row Hash) : Account :=
  ⟨row.id, row.username, row.createdAt, row.lastLoginAt⟩

/-- Equality under `COLLATE NOCASE`. -/
def sameUsername (a b : String) : Bool := toAsciiLowercase a == toAsciiLowercase b

structure AccountStore (Hash : Type u) where
  rows : List (Row Hash)
  dummyHash : Hash

namespace AccountStore
variable {Hash : Type u} {Salt : Type v} (argon2 : Argon2 Hash Salt)

/-- `SELECT … WHERE username = ?1`. -/
def find (store : AccountStore Hash) (username : String) : Option (Row Hash) :=
  store.rows.find? fun row => sameUsername row.username username

/-- `INSERT`, with the constraints on `id` and `username`. -/
def createAccount (store : AccountStore Hash) (username password : String) (salt : Salt)
    (id : AccountId) (now : Int) : Except String (AccountStore Hash × Account) :=
  match argon2.hashPassword password salt with
  | .error e => .error e
  | .ok hash =>
    if store.rows.any fun row => row.id == id || sameUsername row.username username then
      .error ("Account '" ++ username ++ "' already exists")
    else
      let row : Row Hash := ⟨id, username, hash, now, none⟩
      .ok ({ store with rows := store.rows ++ [row] }, row.account)

/-- One verification in either case, against the stored hash or the dummy one. -/
def verifyCredentials (store : AccountStore Hash) (username password : String) : Option Account :=
  match store.find username with
  | some row => if argon2.verifyPassword password row.passwordHash then some row.account else none
  | none =>
    let _ := argon2.verifyPassword password store.dummyHash
    none

def recordLogin (store : AccountStore Hash) (id : AccountId) (now : Int) : AccountStore Hash :=
  { store with rows := store.rows.map fun row =>
      if row.id = id then { row with lastLoginAt := some now } else row }

/-- `SELECT … ORDER BY username`. -/
def listAccounts (store : AccountStore Hash) : List Account :=
  (store.rows.mergeSort fun a b =>
    decide (toAsciiLowercase a.username ≤ toAsciiLowercase b.username)).map Row.account

variable {argon2} {store store' : AccountStore Hash} {username password : String} {salt : Salt}
  {id : AccountId} {now : Int} {account : Account}

theorem sameUsername_self (username : String) : sameUsername username username = true :=
  beq_self_eq_true _

/-- The row of a new account is the one that its username finds. -/
theorem createAccount_find
    (h : store.createAccount argon2 username password salt id now = .ok (store', account)) :
    ∃ row, store'.find username = some row ∧ row.account = account ∧
      argon2.hashPassword password salt = .ok row.passwordHash := by
  unfold createAccount at h
  split at h
  · cases h
  · rename_i hash hhash
    split at h
    · cases h
    · rename_i hfree
      obtain ⟨rfl, rfl⟩ := Prod.mk.inj (Except.ok.inj h)
      refine ⟨⟨id, username, hash, now, none⟩, ?_, rfl, hhash⟩
      have hbefore : store.rows.find? (fun row => sameUsername row.username username) = none := by
        rw [List.find?_eq_none]
        intro row hrow hsame
        apply hfree
        rw [List.any_eq_true]
        exact ⟨row, hrow, by simp [hsame]⟩
      rw [find, List.find?_append, hbefore, Option.none_or, List.find?_singleton, if_pos]
      exact sameUsername_self username

/-- A new account is opened by its own password only. -/
theorem createAccount_verify (hargon : argon2.Exact)
    (h : store.createAccount argon2 username password salt id now = .ok (store', account))
    (guess : String) :
    store'.verifyCredentials argon2 username guess =
      if guess = password then some account else none := by
  obtain ⟨row, hfind, rfl, hhash⟩ := createAccount_find h
  simp only [verifyCredentials, hfind, hargon password salt row.passwordHash hhash guess]

end AccountStore

end Liaozhai.Auth
