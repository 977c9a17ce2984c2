import Liaozhai.Auth.Store
import Liaozhai.Library.Machine

/-!
# The work of a verification

One database and the stores that are opened on it, each with its own argon2
parameters. A stored hash carries the parameters of the store that created the
account, the dummy hash those of the store that verifies.
-/

namespace Liaozhai.Auth

set_option autoImplicit false

universe u v

structure Argon2Params where
  mCost : Nat
  tCost : Nat
  pCost : Nat
  deriving DecidableEq, Repr

/-- The hash functions by their parameters, and the parameters that a hash carries:
`verify_password` takes them from there. -/
structure PasswordHasher (Hash : Type u) (Salt : Type v) where
  hashPassword : Argon2Params → String → Salt → Except String Hash
  verifyPassword : String → Hash → Bool
  params : Hash → Argon2Params

structure OpenStore (Hash : Type u) where
  params : Argon2Params
  dummyHash : Hash

structure Database (Hash : Type u) where
  rows : List (Row Hash)
  stores : List (OpenStore Hash)

inductive DatabaseCall (Salt : Type v) where
  | opened (params : Argon2Params) (salt : Salt)
  | createAccount (index : Nat) (username password : String) (salt : Salt) (id : AccountId)
      (now : Int)

namespace PasswordHasher
variable {Hash : Type u} {Salt : Type v} (hasher : PasswordHasher Hash Salt)

def withParams (params : Argon2Params) : Argon2 Hash Salt :=
  ⟨hasher.hashPassword params, hasher.verifyPassword⟩

/-- A hash carries the parameters it was made with. -/
def Carries : Prop :=
  ∀ params password salt hash, hasher.hashPassword params password salt = .ok hash →
    hasher.params hash = params

/-- `verify_credentials` with the parameters of the argon2 verifications it runs. -/
def verifyCredentials (store : AccountStore Hash) (username password : String) :
    List Argon2Params × Option Account :=
  match store.find username with
  | some row =>
    ([hasher.params row.passwordHash],
      if hasher.verifyPassword password row.passwordHash then some row.account else none)
  | none => ([hasher.params store.dummyHash], none)

theorem verifyCredentials_snd (store : AccountStore Hash) (username password : String)
    (params : Argon2Params) :
    (hasher.verifyCredentials store username password).2 =
      store.verifyCredentials (hasher.withParams params) username password := by
  unfold verifyCredentials AccountStore.verifyCredentials
  cases store.find username with
  | some row => rfl
  | none => rfl

end PasswordHasher

namespace Database
variable {Hash : Type u} {Salt : Type v} (hasher : PasswordHasher Hash Salt)

def empty : Database Hash := ⟨[], []⟩

/-- What a store sees of the database. -/
def view (db : Database Hash) (store : OpenStore Hash) : AccountStore Hash :=
  ⟨db.rows, store.dummyHash⟩

def step (db : Database Hash) : DatabaseCall Salt → Option (Database Hash)
  | .opened params salt =>
    match hasher.hashPassword params "dummy_password_for_timing" salt with
    | .ok dummyHash => some { db with stores := db.stores ++ [⟨params, dummyHash⟩] }
    | .error _ => some db
  | .createAccount index username password salt id now =>
    (db.stores[index]?).map fun store =>
      match (db.view store).createAccount (hasher.withParams store.params) username password salt id
          now with
      | .ok (store', _) => { db with rows := store'.rows }
      | .error _ => db

def run : Database Hash → List (DatabaseCall Salt) → Option (Database Hash) :=
  Machine.run (step hasher)

variable {hasher} {db db' : Database Hash} {call : DatabaseCall Salt}
  {calls : List (DatabaseCall Salt)} {row : Row Hash} {params : Argon2Params}

/-- The row was inserted by a call on a store with these parameters. -/
def CreatedWith (hasher : PasswordHasher Hash Salt) (calls : List (DatabaseCall Salt))
    (row : Row Hash) (params : Argon2Params) : Prop :=
  ∃ pre index password salt post db store,
    calls = pre ++ .createAccount index row.username password salt row.id row.createdAt :: post ∧
      run hasher empty pre = some db ∧ db.stores[index]? = some store ∧ store.params = params ∧
      hasher.hashPassword params password salt = .ok row.passwordHash

theorem CreatedWith.later (h : CreatedWith hasher calls row params) (call : DatabaseCall Salt) :
    CreatedWith hasher (calls ++ [call]) row params := by
  obtain ⟨pre, index, password, salt, post, db, store, rfl, hrest⟩ := h
  refine ⟨pre, index, password, salt, post ++ [call], db, store, ?_, hrest⟩
  rw [List.append_assoc, List.cons_append]

/-- A row carries the parameters it was created with. -/
theorem CreatedWith.params_eq (hcarries : hasher.Carries)
    (h : CreatedWith hasher calls row params) : hasher.params row.passwordHash = params := by
  obtain ⟨_, _, password, salt, _, _, _, _, _, _, _, hhash⟩ := h
  exact hcarries params password salt row.passwordHash hhash

/-- What holds of the database after some calls. -/
structure Kept (hasher : PasswordHasher Hash Salt) (calls : List (DatabaseCall Salt))
    (db : Database Hash) : Prop where
  created : ∀ row ∈ db.rows, ∃ params, CreatedWith hasher calls row params
  dummy : ∀ store ∈ db.stores, ∃ salt,
    hasher.hashPassword store.params "dummy_password_for_timing" salt = .ok store.dummyHash

theorem kept_opened {salt : Salt} (h : Kept hasher calls db)
    (hstep : step hasher db (.opened params salt) = some db') :
    Kept hasher (calls ++ [.opened params salt]) db' := by
  simp only [step] at hstep
  split at hstep
  · rename_i dummyHash hhash
    cases hstep
    refine ⟨?_, ?_⟩
    · intro row hrow
      obtain ⟨params', hcreated⟩ := h.created row hrow
      exact ⟨params', hcreated.later _⟩
    · intro store hstore
      rcases List.mem_append.mp hstore with hstore | hstore
      · exact h.dummy store hstore
      · obtain rfl := List.mem_singleton.mp hstore
        exact ⟨salt, hhash⟩
  · cases hstep
    refine ⟨?_, h.dummy⟩
    intro row hrow
    obtain ⟨params', hcreated⟩ := h.created row hrow
    exact ⟨params', hcreated.later _⟩

theorem kept_createAccount {index : Nat} {username password : String} {salt : Salt}
    {id : AccountId} {now : Int} (hrun : run hasher empty calls = some db)
    (h : Kept hasher calls db)
    (hstep : step hasher db (.createAccount index username password salt id now) = some db') :
    Kept hasher (calls ++ [.createAccount index username password salt id now]) db' := by
  obtain ⟨store, hstore, rfl⟩ := Option.map_eq_some_iff.mp hstep
  split
  · rename_i store' account hcreate
    unfold AccountStore.createAccount at hcreate
    split at hcreate
    · cases hcreate
    · rename_i hash hhash
      split at hcreate
      · cases hcreate
      · obtain ⟨rfl, rfl⟩ := Prod.mk.inj (Except.ok.inj hcreate)
        refine ⟨?_, h.dummy⟩
        intro row hrow
        rcases List.mem_append.mp hrow with hrow | hrow
        · obtain ⟨params', hcreated⟩ := h.created row hrow
          exact ⟨params', hcreated.later _⟩
        · obtain rfl := List.mem_singleton.mp hrow
          exact ⟨store.params, calls, index, password, salt, [], db, store, rfl, hrun, hstore, rfl,
            hhash⟩
  · refine ⟨?_, h.dummy⟩
    intro row hrow
    obtain ⟨params', hcreated⟩ := h.created row hrow
    exact ⟨params', hcreated.later _⟩

theorem kept_run (hrun : run hasher empty calls = some db) : Kept hasher calls db := by
  refine Machine.run_history (P := fun calls db => Kept hasher calls db) ?_ ?_ hrun
  · intro calls db call db' hbefore h hstep
    cases call with
    | opened params salt => exact kept_opened h hstep
    | createAccount index username password salt id now =>
      exact kept_createAccount hbefore h hstep
  · exact ⟨nofun, nofun⟩

/-- A wrong password for a known user and any password for an unknown one do the same
hashing work on an open store, if and only if the account was created with the
parameters of that store. Both are refused in any case. -/
theorem sameWork_iff (hcarries : hasher.Carries) (hrun : run hasher empty calls = some db)
    {store : OpenStore Hash} (hstore : store ∈ db.stores) {present absent wrong any : String}
    (hpresent : (db.view store).find present = some row)
    (habsent : (db.view store).find absent = none)
    (hwrong : hasher.verifyPassword wrong row.passwordHash = false) :
    ∃ params, CreatedWith hasher calls row params ∧
      ((hasher.verifyCredentials (db.view store) present wrong).1 =
          (hasher.verifyCredentials (db.view store) absent any).1 ↔ params = store.params) ∧
      (hasher.verifyCredentials (db.view store) present wrong).2 = none ∧
      (hasher.verifyCredentials (db.view store) absent any).2 = none := by
  have hkept := kept_run hrun
  obtain ⟨params, hcreated⟩ := hkept.created row (List.mem_of_find?_eq_some hpresent)
  obtain ⟨salt, hdummy⟩ := hkept.dummy store hstore
  have hknown : hasher.verifyCredentials (db.view store) present wrong = ([params], none) := by
    rw [PasswordHasher.verifyCredentials, hpresent]
    dsimp only
    rw [hwrong, hcreated.params_eq hcarries]
    rfl
  have hunknown : hasher.verifyCredentials (db.view store) absent any = ([store.params], none) := by
    rw [PasswordHasher.verifyCredentials, habsent]
    dsimp only
    rw [view, hcarries _ _ _ _ hdummy]
  refine ⟨params, hcreated, ?_, ?_, ?_⟩
  · rw [hknown, hunknown]
    exact List.singleton_inj
  · rw [hknown]
  · rw [hunknown]

/-- A hasher whose hashes are the parameters and the password in the clear. -/
def clear : PasswordHasher (Argon2Params × String) Unit where
  hashPassword params password _ := .ok (params, password)
  verifyPassword password hash := password = hash.2
  params hash := hash.1

theorem clear_carries : clear.Carries := by
  intro params password salt hash h
  obtain rfl := Except.ok.inj h
  rfl

def testFast : Argon2Params := ⟨256, 1, 1⟩

/-- An account is created, and the database is opened again with some parameters. -/
def reopened (params : Argon2Params) : List (DatabaseCall Unit) :=
  [.opened testFast (), .createAccount 0 "alice" "sceret" () 7 0, .opened params ()]

def storeWith (params : Argon2Params) : OpenStore (Argon2Params × String) :=
  ⟨params, (params, "dummy_password_for_timing")⟩

def aliceOnly (params : Argon2Params) : Database (Argon2Params × String) :=
  ⟨[⟨7, "alice", (testFast, "sceret"), 0, none⟩], [storeWith testFast, storeWith params]⟩

theorem run_reopened (params : Argon2Params) :
    run clear empty (reopened params) = some (aliceOnly params) := rfl

theorem sameWork_aliceOnly :
    (clear.verifyCredentials ((aliceOnly testFast).view (storeWith testFast)) "ALICE" "secert").1 =
      (clear.verifyCredentials ((aliceOnly testFast).view (storeWith testFast)) "bob" "secert").1 := by
  have hmem : storeWith testFast ∈ (aliceOnly testFast).stores := List.mem_cons_self
  have hwrong : clear.verifyPassword "secert" (testFast, "sceret") = false := by decide +kernel
  obtain ⟨params, hcreated, hiff, _⟩ := @sameWork_iff _ _ clear _ _ _ clear_carries
    (run_reopened testFast) _ hmem "ALICE" "bob" "secert" "secert" rfl rfl hwrong
  exact hiff.mpr (hcreated.params_eq clear_carries).symm

/-- With other parameters than the account was created with, the work is not the same. -/
theorem work_differs :
    run clear empty (reopened ⟨512, 2, 1⟩) = some (aliceOnly ⟨512, 2, 1⟩) ∧
      storeWith ⟨512, 2, 1⟩ ∈ (aliceOnly ⟨512, 2, 1⟩).stores ∧
      ¬ (clear.verifyCredentials ((aliceOnly ⟨512, 2, 1⟩).view (storeWith ⟨512, 2, 1⟩)) "alice"
            "secert").1 =
          (clear.verifyCredentials ((aliceOnly ⟨512, 2, 1⟩).view (storeWith ⟨512, 2, 1⟩)) "bob"
            "secert").1 := by
  refine ⟨rfl, List.mem_cons_of_mem _ List.mem_cons_self, ?_⟩
  decide +kernel

end Database

end Liaozhai.Auth
