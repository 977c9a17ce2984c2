import Liaozhai.Auth.AccountMap
import Liaozhai.Library.Table
import Liaozhai.Library.Transducer
import Mathlib.Data.List.Forall2

/-!
# The store behaves as a map

Each call takes the mutex once, so the calls of concurrent callers come in some
order. After any calls the table stands for the map that these calls make, and
each further call answers as the map does.
-/

namespace Liaozhai.Auth

open RustString (toAsciiLowercase)
open StoreCall (drawn latestLogin)
open Table (Represents)
set_option autoImplicit false

universe u v

inductive StoreReply where
  | created (result : Except String Account)
  | verified (result : Option Account)
  | recorded
  | listed (accounts : List Account)

/-- Hashing does not fail. -/
def Argon2.Total {Hash : Type u} {Salt : Type v} (argon2 : Argon2 Hash Salt) : Prop :=
  ∀ password salt, ∃ hash, argon2.hashPassword password salt = .ok hash

def Row.key {Hash : Type u} (row : Row Hash) : String := toAsciiLowercase row.username

/-- The row shows the account of the entry, and its hash verifies the password only. -/
def Row.Shows {Hash : Type u} {Salt : Type v} (argon2 : Argon2 Hash Salt) (row : Row Hash)
    (entry : Entry) : Prop :=
  row.account = entry.account ∧
    ∀ guess, argon2.verifyPassword guess row.passwordHash = true ↔ guess = entry.password

def Row.loggedIn {Hash : Type u} (id : AccountId) (now : Int) (row : Row Hash) : Row Hash :=
  if row.id = id then { row with lastLoginAt := some now } else row

namespace AccountStore
variable {Hash : Type u} {Salt : Type v} (argon2 : Argon2 Hash Salt)

def opened (dummyHash : Hash) : AccountStore Hash := ⟨[], dummyHash⟩

/-- One call under the mutex. -/
def call (store : AccountStore Hash) : StoreCall Salt → AccountStore Hash × StoreReply
  | .createAccount username password salt id now =>
    match store.createAccount argon2 username password salt id now with
    | .ok (store', account) => (store', .created (.ok account))
    | .error e => (store, .created (.error e))
  | .verifyCredentials username password =>
    (store, .verified (store.verifyCredentials argon2 username password))
  | .recordLogin id now => (store.recordLogin id now, .recorded)
  | .listAccounts => (store, .listed store.listAccounts)

/-- All the calls in their order, with the replies. -/
def run (store : AccountStore Hash) : List (StoreCall Salt) → AccountStore Hash × List StoreReply :=
  Transducer.run (fun store now => ((store.call argon2 now).1, [(store.call argon2 now).2])) store

variable {argon2} {store store' : AccountStore Hash} {username password : String} {salt : Salt}
  {id : AccountId} {time : Int} {account : Account} {map : AccountMap} {row : Row Hash}
  {entry : Entry} {dummyHash : Hash} {history : List (StoreCall Salt)} {now : StoreCall Salt}

theorem run_append_singleton (history : List (StoreCall Salt)) (now : StoreCall Salt) :
    (store.run argon2 (history ++ [now])).1 = ((store.run argon2 history).1.call argon2 now).1 := by
  rw [run, Transducer.run_append_fst]
  rfl

theorem find_eq_lookup (store : AccountStore Hash) (username : String) :
    store.find username = Table.lookup Row.key store.rows (toAsciiLowercase username) :=
  rfl

theorem sameUsername_iff {a b : String} :
    sameUsername a b = true ↔ toAsciiLowercase a = toAsciiLowercase b :=
  beq_iff_eq

/-- `INSERT` fails on a username that is taken. -/
theorem call_createAccount_taken (htotal : argon2.Total) (hfound : store.find username = some row) :
    store.call argon2 (.createAccount username password salt id time) =
      (store, .created (.error ("Account '" ++ username ++ "' already exists"))) := by
  obtain ⟨hash, hhash⟩ := htotal password salt
  have hany :
      (store.rows.any fun row => row.id == id || sameUsername row.username username) = true := by
    apply List.any_eq_true.mpr
    rw [find_eq_lookup] at hfound
    obtain ⟨hrow, hkey⟩ := Table.mem_of_lookup hfound
    refine ⟨row, hrow, ?_⟩
    rw [Bool.or_eq_true, sameUsername_iff]
    exact Or.inr hkey
  simp only [call, createAccount, hhash, hany, if_true]

/-- It adds one row otherwise. -/
theorem call_createAccount_free {hash : Hash} (hhash : argon2.hashPassword password salt = .ok hash)
    (hfresh : ∀ row ∈ store.rows, row.id ≠ id) (hfree : store.find username = none) :
    store.call argon2 (.createAccount username password salt id time) =
      ({ store with rows := store.rows ++ [⟨id, username, hash, time, none⟩] },
        .created (.ok ⟨id, username, time, none⟩)) := by
  have hany :
      ¬ (store.rows.any fun row => row.id == id || sameUsername row.username username) = true := by
    intro hany
    obtain ⟨row, hrow, hor⟩ := List.any_eq_true.mp hany
    rcases Bool.or_eq_true_iff.mp hor with hid | hsame
    · exact hfresh row hrow (beq_iff_eq.mp hid)
    · rw [find_eq_lookup] at hfree
      exact Table.lookup_eq_none.mp hfree row hrow (sameUsername_iff.mp hsame)
  simp only [call, createAccount, hhash, hany]
  rfl

theorem call_recordLogin (store : AccountStore Hash) (id : AccountId) (time : Int) :
    store.call argon2 (.recordLogin id time) =
      ({ store with rows := store.rows.map (Row.loggedIn id time) }, .recorded) :=
  rfl

theorem loggedIn_key (id : AccountId) (time : Int) (row : Row Hash) :
    (row.loggedIn id time).key = row.key := by
  unfold Row.loggedIn
  split
  · rfl
  · rfl

theorem loggedIn_id (id : AccountId) (time : Int) (row : Row Hash) :
    (row.loggedIn id time).id = row.id := by
  unfold Row.loggedIn
  split
  · rfl
  · rfl

theorem loggedIn_shows (h : row.Shows argon2 entry) :
    (row.loggedIn id time).Shows argon2 (entry.next (.recordLogin id time : StoreCall Salt)) := by
  obtain ⟨haccount, hguess⟩ := h
  have hid : entry.account.id = row.id := by rw [← haccount]; rfl
  rw [Row.loggedIn, Entry.next, hid]
  split
  · refine ⟨?_, hguess⟩
    rw [← haccount]
    rfl
  · exact ⟨haccount, hguess⟩

/-- What holds of the table after some calls. -/
structure Tracks (argon2 : Argon2 Hash Salt) (history : List (StoreCall Salt))
    (store : AccountStore Hash) : Prop where
  represents : Represents Row.key (Row.Shows argon2) store.rows (AccountMap.after history)
  ids : (store.rows.map Row.id).Nodup
  known : ∀ row ∈ store.rows, row.id ∈ drawn history

namespace Tracks

theorem find_eq_none_iff (h : Tracks argon2 history store) (username : String) :
    store.find username = none ↔ AccountMap.after history (toAsciiLowercase username) = none :=
  h.represents.lookup_eq_none_iff

theorem opened : Tracks argon2 [] (opened dummyHash) :=
  ⟨Represents.empty, List.nodup_nil, nofun⟩

theorem fresh (h : Tracks argon2 history store) (hid : id ∉ drawn history) :
    ∀ row ∈ store.rows, row.id ≠ id := by
  intro row hrow heq
  exact hid (heq ▸ h.known row hrow)

theorem known_later (h : Tracks argon2 history store) (now : StoreCall Salt) :
    ∀ row ∈ store.rows, row.id ∈ drawn (history ++ [now]) := by
  intro row hrow
  rw [StoreCall.drawn_append_singleton]
  exact List.mem_append_left _ (h.known row hrow)

/-- A call that changes neither the table nor the map. -/
theorem same (h : Tracks argon2 history store)
    (hmap : (AccountMap.after history).next now = AccountMap.after history) :
    Tracks argon2 (history ++ [now]) store := by
  refine ⟨?_, h.ids, h.known_later now⟩
  rw [AccountMap.after_append_singleton, hmap]
  exact h.represents

theorem createAccount (hargon : argon2.Exact) (htotal : argon2.Total)
    (h : Tracks argon2 history store) (hid : id ∉ drawn history) :
    Tracks argon2 (history ++ [.createAccount username password salt id time])
      (store.call argon2 (.createAccount username password salt id time)).1 := by
  cases hfind : store.find username with
  | some row =>
    rw [call_createAccount_taken htotal hfind]
    apply h.same
    rw [AccountMap.next, if_neg]
    intro hnone
    rw [← h.find_eq_none_iff, hfind] at hnone
    cases hnone
  | none =>
    obtain ⟨hash, hhash⟩ := htotal password salt
    have hfree := (h.find_eq_none_iff username).mp hfind
    rw [call_createAccount_free hhash (h.fresh hid) hfind]
    refine ⟨?_, ?_, ?_⟩
    · rw [AccountMap.after_append_singleton, AccountMap.next, if_pos hfree]
      exact h.represents.insert hfree ⟨rfl, hargon password salt hash hhash⟩
    · exact Table.nodup_append_singleton h.ids (h.fresh hid)
    · intro row hrow
      rcases List.mem_append.mp hrow with hrow | hrow
      · exact h.known_later _ row hrow
      · obtain rfl := List.mem_singleton.mp hrow
        rw [StoreCall.drawn_append_singleton]
        exact List.mem_append_right _ List.mem_cons_self

theorem recordLogin (h : Tracks argon2 history store) (id : AccountId) (time : Int) :
    Tracks argon2 (history ++ [.recordLogin id time])
      (store.call argon2 (.recordLogin id time : StoreCall Salt)).1 := by
  rw [call_recordLogin]
  refine ⟨?_, ?_, ?_⟩
  · rw [AccountMap.after_append_singleton]
    exact h.represents.alter (loggedIn_key id time) fun _ _ hshows => loggedIn_shows hshows
  · rw [Table.map_key_map (loggedIn_id id time)]
    exact h.ids
  · intro row hrow
    obtain ⟨old, hold, rfl⟩ := List.mem_map.mp hrow
    rw [loggedIn_id]
    exact h.known_later _ old hold

/-- One call keeps the table and the map together. -/
theorem step (hargon : argon2.Exact) (htotal : argon2.Total) (h : Tracks argon2 history store)
    (hfresh : (drawn (history ++ [now])).Nodup) :
    Tracks argon2 (history ++ [now]) (store.call argon2 now).1 := by
  cases now with
  | createAccount username password salt id time =>
    apply h.createAccount hargon htotal
    rw [StoreCall.drawn_append_singleton] at hfresh
    intro hid
    exact (List.nodup_append.mp hfresh).2.2 id hid id List.mem_cons_self rfl
  | verifyCredentials username password =>
    apply h.same
    funext key
    exact Option.map_id_apply'
  | recordLogin id time => exact h.recordLogin id time
  | listAccounts =>
    apply h.same
    funext key
    exact Option.map_id_apply'

theorem run (hargon : argon2.Exact) (htotal : argon2.Total) (dummyHash : Hash)
    (hfresh : (drawn history).Nodup) :
    Tracks argon2 history ((AccountStore.opened dummyHash).run argon2 history).1 := by
  induction history using List.reverseRecOn with
  | nil => exact Tracks.opened
  | append_singleton history now ih =>
    rw [run_append_singleton]
    apply step hargon htotal (ih _) hfresh
    rw [StoreCall.drawn_append_singleton] at hfresh
    exact (List.nodup_append.mp hfresh).1

/-- An account is opened by the password that the map has for it. -/
theorem verifyCredentials_eq_some (h : Tracks argon2 history store) :
    store.verifyCredentials argon2 username password = some account ↔
      AccountMap.after history (toAsciiLowercase username) = some ⟨account, password⟩ := by
  cases hentry : AccountMap.after history (toAsciiLowercase username) with
  | none =>
    rw [verifyCredentials, (h.find_eq_none_iff username).mpr hentry]
    constructor
    · intro hopened
      cases hopened
    · intro hsome
      cases hsome
  | some entry =>
    obtain ⟨row, hrow, haccount, hguess⟩ := h.represents.lookup_of_some hentry
    rw [verifyCredentials, find_eq_lookup, hrow]
    simp only [hguess, haccount, Option.ite_none_right_eq_some, Option.some.injEq]
    constructor
    · intro hopened
      obtain ⟨hpassword, hsame⟩ := hopened
      rw [hpassword, ← hsame]
    · intro heq
      rw [heq]
      exact ⟨rfl, rfl⟩

theorem created_iff (htotal : argon2.Total) (h : Tracks argon2 history store)
    (hid : id ∉ drawn history) :
    (store.call argon2 (.createAccount username password salt id time)).2 =
        .created (.ok ⟨id, username, time, none⟩) ↔
      AccountMap.after history (toAsciiLowercase username) = none := by
  rw [← h.find_eq_none_iff]
  cases hfind : store.find username with
  | some row =>
    rw [call_createAccount_taken htotal hfind]
    constructor
    · intro hcreated
      cases hcreated
    · intro hnone
      cases hnone
  | none =>
    obtain ⟨hash, hhash⟩ := htotal password salt
    rw [call_createAccount_free hhash (h.fresh hid) hfind]
    exact ⟨fun _ => rfl, fun _ => rfl⟩

end Tracks

/-- A call with this password made the account, which shows the latest login since. -/
def Created (argon2 : Argon2 Hash Salt) (dummyHash : Hash) (history : List (StoreCall Salt))
    (password : String) (account : Account) : Prop :=
  ∃ pre salt post,
    history = pre ++ .createAccount account.username password salt account.id account.createdAt ::
      post ∧
    (((opened dummyHash).run argon2 pre).1.call argon2
        (.createAccount account.username password salt account.id account.createdAt)).2 =
      .created (.ok ⟨account.id, account.username, account.createdAt, none⟩) ∧
    account.lastLoginAt = latestLogin account.id post

/-- The map has what the calls of the history created. -/
theorem created_iff_after (hargon : argon2.Exact) (htotal : argon2.Total)
    (hfresh : (drawn history).Nodup) (key : String) :
    AccountMap.after history key = some ⟨account, password⟩ ↔
      Created argon2 dummyHash history password account ∧
        toAsciiLowercase account.username = key := by
  have hcall : ∀ {pre salt post},
      history = pre ++ .createAccount account.username password salt account.id account.createdAt ::
        post →
      ((((opened dummyHash).run argon2 pre).1.call argon2
          (.createAccount account.username password salt account.id account.createdAt)).2 =
        .created (.ok ⟨account.id, account.username, account.createdAt, none⟩) ↔
      AccountMap.after pre (toAsciiLowercase account.username) = none) := by
    intro pre salt post hhistory
    rw [hhistory, drawn, List.filterMap_append] at hfresh
    obtain ⟨hpre, _, hapart⟩ := List.nodup_append.mp hfresh
    apply (Tracks.run hargon htotal dummyHash hpre).created_iff htotal
    intro hid
    exact hapart _ hid _ List.mem_cons_self rfl
  rw [AccountMap.after_eq_some]
  constructor
  · intro hentry
    obtain ⟨pre, salt, post, hhistory, hkey, hfree, hlogin⟩ := hentry
    exact ⟨⟨pre, salt, post, hhistory, (hcall hhistory).mpr (hkey ▸ hfree), hlogin⟩, hkey⟩
  · intro hmade
    obtain ⟨⟨pre, salt, post, hhistory, hcreated, hlogin⟩, hkey⟩ := hmade
    exact ⟨pre, salt, post, hhistory, hkey, hkey ▸ (hcall hhistory).mp hcreated, hlogin⟩

/-- No login is recorded for an id before a new account has drawn it. -/
def DrawnFirst (history : List (StoreCall Salt)) : Prop :=
  ∀ pre username password salt id time post,
    history = pre ++ .createAccount username password salt id time :: post →
      ∀ now, .recordLogin id now ∉ pre

theorem Created.latest (h : Created argon2 dummyHash history password account)
    (hdrawn : DrawnFirst history) : account.lastLoginAt = latestLogin account.id history := by
  obtain ⟨pre, salt, post, rfl, _, hlogin⟩ := h
  rw [StoreCall.latestLogin_append (hdrawn pre _ _ _ _ _ post rfl), hlogin]
  rfl

/-- What the calls of a history make of the table, and what a further call then does. -/
structure BehavesAsMap (argon2 : Argon2 Hash Salt) (dummyHash : Hash)
    (history : List (StoreCall Salt)) (store : AccountStore Hash) : Prop where
  /-- The table stands for the map that the calls make. -/
  represents : Represents Row.key (Row.Shows argon2) store.rows (AccountMap.after history)
  usernames : store.rows.Pairwise fun a b => sameUsername a.username b.username = false
  ids : (store.rows.map Row.id).Nodup
  /-- A taken username is refused, and the table stays. -/
  taken : ∀ username password salt id time,
    (∃ row ∈ store.rows, sameUsername row.username username = true) →
      store.call argon2 (.createAccount username password salt id time) =
        (store, .created (.error ("Account '" ++ username ++ "' already exists")))
  /-- Any other gets exactly one row, under its own spelling. -/
  free : ∀ username password salt id time, id ∉ drawn history →
    (∀ row ∈ store.rows, sameUsername row.username username = false) →
      ∃ hash, argon2.hashPassword password salt = .ok hash ∧
        store.call argon2 (.createAccount username password salt id time) =
          ({ store with rows := store.rows ++ [⟨id, username, hash, time, none⟩] },
            .created (.ok ⟨id, username, time, none⟩))
  verifies : ∀ username password account,
    store.call argon2 (.verifyCredentials username password) = (store, .verified (some account)) ↔
      Created argon2 dummyHash history password account ∧
        sameUsername account.username username = true
  latest : DrawnFirst history → ∀ username password account,
    store.call argon2 (.verifyCredentials username password) = (store, .verified (some account)) →
      account.lastLoginAt = latestLogin account.id history
  /-- Every other row and every other column stays. -/
  records : ∀ id time,
    (store.call argon2 (.recordLogin id time)).2 = .recorded ∧
      List.Forall₂
        (fun row row' => (row.id = id → row' = { row with lastLoginAt := some time }) ∧
          (row.id ≠ id → row' = row))
        store.rows (store.call argon2 (.recordLogin id time)).1.rows
  lists : ∃ accounts, store.call argon2 .listAccounts = (store, .listed accounts) ∧
    accounts.Perm (store.rows.map Row.account)

theorem recordLogin_rows (store : AccountStore Hash) (id : AccountId) (time : Int) :
    List.Forall₂
      (fun row row' => (row.id = id → row' = { row with lastLoginAt := some time }) ∧
        (row.id ≠ id → row' = row))
      store.rows (store.recordLogin id time).rows := by
  apply List.forall₂_map_right_iff.mpr
  apply List.forall₂_same.mpr
  intro row _
  exact ⟨fun hid => if_pos hid, fun hid => if_neg hid⟩

/-- After any calls the store behaves as a map by username without ASCII case. -/
theorem run_behavesAsMap (hargon : argon2.Exact) (htotal : argon2.Total) (dummyHash : Hash)
    (hfresh : (drawn history).Nodup) :
    BehavesAsMap argon2 dummyHash history ((opened dummyHash).run argon2 history).1 := by
  have htracks := Tracks.run hargon htotal dummyHash hfresh
  have hverifies : ∀ username password account,
      ((opened dummyHash).run argon2 history).1.call argon2
            (.verifyCredentials username password) =
          (((opened dummyHash).run argon2 history).1, .verified (some account)) ↔
        Created argon2 dummyHash history password account ∧
          sameUsername account.username username = true := by
    intro username password account
    rw [sameUsername_iff, ← created_iff_after hargon htotal hfresh,
      ← htracks.verifyCredentials_eq_some, call, Prod.mk.injEq, StoreReply.verified.injEq]
    exact and_iff_right rfl
  refine ⟨htracks.represents, ?_, htracks.ids, ?_, ?_, hverifies, ?_, ?_, ?_⟩
  · apply List.Pairwise.imp _ (List.pairwise_map.mp htracks.represents.distinct)
    intro a b hab
    rw [← Bool.not_eq_true, sameUsername_iff]
    exact hab
  · intro username password salt id time htaken
    obtain ⟨row, hrow, hsame⟩ := htaken
    cases hfind : ((opened dummyHash).run argon2 history).1.find username with
    | some found => exact call_createAccount_taken htotal hfind
    | none =>
      rw [find_eq_lookup] at hfind
      exact absurd (sameUsername_iff.mp hsame) (Table.lookup_eq_none.mp hfind row hrow)
  · intro username password salt id time hid hfree
    obtain ⟨hash, hhash⟩ := htotal password salt
    refine ⟨hash, hhash, call_createAccount_free hhash (htracks.fresh hid) ?_⟩
    rw [find_eq_lookup, Table.lookup_eq_none]
    intro row hrow hkey
    have hsame : sameUsername row.username username = true := sameUsername_iff.mpr hkey
    rw [hfree row hrow] at hsame
    cases hsame
  · intro hdrawn username password account hopened
    exact ((hverifies username password account).mp hopened).1.latest hdrawn
  · intro id time
    exact ⟨rfl, recordLogin_rows _ id time⟩
  · exact ⟨_, rfl, (List.mergeSort_perm _ _).map Row.account⟩

/-- A hash is the password in the clear. -/
def clear : Argon2 String Unit where
  hashPassword password _ := .ok password
  verifyPassword password hash := password = hash

theorem clear_exact : clear.Exact := by
  intro password salt hash hhash guess
  obtain rfl := Except.ok.inj hhash
  exact decide_eq_true_iff

def aliceTwice : List (StoreCall Unit) :=
  [.createAccount "Alice" "sceret" () 7 100, .createAccount "alice" "other" () 8 101,
    .recordLogin 7 102, .recordLogin 8 103]

theorem run_behavesAsMap_aliceTwice :
    BehavesAsMap clear "" aliceTwice ((opened "").run clear aliceTwice).1 :=
  run_behavesAsMap clear_exact (fun password _ => ⟨password, rfl⟩) "" (by decide)

example :
    ((opened "").run clear (aliceTwice ++ [.verifyCredentials "ALICE" "sceret"])).2.getLast? =
      some (.verified (some ⟨7, "Alice", 100, some 102⟩)) := by
  rfl

end AccountStore

end Liaozhai.Auth
