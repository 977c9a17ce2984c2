import Liaozhai.Server.Replies

/-!
# Unseen accounts

An account whose password nobody guesses cannot be told from no account. With it
and without it the service takes the same runs, byte for byte: a wrong password
for a name and any password for an unknown name get the same answer.
-/

namespace Liaozhai.Server

open Auth Net
open RustString (toAsciiLowercase trim)
set_option autoImplicit false

universe u v

variable {Hash : Type u} {Salt : Type v} {argon2 : Argon2 Hash Salt} {key : String} {hash : Hash}
  {id : AccountId}

/-- The second table has one row more, under a key that the first does not have. -/
structure Hidden (key : String) (hash : Hash) (id : AccountId) (store store' : AccountStore Hash) :
    Prop where
  absent : ∀ row ∈ store.rows, row.key ≠ key
  extra : ∃ front back row, store.rows = front ++ back ∧ store'.rows = front ++ row :: back ∧
    row.key = key ∧ row.passwordHash = hash ∧ row.id = id

namespace Hidden
variable {store store' : AccountStore Hash} {username password : String} {salt : Salt}
  {new : AccountId} {now : Int}

theorem find_of_ne (h : Hidden key hash id store store') (hne : toAsciiLowercase username ≠ key) :
    store'.find username = store.find username := by
  obtain ⟨front, back, row, hrows, hrows', hkey, _, _⟩ := h.extra
  have hskip : (row :: back).find? (fun row => sameUsername row.username username) =
      back.find? fun row => sameUsername row.username username := by
    apply List.find?_cons_of_neg
    rw [AccountStore.sameUsername_iff]
    intro hsame
    exact hne (hsame.symm.trans hkey)
  rw [AccountStore.find, AccountStore.find, hrows, hrows', List.find?_append, List.find?_append,
    hskip]

theorem find_of_eq (h : Hidden key hash id store store') (heq : toAsciiLowercase username = key) :
    store.find username = none ∧
      ∃ row, store'.find username = some row ∧ row.passwordHash = hash := by
  obtain ⟨front, back, row, hrows, hrows', hkey, hhash, _⟩ := h.extra
  have hnone : store.find username = none := by
    rw [AccountStore.find_eq_lookup, Table.lookup_eq_none]
    intro other hother
    rw [heq]
    exact h.absent other hother
  refine ⟨hnone, row, ?_, hhash⟩
  rw [AccountStore.find, hrows, List.find?_append, Option.or_eq_none_iff] at hnone
  rw [AccountStore.find, hrows', List.find?_append, hnone.1, Option.none_or, List.find?_cons_of_pos]
  rw [AccountStore.sameUsername_iff, heq]
  exact hkey

/-- A wrong password is refused as an unknown name is. -/
theorem verifyCredentials (h : Hidden key hash id store store')
    (hwrong : toAsciiLowercase username = key → argon2.verifyPassword password hash = false) :
    store'.verifyCredentials argon2 username password =
      store.verifyCredentials argon2 username password := by
  by_cases heq : toAsciiLowercase username = key
  · obtain ⟨hnone, row, hrow, hhash⟩ := h.find_of_eq heq
    rw [AccountStore.verifyCredentials, AccountStore.verifyCredentials, hnone, hrow]
    simp only [hhash, hwrong heq, Bool.false_eq_true, if_false]
  · rw [AccountStore.verifyCredentials, AccountStore.verifyCredentials, h.find_of_ne heq]

theorem recordLogin (h : Hidden key hash id store store') (account : AccountId) (now : Int) :
    Hidden key hash id (store.recordLogin account now) (store'.recordLogin account now) := by
  obtain ⟨front, back, row, hrows, hrows', hkey, hhash, hid⟩ := h.extra
  refine ⟨?_, front.map (Row.loggedIn account now), back.map (Row.loggedIn account now),
    row.loggedIn account now, ?_, ?_, ?_, ?_, ?_⟩
  · intro old hold
    obtain ⟨before, hbefore, rfl⟩ := List.mem_map.mp hold
    have hsame := AccountStore.loggedIn_key account now before
    intro heq
    exact h.absent before hbefore (hsame.symm.trans heq)
  · rw [← List.map_append, ← hrows]
    rfl
  · rw [← List.map_cons, ← List.map_append, ← hrows']
    rfl
  · rw [AccountStore.loggedIn_key]
    exact hkey
  · rw [← hhash, Row.loggedIn]
    split
    · rfl
    · rfl
  · rw [AccountStore.loggedIn_id]
    exact hid

/-- Another account is made in both tables, or in neither. -/
theorem createAccount (h : Hidden key hash id store store')
    (hkey : toAsciiLowercase username ≠ key) (hid : new ≠ id) :
    (∃ e, store.createAccount argon2 username password salt new now = .error e ∧
        store'.createAccount argon2 username password salt new now = .error e) ∨
      ∃ next next' account,
        store.createAccount argon2 username password salt new now = .ok (next, account) ∧
        store'.createAccount argon2 username password salt new now = .ok (next', account) ∧
        Hidden key hash id next next' := by
  obtain ⟨front, back, row, hrows, hrows', hrow, hhash, hrowId⟩ := h.extra
  have hany : (store'.rows.any fun row => row.id == new || sameUsername row.username username) =
      store.rows.any fun row => row.id == new || sameUsername row.username username := by
    have hfalse : (row.id == new || sameUsername row.username username) = false := by
      rw [Bool.or_eq_false_iff]
      refine ⟨?_, ?_⟩
      · rw [beq_eq_false_iff_ne, hrowId]
        exact hid.symm
      · rw [← Bool.not_eq_true, AccountStore.sameUsername_iff]
        intro hsame
        exact hkey (hsame.symm.trans hrow)
    rw [hrows, hrows', List.any_append, List.any_append, List.any_cons, hfalse, Bool.false_or]
  simp only [AccountStore.createAccount, hany]
  split
  · exact .inl ⟨_, rfl, rfl⟩
  · split
    · exact .inl ⟨_, rfl, rfl⟩
    · rename_i made _ _
      refine .inr ⟨_, _, _, rfl, rfl, ?_, front, back ++ [⟨new, username, made, now, none⟩], row, ?_,
        ?_, hrow, hhash, hrowId⟩
      · intro other hother
        rcases List.mem_append.mp hother with hother | hother
        · exact h.absent other hother
        · obtain rfl := List.mem_singleton.mp hother
          exact hkey
      · rw [hrows, List.append_assoc]
      · rw [hrows', List.append_assoc, List.cons_append]

end Hidden

namespace Service
variable {ctx : SessionContext} {s t : Service Hash} {e : ServiceEvent Salt}
  {es : List (ServiceEvent Salt)} {username password confirm : String} {salt : Salt} {now : Int}
  {account : Account} {object : AccountStore Hash}

/-- The service on another table. -/
def onto (s : Service Hash) (object : AccountStore Hash) : Service Hash :=
  { s with store := s.store.onto object }

/-- The task tries the password for the name. -/
def tries (username password : String) : Option (Calls.Task Request StoreReply) → Bool
  | some (.queued (.verifyCredentials name guess)) => sameUsername name username && guess == password
  | _ => false

/-- Nobody tries the password for the name, and no other account takes the name or
the id. -/
def Unguessed (username password : String) (id : AccountId) (s : Service Hash) :
    ServiceEvent Salt → Prop
  | .performed caller _ => tries username password (s.store.tasks caller) = false
  | .accountCreated name _ _ _ new _ => sameUsername (trim name) username = false ∧ new ≠ id
  | _ => True

instance (username password : String) (id : AccountId) (s : Service Hash) :
    ∀ e : ServiceEvent Salt, Decidable (Unguessed username password id s e)
  | .performed _ _ => inferInstanceAs (Decidable (_ = false))
  | .accountCreated _ _ _ _ _ _ => inferInstanceAs (Decidable (_ ∧ _))
  | .signalled | .server _ | .loginCalled _ => inferInstanceAs (Decidable True)

/-- Beside the first service, a second with the hidden account. -/
def Beside (key : String) (hash : Hash) (id : AccountId) (s t : Service Hash) : Prop :=
  ∃ object, t = s.onto object ∧ Hidden key hash id s.store.object object

theorem follow_onto (store : StorePool Hash) (object : AccountStore Hash) (e : ServerEvent) :
    follow (store.onto object) e = (follow store e).map fun store => store.onto object := by
  unfold follow
  split
  · exact Calls.Pool.invoke_onto object _ _
  · rw [Calls.Pool.reply?_onto, Calls.Pool.forget_onto, apply_ite (Option.map _)]
    rfl
  · rw [Calls.Pool.reply?_onto, Calls.Pool.forget_onto, apply_ite (Option.map _)]
    rfl
  · rw [Calls.Pool.onto_tasks, Calls.Pool.forget_onto, apply_ite (Option.map _)]
    rfl
  · rw [Calls.Pool.onto_tasks, Calls.Pool.forget_onto, apply_ite (Option.map _)]
    rfl
  · rfl

theorem follow_object {store store' : StorePool Hash} {e : ServerEvent}
    (h : follow store e = some store') : store'.object = store.object := by
  cases follow_cases h with
  | called hinvoke =>
    obtain ⟨_, rfl⟩ := Calls.Pool.invoke_eq hinvoke
    rfl
  | returned _ _ => rfl
  | other _ => rfl

theorem beside_server (h : Hidden key hash id s.store.object object) (e : ServerEvent) :
    Option.Rel (Beside key hash id) (step ctx argon2 s (.server e))
      (step ctx argon2 (s.onto object) (.server e)) := by
  have hstep : step ctx argon2 (s.onto object) (.server e) =
      if allowed s.cancelled e then
        (s.server.step ctx e).bind fun server =>
          ((follow s.store e).map fun store => store.onto object).map fun store =>
            ⟨server, store, s.cancelled⟩
      else none := by
    rw [← follow_onto]
    rfl
  rw [hstep, step]
  split
  · cases s.server.step ctx e with
    | none => exact .none
    | some server =>
      cases hfollow : follow s.store e with
      | none => exact .none
      | some store =>
        refine .some ⟨object, rfl, ?_⟩
        rw [follow_object hfollow]
        exact h
  · exact .none

theorem beside_loginCalled (h : Hidden key hash id s.store.object object) (caller : Nat) :
    Option.Rel (Beside key hash id) (step ctx argon2 s (.loginCalled caller))
      (step ctx argon2 (s.onto object) (.loginCalled caller)) := by
  have hstep : step ctx argon2 (s.onto object) (.loginCalled caller) =
      if caller ∈ s.server.loop.running then
        (s.loginOf caller).bind fun account =>
          ((s.store.invoke caller (.recordLogin account)).map fun store => store.onto object).map
            fun store => ⟨s.server, store, s.cancelled⟩
      else none := by
    simp only [← Calls.Pool.invoke_onto]
    rfl
  rw [hstep, step]
  split
  · cases s.loginOf caller with
    | none => exact .none
    | some account =>
      cases hinvoke : s.store.invoke caller (.recordLogin account) with
      | none =>
        rw [Option.bind_some, Option.bind_some, hinvoke]
        exact .none
      | some store =>
        rw [Option.bind_some, Option.bind_some, hinvoke]
        refine .some ⟨object, rfl, ?_⟩
        obtain ⟨_, rfl⟩ := Calls.Pool.invoke_eq hinvoke
        exact h
  · exact .none

/-- A call of a handler gets the same answer on both tables. -/
theorem beside_call {store store' : AccountStore Hash} (h : Hidden key hash id store store')
    {request : Request} (hwrong : ∀ name guess, request = .verifyCredentials name guess →
      toAsciiLowercase name = key → argon2.verifyPassword guess hash = false) (now : Int) :
    (store'.call argon2 (request.call now)).2 = (store.call argon2 (request.call now)).2 ∧
      Hidden key hash id (store.call argon2 (request.call now)).1
        (store'.call argon2 (request.call now)).1 := by
  cases request with
  | verifyCredentials name guess =>
    exact ⟨congrArg StoreReply.verified (h.verifyCredentials (hwrong name guess rfl)), h⟩
  | recordLogin account => exact ⟨rfl, h.recordLogin account now⟩

theorem beside_performed (h : Hidden key hash id s.store.object object) {caller : Nat}
    (hwrong : ∀ name guess, s.store.tasks caller = some (.queued (.verifyCredentials name guess)) →
      toAsciiLowercase name = key → argon2.verifyPassword guess hash = false) (now : Int) :
    Option.Rel (Beside key hash id) (step ctx argon2 s (.performed caller now))
      (step ctx argon2 (s.onto object) (.performed caller now)) := by
  by_cases hqueued : ∃ request, s.store.tasks caller = some (.queued request)
  · obtain ⟨request, hqueued⟩ := hqueued
    have hrequest : ∀ name guess, request = .verifyCredentials name guess →
        toAsciiLowercase name = key → argon2.verifyPassword guess hash = false :=
      fun name guess heq => hwrong name guess (heq ▸ hqueued)
    have hcall := beside_call h hrequest now
    have hqueued' : (s.onto object).store.tasks caller = some (.queued request) := hqueued
    rw [step, step, Calls.Pool.perform_queued hqueued, Calls.Pool.perform_queued hqueued']
    refine .some ⟨(object.call argon2 (request.call now)).1, ?_, hcall.2⟩
    have hreply : ((s.onto object).store.object.call argon2 (request.call now)).2 =
        (s.store.object.call argon2 (request.call now)).2 := hcall.1
    rw [hreply]
    rfl
  · push Not at hqueued
    have hqueued' : ∀ request, (s.onto object).store.tasks caller ≠ some (.queued request) := hqueued
    rw [step, step, Calls.Pool.perform_eq_none hqueued, Calls.Pool.perform_eq_none hqueued']
    exact .none

theorem beside_accountCreated (h : Hidden key hash id s.store.object object) {name : String}
    {new : AccountId} (hname : toAsciiLowercase (trim name) ≠ key) (hnew : new ≠ id)
    (password confirm : String) (salt : Salt) (now : Int) :
    Option.Rel (Beside key hash id)
      (step ctx argon2 s (.accountCreated name password confirm salt new now))
      (step ctx argon2 (s.onto object) (.accountCreated name password confirm salt new now)) := by
  have hcreate : (∃ e, create argon2 s.store.object name password confirm salt new now = .error e ∧
        create argon2 object name password confirm salt new now = .error e) ∨
      ∃ next next' account,
        create argon2 s.store.object name password confirm salt new now = .ok (next, account) ∧
        create argon2 object name password confirm salt new now = .ok (next', account) ∧
        Hidden key hash id next next' := by
    simp only [create]
    split_ifs
    · exact .inl ⟨_, rfl, rfl⟩
    · exact .inl ⟨_, rfl, rfl⟩
    · exact .inl ⟨_, rfl, rfl⟩
    · exact h.createAccount hname hnew
  have hobject : (s.onto object).store.object = object := rfl
  rcases hcreate with ⟨message, hfirst, hsecond⟩ | ⟨next, next', account, hfirst, hsecond, hnext⟩
  · simp only [step, hobject, hfirst, hsecond]
    exact .some ⟨object, rfl, h⟩
  · simp only [step, hobject, hfirst, hsecond]
    exact .some ⟨next', rfl, hnext⟩

theorem same_of_beside {s' t' : Option (Service Hash)}
    (h : Option.Rel (Beside key hash id) s' t') :
    Option.Rel
      (fun s' t' => t'.server = s'.server ∧ t'.store.tasks = s'.store.tasks ∧
        t'.cancelled = s'.cancelled) s' t' := by
  cases h with
  | none => exact .none
  | some hbeside =>
    obtain ⟨_, rfl, _⟩ := hbeside
    exact .some ⟨rfl, rfl, rfl⟩

/-- A new account is hidden from those who do not know its password. -/
theorem hidden_of_create
    (h : create argon2 s.store.object username password confirm salt id now = .ok (object, account)) :
    ∃ hash, argon2.hashPassword password salt = .ok hash ∧
      Hidden (toAsciiLowercase (trim username)) hash id s.store.object object := by
  obtain ⟨_, _, hcreate⟩ := create_ok h
  unfold AccountStore.createAccount at hcreate
  split at hcreate
  · cases hcreate
  · rename_i hash hhash
    split at hcreate
    · cases hcreate
    · rename_i hfree
      obtain ⟨rfl, _⟩ := Prod.mk.inj (Except.ok.inj hcreate)
      refine ⟨hash, hhash, ?_, s.store.object.rows, [], ⟨id, trim username, hash, now, none⟩,
        (List.append_nil _).symm, rfl, rfl, rfl, rfl⟩
      intro row hrow hkey
      apply hfree
      apply List.any_eq_true.mpr
      refine ⟨row, hrow, ?_⟩
      rw [Bool.or_eq_true, AccountStore.sameUsername_iff]
      exact .inr hkey

/-- As long as nobody guesses its password, a new account changes nothing that the
service does: the same runs are possible with it and without it, with the same
bytes to every client, and they leave the handlers, the rate limiter, the accept
loop and the tasks in the same state. -/
theorem account_unseen (hargon : argon2.Exact)
    (hcreate : create argon2 s.store.object username password confirm salt id now =
      .ok (object, account))
    (hguess : Machine.Along (step ctx argon2) (Unguessed (trim username) password id) s es) :
    Option.Rel
      (fun s' t' => t'.server = s'.server ∧ t'.store.tasks = s'.store.tasks ∧
        t'.cancelled = s'.cancelled)
      (run ctx argon2 s es) (run ctx argon2 (s.onto object) es) := by
  obtain ⟨hash, hhash, hhidden⟩ := hidden_of_create hcreate
  have hbeside : Beside (toAsciiLowercase (trim username)) hash id s (s.onto object) :=
    ⟨object, rfl, hhidden⟩
  refine same_of_beside (Machine.run_rel ?_ hbeside hguess)
  intro s t e hbeside hquiet
  obtain ⟨object, rfl, h⟩ := hbeside
  cases e with
  | signalled => exact .some ⟨object, rfl, h⟩
  | server e => exact beside_server h e
  | loginCalled caller => exact beside_loginCalled h caller
  | performed caller now =>
    apply beside_performed h
    intro name guess hqueued hname
    rw [Unguessed, hqueued, tries, AccountStore.sameUsername_iff.mpr hname, Bool.true_and,
      beq_eq_false_iff_ne] at hquiet
    rw [← Bool.not_eq_true, hargon password salt hash hhash guess]
    exact hquiet
  | accountCreated name password' confirm' salt' new now' =>
    obtain ⟨hname, hnew⟩ := hquiet
    apply beside_accountCreated h _ hnew
    intro hsame
    rw [AccountStore.sameUsername_iff.mpr hsame] at hname
    cases hname

def aliceCreated : AccountStore String := ⟨[⟨7, "Alice", "secret", 100, none⟩], ""⟩

def guessRefused : List (ServiceEvent Unit) :=
  greeted ++ typesIn "alice" "sceret" ++ [.performed 0 103] ++
    firstActs [.other (.verifyReturned (.ok none))]

theorem account_unseen_alice :
    (run ⟨⟨[]⟩, 3⟩ AccountStore.clear (freshService.onto aliceCreated) guessRefused).isSome = true := by
  have hcreate : create AccountStore.clear freshService.store.object "Alice" "secret" "secret" () 7
      100 = .ok (aliceCreated, ⟨7, "Alice", 100, none⟩) := rfl
  have hguess : Machine.Along (step ⟨⟨[]⟩, 3⟩ AccountStore.clear)
      (Unguessed (trim "Alice") "secret" 7) freshService guessRefused := by decide +kernel
  have hrel := account_unseen AccountStore.clear_exact hcreate hguess
  have hsome : (run ⟨⟨[]⟩, 3⟩ AccountStore.clear freshService guessRefused).isSome = true := by
    decide +kernel
  obtain ⟨s', hs'⟩ := Option.isSome_iff_exists.mp hsome
  rw [hs'] at hrel
  cases hrel with
  | some _ => rfl

end Service

end Liaozhai.Server
