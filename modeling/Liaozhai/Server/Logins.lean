import Liaozhai.Server.Replies

/-!
# Logins

Whoever gets past the prompts of the service typed the name and the password of an
account, and the login times in the table are those of such clients.
-/

namespace Liaozhai.Server.Service

open Auth Constants Net
open Auth.AuthRateLimiter (atSecond host)
open Net.Connection (Attempt Verified)
open RustString (toAsciiLowercase trim)
open StoreCall (drawn)
open Utf8Lossy (asBytes)
set_option autoImplicit false

universe u v

variable {Hash : Type u} {Salt : Type v} {ctx : SessionContext} {argon2 : Argon2 Hash Salt}
  {s s' s₀ : Service Hash} {e : ServiceEvent Salt} {es : List (ServiceEvent Salt)} {id : Nat}
  {cfg : AppConfig} {dummyHash : Hash}
  {earlier past : List (StoreCall Salt)} {username password : String} {account : Account}

/-- Some of the calls made an account that is opened by these credentials. -/
def Opened (argon2 : Argon2 Hash Salt) (dummyHash : Hash) (history : List (StoreCall Salt))
    (username password : String) (account : Account) : Prop :=
  ∃ pre, pre <+: history ∧ AccountStore.Created argon2 dummyHash pre password account ∧
    sameUsername account.username username = true

theorem Opened.later (h : Opened argon2 dummyHash past username password account)
    {history : List (StoreCall Salt)} (hpast : past <+: history) :
    Opened argon2 dummyHash history username password account := by
  obtain ⟨pre, hpre, hcreated⟩ := h
  exact ⟨pre, hpre.trans hpast, hcreated⟩

theorem eventOf_mem {event : Net.Event} (h : event ∈ s.eventOf id e) :
    ∃ action client, e = .server (.acted id action) ∧
      s.server.clients.processes[id]? = some client ∧
      event = client.event s.server.clients.shared action := by
  cases e with
  | server e =>
    cases e with
    | acted actor action =>
      rw [eventOf] at h
      split at h
      · rename_i hactor
        subst hactor
        obtain ⟨client, hclient, rfl⟩ := List.mem_map.mp h
        exact ⟨action, client, rfl, Option.mem_toList.mp hclient, rfl⟩
      · cases h
    | loop _ | accepted _ | completed _ _ => cases h
  | signalled | loginCalled _ | performed _ _ | accountCreated _ _ _ _ _ _ => cases h

theorem eq_acted_of_mem {event : Net.Event} (h : event ∈ s.eventOf id e)
    (hother : isLimiterCall event = false) : e = .server (.acted id (.other event)) := by
  obtain ⟨action, client, rfl, _, rfl⟩ := eventOf_mem h
  cases action with
  | other event => rfl
  | checked _ | reset | failed _ _ => cases hother

theorem eventOf_cases (s : Service Hash) (id : Nat) (e : ServiceEvent Salt) :
    s.eventOf id e = [] ∨ ∃ event, s.eventOf id e = [event] := by
  cases hevents : s.eventOf id e with
  | nil => exact .inl rfl
  | cons event rest =>
    have hmem : event ∈ s.eventOf id e := by
      rw [hevents]
      exact List.mem_cons_self
    obtain ⟨action, client, rfl, hclient, _⟩ := eventOf_mem hmem
    rw [eventOf_acted hclient] at hevents
    obtain ⟨rfl, rfl⟩ := List.cons.inj hevents
    exact .inr ⟨_, rfl⟩

theorem history_extends (hrun : run ctx argon2 s₀ es = some s) (es' : List (ServiceEvent Salt)) :
    history ctx argon2 earlier s₀ es <+: history ctx argon2 earlier s₀ (es ++ es') := by
  rw [history, history, Machine.collect_append hrun, ← List.append_assoc]
  exact List.prefix_append _ _

theorem drawn_nodup_of_earlier {history : List (StoreCall Salt)} (hpast : past <+: history)
    (h : (drawn history).Nodup) : (drawn past).Nodup :=
  (hpast.filterMap StoreCall.drawn?).sublist.nodup h

/-- What the accounts had for a name and a password at a moment between the question
of a handler and the answer to it; `asked` is all that the handler did before. -/
def Decided (ctx : SessionContext) (argon2 : Argon2 Hash Salt) (dummyHash : Hash)
    (earlier : List (StoreCall Salt)) (s₀ : Service Hash) (es : List (ServiceEvent Salt)) (id : Nat)
    (asked : List Net.Event) (username password : String) (result : Option Account) : Prop :=
  ∃ before during after pre,
    es = before ++ callEvent id (.verifyCredentials username password) :: during ++
      .server (.acted id (.other (.verifyReturned (.ok result)))) :: after ∧
    handled ctx argon2 s₀ before id = asked ∧
    history ctx argon2 earlier s₀ before <+: pre ∧
    pre <+: history ctx argon2 earlier s₀
      (before ++ callEvent id (.verifyCredentials username password) :: during) ∧
    ∀ account, result = some account ↔
      AccountStore.Created argon2 dummyHash pre password account ∧
        sameUsername account.username username = true

variable {result : Option Account} {asked : List Net.Event}

theorem eventOf_asked
    (h : step ctx argon2 s (callEvent id (.verifyCredentials username password)) = some s') :
    s.eventOf id (callEvent id (.verifyCredentials username password) : ServiceEvent Salt) =
      [.verifyCalled username password] := by
  cases step_cases h with
  | server _ hserver _ =>
    rcases handler_step hserver id with ⟨action, client, _, ⟨⟩, hclient, _, _⟩ | ⟨hnot, _⟩
    · exact eventOf_acted hclient
    · exact absurd rfl (hnot _)

/-- A handler that makes no other call has asked nothing else. -/
theorem handled_of_asked {before during : List (ServiceEvent Salt)} {name guess : String}
    (hrun : run ctx argon2 s₀
      (before ++ callEvent id (.verifyCredentials name guess) :: during) = some s)
    (hduring : ∀ e ∈ during, ¬ IsCallOf id e)
    (hhandled : handled ctx argon2 s₀
      (before ++ callEvent id (.verifyCredentials name guess) :: during) id =
        asked ++ [.verifyCalled username password]) :
    handled ctx argon2 s₀ before id = asked ∧ name = username ∧ guess = password := by
  obtain ⟨t, ht, hrest⟩ := Machine.run_append.mp hrun
  obtain ⟨t', hstep, _⟩ := Machine.run_cons.mp hrest
  rw [handled, Machine.collect_append ht, Machine.collect, eventOf_asked hstep, hstep,
    ← List.append_assoc] at hhandled
  dsimp only at hhandled
  rcases List.eq_nil_or_concat' (Machine.collect (step ctx argon2) (fun s e => s.eventOf id e) t'
    during) with hnone | ⟨quiet, last, hsome⟩
  · rw [hnone, List.append_nil] at hhandled
    obtain ⟨hasked, hlast⟩ := List.append_inj' hhandled rfl
    obtain ⟨rfl, rfl⟩ := Net.Event.verifyCalled.inj (List.cons.inj hlast).1
    exact ⟨hasked, rfl, rfl⟩
  · -- the last event would be a call made meanwhile
    rw [hsome, ← List.append_assoc] at hhandled
    obtain ⟨_, hlast⟩ := List.append_inj' hhandled rfl
    have hmem : last ∈ Machine.collect (step ctx argon2) (fun s e => s.eventOf id e) t' during := by
      rw [hsome]
      exact List.mem_append_right _ (List.mem_singleton_self last)
    obtain ⟨pre, e, post, u, hsplit, _, hevent⟩ := Machine.mem_collect hmem
    rw [(List.cons.inj hlast).1] at hevent
    obtain rfl := eq_acted_of_mem hevent rfl
    have hcall : IsCallOf id
        (.server (.acted id (.other (.verifyCalled username password))) : ServiceEvent Salt) := rfl
    refine absurd hcall (hduring _ ?_)
    rw [hsplit]
    exact List.mem_append_right _ List.mem_cons_self

section Run
variable (hargon : argon2.Exact) (htotal : argon2.Total)
  (hs₀ : s₀ = start argon2 cfg dummyHash earlier) (hrun : run ctx argon2 s₀ es = some s)
  (hfresh : (drawn (history ctx argon2 earlier s₀ es)).Nodup)
include hargon htotal hs₀ hrun hfresh

/-- Every answer that a handler gets is right. -/
theorem answered_run {since : List Net.Event}
    (hhandled : handled ctx argon2 s₀ es id =
      asked ++ .verifyCalled username password :: .verifyReturned (.ok result) :: since) :
    Decided ctx argon2 dummyHash earlier s₀ es id asked username password result := by
  rw [List.append_cons] at hhandled
  obtain ⟨asking, e, after, t, t', rfl, ht, hstep, hasking, hevent⟩ :=
    Machine.collect_split (fun s e => eventOf_cases s id e) hrun hhandled
  have hmem : .verifyReturned (.ok result) ∈ t.eventOf id e := by
    rw [hevent]
    exact List.mem_singleton_self _
  obtain rfl := eq_acted_of_mem hmem rfl
  obtain ⟨marks, hledger⟩ := ledger_run hs₀ ht
  have hpast := drawn_nodup_of_earlier (history_extends ht _) hfresh
  obtain ⟨name, guess, pre, ⟨before, during, rfl, hmark, hduring⟩, _, hle, hpre, hright⟩ :=
    reply_right hargon htotal hledger hpast (reply?_of_verifyReturned hstep)
  obtain ⟨hasked, rfl, rfl⟩ := handled_of_asked ht hduring hasking
  rw [← hmark] at hle
  exact ⟨before, during, after, pre, rfl, hasked, hle, hpre, hright⟩

/-- Whoever was verified had typed the name and the password of an account. -/
theorem opened_of_verified (h : Verified ctx (handled ctx argon2 s₀ es id) account) :
    ∃ username password tail,
      Attempt ctx (handled ctx argon2 s₀ es id) username password
        (.wrote iacWontEcho (.ok ()) :: .verifyCalled username password ::
          .verifyReturned (.ok (some account)) :: tail) ∧
      Opened argon2 dummyHash (history ctx argon2 earlier s₀ es) username password account := by
  obtain ⟨username, password, tail, hattempt⟩ := h
  refine ⟨username, password, tail, hattempt, ?_⟩
  obtain ⟨before, text, hevents, _⟩ := hattempt
  rw [List.append_cons _ _ (_ :: _), List.append_cons _ _ (_ :: _)] at hevents
  obtain ⟨asking, during, after, pre, rfl, _, _, hpre, hright⟩ :=
    answered_run hargon htotal hs₀ hrun hfresh hevents
  obtain ⟨t, ht, _⟩ := Machine.run_append.mp hrun
  exact ⟨pre, hpre.trans (history_extends ht _), (hright account).mp rfl⟩

end Run

/-! ### The table -/

/-- The row of an account that was opened is still there, and is opened by the same
password only. -/
theorem row_of_opened (hargon : argon2.Exact) (htotal : argon2.Total)
    {history : List (StoreCall Salt)} (hfresh : (drawn history).Nodup)
    (h : Opened argon2 dummyHash history username password account) :
    ∃ row ∈ ((AccountStore.opened dummyHash).run argon2 history).1.rows,
      row.id = account.id ∧ row.username = account.username ∧
        ∀ guess, argon2.verifyPassword guess row.passwordHash = true ↔ guess = password := by
  obtain ⟨pre, hpre, hcreated, _⟩ := h
  have hentry := (AccountStore.created_iff_after hargon htotal (drawn_nodup_of_earlier hpre hfresh)
    _).mpr ⟨hcreated, rfl⟩
  obtain ⟨login, hentry⟩ := AccountMap.after_of_prefix hentry hpre
  have htracks := AccountStore.Tracks.run hargon htotal dummyHash hfresh
  obtain ⟨row, hrow, haccount, hguess⟩ := htracks.represents.lookup_of_some hentry
  refine ⟨row, (Table.mem_of_lookup hrow).1, ?_, ?_, hguess⟩
  · exact congrArg Account.id haccount
  · exact congrArg Account.username haccount

/-- A login time in the table was written by a call for its row. -/
theorem recordLogin_mem {history : List (StoreCall Salt)} {row : Row Hash} {time : Int}
    (hrow : row ∈ ((AccountStore.opened dummyHash).run argon2 history).1.rows)
    (hlogin : row.lastLoginAt = some time) : .recordLogin row.id time ∈ history := by
  induction history using List.reverseRecOn generalizing row with
  | nil => cases hrow
  | append_singleton history now ih =>
    rw [AccountStore.run_append_singleton] at hrow
    cases now with
    | createAccount username password salt id now =>
      rw [AccountStore.call] at hrow
      split at hrow
      · rename_i store' account hcreate
        simp only [AccountStore.createAccount] at hcreate
        split at hcreate
        · cases hcreate
        · split at hcreate
          · cases hcreate
          · obtain ⟨rfl, _⟩ := Prod.mk.inj (Except.ok.inj hcreate)
            rcases List.mem_append.mp hrow with hrow | hrow
            · exact List.mem_append_left _ (ih hrow hlogin)
            · obtain rfl := List.mem_singleton.mp hrow
              cases hlogin
      · exact List.mem_append_left _ (ih hrow hlogin)
    | verifyCredentials _ _ | listAccounts => exact List.mem_append_left _ (ih hrow hlogin)
    | recordLogin id now =>
      rw [AccountStore.call_recordLogin] at hrow
      obtain ⟨old, hold, rfl⟩ := List.mem_map.mp hrow
      rw [AccountStore.loggedIn_id]
      rw [Row.loggedIn] at hlogin
      split at hlogin
      · rename_i hid
        obtain rfl := Option.some.inj hlogin
        rw [hid]
        exact List.mem_append_right _ List.mem_cons_self
      · exact List.mem_append_left _ (ih hold hlogin)

/-- A client that selects worlds typed, at the prompts of one attempt, the name and
the password of an account that the calls so far made. The account is in the table,
and no other password opens it. -/
theorem worldSelection_opened (hargon : argon2.Exact) (htotal : argon2.Total)
    (hs₀ : s₀ = start argon2 cfg dummyHash earlier) (hrun : run ctx argon2 s₀ es = some s)
    (hfresh : (drawn (history ctx argon2 earlier s₀ es)).Nodup) {client : Client}
    (hclient : s.server.clients.processes[id]? = some client)
    (hstate : client.connection.session.state = .worldSelection account) :
    ∃ username password tail,
      Attempt ctx (handled ctx argon2 s₀ es id) username password
        (.wrote iacWontEcho (.ok ()) :: .verifyCalled username password ::
          .verifyReturned (.ok (some account)) :: tail) ∧
      Opened argon2 dummyHash (history ctx argon2 earlier s₀ es) username password account ∧
      ∃ row ∈ s.store.object.rows, row.id = account.id ∧ row.username = account.username ∧
        ∀ guess, argon2.verifyPassword guess row.passwordHash = true ↔ guess = password := by
  have hhandles := handled_run (hs₀ ▸ rfl) hrun id
  rw [hclient] at hhandles
  have htold := (Connection.told_run hhandles).2
  rw [hstate] at htold
  obtain ⟨username, password, tail, hattempt, hopened⟩ :=
    opened_of_verified hargon htotal hs₀ hrun hfresh htold
  refine ⟨username, password, tail, hattempt, hopened, ?_⟩
  obtain ⟨marks, hledger⟩ := ledger_run hs₀ hrun
  rw [hledger.linear.object, after_eq_run]
  exact row_of_opened hargon htotal hfresh hopened

def aliceAccount : Account := ⟨7, "Alice", 100, none⟩

/-- Alice's password is accepted, her login is recorded and she sees the worlds. -/
def aliceLogsIn : List (ServiceEvent Unit) :=
  aliceTypesIn ++ firstActs [.other (.verifyReturned (.ok (some aliceAccount))), .reset] ++
    [.loginCalled 0, .performed 0 104] ++
    firstActs [.other (.loginRecorded 7 (.ok ())),
      .other (.wrote (asBytes ("Welcome, Alice.\r\n\r\nAvailable worlds:\r\n\r\n" ++
        "Select a world (1-0, or 'quit'): ")) (.ok ()))]

theorem worldSelection_opened_alice :
    ∃ s, run ⟨⟨[]⟩, 3⟩ AccountStore.clear freshService aliceLogsIn = some s ∧
      ∃ row ∈ s.store.object.rows, row.id = 7 ∧ row.username = "Alice" := by
  have hsome : ((run ⟨⟨[]⟩, 3⟩ AccountStore.clear freshService aliceLogsIn).bind fun s =>
      (s.server.clients.processes[0]?).map fun client => client.connection.session.state) =
        some (.worldSelection aliceAccount) := by
    decide +kernel
  obtain ⟨s, hrun, h⟩ := Option.bind_eq_some_iff.mp hsome
  obtain ⟨client, hclient, hstate⟩ := Option.map_eq_some_iff.mp h
  obtain ⟨_, _, _, _, _, row, hrow, hid, hname, _⟩ := worldSelection_opened AccountStore.clear_exact
    (fun password _ => ⟨password, rfl⟩) rfl hrun (by decide +kernel) hclient hstate
  exact ⟨s, hrun, row, hrow, hid, hname⟩

theorem performed_of_recordLogin {time : Int} {account : AccountId}
    (h : .recordLogin account time ∈ s.callsOf e) :
    ∃ id, e = .performed id time ∧ s.store.tasks id = some (.queued (.recordLogin account)) := by
  cases e with
  | performed id now =>
    rw [callsOf] at h
    split at h
    · rename_i request hqueued
      have hcall := List.mem_singleton.mp h
      cases request with
      | verifyCredentials _ _ => cases hcall
      | recordLogin id' =>
        injection hcall with hid hnow
        subst hid hnow
        exact ⟨id, rfl, hqueued⟩
    · cases h
  | accountCreated _ _ _ _ _ _ =>
    rw [callsOf] at h
    split at h
    · cases List.mem_singleton.mp h
    · cases h
  | signalled | server _ | loginCalled _ => cases h

/-- The call that wrote a login time in a run was made for a client that was verified. -/
theorem verified_of_recordLogin (hs₀ : s₀ = start argon2 cfg dummyHash earlier)
    (hrun : run ctx argon2 s₀ es = some s) {account : AccountId}
    (hqueued : s.store.tasks id = some (.queued (.recordLogin account))) :
    ∃ owner, owner.id = account ∧ Verified ctx (handled ctx argon2 s₀ es id) owner := by
  have hfits := fits_run hs₀ hrun id
  have hhandles := handled_run (hs₀ ▸ rfl) hrun id
  rw [hqueued] at hfits
  cases hclient : s.server.clients.processes[id]? with
  | none =>
    rw [hclient] at hfits
    exact hfits.elim
  | some client =>
    rw [hclient] at hfits hhandles
    have htold := (Connection.told_run hhandles).1
    have hawaits : Awaits client.connection.point (.recordLogin account) := hfits
    unfold Awaits at hawaits
    split at hawaits
    · cases hawaits
    · rename_i owner hp
      rw [hp] at htold
      injection hawaits with hid
      exact ⟨owner, hid.symm, htold⟩
    · exact hawaits.elim

/-- Each login time in the table is from before the run, or was written by a task of a
handler that recorded the login of that row. The client of the handler had typed the name
and the password of the account by then. -/
theorem lastLogin_accounted (hargon : argon2.Exact) (htotal : argon2.Total)
    (hs₀ : s₀ = start argon2 cfg dummyHash earlier) (hrun : run ctx argon2 s₀ es = some s)
    (hfresh : (drawn (history ctx argon2 earlier s₀ es)).Nodup) {row : Row Hash} {time : Int}
    (hrow : row ∈ s.store.object.rows) (hlogin : row.lastLoginAt = some time) :
    .recordLogin row.id time ∈ earlier ∨
      ∃ pre id post t username password account tail, es = pre ++ .performed id time :: post ∧
        run ctx argon2 s₀ pre = some t ∧
        t.store.tasks id = some (.queued (.recordLogin row.id)) ∧
        Attempt ctx (handled ctx argon2 s₀ pre id) username password
          (.wrote iacWontEcho (.ok ()) :: .verifyCalled username password ::
            .verifyReturned (.ok (some account)) :: tail) ∧
        account.id = row.id ∧ sameUsername row.username username = true ∧
        argon2.verifyPassword password row.passwordHash = true := by
  obtain ⟨marks, hledger⟩ := ledger_run hs₀ hrun
  rw [hledger.linear.object, after_eq_run] at hrow
  rcases List.mem_append.mp (recordLogin_mem hrow hlogin) with hmem | hmem
  · exact .inl hmem
  · right
    obtain ⟨pre, e, post, t, hes, hpre, hcall⟩ := Machine.mem_collect hmem
    obtain ⟨id, rfl, hqueued⟩ := performed_of_recordLogin hcall
    obtain ⟨account, hid, hverified⟩ := verified_of_recordLogin hs₀ hpre hqueued
    have hpast : history ctx argon2 earlier s₀ pre <+: history ctx argon2 earlier s₀ es := by
      rw [hes]
      exact history_extends hpre _
    obtain ⟨username, password, tail, hattempt, hopened⟩ := opened_of_verified hargon htotal hs₀ hpre
      (drawn_nodup_of_earlier hpast hfresh) hverified
    have hlater := hopened.later hpast
    obtain ⟨row', hrow', hid', hname, hguess⟩ := row_of_opened hargon htotal hfresh hlater
    have hids := (AccountStore.Tracks.run hargon htotal dummyHash hfresh).ids
    obtain rfl : row' = row := List.inj_on_of_nodup_map hids hrow' hrow (hid'.trans hid)
    refine ⟨pre, id, post, t, username, password, account, tail, hes, hpre, hqueued, hattempt, hid,
      ?_, ?_⟩
    · obtain ⟨_, _, _, hsame⟩ := hlater
      rw [hname]
      exact hsame
    · exact (hguess password).mpr rfl

theorem lastLogin_accounted_alice :
    ∃ pre id post t, aliceLogsIn = pre ++ .performed id 104 :: post ∧
      run ⟨⟨[]⟩, 3⟩ AccountStore.clear freshService pre = some t ∧
      t.store.tasks id = some (.queued (.recordLogin 7)) := by
  have hrows : (run ⟨⟨[]⟩, 3⟩ AccountStore.clear freshService aliceLogsIn).map (fun s =>
      (s.store.object.rows[0]?).map fun row => (row.id, row.lastLoginAt)) =
        some (some (7, some 104)) := by
    decide +kernel
  obtain ⟨s, hrun, hs⟩ := Option.map_eq_some_iff.mp hrows
  obtain ⟨row, hrow, hrecorded⟩ := Option.map_eq_some_iff.mp hs
  obtain ⟨hid, hlogin⟩ := Prod.mk.inj hrecorded
  rcases lastLogin_accounted AccountStore.clear_exact (fun password _ => ⟨password, rfl⟩) rfl hrun
    (by decide +kernel) (List.mem_of_getElem? hrow) hlogin with hearlier | hperformed
  · cases hearlier
  · obtain ⟨pre, id, post, t, _, _, _, _, hes, hpre, hqueued, _⟩ := hperformed
    rw [hid] at hqueued
    exact ⟨pre, id, post, t, hes, hpre, hqueued⟩

end Liaozhai.Server.Service
