import RemotierSync.TokenRows
import RemotierSync.Reference
import RemotierSync.Library.Faults

/-!
# Account handlers under database errors

Register, refresh and rewrap are several store calls, each committed by itself. Any of them may
meet a database error, and the handler returns it. Nothing is undone then: the handler that fails
has left accounts and tokens as they were exactly if the call that failed was not behind one that
had already changed them.
-/

namespace RemotierSync.Faults

open Auth SqliteStore Program

/-- The statement of a call that the database refuses. Creating an account is an insert and a
select, every other call of these handlers one statement. -/
inductive Fault where
  | first
  | second
deriving DecidableEq

variable (P : Platform) (cfg : Config) (now issued : ℤ) (plan : ℕ → Option Fault)

def fault (f : Fault) (c : Call) (db : SqliteDb) : Except Error c.Ret × SqliteDb :=
  match f, c with
  | .second, .createAccount id new =>
    match exec P now (.createAccount id new) db with
    | (.ok _, db') => (.error .db, db')
    | (.error e, db') => (.error e, db')
  | _, _ => (.error .db, db)

/-- A handler whose calls meet the faults of the plan. -/
def attempted {α : Type} (p : Handler α) (db : SqliteDb) : Except Error α × SqliteDb :=
  runFrom (exec P now) (fault P now) plan 0 p db

/-- An error leaves accounts and tokens as they were. -/
def Atomic {α : Type} (db : SqliteDb) (result : Except Error α × SqliteDb) : Prop :=
  ∀ e, result.1 = .error e → result.2.accounts = db.accounts ∧ result.2.tokens = db.tokens

def sessionCalls (deviceId : String) : ℕ := if deviceId ≠ "" then 3 else 2

/-- The account has been inserted, and a later statement fails. -/
def TornRegister (admitted : Bool) (newId : String) (salts : Salts) (body : RegisterRequest)
    (db : SqliteDb) : Prop :=
  (∃ new, registration P cfg admitted salts body = .ok new ∧
      db.toTables.Free P emailEq newId new.email) ∧
    (plan 0 = some .second ∨ (plan 0 = none ∧ Faulty plan 1 (sessionCalls body.deviceId)))

/-- The token has been consumed, and a later call fails or finds no account. -/
def TornRefresh (refreshToken : String) (db : SqliteDb) : Prop :=
  plan 0 = none ∧ ∃ row, db.takeToken now (P.hashToken refreshToken) refreshKind = some row ∧
    (db.accountById row.accountId = none ∨ Faulty plan 1 3)

/-- The credentials have been replaced by others, and the revocation fails. -/
def TornRewrap (salts : Salts) (caller : Caller) (body : RewrapRequest) (db : SqliteDb) : Prop :=
  (plan 0 = none ∧ plan 1 = none ∧ plan 2 ≠ none) ∧
    ∃ account new, db.accountById caller.accountId = some account ∧
      replacement P salts body account = .ok new ∧ account.rewrap new ≠ account

variable {P} {cfg} {now} {issued} {plan} {db : SqliteDb} {minted : Minted} {account : Account}
  {n : ℕ}

theorem fault_eq {f : Fault} {c : Call} (h : ∀ id new, c ≠ .createAccount id new) :
    fault P now f c db = (.error .db, db) := by
  cases f with
  | first => rfl
  | second =>
    cases c with
    | createAccount id new => exact absurd rfl (h id new)
    | _ => rfl

section Ask

variable {α : Type} {c : Call} {next : c.Ret → Handler α} {db' : SqliteDb}

theorem ask_of_ok {r : c.Ret} (hplan : plan n = none) (h : exec P now c db = (.ok r, db')) :
    runFrom (exec P now) (fault P now) plan n (ask c >>= next) db =
      runFrom (exec P now) (fault P now) plan (n + 1) (next r) db' :=
  runFrom_ok hplan h

theorem ask_of_fault {f : Fault} (hplan : plan n = some f)
    (h : ∀ id new, c ≠ .createAccount id new) :
    runFrom (exec P now) (fault P now) plan n (ask c >>= next) db = (.error .db, db) :=
  runFrom_fault hplan (fault_eq h)

end Ask

/-! ## Issuing a session -/

section IssueSession

variable {deviceId : String}

/-- What a session that is not issued has done to the tokens: nothing, or, as long as no device
is to be touched, stored the access token at most. -/
def LeavesTokens (P : Platform) (cfg : Config) (issued : ℤ) (minted : Minted) (accountId : String)
    (deviceId : String) (tokens tokens' : KeyedTable TokenEntry.hash) : Prop :=
  tokens' = tokens ∨
    tokens' = Tables.storeToken tokens (accessRow P cfg issued minted accountId) ∨ deviceId ≠ ""

theorem faulty_sessionCalls : Faulty plan n (sessionCalls deviceId) ↔
    plan n ≠ none ∨ plan (n + 1) ≠ none ∨ (deviceId ≠ "" ∧ plan (n + 1 + 1) ≠ none) := by
  unfold sessionCalls
  by_cases hdevice : deviceId ≠ ""
  · rw [if_pos hdevice, faulty_succ, faulty_succ, faulty_succ]
    simp [hdevice]
  · rw [if_neg hdevice, faulty_succ, faulty_succ]
    simp [hdevice]

theorem run_issueSession (h : db.accountById account.id ≠ none) (deviceName : String) :
    (∃ session db', ¬ Faulty plan n (sessionCalls deviceId) ∧
        runFrom (exec P now) (fault P now) plan n
          (issueSession P cfg issued minted account deviceId deviceName) db = (.ok session, db')) ∨
      ∃ e db', Faulty plan n (sessionCalls deviceId) ∧
        runFrom (exec P now) (fault P now) plan n
          (issueSession P cfg issued minted account deviceId deviceName) db = (.error e, db') ∧
        db'.accounts = db.accounts ∧
        LeavesTokens P cfg issued minted account.id deviceId db.tokens db'.tokens := by
  rw [faulty_sessionCalls]
  unfold issueSession
  cases hfirst : plan n with
  | some f =>
    exact Or.inr ⟨_, _, Or.inl (by simp), ask_of_fault hfirst (by simp), rfl, Or.inl rfl⟩
  | none =>
    rw [ask_of_ok hfirst (exec_putAccess cfg now issued minted h)]
    cases hsecond : plan (n + 1) with
    | some f =>
      exact Or.inr ⟨_, _, Or.inr (Or.inl (by simp)), ask_of_fault hsecond (by simp), rfl,
        Or.inr (Or.inl rfl)⟩
    | none =>
      rw [ask_of_ok hsecond (exec_putRefresh cfg now issued minted h)]
      by_cases hdevice : deviceId ≠ ""
      · rw [if_pos hdevice]
        cases hthird : plan (n + 1 + 1) with
        | some f =>
          exact Or.inr ⟨_, _, Or.inr (Or.inr ⟨hdevice, by simp⟩), ask_of_fault hthird (by simp),
            rfl, Or.inr (Or.inr hdevice)⟩
        | none =>
          let db' : SqliteDb :=
            { db with tokens := withSession P cfg issued minted account.id db.tokens }
          have htouch : ∃ devices, exec P now (.touchDevice account.id deviceId deviceName) db' =
              (.ok (), { db' with devices := devices }) := exec_touchDevice now h
          obtain ⟨devices, htouch⟩ := htouch
          exact Or.inl ⟨_, _, by simp, ask_of_ok hthird htouch⟩
      · rw [if_neg hdevice]
        exact Or.inl ⟨_, _, by simp [hdevice], rfl⟩

end IssueSession

/-! ## The three handlers -/

theorem not_atomic {α : Type} {result : Except Error α × SqliteDb} {e : Error}
    (h : result.1 = .error e)
    (hchanged : result.2.accounts ≠ db.accounts ∨ result.2.tokens ≠ db.tokens) :
    ¬ Atomic db result :=
  fun hatomic => hchanged.elim (fun hne => hne (hatomic e h).1) (fun hne => hne (hatomic e h).2)

section Register

variable {admitted : Bool} {newId : String} {salts : Salts} {body : RegisterRequest}
  {new : NewAccount}

def inserted (P : Platform) (newId : String) (new : NewAccount) (db : SqliteDb) : SqliteDb :=
  { (db.toTables.createAccount P emailEq newId new).2 with next := db.next }

theorem accounts_inserted (hfree : db.toTables.Free P emailEq newId new.email) :
    (inserted P newId new db).accounts =
      db.accounts.upsert (Tables.newAccount P newId new) (fun a => a) (fun _ => rfl) := by
  simp only [inserted, Tables.createAccount_of_free hfree]

theorem accounts_inserted_ne (hfree : db.toTables.Free P emailEq newId new.email) :
    (inserted P newId new db).accounts ≠ db.accounts := by
  rw [accounts_inserted hfree]
  intro hsame
  have hrows := Tables.rows_of_free hfree
  rw [hsame] at hrows
  simpa using congrArg List.length hrows

theorem accountById_inserted (hfree : db.toTables.Free P emailEq newId new.email) :
    (inserted P newId new db).accountById (Tables.newAccount P newId new).id ≠ none := by
  rw [Tables.accountById, accounts_inserted hfree, KeyedTable.find?_upsert_self]
  simp

theorem exec_createAccount_of_free (hfree : db.toTables.Free P emailEq newId new.email) :
    exec P now (.createAccount newId new) db =
      (.ok (Tables.newAccount P newId new), inserted P newId new db) := by
  simp only [exec, SqliteDb.onTables, inserted, Tables.createAccount_of_free hfree]

theorem atomic_create_of_taken (hfree : ¬ db.toTables.Free P emailEq newId new.email)
    {α : Type} (next : Account → Handler α) :
    Atomic db (runFrom (exec P now) (fault P now) plan 0
      (ask (.createAccount newId new) >>= next) db) := by
  have hcreate : exec P now (.createAccount newId new) db = (.error .emailTaken, db) := by
    simp only [exec, SqliteDb.onTables, Tables.createAccount_of_not_free hfree]
  cases hplan : plan 0 with
  | some f =>
    have hfault : ∃ e, fault P now f (.createAccount newId new) db = (.error e, db) := by
      cases f with
      | first => exact ⟨_, rfl⟩
      | second => exact ⟨.emailTaken, by simp only [fault, hcreate]⟩
    obtain ⟨e, hfault⟩ := hfault
    rw [show runFrom (exec P now) (fault P now) plan 0 (ask _ >>= _) db = _ from
      runFrom_fault hplan hfault]
    exact fun _ _ => ⟨rfl, rfl⟩
  | none =>
    rw [show runFrom (exec P now) (fault P now) plan 0 (ask _ >>= _) db = _ from
      runFrom_error hplan hcreate]
    exact fun _ _ => ⟨rfl, rfl⟩

/-- Once the account is inserted, every fault leaves it there. -/
theorem atomic_create_of_free (hfree : db.toTables.Free P emailEq newId new.email)
    (deviceId deviceName : String) :
    Atomic db (runFrom (exec P now) (fault P now) plan 0
        (ask (.createAccount newId new) >>= fun account =>
          issueSession P cfg issued minted account deviceId deviceName) db) ↔
      ¬ (plan 0 = some .second ∨
        (plan 0 = none ∧ Faulty plan 1 (sessionCalls deviceId))) := by
  have hcreate : exec P now (.createAccount newId new) db = _ := exec_createAccount_of_free hfree
  have hchanged := accounts_inserted_ne hfree
  cases hplan : plan 0 with
  | some f =>
    cases f with
    | first =>
      rw [show runFrom (exec P now) (fault P now) plan 0 (ask _ >>= _) db = _ from
        runFrom_fault hplan rfl]
      exact iff_of_true (fun _ _ => ⟨rfl, rfl⟩) (by simp)
    | second =>
      have hfault : fault P now .second (.createAccount newId new) db =
          (.error .db, inserted P newId new db) := by
        simp only [fault, hcreate]
      rw [show runFrom (exec P now) (fault P now) plan 0 (ask _ >>= _) db = _ from
        runFrom_fault hplan hfault]
      exact iff_of_false (not_atomic rfl (Or.inl hchanged)) (by simp)
  | none =>
    rw [ask_of_ok hplan hcreate]
    rcases run_issueSession (accountById_inserted hfree) deviceName with
      ⟨session, db₂, hnot, hrun⟩ | ⟨e, db₂, hfaulty, hrun, haccounts, _⟩
    · rw [hrun]
      exact iff_of_true (fun e h => by cases h) (by simp [hnot])
    · rw [hrun]
      exact iff_of_false (not_atomic rfl (Or.inl (by rwa [haccounts]))) (by simp [hfaulty])

theorem atomic_register_iff : Atomic db (attempted P now plan
      (register P cfg issued admitted newId salts minted body) db) ↔
    ¬ TornRegister P cfg plan admitted newId salts body db := by
  rw [register_eq, attempted, TornRegister]
  cases hnew : registration P cfg admitted salts body with
  | error e =>
    rw [lift_bind_error rfl]
    refine iff_of_true (fun _ _ => ⟨rfl, rfl⟩) ?_
    rintro ⟨⟨new, hok, _⟩, _⟩
    cases hok
  | ok new =>
    rw [lift_bind_ok rfl]
    by_cases hfree : db.toTables.Free P emailEq newId new.email
    · have hinserted : ∃ new', (.ok new : Except Error NewAccount) = .ok new' ∧
          db.toTables.Free P emailEq newId new'.email := ⟨new, rfl, hfree⟩
      rw [atomic_create_of_free hfree, and_iff_right hinserted]
    · have htaken : ¬ ∃ new', (.ok new : Except Error NewAccount) = .ok new' ∧
          db.toTables.Free P emailEq newId new'.email := by
        rintro ⟨new', hok, hfree'⟩
        obtain rfl := Except.ok.inj hok
        exact hfree hfree'
      exact iff_of_true (atomic_create_of_taken hfree _) (fun htorn => htaken htorn.1)

end Register

section Refresh

variable {refreshToken : String}

theorem not_mem_storeToken {tokens : KeyedTable TokenEntry.hash} {row added : TokenEntry}
    (hgone : ∀ stored ∈ tokens.rows, stored.hash ≠ row.hash) (hkind : added.kind ≠ row.kind) :
    row ∉ (Tables.storeToken tokens added).rows := by
  intro hmem
  rcases KeyedTable.mem_upsert.mp hmem with ⟨hold, _⟩ | heq
  · exact hgone row hold rfl
  · cases hfind : tokens.find? added.hash with
    | none =>
      rw [KeyedTable.upserted_of_find?_none hfind] at heq
      exact hkind (congrArg TokenEntry.kind heq.symm)
    | some old =>
      rw [KeyedTable.upserted_of_find?_some hfind] at heq
      have hhash := congrArg TokenEntry.hash heq
      exact hgone old (KeyedTable.find?_eq_some.mp hfind).1 hhash.symm

def consumed (P : Platform) (now : ℤ) (refreshToken : String) (db : SqliteDb) : SqliteDb :=
  { db with tokens := (db.consumeToken now (P.hashToken refreshToken) refreshKind).2.tokens }

theorem gone_of_consumed {row : TokenRow}
    (htoken : db.takeToken now (P.hashToken refreshToken) refreshKind = some row) :
    ∃ stored ∈ db.tokens.rows, stored.kind = refreshKind ∧
      ∀ other ∈ (consumed P now refreshToken db).tokens.rows, other.hash ≠ stored.hash := by
  obtain ⟨stored, hstored, hhash, hkind, hlive, _⟩ := row_of_takeToken htoken
  refine ⟨stored, hstored, hkind, ?_⟩
  intro other hother hsame
  obtain ⟨hmem, hnot⟩ := KeyedTable.mem_delete.mp hother
  obtain rfl := db.tokens.eq_of_key_eq hmem hstored hsame
  rw [← Bool.not_eq_true, Tables.isLive_iff] at hnot
  exact hnot ⟨hhash, hkind, hlive⟩

/-- What a session that fails has stored does not bring the consumed token back. -/
theorem tokens_ne_of_consumed {row : TokenRow} {accountId : String}
    {tokens : KeyedTable TokenEntry.hash}
    (htoken : db.takeToken now (P.hashToken refreshToken) refreshKind = some row)
    (hleaves : LeavesTokens P cfg issued minted accountId ""
      (consumed P now refreshToken db).tokens tokens) : tokens ≠ db.tokens := by
  obtain ⟨stored, hstored, hkind, hgone⟩ := gone_of_consumed htoken
  suffices hnot : stored ∉ tokens.rows from fun hsame => hnot (hsame ▸ hstored)
  rcases hleaves with hkept | haccess | hdevice
  · rw [hkept]
    exact fun h => hgone stored h rfl
  · rw [haccess]
    refine not_mem_storeToken hgone ?_
    rw [hkind]
    exact access_ne_refreshKind
  · exact absurd rfl hdevice

/-- A session that fails behind the consumed token leaves it consumed. -/
theorem atomic_session_of_consumed {row : TokenRow}
    (htoken : db.takeToken now (P.hashToken refreshToken) refreshKind = some row)
    (haccount : db.accountById row.accountId = some account) :
    Atomic db (runFrom (exec P now) (fault P now) plan 2
        (issueSession P cfg issued minted account "" "") (consumed P now refreshToken db)) ↔
      ¬ Faulty plan 2 2 := by
  have hexists : (consumed P now refreshToken db).accountById account.id ≠ none := by
    have hfound : (consumed P now refreshToken db).accountById account.id = some account := by
      rw [KeyedTable.find?_key_eq haccount]
      exact haccount
    simp [hfound]
  rcases run_issueSession hexists "" with
    ⟨session, db₂, hnot, hrun⟩ | ⟨e, db₂, hfaulty, hrun, _, htokens⟩
  · rw [hrun]
    exact iff_of_true (fun e h => by cases h) (by simpa [sessionCalls] using hnot)
  · rw [hrun]
    exact iff_of_false (not_atomic rfl (Or.inr (tokens_ne_of_consumed htoken htokens)))
      (by simpa [sessionCalls] using hfaulty)

theorem atomic_refresh_iff : Atomic db (attempted P now plan
      (refresh P cfg issued minted refreshToken) db) ↔
    ¬ TornRefresh P now plan refreshToken db := by
  rw [attempted, TornRefresh]
  unfold refresh
  cases hfirst : plan 0 with
  | some f =>
    rw [ask_of_fault hfirst (by simp)]
    exact iff_of_true (fun _ _ => ⟨rfl, rfl⟩) (by simp)
  | none =>
    have hconsume : exec P now (.consumeToken (P.hashToken refreshToken) refreshKind) db =
        (.ok (db.takeToken now (P.hashToken refreshToken) refreshKind),
          consumed P now refreshToken db) := rfl
    rw [ask_of_ok hfirst hconsume]
    cases htoken : db.takeToken now (P.hashToken refreshToken) refreshKind with
    | none =>
      have hkept : (consumed P now refreshToken db).tokens = db.tokens :=
        congrArg (fun r => r.2.tokens) (Tables.consumeToken_of_none htoken)
      exact iff_of_true (fun _ _ => ⟨rfl, hkept⟩) (by simp)
    | some row =>
      have hconsumed : (consumed P now refreshToken db).tokens ≠ db.tokens := by
        obtain ⟨stored, hstored, _, hgone⟩ := gone_of_consumed htoken
        exact fun hsame => hgone stored (hsame ▸ hstored) rfl
      have hsome : ∀ torn : Prop, (True ∧ ∃ row', some row = some row' ∧
          (db.accountById row'.accountId = none ∨ torn)) ↔
            (db.accountById row.accountId = none ∨ torn) := by simp
      rw [eq_self, hsome, faulty_succ]
      dsimp only
      cases hsecond : plan 1 with
      | some f =>
        rw [ask_of_fault hsecond (by simp)]
        exact iff_of_false (not_atomic rfl (Or.inr hconsumed)) (by simp)
      | none =>
        have hfind : exec P now (.accountById row.accountId) (consumed P now refreshToken db) =
            (.ok (db.accountById row.accountId), consumed P now refreshToken db) := rfl
        rw [ask_of_ok hsecond hfind]
        cases haccount : db.accountById row.accountId with
        | none => exact iff_of_false (not_atomic rfl (Or.inr hconsumed)) (by simp)
        | some account =>
          refine (atomic_session_of_consumed htoken haccount).trans ?_
          simp

end Refresh

section Rewrap

variable {salts : Salts} {caller : Caller} {body : RewrapRequest} {id : String} {new : NewAccount}

theorem rewrapAccount_eq_iff (haccount : db.accountById id = some account) :
    (db.rewrapAccount id new).accounts = db.accounts ↔ account.rewrap new = account := by
  obtain ⟨hmem, hid⟩ := KeyedTable.find?_eq_some.mp haccount
  constructor
  · intro hsame
    have hrewrapped : account.rewrap new ∈ db.accounts.rows := by
      rw [← hsame]
      exact Tables.mem_rewrapAccount.mpr ⟨account, hmem, if_pos hid⟩
    exact db.accounts.eq_of_key_eq hrewrapped hmem rfl
  · intro hsame
    refine KeyedTable.update_eq_self (Account.rewrap_id new) (fun other hother hkey => ?_)
    rw [db.accounts.eq_of_key_eq hother hmem ((of_decide_eq_true hkey).trans hid.symm)]
    exact hsame

def rewrapped (id : String) (new : NewAccount) (db : SqliteDb) : SqliteDb :=
  { db with accounts := (db.rewrapAccount id new).accounts }

theorem atomic_revoke_iff (haccount : db.accountById account.id = some account) :
    Atomic db (runFrom (exec P now) (fault P now) plan 2 (ask (.revokeAccountTokens account.id))
        (rewrapped account.id new db)) ↔
      ¬ (plan 2 ≠ none ∧ account.rewrap new ≠ account) := by
  cases hplan : plan 2 with
  | some f =>
    have hfault : fault P now f (.revokeAccountTokens account.id) (rewrapped account.id new db) =
        (.error .db, rewrapped account.id new db) := fault_eq (by simp)
    have hrun : runFrom (exec P now) (fault P now) plan 2 (ask (.revokeAccountTokens account.id))
        (rewrapped account.id new db) = (.error .db, rewrapped account.id new db) :=
      runFrom_fault (f := .pure) hplan hfault
    have hatomic : Atomic db ((.error .db, rewrapped account.id new db) :
        Except Error Unit × SqliteDb) ↔ account.rewrap new = account := by
      rw [← rewrapAccount_eq_iff haccount]
      exact ⟨fun h => (h _ rfl).1, fun h _ _ => ⟨h, rfl⟩⟩
    rw [hrun, hatomic]
    simp
  | none =>
    have hrevoke : exec P now (.revokeAccountTokens account.id) (rewrapped account.id new db) =
        (.ok (), { rewrapped account.id new db with
          tokens := ((rewrapped account.id new db).revokeAccountTokens account.id).tokens }) := rfl
    have hrun : runFrom (exec P now) (fault P now) plan 2 (ask (.revokeAccountTokens account.id))
        (rewrapped account.id new db) = (.ok (), _) := runFrom_ok (f := .pure) hplan hrevoke
    rw [hrun]
    exact iff_of_true (fun e h => by cases h) (by simp)

theorem atomic_rewrap_iff : Atomic db (attempted P now plan (rewrap P salts caller body) db) ↔
    ¬ TornRewrap P plan salts caller body db := by
  rw [rewrap_eq, attempted, TornRewrap]
  cases hfirst : plan 0 with
  | some f =>
    rw [ask_of_fault hfirst (by simp)]
    exact iff_of_true (fun _ _ => ⟨rfl, rfl⟩) (by simp)
  | none =>
    have hfind : exec P now (.accountById caller.accountId) db =
        (.ok (db.accountById caller.accountId), db) := rfl
    rw [ask_of_ok hfirst hfind]
    cases haccount : db.accountById caller.accountId with
    | none => exact iff_of_true (fun _ _ => ⟨rfl, rfl⟩) (by simp)
    | some account =>
      dsimp only
      cases hnew : replacement P salts body account with
      | error e =>
        rw [lift_bind_error rfl]
        exact iff_of_true (fun _ _ => ⟨rfl, rfl⟩) (by simp [hnew])
      | ok new =>
        rw [lift_bind_ok rfl]
        have hself : db.accountById account.id = some account := by
          rw [show account.id = caller.accountId from KeyedTable.find?_key_eq haccount, haccount]
        cases hsecond : plan 1 with
        | some f =>
          rw [ask_of_fault hsecond (by simp)]
          exact iff_of_true (fun _ _ => ⟨rfl, rfl⟩) (by simp)
        | none =>
          have hwrite : exec P now (.rewrapAccount account.id new) db =
              (.ok (), rewrapped account.id new db) := rfl
          rw [ask_of_ok hsecond hwrite]
          refine (atomic_revoke_iff hself).trans ?_
          simp [hnew]

end Rewrap

/-- What the three handlers leave behind when they fail, under every plan of faults. -/
theorem atomic_iff (P : Platform) (cfg : Config) (now issued : ℤ) (plan : ℕ → Option Fault)
    (db : SqliteDb) :
    (∀ admitted newId salts minted body,
      Atomic db (attempted P now plan
          (register P cfg issued admitted newId salts minted body) db) ↔
        ¬ TornRegister P cfg plan admitted newId salts body db) ∧
    (∀ minted refreshToken,
      Atomic db (attempted P now plan (refresh P cfg issued minted refreshToken) db) ↔
        ¬ TornRefresh P now plan refreshToken db) ∧
    ∀ salts caller body,
      Atomic db (attempted P now plan (rewrap P salts caller body) db) ↔
        ¬ TornRewrap P plan salts caller body db :=
  ⟨fun _ _ _ _ _ => atomic_register_iff, fun _ _ => atomic_refresh_iff,
    fun _ _ _ => atomic_rewrap_iff⟩

/-- Ada, signed in, changes her password, and the third call of the handler fails. -/
def interrupted : Except Error Unit × SqliteDb :=
  attempted .reference 1 (fun n => if n = 2 then some .first else none)
    (rewrap .reference ⟨"salt", "recovery"⟩ ⟨"ada"⟩ {
      authKey := "new key"
      keyMaterial := Reference.keys
      recoveryAuthKey := "new code"
      recoveryMaterial := Reference.keys })
    (Server.reached .reference Reference.config [Reference.registration "ada"])

/-- The error leaves the new password in force and the old session alive. -/
theorem interrupted_rewrap_keeps_session :
    ¬ Atomic (Server.reached .reference Reference.config [Reference.registration "ada"])
        interrupted ∧
      (interrupted.2.accountById "ada").map (·.authHash) = some "salt$new key" ∧
      interrupted.2.takeToken 2 (Platform.reference.hashToken "access-ada") access =
        some ⟨"ada"⟩ := by
  refine ⟨?_, by decide +kernel, by decide +kernel⟩
  have herror : interrupted.1 = .error .db := by decide +kernel
  refine not_atomic herror (Or.inl (fun hsame => ?_))
  exact absurd (congrArg KeyedTable.rows hsame) (by decide +kernel)

end RemotierSync.Faults
