import RemotierSync.Server
import Mathlib.Data.List.TakeDrop

/-!
# What the account handlers leave

Each handler that opens a session is a question, the creation of an account or the consumption of
a token, and the session issued for what it found. `registration` and `replacement` are what a
register and a rewrap hand to the store, or why they refuse.
-/

namespace RemotierSync.Auth

open SqliteStore

variable (P : Platform) (cfg : Config)

/-! ## Blobs in one string -/

section Blobs

variable {front back : List Char} {blob : SealedBlob}

theorem splitOnce_append (h : '.' ∉ front) :
    splitOnce (String.ofList (front ++ '.' :: back)) =
      some (String.ofList front, String.ofList back) := by
  have hspan : (front ++ '.' :: back).span (fun c => c ≠ '.') = (front, '.' :: back) := by
    rw [List.span_eq_takeWhile_dropWhile, List.takeWhile_append_of_pos,
      List.dropWhile_append_of_pos]
    · simp
    · intro c hc
      simpa using ne_of_mem_of_not_mem hc h
    · intro c hc
      simpa using ne_of_mem_of_not_mem hc h
  unfold splitOnce
  rw [String.toList_ofList, hspan]

theorem encode_eq (blob : SealedBlob) :
    encode blob = String.ofList (blob.nonce.toList ++ '.' :: blob.ciphertext.toList) := by
  rw [← String.toList_inj, String.toList_ofList]
  simp [encode]

theorem decode_append (h : '.' ∉ front) : decode (String.ofList (front ++ '.' :: back)) =
    ⟨String.ofList front, String.ofList back⟩ := by
  simp only [decode, splitOnce_append h, Option.getD_some]

/-- A blob whose nonce contains the separator is split too early. -/
theorem decode_encode_of_mem (h : '.' ∈ blob.nonce.toList) : ∃ front back,
    blob.nonce.toList = front ++ '.' :: back ∧
      decode (encode blob) =
        ⟨String.ofList front, String.ofList (back ++ '.' :: blob.ciphertext.toList)⟩ := by
  obtain ⟨front, back, hnonce, hfront⟩ := List.eq_append_cons_of_mem h
  refine ⟨front, back, hnonce, ?_⟩
  rw [encode_eq, hnonce, List.append_assoc, List.cons_append]
  exact decode_append hfront

theorem decode_encode (h : '.' ∉ blob.nonce.toList) : decode (encode blob) = blob := by
  rw [encode_eq, decode_append h, String.ofList_toList, String.ofList_toList]

theorem decode_encode_iff : decode (encode blob) = blob ↔ '.' ∉ blob.nonce.toList := by
  refine ⟨?_, decode_encode⟩
  intro h hmem
  obtain ⟨front, back, hnonce, hdecode⟩ := decode_encode_of_mem hmem
  have hfront := congrArg (fun b => b.nonce.toList.length) (hdecode.symm.trans h)
  simp only [String.toList_ofList, hnonce, List.length_append, List.length_cons] at hfront
  omega

theorem ciphertext_decode_encode : (decode (encode blob)).ciphertext = "" ↔
    blob.ciphertext = "" ∧ '.' ∉ blob.nonce.toList := by
  by_cases hmem : '.' ∈ blob.nonce.toList
  · obtain ⟨front, back, _, hdecode⟩ := decode_encode_of_mem hmem
    rw [hdecode]
    refine iff_of_false ?_ (fun h => h.2 hmem)
    intro hempty
    have hlength := congrArg (fun s => s.toList.length) hempty
    simp at hlength
  · rw [decode_encode hmem]
    exact ⟨fun h => ⟨h, hmem⟩, And.left⟩

end Blobs

/-! ## What the handlers hand to the store -/

/-- What a register hands to `create_account`. -/
def registration (admitted : Bool) (salts : Salts) (body : RegisterRequest) :
    Except Error NewAccount :=
  if !admitted then .error .rateLimited
  else if !cfg.registrationOpen then .error .registrationClosed
  else do
    validateEmail body.email
    if body.recoveryMaterial.wrappedPersonalKey.ciphertext = "" then
      .error (.badRequest
        "recovery material is required - without it a forgotten password is unrecoverable")
    else do
      let authHash ← hashAuthKey P body.authKey salts.auth
      let recoveryAuthHash ← hashAuthKey P body.recoveryAuthKey salts.recovery
      return {
        email := body.email
        authHash := authHash
        recoveryAuthHash := recoveryAuthHash
        accountPublic := body.keyMaterial.accountPublic
        wrappedAccountSecret := encode body.keyMaterial.wrappedAccountSecret
        wrappedPersonalKey := encode body.keyMaterial.wrappedPersonalKey
        recoveryAccountSecret := encode body.recoveryMaterial.wrappedAccountSecret
        recoveryPersonalKey := encode body.recoveryMaterial.wrappedPersonalKey }

def replacement (salts : Salts) (body : RewrapRequest) (account : Account) :
    Except Error NewAccount := do
  let authHash ← hashAuthKey P body.authKey salts.auth
  let recoveryAuthHash ← hashAuthKey P body.recoveryAuthKey salts.recovery
  return {
    email := account.email
    authHash := authHash
    recoveryAuthHash := recoveryAuthHash
    accountPublic := account.accountPublic
    wrappedAccountSecret := encode body.keyMaterial.wrappedAccountSecret
    wrappedPersonalKey := encode body.keyMaterial.wrappedPersonalKey
    recoveryAccountSecret := encode body.recoveryMaterial.wrappedAccountSecret
    recoveryPersonalKey := encode body.recoveryMaterial.wrappedPersonalKey }

def sessionOf (minted : Minted) (account : Account) : Session where
  accountId := account.id
  email := account.email
  accessToken := minted.accessToken
  refreshToken := minted.refreshToken
  expiresIn := cfg.accessTtlSecs
  keyMaterial := keyMaterial account

def accessRow (now : ℤ) (minted : Minted) (accountId : String) : TokenEntry :=
  ⟨P.hashToken minted.accessToken, accountId, access, now + cfg.accessTtlSecs * 1000⟩

def refreshRow (now : ℤ) (minted : Minted) (accountId : String) : TokenEntry :=
  ⟨P.hashToken minted.refreshToken, accountId, refreshKind, now + refreshTtlMs⟩

def withSession (now : ℤ) (minted : Minted) (accountId : String)
    (tokens : KeyedTable TokenEntry.hash) : KeyedTable TokenEntry.hash :=
  Tables.storeToken (Tables.storeToken tokens (accessRow P cfg now minted accountId))
    (refreshRow P now minted accountId)

variable {P} {cfg} {now issued : ℤ} {admitted : Bool} {newId : String} {salts : Salts}
  {minted : Minted} {db : SqliteDb} {account : Account} {caller : Caller}

theorem registration_of_valid {body : RegisterRequest} {authHash recoveryAuthHash : String}
    (hopen : cfg.registrationOpen = true) (hemail : validateEmail body.email = .ok ())
    (hrecovery : body.recoveryMaterial.wrappedPersonalKey.ciphertext ≠ "")
    (hauth : P.hashPassword body.authKey salts.auth = .ok authHash)
    (hrecoveryAuth : P.hashPassword body.recoveryAuthKey salts.recovery = .ok recoveryAuthHash) :
    registration P cfg true salts body = .ok {
      email := body.email
      authHash := authHash
      recoveryAuthHash := recoveryAuthHash
      accountPublic := body.keyMaterial.accountPublic
      wrappedAccountSecret := encode body.keyMaterial.wrappedAccountSecret
      wrappedPersonalKey := encode body.keyMaterial.wrappedPersonalKey
      recoveryAccountSecret := encode body.recoveryMaterial.wrappedAccountSecret
      recoveryPersonalKey := encode body.recoveryMaterial.wrappedPersonalKey } := by
  simp [registration, hashAuthKey, hopen, hemail, hrecovery, hauth, hrecoveryAuth, bind,
    Except.bind, Except.mapError, pure, Except.pure]

theorem registration_eq_ok {body : RegisterRequest} {new : NewAccount}
    (h : registration P cfg admitted salts body = .ok new) :
    body.recoveryMaterial.wrappedPersonalKey.ciphertext ≠ "" ∧
      ∃ authHash recoveryAuthHash, P.hashPassword body.authKey salts.auth = .ok authHash ∧
        P.hashPassword body.recoveryAuthKey salts.recovery = .ok recoveryAuthHash ∧
        new = {
          email := body.email
          authHash := authHash
          recoveryAuthHash := recoveryAuthHash
          accountPublic := body.keyMaterial.accountPublic
          wrappedAccountSecret := encode body.keyMaterial.wrappedAccountSecret
          wrappedPersonalKey := encode body.keyMaterial.wrappedPersonalKey
          recoveryAccountSecret := encode body.recoveryMaterial.wrappedAccountSecret
          recoveryPersonalKey := encode body.recoveryMaterial.wrappedPersonalKey } := by
  unfold registration hashAuthKey at h
  cases admitted with
  | false => simp at h
  | true =>
    by_cases hopen : cfg.registrationOpen = true
    · cases hemail : validateEmail body.email with
      | error e => simp [hopen, hemail, bind, Except.bind] at h
      | ok u =>
        by_cases hempty : body.recoveryMaterial.wrappedPersonalKey.ciphertext = ""
        · simp [hopen, hemail, hempty, bind, Except.bind] at h
        · cases hauth : P.hashPassword body.authKey salts.auth with
          | error e => simp [hopen, hemail, hempty, hauth, bind, Except.bind, Except.mapError] at h
          | ok authHash =>
            cases hrecovery : P.hashPassword body.recoveryAuthKey salts.recovery with
            | error e =>
              simp [hopen, hemail, hempty, hauth, hrecovery, bind, Except.bind,
                Except.mapError] at h
            | ok recoveryAuthHash =>
              simp only [hopen, hemail, hempty, hauth, hrecovery, bind, Except.bind,
                Except.mapError, Bool.not_true, Bool.false_eq_true, if_false, pure, Except.pure,
                Except.ok.injEq] at h
              exact ⟨hempty, authHash, recoveryAuthHash, rfl, rfl, h.symm⟩
    · simp [hopen] at h

theorem replacement_eq_ok {body : RewrapRequest} {new : NewAccount}
    (h : replacement P salts body account = .ok new) :
    ∃ authHash recoveryAuthHash, P.hashPassword body.authKey salts.auth = .ok authHash ∧
      P.hashPassword body.recoveryAuthKey salts.recovery = .ok recoveryAuthHash ∧
      new = {
        email := account.email
        authHash := authHash
        recoveryAuthHash := recoveryAuthHash
        accountPublic := account.accountPublic
        wrappedAccountSecret := encode body.keyMaterial.wrappedAccountSecret
        wrappedPersonalKey := encode body.keyMaterial.wrappedPersonalKey
        recoveryAccountSecret := encode body.recoveryMaterial.wrappedAccountSecret
        recoveryPersonalKey := encode body.recoveryMaterial.wrappedPersonalKey } := by
  unfold replacement hashAuthKey at h
  cases hauth : P.hashPassword body.authKey salts.auth with
  | error e => simp [hauth, bind, Except.bind, Except.mapError] at h
  | ok authHash =>
    cases hrecovery : P.hashPassword body.recoveryAuthKey salts.recovery with
    | error e => simp [hauth, hrecovery, bind, Except.bind, Except.mapError] at h
    | ok recoveryAuthHash =>
      simp only [hauth, hrecovery, bind, Except.bind, Except.mapError, pure, Except.pure,
        Except.ok.injEq] at h
      exact ⟨authHash, recoveryAuthHash, rfl, rfl, h.symm⟩

theorem lift_bind_error {α β : Type} {x : Except Error α} {f : α → Handler β} {e : Error}
    (h : x = .error e) : (lift x >>= f) = .fail e := by
  subst h
  rfl

theorem lift_bind_ok {α β : Type} {x : Except Error α} {f : α → Handler β} {a : α}
    (h : x = .ok a) : (lift x >>= f) = f a := by
  subst h
  rfl

theorem register_eq (body : RegisterRequest) :
    register P cfg issued admitted newId salts minted body =
      (lift (registration P cfg admitted salts body) >>= fun new =>
        ask (.createAccount newId new) >>= fun account =>
          issueSession P cfg issued minted account body.deviceId body.deviceName) := by
  unfold register registration
  cases admitted with
  | false => rfl
  | true =>
    by_cases hopen : (!cfg.registrationOpen) = true
    · simp only [hopen, if_true]
      rfl
    · simp only [hopen]
      cases validateEmail body.email with
      | error e => rfl
      | ok u =>
        by_cases hrecovery : body.recoveryMaterial.wrappedPersonalKey.ciphertext = ""
        · simp only [hrecovery, if_true]
          rfl
        · simp only [hrecovery, if_false]
          cases hashAuthKey P body.authKey salts.auth with
          | error e => rfl
          | ok authHash => cases hashAuthKey P body.recoveryAuthKey salts.recovery <;> rfl

theorem rewrap_eq (body : RewrapRequest) :
    rewrap P salts caller body =
      (ask (.accountById caller.accountId) >>= fun found =>
        match found with
        | none => .fail .notFound
        | some account =>
          lift (replacement P salts body account) >>= fun new =>
            ask (.rewrapAccount account.id new) >>= fun _ =>
              ask (.revokeAccountTokens account.id)) := by
  unfold rewrap replacement
  apply congrArg
  funext found
  cases found with
  | none => rfl
  | some account =>
    cases hashAuthKey P body.authKey salts.auth with
    | error e => rfl
    | ok authHash => cases hashAuthKey P body.recoveryAuthKey salts.recovery <;> rfl

variable (cfg now issued minted)

theorem exec_putToken {row : TokenEntry} (hkind : row.kind = access ∨ row.kind = refreshKind)
    (h : db.accountById row.accountId ≠ none) :
    exec P now (.putToken row.hash row.accountId row.kind row.expiresAt) db =
      (.ok (), { db with tokens := Tables.storeToken db.tokens row }) := by
  simp only [exec, SqliteDb.onTables, Tables.putToken_of_account hkind h]

theorem exec_putAccess (h : db.accountById account.id ≠ none) :
    exec P now (.putToken (P.hashToken minted.accessToken) account.id access
        (issued + cfg.accessTtlSecs * 1000)) db =
      (.ok (), { db with
        tokens := Tables.storeToken db.tokens (accessRow P cfg issued minted account.id) }) :=
  exec_putToken now (Or.inl rfl : (accessRow P cfg issued minted account.id).kind = _ ∨ _) h

theorem exec_putRefresh (h : db.accountById account.id ≠ none) :
    exec P now (.putToken (P.hashToken minted.refreshToken) account.id refreshKind
        (issued + refreshTtlMs))
      { db with tokens := Tables.storeToken db.tokens (accessRow P cfg issued minted account.id) } =
      (.ok (), { db with tokens := withSession P cfg issued minted account.id db.tokens }) :=
  exec_putToken now (Or.inr rfl : _ ∨ (refreshRow P issued minted account.id).kind = _) h

theorem exec_touchDevice {deviceId name : String} (h : db.accountById account.id ≠ none) :
    ∃ devices, exec P now (.touchDevice account.id deviceId name) db =
      (.ok (), { db with devices := devices }) := by
  have htouch : ∃ devices, db.toTables.touchDevice now account.id deviceId name = _ :=
    Tables.touchDevice_of_account h
  obtain ⟨devices, htouch⟩ := htouch
  refine ⟨devices, ?_⟩
  simp only [exec, SqliteDb.onTables, htouch]

/-- A session is issued for every account that exists. -/
theorem run_issueSession (h : db.accountById account.id ≠ none) (deviceId deviceName : String) :
    ∃ devices, Program.run (exec P now)
        (issueSession P cfg issued minted account deviceId deviceName) db =
      (.ok (sessionOf cfg minted account), { db with
        tokens := withSession P cfg issued minted account.id db.tokens
        devices := devices }) := by
  unfold issueSession
  rw [Program.run_bind_ok _ ((run_ask _ _ _).trans (exec_putAccess cfg now issued minted h)),
    Program.run_bind_ok _ ((run_ask _ _ _).trans (exec_putRefresh cfg now issued minted h))]
  by_cases hdevice : deviceId ≠ ""
  · let db' : SqliteDb := { db with tokens := withSession P cfg issued minted account.id db.tokens }
    have htouch : ∃ devices, exec P now (.touchDevice account.id deviceId deviceName) db' =
        (.ok (), { db' with devices := devices }) := exec_touchDevice now h
    obtain ⟨devices, htouch⟩ := htouch
    rw [if_pos hdevice, Program.run_bind_ok _ ((run_ask _ _ _).trans htouch)]
    exact ⟨devices, rfl⟩
  · rw [if_neg hdevice]
    exact ⟨db.devices, rfl⟩

/-! ## One handler after the other -/

theorem run_register_of_ok {body : RegisterRequest} {new : NewAccount}
    (hnew : registration P cfg admitted salts body = .ok new)
    (hfree : db.toTables.Free P emailEq newId new.email) :
    ∃ devices, Program.run (exec P now)
        (register P cfg issued admitted newId salts minted body) db =
      (.ok (sessionOf cfg minted (Tables.newAccount P newId new)), { db with
        accounts := db.accounts.upsert (Tables.newAccount P newId new) (fun a => a) (fun _ => rfl)
        tokens := withSession P cfg issued minted newId db.tokens
        devices := devices }) := by
  let db₁ : SqliteDb := { db with
    accounts := db.accounts.upsert (Tables.newAccount P newId new) (fun a => a) (fun _ => rfl) }
  have hcreate : exec P now (.createAccount newId new) db =
      (.ok (Tables.newAccount P newId new), db₁) := by
    simp only [exec, SqliteDb.onTables, Tables.createAccount_of_free hfree]
    rfl
  have hexists : db₁.accountById (Tables.newAccount P newId new).id ≠ none := by
    have hself : db₁.accounts.find? (Tables.newAccount P newId new).id = some _ :=
      KeyedTable.find?_upsert_self
    rw [Tables.accountById, hself]
    simp
  rw [register_eq, lift_bind_ok hnew, Program.run_bind_ok _ ((run_ask _ _ _).trans hcreate)]
  exact run_issueSession cfg now issued minted hexists body.deviceId body.deviceName

theorem run_register_of_error {body : RegisterRequest}
    (h : ∀ new, registration P cfg admitted salts body = .ok new →
      ¬ db.toTables.Free P emailEq newId new.email) :
    ∃ e, Program.run (exec P now) (register P cfg issued admitted newId salts minted body) db =
      (.error e, db) := by
  rw [register_eq]
  cases hnew : registration P cfg admitted salts body with
  | error e => exact ⟨e, by rw [lift_bind_error rfl]; rfl⟩
  | ok new =>
    have hcreate : exec P now (.createAccount newId new) db = (.error .emailTaken, db) := by
      simp only [exec, SqliteDb.onTables, Tables.createAccount_of_not_free (h new hnew)]
    rw [lift_bind_ok rfl, Program.run_bind_error _ ((run_ask _ _ _).trans hcreate)]
    exact ⟨_, rfl⟩

theorem run_rewrap_of_ok {body : RewrapRequest} {new : NewAccount}
    (haccount : db.accountById caller.accountId = some account)
    (hnew : replacement P salts body account = .ok new) :
    Program.run (exec P now) (rewrap P salts caller body) db =
      (.ok (), { db with
        accounts := (db.rewrapAccount caller.accountId new).accounts
        tokens := (db.revokeAccountTokens caller.accountId).tokens }) := by
  have hid : account.id = caller.accountId := KeyedTable.find?_key_eq haccount
  have hfind : exec P now (.accountById caller.accountId) db = (.ok (some account), db) := by
    simp only [exec, haccount]
  rw [rewrap_eq, Program.run_bind_ok _ ((run_ask _ _ _).trans hfind)]
  dsimp only
  rw [lift_bind_ok hnew, hid, Program.run_bind, run_ask]
  rfl

theorem run_rewrap_of_error {body : RewrapRequest}
    (h : ∀ account, db.accountById caller.accountId = some account →
      ∀ new, replacement P salts body account ≠ .ok new) :
    ∃ e, Program.run (exec P now) (rewrap P salts caller body) db = (.error e, db) := by
  have hfind : exec P now (.accountById caller.accountId) db =
      (.ok (db.accountById caller.accountId), db) := rfl
  rw [rewrap_eq, Program.run_bind_ok _ ((run_ask _ _ _).trans hfind)]
  cases haccount : db.accountById caller.accountId with
  | none => exact ⟨_, rfl⟩
  | some account =>
    dsimp only
    cases hnew : replacement P salts body account with
    | error e => exact ⟨e, by rw [lift_bind_error rfl]; rfl⟩
    | ok new => exact absurd hnew (h account haccount new)

/-- A rewrap that succeeds has found the account and its new credentials. -/
theorem exists_replacement {body : RewrapRequest}
    (h : (Program.run (exec P now) (rewrap P salts caller body) db).1 = .ok ()) :
    ∃ account new, db.accountById caller.accountId = some account ∧
      replacement P salts body account = .ok new := by
  by_contra hnone
  obtain ⟨e, herror⟩ := run_rewrap_of_error now
    (fun account haccount new hnew => hnone ⟨account, new, haccount, hnew⟩)
  cases (congrArg Prod.fst herror).symm.trans h

def SignsIn (P : Platform) (admitted : Bool) (email : String) (accepts : Account → Bool)
    (db : SqliteDb) (account : Account) : Prop :=
  admitted = true ∧ db.accountByEmail P emailEq email = some account ∧ accepts account = true

theorem SignsIn.accountById {email : String} {accepts : Account → Bool}
    (h : SignsIn P admitted email accepts db account) :
    db.accountById account.id = some account :=
  KeyedTable.find?_isSome_of_mem (List.mem_of_find?_eq_some h.2.1)

/-- A sign-in by an address and a key: `login` and `recover`. -/
def signIn (P : Platform) (cfg : Config) (now : ℤ) (admitted : Bool) (minted : Minted)
    (email : String) (accepts : Account → Bool) (view : Account → Account)
    (deviceId deviceName : String) : Handler Session := do
  guard admitted
  match ← ask (.accountByEmail email) with
  | none => .fail .badCredentials
  | some account =>
    if !accepts account then .fail .badCredentials
    else issueSession P cfg now minted (view account) deviceId deviceName

theorem login_eq (body : LoginRequest) : login P cfg issued admitted minted body =
    signIn P cfg issued admitted minted body.email
      (fun account => P.verifyPassword body.authKey account.authHash) id body.deviceId
      body.deviceName := by
  unfold login signIn
  apply congrArg
  funext _
  apply congrArg
  funext found
  cases found <;> rfl

theorem recover_eq (body : RecoverRequest) : recover P cfg issued admitted minted body =
    signIn P cfg issued admitted minted body.email
      (fun account => P.verifyPassword body.recoveryAuthKey account.recoveryAuthHash) recoveryView
      body.deviceId body.deviceName := by
  unfold recover signIn
  apply congrArg
  funext _
  apply congrArg
  funext found
  cases found <;> rfl

section SignIn

variable {email deviceId deviceName : String} {accepts : Account → Bool} {view : Account → Account}

theorem run_signIn_of_ok (deviceId deviceName : String) (hview : (view account).id = account.id)
    (h : SignsIn P admitted email accepts db account) :
    ∃ devices, Program.run (exec P now)
        (signIn P cfg issued admitted minted email accepts view deviceId deviceName) db =
      (.ok (sessionOf cfg minted (view account)), { db with
        tokens := withSession P cfg issued minted account.id db.tokens
        devices := devices }) := by
  have hexists : db.accountById (view account).id ≠ none := by
    rw [hview, h.accountById]
    simp
  obtain ⟨rfl, hfound, haccepts⟩ := h
  have hask : exec P now (.accountByEmail email) db = (.ok (some account), db) := by
    simp only [exec, hfound]
  have hrun : Program.run (exec P now)
      (signIn P cfg issued true minted email accepts view deviceId deviceName) db =
      Program.run (exec P now) (if !accepts account then .fail .badCredentials
        else issueSession P cfg issued minted (view account) deviceId deviceName) db :=
    Program.run_bind_ok _ ((run_ask _ _ _).trans hask)
  rw [hrun, haccepts, ← hview]
  exact run_issueSession cfg now issued minted hexists deviceId deviceName

theorem run_signIn_of_error (deviceId deviceName : String) (view : Account → Account)
    (h : ∀ account, ¬ SignsIn P admitted email accepts db account) :
    ∃ e, Program.run (exec P now)
        (signIn P cfg issued admitted minted email accepts view deviceId deviceName) db =
      (.error e, db) := by
  cases admitted with
  | false => exact ⟨_, rfl⟩
  | true =>
    have hask : exec P now (.accountByEmail email) db =
        (.ok (db.accountByEmail P emailEq email), db) := rfl
    change ∃ e, Program.run (exec P now) (ask (.accountByEmail email) >>= _) db = _
    rw [Program.run_bind_ok _ ((run_ask _ _ _).trans hask)]
    cases hfound : db.accountByEmail P emailEq email with
    | none => exact ⟨_, rfl⟩
    | some account =>
      have hrejects : accepts account = false := by
        by_contra haccepts
        exact h account ⟨rfl, hfound, by simpa using haccepts⟩
      dsimp only
      rw [hrejects]
      exact ⟨_, rfl⟩

/-- A sign-in issues a session for an account, or fails and changes nothing. -/
theorem run_signIn_cases (deviceId deviceName : String)
    (hview : ∀ account, (view account).id = account.id) :
    (∃ account devices, Program.run (exec P now)
        (signIn P cfg issued admitted minted email accepts view deviceId deviceName) db =
      (.ok (sessionOf cfg minted (view account)), { db with
        tokens := withSession P cfg issued minted account.id db.tokens
        devices := devices })) ∨
      ∃ e, Program.run (exec P now)
        (signIn P cfg issued admitted minted email accepts view deviceId deviceName) db =
      (.error e, db) := by
  by_cases h : ∃ account, SignsIn P admitted email accepts db account
  · obtain ⟨account, haccount⟩ := h
    exact Or.inl ⟨account, run_signIn_of_ok cfg now issued minted deviceId deviceName
      (hview account) haccount⟩
  · exact Or.inr (run_signIn_of_error cfg now issued minted deviceId deviceName view
      (not_exists.mp h))

theorem accounts_signIn (hview : ∀ account, (view account).id = account.id) :
    (Program.run (exec P now)
      (signIn P cfg issued admitted minted email accepts view deviceId deviceName) db).2.accounts =
      db.accounts := by
  rcases run_signIn_cases cfg now issued minted deviceId deviceName hview with
    ⟨account, devices, hrun⟩ | ⟨e, hrun⟩
  · rw [hrun]
  · rw [hrun]

end SignIn

section Refresh

variable {refreshToken : String} {row : TokenRow}

theorem run_refresh_of_token
    (htoken : db.takeToken now (P.hashToken refreshToken) refreshKind = some row) :
    Program.run (exec P now) (refresh P cfg issued minted refreshToken) db =
      Program.run (exec P now)
        (ask (.accountById row.accountId) >>= fun found =>
          match found with
          | none => .fail .unauthorised
          | some account => issueSession P cfg issued minted account "" "")
        { db with
          tokens := (db.consumeToken now (P.hashToken refreshToken) refreshKind).2.tokens } := by
  have hconsume : exec P now (.consumeToken (P.hashToken refreshToken) refreshKind) db =
      (.ok (some row), { db with
        tokens := (db.consumeToken now (P.hashToken refreshToken) refreshKind).2.tokens }) := by
    simp only [exec, SqliteDb.onTables, Tables.consumeToken, htoken]
  unfold refresh
  refine (Program.run_bind_ok _ ((run_ask _ _ _).trans hconsume)).trans ?_
  apply congrFun
  apply congrArg
  apply congrArg
  funext found
  rcases found with _ | account
  · rfl
  · rfl

theorem run_refresh_of_ok
    (htoken : db.takeToken now (P.hashToken refreshToken) refreshKind = some row)
    (haccount : db.accountById row.accountId = some account) :
    ∃ devices, Program.run (exec P now) (refresh P cfg issued minted refreshToken) db =
      (.ok (sessionOf cfg minted account), { db with
        tokens := withSession P cfg issued minted row.accountId
          (db.consumeToken now (P.hashToken refreshToken) refreshKind).2.tokens
        devices := devices }) := by
  let db₁ : SqliteDb := { db with
    tokens := (db.consumeToken now (P.hashToken refreshToken) refreshKind).2.tokens }
  have hid : account.id = row.accountId := KeyedTable.find?_key_eq haccount
  have hfind : exec P now (.accountById row.accountId) db₁ = (.ok (some account), db₁) := by
    have hfound : db₁.accountById row.accountId = some account := haccount
    simp only [exec, hfound]
  have hexists : db₁.accountById account.id ≠ none := by
    have hfound : db₁.accountById account.id = some account := by rw [hid]; exact haccount
    simp [hfound]
  rw [run_refresh_of_token cfg now issued minted htoken,
    Program.run_bind_ok _ ((run_ask _ _ _).trans hfind), ← hid]
  exact run_issueSession cfg now issued minted hexists "" ""

theorem run_refresh_of_no_account
    (htoken : db.takeToken now (P.hashToken refreshToken) refreshKind = some row)
    (haccount : db.accountById row.accountId = none) :
    Program.run (exec P now) (refresh P cfg issued minted refreshToken) db =
      (.error .unauthorised, { db with
        tokens := (db.consumeToken now (P.hashToken refreshToken) refreshKind).2.tokens }) := by
  let db₁ : SqliteDb := { db with
    tokens := (db.consumeToken now (P.hashToken refreshToken) refreshKind).2.tokens }
  have hfind : exec P now (.accountById row.accountId) db₁ = (.ok none, db₁) := by
    have hfound : db₁.accountById row.accountId = none := haccount
    simp only [exec, hfound]
  rw [run_refresh_of_token cfg now issued minted htoken,
    Program.run_bind_ok _ ((run_ask _ _ _).trans hfind)]
  rfl

theorem run_refresh_of_no_token
    (htoken : db.takeToken now (P.hashToken refreshToken) refreshKind = none) :
    Program.run (exec P now) (refresh P cfg issued minted refreshToken) db =
      (.error .unauthorised, db) := by
  have hconsume : exec P now (.consumeToken (P.hashToken refreshToken) refreshKind) db =
      (.ok none, db) := by
    simp only [exec, SqliteDb.onTables, Tables.consumeToken_of_none htoken]
  unfold refresh
  rw [Program.run_bind_ok _ ((run_ask _ _ _).trans hconsume)]
  rfl

theorem accounts_refresh :
    (Program.run (exec P now) (refresh P cfg issued minted refreshToken) db).2.accounts =
      db.accounts := by
  cases htoken : db.takeToken now (P.hashToken refreshToken) refreshKind with
  | none => rw [run_refresh_of_no_token cfg now issued minted htoken]
  | some row =>
    cases haccount : db.accountById row.accountId with
    | none => rw [run_refresh_of_no_account cfg now issued minted htoken haccount]
    | some account =>
      obtain ⟨devices, hrun⟩ := run_refresh_of_ok cfg now issued minted htoken haccount
      rw [hrun]

end Refresh

end RemotierSync.Auth
