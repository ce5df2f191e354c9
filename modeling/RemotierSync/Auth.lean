import RemotierSync.WellFormed
import RemotierSync.Library.Lockstep

/-!
# Accounts and sessions

The handlers for registration, sign-in, refresh, recovery and the change of password, and the
check of a bearer token, as programs of store calls. What the server draws at random in a request
(the id of a new account, salts, the two tokens of a session) and the clock it reads are
arguments. `admitted` is the answer of the rate limiter. None of these handlers writes a record
or a share, which is all that the change log needs to know about them.
-/

namespace RemotierSync.Auth

def access : String := "access"

def refreshKind : String := "refresh"

def refreshTtlMs : ℤ := 90 * 24 * 3600 * 1000

/-- The bearer tokens drawn for one session. -/
structure Minted where
  accessToken : String
  refreshToken : String
deriving DecidableEq, Repr

structure Salts where
  auth : String
  recovery : String
deriving DecidableEq, Repr

def hashAuthKey (P : Platform) (authKey salt : String) : Except Error String :=
  (P.hashPassword authKey salt).mapError (fun e => .internal ("hashing failed: " ++ e))

def encode (blob : SealedBlob) : String := blob.nonce ++ "." ++ blob.ciphertext

def splitOnce (stored : String) : Option (String × String) :=
  match stored.toList.span (fun c => c ≠ '.') with
  | (_, []) => none
  | (front, _ :: back) => some (String.ofList front, String.ofList back)

def decode (stored : String) : SealedBlob :=
  let (nonce, ciphertext) := (splitOnce stored).getD ("", stored)
  ⟨nonce, ciphertext⟩

def keyMaterial (account : Account) : KeyMaterial where
  accountPublic := account.accountPublic
  wrappedAccountSecret := decode account.wrappedAccountSecret
  wrappedPersonalKey := decode account.wrappedPersonalKey

def validateEmail (email : String) : Except Error Unit :=
  let email := trim email
  if email.utf8ByteSize < 3 ∨ email.utf8ByteSize > 254 ∨ '@' ∉ email.toList ∨ ' ' ∈ email.toList
  then .error (.badRequest "that is not an email address")
  else .ok ()

def lift {α : Type} : Except Error α → Handler α
  | .ok a => return a
  | .error e => .fail e

variable (P : Platform) (cfg : Config) (now : ℤ)

def guard (admitted : Bool) : Handler Unit := if admitted then return () else .fail .rateLimited

def issueSession (minted : Minted) (account : Account) (deviceId deviceName : String) :
    Handler Session := do
  ask (.putToken (P.hashToken minted.accessToken) account.id access
    (now + cfg.accessTtlSecs * 1000))
  ask (.putToken (P.hashToken minted.refreshToken) account.id refreshKind (now + refreshTtlMs))
  if deviceId ≠ "" then
    ask (.touchDevice account.id deviceId deviceName)
  return {
    accountId := account.id
    email := account.email
    accessToken := minted.accessToken
    refreshToken := minted.refreshToken
    expiresIn := cfg.accessTtlSecs
    keyMaterial := keyMaterial account }

def register (admitted : Bool) (newId : String) (salts : Salts) (minted : Minted)
    (body : RegisterRequest) : Handler Session := do
  guard admitted
  if !cfg.registrationOpen then
    .fail .registrationClosed
  else do
    lift (validateEmail body.email)
    if body.recoveryMaterial.wrappedPersonalKey.ciphertext = "" then
      .fail (.badRequest
        "recovery material is required - without it a forgotten password is unrecoverable")
    else do
      let authHash ← lift (hashAuthKey P body.authKey salts.auth)
      let recoveryAuthHash ← lift (hashAuthKey P body.recoveryAuthKey salts.recovery)
      let account ← ask (.createAccount newId {
        email := body.email
        authHash := authHash
        recoveryAuthHash := recoveryAuthHash
        accountPublic := body.keyMaterial.accountPublic
        wrappedAccountSecret := encode body.keyMaterial.wrappedAccountSecret
        wrappedPersonalKey := encode body.keyMaterial.wrappedPersonalKey
        recoveryAccountSecret := encode body.recoveryMaterial.wrappedAccountSecret
        recoveryPersonalKey := encode body.recoveryMaterial.wrappedPersonalKey })
      issueSession P cfg now minted account body.deviceId body.deviceName

def login (admitted : Bool) (minted : Minted) (body : LoginRequest) : Handler Session := do
  guard admitted
  match ← ask (.accountByEmail body.email) with
  | none => .fail .badCredentials
  | some account =>
    if !P.verifyPassword body.authKey account.authHash then .fail .badCredentials
    else issueSession P cfg now minted account body.deviceId body.deviceName

def refresh (minted : Minted) (refreshToken : String) : Handler Session := do
  match ← ask (.consumeToken (P.hashToken refreshToken) refreshKind) with
  | none => .fail .unauthorised
  | some row =>
    match ← ask (.accountById row.accountId) with
    | none => .fail .unauthorised
    | some account => issueSession P cfg now minted account "" ""

def logout (caller : Caller) : Handler Unit := ask (.revokeAccountTokens caller.accountId)

def keys (caller : Caller) : Handler KeyMaterial := do
  match ← ask (.accountById caller.accountId) with
  | none => .fail .notFound
  | some account => return keyMaterial account

def lookup (email : String) : Handler UserLookup := do
  match ← ask (.accountByEmail email) with
  | none => .fail .notFound
  | some account => return ⟨account.id, account.email, account.accountPublic⟩

def recoveryView (account : Account) : Account :=
  { account with
    wrappedAccountSecret := account.recoveryAccountSecret
    wrappedPersonalKey := account.recoveryPersonalKey }

def recover (admitted : Bool) (minted : Minted) (body : RecoverRequest) : Handler Session := do
  guard admitted
  match ← ask (.accountByEmail body.email) with
  | none => .fail .badCredentials
  | some account =>
    if !P.verifyPassword body.recoveryAuthKey account.recoveryAuthHash then .fail .badCredentials
    else issueSession P cfg now minted (recoveryView account) body.deviceId body.deviceName

def rewrap (salts : Salts) (caller : Caller) (body : RewrapRequest) : Handler Unit := do
  match ← ask (.accountById caller.accountId) with
  | none => .fail .notFound
  | some account => do
    let authHash ← lift (hashAuthKey P body.authKey salts.auth)
    let recoveryAuthHash ← lift (hashAuthKey P body.recoveryAuthKey salts.recovery)
    ask (.rewrapAccount account.id {
      email := account.email
      authHash := authHash
      recoveryAuthHash := recoveryAuthHash
      accountPublic := account.accountPublic
      wrappedAccountSecret := encode body.keyMaterial.wrappedAccountSecret
      wrappedPersonalKey := encode body.keyMaterial.wrappedPersonalKey
      recoveryAccountSecret := encode body.recoveryMaterial.wrappedAccountSecret
      recoveryPersonalKey := encode body.recoveryMaterial.wrappedPersonalKey })
    ask (.revokeAccountTokens account.id)

/-- The signed-in account behind an `Authorization` header. -/
def authenticate (authorization : Option String) : Handler Caller :=
  match authorization.bind (fun v => "Bearer ".toList.isPrefixOf? v.toList) with
  | none => .fail .unauthorised
  | some header => do
    match ← ask (.takeToken (P.hashToken (trim (String.ofList header))) access) with
    | none => .fail .unauthorised
    | some row => return ⟨row.accountId⟩

/-! ## The calls these handlers make -/

/-- Calls on accounts, tokens and devices. -/
def OnAccounts : Call → Prop
  | .createAccount .. => True
  | .accountByEmail .. => True
  | .accountById .. => True
  | .rewrapAccount .. => True
  | .putToken .. => True
  | .takeToken .. => True
  | .consumeToken .. => True
  | .revokeAccountTokens .. => True
  | .touchDevice .. => True
  | _ => False

def OpensSession : Call → Prop
  | .createAccount .. => True
  | .accountByEmail .. => True
  | .accountById .. => True
  | .putToken .. => True
  | .consumeToken .. => True
  | .touchDevice .. => True
  | _ => False

theorem onAccounts_of_opensSession (c : Call) (h : OpensSession c) : OnAccounts c := by
  cases c <;> first | exact trivial | exact h

section Issues

open Program

variable {P} {cfg} {now} {minted : Minted} {salts : Salts} {admitted : Bool} {K : Call → Prop}
  {α β : Type}

theorem issues_ask_bind {c : Call} {f : c.Ret → Handler α} :
    Issues K (ask c >>= f) ↔ K c ∧ ∀ r, Issues K (f r) := Iff.rfl

theorem issues_lift_bind {x : Except Error α} {f : α → Handler β} (h : ∀ a, Issues K (f a)) :
    Issues K (lift x >>= f) := by
  cases x with
  | ok a => exact h a
  | error e => exact trivial

theorem issues_guard_bind {f : Unit → Handler α} (h : Issues K (f ())) :
    Issues K (guard admitted >>= f) := by
  cases admitted with
  | false => exact trivial
  | true => exact h

section Ensures

variable {R : (c : Call) → c.Ret → Prop}

theorem ensures_lift_bind {Q : β → Prop} {x : Except Error α} {f : α → Handler β}
    (h : ∀ a, Ensures K R Q (f a)) : Ensures K R Q (lift x >>= f) := by
  cases x with
  | ok a => exact h a
  | error e => exact trivial

theorem ensures_guard_bind {Q : α → Prop} {f : Unit → Handler α} (h : Ensures K R Q (f ())) :
    Ensures K R Q (guard admitted >>= f) := by
  cases admitted with
  | false => exact trivial
  | true => exact h

end Ensures

theorem issues_issueSession (account : Account) (deviceId deviceName : String) :
    Issues OpensSession (issueSession P cfg now minted account deviceId deviceName) := by
  refine issues_ask_bind.mpr ⟨trivial, fun _ => issues_ask_bind.mpr ⟨trivial, fun _ => ?_⟩⟩
  split_ifs
  · exact issues_ask_bind.mpr ⟨trivial, fun _ => trivial⟩
  · exact trivial

theorem issues_register (newId : String) (body : RegisterRequest) :
    Issues OpensSession (register P cfg now admitted newId salts minted body) := by
  unfold register
  apply issues_guard_bind
  by_cases hopen : (!cfg.registrationOpen) = true
  · rw [if_pos hopen]
    exact trivial
  rw [if_neg hopen]
  cases validateEmail body.email with
  | error e => exact trivial
  | ok checked =>
    change Issues OpensSession (ite _ _ _)
    by_cases hrecovery : body.recoveryMaterial.wrappedPersonalKey.ciphertext = ""
    · rw [if_pos hrecovery]
      exact trivial
    rw [if_neg hrecovery]
    apply issues_lift_bind
    intro _
    apply issues_lift_bind
    intro _
    exact issues_ask_bind.mpr ⟨trivial, fun _ => issues_issueSession _ _ _⟩

theorem issues_signIn (accepted : Bool) (account : Account) (deviceId deviceName : String) :
    Issues OpensSession (if !accepted then .fail .badCredentials
      else issueSession P cfg now minted account deviceId deviceName) := by
  cases accepted with
  | false => exact trivial
  | true => exact issues_issueSession account deviceId deviceName

theorem issues_login (body : LoginRequest) :
    Issues OpensSession (login P cfg now admitted minted body) := by
  apply issues_guard_bind
  refine issues_ask_bind.mpr ⟨trivial, fun found => ?_⟩
  cases found with
  | none => exact trivial
  | some account => exact issues_signIn _ _ _ _

theorem issues_refresh (refreshToken : String) :
    Issues OpensSession (refresh P cfg now minted refreshToken) := by
  refine issues_ask_bind.mpr ⟨trivial, fun consumed => ?_⟩
  cases consumed with
  | none => exact trivial
  | some row =>
    refine issues_ask_bind.mpr ⟨trivial, fun found => ?_⟩
    cases found with
    | none => exact trivial
    | some account => exact issues_issueSession _ _ _

theorem issues_recover (body : RecoverRequest) :
    Issues OpensSession (recover P cfg now admitted minted body) := by
  apply issues_guard_bind
  refine issues_ask_bind.mpr ⟨trivial, fun found => ?_⟩
  cases found with
  | none => exact trivial
  | some account => exact issues_signIn _ _ _ _

theorem issues_rewrap (caller : Caller) (body : RewrapRequest) :
    Issues OnAccounts (rewrap P salts caller body) := by
  refine issues_ask_bind.mpr ⟨trivial, fun found => ?_⟩
  cases found with
  | none => exact trivial
  | some account =>
    apply issues_lift_bind
    intro _
    apply issues_lift_bind
    intro _
    exact issues_ask_bind.mpr ⟨trivial, fun _ => (issues_ask _ _).mpr trivial⟩

theorem issues_logout (caller : Caller) : Issues OnAccounts (logout caller) :=
  (issues_ask _ _).mpr trivial

end Issues

/-- A handler that stays with accounts leaves the change log and the shares alone. -/
theorem run_onAccounts {P : Platform} {now : ℤ} {α : Type} {p : Handler α}
    (hp : Program.Issues OnAccounts p) (db : SqliteDb) :
    (Program.run (SqliteStore.exec P now) p db).2.records = db.records ∧
      (Program.run (SqliteStore.exec P now) p db).2.next = db.next ∧
      (Program.run (SqliteStore.exec P now) p db).2.shares = db.shares := by
  let view : SqliteDb → _ := fun db => (db.records, db.next, db.shares)
  have hcall : ∀ c db, OnAccounts c → view (SqliteStore.exec P now c db).2 = view db := by
    intro c db hc
    have hwrites : SqliteStore.writes c ≠ some .records ∧ SqliteStore.writes c ≠ some .shares := by
      cases c <;> first | exact hc.elim | simp [SqliteStore.writes]
    have hframe := SqliteStore.exec_frame P now c db
    have hrecords := hframe.records hwrites.1
    have hnext := hframe.next hwrites.1
    have hshares := hframe.shares hwrites.2
    simp only [view, hrecords, hnext, hshares]
  have hframe := Program.run_frame hcall hp db
  simpa [view] using hframe

end RemotierSync.Auth
