import RemotierSync.AccountRows
import RemotierSync.Reference

/-!
# The credentials of an account

A register and a rewrap bring a key and wrapped key material for each of the two doors of an
account, `login` and `recover`. The last of them that succeeded decides which key opens a door and
what is handed out behind it. The key is always the one that was submitted; the two blobs are
exactly if no nonce contains the full stop at which the stored string is split.
-/

namespace RemotierSync

/-- What a register or a rewrap submits for an account. -/
structure Credentials where
  authKey : String
  keyMaterial : KeyMaterial
  recoveryAuthKey : String
  recoveryMaterial : KeyMaterial

namespace Credentials

open Server Auth SqliteStore

variable (P : Platform) (cfg : Config)

def ofRegister (body : RegisterRequest) : Credentials :=
  ⟨body.authKey, body.keyMaterial, body.recoveryAuthKey, body.recoveryMaterial⟩

def ofRewrap (body : RewrapRequest) : Credentials :=
  ⟨body.authKey, body.keyMaterial, body.recoveryAuthKey, body.recoveryMaterial⟩

def Registers (db : SqliteDb) (a : Arrival) (id email : String) (c : Credentials) : Prop :=
  match a.request with
  | .register admitted newId salts minted body =>
    body.email = email ∧ ofRegister body = c ∧ ∃ session, session.accountId = id ∧
      (Program.run (exec P a.now) (register P cfg a.now admitted newId salts minted body) db).1 =
        .ok session
  | _ => False

def Rewraps (db : SqliteDb) (a : Arrival) (id : String) (c : Credentials) : Prop :=
  match a.request with
  | .rewrap salts caller body =>
    caller.accountId = id ∧ ofRewrap body = c ∧
      (Program.run (exec P a.now) (rewrap P salts caller body) db).1 = .ok ()
  | _ => False

def Submits (id : String) (c : Credentials) (db : SqliteDb) (a : Arrival) : Prop :=
  (∃ email, Registers P cfg db a id email c) ∨ Rewraps P db a id c

def Registered (arrivals : List Arrival) (id email : String) : Prop :=
  History.Occurred (serve P cfg) .migrated (fun db a => ∃ c, Registers P cfg db a id email c)
    arrivals

/-- The credentials of the latest register or rewrap of the account. -/
def Latest (arrivals : List Arrival) (id : String) (c : Credentials) : Prop :=
  History.Since (serve P cfg) .migrated (Submits P cfg id c)
    (fun db a => ∃ c', Submits P cfg id c' db a) arrivals

/-- A door opens to one key only, and hands out two blobs as they are. -/
structure Opens (id key : String) (material : KeyMaterial) (presented : String)
    (answer : Except Error Session) : Prop where
  succeeds : (∃ session, answer = .ok session) ↔ presented = key
  hands : ∀ session, answer = .ok session → session.accountId = id ∧
    session.keyMaterial.wrappedAccountSecret = material.wrappedAccountSecret ∧
    session.keyMaterial.wrappedPersonalKey = material.wrappedPersonalKey

def SameAddress (email email' : String) : Prop :=
  emailEq (P.toLowercase (trim email)) (P.toLowercase (trim email')) = true

/-- Either door of the account opens to its key in the credentials, and to no other. -/
structure Doors (db : SqliteDb) (id email : String) (c : Credentials) : Prop where
  login : ∀ now minted body, SameAddress P email body.email →
    Opens id c.authKey c.keyMaterial body.authKey
      (Program.run (exec P now) (login P cfg now true minted body) db).1
  recover : ∀ now minted body, SameAddress P email body.email →
    Opens id c.recoveryAuthKey c.recoveryMaterial body.recoveryAuthKey
      (Program.run (exec P now) (recover P cfg now true minted body) db).1

/-- A hash is accepted with exactly the key that was hashed. -/
def AcceptsHashed : Prop :=
  ∀ key salt stored, P.hashPassword key salt = .ok stored →
    ∀ presented, P.verifyPassword presented stored = true ↔ presented = key

/-- No nonce contains the separator of the stored strings. -/
def Unsplit (material : KeyMaterial) : Prop :=
  '.' ∉ material.wrappedAccountSecret.nonce.toList ∧
    '.' ∉ material.wrappedPersonalKey.nonce.toList

def SeparatorFree (c : Credentials) : Prop := Unsplit c.keyMaterial ∧ Unsplit c.recoveryMaterial

instance (material : KeyMaterial) : Decidable (Unsplit material) :=
  inferInstanceAs (Decidable (_ ∧ _))

instance (c : Credentials) : Decidable c.SeparatorFree := inferInstanceAs (Decidable (_ ∧ _))

/-! ## What an account stores -/

/-- The row of an account that stores the credentials. -/
structure Holds (account : Account) (c : Credentials) : Prop where
  authKey : ∀ presented, P.verifyPassword presented account.authHash = true ↔ presented = c.authKey
  recoveryAuthKey : ∀ presented,
    P.verifyPassword presented account.recoveryAuthHash = true ↔ presented = c.recoveryAuthKey
  accountSecret : account.wrappedAccountSecret = encode c.keyMaterial.wrappedAccountSecret
  personalKey : account.wrappedPersonalKey = encode c.keyMaterial.wrappedPersonalKey
  recoveryAccountSecret :
    account.recoveryAccountSecret = encode c.recoveryMaterial.wrappedAccountSecret
  recoveryPersonalKey : account.recoveryPersonalKey = encode c.recoveryMaterial.wrappedPersonalKey

variable {P} {cfg} {db : SqliteDb} {a : Arrival} {arrivals : List Arrival} {id email : String}
  {c : Credentials} {account : Account}

theorem created_of_registers (hverify : AcceptsHashed P) (h : Registers P cfg db a id email c) :
    ∃ account, created P cfg db a = some account ∧ account.id = id ∧
      account.email = P.toLowercase (trim email) ∧ Holds P account c := by
  obtain ⟨time, request⟩ := a
  cases request with
  | register admitted newId salts minted body =>
    obtain ⟨rfl, rfl, session, rfl, hrun⟩ := h
    by_cases hcreated : ∃ new, registration P cfg admitted salts body = .ok new ∧
        db.toTables.Free P emailEq newId new.email
    · obtain ⟨new, hnew, hfree⟩ := hcreated
      obtain ⟨devices, hok⟩ := run_register_of_ok cfg time time minted hnew hfree
      obtain rfl : sessionOf cfg minted (Tables.newAccount P newId new) = session :=
        Except.ok.inj ((congrArg Prod.fst hok).symm.trans hrun)
      refine ⟨Tables.newAccount P newId new, ?_, rfl, ?_⟩
      · simp only [created, hnew, hfree, if_true]
      · obtain ⟨_, authHash, recoveryAuthHash, hauth, hrecovery, rfl⟩ := registration_eq_ok hnew
        exact ⟨rfl, hverify _ _ _ hauth, hverify _ _ _ hrecovery, rfl, rfl, rfl, rfl⟩
    · obtain ⟨e, herror⟩ := run_register_of_error cfg time time minted
        (fun new hnew hfree => hcreated ⟨new, hnew, hfree⟩)
      cases (congrArg Prod.fst herror).symm.trans hrun
  | _ => exact h.elim

theorem registers_of_free {admitted : Bool} {newId : String} {salts : Salts} {minted : Minted}
    {body : RegisterRequest} {new : NewAccount}
    (hrequest : a.request = .register admitted newId salts minted body)
    (hnew : registration P cfg admitted salts body = .ok new)
    (hfree : db.toTables.Free P emailEq newId new.email) :
    Registers P cfg db a newId body.email (ofRegister body) := by
  obtain ⟨devices, hok⟩ := run_register_of_ok cfg a.now a.now minted hnew hfree
  rw [Registers, hrequest]
  exact ⟨rfl, rfl, _, rfl, congrArg Prod.fst hok⟩

theorem registers_of_created (h : created P cfg db a = some account) :
    ∃ email c, Registers P cfg db a account.id email c := by
  obtain ⟨admitted, newId, salts, minted, body, new, hrequest, hnew, hfree, rfl⟩ :=
    created_eq_some h
  exact ⟨_, _, registers_of_free hrequest hnew hfree⟩

theorem replaced_of_rewraps (hverify : AcceptsHashed P) (h : Rewraps P db a id c) :
    ∃ new, replaced P db a = some (id, new) ∧
      ∀ account : Account, Holds P (account.rewrap new) c := by
  obtain ⟨time, request⟩ := a
  cases request with
  | rewrap salts caller body =>
    obtain ⟨rfl, rfl, hrun⟩ := h
    obtain ⟨account, new, haccount, hnew⟩ := exists_replacement time hrun
    refine ⟨new, by simp [replaced, haccount, hnew, Except.toOption], ?_⟩
    obtain ⟨authHash, recoveryAuthHash, hauth, hrecovery, rfl⟩ := replacement_eq_ok hnew
    exact fun _ => ⟨hverify _ _ _ hauth, hverify _ _ _ hrecovery, rfl, rfl, rfl, rfl⟩
  | _ => exact h.elim

theorem rewraps_of_replaced {new : NewAccount} (h : replaced P db a = some (id, new)) :
    ∃ c, Rewraps P db a id c := by
  obtain ⟨salts, body, account, hrequest, haccount, hnew⟩ := replaced_eq_some h
  refine ⟨ofRewrap body, ?_⟩
  rw [Rewraps, hrequest]
  exact ⟨rfl, rfl, congrArg Prod.fst (run_rewrap_of_ok a.now haccount hnew)⟩

/-! ## Whole runs -/

theorem address_of_registered (hverify : AcceptsHashed P)
    (h : Registered P cfg arrivals id email) : ∃ account,
      (reached P cfg arrivals).accountById id = some account ∧
        account.email = P.toLowercase (trim email) := by
  induction arrivals using List.reverseRecOn with
  | nil => exact absurd h History.not_occurred_nil
  | append_singleton arrivals a ih =>
    rw [reached_snoc]
    rcases History.occurred_snoc.mp h with hearlier | ⟨c, hregisters⟩
    · obtain ⟨account, haccount, hemail⟩ := ih hearlier
      by_cases hreplaced : ∃ new, replaced P (reached P cfg arrivals) a = some (id, new)
      · obtain ⟨new, hreplaced⟩ := hreplaced
        exact ⟨_, accountById_serve_of_replaced hreplaced haccount, hemail⟩
      · exact ⟨account, accountById_serve_of_not_replaced (wellFormed_reached arrivals)
          (not_exists.mp hreplaced) haccount, hemail⟩
    · obtain ⟨account, hcreated, rfl, hemail, _⟩ := created_of_registers hverify hregisters
      exact ⟨account, accountById_serve_of_created hcreated, hemail⟩

theorem holds_of_latest (hverify : AcceptsHashed P) (h : Latest P cfg arrivals id c) :
    ∃ account, (reached P cfg arrivals).accountById id = some account ∧ Holds P account c := by
  induction arrivals using List.reverseRecOn with
  | nil => exact absurd h History.not_since_nil
  | append_singleton arrivals a ih =>
    rw [reached_snoc]
    rcases History.since_snoc.mp h with (⟨email, hregisters⟩ | hrewraps) | ⟨hearlier, hsilent⟩
    · obtain ⟨account, hcreated, rfl, _, hholds⟩ := created_of_registers hverify hregisters
      exact ⟨account, accountById_serve_of_created hcreated, hholds⟩
    · obtain ⟨new, hreplaced, hholds⟩ := replaced_of_rewraps hverify hrewraps
      obtain ⟨_, _, account, _, haccount, _⟩ := replaced_eq_some hreplaced
      exact ⟨_, accountById_serve_of_replaced hreplaced haccount, hholds account⟩
    · obtain ⟨account, haccount, hholds⟩ := ih hearlier
      refine ⟨account, ?_, hholds⟩
      refine accountById_serve_of_not_replaced (wellFormed_reached arrivals) ?_ haccount
      intro new hreplaced
      obtain ⟨c', hrewraps⟩ := rewraps_of_replaced hreplaced
      exact hsilent ⟨c', Or.inr hrewraps⟩

theorem exists_latest (haccount : account ∈ (reached P cfg arrivals).accounts.rows) :
    (∃ email, Registered P cfg arrivals account.id email) ∧
      ∃ c, Latest P cfg arrivals account.id c := by
  induction arrivals using List.reverseRecOn generalizing account with
  | nil => simp [reached, SqliteDb.migrated, Tables.migrated] at haccount
  | append_singleton arrivals a ih =>
    rw [reached_snoc] at haccount
    by_cases hsubmits : ∃ c, Submits P cfg account.id c (reached P cfg arrivals) a
    · obtain ⟨c, hc⟩ := hsubmits
      refine ⟨?_, c, History.since_snoc.mpr (Or.inl hc)⟩
      rcases account_of_serve (wellFormed_reached arrivals) haccount with
        hcreated | ⟨old, hold, hid, _⟩
      · obtain ⟨email, c', hregisters⟩ := registers_of_created hcreated
        exact ⟨email, History.occurred_snoc.mpr (Or.inr ⟨c', hregisters⟩)⟩
      · rw [← hid]
        obtain ⟨email, hregistered⟩ := (ih hold).1
        exact ⟨email, hregistered.append [a]⟩
    · rcases account_of_serve (wellFormed_reached arrivals) haccount with
        hcreated | ⟨old, hold, hid, _⟩
      · obtain ⟨email, c, hregisters⟩ := registers_of_created hcreated
        exact absurd ⟨c, Or.inl ⟨email, hregisters⟩⟩ hsubmits
      · rw [← hid] at hsubmits ⊢
        obtain ⟨⟨email, hregistered⟩, c, hlatest⟩ := ih hold
        exact ⟨⟨email, hregistered.append [a]⟩, c,
          History.since_snoc.mpr (Or.inr ⟨hlatest, hsubmits⟩)⟩

theorem exists_stored (hverify : AcceptsHashed P) (hregistered : Registered P cfg arrivals id email)
    (hlatest : Latest P cfg arrivals id c) : ∃ account,
      (reached P cfg arrivals).accountById id = some account ∧
        account.email = P.toLowercase (trim email) ∧ Holds P account c := by
  obtain ⟨account, haccount, hemail⟩ := address_of_registered hverify hregistered
  obtain ⟨holder, hholder, hholds⟩ := holds_of_latest hverify hlatest
  obtain rfl : account = holder := Option.some.inj (haccount.symm.trans hholder)
  exact ⟨account, haccount, hemail, hholds⟩

/-! ## The doors -/

theorem unsplit_iff {material : KeyMaterial} : Unsplit material ↔
    decode (encode material.wrappedAccountSecret) = material.wrappedAccountSecret ∧
      decode (encode material.wrappedPersonalKey) = material.wrappedPersonalKey :=
  (and_congr decode_encode_iff decode_encode_iff).symm

section SignIn

variable {now : ℤ} {minted : Minted} {presented key : String} {material : KeyMaterial}
  {accepts : Account → Bool} {view : Account → Account} {deviceId deviceName : String}

theorem opens_signIn (hfound : db.accountByEmail P emailEq email = some account)
    (haccepts : accepts account = true ↔ presented = key)
    (hview : ∀ account, (view account).id = account.id)
    (hsecret : (view account).wrappedAccountSecret = encode material.wrappedAccountSecret)
    (hpersonal : (view account).wrappedPersonalKey = encode material.wrappedPersonalKey) :
    Opens account.id key material presented
        (Program.run (exec P now)
          (signIn P cfg now true minted email accepts view deviceId deviceName) db).1 ↔
      (presented = key → Unsplit material) := by
  by_cases hkey : presented = key
  · obtain ⟨devices, hrun⟩ := run_signIn_of_ok cfg now now minted deviceId deviceName
      (hview account) ⟨rfl, hfound, haccepts.mpr hkey⟩
    rw [hrun, unsplit_iff, ← hsecret, ← hpersonal]
    constructor
    · exact fun h _ => (h.hands _ rfl).2
    · intro h
      refine ⟨iff_of_true ⟨_, rfl⟩ hkey, ?_⟩
      rintro session hsession
      obtain rfl := Except.ok.inj hsession
      exact ⟨hview account, h hkey⟩
  · have hrejects : ∀ other, ¬ SignsIn P true email accepts db other := by
      rintro other ⟨_, hother, hok⟩
      obtain rfl : account = other := Option.some.inj (hfound.symm.trans hother)
      exact hkey (haccepts.mp hok)
    obtain ⟨e, hrun⟩ :=
      run_signIn_of_error cfg now now minted deviceId deviceName view hrejects
    rw [hrun]
    refine iff_of_true ⟨iff_of_false ?_ hkey, ?_⟩ (fun h => absurd h hkey)
    · rintro ⟨_, h⟩
      cases h
    · rintro _ h
      cases h

end SignIn

/-- The doors of an account that stores the credentials give them back exactly if no nonce is
split. -/
theorem doors_of_holds (hdb : Distinct db) (haccount : db.accountById id = some account)
    (hemail : account.email = P.toLowercase (trim email)) (hholds : Holds P account c) :
    Doors P cfg db id email c ↔ c.SeparatorFree := by
  obtain rfl : account.id = id := KeyedTable.find?_key_eq haccount
  have hfound {x : String} (hsame : SameAddress P email x) :
      db.accountByEmail P emailEq x = some account :=
    accountByEmail_of_distinct hdb haccount (by rw [hemail]; exact hsame)
  have hlogin (now : ℤ) (minted : Minted) (body : LoginRequest)
      (hsame : SameAddress P email body.email) :
      Opens account.id c.authKey c.keyMaterial body.authKey
          (Program.run (exec P now) (login P cfg now true minted body) db).1 ↔
        (body.authKey = c.authKey → Unsplit c.keyMaterial) := by
    rw [login_eq]
    exact opens_signIn (hfound hsame) (hholds.authKey _) (fun _ => rfl) hholds.accountSecret
      hholds.personalKey
  have hrecover (now : ℤ) (minted : Minted) (body : RecoverRequest)
      (hsame : SameAddress P email body.email) :
      Opens account.id c.recoveryAuthKey c.recoveryMaterial body.recoveryAuthKey
          (Program.run (exec P now) (recover P cfg now true minted body) db).1 ↔
        (body.recoveryAuthKey = c.recoveryAuthKey → Unsplit c.recoveryMaterial) := by
    rw [recover_eq]
    exact opens_signIn (hfound hsame) (hholds.recoveryAuthKey _) (fun _ => rfl)
      hholds.recoveryAccountSecret hholds.recoveryPersonalKey
  have hself : SameAddress P email email := emailEq_iff.mpr rfl
  constructor
  · rintro ⟨hdoor, hrecoveryDoor⟩
    exact ⟨(hlogin 0 ⟨"", ""⟩ ⟨email, c.authKey, "", ""⟩ hself).mp (hdoor _ _ _ hself) rfl,
      (hrecover 0 ⟨"", ""⟩ ⟨email, c.recoveryAuthKey, "", ""⟩ hself).mp
        (hrecoveryDoor _ _ _ hself) rfl⟩
  · rintro ⟨hkeys, hrecoveryKeys⟩
    exact ⟨fun now minted body hsame => (hlogin now minted body hsame).mpr (fun _ => hkeys),
      fun now minted body hsame => (hrecover now minted body hsame).mpr (fun _ => hrecoveryKeys)⟩

/-- Every account has its latest credentials, and its doors open to their keys and give back the
blobs string for string exactly if no nonce among them contains a full stop. -/
theorem doors_iff (P : Platform) (cfg : Config) (hverify : AcceptsHashed P)
    (arrivals : List Arrival) :
    (∀ account ∈ (reached P cfg arrivals).accounts.rows,
      (∃ email, Registered P cfg arrivals account.id email) ∧
        ∃ c, Latest P cfg arrivals account.id c) ∧
    ∀ id email c, Registered P cfg arrivals id email → Latest P cfg arrivals id c →
      (Doors P cfg (reached P cfg arrivals) id email c ↔ c.SeparatorFree) := by
  refine ⟨fun account => exists_latest, ?_⟩
  intro id email c hregistered hlatest
  obtain ⟨account, haccount, hemail, hholds⟩ := exists_stored hverify hregistered hlatest
  exact doors_of_holds (distinct_reached arrivals) haccount hemail hholds

/-! ## Two registrations -/

def plain : Platform :=
  { Platform.reference with
    hashPassword := fun authKey _ => .ok authKey
    verifyPassword := fun authKey stored => authKey = stored }

theorem plain_acceptsHashed : AcceptsHashed plain := by
  intro key salt stored hstored presented
  obtain rfl : key = stored := Except.ok.inj hstored
  exact decide_eq_true_iff

def registering (nonce : String) : RegisterRequest where
  email := "ada@example.com"
  authKey := "key"
  keyMaterial := ⟨"public", ⟨nonce, "secret"⟩, ⟨"nonce", "key"⟩⟩
  recoveryMaterial := Reference.keys
  recoveryAuthKey := "code"
  deviceId := ""
  deviceName := ""

def registered (nonce : String) : List Arrival :=
  [⟨0, .register true "ada" ⟨"salt", "recovery"⟩ ⟨"access", "refresh"⟩ (registering nonce)⟩]

/-- Her credentials are the latest of the account, whatever the nonce. -/
theorem registers_registering (nonce : String) :
    Registered plain Reference.config (registered nonce) "ada" "ada@example.com" ∧
      Latest plain Reference.config (registered nonce) "ada" (ofRegister (registering nonce)) := by
  have hregisters : Registers plain Reference.config .migrated
      ⟨0, .register true "ada" ⟨"salt", "recovery"⟩ ⟨"access", "refresh"⟩ (registering nonce)⟩
      "ada" "ada@example.com" (ofRegister (registering nonce)) := by
    have hemail : validateEmail "ada@example.com" = .ok () := by decide +kernel
    have hfree : SqliteDb.migrated.toTables.Free plain emailEq "ada" "ada@example.com" := by
      decide
    have hrecovery : Reference.keys.wrappedPersonalKey.ciphertext ≠ "" := by decide
    have hnew : registration plain Reference.config true ⟨"salt", "recovery"⟩ (registering nonce) =
        .ok _ := registration_of_valid rfl hemail hrecovery rfl rfl
    exact registers_of_free rfl hnew hfree
  exact ⟨⟨[], _, [], rfl, _, hregisters⟩,
    ⟨[], _, [], rfl, Or.inl ⟨_, hregisters⟩, History.always_nil⟩⟩

/-- A nonce with a full stop comes back in two pieces. -/
theorem dotted_nonce_is_split :
    AcceptsHashed plain ∧
      Registered plain Reference.config (registered "no.nce") "ada" "ada@example.com" ∧
      Latest plain Reference.config (registered "no.nce") "ada"
        (ofRegister (registering "no.nce")) ∧
      ¬ Doors plain Reference.config (reached plain Reference.config (registered "no.nce")) "ada"
        "ada@example.com" (ofRegister (registering "no.nce")) := by
  obtain ⟨hregistered, hlatest⟩ := registers_registering "no.nce"
  obtain ⟨account, haccount, hemail, hholds⟩ :=
    exists_stored plain_acceptsHashed hregistered hlatest
  refine ⟨plain_acceptsHashed, hregistered, hlatest, ?_⟩
  rw [doors_of_holds (distinct_reached _) haccount hemail hholds]
  decide

theorem plain_nonce_returns :
    Doors plain Reference.config (reached plain Reference.config (registered "nonce")) "ada"
      "ada@example.com" (ofRegister (registering "nonce")) :=
  ((doors_iff plain Reference.config plain_acceptsHashed (registered "nonce")).2 _ _ _
    (registers_registering "nonce").1 (registers_registering "nonce").2).mpr (by decide)

end Credentials
end RemotierSync
