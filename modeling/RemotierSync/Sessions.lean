import RemotierSync.Server
import RemotierSync.Library.Interleaving

/-!
# Session requests that interleave

Any number of login, recover, refresh, rewrap and logout requests, each the handler the server
gives it to, served at the same time: a turn makes the next store call of one of them at the time
the server's clock shows. A request alone is what `serve` makes of it. What each handler may do
with its calls is stated once, as a property of the programs that every turn keeps.
-/

namespace RemotierSync

/-- A request and what it draws. `now` is the time at which it issues its session. -/
inductive SessionRequest where
  | login (now : ℤ) (admitted : Bool) (minted : Auth.Minted) (body : LoginRequest)
  | recover (now : ℤ) (admitted : Bool) (minted : Auth.Minted) (body : RecoverRequest)
  | refresh (now : ℤ) (minted : Auth.Minted) (refreshToken : String)
  | rewrap (salts : Auth.Salts) (caller : Caller) (body : RewrapRequest)
  | logout (caller : Caller)
deriving DecidableEq

namespace SessionRequest

def arrival : SessionRequest → Arrival
  | .login now admitted minted body => ⟨now, .login admitted minted body⟩
  | .recover now admitted minted body => ⟨now, .recover admitted minted body⟩
  | .refresh now minted refreshToken => ⟨now, .refresh minted refreshToken⟩
  | .rewrap salts caller body => ⟨0, .rewrap salts caller body⟩
  | .logout caller => ⟨0, .logout caller⟩

def tokens : SessionRequest → List String
  | .login _ _ minted _ => [minted.accessToken, minted.refreshToken]
  | .recover _ _ minted _ => [minted.accessToken, minted.refreshToken]
  | .refresh _ minted _ => [minted.accessToken, minted.refreshToken]
  | .rewrap .. => []
  | .logout _ => []

end SessionRequest

namespace Sessions

open Program Pool Auth

variable (P : Platform) (cfg : Config)

def act (r : SessionRequest) : Handler Unit := Server.act P cfg r.arrival

def hashes (r : SessionRequest) : List String := r.tokens.map P.hashToken

abbrev State (ι : Type) := Pool ι Call Call.Ret Error SqliteDb

variable {ι : Type} [DecidableEq ι]

abbrev step : State ι → Turn ι ℤ → State ι := turn (SqliteStore.exec P)

omit [DecidableEq ι] in
/-- All requests are there from the start. One that arrives late takes its first turn late. -/
def start (requests : ι → SessionRequest) (db : SqliteDb) : State ι :=
  { store := db, tasks := fun i => act P cfg (requests i) }

/-! ## What the programs may do -/

/-- What the store may answer: a lookup by id finds the account with that id. -/
def Answers : (c : Call) → c.Ret → Prop
  | .accountById id, found => ∀ a ∈ found, a.id = id
  | _, _ => True

/-- The calls that follow once a session is to be issued for an account. -/
def IssuesFor (hashes : List String) (accountId : String) : Call → Prop
  | .accountById id => id = accountId
  | .putToken hash id _ _ => id = accountId ∧ hash ∈ hashes
  | .touchDevice .. => True
  | _ => False

def Issuing (hashes : List String) (accountId : String) (p : Handler Unit) : Prop :=
  Everywhere Answers (fun c _ => IssuesFor hashes accountId c) p

def Plain : Call → Prop
  | .accountByEmail _ => False
  | .consumeToken .. => False
  | .putToken .. => False
  | _ => True

/-- A program that has not opened a session: it looks an account up by its address or consumes a
token, and then issues tokens for what it found or ends; or it issues none. -/
inductive Unopened (hashes : List String) : Handler Unit → Prop where
  | email {email : String} {next : Option Account → Handler Unit}
      (hsome : ∀ a, Issuing hashes a.id (next (some a))) (hnone : (next none).next? = none) :
      Unopened hashes (.call (.accountByEmail email) next)
  | token {hash kind : String} {next : Option TokenRow → Handler Unit}
      (hsome : ∀ row, Issuing hashes row.accountId (next (some row)))
      (hnone : (next none).next? = none) :
      Unopened hashes (.call (.consumeToken hash kind) next)
  | plain {p : Handler Unit} (h : Everywhere Answers (fun c _ => Plain c) p) : Unopened hashes p

/-- Revoking is the last call of a request, and it follows at once on a change of credentials. -/
def EndsSessions : (c : Call) → (c.Ret → Handler Unit) → Prop
  | .revokeAccountTokens _, next => next () = .pure ()
  | .rewrapAccount id _, next => next () = ask (.revokeAccountTokens id)
  | _, _ => True

variable {P} {cfg} {minted : Minted} {now : ℤ}

theorem answers_exec (now : ℤ) (c : Call) (db : SqliteDb) (r : c.Ret)
    (h : (SqliteStore.exec P now c db).1 = .ok r) : Answers c r := by
  cases c with
  | accountById id =>
    obtain rfl : db.accountById id = r := Except.ok.inj h
    intro a ha
    exact KeyedTable.find?_key_eq ha
  | _ => exact trivial

theorem unopened_of_next?_none {hashes : List String} {p : Handler Unit} (h : p.next? = none) :
    Unopened hashes p := by
  cases p with
  | pure a => exact .plain trivial
  | fail e => exact .plain trivial
  | call c next => simp [next?] at h

theorem issuing_issueSession (P : Platform) (cfg : Config) (now : ℤ) (minted : Minted)
    {view : Account} {id : String} (hid : view.id = id) (deviceId deviceName : String) :
    Issuing [P.hashToken minted.accessToken, P.hashToken minted.refreshToken] id
      (Program.discard (issueSession P cfg now minted view deviceId deviceName)) := by
  apply everywhere_discard
  refine ⟨⟨hid, by simp⟩, fun _ _ => ⟨⟨hid, by simp⟩, fun _ _ => ?_⟩⟩
  by_cases hdevice : deviceId ≠ ""
  · rw [if_pos hdevice]
    exact ⟨trivial, fun _ _ => trivial⟩
  · rw [if_neg hdevice]
    exact trivial

theorem issuing_signIn (P : Platform) (cfg : Config) (now : ℤ) (minted : Minted) (accepted : Bool)
    {view : Account} {id : String} (hid : view.id = id) (deviceId deviceName : String) :
    Issuing [P.hashToken minted.accessToken, P.hashToken minted.refreshToken] id
      (Program.discard (if !accepted then .fail .badCredentials
        else issueSession P cfg now minted view deviceId deviceName)) := by
  cases accepted with
  | false => exact trivial
  | true => exact issuing_issueSession P cfg now minted hid deviceId deviceName

theorem unopened_refresh (refreshToken : String) :
    Unopened [P.hashToken minted.accessToken, P.hashToken minted.refreshToken]
      (Program.discard (refresh P cfg now minted refreshToken)) := by
  refine .token ?_ rfl
  intro row
  refine ⟨rfl, ?_⟩
  intro found hfound
  cases found with
  | none => exact trivial
  | some account =>
    exact issuing_issueSession P cfg now minted (hfound account rfl) "" ""

theorem everywhere_lift_bind {α β : Type} {R : (c : Call) → c.Ret → Prop}
    {K : (c : Call) → (c.Ret → Handler β) → Prop} {x : Except Error α} {f : α → Handler β}
    (h : ∀ a, Everywhere R K (f a)) : Everywhere R K (lift x >>= f) := by
  cases x with
  | ok a => exact h a
  | error e => exact trivial

theorem plain_rewrap (salts : Salts) (caller : Caller) (body : RewrapRequest) :
    Everywhere Answers (fun c _ => Plain c) (rewrap P salts caller body) := by
  refine ⟨trivial, ?_⟩
  intro found _
  cases found with
  | none => exact trivial
  | some account =>
    apply everywhere_lift_bind
    intro _
    apply everywhere_lift_bind
    intro _
    exact ⟨trivial, fun _ _ => ⟨trivial, fun _ _ => trivial⟩⟩

theorem unopened_act (r : SessionRequest) : Unopened (hashes P r) (act P cfg r) := by
  cases r with
  | login now admitted minted body =>
    cases admitted with
    | false => exact .plain trivial
    | true =>
      exact .email (fun account => issuing_signIn P cfg now minted
        (P.verifyPassword body.authKey account.authHash) rfl body.deviceId body.deviceName) rfl
  | recover now admitted minted body =>
    cases admitted with
    | false => exact .plain trivial
    | true =>
      exact .email (fun account => issuing_signIn P cfg now minted
        (P.verifyPassword body.recoveryAuthKey account.recoveryAuthHash)
        (show (recoveryView account).id = account.id from rfl) body.deviceId body.deviceName) rfl
  | refresh now minted refreshToken => exact unopened_refresh refreshToken
  | rewrap salts caller body => exact .plain (plain_rewrap salts caller body)
  | logout caller => exact .plain ⟨trivial, fun _ _ => trivial⟩

/-- Every request ends the sessions it ends by its last call. -/
theorem endsSessions_act (r : SessionRequest) : Everywhere Answers EndsSessions (act P cfg r) := by
  have opened {p : Handler Session} (hp : Issues OpensSession p) :
      Everywhere Answers EndsSessions (Program.discard p) := by
    apply everywhere_of_issues _ (issues_discard hp)
    intro c next hc
    cases c <;> first | exact trivial | exact hc.elim
  cases r with
  | login now admitted minted body => exact opened (issues_login _)
  | recover now admitted minted body => exact opened (issues_recover _)
  | refresh now minted refreshToken => exact opened (issues_refresh _)
  | rewrap salts caller body =>
    refine ⟨trivial, ?_⟩
    intro found _
    cases found with
    | none => exact trivial
    | some account =>
      apply everywhere_lift_bind
      intro _
      apply everywhere_lift_bind
      intro _
      exact ⟨rfl, fun _ _ => ⟨rfl, fun _ _ => trivial⟩⟩
  | logout caller => exact ⟨rfl, fun _ _ => trivial⟩

end Sessions
end RemotierSync
