import RemotierSync.RateLimit
import RemotierSync.WellFormed

/-!
# Tenants

A tenant is a part of the accounts of an instance, with the group ids, the email addresses and the
tokens they use and the peers they come from. While no request mixes the names of a tenant with
others, every row belongs to the tenant or to the rest as a whole. A store call that names what is
the tenant's does the same to the rows of the tenant whether the others are there or not, and one
that names nothing of his leaves them alone. Only the counter of the change log is shared.
-/

namespace RemotierSync

structure Tenant where
  account : String → Bool
  group : String → Bool
  address : String → Bool
  token : String → Bool
  peer : IpAddr → Bool
  address_congr : ∀ {a b}, SqliteStore.emailEq a b = true → address a = address b

namespace Tenant

open SqliteStore

def compl (T : Tenant) : Tenant where
  account id := !T.account id
  group id := !T.group id
  address email := !T.address email
  token hash := !T.token hash
  peer ip := !T.peer ip
  address_congr h := congrArg (!·) (T.address_congr h)

variable (P : Platform) (T : Tenant) (now : ℤ)

def view (t : Tables) : Tables where
  accounts := t.accounts.restrict (fun a => T.account a.id)
  tokens := t.tokens.restrict (fun row => T.account row.accountId)
  records := t.records.restrict (fun r => T.account r.accountId)
  shares := t.shares.restrict (fun s => T.group s.groupId)
  devices := t.devices.restrict (fun d => T.account d.accountId)

def viewDb (db : SqliteDb) : SqliteDb := { T.view db.toTables with next := db.next }

/-- No row mixes what is the tenant's with what is not. -/
structure Separated (t : Tables) : Prop where
  accounts : ∀ a ∈ t.accounts.rows, T.address a.email = T.account a.id
  tokens : ∀ row ∈ t.tokens.rows, T.token row.hash = T.account row.accountId
  records : ∀ r ∈ t.records.rows, ∀ g, r.groupId = some g → T.group g = T.account r.accountId
  shares : ∀ s ∈ t.shares.rows,
    T.account s.ownerId = T.group s.groupId ∧ T.account s.userId = T.group s.groupId

def stored (email : String) : String := P.toLowercase (trim email)

/-- The call names only what is the tenant's. -/
def Within : Call → Prop
  | .createAccount id new => T.account id = true ∧ T.address (stored P new.email) = true
  | .accountByEmail email => T.address (stored P email) = true
  | .accountById id => T.account id = true
  | .rewrapAccount id _ => T.account id = true
  | .putToken hash accountId _ _ => T.token hash = true ∧ T.account accountId = true
  | .takeToken hash _ => T.token hash = true
  | .consumeToken hash _ => T.token hash = true
  | .revokeAccountTokens accountId => T.account accountId = true
  | .putEnvelope accountId e =>
    T.account accountId = true ∧ ∀ g, e.groupId = some g → T.group g = true
  | .pull accountId _ _ => T.account accountId = true
  | .maxSeq _ => True
  | .putShare ownerId groupId userId _ =>
    T.account ownerId = true ∧ T.group groupId = true ∧ T.account userId = true
  | .sharesForGroup _ groupId => T.group groupId = true
  | .deleteShare _ groupId _ => T.group groupId = true
  | .sharesForUser userId => T.account userId = true
  | .shareOwner groupId => T.group groupId = true
  | .canWriteGroup _ groupId => T.group groupId = true
  | .touchDevice accountId _ _ => T.account accountId = true
  | .devices accountId => T.account accountId = true

variable {P} {T} {now} {t : Tables} {id groupId userId ownerId : String}

/-! ## What a lookup finds in the view -/

theorem accountById_view (h : T.account id = true) : (T.view t).accountById id = t.accountById id :=
  KeyedTable.find?_restrict fun a _ hid => by rwa [show a.id = id from hid]

theorem filter_restrict {ρ κ : Type} {key : ρ → κ} {table : KeyedTable key} {p q : ρ → Bool}
    (h : ∀ r ∈ table.rows, q r = true → p r = true) :
    (table.restrict p).rows.filter q = table.rows.filter q := by
  rw [KeyedTable.rows_restrict, List.filter_filter]
  apply List.filter_congr
  intro r hr
  cases hq : q r with
  | false => simp
  | true => simp [h r hr hq]

theorem accountByEmail_view (h : T.Separated t) {email : String}
    (hemail : T.address (stored P email) = true) :
    (T.view t).accountByEmail P emailEq email = t.accountByEmail P emailEq email := by
  have hkept : ∀ a ∈ t.accounts.rows, emailEq a.email (P.toLowercase (trim email)) = true →
      T.account a.id = true := by
    intro a ha heq
    rw [← h.accounts a ha, T.address_congr heq]
    exact hemail
  unfold Tables.accountByEmail
  rw [← List.head?_filter, ← List.head?_filter]
  exact congrArg List.head? (filter_restrict hkept)

theorem takeToken_view (h : T.Separated t) {hash kind : String} (hhash : T.token hash = true) :
    (T.view t).takeToken now hash kind = t.takeToken now hash kind := by
  have hkept : ∀ row ∈ t.tokens.rows, Tables.isLive now hash kind row = true →
      T.account row.accountId = true := by
    intro row hrow hlive
    rw [← h.tokens row hrow, (Tables.isLive_iff.mp hlive).1]
    exact hhash
  unfold Tables.takeToken
  rw [← List.head?_filter, ← List.head?_filter]
  exact congrArg (fun rows => (List.head? rows).map _) (filter_restrict hkept)

theorem sharesOf_view {q : ShareEntry → Bool} (hgroup : T.group groupId = true)
    (hq : ∀ s, q s = true → s.groupId = groupId) :
    (T.view t).shares.rows.filter q = t.shares.rows.filter q :=
  filter_restrict fun s _ hs => by rwa [hq s hs]

theorem sharesForUser_rows (h : T.Separated t) (huser : T.account userId = true) :
    (T.view t).shares.rows.filter (fun s => s.userId = userId) =
      t.shares.rows.filter (fun s => s.userId = userId) := by
  apply filter_restrict
  intro s hs hu
  rw [← (h.shares s hs).2, of_decide_eq_true hu]
  exact huser

theorem visible_view (h : T.Separated t) (hid : T.account id = true) (r : RecordEntry) :
    (T.view t).visible id r = t.visible id r := by
  unfold Tables.visible Tables.sharedWith
  rw [sharesForUser_rows h hid]

theorem account_of_visible (h : T.Separated t) (hid : T.account id = true) {r : RecordEntry}
    (hr : r ∈ t.records.rows) (hvisible : t.visible id r = true) :
    T.account r.accountId = true := by
  rcases Tables.visible_iff.mp hvisible with rfl | ⟨g, hg, hshared⟩
  · exact hid
  · obtain ⟨s, hs, rfl, rfl⟩ := Tables.mem_sharedWith.mp hshared
    rw [← h.records r hr _ hg, ← (h.shares s hs).2]
    exact hid

theorem pullRows_view (h : T.Separated t) (hid : T.account id = true) (cursor : ℤ) :
    (T.view t).pullRows id cursor = t.pullRows id cursor := by
  have hvisible : (T.view t).visible id = t.visible id := funext (visible_view h hid)
  unfold Tables.pullRows
  rw [hvisible]
  exact congrArg _ (filter_restrict fun r hr => account_of_visible h hid hr)

/-! ## A call of the tenant's -/

theorem free_view (h : T.Separated t) {new : NewAccount} (hid : T.account id = true)
    (hemail : T.address (stored P new.email) = true) :
    (T.view t).Free P emailEq id new.email ↔ t.Free P emailEq id new.email := by
  constructor
  · intro hfree a ha
    cases hmine : T.account a.id with
    | true => exact hfree a (KeyedTable.mem_restrict.mpr ⟨ha, hmine⟩)
    | false =>
      refine ⟨fun hsame => ?_, ?_⟩
      · rw [hsame, hid] at hmine
        cases hmine
      · rw [← h.accounts a ha] at hmine
        cases heq : emailEq a.email (P.toLowercase (trim new.email)) with
        | false => rfl
        | true =>
          rw [T.address_congr heq] at hmine
          exact absurd (hemail.symm.trans hmine) (by simp)
  · exact fun hfree a ha => hfree a (KeyedTable.mem_restrict.mp ha).1

theorem createAccount_view (h : T.Separated t) {new : NewAccount} (hid : T.account id = true)
    (hemail : T.address (stored P new.email) = true) :
    (T.view t).createAccount P emailEq id new =
      ((t.createAccount P emailEq id new).1, T.view (t.createAccount P emailEq id new).2) := by
  have hiff : (T.view t).Free P emailEq id new.email ↔ t.Free P emailEq id new.email :=
    free_view h hid hemail
  by_cases hfree : t.Free P emailEq id new.email
  · rw [Tables.createAccount_of_free (hiff.mpr hfree), Tables.createAccount_of_free hfree]
    have haccounts : (t.accounts.upsert (Tables.newAccount P id new) (fun a => a)
        (fun _ => rfl)).restrict (fun a => T.account a.id) =
          (T.view t).accounts.upsert (Tables.newAccount P id new) (fun a => a) (fun _ => rfl) :=
      KeyedTable.restrict_upsert (fun _ => rfl) hid fun a _ hkey => by
        rwa [show a.id = id from hkey]
    rw [← haccounts]
    rfl
  · rw [Tables.createAccount_of_not_free (mt hiff.mp hfree),
      Tables.createAccount_of_not_free hfree]

theorem rewrapAccount_view {new : NewAccount} :
    (T.view t).rewrapAccount id new = T.view (t.rewrapAccount id new) := by
  have haccounts : (t.accounts.update (fun a => a.id = id) (Account.rewrap new)
      (Account.rewrap_id new)).restrict (fun a => T.account a.id) =
        (T.view t).accounts.update (fun a => a.id = id) (Account.rewrap new)
          (Account.rewrap_id new) :=
    KeyedTable.restrict_update fun _ => rfl
  unfold Tables.rewrapAccount
  rw [← haccounts]
  rfl

theorem account_of_hash (h : T.Separated t) {hash : String} (hhash : T.token hash = true) :
    ∀ row ∈ t.tokens.rows, row.hash = hash → T.account row.accountId = true := by
  intro row hrow hsame
  rw [← h.tokens row hrow, hsame]
  exact hhash

theorem putToken_view (h : T.Separated t) {hash kind : String} {expiresAt : ℤ}
    (hhash : T.token hash = true) (hid : T.account id = true) :
    (T.view t).putToken hash id kind expiresAt =
      ((t.putToken hash id kind expiresAt).1, T.view (t.putToken hash id kind expiresAt).2) := by
  have hfind : (T.view t).tokens.find? hash = t.tokens.find? hash :=
    KeyedTable.find?_restrict (account_of_hash h hhash)
  have htokens : (t.tokens.upsert ⟨hash, id, kind, expiresAt⟩ (TokenEntry.extend expiresAt)
      (TokenEntry.extend_hash expiresAt)).restrict (fun row => T.account row.accountId) =
        (T.view t).tokens.upsert ⟨hash, id, kind, expiresAt⟩ (TokenEntry.extend expiresAt)
          (TokenEntry.extend_hash expiresAt) :=
    KeyedTable.restrict_upsert (fun _ => rfl) hid (account_of_hash h hhash)
  unfold Tables.putToken
  rw [hfind, accountById_view hid]
  split_ifs
  · rfl
  · rfl
  · rw [← htokens]
    rfl

theorem consumeToken_view (h : T.Separated t) {hash kind : String} (hhash : T.token hash = true) :
    (T.view t).consumeToken now hash kind =
      ((t.consumeToken now hash kind).1, T.view (t.consumeToken now hash kind).2) := by
  have htokens : (t.tokens.delete (Tables.isLive now hash kind)).restrict
      (fun row => T.account row.accountId) =
        (T.view t).tokens.delete (Tables.isLive now hash kind) := KeyedTable.restrict_delete
  unfold Tables.consumeToken
  rw [takeToken_view h hhash, ← htokens]
  rfl

theorem revokeAccountTokens_view :
    (T.view t).revokeAccountTokens id = T.view (t.revokeAccountTokens id) := by
  have htokens : (t.tokens.delete (fun row => row.accountId = id)).restrict
      (fun row => T.account row.accountId) =
        (T.view t).tokens.delete (fun row => row.accountId = id) := KeyedTable.restrict_delete
  unfold Tables.revokeAccountTokens
  rw [← htokens]
  rfl

theorem account_of_key {x : RecordEntry} (hx : T.account x.accountId = true) :
    ∀ r ∈ t.records.rows, r.key = x.key → T.account r.accountId = true := by
  intro r _ hkey
  rwa [show r.accountId = x.accountId from congrArg Prod.fst hkey]

theorem putRecord_view {x : RecordEntry} (hx : T.account x.accountId = true) :
    (T.view t).putRecord textGt x =
      ((t.putRecord textGt x).1, T.view (t.putRecord textGt x).2) := by
  have hfind : (T.view t).records.find? x.key = t.records.find? x.key :=
    KeyedTable.find?_restrict (account_of_key hx)
  have hrecords : (t.upsertRecord textGt x).restrict (fun r => T.account r.accountId) =
      (T.view t).upsertRecord textGt x :=
    KeyedTable.restrict_upsert
      (fun r => congrArg (fun key => T.account key.1) (x.merge_key textGt r)) hx (account_of_key hx)
  unfold Tables.putRecord Tables.replaces
  rw [hfind, accountById_view hx, ← hrecords]
  split_ifs <;> rfl

theorem putEnvelope_view {db : SqliteDb} {e : Envelope} (hid : T.account id = true) :
    putEnvelope P id e (T.viewDb db) =
      ((putEnvelope P id e db).1, T.viewDb (putEnvelope P id e db).2) := by
  have hput : (T.view db.toTables).putRecord textGt (P.recordEntry id e (db.next + 1)) =
      ((db.putRecord textGt (P.recordEntry id e (db.next + 1))).1,
        T.view (db.putRecord textGt (P.recordEntry id e (db.next + 1))).2) :=
    putRecord_view hid
  unfold putEnvelope viewDb
  dsimp only
  rw [hput]
  rcases db.putRecord textGt (P.recordEntry id e (db.next + 1)) with ⟨e | row, t⟩ <;> rfl

theorem putShare_view {wrapped : String} (howner : T.account ownerId = true)
    (hgroup : T.group groupId = true) (huser : T.account userId = true) :
    (T.view t).putShare now ownerId groupId userId wrapped =
      ((t.putShare now ownerId groupId userId wrapped).1,
        T.view (t.putShare now ownerId groupId userId wrapped).2) := by
  have hkept : ∀ s ∈ t.shares.rows, s.key = (groupId, userId) → T.group s.groupId = true := by
    intro s _ hkey
    rwa [show s.groupId = groupId from congrArg Prod.fst hkey]
  have hfind : (T.view t).shares.find? (groupId, userId) = t.shares.find? (groupId, userId) :=
    KeyedTable.find?_restrict hkept
  have hshares : (t.shares.upsert ⟨groupId, ownerId, userId, wrapped, now⟩
      (ShareEntry.rewrap wrapped) (ShareEntry.rewrap_key wrapped)).restrict
        (fun s => T.group s.groupId) =
      (T.view t).shares.upsert ⟨groupId, ownerId, userId, wrapped, now⟩
        (ShareEntry.rewrap wrapped) (ShareEntry.rewrap_key wrapped) :=
    KeyedTable.restrict_upsert (fun _ => rfl) hgroup hkept
  unfold Tables.putShare
  rw [hfind, accountById_view howner, accountById_view huser]
  split_ifs
  · rfl
  · rw [← hshares]
    rfl

theorem deleteShare_view :
    (T.view t).deleteShare ownerId groupId userId = T.view (t.deleteShare ownerId groupId userId) :=
    by
  have hshares : (t.shares.delete (fun s => s.groupId = groupId && s.ownerId = ownerId &&
      s.userId = userId)).restrict (fun s => T.group s.groupId) =
        (T.view t).shares.delete (fun s => s.groupId = groupId && s.ownerId = ownerId &&
          s.userId = userId) := KeyedTable.restrict_delete
  unfold Tables.deleteShare
  rw [← hshares]
  rfl

theorem touchDevice_view {deviceId name : String} (hid : T.account id = true) :
    (T.view t).touchDevice now id deviceId name =
      ((t.touchDevice now id deviceId name).1, T.view (t.touchDevice now id deviceId name).2) := by
  have hkept : ∀ d ∈ t.devices.rows, d.key = (id, deviceId) → T.account d.accountId = true := by
    intro d _ hkey
    rwa [show d.accountId = id from congrArg Prod.fst hkey]
  have hfind : (T.view t).devices.find? (id, deviceId) = t.devices.find? (id, deviceId) :=
    KeyedTable.find?_restrict hkept
  have hdevices : (t.devices.upsert ⟨id, deviceId, name, now⟩ (DeviceEntry.touch name now)
      (DeviceEntry.touch_key name now)).restrict (fun d => T.account d.accountId) =
        (T.view t).devices.upsert ⟨id, deviceId, name, now⟩ (DeviceEntry.touch name now)
          (DeviceEntry.touch_key name now) :=
    KeyedTable.restrict_upsert (fun _ => rfl) hid hkept
  unfold Tables.touchDevice
  rw [hfind, accountById_view hid]
  split_ifs
  · rfl
  · rw [← hdevices]
    rfl

theorem sharesForGroup_view (h : T.Separated t) (hgroup : T.group groupId = true) :
    (T.view t).sharesForGroup P ownerId groupId = t.sharesForGroup P ownerId groupId := by
  have hrows : (T.view t).shares.rows.filter
      (fun s => s.groupId = groupId && s.ownerId = ownerId) =
        t.shares.rows.filter (fun s => s.groupId = groupId && s.ownerId = ownerId) :=
    sharesOf_view hgroup fun s hs => of_decide_eq_true (Bool.and_eq_true_iff.mp hs).1
  unfold Tables.sharesForGroup
  rw [hrows]
  apply List.filterMap_congr
  intro s hs
  obtain ⟨hs, hpicked⟩ := List.mem_filter.mp (P.mem_scanShares.mp hs)
  have huser : T.account s.userId = true := by
    rw [(h.shares s hs).2, of_decide_eq_true (Bool.and_eq_true_iff.mp hpicked).1]
    exact hgroup
  rw [accountById_view huser]

theorem sharesForUser_view (h : T.Separated t) (huser : T.account userId = true) :
    (T.view t).sharesForUser P userId = t.sharesForUser P userId := by
  unfold Tables.sharesForUser
  rw [sharesForUser_rows h huser]
  apply List.filterMap_congr
  intro s hs
  obtain ⟨hs, hpicked⟩ := List.mem_filter.mp (P.mem_scanShares.mp hs)
  have howner : T.account s.ownerId = true := by
    rw [(h.shares s hs).1, ← (h.shares s hs).2, of_decide_eq_true hpicked]
    exact huser
  rw [accountById_view howner]

theorem sharesOfGroup_view (hgroup : T.group groupId = true) :
    (T.view t).shares.rows.filter (fun s => s.groupId = groupId) =
      t.shares.rows.filter (fun s => s.groupId = groupId) :=
  sharesOf_view hgroup fun _ hs => of_decide_eq_true hs

theorem any_filter_self {α : Type} {l : List α} {p q : α → Bool}
    (h : ∀ a, p a = true → q a = true) :
    (l.filter q).any p = l.any p := by
  rw [List.any_filter]
  congr 1
  funext a
  cases hp : p a <;> simp [h a, hp]

theorem canWriteGroup_view (hgroup : T.group groupId = true) :
    (T.view t).canWriteGroup id groupId = t.canWriteGroup id groupId := by
  have hany {p : ShareEntry → Bool} (hp : ∀ s, p s = true → s.groupId = groupId) :
      (T.view t).shares.rows.any p = t.shares.rows.any p := by
    rw [← any_filter_self (q := fun s => s.groupId = groupId) (fun s hs => by simp [hp s hs]),
      sharesOfGroup_view hgroup, any_filter_self (fun s hs => by simp [hp s hs])]
  unfold Tables.canWriteGroup
  rw [hany (fun s hs => of_decide_eq_true hs),
    hany (fun s hs => of_decide_eq_true (Bool.and_eq_true_iff.mp hs).1)]

theorem devicesOf_view (hid : T.account id = true) :
    (T.view t).devicesOf P id = t.devicesOf P id := by
  have hrows : (T.view t).devices.rows.filter (fun d => d.accountId = id) =
      t.devices.rows.filter (fun d => d.accountId = id) :=
    filter_restrict fun d _ hd => by rwa [of_decide_eq_true hd]
  unfold Tables.devicesOf
  rw [hrows]

variable (T) in
theorem onTables_view {α : Type} {db : SqliteDb} (f : Tables → Except Error α × Tables)
    (hf : f (T.view db.toTables) = ((f db.toTables).1, T.view (f db.toTables).2)) :
    (T.viewDb db).onTables f = ((db.onTables f).1, T.viewDb (db.onTables f).2) := by
  unfold SqliteDb.onTables viewDb
  dsimp only
  rw [hf]

variable (P) (now) in
/-- The tenant alone is served as he is among the others. -/
theorem exec_view {c : Call} {db : SqliteDb} (h : T.Separated db.toTables) (hc : T.Within P c) :
    exec P now c (T.viewDb db) = ((exec P now c db).1, T.viewDb (exec P now c db).2) := by
  have hdone {t : Tables} {t' : Tables} (ht : t = t') :
      ((.ok (), t) : Except Error Unit × Tables) = (.ok (), t') := by
    rw [ht]
  cases c with
  | createAccount id new =>
    exact onTables_view T (fun t => t.createAccount P emailEq id new)
      (createAccount_view h hc.1 hc.2)
  | accountByEmail email => exact Prod.ext (congrArg Except.ok (accountByEmail_view h hc)) rfl
  | accountById id => exact Prod.ext (congrArg Except.ok (accountById_view hc)) rfl
  | rewrapAccount id new =>
    exact onTables_view T (fun t => (.ok (), t.rewrapAccount id new)) (hdone rewrapAccount_view)
  | putToken hash id kind expiresAt =>
    exact onTables_view T (fun t => t.putToken hash id kind expiresAt) (putToken_view h hc.1 hc.2)
  | takeToken hash kind => exact Prod.ext (congrArg Except.ok (takeToken_view h hc)) rfl
  | consumeToken hash kind =>
    apply onTables_view T
      (fun t => (.ok (t.consumeToken now hash kind).1, (t.consumeToken now hash kind).2))
    rw [consumeToken_view h hc]
  | revokeAccountTokens id =>
    exact onTables_view T (fun t => (.ok (), t.revokeAccountTokens id))
      (hdone revokeAccountTokens_view)
  | putEnvelope id e => exact putEnvelope_view hc.1
  | pull id cursor limit =>
    have hpull : pull P id cursor limit (T.viewDb db) = pull P id cursor limit db := by
      unfold pull viewDb
      dsimp only
      rw [pullRows_view h hc]
    exact Prod.ext hpull rfl
  | maxSeq id => rfl
  | putShare ownerId groupId userId wrapped =>
    exact onTables_view T (fun t => t.putShare now ownerId groupId userId wrapped)
      (putShare_view hc.1 hc.2.1 hc.2.2)
  | sharesForGroup ownerId groupId =>
    exact Prod.ext (congrArg Except.ok (sharesForGroup_view h hc)) rfl
  | deleteShare ownerId groupId userId =>
    exact onTables_view T (fun t => (.ok (), t.deleteShare ownerId groupId userId))
      (hdone deleteShare_view)
  | sharesForUser userId => exact Prod.ext (congrArg Except.ok (sharesForUser_view h hc)) rfl
  | shareOwner groupId =>
    have howner : (T.view db.toTables).shareOwner P groupId = db.shareOwner P groupId := by
      unfold Tables.shareOwner
      rw [sharesOfGroup_view hc]
    exact Prod.ext (congrArg Except.ok howner) rfl
  | canWriteGroup id groupId => exact Prod.ext (congrArg Except.ok (canWriteGroup_view hc)) rfl
  | touchDevice id deviceId name =>
    exact onTables_view T (fun t => t.touchDevice now id deviceId name) (touchDevice_view hc)
  | devices id => exact Prod.ext (congrArg Except.ok (devicesOf_view hc)) rfl

/-! ## A call of somebody else's -/

theorem view_createAccount {new : NewAccount} (hid : T.account id = false) :
    T.view (t.createAccount P emailEq id new).2 = T.view t := by
  by_cases hfree : t.Free P emailEq id new.email
  · have haccounts : (t.accounts.upsert (Tables.newAccount P id new) (fun a => a)
        (fun _ => rfl)).restrict (fun a => T.account a.id) = (T.view t).accounts :=
      KeyedTable.restrict_upsert_of_dropped (fun _ => rfl) hid fun a _ hkey => by
        rwa [show a.id = id from hkey]
    rw [Tables.createAccount_of_free hfree, view, haccounts]
    rfl
  · rw [Tables.createAccount_of_not_free hfree]

theorem view_rewrapAccount {new : NewAccount} (hid : T.account id = false) :
    T.view (t.rewrapAccount id new) = T.view t := by
  have haccounts : (t.accounts.update (fun a => a.id = id) (Account.rewrap new)
      (Account.rewrap_id new)).restrict (fun a => T.account a.id) = (T.view t).accounts :=
    KeyedTable.restrict_update_of_dropped (fun _ => rfl) fun a _ ha => by
      rwa [of_decide_eq_true ha]
  rw [Tables.rewrapAccount, view, haccounts]
  rfl

theorem not_account_of_hash (h : T.Separated t) {hash : String} (hhash : T.token hash = false) :
    ∀ row ∈ t.tokens.rows, row.hash = hash → T.account row.accountId = false := by
  intro row hrow hsame
  rw [← h.tokens row hrow, hsame]
  exact hhash

theorem view_putToken (h : T.Separated t) {hash kind : String} {expiresAt : ℤ}
    (hhash : T.token hash = false) (hid : T.account id = false) :
    T.view (t.putToken hash id kind expiresAt).2 = T.view t := by
  have htokens : (t.tokens.upsert ⟨hash, id, kind, expiresAt⟩ (TokenEntry.extend expiresAt)
      (TokenEntry.extend_hash expiresAt)).restrict (fun row => T.account row.accountId) =
        (T.view t).tokens :=
    KeyedTable.restrict_upsert_of_dropped (fun _ => rfl) hid (not_account_of_hash h hhash)
  unfold Tables.putToken
  split_ifs
  · rfl
  · rfl
  · rw [view, htokens]
    rfl

theorem view_consumeToken (h : T.Separated t) {hash kind : String}
    (hhash : T.token hash = false) : T.view (t.consumeToken now hash kind).2 = T.view t := by
  have htokens : (t.tokens.delete (Tables.isLive now hash kind)).restrict
      (fun row => T.account row.accountId) = (T.view t).tokens :=
    KeyedTable.restrict_delete_of_dropped fun row hrow hlive =>
      not_account_of_hash h hhash row hrow (Tables.isLive_iff.mp hlive).1
  rw [Tables.consumeToken, view, htokens]
  rfl

theorem view_revokeAccountTokens (hid : T.account id = false) :
    T.view (t.revokeAccountTokens id) = T.view t := by
  have htokens : (t.tokens.delete (fun row => row.accountId = id)).restrict
      (fun row => T.account row.accountId) = (T.view t).tokens :=
    KeyedTable.restrict_delete_of_dropped fun row _ hrow => by rwa [of_decide_eq_true hrow]
  rw [Tables.revokeAccountTokens, view, htokens]
  rfl

theorem view_putRecord {x : RecordEntry} (hx : T.account x.accountId = false) :
    T.view (t.putRecord textGt x).2 = T.view t := by
  have hrecords : (t.upsertRecord textGt x).restrict (fun r => T.account r.accountId) =
      (T.view t).records :=
    KeyedTable.restrict_upsert_of_dropped
      (fun r => congrArg (fun key => T.account key.1) (x.merge_key textGt r)) hx fun r _ hkey => by
        rwa [show r.accountId = x.accountId from congrArg Prod.fst hkey]
  by_cases hfile : t.Fileable x
  · rw [Tables.putRecord_of_fileable hfile, view, hrecords]
    rfl
  · rw [Tables.putRecord_of_not_fileable hfile]

theorem view_putEnvelope {db : SqliteDb} {e : Envelope} (hid : T.account id = false) :
    T.view (putEnvelope P id e db).2.toTables = T.view db.toTables := by
  have hput : T.view (db.putRecord textGt (P.recordEntry id e (db.next + 1))).2 =
      T.view db.toTables := view_putRecord hid
  unfold putEnvelope
  dsimp only
  rcases hrow : db.putRecord textGt (P.recordEntry id e (db.next + 1)) with ⟨e | row, t⟩
  · rfl
  · rwa [hrow] at hput

theorem view_putShare {wrapped : String} (hgroup : T.group groupId = false) :
    T.view (t.putShare now ownerId groupId userId wrapped).2 = T.view t := by
  have hshares : (t.shares.upsert ⟨groupId, ownerId, userId, wrapped, now⟩
      (ShareEntry.rewrap wrapped) (ShareEntry.rewrap_key wrapped)).restrict
        (fun s => T.group s.groupId) = (T.view t).shares :=
    KeyedTable.restrict_upsert_of_dropped (fun _ => rfl) hgroup fun s _ hkey => by
      rwa [show s.groupId = groupId from congrArg Prod.fst hkey]
  unfold Tables.putShare
  split_ifs
  · rfl
  · rw [view, hshares]
    rfl

theorem view_deleteShare (hgroup : T.group groupId = false) :
    T.view (t.deleteShare ownerId groupId userId) = T.view t := by
  have hshares : (t.shares.delete (fun s => s.groupId = groupId && s.ownerId = ownerId &&
      s.userId = userId)).restrict (fun s => T.group s.groupId) = (T.view t).shares :=
    KeyedTable.restrict_delete_of_dropped fun s _ hs => by
      simp only [Bool.and_eq_true, decide_eq_true_eq] at hs
      rwa [hs.1.1]
  rw [Tables.deleteShare, view, hshares]
  rfl

theorem view_touchDevice {deviceId name : String} (hid : T.account id = false) :
    T.view (t.touchDevice now id deviceId name).2 = T.view t := by
  have hdevices : (t.devices.upsert ⟨id, deviceId, name, now⟩ (DeviceEntry.touch name now)
      (DeviceEntry.touch_key name now)).restrict (fun d => T.account d.accountId) =
        (T.view t).devices :=
    KeyedTable.restrict_upsert_of_dropped (fun _ => rfl) hid fun d _ hkey => by
      rwa [show d.accountId = id from congrArg Prod.fst hkey]
  unfold Tables.touchDevice
  split_ifs
  · rfl
  · rw [view, hdevices]
    rfl

variable (P) (now) in
/-- A call that names nothing of the tenant's leaves his rows alone. -/
theorem view_exec_of_compl {c : Call} {db : SqliteDb} (h : T.Separated db.toTables)
    (hc : T.compl.Within P c) : T.view (exec P now c db).2.toTables = T.view db.toTables := by
  have hnot {b : Bool} (hb : (!b) = true) : b = false := by simpa using hb
  cases c with
  | createAccount id new => exact view_createAccount (hnot hc.1)
  | rewrapAccount id new => exact view_rewrapAccount (hnot hc)
  | putToken hash id kind expiresAt => exact view_putToken h (hnot hc.1) (hnot hc.2)
  | consumeToken hash kind => exact view_consumeToken h (hnot hc)
  | revokeAccountTokens id => exact view_revokeAccountTokens (hnot hc)
  | putEnvelope id e => exact view_putEnvelope (hnot hc.1)
  | putShare ownerId groupId userId wrapped => exact view_putShare (hnot hc.2.1)
  | deleteShare ownerId groupId userId => exact view_deleteShare (hnot hc)
  | touchDevice id deviceId name => exact view_touchDevice (hnot hc)
  | _ => rfl

/-! ## No call mixes rows -/

theorem separated_migrated : T.Separated .migrated where
  accounts a ha := by cases ha
  tokens row hrow := by cases hrow
  records r hr := by cases hr
  shares s hs := by cases hs

theorem separated_compl : T.compl.Separated t ↔ T.Separated t := by
  have hnot (b b' : Bool) : (!b) = !b' ↔ b = b' := by cases b <;> cases b' <;> simp
  constructor
  · rintro ⟨haccounts, htokens, hrecords, hshares⟩
    exact ⟨fun a ha => (hnot _ _).mp (haccounts a ha),
      fun row hrow => (hnot _ _).mp (htokens row hrow),
      fun r hr g hg => (hnot _ _).mp (hrecords r hr g hg),
      fun s hs => ⟨(hnot _ _).mp (hshares s hs).1, (hnot _ _).mp (hshares s hs).2⟩⟩
  · rintro ⟨haccounts, htokens, hrecords, hshares⟩
    exact ⟨fun a ha => congrArg (!·) (haccounts a ha),
      fun row hrow => congrArg (!·) (htokens row hrow),
      fun r hr g hg => congrArg (!·) (hrecords r hr g hg),
      fun s hs => ⟨congrArg (!·) (hshares s hs).1, congrArg (!·) (hshares s hs).2⟩⟩

theorem accounts_createAccount (h : T.Separated t) {new : NewAccount} (hid : T.account id = true)
    (hemail : T.address (stored P new.email) = true) :
    ∀ a ∈ (t.createAccount P emailEq id new).2.accounts.rows,
      T.address a.email = T.account a.id := by
  by_cases hfree : t.Free P emailEq id new.email
  · rw [Tables.createAccount_of_free hfree, Tables.rows_of_free hfree]
    intro a ha
    rcases List.mem_append.mp ha with ha | ha
    · exact h.accounts a ha
    · obtain rfl := List.mem_singleton.mp ha
      exact hemail.trans hid.symm
  · rw [Tables.createAccount_of_not_free hfree]
    exact h.accounts

theorem accounts_rewrapAccount (h : T.Separated t) {new : NewAccount} :
    ∀ a ∈ (t.rewrapAccount id new).accounts.rows, T.address a.email = T.account a.id := by
  intro a ha
  obtain ⟨old, hold, rfl⟩ := Tables.mem_rewrapAccount.mp ha
  split_ifs <;> exact h.accounts old hold

theorem tokens_putToken (h : T.Separated t) {hash kind : String} {expiresAt : ℤ}
    (hhash : T.token hash = true) (hid : T.account id = true) :
    ∀ row ∈ (t.putToken hash id kind expiresAt).2.tokens.rows,
      T.token row.hash = T.account row.accountId := by
  unfold Tables.putToken
  split_ifs
  · exact h.tokens
  · exact h.tokens
  · intro row hrow
    rcases KeyedTable.mem_upsert.mp hrow with ⟨hrow, _⟩ | rfl
    · exact h.tokens row hrow
    · cases hfind : t.tokens.find? hash with
      | none =>
        rw [KeyedTable.upserted_of_find?_none hfind]
        exact hhash.trans hid.symm
      | some old =>
        rw [KeyedTable.upserted_of_find?_some hfind]
        exact h.tokens old (KeyedTable.find?_eq_some.mp hfind).1

theorem records_putEnvelope {db : SqliteDb} (h : T.Separated db.toTables) {e : Envelope}
    (hid : T.account id = true) (hgroup : ∀ g, e.groupId = some g → T.group g = true) :
    ∀ r ∈ (putEnvelope P id e db).2.records.rows, ∀ g, r.groupId = some g →
      T.group g = T.account r.accountId := by
  intro r hr g hg
  rcases mem_putEnvelope hr with hr | ⟨rfl, _, _⟩
  · exact h.records r hr g hg
  · exact (hgroup g hg).trans hid.symm

theorem shares_putShare (h : T.Separated t) {wrapped : String} (howner : T.account ownerId = true)
    (hgroup : T.group groupId = true) (huser : T.account userId = true) :
    ∀ s ∈ (t.putShare now ownerId groupId userId wrapped).2.shares.rows,
      T.account s.ownerId = T.group s.groupId ∧ T.account s.userId = T.group s.groupId := by
  by_cases hok : (t.putShare now ownerId groupId userId wrapped).1 = .ok ()
  · intro s hs
    rcases (Tables.mem_putShare hok).mp hs with ⟨hs, _⟩ | hs
    · exact h.shares s hs
    · cases hfind : t.shares.find? (groupId, userId) with
      | none =>
        rw [hfind] at hs
        rw [hs]
        exact ⟨howner.trans hgroup.symm, huser.trans hgroup.symm⟩
      | some old =>
        rw [hfind] at hs
        rw [hs]
        exact h.shares old (KeyedTable.find?_eq_some.mp hfind).1
  · rw [Tables.putShare_error hok]
    exact h.shares

variable (P) (now) in
theorem separated_exec {c : Call} {db : SqliteDb} (h : T.Separated db.toTables)
    (hc : T.Within P c) : T.Separated (exec P now c db).2.toTables := by
  have hframe := exec_frame P now c db
  refine ⟨?_, ?_, ?_, ?_⟩
  · by_cases hwrites : writes c = some .accounts
    · cases c with
      | createAccount id new => exact accounts_createAccount h hc.1 hc.2
      | rewrapAccount id new => exact accounts_rewrapAccount h
      | _ => simp [writes] at hwrites
    · rw [hframe.accounts hwrites]
      exact h.accounts
  · by_cases hwrites : writes c = some .tokens
    · cases c with
      | putToken hash id kind expiresAt => exact tokens_putToken h hc.1 hc.2
      | consumeToken hash kind =>
        exact fun row hrow => h.tokens row (KeyedTable.mem_delete.mp hrow).1
      | revokeAccountTokens id =>
        exact fun row hrow => h.tokens row (KeyedTable.mem_delete.mp hrow).1
      | _ => simp [writes] at hwrites
    · rw [hframe.tokens hwrites]
      exact h.tokens
  · by_cases hwrites : writes c = some .records
    · obtain ⟨id, e, rfl⟩ := eq_putEnvelope_of_writes hwrites
      exact records_putEnvelope h hc.1 hc.2
    · rw [hframe.records hwrites]
      exact h.records
  · by_cases hwrites : writes c = some .shares
    · cases c with
      | putShare ownerId groupId userId wrapped => exact shares_putShare h hc.1 hc.2.1 hc.2.2
      | deleteShare ownerId groupId userId =>
        exact fun s hs => h.shares s (Tables.mem_deleteShare.mp hs).1
      | _ => simp [writes] at hwrites
    · rw [hframe.shares hwrites]
      exact h.shares

end Tenant
end RemotierSync
