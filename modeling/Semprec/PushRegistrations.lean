import Semprec.Lib.ReadCommitted

/-!
# Push registrations

`packages/data/src/push/pushSubscriptionsStore.ts` under READ COMMITTED.  A registration is a
transaction that revokes another user's active row for its endpoint or token, and inserts or
refreshes its own; the other operations are one `UPDATE` each.  An `UPDATE` looks for its rows when
it starts, waits for those that other transactions have locked, and writes the ones that still match.
-/

namespace Semprec

namespace PushRegistrations

inductive ApplePlatform where
  | ios
  | macos
deriving DecidableEq

inductive ApnsEnvironment where
  | sandbox
  | production
deriving DecidableEq

/-- The fields of one channel. -/
inductive Target where
  | webPush (endpoint p256dh authSecret : String)
  | apns (platform : ApplePlatform) (deviceToken : String) (apnsEnvironment : ApnsEnvironment)
deriving DecidableEq

inductive Key where
  | endpoint (endpoint : String)
  | deviceToken (deviceToken : String)
deriving DecidableEq

def Target.key : Target → Key
  | .webPush endpoint _ _ => .endpoint endpoint
  | .apns _ deviceToken _ => .deviceToken deviceToken

/-- `DO UPDATE SET` from the excluded row, which has the same key. -/
def Target.refreshed : Target → Target → Target
  | .webPush endpoint _ _, .webPush _ p256dh authSecret => .webPush endpoint p256dh authSecret
  | .apns _ deviceToken _, .apns platform _ apnsEnvironment =>
    .apns platform deviceToken apnsEnvironment
  | target, _ => target

/-- A row of `push_subscriptions`, without its times but for whether `revoked_at` is set. -/
structure Row where
  id : ℕ
  userId : ℕ
  sessionId : Option ℕ
  target : Target
  revoked : Bool
deriving DecidableEq

def Row.holds (row : Row) (key : Key) : Bool := !row.revoked && row.target.key = key

inductive Write where
  | revoke (ids : List ℕ)
  | insert (row : Row)
  | refresh (id : ℕ) (sessionId : Option ℕ) (target : Target)
  /-- `DO UPDATE … WHERE` locks the row that it leaves as it is. -/
  | lock (id : ℕ)
deriving DecidableEq

def apply (rows : List Row) : Write → List Row
  | .revoke ids => rows.map fun row => if row.id ∈ ids then { row with revoked := true } else row
  | .insert row => rows ++ [row]
  | .refresh id sessionId target => rows.map fun row =>
      if row.id = id then { row with sessionId, target := row.target.refreshed target } else row
  | .lock _ => rows

def Write.touches (id : ℕ) : Write → Bool
  | .revoke ids => id ∈ ids
  | .insert row => row.id = id
  | .refresh id' _ _ | .lock id' => id' = id

def Write.inserts (key : Key) : Write → Bool
  | .insert row => row.target.key = key
  | _ => false

structure Input where
  userId : ℕ
  sessionId : Option ℕ
  target : Target

/-- A send to the registration of `key`, after so many registrations had been committed. -/
structure Delivery where
  key : Key
  at_ : ℕ
deriving DecidableEq

inductive Revocation where
  | pushSubscriptionForUser (id userId : ℕ)
  | pushSubscriptionsForSession (sessionId : ℕ)
  | allPushSubscriptionsForUser (userId : ℕ)
  | pushSubscriptionByProviderInvalidation (delivery : Delivery)

/-- The `WHERE` of the `UPDATE`. -/
def Revocation.finds : Revocation → Row → Bool
  | .pushSubscriptionForUser id userId, row => !row.revoked && row.id = id && row.userId = userId
  | .pushSubscriptionsForSession sessionId, row => !row.revoked && row.sessionId = some sessionId
  | .allPushSubscriptionsForUser userId, row => !row.revoked && row.userId = userId
  | .pushSubscriptionByProviderInvalidation delivery, row => row.holds delivery.key

/-- The `WHERE` of the displacement. -/
def Input.displaces (input : Input) (row : Row) : Bool :=
  row.holds input.target.key && row.userId ≠ input.userId

/-- Where a transaction stands; `attempt` counts the turns of `displaceAndUpsert`. -/
inductive Tx where
  | displace (input : Input) (attempt : ℕ)
  | displacing (input : Input) (attempt : ℕ) (ids : List ℕ)
  | upsert (input : Input) (attempt : ℕ)
  | registered (input : Input) (id : ℕ)
  /-- The race was lost twice, and the error is thrown. -/
  | lost (input : Input)
  | revoke (revocation : Revocation)
  | revoking (revocation : Revocation) (ids : List ℕ)
  | revoked (revocation : Revocation) (ids : List ℕ)

/-- A row that an invalidation revoked, and when it had last been registered. -/
structure Invalidated where
  delivery : Delivery
  registeredAt : ℕ
deriving DecidableEq

/-- `clock` counts the registrations committed; a row's `registeredAt` is the count with the last one
of it, and `registrant` the user of the last one for a key. -/
structure Sys where
  db : ReadCommitted (List Row) Write
  txs : ℕ → Option Tx
  nextId : ℕ
  clock : ℕ
  registeredAt : ℕ → ℕ
  registrant : Key → Option ℕ
  deliveries : List Delivery
  invalidated : List Invalidated

def Sys.init : Sys := ⟨.init [], fun _ => none, 0, 0, fun _ => 0, fun _ => none, [], []⟩

inductive Act where
  | register (t : ℕ) (input : Input)
  | revoke (t : ℕ) (revocation : Revocation)
  /-- The next statement of the transaction. -/
  | run (t : ℕ)
  | commit (t : ℕ)
  /-- The transaction throws, or its connection is lost. -/
  | rollback (t : ℕ)
  /-- A notification is sent to a registration that was read, at any time before. -/
  | deliver (key : Key)

def Sys.setTx (s : Sys) (t : ℕ) (tx : Tx) : Sys :=
  { s with txs := Function.update s.txs t (some tx) }

def Sys.write (s : Sys) (t : ℕ) (ws : List Write) (tx : Tx) : Option Sys :=
  (s.db.write t ws).map fun db => { s with db, txs := Function.update s.txs t (some tx) }

def Sys.begin (s : Sys) (t : ℕ) (tx : Tx) : Option Sys :=
  (s.db.begin t).map fun db => { s with db, txs := Function.update s.txs t (some tx) }

def Sys.found (s : Sys) (t : ℕ) (finds : Row → Bool) : List ℕ :=
  ((s.db.view apply t).filter finds).map Row.id

/-- Those of the rows that still match, once no other transaction has locked any of them. -/
def Sys.unlocked (s : Sys) (t : ℕ) (finds : Row → Bool) (ids : List ℕ) : Option (List ℕ) :=
  if s.db.Locked t fun w => ids.any w.touches then none
  else some ((s.found t finds).filter fun id => id ∈ ids)

/-- `INSERT … ON CONFLICT`, once no other transaction has inserted a row of the key or locked the
active one. -/
def Sys.upsert (s : Sys) (t : ℕ) (input : Input) (attempt : ℕ) : Option Sys :=
  let key := input.target.key
  let view := s.db.view apply t
  if s.db.Locked t fun w => w.inserts key ∨ view.any fun row => row.holds key && w.touches row.id then
    none
  else
    match view.find? fun row => row.holds key with
    | none =>
      (s.write t [.insert ⟨s.nextId, input.userId, input.sessionId, input.target, false⟩]
        (.registered input s.nextId)).map fun s => { s with nextId := s.nextId + 1 }
    | some row =>
      if row.userId = input.userId then
        s.write t [.refresh row.id input.sessionId input.target] (.registered input row.id)
      else
        s.write t [.lock row.id] (if attempt = 0 then .displace input 1 else .lost input)

def Sys.run (s : Sys) (t : ℕ) : Option Sys :=
  match s.txs t with
  | some (.displace input attempt) =>
    some (s.setTx t (.displacing input attempt (s.found t input.displaces)))
  | some (.displacing input attempt ids) =>
    (s.unlocked t input.displaces ids).bind fun ids => s.write t [.revoke ids] (.upsert input attempt)
  | some (.upsert input attempt) => s.upsert t input attempt
  | some (.revoke revocation) =>
    some (s.setTx t (.revoking revocation (s.found t revocation.finds)))
  | some (.revoking revocation ids) =>
    (s.unlocked t revocation.finds ids).bind fun ids =>
      s.write t [.revoke ids] (.revoked revocation ids)
  | some (.registered _ _) | some (.lost _) | some (.revoked _ _) | none => none

def Sys.commit (s : Sys) (t : ℕ) : Option Sys :=
  match s.txs t with
  | some (.registered input id) =>
    (s.db.commit apply t).map fun db => { s with
      db
      txs := Function.update s.txs t none
      clock := s.clock + 1
      registeredAt := Function.update s.registeredAt id (s.clock + 1)
      registrant := Function.update s.registrant input.target.key (some input.userId) }
  | some (.revoked revocation ids) =>
    (s.db.commit apply t).map fun db => { s with
      db
      txs := Function.update s.txs t none
      invalidated := match revocation with
        | .pushSubscriptionByProviderInvalidation delivery =>
          s.invalidated ++ ids.map fun id => ⟨delivery, s.registeredAt id⟩
        | _ => s.invalidated }
  | _ => none

def step (s : Sys) : Act → Option Sys
  | .register t input => s.begin t (.displace input 0)
  | .revoke t revocation =>
    match revocation with
    | .pushSubscriptionByProviderInvalidation delivery =>
      if delivery ∈ s.deliveries then s.begin t (.revoke revocation) else none
    | _ => s.begin t (.revoke revocation)
  | .run t => s.run t
  | .commit t => s.commit t
  | .rollback t =>
    (s.db.rollback t).map fun db => { s with db, txs := Function.update s.txs t none }
  | .deliver key => some { s with deliveries := s.deliveries ++ [⟨key, s.clock⟩] }

/-! ### What is said of a run -/

/-- One active registration of a key at most, of the user who registered it last; and no
invalidation has revoked a registration committed after the delivery it was reported for. -/
structure Sys.Owned (s : Sys) : Prop where
  atMostOne : ∀ key, (s.db.committed.filter fun row => row.holds key).length ≤ 1
  owner : ∀ key, ∀ row ∈ s.db.committed, row.holds key = true →
    s.registrant key = some row.userId
  kept : ∀ x ∈ s.invalidated, x.registeredAt ≤ x.delivery.at_

/-- A registration that is not committed leaves every row as it was, and one that has lost the race
is not committed. -/
structure Sys.FailsCleanly (s : Sys) : Prop where
  rollback : ∀ t s', step s (.rollback t) = some s' → s'.db.committed = s.db.committed
  lost : ∀ t input, s.txs t = some (.lost input) → step s (.commit t) = none
  uncommitted : ∀ t s', step s (.run t) = some s' → s'.db.committed = s.db.committed

/-- When the `UPDATE` of an invalidation writes, the rows it finds were registered before the
delivery. -/
def NoneSince (s : Sys) : Act → Prop
  | .run t => ∀ delivery ids ids',
      s.txs t = some (.revoking (.pushSubscriptionByProviderInvalidation delivery) ids) →
      s.unlocked t (fun row => row.holds delivery.key) ids = some ids' →
      ∀ id ∈ ids', s.registeredAt id ≤ delivery.at_
  | _ => True

end PushRegistrations

end Semprec
