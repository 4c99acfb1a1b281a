import Mathlib.Data.List.Basic
import Semprec.Lib.Runs

/-!
# Notification fan-out

The job of a notification sends it to each registration of its user that is active when an attempt
begins.  A delivery row for each pair is claimed once and keeps the outcome; the registrations, the
claim and the statuses are three transactions, each send's outcome is recorded in one of its own,
and a transient failure makes the queue run the whole job again.
-/

namespace Semprec

namespace NotificationFanout

/-! ## Registrations -/

/-- The fields of one channel: a row of `web_push` has the first three and one of `apns` the other
two. -/
inductive Target where
  | webPush (endpoint p256dh authSecret : String)
  | apns (deviceToken apnsEnvironment : String)
deriving DecidableEq

inductive Key where
  | endpoint (endpoint : String)
  | deviceToken (deviceToken : String)
deriving DecidableEq

def Target.key : Target → Key
  | .webPush endpoint _ _ => .endpoint endpoint
  | .apns deviceToken _ => .deviceToken deviceToken

structure PushSubscriptionRow where
  id : ℕ
  userId : ℕ
  target : Target
  revoked : Bool
deriving DecidableEq

namespace PushSubscriptionRow

variable (row : PushSubscriptionRow)

/-- An endpoint or a token has one active row at most. -/
def holds (key : Key) : Bool := !row.revoked && row.target.key = key

def revoke : PushSubscriptionRow := { row with revoked := true }

end PushSubscriptionRow

/-- The rows that `UPDATE … SET revoked_at = now() WHERE …` finds are revoked. -/
def revokeWhere (p : PushSubscriptionRow → Bool) (rows : List PushSubscriptionRow) :
    List PushSubscriptionRow :=
  rows.map fun row => if p row then row.revoke else row

/-- `upsertWebPushSubscription` and `upsertApnsSubscription`: another user's active row is revoked,
and the user's own is refreshed or inserted. -/
def displaceAndUpsert (id userId : ℕ) (target : Target) (rows : List PushSubscriptionRow) :
    List PushSubscriptionRow :=
  let displaced := revokeWhere (fun row => row.holds target.key && row.userId ≠ userId) rows
  if displaced.any fun row => row.holds target.key then
    displaced.map fun row => if row.holds target.key then { row with target } else row
  else displaced ++ [⟨id, userId, target, false⟩]

def revokePushSubscriptionByProviderInvalidation (key : Key) (rows : List PushSubscriptionRow) :
    List PushSubscriptionRow :=
  revokeWhere (fun row => row.holds key) rows

/-- `ORDER BY created_at DESC`: the rows are in the order of their creation. -/
def listPushSubscriptionsForUser (userId : ℕ) (rows : List PushSubscriptionRow) :
    List PushSubscriptionRow :=
  (rows.filter fun row => row.userId = userId).reverse

/-! ## Deliveries -/

/-- A row of the notification; there is one for each registration at most, which stands for the
row's id. -/
structure PushDeliveryRow where
  pushSubscriptionId : ℕ
  delivered : Bool
  failedPermanently : Bool
  lastError : Option String
deriving DecidableEq

def PushDeliveryRow.resolved (row : PushDeliveryRow) : Bool := row.delivered || row.failedPermanently

/-- `ON CONFLICT DO NOTHING`. -/
def claimPushDeliveryTargets (pushSubscriptionIds : List ℕ) (rows : List PushDeliveryRow) :
    List PushDeliveryRow :=
  rows ++ (pushSubscriptionIds.filter fun id =>
    rows.all fun row => row.pushSubscriptionId ≠ id).map fun id => ⟨id, false, false, none⟩

def updateDelivery (id : ℕ) (f : PushDeliveryRow → PushDeliveryRow) (rows : List PushDeliveryRow) :
    List PushDeliveryRow :=
  rows.map fun row => if row.pushSubscriptionId = id then f row else row

def markPushDeliveryDelivered (id : ℕ) : List PushDeliveryRow → List PushDeliveryRow :=
  updateDelivery id fun row => { row with delivered := true, lastError := none }

def markPushDeliveryFailedPermanently (id : ℕ) (error : String) :
    List PushDeliveryRow → List PushDeliveryRow :=
  updateDelivery id fun row => { row with failedPermanently := true, lastError := some error }

def recordPushDeliveryTransientFailure (id : ℕ) (error : String) :
    List PushDeliveryRow → List PushDeliveryRow :=
  updateDelivery id fun row => { row with lastError := some error }

/-! ## Sends -/

inductive PushSendResult where
  | delivered
  | permanentFailure (error : String)
  | transientFailure (error : String)
  | notConfigured (reason : String)
deriving DecidableEq

/-- How `webpush.sendNotification` ends. -/
inductive WebPushAnswer where
  | accepted
  | webPushError (statusCode : ℕ) (error : String)
  | outboundAddressNotAllowed (error : String)
  | otherError (error : String)
deriving DecidableEq

structure ApnsResponse where
  status : ℕ
  reason : Option String
deriving DecidableEq

/-- What the environment answers to a send: the configuration of the channel, or why it has none,
and then what the provider answers. -/
structure Answer where
  config : Except String Unit
  webPush : WebPushAnswer
  apns : Except String ApnsResponse

def sendWebPushNotification (answer : Answer) : PushSendResult :=
  match answer.config with
  | .error reason => .notConfigured reason
  | .ok () =>
    match answer.webPush with
    | .accepted => .delivered
    | .webPushError statusCode error =>
      if statusCode = 404 ∨ statusCode = 410 then .permanentFailure error
      else .transientFailure error
    | .outboundAddressNotAllowed error => .permanentFailure error
    | .otherError error => .transientFailure error

def sendApnsNotification (answer : Answer) : PushSendResult :=
  match answer.config with
  | .error reason => .notConfigured reason
  | .ok () =>
    match answer.apns with
    | .error error => .transientFailure error
    | .ok response =>
      let error := response.reason.getD s!"status {response.status}"
      if response.status = 200 then .delivered
      else if response.status = 410 ∨ response.reason = some "BadDeviceToken" then
        .permanentFailure error
      else .transientFailure error

def send : Target → Answer → PushSendResult
  | .webPush _ _ _ => sendWebPushNotification
  | .apns _ _ => sendApnsNotification

/-! ## Attempts -/

inductive Phase where
  | listed
  | claimed
  | looping
  /-- The next registration has been sent to, and the outcome is to be recorded. -/
  | sent (result : PushSendResult)
deriving DecidableEq

/-- `rest` are the registrations the loop has not passed.  `attempted` are those it has sent to, and
`resolvedBefore` those whose outcome it found recorded; `subscriptions` is the table as the attempt
found it. -/
structure Attempt where
  subscriptions : List PushSubscriptionRow
  activeRegistrations : List PushSubscriptionRow
  phase : Phase
  statuses : List PushDeliveryRow
  rest : List PushSubscriptionRow
  transientFailures : List String
  attempted : List ℕ
  resolvedBefore : List ℕ

def Attempt.status (attempt : Attempt) (id : ℕ) : Option PushDeliveryRow :=
  attempt.statuses.find? fun status => status.pushSubscriptionId = id

/-- A send, and whether an outcome of its pair had been recorded then. -/
structure Send where
  pushSubscriptionId : ℕ
  again : Bool
deriving DecidableEq

/-- The registrations that an invalidation of this one has revoked. -/
structure Revocation where
  pushSubscriptionId : ℕ
  revoked : List ℕ
deriving DecidableEq

structure Ended where
  subscriptions : List PushSubscriptionRow
  activeRegistrations : List PushSubscriptionRow
  attempted : List ℕ
  resolvedBefore : List ℕ
  success : Bool

/-- `recorded` are the pairs whose outcome has been recorded as delivered or permanently failed. -/
structure Sys where
  subscriptions : List PushSubscriptionRow
  deliveries : List PushDeliveryRow
  attempt : Option Attempt
  done : Bool
  recorded : List ℕ
  sends : List Send
  revocations : List Revocation
  ended : List Ended

def Sys.init : Sys := ⟨[], [], none, false, [], [], [], []⟩

inductive Act where
  | register (id userId : ℕ) (target : Target)
  /-- By its owner, with its session or with all of its user's. -/
  | revoke (id : ℕ)
  | list
  | claim
  | readStatuses
  | skip
  | send (answer : Answer)
  | record
  | finish
  | crash

def Sys.record (s : Sys) (attempt : Attempt) (registration : PushSubscriptionRow)
    (rest : List PushSubscriptionRow) : PushSendResult → Sys
  | .delivered =>
    { s with
      deliveries := markPushDeliveryDelivered registration.id s.deliveries
      recorded := registration.id :: s.recorded
      attempt := some { attempt with phase := .looping, rest } }
  | .permanentFailure error =>
    { s with
      deliveries := markPushDeliveryFailedPermanently registration.id error s.deliveries
      subscriptions :=
        revokePushSubscriptionByProviderInvalidation registration.target.key s.subscriptions
      recorded := registration.id :: s.recorded
      revocations := ⟨registration.id, (s.subscriptions.filter fun row =>
        row.holds registration.target.key).map PushSubscriptionRow.id⟩ :: s.revocations
      attempt := some { attempt with phase := .looping, rest } }
  | .notConfigured reason =>
    { s with
      deliveries := markPushDeliveryFailedPermanently registration.id reason s.deliveries
      recorded := registration.id :: s.recorded
      attempt := some { attempt with phase := .looping, rest } }
  | .transientFailure error =>
    { s with
      deliveries := recordPushDeliveryTransientFailure registration.id error s.deliveries
      attempt := some { attempt with
        phase := .looping, rest, transientFailures := attempt.transientFailures ++ [error] } }

variable (userId : ℕ)

def step (s : Sys) : Act → Option Sys
  | .register id userId target =>
    if s.attempt.isNone ∧ ∀ row ∈ s.subscriptions, row.id ≠ id then
      some { s with subscriptions := displaceAndUpsert id userId target s.subscriptions }
    else none
  | .revoke id =>
    some { s with subscriptions := revokeWhere (fun row => row.id = id) s.subscriptions }
  | .list =>
    if s.attempt.isNone ∧ s.done = false then
      let activeRegistrations :=
        (listPushSubscriptionsForUser userId s.subscriptions).filter fun row => !row.revoked
      some { s with attempt := some ⟨s.subscriptions, activeRegistrations, .listed, [],
        activeRegistrations, [], [], []⟩ }
    else none
  | .claim =>
    match s.attempt with
    | some attempt =>
      if attempt.phase = .listed then
        some { s with
          deliveries := claimPushDeliveryTargets
            (attempt.activeRegistrations.map PushSubscriptionRow.id) s.deliveries
          attempt := some { attempt with phase := .claimed } }
      else none
    | none => none
  | .readStatuses =>
    match s.attempt with
    | some attempt =>
      if attempt.phase = .claimed then
        some { s with
          attempt := some { attempt with phase := .looping, statuses := s.deliveries } }
      else none
    | none => none
  | .skip =>
    match s.attempt with
    | some attempt =>
      match attempt.phase, attempt.rest with
      | .looping, registration :: rest =>
        match attempt.status registration.id with
        | none => some { s with attempt := some { attempt with rest } }
        | some status =>
          if status.resolved then
            some { s with attempt := some { attempt with
              rest, resolvedBefore := registration.id :: attempt.resolvedBefore } }
          else none
      | _, _ => none
    | none => none
  | .send answer =>
    match s.attempt with
    | some attempt =>
      match attempt.phase, attempt.rest with
      | .looping, registration :: _ =>
        match attempt.status registration.id with
        | none => none
        | some status =>
          if status.resolved then none
          else some { s with
            sends := ⟨registration.id, registration.id ∈ s.recorded⟩ :: s.sends
            attempt := some { attempt with
              phase := .sent (send registration.target answer)
              attempted := registration.id :: attempt.attempted } }
      | _, _ => none
    | none => none
  | .record =>
    match s.attempt with
    | some attempt =>
      match attempt.phase, attempt.rest with
      | .sent result, registration :: rest => some (s.record attempt registration rest result)
      | _, _ => none
    | none => none
  | .finish =>
    match s.attempt with
    | some attempt =>
      if attempt.phase = .looping ∧ attempt.rest = [] then
        some { s with
          attempt := none
          done := attempt.transientFailures.isEmpty
          ended := ⟨attempt.subscriptions, attempt.activeRegistrations, attempt.attempted,
            attempt.resolvedBefore, attempt.transientFailures.isEmpty⟩ :: s.ended }
      else none
    | none => none
  | .crash => some { s with attempt := none }

def PushSubscriptionRow.IsActive (row : PushSubscriptionRow) : Prop :=
  row.userId = userId ∧ row.revoked = false

/-- What the fan-out promises. -/
structure Sys.Delivers (s : Sys) : Prop where
  /-- A pair whose outcome has been recorded is not sent to again. -/
  once : ∀ send ∈ s.sends, send.again = false
  /-- What has been recorded stays in the table. -/
  recorded : ∀ id ∈ s.recorded, ∃ row ∈ s.deliveries, row.pushSubscriptionId = id ∧ row.resolved
  /-- A permanent failure revokes its registration and no other. -/
  revoked : ∀ revocation ∈ s.revocations,
    (∀ id ∈ revocation.revoked, id = revocation.pushSubscriptionId) ∧
    ∃ row ∈ s.subscriptions, row.id = revocation.pushSubscriptionId ∧ row.revoked = true
  /-- An attempt that ends has sent to every registration of the user that was active when it began
  and that it did not find resolved. -/
  attempted : ∀ ended ∈ s.ended, ∀ row ∈ ended.subscriptions, row.IsActive userId →
    row.id ∈ ended.attempted ∨ row.id ∈ ended.resolvedBefore
  /-- The job succeeds when all of them have a recorded outcome. -/
  complete : ∀ ended ∈ s.ended, ended.success = true →
    ∀ row ∈ ended.subscriptions, row.IsActive userId → row.id ∈ s.recorded

end NotificationFanout

end Semprec
