import Semprec.AccountAccess

/-!
# The tenant deactivation listener

One client of the pool listens for the signal that a tenant has left `active`.  A notification
reaches the clients whose connection listens when its transaction commits, and is lost with the
connection, so after every connect the listener also reads the tenants that are not active now.

A step runs up to the next `await`.  What follows the answer to the resync up to the end of
`reconnect` is one chain of promise callbacks; notifications and errors that arrived with the answer
are handled before it, so they come between `answer` and `attach`, and nothing comes after that.
-/

namespace Semprec

namespace TenantStatusSignal

open AccountAccess (TenantStatus TenantRow)

/-- The condition of the resync. -/
def isDeactivated : TenantStatus → Bool
  | .suspended | .deleting => true
  | .provisioning | .active => false

/-- A commit that left the tenant suspended or deleting; `time` counts the commits before it. -/
structure Deactivation where
  tenantId : ℕ
  time : ℕ
deriving DecidableEq

/-- A call of `onDeactivated`, after `time` commits. -/
structure Call where
  tenantId : ℕ
  time : ℕ
deriving DecidableEq

structure Resync where
  deactivated : List ℕ
  time : ℕ
deriving DecidableEq

/-- A client of the pool.  `collect` and `onNotification` say which listener of notifications it
has; with `collect` it has `onSetupError`, with `onNotification` it has `onError`.  `listens` says
whether its connection has executed `LISTEN`, `notifications` what is on its way; a payload that is
not `{ tenantId: <uuid> }` is `none`. -/
structure Client where
  taken : Bool
  released : ℕ
  collect : Bool
  onNotification : Bool
  connected : Bool
  listens : Bool
  notifications : List (Option ℕ)
  buffered : List (Option ℕ)
deriving DecidableEq

/-- A client that the pool has not handed out. -/
def Client.untaken : Client := ⟨false, 0, false, false, false, false, [], []⟩

inductive Phase where
  | poolConnect
  | listen (c : ℕ)
  | resync (c : ℕ)
  /-- The resync has been executed, and its answer is on its way. -/
  | answered (c : ℕ) (read : Resync)
  /-- The answer has been handled. -/
  | connected (c : ℕ) (read : Resync)
  | backoff
deriving DecidableEq

def Phase.client : Phase → Option ℕ
  | .listen c | .resync c | .answered c _ | .connected c _ => some c
  | .poolConnect | .backoff => none

/-- `connecting` is the `connect` of the start or `reconnecting`, and `initial` says which of them;
`failed` that the start was rejected.  `attached` is what the clients attached so far had read. -/
structure Sys where
  tenants : List TenantRow
  time : ℕ
  deactivations : List Deactivation
  clients : ℕ → Client
  nextClient : ℕ
  initial : Bool
  failed : Bool
  closed : Bool
  client : Option ℕ
  connecting : Option Phase
  attached : List Resync
  calls : List Call

def Sys.init (tenants : List TenantRow) : Sys where
  tenants
  time := 0
  deactivations := []
  clients := fun _ => .untaken
  nextClient := 0
  initial := true
  failed := false
  closed := false
  client := none
  connecting := some .poolConnect
  attached := []
  calls := []

namespace Sys

variable (s : Sys)

def setClient (c : ℕ) (x : Client) : Sys := { s with clients := Function.update s.clients c x }

@[grind =] def dispatch (tenantId : ℕ) : Sys :=
  if s.closed then s else { s with calls := s.calls ++ [⟨tenantId, s.time⟩] }

/-- A payload that is not one of the channel is logged. -/
@[grind =] def onNotification : Option ℕ → Sys
  | none => s
  | some tenantId => s.dispatch tenantId

/-- `release(true)`, after the listeners are off. -/
def release (c : ℕ) : Sys :=
  s.setClient c { s.clients c with
    released := (s.clients c).released + 1
    collect := false
    onNotification := false
    connected := false
    notifications := [] }

def detach : Sys :=
  match s.client with
  | none => s
  | some c => Sys.release { s with client := none } c

@[grind =] def notify (payload : Option ℕ) : Sys :=
  { s with clients := fun c =>
      if (s.clients c).listens && (s.clients c).connected then
        { s.clients c with notifications := (s.clients c).notifications ++ [payload] }
      else s.clients c }

def setStatus (tenantId : ℕ) (status : TenantStatus) : Sys :=
  { s with
    tenants := s.tenants.map fun row => if row.id = tenantId then { row with status } else row
    time := s.time + 1 }

def tenantIn (tenantId : ℕ) (statuses : List TenantStatus) : Bool :=
  s.tenants.any fun row => row.id == tenantId && statuses.contains row.status

def deactivate (tenantId : ℕ) (status : TenantStatus) : Sys :=
  Sys.notify { s.setStatus tenantId status with
    deactivations := s.deactivations ++ [⟨tenantId, s.time⟩] } (some tenantId)

def connectFailed : Sys :=
  if s.initial then { s with connecting := none, failed := true }
  else if s.closed then { s with connecting := none }
  else { s with connecting := some .backoff }

def swapListeners (c : ℕ) (read : Resync) : Sys :=
  { s.setClient c { s.clients c with collect := false, onNotification := true } with
    client := some c
    connecting := none
    initial := false
    attached := s.attached ++ [read] }

def attach (c : ℕ) (read : Resync) : Sys :=
  if s.closed then Sys.release { s with connecting := none, initial := false } c
  else
    (s.clients c).buffered.foldl onNotification <|
      read.deactivated.foldl dispatch (s.swapListeners c read)

end Sys

inductive Act where
  /-- A transaction that suspends the tenant or begins its deletion commits. -/
  | deactivate (tenantId : ℕ) (deleting : Bool)
  | reactivate (tenantId : ℕ)
  | purge (tenantId : ℕ)
  /-- Some other session notifies the channel. -/
  | notify (payload : Option ℕ)
  | poolConnect
  | failPoolConnect
  | listen
  /-- The server executes the resync's `SELECT`. -/
  | resync
  | answer
  | failQuery
  | attach
  | endBackoff
  /-- The next notification on its way to the client arrives. -/
  | deliver (c : ℕ)
  /-- The connection of the client fails, and the client emits `error`. -/
  | error (c : ℕ)
  | close
deriving DecidableEq

@[grind =] def step (s : Sys) : Act → Option Sys
  | .deactivate tenantId deleting =>
    if s.tenantIn tenantId (if deleting then [.active, .suspended] else [.active]) then
      some (s.deactivate tenantId (if deleting then .deleting else .suspended))
    else none
  | .reactivate tenantId =>
    if s.tenantIn tenantId [.suspended] then some (s.setStatus tenantId .active) else none
  | .purge tenantId =>
    if s.tenantIn tenantId [.deleting] then
      some { s with tenants := s.tenants.filter (·.id ≠ tenantId), time := s.time + 1 }
    else none
  | .notify payload => some (s.notify payload)
  | .poolConnect =>
    if s.connecting = some .poolConnect then
      some { s.setClient s.nextClient ⟨true, 0, true, false, true, false, [], []⟩ with
        nextClient := s.nextClient + 1
        connecting := some (.listen s.nextClient) }
    else none
  | .failPoolConnect =>
    if s.connecting = some .poolConnect then some s.connectFailed else none
  | .listen =>
    match s.connecting with
    | some (.listen c) =>
      if (s.clients c).connected then
        some { s.setClient c { s.clients c with listens := true } with
          connecting := some (.resync c) }
      else none
    | _ => none
  | .resync =>
    match s.connecting with
    | some (.resync c) =>
      if (s.clients c).connected then
        some { s with connecting := some (.answered c
          ⟨(s.tenants.filter fun row => isDeactivated row.status).map (·.id), s.time⟩) }
      else none
    | _ => none
  | .answer =>
    match s.connecting with
    | some (.answered c read) =>
      if (s.clients c).connected then some { s with connecting := some (.connected c read) }
      else none
    | _ => none
  | .failQuery =>
    match s.connecting with
    | some (.listen c) | some (.resync c) | some (.answered c _) =>
      some (s.release c).connectFailed
    | _ => none
  | .attach =>
    match s.connecting with
    | some (.connected c read) => some (s.attach c read)
    | _ => none
  | .endBackoff =>
    if s.connecting = some .backoff then
      some { s with connecting := if s.closed then none else some .poolConnect }
    else none
  | .deliver c =>
    match (s.clients c).notifications with
    | [] => none
    | payload :: rest =>
      let x := { s.clients c with notifications := rest }
      if x.collect then some (s.setClient c { x with buffered := x.buffered ++ [payload] })
      else if x.onNotification then some ((s.setClient c x).onNotification payload)
      else some (s.setClient c x)
  | .error c =>
    if (s.clients c).taken ∧ (s.clients c).released = 0 then
      let lost := s.setClient c { s.clients c with connected := false, notifications := [] }
      if (s.clients c).onNotification then
        -- `onError` detaches the current client, and starts a reconnect unless one is running
        if s.closed ∨ s.connecting ≠ none then some lost.detach
        else some { lost.detach with connecting := some .poolConnect }
      else some lost
    else none
  | .close =>
    if s.initial ∨ s.closed then none
    else
      -- the backoff is cancelled, and the reconnect ends with it
      some { Sys.detach { s with closed := true } with
        connecting := if s.connecting = some .backoff then none else s.connecting }

/-! ### What the listener keeps -/

/-- The tenant has been passed to `onDeactivated` after the commit. -/
def Sys.Called (s : Sys) (d : Deactivation) : Prop :=
  ∃ call ∈ s.calls, call.tenantId = d.tenantId ∧ d.time < call.time

/-- As the claim has it: a tenant deactivated before the resync of a client that has been attached
is called for. -/
def Sys.NoneMissed (s : Sys) : Prop :=
  ∀ d ∈ s.deactivations, ∀ read ∈ s.attached, d.time < read.time → s.Called d

/-- The same of the tenants that were still suspended or deleting at the resync, and of every one
while a client is connected that has handled what was sent to it. -/
structure Sys.NoneMissedStill (s : Sys) : Prop where
  resynced : ∀ d ∈ s.deactivations, ∀ read ∈ s.attached, d.time < read.time →
    s.Called d ∨ d.tenantId ∉ read.deactivated
  connected : ∀ c, s.client = some c → (s.clients c).connected = true →
    (s.clients c).notifications = [] → ∀ d ∈ s.deactivations,
      s.Called d ∨ ∃ read ∈ s.attached, d.time < read.time ∧ d.tenantId ∉ read.deactivated

structure Sys.ClientsKept (s : Sys) : Prop where
  attached : ∀ c c', (s.clients c).onNotification = true → (s.clients c').onNotification = true →
    c = c'
  released : ∀ c, (s.clients c).taken = true →
    (s.clients c).released = 1 ∨ (s.clients c).released = 0 ∧
      (s.client = some c ∨ ∃ phase, s.connecting = some phase ∧ phase.client = some c)

end TenantStatusSignal

end Semprec
