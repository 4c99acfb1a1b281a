import Semprec.AgentRunWatch
import Semprec.Lib.Runs
import Semprec.SyncClient

/-!
# The sync server

One process of `WS /api/sync`: the upgrades that authenticate, the sockets, the listener that hands
over the notifications of every tenant, and the three ways a frame reaches a socket: the tenant's
sockets, the subscribers of a document and the watchers of an agent run.  What a call does between
two awaits is one step.  Other processes may leave any rows in the database and publish any message
in their own tenant.
-/

namespace Semprec

namespace SyncServer

open SyncClient (InvalidateFrame)

structure SyncIdentity where
  tenantId : ℕ
  userId : ℕ
  sessionId : ℕ
deriving DecidableEq

inductive ReadyState where
  | OPEN
  | CLOSING
  | CLOSED
deriving DecidableEq

/-- `upgrade` is the upgrade the socket came from, and `attachedAt` how often the listener had been
established when it was attached. -/
structure Socket where
  identity : SyncIdentity
  readyState : ReadyState
  upgrade : ℕ
  attachedAt : ℕ
deriving DecidableEq

structure NotificationRow where
  tenantId : ℕ
  userId : ℕ
deriving DecidableEq

/-- A row of a document's snapshot or updates. -/
structure DocRow where
  id : ℕ
  tenantId : ℕ
  docId : ℕ
deriving DecidableEq

structure Db extends AgentRunWatch.Db where
  notifications : ℕ → Option NotificationRow
  docs : ℕ → Option ℕ
  docRows : List DocRow

namespace Db

def getNotificationById (db : Db) (tenantId id : ℕ) : Option NotificationRow :=
  (db.notifications id).filter fun row => row.tenantId = tenantId

def getDocById (db : Db) (tenantId docId : ℕ) : Bool := db.docs docId = some tenantId

def loadYDoc (db : Db) (tenantId docId : ℕ) : List DocRow :=
  db.docRows.filter fun row => row.tenantId = tenantId ∧ row.docId = docId

def getDocUpdateById (db : Db) (tenantId docId updateId : ℕ) : Option DocRow :=
  db.docRows.find? fun row => row.tenantId = tenantId ∧ row.docId = docId ∧ row.id = updateId

end Db

/-- What a socket is sent.  The `tenantId` of an invalidation and a delta is their publisher's,
which the frame itself does not carry; a document's frame is computed from the rows read for it. -/
inductive Frame where
  | invalidate (tenantId : ℕ) (frame : InvalidateFrame)
  | notification (row : NotificationRow)
  | doc (docId : ℕ) (rows : List DocRow)
  | agentEvent (event : AgentRunWatch.AgentRunEventRow)
  | agentDelta (tenantId agentRunId : ℕ) (delta : String)
deriving DecidableEq

def Frame.Belongs (tenantId : ℕ) : Frame → Prop
  | .invalidate t _ | .agentDelta t _ _ => t = tenantId
  | .notification row => row.tenantId = tenantId
  | .doc _ rows => ∀ row ∈ rows, row.tenantId = tenantId
  | .agentEvent event => event.tenantId = tenantId

inductive RealtimeMessage where
  | sessionRevoked (sessionId : ℕ)
  | invalidation (frame : InvalidateFrame) (userId : Option ℕ)
  | notificationCreated (userId notificationId : ℕ)
  | notificationReadState (userId : ℕ) (notificationIds : List ℕ)
  | agentRunEvent (agentRunId eventId : ℕ)
  | docUpdate (docId updateId : ℕ)

/-- A set of subscribers, with the tenant and document it was made for. -/
structure Subscribers where
  key : ℕ × ℕ
  members : List ℕ
deriving DecidableEq

/-- A call that waits for the database. -/
inductive Task where
  | forwardNotification (tenantId userId notificationId : ℕ)
  /-- `handleOpen`, before and after the subscription. -/
  | opening (ws tenantId docId : ℕ)
  | greeting (ws tenantId docId : ℕ)
  /-- `handleBinaryFrame`, for a SyncStep1. -/
  | diffing (ws tenantId docId : ℕ)
  /-- `fanOutDocUpdate`, before and after the update has been found compacted. -/
  | fanning (tenantId docId updateId subscribers : ℕ)
  | resending (tenantId docId subscribers : ℕ)
deriving DecidableEq

structure Sys where
  db : Db
  /-- `closesBefore` of the upgrades that are authenticating. -/
  upgrades : ℕ → Option ℕ
  upgradeSeq : ℕ
  sockets : ℕ → Option Socket
  socketSeq : ℕ
  tenantCloseCount : ℕ
  lastTenantClose : ℕ → ℕ
  closed : Bool
  listenClientActive : Bool
  /-- How often the listener has been established. -/
  established : ℕ
  /-- The invalidations queued for a socket that is behind. -/
  pendingByClient : ℕ → List (ℕ × InvalidateFrame)
  subscribersByDoc : ℕ × ℕ → Option ℕ
  subscribers : ℕ → Option Subscribers
  subscribersSeq : ℕ
  openDocsByClient : ℕ → List ℕ
  tenantByClient : ℕ → Option ℕ
  tasks : ℕ → Option Task
  taskSeq : ℕ
  agentRunWatch : AgentRunWatch.Registry
  received : List (ℕ × Frame)

def Sys.init (db : Db) : Sys where
  db := db
  upgrades := fun _ => none
  upgradeSeq := 0
  sockets := fun _ => none
  socketSeq := 0
  tenantCloseCount := 0
  lastTenantClose := fun _ => 0
  closed := false
  listenClientActive := true
  established := 1
  pendingByClient := fun _ => []
  subscribersByDoc := fun _ => none
  subscribers := fun _ => none
  subscribersSeq := 0
  openDocsByClient := fun _ => []
  tenantByClient := fun _ => none
  tasks := fun _ => none
  taskSeq := 0
  agentRunWatch := .empty
  received := []

namespace Sys

variable (s : Sys)

def frames : List (ℕ × Frame) :=
  s.received ++ s.agentRunWatch.sent.map fun (ws, event) => (ws, .agentEvent event)

def opened (ws : ℕ) : Bool := (s.sockets ws).any (·.readyState = .OPEN)

def setTask (task : Task) : Sys :=
  { s with tasks := Function.update s.tasks s.taskSeq (some task), taskSeq := s.taskSeq + 1 }

def dropTask (n : ℕ) : Sys := { s with tasks := Function.update s.tasks n none }

def replaceTask (n : ℕ) (task : Task) : Sys :=
  { s with tasks := Function.update s.tasks n (some task) }

def closeWhere (which : SyncIdentity → Bool) : Sys :=
  { s with
    sockets := fun ws => (s.sockets ws).map fun sock =>
      if which sock.identity ∧ sock.readyState = .OPEN then { sock with readyState := .CLOSING }
      else sock }

def closeAll : Sys := s.closeWhere fun _ => true

/-- `sendWithBackpressure`: a socket that is not open gets nothing. -/
def send (ws : ℕ) (frame : Frame) : Sys :=
  if s.opened ws then { s with received := s.received ++ [(ws, frame)] } else s

def sendAll (ws : List ℕ) (frame : Frame) : Sys := ws.foldl (fun s ws => s.send ws frame) s

def tenantSockets (tenantId : ℕ) (userId : Option ℕ) : List ℕ :=
  (List.range s.socketSeq).filter fun ws => (s.sockets ws).any fun sock =>
    sock.readyState = .OPEN ∧ sock.identity.tenantId = tenantId ∧
      userId.all (sock.identity.userId = ·)

/-- One row of the queue of a socket that is behind: the newest invalidation of an item. -/
def coalesce (tenantId : ℕ) (frame : InvalidateFrame) :
    List (ℕ × InvalidateFrame) → List (ℕ × InvalidateFrame)
  | [] => [(tenantId, frame)]
  | (t, f) :: rest =>
    match f, frame with
    | .item databaseId itemId _ updatedAt, .item databaseId' itemId' _ updatedAt' =>
      if databaseId = databaseId' ∧ itemId = itemId' then
        (if updatedAt ≤ updatedAt' then (tenantId, frame) else (t, f)) :: rest
      else (t, f) :: coalesce tenantId frame rest
    | _, _ => (t, f) :: coalesce tenantId frame rest

def deliverInvalidate (drained : List ℕ) (tenantId : ℕ) (frame : InvalidateFrame) (ws : ℕ) : Sys :=
  match frame with
  | .schema _ => s.send ws (.invalidate tenantId frame)
  | .item .. =>
    if s.pendingByClient ws = [] ∧ ws ∈ drained then s.send ws (.invalidate tenantId frame)
    else { s with
      pendingByClient := Function.update s.pendingByClient ws
        (coalesce tenantId frame (s.pendingByClient ws)) }

/-- The queue of a socket that has drained is sent. -/
def flush (ws : ℕ) : Sys :=
  (s.pendingByClient ws).foldl (fun s (tenantId, frame) => s.send ws (.invalidate tenantId frame))
    { s with pendingByClient := Function.update s.pendingByClient ws [] }

/-! ## Documents -/

def MAX_OPEN_DOCS_PER_CONNECTION : ℕ := 32

def subscribe (ws tenantId docId : ℕ) : Sys :=
  let s := { s with
    tenantByClient := Function.update s.tenantByClient ws (some tenantId)
    openDocsByClient := Function.update s.openDocsByClient ws ((s.openDocsByClient ws).insert docId) }
  match (s.subscribersByDoc (tenantId, docId)).bind fun i => (s.subscribers i).map (i, ·) with
  | some (i, set) => { s with
      subscribers := Function.update s.subscribers i
        (some { set with members := set.members.insert ws }) }
  | none => { s with
      subscribers := Function.update s.subscribers s.subscribersSeq
        (some ⟨(tenantId, docId), [ws]⟩)
      subscribersByDoc := Function.update s.subscribersByDoc (tenantId, docId)
        (some s.subscribersSeq)
      subscribersSeq := s.subscribersSeq + 1 }

def unsubscribe (ws docId : ℕ) : Sys :=
  let s := { s with
    openDocsByClient := Function.update s.openDocsByClient ws
      ((s.openDocsByClient ws).filter (· ≠ docId)) }
  match s.tenantByClient ws with
  | none => s
  | some tenantId =>
    match (s.subscribersByDoc (tenantId, docId)).bind fun i => (s.subscribers i).map (i, ·) with
    | none => s
    | some (i, set) =>
      let members := set.members.filter (· ≠ ws)
      { s with
        subscribers := Function.update s.subscribers i (some { set with members := members })
        subscribersByDoc :=
          if members = [] then Function.update s.subscribersByDoc (tenantId, docId) none
          else s.subscribersByDoc }

/-- Takes a document out of those counted for the socket. -/
def releaseOpenSlot (ws docId : ℕ) : Sys :=
  { s with
    openDocsByClient := Function.update s.openDocsByClient ws
      ((s.openDocsByClient ws).filter (· ≠ docId)) }

def handleOpen (ws tenantId docId : ℕ) : Sys :=
  if docId ∈ s.openDocsByClient ws then s.setTask (.opening ws tenantId docId)
  else if MAX_OPEN_DOCS_PER_CONNECTION ≤ (s.openDocsByClient ws).length then s
  else { s with
    openDocsByClient := Function.update s.openDocsByClient ws
      (s.openDocsByClient ws ++ [docId]) }.setTask (.opening ws tenantId docId)

def handleSocketClosed (ws : ℕ) : Sys :=
  let s := (s.openDocsByClient ws).foldl (fun s docId => s.unsubscribe ws docId) s
  { s with openDocsByClient := Function.update s.openDocsByClient ws [] }

/-- A SyncStep1 frame; the other kinds send nothing to a socket. -/
def handleBinaryFrame (ws tenantId docId : ℕ) : Sys :=
  if ((s.subscribersByDoc (tenantId, docId)).bind s.subscribers).any (ws ∈ ·.members) then
    s.setTask (.diffing ws tenantId docId)
  else s

def membersOf (i : ℕ) : List ℕ :=
  match s.subscribers i with
  | some set => set.members
  | none => []

def fanOutDocUpdate (tenantId docId updateId : ℕ) : Sys :=
  match s.subscribersByDoc (tenantId, docId) with
  | some i => if s.membersOf i = [] then s else s.setTask (.fanning tenantId docId updateId i)
  | none => s

/-- What a call does once the database has answered it. -/
def runTask (n : ℕ) : Task → Sys
  | .forwardNotification tenantId userId notificationId =>
    match s.db.getNotificationById tenantId notificationId with
    | some row =>
      if row.userId = userId then
        (s.dropTask n).sendAll (s.tenantSockets tenantId (some userId)) (.notification row)
      else s.dropTask n
    | none => s.dropTask n
  | .opening ws tenantId docId =>
    if s.db.getDocById tenantId docId ∧ s.opened ws then
      (s.subscribe ws tenantId docId).replaceTask n (.greeting ws tenantId docId)
    else (s.releaseOpenSlot ws docId).dropTask n
  | .greeting ws tenantId docId | .diffing ws tenantId docId =>
    (s.dropTask n).send ws (.doc docId (s.db.loadYDoc tenantId docId))
  | .fanning tenantId docId updateId i =>
    match s.db.getDocUpdateById tenantId docId updateId with
    | some row => (s.dropTask n).sendAll (s.membersOf i) (.doc docId [row])
    | none => s.replaceTask n (.resending tenantId docId i)
  | .resending tenantId docId i =>
    (s.dropTask n).sendAll (s.membersOf i) (.doc docId (s.db.loadYDoc tenantId docId))

/-! ## Notifications -/

def onNotification (drained : List ℕ) (tenantId : ℕ) : RealtimeMessage → Sys
  | .sessionRevoked sessionId =>
    s.closeWhere fun identity => identity.sessionId = sessionId ∧ identity.tenantId = tenantId
  | .invalidation frame userId =>
    (s.tenantSockets tenantId userId).foldl
      (fun s ws => s.deliverInvalidate drained tenantId frame ws) s
  | .notificationCreated userId notificationId =>
    s.setTask (.forwardNotification tenantId userId notificationId)
  | .notificationReadState userId notificationIds =>
    notificationIds.foldl (fun s id => s.setTask (.forwardNotification tenantId userId id)) s
  | .agentRunEvent agentRunId eventId =>
    { s with agentRunWatch := s.agentRunWatch.enqueueAgentEvent tenantId agentRunId eventId }
  | .docUpdate docId updateId => s.fanOutDocUpdate tenantId docId updateId

/-! ## Upgrades and closes -/

def handleUpgrade : Sys :=
  { s with
    upgrades := Function.update s.upgrades s.upgradeSeq (some s.tenantCloseCount)
    upgradeSeq := s.upgradeSeq + 1 }

def attachClient (u closesBefore : ℕ) (identity : SyncIdentity) : Sys :=
  { s with
    sockets := Function.update s.sockets s.socketSeq
      (some ⟨identity,
        if closesBefore < s.lastTenantClose identity.tenantId then .CLOSING else .OPEN, u,
        s.established⟩)
    socketSeq := s.socketSeq + 1 }

def closeTenant (tenantId : ℕ) : Sys :=
  { s with
    tenantCloseCount := s.tenantCloseCount + 1
    lastTenantClose := Function.update s.lastTenantClose tenantId (s.tenantCloseCount + 1)
  }.closeWhere fun identity => identity.tenantId = tenantId

end Sys

inductive Act where
  | upgrade
  /-- The authentication of upgrade `u` returns; `none` refuses it. -/
  | authenticated (u : ℕ) (identity : Option SyncIdentity)
  | closeTenant (tenantId : ℕ)
  | close
  | listenError
  | listenRestored
  /-- A socket is closed by its peer, by its heartbeat or for backpressure. -/
  | drop (ws : ℕ)
  | socketClosed (ws : ℕ)
  /-- Other processes leave these tables. -/
  | database (db : Db)
  | notify (drained : List ℕ) (tenantId : ℕ) (message : RealtimeMessage)
  | notifyDelta (tenantId agentRunId : ℕ) (delta : String)
  | flush (ws : ℕ)
  | docOpen (ws docId : ℕ)
  | docClose (ws docId : ℕ)
  | binaryFrame (ws docId : ℕ)
  | task (n : ℕ)
  | taskFails (n : ℕ)
  | agentWatch (ws runId afterEventId : ℕ)
  | agentUnwatch (ws runId : ℕ)
  | watchAnswered (c : ℕ)
  | watchFails (c : ℕ)
  | forwardEvent (runId : ℕ)
  | forwarded (runId : ℕ)
  | forwardFails (runId : ℕ)

def Sys.fromClient (s : Sys) (ws : ℕ) (f : SyncIdentity → Sys) : Option Sys :=
  (s.sockets ws).bind fun sock =>
    if sock.readyState = .CLOSED then none else some (f sock.identity)

def step (s : Sys) : Act → Option Sys
  | .upgrade => some s.handleUpgrade
  | .authenticated u identity =>
    (s.upgrades u).map fun closesBefore =>
      let s := { s with upgrades := Function.update s.upgrades u none }
      match identity with
      | none => s
      | some identity => if s.closed then s else s.attachClient u closesBefore identity
  | .closeTenant tenantId => some (s.closeTenant tenantId)
  | .close => some { s with closed := true, listenClientActive := false }.closeAll
  | .listenError =>
    if s.listenClientActive then some { s with listenClientActive := false }.closeAll else none
  | .listenRestored =>
    if s.listenClientActive ∨ s.closed then none
    else some { s with listenClientActive := true, established := s.established + 1 }.closeAll
  | .drop ws =>
    (s.sockets ws).map fun sock =>
      { s with
        sockets := Function.update s.sockets ws (some { sock with
          readyState := if sock.readyState = .OPEN then .CLOSING else sock.readyState }) }
  | .socketClosed ws =>
    (s.sockets ws).bind fun sock =>
      if sock.readyState = .CLOSING then
        let s := { s with
          sockets := Function.update s.sockets ws (some { sock with readyState := .CLOSED })
          pendingByClient := Function.update s.pendingByClient ws []
          agentRunWatch := s.agentRunWatch.handleSocketClosed ws }
        some (s.handleSocketClosed ws)
      else none
  | .database db => some { s with db := db }
  | .notify drained tenantId message =>
    if s.listenClientActive then some (s.onNotification drained tenantId message) else none
  | .notifyDelta tenantId agentRunId delta =>
    if s.listenClientActive then
      some (s.sendAll (s.agentRunWatch.deltaSockets tenantId agentRunId)
        (.agentDelta tenantId agentRunId delta))
    else none
  | .flush ws => if s.opened ws then some (s.flush ws) else none
  | .docOpen ws docId =>
    s.fromClient ws fun identity => s.handleOpen ws identity.tenantId docId
  | .docClose ws docId => s.fromClient ws fun _ => s.unsubscribe ws docId
  | .binaryFrame ws docId =>
    s.fromClient ws fun identity => s.handleBinaryFrame ws identity.tenantId docId
  | .task n => (s.tasks n).map fun task => s.runTask n task
  | .taskFails n => (s.tasks n).map fun _ => s.dropTask n
  | .agentWatch ws runId afterEventId =>
    s.fromClient ws fun identity => { s with
      agentRunWatch :=
        s.agentRunWatch.watch ws identity.tenantId identity.userId runId afterEventId }
  | .agentUnwatch ws runId =>
    s.fromClient ws fun _ => { s with agentRunWatch := s.agentRunWatch.unwatch ws runId }
  | .watchAnswered c =>
    (s.agentRunWatch.calls c).map fun call =>
      { s with agentRunWatch := s.agentRunWatch.answered s.db.toDb s.opened c call }
  | .watchFails c =>
    (s.agentRunWatch.calls c).map fun call =>
      { s with agentRunWatch := s.agentRunWatch.readFails c call }
  | .forwardEvent runId =>
    (s.agentRunWatch.forwardEvent runId).map fun r => { s with agentRunWatch := r }
  | .forwarded runId =>
    (s.agentRunWatch.forwarded s.db.toDb s.opened runId).map fun r =>
      { s with agentRunWatch := r }
  | .forwardFails runId =>
    (s.agentRunWatch.forwardFails runId).map fun r => { s with agentRunWatch := r }

end SyncServer

end Semprec
