import Mathlib.Data.List.Sort
import Mathlib.Data.Nat.Notation
import Mathlib.Logic.Function.Basic
import Mathlib.Tactic.SplitIfs

/-!
# Watching an agent run

The registry behind `agent:watch`: a watch is authorised, registered as a replacement, replays the
events after its cursor, drains what was queued meanwhile and is then promoted; the events a
notification names are forwarded to the live watchers, one event of a run after the other.  Between
two awaits a call runs alone, so each of its stretches is one operation of the registry.  A watcher
and a call are named by the order of their creation.
-/

namespace Semprec

namespace AgentRunWatch

structure AgentRunRow where
  tenantId : ℕ
  actorUserId : ℕ
deriving DecidableEq

structure AgentRunEventRow where
  id : ℕ
  tenantId : ℕ
  agentRunId : ℕ
deriving DecidableEq

structure Db where
  runs : ℕ → Option AgentRunRow
  events : List AgentRunEventRow

namespace Db

def getAgentRun (db : Db) (tenantId runId : ℕ) : Option AgentRunRow :=
  (db.runs runId).filter fun run => run.tenantId = tenantId

def listAgentRunEventsAfter (db : Db) (tenantId runId afterEventId : ℕ) :
    List AgentRunEventRow :=
  (db.events.filter fun e => e.tenantId = tenantId ∧ e.agentRunId = runId ∧
    afterEventId < e.id).insertionSort fun e e' => e.id ≤ e'.id

def getAgentRunEventById (db : Db) (tenantId runId eventId : ℕ) : Option AgentRunEventRow :=
  db.events.find? fun e => e.tenantId = tenantId ∧ e.agentRunId = runId ∧ e.id = eventId

end Db

structure Watcher where
  ws : ℕ
  tenantId : ℕ
  runId : ℕ
  lastEventId : ℕ
  replaying : Bool
  queuedEventIds : List ℕ
deriving DecidableEq

/-- What a `watch` call is waiting for. -/
inductive WatchPhase where
  | authorizing
  | reading (w : ℕ)
  | fetching (w eventId : ℕ) (rest : List ℕ)
deriving DecidableEq

structure WatchCall where
  ws : ℕ
  tenantId : ℕ
  userId : ℕ
  runId : ℕ
  afterEventId : ℕ
  phase : WatchPhase
deriving DecidableEq

/-- A `forwardEvent` call that is fetching its event for the watchers that were live. -/
structure Forward where
  tenantId : ℕ
  eventId : ℕ
  liveWatchers : List ℕ
deriving DecidableEq

/-- `tails` are the calls of `forwardEvent` that wait for the one before them on the same run, and
`sent` the event frames the sockets have been sent. -/
structure Registry where
  watchers : ℕ → Option Watcher
  watcherSeq : ℕ
  watchersByRun : ℕ → List ℕ
  watchersBySocket : ℕ → ℕ → Option ℕ
  replacementsBySocket : ℕ → ℕ → Option ℕ
  pendingWatchesBySocket : ℕ → ℕ → Option ℕ
  calls : ℕ → Option WatchCall
  callSeq : ℕ
  tails : ℕ → List (ℕ × ℕ)
  forwards : ℕ → Option Forward
  sent : List (ℕ × AgentRunEventRow)

def Registry.empty : Registry where
  watchers := fun _ => none
  watcherSeq := 0
  watchersByRun := fun _ => []
  watchersBySocket := fun _ _ => none
  replacementsBySocket := fun _ _ => none
  pendingWatchesBySocket := fun _ _ => none
  calls := fun _ => none
  callSeq := 0
  tails := fun _ => []
  forwards := fun _ => none
  sent := []

def setEntry (f : ℕ → ℕ → Option ℕ) (ws runId : ℕ) (v : Option ℕ) : ℕ → ℕ → Option ℕ :=
  Function.update f ws (Function.update (f ws) runId v)

namespace Registry

variable (r : Registry)

def setWatcher (w : ℕ) (watcher : Watcher) : Registry :=
  { r with watchers := Function.update r.watchers w (some watcher) }

def setCall (c : ℕ) (call : Option WatchCall) : Registry :=
  { r with calls := Function.update r.calls c call }

def isCurrent (w : ℕ) (watcher : Watcher) : Bool :=
  r.watchersBySocket watcher.ws watcher.runId = some w ∨
    r.replacementsBySocket watcher.ws watcher.runId = some w

def remove (w : ℕ) : Registry :=
  match r.watchers w with
  | none => r
  | some watcher =>
    { r with
      watchersByRun := Function.update r.watchersByRun watcher.runId
        ((r.watchersByRun watcher.runId).filter (· ≠ w))
      watchersBySocket :=
        if r.watchersBySocket watcher.ws watcher.runId = some w then
          setEntry r.watchersBySocket watcher.ws watcher.runId none
        else r.watchersBySocket
      replacementsBySocket :=
        if r.replacementsBySocket watcher.ws watcher.runId = some w then
          setEntry r.replacementsBySocket watcher.ws watcher.runId none
        else r.replacementsBySocket }

def removeEntry : Option ℕ → Registry
  | none => r
  | some w => r.remove w

def addReplacement (watcher : Watcher) : Registry :=
  { r with
    watchers := Function.update r.watchers r.watcherSeq (some watcher)
    watcherSeq := r.watcherSeq + 1
    replacementsBySocket :=
      setEntry r.replacementsBySocket watcher.ws watcher.runId (some r.watcherSeq)
    watchersByRun := Function.update r.watchersByRun watcher.runId
      (r.watchersByRun watcher.runId ++ [r.watcherSeq]) }

def promoteReplacement (w : ℕ) (watcher : Watcher) : Registry :=
  let existing := r.watchersBySocket watcher.ws watcher.runId
  let r := if existing = some w then r else r.removeEntry existing
  { r with
    watchersBySocket := setEntry r.watchersBySocket watcher.ws watcher.runId (some w)
    replacementsBySocket :=
      if r.replacementsBySocket watcher.ws watcher.runId = some w then
        setEntry r.replacementsBySocket watcher.ws watcher.runId none
      else r.replacementsBySocket }

def finishPendingWatch (ws runId token : ℕ) : Registry :=
  { r with
    pendingWatchesBySocket :=
      if r.pendingWatchesBySocket ws runId = some token then
        setEntry r.pendingWatchesBySocket ws runId none
      else r.pendingWatchesBySocket }

def deliver (opened : ℕ → Bool) (w : ℕ) (event : AgentRunEventRow) : Registry :=
  match r.watchers w with
  | none => r
  | some watcher =>
    if r.isCurrent w watcher ∧ watcher.lastEventId < event.id then
      { r.setWatcher w { watcher with lastEventId := event.id } with
        sent := if opened watcher.ws then r.sent ++ [(watcher.ws, event)] else r.sent }
    else r

/-- The queued references a drain still has to fetch. -/
def skip (w : ℕ) (todo : List ℕ) : List ℕ :=
  match r.watchers w with
  | none => []
  | some watcher =>
    todo.dropWhile fun eventId => !(r.isCurrent w watcher && decide (watcher.lastEventId < eventId))

def takeQueued (w : ℕ) : Registry × List ℕ :=
  match r.watchers w with
  | none => (r, [])
  | some watcher =>
    (r.setWatcher w { watcher with queuedEventIds := [] },
      watcher.queuedEventIds.insertionSort (· ≤ ·))

def promote (w : ℕ) : Registry :=
  match r.watchers w with
  | none => r
  | some watcher =>
    if r.isCurrent w watcher then
      let existing := (r.watchersBySocket watcher.ws watcher.runId).bind r.watchers
      let lastEventId := match existing with
        | some e => max e.lastEventId watcher.lastEventId
        | none => watcher.lastEventId
      let watcher := { watcher with lastEventId := lastEventId, replaying := false }
      (r.setWatcher w watcher).promoteReplacement w watcher
    else r

/-- Goes on with the drain of call `c`, up to the next reference to fetch or to its end.  Nothing
is queued while references are skipped, so a second round finds the queue empty. -/
def advance (c : ℕ) (call : WatchCall) (w : ℕ) (todo : List ℕ) : Registry :=
  match r.skip w todo with
  | eventId :: rest => r.setCall c (some { call with phase := .fetching w eventId rest })
  | [] =>
    let (r, queued) := r.takeQueued w
    match r.skip w queued with
    | eventId :: rest => r.setCall c (some { call with phase := .fetching w eventId rest })
    | [] => (r.promote w).setCall c none

/-! ## The operations -/

def watch (ws tenantId userId runId afterEventId : ℕ) : Registry :=
  { r with
    pendingWatchesBySocket := setEntry r.pendingWatchesBySocket ws runId (some r.callSeq)
    calls := Function.update r.calls r.callSeq
      (some ⟨ws, tenantId, userId, runId, afterEventId, .authorizing⟩)
    callSeq := r.callSeq + 1 }

def authorized (db : Db) (opened : ℕ → Bool) (c : ℕ) (call : WatchCall) : Registry :=
  let allowed := r.pendingWatchesBySocket call.ws call.runId = some c ∧
    (db.getAgentRun call.tenantId call.runId).any (·.actorUserId = call.userId) ∧ opened call.ws
  let r := r.finishPendingWatch call.ws call.runId c
  if allowed then
    let r := r.removeEntry (r.replacementsBySocket call.ws call.runId)
    (r.addReplacement ⟨call.ws, call.tenantId, call.runId, call.afterEventId, true, []⟩).setCall c
      (some { call with phase := .reading r.watcherSeq })
  else r.setCall c none

/-- The replay query has returned. -/
def replayed (db : Db) (opened : ℕ → Bool) (c : ℕ) (call : WatchCall) (w : ℕ) : Registry :=
  if (r.watchers w).any (r.isCurrent w) then
    let rows := db.listAgentRunEventsAfter call.tenantId call.runId call.afterEventId
    (rows.foldl (fun r event => r.deliver opened w event) r).advance c call w []
  else r.setCall c none

/-- The fetch of a queued reference has returned. -/
def fetched (db : Db) (opened : ℕ → Bool) (c : ℕ) (call : WatchCall) (w eventId : ℕ)
    (rest : List ℕ) : Registry :=
  match db.getAgentRunEventById call.tenantId call.runId eventId with
  | some event => (r.deliver opened w event).advance c call w rest
  | none => r.advance c call w rest

def readFails (c : ℕ) (call : WatchCall) : Registry :=
  match call.phase with
  | .authorizing => (r.finishPendingWatch call.ws call.runId c).setCall c none
  | .reading w | .fetching w _ _ => (r.remove w).setCall c none

def answered (db : Db) (opened : ℕ → Bool) (c : ℕ) (call : WatchCall) : Registry :=
  match call.phase with
  | .authorizing => r.authorized db opened c call
  | .reading w => r.replayed db opened c call w
  | .fetching w eventId rest => r.fetched db opened c call w eventId rest

def unwatch (ws runId : ℕ) : Registry :=
  let r := { r with pendingWatchesBySocket := setEntry r.pendingWatchesBySocket ws runId none }
  let r := r.removeEntry (r.watchersBySocket ws runId)
  r.removeEntry (r.replacementsBySocket ws runId)

/-- Each entry of the socket is the only one of its run, so its watchers are dropped from the lists
of their runs and its maps are left empty. -/
def handleSocketClosed (ws : ℕ) : Registry :=
  { r with
    pendingWatchesBySocket := Function.update r.pendingWatchesBySocket ws fun _ => none
    watchersByRun := fun runId => (r.watchersByRun runId).filter fun w =>
      r.replacementsBySocket ws runId ≠ some w ∧ r.watchersBySocket ws runId ≠ some w
    watchersBySocket := Function.update r.watchersBySocket ws fun _ => none
    replacementsBySocket := Function.update r.replacementsBySocket ws fun _ => none }

def enqueueAgentEvent (tenantId runId eventId : ℕ) : Registry :=
  { r with tails := Function.update r.tails runId (r.tails runId ++ [(tenantId, eventId)]) }

def tenantWatchers (tenantId runId : ℕ) : List ℕ :=
  (r.watchersByRun runId).filter fun w => (r.watchers w).any (·.tenantId = tenantId)

def liveWatchers (tenantId runId : ℕ) : List ℕ :=
  (r.tenantWatchers tenantId runId).filter fun w =>
    (r.watchers w).any fun watcher => !watcher.replaying && r.isCurrent w watcher

def queueEvent (ws : List ℕ) (eventId : ℕ) : Registry :=
  { r with
    watchers := fun w => (r.watchers w).map fun watcher =>
      if w ∈ ws ∧ watcher.replaying ∧ eventId ∉ watcher.queuedEventIds then
        { watcher with queuedEventIds := watcher.queuedEventIds ++ [eventId] }
      else watcher }

def forwardEvent (runId : ℕ) : Option Registry :=
  match r.forwards runId, r.tails runId with
  | none, (tenantId, eventId) :: rest =>
    let live := r.liveWatchers tenantId runId
    let r := { r.queueEvent (r.tenantWatchers tenantId runId) eventId with
      tails := Function.update r.tails runId rest }
    if live = [] then some r
    else some { r with
      forwards := Function.update r.forwards runId (some ⟨tenantId, eventId, live⟩) }
  | _, _ => none

/-- Its fetch has returned. -/
def forwarded (db : Db) (opened : ℕ → Bool) (runId : ℕ) : Option Registry :=
  (r.forwards runId).map fun f =>
    let r := { r with forwards := Function.update r.forwards runId none }
    match db.getAgentRunEventById f.tenantId runId f.eventId with
    | some event => f.liveWatchers.foldl (fun r w => r.deliver opened w event) r
    | none => r

/-- Its fetch throws. -/
def forwardFails (runId : ℕ) : Option Registry :=
  (r.forwards runId).map fun _ => { r with forwards := Function.update r.forwards runId none }

/-- The sockets `forwardDelta` sends to. -/
def deltaSockets (tenantId runId : ℕ) : List ℕ :=
  (r.liveWatchers tenantId runId).filterMap fun w => (r.watchers w).map (·.ws)

end Registry

end AgentRunWatch

end Semprec
