import Mathlib.Data.Nat.Notation
import Mathlib.Logic.Function.Basic
import Semprec.Lib.Runs

/-!
# The runs of live conversations

`SempConversation` keeps one live conversation a tenant, `DelegationRegistry` one a supervisor and
target: an entry with the session and its run, a flag for a wake in flight, and a flag on the entry
for a turn or a close in flight.  A call goes from one `await` to the next, and any other may run in
between; what it awaits may fail.
-/

namespace Semprec

namespace WakeRuns

/-- The key of a conversation: a tenant of `SempConversation`, or `(supervisorRunId,
targetProjectItemId)` of `DelegationRegistry`. -/
inductive Key where
  | semp (tenantId : ℕ)
  | delegation (supervisorRunId targetProjectItemId : ℕ)
deriving DecidableEq

/-- What the timer of an entry does: `pause` or `expire`, or `closeDropped` again. -/
inductive Timer where
  | ttl
  | retry
deriving DecidableEq

structure Entry where
  agentRunId : ℕ
  busy : Bool
  ttlTimer : Option Timer
deriving DecidableEq

/-- `waking` is the key's place in `pendingKeys` for a delegation, which is never `dropped`. -/
structure Conversation where
  entry : Option Entry
  waking : Bool
  dropped : Bool
deriving DecidableEq

namespace Conversation

/-- A key that is not in the map. -/
def absent : Conversation := ⟨none, false, false⟩

def releaseIfIdle (conv : Conversation) : Conversation :=
  if conv.entry = none ∧ conv.waking = false then absent else conv

def setEntry (conv : Conversation) (entry : Option Entry) : Conversation := { conv with entry }

@[simp] theorem releaseIfIdle_entry (conv : Conversation) :
    conv.releaseIfIdle.entry = conv.entry := by
  unfold releaseIfIdle
  split_ifs with hidle
  · exact hidle.1.symm
  · rfl

@[simp] theorem releaseIfIdle_waking (conv : Conversation) :
    conv.releaseIfIdle.waking = conv.waking := by
  unfold releaseIfIdle
  split_ifs with hidle
  · exact hidle.2.symm
  · rfl

@[simp] theorem setEntry_entry (conv : Conversation) (entry : Option Entry) :
    (conv.setEntry entry).entry = entry := rfl

@[simp] theorem setEntry_waking (conv : Conversation) (entry : Option Entry) :
    (conv.setEntry entry).waking = conv.waking := rfl

@[simp] theorem setEntry_dropped (conv : Conversation) (entry : Option Entry) :
    (conv.setEntry entry).dropped = conv.dropped := rfl

theorem releaseIfIdle_dropped {conv : Conversation} {e : Entry} (he : conv.entry = some e) :
    conv.releaseIfIdle.dropped = conv.dropped := by
  simp [releaseIfIdle, he]

end Conversation

inductive AgentRunStatus where
  | running
  | done
  | error
deriving DecidableEq

/-- Who awaits `closeDropped`: the wake or the turn that settled, or nobody. -/
inductive After where
  | wake
  | turn
  | timer
deriving DecidableEq

/-- Where a call stands between two of its steps. -/
inductive Call where
  /-- `send` or `delegate` on a new key, before its run is created. -/
  | wakeReading (k : Key)
  | wakeCreated (k : Key) (agentRunId : ℕ)
  | wakeTurn (k : Key) (agentRunId : ℕ)
  /-- `failRun`, of a wake on this key or of a turn whose entry is gone. -/
  | failing (k : Option Key) (agentRunId : ℕ)
  /-- Only the `finally` of the wake is left. -/
  | wakeSettled (k : Key)
  | turn (k : Key) (agentRunId : ℕ)
  /-- Only the `finally` of the turn is left. -/
  | turnSettled (k : Key) (agentRunId : ℕ)
  /-- `closeDropped`, before and after it has closed the row. -/
  | closing (k : Key) (agentRunId : ℕ) (after : After)
  | closed (k : Key) (agentRunId : ℕ) (after : After)
  | pausing (k : Key) (agentRunId : ℕ)
  | committing (k : Key) (agentRunId : ℕ)
  | paused (k : Key) (agentRunId : ℕ)
deriving DecidableEq

structure Sys where
  runs : List AgentRunStatus
  conversations : Key → Conversation
  calls : ℕ → Option Call
  nextCall : ℕ

def Sys.init : Sys := ⟨[], fun _ => .absent, fun _ => none, 0⟩

namespace Sys

variable (s : Sys)

def setConversation (k : Key) (conv : Conversation) : Sys :=
  { s with conversations := Function.update s.conversations k conv }

def setCall (c : ℕ) (call : Option Call) : Sys :=
  { s with calls := Function.update s.calls c call }

def move (c : ℕ) (call : Option Call) (k : Key) (conv : Conversation) : Sys :=
  (s.setCall c call).setConversation k conv

def start (call : Call) (k : Key) (conv : Conversation) : Sys :=
  { s.move s.nextCall (some call) k conv with nextCall := s.nextCall + 1 }

@[grind =] def finish (agentRunId : ℕ) (status : AgentRunStatus) : Sys :=
  { s with runs := s.runs.modify agentRunId fun old => if old = .running then status else old }

/-- No call on the key has only its `finally` left: a timer's callback is a task of its own, which
runs when the promises that have settled are done with. -/
def Quiet (k : Key) (agentRunId : ℕ) : Prop :=
  ∀ c < s.nextCall, s.calls c ≠ some (.wakeSettled k) ∧ s.calls c ≠ some (.turnSettled k agentRunId)

instance (k : Key) (agentRunId : ℕ) : Decidable (s.Quiet k agentRunId) := by
  unfold Quiet
  infer_instance

end Sys

/-- Where a call goes on when its `closeDropped` has returned. -/
def After.next (k : Key) (agentRunId : ℕ) : After → Option Call
  | .wake => some (.wakeSettled k)
  | .turn => some (.turnSettled k agentRunId)
  | .timer => none

def failedNext : Option Key → Option Call
  | some k => some (.wakeSettled k)
  | none => none

inductive Act where
  | send (k : Key)
  | createAgentRun (c : ℕ)
  /-- The status event, the checkpoint and the session of a wake are there. -/
  | startTurn (c : ℕ)
  /-- A call of the wake throws before its turn. -/
  | wakeFails (c : ℕ)
  | turnFails (c : ℕ)
  | failRun (c : ℕ)
  /-- The transaction of `failRun` fails, which is logged. -/
  | failRunFails (c : ℕ)
  | settle (c : ℕ)
  /-- The `finally` of a wake or turn. -/
  | leave (c : ℕ)
  | dropTenant (tenantId : ℕ)
  | finishDropped (c : ℕ)
  | pushDropped (c : ℕ)
  | closeDroppedFails (c : ℕ)
  | ttlTimer (k : Key)
  | retryTimer (k : Key)
  /-- The update of `pause` is done, and `dropped` is read. -/
  | checkPause (c : ℕ)
  | commitPause (c : ℕ)
  | pauseFails (c : ℕ)
  | pushPaused (c : ℕ)
  | pushPausedFails (c : ℕ)

/-- `busy = false` on the entry of a run, if that is still the conversation's. -/
def Conversation.unbusy (conv : Conversation) (agentRunId : ℕ) : Conversation :=
  conv.setEntry (conv.entry.map fun e =>
    if e.agentRunId = agentRunId then { e with busy := false } else e)

def catchPause (s : Sys) (c : ℕ) (k : Key) (agentRunId : ℕ) : Sys :=
  let conv := s.conversations k
  if conv.dropped then s.move c (some (.closing k agentRunId .timer)) k conv
  else s.move c none k (conv.setEntry (some ⟨agentRunId, false, some .ttl⟩))

@[grind =] def step (s : Sys) : Act → Option Sys
  | .send k =>
    let conv := s.conversations k
    if conv.entry.any (fun e => e.busy) ∨ conv.waking ∨ conv.dropped then some s
    else match conv.entry with
      | some e => some (s.start (.turn k e.agentRunId) k
          (conv.setEntry (some { e with busy := true })))
      | none => some (s.start (.wakeReading k) k ⟨none, true, false⟩)
  | .createAgentRun c =>
    match s.calls c with
    | some (.wakeReading k) =>
      some { s.move c (some (.wakeCreated k s.runs.length)) k (s.conversations k) with
        runs := s.runs ++ [.running] }
    | _ => none
  | .startTurn c =>
    match s.calls c with
    | some (.wakeCreated k r) => some (s.move c (some (.wakeTurn k r)) k (s.conversations k))
    | _ => none
  | .wakeFails c =>
    match s.calls c with
    | some (.wakeReading k) => some (s.move c (some (.wakeSettled k)) k (s.conversations k))
    | some (.wakeCreated k _) => some (s.move c (some (.wakeSettled k)) k (s.conversations k))
    | _ => none
  | .turnFails c =>
    match s.calls c with
    | some (.turn k r) => some (s.move c (some (.failing none r)) k
        ((s.conversations k).setEntry none).releaseIfIdle)
    | some (.wakeTurn k r) =>
      some (s.move c (some (.failing (some k) r)) k (s.conversations k))
    | _ => none
  | .failRun c =>
    match s.calls c with
    | some (.failing k r) =>
      some ((s.setCall c (failedNext k)).finish r .error)
    | _ => none
  | .failRunFails c =>
    match s.calls c with
    | some (.failing k _) => some (s.setCall c (failedNext k))
    | _ => none
  | .settle c =>
    match s.calls c with
    | some (.wakeTurn k r) =>
      let conv := s.conversations k
      if conv.dropped then
        some (s.move c (some (.closing k r .wake)) k (conv.setEntry (some ⟨r, true, none⟩)))
      else
        some (s.move c (some (.wakeSettled k)) k (conv.setEntry (some ⟨r, false, some .ttl⟩)))
    | some (.turn k r) =>
      let conv := s.conversations k
      if conv.dropped then
        some (s.move c (some (.closing k r .turn)) k (conv.setEntry (some ⟨r, true, none⟩)))
      else
        some (s.move c (some (.turnSettled k r)) k (conv.setEntry (some ⟨r, true, some .ttl⟩)))
    | _ => none
  | .leave c =>
    match s.calls c with
    | some (.wakeSettled k) =>
      some (s.move c none k (Conversation.releaseIfIdle { s.conversations k with waking := false }))
    | some (.turnSettled k r) => some (s.move c none k ((s.conversations k).unbusy r))
    | _ => none
  | .dropTenant tenantId =>
    let k := Key.semp tenantId
    let conv := s.conversations k
    if conv = .absent ∨ conv.dropped then some s
    else match conv.entry with
      | some e =>
        if conv.waking ∨ e.busy then
          some (s.setConversation k
            { conv with dropped := true, entry := some { e with ttlTimer := none } })
        else
          some (s.start (.closing k e.agentRunId .timer) k
            { conv with dropped := true, entry := some ⟨e.agentRunId, true, none⟩ })
      | none => some (s.setConversation k { conv with dropped := true })
  | .finishDropped c =>
    match s.calls c with
    | some (.closing k r a) =>
      some ((s.move c (some (.closed k r a)) k (s.conversations k)).finish r .error)
    | _ => none
  | .pushDropped c =>
    match s.calls c with
    | some (.closed k r a) =>
      some (s.move c (a.next k r) k ((s.conversations k).setEntry none).releaseIfIdle)
    | _ => none
  | .closeDroppedFails c =>
    match s.calls c with
    | some (.closing k r a) => some (s.move c (a.next k r) k
        ((s.conversations k).setEntry (some ⟨r, false, some .retry⟩)))
    | some (.closed k r a) => some (s.move c (a.next k r) k
        ((s.conversations k).setEntry (some ⟨r, false, some .retry⟩)))
    | _ => none
  | .ttlTimer k =>
    let conv := s.conversations k
    match conv.entry with
    | some ⟨r, busy, some .ttl⟩ =>
      if s.Quiet k r then
        if busy then some (s.setConversation k (conv.setEntry (some ⟨r, true, none⟩)))
        else some (s.start (match k with
          | .semp _ => .pausing k r
          | .delegation _ _ => .committing k r) k (conv.setEntry (some ⟨r, true, none⟩)))
      else none
    | _ => none
  | .retryTimer k =>
    let conv := s.conversations k
    match conv.entry with
    | some ⟨r, _, some .retry⟩ =>
      if s.Quiet k r then
        some (s.start (.closing k r .timer) k (conv.setEntry (some ⟨r, true, none⟩)))
      else none
    | _ => none
  | .checkPause c =>
    match s.calls c with
    | some (.pausing k r) =>
      let conv := s.conversations k
      some (s.move c (some (if conv.dropped then .closing k r .timer else .committing k r)) k conv)
    | _ => none
  | .commitPause c =>
    match s.calls c with
    | some (.committing k r) =>
      let conv := match k with
        | .semp _ => s.conversations k
        | .delegation _ _ => (s.conversations k).setEntry none
      some ((s.move c (some (.paused k r)) k conv).finish r .done)
    | _ => none
  | .pauseFails c =>
    match s.calls c with
    | some (.pausing k r) => some (catchPause s c k r)
    | some (.committing k r) => some (catchPause s c k r)
    | _ => none
  | .pushPaused c =>
    match s.calls c with
    | some (.paused (.semp tenantId) _) => some (s.move c none (.semp tenantId)
        ((s.conversations (.semp tenantId)).setEntry none).releaseIfIdle)
    | some (.paused (.delegation _ _) _) => some (s.setCall c none)
    | _ => none
  | .pushPausedFails c =>
    match s.calls c with
    | some (.paused (.semp tenantId) r) => some (catchPause s c (.semp tenantId) r)
    | some (.paused (.delegation _ _) _) => some (s.setCall c none)
    | _ => none

/-! ## Owners -/

def Call.closes : Call → Option ℕ
  | .wakeCreated _ r => some r
  | .wakeTurn _ r => some r
  | .failing _ r => some r
  | .turn _ r => some r
  | .turnSettled _ r => some r
  | .closing _ r _ => some r
  | .pausing _ r => some r
  | .committing _ r => some r
  | _ => none

def Call.turnOf : Call → Option (Key × ℕ)
  | .wakeTurn k r => some (k, r)
  | .turn k r => some (k, r)
  | _ => none

def Sys.Owned (s : Sys) (agentRunId : ℕ) : Prop :=
  (∃ k e, (s.conversations k).entry = some e ∧ e.agentRunId = agentRunId ∧ e.busy = false ∧
    e.ttlTimer ≠ none) ∨
  ∃ c call, s.calls c = some call ∧ call.closes = some agentRunId

structure Sys.RunsOwned (s : Sys) : Prop where
  owned : ∀ r : ℕ, s.runs[r]? = some .running → s.Owned r
  oneTurn : ∀ c c' call call' k r r', s.calls c = some call → s.calls c' = some call' →
    call.turnOf = some (k, r) → call'.turnOf = some (k, r') → c = c'
  onRunning : ∀ c call k r, s.calls c = some call → call.turnOf = some (k, r) →
    s.runs[r]? = some .running

/-- The close of a failed turn succeeds, and so do the calls of a wake between its run and its turn;
the status event of a committed pause is stored unless the conversation was dropped meanwhile; and
no drop comes between the end of a turn and the `finally` that frees its entry. -/
def Handled (s : Sys) : Act → Prop
  | .failRunFails _ => False
  | .wakeFails c => ∀ k r, s.calls c ≠ some (.wakeCreated k r)
  | .pushPausedFails c => ∀ tenantId r, s.calls c = some (.paused (.semp tenantId) r) →
    (s.conversations (.semp tenantId)).dropped = true
  | .dropTenant tenantId => (s.conversations (.semp tenantId)).dropped = false →
    ∀ e, (s.conversations (.semp tenantId)).entry = some e → s.Quiet (.semp tenantId) e.agentRunId
  | _ => True

end WakeRuns

end Semprec
