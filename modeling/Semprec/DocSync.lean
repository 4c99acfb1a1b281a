import Mathlib.Order.CompletePartialOrder
import Semprec.Docs

/-!
# Document sync over the socket

The server's side of a document's binary channel: which sockets are subscribed, the rate limit on
each of them, and the transactions that handle their frames.  A frame is dispatched without
waiting for the ones before it, so its handler's transaction is one more on the document.  The
client's side sends each local change as its own update.
-/

namespace Semprec

namespace DocSync

open Docs

def MAX_UPDATES_PER_WINDOW : ℕ := 50

def RATE_LIMIT_WINDOW_MS : ℤ := 1000

/-- What is kept of a socket's current window. -/
structure RateState where
  count : ℕ
  windowStart : ℤ
deriving DecidableEq

def isRateLimited (state : Option RateState) (now : ℤ) : RateState × Bool :=
  match state with
  | none => (⟨1, now⟩, false)
  | some st =>
    if RATE_LIMIT_WINDOW_MS ≤ now - st.windowStart then (⟨1, now⟩, false)
    else (⟨st.count + 1, st.windowStart⟩, decide (MAX_UPDATES_PER_WINDOW < st.count + 1))

variable {Y : Yjs}

/-- A binary frame's y-protocols message; `none` and `false` stand for a body that cannot be
decoded. -/
inductive Payload (Y : Yjs) where
  | malformed
  | syncStep1 (readable : Bool)
  | syncStep2 (update : Option Y.Update)
  | update (update : Option Y.Update)
  | other

/-- The document, the sockets subscribed to it and their rate limits.  `accepted` records the
frames let through to a handler, with the handler's transaction. -/
structure SyncState (Y : Yjs) where
  docs : Sys Y
  retentionDays : ℕ
  subscribers : List ℕ
  updateRateByClient : ℕ → Option RateState
  accepted : List (ℕ × Y.Update)

def start (state : Y.Update) (now : ℤ) (retentionDays : ℕ) : SyncState Y where
  docs := initial state now
  retentionDays := retentionDays
  subscribers := []
  updateRateByClient := fun _ => none
  accepted := []

/-- `mutateYDoc` with the update a frame carries. -/
def applyFrame (retentionDays : ℕ) (update : Y.Update) : Docs.Job Y :=
  .calls ⟨some fun _ => update, DEFAULT_COMPACTION_THRESHOLD, retentionDays⟩ []

/-- `loadYDoc`. -/
def loadJob (retentionDays : ℕ) : Docs.Job Y :=
  .calls ⟨none, DEFAULT_COMPACTION_THRESHOLD, retentionDays⟩ []

inductive Act (Y : Yjs) where
  /-- `handleOpen` once the document is found: subscribes the socket and loads the document. -/
  | doOpen (ws p : ℕ) (startedAt : ℤ)
  /-- `handleClose` and `handleSocketClosed`. -/
  | doClose (ws : ℕ)
  /-- A binary frame arrives at `now`; its handler's transaction `p`, if it gets one, has the
  timestamp `startedAt`. -/
  | binaryFrame (ws p : ℕ) (now startedAt : ℤ) (payload : Payload Y)
  /-- Any step of the document layer, of a handler or of anyone else. -/
  | docs (a : Docs.Act Y)

namespace SyncState

def setRate (s : SyncState Y) (ws : ℕ) (rate : RateState) : SyncState Y :=
  { s with updateRateByClient := Function.update s.updateRateByClient ws (some rate) }

def begin (s : SyncState Y) (p : ℕ) (job : Docs.Job Y) (startedAt : ℤ) : Option (SyncState Y) :=
  (Docs.step s.docs (.begin p job startedAt)).map fun docs => { s with docs := docs }

/-- `handleBinaryFrame` on a SyncStep2 or an update. -/
def handleUpdate (s : SyncState Y) (ws p : ℕ) (now startedAt : ℤ) (update : Option Y.Update) :
    Option (SyncState Y) :=
  let (rate, limited) := isRateLimited (s.updateRateByClient ws) now
  if limited then some (s.setRate ws rate)
  else match update with
    | none => some (s.setRate ws rate)
    | some u =>
      ((s.setRate ws rate).begin p (applyFrame s.retentionDays u) startedAt).map fun s =>
        { s with accepted := s.accepted ++ [(p, u)] }

end SyncState

def step (s : SyncState Y) : Act Y → Option (SyncState Y)
  | .doOpen ws p startedAt =>
    ({ s with subscribers := ws :: s.subscribers } : SyncState Y).begin p
      (loadJob s.retentionDays) startedAt
  | .doClose ws => some { s with subscribers := s.subscribers.filter (· ≠ ws) }
  | .binaryFrame ws p now startedAt payload =>
    if ws ∈ s.subscribers then
      match payload with
      | .malformed | .other | .syncStep1 false => some s
      | .syncStep1 true => s.begin p (loadJob s.retentionDays) startedAt
      | .syncStep2 u | .update u => s.handleUpdate ws p now startedAt u
    else some s
  | .docs a => (Docs.step s.docs a).map fun docs => { s with docs := docs }

/-- The statements of a frame's handler, run without interruption. -/
def handler (p : ℕ) : List (Act Y) :=
  [.docs (.exec p), .docs (.exec p), .docs (.exec p), .docs (.exec p), .docs (.commit p)]

/-- A change to the client's document: a local edit, whose frame reaches the server at `arrival`,
or an update received from the server. -/
inductive ClientEvent (Y : Yjs) where
  | edit (u : Y.Update) (arrival : ℤ)
  | remote (u : Y.Update)

structure Frame (Y : Yjs) where
  update : Y.Update
  arrival : ℤ

/-- The frames `createDocSession` sends: one for each update event of the client's document that
is not of remote origin. -/
def sentFrames : Y.Doc → List (ClientEvent Y) → List (Frame Y)
  | _, [] => []
  | ydoc, .edit u arrival :: events =>
    ((Y.updateEvent ydoc u).map fun e => ⟨e, arrival⟩).toList ++
      sentFrames (Y.applyUpdate ydoc u) events
  | ydoc, .remote u :: events => sentFrames (Y.applyUpdate ydoc u) events

/-- A frame the server has received on the socket, with its handler's transaction unless it was
dropped. -/
structure Received (Y : Yjs) extends Frame Y where
  transaction : Option ℕ

/-- The job's own changes to the document carry none of the structs `X`. -/
def JobAvoids (X : Set Y.Struct) : Docs.Job Y → Prop
  | .calls call rest =>
    ∀ c ∈ call :: rest, ∀ fn, c.fn = some fn → ∀ doc, Disjoint (Y.content (fn doc)) X
  | _ => True

/-- A step other than a frame of socket `ws` that carries an update: it neither closes the
document on `ws` nor brings any of the structs `X` to the server. -/
def Other (ws : ℕ) (X : Set Y.Struct) : Act Y → Prop
  | .doClose ws' => ws' ≠ ws
  | .binaryFrame ws' _ _ _ (.syncStep2 u) | .binaryFrame ws' _ _ _ (.update u) =>
    ws' ≠ ws ∧ ∀ v, u = some v → Disjoint (Y.content v) X
  | .docs (.begin _ job _) => JobAvoids X job
  | _ => True

/-- A run in which the server receives these frames on socket `ws`, between any steps of others
that bring none of the structs `X`. -/
inductive SessionRun (ws : ℕ) (X : Set Y.Struct) :
    SyncState Y → List (Received Y) → SyncState Y → Prop where
  | done (s : SyncState Y) : SessionRun ws X s [] s
  | accepted {s s' t : SyncState Y} {f : Frame Y} {p : ℕ} {startedAt : ℤ}
      {fs : List (Received Y)} :
      step s (.binaryFrame ws p f.arrival startedAt (.update (some f.update))) = some s' →
      s'.accepted = s.accepted ++ [(p, f.update)] → SessionRun ws X s' fs t →
      SessionRun ws X s (⟨f, some p⟩ :: fs) t
  | dropped {s s' t : SyncState Y} {f : Frame Y} {p : ℕ} {startedAt : ℤ}
      {fs : List (Received Y)} :
      step s (.binaryFrame ws p f.arrival startedAt (.update (some f.update))) = some s' →
      s'.accepted = s.accepted → SessionRun ws X s' fs t →
      SessionRun ws X s (⟨f, none⟩ :: fs) t
  | other {s s' t : SyncState Y} {a : Act Y} {fs : List (Received Y)} : Other ws X a →
      step s a = some s' → SessionRun ws X s' fs t → SessionRun ws X s fs t

end DocSync

end Semprec
