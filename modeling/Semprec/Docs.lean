import Mathlib.Data.List.Sort
import Mathlib.Logic.Function.Basic
import Semprec.Lib.Runs
import Semprec.Yjs

/-!
# Document persistence

One document's tables (`doc_snapshots`, `doc_updates`, `doc_history_updates`,
`doc_snapshot_history` and its `docs` row) and the transactions that read and write them.

A transaction runs one statement of its code per step and any number of transactions interleave.
As in Postgres at READ COMMITTED, a statement sees what is committed when it runs together with
the transaction's own writes, and other transactions see those writes only after the commit.
`SELECT … FROM doc_snapshots … FOR UPDATE` waits for the document's row lock, which is held until
the transaction ends.  Consecutive statements that only write are one step, since nothing another
transaction does can be seen between them.
-/

namespace Semprec

namespace Docs

/-- A row of `doc_updates`, or its mirror in `doc_history_updates`.  Times are in microseconds. -/
structure UpdateRow (Y : Yjs) where
  id : ℕ
  update : Y.Update
  createdAt : ℤ

/-- A row of `doc_snapshot_history`. -/
structure Checkpoint (Y : Yjs) where
  id : ℕ
  state : Y.Update
  throughUpdateId : ℕ
  representedAt : ℤ
  expiresAt : Option ℤ

structure DocRow where
  historyAvailableFrom : Option ℤ

structure Tables (Y : Yjs) where
  /-- `doc_snapshots.state`: inserted with the document and never deleted on its own. -/
  snapshot : Y.Update
  docUpdates : List (UpdateRow Y)
  historyUpdates : List (UpdateRow Y)
  snapshotHistory : List (Checkpoint Y)
  docs : Option DocRow

/-- The effect of one write statement, the rows of a `DELETE` being those it matched. -/
inductive Write (Y : Yjs) where
  | setSnapshot (state : Y.Update)
  | insertCheckpoint (c : Checkpoint Y)
  | deleteUpdates (ids : List ℕ)
  | insertUpdate (row : UpdateRow Y)
  | insertHistory (row : UpdateRow Y)
  | setHistoryAvailableFrom (at_ : ℤ)
  | deleteCheckpoints (ids : List ℕ)
  | deleteHistory (ids : List ℕ)

variable {Y : Yjs}

def Write.apply (t : Tables Y) : Write Y → Tables Y
  | .setSnapshot state => { t with snapshot := state }
  | .insertCheckpoint c => { t with snapshotHistory := t.snapshotHistory ++ [c] }
  | .deleteUpdates ids => { t with docUpdates := t.docUpdates.filter (·.id ∉ ids) }
  | .insertUpdate row => { t with docUpdates := t.docUpdates ++ [row] }
  | .insertHistory row => { t with historyUpdates := t.historyUpdates ++ [row] }
  | .setHistoryAvailableFrom a => { t with docs := t.docs.map fun _ => ⟨some a⟩ }
  | .deleteCheckpoints ids =>
    { t with snapshotHistory := t.snapshotHistory.filter (·.id ∉ ids) }
  | .deleteHistory ids => { t with historyUpdates := t.historyUpdates.filter (·.id ∉ ids) }

def applyWrites (ws : List (Write Y)) (t : Tables Y) : Tables Y := ws.foldl Write.apply t

/-- What a `timestamptz` column becomes when it is read into a JavaScript `Date`: milliseconds. -/
def toDate (t : ℤ) : ℤ := t / 1000 * 1000

def retentionHours (retentionDays : ℕ) : ℕ := 24 * retentionDays

/-- `make_interval(hours => …)` in microseconds. -/
def makeInterval (hours : ℕ) : ℤ := hours * 3600000000

/-- `ORDER BY id ASC`. -/
def orderById (rows : List (UpdateRow Y)) : List (UpdateRow Y) :=
  rows.insertionSort fun a b => a.id ≤ b.id

/-- The document rebuilt from a snapshot and the updates after it. -/
def replay (state : Y.Update) (rows : List (UpdateRow Y)) : Y.Doc :=
  Y.applyUpdates (Y.applyUpdate Y.newDoc state) (rows.map (·.update))

def loadDoc (t : Tables Y) : Y.Doc := replay t.snapshot (orderById t.docUpdates)

/-- One call of `mutateDocWithClient`, or of `loadDocWithClient` when `fn` is `none`.  `fn` gives
the change it makes to the loaded document inside `doc.transact`. -/
structure DocCall (Y : Yjs) where
  fn : Option (Y.Doc → Y.Update)
  compactionThreshold : ℕ
  retentionDays : ℕ

def DEFAULT_COMPACTION_THRESHOLD : ℕ := 200

/-- What a transaction was opened for: document calls one after the other on its client,
`rebaselineDocHistory`, or `openDocVersionAt`. -/
inductive Job (Y : Yjs) where
  | calls (call : DocCall Y) (rest : List (DocCall Y))
  | rebaseline (retentionDays : ℕ)
  | openVersion (at_ : ℤ) (retentionDays : ℕ)

/-- The errors of `openDocVersionAt`. -/
inductive OpenError where
  | futureTimestamp (at_ : ℤ)
  | docNotFound
  | historyNotRetained (at_ : ℤ)
deriving DecidableEq

/-- The HTTP status, code and message of an error; `toISOString` prints a time. -/
def OpenError.response (toISOString : ℤ → String) (docId : String) :
    OpenError → ℕ × String × String
  | .futureTimestamp a =>
    (400, "validation_failed",
      s!"Cannot open doc {docId} at a future timestamp {toISOString a}")
  | .docNotFound => (404, "not_found", s!"Doc {docId} does not exist")
  | .historyNotRetained a =>
    (410, "history_not_retained", s!"Doc {docId} has no retained history at {toISOString a}")

inductive Phase (Y : Yjs) where
  /-- The next call has not run a statement yet. -/
  | begun
  | locked (snapshot : Y.Update)
  | loaded (doc : Y.Doc) (pendingUpdates : List (UpdateRow Y))
  /-- Compaction, where due, is written; the document is the caller's. -/
  | ready (doc : Y.Doc)
  /-- The re-baseline has picked the checkpoint to start from. -/
  | rebaselining (cutoff : ℤ) (checkpoint : Checkpoint Y)
  /-- `openDocVersionAt` has passed its checks on the `docs` row. -/
  | available
  /-- `openDocVersionAt` has read its checkpoint. -/
  | opening (checkpoint : Checkpoint Y)
  | opened (doc : Y.Doc)
  | rejected (error : OpenError)
  | done
  | committed
  | aborted

/-- A transaction: `writes` are its own uncommitted ones and `startedAt` its
`transaction_timestamp()`.  `committedAtLock` is not part of the code: it records what was
committed when the transaction last read the snapshot. -/
structure Session (Y : Yjs) where
  startedAt : ℤ
  job : Job Y
  phase : Phase Y := .begun
  writes : List (Write Y) := []
  committedAtLock : List (UpdateRow Y) := []

/-- The committed tables, the sequence behind `doc_updates.id`, the checkpoint ids handed out, the
holder of the row lock and the transactions.  `committed` records every update row ever
committed. -/
structure Sys (Y : Yjs) where
  db : Tables Y
  nextId : ℕ
  nextCheckpointId : ℕ
  lock : Option ℕ
  sessions : ℕ → Option (Session Y)
  committed : List (UpdateRow Y)

/-- The tables as a transaction's own statements see them. -/
def Session.view (ses : Session Y) (db : Tables Y) : Tables Y := applyWrites ses.writes db

/-- Where a transaction stands once a document call has returned. -/
def Session.nextCall (ses : Session Y) : List (DocCall Y) → Session Y
  | [] => { ses with phase := .done }
  | call :: rest => { ses with job := .calls call rest, phase := .begun }

def insertedRows : List (Write Y) → List (UpdateRow Y)
  | [] => []
  | .insertUpdate row :: ws => row :: insertedRows ws
  | _ :: ws => insertedRows ws

/-- A document with its first snapshot and the baseline checkpoint of the same state. -/
def initial (state : Y.Update) (now : ℤ) : Sys Y where
  db := {
    snapshot := state
    docUpdates := []
    historyUpdates := []
    snapshotHistory := [{
      id := 0
      state := state
      throughUpdateId := 0
      representedAt := toDate now
      expiresAt := none }]
    docs := some ⟨some now⟩ }
  nextId := 1
  nextCheckpointId := 1
  lock := none
  sessions := fun _ => none
  committed := []

/-- The document `getOrCreateDoc` inserts: an empty one. -/
def getOrCreateDoc (now : ℤ) : Sys Y := initial (Y.encodeStateAsUpdate Y.newDoc) now

/-- `compact`: the statements it runs, given the ids the database would assign. -/
def compact (checkpointId : ℕ) (doc : Y.Doc) (mergedUpdates : List (UpdateRow Y))
    (retentionDays : ℕ) : List (Write Y) :=
  let state := Y.encodeStateAsUpdate doc
  .setSnapshot state :: match mergedUpdates.getLast? with
    | none => []
    | some boundary =>
      [.insertCheckpoint {
          id := checkpointId
          state := state
          throughUpdateId := boundary.id
          representedAt := toDate boundary.createdAt
          expiresAt := some
            (toDate boundary.createdAt + makeInterval (retentionHours retentionDays)) },
        .deleteUpdates (mergedUpdates.map (·.id))]

/-- The mirror of an update row in `doc_history_updates`: its `created_at` went through a `Date`. -/
def UpdateRow.mirror (row : UpdateRow Y) : UpdateRow Y :=
  { row with createdAt := toDate row.createdAt }

/-- `appendDocUpdateWithClient`: the row and its mirror. -/
def appendDocUpdate (id : ℕ) (update : Y.Update) (startedAt : ℤ) : List (Write Y) :=
  let row : UpdateRow Y := { id := id, update := update, createdAt := startedAt }
  [.insertUpdate row, .insertHistory row.mirror]

/-- `ORDER BY represented_at DESC, through_update_id DESC`. -/
def newestFirst (a b : Checkpoint Y) : Prop :=
  b.representedAt < a.representedAt ∨
    (b.representedAt = a.representedAt ∧ b.throughUpdateId ≤ a.throughUpdateId)

instance : DecidableRel (newestFirst (Y := Y)) := fun _ _ => inferInstanceAs (Decidable (_ ∨ _))

def checkpointAt (cs : List (Checkpoint Y)) (t : ℤ) : Option (Checkpoint Y) :=
  ((cs.filter (·.representedAt ≤ t)).insertionSort newestFirst).head?

def foldedRows (rows : List (UpdateRow Y)) (throughUpdateId : ℕ) (cutoff : ℤ) :
    List (UpdateRow Y) :=
  let after := rows.filter fun r => throughUpdateId < r.id
  let past := after.filter fun r => cutoff < r.createdAt
  orderById (after.filter fun r => past.all fun p => r.id < p.id)

def foldedThrough (historyRows : List (UpdateRow Y)) (throughUpdateId : ℕ) : ℕ :=
  (historyRows.getLast?.map (·.id)).getD throughUpdateId

/-- The baseline that `rebaselineDocHistory` installs at its cutoff. -/
def baselineAt (checkpointId : ℕ) (view : Tables Y) (cutoff : ℤ) (checkpoint : Checkpoint Y) :
    Checkpoint Y :=
  let historyRows := foldedRows view.historyUpdates checkpoint.throughUpdateId cutoff
  { id := checkpointId
    state := Y.encodeStateAsUpdate (replay checkpoint.state historyRows)
    throughUpdateId := foldedThrough historyRows checkpoint.throughUpdateId
    representedAt := cutoff
    expiresAt := none }

/-- The write statements of `rebaselineDocHistory`. -/
def rebaseline (checkpointId : ℕ) (view : Tables Y) (cutoff : ℤ) (checkpoint : Checkpoint Y) :
    List (Write Y) :=
  let baseline := baselineAt checkpointId view cutoff checkpoint
  [.insertCheckpoint baseline,
    .setHistoryAvailableFrom cutoff,
    .deleteCheckpoints
      ((view.snapshotHistory.filter (·.representedAt < cutoff)).map (·.id)),
    .deleteHistory
      ((view.historyUpdates.filter (·.id ≤ baseline.throughUpdateId)).map (·.id))]

/-- The rows `openDocVersionAt` replays onto its checkpoint. -/
def versionRows (rows : List (UpdateRow Y)) (throughUpdateId : ℕ) (at_ : ℤ) :
    List (UpdateRow Y) :=
  orderById (rows.filter fun r => throughUpdateId < r.id ∧ r.createdAt ≤ at_)

namespace Sys

/-- Puts back a transaction. -/
def set (s : Sys Y) (p : ℕ) (ses : Session Y) : Sys Y :=
  { s with sessions := Function.update s.sessions p (some ses) }

/-- The checks of `openDocVersionAt` on the clock and the `docs` row. -/
def checkAvailable (view : Tables Y) (startedAt at_ : ℤ) (retentionDays : ℕ) : Phase Y :=
  if toDate startedAt < at_ then .rejected (.futureTimestamp at_)
  else match view.docs with
    | none => .rejected .docNotFound
    | some row =>
      let cutoff := toDate (startedAt - makeInterval (retentionHours retentionDays))
      match row.historyAvailableFrom with
      | none => .rejected (.historyNotRetained at_)
      | some haf =>
        if at_ < toDate haf ∨ at_ < cutoff then .rejected (.historyNotRetained at_)
        else .available

/-- What the re-baseline does once it holds the lock: nothing when the cutoff does not advance. -/
def chooseCheckpoint (view : Tables Y) (startedAt : ℤ) (retentionDays : ℕ) : Phase Y :=
  match view.docs with
  | some ⟨some haf⟩ =>
    let cutoff := toDate (startedAt - makeInterval (retentionHours retentionDays))
    if cutoff ≤ toDate haf then .done
    else match checkpointAt view.snapshotHistory cutoff with
      | none => .done
      | some c => .rebaselining cutoff c
  | _ => .done

def exec (s : Sys Y) (p : ℕ) (ses : Session Y) : Option (Sys Y) :=
  let view := ses.view s.db
  match ses.job, ses.phase with
  -- the row lock is granted once no other transaction holds it
  | .calls .., .begun | .rebaseline _, .begun =>
    if s.lock = none ∨ s.lock = some p then
      some ({ s with lock := some p }.set p
        { ses with phase := .locked view.snapshot, committedAtLock := s.committed })
    else none
  | .calls .., .locked snapshot =>
    let pending := orderById view.docUpdates
    some (s.set p { ses with phase := .loaded (replay snapshot pending) pending })
  | .calls call _, .loaded doc pending =>
    if call.compactionThreshold ≤ pending.length then
      some ({ s with nextCheckpointId := s.nextCheckpointId + 1 }.set p
        { ses with
          phase := .ready doc
          writes := ses.writes ++ compact s.nextCheckpointId doc pending call.retentionDays })
    else some (s.set p { ses with phase := .ready doc })
  | .calls call rest, .ready doc =>
    match call.fn.bind fun fn => Y.updateEvent doc (fn doc) with
    | none => some (s.set p (ses.nextCall rest))
    | some e =>
      some ({ s with nextId := s.nextId + 1 }.set p
        { ses.nextCall rest with
          writes := ses.writes ++ appendDocUpdate s.nextId e ses.startedAt })
  | .rebaseline days, .locked _ =>
    some (s.set p { ses with phase := chooseCheckpoint view ses.startedAt days })
  | .rebaseline _, .rebaselining cutoff c =>
    some ({ s with nextCheckpointId := s.nextCheckpointId + 1 }.set p
      { ses with
        phase := .done
        writes := ses.writes ++ rebaseline s.nextCheckpointId view cutoff c })
  | .openVersion at_ days, .begun =>
    some (s.set p { ses with phase := checkAvailable view ses.startedAt at_ days })
  | .openVersion at_ _, .available =>
    some (s.set p { ses with
      phase := match checkpointAt view.snapshotHistory at_ with
        | none => .rejected (.historyNotRetained at_)
        | some c => .opening c })
  | .openVersion at_ _, .opening c =>
    some (s.set p { ses with
      phase := .opened
        (replay c.state (versionRows view.historyUpdates c.throughUpdateId at_)) })
  | _, _ => none

def commit (s : Sys Y) (p : ℕ) (ses : Session Y) : Sys Y :=
  { s with
    db := ses.view s.db
    committed := s.committed ++ insertedRows ses.writes
    lock := if s.lock = some p then none else s.lock }.set p
    { ses with phase := .committed, writes := [] }

/-- `ROLLBACK`, also when the process or its connection dies. -/
def abort (s : Sys Y) (p : ℕ) (ses : Session Y) : Sys Y :=
  { s with lock := if s.lock = some p then none else s.lock }.set p
    { ses with phase := .aborted, writes := [] }

end Sys

/-- The job is over and only the `COMMIT` is left. -/
def Phase.finished : Phase Y → Bool
  | .done | .opened _ | .rejected _ => true
  | _ => false

def Phase.ended : Phase Y → Bool
  | .committed | .aborted => true
  | _ => false

inductive Act (Y : Yjs) where
  | begin (p : ℕ) (job : Job Y) (now : ℤ)
  | exec (p : ℕ)
  | commit (p : ℕ)
  | abort (p : ℕ)
  /-- The compaction sweep reads the number of pending updates and loads the document if due. -/
  | sweep (p : ℕ) (threshold retentionDays : ℕ) (now : ℤ)
  /-- `cleanupExpiredDocHistory`. -/
  | cleanup (now : ℤ)
  /-- An append to another document takes the next id of the sequence they share. -/
  | nextval

/-- One step of the document layer.  A transaction id is used once. -/
def step (s : Sys Y) : Act Y → Option (Sys Y)
  | .begin p job now =>
    match s.sessions p with
    | none => some (s.set p { startedAt := now, job := job })
    | some _ => none
  | .exec p => (s.sessions p).bind fun ses => s.exec p ses
  | .commit p => (s.sessions p).bind fun ses =>
      if ses.phase.finished then some (s.commit p ses) else none
  | .abort p => (s.sessions p).bind fun ses =>
      if ses.phase.ended then none else some (s.abort p ses)
  | .sweep p threshold retentionDays now =>
    match s.sessions p with
    | none =>
      if threshold ≤ s.db.docUpdates.length ∧ 0 < s.db.docUpdates.length then
        some (s.set p {
          startedAt := now
          job := .calls ⟨none, threshold, retentionDays⟩ [] })
      else some s
    | some _ => none
  | .cleanup now => some { s with
      db := { s.db with
        snapshotHistory := s.db.snapshotHistory.filter fun c =>
          c.expiresAt.all fun e => now ≤ e } }
  | .nextval => some { s with nextId := s.nextId + 1 }

end Docs

end Semprec
