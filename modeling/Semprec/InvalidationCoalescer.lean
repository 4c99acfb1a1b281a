import Mathlib.Logic.Function.Basic
import Mathlib.Logic.Relation
import Semprec.Lib.Runs
import Semprec.SyncClient

/-!
# The coalescing queues of item invalidations

`enqueue` sends to a socket that has drained and has nothing queued; otherwise the frame waits in
the socket's queue, one frame an item, and a poller flushes the queue once the socket has drained.
The buffered bytes are the environment's: they change between the calls and with every send.
-/

namespace Semprec

namespace InvalidationCoalescer

open SyncClient (ItemOp)

def MAX_BUFFERED_BYTES : ℕ := 4000000

structure Frame where
  databaseId : String
  itemId : String
  op : ItemOp
  updatedAt : ℤ
deriving DecidableEq

/-- The ids are UUIDs, so joined with a colon they are as different as the pair. -/
def Frame.key (f : Frame) : String × String := (f.databaseId, f.itemId)

inductive ReadyState where
  | OPEN
  | CLOSING
  | CLOSED
deriving DecidableEq

/-- A frame with its number among those enqueued for the socket. -/
structure Entry where
  n : ℕ
  frame : Frame
deriving DecidableEq

/-- `pending` is the socket's map in insertion order, and `polling` whether it has a drain poller.
`gaveWay` are the frames that were dropped, each with the one that was queued in its place. -/
structure Client where
  readyState : ReadyState
  bufferedAmount : ℕ
  pending : List Entry
  polling : Bool
  enqueued : List Entry
  sent : List Entry
  gaveWay : List (Entry × Entry)

def Client.init : Client := ⟨.OPEN, 0, [], false, [], [], []⟩

/-- `Map.set`: a key that is there keeps its place. -/
def setPending (e : Entry) : List Entry → List Entry
  | [] => [e]
  | x :: rest => if x.frame.key = e.frame.key then e :: rest else x :: setPending e rest

namespace Client

@[grind =] def sendWithBackpressure (c : Client) (e : Entry) (buffered : ℕ) : Client :=
  if c.readyState ≠ .OPEN then c
  else if MAX_BUFFERED_BYTES < c.bufferedAmount then { c with readyState := .CLOSING }
  else { c with sent := c.sent ++ [e], bufferedAmount := buffered }

def enqueue (c : Client) (frame : Frame) (buffered : ℕ) : Client :=
  let e : Entry := ⟨c.enqueued.length, frame⟩
  let c := { c with enqueued := c.enqueued ++ [e] }
  if c.pending = [] ∧ c.bufferedAmount = 0 then c.sendWithBackpressure e buffered
  else
    match c.pending.find? fun x => x.frame.key = frame.key with
    | none => { c with pending := setPending e c.pending, polling := true }
    | some existing =>
      if existing.frame.updatedAt ≤ frame.updatedAt then
        { c with
          pending := setPending e c.pending
          polling := true
          gaveWay := c.gaveWay ++ [(existing, e)] }
      else { c with polling := true, gaveWay := c.gaveWay ++ [(e, existing)] }

def flush (c : Client) (buffered : ℕ → ℕ) : Client :=
  c.pending.foldl (fun c e => c.sendWithBackpressure e (buffered e.n)) { c with pending := [] }

def drainTick (c : Client) (buffered : ℕ → ℕ) : Client :=
  if c.readyState ≠ .OPEN then { c with polling := false }
  else if c.bufferedAmount = 0 then { c with polling := false }.flush buffered
  else c

def discard (c : Client) : Client := { c with pending := [], polling := false }

end Client

abbrev Sys := ℕ → Client

def Sys.init : Sys := fun _ => .init

inductive Act where
  | enqueue (ws : ℕ) (frame : Frame) (buffered : ℕ)
  | drainTick (ws : ℕ) (buffered : ℕ → ℕ)
  /-- The bytes left to send change. -/
  | buffer (ws : ℕ) (bufferedAmount : ℕ)
  /-- A send fails, or either side closes the connection. -/
  | closing (ws : ℕ)
  /-- The close event, whose handler discards the queue. -/
  | close (ws : ℕ)

@[grind =] def step (s : Sys) : Act → Option Sys
  | .enqueue ws frame buffered => some (Function.update s ws ((s ws).enqueue frame buffered))
  | .drainTick ws buffered =>
    if (s ws).polling then some (Function.update s ws ((s ws).drainTick buffered)) else none
  | .buffer ws bufferedAmount => some (Function.update s ws { s ws with bufferedAmount })
  | .closing ws =>
    if (s ws).readyState = .OPEN then
      some (Function.update s ws { s ws with readyState := .CLOSING })
    else none
  | .close ws =>
    some (Function.update s ws { (s ws).discard with readyState := .CLOSED })

/-! ## What is asked of the queues -/

/-- The frame was dropped for one of its item, which may have been dropped later itself. -/
def Client.GaveWay (c : Client) : Entry → Entry → Prop :=
  Relation.ReflTransGen fun e e' => (e, e') ∈ c.gaveWay

def Client.SentOrSuperseded (c : Client) : Prop :=
  ∀ e ∈ c.enqueued, e ∈ c.sent ∨ e ∈ c.pending ∨
    ∃ e' ∈ c.enqueued, e'.frame.key = e.frame.key ∧ e.n < e'.n

/-- Frames of one item are sent as they were enqueued, the queue holds a frame an item, and is
polled while the socket is open. -/
structure Client.Ordered (c : Client) : Prop where
  sent : c.sent.Pairwise fun e e' => e.frame.key = e'.frame.key → e.n < e'.n
  pending : (c.pending.map fun e => e.frame.key).Nodup
  polled : c.readyState = .OPEN → c.pending ≠ [] → c.polling = true

/-- On an open socket every frame is sent or queued, or gave way to one of its item that is: each
time to a frame that is no older, and newer when it had been enqueued before. -/
structure Client.Kept (c : Client) : Prop where
  kept : c.readyState = .OPEN → ∀ e ∈ c.enqueued, ∃ e', c.GaveWay e e' ∧
    (e' ∈ c.sent ∨ e' ∈ c.pending)
  newer : ∀ x ∈ c.gaveWay, x.1.frame.key = x.2.frame.key ∧
    x.1.frame.updatedAt ≤ x.2.frame.updatedAt ∧
      (x.1.n < x.2.n ∨ x.1.frame.updatedAt < x.2.frame.updatedAt)

end InvalidationCoalescer

end Semprec
