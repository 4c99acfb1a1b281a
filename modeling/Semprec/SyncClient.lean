import Mathlib.Data.Finset.Basic
import Semprec.Lib.Runs

/-!
# The sync client

The client's connections with its gate and its refetches, and the server that broadcasts the
invalidation of each committed write, in commit order, to the sockets attached to it.  An
invalidation is named by the place of its write in the commit order.  What the caller displays is a
set of cached queries; `fetchedAt` is the number of writes committed at a query's last read.
-/

namespace Semprec

namespace SyncClient

inductive ItemOp where
  | create
  | update
  | delete
deriving DecidableEq

inductive InvalidateFrame where
  | item (databaseId itemId : String) (op : ItemOp) (updatedAt : ℤ)
  | schema (databaseId : String)
deriving DecidableEq

/-- One connection, from `createSocket` to its close event. -/
structure Conn where
  /-- The server has completed the upgrade. -/
  attached : Bool
  /-- The client has handled the open event. -/
  opened : Bool
  /-- The close is on its way; the server sends nothing more. -/
  closing : Bool
  inFlight : List ℕ
deriving DecidableEq

inductive RefetchStatus where
  | running
  | fulfilled
  | rejected
deriving DecidableEq

/-- A connection's `refetchActiveState`, with the queries it has not read yet. -/
structure Refetch (Q : Type) where
  unread : Finset Q
  status : RefetchStatus

inductive ReconnectTimer where
  | unset
  | waiting
  | fired
deriving DecidableEq

variable {Q : Type} [DecidableEq Q]

structure Sys (Q : Type) where
  committed : List InvalidateFrame
  /-- How many of them the server's listener has received. -/
  published : ℕ
  listening : Bool
  conns : ℕ → Option Conn
  socket : Option ℕ
  connectionId : ℕ
  reconnectTimer : ReconnectTimer
  closedByCaller : Bool
  gateInvalidations : Bool
  refetches : ℕ → Option (Refetch Q)
  cached : Finset Q
  /-- The queries whose fetch the caller has started. -/
  pending : Finset Q
  fetchedAt : Q → ℕ

def Sys.init : Sys Q where
  committed := []
  published := 0
  listening := true
  conns := fun _ => none
  socket := none
  connectionId := 0
  reconnectTimer := .unset
  closedByCaller := true
  gateInvalidations := false
  refetches := fun _ => none
  cached := ∅
  pending := ∅
  fetchedAt := fun _ => 0

namespace Sys

def setConn (s : Sys Q) (c : ℕ) (conn : Option Conn) : Sys Q :=
  { s with conns := Function.update s.conns c conn }

def read (s : Sys Q) (q : Q) : Sys Q :=
  { s with fetchedAt := Function.update s.fetchedAt q s.committed.length }

end Sys

def establishConnection (s : Sys Q) : Sys Q :=
  if s.closedByCaller then s
  else { s.setConn (s.connectionId + 1) (some ⟨false, false, false, []⟩) with
    connectionId := s.connectionId + 1
    socket := some (s.connectionId + 1) }

def connect (s : Sys Q) : Sys Q :=
  if s.socket.isSome ∨ s.reconnectTimer ≠ .unset then { s with closedByCaller := false }
  else establishConnection { s with closedByCaller := false }

/-- The socket's own close reaches the server later (`Act.drop`). -/
def close (s : Sys Q) : Sys Q :=
  { s with closedByCaller := true, reconnectTimer := .unset, socket := none }

def scheduleReconnect (s : Sys Q) : Sys Q :=
  if s.closedByCaller then s else { s with reconnectTimer := .waiting }

def onopen (s : Sys Q) (c : ℕ) : Sys Q :=
  if c ≠ s.connectionId then s
  else { s with
    gateInvalidations := true
    refetches := Function.update s.refetches c (some ⟨s.cached, .running⟩) }

section

variable (affects : InvalidateFrame → Q → Bool)

def onInvalidate (s : Sys Q) (frame : InvalidateFrame) : Sys Q :=
  { s with pending := s.pending ∪ s.cached.filter fun q => affects frame q }

def onmessage (s : Sys Q) (c w : ℕ) : Sys Q :=
  if c ≠ s.connectionId ∨ s.gateInvalidations then s
  else match s.committed[w]? with
    | some frame => onInvalidate affects s frame
    | none => s

def onclose (s : Sys Q) (c : ℕ) (revoked : Bool) : Sys Q :=
  if c ≠ s.connectionId then s
  else if revoked then { s with socket := none, closedByCaller := true }
  else scheduleReconnect { s with socket := none }

def settle (s : Sys Q) (c : ℕ) (r : Refetch Q) (status : RefetchStatus) : Sys Q :=
  { s with
    refetches := Function.update s.refetches c (some { r with status := status })
    gateInvalidations := if c = s.connectionId then false else s.gateInvalidations }

/-- The server sends the next invalidation to its open sockets. -/
def Conn.receive (w : ℕ) (conn : Conn) : Conn :=
  if conn.attached ∧ ¬ conn.closing then { conn with inFlight := conn.inFlight ++ [w] } else conn

/-- The server closes an open socket. -/
def Conn.closeAll (conn : Conn) : Conn :=
  if conn.attached then { conn with closing := true } else conn

inductive Act (Q : Type) where
  | commit (frame : InvalidateFrame)
  | publish
  /-- The server's LISTEN connection breaks. -/
  | loseListen
  /-- It notices, and closes its sockets. -/
  | listenError
  | restoreListen
  | connect
  | close
  | reconnect
  | attach (c : ℕ)
  | onopen (c : ℕ)
  | onmessage (c : ℕ)
  /-- Connection `c` breaks or is closed, by either side; `kept` frames still arrive. -/
  | drop (c kept : ℕ)
  | onclose (c : ℕ) (revoked : Bool)
  | refetchRead (c : ℕ) (q : Q)
  | refetchFulfilled (c : ℕ)
  | refetchRejected (c : ℕ)
  | display (q : Q)
  | hide (q : Q)
  /-- A fetch that the caller has started reads `q`. -/
  | fetch (q : Q)

def step (s : Sys Q) : Act Q → Option (Sys Q)
  | .commit frame => some { s with committed := s.committed ++ [frame] }
  | .publish =>
    if s.listening ∧ s.published < s.committed.length then
      some { s with
        published := s.published + 1
        conns := fun c => (s.conns c).map (.receive s.published) }
    else none
  | .loseListen => some { s with listening := false }
  | .listenError =>
    if s.listening then none
    else some { s with conns := fun c => (s.conns c).map .closeAll }
  | .restoreListen =>
    if s.listening then none
    else some { s with
      listening := true
      published := s.committed.length
      conns := fun c => (s.conns c).map .closeAll }
  | .connect => some (SyncClient.connect s)
  | .close => some (SyncClient.close s)
  | .reconnect =>
    if s.reconnectTimer = .waiting then
      some (establishConnection { s with reconnectTimer := .fired })
    else none
  | .attach c =>
    match s.conns c with
    | some conn =>
      if conn.attached ∨ conn.closing then none
      else some (s.setConn c (some { conn with attached := true }))
    | none => none
  | .onopen c =>
    match s.conns c with
    | some conn =>
      if conn.attached ∧ ¬ conn.opened then
        some (SyncClient.onopen (s.setConn c (some { conn with opened := true })) c)
      else none
    | none => none
  | .onmessage c =>
    match s.conns c with
    | some conn =>
      match conn.inFlight with
      | w :: rest =>
        if conn.opened then
          some (SyncClient.onmessage affects (s.setConn c (some { conn with inFlight := rest })) c w)
        else none
      | [] => none
    | none => none
  | .drop c kept =>
    (s.conns c).map fun conn =>
      s.setConn c (some { conn with closing := true, inFlight := conn.inFlight.take kept })
  | .onclose c revoked =>
    match s.conns c with
    | some conn =>
      if conn.closing ∧ conn.inFlight = [] then
        some (SyncClient.onclose (s.setConn c none) c revoked)
      else none
    | none => none
  | .refetchRead c q =>
    match s.refetches c with
    | some r =>
      if r.status = .running ∧ q ∈ r.unread then
        some { s.read q with
          refetches := Function.update s.refetches c (some { r with unread := r.unread.erase q }) }
      else none
    | none => none
  | .refetchFulfilled c =>
    match s.refetches c with
    | some r =>
      if r.status = .running ∧ r.unread = ∅ then some (settle s c r .fulfilled) else none
    | none => none
  | .refetchRejected c =>
    match s.refetches c with
    | some r => if r.status = .running then some (settle s c r .rejected) else none
    | none => none
  | .display q => some { s with cached := insert q s.cached, pending := insert q s.pending }
  | .hide q => some { s with cached := s.cached.erase q, pending := s.pending.erase q }
  | .fetch q =>
    if q ∈ s.pending then some { s.read q with pending := s.pending.erase q } else none

end

end SyncClient

end Semprec
