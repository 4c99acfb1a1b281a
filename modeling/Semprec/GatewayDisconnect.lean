import Semprec.AiGateway

/-!
# A client that goes away

Each route of the gateway hands the provider a signal that is aborted when the client's connection
closes before its response has finished.  `close` is emitted once: a listener attached later does
not hear it.  The routes of one answer attach theirs before the budget is reserved and look whether
the connection is gone already; the stream route attaches its own when the stream begins and takes
it off when the stream is over.
-/

namespace Semprec

namespace GatewayDisconnect

open AiGateway (Status)

/-! ## The response -/

inductive Output where
  | head
  | event
  | json (status : ℕ)
deriving DecidableEq

/-- `output` is what the handler has handed to the response; of what is handed to one that is
destroyed nothing is sent. -/
structure ServerResponse where
  destroyed : Bool
  writableEnded : Bool
  writableFinished : Bool
  output : List Output
deriving DecidableEq

namespace ServerResponse

variable (res : ServerResponse)

def isOpen : Bool := !res.destroyed && !res.writableEnded

def headersSent : Bool := !res.output.isEmpty

def write (output : Output) : ServerResponse := { res with output := res.output ++ [output] }

def end_ : ServerResponse := { res with writableEnded := true }

def sendJson (status : ℕ) : ServerResponse := (res.write (.json status)).end_

end ServerResponse

/-! ## Requests -/

inductive Route where
  | complete
  | diarize
  | transcribe
  | piMessages
deriving DecidableEq

inductive ReservationError where
  | budgetExceeded
  | chokePoint (status : ℕ)
  | other
deriving DecidableEq

inductive InvokeError where
  | providerCall
  | other
deriving DecidableEq

/-- The last event of a stream. -/
inductive Terminal where
  | done
  | error
deriving DecidableEq

inductive Phase where
  /-- The body has been read. -/
  | received
  | reserving
  /-- The provider is at work; on the stream route its next event is awaited. -/
  | invoking
  /-- `writeEvent` waits for the socket to drain. -/
  | writing (terminal : Option Terminal)
  | settling (valid : Bool)
  | failing (err : InvokeError)
  | answered
deriving DecidableEq

/-- `handed` is whether the provider has been called with the signal, `lostAt` what had been handed
to the response when its connection closed before it finished, and `endedByAbort` whether the
provider call has ended because `abort` was aborted. -/
structure Sys where
  route : Route
  phase : Phase
  res : ServerResponse
  listening : Bool
  abort : Bool
  timedOut : Bool
  handed : Bool
  row : Option Status
  lostAt : Option (List Output)
  endedByAbort : Bool

def Sys.init (route : Route) : Sys :=
  ⟨route, .received, ⟨false, false, false, []⟩, false, false, false, false, none, none, false⟩

namespace Sys

variable (s : Sys)

/-- `AbortSignal.any([abort.signal, AbortSignal.timeout(streamTimeoutMs)])`. -/
def signalAborted : Bool := s.abort || s.timedOut

def onClose : Sys :=
  if s.listening ∧ s.res.writableFinished = false then { s with abort := true } else s

/-- `close` is emitted once. -/
@[grind =] def close : Sys :=
  { s.onClose with
    res := { s.res with destroyed := true }
    lostAt := if s.res.writableFinished then none else some s.res.output }

def abortOnDisconnect : Sys := { s with listening := true, abort := s.res.destroyed }

def sendJson (status : ℕ) : Sys := { s with res := s.res.sendJson status }

def answerError : ReservationError → Sys
  | .chokePoint status => s.sendJson status
  | _ => s.sendJson 500

def answerReservationError (err : ReservationError) : Sys :=
  if s.route = .piMessages then
    if err = .budgetExceeded then s.sendJson 403
    else if s.res.headersSent then (if s.res.isOpen then { s with res := s.res.end_ } else s)
    else s.answerError err
  else if s.abort then s
  else if err = .budgetExceeded then s.sendJson 403
  else s.answerError err

def answerInvokeError (err : InvokeError) : Sys :=
  if s.route = .piMessages then
    if s.res.headersSent then (if s.res.isOpen then { s with res := s.res.end_ } else s)
    else s.sendJson 500
  else if s.abort then s
  else if err = .providerCall then s.sendJson 502
  else s.sendJson 500

def answerResult (valid : Bool) : Sys :=
  if s.route = .piMessages then s
  else if s.route = .complete ∧ valid = false then s.sendJson 502
  else s.sendJson 200

/-- What `streamTurn` does after an event has been written. -/
@[grind =] def afterEvent : Option Terminal → Sys
  | none => { s with phase := .invoking }
  | some .done =>
    { s with res := s.res.end_, listening := false, phase := .settling true }
  | some .error =>
    { s with res := s.res.end_, listening := false, phase := .failing .providerCall }

@[grind =] def writeEvent (terminal : Option Terminal) (full : Bool) : Sys :=
  if s.res.isOpen then
    if full then { s with res := s.res.write .event, phase := .writing terminal }
    else { s with res := s.res.write .event }.afterEvent terminal
  else s.afterEvent terminal

end Sys

inductive Act where
  | close
  /-- The last of the response has been sent. -/
  | finish
  /-- The body is not valid, or its model unknown. -/
  | refuse (status : ℕ)
  | reserve
  | reservationFails (err : ReservationError)
  | invoke
  | timeout
  | event (terminal : Option Terminal) (full byAbort : Bool)
  /-- The socket has drained, or closed. -/
  | settleWrite
  | providerReturns (valid : Bool)
  | providerRejects (err : InvokeError) (byAbort : Bool)
  /-- `settled` is whether one of the attempts succeeded. -/
  | settle (settled : Bool)
  /-- `updated` is whether `failGatewayCall` succeeded. -/
  | fail (updated : Bool)
deriving DecidableEq

/-- A call ends because of the signal only when it is aborted, and a stream then with an error. -/
@[grind =] def step (s : Sys) : Act → Option Sys
  | .close => if s.res.destroyed then none else some s.close
  | .finish =>
    if s.res.writableEnded ∧ s.res.destroyed = false then
      some { s with res := { s.res with writableFinished := true } }
    else none
  | .refuse status =>
    if s.phase = .received then some { s.sendJson status with phase := .answered } else none
  | .reserve =>
    if s.phase = .received then
      if s.route = .piMessages then some { s with phase := .reserving }
      else some { s.abortOnDisconnect with phase := .reserving }
    else none
  | .reservationFails err =>
    if s.phase = .reserving then some { s.answerReservationError err with phase := .answered }
    else none
  | .invoke =>
    if s.phase = .reserving then
      if s.route = .piMessages then
        some { s with
          phase := .invoking, listening := true, res := s.res.write .head, handed := true
          row := some .reserved }
      else some { s with phase := .invoking, handed := true, row := some .reserved }
    else none
  | .timeout =>
    if s.route = .piMessages ∧ s.handed then some { s with timedOut := true } else none
  | .event terminal full byAbort =>
    if s.route = .piMessages ∧ s.phase = .invoking ∧
        (byAbort → s.abort ∧ terminal = some .error) then
      some ({ s with endedByAbort := byAbort }.writeEvent terminal full)
    else none
  | .settleWrite =>
    match s.phase with
    | .writing terminal => some (s.afterEvent terminal)
    | _ => none
  | .providerReturns valid =>
    if s.route ≠ .piMessages ∧ s.phase = .invoking then some { s with phase := .settling valid }
    else none
  | .providerRejects err byAbort =>
    if s.phase = .invoking ∧ (byAbort → s.abort) then
      some { s with
        phase := .failing err, endedByAbort := byAbort
        listening := s.listening && s.route ≠ .piMessages }
    else none
  | .settle settled =>
    match s.phase with
    | .settling valid => some { s.answerResult valid with
        phase := .answered, row := if settled then some .settled else s.row }
    | _ => none
  | .fail updated =>
    match s.phase with
    | .failing err => some { s.answerInvokeError err with
        phase := .answered
        row := if updated then s.row.map fun status =>
          if status = .reserved then .failed else status else s.row }
    | _ => none

/-- The signal of a call whose client is lost is aborted, and a call that ends so has its row failed
and nothing more written to the response. -/
structure Sys.Guarded (s : Sys) : Prop where
  signal : s.lostAt ≠ none → s.handed = true → s.signalAborted = true
  failed : s.endedByAbort = true → s.phase = .answered → s.row = some .failed
  quiet : s.endedByAbort = true → s.lostAt = some s.res.output

/-- On the stream route the connection closes while the listener is attached, or when it no longer
matters; and no update that fails a row is lost. -/
def CloseHeard (s : Sys) : Act → Bool
  | .close => s.route ≠ .piMessages || s.listening || s.res.writableFinished || s.timedOut ||
      (s.phase = .answered && !s.handed)
  | .fail updated => updated
  | _ => true

end GatewayDisconnect

end Semprec
