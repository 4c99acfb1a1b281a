import Mathlib.Data.Nat.Notation
import Mathlib.Logic.Function.Basic
import Semprec.Lib.Runs

/-!
# The live-sync lifecycles of the mailboxes

The root hosts one lifecycle per active account.  Discovery passes read and write the map of hosted
entries around awaits; the initial pass of `start`, the passes of the interval, those called by
hand, and the calls of `stop` and `stopTenant` can all overlap.
-/

namespace Semprec

namespace MailLiveSync

inductive SyncMode where
  | imap
  | gmail_api
  | graph_api
deriving DecidableEq

structure Account where
  mailboxItemId : ℕ
  tenantId : ℕ
  syncMode : SyncMode
deriving DecidableEq

inductive Heartbeat where
  | absent
  | beating
  | stopped
deriving DecidableEq

/-- Where the stop of an entry is: it waits for the entry's start, `lifecycle.stop()` runs, or it
has settled. -/
inductive Stopping where
  | waiting
  | calling
  | settled
deriving DecidableEq

/-- A lifecycle whose `start()` was called; `started` is how that settled, and `stops` counts the
calls of its `stop()`. -/
structure HostedEntry where
  mailboxItemId : ℕ
  tenantId : ℕ
  syncMode : SyncMode
  heartbeat : Heartbeat
  started : Option Bool
  stopping : Option Stopping
  stops : ℕ
deriving DecidableEq

/-- The lifecycle has been started and not stopped. -/
def HostedEntry.unstopped (entry : HostedEntry) : Bool := entry.stopping ≠ some .settled

def HostedEntry.stopRuns (entry : HostedEntry) : Bool :=
  entry.stopping.isSome && entry.unstopped

inductive PassPhase where
  | discovering
  | hosting (accounts : List Account)
  | stoppingExisting (account : Account) (existing : ℕ) (accounts : List Account)
  | starting (entry : ℕ) (accounts : List Account)
  | retiring (entries : List ℕ)
  | awaitingStop (entry : ℕ) (entries : List ℕ)
deriving DecidableEq

/-- Who awaits a pass: a `start()` with its generation, or nobody of this module. -/
inductive Origin where
  | start (generation : ℕ)
  | other
deriving DecidableEq

structure Pass where
  origin : Origin
  active : List Account
  failedTenants : List ℕ
  phase : PassPhase

inductive Stage where
  | waitPasses (passes : List ℕ)
  | waitStops (entries : List ℕ)
  | waitInFlight (entries : List ℕ)
deriving DecidableEq

/-- A call of `stopTenant`, or of `stop` when there is no tenant, with the calls of `start` before
it. -/
structure Call where
  tenantId : Option ℕ
  starts : ℕ
  stage : Stage

/-- `resuming` are the calls of `start` whose initial pass has ended.  `starts` counts the calls of
`start`, and `quiet` says that a `stop()` has resolved with no `start()` after it was called. -/
structure Sys where
  hosted : ℕ → Option ℕ
  entries : ℕ → Option HostedEntry
  nextEntry : ℕ
  passes : ℕ → Option Pass
  nextPass : ℕ
  inFlightDiscovery : Option ℕ
  timer : Bool
  generation : ℕ
  started : Bool
  resuming : List (ℕ × Bool)
  calls : ℕ → Option Call
  starts : ℕ
  quiet : Bool

def Sys.init : Sys :=
  ⟨fun _ => none, fun _ => none, 0, fun _ => none, 0, none, false, 0, false, [], fun _ => none, 0,
    false⟩

namespace Sys

variable (s : Sys)

def setEntry (e : ℕ) (entry : HostedEntry) : Sys :=
  { s with entries := Function.update s.entries e (some entry) }

def setPhase (p : ℕ) (pass : Pass) (phase : PassPhase) : Sys :=
  { s with passes := Function.update s.passes p (some { pass with phase }) }

def setCall (c : ℕ) (call : Option Call) : Sys :=
  { s with calls := Function.update s.calls c call }

/-- `[...hosted]`, in the order of their creation, of one tenant or of all. -/
def hostedEntries (tenantId : Option ℕ) : List ℕ :=
  (List.range s.nextEntry).filter fun e => (s.entries e).any fun entry =>
    s.hosted entry.mailboxItemId = some e && tenantId.all fun t => entry.tenantId = t

def stopsInFlight (tenantId : Option ℕ) : List ℕ :=
  (List.range s.nextEntry).filter fun e => (s.entries e).any fun entry =>
    entry.stopRuns && tenantId.all fun t => entry.tenantId = t

def stopHosted (e : ℕ) : Sys :=
  match s.entries e with
  | some entry =>
    if entry.stopping = none ∧ s.hosted entry.mailboxItemId = some e then
      { s with
        hosted := Function.update s.hosted entry.mailboxItemId none
        entries := Function.update s.entries e (some { entry with stopping := some .waiting }) }
    else s
  | none => s

def stopAll (es : List ℕ) : Sys := es.foldl stopHosted s

/-- The promise that `stopHosted` returned for the entry has resolved. -/
def stopResolved (e : ℕ) : Bool := (s.entries e).all fun entry => !entry.stopRuns

def runPass (origin : Origin) : Sys :=
  { s with
    passes := Function.update s.passes s.nextPass (some ⟨origin, [], [], .discovering⟩)
    nextPass := s.nextPass + 1 }

def endPass (p : ℕ) (pass : Pass) (ok : Bool) : Sys :=
  { s with
    passes := Function.update s.passes p none
    resuming := match pass.origin with
      | .start generation => (generation, ok) :: s.resuming
      | .other => s.resuming }

/-- Creates the lifecycle of an account, hosts it and calls its `start()`. -/
def host (p : ℕ) (pass : Pass) (account : Account) (accounts : List Account) : Sys :=
  { s with
    hosted := Function.update s.hosted account.mailboxItemId (some s.nextEntry)
    entries := Function.update s.entries s.nextEntry (some ⟨account.mailboxItemId,
      account.tenantId, account.syncMode, .absent, none, none, 0⟩)
    nextEntry := s.nextEntry + 1
    passes := Function.update s.passes p
      (some { pass with phase := .starting s.nextEntry accounts }) }

end Sys

inductive Act where
  | start
  /-- `start` goes on after its initial pass. -/
  | resumeStart
  | tick
  | reconcileOnce
  | stop (c : ℕ)
  | stopTenant (c tenantId : ℕ)
  /-- The call goes on when what it awaits has settled. -/
  | goOn (c : ℕ)
  | discover (p : ℕ) (active : List Account) (failedTenants : List ℕ)
  /-- The discovery, or the factory of an account, throws. -/
  | failPass (p : ℕ)
  /-- The next iteration of the pass's loop. -/
  | next (p : ℕ)
  /-- The existing entry of the account has stopped. -/
  | replace (p : ℕ)
  /-- The `start()` of the entry has settled. -/
  | afterStart (p : ℕ)
  /-- The retired entry has stopped. -/
  | afterStop (p : ℕ)
  | startSettles (e : ℕ) (ok : Bool)
  | callStop (e : ℕ)
  | stopSettles (e : ℕ)

def step (s : Sys) : Act → Option Sys
  | .start =>
    let s' := { s with starts := s.starts + 1, quiet := false }
    if s.started then some s'
    else some (Sys.runPass { s' with started := true } (.start s.generation))
  | .resumeStart =>
    match s.resuming with
    | (generation, ok) :: resuming =>
      if generation = s.generation then
        some { s with resuming, timer := s.timer || ok, started := ok }
      else some { s with resuming }
    | [] => none
  | .tick =>
    if s.timer then some { s.runPass .other with inFlightDiscovery := some s.nextPass } else none
  | .reconcileOnce => some (s.runPass .other)
  | .stop c =>
    if (s.calls c).isNone then
      some (Sys.setCall { s with generation := s.generation + 1, started := false, timer := false }
        c (some ⟨none, s.starts, .waitPasses s.inFlightDiscovery.toList⟩))
    else none
  | .stopTenant c tenantId =>
    if (s.calls c).isNone then
      some (s.setCall c (some ⟨some tenantId, s.starts,
        .waitPasses ((List.range s.nextPass).filter fun p => (s.passes p).isSome)⟩))
    else none
  | .goOn c =>
    match s.calls c with
    | some ⟨tenantId, starts, .waitPasses passes⟩ =>
      if passes.all fun p => (s.passes p).isNone then
        let es := s.hostedEntries tenantId
        some ((s.stopAll es).setCall c (some ⟨tenantId, starts, .waitStops es⟩))
      else none
    | some ⟨tenantId, starts, .waitStops es⟩ =>
      if es.all s.stopResolved then
        some (s.setCall c (some ⟨tenantId, starts, .waitInFlight (s.stopsInFlight tenantId)⟩))
      else none
    | some ⟨tenantId, starts, .waitInFlight es⟩ =>
      if es.all s.stopResolved then
        some { s.setCall c none with
          quiet := s.quiet || (tenantId.isNone && starts = s.starts) }
      else none
    | none => none
  | .discover p active failedTenants =>
    match s.passes p with
    | some ⟨origin, _, _, .discovering⟩ =>
      if (active.map Account.mailboxItemId).Nodup then
        some { s with
          passes := Function.update s.passes p
            (some ⟨origin, active, failedTenants, .hosting active⟩) }
      else none
    | _ => none
  | .failPass p =>
    match s.passes p with
    | some pass =>
      match pass.phase with
      | .discovering | .hosting (_ :: _) => some (s.endPass p pass false)
      | .stoppingExisting _ existing _ =>
        if s.stopResolved existing then some (s.endPass p pass false) else none
      | _ => none
    | none => none
  | .next p =>
    match s.passes p with
    | some pass =>
      match pass.phase with
      | .hosting (account :: accounts) =>
        match s.hosted account.mailboxItemId with
        | some existing =>
          match s.entries existing with
          | some entry =>
            if entry.syncMode = account.syncMode then some (s.setPhase p pass (.hosting accounts))
            else
              some ((s.stopHosted existing).setPhase p pass
                (.stoppingExisting account existing accounts))
          | none => none
        | none => some (s.host p pass account accounts)
      | .hosting [] => some (s.setPhase p pass (.retiring (s.hostedEntries none)))
      | .retiring (e :: es) =>
        match s.entries e with
        | some entry =>
          if entry.mailboxItemId ∈ pass.active.map Account.mailboxItemId ∨
              entry.tenantId ∈ pass.failedTenants then
            some (s.setPhase p pass (.retiring es))
          else some ((s.stopHosted e).setPhase p pass (.awaitingStop e es))
        | none => none
      | .retiring [] => some (s.endPass p pass true)
      | _ => none
    | none => none
  | .replace p =>
    match s.passes p with
    | some pass =>
      match pass.phase with
      | .stoppingExisting account existing accounts =>
        if s.stopResolved existing then some (s.host p pass account accounts) else none
      | _ => none
    | none => none
  | .afterStart p =>
    match s.passes p with
    | some pass =>
      match pass.phase with
      | .starting e accounts =>
        match s.entries e with
        | some entry =>
          match entry.started with
          | some ok =>
            some ((s.setEntry e (if ok && entry.stopping.isNone then
              { entry with heartbeat := .beating } else entry)).setPhase p pass
                (.hosting accounts))
          | none => none
        | none => none
      | _ => none
    | none => none
  | .afterStop p =>
    match s.passes p with
    | some pass =>
      match pass.phase with
      | .awaitingStop e es =>
        if s.stopResolved e then some (s.setPhase p pass (.retiring es)) else none
      | _ => none
    | none => none
  | .startSettles e ok =>
    match s.entries e with
    | some entry =>
      if entry.started = none then some (s.setEntry e { entry with started := some ok }) else none
    | none => none
  | .callStop e =>
    match s.entries e with
    | some entry =>
      if entry.stopping = some .waiting ∧ entry.started.isSome then
        some (s.setEntry e { entry with
          heartbeat := if entry.heartbeat = .beating then .stopped else entry.heartbeat
          stopping := some .calling
          stops := entry.stops + 1 })
      else none
    | none => none
  | .stopSettles e =>
    match s.entries e with
    | some entry =>
      if entry.stopping = some .calling then
        some (s.setEntry e { entry with stopping := some .settled })
      else none
    | none => none

/-! ## What is asked of the lifecycles -/

namespace Sys

variable (s : Sys)

/-- One lifecycle per mailbox, each stopped once, and none after `stop()`. -/
structure OneLifecycle : Prop where
  one : ∀ e e' entry entry', s.entries e = some entry → s.entries e' = some entry' →
    entry.mailboxItemId = entry'.mailboxItemId → entry.unstopped = true →
    entry'.unstopped = true → e = e'
  once : ∀ e entry, s.entries e = some entry → entry.stops ≤ 1 ∧
    (s.hosted entry.mailboxItemId ≠ some e → entry.stopping ≠ none ∧
      (entry.stopping = some .settled → entry.stops = 1))
  quiet : s.quiet = true → ∀ e entry, s.entries e = some entry →
    entry.unstopped = false ∧ entry.heartbeat ≠ .beating

/-- The call is a `stop()`, with no `start()` after it, that has gone on from the interval's
pass. -/
def Call.stops (call : Call) : Bool :=
  call.tenantId.isNone && call.starts = s.starts &&
    match call.stage with
    | .waitPasses _ => false
    | _ => true

/-- No lifecycle of the mailbox is hosted, no call is about to stop one, and no `stop()` has resolved
or gone on from waiting for the interval's pass since the last `start()`. -/
structure Free (mailboxItemId : ℕ) : Prop where
  hosted : s.hosted mailboxItemId = none
  stops : ∀ e entry, s.entries e = some entry → entry.mailboxItemId = mailboxItemId →
    entry.stopRuns = false
  running : s.quiet = false ∧ ∀ c call, s.calls c = some call → Call.stops s call = false

end Sys

def HostsFree (s : Sys) : Act → Prop
  | .next p => ∀ pass account accounts, s.passes p = some pass →
    pass.phase = .hosting (account :: accounts) → s.hosted account.mailboxItemId = none →
    s.Free account.mailboxItemId
  | .replace p => ∀ pass account existing accounts, s.passes p = some pass →
    pass.phase = .stoppingExisting account existing accounts → s.Free account.mailboxItemId
  | _ => True

end MailLiveSync

end Semprec
