import Mathlib.Data.Rat.Floor
import Semprec.ImapConnectionLimiter

/-!
# The folders of an account under IDLE

Each folder has a loop of its own, and each round of it takes a slot of the account in the limiter
that the reconcile passes use too.  A round keeps its slot until its connection ends, is recycled, or
is told to stop.
-/

namespace Semprec

namespace ImapIdle

open ImapConnectionLimiter (Account)

def PROVIDER_IMAP_CONNECTION_LIMITS : List (String × ℕ) :=
  [("gmail", 5), ("icloud", 3), ("outlook", 3)]

def DEFAULT_IMAP_CONNECTION_LIMIT : ℕ := 2

/-- `configuredLimit` is `none` when the mailbox has no finite number for it.  No provider has the
name of a member that every object inherits (`constructor` and the like). -/
def imapConnectionLimitForProvider (provider : Option String) (configuredLimit : Option ℚ) : ℕ :=
  match configuredLimit.filter fun limit => 1 ≤ limit with
  | some limit => ⌊limit⌋₊
  | none =>
    (provider.bind fun name => PROVIDER_IMAP_CONNECTION_LIMITS.lookup name).getD
      DEFAULT_IMAP_CONNECTION_LIMIT

inductive Outcome where
  | stop
  | recycled
  | ended (err : Bool)
deriving DecidableEq

inductive Phase where
  /-- It awaits `getConnectionLimit`. -/
  | lookup
  | waiting (task : ℕ)
  | connecting (task : ℕ)
  | idling (task : ℕ)
  | closing (task : ℕ) (outcome : Outcome)
  | backoff
  | returned
  /-- The loop's promise is rejected. -/
  | dead
deriving DecidableEq

def Phase.task : Phase → Option ℕ
  | waiting task | connecting task | idling task | closing task _ => some task
  | _ => none

def Phase.over (phase : Phase) : Bool := phase = .returned || phase = .dead

/-- One account: its queue in the limiter, and its lifecycle. -/
structure Sys where
  account : Account
  starting : Bool
  stopped : Bool
  loops : List Phase

def Sys.init : Sys := ⟨.init, false, false, []⟩

inductive Act where
  /-- A reconcile pass, or another caller of the limiter. -/
  | other (act : ImapConnectionLimiter.Act)
  | start
  /-- `start()` has its folders, and begins a loop for each of them. -/
  | resolveFolders (folders : ℕ)
  | stop
  | limitFound (i limit : ℕ)
  | limitFails (i : ℕ)
  | resume (i : ℕ)
  | waitTimeout (i : ℕ)
  | connected (i : ℕ)
  | connectFails (i : ℕ)
  | roundEnds (i : ℕ) (outcome : Outcome)
  | closed (i : ℕ)
  | slept (i : ℕ)
  | stopSeen (i : ℕ)
deriving DecidableEq

namespace Sys

def again (s : Sys) : Phase := if s.stopped then .returned else .lookup

/-- The `catch` of a round. -/
def failed (s : Sys) : Phase := if s.stopped then .returned else .backoff

def afterRound (s : Sys) : Outcome → Phase
  | .stop => .returned
  | .recycled => s.again
  | .ended err => if err then .backoff else s.again

def setLoop (s : Sys) (i : ℕ) (phase : Phase) : Sys := { s with loops := s.loops.set i phase }

def setAccount (s : Sys) (account : Account) : Sys := { s with account := account }

end Sys

def taskOf : ImapConnectionLimiter.Act → Option ℕ
  | .resume task | .finish task _ | .timeout task => some task
  | _ => none

def step (s : Sys) : Act → Option Sys
  | .other act =>
    if ∀ task ∈ taskOf act, some task ∉ s.loops.map Phase.task then
      (s.account.step act).map s.setAccount
    else none
  | .start =>
    if s.starting = false ∧ s.loops.all Phase.over then
      some { s with starting := true, stopped := false, loops := [] }
    else none
  | .resolveFolders folders =>
    if s.starting then some { s with starting := false, loops := List.replicate folders s.again }
    else none
  | .stop => some { s with stopped := true }
  | .limitFound i limit =>
    if s.loops[i]? = some .lookup then
      let task := s.account.nextTask
      let account := s.account.run limit
      some ((s.setAccount account).setLoop i
        (if task ∈ account.started then .connecting task else .waiting task))
    else none
  | .limitFails i => if s.loops[i]? = some .lookup then some (s.setLoop i .dead) else none
  | .resume i =>
    match s.loops[i]? with
    | some (.waiting task) =>
      (s.account.step (.resume task)).map fun a => (s.setAccount a).setLoop i (.connecting task)
    | _ => none
  | .waitTimeout i =>
    match s.loops[i]? with
    | some (.waiting task) =>
      (s.account.step (.timeout task)).map fun a => (s.setAccount a).setLoop i s.failed
    | _ => none
  | .connected i =>
    match s.loops[i]? with
    | some (.connecting task) => some (s.setLoop i (.idling task))
    | _ => none
  | .connectFails i =>
    match s.loops[i]? with
    | some (.connecting task) =>
      (s.account.step (.finish task true)).map fun a => (s.setAccount a).setLoop i s.failed
    | _ => none
  | .roundEnds i outcome =>
    match s.loops[i]? with
    | some (.idling task) =>
      if outcome = .stop ∧ s.stopped = false then none else some (s.setLoop i (.closing task outcome))
    | _ => none
  | .closed i =>
    match s.loops[i]? with
    | some (.closing task outcome) =>
      (s.account.step (.finish task false)).map fun a =>
        (s.setAccount a).setLoop i (s.afterRound outcome)
    | _ => none
  | .slept i => if s.loops[i]? = some .backoff then some (s.setLoop i s.again) else none
  | .stopSeen i =>
    if s.loops[i]? = some .backoff ∧ s.stopped then some (s.setLoop i .returned) else none

/-! ## What the loops are to leave -/

def Sys.idleSlots (s : Sys) : List ℕ :=
  (s.loops.filterMap Phase.task).filter fun task => task ∈ s.account.held

def LeavesSlot (s : Sys) : Prop := ∀ queue ∈ s.account.queue, s.idleSlots.length < queue.limit

structure Alive (s : Sys) : Prop where
  alive : s.stopped = false → ∀ phase ∈ s.loops, phase.over = false
  retries : s.stopped = false → ∀ i, s.loops[i]? = some .backoff →
    ∃ s', step s (.slept i) = some s' ∧ s'.loops[i]? = some .lookup

def Roomy (s : Sys) : Act → Prop
  | .other (.run limit) | .other (.setLimit limit) | .limitFound _ limit => s.loops.length < limit
  | .resolveFolders folders => ∀ queue ∈ s.account.queue, folders < queue.limit
  | _ => True

def Answered (_ : Sys) : Act → Prop
  | .limitFails _ => False
  | _ => True

instance (s : Sys) (act : Act) : Decidable (Answered s act) := by
  unfold Answered
  split <;> infer_instance

instance (s : Sys) (act : Act) : Decidable (Roomy s act) := by
  unfold Roomy
  split <;> infer_instance

end ImapIdle

end Semprec
