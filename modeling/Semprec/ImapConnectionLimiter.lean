import Mathlib.Data.Nat.Notation
import Mathlib.Logic.Function.Basic
import Semprec.Lib.Runs

/-!
# The slots for the IMAP connections of an account

A `run` takes a slot of its account or waits for one.  The task that finishes hands its slot over at
once, and the one that was woken goes on when its promise's turn comes; in between, timers fire and
other calls set the limit.
-/

namespace Semprec

namespace ImapConnectionLimiter

/-- The tasks of an account are numbered by their calls of `run`. -/
structure AccountQueue where
  limit : ℕ
  active : ℕ
  waiters : List ℕ
deriving DecidableEq

/-- A slot that a task got, with the queue's counts just before. -/
structure Grant where
  task : ℕ
  active : ℕ
  limit : ℕ
deriving DecidableEq

structure Account where
  queue : Option AccountQueue
  nextTask : ℕ
  granted : List Grant
  /-- The tasks that could not start at once. -/
  waited : List ℕ
  timedOut : List ℕ
  /-- The waiters whose promise is resolved and whose `run` has not gone on. -/
  resolved : List ℕ
  started : List ℕ
  finished : List ℕ
deriving DecidableEq

def Account.init : Account := ⟨none, 0, [], [], [], [], [], []⟩

/-- The loop of `wakeWaiters`: the waiters that are left, and the slots that the others got. -/
def wake (limit : ℕ) : (active : ℕ) → (waiters : List ℕ) → AccountQueue × List Grant
  | active, [] => (⟨limit, active, []⟩, [])
  | active, waiter :: waiters =>
    if active < limit then
      let (queue, grants) := wake limit (active + 1) waiters
      (queue, ⟨waiter, active, limit⟩ :: grants)
    else (⟨limit, active, waiter :: waiters⟩, [])

namespace Account

def wakeWaiters (a : Account) (queue : AccountQueue) : Account :=
  let (queue, grants) := wake queue.limit queue.active queue.waiters
  { a with
    queue := some queue
    granted := a.granted ++ grants
    resolved := a.resolved ++ grants.map Grant.task }

def setLimit (a : Account) (queue : AccountQueue) (limit : ℕ) : Account :=
  a.wakeWaiters { queue with limit := limit }

/-- `AccountQueue.run` up to its first await: the task starts, or it waits for a slot. -/
def begin (a : Account) (queue : AccountQueue) : Account :=
  if queue.active < queue.limit then
    { a with
      queue := some { queue with active := queue.active + 1 }
      nextTask := a.nextTask + 1
      granted := a.granted ++ [⟨a.nextTask, queue.active, queue.limit⟩]
      started := a.started ++ [a.nextTask] }
  else
    { a with
      queue := some { queue with waiters := queue.waiters ++ [a.nextTask] }
      nextTask := a.nextTask + 1
      waited := a.waited ++ [a.nextTask] }

def run (a : Account) (limit : ℕ) : Account :=
  match a.queue with
  | none => a.begin ⟨limit, 0, []⟩
  | some queue =>
    let a' := a.setLimit queue limit
    a'.begin (a'.queue.getD queue)

/-- The `finally` of `run`. -/
def release (a : Account) (queue : AccountQueue) (task : ℕ) : Account :=
  { a with finished := a.finished ++ [task] }.wakeWaiters { queue with active := queue.active - 1 }

def timeout (a : Account) (queue : AccountQueue) (task : ℕ) : Account :=
  { a with
    queue := some { queue with waiters := queue.waiters.erase task }
    timedOut := a.timedOut ++ [task] }

end Account

inductive Act where
  | run (limit : ℕ)
  /-- The queue's own `setLimit`, as `run` calls it. -/
  | setLimit (limit : ℕ)
  | resume (task : ℕ)
  | finish (task : ℕ) (failed : Bool)
  | timeout (task : ℕ)
deriving DecidableEq

/-- One account.  A timer is cleared with the promise it would reject. -/
def Account.step (a : Account) : Act → Option Account
  | .run limit => some (a.run limit)
  | .setLimit limit => a.queue.map fun queue => a.setLimit queue limit
  | .resume task =>
    if task ∈ a.resolved then
      some { a with resolved := a.resolved.erase task, started := a.started ++ [task] }
    else none
  | .finish task _ =>
    if task ∈ a.started ∧ task ∉ a.finished then a.queue.map fun queue => a.release queue task
    else none
  | .timeout task =>
    a.queue.bind fun queue =>
      if task ∈ queue.waiters then some (a.timeout queue task) else none

/-- The limiter's map of queues. -/
abbrev Sys := String → Account

def Sys.init : Sys := fun _ => .init

def step (s : Sys) (act : String × Act) : Option Sys :=
  ((s act.1).step act.2).map fun a => Function.update s act.1 a

/-! ## What an account's books say -/

def Account.held (a : Account) : List ℕ :=
  (a.granted.map Grant.task).filter fun task => task ∉ a.finished

def Account.handed (a : Account) : List ℕ :=
  a.waited.filter fun task => task ∈ a.granted.map Grant.task

structure Account.Exact (a : Account) : Prop where
  /-- The count is that of the tasks that hold a slot, each of which holds one. -/
  active : a.held.length = (a.queue.map AccountQueue.active).getD 0
  once : (a.granted.map Grant.task).Nodup
  under : ∀ grant ∈ a.granted, grant.active < grant.limit
  /-- Each waiter has one fate. -/
  waited : a.waited.Nodup
  fate : (a.handed ++ a.timedOut ++ (a.queue.map AccountQueue.waiters).getD []).Perm a.waited
  used : ∀ task ∈ a.handed, task ∈ a.started ∨ (a.step (.resume task)).isSome = true
  full : ∀ queue ∈ a.queue, queue.waiters ≠ [] → queue.limit ≤ queue.active

end ImapConnectionLimiter

end Semprec
