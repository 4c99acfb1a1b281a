import Semprec.Lib.Runs
import Semprec.HeartbeatRules

/-!
# The heartbeat scheduler

One tenant's heartbeats, their occurrences and fire jobs: the writes to a heartbeat, the sweep,
and the attempts of the workers, each of their transactions one step.  The database clock only
moves forward; a step that reads the application clock takes its reading as an argument.  An
occurrence is named by its unique pair of heartbeat and due instant, and each generation of it has
a job key of its own, so enqueueing always adds a job.
-/

namespace Semprec

namespace Scheduler

inductive OccurrenceStatus where
  | queued
  | running
  | succeeded
  | failed
  | cancelled
deriving DecidableEq

/-- What a `last_error` column holds. -/
inductive LastError where
  | rule (e : RuleError)
  | thrown (message : String)
  | scheduleNotRestored (message : String) (e : RuleError)
deriving DecidableEq

structure HeartbeatRow where
  rule : AnyHeartbeatRule
  actionId : String
  enabled : Bool
  nextFireAt : Option ℤ
  lastFiredAt : Option ℤ
  lastError : Option LastError
deriving DecidableEq

structure OccurrenceId where
  heartbeatId : ℕ
  scheduledFor : ℤ
deriving DecidableEq

structure OccurrenceRow where
  ruleSnapshot : AnyHeartbeatRule
  status : OccurrenceStatus
  firstStartedAt : Option ℤ
  lastError : Option LastError
  generation : ℕ
deriving DecidableEq

def MAX_ATTEMPTS : ℕ := 3

structure JobRow where
  occurrenceId : OccurrenceId
  generation : ℕ
  attempts : ℕ
  locked : Bool
deriving DecidableEq

inductive Phase where
  | started
  /-- The preparation's outcome is `proceed`. -/
  | prepared
  /-- The action handler has been called. -/
  | handling
  | handled
  | handlerFailed (message : String)
  | setupFailed (message : String)
  | completing
  | failing
deriving DecidableEq

structure Attempt where
  jobId : ℕ
  occurrenceId : OccurrenceId
  generation : ℕ
  isFinalAttempt : Bool
  phase : Phase
deriving DecidableEq

structure Edit where
  id : ℕ
  read : HeartbeatRow
deriving DecidableEq

inductive TenantStatus where
  | provisioning
  | active
  | suspended
  | deleting
deriving DecidableEq

variable {L : Luxon}

structure Sys (L : Luxon) where
  heartbeats : ℕ → Option HeartbeatRow
  occurrences : OccurrenceId → Option OccurrenceRow
  jobs : ℕ → Option JobRow
  attempts : ℕ → Option Attempt
  edits : ℕ → Option Edit
  databases : List ℕ
  timezone : L.Timezone
  activeKinds : List String
  tenant : TenantStatus
  dbNow : ℤ
  heartbeatSeq : ℕ
  jobSeq : ℕ
  attemptSeq : ℕ

def Sys.init (databases : List ℕ) (timezone : L.Timezone) (dbNow : ℤ) : Sys L where
  heartbeats := fun _ => none
  occurrences := fun _ => none
  jobs := fun _ => none
  attempts := fun _ => none
  edits := fun _ => none
  databases := databases
  timezone := timezone
  activeKinds := []
  tenant := .active
  dbNow := dbNow
  heartbeatSeq := 0
  jobSeq := 0
  attemptSeq := 0

namespace Sys

def setHeartbeat (s : Sys L) (id : ℕ) (h : HeartbeatRow) : Sys L :=
  { s with heartbeats := Function.update s.heartbeats id (some h) }

def setOccurrence (s : Sys L) (id : OccurrenceId) (o : OccurrenceRow) : Sys L :=
  { s with occurrences := Function.update s.occurrences id (some o) }

def setAttempt (s : Sys L) (n : ℕ) (att : Attempt) : Sys L :=
  { s with attempts := Function.update s.attempts n (some att) }

def setPhase (s : Sys L) (n : ℕ) (att : Attempt) (phase : Phase) : Sys L :=
  s.setAttempt n { att with phase := phase }

def enqueueJob (s : Sys L) (id : OccurrenceId) (generation : ℕ) : Sys L :=
  { s with
    jobs := Function.update s.jobs s.jobSeq (some ⟨id, generation, 0, false⟩)
    jobSeq := s.jobSeq + 1 }

end Sys

section

variable (modules : HeartbeatRuleKindRegistry L)

def Sys.moduleRuleKinds (s : Sys L) : HeartbeatRuleKindRegistry L := fun kind =>
  if kind ∈ s.activeKinds then modules kind else none

def Sys.computeNextFireAt (s : Sys L) (rule : AnyHeartbeatRule) (after : ℤ) :
    Except RuleError (Option ℤ) :=
  Scheduler.computeNextFireAt rule s.timezone after (s.moduleRuleKinds modules)

inductive HeartbeatError where
  | rule (e : RuleError)
  | unknownDatabase
  | notFound
deriving DecidableEq

/-- The rule of a request, parsed and with its database checked, and the instant a heartbeat with
this `enabled` flag gets from the application clock. -/
def Sys.acceptRule (s : Sys L) (raw : AnyHeartbeatRule) (enabled : Bool) (appNow : ℤ) :
    Except HeartbeatError (AnyHeartbeatRule × Option ℤ) :=
  match parseHeartbeatRule raw (s.moduleRuleKinds modules) with
  | .error e => .error (.rule e)
  | .ok rule =>
    match rule with
    | .onItemEvent databaseId _ =>
      if databaseId ∈ s.databases then .ok (rule, none) else .error .unknownDatabase
    | _ =>
      if enabled then
        match s.computeNextFireAt modules rule appNow with
        | .error e => .error (.rule e)
        | .ok next => .ok (rule, next)
      else .ok (rule, none)

def createHeartbeat (s : Sys L) (raw : AnyHeartbeatRule) (actionId : String) (enabled : Bool)
    (appNow : ℤ) : Except HeartbeatError (Sys L) :=
  match s.acceptRule modules raw enabled appNow with
  | .error e => .error e
  | .ok (rule, next) =>
    .ok { s.setHeartbeat s.heartbeatSeq ⟨rule, actionId, enabled, next, none, none⟩ with
      heartbeatSeq := s.heartbeatSeq + 1 }

/-- The second statement of a rule edit, which takes no lock between the two. -/
def updateHeartbeatRule (s : Sys L) (edit : Edit) (raw : AnyHeartbeatRule) (appNow : ℤ) :
    Except HeartbeatError (Sys L) :=
  match s.acceptRule modules raw edit.read.enabled appNow with
  | .error e => .error e
  | .ok (rule, next) =>
    match s.heartbeats edit.id with
    | none => .error .notFound
    | some h => .ok (s.setHeartbeat edit.id { h with rule := rule, nextFireAt := next })

def enableHeartbeat (s : Sys L) (edit : Edit) (appNow : ℤ) : Except HeartbeatError (Sys L) :=
  match parseHeartbeatRule edit.read.rule (s.moduleRuleKinds modules) with
  | .error e => .error (.rule e)
  | .ok rule =>
    match s.heartbeats edit.id with
    | none => .error .notFound
    | some h =>
      if rule.isOnItemEvent then
        .ok (s.setHeartbeat edit.id { h with enabled := true, nextFireAt := none })
      else match s.computeNextFireAt modules rule appNow with
        | .error e => .error (.rule e)
        | .ok next => .ok (s.setHeartbeat edit.id { h with enabled := true, nextFireAt := next })

def disableHeartbeat (s : Sys L) (id : ℕ) : Except HeartbeatError (Sys L) :=
  match s.heartbeats id with
  | none => .error .notFound
  | some h => .ok (s.setHeartbeat id { h with enabled := false, nextFireAt := none })

/-- One row of `recomputeAllForTimezoneChange`. -/
def Sys.recomputeRow (s : Sys L) (newTimezone : L.Timezone) (appNow : ℤ) (h : HeartbeatRow) :
    HeartbeatRow :=
  if h.enabled ∧ h.nextFireAt ≠ none then
    match parseHeartbeatRule h.rule (s.moduleRuleKinds modules) with
    | .error e => { h with lastError := some (.rule e) }
    | .ok rule =>
      match Scheduler.computeNextFireAt rule newTimezone appNow (s.moduleRuleKinds modules) with
      | .error e => { h with lastError := some (.rule e) }
      | .ok next => { h with nextFireAt := next }
  else h

/-- Each row reads the application clock for itself. -/
def recomputeAllForTimezoneChange (s : Sys L) (newTimezone : L.Timezone) (appNow : ℕ → ℤ) :
    Sys L :=
  { s with
    heartbeats := fun id => (s.heartbeats id).map (s.recomputeRow modules newTimezone (appNow id))
    timezone := newTimezone }

/-- The timezone branch of `updateItemWithClient`, which passes no module's rule kinds. -/
def updateTimezone (s : Sys L) (newTimezone : L.Timezone) (appNow : ℕ → ℤ) : Sys L :=
  recomputeAllForTimezoneChange (fun _ => none) s newTimezone appNow

/-- The row a sweep leaves for an occurrence due now, with the generation to fire; `none` when the
conflicting row can not be reactivated. -/
def insertHeartbeatOccurrence (existing : Option OccurrenceRow) (ruleSnapshot : AnyHeartbeatRule) :
    Option OccurrenceRow :=
  match existing with
  | none => some ⟨ruleSnapshot, .queued, none, none, 1⟩
  | some o =>
    if o.status = .cancelled then
      some ⟨ruleSnapshot, .queued, none, none, o.generation + 1⟩
    else if o.status = .queued ∧ o.ruleSnapshot ≠ ruleSnapshot then
      some ⟨ruleSnapshot, .queued, o.firstStartedAt, none, o.generation + 1⟩
    else none

/-- One row of a chunk of `sweepDueHeartbeats`. -/
def sweepRow (s : Sys L) (id : ℕ) : Sys L :=
  match s.heartbeats id with
  | none => s
  | some h =>
    match h.nextFireAt with
    | none => s
    | some due =>
      if h.enabled ∧ due ≤ s.dbNow then
        match parseHeartbeatRule h.rule (s.moduleRuleKinds modules) with
        | .error e => s.setHeartbeat id { h with lastError := some (.rule e) }
        | .ok rule =>
          match s.computeNextFireAt modules rule s.dbNow with
          | .error e => s.setHeartbeat id { h with lastError := some (.rule e) }
          | .ok calendarNextFireAt =>
            match insertHeartbeatOccurrence (s.occurrences ⟨id, due⟩) rule with
            | none => s
            | some o =>
              ((s.setOccurrence ⟨id, due⟩ o).setHeartbeat id
                { h with nextFireAt := if rule.isFloating then none else calendarNextFireAt }
                ).enqueueJob ⟨id, due⟩ o.generation
      else s

def sweepDueHeartbeats (s : Sys L) (ids : List ℕ) : Sys L := ids.foldl (sweepRow modules) s

/-- `prepareHeartbeatOccurrenceFire`: the state it commits and whether the outcome is `proceed`;
`none` when computing the next instant throws. -/
def prepareHeartbeatOccurrenceFire (s : Sys L) (id : OccurrenceId) (generation : ℕ) (appNow : ℤ) :
    Option (Sys L × Bool) :=
  match s.heartbeats id.heartbeatId, s.occurrences id with
  | some h, some o =>
    if o.generation ≠ generation then some (s, false)
    else if ¬ h.enabled ∨ h.rule ≠ o.ruleSnapshot then
      some (s.setOccurrence id { o with status := .cancelled }, false)
    else match parseHeartbeatRule h.rule (s.moduleRuleKinds modules) with
      | .error e =>
        some ((s.setHeartbeat id.heartbeatId { h with lastError := some (.rule e) }).setOccurrence
          id { o with status := .failed, lastError := some (.rule e) }, false)
      | .ok rule =>
        if o.firstStartedAt = none then
          let started := s.setOccurrence id
            { o with firstStartedAt := some appNow, status := .running }
          if rule.isFloating then
            match s.computeNextFireAt modules rule appNow with
            | .error _ => none
            | .ok next => some (started.setHeartbeat id.heartbeatId
                { h with lastFiredAt := some appNow, nextFireAt := next }, true)
          else some (started.setHeartbeat id.heartbeatId { h with lastFiredAt := some appNow },
            true)
        else some (s, true)
  | _, _ => some (s, false)

/-- `recordHeartbeatSuccess` and `succeedHeartbeatOccurrence`. -/
def succeedOccurrence (s : Sys L) (id : OccurrenceId) : Sys L :=
  { s with
    heartbeats := Function.update s.heartbeats id.heartbeatId
      ((s.heartbeats id.heartbeatId).map fun h => { h with lastError := none })
    occurrences := Function.update s.occurrences id
      ((s.occurrences id).map fun o => { o with status := .succeeded, lastError := none }) }

/-- `recordHeartbeatFailure` and `failHeartbeatOccurrence`. -/
def failOccurrence (s : Sys L) (id : OccurrenceId) (message : String) : Sys L :=
  { s with
    heartbeats := Function.update s.heartbeats id.heartbeatId
      ((s.heartbeats id.heartbeatId).map fun h =>
        { h with lastError := some (.thrown message) })
    occurrences := Function.update s.occurrences id
      ((s.occurrences id).map fun o =>
        { o with status := .failed, lastError := some (.thrown message) }) }

/-- The heartbeat row `recordHeartbeatFireSetupFailure` leaves. -/
def Sys.restoreSchedule (s : Sys L) (h : HeartbeatRow) (message : String) : HeartbeatRow :=
  if h.enabled ∧ h.nextFireAt = none then
    match parseHeartbeatRule h.rule (s.moduleRuleKinds modules) with
    | .error e => { h with lastError := some (.scheduleNotRestored message e) }
    | .ok rule =>
      match s.computeNextFireAt modules rule s.dbNow with
      | .error e => { h with lastError := some (.scheduleNotRestored message e) }
      | .ok next => { h with nextFireAt := next, lastError := some (.thrown message) }
  else { h with lastError := some (.thrown message) }

def OccurrenceRow.closeOut (message : String) (o : OccurrenceRow) : OccurrenceRow :=
  if o.status = .queued ∨ o.status = .running then
    { o with status := .failed, lastError := some (.thrown message) }
  else o

def recordHeartbeatFireSetupFailure (s : Sys L) (id : OccurrenceId) (message : String) : Sys L :=
  match s.heartbeats id.heartbeatId with
  | none => s
  | some h =>
    { s.setHeartbeat id.heartbeatId (s.restoreSchedule modules h message) with
      occurrences := Function.update s.occurrences id
        ((s.occurrences id).map (.closeOut message)) }

def TenantStatus.skipsTasks : TenantStatus → Bool
  | .suspended | .deleting => true
  | _ => false

inductive Act (L : Luxon) where
  | createHeartbeat (raw : AnyHeartbeatRule) (actionId : String) (enabled : Bool) (appNow : ℤ)
  | readHeartbeat (e id : ℕ)
  | updateHeartbeatRule (e : ℕ) (raw : AnyHeartbeatRule) (appNow : ℤ)
  | enableHeartbeat (e : ℕ) (appNow : ℤ)
  | disableHeartbeat (id : ℕ)
  | changeTimezone (newTimezone : L.Timezone) (appNow : ℕ → ℤ)
  | setModules (activeKinds : List String)
  | setTenant (status : TenantStatus)
  | tick (dbNow : ℤ)
  | sweep (ids : List ℕ)
  /-- A worker takes job `j`; its attempt is completed at once for an inactive tenant. -/
  | dispatch (j : ℕ)
  | prepare (n : ℕ) (appNow : ℤ)
  /-- The preparation's transaction fails. -/
  | prepareThrows (n : ℕ) (message : String)
  /-- The affinity check and the handler lookup pass, and the handler is called. -/
  | lookup (n : ℕ)
  | lookupThrows (n : ℕ) (message : String)
  | handlerReturns (n : ℕ)
  | handlerThrows (n : ℕ) (message : String)
  | succeed (n : ℕ)
  /-- The success transaction fails. -/
  | succeedThrows (n : ℕ) (message : String)
  /-- A failed attempt's close-out, which writes on the final attempt only. -/
  | closeOut (n : ℕ)
  /-- The close-out's transaction fails. -/
  | closeOutThrows (n : ℕ)
  /-- The queue takes the job back: deleted when completed, for a retry when failed. -/
  | release (n : ℕ)
  /-- The worker dies. -/
  | crash (n : ℕ)
  /-- A job's lock is stale. -/
  | unlock (j : ℕ)

def Sys.dropAttempt (s : Sys L) (n : ℕ) : Sys L :=
  { s with attempts := Function.update s.attempts n none }

def Phase.failed : Phase → Bool
  | .handlerFailed _ | .setupFailed _ => true
  | _ => false

def step (s : Sys L) : Act L → Option (Sys L)
  | .createHeartbeat raw actionId enabled appNow =>
    (Scheduler.createHeartbeat modules s raw actionId enabled appNow).toOption
  | .readHeartbeat e id =>
    (s.heartbeats id).map fun h =>
      { s with edits := Function.update s.edits e (some ⟨id, h⟩) }
  | .updateHeartbeatRule e raw appNow =>
    (s.edits e).bind fun edit =>
      (Scheduler.updateHeartbeatRule modules s edit raw appNow).toOption
  | .enableHeartbeat e appNow =>
    (s.edits e).bind fun edit => (Scheduler.enableHeartbeat modules s edit appNow).toOption
  | .disableHeartbeat id => (Scheduler.disableHeartbeat s id).toOption
  | .changeTimezone newTimezone appNow =>
    some (updateTimezone s newTimezone appNow)
  | .setModules activeKinds => some { s with activeKinds := activeKinds }
  | .setTenant status => some { s with tenant := status }
  | .tick dbNow => if s.dbNow ≤ dbNow then some { s with dbNow := dbNow } else none
  | .sweep ids => if s.tenant = .active then some (sweepDueHeartbeats modules s ids) else none
  | .dispatch j =>
    match s.jobs j with
    | some job =>
      if job.locked ∨ MAX_ATTEMPTS ≤ job.attempts then none
      else some { s with
        jobs := Function.update s.jobs j
          (some { job with attempts := job.attempts + 1, locked := true })
        attempts := Function.update s.attempts s.attemptSeq
          (some ⟨j, job.occurrenceId, job.generation, decide (MAX_ATTEMPTS ≤ job.attempts + 1),
            if s.tenant.skipsTasks then .completing else .started⟩)
        attemptSeq := s.attemptSeq + 1 }
    | none => none
  | .prepare n appNow =>
    match s.attempts n with
    | some att =>
      if att.phase = .started then
        (prepareHeartbeatOccurrenceFire modules s att.occurrenceId att.generation appNow).map
          fun (s', proceed) => s'.setPhase n att (if proceed then .prepared else .completing)
      else none
    | none => none
  | .prepareThrows n message =>
    match s.attempts n with
    | some att =>
      if att.phase = .started then some (s.setPhase n att (.setupFailed message)) else none
    | none => none
  | .lookup n =>
    match s.attempts n with
    | some att => if att.phase = .prepared then some (s.setPhase n att .handling) else none
    | none => none
  | .lookupThrows n message =>
    match s.attempts n with
    | some att =>
      if att.phase = .prepared then some (s.setPhase n att (.setupFailed message)) else none
    | none => none
  | .handlerReturns n =>
    match s.attempts n with
    | some att => if att.phase = .handling then some (s.setPhase n att .handled) else none
    | none => none
  | .handlerThrows n message =>
    match s.attempts n with
    | some att =>
      if att.phase = .handling then some (s.setPhase n att (.handlerFailed message)) else none
    | none => none
  | .succeed n =>
    match s.attempts n with
    | some att =>
      if att.phase = .handled then
        some ((succeedOccurrence s att.occurrenceId).setPhase n att .completing)
      else none
    | none => none
  | .succeedThrows n message =>
    match s.attempts n with
    | some att =>
      if att.phase = .handled then some (s.setPhase n att (.handlerFailed message)) else none
    | none => none
  | .closeOut n =>
    match s.attempts n with
    | some att =>
      match att.phase with
      | .handlerFailed message =>
        if att.isFinalAttempt then
          some ((failOccurrence s att.occurrenceId message).setPhase n att .failing)
        else some (s.setPhase n att .failing)
      | .setupFailed message =>
        if att.isFinalAttempt then
          some ((recordHeartbeatFireSetupFailure modules s att.occurrenceId message).setPhase n
            att .failing)
        else some (s.setPhase n att .failing)
      | _ => none
    | none => none
  | .closeOutThrows n =>
    match s.attempts n with
    | some att =>
      if att.phase.failed then some (s.setPhase n att .failing) else none
    | none => none
  | .release n =>
    match s.attempts n with
    | some att =>
      if att.phase = .completing then
        some { s.dropAttempt n with jobs := Function.update s.jobs att.jobId none }
      else if att.phase = .failing then
        some { s.dropAttempt n with
          jobs := Function.update s.jobs att.jobId
            ((s.jobs att.jobId).map fun job => { job with locked := false }) }
      else none
    | none => none
  | .crash n => (s.attempts n).map fun _ => s.dropAttempt n
  | .unlock j =>
    (s.jobs j).map fun job =>
      { s with jobs := Function.update s.jobs j (some { job with locked := false }) }

end

end Scheduler

end Semprec
