import Semprec.RunStatusEvents

/-!
# Terminal events and rows

A heartbeat's run is alone in having a terminal event while its row is running, and what may close
the row then does it with the status of the event.
-/

namespace Semprec

namespace RunStatusEvents

open AgentRuns (AgentRunStatus)

variable {run run' : Run} {path : ℕ → RunPath} {s s' : Sys}

namespace Run

@[simp] theorem terminalEvents_push {status : AgentRunStatus} (h : status ≠ .running) :
    (run.pushRunStatus status).terminalEvents = run.terminalEvents ++ [status] := by
  simp [terminalEvents, pushRunStatus, h]

@[simp] theorem terminalEvents_push_running :
    (run.pushRunStatus .running).terminalEvents = run.terminalEvents := by
  simp [terminalEvents, pushRunStatus]

end Run

inductive Logged (run : Run) : Prop where
  /-- The row may have been closed, as `error` and without an event. -/
  | silent (hevents : run.terminalEvents = []) (hstatus : run.status ≠ .done)
      (haction : run.action ≠ some .finishDone)
  | announced (hevents : run.terminalEvents = [.done]) (hstatus : run.status = .running)
      (haction : run.action = some .finishDone)
  | failing (hevents : run.terminalEvents = [.error]) (hstatus : run.status = .running)
      (hpath : run.path = .heartbeat) (haction : run.action ∈ [none, some .finishError])
  | closed (hevents : run.terminalEvents = [run.status]) (hstatus : run.status ≠ .running)
      (haction : run.action ∈ [none, some .finishError])

structure Ok (run : Run) : Prop where
  jobs : run.path ≠ .queued → run.jobs = []
  action : run.path ≠ .heartbeat → run.action = none
  logged : Logged run

theorem Logged.agrees (h : Logged run) : run.terminalEvents.length ≤ 1 ∧
    ∀ e ∈ run.terminalEvents, run.status = .running ∨ run.status = e := by
  rcases h with ⟨hevents, -, -⟩ | ⟨hevents, hstatus, -⟩ | ⟨hevents, hstatus, -, -⟩ |
    ⟨hevents, -, -⟩
  all_goals simp_all

namespace Logged

theorem of_eq (h : Logged run) (hevents : run'.events = run.events)
    (hstatus : run'.status = run.status) (hpath : run'.path = run.path)
    (haction : run'.action = run.action) : Logged run' := by
  have hterminal : run'.terminalEvents = run.terminalEvents := by
    simp [Run.terminalEvents, hevents]
  rcases h with ⟨h₁, h₂, h₃⟩ | ⟨h₁, h₂, h₃⟩ | ⟨h₁, h₂, h₃, h₄⟩ | ⟨h₁, h₂, h₃⟩
  · exact .silent (hterminal ▸ h₁) (hstatus ▸ h₂) (haction ▸ h₃)
  · exact .announced (hterminal ▸ h₁) (hstatus ▸ h₂) (haction ▸ h₃)
  · exact .failing (hterminal ▸ h₁) (hstatus ▸ h₂) (hpath ▸ h₃) (haction ▸ h₄)
  · exact .closed (by rw [hterminal, hstatus, h₁]) (hstatus ▸ h₂) (haction ▸ h₃)

/-- Until its terminal event a run's attempt may go on in any way but to close it as `done`. -/
theorem setAction (h : Logged run) {phase : HeartbeatPhase} (haction : run.action = some phase)
    (hlate : phase ≠ .finishDone ∧ phase ≠ .finishError) {action : Option HeartbeatPhase}
    (hnext : action ≠ some .finishDone) : Logged (run.setAction action) := by
  rcases h with ⟨hevents, hstatus, -⟩ | ⟨-, -, h⟩ | ⟨-, -, -, h⟩ | ⟨-, -, h⟩
  · exact .silent hevents hstatus hnext
  all_goals simp_all

theorem pushRunning (h : Logged run) : Logged (run.pushRunStatus .running) := by
  have hterminal : (run.pushRunStatus .running).terminalEvents = run.terminalEvents :=
    Run.terminalEvents_push_running
  rcases h with ⟨h₁, h₂, h₃⟩ | ⟨h₁, h₂, h₃⟩ | ⟨h₁, h₂, h₃, h₄⟩ | ⟨h₁, h₂, h₃⟩
  · exact .silent (hterminal.trans h₁) h₂ h₃
  · exact .announced (hterminal.trans h₁) h₂ h₃
  · exact .failing (hterminal.trans h₁) h₂ h₃ h₄
  · exact .closed (hterminal.trans h₁) h₂ h₃

/-- The repair, and the close of an attempt that failed. -/
theorem finishError (h : Logged run) (haction : run.action ≠ some .finishDone) :
    Logged (run.finishAgentRun .error) := by
  unfold Run.finishAgentRun
  split_ifs with hrunning
  · rcases h with ⟨hevents, -, -⟩ | ⟨-, -, h⟩ | ⟨hevents, -, -, h⟩ | ⟨-, hstatus, -⟩
    · exact .silent hevents nofun haction
    · exact absurd h haction
    · exact .closed hevents nofun h
    · exact absurd hrunning hstatus
  · exact h

theorem closeAtomically (h : Logged run) (hpath : run.path ≠ .heartbeat)
    (haction : run.action = none) (status : AgentRunStatus) (hterminal : status ≠ .running) :
    Logged (run.closeAtomically status) := by
  unfold Run.closeAtomically Run.finishAgentRun
  split_ifs with hrunning
  · rcases h with ⟨hevents, -, -⟩ | ⟨-, -, h⟩ | ⟨-, -, h, -⟩ | ⟨-, hstatus, -⟩
    · refine .closed ?_ hterminal (by simp [Run.pushRunStatus, haction])
      rw [Run.terminalEvents_push hterminal]
      simpa [Run.terminalEvents, Run.pushRunStatus] using hevents
    · simp [haction] at h
    · exact absurd h hpath
    · exact absurd hrunning hstatus
  · exact h

theorem pushDone (h : Logged run) (haction : run.action = some .pushDone)
    (herror : run.status ≠ .error) :
    Logged ((run.pushRunStatus .done).setAction (some .finishDone)) := by
  rcases h with ⟨hevents, hstatus, -⟩ | ⟨-, -, h⟩ | ⟨-, -, -, h⟩ | ⟨-, -, h⟩
  · refine .announced ?_ ?_ rfl
    · simpa [Run.terminalEvents, Run.pushRunStatus, Run.setAction] using hevents
    · rcases hs : run.status
      · exact hs
      · exact absurd hs hstatus
      · exact absurd hs herror
  all_goals simp [haction] at h

theorem pushError (h : Logged run) (hpath : run.path = .heartbeat)
    (haction : run.action = some .pushError) :
    Logged ((run.pushRunStatus .error).setAction (some .finishError)) := by
  rcases h with ⟨hevents, hstatus, -⟩ | ⟨-, -, h⟩ | ⟨-, -, -, h⟩ | ⟨-, -, h⟩
  · have hpushed : ((run.pushRunStatus .error).setAction (some .finishError)).terminalEvents =
        [.error] := by
      simpa [Run.terminalEvents, Run.pushRunStatus, Run.setAction] using hevents
    rcases hs : run.status
    · exact .failing hpushed hs hpath (by simp [Run.setAction])
    · exact absurd hs hstatus
    · -- the repair has closed the row already
      refine .closed ?_ ?_ (by simp [Run.setAction])
      · rw [hpushed]
        simp [Run.setAction, Run.pushRunStatus, hs]
      · simp [Run.setAction, Run.pushRunStatus, hs]
  all_goals simp [haction] at h

theorem finishDone (h : Logged run) (haction : run.action = some .finishDone)
    {action : Option HeartbeatPhase} (hnext : action ∈ [none, some .finishError]) :
    Logged ((run.finishAgentRun .done).setAction action) := by
  rcases h with ⟨-, -, h⟩ | ⟨hevents, hstatus, -⟩ | ⟨-, -, -, h⟩ | ⟨-, -, h⟩
  · exact absurd haction h
  · rw [Run.finishAgentRun, if_pos hstatus]
    exact .closed hevents nofun hnext
  all_goals simp [haction] at h

/-- A heartbeat's attempt that is over, or that has only to close the row as `error`. -/
theorem endAction (h : Logged run) (haction : run.action ≠ some .finishDone) :
    Logged (run.setAction none) := by
  rcases h with ⟨hevents, hstatus, -⟩ | ⟨-, -, h⟩ | ⟨hevents, hstatus, hpath, -⟩ |
    ⟨hevents, hstatus, -⟩
  · exact .silent hevents hstatus nofun
  · exact absurd h haction
  · exact .failing hevents hstatus hpath (by simp [Run.setAction])
  · exact .closed hevents hstatus (by simp [Run.setAction])

end Logged

/-! ## One act -/

namespace Run

@[simp] theorem path_finishAgentRun (status : AgentRunStatus) :
    (run.finishAgentRun status).path = run.path := by
  unfold finishAgentRun
  split_ifs <;> rfl

@[simp] theorem jobs_finishAgentRun (status : AgentRunStatus) :
    (run.finishAgentRun status).jobs = run.jobs := by
  unfold finishAgentRun
  split_ifs <;> rfl

@[simp] theorem action_finishAgentRun (status : AgentRunStatus) :
    (run.finishAgentRun status).action = run.action := by
  unfold finishAgentRun
  split_ifs <;> rfl

@[simp] theorem action_closeAtomically (status : AgentRunStatus) :
    (run.closeAtomically status).action = run.action := by
  unfold closeAtomically
  split_ifs <;> simp [pushRunStatus]

@[simp] theorem path_closeAtomically (status : AgentRunStatus) :
    (run.closeAtomically status).path = run.path := by
  unfold closeAtomically
  split_ifs <;> simp [pushRunStatus]

/-- What a transaction keeps, however it ends. -/
theorem commit_induction {P : Run → Prop} {f : Run → Run} (h : P run) (hf : P (f run))
    (outcome : Outcome) : P (run.commit outcome f) := by
  unfold commit
  split_ifs
  exacts [h, hf]

end Run

structure Queued (run : Run) : Prop where
  path : run.path = .queued
  action : run.action = none
  logged : Logged run

namespace Queued

theorem ok (h : Queued run) : Ok run where
  jobs hpath := absurd h.path hpath
  action _ := h.action
  logged := h.logged

theorem setJobs (h : Queued run) (jobs : List TaskPhase) : Queued { run with jobs } :=
  ⟨h.path, h.action, h.logged.of_eq rfl rfl rfl rfl⟩

theorem pushRunning (h : Queued run) : Queued (run.pushRunStatus .running) :=
  ⟨h.path, h.action, h.logged.pushRunning⟩

theorem closeAtomically (h : Queued run) (status : AgentRunStatus) (hterminal : status ≠ .running) :
    Queued (run.closeAtomically status) where
  path := run.path_closeAtomically status ▸ h.path
  action := run.action_closeAtomically status ▸ h.action
  logged := h.logged.closeAtomically (by simp [h.path]) h.action status hterminal

theorem advanceJob (h : Queued run) (j : ℕ) (outcome : Outcome) (phase : TaskPhase) :
    Queued (run.advanceJob j outcome phase) := by
  have hclose (status : AgentRunStatus) (hterminal : status ≠ .running) :
      Queued (run.commit outcome (Run.closeAtomically · status)) :=
    Run.commit_induction h (h.closeAtomically status hterminal) outcome
  rcases phase <;> unfold Run.advanceJob <;> dsimp only
  case getAgentRun => split_ifs <;> exact h.setJobs _
  case compose => exact h.setJobs _
  case closeUncomposedRun => exact (hclose .error nofun).setJobs _
  case claimRunningRun =>
    have hclaim : Queued (run.commit outcome (Run.pushRunStatus · .running)) :=
      Run.commit_induction h h.pushRunning outcome
    split_ifs
    · exact hclaim.setJobs _
    · exact hclaim.setJobs _
    · exact h.setJobs _
  case runAgentTurn => exact h.setJobs _
  case closeDone =>
    split_ifs <;> exact (hclose .done nofun).setJobs _
  case closeError => exact (hclose .error nofun).setJobs _

end Queued

theorem Ok.queued (h : Ok run) {j : ℕ} (hj : j < run.jobs.length) : Queued run := by
  have hpath : run.path = .queued := by
    by_contra hne
    simp [h.jobs hne] at hj
  exact ⟨hpath, h.action (by simp [hpath]), h.logged⟩

structure Driven (run : Run) : Prop where
  path : run.path = .heartbeat
  jobs : run.jobs = []
  logged : Logged run

theorem Driven.ok (h : Driven run) : Ok run where
  jobs _ := h.jobs
  action hpath := absurd h.path hpath
  logged := h.logged

theorem Ok.driven (h : Ok run) {phase : HeartbeatPhase} (haction : run.action = some phase) :
    Driven run := by
  have hpath : run.path = .heartbeat := by
    by_contra hne
    simp [h.action hne] at haction
  exact ⟨hpath, h.jobs (by simp [hpath]), h.logged⟩

theorem Driven.advanceAction (h : Driven run) {phase : HeartbeatPhase} {outcome : Outcome}
    (haction : run.action = some phase)
    (hdone : phase = .pushDone → outcome = .failed ∨ outcome = .acknowledged ∧ run.status ≠ .error)
    (hfinish : phase = .finishDone → outcome ≠ .failed) :
    Driven (run.advanceAction outcome phase) := by
  have hcommit {f : Run → Run} (hpath : (f run).path = run.path)
      (hjobs : (f run).jobs = run.jobs) {action : Option HeartbeatPhase}
      (hlogged : Logged ((run.commit outcome f).setAction action)) :
      Driven ((run.commit outcome f).setAction action) := by
    refine ⟨?_, ?_, hlogged⟩
    · exact (Run.commit_induction (P := (·.path = run.path)) rfl hpath outcome).trans h.path
    · exact (Run.commit_induction (P := (·.jobs = run.jobs)) rfl hjobs outcome).trans h.jobs
  rcases phase <;> unfold Run.advanceAction <;> dsimp only
  case getAgentRun => exact ⟨h.path, h.jobs, h.logged.setAction haction (by simp) (by split <;> simp)⟩
  case compose => exact ⟨h.path, h.jobs, h.logged.setAction haction (by simp) (by split <;> simp)⟩
  case runAgentTurn =>
    exact ⟨h.path, h.jobs, h.logged.setAction haction (by simp) (by split <;> simp)⟩
  case pushRunning =>
    refine hcommit rfl rfl ?_
    refine Run.commit_induction (P := fun r => Logged (r.setAction _)) ?_ ?_ outcome
    · exact h.logged.setAction haction (by simp) (by split <;> simp)
    · exact h.logged.pushRunning.setAction haction (by simp) (by split <;> simp)
  case pushDone =>
    refine hcommit rfl rfl ?_
    rcases hdone rfl with rfl | ⟨rfl, herror⟩
    · exact h.logged.setAction haction (by simp) (by simp [Outcome.ok])
    · exact h.logged.pushDone haction herror
  case pushError =>
    refine hcommit rfl rfl ?_
    refine Run.commit_induction (P := fun r => Logged (r.setAction _)) ?_ ?_ outcome
    · exact h.logged.setAction haction (by simp) (by simp)
    · exact h.logged.pushError h.path haction
  case finishDone =>
    refine hcommit (by simp) (by simp) ?_
    rw [Run.commit, if_neg (hfinish rfl)]
    exact h.logged.finishDone haction (by split <;> simp)
  case finishError =>
    have hne : run.action ≠ some .finishDone := by simp [haction]
    refine hcommit (by simp) (by simp) ?_
    refine Run.commit_induction (P := fun r => Logged (r.setAction _)) ?_ ?_ outcome
    · exact h.logged.endAction hne
    · exact (h.logged.finishError hne).endAction (by simpa using hne)

theorem Ok.runStep {i : ℕ} {act : RunAct} (h : Ok (s i)) (hok : Uninterrupted s (i, act))
    (hs : runStep (s i) act = some run') : Ok run' := by
  rcases act <;> unfold RunStatusEvents.runStep at hs <;> dsimp only at hs
  case deliver =>
    split_ifs at hs with hpath
    obtain rfl := Option.some.inj hs
    have hqueued : Queued (s i) := ⟨hpath, h.action (by simp [hpath]), h.logged⟩
    exact (hqueued.setJobs _).ok
  case advanceJob j outcome =>
    obtain ⟨phase, hphase, rfl⟩ := Option.map_eq_some_iff.mp hs
    obtain ⟨hj, -⟩ := List.getElem?_eq_some_iff.mp hphase
    exact ((h.queued hj).advanceJob j outcome phase).ok
  case crashJob j =>
    split_ifs at hs with hj
    obtain rfl := Option.some.inj hs
    exact ((h.queued hj).setJobs _).ok
  case advanceAction outcome =>
    obtain ⟨phase, hphase, rfl⟩ := Option.map_eq_some_iff.mp hs
    refine ((h.driven hphase).advanceAction hphase ?_ ?_).ok
    · rintro rfl
      exact hok.1 hphase
    · rintro rfl
      exact hok.2 hphase
  case crashAction =>
    obtain ⟨phase, hphase, rfl⟩ := Option.map_eq_some_iff.mp hs
    have hdriven := h.driven hphase
    exact Driven.ok ⟨hdriven.path, hdriven.jobs, h.logged.endAction hok⟩
  case repair =>
    split_ifs at hs
    obtain rfl := Option.some.inj hs
    refine ⟨?_, ?_, h.logged.finishError hok⟩
    · simpa using h.jobs
    · simpa using h.action
  case expire =>
    split_ifs at hs with hmcp
    obtain rfl := Option.some.inj hs
    have hclosed := h.logged.closeAtomically (by simp [hmcp.1]) (h.action (by simp [hmcp.1]))
      .done nofun
    rw [Run.closeAtomically, if_pos hmcp.2] at hclosed
    refine ⟨?_, ?_, hclosed⟩
    · simpa [Run.pushRunStatus] using h.jobs
    · simpa [Run.pushRunStatus] using h.action

/-! ## The events stay -/

theorem Run.events_finishAgentRun (status : AgentRunStatus) :
    (run.finishAgentRun status).events = run.events := by
  unfold finishAgentRun
  split_ifs <;> rfl

theorem Run.events_push (status : AgentRunStatus) :
    run.events <+: (run.pushRunStatus status).events :=
  List.prefix_append _ _

theorem Run.events_closeAtomically (status : AgentRunStatus) :
    run.events <+: (run.closeAtomically status).events := by
  unfold closeAtomically
  split_ifs
  · rw [← run.events_finishAgentRun status]
    exact events_push status
  · exact List.prefix_rfl

theorem Run.events_commit {f : Run → Run} (h : run.events <+: (f run).events) (outcome : Outcome) :
    run.events <+: (run.commit outcome f).events :=
  commit_induction (P := fun r => run.events <+: r.events) List.prefix_rfl h outcome

theorem Run.events_advanceJob (j : ℕ) (outcome : Outcome) (phase : TaskPhase) :
    run.events <+: (run.advanceJob j outcome phase).events := by
  rcases phase <;> unfold advanceJob <;> dsimp only
  case closeUncomposedRun => exact events_commit (events_closeAtomically _) _
  case closeError => exact events_commit (events_closeAtomically _) _
  case claimRunningRun =>
    split_ifs
    · exact events_commit (events_push _) _
    · exact events_commit (events_push _) _
    · exact List.prefix_rfl
  case closeDone => split_ifs <;> exact events_commit (events_closeAtomically _) _
  all_goals split_ifs <;> exact List.prefix_rfl

theorem Run.events_advanceAction (outcome : Outcome) (phase : HeartbeatPhase) :
    run.events <+: (run.advanceAction outcome phase).events := by
  have hfinish (status : AgentRunStatus) : run.events <+: (run.finishAgentRun status).events :=
    (run.events_finishAgentRun status).symm ▸ List.prefix_rfl
  rcases phase <;> unfold advanceAction <;> dsimp only
  case pushRunning => exact events_commit (events_push _) _
  case pushDone => exact events_commit (events_push _) _
  case pushError => exact events_commit (events_push _) _
  case finishDone => exact events_commit (hfinish _) _
  case finishError => exact events_commit (hfinish _) _
  all_goals exact List.prefix_rfl

theorem events_of_runStep {act : RunAct} (hs : runStep run act = some run') :
    run.events <+: run'.events := by
  rcases act <;> unfold runStep at hs <;> dsimp only at hs
  case advanceJob j outcome =>
    obtain ⟨phase, -, rfl⟩ := Option.map_eq_some_iff.mp hs
    exact run.events_advanceJob j outcome phase
  case advanceAction outcome =>
    obtain ⟨phase, -, rfl⟩ := Option.map_eq_some_iff.mp hs
    exact run.events_advanceAction outcome phase
  case crashAction =>
    obtain ⟨-, -, rfl⟩ := Option.map_eq_some_iff.mp hs
    exact List.prefix_rfl
  case repair =>
    split_ifs at hs
    obtain rfl := Option.some.inj hs
    exact (run.events_finishAgentRun .error).symm ▸ List.prefix_rfl
  case expire =>
    split_ifs at hs
    obtain rfl := Option.some.inj hs
    rw [← run.events_finishAgentRun .done]
    exact Run.events_push _
  -- the others leave the table alone
  all_goals
    split_ifs at hs
    obtain rfl := Option.some.inj hs
    exact List.prefix_rfl

theorem events_of_reach {ok : Sys → ℕ × RunAct → Prop} (hs : Reach step ok s s') (i : ℕ) :
    (s i).events <+: (s' i).events := by
  refine hs.invariant (I := fun t : Sys => (s i).events <+: (t i).events) List.prefix_rfl ?_
  rintro t act t' hprefix - hstep
  obtain ⟨run', hrun, rfl⟩ := Option.map_eq_some_iff.mp hstep
  rcases eq_or_ne i act.1 with rfl | hne
  · rw [Function.update_self]
    exact hprefix.trans (events_of_runStep hrun)
  · rwa [Function.update_of_ne hne]

/-! ## Runs -/

theorem init_ok (i : ℕ) : Ok (init path i) where
  jobs _ := rfl
  action hpath := if_neg hpath
  logged := .silent rfl nofun (by unfold init; dsimp only; split <;> simp)

theorem step_ok {act : ℕ × RunAct} (h : ∀ i, Ok (s i)) (hok : Uninterrupted s act)
    (hs : step s act = some s') : ∀ i, Ok (s' i) := by
  intro i
  obtain ⟨run', hrun, rfl⟩ := Option.map_eq_some_iff.mp hs
  rcases eq_or_ne i act.1 with rfl | hne
  · rw [Function.update_self]
    exact (h act.1).runStep hok hrun
  · rw [Function.update_of_ne hne]
    exact h i

theorem ok_of_reach (hok : ∀ i, Ok (s i)) (hs : Reach step Uninterrupted s s') : ∀ i, Ok (s' i) :=
  hs.invariant (I := fun t : Sys => ∀ i, Ok (t i)) hok fun _ _ _ hi hok hs => step_ok hi hok hs

/-- In every run that never leaves a heartbeat's `done` event without the close that follows it, no
run has two terminal events, and the row is only ever terminal as its event has it. -/
theorem agrees_of_reach {path : ℕ → RunPath} {s : Sys} (hs : Reach step Uninterrupted (init path) s) :
    Agrees Uninterrupted s := by
  have hok := ok_of_reach init_ok hs
  refine fun i => ⟨(hok i).logged.agrees.1, fun e he s' hs' => ?_⟩
  refine (ok_of_reach hok hs' i).logged.agrees.2 e ?_
  exact ((events_of_reach hs' i).filter _).subset he

instance (s : Sys) : DecidablePred (Uninterrupted s)
  | (i, .advanceAction outcome) => inferInstanceAs (Decidable
      (((s i).action = some .pushDone →
        outcome = .failed ∨ outcome = .acknowledged ∧ (s i).status ≠ .error) ∧
      ((s i).action = some .finishDone → outcome ≠ .failed)))
  | (i, .crashAction) => inferInstanceAs (Decidable ((s i).action ≠ some .finishDone))
  | (i, .repair) => inferInstanceAs (Decidable ((s i).action ≠ some .finishDone))
  | (_, .deliver) | (_, .advanceJob ..) | (_, .crashJob _) | (_, .expire) => isTrue trivial

def heartbeatsAndJob (i : ℕ) : RunPath := if i = 1 then .queued else .heartbeat

/-- The attempt at a heartbeat up to its `done` event, whose row is still `running`. -/
def announced : List (ℕ × RunAct) :=
  [(0, .advanceAction .acknowledged), (0, .advanceAction .acknowledged),
    (0, .advanceAction .acknowledged), (0, .advanceAction .acknowledged),
    (0, .advanceAction .acknowledged)]

/-- Run 0 is done.  Of two jobs for run 1 one fails to compose its session, and closes the run while
the other takes its turn.  The attempt at run 2 fails and crashes after its event. -/
def announcedAndClosed : List (ℕ × RunAct) :=
  announced ++ ([(0, .advanceAction .lost), (0, .advanceAction .acknowledged),
    (1, .deliver), (1, .deliver), (1, .advanceJob 0 .acknowledged),
    (1, .advanceJob 1 .acknowledged), (1, .advanceJob 0 .failed),
    (1, .advanceJob 1 .acknowledged), (1, .advanceJob 1 .acknowledged),
    (1, .advanceJob 0 .acknowledged), (1, .advanceJob 0 .acknowledged),
    (1, .advanceJob 0 .acknowledged),
    (2, .advanceAction .acknowledged), (2, .advanceAction .failed),
    (2, .advanceAction .acknowledged), (2, .crashAction), (2, .repair)] : List (ℕ × RunAct))

theorem announcedAndClosed_agrees :
    ∃ s, runActs step (init heartbeatsAndJob) announcedAndClosed = some s ∧
      (s 0).terminalEvents = [.done] ∧ (s 1).terminalEvents = [.error] ∧
      (s 2).terminalEvents = [.error] ∧ Agrees Uninterrupted s := by
  obtain ⟨s, hs⟩ := Option.isSome_iff_exists.mp (show (runChecked step
    (fun s act => decide (Uninterrupted s act)) (init heartbeatsAndJob) announcedAndClosed).isSome =
      true by decide +kernel)
  exact ⟨s, runActs_of_runChecked hs,
    eq_of_map_eq (f := fun t : Sys => (t 0).terminalEvents) hs (by decide +kernel),
    eq_of_map_eq (f := fun t : Sys => (t 1).terminalEvents) hs (by decide +kernel),
    eq_of_map_eq (f := fun t : Sys => (t 2).terminalEvents) hs (by decide +kernel),
    agrees_of_reach (.of_runChecked (fun _ _ => of_decide_eq_true) hs)⟩

/-- The process dies after the event, and the repair at the next startup closes the row as `error`:
the run's `done` event stays. -/
theorem interrupted_disagrees : ¬∀ (path : ℕ → RunPath) (s : Sys),
    Reach step (fun _ _ => True) (init path) s → Agrees (fun _ _ => True) s := by
  intro hall
  obtain ⟨s, hs⟩ := Option.isSome_iff_exists.mp (show (runActs step (init heartbeatsAndJob)
    (announced ++ [(0, .crashAction), (0, .repair)])).isSome = true by decide +kernel)
  have hevents : (s 0).terminalEvents = [.done] :=
    eq_of_map_eq (f := fun t : Sys => (t 0).terminalEvents) hs (by decide +kernel)
  have hstatus : (s 0).status = .error :=
    eq_of_map_eq (f := fun t : Sys => (t 0).status) hs (by decide +kernel)
  have hagrees := (hall _ s (.of_runActs hs) 0).2 .done (by simp [hevents]) s .refl
  simp [hstatus] at hagrees

end RunStatusEvents

end Semprec
