import Semprec.Proofs.PiReplay

/-!
# What a resumed session is seeded with

A turn stores what its session holds, but for its prompt: a history converts to the messages of the
session that was never interrupted with the prompts left out (`initialMessages_eq_live`).  So a
wake continues the same conversation as long as nobody has said anything (`continues_iff`).
-/

namespace Semprec

namespace PiSession

variable {toolEventMetadata : String → Option ToolEventMetadata} {model : Model}

/-! ## No prompt is converted -/

theorem not_isUser_of_toPiMessages : ∀ {entries : List ConversationEntry} {ms : List Message},
    toPiMessages entries model = .ok ms → ∀ m ∈ ms, m.isUser = false
  | [], ms, h, m, hm => by
    simp only [toPiMessages, Except.ok.injEq] at h
    subst h
    cases hm
  | entry :: entries, ms, h, m, hm => by
    simp only [toPiMessages] at h
    rcases he : toPiMessage entry model with _ | first
    · simp [he, bind, Except.bind] at h
    · rcases hr : toPiMessages entries model with _ | rest
      · simp [he, hr, bind, Except.bind] at h
      · simp only [he, hr, bind, Except.bind, pure, Except.pure, Except.ok.injEq] at h
        subst h
        rcases List.mem_append.mp hm with hm | hm
        · unfold toPiMessage at he
          split_ifs at he
          · rcases ha : toAssistantMessage entry entry.message model with _ | a <;>
              simp [ha, Except.map] at he
            subst he
            obtain rfl := List.mem_singleton.mp hm
            rfl
          · rcases ha : toToolResultMessage entry entry.message with _ | a <;>
              simp [ha, Except.map] at he
            subst he
            obtain rfl := List.mem_singleton.mp hm
            rfl
          · simp only [Except.ok.injEq] at he
            subst he
            cases hm
        · exact not_isUser_of_toPiMessages hr m hm

theorem isUser_core (m : Message) : m.core.isUser = m.isUser := by
  cases m <;> rfl

theorem not_isUser_of_initialMessages {s : Sys} {ms : List Message}
    (h : s.initialMessages model = .ok ms) : ∀ m ∈ ms, m.isUser = false := by
  unfold Sys.initialMessages at h
  rcases he : reconstructConversationHistory s.events with _ | entries
  · simp [he, bind, Except.bind] at h
  · simp only [he, bind, Except.bind] at h
    exact not_isUser_of_toPiMessages h

/-! ## Prompts of the live session -/

structure Prompts (s : Sys) : Prop where
  prompts : s.tasks ≠ [] → ∃ m ∈ s.live, m.isUser = true
  empty : s.tasks = [] → s.live = [] ∧ s.history = [] ∧ (s.phase = .idle ∨ s.phase = .down)

namespace Prompts

variable {s s' : Sys}

theorem of_live (h : Prompts s) (ms : List Message) (htasks : s'.tasks = s.tasks)
    (hlive : s'.live = s.live ++ ms)
    (hempty : s.tasks = [] → ms = [] ∧ s'.history = s.history ∧
      (s'.phase = .idle ∨ s'.phase = .down)) : Prompts s' where
  prompts := fun ht => by
    rw [htasks] at ht
    obtain ⟨m, hm, hu⟩ := h.prompts ht
    exact ⟨m, by rw [hlive]; exact List.mem_append_left _ hm, hu⟩
  empty := fun ht => by
    rw [htasks] at ht
    obtain ⟨hl, hh, -⟩ := h.empty ht
    obtain ⟨rfl, hh', hp⟩ := hempty ht
    exact ⟨by rw [hlive, hl]; rfl, by rw [hh', hh], hp⟩

theorem of_prompt {task : String} {now : ℤ} : Prompts (s.prompt task now) where
  prompts := fun _ => ⟨.user task now, List.mem_append_right _ (List.mem_singleton.mpr rfl), rfl⟩
  empty := fun ht => by simp [Sys.prompt] at ht

/-- A turn in flight, or a session in memory, has a task. -/
theorem absurd_phase (h : Prompts s) (hi : s.phase ≠ .idle) (hd : s.phase ≠ .down)
    {P : Prop} (ht : s.tasks = []) : P := by
  rcases (h.empty ht).2.2 with hp | hp
  · exact absurd hp hi
  · exact absurd hp hd

end Prompts

/-- A run whose events are all status events is not repaired. -/
theorem unpaired_of_history {s : Sys} (h : s.history = []) :
    ∀ run ∈ s.runs, run.unpaired = false := by
  intro run hrun
  unfold Run.unpaired
  rcases hl : run.events.getLast? with _ | last
  · simp
  · have hmem : last ∈ s.events :=
      List.mem_flatMap.mpr ⟨run, hrun, List.mem_of_getLast? hl⟩
    have hk : last.kind = "run_status" := by
      by_contra hk
      have : last ∈ s.history := List.mem_filter.mpr ⟨hmem, by simpa using hk⟩
      rw [h] at this
      cases this
    simp [hk]

/-- What the live session adds to its messages when it emits an event of a turn. -/
def spoken : AgentEvent → List Message
  | .message_end (.assistant m) => [.assistant m]
  | _ => []

theorem live_emit (live : List Message) (event : AgentEvent) :
    (match event with
      | .message_end (.assistant m) => live ++ [.assistant m]
      | _ => live) = live ++ spoken event := by
  unfold spoken
  split <;> simp

theorem record_tasks {s : Sys} {event : AgentEvent} {now : ℤ} :
    (s.record toolEventMetadata event now).tasks = s.tasks := by
  unfold Sys.record
  rcases toAgentMessage toolEventMetadata event s.targets with ⟨_ | payload, targets⟩
  · rfl
  · by_cases hk : kindOf payload ∈ PERSISTED_EVENT_KINDS
    · simp only [if_pos hk]
      rfl
    · simp only [if_neg hk]

theorem Prompts.step {s s' : Sys} {a : Act} (h : Prompts s)
    (hs : step toolEventMetadata model s a = some s') : Prompts s' := by
  cases a with
  | skipEventId =>
    obtain rfl := Option.some.inj hs
    exact h.of_live [] rfl (List.append_nil _).symm fun ht => ⟨rfl, rfl, (h.empty ht).2.2⟩
  | wake task now | send task now =>
    simp only [PiSession.step] at hs
    split at hs
    · obtain rfl := Option.some.inj hs
      exact .of_prompt
    · cases hs
  | failWake now =>
    simp only [PiSession.step] at hs
    split at hs
    · obtain rfl := Option.some.inj hs
      exact h.of_live [] rfl (List.append_nil _).symm fun ht =>
        ⟨rfl, history_createAgentRun, (h.empty ht).2.2⟩
    · cases hs
  | emit event now =>
    simp only [PiSession.step] at hs
    split at hs
    · rename_i t hphase
      have hnone : ∀ {P : Prop}, s.tasks = [] → P :=
        h.absurd_phase (by rw [hphase]; intro h; cases h) (by rw [hphase]; intro h; cases h)
      split at hs
      · split_ifs at hs
        obtain rfl := Option.some.inj hs
        exact h.of_live _ record_tasks (live_emit s.live event) hnone
      · cases hs
    · cases hs
  | endToolResult toolCallId now =>
    simp only [PiSession.step] at hs
    split at hs
    · rename_i t hphase
      split at hs
      · rename_i m hm
        obtain rfl := Option.some.inj hs
        exact h.of_live [.toolResult m] rfl rfl
          (h.absurd_phase (by rw [hphase]; intro h; cases h) (by rw [hphase]; intro h; cases h))
      · cases hs
    · cases hs
  | endTurn =>
    simp only [PiSession.step] at hs
    split at hs
    · rename_i hphase
      obtain rfl := Option.some.inj hs
      exact h.of_live [] rfl (List.append_nil _).symm
        (h.absurd_phase (by rw [hphase]; intro h; cases h) (by rw [hphase]; intro h; cases h))
    · cases hs
  | failTurn =>
    simp only [PiSession.step] at hs
    split at hs
    · obtain rfl := Option.some.inj hs
      exact h.of_live [] rfl (List.append_nil _).symm fun _ => ⟨rfl, rfl, .inl rfl⟩
    · cases hs
  | finishAgentRun i =>
    obtain rfl := Option.some.inj hs
    exact h.of_live [] rfl (List.append_nil _).symm fun ht =>
      ⟨rfl, conversational_flatMap_modify (f := fun run => { run with running := false })
        (fun _ => rfl) s.runs, (h.empty ht).2.2⟩
  | pushRunStatus i status now =>
    simp only [PiSession.step] at hs
    split_ifs at hs
    obtain rfl := Option.some.inj hs
    exact h.of_live [] rfl (List.append_nil _).symm fun ht =>
      ⟨rfl, history_insertEvent, (h.empty ht).2.2⟩
  | clearEntry =>
    simp only [PiSession.step] at hs
    split at hs
    · split_ifs at hs
      obtain rfl := Option.some.inj hs
      exact h.of_live [] rfl (List.append_nil _).symm fun _ => ⟨rfl, rfl, .inl rfl⟩
    · cases hs
  | crash =>
    obtain rfl := Option.some.inj hs
    exact h.of_live [] rfl (List.append_nil _).symm fun _ => ⟨rfl, rfl, .inr rfl⟩
  | repairInterruptedRuns active now =>
    simp only [PiSession.step] at hs
    split at hs
    · obtain rfl := Option.some.inj hs
      cases active with
      | true =>
        refine h.of_live [] rfl (List.append_nil _).symm fun ht => ⟨rfl, ?_, .inl rfl⟩
        exact congrArg conversational
          (repairRuns_events (unpaired_of_history (h.empty ht).2.1))
      | false => exact h.of_live [] rfl (List.append_nil _).symm fun _ => ⟨rfl, rfl, .inl rfl⟩
    · cases hs

theorem Prompts.init : Prompts Sys.init where
  prompts := fun h => absurd rfl h
  empty := fun _ => ⟨rfl, rfl, .inl rfl⟩

theorem reconstruct_of_history {events : List StoredEvent} (h : conversational events = []) :
    ∀ (p : Option String) (n : ℕ), walkStoredEvents p n events = .ok [] := by
  induction events with
  | nil => exact fun _ _ => rfl
  | cons e events ih =>
    intro p n
    have hk : e.kind = "run_status" := by
      by_contra hk
      simp [conversational, hk] at h
    have h' : conversational events = [] := by
      simpa [conversational, hk] using h
    rw [walkStoredEvents, if_pos hk]
    exact ih h' p n

/-- A wake continues the conversation that a live session holds exactly while it is empty. -/
theorem continues_iff_no_task (toolEventMetadata : String → Option ToolEventMetadata)
    (model : Model) {s : Sys}
    (h : Reach (step toolEventMetadata model) (fun _ _ => True) Sys.init s) :
    s.Continues model ↔ s.tasks = [] := by
  have hp : Prompts s := h.invariant Prompts.init fun _ _ _ hi _ hs => hi.step hs
  constructor
  · rintro ⟨ms, hms, hlive⟩
    by_contra ht
    obtain ⟨m, hm, hu⟩ := hp.prompts ht
    have hmem : m.core ∈ ms.map Message.core := by
      rw [hlive]
      exact List.mem_map_of_mem hm
    obtain ⟨m', hm', hcore⟩ := List.mem_map.mp hmem
    have : m'.isUser = true := by rw [← isUser_core, hcore, isUser_core, hu]
    rw [not_isUser_of_initialMessages hms m' hm'] at this
    cases this
  · intro ht
    obtain ⟨hl, hh, -⟩ := hp.empty ht
    refine ⟨[], ?_, by rw [hl]⟩
    unfold Sys.initialMessages reconstructConversationHistory walkStoredEntries
    rw [reconstruct_of_history hh]
    rfl

/-! ## What the resumed session holds -/

/-- No turn is cut, and pi ends the messages of the results in the order in which they came. -/
def InOrder (s : Sys) : Act → Prop
  | .endToolResult toolCallId _ => ∀ t, s.phase = .turn t →
    ∃ m rest, t.ended = m :: rest ∧ m.toolCallId = toolCallId
  | .failTurn => False
  | .crash => ∀ t, s.phase ≠ .turn t
  | .repairInterruptedRuns active _ => active = true → ∀ run ∈ s.runs, run.unpaired = false
  | _ => True

def Phase.ended : Phase → List Message
  | .turn t => t.ended.map .toolResult
  | _ => []

def withoutPrompts (messages : List Message) : List Message :=
  messages.filter fun m => !m.isUser

def Follows (model : Model) (s : Sys) : Prop :=
  ∃ ms, storedMessages model s.history = .ok ms ∧
    ms.map Message.core = (withoutPrompts s.live ++ s.phase.ended).map Message.core

namespace Follows

variable {s s' : Sys}

theorem of_history (h : Follows model s) (hh : s'.history = s.history)
    (hl : withoutPrompts s'.live ++ s'.phase.ended = withoutPrompts s.live ++ s.phase.ended) :
    Follows model s' := by
  obtain ⟨ms, hms, hcore⟩ := h
  exact ⟨ms, by rw [hh]; exact hms, by rw [hl]; exact hcore⟩

theorem of_prompt {task : String} {now : ℤ} (h : Follows model s) (hp : s.phase.ended = []) :
    Follows model (s.prompt task now) :=
  h.of_history rfl (by
    rw [hp]
    simp [Sys.prompt, withoutPrompts, Message.isUser, Phase.ended, Turn.init])

/-- A message and a result of the turn are stored as the session holds them. -/
theorem emit (h : Follows model s) {t t' : Turn} {event : AgentEvent} {now : ℤ}
    (hphase : s.phase = .turn t) (ht : t.event event = some t') (hruns : s.runs ≠ [])
    (hs' : s'.events = (s.record toolEventMetadata event now).events)
    (hphase' : s'.phase = .turn t') (hlive : s'.live = s.live ++ spoken event) :
    Follows model s' := by
  obtain ⟨ms, hms, hcore⟩ := h
  have hrows := storesAs_stored toolEventMetadata model ht s.targets s.nextEventId now
  refine ⟨ms ++ added model now event, ?_, ?_⟩
  · rw [Sys.history, hs', record_events hruns, conversational_append, hrows.conversational,
      storedMessages_append]
    rw [Sys.history] at hms
    simp [hms, hrows.messages, bind, Except.bind, pure, Except.pure]
  · rw [hphase] at hcore
    rw [hphase', hlive, List.map_append, hcore]
    cases event with
    | message_end m =>
      cases m with
      | assistant m =>
        obtain ⟨⟨-, -, hended, -⟩, rfl⟩ := Turn.of_event_assistant ht
        have hended : t.ended = [] := List.length_eq_zero_iff.mp hended
        simp [Phase.ended, hended, withoutPrompts, spoken, added, Message.isUser, Message.core]
      | user content timestamp =>
        obtain rfl := Option.some.inj ht
        simp [spoken, added]
      | toolResult m => cases ht
    | tool_execution_start toolCallId toolName args =>
      simp only [Turn.event] at ht
      split at ht
      · split_ifs at ht
        obtain rfl := Option.some.inj ht
        simp [spoken, added, Phase.ended]
      · cases ht
    | tool_execution_end toolCallId toolName result isError =>
      simp only [Turn.event] at ht
      split_ifs at ht
      obtain rfl := Option.some.inj ht
      simp [spoken, added, Phase.ended, Message.core]
    | _ =>
      obtain rfl := Option.some.inj ht
      simp [spoken, added]

theorem endToolResult (h : Follows model s) {t : Turn} {toolCallId : String} {m : ToolResultMessage}
    (hphase : s.phase = .turn t) (hm : t.ended.find? (fun m => m.toolCallId = toolCallId) = some m)
    (hfirst : ∃ m rest, t.ended = m :: rest ∧ m.toolCallId = toolCallId)
    (hh : s'.history = s.history) (hlive : s'.live = s.live ++ [Message.toolResult m])
    (hphase' : s'.phase =
      .turn { t with ended := t.ended.eraseP fun m => m.toolCallId = toolCallId }) :
    Follows model s' := by
  obtain ⟨m', rest, hended, hid⟩ := hfirst
  obtain rfl : m' = m := by simpa [hended, hid] using hm
  refine h.of_history hh ?_
  rw [hphase, hphase', hlive]
  simp [Phase.ended, hended, hid, withoutPrompts, Message.isUser]

theorem step {a : Act} (h : Follows model s) (hok : InOrder s a)
    (hs : step toolEventMetadata model s a = some s') : Follows model s' := by
  cases a with
  | skipEventId =>
    obtain rfl := Option.some.inj hs
    exact h
  | wake task now =>
    simp only [PiSession.step] at hs
    split at hs
    · rename_i hphase _
      obtain rfl := Option.some.inj hs
      have h' : Follows model (s.createAgentRun now) := h.of_history history_createAgentRun rfl
      exact h'.of_prompt (by change s.phase.ended = []; rw [hphase]; rfl)
    · cases hs
  | failWake now =>
    simp only [PiSession.step] at hs
    split at hs
    · obtain rfl := Option.some.inj hs
      exact h.of_history history_createAgentRun rfl
    · cases hs
  | send task now =>
    simp only [PiSession.step] at hs
    split at hs
    · rename_i hphase
      obtain rfl := Option.some.inj hs
      exact h.of_prompt (by rw [hphase]; rfl)
    · cases hs
  | emit event now =>
    simp only [PiSession.step] at hs
    split at hs
    · rename_i t hphase
      split at hs
      · rename_i t' ht
        split_ifs at hs with hrun
        obtain rfl := Option.some.inj hs
        exact h.emit hphase ht (ne_nil_of_any hrun) rfl rfl (live_emit s.live event)
      · cases hs
    · cases hs
  | endToolResult toolCallId now =>
    simp only [PiSession.step] at hs
    split at hs
    · rename_i t hphase
      split at hs
      · rename_i m hm
        obtain rfl := Option.some.inj hs
        exact h.endToolResult hphase hm (hok t hphase) rfl rfl rfl
      · cases hs
    · cases hs
  | endTurn =>
    simp only [PiSession.step] at hs
    split at hs
    · rename_i hphase
      obtain rfl := Option.some.inj hs
      exact h.of_history rfl (by rw [hphase]; rfl)
    · cases hs
  | failTurn => exact hok.elim
  | finishAgentRun i =>
    obtain rfl := Option.some.inj hs
    exact h.of_history (conversational_flatMap_modify
      (f := fun run => { run with running := false }) (fun _ => rfl) s.runs) rfl
  | pushRunStatus i status now =>
    simp only [PiSession.step] at hs
    split_ifs at hs
    obtain rfl := Option.some.inj hs
    exact h.of_history history_insertEvent rfl
  | clearEntry =>
    simp only [PiSession.step] at hs
    split at hs
    · rename_i hphase
      split_ifs at hs
      obtain rfl := Option.some.inj hs
      exact h.of_history rfl (by rw [hphase]; rfl)
    · cases hs
  | crash =>
    obtain rfl := Option.some.inj hs
    refine h.of_history rfl ?_
    rcases hphase : s.phase with _ | t | _ | _
    · rfl
    · exact absurd hphase (hok t)
    · rfl
    · rfl
  | repairInterruptedRuns active now =>
    simp only [PiSession.step] at hs
    split at hs
    · rename_i hphase
      obtain rfl := Option.some.inj hs
      cases active with
      | true =>
        exact h.of_history (congrArg conversational (repairRuns_events (hok rfl)))
          (by rw [hphase]; rfl)
      | false => exact h.of_history rfl (by rw [hphase]; rfl)
    · cases hs

end Follows

/-- A resumed session is seeded with what the live session holds, less its prompts. -/
theorem initialMessages_eq_live {s : Sys} {ms : List Message}
    (h : Reach (step toolEventMetadata model) InOrder Sys.init s) (hs : s.phase.settled = true)
    (hm : s.initialMessages model = .ok ms) :
    ms.map Message.core = (withoutPrompts s.live).map Message.core := by
  obtain ⟨ms', hms', hcore⟩ : Follows model s :=
    h.invariant ⟨[], rfl, rfl⟩ fun _ _ _ hi hok hstep => hi.step hok hstep
  have hended : s.phase.ended = [] := by
    rcases hph : s.phase with _ | _ | _ | _ <;> simp [hph, Phase.settled] at hs <;> rfl
  rw [hended, List.append_nil] at hcore
  rw [← hcore]
  unfold Sys.initialMessages at hm
  rcases he : reconstructConversationHistory s.events with _ | entries
  · simp [he, bind, Except.bind] at hm
  · simp only [he, bind, Except.bind] at hm
    have hw := walk_of_reconstruct he
    rw [toPiMessages_walk hw, ← storedMessages_conversational] at hm
    rw [Sys.history] at hms'
    rw [hms'] at hm
    rw [Except.ok.inj hm]

def pausedConversation : List Act :=
  callingTurn ++ [Act.finishAgentRun 0, Act.pushRunStatus 0 "done" 9, Act.clearEntry]

def seeded (s : Sys) : ℕ :=
  match s.initialMessages gpt with
  | .ok messages => messages.length
  | .error _ => 0

theorem pausedConversation_not_continues :
    ∃ s, Reach (step toolOf gpt) (fun _ _ => True) .init s ∧ s.phase.settled = true ∧
      ¬ s.Continues gpt := by
  obtain ⟨s, hs⟩ := Option.isSome_iff_exists.mp
    (show (runActs (step toolOf gpt) .init pausedConversation).isSome = true by decide +kernel)
  refine ⟨s, .of_runActs hs, ?_, ?_⟩
  · exact eq_of_map_eq (f := fun s => s.phase.settled) (b := true) hs (by decide +kernel)
  · rintro ⟨messages, hm, hcore⟩
    have hseeded : seeded s = 3 := eq_of_map_eq (f := seeded) (b := 3) hs (by decide +kernel)
    have hlive : s.live.length = 4 :=
      eq_of_map_eq (f := fun s => s.live.length) (b := 4) hs (by decide +kernel)
    have hlen := congrArg List.length hcore
    rw [List.length_map, List.length_map, hlive] at hlen
    simp only [seeded, hm] at hseeded
    omega

theorem continues_pausedConversation :
    ∃ s, runActs (step toolOf gpt) .init pausedConversation = some s ∧
      (s.Continues gpt ↔ s.tasks = []) := by
  obtain ⟨s, hs⟩ := Option.isSome_iff_exists.mp
    (show (runActs (step toolOf gpt) .init pausedConversation).isSome = true by decide +kernel)
  exact ⟨s, hs, continues_iff_no_task toolOf gpt (.of_runActs hs)⟩

def inOrder (s : Sys) : Act → Bool
  | .endToolResult toolCallId _ =>
    match s.phase with
    | .turn t => t.ended.head?.map (fun m => m.toolCallId) = some toolCallId
    | _ => true
  | .failTurn | .crash | .repairInterruptedRuns .. => false
  | _ => true

theorem inOrder_of_check (s : Sys) (act : Act) (h : inOrder s act = true) : InOrder s act := by
  cases act with
  | endToolResult toolCallId now =>
    intro t hphase
    simp only [inOrder, hphase, decide_eq_true_eq] at h
    obtain ⟨m, hm, hid⟩ := Option.map_eq_some_iff.mp h
    obtain ⟨rest, hrest⟩ := List.head?_eq_some_iff.mp hm
    exact ⟨m, rest, hrest, hid⟩
  | failTurn => cases h
  | crash => cases h
  | repairInterruptedRuns active now => cases h
  | _ => trivial

theorem initialMessages_pausedConversation : ∃ s messages,
    runActs (step toolOf gpt) .init pausedConversation = some s ∧
      s.initialMessages gpt = .ok messages ∧
        messages.map Message.core = (withoutPrompts s.live).map Message.core := by
  obtain ⟨s, hs⟩ := Option.isSome_iff_exists.mp
    (show (runChecked (step toolOf gpt) inOrder .init pausedConversation).isSome = true by
      decide +kernel)
  have hsettled := eq_of_map_eq (f := fun s => s.phase.settled) (b := true) hs (by decide +kernel)
  have hseeded : seeded s = 3 := eq_of_map_eq (f := seeded) (b := 3) hs (by decide +kernel)
  rcases hm : s.initialMessages gpt with e | messages
  · simp [seeded, hm] at hseeded
  · exact ⟨s, messages, runActs_of_runChecked hs, hm,
      initialMessages_eq_live (.of_runChecked inOrder_of_check hs) hsettled hm⟩

end PiSession

end Semprec
