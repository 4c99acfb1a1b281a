import Semprec.Proofs.PiHistory

/-!
# A wake converts the transcript that it reconstructs

A turn leaves open exactly the calls of its last message that have not started or still run, and
what it has stored converts (`Inv`).  A call that is cut while it runs stays unanswered, and the
protocol check refuses the history from then on (`Refused`).
-/

namespace Semprec

namespace PiSession

open JsonObject (get?_merge)

variable {toolEventMetadata : String → Option ToolEventMetadata} {model : Model}

/-! ## The history of a state -/

namespace Sys

/-- The events that a wake from this state can see. -/
def history (s : Sys) : List StoredEvent := conversational s.events

end Sys

theorem conversational_append (events events' : List StoredEvent) :
    conversational (events ++ events') = conversational events ++ conversational events' :=
  List.filter_append events events'

theorem Kinds.append {events events' : List StoredEvent} (h : Kinds events) (h' : Kinds events') :
    Kinds (events ++ events') := by
  intro e he
  rcases List.mem_append.mp he with he | he
  · exact h e he
  · exact h' e he

/-- Where the runs agree on what they show, so do their histories. -/
theorem conversational_flatMap_modify {f : Run → Run} {i : ℕ}
    (h : ∀ run, conversational (f run).events = conversational run.events) (runs : List Run) :
    conversational ((runs.modify i f).flatMap fun run => run.events) =
      conversational (runs.flatMap fun run => run.events) := by
  induction runs generalizing i with
  | nil => rw [List.modify_nil]
  | cons run runs ih =>
    rcases i with _ | i
    · simp [List.modify_zero_cons, conversational_append, h]
    · rw [List.modify_succ_cons, List.flatMap_cons, List.flatMap_cons, conversational_append,
        conversational_append, ih]

theorem flatMap_modify_latest {rows : List StoredEvent} {f : Run → Run}
    (h : ∀ run, (f run).events = run.events ++ rows) : ∀ (runs : List Run), runs ≠ [] →
    (runs.modify (runs.length - 1) f).flatMap (fun run => run.events) =
      (runs.flatMap fun run => run.events) ++ rows
  | [], hr => absurd rfl hr
  | [run], _ => by simp [List.modify_zero_cons, h]
  | run :: run' :: runs, _ => by
    have ih := flatMap_modify_latest h (run' :: runs) (by simp)
    have hl : (run :: run' :: runs).length - 1 = ((run' :: runs).length - 1) + 1 := by simp
    rw [hl, List.modify_succ_cons, List.flatMap_cons, List.flatMap_cons, ih, List.append_assoc]

theorem Kinds.flatMap_modify {f : Run → Run} {i : ℕ} :
    ∀ {runs : List Run}, (∀ run, Kinds run.events → Kinds (f run).events) →
    Kinds (runs.flatMap fun run => run.events) →
    Kinds ((runs.modify i f).flatMap fun run => run.events)
  | [], _, h => by rwa [List.modify_nil]
  | run :: runs, hf, h => by
    have h₁ : Kinds run.events := fun e he => h e (by simp [he])
    have h₂ : Kinds (runs.flatMap fun run => run.events) := fun e he =>
      h e (List.mem_append_right _ he)
    rcases i with _ | i
    · exact (hf run h₁).append h₂
    · exact h₁.append (Kinds.flatMap_modify hf h₂)

theorem record_events {s : Sys} {event : AgentEvent} {now : ℤ} (h : s.runs ≠ []) :
    (s.record toolEventMetadata event now).events =
      s.events ++ stored toolEventMetadata event s.targets s.nextEventId now := by
  unfold Sys.record stored
  rcases hm : toAgentMessage toolEventMetadata event s.targets with ⟨_ | payload, targets⟩
  · exact (List.append_nil _).symm
  · by_cases hk : kindOf payload ∈ PERSISTED_EVENT_KINDS
    · simp only [if_pos hk]
      exact flatMap_modify_latest (f := fun run => { run with events := run.events ++ _ })
        (fun _ => rfl) _ h
    · simp only [if_neg hk]
      exact (List.append_nil _).symm

theorem ne_nil_of_any {s : Sys} {i : ℕ} {p : Run → Bool} (h : (s.runs[i]?.any p) = true) :
    s.runs ≠ [] := by
  intro hr
  simp [hr] at h

/-! ## The repair -/

theorem repairRun_events {id : ℕ} {now : ℤ} {run : Run} (h : run.unpaired = false) :
    (repairRun id now run).events = run.events := by
  unfold repairRun
  split
  · rw [h]
    rfl
  · rfl

theorem repairRun_unpaired (id : ℕ) (now : ℤ) {run : Run} (h : run.unpaired = true) :
    ∃ payload, (repairRun id now run).events =
      run.events ++ [⟨id, "tool_result", syntheticResult payload, now⟩] := by
  unfold repairRun
  split
  · rw [h]
    exact ⟨_, rfl⟩
  · rename_i hlast
    simp [Run.unpaired, hlast] at h

theorem kindOf_syntheticResult (payload : JsonObject) :
    kindOf (syntheticResult payload) = "tool_result" := by
  unfold kindOf stringField syntheticResult
  rw [get?_merge]
  rfl

theorem Kinds.repairRun {id : ℕ} {now : ℤ} {run : Run} (h : Kinds run.events) :
    Kinds (repairRun id now run).events := by
  rcases hu : run.unpaired with _ | _
  · rw [repairRun_events hu]
    exact h
  · obtain ⟨payload, hp⟩ := repairRun_unpaired id now hu
    rw [hp]
    refine h.append fun e he => ?_
    obtain rfl := List.mem_singleton.mp he
    exact (kindOf_syntheticResult payload).symm

theorem Kinds.repairRuns {now : ℤ} : ∀ {runs : List Run} {id : ℕ},
    Kinds (runs.flatMap fun run => run.events) →
    Kinds ((repairRuns now id runs).flatMap fun run => run.events)
  | [], _, h => h
  | _ :: _, _, h =>
    Kinds.append (Kinds.repairRun fun e he => h e (List.mem_append_left _ he))
      (Kinds.repairRuns fun e he => h e (List.mem_append_right _ he))

theorem repairRuns_events {now : ℤ} : ∀ {runs : List Run} {id : ℕ},
    (∀ run ∈ runs, run.unpaired = false) →
    (repairRuns now id runs).flatMap (fun run => run.events) = runs.flatMap fun run => run.events
  | [], _, _ => rfl
  | run :: runs, _, h => by
    simp only [repairRuns, List.flatMap_cons, repairRun_events (h run List.mem_cons_self)]
    rw [repairRuns_events fun run' hr => h run' (List.mem_cons_of_mem _ hr)]

/-- Each run that ended in a call closes one. -/
theorem unansweredIn_repairRuns (now : ℤ) : ∀ (runs : List Run) (id : ℕ),
    unansweredIn ((repairRuns now id runs).flatMap fun run => run.events) =
      unansweredIn (runs.flatMap fun run => run.events) - runs.countP Run.unpaired
  | [], _ => rfl
  | run :: runs, id => by
    have ih := unansweredIn_repairRuns now runs
    simp only [repairRuns, List.flatMap_cons, unansweredIn_append, List.countP_cons, ih]
    rcases hu : run.unpaired with _ | _
    · rw [repairRun_events hu]
      simp
      omega
    · obtain ⟨payload, hp⟩ := repairRun_unpaired id now hu
      rw [hp, unansweredIn_append, unansweredIn_singleton]
      simp
      omega

/-! ## The invariant -/

/-- The calls of the last assistant message that a turn in flight has not answered. -/
def Phase.pending : Phase → List String
  | .turn t => t.calls ++ t.running
  | _ => []

def Phase.runningCalls : Phase → List String
  | .turn t => t.running
  | _ => []

structure Clean (model : Model) (s : Sys) : Prop where
  converts : ∃ ms p, storedMessages model s.history = .ok ms ∧ answerAll [] ms = some p ∧
    p.Perm s.phase.pending
  unanswered : unansweredIn s.history = s.phase.runningCalls.length

/-- A call stays unanswered, so no wake continues from this history. -/
structure Refused (s : Sys) : Prop where
  phase : s.phase = .idle ∨ s.phase = .down
  unanswered : 0 < unansweredIn s.history

structure Inv (model : Model) (s : Sys) : Prop where
  kinds : Kinds s.events
  history : Clean model s ∨ Refused s

namespace Inv

variable {s s' : Sys}

theorem replays (h : Inv model s) (hs : s.phase.settled = true) : s.Replays model := by
  intro entries he
  have hw := walk_of_reconstruct he
  have hu := unanswered_of_reconstruct h.kinds he
  rcases h.history with hc | hr
  · obtain ⟨ms, p, hms, hp, hperm⟩ := hc.converts
    have hpending : s.phase.pending = [] := by
      rcases hph : s.phase with _ | _ | _ | _ <;> simp [hph, Phase.settled] at hs <;> rfl
    obtain rfl : p = [] := by simpa [hpending] using hperm
    refine ⟨ms, ?_, replayable_of_answerAll hp⟩
    rw [toPiMessages_walk hw, ← hms, Sys.history, storedMessages_conversational]
  · have := hr.unanswered
    rw [Sys.history, unansweredIn_conversational] at this
    omega

theorem of_history (h : Inv model s) (hk : Kinds s'.events) (hh : s'.history = s.history)
    (hp : s'.phase.pending = s.phase.pending)
    (hr : s'.phase.runningCalls = s.phase.runningCalls)
    (hphase : s.phase = .idle ∨ s.phase = .down → s'.phase = .idle ∨ s'.phase = .down) :
    Inv model s' where
  kinds := hk
  history := by
    rcases h.history with hc | hrefused
    · obtain ⟨ms, p, hms, hps, hperm⟩ := hc.converts
      refine .inl ⟨⟨ms, p, by rw [hh]; exact hms, hps, by rw [hp]; exact hperm⟩, ?_⟩
      rw [hh, hr]
      exact hc.unanswered
    · refine .inr ⟨hphase hrefused.phase, ?_⟩
      rw [hh]
      exact hrefused.unanswered

theorem cut (h : Inv model s) (hk : s'.events = s.events)
    (hphase : s'.phase = .idle ∨ s'.phase = .down)
    (hcut : ∀ t, s.phase = .turn t → t.running = [] → t.calls = []) : Inv model s' where
  kinds := by
    rw [hk]
    exact h.kinds
  history := by
    have hh : s'.history = s.history := by rw [Sys.history, Sys.history, hk]
    have hp' : s'.phase.pending = [] ∧ s'.phase.runningCalls = [] := by
      rcases hphase with hp | hp <;> rw [hp] <;> exact ⟨rfl, rfl⟩
    rcases h.history with hc | hr
    · by_cases hrun : s.phase.runningCalls = []
      · have hpending : s.phase.pending = [] := by
          rcases hph : s.phase with _ | t | _ | _
          · rfl
          · rw [hph] at hrun
            have hrun : t.running = [] := hrun
            simp [Phase.pending, hcut t hph hrun, hrun]
          · rfl
          · rfl
        obtain ⟨ms, p, hms, hps, hperm⟩ := hc.converts
        refine .inl ⟨⟨ms, p, by rw [hh]; exact hms, hps, ?_⟩, ?_⟩
        · rw [hp'.1, ← hpending]
          exact hperm
        · rw [hh, hp'.2, hc.unanswered, hrun]
      · refine .inr ⟨hphase, ?_⟩
        rw [hh, hc.unanswered]
        have := List.length_pos_iff.mpr hrun
        omega
    · refine .inr ⟨hphase, ?_⟩
      rw [hh]
      exact hr.unanswered

theorem emit (h : Inv model s) {t t' : Turn} {event : AgentEvent} {now : ℤ}
    (hphase : s.phase = .turn t) (ht : t.event event = some t') (hruns : s.runs ≠ [])
    (hfailed : ∀ m, event = .message_end (.assistant m) → m.failed = true →
      toolCallIds m.content = [])
    (hs' : s'.events = (s.record toolEventMetadata event now).events)
    (hphase' : s'.phase = .turn t') : Inv model s' := by
  have hrows := storesAs_stored toolEventMetadata model ht s.targets s.nextEventId now
  rw [record_events hruns] at hs'
  have hh : s'.history =
      s.history ++ stored toolEventMetadata event s.targets s.nextEventId now := by
    rw [Sys.history, hs', conversational_append, hrows.conversational]
    rfl
  refine ⟨by rw [hs']; exact h.kinds.append hrows.kinds, .inl ?_⟩
  have hc : Clean model s := by
    rcases h.history with hc | hr
    · exact hc
    · rcases hr.phase with hp | hp <;> rw [hphase] at hp <;> cases hp
  obtain ⟨ms, p, hms, hps, hperm⟩ := hc.converts
  rw [hphase] at hperm
  obtain ⟨⟨p', hp', hperm'⟩, hlen⟩ := answerAll_added model now ht hperm hfailed
  refine ⟨⟨ms ++ added model now event, p', ?_, ?_, ?_⟩, ?_⟩
  · rw [hh, storedMessages_append, hms]
    simp [hrows.messages, bind, Except.bind, pure, Except.pure]
  · rw [answerAll_append, hps]
    exact hp'
  · rw [hphase']
    exact hperm'
  · rw [hh, unansweredIn_append, hc.unanswered, hrows.unanswered, hphase, hphase']
    exact hlen.symm

theorem repair (h : Inv model s) {active : Bool} {now : ℤ} (hphase : s.phase = .down)
    (hok : CutBetweenCalls s (.repairInterruptedRuns active now))
    (hs' : s'.runs = (repairInterruptedRuns s active now).runs) (hphase' : s'.phase = .idle) :
    Inv model s' := by
  have hdown : ∀ t, s.phase = .turn t → t.running = [] → t.calls = [] := by
    intro t ht
    rw [hphase] at ht
    cases ht
  rcases active with _ | _
  · have hev : s'.events = s.events := by
      unfold Sys.events
      rw [hs']
      rfl
    exact h.cut hev (.inl hphase') hdown
  have hs' : s'.runs = repairRuns now s.nextEventId s.runs := hs'
  have hk : Kinds s'.events := by
    unfold Sys.events
    rw [hs']
    exact Kinds.repairRuns h.kinds
  rcases hok rfl with hcut | hcut
  · have hev : s'.events = s.events := by
      unfold Sys.events
      rw [hs', repairRuns_events hcut]
    exact h.cut hev (.inl hphase') hdown
  · refine ⟨hk, .inr ⟨.inl hphase', ?_⟩⟩
    have := unansweredIn_repairRuns now s.runs s.nextEventId
    rw [← hs'] at this
    have hu : s.unanswered = unansweredIn (s.runs.flatMap fun run => run.events) := rfl
    rw [Sys.history, unansweredIn_conversational]
    change 0 < unansweredIn (s'.runs.flatMap fun run => run.events)
    omega

theorem initialMessages (h : Inv model s) {ms : List Message}
    (hm : s.initialMessages model = .ok ms) : Clean model s := by
  rcases h.history with hc | hr
  · exact hc
  · unfold Sys.initialMessages at hm
    rcases he : reconstructConversationHistory s.events with _ | entries
    · simp [he, bind, Except.bind] at hm
    · have hu := unanswered_of_reconstruct h.kinds he
      have := hr.unanswered
      rw [Sys.history, unansweredIn_conversational] at this
      omega

end Inv

theorem history_insertEvent {s : Sys} {i : ℕ} {status : String} {now : ℤ} :
    (s.insertEvent i (Sys.runStatus status) now).history = s.history :=
  conversational_flatMap_modify
    (fun run => by simp [conversational, kindOf, stringField, Sys.runStatus, JsonObject.get?])
    s.runs

theorem history_createAgentRun {s : Sys} {now : ℤ} :
    (s.createAgentRun now).history = s.history := by
  simp [Sys.history, Sys.events, Sys.createAgentRun, conversational]

theorem Kinds.createAgentRun {s : Sys} {now : ℤ} (h : Kinds s.events) :
    Kinds (s.createAgentRun now).events := by
  have : (s.createAgentRun now).events =
      s.events ++ [⟨s.nextEventId, "run_status", Sys.runStatus "running", now⟩] := by
    simp [Sys.events, Sys.createAgentRun]
  rw [this]
  refine h.append fun e he => ?_
  obtain rfl := List.mem_singleton.mp he
  rfl

theorem Inv.step {s s' : Sys} {a : Act} (h : Inv model s) (hok : CutBetweenCalls s a)
    (hs : step toolEventMetadata model s a = some s') : Inv model s' := by
  cases a with
  | skipEventId =>
    obtain rfl := Option.some.inj hs
    exact h.of_history h.kinds rfl rfl rfl id
  | wake task now =>
    simp only [PiSession.step] at hs
    split at hs
    · rename_i ms hphase hm
      obtain rfl := Option.some.inj hs
      have hc := h.initialMessages hm
      refine ⟨h.kinds.createAgentRun, .inl ?_⟩
      obtain ⟨ms, p, hms, hps, hperm⟩ := hc.converts
      have hh : ((s.createAgentRun now).prompt task now).history = s.history :=
        history_createAgentRun
      refine ⟨⟨ms, p, by rw [hh]; exact hms, hps, ?_⟩, ?_⟩
      · rw [hphase] at hperm
        exact hperm
      · rw [hh, hc.unanswered, hphase]
        rfl
    · cases hs
  | failWake now =>
    simp only [PiSession.step] at hs
    split at hs
    · rename_i hphase
      obtain rfl := Option.some.inj hs
      exact h.of_history h.kinds.createAgentRun history_createAgentRun rfl rfl id
    · cases hs
  | send task now | endTurn =>
    simp only [PiSession.step] at hs
    split at hs
    · rename_i hphase
      obtain rfl := Option.some.inj hs
      exact h.of_history h.kinds rfl (by rw [hphase]; rfl) (by rw [hphase]; rfl)
        (by rw [hphase]; simp)
    · cases hs
  | emit event now =>
    simp only [PiSession.step] at hs
    split at hs
    · rename_i t hphase
      split at hs
      · rename_i t' ht
        split_ifs at hs with hrun
        obtain rfl := Option.some.inj hs
        refine h.emit hphase ht (ne_nil_of_any hrun) (fun m hm => ?_) rfl rfl
        subst hm
        exact hok
      · cases hs
    · cases hs
  | endToolResult toolCallId now =>
    simp only [PiSession.step] at hs
    split at hs
    · rename_i t hphase
      split at hs
      · obtain rfl := Option.some.inj hs
        exact h.of_history h.kinds rfl (by rw [hphase]; rfl) (by rw [hphase]; rfl)
          (by rw [hphase]; simp)
      · cases hs
    · cases hs
  | failTurn =>
    simp only [PiSession.step] at hs
    split at hs
    · obtain rfl := Option.some.inj hs
      exact h.cut rfl (.inl rfl) hok
    · cases hs
  | finishAgentRun i =>
    obtain rfl := Option.some.inj hs
    exact h.of_history (Kinds.flatMap_modify (fun _ hk => hk) h.kinds)
      (conversational_flatMap_modify (f := fun run => { run with running := false })
        (fun _ => rfl) s.runs) rfl rfl id
  | pushRunStatus i status now =>
    simp only [PiSession.step] at hs
    split_ifs at hs
    obtain rfl := Option.some.inj hs
    refine h.of_history (Kinds.flatMap_modify (fun run hk => hk.append ?_) h.kinds)
      history_insertEvent rfl rfl id
    intro e he
    obtain rfl := List.mem_singleton.mp he
    rfl
  | clearEntry =>
    simp only [PiSession.step] at hs
    split at hs
    · rename_i hphase
      split_ifs at hs
      obtain rfl := Option.some.inj hs
      exact h.cut rfl (.inl rfl) fun t ht => by rw [hphase] at ht; cases ht
    · cases hs
  | crash =>
    obtain rfl := Option.some.inj hs
    exact h.cut rfl (.inr rfl) hok
  | repairInterruptedRuns active now =>
    simp only [PiSession.step] at hs
    split at hs
    · rename_i hphase
      obtain rfl := Option.some.inj hs
      exact h.repair hphase hok rfl rfl
    · cases hs

theorem Inv.init : Inv model Sys.init where
  kinds := nofun
  history := .inl ⟨⟨[], [], rfl, rfl, .refl _⟩, rfl⟩

/-! ## The conversation -/

theorem replays_of_cutBetweenCalls (toolEventMetadata : String → Option ToolEventMetadata)
    (model : Model) {s : Sys}
    (h : Reach (step toolEventMetadata model) CutBetweenCalls Sys.init s)
    (hs : s.phase.settled = true) : s.Replays model :=
  (h.invariant Inv.init fun _ _ _ hi hok hstep => hi.step hok hstep).replays hs

/-- Decides `CutBetweenCalls` for runs with no failure. -/
def uncut (_ : Sys) : Act → Bool
  | .emit (.message_end (.assistant m)) _ => !m.failed
  | .failTurn => false
  | .crash => false
  | .repairInterruptedRuns .. => false
  | _ => true

theorem cutBetweenCalls_of_uncut {s : Sys} {a : Act} (h : uncut s a = true) :
    CutBetweenCalls s a := by
  cases a with
  | emit event now =>
    cases event with
    | message_end m =>
      cases m with
      | assistant m =>
        intro hf
        simp [uncut, hf] at h
      | _ => trivial
    | _ => trivial
  | failTurn => cases h
  | crash => cases h
  | repairInterruptedRuns active now => cases h
  | _ => trivial

section

def gpt : Model := ⟨"openai-responses", "gateway", "gpt"⟩

def replies (blocks : List Json) (stopReason : String) : AgentEvent :=
  .message_end (.assistant ⟨.arr blocks, "", "", "", Usage.zero, stopReason, none, 0⟩)

def readCall : Json := .obj [("type", .str "toolCall"), ("id", .str "call-1"),
  ("name", .str "get_item"), ("arguments", .obj [("itemId", .str "i")])]

def answerText (text : String) : Json := .obj [("type", .str "text"), ("text", .str text)]

def toolOf : String → Option ToolEventMetadata
  | "get_item" => some (.operation "getItem")
  | _ => none

def callingTurn : List Act :=
  [.wake "what is due?" 0, .emit .turn_start 1, .emit (replies [readCall] "toolUse") 2,
    .emit (.tool_execution_start "call-1" "get_item" (.obj [("itemId", .str "i")])) 3,
    .emit (.tool_execution_end "call-1" "get_item" ⟨.arr [answerText "Friday"], none⟩ false) 4,
    .endToolResult "call-1" 5, .emit .turn_end 6,
    .emit (replies [answerText "On Friday."] "stop") 7, .endTurn]

theorem replays_callingTurn : ∃ s, runActs (step toolOf gpt) .init callingTurn = some s ∧
    s.Replays gpt ∧ s.events.length = 7 := by
  obtain ⟨s, hs⟩ := Option.isSome_iff_exists.mp
    (show (runChecked (step toolOf gpt) uncut .init callingTurn).isSome = true by decide +kernel)
  refine ⟨s, runActs_of_runChecked hs, replays_of_cutBetweenCalls toolOf gpt
    (.of_runChecked (fun _ _ => cutBetweenCalls_of_uncut) hs) ?_, ?_⟩
  · exact eq_of_map_eq (f := fun s => s.phase.settled) (b := true) hs (by decide +kernel)
  · exact eq_of_map_eq (f := fun s => s.events.length) (b := 7) hs (by decide +kernel)

def interruptedCall : List Act :=
  callingTurn.take 4 ++ [Act.crash, Act.repairInterruptedRuns true 8]

def converts (s : Sys) : Option Bool :=
  match reconstructConversationHistory s.events with
  | .ok entries => some (match toPiMessages entries gpt with
    | .ok _ => true
    | .error _ => false)
  | .error _ => none

theorem interruptedCall_not_replays : ∃ s, Reach (step toolOf gpt) (fun _ _ => True) .init s ∧
    s.phase.settled = true ∧ ¬ s.Replays gpt := by
  obtain ⟨s, hs⟩ := Option.isSome_iff_exists.mp
    (show (runActs (step toolOf gpt) .init interruptedCall).isSome = true by decide +kernel)
  refine ⟨s, .of_runActs hs, ?_, fun h => ?_⟩
  · exact eq_of_map_eq (f := fun s => s.phase.settled) (b := true) hs (by decide +kernel)
  · have hc : converts s = some false :=
      eq_of_map_eq (f := converts) (b := some false) hs (by decide +kernel)
    unfold converts at hc
    rcases he : reconstructConversationHistory s.events with _ | entries
    · simp [he] at hc
    · obtain ⟨messages, hm, -⟩ := h entries he
      simp [he, hm] at hc

end

end PiSession

end Semprec
