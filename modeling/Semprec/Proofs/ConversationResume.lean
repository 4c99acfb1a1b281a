import Semprec.Proofs.ConversationTail

/-!
# When a conversation can be resumed

The open calls of the stored history are those of the turn in flight (`History`).  A turn that ends
leaves none, and a restart gives the one that was cut its synthetic result; a turn that throws with
a call open, or one that is cut with two open, leaves a history which no wake accepts.
-/

namespace Semprec

namespace Conversation

variable {s s' : Sys} {w n : ℕ} {m : AgentMessage}

def Sys.openAtEnd (s : Sys) : Except String (List String) :=
  openCalls (s.log.foldl Walk.event .init).entries

def Sys.Repairable (s : Sys) (n : ℕ) : Prop :=
  s.openAtEnd = .ok [] ∨ ∃ w m toolCallId, n ≤ w ∧ s.openAtEnd = .ok [toolCallId] ∧
    s.runs[w]? = some .running ∧ s.ToolUseLast w m ∧ m.toolCallId = some toolCallId

def History (s : Sys) : Phase → Prop
  | .idle => s.openAtEnd = .ok []
  | .reconstructed compacted =>
    s.openAtEnd = .ok [] ∧ ∀ entries, compacted = some entries → openCalls entries = .ok []
  | .created _ compacted =>
    s.openAtEnd = .ok [] ∧ ∀ entries, compacted = some entries → openCalls entries = .ok []
  | .turn w calls => s.openAtEnd = .ok calls ∧ (calls ≠ [] → s.runs[w]? = some .running)
  | .entry _ => s.openAtEnd = .ok []
  | .down => s.Repairable 0

structure ResumeInv (s : Sys) : Prop where
  base : LogInv s
  history : History s s.phase

theorem resumeInv_init : ResumeInv Sys.init := ⟨logInv_init, rfl⟩

/-! ## The open calls of a stored event -/

theorem openAtEnd_message {now : ℤ} : (s.insertEvent w (.message m) now).openAtEnd =
    s.openAtEnd.bind fun pending => checkMessage pending m := by
  unfold Sys.openAtEnd
  simp only [Sys.insertEvent, List.foldl_append, List.foldl_cons, List.foldl_nil]
  by_cases hm : m.kind = .run_status
  · rw [Walk.event_status _ (by simp [AgentRunEventRow.conversational, hm])]
    rcases openCalls (s.log.foldl Walk.event .init).entries with error | pending
    · rfl
    · simp [Except.bind, checkMessage, hm]
  · rw [entries_event_message _ hm, openCalls_append]

theorem openAtEnd_compaction {entries : List ConversationEntry} {now : ℤ} :
    (s.insertEvent w (.compaction entries) now).openAtEnd = openCalls entries := by
  unfold Sys.openAtEnd
  simp only [Sys.insertEvent, List.foldl_append, List.foldl_cons, List.foldl_nil, Walk.event]
  rcases entries.getLast? with _ | last <;> rfl

/-- The only open call is the one whose `tool_use` is the last event. -/
theorem toolCallId_of_last (hi : LogInv s) (hrunning : s.runs[w]? = some .running)
    (h : s.ToolUseLast w m) {toolCallId : String} (hopen : s.openAtEnd = .ok [toolCallId]) :
    m.toolCallId = some toolCallId := by
  obtain ⟨x, id, at_, hentries⟩ := hi.split_toolUse hrunning h
  obtain ⟨e, -, -, hkind⟩ := h
  unfold Sys.openAtEnd at hopen
  rw [hentries, openCalls_append] at hopen
  rcases hx : openCalls x.entries with error | pending
  · rw [hx] at hopen
    cases hopen
  · rw [hx] at hopen
    simp only [Except.bind, checkMessage, hkind] at hopen
    rcases hid : m.toolCallId with _ | found
    · rw [hid] at hopen
      cases hopen
    · rw [hid] at hopen
      simp only [Except.ok.injEq] at hopen
      rcases pending with _ | ⟨call, calls⟩
      · simpa using hopen
      · simp at hopen

/-! ## The repair -/

theorem repairRun_runs (now : ℤ) (s : Sys) (n : ℕ) :
    (repairRun now s n).runs.length = s.runs.length := by
  unfold repairRun
  split_ifs
  · have hsame : (appendSyntheticResult now s n).runs = s.runs := by
      rcases appendSyntheticResult_cases now s n with ⟨m, -, heq⟩ | ⟨-, heq⟩ <;> rw [heq]
      rfl
    simp [Sys.finishAgentRun, hsame]
  · rfl

theorem runs_finishAgentRun_of_ne {status : AgentRunStatus} (hne : w ≠ n) :
    (s.finishAgentRun n status).runs[w]? = s.runs[w]? := by
  simp [Sys.finishAgentRun, Ne.symm hne]

theorem checkMessage_syntheticResult {toolCallId : String} (h : m.toolCallId = some toolCallId) :
    checkMessage [toolCallId] (syntheticResult m) = .ok [] := by
  simp [checkMessage, syntheticResult, h]

theorem Repairable.repairRun (hi : LogInv s) (h : s.Repairable n) (now : ℤ) :
    (repairRun now s n).Repairable (n + 1) := by
  unfold Conversation.repairRun
  split_ifs with hrunning
  · rcases appendSyntheticResult_cases now s n with ⟨m, hm, heq⟩ | ⟨hnot, heq⟩
    · rcases h with hnil | ⟨w, m', toolCallId, hle, hopen, hw, hm', hid⟩
      · exact absurd hm (hi.checked_of_openCalls hnil hrunning)
      · refine .inl ?_
        have hid' := toolCallId_of_last hi hrunning hm hopen
        rw [heq]
        show (s.insertEvent n (.message (syntheticResult m)) now).openAtEnd = .ok []
        rw [openAtEnd_message, hopen]
        exact checkMessage_syntheticResult hid'
    · rw [heq]
      rcases h with hnil | ⟨w, m', toolCallId, hle, hopen, hw, hm', hid⟩
      · exact .inl hnil
      · have hne : w ≠ n := by
          rintro rfl
          exact hnot m' hm'
        exact .inr ⟨w, m', toolCallId, by omega, hopen, (runs_finishAgentRun_of_ne hne).trans hw,
          hm', hid⟩
  · rcases h with hnil | ⟨w, m', toolCallId, hle, hopen, hw, hm', hid⟩
    · exact .inl hnil
    · have hne : w ≠ n := by
        rintro rfl
        exact hrunning hw
      exact .inr ⟨w, m', toolCallId, by omega, hopen, hw, hm', hid⟩

theorem repairable_foldl (hi : LogInv s) (hphase : s.phase = .down) (h : s.Repairable 0) (now : ℤ)
    (n : ℕ) : LogInv ((List.range n).foldl (repairRun now) s) ∧
      ((List.range n).foldl (repairRun now) s).phase = .down ∧
      ((List.range n).foldl (repairRun now) s).runs.length = s.runs.length ∧
      ((List.range n).foldl (repairRun now) s).Repairable n := by
  induction n with
  | zero => exact ⟨hi, hphase, rfl, h⟩
  | succ n ih =>
    obtain ⟨hi', hphase', hlength, hrepair⟩ := ih
    obtain ⟨hi'', hphase''⟩ := hi'.repairRun hphase' now n
    rw [List.range_succ, List.foldl_append, List.foldl_cons, List.foldl_nil]
    exact ⟨hi'', hphase'', (repairRun_runs ..).trans hlength, Repairable.repairRun hi' hrepair now⟩

theorem openAtEnd_repairInterruptedRuns (hi : LogInv s) (hphase : s.phase = .down)
    (h : s.Repairable 0) {active : Bool} {now : ℤ}
    (hok : CutBetweenCalls s (.repairInterruptedRuns active now)) :
    (repairInterruptedRuns s active now).openAtEnd = .ok [] := by
  unfold repairInterruptedRuns
  split_ifs with hactive
  swap
  · rcases h with hnil | ⟨w, m, toolCallId, -, -, hw, hm, -⟩
    · exact hnil
    · exact absurd hm (hok (by simpa using hactive) w m hw)
  obtain ⟨-, -, hlength, hrepair⟩ := repairable_foldl hi hphase h now s.runs.length
  rcases hrepair with hnil | ⟨w, m, toolCallId, hle, -, hw, -⟩
  · exact hnil
  · obtain ⟨hlt, -⟩ := List.getElem?_eq_some_iff.mp hw
    omega

/-! ## The steps -/

theorem History.crash (hi : ResumeInv s) (hok : CutBetweenCalls s .crash) : s.Repairable 0 := by
  have hhistory := hi.history
  rcases hphase : s.phase with _ | compacted | ⟨w, compacted⟩ | ⟨w, calls⟩ | w | _
  all_goals rw [hphase] at hhistory
  · exact .inl hhistory
  · exact .inl hhistory.1
  · exact .inl hhistory.1
  · obtain ⟨hopen, hrunning⟩ := hhistory
    rcases hok w calls hphase with rfl | ⟨hlength, m, hm⟩
    · exact .inl hopen
    · obtain ⟨toolCallId, rfl⟩ := List.length_eq_one_iff.mp hlength
      have hw := hrunning nofun
      exact .inr ⟨w, m, toolCallId, Nat.zero_le _, hopen, hw, hm,
        toolCallId_of_last hi.base hw hm hopen⟩
  · exact .inl hhistory
  · exact hhistory

theorem History.keep {phase : Phase} (h : History s phase) (hlog : s'.log = s.log)
    (hruns : ∀ w, (phase.drives w = true ∨ phase = .down) → s.runs[w]? = some .running →
      s'.runs[w]? = some .running ∧ s'.lastEvent w = s.lastEvent w) : History s' phase := by
  have hopen : s'.openAtEnd = s.openAtEnd := by
    unfold Sys.openAtEnd
    rw [hlog]
  cases phase with
  | idle => exact hopen.trans h
  | reconstructed compacted => exact ⟨hopen.trans h.1, h.2⟩
  | created w compacted => exact ⟨hopen.trans h.1, h.2⟩
  | turn w calls =>
    exact ⟨hopen.trans h.1, fun hne => (hruns w (.inl (by simp [Phase.drives])) (h.2 hne)).1⟩
  | entry w => exact hopen.trans h
  | down =>
    rcases h with hnil | ⟨w, m, toolCallId, hle, hcalls, hw, ⟨e, he, hm⟩, hid⟩
    · exact .inl (hopen.trans hnil)
    · obtain ⟨hw', hlast⟩ := hruns w (.inr rfl) hw
      exact .inr ⟨w, m, toolCallId, hle, hopen.trans hcalls, hw', ⟨e, hlast.trans he, hm⟩, hid⟩

theorem resumeInv_step (hi : ResumeInv s) {a : Act} (hstream : AnswersInOrder s a)
    (hok : CutBetweenCalls s a) (h : step s a = some s') : ResumeInv s' := by
  refine ⟨logInv_step hi.base h, ?_⟩
  have hhistory := hi.history
  cases a with
  | skipEventId =>
    cases h
    exact hhistory.keep rfl fun _ _ h => ⟨h, rfl⟩
  | reconstruct compaction =>
    simp only [step] at h
    split at h
    · next entries compacted hphase hr =>
      cases h
      obtain ⟨hopen, hentries⟩ := reconstruct_ok hr
      rw [hi.base.walk_tail] at hopen
      refine ⟨hopen, fun entries' he => ?_⟩
      split_ifs at he
      cases he
      exact hentries
    · cases h
  | createAgentRun =>
    simp only [step] at h
    split at h
    · next compacted hphase =>
      cases h
      rw [hphase] at hhistory
      exact hhistory
    · cases h
  | persistCompaction now =>
    simp only [step] at h
    split at h
    · next w entries hphase =>
      cases h
      rw [hphase] at hhistory
      exact ⟨openAtEnd_compaction.trans (hhistory.2 entries rfl), nofun⟩
    · cases h
  | createAgentSession =>
    simp only [step] at h
    split at h
    · next w hphase =>
      cases h
      rw [hphase] at hhistory
      exact ⟨hhistory.1, fun hne => absurd rfl hne⟩
    · cases h
  | failWake =>
    simp only [step] at h
    split at h
    · next hphase =>
      cases h
      rw [hphase] at hhistory
      exact hhistory.1
    · next hphase =>
      cases h
      rw [hphase] at hhistory
      exact hhistory.1
    · cases h
  | emit m now =>
    simp only [step] at h
    split at h
    · next w calls hphase =>
      split_ifs at h with hguard
      cases h
      rw [hphase] at hhistory
      obtain ⟨hopen, hrunning⟩ := hhistory
      have hm := hstream w calls hphase
      refine ⟨?_, fun hne => ?_⟩
      · show (s.insertEvent w (.message m) now).openAtEnd = .ok (callsAfter calls m)
        rw [openAtEnd_message, hopen]
        exact hm
      · rcases hguard with hw | hkind
        · exact hw
        · simp only [checkMessage, hkind, Except.ok.injEq] at hm
          exact hrunning (hm ▸ hne)
    · cases h
  | endTurn =>
    simp only [step] at h
    split at h
    · next w calls hphase =>
      cases h
      rw [hphase] at hhistory
      obtain rfl := hstream w calls hphase
      exact hhistory.1
    · cases h
  | failTurn =>
    simp only [step] at h
    split at h
    · next w calls hphase =>
      cases h
      rw [hphase] at hhistory
      have hnil := hok w calls hphase
      subst hnil
      exact hhistory.1
    · cases h
  | continueSession =>
    simp only [step] at h
    split at h
    · next w hphase =>
      cases h
      rw [hphase] at hhistory
      exact ⟨hhistory, fun hne => absurd rfl hne⟩
    · cases h
  | finishAgentRun wakeSeq status =>
    simp only [step] at h
    split_ifs at h with hguard
    cases h
    refine hhistory.keep rfl fun w hw hrunning => ⟨?_, rfl⟩
    have hne : w ≠ wakeSeq := by
      rintro rfl
      rcases hw with hw | hw
      · rw [hguard.2.1] at hw
        cases hw
      · exact hguard.1 hw
    exact (runs_finishAgentRun_of_ne hne).trans hrunning
  | pushRunStatus wakeSeq status now =>
    simp only [step] at h
    split_ifs at h with hguard
    cases h
    have hopen : (s.insertEvent wakeSeq (.message ⟨.run_status, none, status⟩) now).openAtEnd =
        s.openAtEnd := by
      rw [openAtEnd_message]
      rcases s.openAtEnd with error | pending <;> rfl
    have hphase : s.phase ≠ .down := by
      intro hdown
      rw [hdown] at hguard
      exact nomatch hguard.2
    show History _ s.phase
    rcases hp : s.phase with _ | compacted | ⟨w, compacted⟩ | ⟨w, calls⟩ | w | _
    all_goals rw [hp] at hhistory
    · exact hopen.trans hhistory
    · exact ⟨hopen.trans hhistory.1, hhistory.2⟩
    · exact ⟨hopen.trans hhistory.1, hhistory.2⟩
    · exact ⟨hopen.trans hhistory.1, hhistory.2⟩
    · exact hopen.trans hhistory
    · exact absurd hp hphase
  | clearEntry =>
    simp only [step] at h
    split at h
    · next w hphase =>
      split_ifs at h
      cases h
      rw [hphase] at hhistory
      exact hhistory
    · cases h
  | crash =>
    cases h
    have hrepairable : s.Repairable 0 := History.crash hi hok
    exact hrepairable
  | repairInterruptedRuns active now =>
    simp only [step] at h
    split_ifs at h with hphase
    cases h
    rw [hphase] at hhistory
    exact openAtEnd_repairInterruptedRuns hi.base hphase hhistory hok
  | beginSweep j =>
    cases h
    exact hhistory.keep rfl fun _ _ h => ⟨h, rfl⟩
  | deleteBatch j now =>
    simp only [step] at h
    split at h
    · next c hj =>
      cases h
      exact hhistory.keep rfl fun w _ hrunning => ⟨hrunning, lastEvent_deleteBatch hrunning⟩
    · cases h

/-- In every run in which turns throw and are cut between calls, the next wake accepts what is
stored whenever no turn is in flight. -/
theorem resumable (h : Reach step (fun s a => AnswersInOrder s a ∧ CutBetweenCalls s a) .init s) :
    s.Resumable := by
  have hi : ResumeInv s :=
    h.invariant resumeInv_init fun _ _ _ hi hok hs => resumeInv_step hi hok.1 hok.2 hs
  have hhistory := hi.history
  rintro (hphase | ⟨w, hphase⟩)
  all_goals
    rw [hphase] at hhistory
    rw [hi.base.walk_tail]
    exact validate_ok.mpr hhistory

/-! ## Runs -/

def toolUseLast (s : Sys) (w : ℕ) : Bool :=
  match s.lastEvent w with
  | some ⟨_, _, .message m, _⟩ => m.kind = .tool_use
  | _ => false

def answersInOrder (s : Sys) : Act → Bool
  | .emit m _ =>
    match s.phase with
    | .turn _ calls => (checkMessage calls m).toOption.isSome
    | _ => true
  | .endTurn =>
    match s.phase with
    | .turn _ calls => calls = []
    | _ => true
  | _ => true

theorem answersInOrder_of_check {a : Act} (h : answersInOrder s a = true) : AnswersInOrder s a := by
  cases a with
  | emit m now =>
    intro w calls hphase
    simp only [answersInOrder, hphase] at h
    unfold callsAfter
    rcases hm : checkMessage calls m with error | rest
    · rw [hm] at h
      cases h
    · rfl
  | endTurn =>
    intro w calls hphase
    simpa [answersInOrder, hphase] using h
  | _ => trivial

def cutBetweenCalls (s : Sys) : Act → Bool
  | .repairInterruptedRuns active _ => active
  | .failTurn =>
    match s.phase with
    | .turn _ calls => calls = []
    | _ => true
  | .crash =>
    match s.phase with
    | .turn w calls => calls = [] ∨ calls.length = 1 ∧ toolUseLast s w
    | _ => true
  | _ => true

theorem toolUseLast_iff (h : toolUseLast s w = true) : ∃ m, s.ToolUseLast w m := by
  unfold toolUseLast at h
  split at h
  · next id w' m at_ he => exact ⟨m, _, he, rfl, by simpa using h⟩
  · cases h

theorem cutBetweenCalls_of_check {a : Act} (h : cutBetweenCalls s a = true) :
    CutBetweenCalls s a := by
  cases a with
  | repairInterruptedRuns active now =>
    intro hactive
    simp [cutBetweenCalls, hactive] at h
  | failTurn =>
    intro w calls hphase
    simpa [cutBetweenCalls, hphase] using h
  | crash =>
    intro w calls hphase
    simp only [cutBetweenCalls, hphase, decide_eq_true_eq] at h
    exact h.imp_right fun h => ⟨h.1, toolUseLast_iff h.2⟩
  | _ => trivial

section

def wake : List Act :=
  [.reconstruct fun _ => none, .createAgentRun, .createAgentSession]

/-- A turn is cut after its second call was stored; the first has its result. -/
def cutAndRepaired : List Act :=
  wake ++ [Act.emit ⟨.tool_use, some "a", "read"⟩ 0, Act.emit ⟨.tool_result, some "a", "text"⟩ 1,
    Act.emit ⟨.tool_use, some "b", "write"⟩ 2, Act.crash, Act.repairInterruptedRuns true 3]

theorem resumable_repaired : ∃ s, runActs step .init cutAndRepaired = some s ∧ s.Resumable ∧
    s.phase = .idle ∧ s.events.length = 4 := by
  obtain ⟨s, hs⟩ := Option.isSome_iff_exists.mp
    (show (runChecked step (fun s a => answersInOrder s a && cutBetweenCalls s a) .init
      cutAndRepaired).isSome = true by decide +kernel)
  refine ⟨s, runActs_of_runChecked hs, resumable (.of_runChecked (fun s a h => ?_) hs), ?_, ?_⟩
  · obtain ⟨hstream, hcut⟩ := Bool.and_eq_true_iff.mp h
    exact ⟨answersInOrder_of_check hstream, cutBetweenCalls_of_check hcut⟩
  · exact eq_of_map_eq (f := fun s => s.phase) (b := .idle) hs (by decide +kernel)
  · exact eq_of_map_eq (f := fun s => s.events.length) (b := 4) hs (by decide +kernel)

def thrownInCall : List Act :=
  wake ++ [Act.emit ⟨.tool_use, some "a", "read"⟩ 0, Act.failTurn, Act.finishAgentRun 0 .error,
    Act.pushRunStatus 0 "error" 1]

def callsLeftOpen (s : Sys) : List String :=
  match openCalls (walkStoredEntries (listSessionAgentRunEventsFromLastCompaction s.events)) with
  | .ok calls => calls
  | .error _ => []

theorem thrownInCall_not_resumable :
    ∃ s, Reach step AnswersInOrder .init s ∧ ¬ s.Resumable := by
  obtain ⟨s, hs⟩ := Option.isSome_iff_exists.mp
    (show (runChecked step answersInOrder .init thrownInCall).isSome = true by decide +kernel)
  refine ⟨s, .of_runChecked (fun _ _ => answersInOrder_of_check) hs, fun h => ?_⟩
  have hphase : s.phase = .idle :=
    eq_of_map_eq (f := fun s => s.phase) (b := .idle) hs (by decide +kernel)
  have hopen : callsLeftOpen s = ["a"] :=
    eq_of_map_eq (f := callsLeftOpen) (b := ["a"]) hs (by decide +kernel)
  rw [callsLeftOpen, validate_ok.mp (h (.inl hphase))] at hopen
  cases hopen

end

end Conversation

end Semprec
