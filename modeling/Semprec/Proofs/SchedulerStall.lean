import Semprec.Proofs.SchedulerOccurrences

/-!
# The scheduler does not stall

An enabled time-based heartbeat either has a next instant that a sweep can act on, or a fire is
pending that writes one.  The instants computed from the database clock are later than every
occurrence there is; what can stall a heartbeat is an instant computed from an application clock
that lags, an attempt that writes into an occurrence that is due again, and a fire that is consumed
without being prepared (`KeepsSchedule`).
-/

namespace Semprec

namespace Scheduler

variable {L : Luxon} {modules : HeartbeatRuleKindRegistry L} {s s' : Sys L} {a : Act L}

def SweepActs (modules : HeartbeatRuleKindRegistry L) (s : Sys L) (id : ℕ) (v : ℤ)
    (rule : AnyHeartbeatRule) : Prop :=
  ∀ o, s.occurrences ⟨id, v⟩ = some o → o.status = .cancelled ∨
    o.status = .queued ∧ ∀ data, parseHeartbeatRule rule modules = .ok data → o.ruleSnapshot ≠ data

/-- The attempt has yet to prepare, or to restore the schedule of a fire it could not set up. -/
def Phase.unprepared : Phase → Bool
  | .started | .setupFailed _ => true
  | _ => false

/-- The job has a delivery left, or its final attempt has yet to prepare; and no attempt is about to
complete it. -/
structure Carries (s : Sys L) (j : ℕ) (key : OccurrenceId) (generation : ℕ) : Prop where
  job : ∃ job, s.jobs j = some job ∧ job.occurrenceId = key ∧ job.generation = generation ∧
    (job.attempts < MAX_ATTEMPTS ∨ ∃ n att, s.attempts n = some att ∧ att.jobId = j ∧
      att.isFinalAttempt = true ∧ att.phase.unprepared = true)
  kept : ∀ n att, s.attempts n = some att → att.jobId = j → att.phase ≠ .completing

/-- A fire that has not started and will set the next instant. -/
def Pending (s : Sys L) (id : ℕ) (rule : AnyHeartbeatRule) : Prop :=
  rule.isFloating = true ∧ ∃ due o j, s.occurrences ⟨id, due⟩ = some o ∧
    o.firstStartedAt = none ∧ o.ruleSnapshot = rule ∧ Carries s j ⟨id, due⟩ o.generation

def Scheduled (modules : HeartbeatRuleKindRegistry L) (s : Sys L) (id : ℕ)
    (rule : AnyHeartbeatRule) (nextFireAt : Option ℤ) : Prop :=
  (∃ v, nextFireAt = some v ∧ SweepActs modules s id v rule) ∨ Pending s id rule

def NeverStalls (modules : HeartbeatRuleKindRegistry L) (s : Sys L) : Prop :=
  s.tenant = .active → ∀ id h, s.heartbeats id = some h → h.enabled = true →
    h.rule.isOnItemEvent = false →
    (∃ rule, parseHeartbeatRule h.rule (s.moduleRuleKinds modules) = .ok rule) →
    Scheduled modules s id h.rule h.nextFireAt

def Awaited (modules : HeartbeatRuleKindRegistry L) (s : Sys L) (key : OccurrenceId)
    (generation : ℕ) : Prop :=
  ∃ h o, s.heartbeats key.heartbeatId = some h ∧ h.enabled = true ∧ h.rule.isFloating = true ∧
    (∀ v, h.nextFireAt = some v → ¬ SweepActs modules s key.heartbeatId v h.rule) ∧
    s.occurrences key = some o ∧ o.generation = generation ∧ o.firstStartedAt = none ∧
    o.ruleSnapshot = h.rule

def DueAgain (modules : HeartbeatRuleKindRegistry L) (s : Sys L) (key : OccurrenceId) : Prop :=
  ∃ h, s.heartbeats key.heartbeatId = some h ∧ h.enabled = true ∧ h.rule.isOnItemEvent = false ∧
    h.nextFireAt = some key.scheduledFor ∧
    SweepActs modules s key.heartbeatId key.scheduledFor h.rule

/-- The instant that follows `appNow` schedules the heartbeat. -/
def AppClockKeeps (modules : HeartbeatRuleKindRegistry L) (s : Sys L) (tz : L.Timezone) (id : ℕ)
    (raw rule : AnyHeartbeatRule) (appNow : ℤ) : Prop :=
  ∀ data next, parseHeartbeatRule raw (s.moduleRuleKinds modules) = .ok data →
    computeNextFireAt data tz appNow (s.moduleRuleKinds modules) = .ok next →
    Scheduled modules s id rule next

def PrepareKeeps (modules : HeartbeatRuleKindRegistry L) (s : Sys L) (att : Attempt)
    (appNow : ℤ) : Prop :=
  ∀ h o, s.heartbeats att.occurrenceId.heartbeatId = some h →
    s.occurrences att.occurrenceId = some o → o.generation = att.generation → h.enabled = true →
    h.rule = o.ruleSnapshot →
    if h.rule.isFloating then
      o.firstStartedAt = none → ∀ v, s.computeNextFireAt modules h.rule appNow = .ok (some v) →
        v ≠ att.occurrenceId.scheduledFor ∧
          SweepActs modules s att.occurrenceId.heartbeatId v h.rule
    else (o.firstStartedAt = none ∨
        ∀ rule, parseHeartbeatRule h.rule (s.moduleRuleKinds modules) ≠ .ok rule) →
      ¬ DueAgain modules s att.occurrenceId

def KeepsSchedule (modules : HeartbeatRuleKindRegistry L) (s : Sys L) : Act L → Prop
  | .updateHeartbeatRule e raw appNow => ∀ edit, s.edits e = some edit →
      ∀ h, s.heartbeats edit.id = some h → h.enabled = true → raw.isOnItemEvent = false →
        ∀ rule, parseHeartbeatRule raw (s.moduleRuleKinds modules) = .ok rule →
          edit.read.enabled = true ∧ AppClockKeeps modules s s.timezone edit.id raw rule appNow
  | .enableHeartbeat e appNow => ∀ edit, s.edits e = some edit →
      ∀ h, s.heartbeats edit.id = some h → h.rule.isOnItemEvent = false →
        edit.read.rule.isOnItemEvent = false ∧
          AppClockKeeps modules s s.timezone edit.id edit.read.rule h.rule appNow
  | .changeTimezone newTimezone appNow => ∀ id h, s.heartbeats id = some h → h.enabled = true →
      h.rule.isOnItemEvent = false → h.rule.coreValid = true → h.nextFireAt ≠ none →
      AppClockKeeps modules s newTimezone id h.rule h.rule (appNow id)
  | .dispatch j => s.tenant.skipsTasks = true → ∀ job, s.jobs j = some job →
      ¬ Awaited modules s job.occurrenceId job.generation
  | .prepare n appNow => ∀ att, s.attempts n = some att → PrepareKeeps modules s att appNow
  | .succeed n => ∀ att, s.attempts n = some att → ¬ DueAgain modules s att.occurrenceId
  | .closeOut n => ∀ att, s.attempts n = some att → att.isFinalAttempt = true →
      ((∃ o, s.occurrences att.occurrenceId = some o ∧ o.status = .cancelled) ∧
        att.phase.unprepared = true ∨ ¬ DueAgain modules s att.occurrenceId) ∧
      (att.phase.unprepared = true → Awaited modules s att.occurrenceId att.generation →
        ∀ h, s.heartbeats att.occurrenceId.heartbeatId = some h → h.nextFireAt = none)
  | .closeOutThrows n | .crash n => ∀ att, s.attempts n = some att →
      att.isFinalAttempt = true → att.phase.unprepared = true →
      ¬ Awaited modules s att.occurrenceId att.generation
  | _ => True

/-! ## Instants -/

section instants

variable (hL : L.Lawful) (hm : ∀ kind handler, modules kind = some handler → handler.Lawful)
include hL hm

theorem Sys.next_later {tz : L.Timezone} {raw rule : AnyHeartbeatRule} {after : ℤ}
    {next : Option ℤ} (hp : parseHeartbeatRule raw (s.moduleRuleKinds modules) = .ok rule)
    (ht : raw.isOnItemEvent = false)
    (h : Scheduler.computeNextFireAt rule tz after (s.moduleRuleKinds modules) = .ok next) :
    ∃ v, next = some v ∧ after < v := by
  refine computeNextFireAt_later hL (fun kind handler hk => ?_) (parsed_of_parseHeartbeatRule hp)
    ((parseHeartbeatRule_isOnItemEvent hp).trans ht) h
  unfold Sys.moduleRuleKinds at hk
  split_ifs at hk
  exact hm kind handler hk

end instants

theorem parse_floating {raw rule : AnyHeartbeatRule} {kinds : HeartbeatRuleKindRegistry L}
    (hp : parseHeartbeatRule raw kinds = .ok rule) (hf : rule.isFloating = true) : rule = raw := by
  unfold parseHeartbeatRule at hp
  split at hp
  · split at hp
    · cases hp
    · split at hp <;> cases hp
      cases hf
  · split_ifs at hp
    cases hp
    rfl

theorem parse_of_floating {rule : AnyHeartbeatRule} {kinds : HeartbeatRuleKindRegistry L}
    (hr : rule.Parsed) (hf : rule.isFloating = true) :
    parseHeartbeatRule rule kinds = .ok rule :=
  parseHeartbeatRule_of_coreValid (coreValid_of_floating hr hf)

/-! ## What keeps a heartbeat scheduled -/

theorem SweepActs.congr {id : ℕ} {v : ℤ} {rule : AnyHeartbeatRule}
    (h : SweepActs modules s id v rule) (ho : s'.occurrences ⟨id, v⟩ = s.occurrences ⟨id, v⟩) :
    SweepActs modules s' id v rule :=
  fun o hs => h o (ho.symm.trans hs)

theorem SweepActs.of_none {id : ℕ} {v : ℤ} {rule : AnyHeartbeatRule}
    (h : s.occurrences ⟨id, v⟩ = none) : SweepActs modules s id v rule :=
  fun _ hs => nomatch h.symm.trans hs

theorem Carries.congr {j generation : ℕ} {key : OccurrenceId} (h : Carries s j key generation)
    (hj : s'.jobs j = s.jobs j) (ha : s'.attempts = s.attempts) :
    Carries s' j key generation where
  job := by
    rw [hj, ha]
    exact h.job
  kept := by
    rw [ha]
    exact h.kept

theorem Scheduled.congr {id : ℕ} {rule : AnyHeartbeatRule} {next : Option ℤ}
    (h : Scheduled modules s id rule next)
    (ho : ∀ due, s'.occurrences ⟨id, due⟩ = s.occurrences ⟨id, due⟩)
    (hc : ∀ due j g, Carries s j ⟨id, due⟩ g → Carries s' j ⟨id, due⟩ g) :
    Scheduled modules s' id rule next := by
  rcases h with ⟨v, hv, h⟩ | ⟨hf, due, o, j, hs, hstart, hrule, hcar⟩
  · exact .inl ⟨v, hv, h.congr (ho v)⟩
  · exact .inr ⟨hf, due, o, j, (ho due).trans hs, hstart, hrule, hc due j _ hcar⟩

/-! ## The invariant -/

/-- An attempt of a job that exists or has been deleted, for a generation its occurrence has
reached; one that is live and current has started it. -/
structure AttemptOk (s : Sys L) (att : Attempt) : Prop where
  jobId : att.jobId < s.jobSeq
  occurrence : ∃ o, s.occurrences att.occurrenceId = some o ∧ att.generation ≤ o.generation ∧
    (att.phase.live = true → o.generation = att.generation → o.firstStartedAt ≠ none)
  job : ∀ job, s.jobs att.jobId = some job →
    job.occurrenceId = att.occurrenceId ∧ job.generation = att.generation

structure StallInv (modules : HeartbeatRuleKindRegistry L) (s : Sys L) : Prop where
  occurrences : ∀ key o, s.occurrences key = some o → key.heartbeatId < s.heartbeatSeq ∧
    key.scheduledFor ≤ s.dbNow ∧ (o.status = .queued → o.firstStartedAt = none)
  heartbeats : ∀ id h, s.heartbeats id = some h → id < s.heartbeatSeq ∧ h.rule.Parsed
  jobs : ∀ j job, s.jobs j = some job → j < s.jobSeq ∧
    ∃ o, s.occurrences job.occurrenceId = some o ∧ job.generation ≤ o.generation
  attempts : ∀ n att, s.attempts n = some att → n < s.attemptSeq ∧ AttemptOk s att
  scheduled : ∀ id h, s.heartbeats id = some h → h.enabled = true →
    h.rule.isOnItemEvent = false → Scheduled modules s id h.rule h.nextFireAt

theorem stallInv_init {databases : List ℕ} {timezone : L.Timezone} {dbNow : ℤ} :
    StallInv modules (Sys.init databases timezone dbNow) where
  occurrences := fun _ _ h => by cases h
  heartbeats := fun _ _ h => by cases h
  jobs := fun _ _ h => by cases h
  attempts := fun _ _ h => by cases h
  scheduled := fun _ _ h => by cases h

/-- Only heartbeats, edits, the clock and settings change. -/
theorem StallInv.heartbeatsOnly (hi : StallInv modules s) (ho : s'.occurrences = s.occurrences)
    (hj : s'.jobs = s.jobs) (ha : s'.attempts = s.attempts) (hjs : s'.jobSeq = s.jobSeq)
    (has : s'.attemptSeq = s.attemptSeq) (hdb : s.dbNow ≤ s'.dbNow)
    (hhs : s.heartbeatSeq ≤ s'.heartbeatSeq)
    (hh : ∀ id h', s'.heartbeats id = some h' → id < s'.heartbeatSeq ∧ h'.rule.Parsed ∧
      (h'.enabled = true → h'.rule.isOnItemEvent = false →
        Scheduled modules s id h'.rule h'.nextFireAt)) : StallInv modules s' where
  occurrences := fun key o hs => by
    rw [ho] at hs
    obtain ⟨hid, hdue, hq⟩ := hi.occurrences key o hs
    exact ⟨hid.trans_le hhs, by omega, hq⟩
  heartbeats := fun id h hs => ⟨(hh id h hs).1, (hh id h hs).2.1⟩
  jobs := by
    rw [hj, hjs, ho]
    exact hi.jobs
  attempts := by
    intro n att hn
    rw [ha] at hn
    obtain ⟨hlt, hok⟩ := hi.attempts n att hn
    refine ⟨has ▸ hlt, hjs ▸ hok.jobId, ?_, ?_⟩
    · rw [ho]
      exact hok.occurrence
    · rw [hj]
      exact hok.job
  scheduled := fun id h hs hen ht =>
    ((hh id h hs).2.2 hen ht).congr (fun due => by rw [ho]) fun _ _ _ hc => hc.congr (by rw [hj]) ha

theorem StallInv.setHeartbeat (hi : StallInv modules s) {id : ℕ} {h h' : HeartbeatRow}
    (hh : s.heartbeats id = some h) (hr : h'.rule.Parsed)
    (hs : h'.enabled = true → h'.rule.isOnItemEvent = false →
      Scheduled modules s id h'.rule h'.nextFireAt) :
    StallInv modules (s.setHeartbeat id h') := by
  refine hi.heartbeatsOnly rfl rfl rfl rfl rfl (Int.le_refl _) le_rfl fun i h₁ hh₁ => ?_
  rcases of_update_some hh₁ with ⟨rfl, rfl⟩ | ⟨-, hh₁⟩
  · exact ⟨(hi.heartbeats i h hh).1, hr, hs⟩
  · have hold : s.heartbeats i = some h₁ := hh₁
    exact ⟨(hi.heartbeats i h₁ hold).1, (hi.heartbeats i h₁ hold).2, hi.scheduled i h₁ hold⟩

section heartbeats

variable (hL : L.Lawful) (hm : ∀ kind handler, modules kind = some handler → handler.Lawful)

theorem acceptRule_ok {raw rule : AnyHeartbeatRule} {enabled : Bool} {appNow : ℤ}
    {next : Option ℤ} (h : s.acceptRule modules raw enabled appNow = .ok (rule, next)) :
    parseHeartbeatRule raw (s.moduleRuleKinds modules) = .ok rule ∧
      (raw.isOnItemEvent = false → enabled = true →
        computeNextFireAt rule s.timezone appNow (s.moduleRuleKinds modules) = .ok next) := by
  unfold Sys.acceptRule at h
  split at h
  · cases h
  rename_i data hp
  have hraw := parseHeartbeatRule_isOnItemEvent hp
  split at h
  · split_ifs at h
    cases h
    refine ⟨hp, fun hc => ?_⟩
    rw [← hraw] at hc
    cases hc
  · split_ifs at h with he
    · split at h <;> cases h
      rename_i hc
      exact ⟨hp, fun _ _ => hc⟩
    · cases h
      exact ⟨hp, fun _ hc => absurd hc he⟩

include hL hm in
theorem StallInv.createHeartbeat (hi : StallInv modules s) {raw : AnyHeartbeatRule}
    {actionId : String} {enabled : Bool} {appNow : ℤ}
    (h : Scheduler.createHeartbeat modules s raw actionId enabled appNow = .ok s') :
    StallInv modules s' := by
  unfold Scheduler.createHeartbeat at h
  split at h
  · cases h
  rename_i rule next hacc
  obtain ⟨hp, hnext⟩ := acceptRule_ok hacc
  cases h
  refine hi.heartbeatsOnly rfl rfl rfl rfl rfl (Int.le_refl _) (Nat.le_succ _) fun i h₁ hh₁ => ?_
  rcases of_update_some hh₁ with ⟨rfl, rfl⟩ | ⟨-, hh₁⟩
  · refine ⟨Nat.lt_succ_self _, parsed_of_parseHeartbeatRule hp, fun hen ht => .inl ?_⟩
    have htr : raw.isOnItemEvent = false := (parseHeartbeatRule_isOnItemEvent hp).symm.trans ht
    obtain ⟨v, hv, -⟩ := Sys.next_later hL hm hp htr (hnext htr hen)
    refine ⟨v, hv, fun o ho => ?_⟩
    exact absurd (hi.occurrences _ o ho).1 (lt_irrefl _)
  · have hold : s.heartbeats i = some h₁ := hh₁
    have hlt := (hi.heartbeats i h₁ hold).1
    exact ⟨Nat.lt_succ_of_lt hlt, (hi.heartbeats i h₁ hold).2, hi.scheduled i h₁ hold⟩

theorem StallInv.updateHeartbeatRule (hi : StallInv modules s) {edit : Edit}
    {raw : AnyHeartbeatRule} {appNow : ℤ}
    (hok : ∀ h, s.heartbeats edit.id = some h → h.enabled = true → raw.isOnItemEvent = false →
      ∀ rule, parseHeartbeatRule raw (s.moduleRuleKinds modules) = .ok rule →
        edit.read.enabled = true ∧ AppClockKeeps modules s s.timezone edit.id raw rule appNow)
    (h : Scheduler.updateHeartbeatRule modules s edit raw appNow = .ok s') :
    StallInv modules s' := by
  unfold Scheduler.updateHeartbeatRule at h
  split at h
  · cases h
  rename_i rule next hacc
  obtain ⟨hp, hnext⟩ := acceptRule_ok hacc
  split at h
  · cases h
  rename_i hb hhb
  cases h
  refine hi.setHeartbeat hhb (parsed_of_parseHeartbeatRule hp) fun hen ht => ?_
  have htr : raw.isOnItemEvent = false := (parseHeartbeatRule_isOnItemEvent hp).symm.trans ht
  obtain ⟨hread, hkeeps⟩ := hok hb hhb hen htr rule hp
  exact hkeeps rule next hp (hnext htr hread)

theorem StallInv.enableHeartbeat (hi : StallInv modules s) {edit : Edit} {appNow : ℤ}
    (hok : ∀ h, s.heartbeats edit.id = some h → h.rule.isOnItemEvent = false →
      edit.read.rule.isOnItemEvent = false ∧
        AppClockKeeps modules s s.timezone edit.id edit.read.rule h.rule appNow)
    (h : Scheduler.enableHeartbeat modules s edit appNow = .ok s') : StallInv modules s' := by
  unfold Scheduler.enableHeartbeat at h
  split at h
  · cases h
  rename_i rule hp
  split at h
  · cases h
  rename_i hb hhb
  have hr := (hi.heartbeats _ _ hhb).2
  split_ifs at h with hon
  · cases h
    refine hi.setHeartbeat hhb hr fun _ ht => ?_
    have hread := (hok hb hhb ht).1
    rw [← parseHeartbeatRule_isOnItemEvent hp, hon] at hread
    cases hread
  · split at h <;> cases h
    rename_i next hc
    exact hi.setHeartbeat hhb hr fun _ ht => (hok hb hhb ht).2 rule next hp hc

theorem StallInv.disableHeartbeat (hi : StallInv modules s) {id : ℕ}
    (h : Scheduler.disableHeartbeat s id = .ok s') : StallInv modules s' := by
  unfold Scheduler.disableHeartbeat at h
  split at h
  · cases h
  rename_i hb hhb
  cases h
  exact hi.setHeartbeat hhb (hi.heartbeats _ _ hhb).2 fun hen => by cases hen

theorem coreValid_of_parse {raw rule : AnyHeartbeatRule}
    (hp : parseHeartbeatRule raw (s.moduleRuleKinds fun _ => none) = .ok rule) :
    raw.coreValid = true ∧ rule = raw := by
  have hnone : ∀ kind, s.moduleRuleKinds (fun _ => none) kind = none := fun _ => ite_self _
  unfold parseHeartbeatRule at hp
  split at hp
  · rw [hnone] at hp
    exact nomatch hp
  · split_ifs at hp with hv
    exact ⟨hv, (Except.ok.inj hp).symm⟩

theorem computeNextFireAt_core {rule : AnyHeartbeatRule} (hv : rule.coreValid = true)
    {kinds kinds' : HeartbeatRuleKindRegistry L} (tz : L.Timezone) (after : ℤ) :
    computeNextFireAt rule tz after kinds = computeNextFireAt rule tz after kinds' := by
  rcases rule with _ | _ | _ | _ | _ | ⟨kind, fields⟩
  case module => exact nomatch hv
  all_goals rfl

theorem StallInv.changeTimezone (hi : StallInv modules s) {newTimezone : L.Timezone}
    {appNow : ℕ → ℤ} (hok : KeepsSchedule modules s (.changeTimezone newTimezone appNow)) :
    StallInv modules (updateTimezone s newTimezone appNow) := by
  refine hi.heartbeatsOnly rfl rfl rfl rfl rfl (Int.le_refl _) le_rfl fun i h' hh' => ?_
  obtain ⟨h, hh, rfl⟩ := Option.map_eq_some_iff.mp hh'
  obtain ⟨hlt, hr⟩ := hi.heartbeats i h hh
  have hs := hi.scheduled i h hh
  unfold Sys.recomputeRow
  split_ifs with hc
  · split
    · exact ⟨hlt, hr, hs⟩
    · rename_i rule hp
      obtain ⟨hv, rfl⟩ := coreValid_of_parse hp
      split
      · exact ⟨hlt, hr, hs⟩
      · rename_i next hnext
        refine ⟨hlt, hr, fun hen ht => hok i h hh hen ht hv hc.2 h.rule next ?_ ?_⟩
        · exact parseHeartbeatRule_of_coreValid hv
        · rwa [computeNextFireAt_core hv]
  · exact ⟨hlt, hr, hs⟩

end heartbeats

/-! ## The sweep -/

theorem insertHeartbeatOccurrence_ok {existing : Option OccurrenceRow} {o : OccurrenceRow}
    {rule : AnyHeartbeatRule} (h : insertHeartbeatOccurrence existing rule = some o)
    (hq : ∀ o₀, existing = some o₀ → o₀.status = .queued → o₀.firstStartedAt = none) :
    o.firstStartedAt = none ∧ o.ruleSnapshot = rule ∧
      ∀ o₀, existing = some o₀ → o₀.generation < o.generation := by
  unfold insertHeartbeatOccurrence at h
  cases existing with
  | none =>
    cases h
    refine ⟨rfl, rfl, fun o₀ ho => ?_⟩
    cases ho
  | some o₁ =>
    simp only [] at h
    split_ifs at h with hc hqs
    · cases h
      refine ⟨rfl, rfl, fun o₀ ho => ?_⟩
      cases ho
      exact Nat.lt_succ_self _
    · cases h
      refine ⟨hq o₁ rfl hqs.1, rfl, fun o₀ ho => ?_⟩
      cases ho
      exact Nat.lt_succ_self _

section sweep

variable {id : ℕ} {due : ℤ} {o : OccurrenceRow} {h h' : HeartbeatRow}

def Sys.fired (s : Sys L) (id : ℕ) (due : ℤ) (o : OccurrenceRow) (h' : HeartbeatRow) : Sys L :=
  ((s.setOccurrence ⟨id, due⟩ o).setHeartbeat id h').enqueueJob ⟨id, due⟩ o.generation

theorem StallInv.fired_carries (hi : StallInv modules s) :
    Carries (s.fired id due o h') s.jobSeq ⟨id, due⟩ o.generation where
  job := ⟨_, Function.update_self _ _ _, rfl, rfl, .inl (by show 0 < 3; omega)⟩
  kept := fun n att hn hj =>
    absurd (hj ▸ (hi.attempts n att hn).2.jobId) (lt_irrefl _)

theorem StallInv.carries_fired (hi : StallInv modules s) {j g : ℕ} {key : OccurrenceId}
    (hc : Carries s j key g) : Carries (s.fired id due o h') j key g := by
  obtain ⟨job, hj, -⟩ := hc.job
  exact hc.congr (Function.update_of_ne (hi.jobs j job hj).1.ne _ _) rfl

theorem occurrence_fired (h' : HeartbeatRow) (hgen : ∀ o₀, s.occurrences ⟨id, due⟩ = some o₀ →
      o₀.generation < o.generation) {key : OccurrenceId} {o₀ : OccurrenceRow}
    (ho : s.occurrences key = some o₀) :
    ∃ o₁, (s.fired id due o h').occurrences key = some o₁ ∧
      (o₁ = o₀ ∨ o₀.generation < o₁.generation) := by
  by_cases hk : key = ⟨id, due⟩
  · subst hk
    exact ⟨o, Function.update_self _ _ _, .inr (hgen o₀ ho)⟩
  · exact ⟨o₀, (Function.update_of_ne hk _ _).trans ho, .inl rfl⟩

theorem StallInv.fired (hi : StallInv modules s) (hh : s.heartbeats id = some h)
    (hrule : h'.rule = h.rule) (hdue : due ≤ s.dbNow) (hstart : o.firstStartedAt = none)
    (hgen : ∀ o₀, s.occurrences ⟨id, due⟩ = some o₀ → o₀.generation < o.generation)
    (hs : h'.rule.isOnItemEvent = false →
      Scheduled modules (s.fired id due o h') id h'.rule h'.nextFireAt) :
    StallInv modules (s.fired id due o h') where
  occurrences := by
    intro key o₁ ho₁
    rcases of_update_some ho₁ with ⟨rfl, rfl⟩ | ⟨-, ho₁⟩
    · exact ⟨(hi.heartbeats id h hh).1, hdue, fun _ => hstart⟩
    · exact hi.occurrences key o₁ ho₁
  heartbeats := by
    intro i h₁ hh₁
    rcases of_update_some hh₁ with ⟨rfl, rfl⟩ | ⟨-, hh₁⟩
    · exact ⟨(hi.heartbeats i h hh).1, hrule ▸ (hi.heartbeats i h hh).2⟩
    · exact hi.heartbeats i h₁ hh₁
  jobs := by
    intro j job hj
    rcases of_update_some hj with ⟨rfl, rfl⟩ | ⟨-, hj⟩
    · exact ⟨Nat.lt_succ_self _, o, Function.update_self _ _ _, le_rfl⟩
    · obtain ⟨hlt, o₀, ho₀, hle⟩ := hi.jobs j job hj
      obtain ⟨o₁, ho₁, hcase⟩ := occurrence_fired h' hgen ho₀
      refine ⟨Nat.lt_succ_of_lt hlt, o₁, ho₁, ?_⟩
      rcases hcase with rfl | hlt₁
      · exact hle
      · omega
  attempts := by
    intro n att hn
    obtain ⟨hlt, hok⟩ := hi.attempts n att hn
    obtain ⟨o₀, ho₀, hle, hlive⟩ := hok.occurrence
    obtain ⟨o₁, ho₁, hcase⟩ := occurrence_fired h' hgen ho₀
    refine ⟨hlt, Nat.lt_succ_of_lt hok.jobId, ⟨o₁, ho₁, ?_⟩, fun job hj => hok.job job ?_⟩
    · rcases hcase with rfl | hlt₁
      · exact ⟨hle, hlive⟩
      · exact ⟨by omega, fun _ heq => by omega⟩
    · exact (Function.update_of_ne hok.jobId.ne _ _).symm.trans hj
  scheduled := by
    intro i h₁ hh₁ hen ht
    rcases of_update_some hh₁ with ⟨rfl, rfl⟩ | ⟨hid, hh₁⟩
    · exact hs ht
    · refine (hi.scheduled i h₁ hh₁ hen ht).congr
        (fun due' => Function.update_of_ne (fun hk => hid (congrArg (·.heartbeatId) hk)) _ _)
        fun _ _ _ hc => hi.carries_fired hc

end sweep

section clock

variable (hL : L.Lawful) (hm : ∀ kind handler, modules kind = some handler → handler.Lawful)
include hL hm

theorem StallInv.dbClock (hi : StallInv modules s) (id : ℕ) {raw rule : AnyHeartbeatRule}
    {next : Option ℤ} (hp : parseHeartbeatRule raw (s.moduleRuleKinds modules) = .ok rule)
    (ht : raw.isOnItemEvent = false)
    (h : s.computeNextFireAt modules rule s.dbNow = .ok next) :
    ∃ v, next = some v ∧ s.dbNow < v ∧ s.occurrences ⟨id, v⟩ = none := by
  obtain ⟨v, hv, hlt⟩ := Sys.next_later hL hm hp ht h
  refine ⟨v, hv, hlt, ?_⟩
  by_contra hne
  obtain ⟨o, ho⟩ := Option.ne_none_iff_exists'.mp hne
  have hle := (hi.occurrences ⟨id, v⟩ o ho).2.1
  simp only [] at hle
  omega

theorem StallInv.sweepRow (hi : StallInv modules s) (id : ℕ) :
    StallInv modules (Scheduler.sweepRow modules s id) := by
  unfold Scheduler.sweepRow
  split
  · exact hi
  rename_i h hh
  split
  · exact hi
  rename_i due hdue
  split_ifs with hc
  swap
  · exact hi
  have hset : ∀ e, StallInv modules (s.setHeartbeat id { h with lastError := some (.rule e) }) :=
    fun e => hi.setHeartbeat hh (hi.heartbeats id h hh).2 (hi.scheduled id h hh)
  split
  · exact hset _
  rename_i rule hp
  split
  · exact hset _
  rename_i next hnext
  split
  · exact hi
  rename_i o ho
  obtain ⟨hstart, hsnap, hgen⟩ := insertHeartbeatOccurrence_ok ho fun o₀ ho₀ =>
    (hi.occurrences _ o₀ ho₀).2.2
  refine hi.fired hh rfl hc.2 hstart hgen fun ht => ?_
  by_cases hf : rule.isFloating = true
  · have hrule := parse_floating hp hf
    exact .inr ⟨hrule ▸ hf, due, o, s.jobSeq, Function.update_self _ _ _, hstart,
      hsnap.trans hrule, hi.fired_carries⟩
  · obtain ⟨v, hv, hlt, hnone⟩ := hi.dbClock hL hm id hp ht hnext
    refine .inl ⟨v, ?_, .of_none ?_⟩
    · rw [if_neg hf]
      exact hv
    · refine (Function.update_of_ne (fun hk => ?_) _ _).trans hnone
      have hvd : v = due := congrArg (·.scheduledFor) hk
      omega

theorem StallInv.sweepDueHeartbeats (ids : List ℕ) :
    ∀ {s : Sys L}, StallInv modules s →
      StallInv modules (Scheduler.sweepDueHeartbeats modules s ids) := by
  induction ids with
  | nil => exact fun hi => hi
  | cons id ids ih => exact fun hi => ih (hi.sweepRow hL hm id)

end clock

/-! ## The queue and the attempts -/

theorem Scheduled.keep {id : ℕ} {h : HeartbeatRow} (hh : s.heartbeats id = some h)
    (hen : h.enabled = true) (hs : Scheduled modules s id h.rule h.nextFireAt)
    (ho : s'.occurrences = s.occurrences)
    (hc : ∀ key j g, Awaited modules s key g → Carries s j key g → Carries s' j key g) :
    Scheduled modules s' id h.rule h.nextFireAt := by
  by_cases hv : ∃ v, h.nextFireAt = some v ∧ SweepActs modules s id v h.rule
  · obtain ⟨v, hv, hacts⟩ := hv
    exact .inl ⟨v, hv, hacts.congr (by rw [ho])⟩
  · rcases hs with hs | ⟨hf, due, o, j, hocc, hstart, hrule, hcar⟩
    · exact absurd hs hv
    · refine .inr ⟨hf, due, o, j, by rw [ho]; exact hocc, hstart, hrule, hc _ j _ ?_ hcar⟩
      exact ⟨h, o, hh, hen, hf, fun v hn hacts => hv ⟨v, hn, hacts⟩, hocc, rfl, hstart, hrule⟩

theorem StallInv.queueOnly (hi : StallInv modules s) (hh : s'.heartbeats = s.heartbeats)
    (ho : s'.occurrences = s.occurrences) (hdb : s'.dbNow = s.dbNow)
    (hhs : s'.heartbeatSeq = s.heartbeatSeq) (hjs : s'.jobSeq = s.jobSeq)
    (hj : ∀ j job', s'.jobs j = some job' → ∃ job, s.jobs j = some job ∧
      job.occurrenceId = job'.occurrenceId ∧ job.generation = job'.generation)
    (ha : ∀ n att, s'.attempts n = some att → n < s'.attemptSeq ∧ AttemptOk s att)
    (hc : ∀ key j g, Awaited modules s key g → Carries s j key g → Carries s' j key g) :
    StallInv modules s' where
  occurrences := by
    rw [ho, hdb, hhs]
    exact hi.occurrences
  heartbeats := by
    rw [hh, hhs]
    exact hi.heartbeats
  jobs := by
    intro j job' hj'
    obtain ⟨job, hjob, hkey, hgen⟩ := hj j job' hj'
    rw [hjs, ho, ← hkey, ← hgen]
    exact hi.jobs j job hjob
  attempts := by
    intro n att hn
    obtain ⟨hlt, hok⟩ := ha n att hn
    refine ⟨hlt, hjs ▸ hok.jobId, ho ▸ hok.occurrence, fun job' hj' => ?_⟩
    obtain ⟨job, hjob, hkey, hgen⟩ := hj att.jobId job' hj'
    rw [← hkey, ← hgen]
    exact hok.job job hjob
  scheduled := by
    intro id h hh' hen ht
    rw [hh] at hh'
    exact (hi.scheduled id h hh' hen ht).keep hh' hen ho hc

section attempts

variable {n : ℕ} {att : Attempt} {phase : Phase}

theorem AttemptOk.move (h : AttemptOk s att) (hp : phase.live = true → att.phase.live = true) :
    AttemptOk s { att with phase := phase } where
  jobId := h.jobId
  occurrence := by
    obtain ⟨o, ho, hle, hlive⟩ := h.occurrence
    exact ⟨o, ho, hle, fun hl => hlive (hp hl)⟩
  job := h.job

theorem Carries.move {j g : ℕ} {key : OccurrenceId} (h : Carries s j key g)
    (hatt : s.attempts n = some att) (hok : AttemptOk s att) (hj : s'.jobs = s.jobs)
    (ha : s'.attempts = Function.update s.attempts n (some { att with phase := phase }))
    (hcur : att.occurrenceId = key → att.generation = g → phase ≠ .completing ∧
      (att.isFinalAttempt = true → att.phase.unprepared = true → phase.unprepared = true)) :
    Carries s' j key g := by
  obtain ⟨job, hjob, hkey, hgen, hleft⟩ := h.job
  have hcur' : att.jobId = j → phase ≠ .completing ∧
      (att.isFinalAttempt = true → att.phase.unprepared = true → phase.unprepared = true) := by
    rintro rfl
    obtain ⟨hk, hg⟩ := hok.job job hjob
    exact hcur (hk.symm.trans hkey) (hg.symm.trans hgen)
  refine ⟨⟨job, hj ▸ hjob, hkey, hgen, ?_⟩, fun m att' hm hmj => ?_⟩
  · rcases hleft with hleft | ⟨m, att', hm, hmj, hfinal, hun⟩
    · exact .inl hleft
    · refine .inr ?_
      by_cases hmn : m = n
      · subst hmn
        cases hatt.symm.trans hm
        exact ⟨m, { att with phase := phase }, by rw [ha]; exact Function.update_self _ _ _, hmj,
          hfinal, (hcur' hmj).2 hfinal hun⟩
      · exact ⟨m, att', by rw [ha]; exact (Function.update_of_ne hmn _ _).trans hm, hmj, hfinal,
          hun⟩
  · rw [ha] at hm
    rcases of_update_some hm with ⟨rfl, rfl⟩ | ⟨-, hm⟩
    · exact (hcur' hmj).1
    · exact h.kept m att' hm hmj

theorem StallInv.move (hi : StallInv modules s) (hatt : s.attempts n = some att)
    (hlive : phase.live = true → att.phase.live = true)
    (hcur : Awaited modules s att.occurrenceId att.generation → phase ≠ .completing ∧
      (att.isFinalAttempt = true → att.phase.unprepared = true → phase.unprepared = true)) :
    StallInv modules (s.setPhase n att phase) := by
  obtain ⟨hlt, hok⟩ := hi.attempts n att hatt
  refine hi.queueOnly rfl rfl rfl rfl rfl (fun j job hj => ⟨job, hj, rfl, rfl⟩)
    (fun m att' hm => ?_) fun key j g haw hc => ?_
  · rcases of_update_some hm with ⟨rfl, rfl⟩ | ⟨-, hm⟩
    · exact ⟨hlt, hok.move hlive⟩
    · exact hi.attempts m att' hm
  · refine hc.move hatt hok rfl rfl fun hkey hgen => ?_
    subst hkey hgen
    exact hcur haw

theorem StallInv.dispatch (hi : StallInv modules s) {j : ℕ} {job : JobRow}
    (hjob : s.jobs j = some job)
    (hok : s.tenant.skipsTasks = true → ¬ Awaited modules s job.occurrenceId job.generation)
    (h : step modules s (.dispatch j) = some s') : StallInv modules s' := by
  simp only [step, hjob] at h
  by_cases hlocked : job.locked = true ∨ MAX_ATTEMPTS ≤ job.attempts
  · rw [if_pos hlocked] at h
    cases h
  rw [if_neg hlocked] at h
  cases h
  have hnew : ∀ att, s.attempts s.attemptSeq ≠ some att := fun att hn =>
    lt_irrefl _ (hi.attempts _ att hn).1
  obtain ⟨hlt, o, ho, hle⟩ := hi.jobs j job hjob
  refine hi.queueOnly rfl rfl rfl rfl rfl (fun k job' hk => ?_) (fun m att' hm => ?_)
    fun key k g haw hc => ?_
  · rcases of_update_some hk with ⟨rfl, rfl⟩ | ⟨-, hk⟩
    · exact ⟨job, hjob, rfl, rfl⟩
    · exact ⟨job', hk, rfl, rfl⟩
  · rcases of_update_some hm with ⟨rfl, rfl⟩ | ⟨-, hm⟩
    · refine ⟨Nat.lt_succ_self _, hlt, ⟨o, ho, hle, fun hl => ?_⟩, fun job' hj' => ?_⟩
      · split_ifs at hl <;> cases hl
      · cases hjob.symm.trans hj'
        exact ⟨rfl, rfl⟩
    · obtain ⟨hmlt, hmok⟩ := hi.attempts m att' hm
      exact ⟨Nat.lt_succ_of_lt hmlt, hmok⟩
  · have hkeep : ∀ m att', s.attempts m = some att' → Function.update s.attempts s.attemptSeq
        (some (⟨j, job.occurrenceId, job.generation, decide (MAX_ATTEMPTS ≤ job.attempts + 1),
          if s.tenant.skipsTasks then .completing else .started⟩ : Attempt)) m = some att' :=
      fun m att' hm =>
        (Function.update_of_ne (fun heq : m = s.attemptSeq => hnew att' (heq ▸ hm)) _ _).trans hm
    obtain ⟨job', hk, hkey, hgen, hleft'⟩ := hc.job
    have hactive : k = j → s.tenant.skipsTasks = false := by
      rintro rfl
      cases hjob.symm.trans hk
      subst hkey hgen
      cases hskip : s.tenant.skipsTasks with
      | false => rfl
      | true => exact absurd haw (hok hskip)
    refine ⟨?_, fun m att' hm hmk => ?_⟩
    · by_cases hkj : k = j
      · subst hkj
        cases hjob.symm.trans hk
        refine ⟨_, Function.update_self _ _ _, hkey, hgen, ?_⟩
        by_cases hlast : job.attempts + 1 < MAX_ATTEMPTS
        · exact .inl hlast
        · refine .inr ⟨s.attemptSeq, _, Function.update_self _ _ _, rfl, ?_, ?_⟩
          · exact decide_eq_true (not_lt.mp hlast)
          · show (if s.tenant.skipsTasks = true then Phase.completing else .started).unprepared = _
            rw [hactive rfl]
            rfl
      · refine ⟨job', (Function.update_of_ne hkj _ _).trans hk, hkey, hgen, ?_⟩
        rcases hleft' with hleft' | ⟨m, att', hm, hrest⟩
        · exact .inl hleft'
        · exact .inr ⟨m, att', hkeep m att' hm, hrest⟩
    · rcases of_update_some hm with ⟨rfl, rfl⟩ | ⟨-, hm⟩
      · show (if s.tenant.skipsTasks = true then Phase.completing else .started) ≠ _
        rw [hactive hmk.symm]
        exact fun h => by cases h
      · exact hc.kept m att' hm hmk

theorem StallInv.drop (hi : StallInv modules s) (hatt : s.attempts n = some att)
    (hh : s'.heartbeats = s.heartbeats) (ho : s'.occurrences = s.occurrences)
    (hdb : s'.dbNow = s.dbNow) (hhs : s'.heartbeatSeq = s.heartbeatSeq)
    (hjs : s'.jobSeq = s.jobSeq) (has : s'.attemptSeq = s.attemptSeq)
    (ha : s'.attempts = Function.update s.attempts n none)
    (hj : ∀ j job', s'.jobs j = some job' → ∃ job, s.jobs j = some job ∧
      job.occurrenceId = job'.occurrenceId ∧ job.generation = job'.generation)
    (hkeep : ∀ j job, s.jobs j = some job → att.phase ≠ .completing ∨ att.jobId ≠ j →
      ∃ job', s'.jobs j = some job' ∧ job'.occurrenceId = job.occurrenceId ∧
        job'.generation = job.generation ∧ job'.attempts = job.attempts)
    (hcur : att.isFinalAttempt = true → att.phase.unprepared = true →
      ¬ Awaited modules s att.occurrenceId att.generation) : StallInv modules s' := by
  have hold : ∀ m att', s'.attempts m = some att' → s.attempts m = some att' := by
    intro m att' hm
    rw [ha] at hm
    by_cases hmn : m = n
    · subst hmn
      cases (Function.update_self _ _ _).symm.trans hm
    · exact (Function.update_of_ne hmn _ _).symm.trans hm
  refine hi.queueOnly hh ho hdb hhs hjs hj (fun m att' hm => ?_) fun key j g haw hc => ?_
  · rw [has]
    exact hi.attempts m att' (hold m att' hm)
  · obtain ⟨job, hjob, hkey, hgen, hleft⟩ := hc.job
    have hne : att.phase ≠ .completing ∨ att.jobId ≠ j := by
      by_cases hjn : att.jobId = j
      · exact .inl (hc.kept n att hatt hjn)
      · exact .inr hjn
    obtain ⟨job', hjob', hkey', hgen', hatts⟩ := hkeep j job hjob hne
    refine ⟨⟨job', hjob', hkey'.trans hkey, hgen'.trans hgen, ?_⟩,
      fun m att' hm hmj => hc.kept m att' (hold m att' hm) hmj⟩
    rcases hleft with hleft | ⟨m, att', hm, hmj, hfinal, hun⟩
    · exact .inl (hatts ▸ hleft)
    · refine .inr ⟨m, att', ?_, hmj, hfinal, hun⟩
      rw [ha]
      refine (Function.update_of_ne ?_ _ _).trans hm
      rintro rfl
      cases hatt.symm.trans hm
      subst hmj
      obtain ⟨hk, hg⟩ := (hi.attempts m att hatt).2.job job hjob
      refine hcur hfinal hun ?_
      rwa [← hk, ← hg, hkey, hgen]

theorem StallInv.release (hi : StallInv modules s) (h : step modules s (.release n) = some s') :
    StallInv modules s' := by
  simp only [step] at h
  split at h
  swap
  · cases h
  rename_i att hatt
  split_ifs at h with hcompleting hfailing
  · cases h
    refine hi.drop hatt rfl rfl rfl rfl rfl rfl rfl (fun j job' hj => ?_)
      (fun j job hj hne => ?_) fun _ hun => by rw [hcompleting] at hun; cases hun
    · by_cases hja : j = att.jobId
      · subst hja
        cases (Function.update_self _ _ _).symm.trans hj
      · exact ⟨job', (Function.update_of_ne hja _ _).symm.trans hj, rfl, rfl⟩
    · refine ⟨job, (Function.update_of_ne ?_ _ _).trans hj, rfl, rfl, rfl⟩
      rcases hne with hne | hne
      · exact absurd hcompleting hne
      · exact fun heq => hne heq.symm
  · cases h
    refine hi.drop hatt rfl rfl rfl rfl rfl rfl rfl (fun j job' hj => ?_)
      (fun j job hj _ => ?_) fun _ hun => by rw [hfailing] at hun; cases hun
    · by_cases hja : j = att.jobId
      · subst hja
        simp only [Function.update_self] at hj
        obtain ⟨job, hjob, rfl⟩ := Option.map_eq_some_iff.mp hj
        exact ⟨job, hjob, rfl, rfl⟩
      · exact ⟨job', (Function.update_of_ne hja _ _).symm.trans hj, rfl, rfl⟩
    · by_cases hja : j = att.jobId
      · subst hja
        exact ⟨{ job with locked := false }, (Function.update_self _ _ _).trans (by rw [hj]; rfl),
          rfl, rfl, rfl⟩
      · exact ⟨job, (Function.update_of_ne hja _ _).trans hj, rfl, rfl, rfl⟩

theorem StallInv.crash (hi : StallInv modules s) (hatt : s.attempts n = some att)
    (hcur : att.isFinalAttempt = true → att.phase.unprepared = true →
      ¬ Awaited modules s att.occurrenceId att.generation) :
    StallInv modules (s.dropAttempt n) :=
  hi.drop hatt rfl rfl rfl rfl rfl rfl rfl (fun _ job hj => ⟨job, hj, rfl, rfl⟩)
    (fun _ job hj _ => ⟨job, hj, rfl, rfl, rfl⟩) hcur

theorem StallInv.unlock (hi : StallInv modules s) {j : ℕ} {job : JobRow}
    (hjob : s.jobs j = some job) : StallInv modules
      { s with jobs := Function.update s.jobs j (some { job with locked := false }) } := by
  refine hi.queueOnly rfl rfl rfl rfl rfl (fun k job' hk => ?_) (fun m att' hm => ?_)
    fun key k g _ hc => ⟨?_, hc.kept⟩
  · rcases of_update_some hk with ⟨rfl, rfl⟩ | ⟨-, hk⟩
    · exact ⟨job, hjob, rfl, rfl⟩
    · exact ⟨job', hk, rfl, rfl⟩
  · exact hi.attempts m att' hm
  · obtain ⟨job', hk, hrest⟩ := hc.job
    by_cases hkj : k = j
    · subst hkj
      cases hjob.symm.trans hk
      exact ⟨{ job with locked := false }, Function.update_self _ _ _, hrest⟩
    · exact ⟨job', (Function.update_of_ne hkj _ _).trans hk, hrest⟩

/-! ## What an attempt writes -/

theorem Scheduled.write {rule : AnyHeartbeatRule} {next : Option ℤ}
    (hs : Scheduled modules s att.occurrenceId.heartbeatId rule next)
    (hatt : s.attempts n = some att) (hok : AttemptOk s att) (hj : s'.jobs = s.jobs)
    (ha : s'.attempts = Function.update s.attempts n (some { att with phase := phase }))
    (ho : ∀ key, key ≠ att.occurrenceId → s'.occurrences key = s.occurrences key)
    (hdue : next = some att.occurrenceId.scheduledFor →
      SweepActs modules s att.occurrenceId.heartbeatId att.occurrenceId.scheduledFor rule →
      SweepActs modules s' att.occurrenceId.heartbeatId att.occurrenceId.scheduledFor rule)
    (hpend : rule.isFloating = true →
      (∀ v, next = some v → ¬ SweepActs modules s att.occurrenceId.heartbeatId v rule) →
      ∀ o, s.occurrences att.occurrenceId = some o → o.firstStartedAt = none →
        o.ruleSnapshot = rule → ∃ o', s'.occurrences att.occurrenceId = some o' ∧
          o'.generation = o.generation ∧ o'.firstStartedAt = none ∧ o'.ruleSnapshot = rule ∧
          (o.generation = att.generation → phase ≠ .completing ∧
            (att.isFinalAttempt = true → att.phase.unprepared = true →
              phase.unprepared = true))) :
    Scheduled modules s' att.occurrenceId.heartbeatId rule next := by
  by_cases hv : ∃ v, next = some v ∧ SweepActs modules s att.occurrenceId.heartbeatId v rule
  · obtain ⟨v, hv, hacts⟩ := hv
    refine .inl ⟨v, hv, ?_⟩
    by_cases hvd : v = att.occurrenceId.scheduledFor
    · subst hvd
      exact hdue hv hacts
    · exact hacts.congr (ho _ fun heq => hvd (congrArg (·.scheduledFor) heq))
  have hnone : ∀ v, next = some v →
      ¬ SweepActs modules s att.occurrenceId.heartbeatId v rule := fun v hn hacts =>
    hv ⟨v, hn, hacts⟩
  rcases hs with hs | ⟨hf, due, o, j, hocc, hstart, hrule, hcar⟩
  · exact absurd hs hv
  by_cases hkey : (⟨att.occurrenceId.heartbeatId, due⟩ : OccurrenceId) = att.occurrenceId
  · rw [hkey] at hocc hcar
    obtain ⟨o', ho', hgen, hstart', hrule', hcur⟩ := hpend hf hnone o hocc hstart hrule
    refine .inr ⟨hf, due, o', j, by rw [hkey]; exact ho', hstart', hrule', ?_⟩
    rw [hkey, hgen]
    exact hcar.move hatt hok hj ha fun _ hg => hcur hg.symm
  · refine .inr ⟨hf, due, o, j, (ho _ hkey).trans hocc, hstart, hrule, ?_⟩
    exact hcar.move hatt hok hj ha fun hk _ => absurd hk.symm hkey

theorem StallInv.write (hi : StallInv modules s) (hatt : s.attempts n = some att)
    (hj : s'.jobs = s.jobs) (hjs : s'.jobSeq = s.jobSeq) (has : s'.attemptSeq = s.attemptSeq)
    (hhs : s'.heartbeatSeq = s.heartbeatSeq) (hdb : s'.dbNow = s.dbNow)
    (ha : s'.attempts = Function.update s.attempts n (some { att with phase := phase }))
    (ho : ∀ key, key ≠ att.occurrenceId → s'.occurrences key = s.occurrences key)
    (ho' : ∀ o, s.occurrences att.occurrenceId = some o →
      ∃ o', s'.occurrences att.occurrenceId = some o' ∧ o'.generation = o.generation ∧
        (o.firstStartedAt ≠ none → o'.firstStartedAt ≠ none) ∧
        (o'.status = .queued → o'.firstStartedAt = none) ∧
        (phase.live = true → o.generation = att.generation → o'.firstStartedAt ≠ none))
    (hh : ∀ id, id ≠ att.occurrenceId.heartbeatId → s'.heartbeats id = s.heartbeats id)
    (hh' : ∀ h', s'.heartbeats att.occurrenceId.heartbeatId = some h' →
      (∃ h, s.heartbeats att.occurrenceId.heartbeatId = some h ∧ h'.rule = h.rule) ∧
      (h'.enabled = true → h'.rule.isOnItemEvent = false →
        Scheduled modules s' att.occurrenceId.heartbeatId h'.rule h'.nextFireAt)) :
    StallInv modules s' := by
  obtain ⟨hlt, hok⟩ := hi.attempts n att hatt
  have hocc : ∀ key o, s.occurrences key = some o → ∃ o', s'.occurrences key = some o' ∧
      o'.generation = o.generation ∧ (o.firstStartedAt ≠ none → o'.firstStartedAt ≠ none) := by
    intro key o hko
    by_cases hk : key = att.occurrenceId
    · subst hk
      obtain ⟨o', hs', hgen, hstart, -⟩ := ho' o hko
      exact ⟨o', hs', hgen, hstart⟩
    · exact ⟨o, (ho key hk).trans hko, rfl, id⟩
  have hmove : ∀ m att', s'.attempts m = some att' → (m = n ∧ att' = { att with phase := phase }) ∨
      s.attempts m = some att' := by
    intro m att' hm
    rw [ha] at hm
    rcases of_update_some hm with ⟨rfl, rfl⟩ | ⟨-, hm⟩
    · exact .inl ⟨rfl, rfl⟩
    · exact .inr hm
  constructor
  case occurrences =>
    intro key o₁ hko
    rw [hhs, hdb]
    by_cases hk : key = att.occurrenceId
    · subst hk
      obtain ⟨o, hs, -, -⟩ := hok.occurrence
      obtain ⟨o', hs', -, -, hq, -⟩ := ho' o hs
      cases hs'.symm.trans hko
      obtain ⟨hid, hdue, -⟩ := hi.occurrences _ o hs
      exact ⟨hid, hdue, hq⟩
    · exact hi.occurrences key o₁ ((ho key hk).symm.trans hko)
  case heartbeats =>
    intro id h₁ hid
    rw [hhs]
    by_cases hk : id = att.occurrenceId.heartbeatId
    · subst hk
      obtain ⟨⟨h, hs, hrule⟩, -⟩ := hh' h₁ hid
      rw [hrule]
      exact hi.heartbeats _ h hs
    · exact hi.heartbeats id h₁ ((hh id hk).symm.trans hid)
  case jobs =>
    intro j job hjob
    rw [hj] at hjob
    obtain ⟨hjlt, o, hs, hle⟩ := hi.jobs j job hjob
    obtain ⟨o', hs', hgen, -⟩ := hocc _ o hs
    exact ⟨hjs ▸ hjlt, o', hs', hgen ▸ hle⟩
  case attempts =>
    intro m att' hm
    rw [has]
    rcases hmove m att' hm with ⟨rfl, rfl⟩ | hm
    · obtain ⟨o, hs, hle, -⟩ := hok.occurrence
      obtain ⟨o', hs', hgen, -, -, hlive⟩ := ho' o hs
      exact ⟨hlt, hjs ▸ hok.jobId, ⟨o', hs', hgen ▸ hle, fun hl hg => hlive hl (hgen ▸ hg)⟩,
        by rw [hj]; exact hok.job⟩
    · obtain ⟨hmlt, hmok⟩ := hi.attempts m att' hm
      obtain ⟨o, hs, hle, hlive⟩ := hmok.occurrence
      obtain ⟨o', hs', hgen, hstart⟩ := hocc _ o hs
      exact ⟨hmlt, hjs ▸ hmok.jobId,
        ⟨o', hs', hgen ▸ hle, fun hl hg => hstart (hlive hl (hgen ▸ hg))⟩,
        by rw [hj]; exact hmok.job⟩
  case scheduled =>
    intro id h₁ hid hen ht
    by_cases hk : id = att.occurrenceId.heartbeatId
    · subst hk
      exact (hh' h₁ hid).2 hen ht
    · refine (hi.scheduled id h₁ ((hh id hk).symm.trans hid) hen ht).congr
        (fun due => ho _ fun heq => hk (congrArg (·.heartbeatId) heq)) fun due j g hc => ?_
      exact hc.move hatt hok hj ha fun heq _ => absurd (congrArg (·.heartbeatId) heq).symm hk

section prepare

variable (hL : L.Lawful) (hm : ∀ kind handler, modules kind = some handler → handler.Lawful)
include hL hm

theorem StallInv.prepare (hi : StallInv modules s) (hatt : s.attempts n = some att)
    {appNow : ℤ} (hok : PrepareKeeps modules s att appNow)
    {s₁ : Sys L} {proceed : Bool} (h : prepareHeartbeatOccurrenceFire modules s att.occurrenceId
      att.generation appNow = some (s₁, proceed)) :
    StallInv modules (s₁.setPhase n att (if proceed then .prepared else .completing)) := by
  have hatt' := (hi.attempts n att hatt).2
  unfold prepareHeartbeatOccurrenceFire at h
  split at h
  swap
  · rename_i hnone
    cases h
    obtain ⟨o, ho, -⟩ := hatt'.occurrence
    refine hi.move hatt (fun hl => by cases hl) ?_
    rintro ⟨hb, -, hhb, -⟩
    exact absurd ho (hnone hb o hhb)
  rename_i hb o hhb ho
  have hsched := hi.scheduled _ hb hhb
  by_cases hg : o.generation ≠ att.generation
  · rw [if_pos hg] at h
    cases h
    refine hi.move hatt (fun hl => by cases hl) ?_
    rintro ⟨-, o', -, -, -, -, ho', hg', -⟩
    cases ho.symm.trans ho'
    exact absurd hg' hg
  rw [if_neg hg] at h
  have hgen : o.generation = att.generation := not_not.mp hg
  by_cases hr : ¬ hb.enabled ∨ hb.rule ≠ o.ruleSnapshot
  · rw [if_pos hr] at h
    cases h
    refine hi.write hatt rfl rfl rfl rfl rfl rfl (fun key hk => Function.update_of_ne hk _ _)
      (fun o₁ ho₁ => ?_) (fun _ _ => rfl) fun h' hh' => ?_
    · cases ho.symm.trans ho₁
      exact ⟨_, Function.update_self _ _ _, rfl, id, nofun, nofun⟩
    · cases hhb.symm.trans hh'
      refine ⟨⟨hb, hhb, rfl⟩, fun hen ht => ?_⟩
      refine (hsched hen ht).write hatt hatt' rfl rfl (fun key hk => Function.update_of_ne hk _ _)
        (fun _ _ o₁ ho₁ => ?_) fun _ _ o₁ ho₁ _ hrule => ?_
      · cases (Function.update_self _ _ s.occurrences).symm.trans ho₁
        exact .inl rfl
      · cases ho.symm.trans ho₁
        rcases hr with hr | hr
        · exact absurd hen hr
        · exact absurd hrule.symm hr
  rw [if_neg hr, not_or, not_not, not_not] at *
  obtain ⟨hen, hrule⟩ := hr
  have hkeeps := hok hb o hhb ho hgen hen hrule
  split at h
  · rename_i e hp
    cases h
    have hf : hb.rule.isFloating ≠ true := fun hf => by
      cases hp.symm.trans (parse_of_floating (hi.heartbeats _ hb hhb).2 hf)
    rw [if_neg hf] at hkeeps
    have hnd := hkeeps (.inr fun rule hc => by cases hp.symm.trans hc)
    refine hi.write hatt rfl rfl rfl rfl rfl rfl (fun key hk => Function.update_of_ne hk _ _)
      (fun o₁ ho₁ => ?_) (fun _ hid => Function.update_of_ne hid _ _) fun h' hh' => ?_
    · cases ho.symm.trans ho₁
      exact ⟨_, Function.update_self _ _ _, rfl, id, nofun, nofun⟩
    · cases (Function.update_self _ _ s.heartbeats).symm.trans hh'
      refine ⟨⟨hb, hhb, rfl⟩, fun hen ht => ?_⟩
      exact (hsched hen ht).write hatt hatt' rfl rfl (fun key hk => Function.update_of_ne hk _ _)
        (fun hnext hacts => absurd ⟨hb, hhb, hen, ht, hnext, hacts⟩ hnd)
        fun hf' => absurd hf' hf
  rename_i rule hp
  by_cases hstart : o.firstStartedAt = none
  swap
  · rw [if_neg hstart] at h
    cases h
    refine hi.write hatt rfl rfl rfl rfl rfl rfl (fun _ _ => rfl) (fun o₁ ho₁ => ?_)
      (fun _ _ => rfl) fun h' hh' => ?_
    · cases ho.symm.trans ho₁
      exact ⟨o, ho, rfl, id, (hi.occurrences _ o ho).2.2, fun _ _ => hstart⟩
    · cases hhb.symm.trans hh'
      refine ⟨⟨hb, hhb, rfl⟩, fun hen ht => ?_⟩
      refine (hsched hen ht).write hatt hatt' rfl rfl (fun _ _ => rfl) (fun _ hacts => hacts)
        fun _ _ o₁ ho₁ hs₁ _ => ?_
      cases ho.symm.trans ho₁
      exact absurd hs₁ hstart
  rw [if_pos hstart] at h
  by_cases hf : rule.isFloating = true
  · have hrule' := parse_floating hp hf
    simp only [hf, if_true] at h
    split at h
    · cases h
    rename_i next hnext
    cases h
    rw [hrule'] at hf hnext hp
    rw [if_pos hf] at hkeeps
    obtain ⟨v, rfl, -⟩ := Sys.next_later hL hm hp (isOnItemEvent_of_floating hf) hnext
    obtain ⟨hvd, hacts⟩ := hkeeps hstart v hnext
    refine hi.write hatt rfl rfl rfl rfl rfl rfl (fun key hk => Function.update_of_ne hk _ _)
      (fun o₁ ho₁ => ?_) (fun _ hid => Function.update_of_ne hid _ _) fun h' hh' => ?_
    · cases ho.symm.trans ho₁
      exact ⟨_, Function.update_self _ _ _, rfl, fun _ => nofun, nofun, fun _ _ => nofun⟩
    · cases (Function.update_self _ _ s.heartbeats).symm.trans hh'
      refine ⟨⟨hb, hhb, rfl⟩, fun _ _ => .inl ⟨v, rfl, hacts.congr ?_⟩⟩
      exact Function.update_of_ne (fun hk => hvd (congrArg (·.scheduledFor) hk)) _ _
  · simp only [hf, Bool.false_eq_true, if_false] at h
    cases h
    have hf' : hb.rule.isFloating ≠ true := fun hf' => by
      have hp' : parseHeartbeatRule hb.rule (s.moduleRuleKinds modules) = .ok hb.rule :=
        parse_of_floating (hi.heartbeats _ hb hhb).2 hf'
      cases hp.symm.trans hp'
      exact hf hf'
    rw [if_neg hf'] at hkeeps
    have hnd := hkeeps (.inl hstart)
    refine hi.write hatt rfl rfl rfl rfl rfl rfl (fun key hk => Function.update_of_ne hk _ _)
      (fun o₁ ho₁ => ?_) (fun _ hid => Function.update_of_ne hid _ _) fun h' hh' => ?_
    · cases ho.symm.trans ho₁
      exact ⟨_, Function.update_self _ _ _, rfl, fun _ => nofun, nofun, fun _ _ => nofun⟩
    · cases (Function.update_self _ _ s.heartbeats).symm.trans hh'
      refine ⟨⟨hb, hhb, rfl⟩, fun hen ht => ?_⟩
      exact (hsched hen ht).write hatt hatt' rfl rfl (fun key hk => Function.update_of_ne hk _ _)
        (fun hnext hacts => absurd ⟨hb, hhb, hen, ht, hnext, hacts⟩ hnd)
        fun hf₁ => absurd hf₁ hf'

end prepare

theorem StallInv.succeed (hi : StallInv modules s) (hatt : s.attempts n = some att)
    (hphase : att.phase = .handled) (hok : ¬ DueAgain modules s att.occurrenceId) :
    StallInv modules ((succeedOccurrence s att.occurrenceId).setPhase n att .completing) := by
  have hatt' := (hi.attempts n att hatt).2
  refine hi.write hatt rfl rfl rfl rfl rfl rfl (fun key hk => Function.update_of_ne hk _ _)
    (fun o ho => ?_) (fun _ hid => Function.update_of_ne hid _ _) fun h' hh' => ?_
  · exact ⟨{ o with status := .succeeded, lastError := none },
      (Function.update_self _ _ _).trans (by rw [ho]; rfl), rfl, id, nofun, nofun⟩
  · obtain ⟨h, hh, rfl⟩ :=
      Option.map_eq_some_iff.mp ((Function.update_self _ _ s.heartbeats).symm.trans hh')
    refine ⟨⟨h, hh, rfl⟩, fun hen ht => ?_⟩
    refine (hi.scheduled _ h hh hen ht).write hatt hatt' rfl rfl
      (fun key hk => Function.update_of_ne hk _ _)
      (fun hnext hacts => absurd ⟨h, hh, hen, ht, hnext, hacts⟩ hok) fun _ _ o ho hstart hrule => ?_
    refine ⟨{ o with status := .succeeded, lastError := none },
      (Function.update_self _ _ _).trans (by rw [ho]; rfl), rfl, hstart, hrule, fun hg => ?_⟩
    obtain ⟨o', ho', -, hlive⟩ := hatt'.occurrence
    cases ho.symm.trans ho'
    exact absurd hstart (hlive (by rw [hphase]; rfl) hg)

theorem StallInv.failOccurrence (hi : StallInv modules s) (hatt : s.attempts n = some att)
    {message : String} (hphase : att.phase = .handlerFailed message)
    (hok : ¬ DueAgain modules s att.occurrenceId) :
    StallInv modules ((failOccurrence s att.occurrenceId message).setPhase n att .failing) := by
  have hatt' := (hi.attempts n att hatt).2
  refine hi.write hatt rfl rfl rfl rfl rfl rfl (fun key hk => Function.update_of_ne hk _ _)
    (fun o ho => ?_) (fun _ hid => Function.update_of_ne hid _ _) fun h' hh' => ?_
  · exact ⟨{ o with status := .failed, lastError := some (.thrown message) },
      (Function.update_self _ _ _).trans (by rw [ho]; rfl), rfl, id, nofun, nofun⟩
  · obtain ⟨h, hh, rfl⟩ :=
      Option.map_eq_some_iff.mp ((Function.update_self _ _ s.heartbeats).symm.trans hh')
    refine ⟨⟨h, hh, rfl⟩, fun hen ht => ?_⟩
    refine (hi.scheduled _ h hh hen ht).write hatt hatt' rfl rfl
      (fun key hk => Function.update_of_ne hk _ _)
      (fun hnext hacts => absurd ⟨h, hh, hen, ht, hnext, hacts⟩ hok) fun _ _ o ho hstart hrule => ?_
    refine ⟨{ o with status := .failed, lastError := some (.thrown message) },
      (Function.update_self _ _ _).trans (by rw [ho]; rfl), rfl, hstart, hrule,
      fun hg => ⟨nofun, fun _ hun => ?_⟩⟩
    rw [hphase] at hun
    cases hun

section setupFailure

variable (hL : L.Lawful) (hm : ∀ kind handler, modules kind = some handler → handler.Lawful)
include hL hm

theorem StallInv.setupFailure (hi : StallInv modules s) (hatt : s.attempts n = some att)
    {message : String} (hok : (∃ o, s.occurrences att.occurrenceId = some o ∧ o.status = .cancelled) ∨
      ¬ DueAgain modules s att.occurrenceId)
    (haw : Awaited modules s att.occurrenceId att.generation →
      ∀ h, s.heartbeats att.occurrenceId.heartbeatId = some h → h.nextFireAt = none) :
    StallInv modules ((recordHeartbeatFireSetupFailure modules s att.occurrenceId message).setPhase
      n att .failing) := by
  have hatt' := (hi.attempts n att hatt).2
  unfold recordHeartbeatFireSetupFailure
  split
  · rename_i hnone
    refine hi.move hatt (fun hl => by cases hl) ?_
    rintro ⟨h, -, hh, -⟩
    cases hnone.symm.trans hh
  rename_i h hh
  have hclose : ∀ o, s.occurrences att.occurrenceId = some o →
      Function.update s.occurrences att.occurrenceId
        ((s.occurrences att.occurrenceId).map (.closeOut message)) att.occurrenceId =
          some (o.closeOut message) := fun o ho =>
    (Function.update_self _ _ _).trans (by rw [ho]; rfl)
  have hrow : ∀ o : OccurrenceRow, (o.closeOut message).generation = o.generation ∧
      (o.closeOut message).firstStartedAt = o.firstStartedAt ∧
      (o.closeOut message).ruleSnapshot = o.ruleSnapshot ∧
      (o.closeOut message).status ≠ .queued := by
    intro o
    unfold OccurrenceRow.closeOut
    split_ifs with hc
    · exact ⟨rfl, rfl, rfl, nofun⟩
    · exact ⟨rfl, rfl, rfl, fun hq => hc (.inl hq)⟩
  refine hi.write hatt rfl rfl rfl rfl rfl rfl (fun key hk => Function.update_of_ne hk _ _)
    (fun o ho => ?_) (fun _ hid => Function.update_of_ne hid _ _) fun h' hh' => ?_
  · obtain ⟨hgen, hstart, -, hq⟩ := hrow o
    exact ⟨o.closeOut message, hclose o ho, hgen, fun hne => by rwa [hstart],
      fun hc => absurd hc hq, nofun⟩
  cases (Function.update_self _ _ s.heartbeats).symm.trans hh'
  have hsched := hi.scheduled _ h hh
  have hr := (hi.heartbeats _ h hh).2
  unfold Sys.restoreSchedule
  by_cases hc : h.enabled ∧ h.nextFireAt = none
  · rw [if_pos hc]
    have hfl : h.rule.isOnItemEvent = false → h.rule.isFloating = true := by
      intro ht
      rcases hsched hc.1 ht with ⟨v, hv, -⟩ | ⟨hf, -⟩
      · cases hc.2.symm.trans hv
      · exact hf
    split
    · rename_i e hp
      refine ⟨⟨h, hh, rfl⟩, fun _ ht => ?_⟩
      cases hp.symm.trans (parse_of_floating hr (hfl ht))
    rename_i rule hp
    split
    · rename_i e hnext
      refine ⟨⟨h, hh, rfl⟩, fun _ ht => ?_⟩
      cases hp.symm.trans (parse_of_floating hr (hfl ht))
      obtain ⟨next, hc'⟩ : ∃ next, s.computeNextFireAt modules h.rule s.dbNow = .ok next :=
        computeNextFireAt_floating (hfl ht) s.timezone s.dbNow
      cases hnext.symm.trans hc'
    rename_i next hnext
    refine ⟨⟨h, hh, rfl⟩, fun _ ht => ?_⟩
    obtain ⟨v, hv, hlt, hnone⟩ := hi.dbClock hL hm att.occurrenceId.heartbeatId hp ht hnext
    obtain ⟨o, ho, -⟩ := hatt'.occurrence
    have hdue := (hi.occurrences _ o ho).2.1
    refine .inl ⟨v, hv, .of_none ((Function.update_of_ne (fun hk => ?_) _ _).trans hnone)⟩
    have hvd : v = att.occurrenceId.scheduledFor := congrArg (·.scheduledFor) hk
    omega
  · rw [if_neg hc]
    refine ⟨⟨h, hh, rfl⟩, fun hen ht => ?_⟩
    refine (hsched hen ht).write hatt hatt' rfl rfl (fun key hk => Function.update_of_ne hk _ _)
      (fun hnext hacts o₁ ho₁ => ?_) fun hf hnone o ho hstart hrule => ?_
    · rcases hok with ⟨o, ho, hcancelled⟩ | hok
      · cases (hclose o ho).symm.trans ho₁
        refine .inl ?_
        unfold OccurrenceRow.closeOut
        rw [if_neg (by rw [hcancelled]; nofun)]
        exact hcancelled
      · exact absurd ⟨h, hh, hen, ht, hnext, hacts⟩ hok
    · obtain ⟨hgen, hstart', hrule', -⟩ := hrow o
      refine ⟨o.closeOut message, hclose o ho, hgen, hstart'.trans hstart, hrule'.trans hrule,
        fun hg => ?_⟩
      have hn := haw ⟨h, o, hh, hen, hf, hnone, ho, hg, hstart, hrule⟩ h hh
      exact absurd ⟨hen, hn⟩ hc

end setupFailure

end attempts

/-! ## Every run -/

theorem eq_ok_of_toOption {ε β : Type*} {x : Except ε β} {b : β} (h : x.toOption = some b) :
    x = .ok b := by
  cases x with
  | error e => cases h
  | ok b' =>
    cases h
    rfl

section run

variable (hL : L.Lawful) (hm : ∀ kind handler, modules kind = some handler → handler.Lawful)
include hL hm

theorem StallInv.closeOut (hi : StallInv modules s) {n : ℕ}
    (hok : KeepsSchedule modules s (.closeOut n))
    (h : step modules s (.closeOut n) = some s') : StallInv modules s' := by
  simp only [step] at h
  split at h
  swap
  · cases h
  rename_i att hatt
  have hcond := hok att hatt
  split at h
  · rename_i message hphase
    split_ifs at h with hfinal
    · cases h
      obtain ⟨⟨-, hun⟩ | hnd, -⟩ := hcond hfinal
      · rw [hphase] at hun
        cases hun
      · exact hi.failOccurrence hatt hphase hnd
    · cases h
      exact hi.move hatt (fun h => by cases h) fun _ =>
        ⟨(fun h => by cases h), fun hc => absurd hc hfinal⟩
  · rename_i message hphase
    split_ifs at h with hfinal
    · cases h
      obtain ⟨hdue, haw⟩ := hcond hfinal
      refine hi.setupFailure hL hm hatt (hdue.imp_left (·.1)) fun hawaited h hh => ?_
      exact haw (by rw [hphase]; rfl) hawaited h hh
    · cases h
      exact hi.move hatt (fun h => by cases h) fun _ =>
        ⟨(fun h => by cases h), fun hc => absurd hc hfinal⟩
  · cases h

theorem StallInv.preserved (hi : StallInv modules s) (hok : KeepsSchedule modules s a)
    (h : step modules s a = some s') : StallInv modules s' := by
  have hidle : s'.heartbeats = s.heartbeats → s'.occurrences = s.occurrences → s'.jobs = s.jobs →
      s'.attempts = s.attempts → s'.jobSeq = s.jobSeq → s'.attemptSeq = s.attemptSeq →
      s.dbNow ≤ s'.dbNow → s'.heartbeatSeq = s.heartbeatSeq → StallInv modules s' := by
    intro hh ho hj ha hjs has hdb hhs
    refine hi.heartbeatsOnly ho hj ha hjs has hdb hhs.ge fun id h' hid => ?_
    rw [hh] at hid
    rw [hhs]
    exact ⟨(hi.heartbeats id h' hid).1, (hi.heartbeats id h' hid).2, hi.scheduled id h' hid⟩
  cases a with
  | createHeartbeat raw actionId enabled appNow =>
    exact hi.createHeartbeat hL hm (eq_ok_of_toOption h)
  | readHeartbeat e id =>
    obtain ⟨_, _, rfl⟩ := Option.map_eq_some_iff.mp h
    exact hidle rfl rfl rfl rfl rfl rfl (Int.le_refl _) rfl
  | updateHeartbeatRule e raw appNow =>
    obtain ⟨edit, hedit, h⟩ := Option.bind_eq_some_iff.mp h
    exact hi.updateHeartbeatRule (hok edit hedit) (eq_ok_of_toOption h)
  | enableHeartbeat e appNow =>
    obtain ⟨edit, hedit, h⟩ := Option.bind_eq_some_iff.mp h
    exact hi.enableHeartbeat (hok edit hedit) (eq_ok_of_toOption h)
  | disableHeartbeat id => exact hi.disableHeartbeat (eq_ok_of_toOption h)
  | changeTimezone newTimezone appNow =>
    cases h
    exact hi.changeTimezone hok
  | setModules activeKinds =>
    cases h
    exact hidle rfl rfl rfl rfl rfl rfl (Int.le_refl _) rfl
  | setTenant status =>
    cases h
    exact hidle rfl rfl rfl rfl rfl rfl (Int.le_refl _) rfl
  | tick dbNow =>
    simp only [step] at h
    split_ifs at h with hle
    cases h
    exact hidle rfl rfl rfl rfl rfl rfl hle rfl
  | sweep ids =>
    simp only [step] at h
    split_ifs at h
    cases h
    exact hi.sweepDueHeartbeats hL hm ids
  | dispatch j =>
    cases hjob : s.jobs j with
    | none => simp [step, hjob] at h
    | some job => exact hi.dispatch hjob (fun hskip => hok hskip job hjob) h
  | prepare n appNow =>
    simp only [step] at h
    split at h
    · rename_i att hatt
      split_ifs at h
      obtain ⟨⟨s₁, proceed⟩, hprep, rfl⟩ := Option.map_eq_some_iff.mp h
      exact hi.prepare hL hm hatt (hok att hatt) hprep
    · cases h
  | prepareThrows n message =>
    simp only [step] at h
    split at h
    · rename_i att hatt
      split_ifs at h
      cases h
      exact hi.move hatt (fun h => by cases h) fun _ => ⟨(fun h => by cases h), fun _ _ => rfl⟩
    · cases h
  | succeed n =>
    simp only [step] at h
    split at h
    · rename_i att hatt
      split_ifs at h with hphase
      cases h
      exact hi.succeed hatt hphase (hok att hatt)
    · cases h
  | closeOut n => exact hi.closeOut hL hm hok h
  | closeOutThrows n =>
    simp only [step] at h
    split at h
    · rename_i att hatt
      split_ifs at h
      cases h
      exact hi.move hatt (fun h => by cases h) fun haw =>
        ⟨(fun h => by cases h), fun hfinal hun => absurd haw (hok att hatt hfinal hun)⟩
    · cases h
  | release n => exact hi.release h
  | crash n =>
    obtain ⟨att, hatt, rfl⟩ := Option.map_eq_some_iff.mp h
    exact hi.crash hatt (hok att hatt)
  | unlock j =>
    obtain ⟨job, hjob, rfl⟩ := Option.map_eq_some_iff.mp h
    exact hi.unlock hjob
  | lookup n | lookupThrows n | handlerReturns n | handlerThrows n | succeedThrows n =>
    simp only [step] at h
    split at h
    · rename_i att hatt
      split_ifs at h with hphase
      cases h
      refine hi.move hatt (fun _ => by rw [hphase]; rfl) fun _ =>
        ⟨(fun h => by cases h), fun _ hun => ?_⟩
      rw [hphase] at hun
      cases hun
    · cases h

/-- In every run whose steps keep the schedule no heartbeat stalls. -/
theorem neverStalls (databases : List ℕ) (timezone : L.Timezone) (dbNow : ℤ)
    (hs : Reach (step modules) (KeepsSchedule modules) (Sys.init databases timezone dbNow) s) :
    NeverStalls modules s := by
  have hinv : StallInv modules s :=
    hs.invariant stallInv_init fun _ _ _ hi hok h => hi.preserved hL hm hok h
  intro _ id h hh hen ht _
  exact hinv.scheduled id h hh hen ht

end run

def firstFire : List (Act Luxon.utc) :=
  [.createHeartbeat (.interval 1) "act" true 0, .tick 60000, .sweep [0], .dispatch 0]

/-- The steps of that run, which meet the condition in an active tenant. -/
def keeps (s : Sys Luxon.utc) : Act Luxon.utc → Bool
  | .createHeartbeat .. | .tick _ | .sweep _ => true
  | .dispatch _ => !s.tenant.skipsTasks
  | _ => false

theorem keepsSchedule_of_keeps (s : Sys Luxon.utc) (a : Act Luxon.utc) (h : keeps s a = true) :
    KeepsSchedule (fun _ => none) s a := by
  cases a with
  | dispatch j =>
    intro hskip
    rw [keeps, hskip] at h
    cases h
  | createHeartbeat raw actionId enabled appNow => trivial
  | tick dbNow => trivial
  | sweep ids => trivial
  | _ => cases h

theorem firstFire_end : (runChecked (step fun _ => none) keeps (Sys.init [] () 0) firstFire).map
    (fun s => (s.heartbeats 0).map (·.nextFireAt)) = some (some none) := by
  decide +kernel

/-- The instant is left to the fire that is in flight. -/
theorem neverStalls_firstFire : ∃ s, runActs (step fun _ => none) (Sys.init [] () 0) firstFire =
    some s ∧ (s.heartbeats 0).map (·.nextFireAt) = some none ∧ NeverStalls (fun _ => none) s := by
  obtain ⟨s, hs, hend⟩ := Option.map_eq_some_iff.mp firstFire_end
  exact ⟨s, runActs_of_runChecked hs, hend,
    neverStalls Luxon.utc_lawful (fun _ _ h => by cases h) [] () 0
      (.of_runChecked keepsSchedule_of_keeps hs)⟩

def suspendedFire : List (Act Luxon.utc) :=
  [.createHeartbeat (.interval 1) "act" true 0, .tick 60000, .sweep [0], .setTenant .suspended,
    .dispatch 0, .release 0, .setTenant .active]

theorem suspendedFire_end : (runActs (step fun _ => none) (Sys.init [] () 0) suspendedFire).map
    (fun s => (s.heartbeats 0, s.tenant)) =
      some (some ⟨.interval 1, "act", true, none, none, none⟩, .active) := by
  decide +kernel

theorem suspendedFire_jobs (j : ℕ) :
    (runActs (step fun _ => none) (Sys.init [] () 0) suspendedFire).bind (·.jobs j) = none := by
  cases j with
  | zero => rfl
  | succ j => rfl

/-- A fire consumed while its tenant is suspended leaves the heartbeat without a next instant and
without a job. -/
theorem suspendedFire_stalls : ¬ ∀ s : Sys Luxon.utc,
    Reach (step fun _ => none) (fun _ _ => True) (Sys.init [] () 0) s →
      NeverStalls (fun _ => none) s := by
  intro hclaim
  obtain ⟨s, hs, hend⟩ := Option.map_eq_some_iff.mp suspendedFire_end
  obtain ⟨hh, hactive⟩ := Prod.mk.inj hend
  rcases hclaim s (.of_runActs hs) hactive 0 _ hh rfl rfl ⟨_, rfl⟩ with
    ⟨v, hv, -⟩ | ⟨-, due, o, j, -, -, -, hcar⟩
  · cases hv
  · obtain ⟨job, hjob, -⟩ := hcar.job
    have hnone := suspendedFire_jobs j
    rw [hs, Option.bind_some, hjob] at hnone
    cases hnone

end Scheduler

end Semprec
