import Semprec.Proofs.SchedulerStall

/-!
# A write of the time zone

The choke point reschedules the heartbeats of core's rules that have an instant, and no other
(`rescheduled_iff`): it passes no rule kinds, so the rule of a module that is active does not parse.
-/

namespace Semprec

namespace Scheduler

variable {L : Luxon} {modules : HeartbeatRuleKindRegistry L} {s : Sys L} {rule : AnyHeartbeatRule}

/-- The rule has instants, by core or by a module that is active. -/
def Sys.TimeBased (modules : HeartbeatRuleKindRegistry L) (s : Sys L) : AnyHeartbeatRule → Prop
  | .onItemEvent _ _ => False
  | .module kind _ => s.moduleRuleKinds modules kind ≠ none
  | _ => True

/-- After the write each enabled time-based heartbeat is scheduled in the new time zone, from the
application clock's reading for its row, and a job of an earlier generation does not proceed. -/
structure Rescheduled (modules : HeartbeatRuleKindRegistry L) (s : Sys L) (newTimezone : L.Timezone)
    (appNow : ℕ → ℤ) : Prop where
  next : ∀ id, ∀ h ∈ s.heartbeats id, h.enabled = true → s.TimeBased modules h.rule →
    ∃ h' ∈ (updateTimezone s newTimezone appNow).heartbeats id, h'.rule = h.rule ∧
      computeNextFireAt h.rule newTimezone (appNow id) (s.moduleRuleKinds modules) = .ok h'.nextFireAt
  stale : ∀ key generation now, ∀ o ∈ (updateTimezone s newTimezone appNow).occurrences key,
    o.generation ≠ generation → ∀ s' proceed,
      prepareHeartbeatOccurrenceFire modules (updateTimezone s newTimezone appNow) key generation now =
        some (s', proceed) → proceed = false

/-- The heartbeat is one that the write reschedules, or its instant is the new one as it is. -/
def Reached (modules : HeartbeatRuleKindRegistry L) (s : Sys L) (newTimezone : L.Timezone)
    (appNow : ℤ) (h : HeartbeatRow) : Prop :=
  (h.rule.coreValid = true ∧ h.nextFireAt ≠ none) ∨
    computeNextFireAt h.rule newTimezone appNow (s.moduleRuleKinds modules) = .ok h.nextFireAt

theorem weeklyCandidate_eq_none {tz : L.Timezone} {reference : ℤ} {days : List Weekday} {at' : TimeOfDay} :
    ∀ {offsets : List ℕ}, weeklyCandidate L tz reference days at' offsets = none →
      ∀ offset ∈ offsets, ¬(L.weekday tz (L.plusDays tz reference offset) ∈ days.map WEEKDAY_TO_LUXON ∧
        reference < L.set tz (L.plusDays tz reference offset) at')
  | [], _ => nofun
  | offset :: offsets, h => by
    rw [weeklyCandidate] at h
    split_ifs at h with hday
    exact List.forall_mem_cons.mpr ⟨hday, weeklyCandidate_eq_none h⟩

theorem exists_offset (day : ℤ) (w : Weekday) :
    ∃ offset : ℕ, offset ∈ List.range 8 ∧ 0 < offset ∧ (day + offset + 3) % 7 + 1 = WEEKDAY_TO_LUXON w := by
  refine ⟨((WEEKDAY_TO_LUXON w - day - 5) % 7 + 1).toNat, ?_, ?_, ?_⟩
  · rw [List.mem_range]
    omega
  · omega
  · rcases w <;> simp only [WEEKDAY_TO_LUXON] <;> omega

theorem computeNextFireAt_some (hL : L.Lawful) (hv : rule.coreValid = true)
    (ht : s.TimeBased modules rule) (tz : L.Timezone) (after : ℤ) (kinds : HeartbeatRuleKindRegistry L) :
    ∃ v, computeNextFireAt rule tz after kinds = .ok (some v) := by
  rcases rule with at' | ⟨days, at'⟩ | ⟨n, at'⟩ | minutes | ⟨databaseId, event⟩ | ⟨kind, fields⟩
  · simp only [computeNextFireAt]
    split_ifs
    · exact ⟨_, rfl⟩
    · exact ⟨_, rfl⟩
  · simp only [computeNextFireAt]
    rcases hfound : weeklyCandidate L tz after days at' (List.range 8) with _ | v
    · simp only [AnyHeartbeatRule.coreValid, decide_eq_true_eq] at hv
      obtain ⟨w, hw⟩ := List.exists_mem_of_ne_nil days hv.1
      obtain ⟨offset, hmem, hpos, hweekday⟩ := exists_offset (L.dayOf tz after) w
      refine absurd ⟨?_, ?_⟩ (weeklyCandidate_eq_none hfound offset hmem)
      · rw [Luxon.weekday, hL.dayOf_plusDays, hweekday]
        exact List.mem_map_of_mem hw
      · refine hL.lt_of_dayOf_lt tz _ _ ?_
        rw [hL.dayOf_set tz _ at' hv.2, hL.dayOf_plusDays]
        omega
    · exact ⟨v, rfl⟩
  · exact ⟨_, rfl⟩
  · exact ⟨_, rfl⟩
  · exact ht.elim
  · cases hv

theorem recomputeRow_eq (hL : L.Lawful) (h : HeartbeatRow) (ht : s.TimeBased modules h.rule)
    (hen : h.enabled = true) (newTimezone : L.Timezone) (appNow : ℤ) :
    (s.recomputeRow (fun _ => none) newTimezone appNow h).rule = h.rule ∧
      if h.rule.coreValid = true ∧ h.nextFireAt ≠ none then
        computeNextFireAt h.rule newTimezone appNow (s.moduleRuleKinds modules) =
          .ok (s.recomputeRow (fun _ => none) newTimezone appNow h).nextFireAt
      else (s.recomputeRow (fun _ => none) newTimezone appNow h).nextFireAt = h.nextFireAt := by
  unfold Sys.recomputeRow
  by_cases hnone : h.nextFireAt = none
  · rw [if_neg fun hc => hc.2 hnone, if_neg fun hc => hc.2 hnone]
    exact ⟨rfl, rfl⟩
  · rw [if_pos ⟨hen, hnone⟩]
    by_cases hv : h.rule.coreValid = true
    · obtain ⟨v, hnext⟩ := computeNextFireAt_some hL hv ht newTimezone appNow
        (s.moduleRuleKinds fun _ => none)
      rw [parseHeartbeatRule_of_coreValid hv, if_pos ⟨hv, hnone⟩]
      simp only [hnext]
      exact ⟨trivial, (computeNextFireAt_core hv _ _).trans hnext⟩
    · rw [if_neg fun hc => hv hc.1]
      rcases hparse : parseHeartbeatRule h.rule (s.moduleRuleKinds fun _ => none) with e | rule
      · exact ⟨rfl, rfl⟩
      · exact absurd (coreValid_of_parse hparse).1 hv

theorem prepare_stale {key : OccurrenceId} {generation : ℕ} {now : ℤ} {o : OccurrenceRow} {s' : Sys L}
    {proceed : Bool} (ho : s.occurrences key = some o) (hne : o.generation ≠ generation)
    (h : prepareHeartbeatOccurrenceFire modules s key generation now = some (s', proceed)) :
    proceed = false := by
  unfold prepareHeartbeatOccurrenceFire at h
  rcases hh : s.heartbeats key.heartbeatId with _ | row
  · simp only [hh, ho, Option.some.injEq, Prod.mk.injEq] at h
    exact h.2.symm
  · simp only [hh, ho, if_pos hne, Option.some.injEq, Prod.mk.injEq] at h
    exact h.2.symm

/-- The write reschedules what is of core and has an instant. -/
theorem rescheduled_iff (hL : L.Lawful) (modules : HeartbeatRuleKindRegistry L) (s : Sys L)
    (newTimezone : L.Timezone) (appNow : ℕ → ℤ) : Rescheduled modules s newTimezone appNow ↔
      ∀ id, ∀ h ∈ s.heartbeats id, h.enabled = true → s.TimeBased modules h.rule →
        Reached modules s newTimezone (appNow id) h := by
  have hrow : ∀ id, ∀ h ∈ s.heartbeats id, (updateTimezone s newTimezone appNow).heartbeats id =
      some (s.recomputeRow (fun _ => none) newTimezone (appNow id) h) := fun id h hh =>
    Option.map_eq_some_iff.mpr ⟨h, hh, rfl⟩
  constructor
  · intro hscheduled id h hh hen ht
    obtain ⟨h', hh', -, hnext⟩ := hscheduled.next id h hh hen ht
    obtain rfl := Option.some.inj ((hrow id h hh).symm.trans hh')
    obtain ⟨-, heq⟩ := recomputeRow_eq hL h ht hen newTimezone (appNow id)
    split_ifs at heq with hcore
    · exact .inl hcore
    · exact .inr (hnext.trans (congrArg _ heq))
  · intro hreached
    refine ⟨fun id h hh hen ht => ⟨_, hrow id h hh, ?_⟩,
      fun key generation now o ho hne s' proceed h => prepare_stale ho hne h⟩
    obtain ⟨hrule, heq⟩ := recomputeRow_eq hL h ht hen newTimezone (appNow id)
    refine ⟨hrule, ?_⟩
    split_ifs at heq with hcore
    · exact heq
    · rw [heq]
      exact (hreached id h hh hen ht).resolve_left hcore

def dailyAndOff : List (Act Luxon.utc) :=
  [.createHeartbeat (.dailyTime ⟨9, 0⟩) "act" true 0, .createHeartbeat (.interval 1) "act" false 0]

theorem dailyAndOff_rescheduled : ∃ s, runActs (step fun _ => none) (Sys.init [] () 0) dailyAndOff =
    some s ∧ Rescheduled (fun _ => none) s () fun _ => 86400000 := by
  obtain ⟨s, hs⟩ := Option.isSome_iff_exists.mp (by decide +kernel :
    (runActs (step fun _ => none) (Sys.init [] () 0) dailyAndOff).isSome = true)
  have hrows : s.heartbeats = Function.update (Function.update (fun _ => none) 0
      (some ⟨.dailyTime ⟨9, 0⟩, "act", true, some 32400000, none, none⟩)) 1
      (some ⟨.interval 1, "act", false, none, none, none⟩) :=
    eq_of_map_eq (f := fun s => s.heartbeats) hs rfl
  refine ⟨s, hs, (rescheduled_iff Luxon.utc_lawful _ s () _).mpr fun id h hh hen _ => .inl ?_⟩
  simp only [hrows, Function.update_apply] at hh
  split_ifs at hh
  · obtain rfl := Option.some.inj hh
    exact nomatch hen
  · obtain rfl := Option.some.inj hh
    exact ⟨rfl, nofun⟩
  · exact nomatch hh

def secondLater : HeartbeatRuleKindRegistry Luxon.utc := fun kind =>
  if kind = "second" then some ⟨some, fun _ _ after => some (after + 1000)⟩ else none

def moduleHeartbeat : List (Act Luxon.utc) :=
  [.setModules ["second"], .createHeartbeat (.module "second" "{}") "act" true 0]

/-- The heartbeat of an active module keeps the instant that it had. -/
theorem module_not_rescheduled : ¬∀ s, Reach (step secondLater) (fun _ _ => True) (Sys.init [] () 0) s →
    ∀ newTimezone appNow, Rescheduled secondLater s newTimezone appNow := by
  intro hclaim
  obtain ⟨s, hs⟩ := Option.isSome_iff_exists.mp (by decide +kernel :
    (runActs (step secondLater) (Sys.init [] () 0) moduleHeartbeat).isSome = true)
  have hrow : s.heartbeats 0 =
      some ⟨.module "second" "{}", "act", true, some 1000, none, none⟩ :=
    eq_of_map_eq (f := fun s => s.heartbeats 0) hs (by decide +kernel)
  have hkinds : (s.activeKinds : List String) = ["second"] :=
    eq_of_map_eq (f := fun s => s.activeKinds) hs (by decide +kernel)
  have hhandler : s.moduleRuleKinds secondLater "second" =
      some ⟨some, fun _ _ after => some (after + 1000)⟩ := by
    rw [Sys.moduleRuleKinds, hkinds]
    rfl
  obtain ⟨h', hh', -, hnext⟩ := (hclaim s (.of_runActs hs) () fun _ => 5000).next 0 _ hrow rfl
    (by rw [Sys.TimeBased, hhandler]; nofun)
  have hstays : (updateTimezone s () fun _ => 5000).heartbeats 0 =
      some ⟨.module "second" "{}", "act", true, some 1000, none, some (.rule (.unknownKind "second"))⟩ :=
    eq_of_map_eq (f := fun s => (updateTimezone s () fun _ => 5000).heartbeats 0) hs (by decide +kernel)
  obtain rfl := Option.some.inj (hstays.symm.trans hh')
  simp [computeNextFireAt, hhandler] at hnext

end Scheduler

end Semprec
