import Semprec.Proofs.WakeRunOwners

/-!
# Every wake run has an owner

Each step of a call keeps the invariant `Own`, with a new owner for a run that changes hands.  A
wake whose calls fail between its run and its turn, a close that is only logged, a committed pause
whose status event fails and a drop that falls before a `finally` are what the invariant does not
survive (`Handled`).
-/

namespace Semprec

namespace WakeRuns

variable {s s' : Sys} {g : Ghost} {k : Key} {c r : ℕ} {call : Call}

/-! ## The steps -/

theorem own_send (h : Own s g) (hs : step s (.send k) = some s') : ∃ g', Own s' g' := by
  have hfresh := h.fresh s.nextCall (Nat.le_refl _)
  simp only [step] at hs
  split at hs
  · cases hs
    exact ⟨g, h⟩
  · next hbusy =>
    simp only [not_or, Bool.not_eq_true] at hbusy
    obtain ⟨hb, hw, hd⟩ := hbusy
    rcases he : (s.conversations k).entry with _ | ⟨r, busy, t⟩
    · simp only [he, Option.some.injEq] at hs
      have hfree := h.free hw (by simp [he])
      exact ⟨_, h.wake (x := .wakeReading k) (.inr ⟨hfree, hfresh⟩) hs.symm rfl
        ⟨Nat.le_succ _, Nat.lt_succ_self _⟩ (.inl rfl) rfl rfl rfl he
        (fun hwakes hnone => ⟨hwakes, hnone⟩) fun y r hy => by simp [hfresh] at hy⟩
    · simp only [he, Option.some.injEq] at hs
      obtain rfl : busy = false := by simpa [he] using hb
      have hok := h.entries k _ he
      obtain ⟨rfl, hr, -⟩ : t = some .ttl ∧ _ := (hok.timer rfl).resolve_right (by simp [hd])
      have hfree := h.free hw (by simp [he])
      exact ⟨_, h.serve (x := .turn k r) (t := some .ttl) (.inr ⟨hfree, hfresh⟩) hs.symm rfl
        ⟨Nat.le_succ _, Nat.lt_succ_self _⟩ (.inl rfl) (fun _ _ => rfl) (.inl hok.owned) rfl
        (by simp) rfl hok.stored hok.owned
        (fun hserve hconv => ⟨hserve, by rw [hconv]; exact hw, by rw [← hs]; exact hr⟩)
        (by simp [he]) (fun y r' hy => by simp [hfresh] at hy)
        fun c' _ _ hso => by simp [(hso.idle _ he rfl).2] at hd⟩

theorem own_startTurn (h : Own s g) (hs : step s (.startTurn c) = some s') :
    ∃ g', Own s' g' := by
  simp only [step] at hs
  split at hs
  · next k r hc =>
    cases hs
    obtain ⟨hw, he, ho, hr⟩ : Wakes s g c k ∧ _ := h.calls c _ hc
    refine ⟨_, h.wake (x := .wakeTurn k r) (.inl hw.held) rfl rfl ⟨Nat.le_refl _, h.call_lt hc⟩
      (.inl rfl) rfl hw.waking he he (fun hwakes hnone => ⟨hwakes, hnone, ho, hr⟩)
      fun y r' hy hcarries _ _ => ?_⟩
    cases hc.symm.trans hy
    exact hcarries
  · cases hs

theorem own_wakeFails (h : Own s g) (hok : Handled s (.wakeFails c))
    (hs : step s (.wakeFails c) = some s') : ∃ g', Own s' g' := by
  simp only [step] at hs
  split at hs
  · next k hc =>
    cases hs
    obtain ⟨hw, he⟩ : Wakes s g c k ∧ _ := h.calls c _ hc
    refine ⟨_, h.wake (x := .wakeSettled k) (.inl hw.held) rfl rfl
      ⟨Nat.le_refl _, h.call_lt hc⟩ (.inl rfl) rfl hw.waking he he
      (fun hwakes hnone => ⟨hwakes, by simp [hnone]⟩) fun y r' hy hcarries _ _ => ?_⟩
    cases hc.symm.trans hy
    cases hcarries
  · next k r hc => exact absurd hc (hok k r)
  · cases hs

theorem Serves.not_settled (h : Serves s g c k r) : ¬Settled s g k r := fun hs => by
  obtain ⟨t, -, he⟩ := h.entry
  simpa using (hs.idle _ he rfl).1

theorem Serves.eq {e : Entry} (h : Serves s g c k r) (he : (s.conversations k).entry = some e) :
    e.agentRunId = r := by
  obtain ⟨t, -, he'⟩ := h.entry
  cases he'.symm.trans he
  rfl

theorem Own.unserve {x : Call} {call : Option Call} {conv : Conversation}
    {runs' : List AgentRunStatus} {d : Option ℕ} (h : Own s g) (hx : s.calls c = some x)
    (hserve : Serves s g c k r) (hcarries : x.carries = none)
    (hs : s' = ⟨runs', Function.update s.conversations k conv, Function.update s.calls c call,
      s.nextCall⟩)
    (hg : g' = ⟨g.owner, Function.update g.holder k d⟩)
    (hruns : Finishes s (fun r => g.owner r = .key k ∨ g.owner r = .call c) runs')
    (hcall : ∀ x, call = some x → CallOk s' g' c x)
    (hhd : (d = none ∧ conv.waking = false) ∨
      (d = some c ∧ ∃ x, call = some x ∧ x.key = some k))
    (hentry : (conv.entry = none ∧ runs'[r]? ≠ some .running) ∨
      ∃ t, conv.entry = some ⟨r, false, some t⟩ ∧
        ((t = .ttl ∧ runs'[r]? = some .running ∧ conv.dropped = false) ∨
          (t = .retry ∧ conv.dropped = true))) : Own s' g' := by
  refine h.rest hserve.held hs hg ⟨Nat.le_refl _, h.call_lt hx⟩ hruns (fun _ _ _ => rfl) hcall
    hhd (fun e he => ?_) (fun e he _ hr => ?_) (fun y r' hy hc => ?_) fun c' r' _ _ hso => ?_
  · rcases hentry with ⟨hnone, -⟩ | ⟨t, hsome, ht⟩
    · cases hnone.symm.trans he
    · cases hsome.symm.trans he
      refine ⟨rfl, hserve.stored, hserve.owned, ht.imp (fun h => ?_) fun h => ?_⟩
      · exact ⟨by simp [h.1], h.2⟩
      · exact ⟨by simp [h.1], h.2⟩
  · rw [hserve.eq he] at hr ⊢
    rcases hentry with ⟨-, hnot⟩ | ⟨t, hsome, -⟩
    · exact absurd hr hnot
    · exact RunOk.of_key (k := k) (by simp [hg, hserve.owned]) (by simp [hs]; exact hsome) rfl
  · cases hx.symm.trans hy
    cases hcarries.symm.trans hc
  · refine ⟨hso.owned, fun e he her => ?_⟩
    rcases hentry with ⟨hnone, -⟩ | ⟨t, hsome, -⟩
    · cases hnone.symm.trans he
    · cases hsome.symm.trans he
      cases her
      exact absurd hso hserve.not_settled

theorem own_turnFails (h : Own s g) (hs : step s (.turnFails c) = some s') :
    ∃ g', Own s' g' := by
  simp only [step] at hs
  split at hs
  · next k r hc =>
    cases hs
    obtain ⟨hserve, hw, hr⟩ : Serves s g c k r ∧ _ := h.calls c _ hc
    refine ⟨⟨Function.update g.owner r (.call c), Function.update g.holder k none⟩,
      h.rest (z := some (.failing none r)) hserve.held rfl rfl ⟨Nat.le_refl _, h.call_lt hc⟩
        (.inl rfl) (fun r' hk _ => ?_) (fun x hx => ?_) (.inl ⟨rfl, by simp [hw]⟩) (by simp)
        (fun e he _ _ => ?_) (fun y r' hy hcarries => ?_) fun c' r' _ _ hso => ⟨?_, by simp⟩⟩
    · have hne : r' ≠ r := by
        rintro rfl
        exact hk hserve.owned
      simp [hne]
    · cases hx
      exact ⟨hserve.stored, by simp⟩
    · rw [hserve.eq he]
      exact RunOk.of_call (c := c) (x := .failing none r) (by simp)
        (by simp [Sys.move, Sys.setCall, Sys.setConversation]) rfl
    · cases hc.symm.trans hy
      cases hcarries
    · have hne : r' ≠ r := by
        rintro rfl
        exact hserve.not_settled hso
      simp [hne, hso.owned]
  · next k r hc =>
    cases hs
    obtain ⟨hw, he, ho, hr⟩ : Wakes s g c k ∧ _ := h.calls c _ hc
    refine ⟨_, h.wake (x := .failing (some k) r) (.inl hw.held) rfl rfl
      ⟨Nat.le_refl _, h.call_lt hc⟩ (.inl rfl) rfl hw.waking he he
      (fun hwakes hnone => ⟨hwakes, hnone, stored_of_running hr, ho⟩)
      fun y r' hy hcarries _ _ => ?_⟩
    cases hc.symm.trans hy
    exact hcarries
  · cases hs

theorem not_running_finish {status : AgentRunStatus} (hne : status ≠ .running) :
    (s.finish r status).runs[r]? ≠ some .running := by
  rcases hold : s.runs[r]? with _ | old
  · simp [Sys.finish, hold]
  · simp only [Sys.finish, List.getElem?_modify, hold, Option.map_eq_map, Option.map_some, if_true,
      ne_eq, Option.some.injEq]
    split_ifs with hrun
    · exact hne
    · exact hrun

theorem own_failRun (h : Own s g) (hs : step s (.failRun c) = some s') : ∃ g', Own s' g' := by
  simp only [step] at hs
  split at hs
  · next ko r hc =>
    cases hs
    rcases ko with _ | k
    · obtain ⟨hlt, ho⟩ : r < s.runs.length ∧ g.owner r = .call c := h.calls c _ hc
      refine ⟨g, h.leave (fun k => h.not_holds hc (by simp [Call.key]))
        (.inr ⟨r, .error, ho, by simp, rfl⟩) fun r' ho' hr' => ?_⟩
      have hrun := Finishes.running (P := fun _ => True)
        (.inr ⟨r, .error, trivial, by simp, rfl⟩) hr'
      cases h.owned hrun ho' hc
      exact not_running_finish (by simp) hr'
    · obtain ⟨hw, he, hlt, ho⟩ : Wakes s g c k ∧ _ := h.calls c _ hc
      refine ⟨_, h.wake (x := .wakeSettled k) (v := s.conversations k) (.inl hw.held) ?_ rfl
        ⟨Nat.le_refl _, h.call_lt hc⟩ (.inr ⟨r, .error, .inr ho, by simp, rfl⟩) rfl hw.waking
        he he (fun hwakes hnone => ⟨hwakes, by simp [hnone]⟩) fun y r' hy hcarries _ hr' => ?_⟩
      · rw [Function.update_eq_self]
        rfl
      · cases hc.symm.trans hy
        cases hcarries
        exact absurd hr' (not_running_finish (by simp))
  · cases hs

theorem Own.keep {x y : Call} {conv : Conversation} {runs' : List AgentRunStatus}
    {t : Option Timer} (h : Own s g) (hx : s.calls c = some x) (hserve : Serves s g c k r)
    (hcarries : x.carries = none)
    (hs : s' = ⟨runs', Function.update s.conversations k conv,
      Function.update s.calls c (some y), s.nextCall⟩)
    (hg : g' = ⟨g.owner, Function.update g.holder k (some c)⟩)
    (hruns : Finishes s (fun r => g.owner r = .key k ∨ g.owner r = .call c) runs')
    (hy : y.key = some k) (ht : t ≠ some .retry) (hconv : conv.entry = some ⟨r, true, t⟩)
    (hcall : Serves s' g' c k r → s'.conversations k = conv → CallOk s' g' c y) : Own s' g' := by
  refine h.serve (.inl hserve.held) hs hg ⟨Nat.le_refl _, h.call_lt hx⟩ hruns (fun _ _ => rfl)
    (.inl hserve.owned) hy ht hconv hserve.stored hserve.owned hcall
    (fun e he => hserve.eq he) (fun z r' hz hc => ?_) fun c' _ _ => hserve.not_settled
  cases hx.symm.trans hz
  cases hcarries.symm.trans hc

theorem own_settle (h : Own s g) (hs : step s (.settle c) = some s') : ∃ g', Own s' g' := by
  simp only [step] at hs
  split at hs
  · next k r hc =>
    obtain ⟨hw, he, ho, hr⟩ : Wakes s g c k ∧ _ := h.calls c _ hc
    have hlt := stored_of_running hr
    have hcarried : ∀ x r', s.calls c = some x → x.carries = some r' → r' = r := by
      intro x r' hx hcarries
      cases hc.symm.trans hx
      cases hcarries
      rfl
    split_ifs at hs with hd
    · cases hs
      refine ⟨⟨Function.update g.owner r (.key k), Function.update g.holder k (some c)⟩,
        h.serve (x := .closing k r .wake) (.inl hw.held) rfl rfl ⟨Nat.le_refl _, h.call_lt hc⟩
          (.inl rfl) (fun r' hne => by simp [hne]) (.inr ho) rfl (by simp) rfl hlt (by simp)
          (fun hserve hconv => ⟨hserve, ?_, ?_⟩) (by simp [he]) hcarried fun c' _ _ hso => ?_⟩
      · simp [hconv, hw.waking]
      · simp [hconv, hd]
      · cases ho.symm.trans hso.owned
    · cases hs
      simp only [Bool.not_eq_true] at hd
      refine ⟨⟨Function.update g.owner r (.key k), Function.update g.holder k (some c)⟩,
        h.rest (z := some (.wakeSettled k)) hw.held rfl rfl ⟨Nat.le_refl _, h.call_lt hc⟩
          (.inl rfl) (fun r' _ hne => ?_) (fun x hx => ?_) (.inr ⟨rfl, _, rfl, rfl⟩)
          (fun e he' => ?_) (by simp [he]) (fun x r' hx hcarries _ _ => ?_)
          fun c' r' _ _ hso => ?_⟩
      · have hne' : r' ≠ r := by
          rintro rfl
          exact hne ho
        simp [hne']
      · cases hx
        refine ⟨⟨by simp, ?_⟩, ?_⟩ <;>
          simp [Sys.move, Sys.setCall, Sys.setConversation, hw.waking]
      · cases he'
        exact ⟨rfl, hlt, by simp, .inl ⟨rfl, hr, hd⟩⟩
      · rw [hcarried x r' hx hcarries]
        exact RunOk.of_key (k := k) (e := ⟨r, false, some .ttl⟩) (by simp)
          (by simp [Sys.move, Sys.setCall, Sys.setConversation]) rfl
      · have hne : r' ≠ r := by
          rintro rfl
          cases ho.symm.trans hso.owned
        refine ⟨by simp [hne, hso.owned], fun e he' her => ?_⟩
        cases he'
        exact absurd her.symm hne
  · next k r hc =>
    obtain ⟨hserve, hw, hr⟩ : Serves s g c k r ∧ _ := h.calls c _ hc
    split_ifs at hs with hd
    · cases hs
      refine ⟨_, h.keep (y := .closing k r .turn) hc hserve rfl rfl rfl (.inl rfl) rfl (by simp)
        rfl fun hserve' hconv => ⟨hserve', ?_, ?_⟩⟩
      · simp [hconv, hw]
      · simp [hconv, hd]
    · cases hs
      simp only [Bool.not_eq_true] at hd
      refine ⟨_, h.keep (y := .turnSettled k r) (t := some .ttl) hc hserve rfl rfl rfl (.inl rfl)
        rfl (by simp) rfl fun hserve' hconv => .inl ⟨hserve', ?_, hr, ?_, ?_⟩⟩
      · simp [hconv, hw]
      · simp [hconv, hd]
      · simp [hconv]
  · cases hs

theorem unbusy_of_idle {conv : Conversation}
    (h : ∀ e, conv.entry = some e → e.agentRunId = r → e.busy = false) : conv.unbusy r = conv := by
  rcases conv with ⟨_ | ⟨r', busy, t⟩, waking, dropped⟩
  · rfl
  · simp only [Conversation.unbusy, Conversation.setEntry, Option.map_some]
    split_ifs with he
    · have hb := h _ rfl he
      simp only at hb
      rw [hb]
    · rfl

theorem own_leave (h : Own s g) (hs : step s (.leave c) = some s') : ∃ g', Own s' g' := by
  simp only [step] at hs
  split at hs
  · next k hc =>
    cases hs
    obtain ⟨hw, hidle⟩ : Wakes s g c k ∧ _ := h.calls c _ hc
    refine ⟨_, h.rest (z := none) hw.held rfl rfl ⟨Nat.le_refl _, h.call_lt hc⟩ (.inl rfl)
      (fun _ _ _ => rfl) (by simp) (.inl ⟨rfl, by simp⟩) (fun e he => ?_)
      (fun e he ho hr => ?_) (fun y r' hy hcarries => ?_) fun c' r' _ _ hso => ⟨hso.owned, ?_⟩⟩
    · rw [Conversation.releaseIfIdle_entry] at he
      have hok := h.entries k e he
      rw [Conversation.releaseIfIdle_dropped (e := e) he]
      exact ⟨hidle e he, hok.stored, hok.owned, hok.timer (hidle e he)⟩
    · exact RunOk.of_key ho
        (by simpa [Sys.move, Sys.setCall, Sys.setConversation] using he) rfl
    · cases hc.symm.trans hy
      cases hcarries
    · intro e he her
      rw [Conversation.releaseIfIdle_entry] at he
      rw [Conversation.releaseIfIdle_dropped (e := e) he]
      exact (hso.idle e he her).2
  · next k r hc =>
    cases hs
    rcases (h.calls c _ hc : CallOk s g c (.turnSettled k r)) with
      ⟨hserve, hw, hr, hd, he⟩ | ⟨hne, hso⟩
    · refine ⟨_, h.unserve hc hserve rfl rfl rfl (.inl rfl) (by simp) (.inl ⟨rfl, hw⟩)
        (.inr ⟨.ttl, ?_, .inl ⟨rfl, hr, hd⟩⟩)⟩
      simp [Conversation.unbusy, he]
    · rw [unbusy_of_idle fun e he her => (hso.idle e he her).1]
      refine ⟨g, ?_⟩
      have hleave : Own ⟨s.runs, s.conversations, Function.update s.calls c none, s.nextCall⟩ g :=
        h.leave (fun k' hk' => ?_) (.inl rfl) fun r' ho' hr' => ?_
      · simpa [Sys.move, Sys.setCall, Sys.setConversation, Function.update_eq_self] using hleave
      · obtain ⟨x, hx, hxk, -⟩ := h.holds hk'
        cases hc.symm.trans hx
        cases hxk
        exact hne hk'
      · cases h.owned hr' ho' hc
  · cases hs

/-- An idle entry stands beside a wake only until the `finally` of the wake. -/
theorem Own.waking_of_quiet {e : Entry} (h : Own s g) (he : (s.conversations k).entry = some e)
    (hb : e.busy = false) (hq : s.Quiet k e.agentRunId) : (s.conversations k).waking = false := by
  rcases hw : (s.conversations k).waking with _ | _
  · rfl
  · exfalso
    obtain ⟨c, hk⟩ := Option.ne_none_iff_exists'.mp (h.wakings k hw)
    obtain ⟨x, hx, hxk, hcall⟩ := h.holds hk
    rcases hcall.attached hxk hk with ⟨-, hnone⟩ | ⟨-, rfl⟩ | ⟨r, hserve⟩
    · simp [hnone] at he
    · exact (hq c (h.call_lt hx)).1 hx
    · obtain ⟨t, -, he'⟩ := hserve.entry
      cases he.symm.trans he'
      cases hb

theorem Own.startClosing {conv : Conversation} {e : Entry} (h : Own s g)
    (he : (s.conversations k).entry = some e) (hb : e.busy = false)
    (hw : (s.conversations k).waking = false)
    (hconv : conv.entry = some ⟨e.agentRunId, true, none⟩) (hw' : conv.waking = false)
    (hd : conv.dropped = true)
    (hsettled : ∀ c, s.calls c = some (.turnSettled k e.agentRunId) → ¬Settled s g k e.agentRunId) :
    ∃ g', Own (s.start (.closing k e.agentRunId .timer) k conv) g' := by
  have hfresh := h.fresh s.nextCall (Nat.le_refl _)
  have hok := h.entries k e he
  have hfree := h.free hw fun e' he' => by cases he.symm.trans he'; exact hb
  refine ⟨_, h.serve (x := .closing k e.agentRunId .timer) (.inr ⟨hfree, hfresh⟩) rfl rfl
    ⟨Nat.le_succ _, Nat.lt_succ_self _⟩ (.inl rfl) (fun _ _ => rfl) (.inl hok.owned) rfl
    (by simp) hconv hok.stored hok.owned (fun hserve hconv' => ⟨hserve, ?_, ?_⟩)
    (fun e' he' => ?_) (fun y r' hy => ?_) fun c' _ hc => hsettled c' hc⟩
  · simp [hconv', hw']
  · simp [hconv', hd]
  · cases he.symm.trans he'
    rfl
  · simp [hfresh] at hy

theorem own_dropTenant {tenantId : ℕ} (h : Own s g) (hok : Handled s (.dropTenant tenantId))
    (hs : step s (.dropTenant tenantId) = some s') : ∃ g', Own s' g' := by
  simp only [step] at hs
  split at hs
  · cases hs
    exact ⟨g, h⟩
  · next hlive =>
    obtain ⟨habsent, hd⟩ := not_or.mp hlive
    rw [Bool.not_eq_true] at hd
    rcases he : (s.conversations (.semp tenantId)).entry with _ | e
    · simp only [he, Option.some.injEq] at hs
      rcases hw : (s.conversations (.semp tenantId)).waking with _ | _
      · refine absurd ?_ habsent
        rcases hconv : s.conversations (.semp tenantId) with ⟨entry, waking, dropped⟩
        simp_all [Conversation.absent]
      · exact ⟨g, hs ▸ (by simpa only [he] using h.dropWaking hw he)⟩
    · simp only [he] at hs
      have hq := hok hd e he
      split_ifs at hs with hbusy
      · cases hs
        rcases hb : e.busy with _ | _
        · simp [hb, h.waking_of_quiet he hb hq] at hbusy
        · rcases e with ⟨r, busy, t⟩
          cases hb
          have hdisarm := h.disarm (v := ⟨some ⟨r, true, none⟩,
            (s.conversations (.semp tenantId)).waking, true⟩) he rfl rfl (fun _ => rfl) hq
          exact ⟨g, by simpa only [he] using hdisarm⟩
      · cases hs
        simp only [not_or, Bool.not_eq_true] at hbusy
        exact h.startClosing he hbusy.2 hbusy.1 rfl hbusy.1 rfl fun c hc =>
          absurd hc (hq c (h.call_lt hc)).2

theorem own_finishDropped (h : Own s g) (hs : step s (.finishDropped c) = some s') :
    ∃ g', Own s' g' := by
  simp only [step] at hs
  split at hs
  · next k r a hc =>
    cases hs
    obtain ⟨hserve, hw, hd⟩ : Serves s g c k r ∧ _ := h.calls c _ hc
    obtain ⟨t, ht, he⟩ := hserve.entry
    exact ⟨_, h.keep (y := .closed k r a) hc hserve rfl rfl rfl
      (.inr ⟨r, .error, .inl hserve.owned, by simp, rfl⟩) rfl ht he fun hserve' hconv =>
        ⟨hserve', by rw [hconv]; exact hw, by rw [hconv]; exact hd,
          not_running_finish (by simp)⟩⟩
  · cases hs

theorem Own.endClosing {x : Call} {a : After} {conv : Conversation} (h : Own s g)
    (hx : s.calls c = some x) (hcarries : x.carries = none) (hserve : Serves s g c k r)
    (hw : (s.conversations k).waking = true ↔ a = .wake)
    (hwaking : conv.waking = (s.conversations k).waking)
    (hentry : (conv.entry = none ∧ s.runs[r]? ≠ some .running) ∨
      (conv.entry = some ⟨r, false, some .retry⟩ ∧ conv.dropped = true)) :
    ∃ g', Own (s.move c (a.next k r) k conv) g' := by
  have hidle : ∀ e, conv.entry = some e → e.busy = false ∧ conv.dropped = true := by
    intro e he
    rcases hentry with ⟨hnone, -⟩ | ⟨hsome, hd⟩
    · cases hnone.symm.trans he
    · cases hsome.symm.trans he
      exact ⟨rfl, hd⟩
  have hrest : (conv.entry = none ∧ s.runs[r]? ≠ some .running) ∨
      ∃ t, conv.entry = some ⟨r, false, some t⟩ ∧
        ((t = .ttl ∧ s.runs[r]? = some .running ∧ conv.dropped = false) ∨
          (t = .retry ∧ conv.dropped = true)) :=
    hentry.imp id fun hr => ⟨.retry, hr.1, .inr ⟨rfl, hr.2⟩⟩
  cases a with
  | wake =>
    have hw' : conv.waking = true := hwaking.trans (hw.mpr rfl)
    refine ⟨_, h.unserve (d := some c) hx hserve hcarries rfl rfl (.inl rfl) (fun y hy => ?_)
      (.inr ⟨rfl, _, rfl, rfl⟩) hrest⟩
    cases hy
    refine ⟨⟨by simp, ?_⟩, fun e he => (hidle e ?_).1⟩
    · simpa [Sys.move, Sys.setCall, Sys.setConversation] using hw'
    · simpa [Sys.move, Sys.setCall, Sys.setConversation] using he
  | turn =>
    have hw' : conv.waking = false := by
      rw [hwaking, ← Bool.not_eq_true, hw]
      simp
    refine ⟨_, h.unserve (d := none) hx hserve hcarries rfl rfl (.inl rfl) (fun y hy => ?_)
      (.inl ⟨rfl, hw'⟩) hrest⟩
    cases hy
    refine .inr ⟨by simp, hserve.stored, hserve.owned, fun e he _ => ?_⟩
    have hconv : (s.move c (After.turn.next k r) k conv).conversations k = conv := by
      simp [Sys.move, Sys.setCall, Sys.setConversation]
    rw [hconv] at he ⊢
    exact hidle e he
  | timer =>
    have hw' : conv.waking = false := by
      rw [hwaking, ← Bool.not_eq_true, hw]
      simp
    exact ⟨_, h.unserve (d := none) hx hserve hcarries rfl rfl (.inl rfl) (by simp [After.next])
      (.inl ⟨rfl, hw'⟩) hrest⟩

theorem own_pushDropped (h : Own s g) (hs : step s (.pushDropped c) = some s') :
    ∃ g', Own s' g' := by
  simp only [step] at hs
  split at hs
  · next k r a hc =>
    cases hs
    obtain ⟨hserve, hw, hd, hr⟩ : Serves s g c k r ∧ _ := h.calls c _ hc
    exact h.endClosing hc rfl hserve hw (by simp) (.inl ⟨by simp, hr⟩)
  · cases hs

theorem own_closeDroppedFails (h : Own s g) (hs : step s (.closeDroppedFails c) = some s') :
    ∃ g', Own s' g' := by
  simp only [step] at hs
  split at hs
  · next k r a hc =>
    cases hs
    obtain ⟨hserve, hw, hd⟩ : Serves s g c k r ∧ _ := h.calls c _ hc
    exact h.endClosing hc rfl hserve hw (by simp) (.inr ⟨by simp, by simpa using hd⟩)
  · next k r a hc =>
    cases hs
    obtain ⟨hserve, hw, hd, hr⟩ : Serves s g c k r ∧ _ := h.calls c _ hc
    exact h.endClosing hc rfl hserve hw (by simp) (.inr ⟨by simp, by simpa using hd⟩)
  · cases hs

theorem own_ttlTimer (h : Own s g) (hs : step s (.ttlTimer k) = some s') :
    ∃ g', Own s' g' := by
  simp only [step] at hs
  split at hs
  · next r busy he =>
    split at hs
    · next hq =>
      cases busy with
      | true =>
        rw [if_pos rfl] at hs
        cases hs
        exact ⟨g, h.disarm he rfl rfl id hq⟩
      | false =>
        simp only [Bool.false_eq_true, if_false, Option.some.injEq] at hs
        have hfresh := h.fresh s.nextCall (Nat.le_refl _)
        have hok := h.entries k _ he
        have hw := h.waking_of_quiet he rfl hq
        have hfree := h.free hw fun e' he' => by cases he.symm.trans he'; rfl
        obtain ⟨-, hr, hd⟩ : _ ∧ s.runs[r]? = some .running ∧ _ :=
          (hok.timer rfl).resolve_right (by simp)
        have hstart : ∀ x : Call, x.key = some k → (∀ s' g', Serves s' g' s.nextCall k r →
            (s'.conversations k).waking = false → s'.runs[r]? = some .running →
            CallOk s' g' s.nextCall x) →
            ∃ g', Own (s.start x k ((s.conversations k).setEntry (some ⟨r, true, none⟩))) g' := by
          intro x hx hcall
          exact ⟨_, h.serve (x := x) (.inr ⟨hfree, hfresh⟩) rfl rfl
            ⟨Nat.le_succ _, Nat.lt_succ_self _⟩ (.inl rfl) (fun _ _ => rfl) (.inl hok.owned) hx
            (by simp) rfl hok.stored hok.owned
            (fun hserve hconv => hcall _ _ hserve (by simp [hconv, hw]) hr)
            (fun e' he' => by cases he.symm.trans he'; rfl) (fun y r' hy => by simp [hfresh] at hy)
            fun c' _ hc hso => absurd hc (hq c' (h.call_lt hc)).2⟩
        rw [← hs]
        rcases k with tenantId | ⟨supervisorRunId, targetProjectItemId⟩
        · exact hstart _ rfl fun s' g' hserve hw hr => ⟨hserve, hw, hr⟩
        · exact hstart _ rfl fun s' g' hserve hw hr => ⟨hserve, hw, hr⟩
    · cases hs
  · cases hs

theorem own_retryTimer (h : Own s g) (hs : step s (.retryTimer k) = some s') :
    ∃ g', Own s' g' := by
  simp only [step] at hs
  split at hs
  · next r busy he =>
    split at hs
    · next hq =>
      cases hs
      have hok := h.entries k _ he
      rcases busy with _ | _
      · obtain ⟨-, hd⟩ := (hok.timer rfl).resolve_left (by simp)
        have hw := h.waking_of_quiet he rfl hq
        exact h.startClosing he rfl hw rfl hw hd fun c hc => absurd hc (hq c (h.call_lt hc)).2
      · exact absurd rfl (hok.held rfl).2
    · cases hs
  · cases hs

theorem own_checkPause (h : Own s g) (hs : step s (.checkPause c) = some s') :
    ∃ g', Own s' g' := by
  simp only [step] at hs
  split at hs
  · next k r hc =>
    cases hs
    obtain ⟨hserve, hw, hr⟩ : Serves s g c k r ∧ _ := h.calls c _ hc
    obtain ⟨t, ht, he⟩ := hserve.entry
    split_ifs with hd
    · exact ⟨_, h.keep (y := .closing k r .timer) hc hserve rfl rfl rfl (.inl rfl) rfl ht he
        fun hserve' hconv => ⟨hserve', by simp [hconv, hw], by rw [hconv]; exact hd⟩⟩
    · exact ⟨_, h.keep (y := .committing k r) hc hserve rfl rfl rfl (.inl rfl) rfl ht he
        fun hserve' hconv => ⟨hserve', by rw [hconv]; exact hw, hr⟩⟩
  · cases hs

theorem own_commitPause (h : Own s g) (hs : step s (.commitPause c) = some s') :
    ∃ g', Own s' g' := by
  simp only [step] at hs
  split at hs
  · next k r hc =>
    cases hs
    obtain ⟨hserve, hw, hr⟩ : Serves s g c k r ∧ _ := h.calls c _ hc
    obtain ⟨t, ht, he⟩ := hserve.entry
    have hruns : Finishes s (fun r => g.owner r = .key k ∨ g.owner r = .call c)
        (s.finish r .done).runs := .inr ⟨r, .done, .inl hserve.owned, by simp, rfl⟩
    rcases k with tenantId | ⟨supervisorRunId, targetProjectItemId⟩
    · exact ⟨_, h.keep (y := .paused (.semp tenantId) r) hc hserve rfl rfl rfl hruns rfl ht he
        fun hserve' hconv => ⟨hserve', by rw [hconv]; exact hw, not_running_finish (by simp)⟩⟩
    · exact ⟨_, h.unserve (d := none) hc hserve rfl rfl rfl hruns
        (fun x hx => by cases hx; trivial) (.inl ⟨rfl, hw⟩)
        (.inl ⟨rfl, not_running_finish (by simp)⟩)⟩
  · cases hs

theorem Own.catchPause {x : Call} (h : Own s g) (hx : s.calls c = some x)
    (hcarries : x.carries = none) (hserve : Serves s g c k r)
    (hw : (s.conversations k).waking = false)
    (hopen : (s.conversations k).dropped = true ∨ s.runs[r]? = some .running) :
    ∃ g', Own (catchPause s c k r) g' := by
  obtain ⟨t, ht, he⟩ := hserve.entry
  unfold WakeRuns.catchPause
  simp only
  split_ifs with hd
  · exact ⟨_, h.keep (y := .closing k r .timer) hx hserve hcarries rfl rfl (.inl rfl) rfl ht he
      fun hserve' hconv => ⟨hserve', by simp [hconv, hw], by rw [hconv]; exact hd⟩⟩
  · exact ⟨_, h.unserve (d := none) hx hserve hcarries rfl rfl (.inl rfl) (by simp)
      (.inl ⟨rfl, hw⟩) (.inr ⟨.ttl, rfl, .inl ⟨rfl, hopen.resolve_left hd, by simpa using hd⟩⟩)⟩

theorem own_pauseFails (h : Own s g) (hs : step s (.pauseFails c) = some s') :
    ∃ g', Own s' g' := by
  simp only [step] at hs
  split at hs
  · next k r hc =>
    cases hs
    obtain ⟨hserve, hw, hr⟩ : Serves s g c k r ∧ _ := h.calls c _ hc
    exact h.catchPause hc rfl hserve hw (.inr hr)
  · next k r hc =>
    cases hs
    obtain ⟨hserve, hw, hr⟩ : Serves s g c k r ∧ _ := h.calls c _ hc
    exact h.catchPause hc rfl hserve hw (.inr hr)
  · cases hs

theorem Own.endExpired {supervisorRunId targetProjectItemId : ℕ} (h : Own s g)
    (hc : s.calls c = some (.paused (.delegation supervisorRunId targetProjectItemId) r)) :
    Own (s.setCall c none) g := by
  refine h.leave (fun k => h.not_holds hc (by simp [Call.key])) (.inl rfl) fun r' ho hr => ?_
  cases h.owned hr ho hc

theorem own_pushPaused (h : Own s g) (hs : step s (.pushPaused c) = some s') :
    ∃ g', Own s' g' := by
  simp only [step] at hs
  split at hs
  · next tenantId r hc =>
    cases hs
    obtain ⟨hserve, hw, hr⟩ : Serves s g c (.semp tenantId) r ∧ _ := h.calls c _ hc
    exact ⟨_, h.unserve (d := none) hc hserve rfl rfl rfl (.inl rfl) (by simp)
      (.inl ⟨rfl, by simpa using hw⟩) (.inl ⟨by simp, hr⟩)⟩
  · next hc =>
    cases hs
    exact ⟨g, h.endExpired hc⟩
  · cases hs

theorem own_pushPausedFails (h : Own s g) (hok : Handled s (.pushPausedFails c))
    (hs : step s (.pushPausedFails c) = some s') : ∃ g', Own s' g' := by
  simp only [step] at hs
  split at hs
  · next tenantId r hc =>
    cases hs
    obtain ⟨hserve, hw, hr⟩ : Serves s g c (.semp tenantId) r ∧ _ := h.calls c _ hc
    exact h.catchPause hc rfl hserve hw (.inl (hok tenantId r hc))
  · next hc =>
    cases hs
    exact ⟨g, h.endExpired hc⟩
  · cases hs

theorem own_createAgentRun (h : Own s g) (hs : step s (.createAgentRun c) = some s') :
    ∃ g', Own s' g' := by
  simp only [step] at hs
  split at hs
  · next k hc =>
    cases hs
    exact ⟨_, by simpa [Sys.move, Sys.setCall, Sys.setConversation, Function.update_eq_self]
      using h.create hc⟩
  · cases hs

theorem own_step {a : Act} (h : Own s g) (hok : Handled s a) (hs : step s a = some s') :
    ∃ g', Own s' g' := by
  cases a with
  | send k => exact own_send h hs
  | createAgentRun c => exact own_createAgentRun h hs
  | startTurn c => exact own_startTurn h hs
  | wakeFails c => exact own_wakeFails h hok hs
  | turnFails c => exact own_turnFails h hs
  | failRun c => exact own_failRun h hs
  | failRunFails c => exact hok.elim
  | settle c => exact own_settle h hs
  | leave c => exact own_leave h hs
  | dropTenant tenantId => exact own_dropTenant h hok hs
  | finishDropped c => exact own_finishDropped h hs
  | pushDropped c => exact own_pushDropped h hs
  | closeDroppedFails c => exact own_closeDroppedFails h hs
  | ttlTimer k => exact own_ttlTimer h hs
  | retryTimer k => exact own_retryTimer h hs
  | checkPause c => exact own_checkPause h hs
  | commitPause c => exact own_commitPause h hs
  | pauseFails c => exact own_pauseFails h hs
  | pushPaused c => exact own_pushPaused h hs
  | pushPausedFails c => exact own_pushPausedFails h hok hs

/-! ## The runs -/

theorem exists_own (h : Reach step Handled .init s) : ∃ g, Own s g :=
  h.invariant (I := fun s => ∃ g, Own s g) ⟨_, own_init⟩ fun _ _ _ ⟨_, hg⟩ hok hs =>
    own_step hg hok hs

theorem closes_of_carries (h : call.carries = some r) : call.closes = some r := by
  cases call <;> cases h <;> rfl

theorem CallOk.closes {t : Option Timer} (h : CallOk s g c call) (hk : call.key = some k)
    (hheld : g.holder k = some c) (he : (s.conversations k).entry = some ⟨r, true, t⟩)
    (hr : s.runs[r]? = some .running) : call.closes = some r := by
  have heq : ∀ {r'}, Serves s g c k r' → r' = r := fun hs => (hs.eq he).symm
  cases call with
  | wakeReading k' =>
    cases hk
    simp [h.2] at he
  | wakeCreated k' | wakeTurn k' | failing ko =>
    cases hk
    simp [h.2.1] at he
  | wakeSettled k' =>
    cases hk
    simpa using h.2 _ he
  | turnSettled k' r' =>
    cases hk
    rcases h with h | h
    · rw [← heq h.1]
      rfl
    · exact absurd hheld h.1
  | turn | pausing | committing | closing =>
    cases hk
    rw [← heq h.1]
    rfl
  | closed k' r' a =>
    cases hk
    cases heq h.1
    exact absurd hr h.2.2.2
  | paused k' r' =>
    rcases k' with tenantId | ⟨supervisorRunId, targetProjectItemId⟩
    · cases hk
      cases heq h.1
      exact absurd hr h.2.2
    · cases hk

theorem Own.backed (h : Own s g) (hr : s.runs[r]? = some .running) : s.Owned r := by
  rcases ho : g.owner r with k | c
  · obtain ⟨⟨r', busy, t⟩, he, rfl⟩ := (h.runs r hr).key ho
    have hok := h.entries k _ he
    rcases busy with _ | _
    · refine .inl ⟨k, _, he, rfl, rfl, fun hn => ?_⟩
      rcases hok.timer rfl with ht | ht <;> cases hn.symm.trans ht.1
    · obtain ⟨c, hk⟩ := Option.ne_none_iff_exists'.mp (hok.held rfl).1
      obtain ⟨x, hx, hxk, hcall⟩ := h.holds hk
      exact .inr ⟨c, x, hx, hcall.closes hxk hk he hr⟩
  · obtain ⟨x, hx, hxr⟩ := (h.runs r hr).carried ho
    exact .inr ⟨c, x, hx, closes_of_carries hxr⟩

theorem CallOk.turn (h : CallOk s g c call) (ht : call.turnOf = some (k, r)) :
    g.holder k = some c ∧ s.runs[r]? = some .running := by
  cases call with
  | wakeTurn =>
    cases ht
    exact ⟨h.1.held, h.2.2.2⟩
  | turn =>
    cases ht
    exact ⟨h.1.held, h.2.2⟩
  | _ => cases ht

theorem Own.allOwned (h : Own s g) : s.RunsOwned where
  owned _ hr := h.backed hr
  oneTurn c c' call call' k r r' hc hc' ht ht' := by
    have hheld := ((h.calls c call hc).turn ht).1
    have hheld' := ((h.calls c' call' hc').turn ht').1
    exact Option.some.inj (hheld.symm.trans hheld')
  onRunning c call k r hc ht := ((h.calls c call hc).turn ht).2

/-- Every open wake run is on an idle entry with a timer or in the hands of a call in flight, a key
has one turn at most, and that turn is on an open run. -/
theorem runsOwned (h : Reach step Handled .init s) : s.RunsOwned := by
  obtain ⟨g, hg⟩ := exists_own h
  exact hg.allOwned

def fails : Act → Bool
  | .failRunFails _ | .wakeFails _ | .pushPausedFails _ | .dropTenant _ => true
  | _ => false

/-- A second message of a tenant during the pause of the first, and a delegation beside them. -/
theorem runsOwned_pause : ∃ s, runActs step .init
    [.send (.semp 0), .createAgentRun 0, .startTurn 0, .send (.delegation 7 8), .settle 0, .leave 0,
      .createAgentRun 1, .ttlTimer (.semp 0), .send (.semp 0), .checkPause 2] = some s ∧
    s.runs = [.running, .running] ∧ s.nextCall = 3 ∧
    s.calls 2 = some (.committing (.semp 0) 0) ∧ s.RunsOwned := by
  obtain ⟨s, hs⟩ := Option.isSome_iff_exists.mp (show (runChecked step (fun _ a => !fails a) .init
    [.send (.semp 0), .createAgentRun 0, .startTurn 0, .send (.delegation 7 8), .settle 0, .leave 0,
      .createAgentRun 1, .ttlTimer (.semp 0), .send (.semp 0), .checkPause 2]).isSome = true by
    decide +kernel)
  refine ⟨s, runActs_of_runChecked hs, eq_of_map_eq (f := Sys.runs) hs (by decide +kernel),
    eq_of_map_eq (f := Sys.nextCall) hs (by decide +kernel),
    eq_of_map_eq (f := fun s => s.calls 2) hs (by decide +kernel),
    runsOwned (Reach.of_runChecked (fun s a ha => ?_) hs)⟩
  cases a with
  | failRunFails | wakeFails | pushPausedFails | dropTenant => cases ha
  | _ => trivial

/-- A wake whose status event fails after its run was created leaves it open, with no entry. -/
theorem wakeFails_orphans : ∃ s, runActs step .init
    [.send (.semp 0), .createAgentRun 0, .wakeFails 0, .leave 0] = some s ∧ ¬s.RunsOwned := by
  refine ⟨_, rfl, fun h => ?_⟩
  rcases h.owned 0 rfl with ⟨k, e, he, -⟩ | ⟨c, call, hc, -⟩
  · by_cases hk : k = .semp 0
    · subst hk
      cases he
    · simp [Sys.move, Sys.setCall, Sys.setConversation, Sys.start, Sys.init, hk,
        Conversation.absent] at he
  · simp [Sys.move, Sys.setCall, Sys.setConversation, Sys.start, Sys.init] at hc

end WakeRuns

end Semprec
