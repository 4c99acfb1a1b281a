import Semprec.WakeRuns

/-!
# Who owns a wake run

An open run is in the hands of the conversation whose entry it is on, or of the call that created it
or took it off its entry.  A conversation that is busy or waking is held by one call, and nobody
else moves it: the invariant says for each phase of a call what it holds (`CallOk`), and a step of a
call leaves all others what they hold (`Own.move`).
-/

namespace Semprec

namespace WakeRuns

variable {s s' : Sys} {k k' : Key} {c c' r : ℕ} {call : Call}

/-- Whose an open run is. -/
inductive Owner where
  | key (k : Key)
  | call (c : ℕ)

structure Ghost where
  owner : ℕ → Owner
  holder : Key → Option ℕ

variable {g g' : Ghost}

def Call.key : Call → Option Key
  | .wakeReading k => some k
  | .wakeCreated k _ => some k
  | .wakeTurn k _ => some k
  | .failing k _ => k
  | .wakeSettled k => some k
  | .turn k _ => some k
  | .turnSettled k _ => some k
  | .closing k _ _ => some k
  | .closed k _ _ => some k
  | .pausing k _ => some k
  | .committing k _ => some k
  | .paused (.semp tenantId) _ => some (.semp tenantId)
  | .paused (.delegation _ _) _ => none

/-- The run that a call has and no entry. -/
def Call.carries : Call → Option ℕ
  | .wakeCreated _ r => some r
  | .wakeTurn _ r => some r
  | .failing _ r => some r
  | _ => none

structure Wakes (s : Sys) (g : Ghost) (c : ℕ) (k : Key) : Prop where
  held : g.holder k = some c
  waking : (s.conversations k).waking = true

structure Serves (s : Sys) (g : Ghost) (c : ℕ) (k : Key) (r : ℕ) : Prop where
  held : g.holder k = some c
  stored : r < s.runs.length
  owned : g.owner r = .key k
  entry : ∃ ttlTimer, ttlTimer ≠ some .retry ∧
    (s.conversations k).entry = some ⟨r, true, ttlTimer⟩

/-- The run's entry is gone, or waits for `closeDropped`. -/
structure Settled (s : Sys) (g : Ghost) (k : Key) (r : ℕ) : Prop where
  stored : r < s.runs.length
  owned : g.owner r = .key k
  idle : ∀ e, (s.conversations k).entry = some e → e.agentRunId = r →
    e.busy = false ∧ (s.conversations k).dropped = true

def CallOk (s : Sys) (g : Ghost) (c : ℕ) : Call → Prop
  | .wakeReading k => Wakes s g c k ∧ (s.conversations k).entry = none
  | .wakeCreated k r => Wakes s g c k ∧ (s.conversations k).entry = none ∧
      g.owner r = .call c ∧ s.runs[r]? = some .running
  | .wakeTurn k r => Wakes s g c k ∧ (s.conversations k).entry = none ∧
      g.owner r = .call c ∧ s.runs[r]? = some .running
  | .failing none r => r < s.runs.length ∧ g.owner r = .call c
  | .failing (some k) r => Wakes s g c k ∧ (s.conversations k).entry = none ∧
      r < s.runs.length ∧ g.owner r = .call c
  | .wakeSettled k => Wakes s g c k ∧
      ∀ e, (s.conversations k).entry = some e → e.busy = false
  | .turn k r => Serves s g c k r ∧ (s.conversations k).waking = false ∧
      s.runs[r]? = some .running
  | .turnSettled k r =>
      (Serves s g c k r ∧ (s.conversations k).waking = false ∧ s.runs[r]? = some .running ∧
        (s.conversations k).dropped = false ∧
        (s.conversations k).entry = some ⟨r, true, some .ttl⟩) ∨
      (g.holder k ≠ some c ∧ Settled s g k r)
  | .closing k r a => Serves s g c k r ∧ ((s.conversations k).waking = true ↔ a = .wake) ∧
      (s.conversations k).dropped = true
  | .closed k r a => Serves s g c k r ∧ ((s.conversations k).waking = true ↔ a = .wake) ∧
      (s.conversations k).dropped = true ∧ s.runs[r]? ≠ some .running
  | .pausing k r => Serves s g c k r ∧ (s.conversations k).waking = false ∧
      s.runs[r]? = some .running
  | .committing k r => Serves s g c k r ∧ (s.conversations k).waking = false ∧
      s.runs[r]? = some .running
  | .paused (.semp tenantId) r => Serves s g c (.semp tenantId) r ∧
      (s.conversations (.semp tenantId)).waking = false ∧ s.runs[r]? ≠ some .running
  | .paused (.delegation _ _) _ => True

structure EntryOk (s : Sys) (g : Ghost) (k : Key) (e : Entry) : Prop where
  stored : e.agentRunId < s.runs.length
  owned : g.owner e.agentRunId = .key k
  held : e.busy = true → g.holder k ≠ none ∧ e.ttlTimer ≠ some .retry
  timer : e.busy = false →
    (e.ttlTimer = some .ttl ∧ s.runs[e.agentRunId]? = some .running ∧
      (s.conversations k).dropped = false) ∨
    (e.ttlTimer = some .retry ∧ (s.conversations k).dropped = true)

def RunOk (s : Sys) (g : Ghost) (r : ℕ) : Prop :=
  match g.owner r with
  | .key k => ∃ e, (s.conversations k).entry = some e ∧ e.agentRunId = r
  | .call c => ∃ call, s.calls c = some call ∧ call.carries = some r

structure Own (s : Sys) (g : Ghost) : Prop where
  calls : ∀ c call, s.calls c = some call → CallOk s g c call
  entries : ∀ k e, (s.conversations k).entry = some e → EntryOk s g k e
  holders : ∀ k c, g.holder k = some c → ∃ call, s.calls c = some call ∧ call.key = some k
  wakings : ∀ k, (s.conversations k).waking = true → g.holder k ≠ none
  runs : ∀ r : ℕ, s.runs[r]? = some .running → RunOk s g r
  fresh : ∀ c, s.nextCall ≤ c → s.calls c = none

theorem own_init : Own .init ⟨fun _ => .call 0, fun _ => none⟩ where
  calls _ _ h := by cases h
  entries _ _ h := by cases h
  holders _ _ h := by cases h
  wakings _ h := by cases h
  runs _ h := by cases h
  fresh _ _ := rfl

/-! ## What a step of another call leaves -/

theorem Wakes.frame (h : Wakes s g c k)
    (hkey : s'.conversations k = s.conversations k ∧ g'.holder k = some c) : Wakes s' g' c k :=
  ⟨hkey.2, by rw [hkey.1]; exact h.waking⟩

theorem Serves.frame (h : Serves s g c k r) (hlen : s.runs.length ≤ s'.runs.length)
    (hkey : s'.conversations k = s.conversations k ∧ g'.holder k = some c)
    (hrun : g'.owner r = g.owner r) : Serves s' g' c k r :=
  ⟨hkey.2, Nat.lt_of_lt_of_le h.stored hlen, hrun.trans h.owned, by rw [hkey.1]; exact h.entry⟩

theorem stored_of_running (h : s.runs[r]? = some .running) : r < s.runs.length :=
  (List.getElem?_eq_some_iff.mp h).1

theorem CallOk.frame (h : CallOk s g c call) (hlen : s.runs.length ≤ s'.runs.length)
    (hkey : ∀ k, g.holder k = some c →
      s'.conversations k = s.conversations k ∧ g'.holder k = some c)
    (hrun : ∀ r < s.runs.length,
      (g.owner r = .call c ∨ ∃ k, g.holder k = some c ∧ g.owner r = .key k) →
      g'.owner r = g.owner r ∧ s'.runs[r]? = s.runs[r]?)
    (hsettled : ∀ k r, call = .turnSettled k r → g.holder k ≠ some c → Settled s g k r →
      g'.holder k ≠ some c ∧ Settled s' g' k r) : CallOk s' g' c call := by
  have hserves : ∀ {k r}, Serves s g c k r → Serves s' g' c k r ∧
      s'.conversations k = s.conversations k ∧ s'.runs[r]? = s.runs[r]? := fun hs => by
    obtain ⟨ho, hr⟩ := hrun _ hs.stored (.inr ⟨_, hs.held, hs.owned⟩)
    exact ⟨hs.frame hlen (hkey _ hs.held) ho, (hkey _ hs.held).1, hr⟩
  have hwakes : ∀ {k}, Wakes s g c k → Wakes s' g' c k ∧
      s'.conversations k = s.conversations k := fun hw =>
    ⟨hw.frame (hkey _ hw.held), (hkey _ hw.held).1⟩
  have hown : ∀ {r}, r < s.runs.length → g.owner r = .call c → g'.owner r = .call c ∧
      s'.runs[r]? = s.runs[r]? := fun hlt ho =>
    ⟨(hrun _ hlt (.inl ho)).1.trans ho, (hrun _ hlt (.inl ho)).2⟩
  cases call with
  | wakeReading k | wakeSettled k =>
    obtain ⟨hw, he⟩ := h
    obtain ⟨hw', hconv⟩ := hwakes hw
    exact ⟨hw', by rw [hconv]; exact he⟩
  | wakeCreated k r | wakeTurn k r =>
    obtain ⟨hw, he, ho, hr⟩ := h
    obtain ⟨hw', hconv⟩ := hwakes hw
    obtain ⟨ho', hr'⟩ := hown (stored_of_running hr) ho
    exact ⟨hw', by rw [hconv]; exact he, ho', hr'.trans hr⟩
  | failing ko r =>
    rcases ko with _ | k
    · exact ⟨Nat.lt_of_lt_of_le h.1 hlen, (hown h.1 h.2).1⟩
    · obtain ⟨hw, he, hlt, ho⟩ := h
      obtain ⟨hw', hconv⟩ := hwakes hw
      exact ⟨hw', by rw [hconv]; exact he, Nat.lt_of_lt_of_le hlt hlen, (hown hlt ho).1⟩
  | turnSettled k r =>
    rcases h with ⟨hs, h⟩ | ⟨hne, hs⟩
    · obtain ⟨hs', hconv, hr⟩ := hserves hs
      exact .inl ⟨hs', by rw [hconv, hr]; exact h⟩
    · exact .inr (hsettled k r rfl hne hs)
  | turn k r | closed k r a | pausing k r | committing k r =>
    obtain ⟨hs', hconv, hr⟩ := hserves h.1
    exact ⟨hs', by rw [hconv, hr]; exact h.2⟩
  | closing k r a =>
    obtain ⟨hs', hconv, hr⟩ := hserves h.1
    exact ⟨hs', by rw [hconv]; exact h.2⟩
  | paused k r =>
    rcases k with tenantId | ⟨supervisorRunId, targetProjectItemId⟩
    · obtain ⟨hs', hconv, hr⟩ := hserves h.1
      exact ⟨hs', by rw [hconv, hr]; exact h.2⟩
    · trivial

theorem EntryOk.frame {e : Entry} (h : EntryOk s g k e) (hlen : s.runs.length ≤ s'.runs.length)
    (hconv : s'.conversations k = s.conversations k) (hholder : g'.holder k = g.holder k)
    (hrun : g'.owner e.agentRunId = g.owner e.agentRunId ∧
      s'.runs[e.agentRunId]? = s.runs[e.agentRunId]?) : EntryOk s' g' k e where
  stored := Nat.lt_of_lt_of_le h.stored hlen
  owned := hrun.1.trans h.owned
  held := by rw [hholder]; exact h.held
  timer := by rw [hconv, hrun.2]; exact h.timer

theorem RunOk.of_key {e : Entry} (ho : g.owner r = .key k)
    (he : (s.conversations k).entry = some e) (hr : e.agentRunId = r) : RunOk s g r := by
  unfold RunOk
  rw [ho]
  exact ⟨e, he, hr⟩

theorem RunOk.of_call {x : Call} (ho : g.owner r = .call c) (hc : s.calls c = some x)
    (hr : x.carries = some r) : RunOk s g r := by
  unfold RunOk
  rw [ho]
  exact ⟨x, hc, hr⟩

theorem RunOk.key (h : RunOk s g r) (ho : g.owner r = .key k) :
    ∃ e, (s.conversations k).entry = some e ∧ e.agentRunId = r := by
  unfold RunOk at h
  rw [ho] at h
  exact h

theorem RunOk.carried (h : RunOk s g r) (ho : g.owner r = .call c) :
    ∃ call, s.calls c = some call ∧ call.carries = some r := by
  unfold RunOk at h
  rw [ho] at h
  exact h

def Finishes (s : Sys) (own : ℕ → Prop) (runs : List AgentRunStatus) : Prop :=
  runs = s.runs ∨ ∃ r status, own r ∧ status ≠ .running ∧ runs = (s.finish r status).runs

theorem Finishes.length {P : ℕ → Prop} {runs : List AgentRunStatus}
    (h : Finishes s P runs) : runs.length = s.runs.length := by
  rcases h with rfl | ⟨r, status, -, -, rfl⟩
  · rfl
  · simp [Sys.finish]

theorem Finishes.of_not {P : ℕ → Prop} {runs : List AgentRunStatus}
    (h : Finishes s P runs) (hr : ¬P r) : runs[r]? = s.runs[r]? := by
  rcases h with rfl | ⟨r', status, hown, -, rfl⟩
  · rfl
  · have hne : r' ≠ r := fun he => hr (he ▸ hown)
    simp [Sys.finish, hne]

theorem Finishes.running {P : ℕ → Prop} {runs : List AgentRunStatus}
    (h : Finishes s P runs) (hr : runs[r]? = some .running) : s.runs[r]? = some .running := by
  rcases h with rfl | ⟨r', status, -, hne, rfl⟩
  · exact hr
  · simp only [Sys.finish, List.getElem?_modify] at hr
    split_ifs at hr
    · rcases hold : s.runs[r]? with _ | old
      · simp [hold] at hr
      · simp only [hold, Option.map_eq_map, Option.map_some, Option.some.injEq] at hr
        split_ifs at hr with hold'
        · exact absurd hr hne
        · rw [hr]
    · simpa using hr

theorem Own.owned (h : Own s g) (hr : s.runs[r]? = some .running)
    (ho : g.owner r = .call c) (hc : s.calls c = some call) : call.carries = some r := by
  obtain ⟨call', hc', hr'⟩ := (h.runs r hr).carried ho
  cases hc.symm.trans hc'
  exact hr'

/-- A step of a call that holds its key, or finds nobody on it: what matters is the new phase, the
conversation it leaves, and the open runs of the two. -/
theorem Own.move {call : Option Call} {conv : Conversation} {runs' : List AgentRunStatus}
    {n : ℕ} {owner' : ℕ → Owner} {d : Option ℕ} (h : Own s g)
    (hfree : g.holder k = some c ∨ (g.holder k = none ∧ s.calls c = none))
    (hs : s' = ⟨runs', Function.update s.conversations k conv,
      Function.update s.calls c call, n⟩)
    (hg : g' = ⟨owner', Function.update g.holder k d⟩)
    (hn : s.nextCall ≤ n ∧ c < n)
    (hruns : Finishes s (fun r => g.owner r = .key k ∨ g.owner r = .call c) runs')
    (howner : ∀ r, g.owner r ≠ .key k → g.owner r ≠ .call c → owner' r = g.owner r)
    (hcall : ∀ x, call = some x → CallOk s' g' c x)
    (hentry : ∀ e, conv.entry = some e → EntryOk s' g' k e)
    (hhd : (d = none ∧ conv.waking = false) ∨
      (d = some c ∧ ∃ x, call = some x ∧ x.key = some k))
    (hkey : ∀ e, (s.conversations k).entry = some e → g.owner e.agentRunId = .key k →
      runs'[e.agentRunId]? = some .running → RunOk s' g' e.agentRunId)
    (hcarried : ∀ x r, s.calls c = some x → x.carries = some r → g.owner r = .call c →
      runs'[r]? = some .running → RunOk s' g' r)
    (hsettled : ∀ c' r, c' ≠ c → s.calls c' = some (.turnSettled k r) → Settled s g k r →
      Settled s' g' k r) : Own s' g' := by
  have hne : ∀ {c' k'}, c' ≠ c → g.holder k' = some c' → k' ≠ k := by
    rintro c' k' hc' hk' rfl
    rcases hfree with h | ⟨h, -⟩
    · exact hc' (Option.some.inj (hk'.symm.trans h))
    · cases hk'.symm.trans h
  have hlen : s.runs.length ≤ runs'.length := Nat.le_of_eq hruns.length.symm
  have hother : ∀ r, g.owner r ≠ .key k → g.owner r ≠ .call c →
      owner' r = g.owner r ∧ runs'[r]? = s.runs[r]? := fun r hk hc =>
    ⟨howner r hk hc, hruns.of_not (not_or.mpr ⟨hk, hc⟩)⟩
  subst hs hg
  refine ⟨fun c' x hx => ?_, fun k' e he => ?_, fun k' c' hk' => ?_, fun k' hw => ?_,
    fun r hr => ?_, fun c' hc' => ?_⟩
  · by_cases hc' : c' = c
    · subst hc'
      exact hcall x (by simpa using hx)
    · have hx' : s.calls c' = some x := by simpa [hc'] using hx
      refine (h.calls c' x hx').frame hlen (fun k' hk' => ?_) (fun r hlt ho => ?_)
        fun k' r hxr hnot hset => ?_
      · have hk := hne hc' hk'
        simp [hk, hk']
      · rcases ho with ho | ⟨k', hk', ho⟩
        · exact hother r (by simp [ho]) (by simp [ho, hc'])
        · exact hother r (by simp [ho, hne hc' hk']) (by simp [ho])
      · by_cases hk : k' = k
        · subst hk
          subst hxr
          refine ⟨?_, hsettled c' r hc' hx' hset⟩
          rcases hhd with ⟨rfl, -⟩ | ⟨rfl, -⟩
          · simp
          · simpa using Ne.symm hc'
        · have ho := hother r (by simp [hset.owned, hk]) (by simp [hset.owned])
          refine ⟨by simpa [hk] using hnot, Nat.lt_of_lt_of_le hset.stored hlen,
            ho.1.trans hset.owned, ?_⟩
          simpa [hk] using hset.idle
  · by_cases hk : k' = k
    · subst hk
      exact hentry e (by simpa using he)
    · have he' : (s.conversations k').entry = some e := by simpa [hk] using he
      have hok := h.entries k' e he'
      exact hok.frame hlen (by simp [hk]) (by simp [hk])
        (hother _ (by simp [hok.owned, hk]) (by simp [hok.owned]))
  · by_cases hk : k' = k
    · subst hk
      rcases hhd with ⟨rfl, -⟩ | ⟨rfl, x, rfl, hx⟩
      · simp at hk'
      · simp only [Function.update_self, Option.some.injEq] at hk'
        subst hk'
        exact ⟨x, by simp, hx⟩
    · have hk'' : g.holder k' = some c' := by simpa [hk] using hk'
      obtain ⟨x, hx, hxk⟩ := h.holders k' c' hk''
      by_cases hc' : c' = c
      · subst hc'
        rcases hfree with hheld | ⟨-, hnone⟩
        · obtain ⟨x', hx', hxk'⟩ := h.holders k c' hheld
          cases hx.symm.trans hx'
          exact absurd (Option.some.inj (hxk.symm.trans hxk')) hk
        · cases hx.symm.trans hnone
      · exact ⟨x, by simpa [hc'] using hx, hxk⟩
  · by_cases hk : k' = k
    · subst hk
      rcases hhd with ⟨rfl, hw'⟩ | ⟨rfl, -⟩
      · simp [hw'] at hw
      · simp
    · have hw' := h.wakings k' (by simpa [hk] using hw)
      simpa [hk] using hw'
  · have hr' := hruns.running hr
    rcases ho : g.owner r with k' | c'
    · obtain ⟨e, he, her⟩ := (h.runs r hr').key ho
      by_cases hk : k' = k
      · subst hk
        subst her
        exact hkey e he ho hr
      · refine RunOk.of_key (k := k') ((howner r (by simp [ho, hk]) (by simp [ho])).trans ho)
          (e := e) ?_ her
        simpa [hk] using he
    · obtain ⟨x, hx, hxr⟩ := (h.runs r hr').carried ho
      by_cases hc' : c' = c
      · subst hc'
        exact hcarried x r hx hxr ho hr
      · refine RunOk.of_call (c := c') ((howner r (by simp [ho]) (by simp [ho, hc'])).trans ho)
          (x := x) ?_ hxr
        simpa [hc'] using hx
  · have hne' : c' ≠ c := by
      have := hn.2
      have := (show n ≤ c' from hc')
      omega
    have := h.fresh c' (Nat.le_trans hn.1 hc')
    simpa [hne'] using this

/-! ## Keys that are held -/

theorem Own.holds (h : Own s g) (hk : g.holder k = some c) :
    ∃ call, s.calls c = some call ∧ call.key = some k ∧ CallOk s g c call := by
  obtain ⟨call, hc, hkey⟩ := h.holders k c hk
  exact ⟨call, hc, hkey, h.calls c call hc⟩

theorem Own.not_holds (h : Own s g) (hc : s.calls c = some call) (hk : call.key ≠ some k) :
    g.holder k ≠ some c := fun hheld => by
  obtain ⟨x, hx, hxk⟩ := h.holders k c hheld
  cases hc.symm.trans hx
  exact hk hxk

theorem Own.call_lt (h : Own s g) (hc : s.calls c = some call) : c < s.nextCall := by
  by_contra hge
  cases hc.symm.trans (h.fresh c (Nat.le_of_not_lt hge))

theorem CallOk.attached (h : CallOk s g c call) (hk : call.key = some k)
    (hheld : g.holder k = some c) :
    ((s.conversations k).waking = true ∧ (s.conversations k).entry = none) ∨
      ((s.conversations k).waking = true ∧ call = .wakeSettled k) ∨ ∃ r, Serves s g c k r := by
  cases call with
  | wakeReading =>
    cases hk
    exact .inl ⟨h.1.waking, h.2⟩
  | wakeCreated | wakeTurn | failing =>
    cases hk
    exact .inl ⟨h.1.waking, h.2.1⟩
  | wakeSettled =>
    cases hk
    exact .inr (.inl ⟨h.1.waking, rfl⟩)
  | turn | closing | closed | pausing | committing =>
    cases hk
    exact .inr (.inr ⟨_, h.1⟩)
  | turnSettled =>
    cases hk
    rcases h with h | h
    · exact .inr (.inr ⟨_, h.1⟩)
    · exact absurd hheld h.1
  | paused k' r =>
    rcases k' with tenantId | ⟨supervisorRunId, targetProjectItemId⟩
    · cases hk
      exact .inr (.inr ⟨_, h.1⟩)
    · cases hk

theorem Own.taken (h : Own s g) (hk : g.holder k = some c) :
    (s.conversations k).waking = true ∨
      ∃ e, (s.conversations k).entry = some e ∧ e.busy = true := by
  obtain ⟨call, -, hkey, hok⟩ := h.holds hk
  rcases hok.attached hkey hk with ⟨hw, -⟩ | ⟨hw, -⟩ | ⟨r, hserve⟩
  · exact .inl hw
  · exact .inl hw
  · obtain ⟨t, -, he⟩ := hserve.entry
    exact .inr ⟨_, he, rfl⟩

theorem CallOk.carrier (h : CallOk s g c call) (hk : call.key = some k)
    (hr : call.carries = some r) : (s.conversations k).entry = none := by
  cases call with
  | wakeCreated | wakeTurn | failing =>
    cases hk
    exact h.2.1
  | _ => cases hr

theorem Own.free (h : Own s g) (hw : (s.conversations k).waking = false)
    (he : ∀ e, (s.conversations k).entry = some e → e.busy = false) : g.holder k = none := by
  rcases hk : g.holder k with _ | c
  · rfl
  · rcases h.taken hk with hw' | ⟨e, he', hb⟩
    · simp [hw] at hw'
    · simp [he e he'] at hb

theorem Own.serve {x : Call} {conv : Conversation} {runs' : List AgentRunStatus} {n : ℕ}
    {owner' : ℕ → Owner} {t : Option Timer} (h : Own s g)
    (hfree : g.holder k = some c ∨ (g.holder k = none ∧ s.calls c = none))
    (hs : s' = ⟨runs', Function.update s.conversations k conv,
      Function.update s.calls c (some x), n⟩)
    (hg : g' = ⟨owner', Function.update g.holder k (some c)⟩)
    (hn : s.nextCall ≤ n ∧ c < n)
    (hruns : Finishes s (fun r => g.owner r = .key k ∨ g.owner r = .call c) runs')
    (howner : ∀ r', r' ≠ r → owner' r' = g.owner r')
    (hold : g.owner r = .key k ∨ g.owner r = .call c)
    (hx : x.key = some k) (ht : t ≠ some .retry) (hconv : conv.entry = some ⟨r, true, t⟩)
    (hr : r < s.runs.length) (hor : owner' r = .key k)
    (hcall : Serves s' g' c k r → s'.conversations k = conv → CallOk s' g' c x)
    (hkey : ∀ e, (s.conversations k).entry = some e → e.agentRunId = r)
    (hcarried : ∀ x r', s.calls c = some x → x.carries = some r' → r' = r)
    (hsettled : ∀ c', c' ≠ c → s.calls c' = some (.turnSettled k r) → ¬Settled s g k r) :
    Own s' g' := by
  have hlen := hruns.length
  have hconv' : s'.conversations k = conv := by simp [hs]
  have hor' : g'.owner r = .key k := by simp [hg, hor]
  have hr' : r < s'.runs.length := by simpa [hs, hlen] using hr
  have hrun : RunOk s' g' r := RunOk.of_key hor' (by rw [hconv']; exact hconv) rfl
  refine h.move hfree hs hg hn hruns (fun r' hk hc => howner r' ?_) (fun y hy => ?_)
    (fun e he => ?_) (.inr ⟨rfl, x, rfl, hx⟩) (fun e he _ _ => ?_) (fun y r' hy hc _ _ => ?_)
    fun c' r' hc' hset hso => ?_
  · rintro rfl
    exact hold.elim hk hc
  · cases hy
    exact hcall ⟨by simp [hg], hr', hor', t, ht, by rw [hconv']; exact hconv⟩ hconv'
  · cases hconv.symm.trans he
    exact ⟨hr', hor', fun _ => ⟨by simp [hg], ht⟩, fun hb => by simp at hb⟩
  · rw [hkey e he]
    exact hrun
  · rw [hcarried y r' hy hc]
    exact hrun
  · have hne : r' ≠ r := by
      rintro rfl
      exact hsettled c' hc' hset hso
    refine ⟨by simpa [hs, hlen] using hso.stored, ?_, fun e he her => ?_⟩
    · simpa [hg, howner r' hne] using hso.owned
    · rw [hconv', hconv] at he
      cases he
      exact absurd her.symm hne

theorem Own.wake {x : Call} {v : Conversation} {runs' : List AgentRunStatus} {n : ℕ}
    (h : Own s g) (hfree : g.holder k = some c ∨ (g.holder k = none ∧ s.calls c = none))
    (hs : s' = ⟨runs', Function.update s.conversations k v,
      Function.update s.calls c (some x), n⟩)
    (hg : g' = ⟨g.owner, Function.update g.holder k (some c)⟩)
    (hn : s.nextCall ≤ n ∧ c < n)
    (hruns : Finishes s (fun r => g.owner r = .key k ∨ g.owner r = .call c) runs')
    (hx : x.key = some k) (hw : v.waking = true) (he : v.entry = none)
    (hold : (s.conversations k).entry = none)
    (hcall : Wakes s' g' c k → (s'.conversations k).entry = none → CallOk s' g' c x)
    (hcarried : ∀ y r, s.calls c = some y → y.carries = some r → g.owner r = .call c →
      runs'[r]? = some .running → x.carries = some r) : Own s' g' := by
  have hlen := hruns.length
  have hconv' : s'.conversations k = v := by simp [hs]
  refine h.move hfree hs hg hn hruns (fun _ _ _ => rfl) (fun y hy => ?_) (fun e he' => ?_)
    (.inr ⟨rfl, x, rfl, hx⟩) (fun e he' => ?_) (fun y r hy hc ho hr => ?_)
    fun c' r hc' hset hso => ?_
  · cases hy
    exact hcall ⟨by simp [hg], by rw [hconv']; exact hw⟩ (by rw [hconv']; exact he)
  · cases he.symm.trans he'
  · cases hold.symm.trans he'
  · exact RunOk.of_call (c := c) (by rw [hg]; exact ho) (by simp [hs])
      (hcarried y r hy hc ho hr)
  · refine ⟨by simpa [hs, hlen] using hso.stored, by simpa [hg] using hso.owned,
      fun e he' => ?_⟩
    rw [hconv', he] at he'
    cases he'

theorem Own.rest {z : Option Call} {conv : Conversation} {runs' : List AgentRunStatus}
    {n : ℕ} {owner' : ℕ → Owner} {d : Option ℕ} (h : Own s g) (hfree : g.holder k = some c)
    (hs : s' = ⟨runs', Function.update s.conversations k conv,
      Function.update s.calls c z, n⟩)
    (hg : g' = ⟨owner', Function.update g.holder k d⟩)
    (hn : s.nextCall ≤ n ∧ c < n)
    (hruns : Finishes s (fun r => g.owner r = .key k ∨ g.owner r = .call c) runs')
    (howner : ∀ r, g.owner r ≠ .key k → g.owner r ≠ .call c → owner' r = g.owner r)
    (hcall : ∀ x, z = some x → CallOk s' g' c x)
    (hhd : (d = none ∧ conv.waking = false) ∨
      (d = some c ∧ ∃ x, z = some x ∧ x.key = some k))
    (hentry : ∀ e, conv.entry = some e → e.busy = false ∧ e.agentRunId < s.runs.length ∧
      owner' e.agentRunId = .key k ∧
      ((e.ttlTimer = some .ttl ∧ runs'[e.agentRunId]? = some .running ∧ conv.dropped = false) ∨
        (e.ttlTimer = some .retry ∧ conv.dropped = true)))
    (hkey : ∀ e, (s.conversations k).entry = some e → g.owner e.agentRunId = .key k →
      runs'[e.agentRunId]? = some .running → RunOk s' g' e.agentRunId)
    (hcarried : ∀ x r, s.calls c = some x → x.carries = some r → g.owner r = .call c →
      runs'[r]? = some .running → RunOk s' g' r)
    (hsettled : ∀ c' r, c' ≠ c → s.calls c' = some (.turnSettled k r) → Settled s g k r →
      owner' r = .key k ∧ ∀ e, conv.entry = some e → e.agentRunId = r → conv.dropped = true) :
    Own s' g' := by
  have hlen := hruns.length
  have hconv' : s'.conversations k = conv := by simp [hs]
  refine h.move (.inl hfree) hs hg hn hruns howner hcall (fun e he => ?_) hhd hkey hcarried
    fun c' r hc' hset hso => ?_
  · obtain ⟨hb, hlt, ho, htimer⟩ := hentry e he
    refine ⟨by simpa [hs, hlen] using hlt, by rw [hg]; exact ho, fun hb' => ?_, fun _ => ?_⟩
    · simp [hb] at hb'
    · rw [hconv']
      simpa [hs] using htimer
  · obtain ⟨ho, hdropped⟩ := hsettled c' r hc' hset hso
    refine ⟨by simpa [hs, hlen] using hso.stored, by rw [hg]; exact ho, fun e he her => ?_⟩
    rw [hconv'] at he ⊢
    exact ⟨(hentry e he).1, hdropped e he her⟩

theorem Own.leave {runs' : List AgentRunStatus} (h : Own s g) (hnot : ∀ k, g.holder k ≠ some c)
    (hruns : Finishes s (fun r => g.owner r = .call c) runs')
    (hclosed : ∀ r, g.owner r = .call c → runs'[r]? ≠ some .running) :
    Own ⟨runs', s.conversations, Function.update s.calls c none, s.nextCall⟩ g := by
  have hlen : s.runs.length ≤ runs'.length := Nat.le_of_eq hruns.length.symm
  refine ⟨fun c' x hx => ?_, fun k e he => ?_, fun k c' hk => ?_, h.wakings, fun r hr => ?_,
    fun c' hc' => ?_⟩
  · have hc' : c' ≠ c := by
      rintro rfl
      simp at hx
    have hx' : s.calls c' = some x := by simpa [hc'] using hx
    refine (h.calls c' x hx').frame hlen (fun k hk => ⟨rfl, hk⟩) (fun r _ ho => ⟨rfl, ?_⟩)
      fun k r _ hne hset => ⟨hne, Nat.lt_of_lt_of_le hset.stored hlen, hset.owned, hset.idle⟩
    refine hruns.of_not fun hoc => ?_
    rcases ho with ho | ⟨k, -, ho⟩
    · exact hc' (Owner.call.inj (ho.symm.trans hoc))
    · cases ho.symm.trans hoc
  · have hok := h.entries k e he
    exact hok.frame hlen rfl rfl ⟨rfl, hruns.of_not (by simp [hok.owned])⟩
  · obtain ⟨x, hx, hxk⟩ := h.holders k c' hk
    have hc' : c' ≠ c := by
      rintro rfl
      exact hnot k hk
    exact ⟨x, by simpa [hc'] using hx, hxk⟩
  · rcases ho : g.owner r with k | c'
    · obtain ⟨e, he, her⟩ := (h.runs r (hruns.running hr)).key ho
      exact RunOk.of_key ho he her
    · obtain ⟨x, hx, hxr⟩ := (h.runs r (hruns.running hr)).carried ho
      have hc' : c' ≠ c := by
        rintro rfl
        exact hclosed r ho hr
      exact RunOk.of_call ho (by simpa [hc'] using hx) hxr
  · by_cases hc : c' = c
    · simp [hc]
    · simpa [hc] using h.fresh c' hc'

theorem Own.create (h : Own s g) (hc : s.calls c = some (.wakeReading k)) :
    Own ⟨s.runs ++ [AgentRunStatus.running], s.conversations,
      Function.update s.calls c (some (.wakeCreated k s.runs.length)), s.nextCall⟩
      ⟨Function.update g.owner s.runs.length (.call c), g.holder⟩ := by
  have hlen : s.runs.length ≤ (s.runs ++ [AgentRunStatus.running]).length := by simp
  have hsame : ∀ r < s.runs.length,
      Function.update g.owner s.runs.length (.call c) r = g.owner r ∧
        (s.runs ++ [AgentRunStatus.running])[r]? = s.runs[r]? := fun r hr =>
    ⟨by simp [Nat.ne_of_lt hr], List.getElem?_append_left hr⟩
  obtain ⟨hw, he⟩ : Wakes s g c k ∧ _ := h.calls c _ hc
  refine ⟨fun c' x hx => ?_, fun k' e he' => ?_, fun k' c' hk' => ?_, h.wakings, fun r hr => ?_,
    fun c' hc' => ?_⟩
  · by_cases hc' : c' = c
    · subst hc'
      obtain rfl : .wakeCreated k s.runs.length = x := by simpa using hx
      exact ⟨⟨hw.held, hw.waking⟩, he, by simp, by simp⟩
    · have hx' : s.calls c' = some x := by simpa [hc'] using hx
      exact (h.calls c' x hx').frame hlen (fun k hk => ⟨rfl, hk⟩) (fun r hr _ => hsame r hr)
        fun k r _ hne hset => ⟨hne, Nat.lt_of_lt_of_le hset.stored hlen,
          (hsame r hset.stored).1.trans hset.owned, hset.idle⟩
  · have hok := h.entries k' e he'
    exact hok.frame hlen rfl rfl (hsame _ hok.stored)
  · obtain ⟨x, hx, hxk⟩ := h.holders k' c' hk'
    by_cases hc' : c' = c
    · subst hc'
      cases hc.symm.trans hx
      exact ⟨.wakeCreated k s.runs.length, by simp, hxk⟩
    · exact ⟨x, by simpa [hc'] using hx, hxk⟩
  · by_cases hnew : r < s.runs.length
    · obtain ⟨ho', hr'⟩ := hsame r hnew
      have hok := h.runs r (hr'.symm.trans hr)
      rcases ho : g.owner r with k' | c'
      · obtain ⟨e, he', her⟩ := hok.key ho
        exact RunOk.of_key (ho'.trans ho) he' her
      · obtain ⟨x, hx, hxr⟩ := hok.carried ho
        have hc' : c' ≠ c := by
          rintro rfl
          cases hc.symm.trans hx
          cases hxr
        exact RunOk.of_call (ho'.trans ho) (by simpa [hc'] using hx) hxr
    · have hr' : r = s.runs.length := by
        have := stored_of_running hr
        simp at this
        omega
      subst hr'
      exact RunOk.of_call (c := c) (x := .wakeCreated k s.runs.length) (by simp) (by simp) rfl
  · have hne : c' ≠ c := by
      rintro rfl
      cases hc.symm.trans (h.fresh c' hc')
    simpa [hne] using h.fresh c' hc'

theorem Own.disarm {v : Conversation} {t : Option Timer} (h : Own s g)
    (he : (s.conversations k).entry = some ⟨r, true, t⟩)
    (hconv : v.entry = some ⟨r, true, none⟩)
    (hw : v.waking = (s.conversations k).waking)
    (hd : (s.conversations k).dropped = true → v.dropped = true) (hq : s.Quiet k r) :
    Own (s.setConversation k v) g := by
  have hok := h.entries k _ he
  obtain ⟨c, hk⟩ := Option.ne_none_iff_exists'.mp (hok.held rfl).1
  obtain ⟨x, hx, hxk, hcall⟩ := h.holds hk
  have hc := h.call_lt hx
  have hserves : ∀ {r'}, Serves s g c k r' → r' = r := fun hs => by
    obtain ⟨t', -, he'⟩ := hs.entry
    cases he.symm.trans he'
    rfl
  have hs : s.setConversation k v = ⟨s.runs, Function.update s.conversations k v,
      Function.update s.calls c (some x), s.nextCall⟩ := by
    rw [← hx, Function.update_eq_self]
    rfl
  have hg : g = ⟨g.owner, Function.update g.holder k (some c)⟩ := by
    rw [← hk, Function.update_eq_self]
  refine h.serve (.inl hk) hs hg ⟨Nat.le_refl _, hc⟩ (.inl rfl) (fun _ _ => rfl)
    (.inl hok.owned) hxk (by simp) hconv hok.stored hok.owned (fun hserve hconv' => ?_)
    (fun e he' => ?_) (fun y r' hy hcarries => ?_) fun c' hc' hset hso => ?_
  · have hruns : (s.setConversation k v).runs = s.runs := rfl
    cases x with
    | wakeReading k' | wakeCreated k' | wakeTurn k' =>
      cases hxk
      have hnone := hcall.2
      simp [he] at hnone
    | failing ko r' =>
      cases hxk
      have hnone := hcall.2.1
      simp [he] at hnone
    | wakeSettled k' =>
      cases hxk
      have hidle := hcall.2 _ he
      simp at hidle
    | turnSettled k' r' =>
      cases hxk
      rcases hcall with hcall | hcall
      · cases hserves hcall.1
        exact absurd hx (hq c hc).2
      · exact absurd hk hcall.1
    | turn k' r' | pausing k' r' | committing k' r' =>
      cases hxk
      cases hserves hcall.1
      exact ⟨hserve, by rw [hconv', hw]; exact hcall.2⟩
    | closing k' r' a =>
      cases hxk
      cases hserves hcall.1
      exact ⟨hserve, by rw [hconv', hw]; exact hcall.2.1, by rw [hconv']; exact hd hcall.2.2⟩
    | closed k' r' a =>
      cases hxk
      cases hserves hcall.1
      exact ⟨hserve, by rw [hconv', hw]; exact hcall.2.1,
        by rw [hconv']; exact hd hcall.2.2.1, hcall.2.2.2⟩
    | paused k' r' =>
      rcases k' with tenantId | ⟨supervisorRunId, targetProjectItemId⟩
      · cases hxk
        cases hserves hcall.1
        exact ⟨hserve, by rw [hconv', hw]; exact hcall.2⟩
      · cases hxk
  · cases he.symm.trans he'
    rfl
  · cases hx.symm.trans hy
    simp [hcall.carrier hxk hcarries] at he
  · have hidle := (hso.idle _ he rfl).1
    simp at hidle

theorem Own.dropWaking (h : Own s g) (hw : (s.conversations k).waking = true)
    (he : (s.conversations k).entry = none) :
    Own (s.setConversation k { s.conversations k with dropped := true }) g := by
  obtain ⟨c, hk⟩ := Option.ne_none_iff_exists'.mp (h.wakings k hw)
  obtain ⟨x, hx, hxk, hcall⟩ := h.holds hk
  have hc := h.call_lt hx
  have hserves : ∀ {r}, ¬Serves s g c k r := fun hs => by
    obtain ⟨t', -, he'⟩ := hs.entry
    cases he.symm.trans he'
  have hs : s.setConversation k { s.conversations k with dropped := true } =
      ⟨s.runs, Function.update s.conversations k { s.conversations k with dropped := true },
        Function.update s.calls c (some x), s.nextCall⟩ := by
    rw [← hx, Function.update_eq_self]
    rfl
  have hg : g = ⟨g.owner, Function.update g.holder k (some c)⟩ := by
    rw [← hk, Function.update_eq_self]
  refine h.wake (.inl hk) hs hg ⟨Nat.le_refl _, hc⟩ (.inl rfl) hxk hw he he
    (fun hwakes hnone => ?_) fun y r hy hcarries _ _ => ?_
  · have hruns : (s.setConversation k { s.conversations k with dropped := true }).runs =
      s.runs := rfl
    cases x with
    | wakeReading k' =>
      cases hxk
      exact ⟨hwakes, hnone⟩
    | wakeCreated k' | wakeTurn k' | failing ko =>
      cases hxk
      exact ⟨hwakes, hnone, hcall.2.2⟩
    | wakeSettled k' =>
      cases hxk
      exact ⟨hwakes, fun e he' => by simp [hnone] at he'⟩
    | turnSettled k' r' =>
      cases hxk
      exact hcall.elim (fun hs => absurd hs.1 hserves) fun hs => absurd hk hs.1
    | turn | pausing | committing | closing | closed =>
      cases hxk
      exact absurd hcall.1 hserves
    | paused k' r' =>
      rcases k' with tenantId | ⟨supervisorRunId, targetProjectItemId⟩
      · cases hxk
        exact absurd hcall.1 hserves
      · cases hxk
  · cases hx.symm.trans hy
    exact hcarries

end WakeRuns

end Semprec
