import Semprec.SyncServer

/-!
# Frames stay in their tenant

Every registry names sockets by the tenant it was given when they registered: a set of subscribers
by its key, a watcher and a call by the tenant of their socket.  A row is read in the tenant it is
sent in.  A close of a tenant is counted, and an upgrade remembers how many closes came before it.
-/

namespace Semprec

namespace AgentRunWatch

namespace Registry

variable {r r' : Registry} {P Q : ℕ → ℕ → Prop} {opened : ℕ → Bool} {db : Db}

def HasWatcher (r : Registry) (w tenantId : ℕ) : Prop :=
  ∃ watcher, r.watchers w = some watcher ∧ watcher.tenantId = tenantId

/-- The watcher a call has registered. -/
def watcher? : WatchPhase → Option ℕ
  | .authorizing => none
  | .reading w | .fetching w _ _ => some w

/-- What the registry holds for a socket is of its tenant; `P ws tenantId` says that the socket is
of the tenant. -/
structure Ok (P : ℕ → ℕ → Prop) (r : Registry) : Prop where
  watchers : ∀ w watcher, r.watchers w = some watcher →
    w < r.watcherSeq ∧ P watcher.ws watcher.tenantId
  calls : ∀ c call, r.calls c = some call → P call.ws call.tenantId ∧
    ∀ w, watcher? call.phase = some w → r.HasWatcher w call.tenantId
  forwards : ∀ runId f, r.forwards runId = some f →
    ∀ w ∈ f.liveWatchers, r.HasWatcher w f.tenantId
  sent : ∀ ws event, (ws, event) ∈ r.sent → P ws event.tenantId

theorem ok_empty : Ok P empty where
  watchers := fun _ _ h => by cases h
  calls := fun _ _ h => by cases h
  forwards := fun _ _ h => by cases h
  sent := fun _ _ h => by cases h

theorem Ok.mono (h : Ok P r) (hPQ : ∀ ws t, P ws t → Q ws t) : Ok Q r where
  watchers := fun w watcher hw => ⟨(h.watchers w watcher hw).1, hPQ _ _ (h.watchers w watcher hw).2⟩
  calls := fun c call hc => ⟨hPQ _ _ (h.calls c call hc).1, (h.calls c call hc).2⟩
  forwards := h.forwards
  sent := fun ws event hs => hPQ _ _ (h.sent ws event hs)

/-- Only the registry's maps change. -/
theorem Ok.congr (h : Ok P r) (hw : r'.watchers = r.watchers) (hseq : r'.watcherSeq = r.watcherSeq)
    (hc : r'.calls = r.calls) (hf : r'.forwards = r.forwards) (hs : r'.sent = r.sent) :
    Ok P r' where
  watchers := by
    rw [hw, hseq]
    exact h.watchers
  calls := by
    unfold HasWatcher
    rw [hw, hc]
    exact h.calls
  forwards := by
    unfold HasWatcher
    rw [hw, hf]
    exact h.forwards
  sent := by
    rw [hs]
    exact h.sent

/-! ## Parts of the operations -/

theorem remove_eq (r : Registry) (w : ℕ) : (r.remove w).watchers = r.watchers ∧
    (r.remove w).watcherSeq = r.watcherSeq ∧ (r.remove w).calls = r.calls ∧
    (r.remove w).forwards = r.forwards ∧ (r.remove w).sent = r.sent := by
  unfold remove
  split <;> exact ⟨rfl, rfl, rfl, rfl, rfl⟩

theorem removeEntry_eq (r : Registry) (e : Option ℕ) : (r.removeEntry e).watchers = r.watchers ∧
    (r.removeEntry e).watcherSeq = r.watcherSeq ∧ (r.removeEntry e).calls = r.calls ∧
    (r.removeEntry e).forwards = r.forwards ∧ (r.removeEntry e).sent = r.sent := by
  cases e with
  | none => exact ⟨rfl, rfl, rfl, rfl, rfl⟩
  | some w => exact r.remove_eq w

theorem Ok.remove (h : Ok P r) (w : ℕ) : Ok P (r.remove w) := by
  obtain ⟨hw, hseq, hc, hf, hs⟩ := r.remove_eq w
  exact h.congr hw hseq hc hf hs

theorem Ok.removeEntry (h : Ok P r) (e : Option ℕ) : Ok P (r.removeEntry e) := by
  obtain ⟨hw, hseq, hc, hf, hs⟩ := r.removeEntry_eq e
  exact h.congr hw hseq hc hf hs

theorem Ok.setCall (h : Ok P r) {c : ℕ} {v : Option WatchCall} (hv : ∀ call, v = some call →
      P call.ws call.tenantId ∧ ∀ w, watcher? call.phase = some w → r.HasWatcher w call.tenantId) :
    Ok P (r.setCall c v) where
  watchers := h.watchers
  calls := by
    intro c' call hc
    by_cases hcc : c' = c
    · subst hcc
      simp only [Registry.setCall, Function.update_self] at hc
      exact hv call hc
    · exact h.calls c' call ((Function.update_of_ne hcc _ _).symm.trans hc)
  forwards := h.forwards
  sent := h.sent

theorem HasWatcher.setWatcher {w w' t : ℕ} {watcher watcher' : Watcher}
    (hw : r.watchers w = some watcher) (ht : watcher'.tenantId = watcher.tenantId)
    (h : r.HasWatcher w' t) : (r.setWatcher w watcher').HasWatcher w' t := by
  obtain ⟨v, hv, hvt⟩ := h
  by_cases hww : w' = w
  · subst hww
    cases hw.symm.trans hv
    exact ⟨watcher', Function.update_self _ _ _, ht.trans hvt⟩
  · exact ⟨v, (Function.update_of_ne hww _ _).trans hv, hvt⟩

theorem Ok.setWatcher (h : Ok P r) {w : ℕ} {watcher watcher' : Watcher}
    (hw : r.watchers w = some watcher) (hs : watcher'.ws = watcher.ws)
    (ht : watcher'.tenantId = watcher.tenantId) : Ok P (r.setWatcher w watcher') where
  watchers := by
    intro w' v hv
    rcases of_update_some hv with ⟨rfl, rfl⟩ | ⟨-, hv⟩
    · rw [hs, ht]
      exact h.watchers w' watcher hw
    · exact h.watchers w' v hv
  calls := fun c call hc =>
    ⟨(h.calls c call hc).1, fun w' hw' => ((h.calls c call hc).2 w' hw').setWatcher hw ht⟩
  forwards := fun runId f hf w' hw' => (h.forwards runId f hf w' hw').setWatcher hw ht
  sent := h.sent

theorem Ok.deliver (h : Ok P r) {w : ℕ} {event : AgentRunEventRow}
    (he : r.HasWatcher w event.tenantId) : Ok P (r.deliver opened w event) := by
  obtain ⟨watcher, hw, ht⟩ := he
  unfold Registry.deliver
  rw [hw]
  simp only []
  split_ifs with hc ho
  · have hset : Ok P (r.setWatcher w { watcher with lastEventId := event.id }) :=
      h.setWatcher hw rfl rfl
    refine ⟨hset.watchers, hset.calls, hset.forwards, fun ws e hmem => ?_⟩
    rcases List.mem_append.mp hmem with hmem | hmem
    · exact h.sent ws e hmem
    · simp only [List.mem_singleton, Prod.mk.injEq] at hmem
      rw [hmem.1, hmem.2, ← ht]
      exact (h.watchers w watcher hw).2
  · exact h.setWatcher hw rfl rfl
  · exact h

theorem HasWatcher.deliver {w w' t : ℕ} {event : AgentRunEventRow} (h : r.HasWatcher w' t) :
    (r.deliver opened w event).HasWatcher w' t := by
  unfold Registry.deliver
  split
  · exact h
  · rename_i watcher hw
    split_ifs with hc ho
    · exact HasWatcher.setWatcher hw rfl h
    · exact HasWatcher.setWatcher hw rfl h
    · exact h

theorem Ok.foldl_deliver {β : Type} {t : ℕ} (w : β → ℕ) (event : β → AgentRunEventRow) :
    ∀ {bs : List β} {r : Registry}, Ok P r →
      (∀ b ∈ bs, (event b).tenantId = t ∧ r.HasWatcher (w b) t) →
      Ok P (bs.foldl (fun r b => r.deliver opened (w b) (event b)) r) ∧
        ∀ w', r.HasWatcher w' t →
          (bs.foldl (fun r b => r.deliver opened (w b) (event b)) r).HasWatcher w' t
  | [], _, h, _ => ⟨h, fun _ hw => hw⟩
  | b :: bs, r, h, hbs => by
    rw [List.forall_mem_cons] at hbs
    obtain ⟨⟨ht, hb⟩, hbs⟩ := hbs
    have hok : Ok P (r.deliver opened (w b) (event b)) := h.deliver (ht.symm ▸ hb)
    obtain ⟨hok', hhas⟩ := Ok.foldl_deliver w event hok fun b' hb' =>
      ⟨(hbs b' hb').1, (hbs b' hb').2.deliver⟩
    exact ⟨hok', fun w' hw => hhas w' hw.deliver⟩

theorem Ok.takeQueued (h : Ok P r) (w : ℕ) : Ok P (r.takeQueued w).1 := by
  unfold Registry.takeQueued
  split
  · exact h
  · rename_i watcher hw
    exact h.setWatcher hw rfl rfl

theorem HasWatcher.takeQueued {w w' t : ℕ} (h : r.HasWatcher w' t) :
    (r.takeQueued w).1.HasWatcher w' t := by
  unfold Registry.takeQueued
  split
  · exact h
  · rename_i watcher hw
    exact HasWatcher.setWatcher hw rfl h

theorem Ok.promoteReplacement (h : Ok P r) (w : ℕ) (watcher : Watcher) :
    Ok P (r.promoteReplacement w watcher) := by
  unfold Registry.promoteReplacement
  simp only []
  by_cases he : r.watchersBySocket watcher.ws watcher.runId = some w
  · simp only [he, if_true]
    exact h.congr rfl rfl rfl rfl rfl
  · simp only [he, if_false]
    exact (h.removeEntry _).congr rfl rfl rfl rfl rfl

theorem Ok.promote (h : Ok P r) (w : ℕ) : Ok P (r.promote w) := by
  unfold Registry.promote
  split
  · exact h
  · rename_i watcher hw
    split_ifs
    · refine Ok.promoteReplacement (Ok.setWatcher h hw ?_ ?_) w _ <;> rfl
    · exact h

/-! ## The operations -/

theorem Ok.finishPendingWatch (h : Ok P r) (ws runId token : ℕ) :
    Ok P (r.finishPendingWatch ws runId token) := h.congr rfl rfl rfl rfl rfl

theorem Ok.advance (h : Ok P r) {c w : ℕ} {call : WatchCall} (hp : P call.ws call.tenantId)
    (hw : r.HasWatcher w call.tenantId) (todo : List ℕ) : Ok P (r.advance c call w todo) := by
  have hcall : ∀ (r' : Registry) (eventId : ℕ) (rest : List ℕ), r'.HasWatcher w call.tenantId →
      ∀ call', some { call with phase := .fetching w eventId rest } = some call' →
        P call'.ws call'.tenantId ∧
          ∀ w', watcher? call'.phase = some w' → r'.HasWatcher w' call'.tenantId := by
    intro r' eventId rest hw' call' hc
    cases hc
    refine ⟨hp, fun w' heq => ?_⟩
    cases heq
    exact hw'
  unfold Registry.advance
  split
  · exact h.setCall (hcall r _ _ hw)
  · simp only []
    split
    · exact (h.takeQueued w).setCall (hcall _ _ _ hw.takeQueued)
    · exact ((h.takeQueued w).promote w).setCall fun _ hc => by cases hc

theorem Ok.watch (h : Ok P r) {ws tenantId userId runId afterEventId : ℕ} (hp : P ws tenantId) :
    Ok P (r.watch ws tenantId userId runId afterEventId) where
  watchers := h.watchers
  calls := by
    intro c call hc
    simp only [Registry.watch] at hc
    rcases of_update_some hc with ⟨rfl, rfl⟩ | ⟨-, hc⟩
    · exact ⟨hp, fun w hw => by cases hw⟩
    · exact h.calls c call hc
  forwards := h.forwards
  sent := h.sent

theorem Ok.addReplacement (h : Ok P r) {watcher : Watcher} (hp : P watcher.ws watcher.tenantId) :
    Ok P (r.addReplacement watcher) := by
  have hold : ∀ w v, r.watchers w = some v →
      (r.addReplacement watcher).watchers w = some v := fun w v hw =>
    (Function.update_of_ne (h.watchers w v hw).1.ne _ _).trans hw
  have hhas : ∀ w t, r.HasWatcher w t → (r.addReplacement watcher).HasWatcher w t := by
    rintro w t ⟨v, hv, ht⟩
    exact ⟨v, hold w v hv, ht⟩
  refine ⟨fun w v hv => ?_, fun c call hc => ⟨(h.calls c call hc).1, fun w hw =>
    hhas w _ ((h.calls c call hc).2 w hw)⟩, fun runId f hf w hw => hhas w _ (h.forwards runId f hf w hw),
    h.sent⟩
  rcases of_update_some hv with ⟨rfl, rfl⟩ | ⟨-, hv⟩
  · exact ⟨Nat.lt_succ_self _, hp⟩
  · obtain ⟨hlt, hpv⟩ := h.watchers w v hv
    exact ⟨Nat.lt_succ_of_lt hlt, hpv⟩

theorem Ok.authorized (h : Ok P r) {c : ℕ} {call : WatchCall} (hp : P call.ws call.tenantId) :
    Ok P (r.authorized db opened c call) := by
  unfold Registry.authorized
  simp only []
  have hf : Ok P (r.finishPendingWatch call.ws call.runId c) := h.finishPendingWatch _ _ _
  split_ifs
  · refine ((hf.removeEntry _).addReplacement hp).setCall fun call' hc => ?_
    cases hc
    refine ⟨hp, fun w hw => ?_⟩
    cases hw
    exact ⟨_, Function.update_self _ _ _, rfl⟩
  · exact hf.setCall fun _ hc => by cases hc

theorem mem_listAgentRunEventsAfter {tenantId runId afterEventId : ℕ} {event : AgentRunEventRow}
    (h : event ∈ db.listAgentRunEventsAfter tenantId runId afterEventId) :
    event ∈ db.events ∧ event.tenantId = tenantId ∧ event.agentRunId = runId ∧
      afterEventId < event.id := by
  simpa [Db.listAgentRunEventsAfter, List.mem_insertionSort, List.mem_filter] using h

theorem getAgentRunEventById_some {tenantId runId eventId : ℕ} {event : AgentRunEventRow}
    (h : db.getAgentRunEventById tenantId runId eventId = some event) :
    event ∈ db.events ∧ event.tenantId = tenantId ∧ event.agentRunId = runId ∧
      event.id = eventId := by
  refine ⟨List.mem_of_find?_eq_some h, ?_⟩
  simpa using List.find?_some h

theorem Ok.replayed (h : Ok P r) {c w : ℕ} {call : WatchCall} (hp : P call.ws call.tenantId)
    (hw : r.HasWatcher w call.tenantId) : Ok P (r.replayed db opened c call w) := by
  unfold Registry.replayed
  split_ifs
  · have hrows : ∀ event ∈ db.listAgentRunEventsAfter call.tenantId call.runId
        call.afterEventId, event.tenantId = call.tenantId ∧ r.HasWatcher w call.tenantId :=
      fun event he => ⟨(mem_listAgentRunEventsAfter he).2.1, hw⟩
    obtain ⟨hok, hhas⟩ := Ok.foldl_deliver (fun _ => w) (fun event => event) h hrows
    exact hok.advance hp (hhas w hw) []
  · exact h.setCall fun _ hc => by cases hc

theorem Ok.fetched (h : Ok P r) {c w eventId : ℕ} {call : WatchCall} {rest : List ℕ}
    (hp : P call.ws call.tenantId) (hw : r.HasWatcher w call.tenantId) :
    Ok P (r.fetched db opened c call w eventId rest) := by
  unfold Registry.fetched
  split
  · rename_i event he
    have ht := (getAgentRunEventById_some he).2.1
    exact (h.deliver (ht.symm ▸ hw)).advance hp hw.deliver rest
  · exact h.advance hp hw rest

theorem Ok.answered (h : Ok P r) {c : ℕ} {call : WatchCall} (hc : r.calls c = some call) :
    Ok P (r.answered db opened c call) := by
  obtain ⟨hp, hphase⟩ := h.calls c call hc
  unfold Registry.answered
  split
  · exact h.authorized hp
  · rename_i w hw
    exact h.replayed hp (hphase w (by rw [hw]; rfl))
  · rename_i w eventId rest hw
    exact h.fetched hp (hphase w (by rw [hw]; rfl))

theorem Ok.readFails (h : Ok P r) (c : ℕ) (call : WatchCall) : Ok P (r.readFails c call) := by
  unfold Registry.readFails
  split
  · exact (h.finishPendingWatch _ _ _).setCall fun _ hc => by cases hc
  · exact (h.remove _).setCall fun _ hc => by cases hc
  · exact (h.remove _).setCall fun _ hc => by cases hc

theorem Ok.unwatch (h : Ok P r) (ws runId : ℕ) : Ok P (r.unwatch ws runId) := by
  have hset : Ok P { r with
      pendingWatchesBySocket := setEntry r.pendingWatchesBySocket ws runId none } :=
    h.congr rfl rfl rfl rfl rfl
  exact (hset.removeEntry _).removeEntry _

theorem Ok.queueEvent (h : Ok P r) (ws : List ℕ) (eventId : ℕ) : Ok P (r.queueEvent ws eventId) := by
  have hhas : ∀ w t, r.HasWatcher w t → (r.queueEvent ws eventId).HasWatcher w t := by
    rintro w t ⟨v, hv, ht⟩
    refine ⟨_, Option.map_eq_some_iff.mpr ⟨v, hv, rfl⟩, ?_⟩
    split_ifs <;> exact ht
  refine ⟨fun w v hv => ?_, fun c call hc => ⟨(h.calls c call hc).1, fun w hw =>
    hhas w _ ((h.calls c call hc).2 w hw)⟩, fun runId f hf w hw =>
    hhas w _ (h.forwards runId f hf w hw), h.sent⟩
  obtain ⟨v', hv', rfl⟩ := Option.map_eq_some_iff.mp hv
  split_ifs <;> exact h.watchers w v' hv'

theorem hasWatcher_of_live {tenantId runId w : ℕ} (h : w ∈ r.liveWatchers tenantId runId) :
    r.HasWatcher w tenantId := by
  have hw := (List.mem_filter.mp (List.mem_filter.mp h).1).2
  cases hwatcher : r.watchers w with
  | none =>
    rw [hwatcher] at hw
    cases hw
  | some watcher =>
    rw [hwatcher] at hw
    exact ⟨watcher, hwatcher, of_decide_eq_true hw⟩

theorem Ok.forwardEvent (h : Ok P r) {runId : ℕ} (hr : r.forwardEvent runId = some r') :
    Ok P r' := by
  unfold Registry.forwardEvent at hr
  split at hr
  swap
  · cases hr
  rename_i tenantId eventId rest hf ht
  simp only [] at hr
  have hq : Ok P { r.queueEvent (r.tenantWatchers tenantId runId) eventId with
      tails := Function.update r.tails runId rest } :=
    (h.queueEvent _ _).congr rfl rfl rfl rfl rfl
  split_ifs at hr
  · cases hr
    exact hq
  · cases hr
    refine ⟨hq.watchers, hq.calls, fun runId' f hf' w hw => ?_, hq.sent⟩
    rcases of_update_some hf' with ⟨rfl, rfl⟩ | ⟨-, hf'⟩
    · obtain ⟨v, hv, hvt⟩ := hasWatcher_of_live hw
      refine ⟨_, Option.map_eq_some_iff.mpr ⟨v, hv, rfl⟩, ?_⟩
      split_ifs <;> exact hvt
    · exact hq.forwards runId' f hf' w hw

theorem Ok.dropForward (h : Ok P r) (runId : ℕ) :
    Ok P { r with forwards := Function.update r.forwards runId none } := by
  refine ⟨h.watchers, h.calls, fun runId' f hf w hw => ?_, h.sent⟩
  obtain ⟨-, hf⟩ := of_update_none hf
  exact h.forwards runId' f hf w hw

theorem Ok.forwarded (h : Ok P r) {runId : ℕ} (hr : r.forwarded db opened runId = some r') :
    Ok P r' := by
  obtain ⟨f, hf, rfl⟩ := Option.map_eq_some_iff.mp hr
  simp only []
  split
  · rename_i event he
    have ht := (getAgentRunEventById_some he).2.1
    exact (Ok.foldl_deliver (fun w => w) (fun _ => event) (h.dropForward runId)
      fun w hw => ⟨ht, h.forwards runId f hf w hw⟩).1
  · exact h.dropForward runId

theorem Ok.forwardFails (h : Ok P r) {runId : ℕ} (hr : r.forwardFails runId = some r') :
    Ok P r' := by
  obtain ⟨f, -, rfl⟩ := Option.map_eq_some_iff.mp hr
  exact h.dropForward runId

end Registry

end AgentRunWatch

namespace SyncServer

variable {s s' : Sys}

/-! ## The sockets -/

def OfTenant (s : Sys) (ws tenantId : ℕ) : Prop :=
  ∃ sock, s.sockets ws = some sock ∧ sock.identity.tenantId = tenantId

def TaskOk (s : Sys) : Task → Prop
  | .forwardNotification _ _ _ => True
  | .opening ws tenantId _ | .greeting ws tenantId _ | .diffing ws tenantId _ =>
    OfTenant s ws tenantId
  | .fanning tenantId _ _ i | .resending tenantId _ i =>
    ∃ set, s.subscribers i = some set ∧ set.key.1 = tenantId

structure Inv (s : Sys) : Prop where
  sockets : ∀ ws sock, s.sockets ws = some sock → ws < s.socketSeq ∧
    (sock.readyState = .OPEN → sock.attachedAt = s.established)
  received : ∀ ws frame, (ws, frame) ∈ s.received → ∃ t, OfTenant s ws t ∧ frame.Belongs t
  pending : ∀ ws t frame, (t, frame) ∈ s.pendingByClient ws → OfTenant s ws t
  tasks : ∀ n task, s.tasks n = some task → TaskOk s task
  docs : ∀ key i, s.subscribersByDoc key = some i → ∃ set, s.subscribers i = some set ∧
    set.key = key
  subscribers : ∀ i set, s.subscribers i = some set → i < s.subscribersSeq ∧
    ∀ ws ∈ set.members, OfTenant s ws set.key.1
  agent : s.agentRunWatch.Ok (OfTenant s)

theorem inv_init {db : Db} : Inv (Sys.init db) where
  sockets := fun _ _ h => by cases h
  received := fun _ _ h => by cases h
  pending := fun _ _ _ h => by cases h
  tasks := fun _ _ h => by cases h
  docs := fun _ _ h => by cases h
  subscribers := fun _ _ h => by cases h
  agent := AgentRunWatch.Registry.ok_empty

theorem Inv.setSockets (hi : Inv s) {sockets : ℕ → Option Socket} {n e : ℕ}
    (hs : ∀ ws sock, sockets ws = some sock → ws < n ∧
      (sock.readyState = .OPEN → sock.attachedAt = e))
    (hid : ∀ ws sock, s.sockets ws = some sock →
      ∃ sock', sockets ws = some sock' ∧ sock'.identity = sock.identity) :
    Inv { s with sockets := sockets, socketSeq := n, established := e } := by
  have hof : ∀ ws t, OfTenant s ws t →
      OfTenant { s with sockets := sockets, socketSeq := n, established := e } ws t := by
    rintro ws t ⟨sock, hsock, ht⟩
    obtain ⟨sock', hsock', heq⟩ := hid ws sock hsock
    exact ⟨sock', hsock', heq ▸ ht⟩
  refine ⟨hs, fun ws frame h => ?_, fun ws t frame h => hof ws t (hi.pending ws t frame h),
    fun k task h => ?_, hi.docs, fun i set h => ⟨(hi.subscribers i set h).1, fun ws hm =>
      hof ws _ ((hi.subscribers i set h).2 ws hm)⟩, hi.agent.mono hof⟩
  · obtain ⟨t, ht, hb⟩ := hi.received ws frame h
    exact ⟨t, hof ws t ht, hb⟩
  · have hok := hi.tasks k task h
    cases task with
    | forwardNotification tenantId userId notificationId => trivial
    | opening ws tenantId docId => exact hof ws tenantId hok
    | greeting ws tenantId docId => exact hof ws tenantId hok
    | diffing ws tenantId docId => exact hof ws tenantId hok
    | fanning tenantId docId updateId i => exact hok
    | resending tenantId docId i => exact hok

/-- Only what no frame depends on changes. -/
theorem Inv.congr (hi : Inv s) (h₁ : s'.sockets = s.sockets) (h₂ : s'.socketSeq = s.socketSeq)
    (h₃ : s'.established = s.established) (h₄ : s'.received = s.received)
    (h₅ : s'.pendingByClient = s.pendingByClient) (h₆ : s'.tasks = s.tasks)
    (h₇ : s'.subscribersByDoc = s.subscribersByDoc) (h₈ : s'.subscribers = s.subscribers)
    (h₉ : s'.subscribersSeq = s.subscribersSeq) (h : s'.agentRunWatch.Ok (OfTenant s)) :
    Inv s' := by
  have hof : OfTenant s' = OfTenant s := by
    unfold OfTenant
    rw [h₁]
  have htask : TaskOk s' = TaskOk s := by
    funext task
    cases task <;> simp only [TaskOk, hof, h₈]
  constructor
  case sockets =>
    rw [h₁, h₂, h₃]
    exact hi.sockets
  case received =>
    rw [h₄, hof]
    exact hi.received
  case pending =>
    rw [h₅, hof]
    exact hi.pending
  case tasks =>
    rw [h₆, htask]
    exact hi.tasks
  case docs =>
    rw [h₇, h₈]
    exact hi.docs
  case subscribers =>
    rw [h₈, h₉, hof]
    exact hi.subscribers
  case agent =>
    rw [hof]
    exact h

/-! ## Sending -/

theorem Inv.send (hi : Inv s) {ws t : ℕ} {frame : Frame} (hws : OfTenant s ws t)
    (hf : frame.Belongs t) : Inv (s.send ws frame) := by
  unfold Sys.send
  split_ifs
  · refine ⟨hi.sockets, fun ws' frame' h => ?_, hi.pending, hi.tasks, hi.docs, hi.subscribers,
      hi.agent⟩
    rcases List.mem_append.mp h with h | h
    · exact hi.received ws' frame' h
    · simp only [List.mem_singleton, Prod.mk.injEq] at h
      rw [h.1, h.2]
      exact ⟨t, hws, hf⟩
  · exact hi

theorem send_eq (s : Sys) (ws : ℕ) (frame : Frame) : (s.send ws frame).sockets = s.sockets ∧
    (s.send ws frame).pendingByClient = s.pendingByClient := by
  unfold Sys.send
  split_ifs <;> exact ⟨rfl, rfl⟩

theorem OfTenant.send {ws ws' t : ℕ} {frame : Frame} (h : OfTenant s ws t) :
    OfTenant (s.send ws' frame) ws t := by
  unfold OfTenant
  rw [(send_eq s ws' frame).1]
  exact h

theorem Inv.sendAll {t : ℕ} {frame : Frame} (hf : frame.Belongs t) :
    ∀ {ws : List ℕ} {s : Sys}, Inv s → (∀ w ∈ ws, OfTenant s w t) → Inv (s.sendAll ws frame)
  | [], _, hi, _ => hi
  | w :: ws, s, hi, hws => by
    rw [List.forall_mem_cons] at hws
    have hsend : Inv (s.send w frame) := hi.send hws.1 hf
    have hrest : Inv ((s.send w frame).sendAll ws frame) :=
      Inv.sendAll hf hsend fun w' hw' => (hws.2 w' hw').send
    exact hrest

theorem ofTenant_of_mem {tenantId ws : ℕ} {userId : Option ℕ}
    (h : ws ∈ s.tenantSockets tenantId userId) : OfTenant s ws tenantId := by
  have hs := (List.mem_filter.mp h).2
  cases hsock : s.sockets ws with
  | none =>
    rw [hsock] at hs
    cases hs
  | some sock =>
    rw [hsock] at hs
    exact ⟨sock, hsock, (of_decide_eq_true hs).2.1⟩

/-! ## Invalidations -/

theorem mem_coalesce {tenantId t : ℕ} {frame f : SyncClient.InvalidateFrame} :
    ∀ {queue : List (ℕ × SyncClient.InvalidateFrame)},
      (t, f) ∈ Sys.coalesce tenantId frame queue → t = tenantId ∨ (t, f) ∈ queue
  | [], h => by
    simp only [Sys.coalesce, List.mem_singleton, Prod.mk.injEq] at h
    exact .inl h.1
  | (t', f') :: rest, h => by
    unfold Sys.coalesce at h
    split at h
    · split_ifs at h
      · rcases List.mem_cons.mp h with h | h
        · exact .inl (congrArg Prod.fst h)
        · exact .inr (List.mem_cons_of_mem _ h)
      · exact .inr h
      · rcases List.mem_cons.mp h with h | h
        · exact .inr (h ▸ List.mem_cons_self)
        · exact (mem_coalesce h).imp_right (List.mem_cons_of_mem _)
    · rcases List.mem_cons.mp h with h | h
      · exact .inr (h ▸ List.mem_cons_self)
      · exact (mem_coalesce h).imp_right (List.mem_cons_of_mem _)

theorem Inv.setPending (hi : Inv s) {ws : ℕ} {queue : List (ℕ × SyncClient.InvalidateFrame)}
    (hq : ∀ t f, (t, f) ∈ queue → OfTenant s ws t) :
    Inv { s with pendingByClient := Function.update s.pendingByClient ws queue } := by
  refine ⟨hi.sockets, hi.received, fun ws' t f h => ?_, hi.tasks, hi.docs, hi.subscribers,
    hi.agent⟩
  by_cases hw : ws' = ws
  · subst hw
    simp only [Function.update_self] at h
    exact hq t f h
  · simp only [Function.update_of_ne hw] at h
    exact hi.pending ws' t f h

theorem Inv.deliverInvalidate (hi : Inv s) {drained : List ℕ} {tenantId ws : ℕ}
    {frame : SyncClient.InvalidateFrame} (hws : OfTenant s ws tenantId) :
    Inv (s.deliverInvalidate drained tenantId frame ws) := by
  unfold Sys.deliverInvalidate
  split
  · exact hi.send hws rfl
  · split_ifs
    · exact hi.send hws rfl
    · refine hi.setPending fun t f h => ?_
      rcases mem_coalesce h with rfl | h
      · exact hws
      · exact hi.pending ws t f h

theorem OfTenant.deliverInvalidate {drained : List ℕ} {tenantId ws ws' t : ℕ}
    {frame : SyncClient.InvalidateFrame} (h : OfTenant s ws' t) :
    OfTenant (s.deliverInvalidate drained tenantId frame ws) ws' t := by
  unfold Sys.deliverInvalidate
  split
  · exact h.send
  · split_ifs
    · exact h.send
    · exact h

theorem Inv.invalidation {drained : List ℕ} {tenantId : ℕ} {frame : SyncClient.InvalidateFrame} :
    ∀ {ws : List ℕ} {s : Sys}, Inv s → (∀ w ∈ ws, OfTenant s w tenantId) →
      Inv (ws.foldl (fun s w => s.deliverInvalidate drained tenantId frame w) s)
  | [], _, hi, _ => hi
  | w :: ws, s, hi, hws => by
    rw [List.forall_mem_cons] at hws
    have hone : Inv (s.deliverInvalidate drained tenantId frame w) := hi.deliverInvalidate hws.1
    rw [List.foldl_cons]
    exact Inv.invalidation hone fun w' hw' => (hws.2 w' hw').deliverInvalidate

theorem Inv.flush (hi : Inv s) (ws : ℕ) : Inv (s.flush ws) := by
  have hsend : ∀ (queue : List (ℕ × SyncClient.InvalidateFrame)) (s' : Sys), Inv s' →
      (∀ t f, (t, f) ∈ queue → OfTenant s' ws t) →
      Inv (queue.foldl (fun s (q : ℕ × _) => s.send ws (.invalidate q.1 q.2)) s') := by
    intro queue
    induction queue with
    | nil => exact fun s' hi' _ => hi'
    | cons q queue ih =>
      intro s' hi' hq
      have hone : OfTenant s' ws q.1 := hq q.1 q.2 List.mem_cons_self
      exact ih _ (hi'.send hone rfl) fun t f h => (hq t f (List.mem_cons_of_mem _ h)).send
  exact hsend _ _ (hi.setPending fun t f h => by cases h) fun t f h => hi.pending ws t f h

/-! ## Tasks -/

theorem Inv.setTask (hi : Inv s) {task : Task} (ht : TaskOk s task) : Inv (s.setTask task) := by
  refine ⟨hi.sockets, hi.received, hi.pending, fun n task' h => ?_, hi.docs, hi.subscribers,
    hi.agent⟩
  rcases of_update_some h with ⟨rfl, rfl⟩ | ⟨-, h⟩
  · exact ht
  · exact hi.tasks n task' h

theorem Inv.replaceTask (hi : Inv s) {n : ℕ} {task : Task} (ht : TaskOk s task) :
    Inv (s.replaceTask n task) := by
  refine ⟨hi.sockets, hi.received, hi.pending, fun m task' h => ?_, hi.docs, hi.subscribers,
    hi.agent⟩
  rcases of_update_some h with ⟨rfl, rfl⟩ | ⟨-, h⟩
  · exact ht
  · exact hi.tasks m task' h

theorem Inv.dropTask (hi : Inv s) (n : ℕ) : Inv (s.dropTask n) := by
  refine ⟨hi.sockets, hi.received, hi.pending, fun m task h => ?_, hi.docs, hi.subscribers,
    hi.agent⟩
  obtain ⟨-, h⟩ := of_update_none h
  exact hi.tasks m task h

/-! ## Documents -/

theorem TaskOk.setMembers {i : ℕ} {set : Subscribers} {members : List ℕ} {task : Task}
    (hset : s.subscribers i = some set) (h : TaskOk s task) :
    TaskOk { s with
      subscribers := Function.update s.subscribers i (some { set with members := members }) }
      task := by
  have hkeep : ∀ {t j}, (∃ set', s.subscribers j = some set' ∧ set'.key.1 = t) →
      ∃ set', Function.update s.subscribers i (some { set with members := members }) j =
        some set' ∧ set'.key.1 = t := by
    rintro t j ⟨set', hset', hkey⟩
    by_cases hj : j = i
    · subst hj
      cases hset.symm.trans hset'
      exact ⟨_, Function.update_self _ _ _, hkey⟩
    · exact ⟨set', (Function.update_of_ne hj _ _).trans hset', hkey⟩
  cases task with
  | forwardNotification tenantId userId notificationId => trivial
  | opening ws tenantId docId => exact h
  | greeting ws tenantId docId => exact h
  | diffing ws tenantId docId => exact h
  | fanning tenantId docId updateId j => exact hkeep h
  | resending tenantId docId j => exact hkeep h

theorem Inv.setMembers (hi : Inv s) {i : ℕ} {set : Subscribers} {members : List ℕ}
    (hset : s.subscribers i = some set) (hm : ∀ ws ∈ members, OfTenant s ws set.key.1) :
    Inv { s with
      subscribers :=
        Function.update s.subscribers i (some { set with members := members }) } := by
  refine ⟨hi.sockets, hi.received, hi.pending, fun n task h => (hi.tasks n task h).setMembers hset,
    fun key j h => ?_, fun j set' h => ?_, hi.agent⟩
  · obtain ⟨set', hset', hkey⟩ := hi.docs key j h
    by_cases hj : j = i
    · subst hj
      cases hset.symm.trans hset'
      exact ⟨_, Function.update_self _ _ _, hkey⟩
    · exact ⟨set', (Function.update_of_ne hj _ _).trans hset', hkey⟩
  · rcases of_update_some h with ⟨rfl, rfl⟩ | ⟨-, h⟩
    · exact ⟨(hi.subscribers j set hset).1, hm⟩
    · exact hi.subscribers j set' h

theorem Inv.found (hi : Inv s) {key : ℕ × ℕ} {i : ℕ} {set : Subscribers}
    (h : ((s.subscribersByDoc key).bind fun i => (s.subscribers i).map (i, ·)) = some (i, set)) :
    s.subscribers i = some set ∧ set.key = key := by
  obtain ⟨j, hj, h⟩ := Option.bind_eq_some_iff.mp h
  obtain ⟨set', hset', heq⟩ := Option.map_eq_some_iff.mp h
  cases heq
  obtain ⟨set'', hset'', hkey⟩ := hi.docs key i hj
  cases hset'.symm.trans hset''
  exact ⟨hset', hkey⟩

theorem Inv.subscribe (hi : Inv s) {ws tenantId docId : ℕ} (hws : OfTenant s ws tenantId) :
    Inv (s.subscribe ws tenantId docId) := by
  unfold Sys.subscribe
  simp only []
  split
  · rename_i i set hfound
    obtain ⟨hset, hkey⟩ := hi.found hfound
    have hmembers : ∀ ws' ∈ set.members.insert ws, OfTenant s ws' set.key.1 := by
      intro ws' h
      rcases List.mem_insert_iff.mp h with rfl | h
      · rw [hkey]
        exact hws
      · exact (hi.subscribers i set hset).2 ws' h
    exact (hi.setMembers hset hmembers).congr rfl rfl rfl rfl rfl rfl rfl rfl rfl hi.agent
  · have hnew : ∀ {j set'}, s.subscribers j = some set' →
        Function.update s.subscribers s.subscribersSeq
          (some ⟨(tenantId, docId), [ws]⟩) j = some set' := fun {j set'} h =>
      (Function.update_of_ne (hi.subscribers j set' h).1.ne _ _).trans h
    refine ⟨hi.sockets, hi.received, hi.pending, fun n task h => ?_, fun key j h => ?_,
      fun j set' h => ?_, hi.agent⟩
    · have hok := hi.tasks n task h
      cases task with
      | forwardNotification tenantId userId notificationId => trivial
      | opening ws tenantId docId => exact hok
      | greeting ws tenantId docId => exact hok
      | diffing ws tenantId docId => exact hok
      | fanning tenantId docId updateId i =>
        obtain ⟨set', hset', hkey⟩ := hok
        exact ⟨set', hnew hset', hkey⟩
      | resending tenantId docId i =>
        obtain ⟨set', hset', hkey⟩ := hok
        exact ⟨set', hnew hset', hkey⟩
    · rcases of_update_some h with ⟨rfl, rfl⟩ | ⟨-, h⟩
      · exact ⟨_, Function.update_self _ _ _, rfl⟩
      · obtain ⟨set', hset', hkey⟩ :=
          hi.docs key j h
        exact ⟨set', hnew hset', hkey⟩
    · rcases of_update_some h with ⟨rfl, rfl⟩ | ⟨-, h⟩
      · refine ⟨Nat.lt_succ_self _, fun ws' hm => ?_⟩
        rw [List.mem_singleton.mp hm]
        exact hws
      · obtain ⟨hlt, hm⟩ := hi.subscribers j set' h
        exact ⟨Nat.lt_succ_of_lt hlt, hm⟩

theorem subscribe_sockets (s : Sys) (ws tenantId docId : ℕ) :
    (s.subscribe ws tenantId docId).sockets = s.sockets := by
  unfold Sys.subscribe
  simp only []
  split <;> rfl

theorem Inv.forgetDoc (hi : Inv s) (key : ℕ × ℕ) :
    Inv { s with subscribersByDoc := Function.update s.subscribersByDoc key none } := by
  refine ⟨hi.sockets, hi.received, hi.pending, hi.tasks, fun key' j h => ?_, hi.subscribers,
    hi.agent⟩
  obtain ⟨-, h⟩ := of_update_none h
  exact hi.docs key' j h

theorem Inv.setOpenDocs (hi : Inv s) (ws : ℕ) (docs : List ℕ) :
    Inv { s with openDocsByClient := Function.update s.openDocsByClient ws docs } :=
  hi.congr rfl rfl rfl rfl rfl rfl rfl rfl rfl hi.agent

theorem Inv.unsubscribe (hi : Inv s) (ws docId : ℕ) : Inv (s.unsubscribe ws docId) := by
  unfold Sys.unsubscribe
  simp only []
  split
  · exact hi.setOpenDocs _ _
  · split
    · exact hi.setOpenDocs _ _
    · rename_i i set hfound
      obtain ⟨hset, hkey⟩ := hi.found hfound
      have hmembers : Inv { s with
          subscribers := Function.update s.subscribers i
            (some { set with members := set.members.filter (· ≠ ws) }) } :=
        hi.setMembers hset fun ws' h => (hi.subscribers i set hset).2 ws' (List.mem_of_mem_filter h)
      split_ifs
      · exact (hmembers.forgetDoc _).setOpenDocs _ _
      · exact hmembers.setOpenDocs _ _

theorem Inv.handleOpen (hi : Inv s) {ws tenantId docId : ℕ} (hws : OfTenant s ws tenantId) :
    Inv (s.handleOpen ws tenantId docId) := by
  unfold Sys.handleOpen
  split_ifs
  · exact hi.setTask hws
  · exact hi
  · exact (hi.setOpenDocs _ _).setTask hws

theorem Inv.handleSocketClosed (hi : Inv s) (ws : ℕ) : Inv (s.handleSocketClosed ws) := by
  have hfold : ∀ (docs : List ℕ) (s' : Sys), Inv s' →
      Inv (docs.foldl (fun s docId => s.unsubscribe ws docId) s') := by
    intro docs
    induction docs with
    | nil => exact fun s' h => h
    | cons docId docs ih => exact fun s' h => ih _ (h.unsubscribe ws docId)
  exact (hfold _ _ hi).setOpenDocs _ _

theorem Inv.handleBinaryFrame (hi : Inv s) {ws tenantId docId : ℕ}
    (hws : OfTenant s ws tenantId) : Inv (s.handleBinaryFrame ws tenantId docId) := by
  unfold Sys.handleBinaryFrame
  split_ifs
  · exact hi.setTask hws
  · exact hi

theorem Inv.fanOutDocUpdate (hi : Inv s) (tenantId docId updateId : ℕ) :
    Inv (s.fanOutDocUpdate tenantId docId updateId) := by
  unfold Sys.fanOutDocUpdate
  split
  · rename_i i hdoc
    split_ifs
    · exact hi
    · obtain ⟨set, hset, hkey⟩ := hi.docs _ i hdoc
      exact hi.setTask ⟨set, hset, congrArg Prod.fst hkey⟩
  · exact hi

theorem Inv.members (hi : Inv s) {i tenantId : ℕ}
    (hset : ∃ set, s.subscribers i = some set ∧ set.key.1 = tenantId) :
    ∀ ws ∈ s.membersOf i, OfTenant s ws tenantId := by
  obtain ⟨set, hset, hkey⟩ := hset
  intro ws hws
  unfold Sys.membersOf at hws
  rw [hset] at hws
  exact hkey ▸ (hi.subscribers i set hset).2 ws hws

theorem belongs_loadYDoc {db : Db} {tenantId docId : ℕ} :
    (Frame.doc docId (db.loadYDoc tenantId docId)).Belongs tenantId := by
  intro row hrow
  have hmem := (List.mem_filter.mp hrow).2
  simp only [decide_eq_true_eq] at hmem
  exact hmem.1

theorem Inv.runTask (hi : Inv s) {n : ℕ} {task : Task} (ht : s.tasks n = some task) :
    Inv (s.runTask n task) := by
  have hok := hi.tasks n task ht
  have hdrop : Inv (s.dropTask n) := hi.dropTask n
  cases task with
  | forwardNotification tenantId userId notificationId =>
    simp only [Sys.runTask]
    split
    · rename_i row hrow
      split_ifs
      · have hb : row.tenantId = tenantId := by
          have hf := (Option.filter_eq_some_iff.mp hrow).2
          exact of_decide_eq_true hf
        have hbelongs : (Frame.notification row).Belongs tenantId := hb
        exact hdrop.sendAll hbelongs fun ws hws => ofTenant_of_mem hws
      · exact hdrop
    · exact hdrop
  | opening ws tenantId docId =>
    simp only [Sys.runTask]
    split_ifs
    · refine (hi.subscribe hok).replaceTask ?_
      obtain ⟨sock, hsock, hid⟩ := hok
      exact ⟨sock, (congrFun (subscribe_sockets s ws tenantId docId) ws).trans hsock, hid⟩
    · exact (hi.setOpenDocs _ _).dropTask n
  | greeting ws tenantId docId => exact hdrop.send hok belongs_loadYDoc
  | diffing ws tenantId docId => exact hdrop.send hok belongs_loadYDoc
  | fanning tenantId docId updateId i =>
    simp only [Sys.runTask]
    split
    · rename_i row hrow
      have hb : row.tenantId = tenantId := by
        have hf := List.find?_some hrow
        simp only [decide_eq_true_eq] at hf
        exact hf.1
      refine hdrop.sendAll (t := tenantId) ?_ (hi.members hok)
      intro row' hrow'
      rw [List.mem_singleton.mp hrow']
      exact hb
    · exact hi.replaceTask hok
  | resending tenantId docId i => exact hdrop.sendAll belongs_loadYDoc (hi.members hok)

/-! ## The steps -/

theorem Inv.closeWhere (hi : Inv s) (which : SyncIdentity → Bool) : Inv (s.closeWhere which) := by
  refine hi.setSockets (fun ws sock h => ?_) fun ws sock h => ?_
  · obtain ⟨sock', hsock', rfl⟩ := Option.map_eq_some_iff.mp h
    obtain ⟨hlt, hat⟩ := hi.sockets ws sock' hsock'
    refine ⟨hlt, fun hopen => ?_⟩
    by_cases hc : which sock'.identity = true ∧ sock'.readyState = .OPEN
    · rw [if_pos hc] at hopen
      cases hopen
    · rw [if_neg hc] at hopen ⊢
      exact hat hopen
  · refine ⟨_, Option.map_eq_some_iff.mpr ⟨sock, h, rfl⟩, ?_⟩
    split_ifs <;> rfl

theorem Inv.onNotification (hi : Inv s) {drained : List ℕ} {tenantId : ℕ}
    {message : RealtimeMessage} : Inv (s.onNotification drained tenantId message) := by
  cases message with
  | sessionRevoked sessionId =>
    exact hi.closeWhere fun i => i.sessionId = sessionId ∧ i.tenantId = tenantId
  | invalidation frame userId => exact hi.invalidation fun ws hws => ofTenant_of_mem hws
  | notificationCreated userId notificationId => exact hi.setTask trivial
  | notificationReadState userId notificationIds =>
    have hfold : ∀ (ids : List ℕ) (s' : Sys), Inv s' → Inv (ids.foldl
        (fun s id => s.setTask (.forwardNotification tenantId userId id)) s') := by
      intro ids
      induction ids with
      | nil => exact fun s' h => h
      | cons id ids ih => exact fun s' h => ih _ (h.setTask trivial)
    exact hfold _ _ hi
  | agentRunEvent agentRunId eventId =>
    exact hi.congr rfl rfl rfl rfl rfl rfl rfl rfl rfl (hi.agent.congr rfl rfl rfl rfl rfl)
  | docUpdate docId updateId => exact hi.fanOutDocUpdate _ _ _

theorem Inv.attachClient (hi : Inv s) (u closesBefore : ℕ) (identity : SyncIdentity) :
    Inv (s.attachClient u closesBefore identity) := by
  refine hi.setSockets (fun ws sock h => ?_) fun ws sock h => ?_
  · rcases of_update_some h with ⟨rfl, rfl⟩ | ⟨-, h⟩
    · exact ⟨Nat.lt_succ_self _, fun _ => rfl⟩
    · obtain ⟨hlt, hat⟩ := hi.sockets ws sock h
      exact ⟨Nat.lt_succ_of_lt hlt, hat⟩
  · exact ⟨sock, (Function.update_of_ne (hi.sockets ws sock h).1.ne _ _).trans h, rfl⟩

theorem Inv.setReadyState (hi : Inv s) {ws : ℕ} {sock : Socket} (hs : s.sockets ws = some sock)
    (readyState : ReadyState) (hr : readyState ≠ .OPEN) :
    Inv { s with
      sockets :=
        Function.update s.sockets ws (some { sock with readyState := readyState }) } := by
  refine hi.setSockets (fun ws' sock' h => ?_) fun ws' sock' h => ?_
  · rcases of_update_some h with ⟨rfl, rfl⟩ | ⟨-, h⟩
    · exact ⟨(hi.sockets ws' sock hs).1, fun hopen => absurd hopen hr⟩
    · exact hi.sockets ws' sock' h
  · by_cases hws : ws' = ws
    · subst hws
      cases hs.symm.trans h
      exact ⟨_, Function.update_self _ _ _, rfl⟩
    · exact ⟨sock', (Function.update_of_ne hws _ _).trans h, rfl⟩

theorem inv_fromClient {ws : ℕ} {f : SyncIdentity → Sys}
    (hf : ∀ identity, OfTenant s ws identity.tenantId → Inv (f identity))
    (h : s.fromClient ws f = some s') : Inv s' := by
  obtain ⟨sock, hsock, h⟩ := Option.bind_eq_some_iff.mp h
  split_ifs at h
  cases h
  exact hf sock.identity ⟨sock, hsock, rfl⟩

theorem Inv.setAgent (hi : Inv s) {r : AgentRunWatch.Registry} (hr : r.Ok (OfTenant s)) :
    Inv { s with agentRunWatch := r } := hi.congr rfl rfl rfl rfl rfl rfl rfl rfl rfl hr

theorem deltaSockets_of {P : ℕ → ℕ → Prop} {r : AgentRunWatch.Registry} (hr : r.Ok P)
    {tenantId runId ws : ℕ} (h : ws ∈ r.deltaSockets tenantId runId) : P ws tenantId := by
  obtain ⟨w, hw, hws⟩ := List.mem_filterMap.mp h
  obtain ⟨watcher, hwatcher, ht⟩ := AgentRunWatch.Registry.hasWatcher_of_live hw
  rw [hwatcher] at hws
  cases hws
  exact ht ▸ (hr.watchers w watcher hwatcher).2

theorem Inv.preserved (hi : Inv s) {a : Act} (h : step s a = some s') : Inv s' := by
  cases a with
  | upgrade =>
    cases h
    exact hi.congr rfl rfl rfl rfl rfl rfl rfl rfl rfl hi.agent
  | authenticated u identity =>
    obtain ⟨closesBefore, -, rfl⟩ := Option.map_eq_some_iff.mp h
    have hu : Inv { s with upgrades := Function.update s.upgrades u none } :=
      hi.congr rfl rfl rfl rfl rfl rfl rfl rfl rfl hi.agent
    cases identity with
    | none => exact hu
    | some identity =>
      simp only []
      split_ifs
      · exact hu
      · exact hu.attachClient u closesBefore identity
  | closeTenant tenantId | close =>
    cases h
    refine Inv.closeWhere ?_ _
    exact hi.congr rfl rfl rfl rfl rfl rfl rfl rfl rfl hi.agent
  | listenError =>
    simp only [step] at h
    split_ifs at h
    cases h
    refine Inv.closeWhere ?_ _
    exact hi.congr rfl rfl rfl rfl rfl rfl rfl rfl rfl hi.agent
  | listenRestored =>
    simp only [step] at h
    split_ifs at h
    cases h
    have hnone : ∀ ws sock, s.closeAll.sockets ws = some sock → sock.readyState ≠ .OPEN := by
      intro ws sock hsock
      obtain ⟨sock', -, rfl⟩ := Option.map_eq_some_iff.mp hsock
      split_ifs with hc
      · exact nofun
      · exact fun hopen => hc ⟨rfl, hopen⟩
    have hclosed : Inv { s.closeAll with established := s.established + 1 } :=
      (hi.closeWhere _).setSockets (fun ws sock hsock =>
        ⟨((hi.closeWhere fun _ => true).sockets ws sock hsock).1,
          fun hopen => absurd hopen (hnone ws sock hsock)⟩) fun ws sock hsock => ⟨sock, hsock, rfl⟩
    exact hclosed.congr rfl rfl rfl rfl rfl rfl rfl rfl rfl hclosed.agent
  | drop ws =>
    obtain ⟨sock, hsock, rfl⟩ := Option.map_eq_some_iff.mp h
    refine hi.setReadyState hsock _ ?_
    split_ifs with hopen
    · exact nofun
    · exact hopen
  | socketClosed ws =>
    obtain ⟨sock, hsock, h⟩ := Option.bind_eq_some_iff.mp h
    split_ifs at h
    cases h
    have hclosed := hi.setReadyState hsock .CLOSED nofun
    refine Inv.handleSocketClosed ?_ ws
    exact (hclosed.setPending fun t f h => by cases h).setAgent
      (hclosed.agent.congr rfl rfl rfl rfl rfl)
  | database db =>
    cases h
    exact hi.congr rfl rfl rfl rfl rfl rfl rfl rfl rfl hi.agent
  | notify drained tenantId message =>
    simp only [step] at h
    split_ifs at h
    cases h
    exact hi.onNotification
  | notifyDelta tenantId agentRunId delta =>
    simp only [step] at h
    split_ifs at h
    cases h
    have hb : (Frame.agentDelta tenantId agentRunId delta).Belongs tenantId := rfl
    exact hi.sendAll hb fun ws hws => deltaSockets_of hi.agent hws
  | flush ws =>
    simp only [step] at h
    split_ifs at h
    cases h
    exact hi.flush ws
  | docOpen ws docId => exact inv_fromClient (fun _ hws => hi.handleOpen hws) h
  | docClose ws docId => exact inv_fromClient (fun _ _ => hi.unsubscribe ws docId) h
  | binaryFrame ws docId => exact inv_fromClient (fun _ hws => hi.handleBinaryFrame hws) h
  | task n =>
    obtain ⟨task, htask, rfl⟩ := Option.map_eq_some_iff.mp h
    exact hi.runTask htask
  | taskFails n =>
    obtain ⟨_, _, rfl⟩ := Option.map_eq_some_iff.mp h
    exact hi.dropTask n
  | agentWatch ws runId afterEventId =>
    exact inv_fromClient (fun _ hws => hi.setAgent (hi.agent.watch hws)) h
  | agentUnwatch ws runId =>
    exact inv_fromClient (fun _ _ => hi.setAgent (hi.agent.unwatch ws runId)) h
  | watchAnswered c =>
    obtain ⟨call, hcall, rfl⟩ := Option.map_eq_some_iff.mp h
    exact hi.setAgent (hi.agent.answered hcall)
  | watchFails c =>
    obtain ⟨call, hcall, rfl⟩ := Option.map_eq_some_iff.mp h
    exact hi.setAgent (hi.agent.readFails c call)
  | forwardEvent runId =>
    obtain ⟨r, hr, rfl⟩ := Option.map_eq_some_iff.mp h
    exact hi.setAgent (hi.agent.forwardEvent hr)
  | forwarded runId =>
    obtain ⟨r, hr, rfl⟩ := Option.map_eq_some_iff.mp h
    exact hi.setAgent (hi.agent.forwarded hr)
  | forwardFails runId =>
    obtain ⟨r, hr, rfl⟩ := Option.map_eq_some_iff.mp h
    exact hi.setAgent (hi.agent.forwardFails hr)

/-! ## Closing a tenant -/

def Sys.core (s : Sys) := (s.upgrades, s.upgradeSeq, s.sockets, s.tenantCloseCount,
  s.lastTenantClose)

theorem foldl_core {β : Type} {f : Sys → β → Sys} (hf : ∀ s b, (f s b).core = s.core) :
    ∀ (bs : List β) (s : Sys), (bs.foldl f s).core = s.core
  | [], _ => rfl
  | b :: bs, s => (foldl_core hf bs (f s b)).trans (hf s b)

theorem send_core (s : Sys) (ws : ℕ) (frame : Frame) : (s.send ws frame).core = s.core := by
  unfold Sys.send
  split_ifs <;> rfl

theorem sendAll_core (s : Sys) (ws : List ℕ) (frame : Frame) :
    (s.sendAll ws frame).core = s.core := foldl_core (fun s w => send_core s w frame) ws s

theorem deliverInvalidate_core (s : Sys) (drained : List ℕ) (tenantId : ℕ)
    (frame : SyncClient.InvalidateFrame) (ws : ℕ) :
    (s.deliverInvalidate drained tenantId frame ws).core = s.core := by
  unfold Sys.deliverInvalidate
  split
  · exact send_core _ _ _
  · split_ifs
    · exact send_core _ _ _
    · rfl

theorem subscribe_core (s : Sys) (ws tenantId docId : ℕ) :
    (s.subscribe ws tenantId docId).core = s.core := by
  unfold Sys.subscribe
  simp only []
  split <;> rfl

theorem unsubscribe_core (s : Sys) (ws docId : ℕ) : (s.unsubscribe ws docId).core = s.core := by
  unfold Sys.unsubscribe
  simp only []
  split
  · rfl
  · split <;> rfl

theorem handleOpen_core (s : Sys) (ws tenantId docId : ℕ) :
    (s.handleOpen ws tenantId docId).core = s.core := by
  unfold Sys.handleOpen
  split_ifs <;> rfl

theorem handleSocketClosed_core (s : Sys) (ws : ℕ) : (s.handleSocketClosed ws).core = s.core :=
  foldl_core (fun s docId => unsubscribe_core s ws docId) (s.openDocsByClient ws) s

theorem handleBinaryFrame_core (s : Sys) (ws tenantId docId : ℕ) :
    (s.handleBinaryFrame ws tenantId docId).core = s.core := by
  unfold Sys.handleBinaryFrame
  split_ifs <;> rfl

theorem runTask_core (s : Sys) (n : ℕ) (task : Task) : (s.runTask n task).core = s.core := by
  cases task with
  | forwardNotification tenantId userId notificationId =>
    simp only [Sys.runTask]
    split
    · split_ifs
      · exact sendAll_core _ _ _
      · rfl
    · rfl
  | opening ws tenantId docId =>
    simp only [Sys.runTask]
    split_ifs
    · exact subscribe_core s ws tenantId docId
    · rfl
  | greeting ws tenantId docId => exact send_core _ _ _
  | diffing ws tenantId docId => exact send_core _ _ _
  | fanning tenantId docId updateId i =>
    simp only [Sys.runTask]
    split
    · exact sendAll_core _ _ _
    · rfl
  | resending tenantId docId i => exact sendAll_core _ _ _

inductive CoreStep (s s' : Sys) : Act → Prop where
  | same {a : Act} : s'.core = s.core → CoreStep s s' a
  | closed {a : Act} (which : SyncIdentity → Bool) : s'.core = (s.closeWhere which).core →
      CoreStep s s' a
  | moved {a : Act} (ws : ℕ) (sock : Socket) (readyState : ReadyState) : readyState ≠ .OPEN →
      s'.core = Sys.core { s with
        sockets := Function.update s.sockets ws (some { sock with readyState := readyState }) } →
      CoreStep s s' a
  | upgrade : s' = s.handleUpgrade → CoreStep s s' .upgrade
  | authenticated {v closesBefore : ℕ} {identity : Option SyncIdentity} :
      s.upgrades v = some closesBefore →
      CoreStep s s' (.authenticated v identity)
  | closeTenant {t : ℕ} : s' = s.closeTenant t → CoreStep s s' (.closeTenant t)

theorem fromClient_core {ws : ℕ} {f : SyncIdentity → Sys} (hs : s.fromClient ws f = some s')
    (hf : ∀ i, (f i).core = s.core) : s'.core = s.core := by
  obtain ⟨sock, -, hs⟩ := Option.bind_eq_some_iff.mp hs
  split_ifs at hs
  cases hs
  exact hf _

theorem step_core {a : Act} (hs : step s a = some s') : CoreStep s s' a := by
  cases a with
  | upgrade =>
    cases hs
    exact .upgrade rfl
  | authenticated v identity =>
    obtain ⟨closesBefore, hv, -⟩ := Option.map_eq_some_iff.mp hs
    exact .authenticated hv
  | closeTenant t =>
    cases hs
    exact .closeTenant rfl
  | close =>
    cases hs
    exact .closed (fun _ => true) rfl
  | listenError | listenRestored =>
    simp only [step] at hs
    split_ifs at hs
    cases hs
    exact .closed (fun _ => true) rfl
  | drop ws =>
    obtain ⟨sock, -, rfl⟩ := Option.map_eq_some_iff.mp hs
    refine .moved ws sock _ ?_ rfl
    split_ifs with hopen
    · exact nofun
    · exact hopen
  | socketClosed ws =>
    obtain ⟨sock, -, hs⟩ := Option.bind_eq_some_iff.mp hs
    split_ifs at hs
    cases hs
    exact .moved ws sock .CLOSED nofun (handleSocketClosed_core _ ws)
  | notify drained t message =>
    simp only [step] at hs
    split_ifs at hs
    cases hs
    cases message with
    | sessionRevoked sessionId =>
      exact .closed (fun i => i.sessionId = sessionId ∧ i.tenantId = t) rfl
    | invalidation frame userId =>
      exact .same (foldl_core (fun s w => deliverInvalidate_core s drained t frame w) _ s)
    | notificationCreated userId notificationId => exact .same rfl
    | notificationReadState userId notificationIds =>
      have hfold := foldl_core (f := fun s id => s.setTask (.forwardNotification t userId id))
        (fun _ _ => rfl) notificationIds s
      exact .same hfold
    | agentRunEvent agentRunId eventId => exact .same rfl
    | docUpdate docId updateId =>
      refine .same ?_
      simp only [Sys.onNotification, Sys.fanOutDocUpdate]
      split
      · split_ifs <;> rfl
      · rfl
  | notifyDelta t agentRunId delta =>
    simp only [step] at hs
    split_ifs at hs
    cases hs
    exact .same (sendAll_core _ _ _)
  | flush ws =>
    simp only [step] at hs
    split_ifs at hs
    cases hs
    exact .same (foldl_core (fun _ _ => send_core _ _ _) _ _)
  | docOpen ws docId =>
    simp only [step] at hs
    exact .same (fromClient_core hs fun _ => handleOpen_core s ws _ docId)
  | docClose ws docId =>
    simp only [step] at hs
    exact .same (fromClient_core hs fun _ => unsubscribe_core s ws docId)
  | binaryFrame ws docId =>
    simp only [step] at hs
    exact .same (fromClient_core hs fun _ => handleBinaryFrame_core s ws _ docId)
  | task n =>
    obtain ⟨task, -, rfl⟩ := Option.map_eq_some_iff.mp hs
    exact .same (runTask_core s n task)
  | agentWatch ws runId afterEventId =>
    simp only [step] at hs
    exact .same (fromClient_core hs fun _ => rfl)
  | agentUnwatch ws runId =>
    simp only [step] at hs
    exact .same (fromClient_core hs fun _ => rfl)
  | database db =>
    cases hs
    exact .same rfl
  | taskFails n | watchAnswered n | watchFails n | forwardEvent n | forwarded n | forwardFails n =>
    obtain ⟨_, -, rfl⟩ := Option.map_eq_some_iff.mp hs
    exact .same rfl

/-- The upgrade has been taken out of those that authenticate. -/
def Sys.dequeue (s : Sys) (v : ℕ) : Sys :=
  { s with upgrades := Function.update s.upgrades v none }

theorem upgrades_dequeue {v w closesBefore : ℕ} (h : (s.dequeue v).upgrades w = some closesBefore) :
    s.upgrades w = some closesBefore := by
  obtain ⟨-, h⟩ := of_update_none h
  exact h

def Counted (s : Sys) : Prop :=
  ∀ v closesBefore, s.upgrades v = some closesBefore → closesBefore ≤ s.tenantCloseCount

theorem Counted.congr (h : Counted s) (hc : s'.core = s.core) : Counted s' := by
  simp only [Sys.core, Prod.mk.injEq] at hc
  unfold Counted
  rw [hc.1, hc.2.2.2.1]
  exact h

theorem Counted.preserved (h : Counted s) {a : Act} (hs : step s a = some s') : Counted s' := by
  cases step_core hs with
  | same hc => exact h.congr hc
  | closed which hc =>
    have hw : Counted (s.closeWhere which) := h
    exact hw.congr hc
  | moved ws sock readyState _ hc =>
    have hw : Counted { s with
        sockets := Function.update s.sockets ws (some { sock with readyState := readyState }) } := h
    exact hw.congr hc
  | upgrade heq =>
    subst heq
    intro v cb hv
    rcases of_update_some hv with ⟨rfl, rfl⟩ | ⟨-, hv⟩
    · exact le_rfl
    · exact h v cb hv
  | @authenticated v _ identity _ =>
    obtain ⟨closesBefore, -, rfl⟩ := Option.map_eq_some_iff.mp hs
    have hd : Counted (s.dequeue v) := fun w cb hw => h w cb (upgrades_dequeue hw)
    cases identity with
    | none => exact hd
    | some identity =>
      simp only []
      split_ifs <;> exact hd
  | closeTenant heq =>
    subst heq
    exact fun v cb hv => Nat.le_succ_of_le (h v cb hv)

/-- After a close of the tenant, when there had been `u` upgrades and `c` closes: none of those
upgrades has an open socket of the tenant, and one that is still authenticating gets none. -/
structure Shut (tenantId u c : ℕ) (s : Sys) : Prop where
  upgradeSeq : u ≤ s.upgradeSeq
  count : c < s.tenantCloseCount
  last : c < s.lastTenantClose tenantId
  upgrades : ∀ v closesBefore, s.upgrades v = some closesBefore → v < u → closesBefore ≤ c
  sockets : ∀ ws sock, s.sockets ws = some sock → sock.identity.tenantId = tenantId →
    sock.upgrade < u → sock.readyState ≠ .OPEN

variable {tenantId u c : ℕ}

theorem Shut.congr (h : Shut tenantId u c s) (hc : s'.core = s.core) : Shut tenantId u c s' := by
  simp only [Sys.core, Prod.mk.injEq] at hc
  obtain ⟨h₁, h₂, h₃, h₄, h₅⟩ := hc
  refine ⟨by rw [h₂]; exact h.upgradeSeq, by rw [h₄]; exact h.count, by rw [h₅]; exact h.last, ?_,
    ?_⟩
  · rw [h₁]
    exact h.upgrades
  · rw [h₃]
    exact h.sockets

theorem Shut.closeWhere (h : Shut tenantId u c s) (which : SyncIdentity → Bool) :
    Shut tenantId u c (s.closeWhere which) := by
  refine ⟨h.upgradeSeq, h.count, h.last, h.upgrades, fun ws sock hs => ?_⟩
  obtain ⟨sock', hsock', rfl⟩ := Option.map_eq_some_iff.mp hs
  split_ifs
  · exact fun _ _ => nofun
  · exact h.sockets ws sock' hsock'

theorem Shut.setReadyState (h : Shut tenantId u c s) {ws : ℕ} {sock : Socket}
    {readyState : ReadyState} (hr : readyState ≠ .OPEN) :
    Shut tenantId u c { s with
      sockets :=
        Function.update s.sockets ws (some { sock with readyState := readyState }) } := by
  refine ⟨h.upgradeSeq, h.count, h.last, h.upgrades, fun ws' sock' hs => ?_⟩
  rcases of_update_some hs with ⟨rfl, rfl⟩ | ⟨-, hs⟩
  · exact fun _ _ => hr
  · exact h.sockets ws' sock' hs

theorem Shut.authenticated (h : Shut tenantId u c s) {v : ℕ} {identity : Option SyncIdentity}
    (hs : step s (.authenticated v identity) = some s') : Shut tenantId u c s' := by
  obtain ⟨closesBefore, hv, rfl⟩ := Option.map_eq_some_iff.mp hs
  have hu : Shut tenantId u c (s.dequeue v) :=
    ⟨h.upgradeSeq, h.count, h.last, fun w cb hw => h.upgrades w cb (upgrades_dequeue hw), h.sockets⟩
  cases identity with
  | none => exact hu
  | some identity =>
    simp only []
    split_ifs
    · exact hu
    · refine ⟨hu.upgradeSeq, hu.count, hu.last, hu.upgrades, fun ws sock hs => ?_⟩
      rcases of_update_some hs with ⟨rfl, rfl⟩ | ⟨-, hs⟩
      · rintro rfl hlt
        have hle := h.upgrades v closesBefore hv hlt
        rw [if_pos (lt_of_le_of_lt hle h.last)]
        exact nofun
      · exact h.sockets ws sock hs

theorem Shut.closeTenant (h : Shut tenantId u c s) (t : ℕ) :
    Shut tenantId u c (s.closeTenant t) := by
  have hset : Shut tenantId u c { s with
      tenantCloseCount := s.tenantCloseCount + 1
      lastTenantClose := Function.update s.lastTenantClose t (s.tenantCloseCount + 1) } := by
    refine ⟨h.upgradeSeq, Nat.lt_succ_of_lt h.count, ?_, h.upgrades, h.sockets⟩
    by_cases ht : tenantId = t
    · subst ht
      simp only [Function.update_self]
      exact Nat.lt_succ_of_lt h.count
    · simp only [Function.update_of_ne ht]
      exact h.last
  exact hset.closeWhere _

theorem Shut.preserved (h : Shut tenantId u c s) {a : Act} (hs : step s a = some s') :
    Shut tenantId u c s' := by
  cases step_core hs with
  | same hc => exact h.congr hc
  | closed which hc => exact (h.closeWhere which).congr hc
  | moved ws sock readyState hr hc => exact (h.setReadyState hr).congr hc
  | upgrade heq =>
    subst heq
    refine ⟨Nat.le_succ_of_le h.upgradeSeq, h.count, h.last, fun v cb hv hlt => ?_, h.sockets⟩
    have hne : v ≠ s.upgradeSeq := (hlt.trans_le h.upgradeSeq).ne
    exact h.upgrades v cb ((Function.update_of_ne hne _ _).symm.trans hv) hlt
  | authenticated _ => exact h.authenticated hs
  | closeTenant heq =>
    subst heq
    exact h.closeTenant _

theorem Counted.shut (h : Counted s) :
    Shut tenantId s.upgradeSeq s.tenantCloseCount (s.closeTenant tenantId) where
  upgradeSeq := le_rfl
  count := Nat.lt_succ_self _
  last := by
    simp only [Sys.closeTenant, Sys.closeWhere, Function.update_self]
    exact Nat.lt_succ_self _
  upgrades := fun v cb hv _ => h v cb hv
  sockets := by
    intro ws sock hs ht _
    obtain ⟨sock', -, rfl⟩ := Option.map_eq_some_iff.mp hs
    split_ifs at ht ⊢ with hc
    · exact nofun
    · exact fun hopen => hc ⟨decide_eq_true ht, hopen⟩

/-! ## Every run -/

/-- Every frame a socket has been sent is of its tenant; once a close of a tenant has returned, no
socket of it is open whose upgrade began before; and an open socket was attached after the last
time the listener was established. -/
structure Isolated (db : Db) (s : Sys) : Prop where
  frames : ∀ ws frame, (ws, frame) ∈ s.frames →
    ∃ sock, s.sockets ws = some sock ∧ frame.Belongs sock.identity.tenantId
  closed : ∀ s₁ s₂ tenantId, Reach step (fun _ _ => True) (Sys.init db) s₁ →
    step s₁ (.closeTenant tenantId) = some s₂ → Reach step (fun _ _ => True) s₂ s →
    ∀ ws sock, s.sockets ws = some sock → sock.identity.tenantId = tenantId →
      sock.upgrade < s₁.upgradeSeq → sock.readyState ≠ .OPEN
  resynchronised : ∀ ws sock, s.sockets ws = some sock → sock.readyState = .OPEN →
    sock.attachedAt = s.established

theorem isolated (db : Db) (s : Sys) (hs : Reach step (fun _ _ => True) (Sys.init db) s) :
    Isolated db s := by
  have hinv : Inv s := hs.invariant inv_init fun _ _ _ hi _ h => hi.preserved h
  refine ⟨fun ws frame h => ?_, fun s₁ s₂ t hs₁ hclose hs₂ => ?_, fun ws sock h =>
    (hinv.sockets ws sock h).2⟩
  · rcases List.mem_append.mp h with h | h
    · obtain ⟨t, ⟨sock, hsock, ht⟩, hb⟩ := hinv.received ws frame h
      exact ⟨sock, hsock, ht ▸ hb⟩
    · obtain ⟨⟨ws', event⟩, hmem, heq⟩ := List.mem_map.mp h
      cases heq
      obtain ⟨sock, hsock, ht⟩ := hinv.agent.sent ws event hmem
      exact ⟨sock, hsock, ht.symm⟩
  · have hcounted : Counted s₁ :=
      hs₁.invariant (fun _ _ h => by cases h) fun _ _ _ hi _ h => hi.preserved h
    cases hclose
    have hshut : Shut t s₁.upgradeSeq s₁.tenantCloseCount s :=
      hs₂.invariant hcounted.shut fun _ _ _ hi _ h => hi.preserved h
    exact hshut.sockets

/-- A document of tenant 1 with one update, and nothing else. -/
def oneDoc : Db where
  runs := fun _ => none
  events := []
  notifications := fun _ => none
  docs := fun docId => if docId = 7 then some 1 else none
  docRows := [⟨0, 1, 7⟩]

/-- Two sockets open the document, one of its tenant and one of another, while a third upgrade of
its tenant is authenticating; an update is fanned out, the tenant is closed, and the third upgrade
attaches. -/
def sharedDoc : List Act :=
  [.upgrade, .upgrade, .upgrade, .authenticated 0 (some ⟨1, 1, 1⟩),
    .authenticated 1 (some ⟨2, 2, 2⟩), .docOpen 0 7, .docOpen 1 7, .task 0, .task 1, .task 0,
    .notify [] 1 (.docUpdate 7 0), .task 2, .closeTenant 1, .authenticated 2 (some ⟨1, 1, 3⟩)]

theorem sharedDoc_end : (runActs step (Sys.init oneDoc) sharedDoc).map
    (fun s => (s.frames, (List.range 3).map fun ws => (s.sockets ws).map (·.readyState))) =
      some ([(0, .doc 7 [⟨0, 1, 7⟩]), (0, .doc 7 [⟨0, 1, 7⟩])],
        [some .CLOSING, some .OPEN, some .CLOSING]) := by
  decide +kernel

theorem isolated_sharedDoc : ∃ s, runActs step (Sys.init oneDoc) sharedDoc = some s ∧
    s.frames ≠ [] ∧ Isolated oneDoc s := by
  obtain ⟨s, hs, hend⟩ := Option.map_eq_some_iff.mp sharedDoc_end
  refine ⟨s, hs, ?_, isolated oneDoc s (.of_runActs hs)⟩
  rw [(Prod.mk.inj hend).1]
  exact List.cons_ne_nil _ _

end SyncServer

end Semprec
