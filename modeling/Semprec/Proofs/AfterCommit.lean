import Mathlib.Data.List.Nodup
import Mathlib.Order.Nat
import Semprec.AfterCommit

/-!
# The callbacks follow the commit

What the map has for a client whose transaction is open is what was registered in that transaction
(`Inv.held`).  So the callbacks that are called after a `COMMIT` are the transaction's own, and they
are due if it has committed.
-/

namespace Semprec

namespace AfterCommit

variable {s s' : Sys} {c t : ℕ} {client : Client} {call : Call}

def Sys.registeredIn (s : Sys) (tx : ℕ) : List Callback :=
  s.registered.filter fun callback => callback.tx = tx

structure Client.Ok (s : Sys) (client : Client) : Prop where
  free : client.call = none → client.afterCommit.getD [] = []
  below : ∀ call ∈ client.call, call.tx < s.nextTx
  fresh : ∀ call ∈ client.call, call.phase = .beginning → client.afterCommit.getD [] = []
  held : ∀ call ∈ client.call, call.phase ≠ .rollingBack →
    call.tx ∉ s.committed ∧ client.afterCommit.getD [] = s.registeredIn call.tx
  discarded : ∀ call ∈ client.call, call.phase = .rollingBack →
    client.afterCommit.getD [] = [] ∧ (call.tx ∈ s.committed → s.registeredIn call.tx = [])

structure Inv (s : Sys) : Prop where
  clients : ∀ c, (s.clients c).Ok s
  apart : ∀ c, ∀ call ∈ (s.clients c).call, ∀ c', ∀ call' ∈ (s.clients c').call,
    call.tx = call'.tx → c = c'
  ids : (s.registered.map Callback.id).Nodup
  below : ∀ callback ∈ s.registered, callback.id < s.nextCallback ∧ callback.tx < s.nextTx
  committed : ∀ tx ∈ s.committed, tx < s.nextTx
  once : s.ran.Nodup
  own : ∀ callback ∈ s.ran, callback ∈ s.registered ∧ callback.tx ∈ s.committed ∧
    ¬s.Pending callback.tx
  called : ∀ callback ∈ s.registered, callback.tx ∈ s.committed → ¬s.Pending callback.tx →
    callback ∈ s.ran

theorem Inv.exact (h : Inv s) : Exact s :=
  ⟨h.once, fun callback hran => ⟨(h.own callback hran).1, (h.own callback hran).2.1⟩, h.called⟩

theorem inv_init : Inv Sys.init := by
  refine ⟨fun _ => ⟨fun _ => rfl, nofun, nofun, nofun, nofun⟩, nofun, ?_, nofun, nofun, ?_, nofun, nofun⟩ <;>
    simp [Sys.init]

theorem mem_registeredIn {callback : Callback} :
    callback ∈ s.registeredIn t ↔ callback ∈ s.registered ∧ callback.tx = t := by
  simp [Sys.registeredIn]

/-! ## One client -/

theorem clients_setClient (s : Sys) (c : ℕ) (client : Client) (c' : ℕ) :
    (s.setClient c client).clients c' = if c' = c then client else s.clients c' :=
  Function.update_apply _ _ _ _

theorem pending_setClient : (s.setClient c client).Pending t ↔
    (∃ call ∈ client.call, call.tx = t) ∨ ∃ c', c' ≠ c ∧ ∃ call ∈ (s.clients c').call, call.tx = t := by
  simp only [Sys.Pending, clients_setClient]
  constructor
  · rintro ⟨c', call, hcall, htx⟩
    split_ifs at hcall with heq
    · exact .inl ⟨call, hcall, htx⟩
    · exact .inr ⟨c', heq, call, hcall, htx⟩
  · rintro (⟨call, hcall, htx⟩ | ⟨c', hne, call, hcall, htx⟩)
    · exact ⟨c, call, by rwa [if_pos rfl], htx⟩
    · exact ⟨c', call, by rwa [if_neg hne], htx⟩

theorem pending_goesOn {call' : Call} (hcall : (s.clients c).call = some call)
    (hcall' : client.call = some call') (htx : call'.tx = call.tx) :
    (s.setClient c client).Pending t ↔ s.Pending t := by
  rw [pending_setClient, hcall']
  constructor
  · rintro (⟨call'', hcall'', h⟩ | ⟨c', -, call'', hcall'', h⟩)
    · obtain rfl := Option.some.inj hcall''
      exact ⟨c, call, hcall, htx.symm.trans h⟩
    · exact ⟨c', call'', hcall'', h⟩
  · rintro ⟨c', call'', hcall'', h⟩
    by_cases heq : c' = c
    · subst heq
      obtain rfl := Option.some.inj (hcall.symm.trans hcall'')
      exact .inl ⟨call', rfl, htx.trans h⟩
    · exact .inr ⟨c', heq, call'', hcall'', h⟩

/-- The transaction of a client is over, and those of the others go on. -/
theorem Inv.pending_over (hi : Inv s) (hcall : (s.clients c).call = some call)
    (hover : client.call = none) : (s.setClient c client).Pending t ↔ s.Pending t ∧ t ≠ call.tx := by
  rw [pending_setClient, hover]
  constructor
  · rintro (⟨_, h, -⟩ | ⟨c', hne, call', hcall', rfl⟩)
    · exact nomatch h
    · exact ⟨⟨c', call', hcall', rfl⟩, fun h => hne (hi.apart c' call' hcall' c call hcall h)⟩
  · rintro ⟨⟨c', call', hcall', rfl⟩, hne⟩
    refine .inr ⟨c', fun heq => hne ?_, call', hcall', rfl⟩
    subst heq
    rw [Option.some.inj (hcall.symm.trans hcall')]

/-- What has been called is of no transaction that a call still has. -/
theorem Inv.notMem_ran (hi : Inv s) (hcall : (s.clients c).call = some call) {callback : Callback}
    (htx : callback.tx = call.tx) : callback ∉ s.ran := fun hran =>
  (hi.own callback hran).2.2 ⟨c, call, hcall, htx.symm⟩

theorem Inv.apart_setClient {call' : Call} (hi : Inv s) (hcall : (s.clients c).call = some call)
    (hcall' : client.call = some call') (htx : call'.tx = call.tx) :
    ∀ c₁, ∀ call₁ ∈ ((s.setClient c client).clients c₁).call, ∀ c₂,
      ∀ call₂ ∈ ((s.setClient c client).clients c₂).call, call₁.tx = call₂.tx → c₁ = c₂ := by
  have hold : ∀ c₁, ∀ call₁ ∈ ((s.setClient c client).clients c₁).call,
      ∃ call₀ ∈ (s.clients c₁).call, call₀.tx = call₁.tx := by
    intro c₁ call₁ hcall₁
    rw [clients_setClient] at hcall₁
    split_ifs at hcall₁ with heq
    · obtain rfl := Option.some.inj (hcall'.symm.trans hcall₁)
      exact heq ▸ ⟨call, hcall, htx.symm⟩
    · exact ⟨call₁, hcall₁, rfl⟩
  intro c₁ call₁ hcall₁ c₂ call₂ hcall₂ heq
  obtain ⟨call₃, hcall₃, htx₃⟩ := hold c₁ call₁ hcall₁
  obtain ⟨call₄, hcall₄, htx₄⟩ := hold c₂ call₂ hcall₂
  exact hi.apart c₁ call₃ hcall₃ c₂ call₄ hcall₄ (htx₃.trans (heq.trans htx₄.symm))

/-- A client whose transaction is not among those that have been committed since. -/
theorem Client.Ok.later {client : Client} (h : client.Ok s) (hnext : s.nextTx ≤ s'.nextTx)
    (hregistered : ∀ call ∈ client.call, s'.registeredIn call.tx = s.registeredIn call.tx)
    (hcommitted : ∀ call ∈ client.call, call.tx ∈ s'.committed → call.tx ∈ s.committed) :
    client.Ok s' := by
  refine ⟨h.free, fun call hcall => (h.below call hcall).trans_le hnext, h.fresh,
    fun call hcall hphase => ?_, fun call hcall hphase => ?_⟩
  · obtain ⟨hnot, hafter⟩ := h.held call hcall hphase
    exact ⟨fun hmem => hnot (hcommitted call hcall hmem), hafter.trans (hregistered call hcall).symm⟩
  · obtain ⟨hafter, hnone⟩ := h.discarded call hcall hphase
    exact ⟨hafter, fun hmem => (hregistered call hcall).trans (hnone (hcommitted call hcall hmem))⟩

theorem Inv.goesOn {call' : Call} (hi : Inv s) (hcall : (s.clients c).call = some call)
    (hcall' : client.call = some call') (htx : call'.tx = call.tx) (hok : client.Ok s) :
    Inv (s.setClient c client) := by
  refine ⟨fun c' => ?_, hi.apart_setClient hcall hcall' htx, hi.ids, hi.below, hi.committed, hi.once,
    fun callback hran => ?_, fun callback hregistered hcommitted hpending => ?_⟩
  · rw [clients_setClient]
    split_ifs
    · exact hok.later le_rfl (fun _ _ => rfl) fun _ _ => id
    · exact (hi.clients c').later le_rfl (fun _ _ => rfl) fun _ _ => id
  · obtain ⟨hregistered, hcommitted, hpending⟩ := hi.own callback hran
    exact ⟨hregistered, hcommitted, fun h => hpending ((pending_goesOn hcall hcall' htx).mp h)⟩
  · exact hi.called callback hregistered hcommitted fun h =>
      hpending ((pending_goesOn hcall hcall' htx).mpr h)

theorem Inv.commits {call' : Call} (hi : Inv s) (hcall : (s.clients c).call = some call)
    (hcall' : client.call = some call') (htx : call'.tx = call.tx) (hphase : call'.phase = .rollingBack)
    (hafter : client.afterCommit.getD [] = []) (hnone : s.registeredIn call.tx = []) :
    Inv { s.setClient c client with committed := s.committed ++ [call.tx] } := by
  have hbelow := (hi.clients c).below call hcall
  have hlater : ∀ tx ∈ s.committed ++ [call.tx], tx ≠ call.tx → tx ∈ s.committed := fun tx hmem hne =>
    (List.mem_append.mp hmem).elim id fun h => absurd (List.mem_singleton.mp h) hne
  refine ⟨fun c' => ?_, hi.apart_setClient hcall hcall' htx, hi.ids, hi.below, fun tx hmem => ?_, hi.once,
    fun callback hran => ?_, fun callback hregistered hcommitted hpending => ?_⟩
  · have hclients := clients_setClient s c client c'
    simp only at hclients ⊢
    rw [hclients]
    split_ifs with heq
    · refine ⟨fun h => (nomatch h.symm.trans hcall'), fun call₁ h => ?_, fun _ _ _ => hafter,
        fun call₁ h hnot => ?_, fun call₁ h _ => ⟨hafter, fun _ => ?_⟩⟩ <;> obtain rfl := Option.some.inj (hcall'.symm.trans h)
      · exact htx ▸ hbelow
      · exact absurd hphase hnot
      · exact htx ▸ hnone
    · have hne : ∀ call₁ ∈ (s.clients c').call, call₁.tx ≠ call.tx := fun call₁ h htx₁ =>
        heq (hi.apart c' call₁ h c call hcall htx₁)
      exact (hi.clients c').later le_rfl (fun _ _ => rfl) fun call₁ h hmem =>
        hlater _ hmem (hne call₁ h)
  · exact (List.mem_append.mp hmem).elim (hi.committed tx) fun h => List.mem_singleton.mp h ▸ hbelow
  · obtain ⟨hregistered, hcommitted, hpending⟩ := hi.own callback hran
    exact ⟨hregistered, List.mem_append_left _ hcommitted,
      fun h => hpending ((pending_goesOn hcall hcall' htx).mp h)⟩
  · have hpending' : ¬s.Pending callback.tx := fun h =>
      hpending ((pending_goesOn hcall hcall' htx).mpr h)
    have hne : callback.tx ≠ call.tx := fun h => hpending' ⟨c, call, hcall, h.symm⟩
    exact hi.called callback hregistered (hlater _ hcommitted hne) hpending'

theorem Inv.ends {txs : List ℕ} {callbacks : List Callback} (hi : Inv s)
    (hcall : (s.clients c).call = some call) (hover : client.call = none)
    (hafter : client.afterCommit.getD [] = []) (htxs : ∀ tx ∈ txs, tx = call.tx)
    (hnodup : callbacks.Nodup) (hcallbacks : ∀ callback ∈ callbacks,
      callback ∈ s.registeredIn call.tx ∧ call.tx ∈ s.committed ++ txs)
    (hdue : call.tx ∈ s.committed ++ txs → ∀ callback ∈ s.registeredIn call.tx, callback ∈ callbacks) :
    Inv { s.setClient c client with
      committed := s.committed ++ txs
      ran := s.ran ++ callbacks } := by
  have hpending : ∀ {t}, (s.setClient c client).Pending t ↔ s.Pending t ∧ t ≠ call.tx :=
    hi.pending_over hcall hover
  have hlater : ∀ tx ∈ s.committed ++ txs, tx ≠ call.tx → tx ∈ s.committed := fun tx hmem hne =>
    (List.mem_append.mp hmem).elim id fun h => absurd (htxs tx h) hne
  refine ⟨fun c' => ?_, ?_, hi.ids, hi.below, fun tx hmem => ?_, ?_, fun callback hran => ?_,
    fun callback hregistered hcommitted hover' => ?_⟩
  · have hclients := clients_setClient s c client c'
    simp only at hclients ⊢
    rw [hclients]
    split_ifs with heq
    · exact ⟨fun _ => hafter, fun _ h => (nomatch hover.symm.trans h), fun _ _ _ => hafter,
        fun _ h => (nomatch hover.symm.trans h), fun _ h => (nomatch hover.symm.trans h)⟩
    · have hne : ∀ call₁ ∈ (s.clients c').call, call₁.tx ≠ call.tx := fun call₁ h htx₁ =>
        heq (hi.apart c' call₁ h c call hcall htx₁)
      exact (hi.clients c').later le_rfl (fun _ _ => rfl) fun call₁ h hmem =>
        hlater _ hmem (hne call₁ h)
  · intro c₁ call₁ h₁ c₂ call₂ h₂ heq
    simp only [clients_setClient] at h₁ h₂
    split_ifs at h₁ h₂
    · exact nomatch hover.symm.trans h₁
    · exact nomatch hover.symm.trans h₁
    · exact nomatch hover.symm.trans h₂
    · exact hi.apart c₁ call₁ h₁ c₂ call₂ h₂ heq
  · exact (List.mem_append.mp hmem).elim (hi.committed tx) fun h =>
      htxs tx h ▸ (hi.clients c).below call hcall
  · refine List.nodup_append.mpr ⟨hi.once, hnodup, fun callback hran callback' hnew heq => ?_⟩
    exact hi.notMem_ran hcall (mem_registeredIn.mp (hcallbacks callback' hnew).1).2 (heq ▸ hran)
  · rcases List.mem_append.mp hran with hold | hnew
    · obtain ⟨hregistered, hcommitted, hnot⟩ := hi.own callback hold
      exact ⟨hregistered, List.mem_append_left _ hcommitted, fun h => hnot (hpending.mp h).1⟩
    · obtain ⟨hmem, hcommitted⟩ := hcallbacks callback hnew
      obtain ⟨hregistered, htx⟩ := mem_registeredIn.mp hmem
      exact ⟨hregistered, htx ▸ hcommitted, fun h => (hpending.mp h).2 htx⟩
  · by_cases htx : callback.tx = call.tx
    · exact List.mem_append_right _ (hdue (htx ▸ hcommitted) callback
        (mem_registeredIn.mpr ⟨hregistered, htx⟩))
    · exact List.mem_append_left _ (hi.called callback hregistered (hlater _ hcommitted htx)
        fun h => hover' (hpending.mpr ⟨h, htx⟩))

/-! ## The steps -/

theorem Inv.withTransaction (hi : Inv s) (hidle : (s.clients c).call = none) :
    Inv { s.setClient c { s.clients c with call := some ⟨s.nextTx, .beginning⟩ } with
      nextTx := s.nextTx + 1 } := by
  have hnew : ∀ c', ∀ call ∈ (s.clients c').call, call.tx ≠ s.nextTx := fun c' call hcall =>
    ((hi.clients c').below call hcall).ne
  have hpending : ∀ {t}, (s.setClient c { s.clients c with call := some ⟨s.nextTx, .beginning⟩ }).Pending t
      ↔ t = s.nextTx ∨ s.Pending t := by
    intro t
    rw [pending_setClient]
    refine or_congr ?_ ⟨?_, ?_⟩
    · simp [eq_comm]
    · rintro ⟨c', -, call, hcall, htx⟩
      exact ⟨c', call, hcall, htx⟩
    · rintro ⟨c', call, hcall, htx⟩
      refine ⟨c', ?_, call, hcall, htx⟩
      rintro rfl
      exact nomatch hidle.symm.trans hcall
  refine ⟨fun c' => ?_, ?_, hi.ids, fun callback h => ?_, fun tx h => ?_, hi.once, fun callback hran => ?_,
    fun callback hregistered hcommitted hnot => ?_⟩
  · have hclients := clients_setClient s c { s.clients c with call := some ⟨s.nextTx, .beginning⟩ } c'
    simp only at hclients ⊢
    rw [hclients]
    split_ifs
    · refine ⟨nofun, fun call h => ?_, fun _ _ _ => (hi.clients c).free hidle,
        fun call h _ => ⟨fun hmem => ?_, ?_⟩, fun call h hphase => ?_⟩ <;> obtain rfl := Option.some.inj h
      · exact Nat.lt_succ_self _
      · exact Nat.lt_irrefl _ (hi.committed _ hmem)
      · refine ((hi.clients c).free hidle).trans (List.filter_eq_nil_iff.mpr fun callback h => ?_).symm
        simpa using (hi.below callback h).2.ne
      · exact nomatch hphase
    · exact (hi.clients c').later (Nat.le_succ _) (fun _ _ => rfl) fun _ _ => id
  · intro c₁ call₁ h₁ c₂ call₂ h₂ heq
    simp only [clients_setClient] at h₁ h₂
    split_ifs at h₁ h₂ with hc₁ hc₂ hc₂
    · rw [hc₁, hc₂]
    · obtain rfl := Option.some.inj h₁
      exact absurd heq.symm (hnew c₂ call₂ h₂)
    · obtain rfl := Option.some.inj h₂
      exact absurd heq (hnew c₁ call₁ h₁)
    · exact hi.apart c₁ call₁ h₁ c₂ call₂ h₂ heq
  · exact (hi.below callback h).imp_right fun hlt => Nat.lt_succ_of_lt hlt
  · exact Nat.lt_succ_of_lt (hi.committed tx h)
  · obtain ⟨hregistered, hcommitted, hnot⟩ := hi.own callback hran
    refine ⟨hregistered, hcommitted, fun h => (hpending.mp h).elim (fun heq => ?_) hnot⟩
    exact (hi.below callback hregistered).2.ne heq
  · exact hi.called callback hregistered hcommitted fun h => hnot (hpending.mpr (.inr h))

theorem Inv.runAfterCommit (hi : Inv s) (hcall : (s.clients c).call = some call)
    (hbody : call.phase = .body) : Inv (s.runAfterCommit c (s.clients c) call.tx) := by
  obtain ⟨hnot, hafter⟩ := (hi.clients c).held call hcall (by rw [hbody]; nofun)
  let client : Client := { s.clients c with
    afterCommit := some ((s.clients c).afterCommit.getD [] ++ [⟨s.nextCallback, call.tx⟩]) }
  have hpending : ∀ {t}, (s.setClient c client).Pending t ↔ s.Pending t :=
    pending_goesOn hcall hcall rfl
  have hin : ∀ t, (s.runAfterCommit c (s.clients c) call.tx).registeredIn t =
      s.registeredIn t ++ if t = call.tx then [⟨s.nextCallback, call.tx⟩] else [] := by
    intro t
    simp only [Sys.registeredIn, Sys.runAfterCommit, List.filter_append]
    split_ifs with heq
    · simp [heq]
    · simp [Ne.symm heq]
  refine ⟨fun c' => ?_, hi.apart_setClient hcall (show client.call = some call from hcall) rfl, ?_, ?_,
    hi.committed, hi.once, fun callback hran => ?_, fun callback hregistered hcommitted hpending' => ?_⟩
  · have hclients : (s.runAfterCommit c (s.clients c) call.tx).clients c' =
        if c' = c then client else s.clients c' := clients_setClient s c client c'
    rw [hclients]
    split_ifs with heq
    · refine ⟨fun h => (nomatch h.symm.trans hcall), (hi.clients c).below, fun call₁ h hphase => ?_,
        fun call₁ h _ => ⟨?_, ?_⟩, fun call₁ h hphase => ?_⟩ <;>
        obtain rfl := Option.some.inj (hcall.symm.trans h)
      · exact nomatch hbody.symm.trans hphase
      · exact hnot
      · rw [hin, if_pos rfl, ← hafter]
        rfl
      · exact nomatch hbody.symm.trans hphase
    · refine (hi.clients c').later le_rfl (fun call₁ h => ?_) fun _ _ => id
      rw [hin, if_neg fun htx => heq (hi.apart c' call₁ h c call hcall htx), List.append_nil]
  · simp only [Sys.runAfterCommit, List.map_append, List.map_singleton]
    refine List.nodup_append.mpr ⟨hi.ids, List.nodup_singleton _, fun id hold id' hnew heq => ?_⟩
    obtain ⟨callback, hmem, rfl⟩ := List.mem_map.mp hold
    exact (hi.below callback hmem).1.ne (heq.trans (List.mem_singleton.mp hnew))
  · intro callback hmem
    rcases List.mem_append.mp hmem with hold | hnew
    · exact (hi.below callback hold).imp_left Nat.lt_succ_of_lt
    · obtain rfl := List.mem_singleton.mp hnew
      exact ⟨Nat.lt_succ_self _, (hi.clients c).below call hcall⟩
  · obtain ⟨hregistered, hcommitted, hover⟩ := hi.own callback hran
    exact ⟨List.mem_append_left _ hregistered, hcommitted, fun h => hover (hpending.mp h)⟩
  · rcases List.mem_append.mp hregistered with hold | hnew
    · exact hi.called callback hold hcommitted fun h => hpending' (hpending.mpr h)
    · obtain rfl := List.mem_singleton.mp hnew
      exact absurd hcommitted hnot

theorem during_eq_some {phase : Phase} {next : ℕ → Client → Option Sys}
    (h : during s c phase next = some s') :
    ∃ tx, (s.clients c).call = some ⟨tx, phase⟩ ∧ next tx (s.clients c) = some s' := by
  obtain ⟨⟨tx, phase'⟩, hcall, h⟩ := Option.bind_eq_some_iff.mp h
  simp only at h
  split_ifs at h with hphase
  exact ⟨tx, hphase ▸ hcall, h⟩

theorem serveCommit_eq (s : Sys) (tx : ℕ) (server : Option ServerTx) : s.serveCommit tx server =
    { s with committed := s.committed ++ if ServerTx.commits server then [tx] else [] } := by
  unfold Sys.serveCommit
  split_ifs
  · rfl
  · rw [List.append_nil]

theorem Inv.nodup_registeredIn (hi : Inv s) (t : ℕ) : (s.registeredIn t).Nodup :=
  hi.ids.of_map.filter _

theorem Inv.discard (hi : Inv s) {client : Client} (hcall : (s.clients c).call = some call)
    (hphase : call.phase ≠ .rollingBack) : Inv (s.discard c client call.tx) := by
  refine hi.goesOn hcall rfl rfl ⟨nofun, fun call₁ h => ?_, fun _ _ _ => rfl,
    fun call₁ h hnot => ?_, fun call₁ h _ => ⟨rfl, fun hmem => ?_⟩⟩ <;> obtain rfl := Option.some.inj h
  · exact (hi.clients c).below call hcall
  · exact absurd rfl hnot
  · exact absurd hmem ((hi.clients c).held call hcall hphase).1

theorem Inv.answered (hi : Inv s) (hcall : (s.clients c).call = some call)
    (hphase : call.phase ≠ .rollingBack)
    (hok : (s.clients c).afterCommit.getD [] ≠ [] → ServerTx.commits (s.clients c).server = true) :
    Inv ((s.serveCommit call.tx (s.clients c).server).runCallbacks c (s.clients c)) := by
  obtain ⟨hnot, hafter⟩ := (hi.clients c).held call hcall hphase
  rw [serveCommit_eq]
  rw [hafter] at hok
  have hover : Inv { s.setClient c ⟨none, none, none, false⟩ with
      committed := s.committed ++ if ServerTx.commits (s.clients c).server then [call.tx] else []
      ran := s.ran ++ s.registeredIn call.tx } := by
    refine hi.ends hcall rfl rfl ?_ (hi.nodup_registeredIn _) ?_ fun _ _ => id
    · split_ifs
      · exact fun tx h => List.mem_singleton.mp h
      · exact nofun
    · intro callback hmem
      rw [if_pos (hok (List.ne_nil_of_mem hmem))]
      exact ⟨hmem, List.mem_append_right _ (List.mem_singleton_self _)⟩
  rw [← hafter] at hover
  exact hover

theorem Inv.answerLost (hi : Inv s) (hcall : (s.clients c).call = some call)
    (hphase : call.phase ≠ .rollingBack)
    (hok : (s.clients c).afterCommit.getD [] ≠ [] → ServerTx.commits (s.clients c).server = false) :
    Inv ((s.serveCommit call.tx (s.clients c).server).discard c { s.clients c with server := none }
      call.tx) := by
  obtain ⟨hnot, hafter⟩ := (hi.clients c).held call hcall hphase
  unfold Sys.serveCommit
  split_ifs with hcommits
  · have hnone : s.registeredIn call.tx = [] := by
      by_contra hsome
      exact nomatch (hok (hafter ▸ hsome)).symm.trans hcommits
    exact hi.commits hcall rfl rfl rfl rfl hnone
  · exact hi.discard hcall hphase

theorem Inv.release {destroyed : Bool} {client : Client} (hi : Inv s)
    (hcall : (s.clients c).call = some call) (hafter : client.afterCommit.getD [] = [])
    (hnone : call.tx ∈ s.committed → s.registeredIn call.tx = []) :
    Inv (s.release c client destroyed) := by
  have hover : Inv { s.setClient c ⟨none, none, client.afterCommit, destroyed⟩ with
      committed := s.committed ++ []
      ran := s.ran ++ [] } := by
    refine hi.ends hcall rfl hafter nofun .nil nofun fun hmem callback h => ?_
    rw [List.append_nil] at hmem
    rw [hnone hmem] at h
    exact h
  rw [List.append_nil, List.append_nil] at hover
  exact hover

theorem Inv.setPhase {phase : Phase} {server : Option ServerTx} (hi : Inv s)
    (hcall : (s.clients c).call = some call) (hphase : call.phase ≠ .rollingBack)
    (hnext : phase = .body ∨ phase = .committing) :
    Inv (s.setClient c { s.clients c with call := some ⟨call.tx, phase⟩, server := server }) := by
  refine hi.goesOn hcall rfl rfl ⟨nofun, fun call₁ h => ?_, fun call₁ h hfresh => ?_,
    fun call₁ h _ => ?_, fun call₁ h hback => ?_⟩ <;> obtain rfl := Option.some.inj h
  · exact (hi.clients c).below call hcall
  · rcases hnext with h | h <;> exact nomatch h.symm.trans hfresh
  · exact (hi.clients c).held call hcall hphase
  · rcases hnext with h | h <;> exact nomatch h.symm.trans hback

theorem Inv.step {act : Act} (hi : Inv s) (hok : Faithful s act) (h : step s act = some s') :
    Inv s' := by
  rcases act with c | ⟨c, ok⟩ | ⟨c, stmt, ok⟩ | c | c | c | ⟨c, outcome⟩ | ⟨c, ok⟩ <;>
    simp only [AfterCommit.step] at h
  case withTransaction =>
    split_ifs at h with hidle
    obtain rfl := Option.some.inj h
    exact hi.withTransaction hidle.1
  case begin =>
    obtain ⟨tx, hcall, h⟩ := during_eq_some h
    obtain rfl := Option.some.inj h
    split_ifs
    · exact hi.setPhase hcall nofun (.inl rfl)
    · exact hi.release hcall ((hi.clients c).fresh _ hcall rfl) fun hmem =>
        absurd hmem ((hi.clients c).held _ hcall nofun).1
  case stmt =>
    obtain ⟨tx, hcall, h⟩ := during_eq_some h
    obtain ⟨server, -, h⟩ := Option.bind_eq_some_iff.mp h
    obtain ⟨server', -, rfl⟩ := Option.map_eq_some_iff.mp h
    obtain ⟨hfree, hbelow, hfresh, hheld, hdiscarded⟩ := hi.clients c
    exact hi.goesOn hcall hcall rfl ⟨hfree, hbelow, hfresh, hheld, hdiscarded⟩
  case runAfterCommit =>
    obtain ⟨tx, hcall, h⟩ := during_eq_some h
    obtain rfl := Option.some.inj h
    exact hi.runAfterCommit hcall rfl
  case bodyReturns =>
    obtain ⟨tx, hcall, h⟩ := during_eq_some h
    obtain rfl := Option.some.inj h
    exact hi.setPhase hcall nofun (.inr rfl)
  case bodyThrows =>
    obtain ⟨tx, hcall, h⟩ := during_eq_some h
    obtain rfl := Option.some.inj h
    exact hi.discard hcall nofun
  case commit =>
    obtain ⟨tx, hcall, h⟩ := during_eq_some h
    obtain rfl := Option.some.inj h
    rcases outcome with _ | _ | _
    · exact hi.answered hcall nofun fun hsome => (hok hsome).1 rfl
    · exact hi.discard hcall nofun
    · exact hi.answerLost hcall nofun fun hsome => (hok hsome).2 rfl
  case rollback =>
    obtain ⟨tx, hcall, h⟩ := during_eq_some h
    obtain rfl := Option.some.inj h
    obtain ⟨hafter, hnone⟩ := (hi.clients c).discarded _ hcall rfl
    exact hi.release hcall hafter hnone

/-- In every run whose commits are what they seem, the callbacks follow the transactions. -/
theorem callbacks_exact (s : Sys) (hs : Reach step Faithful Sys.init s) : Exact s :=
  (hs.invariant inv_init fun _ _ _ hi hok h => hi.step hok h).exact

def nestedCalls : List Act :=
  [.withTransaction 0, .begin 0 true, .runAfterCommit 0, .bodyThrows 0, .rollback 0 true,
    .withTransaction 0, .begin 0 true, .runAfterCommit 0, .withTransaction 1, .begin 1 true,
    .runAfterCommit 1, .stmt 1 .query false, .bodyThrows 1, .rollback 1 true, .bodyReturns 0,
    .commit 0 .answered]

theorem nestedCalls_exact : ∃ s, runActs step Sys.init nestedCalls = some s ∧
    s.ran = [⟨1, 1⟩] ∧ Exact s := by
  obtain ⟨s, hs⟩ := Option.isSome_iff_exists.mp
    (rfl : (runChecked step (fun s act => decide (Faithful s act)) Sys.init nestedCalls).isSome = true)
  exact ⟨s, runActs_of_runChecked hs, eq_of_map_eq (f := fun s => s.ran) hs rfl,
    callbacks_exact s (.of_runChecked (fun _ _ => of_decide_eq_true) hs)⟩

/-- The body swallows the error of a statement, and the `COMMIT` rolls back. -/
def swallowedError : List Act :=
  [.withTransaction 0, .begin 0 true, .runAfterCommit 0, .stmt 0 .query false, .bodyReturns 0,
    .commit 0 .answered]

theorem called_without_commit : ¬∀ s, Reach step (fun _ _ => True) Sys.init s → Exact s := by
  intro hclaim
  obtain ⟨s, hs⟩ := Option.isSome_iff_exists.mp
    (rfl : (runActs step Sys.init swallowedError).isSome = true)
  have hran := eq_of_map_eq (f := fun s => s.ran) hs rfl
  have hcommitted := eq_of_map_eq (f := fun s => s.committed) hs rfl
  have hmem := ((hclaim s (.of_runActs hs)).own ⟨0, 0⟩ (hran ▸ List.mem_singleton_self _)).2
  rw [hcommitted] at hmem
  exact nomatch hmem

end AfterCommit

end Semprec
