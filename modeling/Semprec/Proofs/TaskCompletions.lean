import Mathlib.Order.Nat
import Semprec.Lib.Runs
import Semprec.Proofs.RecurringTasks

/-!
# Completing recurring tasks

What one transaction commits leaves the others as they were (`CallOk.afterWrites`), and each
statement of a transaction takes it from one phase of the invariant to the next.
-/

namespace Semprec

namespace RecurringTasks

open Relations Items

open RelationEdges (loadRelationEdgeContext_ok)

variable {ctx : Context} {committed : Store} {s s' : Sys} {t d i n x seq : ℕ}
  {patch : JsonObject} {adv : Option (ItemRow × TaskRecurrence)} {copies : List ItemRelationRow}
  {c c' : Call} {pending : List Write} {locked : Prop}

/-! ## What a commit leaves of the other transactions -/

theorem patched_id {r : ItemRow} : (patched ctx d i patch r).id = r.id := by
  unfold patched
  split_ifs <;> rfl

theorem Present.afterWrites (h : Present committed x) :
    Present (afterWrites ctx committed d i patch adv copies) x := by
  obtain ⟨r, hr, hid⟩ := h
  exact ⟨patched ctx d i patch r, List.mem_append_left _ (List.mem_map_of_mem hr),
    patched_id.trans hid⟩

theorem Present.ne (h : Present committed x) (hn : Unmentioned committed n) : n ≠ x := by
  obtain ⟨r, hr, rfl⟩ := h
  exact (hn.items r hr).symm

theorem mem_taskRecurrences_afterWrites {r : TaskRecurrence}
    (hr : r ∈ (afterWrites ctx committed d i patch adv copies).taskRecurrences) :
    (∃ r' ∈ committed.taskRecurrences, r.itemId = r'.itemId ∧
      (r.active = true → r'.active = true ∧ (adv = none ∨ r'.itemId ≠ i))) ∨
    ∃ a ∈ adv, r.itemId = a.1.id := by
  rcases adv with _ | ⟨item, next⟩
  · exact .inl ⟨r, hr, rfl, fun hactive => ⟨hactive, .inl rfl⟩⟩
  · obtain ⟨r', hr', rfl⟩ := List.mem_map.mp hr
    have hid : (if r'.itemId = i then { r' with active := false } else r').itemId = r'.itemId := by
      split_ifs <;> rfl
    rw [hid]
    rcases List.mem_append.mp hr' with hr' | hr'
    · refine .inl ⟨r', hr', rfl, fun hactive => ?_⟩
      split_ifs at hactive with hi
      exact ⟨hactive, .inr hi⟩
    · rw [List.mem_singleton.mp hr']
      exact .inr ⟨(item, next), rfl, rfl⟩

theorem Unmentioned.afterWrites (h : Unmentioned committed n) (hadv : ∀ a ∈ adv, a.1.id ≠ n)
    (hcopies : ∀ e ∈ copies, e.itemA ≠ n ∧ e.itemB ≠ n) :
    Unmentioned (afterWrites ctx committed d i patch adv copies) n where
  items := fun r hr => by
    rcases List.mem_append.mp hr with hr | hr
    · obtain ⟨r', hr', rfl⟩ := List.mem_map.mp hr
      rw [patched_id]
      exact h.items r' hr'
    · obtain ⟨a, ha, rfl⟩ := Option.map_eq_some_iff.mp (Option.mem_toList.mp hr)
      exact hadv a ha
  edges := fun e he => (List.mem_append.mp he).elim (h.edges e) (hcopies e)
  recurrences := fun r hr => by
    obtain ⟨r', hr', hid, -⟩ | ⟨a, ha, hid⟩ := mem_taskRecurrences_afterWrites hr
    · rw [hid]
      exact h.recurrences r' hr'
    · rw [hid]
      exact hadv a ha

theorem activeRecurrence_afterWrites (hx : adv = none ∨ x ≠ i ∧ ∀ a ∈ adv, a.1.id ≠ x) :
    activeRecurrence (afterWrites ctx committed d i patch adv copies) x =
      activeRecurrence committed x := by
  unfold activeRecurrence
  rw [getTaskRecurrence_afterWrites hx]

theorem CallOk.afterWrites (h : CallOk ctx committed pending locked seq c')
    (hlocked : locked → adv = none ∨ c'.input.itemId ≠ i)
    (hfresh : ∀ a ∈ adv, Unmentioned committed a.1.id)
    (hnext : ∀ n, c'.next = some n → (∀ a ∈ adv, a.1.id ≠ n) ∧
      ∀ e ∈ copies, e.itemA ≠ n ∧ e.itemB ≠ n)
    (hlisted : ∀ a ∈ adv, ∀ e ∈ c'.listed, e.itemA ≠ a.1.id ∧ e.itemB ≠ a.1.id)
    (hrow : ∀ w ∈ pending, w.onItem d i = false) :
    CallOk ctx (afterWrites ctx committed d i patch adv copies) pending locked seq c' := by
  have hrecurrence : Present committed c'.input.itemId → locked →
      activeRecurrence (RecurringTasks.afterWrites ctx committed d i patch adv copies)
        c'.input.itemId = activeRecurrence committed c'.input.itemId := fun hp hl =>
    activeRecurrence_afterWrites ((hlocked hl).imp_right fun hne =>
      ⟨hne, fun a ha => hp.ne (hfresh a ha)⟩)
  have hadvancing : ∀ {n copies'}, c'.next = some n → Present committed c'.input.itemId → locked →
      Advancing ctx committed pending seq c' n copies' →
        Advancing ctx (RecurringTasks.afterWrites ctx committed d i patch adv copies) pending seq
          c' n copies' := by
    rintro n copies' hn hp hl ⟨hlt, hun, patch', item, r, hw, hr, hid, hd, hdel, tables, timezone,
      htimezone, hitem, hget, hsame⟩
    have hne : ¬ (d = c'.input.databaseId ∧ i = c'.input.itemId) := by
      rintro ⟨rfl, rfl⟩
      have := hrow (.setProperties c'.input.databaseId c'.input.itemId patch')
        (hw ▸ List.mem_cons_self)
      simp [Write.onItem] at this
    refine ⟨hlt, hun.afterWrites (hnext n hn).1 (hnext n hn).2, patch', item, r, hw,
      (hrecurrence hp hl).trans hr, hid, hd, hdel, tables, timezone, htimezone, hitem, ?_, hsame⟩
    rw [hget, getItemById_afterWrites_of_ne (fun a ha => hp.ne (hfresh a ha)) hne]
  have hcopying : ∀ {n seen done left copies'},
      c'.listed = seen.listAllRelationsForItem c'.input.itemId →
      Copying committed seq c'.input.itemId n seen done left copies' →
        Copying (RecurringTasks.afterWrites ctx committed d i patch adv copies) seq c'.input.itemId
          n seen done left copies' := fun {n seen done left copies'} hl hc =>
    { hc with
      live := fun e he databaseId => by
        have hne := fun a ha => hlisted a ha e (hl ▸ he)
        rw [liveness_afterWrites fun a ha => (hne a ha).1.symm,
          liveness_afterWrites fun a ha => (hne a ha).2.symm]
        exact hc.live e he databaseId
      edges := hc.edges.trans (List.prefix_append _ _) }
  rcases c' with ⟨input, options, phase⟩
  rcases phase with _ | _ | n | ⟨n, seen, left⟩ | (_ | ⟨n, seen⟩) | _ | e | e
  · exact h
  · exact ⟨h.1, h.2.afterWrites⟩
  · exact ⟨h.1.afterWrites, h.2.1, hadvancing rfl h.1 h.2.1 h.2.2⟩
  · obtain ⟨hp, hl, done, copies', ha, hc⟩ := h
    exact ⟨hp.afterWrites, hl, done, copies', hadvancing rfl hp hl ha, hcopying rfl hc⟩
  · obtain ⟨hw, hp, hl, hr⟩ := h
    exact ⟨hw, hp.afterWrites, hl, (hrecurrence hp hl).trans hr⟩
  · obtain ⟨hp, hl, copies', ha, hc⟩ := h
    exact ⟨hp.afterWrites, hl, copies', hadvancing rfl hp hl ha, hcopying rfl hc⟩
  · exact h
  · exact h
  · exact h

/-! ## The condition -/

/-- The next instance of a task can be created: the time zone is valid, the rule has a next date,
and an item with the properties of the next instance may be written. -/
def Creatable (ctx : Context) (store : Store) (timezone : String) (databaseId itemId : ℕ)
    (r : TaskRecurrence) (id : ℕ) : Prop :=
  ∃ current nextDate item, store.getItemById databaseId itemId = some current ∧
    ctx.env.validTimezone timezone = true ∧
      ctx.computeNextDueDate r.mode r.rule timezone = .ok nextDate ∧
        newItem ctx store databaseId (nextInstance current.properties nextDate) id = .ok item

/-- What the next statement of a completion asks of the tables it sees and of the id that is drawn
next: that the time zone can be read and the next instance created, that the edges keep to their
cardinalities, and that the relation of an edge to a live counterpart permits the copy. -/
def Call.Permits (ctx : Context) (store : Store) (id : ℕ) (c : Call) : Prop :=
  match c.phase with
  | .advance => ∃ timezone, getSystemTimezone store = .ok timezone ∧
      ∀ r, activeRecurrence store c.input.itemId = some r →
        Creatable ctx store timezone c.input.databaseId c.input.itemId r id
  | .list _ => RelationEdges.EdgesOk store
  | .copy n _ (e :: _) => ∀ p, copiedSide store c.input.itemId e = some p →
      ∃ context, Permitted ctx store c.input.databaseId c.input.itemId n e p context
  | _ => True

def Permits (ctx : Context) (s : Sys) : Act → Prop
  | .run t => ∀ c, s.calls t = some c → c.Permits ctx (s.view ctx t) s.seq
  | _ => True

/-! ## Statements -/

theorem view_of_writes (h : s.db.pending t = writes d i patch adv copies) :
    s.view ctx t = afterWrites ctx s.db.committed d i patch adv copies := by
  unfold Sys.view ReadCommitted.view
  rw [h, foldl_writes]

theorem nextItem_ok {store : Store} {timezone : String} {r : TaskRecurrence} {id : ℕ}
    (h : Creatable ctx store timezone d i r id) :
    ∃ item, nextItem ctx store timezone d i r id = .ok item ∧
      item.id = id ∧ item.databaseId = d ∧ item.deletedAt = none := by
  obtain ⟨current, nextDate, item, hcurrent, hvalid, hdate, hitem⟩ := h
  refine ⟨item, ?_, ?_⟩
  · unfold nextItem assertValidTimezone
    rw [hcurrent]
    exact except_bind_ok.mpr ⟨(), if_pos hvalid, except_bind_ok.mpr ⟨nextDate, hdate, hitem⟩⟩
  · unfold newItem at hitem
    simp only [except_bind_ok] at hitem
    obtain ⟨-, -, -, -, database, -, created, -, -, -, hitem⟩ := hitem
    cases hitem
    exact ⟨rfl, rfl, rfl⟩

/-- The rows drawn and the recurrences locked by a statement. -/
theorem Inv.grow {locks advisory : ℕ → Option ℕ} (hi : Inv ctx s)
    (hlocks : ∀ u x, s.locks x = some u → locks x = some u) (hle : s.seq ≤ seq) :
    Inv ctx { s with locks, advisory, seq } where
  below := ⟨fun r hr => (hi.below.1 r hr).trans_le hle,
    fun e he => ⟨(hi.below.2.1 e he).1.trans_le hle, (hi.below.2.1 e he).2.trans_le hle⟩,
    fun r hr => (hi.below.2.2 r hr).trans_le hle⟩
  key := hi.key
  one_active := hi.one_active
  opened := hi.opened
  calls := fun t c hc => (hi.calls t c hc).mono (hlocks t _) hle
  apart := hi.apart
  rows := hi.rows
  log := hi.log

/-- A statement that writes nothing. -/
theorem Inv.read {phase : Phase} (hi : Inv ctx s) (hc : s.calls t = some c)
    (hok : CallOk ctx s.db.committed (s.db.pending t) (s.locks c.input.itemId = some t) s.seq
      { c with phase })
    (hapart : ∀ u c', u ≠ t → s.calls u = some c' →
      Apart { c with phase } c' ∧ Apart c' { c with phase }) :
    Inv ctx (s.setPhase t c phase) := by
  refine hi.local (t := t) rfl le_rfl rfl rfl (fun u hu => Function.update_of_ne hu _ _)
    (fun u _ h => h) (fun u _ => rfl) (fun u _ x h => h) (fun w hw => .inl hw) fun c₁ hc₁ => ?_
  obtain rfl : { c with phase } = c₁ := by
    simpa [Sys.setPhase] using hc₁
  exact ⟨hi.opened t c hc, hok, hapart⟩

theorem Inv.write {phase : Phase} {ws : List Write} (hi : Inv ctx s) (hc : s.calls t = some c)
    (h : s.write t c ws phase = some s')
    (hws : ∀ w ∈ ws, ∀ row : ℕ × ℕ, w.onItem row.1 row.2 = true →
      ∀ u, u ≠ t → ¬ Patches s.db.pending u row)
    (hok : CallOk ctx s.db.committed (s.db.pending t ++ ws) (s.locks c.input.itemId = some t) s.seq
      { c with phase })
    (hapart : ∀ u c', u ≠ t → s.calls u = some c' →
      Apart { c with phase } c' ∧ Apart c' { c with phase }) : Inv ctx s' := by
  obtain ⟨db, hdb, rfl⟩ := Option.map_eq_some_iff.mp h
  have hpending := ReadCommitted.write_pending hdb
  refine hi.local (t := t) (ReadCommitted.write_committed hdb) le_rfl rfl rfl
    (fun u hu => Function.update_of_ne hu _ _)
    (fun u _ hu => (ReadCommitted.write_opened hdb).symm ▸ hu)
    (fun u hu => (congrFun hpending u).trans (Function.update_of_ne hu _ _))
    (fun u _ x hx => hx) (fun w hw => ?_) fun c₁ hc₁ => ?_
  · have hw : w ∈ db.pending t := hw
    rw [hpending, Function.update_self] at hw
    exact (List.mem_append.mp hw).imp_right (hws w)
  obtain rfl : { c with phase } = c₁ := by
    simpa [Sys.setPhase] using hc₁
  refine ⟨(ReadCommitted.write_opened hdb).symm ▸ hi.opened t c hc, ?_, hapart⟩
  rw [ReadCommitted.write_committed hdb]
  show CallOk ctx _ (db.pending t) _ _ _
  rw [hpending, Function.update_self]
  exact hok

theorem Inv.apart_of_eq {c₁ : Call} (hi : Inv ctx s) (hc : s.calls t = some c)
    (hnext : c₁.next = c.next) (hlisted : c₁.listed = c.listed) (u : ℕ) (c' : Call) (hu : u ≠ t)
    (hc' : s.calls u = some c') : Apart c₁ c' ∧ Apart c' c₁ := by
  unfold Apart
  rw [hnext, hlisted]
  exact ⟨hi.apart t u c c' (Ne.symm hu) hc hc', hi.apart u t c' c hu hc' hc⟩

theorem apart_of_none {c₁ : Call} (hnext : c₁.next = none) (hlisted : c₁.listed = []) :
    Apart c₁ c' ∧ Apart c' c₁ := by
  unfold Apart
  rw [hnext, hlisted]
  exact ⟨nofun, fun n _ => ⟨nofun, nofun⟩⟩

theorem CallOk.next (h : CallOk ctx committed pending locked seq c) (hn : c.next = some n) :
    n < seq ∧ Unmentioned committed n := by
  rcases c with ⟨input, options, phase⟩
  rcases phase with _ | _ | m | ⟨m, seen, left⟩ | (_ | ⟨m, seen⟩) | _ | e | e <;> cases hn
  · exact ⟨h.2.2.1, h.2.2.2.1⟩
  · obtain ⟨-, -, done, copies, ha, -⟩ := h
    exact ⟨ha.1, ha.2.1⟩
  · obtain ⟨-, -, copies, ha, -⟩ := h
    exact ⟨ha.1, ha.2.1⟩

theorem CallOk.listed (h : CallOk ctx committed pending locked seq c) {e : ItemRelationRow}
    (he : e ∈ c.listed) : e.itemA < seq ∧ e.itemB < seq := by
  rcases c with ⟨input, options, phase⟩
  rcases phase with _ | _ | m | ⟨m, seen, left⟩ | (_ | ⟨m, seen⟩) | _ | e | e
  · cases he
  · cases he
  · cases he
  · obtain ⟨-, -, done, copies, -, hc⟩ := h
    exact (hc.ends e he).2
  · cases he
  · obtain ⟨-, -, copies, -, hc⟩ := h
    exact (hc.ends e he).2
  · cases he
  · cases he
  · cases he

/-! ## The steps of a call -/

theorem Inv.begin {input : UpdateItemInput} {options : WriteOptions} (hi : Inv ctx s)
    (h : step ctx s (.begin t input options) = some s') : Inv ctx s' := by
  simp only [step] at h
  split_ifs at h
  obtain ⟨db, hdb, rfl⟩ := Option.map_eq_some_iff.mp h
  have hopened := ReadCommitted.begin_opened hdb
  have hclosed : t ∉ s.db.opened := fun ht => by simp [ReadCommitted.begin, ht] at hdb
  refine hi.local (t := t) (ReadCommitted.begin_committed hdb) le_rfl rfl rfl
    (fun u hu => Function.update_of_ne hu _ _)
    (fun u _ hu => hopened.symm ▸ Finset.mem_insert_of_mem hu)
    (fun u _ => congrFun (ReadCommitted.begin_pending hdb) u) (fun u _ x hx => hx)
    (fun w hw => .inl (by rwa [← ReadCommitted.begin_pending hdb])) fun c hc => ?_
  obtain rfl : ⟨input, options, .update⟩ = c := by simpa using hc
  refine ⟨hopened.symm ▸ Finset.mem_insert_self t _, ?_, fun u c' _ _ => apart_of_none rfl rfl⟩
  show db.pending t = []
  rw [ReadCommitted.begin_pending hdb, s.db.pending_nil t hclosed]

/-- A transaction that ends without a commit. -/
theorem Inv.rollback (hi : Inv ctx s) (h : (s.db.rollback t).map (s.close t) = some s') :
    Inv ctx s' := by
  obtain ⟨db, hdb, rfl⟩ := Option.map_eq_some_iff.mp h
  refine hi.local (t := t) (ReadCommitted.rollback_committed hdb) le_rfl rfl rfl
    (fun u hu => Function.update_of_ne hu _ _)
    (fun u hu hm => (ReadCommitted.rollback_opened hdb).symm ▸ Finset.mem_erase.mpr ⟨hu, hm⟩)
    (fun u hu => (congrFun (ReadCommitted.rollback_pending hdb) u).trans
      (Function.update_of_ne hu _ _))
    (fun u hu x hx => ?_) (fun w hw => absurd rfl (ReadCommitted.mem_closed_pending
      (ReadCommitted.rollback_pending hdb) hw).1) fun c hc => ?_
  · show (s.locks x).filter _ = some u
    simp [hx, hu]
  · simp [Sys.close] at hc

theorem present_of_updateChecks {store : Store} {input : UpdateItemInput} {options : WriteOptions}
    (h : updateChecks ctx store input options = .ok patch) : Present store input.itemId := by
  unfold updateChecks at h
  simp only [except_bind_ok] at h
  obtain ⟨-, -, -, -, database, -, derived, -, current, hlock, -⟩ := h
  unfold lockUpdatable at hlock
  split at hlock
  · cases hlock
  · rename_i current' hcurrent
    have hget := (Option.filter_eq_some_iff.mp hcurrent).1
    have hat := List.find?_some (show List.find? _ _ = some current' from hget)
    refine ⟨current', List.mem_of_find?_eq_some hget, ?_⟩
    simp only [ItemRow.isAt, decide_eq_true_eq] at hat
    omega

theorem Inv.update (hi : Inv ctx s) (hc : s.calls t = some c) (hphase : c.phase = .update)
    (h : run ctx s t c = some s') : Inv ctx s' := by
  have hok := hi.calls t c hc
  unfold CallOk at hok
  rw [hphase] at hok
  have hview : s.view ctx t = s.db.committed := by
    unfold Sys.view ReadCommitted.view
    rw [show s.db.pending t = [] from hok]
    rfl
  unfold run at h
  rw [hphase] at h
  dsimp only at h
  split_ifs at h with hlocked
  rcases hchecks : updateChecks ctx (s.view ctx t) c.input c.options with e | patch <;>
    rw [hchecks] at h
  · cases h
    exact hi.read hc hok fun u c' _ _ => apart_of_none rfl rfl
  · have hpresent := present_of_updateChecks hchecks
    rw [hview] at hpresent
    have hwrites : s.db.pending t ++ [.setProperties c.input.databaseId c.input.itemId patch] =
        writes c.input.databaseId c.input.itemId patch none [] := by
      rw [show s.db.pending t = [] from hok]
      rfl
    have hrow : ∀ w ∈ [Write.setProperties c.input.databaseId c.input.itemId patch],
        ∀ row : ℕ × ℕ, w.onItem row.1 row.2 = true →
          ∀ u, u ≠ t → ¬ Patches s.db.pending u row := by
      rintro w hw row hon u hu ⟨w', hw', hon'⟩
      rw [List.mem_singleton.mp hw] at hon
      obtain ⟨hd, hi'⟩ := of_decide_eq_true hon
      rw [← hd, ← hi'] at hon'
      exact hlocked (.of_mem hw' hu hon')
    dsimp only at h
    split_ifs at h
    · exact hi.write hc h hrow ⟨⟨patch, hwrites⟩, hpresent⟩ fun u c' _ _ => apart_of_none rfl rfl
    · exact hi.write hc h hrow ⟨patch, hwrites⟩ fun u c' _ _ => apart_of_none rfl rfl

theorem activeRecurrence_view (h : s.db.pending t = writes d i patch none []) :
    activeRecurrence (s.view ctx t) x = activeRecurrence s.db.committed x := by
  rw [view_of_writes h]
  exact activeRecurrence_afterWrites (.inl rfl)

theorem Inv.advance (hi : Inv ctx s) (hc : s.calls t = some c) (hphase : c.phase = .advance)
    (hpermits : c.Permits ctx (s.view ctx t) s.seq) (h : run ctx s t c = some s') :
    Inv ctx s' := by
  have hok := hi.calls t c hc
  unfold CallOk at hok
  rw [hphase] at hok
  obtain ⟨⟨patch, hwrites⟩, hpresent⟩ := hok
  unfold Call.Permits at hpermits
  rw [hphase] at hpermits
  obtain ⟨timezone, htimezone, hpermits⟩ := hpermits
  unfold run at h
  rw [hphase] at h
  dsimp only at h
  rw [htimezone] at h
  dsimp only at h
  split_ifs at h with hfree
  -- the recurrence is locked whatever is found in it
  have hlocks : ∀ u x, s.locks x = some u →
      Function.update s.locks c.input.itemId (some t) x = some u := by
    intro u x hx
    by_cases hxi : x = c.input.itemId
    · subst hxi
      have hut : u = t := by simpa [hx] using hfree
      rw [Function.update_self, hut]
    · rw [Function.update_of_ne hxi]
      exact hx
  have hrecurrence : activeRecurrence (s.view ctx t) c.input.itemId = _ :=
    activeRecurrence_view hwrites
  have hview : Sys.view ctx { s with locks := Function.update s.locks c.input.itemId (some t) } t =
      s.view ctx t := rfl
  rw [hview, hrecurrence] at h
  rcases hr : activeRecurrence s.db.committed c.input.itemId with _ | r <;> rw [hr] at h
  · cases h
    exact (hi.grow hlocks le_rfl).read hc
      ⟨⟨patch, hwrites⟩, hpresent, Function.update_self _ _ _, hr⟩
      fun u c' _ _ => apart_of_none rfl rfl
  · obtain ⟨item, hitem, hid, hdatabase, hdeleted⟩ :=
      nextItem_ok (hpermits r (hrecurrence.trans hr))
    dsimp only at h
    rw [hitem] at h
    have hfresh : Unmentioned s.db.committed s.seq :=
      ⟨fun r hr => (hi.below.1 r hr).ne,
        fun e he => ⟨(hi.below.2.1 e he).1.ne, (hi.below.2.1 e he).2.ne⟩,
        fun r hr => (hi.below.2.2 r hr).ne⟩
    have hnext : IsNext ctx s.db.committed c.input.databaseId c.input.itemId patch r item := by
      refine ⟨s.view ctx t, timezone, htimezone, hid ▸ hitem, ?_, ?_⟩ <;> rw [view_of_writes hwrites]
      · exact getItemById_afterWrites nofun
      · exact ⟨rfl, rfl⟩
    refine (hi.grow hlocks (Nat.le_succ s.seq)).write hc h (by simp [Write.onItem]) ⟨hpresent,
      Function.update_self _ _ _, hid ▸ Nat.lt_succ_self s.seq, hid ▸ hfresh, patch, item, r, ?_,
      hr, rfl, hdatabase, hdeleted, hnext⟩
      fun u c' hu hc' => ⟨fun n hn => ?_, fun n hn => ⟨?_, nofun⟩⟩
    · show s.db.pending t ++ _ = _
      rw [hwrites]
      rfl
    · -- what the others have drawn and listed is older
      obtain rfl : item.id = n := Option.some.inj hn
      have hother := hi.calls u c' hc'
      refine ⟨fun hn' => (hother.next hn').1.ne (by omega), fun e he => ?_⟩
      have hlt := hother.listed he
      omega
    · intro hn'
      obtain rfl : item.id = n := Option.some.inj hn'
      exact ((hi.calls u c' hc').next hn).1.ne (by omega)

theorem Inv.list (hi : Inv ctx s) (hc : s.calls t = some c) (hphase : c.phase = .list n)
    (hpermits : c.Permits ctx (s.view ctx t) s.seq) (h : run ctx s t c = some s') :
    Inv ctx s' := by
  have hok := hi.calls t c hc
  unfold CallOk at hok
  rw [hphase] at hok
  obtain ⟨hpresent, hlocked, hadvancing⟩ := hok
  obtain ⟨hlt, hun, patch, item, r, hwrites, hr, hid, hrest⟩ := hadvancing
  unfold Call.Permits at hpermits
  rw [hphase] at hpermits
  unfold run at h
  rw [hphase] at h
  cases h
  have hview : s.view ctx t = _ := view_of_writes hwrites
  have hlisted : ∀ e ∈ (s.view ctx t).listAllRelationsForItem c.input.itemId,
      e ∈ s.db.committed.itemRelations := by
    intro e he
    have he := List.mem_of_mem_filter he
    rw [hview] at he
    simpa [afterWrites] using he
  refine hi.read hc ⟨hpresent, hlocked, [], [],
    ⟨hlt, hun, patch, item, r, hwrites, hr, hid, hrest⟩, ?_⟩ fun u c' hu hc' => ⟨?_, ?_⟩
  · exact
    { listed := rfl
      edgesOk := hpermits
      copies := rfl
      definitions := by rw [hview]; rfl
      properties := by rw [hview]; rfl
      live := fun e he databaseId => by
        have hne := hun.edges e (hlisted e he)
        rw [hview, liveness_afterWrites, liveness_afterWrites]
        · exact ⟨rfl, rfl⟩
        all_goals
          rintro a ⟨⟩
          show item.id ≠ _
          omega
      ends := fun e he => ⟨hun.edges e (hlisted e he), hi.below.2.1 e (hlisted e he)⟩
      edges := by
        rw [hview]
        simp [afterWrites] }
  · intro m hm
    have hm : c.next = some m := by
      unfold Call.next
      rw [hphase]
      exact hm
    exact hi.apart t u c c' (Ne.symm hu) hc hc' m hm
  · intro m hm
    have hun' := ((hi.calls u c' hc').next hm).2
    refine ⟨fun hn => (hi.apart u t c' c hu hc' hc m hm).1 ?_,
      fun e he => hun'.edges e (hlisted e he)⟩
    unfold Call.next
    rw [hphase]
    exact hn

theorem liveness_next {item : ItemRow} {r : TaskRecurrence} (hun : Unmentioned committed item.id)
    (hdeleted : item.deletedAt = none) :
    liveness (afterWrites ctx committed d i patch (some (item, r)) copies) item.databaseId
      item.id = some false := by
  have hnone : (committed.items.map (patched ctx d i patch)).find?
      (fun r => r.isAt item.databaseId item.id) = none := by
    rw [List.find?_eq_none]
    intro r' hr'
    obtain ⟨r₀, hr₀, rfl⟩ := List.mem_map.mp hr'
    have hne : (patched ctx d i patch r₀).id ≠ item.id := patched_id.trans_ne (hun.items r₀ hr₀)
    simp [ItemRow.isAt, hne]
  unfold liveness Store.getItemById afterWrites
  rw [List.find?_append, hnone]
  simp [ItemRow.isAt, hdeleted]

theorem Copying.extend {seen : Store} {done left : List ItemRelationRow} {e : ItemRelationRow}
    (h : Copying committed seq i n seen done (e :: left) copies) {copies' : List ItemRelationRow}
    (hcopies : copies'.map edgeData =
      if (copiedSide seen i e).isSome then [copyData i n e] else []) :
    Copying committed seq i n seen (done ++ [e]) left (copies ++ copies') :=
  { h with
    listed := by rw [h.listed]; simp
    copies := by
      rw [List.map_append, h.copies, hcopies, List.filter_append, List.map_append]
      congr 1
      rw [List.filter_singleton]
      cases (copiedSide seen i e).isSome <;> rfl }

theorem Inv.copy {seen : Store} {e : ItemRelationRow} {left : List ItemRelationRow}
    (hi : Inv ctx s) (hc : s.calls t = some c) (hphase : c.phase = .copy n seen (e :: left))
    (hpermits : c.Permits ctx (s.view ctx t) s.seq) (h : run ctx s t c = some s') :
    Inv ctx s' := by
  have hok := hi.calls t c hc
  unfold CallOk at hok
  rw [hphase] at hok
  obtain ⟨hpresent, hlocked, done, copies, hadvancing, hcopying⟩ := hok
  have ⟨hlt, hun, patch, item, r, hwrites, hr, hid, hdatabase, hdeleted, hnext⟩ := hadvancing
  have hview : s.view ctx t = _ := view_of_writes hwrites
  have hmem : e ∈ seen.listAllRelationsForItem c.input.itemId := by simp [hcopying.listed]
  have hends := fun e he => (hcopying.ends e he).1
  -- whether the edge is copied is still what it was when it was listed
  have hside : copiedSide (s.view ctx t) c.input.itemId e = copiedSide seen c.input.itemId e := by
    rw [hview]
    refine copiedSide_congr hcopying.definitions.symm hcopying.properties.symm (fun d' => ?_)
      fun d' => ?_ <;> rw [liveness_afterWrites]
    · exact (hcopying.live e hmem d').1.symm
    · rintro a ⟨⟩
      exact hid.trans_ne (hends e hmem).1.symm
    · exact (hcopying.live e hmem d').2.symm
    · rintro a ⟨⟩
      exact hid.trans_ne (hends e hmem).2.symm
  have hnextEq : ∀ phase, phase = .copy n seen left → Call.next { c with phase } = c.next := by
    rintro _ rfl
    unfold Call.next
    rw [hphase]
  have hlistedEq : ∀ phase, phase = .copy n seen left →
      Call.listed { c with phase } = c.listed := by
    rintro _ rfl
    unfold Call.listed
    rw [hphase]
  unfold Call.Permits at hpermits
  rw [hphase] at hpermits
  unfold run at h
  rw [hphase] at h
  dsimp only at h
  rcases hp : copiedSide (s.view ctx t) c.input.itemId e with _ | p <;> rw [hp] at h
  · cases h
    refine hi.read hc ⟨hpresent, hlocked, done ++ [e], copies ++ [], ?_, ?_⟩
      (hi.apart_of_eq hc (hnextEq _ rfl) (hlistedEq _ rfl))
    · rw [List.append_nil]
      exact hadvancing
    · exact hcopying.extend (by rw [← hside, hp]; rfl)
  · dsimp only at h
    split_ifs at h
    have hsame : Sys.view ctx
        { s with advisory := Function.update s.advisory e.relationDefinitionId (some t) } t =
          s.view ctx t := rfl
    obtain ⟨context, hpermitted⟩ := hpermits p hp
    have hget : seen.getRelationDefinition context.reldef.id = some context.reldef := by
      have := (loadRelationEdgeContext_ok hpermitted.loads).2.1
      rw [hview] at this
      unfold Store.getRelationDefinition at this ⊢
      rw [hcopying.definitions]
      exact this
    have hedges : (s.view ctx t).itemRelations = s.db.committed.itemRelations ++ copies := by
      rw [hview]
      rfl
    obtain ⟨hnone, hconflict⟩ := no_edge_in_the_way hcopying.edgesOk hcopying.listed hget
      hpermitted.of_edge hpermitted.cardinality hcopying.copies hun.edges hends hedges
    have hnew : liveness (s.view ctx t) c.input.databaseId n = some false := by
      rw [hview, ← hdatabase, ← hid]
      exact liveness_next (hid ▸ hun) hdeleted
    have hlistedEnds : e.itemA = c.input.itemId ∨ e.itemB = c.input.itemId := by
      simpa [Store.listAllRelationsForItem] using (List.mem_filter.mp hmem).2
    rw [hsame, copyWrite_ok hp hlistedEnds hpermitted hnew hnone hconflict] at h
    refine (hi.grow (fun _ _ hx => hx) (Nat.le_succ s.seq)).write hc h (by simp [Write.onItem])
      ⟨hpresent, hlocked, done ++ [e], copies ++ [⟨s.seq, e.relationDefinitionId,
        (relinked c.input.itemId n e).1, (relinked c.input.itemId n e).2, e.metadata⟩], ?_, ?_⟩
      (hi.apart_of_eq hc (hnextEq _ rfl) (hlistedEq _ rfl))
    · refine ⟨hlt.trans (Nat.lt_succ_self _), hun, patch, item, r, ?_, hr, hid, hdatabase, hdeleted,
        hnext⟩
      show s.db.pending t ++ _ = _
      rw [hwrites, writes_append]
    · exact (hcopying.mono (Nat.le_succ s.seq)).extend (by rw [← hside, hp]; rfl)

theorem Inv.copied {seen : Store} (hi : Inv ctx s) (hc : s.calls t = some c)
    (hphase : c.phase = .copy n seen []) (h : run ctx s t c = some s') : Inv ctx s' := by
  have hok := hi.calls t c hc
  unfold CallOk at hok
  rw [hphase] at hok
  obtain ⟨hpresent, hlocked, done, copies, hadvancing, hcopying⟩ := hok
  have hdone : seen.listAllRelationsForItem c.input.itemId = done := by
    rw [hcopying.listed, List.append_nil]
  unfold run at h
  rw [hphase] at h
  cases h
  refine hi.read hc ⟨hpresent, hlocked, copies, hadvancing, hdone.symm ▸ hcopying⟩
    (hi.apart_of_eq hc ?_ ?_)
  · unfold Call.next
    rw [hphase]
  · unfold Call.listed
    rw [hphase]

/-! ## The commit -/

theorem Copying.copies_ends {seen : Store} {done : List ItemRelationRow} {P : ℕ → Prop}
    (h : Copying committed seq i n seen done [] copies) (hn : P n)
    (hP : ∀ e ∈ seen.listAllRelationsForItem i, P e.itemA ∧ P e.itemB) :
    ∀ e ∈ copies, P e.itemA ∧ P e.itemB := by
  intro e' he'
  obtain ⟨e, he, heq⟩ := exists_of_mem_copies h.copies he'
  obtain ⟨hA, hB⟩ := hP e (by simp [h.listed, he])
  simp only [edgeData, copyData, relinked, Prod.mk.injEq] at heq
  obtain ⟨-, ⟨hA', hB'⟩, -⟩ := heq
  constructor
  · rw [hA']
    split_ifs <;> assumption
  · rw [hB']
    split_ifs <;> assumption

theorem Below.afterWrites (h : Below seq committed) (hadv : ∀ a ∈ adv, a.1.id < seq)
    (hcopies : ∀ e ∈ copies, e.itemA < seq ∧ e.itemB < seq) :
    Below seq (afterWrites ctx committed d i patch adv copies) := by
  refine ⟨fun r hr => ?_, fun e he => (List.mem_append.mp he).elim (h.2.1 e) (hcopies e),
    fun r hr => ?_⟩
  · rcases List.mem_append.mp hr with hr | hr
    · obtain ⟨r', hr', rfl⟩ := List.mem_map.mp hr
      rw [patched_id]
      exact h.1 r' hr'
    · obtain ⟨a, ha, rfl⟩ := Option.map_eq_some_iff.mp (Option.mem_toList.mp hr)
      exact hadv a ha
  · obtain ⟨r', hr', hid, -⟩ | ⟨a, ha, hid⟩ := mem_taskRecurrences_afterWrites hr
    · rw [hid]
      exact h.2.2 r' hr'
    · rw [hid]
      exact hadv a ha

theorem nodup_afterWrites (h : (committed.taskRecurrences.map (·.itemId)).Nodup)
    (hadv : ∀ a ∈ adv, Unmentioned committed a.1.id) :
    ((afterWrites ctx committed d i patch adv copies).taskRecurrences.map (·.itemId)).Nodup := by
  rcases adv with _ | ⟨item, r⟩
  · exact h
  · have hsame : ∀ rs : List TaskRecurrence,
        (deactivated i rs).map (·.itemId) = rs.map (·.itemId) := by
      intro rs
      unfold deactivated
      rw [List.map_map]
      refine List.map_congr_left fun r _ => ?_
      dsimp only [Function.comp_apply]
      split_ifs <;> rfl
    show ((deactivated i (committed.taskRecurrences ++ _)).map _).Nodup
    rw [hsame, List.map_append, List.nodup_append]
    refine ⟨h, List.nodup_singleton _, fun x hx y hy => ?_⟩
    obtain ⟨r', hr', rfl⟩ := List.mem_map.mp hx
    rw [List.mem_singleton.mp hy]
    exact (hadv (item, r) rfl).recurrences r' hr'

theorem OneActive.afterWrites {root : ℕ → ℕ} {item : ItemRow} {next : TaskRecurrence}
    (h : OneActive committed root) (hun : Unmentioned committed item.id)
    (hnext : activeRecurrence committed i = some next) :
    OneActive (afterWrites ctx committed d i patch (some (item, next)) copies)
      (Function.update root item.id (root i)) := by
  have hi : next ∈ committed.taskRecurrences ∧ next.itemId = i ∧ next.active = true := by
    unfold activeRecurrence getTaskRecurrence at hnext
    obtain ⟨hfind, hactive⟩ := Option.filter_eq_some_iff.mp hnext
    exact ⟨List.mem_of_find?_eq_some hfind, by simpa using List.find?_some hfind, hactive⟩
  -- of the recurrences of before, none that is still active is in the task's chain
  have hold : ∀ r' ∈ committed.taskRecurrences, r'.active = true → r'.itemId ≠ i →
      root r'.itemId ≠ root i := fun r' hr' hactive hne hroot =>
    hne ((h r' hr' next hi.1 hactive hi.2.2 (hroot.trans (congrArg root hi.2.1.symm))).trans
      hi.2.1)
  intro r hr r' hr' hactive hactive' hroot
  obtain ⟨r₀, hr₀, hid, hact⟩ | ⟨a, ⟨⟩, hid⟩ := mem_taskRecurrences_afterWrites hr <;>
    obtain ⟨r₁, hr₁, hid', hact'⟩ | ⟨a', ⟨⟩, hid'⟩ := mem_taskRecurrences_afterWrites hr' <;>
    rw [hid, hid'] at hroot ⊢
  · rw [Function.update_of_ne (hun.recurrences r₀ hr₀),
      Function.update_of_ne (hun.recurrences r₁ hr₁)] at hroot
    exact h r₀ hr₀ r₁ hr₁ (hact hactive).1 (hact' hactive').1 hroot
  · rw [Function.update_of_ne (hun.recurrences r₀ hr₀), Function.update_self] at hroot
    exact absurd hroot
      (hold r₀ hr₀ (hact hactive).1 ((hact hactive).2.resolve_left (Option.some_ne_none _)))
  · rw [Function.update_of_ne (hun.recurrences r₁ hr₁), Function.update_self] at hroot
    exact absurd hroot.symm
      (hold r₁ hr₁ (hact' hactive').1 ((hact' hactive').2.resolve_left (Option.some_ne_none _)))

theorem Inv.commit {root : ℕ → ℕ} {log : List Completion} {db : ReadCommitted Store Write}
    (hi : Inv ctx s) (hc : s.calls t = some c) (hdb : s.db.commit (apply ctx) t = some db)
    (hwrites : s.db.pending t = writes c.input.databaseId c.input.itemId patch adv copies)
    (hadv : ∀ a ∈ adv, c.next = some a.1.id ∧ s.locks c.input.itemId = some t)
    (hcopies : ∀ P : ℕ → Prop, (∀ n, c.next = some n → P n) →
      (∀ e ∈ c.listed, P e.itemA ∧ P e.itemB) → ∀ e ∈ copies, P e.itemA ∧ P e.itemB)
    (hroot : OneActive (RecurringTasks.afterWrites ctx s.db.committed c.input.databaseId
      c.input.itemId patch adv copies) root)
    (hlog : ∀ x ∈ log, x.Exact ctx) : Inv ctx { s.close t db with root, log } := by
  have hok := hi.calls t c hc
  have hfresh : ∀ a ∈ adv, a.1.id < s.seq ∧ Unmentioned s.db.committed a.1.id :=
    fun a ha => hok.next (hadv a ha).1
  have hcommitted : db.committed = RecurringTasks.afterWrites ctx s.db.committed
      c.input.databaseId c.input.itemId patch adv copies :=
    (ReadCommitted.commit_committed hdb).trans (view_of_writes hwrites)
  have hother : ∀ u c', Function.update s.calls t none u = some c' →
      u ≠ t ∧ s.calls u = some c' := fun _ _ hc' => of_update_none hc'
  exact
  { below := by
      show Below s.seq db.committed
      rw [hcommitted]
      exact hi.below.afterWrites (fun a ha => (hfresh a ha).1)
        (hcopies (· < s.seq) (fun n hn => (hok.next hn).1) fun e he => hok.listed he)
    key := by
      show (db.committed.taskRecurrences.map _).Nodup
      rw [hcommitted]
      exact nodup_afterWrites hi.key fun a ha => (hfresh a ha).2
    one_active := by
      show OneActive db.committed root
      rw [hcommitted]
      exact hroot
    opened := fun u c' hc' => by
      obtain ⟨hu, hc'⟩ := hother u c' hc'
      exact (ReadCommitted.commit_opened hdb).symm ▸
        Finset.mem_erase.mpr ⟨hu, hi.opened u c' hc'⟩
    calls := fun u c' hc' => by
      obtain ⟨hu, hc'⟩ := hother u c' hc'
      have hapart := hi.apart t u c c' (Ne.symm hu) hc hc'
      show CallOk ctx db.committed (db.pending u) _ _ _
      rw [hcommitted, ReadCommitted.commit_pending hdb, Function.update_of_ne hu]
      refine CallOk.mono (CallOk.afterWrites (hi.calls u c' hc') (fun hlocked => ?_)
        (fun a ha => (hfresh a ha).2) (fun n hn => ⟨fun a ha => ?_, ?_⟩)
        (fun a ha => (hapart _ (hadv a ha).1).2) fun w hw => ?_) (fun hlocked => ?_) le_rfl
      · -- the recurrence of the task is locked by this transaction
        rcases adv with _ | a
        · exact .inl rfl
        · refine .inr fun hsame => hu ?_
          have hlock := (hadv a rfl).2
          rw [← hsame, hlocked] at hlock
          exact Option.some.inj hlock
      · exact fun heq => (hapart _ (hadv a ha).1).1 (heq ▸ hn)
      · obtain hapart' := hi.apart u t c' c hu hc' hc n hn
        exact hcopies (· ≠ n) (fun m hm hmn => hapart'.1 (hmn ▸ hm)) hapart'.2
      · -- the row of the task is written by this transaction
        rw [← Bool.not_eq_true]
        refine fun hon => hu (hi.rows u t (c.input.databaseId, c.input.itemId) ⟨w, hw, hon⟩
          ⟨.setProperties c.input.databaseId c.input.itemId patch, ?_, by simp [Write.onItem]⟩)
        rw [hwrites]
        exact List.mem_cons_self
      · show (s.locks c'.input.itemId).filter _ = some u
        simp [hlocked, hu]
    apart := fun u v c₁ c₂ huv hc₁ hc₂ =>
      hi.apart u v c₁ c₂ huv (hother u c₁ hc₁).2 (hother v c₂ hc₂).2
    rows := by
      refine hi.rows.mono fun u row hw => ?_
      obtain ⟨w, hw, hon⟩ := hw
      exact ⟨w, (ReadCommitted.mem_closed_pending (ReadCommitted.commit_pending hdb) hw).2, hon⟩
    log := hlog }

theorem Inv.plain (hi : Inv ctx s) (hc : s.calls t = some c) (hphase : c.phase = .plain)
    (h : run ctx s t c = some s') : Inv ctx s' := by
  have hok := hi.calls t c hc
  unfold CallOk at hok
  rw [hphase] at hok
  obtain ⟨patch, hwrites⟩ := hok
  unfold run at h
  rw [hphase] at h
  obtain ⟨db, hdb, rfl⟩ := Option.map_eq_some_iff.mp h
  exact hi.commit hc hdb hwrites nofun (fun _ _ _ => nofun) hi.one_active hi.log

theorem Inv.done {next : Option (ℕ × Store)} (hi : Inv ctx s) (hc : s.calls t = some c)
    (hphase : c.phase = .done next) (h : run ctx s t c = some s') : Inv ctx s' := by
  have hok := hi.calls t c hc
  unfold CallOk at hok
  rw [hphase] at hok
  unfold run at h
  rw [hphase] at h
  obtain ⟨db, hdb, rfl⟩ := Option.map_eq_some_iff.mp h
  have hcommitted := ReadCommitted.commit_committed hdb
  have hlog : ∀ x : Completion, x.Exact ctx → ∀ y ∈ s.log ++ [x], y.Exact ctx := fun x hx y hy =>
    (List.mem_append.mp hy).elim (hi.log y) fun hy => List.mem_singleton.mp hy ▸ hx
  rcases next with _ | ⟨n, seen⟩
  · obtain ⟨⟨patch, hwrites⟩, -, -, hnone⟩ := hok
    refine hi.commit hc hdb hwrites nofun (fun _ _ _ => nofun) hi.one_active (hlog _ ?_)
    unfold Completion.Exact
    dsimp only
    rw [hnone]
    exact ⟨patch, hcommitted.trans (view_of_writes hwrites)⟩
  · obtain ⟨-, hlocked, copies, hadvancing, hcopying⟩ := hok
    obtain ⟨hlt, hun, patch, item, r, hwrites, hr, rfl, -, -, hitem⟩ := hadvancing
    have hnext : c.next = some item.id := by
      unfold Call.next
      rw [hphase]
    have hlisted : c.listed = seen.listAllRelationsForItem c.input.itemId := by
      unfold Call.listed
      rw [hphase]
    refine hi.commit hc hdb hwrites ?_ (fun P hn hP => ?_) (hi.one_active.afterWrites hun hr)
      (hlog _ ?_)
    · rintro a ⟨⟩
      exact ⟨hnext, hlocked⟩
    · exact hcopying.copies_ends (hn _ hnext) (hlisted ▸ hP)
    · unfold Completion.Exact
      dsimp only
      rw [hr]
      exact ⟨hun, hcopying.edges, patch, item, copies,
        hcommitted.trans (view_of_writes hwrites), rfl, hitem, hcopying.copies⟩

/-! ## Runs -/

theorem Inv.edit {tables : Store} (hi : Inv ctx s)
    (h : step ctx s (.edit tables seq) = some s') : Inv ctx s' := by
  simp only [step] at h
  split_ifs at h with hedit
  obtain ⟨hopened, -, hbelow⟩ := hedit
  cases h
  have hnone : ∀ t c, s.calls t ≠ some c := fun t c hc => by
    have := hi.opened t c hc
    rw [hopened] at this
    exact absurd this (Finset.notMem_empty t)
  exact
  { below := hbelow
    key := hi.key
    one_active := hi.one_active
    opened := fun t c hc => absurd hc (hnone t c)
    calls := fun t c hc => absurd hc (hnone t c)
    apart := fun t u c c' _ hc => absurd hc (hnone t c)
    rows := by
      rintro t u row ⟨w, hw, -⟩
      cases hw
    log := hi.log }

theorem Inv.step {a : Act} (hi : Inv ctx s) (hok : Permits ctx s a)
    (h : step ctx s a = some s') : Inv ctx s' := by
  rcases a with ⟨t, input, options⟩ | t | t | ⟨tables, seq⟩
  · exact hi.begin h
  · obtain ⟨c, hc, h⟩ := Option.bind_eq_some_iff.mp h
    have hpermits := hok c hc
    rcases hphase : c.phase with _ | _ | n | ⟨n, seen, _ | ⟨e, left⟩⟩ | next | _ | e | e
    · exact hi.update hc hphase h
    · exact hi.advance hc hphase hpermits h
    · exact hi.list hc hphase hpermits h
    · exact hi.copied hc hphase h
    · exact hi.copy hc hphase hpermits h
    · exact hi.done hc hphase h
    · exact hi.plain hc hphase h
    · rw [run, hphase] at h
      exact hi.rollback h
    · rw [run, hphase] at h
      exact hi.rollback h
  · exact hi.rollback h
  · exact hi.edit h

/-- What a transaction waits for: the task that another has written, the recurrence that another has
locked, and the relation definition that another copies an edge of. -/
def Sys.Waits (s : Sys) (t : ℕ) (c : Call) : Prop :=
  match c.phase with
  | .update => s.db.Locked t (Write.onItem c.input.databaseId c.input.itemId)
  | .advance => ∃ u, u ≠ t ∧ s.locks c.input.itemId = some u
  | .copy _ _ (e :: _) => ∃ u, u ≠ t ∧ s.advisory e.relationDefinitionId = some u
  | _ => False

theorem Inv.goes_on (hi : Inv ctx s) (hc : s.calls t = some c) (hwaits : ¬ s.Waits t c) :
    (RecurringTasks.step ctx s (.run t)).isSome = true := by
  have hopened := hi.opened t c hc
  have hwrite : ∀ locks advisory seq ws phase,
      (Sys.write { s with locks, advisory, seq } t c ws phase).isSome = true := by
    intro locks advisory seq ws phase
    simp [Sys.write, ReadCommitted.write, hopened]
  have hfree : ∀ o : Option ℕ, (¬ ∃ u, u ≠ t ∧ o = some u) → o.all (· = t) = true := by
    intro o ho
    rw [Option.all_eq_true]
    intro u hu
    by_contra hut
    exact ho ⟨u, by simpa using hut, hu⟩
  unfold Sys.Waits at hwaits
  simp only [RecurringTasks.step, hc, Option.bind_some]
  rcases hphase : c.phase with _ | _ | n | ⟨n, seen, _ | ⟨e, left⟩⟩ | next | _ | e | e <;>
    rw [hphase] at hwaits <;> unfold run <;> rw [hphase] <;> dsimp only
  · rw [if_neg hwaits]
    split
    · rfl
    · exact hwrite s.locks s.advisory s.seq _ _
  · split
    · rfl
    rw [if_pos (hfree _ hwaits)]
    split
    · rfl
    · split
      · rfl
      · exact hwrite _ s.advisory _ _ _
  · rfl
  · rfl
  · split
    · rfl
    · rw [if_pos (hfree _ hwaits)]
      split
      · rfl
      · exact hwrite s.locks _ _ _ _
  · simp [RecurringTasks.commit, ReadCommitted.commit, hopened]
  · simp [ReadCommitted.commit, hopened]
  · simp [ReadCommitted.rollback, hopened]
  · simp [ReadCommitted.rollback, hopened]

theorem inv_init {root : ℕ → ℕ} (hbelow : Below seq committed)
    (hkey : (committed.taskRecurrences.map (·.itemId)).Nodup)
    (hactive : OneActive committed root) : Inv ctx (.init committed seq root) where
  below := hbelow
  key := hkey
  one_active := hactive
  opened := fun _ _ hc => absurd hc.symm (Option.some_ne_none _)
  calls := fun _ _ hc => absurd hc.symm (Option.some_ne_none _)
  apart := fun _ _ _ _ _ hc => absurd hc.symm (Option.some_ne_none _)
  rows := by
    rintro t u row ⟨w, hw, -⟩
    cases hw
  log := fun _ hx => absurd hx List.not_mem_nil

/-- In every run whose completions find what the next instance and the copies ask for, whatever the
interleaving: no advance throws, and each transaction goes on to its end unless it waits for
another; a completion that commits has advanced an active recurrence exactly once, with a copy of
each edge to a live counterpart; and no chain has two active recurrences. -/
theorem completions_exact (ctx : Context) (s₀ : Store) (seq : ℕ) (root : ℕ → ℕ) (s : Sys)
    (hbelow : Below seq s₀) (hkey : (s₀.taskRecurrences.map (·.itemId)).Nodup)
    (hactive : OneActive s₀ root) (h : Reach (step ctx) (Permits ctx) (.init s₀ seq root) s) :
    (∀ t c, s.calls t = some c → (∀ e, c.phase ≠ .failed e) ∧
      (¬ s.Waits t c → (step ctx s (.run t)).isSome = true)) ∧
    (∀ x ∈ s.log, x.Exact ctx) ∧ OneActive s.db.committed s.root := by
  have hi : Inv ctx s := h.invariant (inv_init hbelow hkey hactive)
    fun _ _ _ hi hok h => hi.step hok h
  refine ⟨fun t c hc => ⟨fun e hphase => ?_, fun hwaits => hi.goes_on hc hwaits⟩, hi.log,
    hi.one_active⟩
  have hok := hi.calls t c hc
  unfold CallOk at hok
  rw [hphase] at hok
  exact hok

/-- A clock at rest, one time zone, and a rule of every day. -/
def dailyContext : Context where
  env :=
  { now := 0
    validTimezone := fun timezone => timezone == defaultTimezone
    today := fun _ => "1970-01-01"
    computeNextDueDate := fun _ _ _ => "1970-01-02"
    assertWrittenConfigStorable := fun _ _ _ => .ok ()
    relationEdgeWriteHook := fun _ _ _ _ _ => .ok () }
  computeNextDueDate := fun _ _ _ => .ok "1970-01-02"

def assigned (cardinality : Cardinality) : Store := { Store.empty with
  databases := [⟨1, none, none, none, none, some tasksModuleId, false, true, none⟩,
    ⟨2, none, none, none, none, none, false, false, none⟩]
  properties := [⟨10, 1, "place", none, .relation,
      { PropertyConfig.empty with relationDefinitionId := some 20, targetDatabaseId := some 2 },
      false, .user, none, .stable⟩,
    field 11 "name" .title, field 12 "status" .select, field 13 "date" .date,
    field 14 "timeFrom" .time, field 15 "timeTo" .time, field 16 "notifications" .checkbox,
    field 17 "persistent" .checkbox]
  relationDefinitions := [⟨20, 10, none, cardinality⟩]
  items := [⟨100, 1, [("name", .str "Water the plants"), ("status", .str "notDone"),
      ("date", .str "1970-01-01")], [], 0, none⟩, ⟨200, 2, [], [], 0, none⟩]
  itemRelations := [⟨300, 20, 100, 200, []⟩]
  taskRecurrences := [⟨100, "floating", .obj [("unit", .str "days"), ("n", .num ⟨1, 0⟩)], true⟩] }
where
  field (id : ℕ) (key : String) (type : PropertyType) : PropertyRow :=
    ⟨id, 1, key, none, type, .empty, false, .user, none, .stable⟩

def marked (statements : ℕ) : List Act :=
  .begin 1 ⟨1, 100, [("status", .str "done")], none⟩ .none :: List.replicate statements (.run 1)

instance (cardinality : Cardinality) (i : ℕ) (e : ItemRelationRow) :
    Decidable (CardinalityPermits cardinality i e) := by
  unfold CardinalityPermits
  split <;> infer_instance

/-- `Call.Permits`, computed where there is one edge at most. -/
def Call.permits (ctx : Context) (store : Store) (id : ℕ) (c : Call) : Bool :=
  match c.phase with
  | .advance =>
    match getSystemTimezone store, activeRecurrence store c.input.itemId with
    | .error _, _ => false
    | .ok _, none => true
    | .ok timezone, some r =>
      match store.getItemById c.input.databaseId c.input.itemId with
      | some current =>
        ctx.env.validTimezone timezone &&
          match ctx.computeNextDueDate r.mode r.rule timezone with
          | .error _ => false
          | .ok nextDate =>
            (newItem ctx store c.input.databaseId (nextInstance current.properties nextDate)
              id).isOk
      | none => false
  | .list _ => store.itemRelations.length ≤ 1
  | .copy n _ (e :: _) =>
    match copiedSide store c.input.itemId e with
    | none => true
    | some p =>
      match loadRelationEdgeContext store p with
      | .error _ => false
      | .ok context =>
        decide (context.reldef.id = e.relationDefinitionId) &&
          (assertRelationDatabasesNotArchived store context).isOk &&
          (assertRelationPropertyWritable context.property (some tasksRelationContext)).isOk &&
          decide (e.itemA = c.input.itemId → context.property.databaseId = c.input.databaseId) &&
          decide (e.itemB = c.input.itemId → context.targetDatabaseId = c.input.databaseId) &&
          (ctx.env.relationEdgeWriteHook store context (relinked c.input.itemId n e).1
            (relinked c.input.itemId n e).2 (some e.metadata)).isOk &&
          decide (CardinalityPermits context.reldef.cardinality c.input.itemId e)
  | _ => true

theorem eq_ok_of_isOk {x : Except Failure Unit} (h : x.isOk = true) : x = .ok () := by
  cases x with
  | error e => cases h
  | ok u => rfl

theorem edgesOk_of_length {store : Store} (h : store.itemRelations.length ≤ 1) :
    RelationEdges.EdgesOk store := by
  have hpairwise : ∀ {R : ItemRelationRow → ItemRelationRow → Prop} {l : List ItemRelationRow},
      l.length ≤ 1 → l.Pairwise R := by
    rintro R (_ | ⟨e, _ | _⟩) hl
    · exact List.Pairwise.nil
    · exact List.pairwise_singleton R e
    · simp at hl
  exact ⟨hpairwise h, fun d _ _ => hpairwise ((List.length_filter_le _ _).trans h),
    fun d _ _ => hpairwise ((List.length_filter_le _ _).trans h)⟩

theorem Call.Permits.of_permits {store : Store} {id : ℕ} (h : c.permits ctx store id = true) :
    c.Permits ctx store id := by
  rcases c with ⟨input, options, phase⟩
  rcases phase with _ | _ | n | ⟨n, seen, _ | ⟨e, left⟩⟩ | next | _ | e | e
  case advance =>
    simp only [Call.permits] at h
    rcases htimezone : getSystemTimezone store with e | timezone
    · rw [htimezone] at h
      cases h
    refine ⟨timezone, htimezone, fun r hr => ?_⟩
    rw [htimezone, hr] at h
    dsimp only at h
    split at h
    · rename_i current hcurrent
      simp only [Bool.and_eq_true] at h
      obtain ⟨hvalid, h⟩ := h
      split at h
      · cases h
      · rename_i nextDate hdate
        rcases hitem : newItem ctx store input.databaseId
          (nextInstance current.properties nextDate) id with e | item
        · rw [hitem] at h
          cases h
        · exact ⟨current, nextDate, item, hcurrent, hvalid, hdate, hitem⟩
    · cases h
  case list => exact edgesOk_of_length (by simpa [Call.permits] using h)
  case copy.cons =>
    intro p hp
    simp only [Call.permits] at h
    rw [hp] at h
    dsimp only at h
    split at h
    · cases h
    · rename_i context hload
      simp only [Bool.and_eq_true, decide_eq_true_eq] at h
      obtain ⟨⟨⟨⟨⟨⟨hedge, harchived⟩, hwritable⟩, hA⟩, hB⟩, hhook⟩, hcardinality⟩ := h
      exact ⟨context, hload, hedge, eq_ok_of_isOk harchived, eq_ok_of_isOk hwritable, hA, hB,
        eq_ok_of_isOk hhook, hcardinality⟩
  all_goals trivial

def permits (ctx : Context) (s : Sys) : Act → Bool
  | .run t => (s.calls t).all (Call.permits ctx (s.view ctx t) s.seq)
  | _ => true

theorem Permits.of_permits {a : Act} (h : permits ctx s a = true) : Permits ctx s a := by
  cases a with
  | run t =>
    intro c hc
    have h : (s.calls t).all (Call.permits ctx (s.view ctx t) s.seq) = true := h
    rw [hc] at h
    exact Call.Permits.of_permits h
  | _ => trivial

theorem oneActive_assigned {cardinality : Cardinality} {root : ℕ → ℕ} :
    OneActive (assigned cardinality) root := by
  intro r hr r' hr' _ _ _
  rw [List.mem_singleton.mp hr, List.mem_singleton.mp hr']

theorem completions_exact_marked : ∃ s,
    runChecked (step dailyContext) (permits dailyContext) (.init (assigned .many_to_many) 1000 id)
      (marked 6) = some s ∧
    s.db.committed.itemRelations.map (fun e => (e.itemA, e.itemB)) = [(100, 200), (1000, 200)] ∧
      (∀ x ∈ s.log, x.Exact dailyContext) ∧ OneActive s.db.committed s.root := by
  obtain ⟨s, hs⟩ := Option.isSome_iff_exists.mp (by decide +kernel : (runChecked (step dailyContext)
    (permits dailyContext) (.init (assigned .many_to_many) 1000 id) (marked 6)).isSome = true)
  refine ⟨s, hs, ?_, (completions_exact dailyContext (assigned .many_to_many) 1000 id s
    (by decide) (by decide) oneActive_assigned
    (.of_runChecked (fun _ _ => Permits.of_permits) hs)).2⟩
  exact eq_of_map_eq (f := fun s : Sys => s.db.committed.itemRelations.map fun e =>
    (e.itemA, e.itemB)) (b := [(100, 200), (1000, 200)]) hs (by decide +kernel)

def Phase.thrown : Phase → Option String
  | .failed (.chokePoint e) => some e.message
  | _ => none

/-- The copy of an edge that may exist once only takes the completion with it. -/
theorem one_to_one_fails : ¬ ∀ (ctx : Context) (s₀ : Store) (seq : ℕ) (root : ℕ → ℕ) (s : Sys),
    Below seq s₀ → (s₀.taskRecurrences.map (·.itemId)).Nodup → OneActive s₀ root →
      RelationEdges.EdgesOk s₀ → Reach (step ctx) (fun _ _ => True) (.init s₀ seq root) s →
        ∀ t c, s.calls t = some c → ∀ e, c.phase ≠ .failed e := by
  intro hall
  obtain ⟨s, hs⟩ := Option.isSome_iff_exists.mp (by decide +kernel : (runActs (step dailyContext)
    (.init (assigned .one_to_one) 1000 id) (marked 4)).isSome = true)
  have hthrown : (s.calls 1).bind (fun c => c.phase.thrown) = some
      "Relation 20 (one_to_one) rejected item_a=1000/item_b=200: cardinality violation" :=
    eq_of_map_eq (f := fun s : Sys => (s.calls 1).bind fun c => c.phase.thrown) hs
      (by decide +kernel)
  obtain ⟨c, hc, hphase⟩ := Option.bind_eq_some_iff.mp hthrown
  have hnever := hall dailyContext (assigned .one_to_one) 1000 id s (by decide) (by decide)
    oneActive_assigned (edgesOk_of_length (by decide)) (.of_runActs hs) 1 c hc
  rcases hp : c.phase with _ | _ | _ | _ | _ | _ | _ | e <;> rw [hp] at hphase
  case failed => exact hnever e hp
  all_goals cases hphase

end RecurringTasks

end Semprec
