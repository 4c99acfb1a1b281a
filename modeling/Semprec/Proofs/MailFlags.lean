import Semprec.MailFlags

/-!
# What becomes of a flag that the user sets

A value of the user is safe while its row is pending, which no observation touches.  Once the row
has converged the next observation decides: the invariant says that the other value is then nowhere
in flight but on a copy that was changed at the provider (`Inv.safe`).  A pass keeps this as long as
its own writes do (`Inv.setPass`).
-/

namespace Semprec

namespace MailFlags

variable {s s' : Sys} {x x' : Pass} {slot : Slot} {p m c : ℕ} {b : Bool}

theorem isBool_iff {value : Option Json} : isBool value b = true ↔ value = some (.bool b) := by
  unfold isBool
  split
  · simp
  · next hne =>
    constructor
    · intro h
      cases h
    · rintro rfl
      exact absurd rfl (hne b)

theorem not_pending_iff {row : SyncState} :
    row.pending = false ↔ row.currentState = some row.desiredState := by
  simp [SyncState.pending]

inductive Converged (s : Sys) (slot : Slot) : Prop where
  | committed {row : SyncState} : (s.items slot).byUser = true → s.syncs slot = some row →
      row.pending = false → Converged s slot
  | pass {p : ℕ} {x : Pass} {row : SyncState} : (s.items slot).byUser = true →
      s.passes p = some x → x.items slot = none → x.syncs slot = some row →
      row.pending = false → Converged s slot

theorem Converged.byUser (h : Converged s slot) : (s.items slot).byUser = true := by
  cases h with
  | committed h => exact h
  | pass h => exact h

structure PassOk (s : Sys) (x : Pass) : Prop where
  itemSync : ∀ slot, x.items slot ≠ none → x.syncs slot ≠ none
  desired : ∀ slot row, x.syncs slot = some row →
    (s.item x slot).value = some (.bool row.desiredState)
  pending : x.listed = none → ∀ slot row, x.syncs slot = some row → row.pending = true →
    x.items slot = none
  kept : ∀ r ∈ x.replaced, r.changed = true

structure Inv (s : Sys) : Prop where
  fresh : ∀ p, s.nextPass ≤ p → s.passes p = none
  locks : ∀ p q x y slot, s.passes p = some x → s.passes q = some y → x.syncs slot ≠ none →
    y.syncs slot ≠ none → p = q
  passes : ∀ p x, s.passes p = some x → PassOk s x
  byUser : ∀ slot, (s.items slot).byUser = true → ∃ row, s.syncs slot = some row
  desired : ∀ slot row, s.syncs slot = some row →
    (s.items slot).value = some (.bool row.desiredState)
  held : ∀ slot c, (s.items slot).byUser = true →
    agrees (s.items slot).value (s.provider slot c) = true → s.held slot c = true
  safe : ∀ slot b, Converged s slot → (s.items slot).value = some (.bool b) →
    Agreed s (s.changed slot) slot b
  kept : ∀ r ∈ s.replaced, r.changed = true

theorem inv_init (values : Slot → Option Json) (provider : Slot → ℕ → Option Bool) :
    Inv (.init values provider) where
  fresh _ _ := rfl
  locks _ _ _ _ _ h := by cases h
  passes _ _ h := by cases h
  byUser _ h := by cases h
  desired _ _ h := by cases h
  held _ _ h := by cases h
  safe _ _ h := by cases h.byUser
  kept _ h := by cases h

theorem Inv.flagsKept (h : Inv s) : FlagsKept s := ⟨h.desired, h.kept⟩

/-! ## What a transaction reads -/

theorem item_of_none (h : x.items slot = none) : s.item x slot = s.items slot := by
  simp [Sys.item, h]

theorem items_eq_none (h : (s.item x slot).byUser = true) : x.items slot = none := by
  rcases hx : x.items slot with _ | v
  · rfl
  · simp [Sys.item, hx] at h

theorem sync_of_none (h : x.syncs slot = none) : s.sync x slot = s.syncs slot := by
  simp [Sys.sync, h]

theorem sync_of_some {row : SyncState} (h : x.syncs slot = some row) :
    s.sync x slot = some row := by
  simp [Sys.sync, h]

theorem PassOk.item_of_sync (h : PassOk s x) (hs : x.syncs slot = none) : x.items slot = none := by
  by_contra hne
  exact h.itemSync slot hne hs

/-- What a pass reads is as consistent as what is committed. -/
theorem Inv.view {row : SyncState} (h : Inv s) (hx : PassOk s x)
    (hrow : s.sync x slot = some row) : (s.item x slot).value = some (.bool row.desiredState) := by
  rcases hs : x.syncs slot with _ | row'
  · rw [sync_of_none hs] at hrow
    rw [item_of_none (hx.item_of_sync hs)]
    exact h.desired slot row hrow
  · rw [sync_of_some hs] at hrow
    cases hrow
    exact hx.desired slot row hs

theorem Converged.of_view {row : SyncState} (hp : s.passes p = some x)
    (hu : (s.items slot).byUser = true) (hi : x.items slot = none)
    (hrow : s.sync x slot = some row) (hrow' : row.pending = false) : Converged s slot := by
  rcases hs : x.syncs slot with _ | row'
  · rw [sync_of_none hs] at hrow
    exact .committed hu hrow hrow'
  · rw [sync_of_some hs] at hrow
    cases hrow
    exact .pass hu hp hi hs hrow'

theorem syncs_eq_none (h : Inv s) (hfree : s.SyncFree (some p) slot) {q : ℕ} {y : Pass}
    (hq : s.passes q = some y) (hne : q ≠ p) : y.syncs slot = none := by
  have hlt : q < s.nextPass := by
    by_contra hge
    cases hq.symm.trans (h.fresh q (Nat.le_of_not_lt hge))
  have hall := hfree q hlt (by simpa using hne)
  simpa [hq] using hall

/-! ## A step of a pass -/

theorem passes_setPass {q : ℕ} {y : Pass} (hq : (s.setPass p x').passes q = some y) :
    (q = p ∧ y = x') ∨ (q ≠ p ∧ s.passes q = some y) := by
  unfold Sys.setPass at hq
  by_cases hqp : q = p
  · subst hqp
    simp only [Function.update_self, Option.some.injEq] at hq
    exact .inl ⟨rfl, hq.symm⟩
  · simp only [Function.update_of_ne hqp] at hq
    exact .inr ⟨hqp, hq⟩

/-- A pass writes: the rows it writes first are free, what it reads stays consistent, and what it
has in flight or brings to converge contradicts no flag of the user's. -/
theorem Inv.setPass (h : Inv s) (hp : s.passes p = some x) (hok : PassOk s x')
    (hfree : ∀ slot, x'.syncs slot ≠ none → x.syncs slot ≠ none ∨ s.SyncFree (some p) slot)
    (hflight : ∀ slot b c, (s.items slot).value = some (.bool b) →
      InFlight (s.setPass p x') slot (!b) c → InFlight s slot (!b) c)
    (hconv : ∀ slot row, (s.items slot).byUser = true → x'.items slot = none →
      x'.syncs slot = some row → row.pending = false →
      Converged s slot ∨ Agreed s (s.changed slot) slot row.desiredState) :
    Inv (s.setPass p x') where
  fresh q hq := by
    have hne : q ≠ p := by
      rintro rfl
      cases hp.symm.trans (h.fresh q hq)
    simpa [Sys.setPass, hne] using h.fresh q hq
  locks q q' y y' slot hq hq' hy hy' := by
    have hother : ∀ q y, q ≠ p → s.passes q = some y → y.syncs slot ≠ none →
        x'.syncs slot = none := fun q y hne hq hy => by
      by_contra hx'
      rcases hfree slot hx' with hx | hx
      · exact hne (h.locks q p y x slot hq hp hy hx)
      · exact hy (syncs_eq_none h hx hq hne)
    rcases passes_setPass hq with ⟨hqp, hyx⟩ | ⟨hne, hq⟩
    · rcases passes_setPass hq' with ⟨hqp', -⟩ | ⟨hne', hq'⟩
      · exact hqp.trans hqp'.symm
      · exact absurd (hother q' y' hne' hq' hy') (hyx ▸ hy)
    · rcases passes_setPass hq' with ⟨-, hyx'⟩ | ⟨-, hq'⟩
      · exact absurd (hother q y hne hq hy) (hyx' ▸ hy')
      · exact h.locks q q' y y' slot hq hq' hy hy'
  passes q y hq := by
    rcases passes_setPass hq with ⟨rfl, rfl⟩ | ⟨hne, hq⟩
    · exact ⟨hok.itemSync, hok.desired, hok.pending, hok.kept⟩
    · have hy := h.passes q y hq
      exact ⟨hy.itemSync, hy.desired, hy.pending, hy.kept⟩
  byUser := h.byUser
  desired := h.desired
  held := h.held
  safe slot b hc hb := by
    have hagreed : Agreed s (s.changed slot) slot b := by
      cases hc with
      | committed hu hrow hrow' => exact h.safe slot b (.committed hu hrow hrow') hb
      | @pass q y row hu hq hi hrow hrow' =>
        rcases passes_setPass hq with ⟨rfl, rfl⟩ | ⟨hne, hq⟩
        · have hd := hok.desired slot row hrow
          rw [item_of_none hi] at hd
          have hbd : row.desiredState = b := by
            have := hd.symm.trans hb
            simpa using this
          rcases hconv slot row hu hi hrow hrow' with hc | hc
          · exact h.safe slot b hc hb
          · rwa [hbd] at hc
        · exact h.safe slot b (.pass hu hq hi hrow hrow') hb
    exact fun c hf => hagreed c (hflight slot b c hb hf)
  kept := h.kept

theorem InFlight.congr (h : InFlight s' slot b c) (hprovider : s'.provider = s.provider)
    (hpasses : s'.passes = s.passes) : InFlight s slot b c := by
  cases h with
  | provider h => exact .provider (by rw [← hprovider]; exact h)
  | observed hq ho hm hc hb => exact .observed (by rw [← hpasses]; exact hq) ho hm hc hb
  | listed hq hws hw hslot hc hb =>
    exact .listed (by rw [← hpasses]; exact hq) hws hw hslot hc hb

theorem InFlight.of_setPass (h : InFlight (s.setPass p x') slot b c) (hp : s.passes p = some x)
    (hobs : ∀ o ∈ x'.observed, o ∈ x.observed)
    (hlisted : ∀ ws w c, x'.listed = some ws → w ∈ ws → c ∈ w.copies →
      ∃ ws' w', x.listed = some ws' ∧ w' ∈ ws' ∧ w'.slot = w.slot ∧
        w'.desiredState = w.desiredState ∧ c ∈ w'.copies) : InFlight s slot b c := by
  cases h with
  | provider h => exact .provider h
  | observed hq ho hm hc hb =>
    rcases passes_setPass hq with ⟨rfl, rfl⟩ | ⟨-, hq⟩
    · exact .observed hp (hobs _ ho) hm hc hb
    · exact .observed hq ho hm hc hb
  | listed hq hws hw hslot hc hb =>
    rcases passes_setPass hq with ⟨rfl, rfl⟩ | ⟨-, hq⟩
    · obtain ⟨ws', w', hws', hw', hslot', hb', hc'⟩ := hlisted _ _ _ hws hw hc
      exact .listed hp hws' hw' (hslot'.trans hslot) hc' (hb'.trans hb)
    · exact .listed hq hws hw hslot hc hb

theorem setPass_self (p : ℕ) (x x' : Pass) : (s.setPass p x).setPass p x' = s.setPass p x' := by
  simp [Sys.setPass, Function.update_idem]

/-! ## An observation -/

theorem recordObserved_of_pending {row : Option SyncState} {value : Bool}
    (h : row.any SyncState.pending = false) : recordObserved row value = ⟨value, some value⟩ := by
  rcases row with _ | row
  · rfl
  · simp only [Option.any_some] at h
    simp [recordObserved, h]

theorem items_observeFlag_of_ne {o : Observation} {key : MailMessageFlagKey}
    (hne : slot ≠ ⟨o.messageItemId, key⟩) : (observeFlag s o x key).items slot = x.items slot := by
  simp only [observeFlag]
  split_ifs
  · exact Function.update_of_ne hne ..
  · rfl

theorem syncs_observeFlag_of_ne {o : Observation} {key : MailMessageFlagKey}
    (hne : slot ≠ ⟨o.messageItemId, key⟩) : (observeFlag s o x key).syncs slot = x.syncs slot :=
  Function.update_of_ne hne ..

theorem syncs_observeFlag {o : Observation} {key : MailMessageFlagKey} :
    (observeFlag s o x key).syncs ⟨o.messageItemId, key⟩ =
      some (recordObserved (s.sync x ⟨o.messageItemId, key⟩) (o.flags key)) :=
  Function.update_self ..

def Replaces (s : Sys) (x : Pass) (o : Observation) (key : MailMessageFlagKey) : Prop :=
  (s.sync x ⟨o.messageItemId, key⟩).any SyncState.pending = false ∧
    isBool (s.item x ⟨o.messageItemId, key⟩).value (o.flags key) = false

theorem observeFlag_of_replaces {o : Observation} {key : MailMessageFlagKey}
    (h : Replaces s x o key) :
    (observeFlag s o x key).items ⟨o.messageItemId, key⟩ = some (o.flags key) ∧
      ∀ r ∈ (observeFlag s o x key).replaced, r ∈ x.replaced ∨
        ((s.item x ⟨o.messageItemId, key⟩).byUser = true ∧
          r.changed = s.changed ⟨o.messageItemId, key⟩ o.copy) := by
  simp only [observeFlag, h.1, h.2, Bool.not_false, Bool.and_self, if_true, Bool.true_and]
  refine ⟨Function.update_self .., fun r hr => ?_⟩
  split_ifs at hr with hu
  · rcases List.mem_append.mp hr with hr | hr
    · exact .inl hr
    · cases List.mem_singleton.mp hr
      exact .inr ⟨hu, rfl⟩
  · exact .inl hr

theorem observeFlag_of_not_replaces {o : Observation} {key : MailMessageFlagKey}
    (h : ¬Replaces s x o key) :
    (observeFlag s o x key).items = x.items ∧ (observeFlag s o x key).replaced = x.replaced := by
  have hfalse : (!(s.sync x ⟨o.messageItemId, key⟩).any SyncState.pending &&
      !isBool (s.item x ⟨o.messageItemId, key⟩).value (o.flags key)) = false := by
    by_contra hne
    simp only [Bool.not_eq_false, Bool.and_eq_true, Bool.not_eq_true'] at hne
    exact h hne
  simp [observeFlag, hfalse]

theorem item_congr {y : Pass} (h : x.items slot = y.items slot) :
    s.item x slot = s.item y slot := by
  simp [Sys.item, h]

theorem row_of_not_replaces {o : Observation} {key : MailMessageFlagKey}
    (h : ¬Replaces s x o key) :
    (∃ row, s.sync x ⟨o.messageItemId, key⟩ = some row ∧ row.pending = true) ∨
      ((s.sync x ⟨o.messageItemId, key⟩).any SyncState.pending = false ∧
        (s.item x ⟨o.messageItemId, key⟩).value = some (.bool (o.flags key))) := by
  rcases hany : (s.sync x ⟨o.messageItemId, key⟩).any SyncState.pending with _ | _
  · refine .inr ⟨rfl, isBool_iff.mp ?_⟩
    by_contra hne
    exact h ⟨hany, by simpa using hne⟩
  · exact .inl (Option.any_eq_true _ _ |>.mp hany)

theorem Inv.observe {o : Observation} {key : MailMessageFlagKey} (h : Inv s)
    (hp : s.passes p = some x) (hlisted : x.listed = none) (ho : o ∈ x.observed)
    (hfree : s.SyncFree (some p) ⟨o.messageItemId, key⟩)
    (hagreed : ∀ row, s.sync x ⟨o.messageItemId, key⟩ = some row → row.pending = true →
      row.desiredState = o.flags key →
        Agreed s (s.changed ⟨o.messageItemId, key⟩) ⟨o.messageItemId, key⟩ row.desiredState) :
    Inv (s.setPass p (observeFlag s o x key)) := by
  have hx := h.passes p x hp
  have hflight : ∀ slot b c, InFlight (s.setPass p (observeFlag s o x key)) slot b c →
      InFlight s slot b c := fun slot b c hf => hf.of_setPass hp (fun _ => id)
    fun ws w c hws hw hc => ⟨ws, w, hws, hw, rfl, rfl, hc⟩
  have hfrees : ∀ slot, (observeFlag s o x key).syncs slot ≠ none →
      x.syncs slot ≠ none ∨ s.SyncFree (some p) slot := by
    intro slot hs
    by_cases hslot : slot = ⟨o.messageItemId, key⟩
    · exact .inr (hslot ▸ hfree)
    · rw [syncs_observeFlag_of_ne hslot] at hs
      exact .inl hs
  have hitemSync : ∀ slot, (observeFlag s o x key).items slot ≠ none →
      (observeFlag s o x key).syncs slot ≠ none := by
    intro slot hi
    by_cases hslot : slot = ⟨o.messageItemId, key⟩
    · subst hslot
      simp [syncs_observeFlag]
    · rw [items_observeFlag_of_ne hslot] at hi
      rw [syncs_observeFlag_of_ne hslot]
      exact hx.itemSync slot hi
  -- what is asked of the row that the observation writes
  have hrest : ∀ {row'}, recordObserved (s.sync x ⟨o.messageItemId, key⟩) (o.flags key) = row' →
      (s.item (observeFlag s o x key) ⟨o.messageItemId, key⟩).value =
        some (.bool row'.desiredState) →
      (row'.pending = true → (observeFlag s o x key).items ⟨o.messageItemId, key⟩ = none) →
      (∀ r ∈ (observeFlag s o x key).replaced, r.changed = true) →
      ((s.items ⟨o.messageItemId, key⟩).byUser = true →
        (observeFlag s o x key).items ⟨o.messageItemId, key⟩ = none → row'.pending = false →
        Converged s ⟨o.messageItemId, key⟩ ∨ Agreed s (s.changed ⟨o.messageItemId, key⟩)
          ⟨o.messageItemId, key⟩ row'.desiredState) →
      Inv (s.setPass p (observeFlag s o x key)) := by
    rintro row' rfl hdesired hpending hkept hconv
    refine h.setPass hp ⟨hitemSync, fun slot row hrow => ?_, fun _ slot row hrow hpen => ?_, hkept⟩
      hfrees (fun slot b c _ => hflight slot (!b) c) fun slot row hu hi hrow hpen => ?_
    · by_cases hslot : slot = ⟨o.messageItemId, key⟩
      · subst hslot
        cases syncs_observeFlag.symm.trans hrow
        exact hdesired
      · rw [syncs_observeFlag_of_ne hslot] at hrow
        rw [item_congr (items_observeFlag_of_ne hslot)]
        exact hx.desired slot row hrow
    · by_cases hslot : slot = ⟨o.messageItemId, key⟩
      · subst hslot
        cases syncs_observeFlag.symm.trans hrow
        exact hpending hpen
      · rw [syncs_observeFlag_of_ne hslot] at hrow
        rw [items_observeFlag_of_ne hslot]
        exact hx.pending hlisted slot row hrow hpen
    · by_cases hslot : slot = ⟨o.messageItemId, key⟩
      · subst hslot
        cases syncs_observeFlag.symm.trans hrow
        exact hconv hu hi hpen
      · rw [syncs_observeFlag_of_ne hslot] at hrow
        rw [items_observeFlag_of_ne hslot] at hi
        exact .inl (.pass hu hp hi hrow hpen)
  by_cases hrep : Replaces s x o key
  · obtain ⟨hitem, hreplaced⟩ := observeFlag_of_replaces hrep
    refine hrest (recordObserved_of_pending hrep.1) ?_ (fun hpen => ?_) (fun r hr => ?_)
      fun _ hi => ?_
    · simp [Sys.item, hitem]
    · simp [SyncState.pending] at hpen
    · rcases hreplaced r hr with hr | ⟨hu, hr⟩
      · exact hx.kept r hr
      · rw [hr]
        have hi := items_eq_none hu
        rw [item_of_none hi] at hu
        obtain ⟨row, hrow⟩ := h.byUser _ hu
        have hview : ∃ row', s.sync x ⟨o.messageItemId, key⟩ = some row' := by
          rcases hs : x.syncs ⟨o.messageItemId, key⟩ with _ | row'
          · exact ⟨row, by rw [sync_of_none hs]; exact hrow⟩
          · exact ⟨row', sync_of_some hs⟩
        obtain ⟨row', hrow'⟩ := hview
        have hpen : row'.pending = false := by simpa [hrow'] using hrep.1
        have hvalue := h.view hx hrow'
        have hother : o.flags key = !row'.desiredState := by
          have hne := hrep.2
          rw [hvalue] at hne
          simp only [isBool] at hne
          cases hd : row'.desiredState <;> cases hf : o.flags key <;> simp_all
        rw [item_of_none hi] at hvalue
        exact h.safe _ _ (.of_view hp hu hi hrow' hpen) hvalue o.copy
          (.observed hp ho rfl rfl hother)
    · rw [hitem] at hi
      cases hi
  · obtain ⟨hitems, hreplaced⟩ := observeFlag_of_not_replaces hrep
    have hkept : ∀ r ∈ (observeFlag s o x key).replaced, r.changed = true := by
      rw [hreplaced]
      exact hx.kept
    rcases row_of_not_replaces hrep with ⟨row, hrow, hpen⟩ | ⟨hany, hvalue⟩
    · have hrecord : recordObserved (s.sync x ⟨o.messageItemId, key⟩) (o.flags key) =
          ⟨row.desiredState, some (o.flags key)⟩ := by
        simp [recordObserved, hrow, hpen]
      have hvalue := h.view hx hrow
      refine hrest hrecord ?_ (fun _ => ?_) hkept fun _ _ hpen' => .inr ?_
      · rw [item_congr (y := x) (by rw [hitems])]
        exact hvalue
      · rw [hitems]
        rcases hs : x.syncs ⟨o.messageItemId, key⟩ with _ | row'
        · exact hx.item_of_sync hs
        · cases (sync_of_some hs).symm.trans hrow
          exact hx.pending hlisted _ row hs hpen
      · refine hagreed row hrow hpen ?_
        rw [not_pending_iff] at hpen'
        exact (Option.some.inj hpen').symm
    · refine hrest (recordObserved_of_pending hany) ?_ (fun hpen => ?_) hkept
        fun hu hi _ => .inl ?_
      · rw [item_congr (y := x) (by rw [hitems])]
        exact hvalue
      · simp [SyncState.pending] at hpen
      · rw [hitems] at hi
        rcases hrow : s.sync x ⟨o.messageItemId, key⟩ with _ | row
        · obtain ⟨row, hrow'⟩ := h.byUser _ hu
          rcases hs : x.syncs ⟨o.messageItemId, key⟩ with _ | row'
          · cases (hrow'.symm.trans (sync_of_none hs).symm).trans hrow
          · cases (sync_of_some hs).symm.trans hrow
        · exact .of_view hp hu hi hrow (by simpa [hrow] using hany)

/-! ## The steps -/

theorem syncFree_setPass : (s.setPass p x).SyncFree (some p) slot ↔ s.SyncFree (some p) slot := by
  have hsame : ∀ q, some q ≠ some p → (s.setPass p x).passes q = s.passes q := fun q hq => by
    have hne : q ≠ p := fun he => hq (congrArg some he)
    simp [Sys.setPass, hne]
  constructor <;> intro h q hlt hq
  · rw [← hsame q hq]
    exact h q hlt hq
  · rw [hsame q hq]
    exact h q hlt hq

theorem passes_setPass_self : (s.setPass p x).passes p = some x := by
  simp [Sys.setPass]

theorem slot_ne {key key' : MailMessageFlagKey} (h : key ≠ key') :
    (⟨m, key⟩ : Slot) ≠ ⟨m, key'⟩ := fun he => h (Slot.mk.inj he).2

theorem Inv.shrink (h : Inv s) (hp : s.passes p = some x) (hitems : x'.items = x.items)
    (hsyncs : x'.syncs = x.syncs) (hreplaced : x'.replaced = x.replaced)
    (hlisted : x'.listed = none → x.listed = none)
    (hflight : ∀ slot b c, (s.items slot).value = some (.bool b) →
      InFlight (s.setPass p x') slot (!b) c → InFlight s slot (!b) c) :
    Inv (s.setPass p x') := by
  have hx := h.passes p x hp
  refine h.setPass hp ⟨?_, fun slot row hrow => ?_, fun hl => ?_, ?_⟩ (fun slot hs => ?_) hflight
    fun slot row hu hi hrow hpen => ?_
  · rw [hitems, hsyncs]
    exact hx.itemSync
  · rw [hsyncs] at hrow
    rw [item_congr (y := x) (by rw [hitems])]
    exact hx.desired slot row hrow
  · rw [hitems, hsyncs]
    exact hx.pending (hlisted hl)
  · rw [hreplaced]
    exact hx.kept
  · rw [hsyncs] at hs
    exact .inl hs
  · rw [hitems] at hi
    rw [hsyncs] at hrow
    exact .inl (.pass hu hp hi hrow hpen)

theorem inv_fetch (h : Inv s) (hs : step s (.fetch p m c) = some s') : Inv s' := by
  simp only [step] at hs
  split at hs
  · next x read flagged hp hread hflagged =>
    split at hs
    · cases hs
      refine h.shrink hp rfl rfl rfl id fun slot b c' _ hf => ?_
      cases hf with
      | provider hf => exact .provider hf
      | observed hq ho hm hc hb =>
        rcases passes_setPass hq with ⟨rfl, rfl⟩ | ⟨-, hq⟩
        · rcases List.mem_append.mp ho with ho | ho
          · exact .observed hp ho hm hc hb
          · cases List.mem_singleton.mp ho
            rcases slot with ⟨m', key⟩
            cases hm
            cases hc
            refine .provider ?_
            cases key with
            | read => exact hread.trans (congrArg some hb)
            | flagged => exact hflagged.trans (congrArg some hb)
        · exact .observed hq ho hm hc hb
      | listed hq hws hw hslot hc hb =>
        rcases passes_setPass hq with ⟨rfl, rfl⟩ | ⟨-, hq⟩
        · exact .listed hp hws hw hslot hc hb
        · exact .listed hq hws hw hslot hc hb
    · cases hs
  · cases hs

theorem inv_list {edges : List (Slot × List ℕ)} (h : Inv s)
    (hs : step s (.list p edges) = some s') : Inv s' := by
  simp only [step] at hs
  split at hs
  · next x hp =>
    split_ifs at hs with hguard
    cases hs
    have hx := h.passes p x hp
    have hl : x.listed = none := by simpa using hguard.1
    refine h.shrink hp rfl rfl rfl (fun _ => hl) fun slot b c hb hf => ?_
    cases hf with
    | provider hf => exact .provider hf
    | observed hq ho hm hc hb =>
      rcases passes_setPass hq with ⟨rfl, rfl⟩ | ⟨-, hq⟩
      · exact .observed hp ho hm hc hb
      · exact .observed hq ho hm hc hb
    | listed hq hws hw hslot hc hd =>
      rcases passes_setPass hq with ⟨rfl, rfl⟩ | ⟨-, hq⟩
      · cases hws
        obtain ⟨edge, -, hedge⟩ := List.mem_filterMap.mp hw
        split at hedge
        · next row hrow =>
          split_ifs at hedge with hpen
          cases hedge
          cases hslot
          have hi : x.items edge.1 = none := by
            rcases hsync : x.syncs edge.1 with _ | row'
            · exact hx.item_of_sync hsync
            · cases (sync_of_some hsync).symm.trans hrow
              exact hx.pending hl _ row hsync hpen.1
          have hvalue := h.view hx hrow
          rw [item_of_none hi, hb] at hvalue
          simp_all
        · cases hedge
      · exact .listed hq hws hw hslot hc hd
  · cases hs

theorem inv_apply (h : Inv s) (hok : Handled s (.apply p)) (hs : step s (.apply p) = some s') :
    Inv s' := by
  simp only [step] at hs
  split at hs
  · next x hp =>
    split at hs
    · next o observed hobs =>
      split_ifs at hs with hfree
      cases hs
      obtain ⟨hlisted, -, hread, hflagged⟩ := hfree
      have hl : x.listed = none := by simpa using hlisted
      have ho : o ∈ x.observed := by simp [hobs]
      have hok' := hok x o hp (by simp [hobs])
      have h₁ := h.observe hp hl ho hread (hok' .read)
      have hagreed : ∀ row,
          (s.setPass p (observeFlag s o x .read)).sync (observeFlag s o x .read)
            ⟨o.messageItemId, .flagged⟩ = some row → row.pending = true →
          row.desiredState = o.flags .flagged →
          Agreed (s.setPass p (observeFlag s o x .read)) (s.changed ⟨o.messageItemId, .flagged⟩)
            ⟨o.messageItemId, .flagged⟩ row.desiredState := by
        intro row hrow hpen hd
        have hne := slot_ne (m := o.messageItemId)
          (show MailMessageFlagKey.flagged ≠ .read by simp)
        have hrow' : s.sync x ⟨o.messageItemId, .flagged⟩ = some row := by
          rw [← hrow]
          simp only [Sys.sync, syncs_observeFlag_of_ne hne]
          rfl
        intro c hf
        refine hok' .flagged row hrow' hpen hd c (hf.of_setPass hp (fun _ => id) ?_)
        exact fun ws w c hws hw hc => ⟨ws, w, hws, hw, rfl, rfl, hc⟩
      have h₂ := h₁.observe passes_setPass_self hl ho (syncFree_setPass.mpr hflagged) hagreed
      rw [setPass_self] at h₂
      rw [← setPass_self p (observeFlag s o (observeFlag s o x .read) .flagged)]
      refine h₂.shrink passes_setPass_self rfl rfl rfl id fun slot b c _ hf =>
        hf.of_setPass passes_setPass_self (fun o' ho' => ?_) fun ws w c hws hw hc =>
          ⟨ws, w, hws, hw, rfl, rfl, hc⟩
      show o' ∈ x.observed
      rw [hobs]
      exact List.mem_cons_of_mem _ ho'
    · cases hs
  · cases hs

/-- The history of the copies goes on, and keeps up with what they have. -/
theorem Inv.record {v : Option Bool} {d : Slot → ℕ → Bool} (h : Inv s)
    (hmono : ∀ slot c, s.changed slot c = true → d slot c = true)
    (hnew : ∀ b, Converged s slot → (s.items slot).value = some (.bool b) → v = some (!b) →
      d slot c = true) : Inv { record s slot c v with changed := d } where
  fresh := h.fresh
  locks := h.locks
  passes p x hp := by
    have hx := h.passes p x hp
    exact ⟨hx.itemSync, hx.desired, hx.pending, hx.kept⟩
  byUser := h.byUser
  desired := h.desired
  held slot' c' hu ha := by
    by_cases hslot : slot' = slot
    · subst hslot
      by_cases hc : c' = c
      · subst hc
        simp only [MailFlags.record, Function.update_self] at ha ⊢
        simp [ha]
      · simp only [MailFlags.record, Function.update_self, Function.update_of_ne hc] at ha ⊢
        exact h.held slot' c' hu ha
    · simp only [MailFlags.record, Function.update_of_ne hslot] at ha ⊢
      exact h.held slot' c' hu ha
  safe slot' b hc hb c' hf := by
    have hc' : Converged s slot' := by
      cases hc with
      | committed hu hrow hpen => exact .committed hu hrow hpen
      | pass hu hp hi hrow hpen => exact .pass hu hp hi hrow hpen
    cases hf with
    | provider hf =>
      by_cases hslot : slot' = slot
      · subst hslot
        by_cases hcc : c' = c
        · subst hcc
          simp only [MailFlags.record, Function.update_self] at hf
          exact hnew b hc' hb hf
        · simp only [MailFlags.record, Function.update_self, Function.update_of_ne hcc] at hf
          exact hmono _ _ (h.safe slot' b hc' hb c' (.provider hf))
      · simp only [MailFlags.record, Function.update_of_ne hslot] at hf
        exact hmono _ _ (h.safe slot' b hc' hb c' (.provider hf))
    | observed hq ho hm hco hd =>
      exact hmono _ _ (h.safe slot' b hc' hb c' (.observed hq ho hm hco hd))
    | listed hq hws hw hsl hco hd =>
      exact hmono _ _ (h.safe slot' b hc' hb c' (.listed hq hws hw hsl hco hd))
  kept := h.kept

theorem inv_providerChange {v : Option Bool} (h : Inv s)
    (hs : step s (.providerChange slot c v) = some s') : Inv s' := by
  simp only [step] at hs
  split_ifs at hs
  cases hs
  refine h.record (fun slot' c' hch => ?_) fun b hc hb hv => ?_
  · by_cases hslot : slot' = slot
    · subst hslot
      by_cases hcc : c' = c
      · subst hcc
        simp [hch]
      · simp [hcc, hch]
    · simp [hslot, hch]
  · simp only [Function.update_self]
    rcases hold : agrees (s.items slot).value (s.provider slot c) with _ | _
    · have hother : s.provider slot c = some (!b) := by
        rcases hprov : s.provider slot c with _ | b'
        · simp [hprov, agrees] at hold
        · simp only [hprov, agrees, Option.all_some, hb, isBool] at hold
          cases b <;> cases b' <;> simp_all
      simp [h.safe slot b hc hb c (.provider hother)]
    · simp [h.held slot c hc.byUser hold, hv, hb, agrees, isBool]

theorem inv_write (h : Inv s) (hs : step s (.write p) = some s') : Inv s' := by
  simp only [step] at hs
  split at hs
  · next x hp =>
    split at hs
    · next slot desiredState c copies writes hl =>
      cases hs
      have h₁ :
          Inv (MailFlags.record s slot c ((s.provider slot c).map fun _ => desiredState)) := by
        refine h.record (d := s.changed) (fun _ _ => id) fun b hc hb hv => ?_
        obtain ⟨b', -, hd⟩ := Option.map_eq_some_iff.mp hv
        exact h.safe slot b hc hb c
          (.listed hp hl (List.mem_cons_self ..) rfl (List.mem_cons_self ..) hd)
      refine h₁.shrink hp rfl rfl rfl (by simp) fun slot' b c' _ hf => hf.of_setPass hp
        (fun _ => id) fun ws w c'' hws hw hc => ?_
      cases hws
      rcases List.mem_cons.mp hw with rfl | hw
      · exact ⟨_, _, hl, List.mem_cons_self .., rfl, rfl, List.mem_cons_of_mem _ hc⟩
      · exact ⟨_, w, hl, List.mem_cons_of_mem _ hw, rfl, rfl, hc⟩
    · cases hs
  · cases hs

theorem inv_confirm (h : Inv s) (hok : Handled s (.confirm p))
    (hs : step s (.confirm p) = some s') : Inv s' := by
  simp only [step] at hs
  split at hs
  · next x hp =>
    split at hs
    · next slot desiredState writes hl =>
      split at hs
      · next row hrow =>
        split_ifs at hs with hfree
        cases hs
        have hx := h.passes p x hp
        have hview := h.view hx hrow
        refine h.setPass hp ⟨fun slot' hi => ?_, fun slot' row' hrow' => ?_, by simp, hx.kept⟩
          (fun slot' hs => ?_) (fun slot' b c _ hf => hf.of_setPass hp (fun _ => id)
            fun ws w c hws hw hc => ?_) fun slot' row' hu hi hrow' hpen => ?_
        · by_cases hslot : slot' = slot
          · simp [hslot]
          · simpa [hslot] using hx.itemSync slot' hi
        · by_cases hslot : slot' = slot
          · subst hslot
            simp only [Function.update_self, Option.some.injEq] at hrow'
            subst hrow'
            exact hview
          · simp only [Function.update_of_ne hslot] at hrow'
            exact hx.desired slot' row' hrow'
        · by_cases hslot : slot' = slot
          · exact .inr (hslot ▸ hfree)
          · simp only [Function.update_of_ne hslot] at hs
            exact .inl hs
        · cases hws
          exact ⟨_, w, hl, List.mem_cons_of_mem _ hw, rfl, rfl, hc⟩
        · by_cases hslot : slot' = slot
          · subst hslot
            simp only [Function.update_self, Option.some.injEq] at hrow'
            subst hrow'
            rw [not_pending_iff] at hpen
            exact .inr (hok x _ writes row hp hl hrow (Option.some.inj hpen).symm)
          · simp only [Function.update_of_ne hslot] at hrow'
            exact .inl (.pass hu hp hi hrow' hpen)
      · cases hs
    · cases hs
  · cases hs

/-- A pass begins with nothing in flight. -/
theorem inv_begin (h : Inv s) (hs : step s .begin = some s') : Inv s' := by
  cases hs
  have hflight : ∀ {slot b c}, InFlight (s.setPass s.nextPass .start) slot b c →
      InFlight s slot b c := fun {slot b c} hf => by
    cases hf with
    | provider hf => exact .provider hf
    | observed hq ho hm hc hb =>
      rcases passes_setPass hq with ⟨rfl, rfl⟩ | ⟨-, hq⟩
      · cases ho
      · exact .observed hq ho hm hc hb
    | listed hq hws hw hslot hc hb =>
      rcases passes_setPass hq with ⟨rfl, rfl⟩ | ⟨-, hq⟩
      · cases hws
      · exact .listed hq hws hw hslot hc hb
  refine ⟨fun q hq => ?_, fun q q' y y' slot hq hq' hy hy' => ?_, fun q y hq => ?_, h.byUser,
    h.desired, h.held, fun slot b hc hb c hf => ?_, h.kept⟩
  · have hq' : s.nextPass + 1 ≤ q := hq
    have hne : q ≠ s.nextPass := by omega
    simpa [Sys.setPass, hne] using h.fresh q (by omega)
  · rcases passes_setPass hq with ⟨-, rfl⟩ | ⟨-, hq⟩
    · exact absurd rfl hy
    · rcases passes_setPass hq' with ⟨-, rfl⟩ | ⟨-, hq'⟩
      · exact absurd rfl hy'
      · exact h.locks q q' y y' slot hq hq' hy hy'
  · rcases passes_setPass hq with ⟨-, rfl⟩ | ⟨-, hq⟩
    · exact ⟨fun _ hi => absurd rfl hi, fun _ _ hr => (nomatch hr), fun _ _ _ hr => (nomatch hr),
        fun _ hr => (nomatch hr)⟩
    · have hy := h.passes q y hq
      exact ⟨hy.itemSync, hy.desired, hy.pending, hy.kept⟩
  · have hc' : Converged s slot := by
      cases hc with
      | committed hu hrow hpen => exact .committed hu hrow hpen
      | pass hu hq hi hrow hpen =>
        rcases passes_setPass hq with ⟨-, rfl⟩ | ⟨-, hq⟩
        · cases hrow
        · exact .pass hu hq hi hrow hpen
    exact h.safe slot b hc' hb c (hflight (hf.congr rfl rfl))

/-! ## The end of a pass -/

def Sys.endPass (s : Sys) (p : ℕ) : Sys := { s with passes := Function.update s.passes p none }

theorem passes_endPass {q : ℕ} {y : Pass} (hq : (s.endPass p).passes q = some y) :
    q ≠ p ∧ s.passes q = some y := by
  unfold Sys.endPass at hq
  by_cases hqp : q = p
  · subst hqp
    simp at hq
  · exact ⟨hqp, by simpa [hqp] using hq⟩

theorem InFlight.of_endPass (h : InFlight (s.endPass p) slot b c) : InFlight s slot b c := by
  cases h with
  | provider h => exact .provider h
  | observed hq ho hm hc hb => exact .observed (passes_endPass hq).2 ho hm hc hb
  | listed hq hws hw hslot hc hb => exact .listed (passes_endPass hq).2 hws hw hslot hc hb

theorem Inv.endPass (h : Inv s) (p : ℕ) : Inv (s.endPass p) where
  fresh q hq := by
    by_cases hqp : q = p
    · simp [Sys.endPass, hqp]
    · simpa [Sys.endPass, hqp] using h.fresh q hq
  locks q q' y y' slot hq hq' :=
    h.locks q q' y y' slot (passes_endPass hq).2 (passes_endPass hq').2
  passes q y hq := by
    have hy := h.passes q y (passes_endPass hq).2
    exact ⟨hy.itemSync, hy.desired, hy.pending, hy.kept⟩
  byUser := h.byUser
  desired := h.desired
  held := h.held
  safe slot b hc hb c hf := by
    refine h.safe slot b ?_ hb c hf.of_endPass
    cases hc with
    | committed hu hrow hpen => exact .committed hu hrow hpen
    | pass hu hq hi hrow hpen => exact .pass hu (passes_endPass hq).2 hi hrow hpen
  kept := h.kept

theorem inv_rollback (h : Inv s) (hs : step s (.rollback p) = some s') : Inv s' := by
  simp only [step] at hs
  split at hs
  · cases hs
    exact h.endPass p
  · cases hs

/-- The tables take what the pass has written. -/
theorem Inv.commit (h : Inv s) (hp : s.passes p = some x) :
    Inv { s.endPass p with
      items := s.item x
      syncs := s.sync x
      replaced := s.replaced ++ x.replaced } := by
  have hx := h.passes p x hp
  have hother : ∀ {q y slot}, q ≠ p → s.passes q = some y → y.syncs slot ≠ none →
      s.item x slot = s.items slot ∧ s.sync x slot = s.syncs slot := fun {q y slot} hne hq hy => by
    have hnone : x.syncs slot = none := by
      by_contra hs
      exact hne (h.locks q p y x slot hq hp hy hs)
    exact ⟨item_of_none (hx.item_of_sync hnone), sync_of_none hnone⟩
  have hend := h.endPass p
  refine ⟨hend.fresh, hend.locks, fun q y hq => ?_, fun slot hu => ?_, fun slot row hrow => ?_,
    fun slot c hu ha => ?_, fun slot b hc hb c hf => ?_, fun r hr => ?_⟩
  · obtain ⟨hne, hq⟩ := passes_endPass hq
    have hy := h.passes q y hq
    refine ⟨hy.itemSync, fun slot row hrow => ?_, hy.pending, hy.kept⟩
    have hsome : y.syncs slot ≠ none := by simp [hrow]
    have hsame := (hother hne hq hsome).1
    have hd := hy.desired slot row hrow
    rcases hi : y.items slot with _ | v
    · rw [item_of_none hi] at hd ⊢
      show (s.item x slot).value = _
      rw [hsame]
      exact hd
    · simp only [Sys.item, hi] at hd ⊢
      exact hd
  · have hi := items_eq_none hu
    have hu' : (s.items slot).byUser = true := item_of_none (s := s) hi ▸ hu
    obtain ⟨row, hrow⟩ := h.byUser slot hu'
    rcases hs : x.syncs slot with _ | row'
    · exact ⟨row, (sync_of_none hs).trans hrow⟩
    · exact ⟨row', sync_of_some hs⟩
  · exact h.view hx hrow
  · have hi := item_of_none (s := s) (items_eq_none hu)
    have hu' : (s.items slot).byUser = true := hi ▸ hu
    refine h.held slot c hu' ?_
    simp only [hi] at ha
    exact ha
  · have hi := items_eq_none hc.byUser
    have hi' := item_of_none (s := s) hi
    have hu : (s.items slot).byUser = true := hi' ▸ hc.byUser
    have hc' : Converged s slot := by
      cases hc with
      | committed _ hrow hpen => exact .of_view hp hu hi hrow hpen
      | pass _ hq hyi hrow hpen => exact .pass hu (passes_endPass hq).2 hyi hrow hpen
    have hb' : (s.items slot).value = some (.bool b) := hi' ▸ hb
    have hf' : InFlight (s.endPass p) slot (!b) c := hf.congr rfl rfl
    exact h.safe slot b hc' hb' c hf'.of_endPass
  · rcases List.mem_append.mp hr with hr | hr
    · exact h.kept r hr
    · exact hx.kept r hr

theorem inv_commit (h : Inv s) (hs : step s (.commit p) = some s') : Inv s' := by
  simp only [step] at hs
  split at hs
  · next x hp =>
    split at hs
    · cases hs
      exact h.commit hp
    · cases hs
  · cases hs

/-! ## An update of the user's -/

/-- The tables take the values of a patch, booleans on rows that no pass holds. -/
theorem Inv.patch {patched : Slot → Option Json} (h : Inv s)
    (hbool : ∀ slot v, patched slot = some v → ∃ b, v = .bool b ∧
      ((s.syncs slot).bind SyncState.currentState = some b → Agreed s (fun _ => false) slot b))
    (hfree : ∀ slot v q y, patched slot = some v → s.passes q = some y → y.syncs slot = none) :
    Inv { s with
      items := fun slot => (patched slot).elim (s.items slot) fun v => ⟨some v, true⟩
      syncs := fun slot => (patched slot).elim (s.syncs slot) (recordDesired (s.syncs slot))
      held := fun slot => (patched slot).elim (s.held slot) fun v c =>
        agrees (some v) (s.provider slot c)
      changed := fun slot => (patched slot).elim (s.changed slot) fun _ _ => false } := by
  refine ⟨h.fresh, h.locks, fun q y hq => ?_, fun slot hu => ?_, fun slot row hrow => ?_,
    fun slot c hu ha => ?_, fun slot b hc hb c hf => ?_, h.kept⟩
  · have hy := h.passes q y hq
    refine ⟨hy.itemSync, fun slot row hrow => ?_, hy.pending, hy.kept⟩
    rcases hpt : patched slot with _ | v
    · have hd := hy.desired slot row hrow
      simpa [Sys.item, hpt] using hd
    · cases (hfree slot v q y hpt hq).symm.trans hrow
  · rcases hpt : patched slot with _ | v
    · simp only [hpt, Option.elim_none] at hu ⊢
      exact h.byUser slot hu
    · obtain ⟨b, rfl, -⟩ := hbool slot v hpt
      exact ⟨_, by simp [hpt, recordDesired]; rfl⟩
  · rcases hpt : patched slot with _ | v
    · simp only [hpt, Option.elim_none] at hrow ⊢
      exact h.desired slot row hrow
    · obtain ⟨b, rfl, -⟩ := hbool slot v hpt
      simp only [hpt, Option.elim_some, recordDesired, Option.some.injEq] at hrow ⊢
      rw [← hrow]
  · rcases hpt : patched slot with _ | v
    · simp only [hpt, Option.elim_none] at hu ha ⊢
      exact h.held slot c hu ha
    · simp only [hpt, Option.elim_some] at ha ⊢
      exact ha
  · rcases hpt : patched slot with _ | v
    · have hc' : Converged s slot := by
        cases hc with
        | committed hu hrow hpen =>
          simp only [hpt, Option.elim_none] at hu hrow
          exact .committed hu hrow hpen
        | pass hu hq hi hrow hpen =>
          simp only [hpt, Option.elim_none] at hu
          exact .pass hu hq hi hrow hpen
      simp only [hpt, Option.elim_none] at hb ⊢
      exact h.safe slot b hc' hb c (hf.congr rfl rfl)
    · obtain ⟨b', rfl, hagreed⟩ := hbool slot v hpt
      cases hc with
      | committed hu hrow hpen =>
        simp only [hpt, Option.elim_some, recordDesired, Option.some.injEq] at hrow hb
        subst hrow
        cases hb
        rw [not_pending_iff] at hpen
        cases hagreed hpen c (hf.congr rfl rfl)
      | pass hu hq hi hrow hpen => cases (hfree slot _ _ _ hpt hq).symm.trans hrow

theorem inv_userUpdate {patch : MailMessageFlagKey → Option Json} (h : Inv s)
    (hok : Handled s (.userUpdate m patch)) (hs : step s (.userUpdate m patch) = some s') :
    Inv s' := by
  simp only [step] at hs
  split_ifs at hs with hfree
  cases hs
  obtain ⟨-, hread, hflagged⟩ := hfree
  refine h.patch (fun slot v hv => ?_) fun slot v q y hv hq => ?_
  · rcases slot with ⟨m', key⟩
    simp only at hv
    split_ifs at hv with hm
    cases hm
    exact hok key v hv
  · rcases slot with ⟨m', key⟩
    simp only at hv
    split_ifs at hv with hm
    cases hm
    obtain ⟨b, rfl, -⟩ := hok key v hv
    have hlt : q < s.nextPass := by
      by_contra hge
      cases hq.symm.trans (h.fresh q (Nat.le_of_not_lt hge))
    have hsync : s.SyncFree none ⟨m, key⟩ := by
      cases key with
      | read => exact hread (by rw [hv]; rfl)
      | flagged => exact hflagged (by rw [hv]; rfl)
    simpa [hq] using hsync q hlt (by simp)

theorem inv_step {a : Act} (h : Inv s) (hok : Handled s a) (hs : step s a = some s') : Inv s' := by
  cases a with
  | userUpdate m patch => exact inv_userUpdate h hok hs
  | providerChange slot c v => exact inv_providerChange h hs
  | begin => exact inv_begin h hs
  | fetch p m c => exact inv_fetch h hs
  | apply p => exact inv_apply h hok hs
  | list p edges => exact inv_list h hs
  | write p => exact inv_write h hs
  | confirm p => exact inv_confirm h hok hs
  | commit p => exact inv_commit h hs
  | rollback p => exact inv_rollback h hs

/-- The item has the desired value, and an observation replaces a value of the user's only when the
copy was changed at the provider since it held that value. -/
theorem flags_kept {values : Slot → Option Json} {provider : Slot → ℕ → Option Bool}
    (h : Reach step Handled (.init values provider) s) : FlagsKept s :=
  (h.invariant (inv_init values provider) fun _ _ _ hi hok hs => inv_step hi hok hs).flagsKept

def staysPending (s : Sys) : Act → Bool
  | .userUpdate m patch =>
    match patch .read, patch .flagged with
    | some (.bool b), none => (s.syncs ⟨m, .read⟩).bind SyncState.currentState != some b
    | _, _ => false
  | .apply p => (s.passes p).all fun x => x.observed.head?.all fun o =>
      [MailMessageFlagKey.read, .flagged].all fun key =>
        (s.sync x ⟨o.messageItemId, key⟩).all fun row =>
          !(row.pending && row.desiredState == o.flags key)
  | .confirm _ => false
  | _ => true

theorem handled_of_staysPending {a : Act} (h : staysPending s a = true) : Handled s a := by
  cases a with
  | userUpdate m patch =>
    simp only [staysPending] at h
    split at h
    · next b hread hflagged =>
      intro key v hv
      cases key with
      | read =>
        cases hread.symm.trans hv
        exact ⟨b, rfl, fun hc => by simp [hc] at h⟩
      | flagged => cases hflagged.symm.trans hv
    · cases h
  | apply p =>
    intro x o hp ho key row hrow hpen hd
    simp only [staysPending, hp, ho, Option.all_some, List.all_cons, List.all_nil, Bool.and_true,
      Bool.and_eq_true] at h
    cases key with
    | read => simp [hrow, hpen, hd] at h
    | flagged => simp [hrow, hpen, hd] at h
  | confirm p => cases h
  | _ => trivial

/-- A check that no pass has fetched the other value of a flag or will write it. -/
def clearOf (s : Sys) (slot : Slot) (b : Bool) : Bool :=
  decide (∀ p < s.nextPass, (s.passes p).all (fun x =>
    x.observed.all (fun o => o.messageItemId != slot.messageItemId ||
      o.flags slot.propertyKey == b) &&
    x.listed.all (·.all fun w => w.slot != slot || w.desiredState == b)) = true)

theorem agreed_of_clearOf (hi : Inv s) {slot : Slot} {b : Bool} {changed : ℕ → Bool}
    (hprovider : ∀ c, s.provider slot c ≠ some !b) (hclear : clearOf s slot b = true) :
    Agreed s changed slot b := by
  have hpasses : ∀ p x, s.passes p = some x →
      (∀ o ∈ x.observed, o.messageItemId = slot.messageItemId → o.flags slot.propertyKey = b) ∧
        ∀ ws ∈ x.listed, ∀ w ∈ ws, w.slot = slot → w.desiredState = b := by
    intro p x hp
    have hlt : p < s.nextPass := by
      by_contra hge
      cases hp.symm.trans (hi.fresh p (Nat.le_of_not_lt hge))
    have hall := of_decide_eq_true hclear p hlt
    simp only [hp, Option.all_some, Bool.and_eq_true, List.all_eq_true, Option.all_eq_true,
      Bool.or_eq_true, bne_iff_ne, beq_iff_eq] at hall
    exact ⟨fun o ho hid => (hall.1 o ho).resolve_left fun h => h hid,
      fun ws hws w hw hslot => (hall.2 ws hws w hw).resolve_left fun h => h hslot⟩
  intro c hflight
  cases hflight with
  | provider h => exact absurd h (hprovider c)
  | observed hp ho hid _ hflag =>
    rw [(hpasses _ _ hp).1 _ ho hid] at hflag
    cases b <;> cases hflag
  | listed hp hws hw hslot _ hdesired =>
    rw [(hpasses _ _ hp).2 _ hws _ hw hslot] at hdesired
    cases b <;> cases hdesired

def oneCopy (slot : Slot) (copy : ℕ) : Option Bool :=
  if slot.messageItemId = 1 ∧ copy = 0 then some false else none

theorem update_oneCopy_ne {b : Bool} {f : ℕ → Option Bool} (hf : ∀ c ≠ 0, f c = none) (c : ℕ) :
    Function.update f 0 (some b) c ≠ some !b := by
  by_cases hc : c = 0
  · subst hc
    cases b <;> simp
  · simp [hc, hf c hc]

def setRead (b : Bool) : MailMessageFlagKey → Option Json
  | .read => some (.bool b)
  | .flagged => none

def writtenByLostPass : List Act :=
  [.begin, .fetch 0 1 0, .apply 0, .list 0 [], .commit 0, .userUpdate 1 (setRead true), .begin,
    .fetch 1 1 0, .apply 1, .list 1 [(⟨1, .read⟩, [0])], .write 1, .rollback 1, .begin,
    .fetch 2 1 0]

def takenBack : List Act :=
  [.list 2 [], .commit 2, .userUpdate 1 (setRead false), .begin, .fetch 3 1 0, .apply 3,
    .list 3 [(⟨1, .read⟩, [0])], .write 3]

/-- The row converges on the user's value by an observation, and again by a confirmation. -/
theorem flags_kept_confirmed : ∃ s, runActs step (.init (fun _ => none) oneCopy)
    (((writtenByLostPass ++ [.apply 2]) ++ takenBack) ++ [.confirm 3, .commit 3]) = some s ∧
      s.syncs ⟨1, .read⟩ = some ⟨false, some false⟩ ∧ FlagsKept s := by
  have hinv : ∀ {s}, Reach step Handled (.init (fun _ => none) oneCopy) s → Inv s := fun h =>
    h.invariant (inv_init _ _) fun _ _ _ hi hok hs => inv_step hi hok hs
  obtain ⟨s₁, hs₁⟩ := Option.isSome_iff_exists.mp (by decide +kernel : (runChecked step staysPending
    (.init (fun _ => none) oneCopy) writtenByLostPass).isSome = true)
  have hrun₁ := runActs_of_runChecked hs₁
  have hreach₁ : Reach step Handled (.init (fun _ => none) oneCopy) s₁ :=
    .of_runChecked (fun _ _ => handled_of_staysPending) hs₁
  have hcopy : ∀ c ≠ 0, oneCopy ⟨1, .read⟩ c = none := fun c hc => if_neg fun h => hc h.2
  -- the observation
  have hprovider₁ := eq_of_map_eq (f := fun s => s.provider ⟨1, .read⟩)
    (b := Function.update (oneCopy ⟨1, .read⟩) 0 (some true)) hrun₁ rfl
  have hfetched := eq_of_map_eq (f := fun s => ((s.passes 2).bind (·.observed.head?)).map fun o =>
    (o.messageItemId, o.flags .read, o.flags .flagged)) (b := some (1, true, false)) hrun₁ rfl
  have hflagged := eq_of_map_eq (f := fun s => (s.passes 2).map fun x => s.sync x ⟨1, .flagged⟩)
    (b := some (some ⟨false, some false⟩)) hrun₁ rfl
  have hclear₁ := eq_of_map_eq (f := fun s => clearOf s ⟨1, .read⟩ true) (b := true) hrun₁
    (by decide +kernel)
  have hobserved : Handled s₁ (.apply 2) := by
    intro x o hp ho key row hrow hpending hdesired
    simp only [hp, Option.bind_some, ho, Option.map_some, Option.some.injEq, Prod.mk.injEq]
      at hfetched hflagged
    obtain ⟨hid, hread, -⟩ := hfetched
    rw [hid] at hrow ⊢
    cases key with
    | read =>
      rw [hdesired, hread]
      exact agreed_of_clearOf (hinv hreach₁) (hprovider₁ ▸ update_oneCopy_ne hcopy) hclear₁
    | flagged =>
      cases hflagged.symm.trans hrow
      cases hpending
  obtain ⟨s₂, hs₂⟩ := Option.isSome_iff_exists.mp (eq_of_map_eq
    (f := fun s => (step s (.apply 2)).isSome) (b := true) hrun₁ (by decide +kernel))
  have hrun₂ : runActs step (.init (fun _ => none) oneCopy) (writtenByLostPass ++ [.apply 2]) =
      some s₂ := by
    rw [runActs_append, hrun₁]
    simp [runActs, runChecked, hs₂]
  obtain ⟨s₃, hs₃⟩ := Option.isSome_iff_exists.mp (eq_of_map_eq
    (f := fun s => (runChecked step staysPending s takenBack).isSome) (b := true) hrun₂
    (by decide +kernel))
  have hrun₃ : runActs step (.init (fun _ => none) oneCopy)
      ((writtenByLostPass ++ [.apply 2]) ++ takenBack) = some s₃ := by
    rw [runActs_append, hrun₂]
    exact runActs_of_runChecked hs₃
  have hreach₃ := (hreach₁.tail hobserved hs₂).trans
    (.of_runChecked (fun _ _ => handled_of_staysPending) hs₃)
  -- the confirmation
  have hprovider₃ := eq_of_map_eq (f := fun s => s.provider ⟨1, .read⟩) (b := Function.update
    (Function.update (oneCopy ⟨1, .read⟩) 0 (some true)) 0 (some false)) hrun₃ rfl
  have hlisted := eq_of_map_eq (f := fun s => (s.passes 3).map (·.listed))
    (b := some (some [⟨⟨1, .read⟩, false, []⟩])) hrun₃ rfl
  have hclear₃ := eq_of_map_eq (f := fun s => clearOf s ⟨1, .read⟩ false) (b := true) hrun₃
    (by decide +kernel)
  have hconfirmed : Handled s₃ (.confirm 3) := by
    intro x w ws row hp hws hrow hdesired
    simp only [hp, Option.map_some, Option.some.injEq] at hlisted
    cases hws.symm.trans hlisted
    rw [hdesired]
    exact agreed_of_clearOf (hinv hreach₃) (hprovider₃ ▸ update_oneCopy_ne fun c hc => by
      rw [Function.update_of_ne hc, hcopy c hc]) hclear₃
  obtain ⟨s, hs⟩ := Option.isSome_iff_exists.mp (eq_of_map_eq
    (f := fun s => (runActs step s [.confirm 3, .commit 3]).isSome) (b := true) hrun₃
    (by decide +kernel))
  have hrun : runActs step (.init (fun _ => none) oneCopy)
      (((writtenByLostPass ++ [.apply 2]) ++ takenBack) ++ [.confirm 3, .commit 3]) = some s := by
    rw [runActs_append, hrun₃]
    exact hs
  simp only [runActs, runChecked, if_true, Option.bind_eq_some_iff, Option.some.injEq] at hs
  obtain ⟨s₄, hs₄, s₅, hs₅, rfl⟩ := hs
  exact ⟨s₅, hrun, eq_of_map_eq (f := fun s => s.syncs ⟨1, .read⟩) hrun rfl,
    flags_kept ((hreach₃.tail hconfirmed hs₄).tail (a := .commit 3) trivial hs₅)⟩

/-- A pass that has fetched the flags of a message before the user's change was written and
confirmed undoes that change. -/
theorem staleObservation_not_kept :
    ∃ s, runActs step (.init (fun _ => none) fun _ _ => some false)
      [.begin, .fetch 0 1 0, .apply 0, .list 0 [], .commit 0,
        .userUpdate 1 fun | .read => some (.bool true) | .flagged => none,
        .begin, .fetch 1 1 0,
        .begin, .fetch 2 1 0, .apply 2, .list 2 [(⟨1, .read⟩, [0])], .write 2, .confirm 2,
        .commit 2,
        .apply 1, .list 1 [], .commit 1] = some s ∧ ¬FlagsKept s := by
  obtain ⟨s, hs⟩ := Option.isSome_iff_exists.mp (show (runActs step
      (.init (fun _ => none) fun _ _ => some false)
      [.begin, .fetch 0 1 0, .apply 0, .list 0 [], .commit 0,
        .userUpdate 1 fun | .read => some (.bool true) | .flagged => none,
        .begin, .fetch 1 1 0,
        .begin, .fetch 2 1 0, .apply 2, .list 2 [(⟨1, .read⟩, [0])], .write 2, .confirm 2,
        .commit 2,
        .apply 1, .list 1 [], .commit 1]).isSome = true by decide +kernel)
  have hreplaced : s.replaced = [⟨⟨1, .read⟩, 0, false⟩] :=
    eq_of_map_eq (f := Sys.replaced) hs (by decide +kernel)
  refine ⟨s, hs, fun h => ?_⟩
  have hkept := h.kept ⟨⟨1, .read⟩, 0, false⟩ (by simp [hreplaced])
  cases hkept

end MailFlags

end Semprec
