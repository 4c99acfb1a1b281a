import Mathlib.Algebra.Order.BigOperators.Group.List
import Mathlib.Tactic.Linarith
import Semprec.AiGateway

/-!
# The budget holds

The lock keeps reservations apart, so the sum a reservation was checked against can only have gone
down by its commit; and the sum that the query computes is at least the cost of the window's rows
as long as each of them was reserved after the window's start.
-/

namespace Semprec

namespace AiGateway

variable {config : Config} {s s' : Sys} {l : Limit} {rows : List AiGatewayCallRow}
  {row : AiGatewayCallRow} {c tenantId : ℕ} {now window : ℤ} {estimate : ℚ} {call : Call}

/-! ## Limits -/

theorem mem_limits_of_covers (hl : l ∈ config.limits tenantId) (h : l.covers row = true) :
    l ∈ config.limits row.tenantId := by
  rcases List.mem_append.mp hl with hl | hl
  · have htenant : l.tenantId = some tenantId := by
      unfold Config.tenantLimits at hl
      split at hl
      · cases hl
      · rcases List.mem_append.mp hl with hl | hl <;>
        · obtain ⟨cap, -, rfl⟩ := List.mem_map.mp hl
          rfl
    unfold Limit.covers at h
    rw [htenant, Option.all_some, decide_eq_true_eq] at h
    rw [h]
    exact List.mem_append_left _ hl
  · exact List.mem_append_right _ hl

theorem Period.trunc_le (period : Period) (time : ℤ) : period.trunc time ≤ time := by
  have h : time / secondsOfDay * secondsOfDay ≤ time := Int.ediv_mul_le time (by decide)
  cases period with
  | day => exact h
  | month =>
    refine le_trans ?_ h
    exact Int.mul_le_mul_of_nonneg_right (Int.sub_le_self _ (Int.natCast_nonneg _)) (by decide)

theorem windowStart_le_of_global (hl : l ∈ config.globalLimits) (now : ℤ) :
    l.windowStart now ≤ now := by
  have hz : l.timezone = .utc := by
    unfold Config.globalLimits at hl
    simp only [List.mem_cons, List.not_mem_nil, or_false] at hl
    rcases hl with rfl | rfl <;> rfl
  have hlocal : ∀ time, Timezone.utc.toLocal time = time := fun time => by
    simp [Timezone.toLocal, Timezone.utcOffset, Timezone.utc]
  have hinstant : ∀ time, Timezone.utc.toInstant time = time := fun time => by
    simp [Timezone.toInstant, Timezone.toLocal, Timezone.utcOffset, Timezone.utc]
  unfold Limit.windowStart Limit.window
  rw [hz, hlocal, hinstant]
  exact l.period.trunc_le now

/-- Costs go down, and the rest of what a limit looks at stays. -/
def Lowers (f : AiGatewayCallRow → AiGatewayCallRow) (rows : List AiGatewayCallRow) : Prop :=
  ∀ row ∈ rows, (f row).tenantId = row.tenantId ∧ (f row).at_ = row.at_ ∧
    (f row).estimate = row.estimate ∧ (f row).costUsd ≤ row.costUsd

theorem Lowers.covers {f : AiGatewayCallRow → AiGatewayCallRow} (hf : Lowers f rows)
    (hr : row ∈ rows) : l.covers (f row) = l.covers row := by
  unfold Limit.covers
  rw [(hf row hr).1]

theorem filter_map_of_eq {f : AiGatewayCallRow → AiGatewayCallRow} {p : AiGatewayCallRow → Bool}
    (hp : ∀ row ∈ rows, p (f row) = p row) : (rows.map f).filter p = (rows.filter p).map f := by
  rw [List.filter_map]
  congr 1
  exact List.filter_congr hp

theorem sum_map_lowers {f : AiGatewayCallRow → AiGatewayCallRow} (hf : Lowers f rows) :
    ((rows.map f).map fun row => row.costUsd).sum ≤ (rows.map fun row => row.costUsd).sum := by
  rw [List.map_map]
  exact List.sum_le_sum fun row hr => (hf row hr).2.2.2

theorem Lowers.filter {f : AiGatewayCallRow → AiGatewayCallRow} (hf : Lowers f rows)
    (p : AiGatewayCallRow → Bool) : Lowers f (rows.filter p) :=
  fun row hr => hf row (List.mem_filter.mp hr).1

theorem spent_lowers {f : AiGatewayCallRow → AiGatewayCallRow} (hf : Lowers f rows) :
    l.spent (rows.map f) now ≤ l.spent rows now := by
  unfold Limit.spent
  rw [filter_map_of_eq fun row hr => ?_]
  · exact sum_map_lowers (hf.filter _)
  · simp only [hf.covers hr, (hf row hr).2.1]

theorem windowRows_lowers {f : AiGatewayCallRow → AiGatewayCallRow} (hf : Lowers f rows) :
    l.windowRows (rows.map f) window = (l.windowRows rows window).map f :=
  filter_map_of_eq fun row hr => by simp only [hf.covers hr, (hf row hr).2.1]

theorem sum_windowRows_le (now : ℤ) (hcost : ∀ row ∈ rows, 0 ≤ row.costUsd)
    (hbegun : ∀ row ∈ rows, l.covers row = true → l.windowStart row.at_ ≤ row.at_) :
    ((l.windowRows rows (l.window now)).map fun row => row.costUsd).sum ≤ l.spent rows now := by
  have hsub : (l.windowRows rows (l.window now)).Sublist
      (rows.filter fun row => l.covers row ∧ l.windowStart now ≤ row.at_) := by
    have heq : l.windowRows rows (l.window now) =
        (rows.filter fun row => l.covers row ∧ l.windowStart now ≤ row.at_).filter fun row =>
          l.covers row ∧ l.window row.at_ = l.window now := by
      unfold Limit.windowRows
      rw [List.filter_filter]
      refine List.filter_congr fun row hr => ?_
      by_cases h : l.covers row = true ∧ l.window row.at_ = l.window now
      · have hle := hbegun row hr h.1
        unfold Limit.windowStart at hle ⊢
        rw [h.2] at hle
        simp [h, hle]
      · simp [h]
    rw [heq]
    exact List.filter_sublist
  refine (hsub.map _).sum_le_sum fun cost hc => ?_
  obtain ⟨row, hr, rfl⟩ := List.mem_map.mp hc
  exact hcost row (List.mem_filter.mp hr).1

/-! ## The invariant -/

/-- The reserving transaction is over. -/
def Phase.Committed : Phase → Prop
  | .began | .locked | .checked => False
  | _ => True

structure CallOk (config : Config) (s : Sys) (c : ℕ) (call : Call) : Prop where
  used : c ∈ s.used
  nonneg : 0 ≤ call.estimatedCostUsd
  estimates : ∀ row ∈ s.rows, row.id = c → row.estimate = call.estimatedCostUsd
  rowOf : call.phase.Committed → ∃ row ∈ s.rows, row.id = c
  succeeded : ∀ cost n, call.phase = .succeeded cost n → 0 ≤ cost ∧ cost ≤ call.estimatedCostUsd
  locked : call.phase = .locked ∨ call.phase = .checked → s.lock = some c
  checked : call.phase = .checked →
    ∀ l ∈ config.limits call.tenantId, l.spent s.rows call.now < l.capUsd

structure Inv (config : Config) (s : Sys) : Prop where
  used : ∀ row ∈ s.rows, row.id ∈ s.used
  calls : ∀ c call, s.calls c = some call → CallOk config s c call
  costs : ∀ row ∈ s.rows, 0 ≤ row.costUsd ∧ (row.status = .reserved → row.costUsd = row.estimate)
  begun : ∀ row ∈ s.rows, ∀ l ∈ config.limits row.tenantId, l.windowStart row.at_ ≤ row.at_
  within : s.WithinCaps config

theorem inv_init (config : Config) : Inv config .init where
  used := by simp [Sys.init]
  calls := by simp [Sys.init]
  costs := by simp [Sys.init]
  begun := by simp [Sys.init]
  within := ⟨fun _ l _ _ => .inl (by simp [Limit.windowRows, Sys.init]), by simp [Sys.init],
    by simp [Sys.init]⟩

theorem calls_setCall {call' : Option Call} {c' : ℕ} (h : (s.setCall c call').calls c' = some call) :
    c' = c ∧ call' = some call ∨ c' ≠ c ∧ s.calls c' = some call := by
  simp only [Sys.setCall] at h
  by_cases hc : c' = c
  · subst hc
    rw [Function.update_self] at h
    exact .inl ⟨rfl, h⟩
  · rw [Function.update_of_ne hc] at h
    exact .inr ⟨hc, h⟩

theorem Inv.setCall (hi : Inv config s) {call' : Option Call} {u : List ℕ} {k : Option ℕ}
    (hused : ∀ i ∈ s.used, i ∈ u) (hlock : ∀ c', c' ≠ c → s.lock = some c' → k = some c')
    (hcall : ∀ call, call' = some call → CallOk config { s with used := u, lock := k } c call) :
    Inv config { s.setCall c call' with used := u, lock := k } where
  used row hr := hused _ (hi.used row hr)
  calls c' call h := by
    rcases calls_setCall h with ⟨rfl, hx⟩ | ⟨hc, hx⟩
    · exact { hcall call hx with }
    · have hok := hi.calls c' call hx
      exact { hok with
        used := hused _ hok.used
        locked := fun hp => hlock c' hc (hok.locked hp) }
  costs := hi.costs
  begun := hi.begun
  within := ⟨hi.within.windows, hi.within.invoked, hi.within.moves⟩

/-! ## Rows that move -/

theorem lowers_moveRow (status : Status) {cost : ℚ}
    (hcosts : ∀ row ∈ s.rows, row.status = .reserved → row.costUsd = row.estimate)
    (hle : ∀ row ∈ s.rows, row.id = c → cost ≤ row.estimate) :
    Lowers (fun row => if row.id = c ∧ row.status = .reserved then
      { row with status, costUsd := cost, moves := row.moves ++ [status] } else row) s.rows := by
  intro row hr
  dsimp only
  split_ifs with h
  · exact ⟨rfl, rfl, rfl, (hle row hr h.1).trans_eq (hcosts row hr h.2).symm⟩
  · exact ⟨rfl, rfl, rfl, le_rfl⟩

theorem Inv.moveRow (hi : Inv config s) {status : Status} {cost : ℚ} (hstatus : status ≠ .reserved)
    (hcost : 0 ≤ cost) (hle : ∀ row ∈ s.rows, row.id = c → cost ≤ row.estimate) :
    Inv config (s.moveRow c status cost) := by
  have hlow := lowers_moveRow status (fun row hr => (hi.costs row hr).2) hle
  have hid : ∀ row : AiGatewayCallRow, (if row.id = c ∧ row.status = .reserved then
      { row with status, costUsd := cost, moves := row.moves ++ [status] } else row).id = row.id :=
    fun row => by split <;> rfl
  refine ⟨?_, fun c' call h => ?_, ?_, ?_, ?_, ?_, ?_⟩
  · intro row hr
    obtain ⟨old, hold, rfl⟩ := List.mem_map.mp hr
    rw [hid]
    exact hi.used old hold
  · have hok := hi.calls c' call h
    refine { hok with estimates := fun row hr => ?_, rowOf := fun hp => ?_, checked := fun hp l hl => ?_ }
    · obtain ⟨old, hold, rfl⟩ := List.mem_map.mp hr
      rw [hid, (hlow old hold).2.2.1]
      exact hok.estimates old hold
    · obtain ⟨old, hold, ho⟩ := hok.rowOf hp
      exact ⟨_, List.mem_map.mpr ⟨old, hold, rfl⟩, (hid old).trans ho⟩
    · exact (spent_lowers hlow).trans_lt (hok.checked hp l hl)
  · intro row hr
    obtain ⟨old, hold, rfl⟩ := List.mem_map.mp hr
    split_ifs
    · exact ⟨hcost, fun h => absurd h hstatus⟩
    · exact hi.costs old hold
  · intro row hr l hl
    obtain ⟨old, hold, rfl⟩ := List.mem_map.mp hr
    rw [(hlow old hold).1] at hl
    rw [(hlow old hold).2.1]
    exact hi.begun old hold l hl
  · intro tenantId l hl window
    rw [Sys.moveRow, windowRows_lowers hlow]
    refine (hi.within.windows tenantId l hl window).imp (fun h => by rw [h, List.map_nil]) ?_
    rintro ⟨row, hr, hlt⟩
    refine ⟨_, List.mem_map.mpr ⟨row, hr, rfl⟩, ?_⟩
    rw [(hlow row (List.mem_filter.mp hr).1).2.2.1]
    exact (sum_map_lowers (hlow.filter _)).trans_lt hlt
  · intro c' hc'
    obtain ⟨old, hold, ho⟩ := hi.within.invoked c' hc'
    exact ⟨_, List.mem_map.mpr ⟨old, hold, rfl⟩, (hid old).trans ho⟩
  · intro row hr
    obtain ⟨old, hold, rfl⟩ := List.mem_map.mp hr
    have hmoves := hi.within.moves old hold
    split_ifs with h
    · rcases hmoves with ⟨hnil, -⟩ | ⟨st, -, hst, hne⟩
      · exact .inr ⟨status, by rw [hnil, List.nil_append], rfl, hstatus⟩
      · exact absurd (hst.symm.trans h.2) hne
    · exact hmoves

/-! ## Reservations -/

theorem windowRows_append (new : AiGatewayCallRow) : l.windowRows (rows ++ [new]) window =
    l.windowRows rows window ++ if l.covers new = true ∧ l.window new.at_ = window then [new]
      else [] := by
  unfold Limit.windowRows
  rw [List.filter_append, List.filter_singleton]
  simp

theorem windows_reserve (hi : Inv config s) {new : AiGatewayCallRow}
    (hnew : new.costUsd = new.estimate)
    (hchecked : ∀ l ∈ config.limits new.tenantId, l.spent s.rows new.at_ < l.capUsd)
    (hl : l ∈ config.limits tenantId) :
    l.windowRows (s.rows ++ [new]) window = [] ∨ ∃ row ∈ l.windowRows (s.rows ++ [new]) window,
      ((l.windowRows (s.rows ++ [new]) window).map fun row => row.costUsd).sum <
        l.capUsd + row.estimate := by
  rw [windowRows_append]
  split_ifs with h
  · obtain ⟨hcovers, rfl⟩ := h
    refine .inr ⟨new, List.mem_append_right _ List.mem_cons_self, ?_⟩
    have hsum := sum_windowRows_le (l := l) new.at_ (fun row hr => (hi.costs row hr).1)
      fun row hr hc => hi.begun row hr l (mem_limits_of_covers hl hc)
    have hlt := hchecked l (mem_limits_of_covers hl hcovers)
    rw [List.map_append, List.sum_append, List.map_singleton, List.sum_singleton, hnew]
    linarith
  · rw [List.append_nil]
    exact hi.within.windows tenantId l hl window

theorem Inv.commitReservation (hi : Inv config s)
    (hc : s.calls c = some ⟨tenantId, now, estimate, .checked⟩)
    (hbegun : ∀ l ∈ config.tenantLimits tenantId, l.windowStart now ≤ now) :
    Inv config { (s.setCall c (some ⟨tenantId, now, estimate, .reserved⟩)).unlock c with
      rows := s.rows ++ [⟨c, tenantId, now, estimate, .reserved, estimate, []⟩] } := by
  have hok := hi.calls c _ hc
  have hmem : ∀ {row}, row ∈ s.rows ++ [⟨c, tenantId, now, estimate, .reserved, estimate, []⟩] →
      row ∈ s.rows ∨ row = ⟨c, tenantId, now, estimate, .reserved, estimate, []⟩ := fun h =>
    (List.mem_append.mp h).imp_right List.mem_singleton.mp
  refine ⟨fun row hr => ?_, fun c' call h => ?_, fun row hr => ?_, fun row hr l hl => ?_,
    fun tenantId' l hl window => windows_reserve hi rfl (hok.checked rfl) hl,
    fun c' h => ?_, fun row hr => ?_⟩
  · rcases hmem hr with hr | rfl
    · exact hi.used row hr
    · exact hok.used
  · rcases calls_setCall (s := s) h with ⟨rfl, hx⟩ | ⟨hne, hx⟩
    · cases hx
      refine ⟨hok.used, hok.nonneg, fun row hr hid => ?_, fun _ => ?_, nofun, nofun, nofun⟩
      · rcases hmem hr with hr | rfl
        · exact hok.estimates row hr hid
        · rfl
      · exact ⟨_, List.mem_append_right _ List.mem_cons_self, rfl⟩
    · have hok' := hi.calls c' call hx
      -- no other call has the lock, so none has been checked
      have hnot : ¬ (call.phase = .locked ∨ call.phase = .checked) := fun hp => by
        have := (hok'.locked hp).symm.trans (hok.locked (.inr rfl))
        exact hne (Option.some.inj this)
      refine ⟨hok'.used, hok'.nonneg, fun row hr hid => ?_, fun hp => ?_, hok'.succeeded,
        fun hp => absurd hp hnot, fun hp => absurd (.inr hp) hnot⟩
      · rcases hmem hr with hr | rfl
        · exact hok'.estimates row hr hid
        · exact absurd hid.symm hne
      · obtain ⟨row, hr, hid⟩ := hok'.rowOf hp
        exact ⟨row, List.mem_append_left _ hr, hid⟩
  · rcases hmem hr with hr | rfl
    · exact hi.costs row hr
    · exact ⟨hok.nonneg, fun _ => rfl⟩
  · rcases hmem hr with hr | rfl
    · exact hi.begun row hr l hl
    · rcases List.mem_append.mp hl with hl | hl
      · exact hbegun l hl
      · exact windowStart_le_of_global hl now
  · obtain ⟨row, hr, hid⟩ := hi.within.invoked c' h
    exact ⟨row, List.mem_append_left _ hr, hid⟩
  · rcases hmem hr with hr | rfl
    · exact hi.within.moves row hr
    · exact .inl ⟨rfl, rfl⟩

/-! ## The steps -/

theorem Inv.next (hi : Inv config s) {call' : Option Call}
    (hcall : ∀ call, call' = some call → CallOk config s c call) : Inv config (s.setCall c call') :=
  hi.setCall (u := s.used) (k := s.lock) (fun _ h => h) (fun _ _ h => h) hcall

theorem Inv.endCall (hi : Inv config s) : Inv config ((s.setCall c none).unlock c) := by
  refine hi.setCall (u := s.used) (k := s.lock.filter (· ≠ c)) (fun _ h => h)
    (fun c' hne h => ?_) fun _ h => nomatch h
  rw [h]
  simp [hne]

theorem inv_step (hi : Inv config s) {a : Act} (hok : WindowsBegun config s a)
    (h : step config s a = some s') : Inv config s' := by
  cases a with
  | call c tenantId estimate now =>
    simp only [step] at h
    split_ifs at h with hc
    cases h
    refine hi.setCall (k := s.lock) (fun _ => List.mem_cons_of_mem _) (fun _ _ h => h)
      fun call h => ?_
    cases h
    exact ⟨List.mem_cons_self, hc.2, fun row hr hid => absurd (hid ▸ hi.used row hr) hc.1, nofun,
      nofun, nofun, nofun⟩
  | acquireLock c =>
    simp only [step] at h
    split at h
    · next tenantId now estimate hc =>
      split_ifs at h with hlock
      cases h
      have hcall := hi.calls c _ hc
      refine hi.setCall (u := s.used) (fun _ h => h) (fun _ _ h => ?_) fun call h => ?_
      · rw [hlock] at h
        cases h
      · cases h
        exact { hcall with
          rowOf := nofun
          succeeded := nofun
          locked := fun _ => rfl
          checked := nofun }
    · cases h
  | assertWithinBudget c =>
    simp only [step] at h
    split at h
    · next tenantId now estimate hc =>
      have hcall := hi.calls c _ hc
      split_ifs at h with hbudget
      · cases h
        refine hi.next fun call h => ?_
        cases h
        refine { hcall with
          rowOf := nofun
          succeeded := nofun
          locked := fun _ => hcall.locked (.inl rfl)
          checked := fun _ l hl => ?_ }
        unfold Config.withinBudget at hbudget
        rw [Bool.and_eq_true, List.all_eq_true] at hbudget
        exact of_decide_eq_true (hbudget.2 l hl)
      · cases h
        exact hi.endCall
    · cases h
  | commitReservation c =>
    simp only [step] at h
    split at h
    · next tenantId now estimate hc =>
      cases h
      exact hi.commitReservation hc (hok _ (Option.mem_def.mpr hc))
    · cases h
  | invoke c =>
    simp only [step] at h
    split at h
    · next tenantId now estimate hc =>
      cases h
      have hcall := hi.calls c _ hc
      have hi' : Inv config (s.setCall c (some ⟨tenantId, now, estimate, .invoked⟩)) :=
        hi.next fun call h => by
          cases h
          exact { hcall with
            rowOf := fun _ => hcall.rowOf trivial
            succeeded := nofun
            locked := nofun
            checked := nofun }
      refine ⟨hi'.used, fun c' call h => { hi'.calls c' call h with }, hi'.costs, hi'.begun,
        hi'.within.windows, fun c' h => ?_, hi'.within.moves⟩
      rcases List.mem_append.mp h with h | h
      · exact hi.within.invoked c' h
      · exact List.mem_singleton.mp h ▸ hcall.rowOf trivial
    · cases h
  | providerReturns c cost =>
    simp only [step] at h
    split at h
    · next tenantId now estimate hc =>
      split_ifs at h with hcost
      cases h
      have hcall := hi.calls c _ hc
      refine hi.next fun call h => ?_
      cases h
      exact { hcall with
        rowOf := fun _ => hcall.rowOf trivial
        succeeded := fun cost' n hp => by
          cases hp
          exact hcost
        locked := nofun
        checked := nofun }
    · cases h
  | providerRejects c =>
    simp only [step] at h
    split at h
    · next tenantId now estimate hc =>
      cases h
      have hcall := hi.calls c _ hc
      refine hi.next fun call h => ?_
      cases h
      exact { hcall with
        rowOf := fun _ => hcall.rowOf trivial
        succeeded := nofun
        locked := nofun
        checked := nofun }
    · cases h
  | settle c =>
    simp only [step] at h
    split at h
    · next tenantId now estimate cost n hc =>
      cases h
      have hcall := hi.calls c _ hc
      obtain ⟨hnonneg, hle⟩ := hcall.succeeded cost n rfl
      have hmoved : Inv config (s.moveRow c .settled cost) :=
        hi.moveRow (by simp) hnonneg fun row hr hid => hle.trans_eq (hcall.estimates row hr hid).symm
      exact hmoved.next fun _ h => nomatch h
    · cases h
  | settleFails c =>
    simp only [step] at h
    split at h
    · next tenantId now estimate cost n hc =>
      cases h
      have hcall := hi.calls c _ hc
      refine hi.next fun call h => ?_
      split_ifs at h
      cases h
      exact { hcall with
        rowOf := fun _ => hcall.rowOf trivial
        succeeded := fun cost' n' hp => by
          cases hp
          exact hcall.succeeded cost n rfl
        locked := nofun
        checked := nofun }
    · cases h
  | fail c =>
    simp only [step] at h
    split at h
    · next tenantId now estimate hc =>
      cases h
      have hcall := hi.calls c _ hc
      have hmoved : Inv config (s.moveRow c .failed 0) :=
        hi.moveRow (by simp) le_rfl fun row hr hid =>
          hcall.nonneg.trans_eq (hcall.estimates row hr hid).symm
      exact hmoved.next fun _ h => nomatch h
    · cases h
  | crash c =>
    obtain ⟨call, -, rfl⟩ := Option.map_eq_some_iff.mp h
    exact hi.endCall

/-- Wherever no reservation is made before the start that is computed of its window, the budget
holds. -/
theorem withinCaps (config : Config) :
    ∀ s, Reach (step config) (WindowsBegun config) .init s → s.WithinCaps config :=
  fun _ h => (h.invariant (inv_init config) fun _ _ _ hi hok hs => inv_step hi hok hs).within

def windowsBegunCheck (config : Config) (s : Sys) : Act → Bool
  | .commitReservation c => (s.calls c).all fun call =>
    (config.tenantLimits call.tenantId).all fun l => l.windowStart call.now ≤ call.now
  | _ => true

theorem windowsBegun_of_check (config : Config) (s : Sys) (a : Act)
    (h : windowsBegunCheck config s a = true) : WindowsBegun config s a := by
  cases a with
  | commitReservation c =>
    intro call hc l hl
    rw [windowsBegunCheck, Option.mem_def.mp hc, Option.all_some, List.all_eq_true] at h
    exact of_decide_eq_true (h l hl)
  | _ => trivial

/-- Havana: an hour back from one o'clock on 2026-11-01. -/
def havana : Timezone := ⟨-14400, [(1793509200, -18000)]⟩

def oneDollar : Config := ⟨fun _ => some ⟨some 1, none⟩, fun _ => havana, 100, 1000⟩

def reserveAt (c : ℕ) (now : ℤ) : List Act :=
  [.call c 0 1 now, .acquireLock c, .assertWithinBudget c, .commitReservation c]

def atNoon : List Act :=
  reserveAt 0 1793548800 ++
    ([.invoke 0, .providerReturns 0 (1 / 2), .settleFails 0, .settle 0] : List Act) ++
    reserveAt 1 1793548801 ++
    ([.call 2 0 1 1793548802, .acquireLock 2, .assertWithinBudget 2] : List Act)

theorem withinCaps_atNoon : ∃ s, runActs (step oneDollar) .init atNoon = some s ∧
    s.rows.map (·.id) = [0, 1] ∧ s.WithinCaps oneDollar := by
  obtain ⟨s, hs⟩ := Option.isSome_iff_exists.mp (show
    (runChecked (step oneDollar) (windowsBegunCheck oneDollar) .init atNoon).isSome = true by
      decide +kernel)
  exact ⟨s, runActs_of_runChecked hs,
    eq_of_map_eq (f := fun s => s.rows.map (·.id)) hs (by decide +kernel),
    withinCaps oneDollar s (.of_runChecked (windowsBegun_of_check oneDollar) hs)⟩

def atHalfPastMidnight : List Act :=
  reserveAt 0 1793507400 ++ reserveAt 1 1793507401 ++ reserveAt 2 1793507402

theorem atHalfPastMidnight_exceeds : ∃ s, Reach (step oneDollar) (fun _ _ => True) .init s ∧
    s.rows.map (·.costUsd) = [1, 1, 1] ∧ ¬ s.WithinCaps oneDollar := by
  obtain ⟨s, hs⟩ := Option.isSome_iff_exists.mp (show
    (runActs (step oneDollar) .init atHalfPastMidnight).isSome = true by decide +kernel)
  have hrows : s.rows = [⟨0, 0, 1793507400, 1, .reserved, 1, []⟩,
      ⟨1, 0, 1793507401, 1, .reserved, 1, []⟩, ⟨2, 0, 1793507402, 1, .reserved, 1, []⟩] :=
    eq_of_map_eq (f := fun s => s.rows) hs (by decide +kernel)
  refine ⟨s, .of_runActs hs, by rw [hrows]; rfl, fun h => ?_⟩
  have hday := h.windows 0 ⟨some 0, .day, havana, 1⟩ (by simp [Config.limits, Config.tenantLimits, oneDollar]) 1793491200
  rw [hrows] at hday
  exact absurd hday (by decide +kernel)

end AiGateway

end Semprec
