import Mathlib.Data.List.Basic
import Semprec.AccountAccess

/-!
# What the account transactions write and lock

The lemmas that the two results about the account transactions share: a write of a tenant's row is
made under its lock, no user changes tenant, and the rules for the statements the transactions are
made of.
-/

namespace Semprec

namespace AccountAccess

open ReadCommitted (Sound Stable Compatible)

namespace LockMode

theorem conflicts_symm (m n : LockMode) : m.conflicts n = n.conflicts m := by
  rcases m <;> rcases n <;> rfl

end LockMode

theorem Lock.conflicts_symm : ∀ l m : Lock, l.conflicts m = m.conflicts l
  | .user i a, .user j b => by
    simp only [Lock.conflicts, a.conflicts_symm b, BEq.comm (a := i)]
  | .tenant i a, .tenant j b => by
    simp only [Lock.conflicts, a.conflicts_symm b, BEq.comm (a := i)]
  | .adminMembership, .adminMembership => rfl
  | .adminMembership, .user _ _ | .adminMembership, .tenant _ _ => rfl
  | .user _ _, .adminMembership | .user _ _, .tenant _ _ => rfl
  | .tenant _ _, .adminMembership | .tenant _ _, .user _ _ => rfl

/-! ### The tables -/

def Write.tenant : Write → Option ℕ
  | .setTenantStatus tenantId _ => some tenantId
  | .deleteTenant tenantId => some tenantId
  | _ => none

namespace Tables

variable {t t' : Tables} {w : Write} {ws : List Write} {tenantId userId : ℕ} {u v : UserRow}

theorem find?_map_tenants {f : TenantRow → TenantRow} (hf : ∀ x, (f x).id = x.id)
    (tenants : List TenantRow) :
    (tenants.map f).find? (·.id == tenantId) = (tenants.find? (·.id == tenantId)).map f := by
  rw [List.find?_map]
  congr 1
  exact congrArg (fun p => List.find? p tenants) (by funext x; simp [hf])

theorem tenantStatus_setTenantStatus (T : ℕ) (status : TenantStatus) :
    (t.apply (.setTenantStatus T status)).tenantStatus tenantId =
      (t.tenantStatus tenantId).map fun s => if tenantId = T then status else s := by
  simp only [apply, tenantStatus]
  rw [find?_map_tenants (by intro x; split_ifs <;> rfl), Option.map_map, Option.map_map]
  refine Option.map_congr fun x hx => ?_
  have hid : x.id = tenantId := by simpa using List.find?_some hx
  simp only [Function.comp, hid]
  split_ifs <;> rfl

theorem tenantStatus_deleteTenant_of_ne {T : ℕ} (h : tenantId ≠ T) :
    (t.apply (.deleteTenant T)).tenantStatus tenantId = t.tenantStatus tenantId := by
  simp only [apply, tenantStatus, List.find?_filter]
  congr 2
  funext x
  by_cases hx : x.id = tenantId
  · simp [hx, h]
  · simp [hx]

theorem tenantStatus_apply (h : w.tenant ≠ some tenantId) :
    (t.apply w).tenantStatus tenantId = t.tenantStatus tenantId := by
  rcases w with ⟨T, status⟩ | _ | _ | _ | _ | _ | _ | _ | _ | ⟨T⟩
  case setTenantStatus =>
    have hT : tenantId ≠ T := fun hT => h (by rw [hT, Write.tenant])
    simp [tenantStatus_setTenantStatus, hT]
  case deleteTenant =>
    exact tenantStatus_deleteTenant_of_ne fun hT => h (by rw [hT, Write.tenant])
  all_goals rfl

theorem tenantStatus_foldl (h : ∀ w ∈ ws, w.tenant ≠ some tenantId) :
    (ws.foldl apply t).tenantStatus tenantId = t.tenantStatus tenantId := by
  induction ws generalizing t with
  | nil => rfl
  | cons w ws ih =>
    rw [List.foldl_cons, ih fun x hx => h x (List.mem_cons_of_mem w hx),
      tenantStatus_apply (h w List.mem_cons_self)]

theorem user_eq_some (h : t.user userId = some u) : u ∈ t.users ∧ u.id = userId :=
  ⟨List.mem_of_find?_eq_some h, by simpa using List.find?_some h⟩

theorem eq_of_id (hu : u ∈ t.users) (hv : v ∈ t.users) (h : u.id = v.id) : u = v :=
  List.inj_on_of_nodup_map t.users_pkey hu hv h

theorem eq_of_tenantId (hu : u ∈ t.users) (hv : v ∈ t.users) (h : u.tenantId = v.tenantId) :
    u = v :=
  List.inj_on_of_nodup_map t.users_tenant_id_key hu hv h

def UsersKept (t t' : Tables) : Prop :=
  ∀ u' ∈ t'.users, ∃ u ∈ t.users, u.id = u'.id ∧ u.tenantId = u'.tenantId

theorem UsersKept.refl (t : Tables) : t.UsersKept t :=
  fun u hu => ⟨u, hu, rfl, rfl⟩

theorem UsersKept.trans {t'' : Tables} (h : t.UsersKept t') (h' : t'.UsersKept t'') :
    t.UsersKept t'' := by
  intro u'' hu''
  obtain ⟨u', hu', hid', htenant'⟩ := h' u'' hu''
  obtain ⟨u, hu, hid, htenant⟩ := h u' hu'
  exact ⟨u, hu, hid.trans hid', htenant.trans htenant'⟩

theorem usersKept_updateUser {f : UserRow → UserRow}
    (hf : ∀ u, (f u).id = u.id ∧ (f u).tenantId = u.tenantId) :
    t.UsersKept (t.updateUser userId f hf) := by
  intro u' hu'
  obtain ⟨u, hu, rfl⟩ := List.mem_map.mp hu'
  refine ⟨u, hu, ?_⟩
  split_ifs
  · exact ⟨(hf u).1.symm, (hf u).2.symm⟩
  · exact ⟨rfl, rfl⟩

theorem usersKept_apply (w : Write) : t.UsersKept (t.apply w) := by
  rcases w with _ | ⟨userId, role⟩ | ⟨userId, passwordHash⟩ | _ | _ | _ | _ | _ | _ | _
  case setUserRole =>
    exact usersKept_updateUser (f := fun u => { u with role }) fun _ => ⟨rfl, rfl⟩
  case setPasswordHash =>
    exact usersKept_updateUser (f := fun u => { u with passwordHash }) fun _ => ⟨rfl, rfl⟩
  case deleteUser => exact fun u hu => ⟨u, List.mem_of_mem_filter hu, rfl, rfl⟩
  all_goals exact UsersKept.refl t

theorem usersKept_foldl : t.UsersKept (ws.foldl apply t) := by
  induction ws generalizing t with
  | nil => exact UsersKept.refl t
  | cons w ws ih => exact (usersKept_apply w).trans ih

def UserOf (userId tenantId : ℕ) (t : Tables) : Prop :=
  ∀ u ∈ t.users, u.id = userId ↔ u.tenantId = tenantId

theorem userOf_of_mem (hu : u ∈ t.users) : t.UserOf u.id u.tenantId :=
  fun v hv => ⟨fun h => by rw [eq_of_id hv hu h], fun h => by rw [eq_of_tenantId hv hu h]⟩

theorem UserOf.kept (h : t.UserOf userId tenantId) (hkept : t.UsersKept t') :
    t'.UserOf userId tenantId := by
  intro u' hu'
  obtain ⟨u, hu, hid, htenant⟩ := hkept u' hu'
  rw [← hid, ← htenant]
  exact h u hu

theorem tenantIn_iff {statuses : List TenantStatus} : t.tenantIn tenantId statuses = true ↔
    ∃ status ∈ statuses, t.tenantStatus tenantId = some status := by
  unfold tenantIn
  rcases t.tenantStatus tenantId with _ | status <;> simp

end Tables

/-! ### Locks -/

/-- A lock of the tenant's row that excludes every other writer of it. -/
def TenantLocked (ls : List Lock) (tenantId : ℕ) : Prop :=
  .tenant tenantId .noKeyUpdate ∈ ls ∨ .tenant tenantId .update ∈ ls

def StatusesLocked (ls : List Lock) (t t' : Tables) : Prop :=
  ∀ tenantId, t'.tenantStatus tenantId ≠ t.tenantStatus tenantId → TenantLocked ls tenantId

def WritesLocked (ls : List Lock) (ws : List Write) : Prop :=
  ∀ w ∈ ws, ∀ tenantId ∈ w.tenant, TenantLocked ls tenantId

section locks

variable {ls ms : List Lock} {t : Tables} {w : Write} {ws : List Write} {tenantId : ℕ} {l : Lock}

theorem TenantLocked.cons (h : TenantLocked ls tenantId) : TenantLocked (l :: ls) tenantId :=
  h.imp (List.mem_cons_of_mem l) (List.mem_cons_of_mem l)

theorem WritesLocked.cons (h : WritesLocked ls ws) : WritesLocked (l :: ls) ws :=
  fun w hw T hT => (h w hw T hT).cons

theorem WritesLocked.snoc (h : WritesLocked ls ws)
    (hw : ∀ tenantId ∈ w.tenant, TenantLocked ls tenantId) : WritesLocked ls (ws ++ [w]) := by
  intro x hx
  rcases List.mem_append.mp hx with hx | hx
  · exact h x hx
  · rw [List.mem_singleton.mp hx]
    exact hw

theorem WritesLocked.statuses (h : WritesLocked ls ws) :
    StatusesLocked ls t (ws.foldl Tables.apply t) := by
  intro tenantId hne
  by_contra hno
  exact hne (Tables.tenantStatus_foldl fun w hw heq => hno (h w hw tenantId heq))

theorem not_mem_adminMembership (h : Compatible Lock.conflicts ls ms)
    (hl : Lock.adminMembership ∈ ls) : Lock.adminMembership ∉ ms :=
  fun hm => by simpa [Lock.conflicts] using h _ hl _ hm

theorem not_tenantLocked_of_share (h : Compatible Lock.conflicts ls ms)
    (hl : .tenant tenantId .share ∈ ls) : ¬ TenantLocked ms tenantId := by
  rintro (hm | hm)
  · simpa [Lock.conflicts, LockMode.conflicts] using h _ hl _ hm
  · simpa [Lock.conflicts, LockMode.conflicts] using h _ hl _ hm

theorem not_share_of_tenantLocked (h : Compatible Lock.conflicts ls ms)
    (hl : TenantLocked ls tenantId) : .tenant tenantId .share ∉ ms := by
  intro hm
  rcases hl with hl | hl
  · simpa [Lock.conflicts, LockMode.conflicts] using h _ hl _ hm
  · simpa [Lock.conflicts, LockMode.conflicts] using h _ hl _ hm

theorem not_tenantLocked (h : Compatible Lock.conflicts ls ms) (hl : TenantLocked ls tenantId) :
    ¬ TenantLocked ms tenantId := by
  intro hm
  rcases hl with hl | hl <;> rcases hm with hm | hm <;>
    simpa [Lock.conflicts, LockMode.conflicts] using h _ hl _ hm

end locks

/-! ### Rules of the statements -/

section rules

variable {guar : List Lock → Tables → Tables → Prop} {inv : Tables → Prop} {ls : List Lock}
  {A : Tables → Prop} {ws : List Write}

/-- The rule of a program of account transactions. -/
abbrev SoundTx (guar : List Lock → Tables → Tables → Prop) (inv : Tables → Prop) :
    Transaction → List Lock → (Tables → Prop) → List Write → Prop :=
  Sound Tables.apply Lock.conflicts guar inv

abbrev StableTx (guar : List Lock → Tables → Tables → Prop) (ls : List Lock)
    (A : Tables → Prop) : Prop :=
  Stable Lock.conflicts guar ls A

theorem sound_selectForLock {α : Type} {lock : Lock} {read : Tables → Option α}
    {next : Option α → Transaction} (hA : StableTx guar ls A)
    (hnone : SoundTx guar inv (next none) ls A ws)
    (hlocked : ∀ t, inv t → A t → ∃ B, StableTx guar (lock :: ls) B ∧ B t ∧
      SoundTx guar inv (next (read (ws.foldl Tables.apply t))) (lock :: ls) B ws) :
    SoundTx guar inv (selectForLock lock read next) ls A ws := by
  refine Sound.read fun t _ ha => ⟨A, hA, ha, ?_⟩
  rcases read (ws.foldl Tables.apply t) with _ | x
  · exact hnone
  · exact Sound.acquire <| Sound.read hlocked

theorem sound_writeRow {lock : Lock} {found : Tables → Bool} {w : Write}
    {missing next : Transaction} (hA : StableTx guar ls A)
    (hmissing : SoundTx guar inv missing ls A ws)
    (hmissing' : SoundTx guar inv missing (lock :: ls) A ws)
    (hnext : ∀ t, inv t → A t → found (ws.foldl Tables.apply t) = true →
      ∃ B, StableTx guar (lock :: ls) B ∧ B t ∧
        SoundTx guar inv next (lock :: ls) B (ws ++ [w])) :
    SoundTx guar inv (writeRow lock found w missing next) ls A ws := by
  refine Sound.read fun t _ ha => ⟨A, hA, ha, ?_⟩
  split_ifs
  · intro t hi ha
    by_cases hf : found (ws.foldl Tables.apply t) = true
    · obtain ⟨B, hB, hb, hs⟩ := hnext t hi ha hf
      exact ⟨B, hB, hb, by simpa only [hf, if_true] using hs⟩
    · refine ⟨A, hA.mono (List.subset_cons_self lock ls), ha, ?_⟩
      simpa only [hf, if_false, Bool.false_eq_true, List.append_nil] using hmissing'
  · exact hmissing

theorem sound_statement {writes : Tables → List Write} {next : Tables → Transaction}
    (hA : StableTx guar ls A)
    (hnext : ∀ t, inv t → A t → SoundTx guar inv (next (ws.foldl Tables.apply t)) ls A
      (ws ++ writes (ws.foldl Tables.apply t))) :
    SoundTx guar inv (.statement writes next) ls A ws :=
  fun t hi ha => ⟨A, hA, ha, hnext t hi ha⟩

theorem sound_select {next : Tables → Transaction} (hA : StableTx guar ls A)
    (hnext : ∀ t, inv t → A t → SoundTx guar inv (next (ws.foldl Tables.apply t)) ls A ws) :
    SoundTx guar inv (.statement (fun _ => []) next) ls A ws :=
  Sound.read fun t hi ha => ⟨A, hA, ha, hnext t hi ha⟩

end rules

end AccountAccess

end Semprec
