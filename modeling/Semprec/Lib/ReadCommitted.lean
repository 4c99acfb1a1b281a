import Mathlib.Data.Finset.Basic
import Mathlib.Logic.Function.Basic

/-!
# Transactions under READ COMMITTED

Any number of open transactions over committed tables `σ`.  A statement sees the committed tables
as they are when it starts, with its own transaction's earlier writes applied; its writes `ω` stay
with its transaction until the commit.  A row lock is a write another open transaction has not
committed yet (`Locked`).
-/

namespace Semprec

variable {σ ω : Type*}

structure ReadCommitted (σ ω : Type*) where
  committed : σ
  opened : Finset ℕ
  pending : ℕ → List ω
  pending_nil : ∀ t, t ∉ opened → pending t = []

namespace ReadCommitted

variable (apply : σ → ω → σ)

def init (tables : σ) : ReadCommitted σ ω where
  committed := tables
  opened := ∅
  pending := fun _ => []
  pending_nil := fun _ _ => rfl

def view (db : ReadCommitted σ ω) (t : ℕ) : σ :=
  (db.pending t).foldl apply db.committed

def Locked (db : ReadCommitted σ ω) (t : ℕ) (conflict : ω → Bool) : Prop :=
  ∃ u ∈ db.opened, u ≠ t ∧ (db.pending u).any conflict = true

instance (db : ReadCommitted σ ω) (t : ℕ) (conflict : ω → Bool) :
    Decidable (db.Locked t conflict) := by
  unfold Locked
  infer_instance

def begin (db : ReadCommitted σ ω) (t : ℕ) : Option (ReadCommitted σ ω) :=
  if t ∈ db.opened then none
  else some { db with
    opened := insert t db.opened
    pending_nil := fun u hu => db.pending_nil u fun h => hu (Finset.mem_insert_of_mem h) }

def write (db : ReadCommitted σ ω) (t : ℕ) (ws : List ω) : Option (ReadCommitted σ ω) :=
  if ht : t ∈ db.opened then
    some { db with
      pending := Function.update db.pending t (db.pending t ++ ws)
      pending_nil := fun u hu => by
        have hut : u ≠ t := fun h => hu (h ▸ ht)
        rw [Function.update_of_ne hut]
        exact db.pending_nil u hu }
  else none

def close (db : ReadCommitted σ ω) (t : ℕ) (tables : σ) : ReadCommitted σ ω where
  committed := tables
  opened := db.opened.erase t
  pending := Function.update db.pending t []
  pending_nil := fun u hu => by
    by_cases hut : u = t
    · rw [hut, Function.update_self]
    · rw [Function.update_of_ne hut]
      exact db.pending_nil u fun h => hu (Finset.mem_erase.mpr ⟨hut, h⟩)

def commit (db : ReadCommitted σ ω) (t : ℕ) : Option (ReadCommitted σ ω) :=
  if t ∈ db.opened then some (db.close t (db.view apply t)) else none

def rollback (db : ReadCommitted σ ω) (t : ℕ) : Option (ReadCommitted σ ω) :=
  if t ∈ db.opened then some (db.close t db.committed) else none

variable {apply} {db db' : ReadCommitted σ ω} {t u : ℕ} {ws : List ω} {w : ω}

theorem mem_opened_of_mem_pending (h : w ∈ db.pending t) : t ∈ db.opened := by
  by_contra ht
  rw [db.pending_nil t ht] at h
  exact List.not_mem_nil h

theorem begin_pending (h : db.begin t = some db') : db'.pending = db.pending := by
  unfold begin at h
  split_ifs at h
  cases h
  rfl

theorem begin_committed (h : db.begin t = some db') : db'.committed = db.committed := by
  unfold begin at h
  split_ifs at h
  cases h
  rfl

theorem begin_opened (h : db.begin t = some db') : db'.opened = insert t db.opened := by
  unfold begin at h
  split_ifs at h
  cases h
  rfl

theorem write_opened (h : db.write t ws = some db') : db'.opened = db.opened := by
  unfold write at h
  split_ifs at h
  cases h
  rfl

theorem commit_opened (h : db.commit apply t = some db') : db'.opened = db.opened.erase t := by
  unfold commit at h
  split_ifs at h
  cases h
  rfl

theorem rollback_opened (h : db.rollback t = some db') : db'.opened = db.opened.erase t := by
  unfold rollback at h
  split_ifs at h
  cases h
  rfl

theorem write_committed (h : db.write t ws = some db') : db'.committed = db.committed := by
  unfold write at h
  split_ifs at h
  cases h
  rfl

theorem write_pending (h : db.write t ws = some db') :
    db'.pending = Function.update db.pending t (db.pending t ++ ws) := by
  unfold write at h
  split_ifs at h
  cases h
  rfl

/-- A write that is uncommitted after a statement was so before it, or is the statement's. -/
theorem mem_write_pending (h : db.write t ws = some db') (hw : w ∈ db'.pending u) :
    w ∈ db.pending u ∨ u = t ∧ w ∈ ws := by
  rw [write_pending h] at hw
  by_cases hut : u = t
  · subst hut
    rw [Function.update_self, List.mem_append] at hw
    exact hw.imp_right fun h => ⟨rfl, h⟩
  · rw [Function.update_of_ne hut] at hw
    exact .inl hw

theorem commit_committed (h : db.commit apply t = some db') :
    db'.committed = db.view apply t := by
  unfold commit at h
  split_ifs at h
  cases h
  rfl

theorem commit_pending (h : db.commit apply t = some db') :
    db'.pending = Function.update db.pending t [] := by
  unfold commit at h
  split_ifs at h
  cases h
  rfl

theorem rollback_committed (h : db.rollback t = some db') : db'.committed = db.committed := by
  unfold rollback at h
  split_ifs at h
  cases h
  rfl

theorem rollback_pending (h : db.rollback t = some db') :
    db'.pending = Function.update db.pending t [] := by
  unfold rollback at h
  split_ifs at h
  cases h
  rfl

/-- What is uncommitted after a transaction has ended belongs to another and was so before. -/
theorem mem_closed_pending (h : db'.pending = Function.update db.pending t [])
    (hw : w ∈ db'.pending u) : u ≠ t ∧ w ∈ db.pending u := by
  rw [h] at hw
  by_cases hut : u = t
  · subst hut
    rw [Function.update_self] at hw
    exact absurd hw List.not_mem_nil
  · rw [Function.update_of_ne hut] at hw
    exact ⟨hut, hw⟩

theorem Locked.of_mem {conflict : ω → Bool} (hw : w ∈ db.pending u) (hut : u ≠ t)
    (hc : conflict w = true) : db.Locked t conflict :=
  ⟨u, mem_opened_of_mem_pending hw, hut, List.any_eq_true.mpr ⟨w, hw, hc⟩⟩

/-! ## What only one transaction may claim -/

section

variable {κ : Type*} {claims claims' : ℕ → κ → Prop}

def Exclusive (claims : ℕ → κ → Prop) : Prop := ∀ t u k, claims t k → claims u k → t = u

theorem Exclusive.mono (h : Exclusive claims) (hold : ∀ u k, claims' u k → claims u k) :
    Exclusive claims' :=
  fun u v k hu hv => h u v k (hold u k hu) (hold v k hv)

/-- A claim of `t` is new only where no other transaction has it. -/
theorem Exclusive.step (h : Exclusive claims)
    (hnew : ∀ u k, claims' u k → claims u k ∨ u = t ∧ ∀ v, v ≠ t → ¬claims v k) :
    Exclusive claims' := by
  intro u v k hu hv
  rcases hnew u k hu with hu | ⟨hut, hfree⟩ <;> rcases hnew v k hv with hv | ⟨hvt, hfree'⟩
  · exact h u v k hu hv
  · by_contra hne
    exact hfree' u (hvt ▸ hne) hu
  · by_contra hne
    exact hfree v (hut ▸ Ne.symm hne) hv
  · exact hut.trans hvt.symm

theorem Exclusive.write (lock : κ → ω) (h : Exclusive fun t k => lock k ∈ db.pending t)
    (hwrite : db.write t ws = some db')
    (hfree : ∀ k, lock k ∈ ws → ∀ u, u ≠ t → lock k ∉ db.pending u) :
    Exclusive fun t k => lock k ∈ db'.pending t :=
  h.step fun _ k hu => (mem_write_pending hwrite hu).imp_right fun ⟨hut, hw⟩ => ⟨hut, hfree k hw⟩

theorem Exclusive.close (lock : κ → ω) (h : Exclusive fun t k => lock k ∈ db.pending t)
    (hpending : db'.pending = Function.update db.pending t []) :
    Exclusive fun t k => lock k ∈ db'.pending t :=
  h.mono fun _ _ hu => (mem_closed_pending hpending hu).2

end

end ReadCommitted

end Semprec
