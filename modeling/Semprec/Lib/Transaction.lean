import Mathlib.Logic.Basic

/-!
# Computations in a transaction

A `Tx σ ε α` runs against a state and may fail; what it wrote before it failed is still in the
state then, until the transaction is rolled back (`Tx.transaction`).  A failure that is caught
inside the transaction is not rolled back: `Tx.Atomic` says of a computation that it leaves no
write behind when it fails, which is what makes catching it safe.
-/

namespace Semprec

theorem except_bind_ok {ε α β : Type} {x : Except ε α} {f : α → Except ε β} {b : β} :
    (x >>= f) = .ok b ↔ ∃ a, x = .ok a ∧ f a = .ok b := by
  rcases x with e | a
  · exact ⟨nofun, fun ⟨_, h, _⟩ => nomatch h⟩
  · exact ⟨fun h => ⟨a, rfl, h⟩, fun ⟨_, h, hf⟩ => by cases h; exact hf⟩

theorem except_bind_error {ε α β : Type} {x : Except ε α} {f : α → Except ε β} {e : ε} :
    (x >>= f) = .error e ↔ x = .error e ∨ ∃ a, x = .ok a ∧ f a = .error e := by
  rcases x with e' | a
  · show Except.error e' = Except.error e ↔ _
    simp
  · exact ⟨fun h => .inr ⟨a, rfl, h⟩, fun h => h.elim nofun fun ⟨_, h, hf⟩ => by cases h; exact hf⟩

theorem except_forM_ok {ε α : Type} {f : α → Except ε PUnit} :
    ∀ {l : List α}, l.forM f = .ok () ↔ ∀ a ∈ l, f a = .ok ()
  | [] => ⟨fun _ _ h => absurd h List.not_mem_nil, fun _ => rfl⟩
  | a :: l => by
    show (f a >>= fun _ => l.forM f) = .ok () ↔ _
    rw [except_bind_ok, List.forall_mem_cons]
    exact ⟨fun ⟨_, ha, hl⟩ => ⟨ha, except_forM_ok.mp hl⟩,
      fun ⟨ha, hl⟩ => ⟨(), ha, except_forM_ok.mpr hl⟩⟩

def Tx (σ ε α : Type) : Type := σ → Except ε α × σ

namespace Tx

variable {σ ε α β : Type}

def run (x : Tx σ ε α) (s : σ) : Except ε α × σ := x s

instance : Monad (Tx σ ε) where
  pure a := fun s => (.ok a, s)
  bind x f := fun s =>
    match x s with
    | (.ok a, s') => f a s'
    | (.error e, s') => (.error e, s')

/-- A query: it may fail, and writes nothing. -/
def query (f : σ → Except ε α) : Tx σ ε α := fun s => (f s, s)

def gets (f : σ → α) : Tx σ ε α := fun s => (.ok (f s), s)

/-- A statement that writes and returns what it wrote. -/
def write (f : σ → α × σ) : Tx σ ε α := fun s => (.ok (f s).1, (f s).2)

def throw (e : ε) : Tx σ ε α := fun s => (.error e, s)

def catchError (x : Tx σ ε α) (handler : ε → Tx σ ε α) : Tx σ ε α := fun s =>
  match x s with
  | (.ok a, s') => (.ok a, s')
  | (.error e, s') => handler e s'

/-- `BEGIN … COMMIT`, or `ROLLBACK` on a failure. -/
def transaction (x : Tx σ ε α) (s : σ) : Except ε α × σ :=
  match x.run s with
  | (.ok a, s') => (.ok a, s')
  | (.error e, _) => (.error e, s)

section run

variable {x : Tx σ ε α} {f : α → Tx σ ε β} {s s' : σ} {b : β} {e : ε}

@[simp] theorem run_pure (a : α) (s : σ) : (pure a : Tx σ ε α).run s = (.ok a, s) := rfl

@[simp] theorem run_query (f : σ → Except ε α) (s : σ) : (query f).run s = (f s, s) := rfl

@[simp] theorem run_gets (f : σ → α) (s : σ) : (gets f : Tx σ ε α).run s = (.ok (f s), s) := rfl

@[simp] theorem run_write (f : σ → α × σ) (s : σ) :
    (write f : Tx σ ε α).run s = (.ok (f s).1, (f s).2) := rfl

@[simp] theorem run_throw (e : ε) (s : σ) : (throw e : Tx σ ε α).run s = (.error e, s) := rfl

theorem run_bind (x : Tx σ ε α) (f : α → Tx σ ε β) (s : σ) : (x >>= f).run s =
    match x.run s with
    | (.ok a, s') => (f a).run s'
    | (.error e, s') => (.error e, s') := rfl

theorem run_catchError (x : Tx σ ε α) (handler : ε → Tx σ ε α) (s : σ) :
    (x.catchError handler).run s =
      match x.run s with
      | (.ok a, s') => (.ok a, s')
      | (.error e, s') => (handler e).run s' := rfl

theorem run_bind_ok : (x >>= f).run s = (.ok b, s') ↔
    ∃ a s₁, x.run s = (.ok a, s₁) ∧ (f a).run s₁ = (.ok b, s') := by
  rw [run_bind]
  rcases x.run s with ⟨_ | a, s₁⟩
  · simp
  · exact ⟨fun h => ⟨a, s₁, rfl, h⟩, fun ⟨_, _, h₁, h⟩ => by cases h₁; exact h⟩

theorem run_bind_error : (x >>= f).run s = (.error e, s') ↔
    x.run s = (.error e, s') ∨
      ∃ a s₁, x.run s = (.ok a, s₁) ∧ (f a).run s₁ = (.error e, s') := by
  rw [run_bind]
  rcases x.run s with ⟨_ | a, s₁⟩
  · simp
  · refine ⟨fun h => .inr ⟨a, s₁, rfl, h⟩, fun h => ?_⟩
    rcases h with h | ⟨_, _, h₁, h⟩
    · cases h
    · cases h₁
      exact h

theorem run_query_bind_ok {g : σ → Except ε α} : (query g >>= f).run s = (.ok b, s') ↔
    ∃ a, g s = .ok a ∧ (f a).run s = (.ok b, s') := by
  simp only [run_bind_ok, run_query, Prod.mk.injEq]
  exact ⟨fun ⟨a, _, ⟨ha, rfl⟩, h⟩ => ⟨a, ha, h⟩, fun ⟨a, ha, h⟩ => ⟨a, s, ⟨ha, rfl⟩, h⟩⟩

theorem run_gets_bind {g : σ → α} : (gets g >>= f).run s = (f (g s)).run s := rfl

end run

/-- Committed exactly when the computation succeeds. -/
theorem transaction_ok {x : Tx σ ε α} {s s' : σ} {a : α} :
    x.transaction s = (.ok a, s') ↔ x.run s = (.ok a, s') := by
  unfold transaction
  rcases x.run s with ⟨_ | a', s₁⟩ <;> simp

section triple

def Triple (P : σ → Prop) (x : Tx σ ε α) (Q : α → σ → Prop) : Prop :=
  ∀ s a s', P s → x.run s = (.ok a, s') → Q a s'

abbrev Keeps (I : σ → Prop) (x : Tx σ ε α) : Prop := Triple I x fun _ => I

variable {P : σ → Prop} {Q : α → σ → Prop} {R : β → σ → Prop} {x : Tx σ ε α} {f : α → Tx σ ε β}

theorem triple_gets {g : σ → α} (h : ∀ s, P s → Q (g s) s) :
    Triple P (gets g : Tx σ ε α) Q := fun s a s' hs hx => by
  cases hx
  exact h s hs

theorem triple_write {g : σ → α × σ} (h : ∀ s, P s → Q (g s).1 (g s).2) :
    Triple P (write g : Tx σ ε α) Q := fun s a s' hs hx => by
  cases hx
  exact h s hs

theorem triple_pure {a : α} (h : ∀ s, P s → Q a s) : Triple P (pure a : Tx σ ε α) Q :=
  fun s _ _ hs hx => by
    cases hx
    exact h s hs

theorem Triple.bind (hx : Triple P x Q) (hf : ∀ a, Triple (Q a) (f a) R) :
    Triple P (x >>= f) R := fun s b s' hs h => by
  obtain ⟨a, s₁, hx₁, hf₁⟩ := run_bind_ok.mp h
  exact hf a s₁ b s' (hx s a s₁ hs hx₁) hf₁

theorem keeps_gets {I : σ → Prop} (g : σ → α) : Keeps I (gets g : Tx σ ε α) :=
  triple_gets fun _ h => h

theorem keeps_pure {I : σ → Prop} (a : α) : Keeps I (pure a : Tx σ ε α) := triple_pure fun _ h => h

theorem Keeps.forM {I : σ → Prop} {f : α → Tx σ ε PUnit} :
    ∀ {l : List α}, (∀ a ∈ l, Keeps I (f a)) → Keeps I (forM l f)
  | [], _ => keeps_pure _
  | a :: l, hf => by
    rw [List.forM_cons]
    exact (hf a List.mem_cons_self).bind fun _ =>
      Keeps.forM fun b hb => hf b (List.mem_cons_of_mem _ hb)

theorem Keeps.foldlM {I : σ → Prop} {f : β → α → Tx σ ε β} :
    ∀ {l : List α} {b : β}, (∀ a ∈ l, ∀ b, Keeps I (f b a)) → Keeps I (l.foldlM f b)
  | [], _, _ => keeps_pure _
  | a :: l, b, hf => by
    rw [List.foldlM_cons]
    exact (hf a List.mem_cons_self b).bind fun _ =>
      Keeps.foldlM fun a' ha => hf a' (List.mem_cons_of_mem _ ha)

end triple

section atomic

/-- Leaves the state as it was when it fails. -/
def Atomic (x : Tx σ ε α) : Prop := ∀ s e s', x.run s = (.error e, s') → s' = s

def ReadOnly (x : Tx σ ε α) : Prop := ∀ s r s', x.run s = (r, s') → s' = s

def Infallible (x : Tx σ ε α) : Prop := ∀ s e s', x.run s ≠ (.error e, s')

variable {x : Tx σ ε α} {f : α → Tx σ ε β}

theorem readOnly_query (g : σ → Except ε α) : (query g).ReadOnly := fun _ _ _ h => by
  cases h
  rfl

theorem ReadOnly.atomic (h : x.ReadOnly) : x.Atomic := fun s e s' hx => h s (.error e) s' hx

theorem Infallible.atomic (h : x.Infallible) : x.Atomic := fun s e s' hx => absurd hx (h s e s')

theorem infallible_write (g : σ → α × σ) : (write g : Tx σ ε α).Infallible := fun _ _ _ h => by
  cases h

theorem infallible_gets (g : σ → α) : (gets g : Tx σ ε α).Infallible := fun _ _ _ h => by
  cases h

theorem infallible_pure (a : α) : (pure a : Tx σ ε α).Infallible := fun _ _ _ h => by
  cases h

theorem atomic_throw (e : ε) : (throw e : Tx σ ε α).Atomic := fun _ _ _ h => by
  cases h
  rfl

theorem Infallible.bind (hx : x.Infallible) (hf : ∀ a, (f a).Infallible) :
    (x >>= f).Infallible := fun s e s' h => by
  rcases run_bind_error.mp h with h | ⟨a, s₁, _, h⟩
  · exact hx _ _ _ h
  · exact hf a _ _ _ h

theorem Infallible.forM {f : α → Tx σ ε PUnit} (hf : ∀ a, (f a).Infallible) :
    ∀ l : List α, (forM l f : Tx σ ε PUnit).Infallible
  | [] => infallible_pure _
  | a :: l => by
    rw [List.forM_cons]
    exact (hf a).bind fun _ => Infallible.forM hf l

theorem Infallible.foldlM {f : β → α → Tx σ ε β} (hf : ∀ b a, (f b a).Infallible) :
    ∀ (l : List α) (b : β), (l.foldlM f b : Tx σ ε β).Infallible
  | [], _ => infallible_pure _
  | a :: l, b => by
    rw [List.foldlM_cons]
    exact (hf b a).bind fun b' => Infallible.foldlM hf l b'

theorem Infallible.run_ok (hx : x.Infallible) (s : σ) : ∃ a s', x.run s = (.ok a, s') := by
  rcases h : x.run s with ⟨e | a, s'⟩
  · exact absurd h (hx s e s')
  · exact ⟨a, s', rfl⟩

/-- All checks first, then writes that cannot fail. -/
theorem Atomic.bind_infallible (hx : x.Atomic) (hf : ∀ a, (f a).Infallible) :
    (x >>= f).Atomic := fun s e s' h => by
  rcases run_bind_error.mp h with h | ⟨a, s₁, _, h⟩
  · exact hx _ _ _ h
  · exact absurd h (hf a _ _ _)

theorem ReadOnly.bind_atomic (hx : x.ReadOnly) (hf : ∀ a, (f a).Atomic) :
    (x >>= f).Atomic := fun s e s' h => by
  rcases run_bind_error.mp h with h | ⟨a, s₁, hx₁, h⟩
  · exact hx _ _ _ h
  · rw [hf a _ _ _ h, hx _ _ _ hx₁]

end atomic

end Tx

end Semprec
