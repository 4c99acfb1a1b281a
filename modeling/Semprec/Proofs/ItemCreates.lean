import Mathlib.Data.List.Basic
import Semprec.ItemCreates

/-!
# Creates under one key

What a transaction does to a key, its row and the items created under it, depends on nothing else,
and while it is open no other transaction writes that key's row.  So when another transaction
commits, each key is for this one as it was before, or as that transaction has left it.
-/

namespace Semprec

namespace ItemCreates

open Items

variable {env : Env} {s s' : Sys} {C C' : Tables} {ws : List Write} {w : Write} {t u : ℕ}
  {key k : String} {call : Option Call} {c : Call} {finished : List Returned}
  {row : IdempotencyKeyRow} {base : List Created}

/-! ## The part of the tables that a key has -/

def part (k : String) (tables : Tables) : List IdempotencyKeyRow × List Created :=
  (tables.store.idempotencyKeys.filter (·.key = k), tables.created.filter (·.key = some k))

def Write.Touches (k : String) (w : Write) : Prop :=
  w.onKey k = true ∨ ∃ item, w = .insertItem item (some k)

theorem part_apply_congr (h : part k C = part k C') (w : Write) :
    part k (apply C w) = part k (apply C' w) := by
  obtain ⟨hkeys, hcreated⟩ := Prod.mk.inj h
  cases w with
  | insertKey row =>
    refine Prod.ext ?_ hcreated
    simp only [part, apply, reserveKey, List.filter_append, hkeys]
  | deleteKey key =>
    refine Prod.ext ?_ hcreated
    simp only [part, apply, releaseKey]
    rw [List.filter_comm, hkeys, List.filter_comm]
  | insertItem item key =>
    refine Prod.ext hkeys ?_
    simp only [part, apply, List.filter_append, hcreated]
  | createEffects itemId => exact h
  | setDeletedAt databaseId itemId deletedAt => exact h
  | hardDelete databaseId itemId => exact h
  | setArchivedAt databaseId archivedAt => exact h

theorem part_apply (h : ¬ w.Touches k) : part k (apply C w) = part k C := by
  cases w with
  | insertKey row =>
    have hk : row.key ≠ k := fun hk => h (.inl (decide_eq_true hk))
    refine Prod.ext ?_ rfl
    simp [part, apply, reserveKey, List.filter_append, hk]
  | deleteKey key =>
    have hk : key ≠ k := fun hk => h (.inl (decide_eq_true hk))
    refine Prod.ext ?_ rfl
    simp only [part, apply, releaseKey, List.filter_filter]
    refine List.filter_congr fun r _ => ?_
    by_cases hr : r.key = k
    · simp [hr, hk.symm]
    · simp [hr]
  | insertItem item key =>
    have hk : key ≠ some k := fun hk => h (.inr ⟨item, by rw [hk]⟩)
    refine Prod.ext rfl ?_
    simp [part, apply, List.filter_append, hk]
  | createEffects itemId => rfl
  | setDeletedAt databaseId itemId deletedAt => rfl
  | hardDelete databaseId itemId => rfl
  | setArchivedAt databaseId archivedAt => rfl

theorem part_foldl_congr (ws : List Write) :
    ∀ {C C' : Tables}, part k C = part k C' →
      part k (ws.foldl apply C) = part k (ws.foldl apply C') := by
  induction ws with
  | nil => exact fun h => h
  | cons w ws ih => exact fun h => ih (part_apply_congr h w)

theorem part_foldl (h : ∀ w ∈ ws, ¬ w.Touches k) :
    ∀ C, part k (ws.foldl apply C) = part k C := by
  induction ws with
  | nil => exact fun _ => rfl
  | cons w ws ih =>
    intro C
    rw [List.foldl_cons, ih fun w hw => h w (List.mem_cons_of_mem _ hw)]
    exact part_apply (h w List.mem_cons_self)

theorem mem_part (h : row.key = k) :
    row ∈ (part k C).1 ↔ row ∈ C.store.idempotencyKeys := by
  simp [part, h]

theorem lastCreated_congr (h : part row.key C = part row.key C') :
    LastCreated C row ↔ LastCreated C' row := by
  unfold LastCreated
  rw [show C.created.filter _ = C'.created.filter _ from congrArg Prod.snd h]

/-! ## The items a transaction has created -/

def createdOf (ws : List Write) : List Created :=
  ws.filterMap fun
    | .insertItem item key => some ⟨item.id, key, item.databaseId⟩
    | _ => none

def effectsOf (ws : List Write) : List ℕ :=
  ws.filterMap fun
    | .createEffects itemId => some itemId
    | _ => none

theorem created_foldl (ws : List Write) :
    ∀ C, (ws.foldl apply C).created = C.created ++ createdOf ws := by
  induction ws with
  | nil => exact fun C => (List.append_nil _).symm
  | cons w ws ih =>
    intro C
    rw [List.foldl_cons, ih]
    cases w with
    | insertItem item key => exact List.append_assoc ..
    | _ => rfl

theorem effects_foldl (ws : List Write) :
    ∀ C, (ws.foldl apply C).effects = C.effects ++ effectsOf ws := by
  induction ws with
  | nil => exact fun C => (List.append_nil _).symm
  | cons w ws ih =>
    intro C
    rw [List.foldl_cons, ih]
    cases w with
    | createEffects itemId => exact List.append_assoc ..
    | _ => rfl

/-! ## The invariant -/

def inserting (call : Option Call) : List ℕ :=
  call.toList.flatMap fun c =>
    match c.phase with
    | .effects item => [item.id]
    | _ => []

def CallOk (V : Tables) (c : Call) : Prop :=
  match c.phase with
  | .replay itemId | .reserved itemId | .takeOver itemId =>
    ⟨itemId, c.key, c.input.databaseId⟩ ∈ V.created
  | .effects item => ⟨item.id, c.key, c.input.databaseId⟩ ∈ V.created ∧ item.deletedAt = none
  | _ => True

def ReturnedOk (V : Tables) (r : Returned) : Prop :=
  ⟨r.item.id, r.key, r.databaseId⟩ ∈ V.created ∧ r.item.deletedAt = none ∧
    (r.archived = true → r.created = false)

structure TxOk (C : Tables) (ws : List Write) (call : Option Call) (finished : List Returned) :
    Prop where
  keyed : ∀ item k, .insertItem item (some k) ∈ ws → ∃ w ∈ ws, w.onKey k = true
  own : (createdOf ws).map (·.itemId) = effectsOf ws ++ inserting call
  rows : ∀ r ∈ (ws.foldl apply C).store.idempotencyKeys, LastCreated (ws.foldl apply C) r ∨
    ∃ c ∈ call, c.phase = .insert ∧ c.key = some r.key
  insert : ∀ c ∈ call, ∀ k, c.phase = .insert → c.key = some k → (∃ w ∈ ws, w.onKey k = true) ∧
    ∀ r ∈ (ws.foldl apply C).store.idempotencyKeys, r.key = k →
      r = ⟨k, c.input.databaseId, c.newId⟩
  call : ∀ c ∈ call, CallOk (ws.foldl apply C) c
  finished : ∀ r ∈ finished, ReturnedOk (ws.foldl apply C) r

def upcoming (call : Option Call) : List ℕ :=
  call.toList.flatMap fun c =>
    match c.phase with
    | .effects _ => []
    | _ => [c.newId]

@[simp] theorem upcoming_none : upcoming none = [] := rfl

def Sys.ids (s : Sys) : Option ℕ → List ℕ
  | none => s.db.committed.created.map (·.itemId)
  | some t => (createdOf (s.db.pending t)).map (·.itemId) ++ upcoming (s.calls t)

structure Inv (base : List Created) (s : Sys) : Prop where
  grows : base <+: s.db.committed.created
  rows : ∀ r ∈ s.db.committed.store.idempotencyKeys, LastCreated s.db.committed r
  effects : s.db.committed.effects = s.db.committed.created.map (·.itemId)
  returned : ∀ r ∈ s.returned, ReturnedOk s.db.committed r
  exclusive : ∀ t u k, (∃ w ∈ s.db.pending t, w.onKey k = true) →
    (∃ w ∈ s.db.pending u, w.onKey k = true) → t = u
  ids_lt : ∀ o, ∀ i ∈ s.ids o, i < s.nextId
  ids_nodup : ∀ o, (s.ids o).Nodup
  ids_inj : ∀ o o', ∀ i ∈ s.ids o, i ∈ s.ids o' → o = o'
  tx : ∀ t, TxOk s.db.committed (s.db.pending t) (s.calls t) (s.finished t)

theorem CallOk.mono {V V' : Tables} (h : CallOk V c)
    (hle : ∀ x ∈ V.created, x ∈ V'.created) : CallOk V' c := by
  unfold CallOk at h ⊢
  cases hp : c.phase <;> rw [hp] at h <;> first | exact hle _ h | exact ⟨hle _ h.1, h.2⟩ | trivial

theorem ReturnedOk.mono {V V' : Tables} {r : Returned} (h : ReturnedOk V r)
    (hle : ∀ x ∈ V.created, x ∈ V'.created) : ReturnedOk V' r :=
  ⟨hle _ h.1, h.2⟩

theorem created_mono (hle : ∀ x ∈ C.created, x ∈ C'.created) (ws : List Write) :
    ∀ x ∈ (ws.foldl apply C).created, x ∈ (ws.foldl apply C').created := by
  intro x hx
  rw [created_foldl, List.mem_append] at hx ⊢
  exact hx.imp_left (hle x)

/-- Another transaction's commit: a key this one has written is as it was, and any other has the row
of the last item created under it. -/
theorem TxOk.transfer (h : TxOk C ws call finished)
    (hpart : ∀ k, (∃ w ∈ ws, w.onKey k = true) → part k C' = part k C)
    (hrows : ∀ r ∈ C'.store.idempotencyKeys, LastCreated C' r)
    (hle : ∀ x ∈ C.created, x ∈ C'.created) : TxOk C' ws call finished := by
  refine ⟨h.keyed, h.own, fun r hr => ?_, fun c hc k hp hk => ?_,
    fun c hc => (h.call c hc).mono (created_mono hle ws),
    fun r hr => (h.finished r hr).mono (created_mono hle ws)⟩
  · by_cases hown : ∃ w ∈ ws, w.onKey r.key = true
    · have hsame := part_foldl_congr ws (hpart r.key hown)
      rw [lastCreated_congr hsame]
      refine h.rows r ((mem_part rfl).mp ?_)
      rw [← hsame]
      exact (mem_part rfl).mpr hr
    · have hsame : part r.key (ws.foldl apply C') = part r.key C' := by
        refine part_foldl (fun w hw htouch => hown ?_) C'
        rcases htouch with h' | ⟨item, rfl⟩
        · exact ⟨w, hw, h'⟩
        · exact h.keyed item r.key hw
      rw [lastCreated_congr hsame]
      refine .inl (hrows r ((mem_part rfl).mp ?_))
      rw [← hsame]
      exact (mem_part rfl).mpr hr
  · obtain ⟨hown, hall⟩ := h.insert c hc k hp hk
    refine ⟨hown, fun r hr hrk => hall r ((mem_part hrk).mp ?_) hrk⟩
    rw [← part_foldl_congr ws (hpart k hown)]
    exact (mem_part hrk).mpr hr

/-! ## One transaction's statements -/

/-- The write takes nothing but reservations away, and creates nothing. -/
def Write.Shrinks : Write → Prop
  | .insertKey _ | .insertItem _ _ | .createEffects _ => False
  | _ => True

theorem shrinks_foldl (hw : ∀ w ∈ ws, w.Shrinks) : ∀ C : Tables,
    (∀ r ∈ (ws.foldl apply C).store.idempotencyKeys, r ∈ C.store.idempotencyKeys) ∧
      (ws.foldl apply C).created = C.created := by
  induction ws with
  | nil => exact fun C => ⟨fun r hr => hr, rfl⟩
  | cons w ws ih =>
    intro C
    obtain ⟨hkeys, hcreated⟩ := ih (fun w h => hw w (List.mem_cons_of_mem _ h)) (apply C w)
    have hshrink := hw w List.mem_cons_self
    rw [List.foldl_cons, hcreated]
    cases w with
    | insertKey row => exact hshrink.elim
    | insertItem item key => exact hshrink.elim
    | createEffects itemId => exact hshrink.elim
    | deleteKey key => exact ⟨fun r hr => (List.mem_filter.mp (hkeys r hr)).1, rfl⟩
    | setDeletedAt databaseId itemId deletedAt => exact ⟨hkeys, rfl⟩
    | hardDelete databaseId itemId => exact ⟨hkeys, rfl⟩
    | setArchivedAt databaseId archivedAt => exact ⟨hkeys, rfl⟩

theorem createdOf_append (ws ws' : List Write) :
    createdOf (ws ++ ws') = createdOf ws ++ createdOf ws' := List.filterMap_append

theorem effectsOf_append (ws ws' : List Write) :
    effectsOf (ws ++ ws') = effectsOf ws ++ effectsOf ws' := List.filterMap_append

theorem created_effects_of_shrinks (hw : ∀ w ∈ ws, w.Shrinks) :
    createdOf ws = [] ∧ effectsOf ws = [] := by
  refine ⟨List.filterMap_eq_nil_iff.mpr fun w h => ?_, List.filterMap_eq_nil_iff.mpr fun w h => ?_⟩
  all_goals
    have hshrink := hw w h
    cases w <;> first | rfl | exact hshrink.elim

theorem LastCreated.mem (h : LastCreated C row) :
    ⟨row.itemId, some row.key, row.databaseId⟩ ∈ C.created :=
  (List.mem_filter.mp (List.mem_of_getLast? h)).1

theorem lastCreated_of_created (h : C'.created = C.created) :
    LastCreated C' row ↔ LastCreated C row := by
  unfold LastCreated
  rw [h]

namespace TxOk

variable {ws' : List Write} {call' : Option Call} {r : Returned}

/-- A call that goes on, or ends, with no reservation to fill and no effects to run. -/
theorem setCall (h : TxOk C ws call finished) (hbefore : ∀ c ∈ call, c.phase ≠ .insert)
    (hafter : ∀ c ∈ call', c.phase = .insert → c.key = none)
    (hins : inserting call' = inserting call)
    (hok : ∀ c ∈ call', CallOk (ws.foldl apply C) c) : TxOk C ws call' finished := by
  refine ⟨h.keyed, hins ▸ h.own, fun r hr => .inl ?_, fun c hc k hp hk => ?_, hok, h.finished⟩
  · refine (h.rows r hr).resolve_right ?_
    rintro ⟨c, hc, hp, -⟩
    exact hbefore c hc hp
  · rw [hafter c hc hp] at hk
    cases hk

theorem finish (h : TxOk C ws call finished) (hr : ReturnedOk (ws.foldl apply C) r) :
    TxOk C ws call (finished ++ [r]) := by
  refine { h with finished := fun r' hr' => ?_ }
  rcases List.mem_append.mp hr' with hr' | hr'
  · exact h.finished r' hr'
  · rw [List.mem_singleton.mp hr']
    exact hr

theorem shrink (h : TxOk C ws call finished) (hw : ∀ w ∈ ws', w.Shrinks) :
    TxOk C (ws ++ ws') call finished := by
  obtain ⟨hkeys, hcreated⟩ := shrinks_foldl hw (ws.foldl apply C)
  rw [← List.foldl_append] at hkeys hcreated
  have hle : ∀ x ∈ (ws.foldl apply C).created, x ∈ ((ws ++ ws').foldl apply C).created :=
    fun x hx => hcreated ▸ hx
  refine ⟨fun item k hi => ?_, ?_, fun r hr => ?_, fun c hc k hp hk => ?_,
    fun c hc => (h.call c hc).mono hle, fun r hr => (h.finished r hr).mono hle⟩
  · rcases List.mem_append.mp hi with hi | hi
    · obtain ⟨w, hmem, hon⟩ := h.keyed item k hi
      exact ⟨w, List.mem_append_left _ hmem, hon⟩
    · exact (hw _ hi).elim
  · obtain ⟨hcreatedOf, heffectsOf⟩ := created_effects_of_shrinks hw
    rw [createdOf_append, effectsOf_append, hcreatedOf, heffectsOf, List.append_nil,
      List.append_nil]
    exact h.own
  · rw [lastCreated_of_created hcreated]
    exact h.rows r (hkeys r hr)
  · obtain ⟨⟨w, hmem, hon⟩, hall⟩ := h.insert c hc k hp hk
    exact ⟨⟨w, List.mem_append_left _ hmem, hon⟩, fun r hr => hall r (hkeys r hr)⟩

theorem reserve (h : TxOk C ws (some c) finished) (hp : c.phase ≠ .insert) (hk : c.key = some k)
    (hins : inserting (some c) = []) (hw : ∃ w ∈ ws', w.onKey k = true)
    (hitem : ∀ item k, .insertItem item (some k) ∉ ws')
    (hof : createdOf ws' = [] ∧ effectsOf ws' = [])
    (hcreated : (ws'.foldl apply (ws.foldl apply C)).created = (ws.foldl apply C).created)
    (hkeys : ∀ r ∈ (ws'.foldl apply (ws.foldl apply C)).store.idempotencyKeys,
      r.key ≠ k ∧ r ∈ (ws.foldl apply C).store.idempotencyKeys ∨
        r = ⟨k, c.input.databaseId, c.newId⟩) :
    TxOk C (ws ++ ws') (some { c with phase := .insert }) finished := by
  rw [← List.foldl_append] at hcreated hkeys
  refine ⟨fun item k' hi => ?_, ?_, fun r hr => ?_, fun c' hc' k' _ hk' => ?_, fun c' hc' => ?_,
    fun r hr => (h.finished r hr).mono fun x hx => hcreated ▸ hx⟩
  · rcases List.mem_append.mp hi with hi | hi
    · obtain ⟨w, hmem, hon⟩ := h.keyed item k' hi
      exact ⟨w, List.mem_append_left _ hmem, hon⟩
    · exact absurd hi (hitem item k')
  · rw [createdOf_append, effectsOf_append, hof.1, hof.2, List.append_nil, List.append_nil, h.own,
      hins]
    rfl
  · rcases hkeys r hr with ⟨-, hr⟩ | rfl
    · refine .inl ((lastCreated_of_created hcreated).mpr ((h.rows r hr).resolve_right ?_))
      rintro ⟨c', hc', hp', -⟩
      cases hc'
      exact hp hp'
    · exact .inr ⟨_, rfl, rfl, hk⟩
  · cases hc'
    obtain rfl : k = k' := Option.some.inj (hk.symm.trans hk')
    obtain ⟨w, hmem, hon⟩ := hw
    refine ⟨⟨w, List.mem_append_right _ hmem, hon⟩, fun r hr hrk => ?_⟩
    exact (hkeys r hr).resolve_left fun hold => hold.1 hrk
  · cases hc'
    trivial

theorem insertItem (h : TxOk C ws (some c) finished) (hp : c.phase = .insert) {item : ItemRow}
    (hid : item.id = c.newId) (hdb : item.databaseId = c.input.databaseId)
    (hlive : item.deletedAt = none) :
    TxOk C (ws ++ [Write.insertItem item c.key]) (some { c with phase := .effects item })
      finished := by
  have hview : (ws ++ [Write.insertItem item c.key]).foldl apply C =
      apply (ws.foldl apply C) (.insertItem item c.key) := List.foldl_append
  have hle : ∀ x ∈ (ws.foldl apply C).created,
      x ∈ (apply (ws.foldl apply C) (.insertItem item c.key)).created :=
    fun x hx => List.mem_append_left _ hx
  have hins : inserting (some c) = [] := by
    simp only [inserting, hp, Option.toList_some, List.flatMap_cons, List.flatMap_nil,
      List.append_nil]
  refine ⟨fun item' k' hi => ?_, ?_, fun r hr => ?_, fun c' hc' k' hp' => ?_, fun c' hc' => ?_,
    fun r hr => ?_⟩
  · rcases List.mem_append.mp hi with hi | hi
    · obtain ⟨w, hmem, hon⟩ := h.keyed item' k' hi
      exact ⟨w, List.mem_append_left _ hmem, hon⟩
    · obtain ⟨rfl, hk⟩ := Write.insertItem.inj (List.mem_singleton.mp hi)
      obtain ⟨⟨w, hmem, hon⟩, -⟩ := h.insert c rfl k' hp hk.symm
      exact ⟨w, List.mem_append_left _ hmem, hon⟩
  · rw [createdOf_append, effectsOf_append, List.map_append, h.own, hins, List.append_nil]
    show effectsOf ws ++ [item.id] = effectsOf ws ++ [] ++ [item.id]
    rw [List.append_nil]
  · rw [hview] at hr ⊢
    refine .inl ?_
    unfold LastCreated
    simp only [apply, List.filter_append]
    by_cases hk : c.key = some r.key
    · obtain ⟨-, hall⟩ := h.insert c rfl r.key hp hk
      have hrow : r = ⟨r.key, c.input.databaseId, c.newId⟩ := hall r hr rfl
      rw [List.filter_singleton, decide_eq_true hk, cond_true, List.getLast?_concat, hid, hdb, hk,
        hrow]
    · rw [List.filter_singleton, decide_eq_false hk, cond_false, List.append_nil]
      refine (h.rows r hr).resolve_right ?_
      rintro ⟨c', hc', -, hk'⟩
      cases hc'
      exact hk hk'
  · cases hc'
    cases hp'
  · cases hc'
    rw [hview]
    refine ⟨?_, hlive⟩
    rw [← hdb]
    exact List.mem_append_right _ (List.mem_singleton_self _)
  · rw [hview]
    exact (h.finished r hr).mono hle

theorem runEffects (h : TxOk C ws (some c) finished) {item : ItemRow}
    (hp : c.phase = .effects item) :
    TxOk C (ws ++ [Write.createEffects item.id]) none finished := by
  have hview : (ws ++ [Write.createEffects item.id]).foldl apply C =
      apply (ws.foldl apply C) (.createEffects item.id) := List.foldl_append
  refine ⟨fun item' k' hi => ?_, ?_, fun r hr => ?_,
    fun c' hc' => absurd hc' (Option.not_mem_none c'),
    fun c' hc' => absurd hc' (Option.not_mem_none c'), fun r hr => ?_⟩
  · rcases List.mem_append.mp hi with hi | hi
    · obtain ⟨w, hmem, hon⟩ := h.keyed item' k' hi
      exact ⟨w, List.mem_append_left _ hmem, hon⟩
    · cases List.mem_singleton.mp hi
  · have hins : inserting (some c) = [item.id] := by
      simp only [inserting, hp, Option.toList_some, List.flatMap_cons, List.flatMap_nil,
        List.append_nil]
    rw [createdOf_append, effectsOf_append, List.map_append, h.own, hins]
    rfl
  · rw [hview] at hr ⊢
    refine .inl ((h.rows r hr).resolve_right ?_)
    rintro ⟨c', hc', hp', -⟩
    cases hc'
    rw [hp] at hp'
    cases hp'
  · rw [hview]
    exact h.finished r hr

theorem created_of_row (h : TxOk C ws (some c) finished) (hp : c.phase ≠ .insert)
    (hr : row ∈ (ws.foldl apply C).store.idempotencyKeys) :
    ⟨row.itemId, some row.key, row.databaseId⟩ ∈ (ws.foldl apply C).created := by
  refine ((h.rows row hr).resolve_right ?_).mem
  rintro ⟨c', hc', hp', -⟩
  cases hc'
  exact hp hp'

end TxOk

/-! ## Steps -/

theorem free_of_off_key (h : w.onKey k = false) (hon : ∃ w' ∈ [w], w'.onKey k = true) :
    ¬ s.db.Locked t (Write.onKey k) := by
  obtain ⟨w', hw, hwk⟩ := hon
  rw [List.mem_singleton.mp hw, h] at hwk
  cases hwk

theorem eq_of_not_locked (h : ¬ s.db.Locked t (Write.onKey k)) :
    (∃ w ∈ s.db.pending u, w.onKey k = true) → u = t := by
  rintro ⟨w, hw, hon⟩
  by_contra hut
  exact h (.of_mem hw hut hon)

namespace Inv

theorem tx_step (h : Inv base s) (hc : s'.db.committed = s.db.committed)
    (hp : s'.db.pending = Function.update s.db.pending t (s.db.pending t ++ ws))
    (hcalls : s'.calls = Function.update s.calls t call)
    (hf : s'.finished = Function.update s.finished t finished) (hr : s'.returned = s.returned)
    (hn : s'.nextId = s.nextId)
    (hids : ((createdOf ws).map (·.itemId) ++ upcoming call).Sublist (upcoming (s.calls t)))
    (hfree : ∀ k, (∃ w ∈ ws, w.onKey k = true) → ¬ s.db.Locked t (Write.onKey k))
    (htx : TxOk s.db.committed (s.db.pending t ++ ws) call finished) : Inv base s' := by
  have hsub : ∀ o, (s'.ids o).Sublist (s.ids o) := by
    rintro (_ | u)
    · simp only [Sys.ids, hc]
      exact List.Sublist.refl _
    · simp only [Sys.ids, hp, hcalls]
      by_cases hut : u = t
      · subst hut
        rw [Function.update_self, Function.update_self, createdOf_append, List.map_append,
          List.append_assoc]
        exact hids.append_left _
      · rw [Function.update_of_ne hut, Function.update_of_ne hut]
  have hon : ∀ u k, (∃ w ∈ s'.db.pending u, w.onKey k = true) →
      (∃ w ∈ s.db.pending u, w.onKey k = true) ∨ u = t ∧ ¬ s.db.Locked t (Write.onKey k) := by
    rintro u k ⟨w, hw, hwk⟩
    rw [hp] at hw
    by_cases hut : u = t
    · subst hut
      rw [Function.update_self, List.mem_append] at hw
      exact hw.imp (fun hw => ⟨w, hw, hwk⟩) fun hw => ⟨rfl, hfree k ⟨w, hw, hwk⟩⟩
    · rw [Function.update_of_ne hut] at hw
      exact .inl ⟨w, hw, hwk⟩
  have hexclusive := ReadCommitted.Exclusive.step (t := t) h.exclusive fun u k hu =>
    (hon u k hu).imp_right fun hfrom =>
      ⟨hfrom.1, fun v hvt hv => hvt (eq_of_not_locked hfrom.2 hv)⟩
  refine ⟨hc ▸ h.grows, hc ▸ h.rows, hc ▸ h.effects, hr ▸ hc ▸ h.returned, hexclusive,
    fun o i hi => hn ▸ h.ids_lt o i ((hsub o).subset hi), fun o => (h.ids_nodup o).sublist (hsub o),
    fun o o' i hi hi' => h.ids_inj o o' i ((hsub o).subset hi) ((hsub o').subset hi'),
    fun u => ?_⟩
  · rw [hc, hp, hcalls, hf]
    by_cases hut : u = t
    · subst hut
      rw [Function.update_self, Function.update_self, Function.update_self]
      exact htx
    · rw [Function.update_of_ne hut, Function.update_of_ne hut, Function.update_of_ne hut]
      exact h.tx u

theorem write (h : Inv base s) (hs : s.write t ws call = some s')
    (hids : ((createdOf ws).map (·.itemId) ++ upcoming call).Sublist (upcoming (s.calls t)))
    (hfree : ∀ k, (∃ w ∈ ws, w.onKey k = true) → ¬ s.db.Locked t (Write.onKey k))
    (htx : TxOk s.db.committed (s.db.pending t ++ ws) call (s.finished t)) : Inv base s' := by
  obtain ⟨db, hdb, rfl⟩ := Option.map_eq_some_iff.mp hs
  exact h.tx_step (ReadCommitted.write_committed hdb) (ReadCommitted.write_pending hdb) rfl
    (Function.update_eq_self t s.finished).symm rfl rfl hids hfree htx

theorem call_step (h : Inv base s) (hids : (upcoming call).Sublist (upcoming (s.calls t)))
    (htx : TxOk s.db.committed (s.db.pending t) call finished) :
    Inv base { s.setCall t call with finished := Function.update s.finished t finished } := by
  have hnil : s.db.pending t ++ [] = s.db.pending t := List.append_nil _
  have hids' : ((createdOf []).map (·.itemId) ++ upcoming call).Sublist (upcoming (s.calls t)) :=
    hids
  refine h.tx_step rfl ?_ rfl rfl rfl rfl hids' (fun k hw => ?_) (hnil.symm ▸ htx)
  · rw [hnil]
    exact (Function.update_eq_self t s.db.pending).symm
  · obtain ⟨w, hw, -⟩ := hw
    exact absurd hw List.not_mem_nil

theorem setCall (h : Inv base s) (hids : (upcoming call).Sublist (upcoming (s.calls t)))
    (htx : TxOk s.db.committed (s.db.pending t) call (s.finished t)) :
    Inv base (s.setCall t call) := by
  have hstep := h.call_step hids htx
  rwa [Function.update_eq_self] at hstep

theorem finish {r : Returned} (h : Inv base s) (hcall : ∀ c ∈ s.calls t, c.phase ≠ .insert)
    (hins : inserting (s.calls t) = []) (hr : ReturnedOk (s.view t) r) : Inv base (s.finish t r) :=
  h.call_step (List.nil_sublist _) (((h.tx t).setCall hcall
    (fun c hc => absurd hc (Option.not_mem_none c)) hins.symm
    (fun c hc => absurd hc (Option.not_mem_none c))).finish hr)

theorem start (h : Inv base s) (hnone : s.calls t = none) (hnew : c.newId = s.nextId)
    (hphase : c.phase = .findReplay ∨ c.phase = .reserve ∨ c.phase = .insert ∧ c.key = none) :
    Inv base { s.setCall t (some c) with nextId := s.nextId + 1 } := by
  have hup : upcoming (some c) = [s.nextId] := by
    rcases hphase with hp | hp | ⟨hp, -⟩ <;> simp [upcoming, hp, hnew]
  have hids : ∀ o i, i ∈ Sys.ids { s.setCall t (some c) with nextId := s.nextId + 1 } o ↔
      i ∈ s.ids o ∨ o = some t ∧ i = s.nextId := by
    rintro (_ | u) i
    · simp [Sys.ids, Sys.setCall]
    · by_cases hut : u = t
      · subst hut
        simp [Sys.ids, Sys.setCall, hnone, hup]
      · simp [Sys.ids, Sys.setCall, hut]
  refine ⟨h.grows, h.rows, h.effects, h.returned, h.exclusive, fun o i hi => ?_, ?_,
    fun o o' i hi hi' => ?_, fun u => ?_⟩
  · rcases (hids o i).mp hi with hi | ⟨-, rfl⟩
    · exact Nat.lt_succ_of_lt (h.ids_lt o i hi)
    · exact Nat.lt_succ_self _
  · rintro (_ | u)
    · exact h.ids_nodup none
    · by_cases hut : u = t
      · subst hut
        have hold := h.ids_nodup (some u)
        have hlt := h.ids_lt (some u)
        simp only [Sys.ids, hnone] at hold hlt
        simp only [Sys.ids, Sys.setCall, Function.update_self, hup]
        refine List.nodup_append.mpr ⟨(List.nodup_append.mp hold).1, List.nodup_singleton _,
          fun i hi j hj => ?_⟩
        rw [List.mem_singleton.mp hj]
        exact (hlt i (List.mem_append_left _ hi)).ne
      · have hold := h.ids_nodup (some u)
        simpa only [Sys.ids, Sys.setCall, Function.update_of_ne hut] using hold
  · rcases (hids o i).mp hi with hi | ⟨rfl, rfl⟩
    · rcases (hids o' i).mp hi' with hi' | ⟨rfl, rfl⟩
      · exact h.ids_inj o o' i hi hi'
      · exact absurd (h.ids_lt o _ hi) (lt_irrefl _)
    · rcases (hids o' _).mp hi' with hi' | ⟨rfl, -⟩
      · exact absurd (h.ids_lt o' _ hi') (lt_irrefl _)
      · rfl
  · show TxOk s.db.committed (s.db.pending u) (Function.update s.calls t (some c) u) (s.finished u)
    by_cases hut : u = t
    · subst hut
      rw [Function.update_self]
      refine (h.tx u).setCall (fun c' hc' => ?_) (fun c' hc' hp => ?_) ?_ (fun c' hc' => ?_)
      · rw [hnone] at hc'
        cases hc'
      · cases hc'
        rcases hphase with hp' | hp' | ⟨-, hk⟩
        · rw [hp] at hp'
          cases hp'
        · rw [hp] at hp'
          cases hp'
        · exact hk
      · rw [hnone]
        rcases hphase with hp | hp | ⟨hp, -⟩ <;> simp [inserting, hp]
      · cases hc'
        unfold CallOk
        rcases hphase with hp | hp | ⟨hp, -⟩ <;> rw [hp] <;> trivial
    · rw [Function.update_of_ne hut]
      exact h.tx u

theorem nothing_open (hrows : ∀ r ∈ C.store.idempotencyKeys, LastCreated C r) :
    TxOk C [] none [] :=
  ⟨fun _ _ hi => absurd hi List.not_mem_nil, rfl, fun r hr => .inl (hrows r hr),
    fun c hc => absurd hc (Option.not_mem_none c), fun c hc => absurd hc (Option.not_mem_none c),
    fun _ hr => absurd hr List.not_mem_nil⟩

/-- The end of a transaction: what is committed has its last items in its rows, the others carry
over, and the ids that are committed come from it. -/
theorem close {db : ReadCommitted Tables Write} {returned : List Returned} (h : Inv base s)
    (hp : db.pending = Function.update s.db.pending t [])
    (hgrows : base <+: db.committed.created)
    (hrows : ∀ r ∈ db.committed.store.idempotencyKeys, LastCreated db.committed r)
    (heffects : db.committed.effects = db.committed.created.map (·.itemId))
    (hreturned : ∀ r ∈ returned, ReturnedOk db.committed r)
    (hids : db.committed.created.map (·.itemId) = s.ids none ∨
      db.committed.created.map (·.itemId) = s.ids none ++ s.ids (some t))
    (htx : ∀ u, u ≠ t → TxOk db.committed (s.db.pending u) (s.calls u) (s.finished u)) :
    Inv base (s.close t db returned) := by
  have hnil : Sys.ids (s.close t db returned) (some t) = [] := by
    simp [Sys.ids, Sys.close, Sys.setCall, hp, createdOf]
  have hother : ∀ u, u ≠ t → Sys.ids (s.close t db returned) (some u) = s.ids (some u) := by
    intro u hut
    simp [Sys.ids, Sys.close, Sys.setCall, hp, hut]
  -- an id that is committed now was committed before, or was the transaction's
  have hfrom : ∀ o i, i ∈ Sys.ids (s.close t db returned) o →
      o ≠ some t ∧ (i ∈ s.ids o ∨ o = none ∧ i ∈ s.ids (some t)) := by
    rintro (_ | u) i hi
    · refine ⟨(fun h => by cases h), ?_⟩
      rcases hids with hids | hids
      · exact .inl (hids ▸ hi)
      · exact (List.mem_append.mp (hids ▸ hi)).imp_right fun hi => ⟨rfl, hi⟩
    · by_cases hut : u = t
      · subst hut
        rw [hnil] at hi
        exact absurd hi List.not_mem_nil
      · rw [hother u hut] at hi
        exact ⟨fun heq => hut (Option.some.inj heq), .inl hi⟩
  refine ⟨hgrows, hrows, heffects, hreturned, fun u v k hu hv => ?_, fun o i hi => ?_, ?_,
    fun o o' i hi hi' => ?_, fun u => ?_⟩
  · obtain ⟨w, hw, hwk⟩ := hu
    obtain ⟨w', hw', hwk'⟩ := hv
    exact h.exclusive u v k ⟨w, (ReadCommitted.mem_closed_pending hp hw).2, hwk⟩
      ⟨w', (ReadCommitted.mem_closed_pending hp hw').2, hwk'⟩
  · rcases (hfrom o i hi).2 with hi | ⟨-, hi⟩
    · exact h.ids_lt o i hi
    · exact h.ids_lt (some t) i hi
  · rintro (_ | u)
    · show (db.committed.created.map (·.itemId)).Nodup
      rcases hids with hids | hids
      · exact hids ▸ h.ids_nodup none
      · rw [hids]
        refine List.nodup_append.mpr ⟨h.ids_nodup none, h.ids_nodup (some t), ?_⟩
        rintro i hi _ hj rfl
        cases h.ids_inj none (some t) i hi hj
    · by_cases hut : u = t
      · subst hut
        rw [hnil]
        exact List.nodup_nil
      · rw [hother u hut]
        exact h.ids_nodup (some u)
  · obtain ⟨hot, hfrom_o⟩ := hfrom o i hi
    obtain ⟨hot', hfrom_o'⟩ := hfrom o' i hi'
    rcases hfrom_o with hmem | ⟨ho, hmem⟩
    · rcases hfrom_o' with hmem' | ⟨-, hmem'⟩
      · exact h.ids_inj o o' i hmem hmem'
      · exact absurd (h.ids_inj o (some t) i hmem hmem') hot
    · rcases hfrom_o' with hmem' | ⟨ho', -⟩
      · exact absurd (h.ids_inj o' (some t) i hmem' hmem) hot'
      · rw [ho, ho']
  · show TxOk db.committed (db.pending u) (Function.update s.calls t none u)
      (Function.update s.finished t [] u)
    rw [hp]
    by_cases hut : u = t
    · subst hut
      rw [Function.update_self, Function.update_self, Function.update_self]
      exact nothing_open hrows
    · rw [Function.update_of_ne hut, Function.update_of_ne hut, Function.update_of_ne hut]
      exact htx u hut

theorem throw (h : Inv base s) (hs : s.throw t = some s') : Inv base s' := by
  obtain ⟨db, hdb, rfl⟩ := Option.map_eq_some_iff.mp hs
  have hc := ReadCommitted.rollback_committed hdb
  refine h.close (ReadCommitted.rollback_pending hdb) (hc ▸ h.grows) (hc ▸ h.rows) (hc ▸ h.effects)
    (hc ▸ h.returned) (.inl ?_) fun u _ => hc ▸ h.tx u
  rw [hc]
  rfl

/-- Of the keys that another transaction has written, this one leaves all as they are. -/
theorem part_view (h : Inv base s) (hut : u ≠ t) (hu : ∃ w ∈ s.db.pending u, w.onKey k = true) :
    part k (s.view t) = part k s.db.committed := by
  have hfree : ¬ ∃ w ∈ s.db.pending t, w.onKey k = true := fun ht => hut (h.exclusive u t k hu ht)
  refine part_foldl (fun w hw htouch => ?_) _
  rcases htouch with hon | ⟨item, rfl⟩
  · exact hfree ⟨w, hw, hon⟩
  · exact hfree ((h.tx t).keyed item k hw)

theorem commit {db : ReadCommitted Tables Write} (h : Inv base s) (hcall : s.calls t = none)
    (hdb : s.db.commit apply t = some db) :
    Inv base (s.close t db (s.returned ++ s.finished t)) := by
  have hc : db.committed = s.view t := ReadCommitted.commit_committed hdb
  have hcreated : (s.view t).created = s.db.committed.created ++ createdOf (s.db.pending t) :=
    created_foldl (s.db.pending t) s.db.committed
  have hle : ∀ x ∈ s.db.committed.created, x ∈ (s.view t).created := fun x hx => by
    rw [hcreated]
    exact List.mem_append_left _ hx
  have hrows : ∀ r ∈ (s.view t).store.idempotencyKeys, LastCreated (s.view t) r := fun r hr => by
    refine ((h.tx t).rows r hr).resolve_right ?_
    rintro ⟨c, hc, -⟩
    rw [hcall] at hc
    cases hc
  have hgrows : base <+: (s.view t).created := by
    rw [hcreated]
    exact h.grows.trans (List.prefix_append _ _)
  refine h.close (ReadCommitted.commit_pending hdb) (hc ▸ hgrows) (hc ▸ hrows) ?_ (fun r hr => ?_)
    (.inr ?_) fun u hut => hc ▸ (h.tx u).transfer (fun k hu => h.part_view hut hu) hrows hle
  · have hown := (h.tx t).own
    rw [hcall] at hown
    rw [hc, hcreated, List.map_append, hown, ← h.effects]
    exact (effects_foldl (s.db.pending t) s.db.committed).trans (by simp [inserting])
  · rw [hc]
    rcases List.mem_append.mp hr with hr | hr
    · exact (h.returned r hr).mono hle
    · exact (h.tx t).finished r hr
  · rw [hc, hcreated, List.map_append]
    simp [Sys.ids, hcall]

end Inv

/-! ## The statements of a create -/

theorem of_keyRow (h : s.keyRow t key = some row) :
    row ∈ (s.view t).store.idempotencyKeys ∧ row.key = key :=
  ⟨List.mem_of_find?_eq_some h, by simpa using List.find?_some h⟩

theorem of_liveItem {databaseId itemId : ℕ} {item : ItemRow}
    (h : s.liveItem t databaseId itemId = some item) :
    item.id = itemId ∧ item.deletedAt = none := by
  obtain ⟨hget, hlive⟩ := Option.filter_eq_some_iff.mp h
  have hat : item.isAt databaseId itemId = true := by
    unfold Store.getItemById at hget
    exact (List.find?_some hget :)
  simp only [ItemRow.isAt, decide_eq_true_eq] at hat hlive
  exact ⟨hat.2, hlive⟩

theorem of_newItem {store : Store} {item : ItemRow} (h : newItem env store c = .ok item) :
    item.id = c.newId ∧ item.databaseId = c.input.databaseId ∧ item.deletedAt = none := by
  unfold newItem at h
  cases hd : applyDefaults env store c.properties c.input.properties
      (createdProperties c.database c.input.properties) with
  | error e =>
    rw [hd] at h
    cases h
  | ok properties =>
    rw [hd] at h
    cases h
    exact ⟨rfl, rfl, rfl⟩

theorem of_startCall {store : Store} {input : CreateItemInput} {options : WriteOptions} {newId : ℕ}
    (h : startCall store newId input options = .ok c) : c.newId = newId ∧
      (c.phase = .findReplay ∨ c.phase = .reserve ∨ c.phase = .insert ∧ c.key = none) := by
  unfold startCall at h
  cases hd : store.requireDatabase input.databaseId with
  | error e =>
    rw [hd] at h
    cases h
  | ok database =>
    rw [hd] at h
    dsimp only [bind, Except.bind] at h
    split at h
    case isTrue =>
      split at h
      case isTrue =>
        cases h
        exact ⟨rfl, .inl rfl⟩
      case isFalse => cases h
    case isFalse =>
      split at h
      case h_1 => cases h
      case h_2 =>
        cases h
        refine ⟨rfl, .inr ?_⟩
        dsimp only
        split
        case isTrue => exact .inl rfl
        case isFalse hk => exact .inr ⟨rfl, Option.not_isSome_iff_eq_none.mp hk⟩

/-- The call has neither a reservation to fill nor an item whose effects are to run. -/
def Phase.Waits : Phase → Prop
  | .insert | .effects _ => False
  | _ => True

theorem Phase.Waits.ne_insert {phase : Phase} (h : phase.Waits) : phase ≠ .insert := by
  rintro rfl
  exact h

theorem inserting_waits (h : c.phase.Waits) : inserting (some c) = [] := by
  unfold inserting
  cases hp : c.phase <;> rw [hp] at h <;> first | exact h.elim | simp [hp]

theorem upcoming_waits (h : c.phase.Waits) : upcoming (some c) = [c.newId] := by
  unfold upcoming
  cases hp : c.phase <;> rw [hp] at h <;> first | exact h.elim | simp [hp]

namespace Inv

variable {phase : Phase}

theorem setPhase (h : Inv base s) (hcall : s.calls t = some c) (hp : c.phase.Waits)
    (hnew : phase.Waits) (hok : CallOk (s.view t) { c with phase := phase }) :
    Inv base (s.setPhase t c phase) := by
  have htx := h.tx t
  rw [hcall] at htx
  refine h.setCall ?_ (htx.setCall (fun c' hc' => ?_) (fun c' hc' hp' => ?_) ?_ fun c' hc' => ?_)
  · have hup : upcoming (some { c with phase := phase }) = [c.newId] := upcoming_waits hnew
    rw [hcall, hup, upcoming_waits hp]
  · cases hc'
    exact hp.ne_insert
  · cases hc'
    exact absurd hp' hnew.ne_insert
  · have hin : inserting (some { c with phase := phase }) = [] := inserting_waits hnew
    rw [hin, inserting_waits hp]
  · cases hc'
    exact hok

theorem created_of_keyRow (h : Inv base s) (hcall : s.calls t = some c) (hp : c.phase.Waits)
    (hr : s.keyRow t key = some row) (hdb : row.databaseId = c.input.databaseId) :
    ⟨row.itemId, some key, c.input.databaseId⟩ ∈ (s.view t).created := by
  obtain ⟨hmem, hk⟩ := of_keyRow hr
  have htx := h.tx t
  rw [hcall] at htx
  rw [← hdb, ← hk]
  exact htx.created_of_row hp.ne_insert hmem

theorem replayed {item : ItemRow} {itemId : ℕ} {archived : Bool} (h : Inv base s)
    (hcall : s.calls t = some c) (hp : c.phase = .replay itemId ∨ c.phase = .reserved itemId)
    (hitem : s.liveItem t c.input.databaseId itemId = some item) :
    Inv base (s.finish t ⟨c.key, c.input.databaseId, item, false, archived⟩) := by
  have hwaits : c.phase.Waits := by
    rcases hp with hp | hp <;> rw [hp] <;> trivial
  obtain ⟨hid, hlive⟩ := of_liveItem hitem
  refine h.finish (fun c' hc' => ?_) ?_ ⟨?_, hlive, fun _ => rfl⟩
  · rw [hcall] at hc'
    cases hc'
    exact hwaits.ne_insert
  · rw [hcall]
    exact inserting_waits hwaits
  · have hok := (h.tx t).call c hcall
    unfold CallOk at hok
    rw [hid]
    rcases hp with hp | hp <;> rw [hp] at hok <;> exact hok

theorem reserved (h : Inv base s) (hcall : s.calls t = some c) (hp : c.phase.Waits)
    (hk : c.key = some key) (hfree : ¬ s.db.Locked t (Write.onKey key))
    (hs : s.write t ws (some { c with phase := .insert }) = some s')
    (hws : ws = [.insertKey ⟨key, c.input.databaseId, c.newId⟩] ∧ s.keyRow t key = none ∨
      ws = [.deleteKey key, .insertKey ⟨key, c.input.databaseId, c.newId⟩]) : Inv base s' := by
  have htx := h.tx t
  rw [hcall] at htx
  have hof : createdOf ws = [] ∧ effectsOf ws = [] := by
    rcases hws with ⟨rfl, -⟩ | rfl <;> exact ⟨rfl, rfl⟩
  refine h.write hs ?_ (fun k hon => ?_) (htx.reserve hp.ne_insert hk (inserting_waits hp) ?_
    (fun item k hmem => ?_) hof ?_ fun r hr => ?_)
  · have hup : upcoming (some { c with phase := .insert }) = [c.newId] := by simp [upcoming]
    rw [hof.1, hcall, hup, upcoming_waits hp]
    exact List.Sublist.refl _
  · obtain ⟨w, hw, hwk⟩ := hon
    suffices hkey : key = k from hkey ▸ hfree
    rcases hws with ⟨rfl, -⟩ | rfl <;> simp only [List.mem_cons, List.not_mem_nil, or_false] at hw
    · subst hw
      simpa [Write.onKey] using hwk
    · rcases hw with rfl | rfl <;> simpa [Write.onKey] using hwk
  · refine ⟨.insertKey ⟨key, c.input.databaseId, c.newId⟩, ?_, by simp [Write.onKey]⟩
    rcases hws with ⟨rfl, -⟩ | rfl <;> simp
  · rcases hws with ⟨rfl, -⟩ | rfl <;> simp at hmem
  · rcases hws with ⟨rfl, -⟩ | rfl <;> rfl
  · rcases hws with ⟨rfl, hnone⟩ | rfl
    · rcases List.mem_append.mp hr with hr | hr
      · refine .inl ⟨fun hrk => ?_, hr⟩
        exact List.find?_eq_none.mp hnone r hr (decide_eq_true hrk)
      · exact .inr (List.mem_singleton.mp hr)
    · rcases List.mem_append.mp hr with hr | hr
      · obtain ⟨hmem, hne⟩ := List.mem_filter.mp hr
        exact .inl ⟨of_decide_eq_true hne, hmem⟩
      · exact .inr (List.mem_singleton.mp hr)

theorem inserted {item : ItemRow} {store : Store} (h : Inv base s) (hcall : s.calls t = some c)
    (hp : c.phase = .insert) (hitem : newItem env store c = .ok item)
    (hs : s.write t [.insertItem item c.key] (some { c with phase := .effects item }) = some s') :
    Inv base s' := by
  obtain ⟨hid, hdb, hlive⟩ := of_newItem hitem
  have htx := h.tx t
  rw [hcall] at htx
  refine h.write hs ?_ (fun k hon => free_of_off_key rfl hon) (htx.insertItem hp hid hdb hlive)
  have hup : upcoming (some c) = [c.newId] := by simp [upcoming, hp]
  rw [hcall, hup, ← hid]
  exact List.Sublist.refl _

theorem created {item : ItemRow} (h : Inv base s) (hcall : s.calls t = some c)
    (hp : c.phase = .effects item) (hs : s.write t [.createEffects item.id] none = some s') :
    Inv base (s'.finish t ⟨c.key, c.input.databaseId, item, true, false⟩) := by
  have htx := h.tx t
  rw [hcall] at htx
  have hok : CallOk (s.view t) c := htx.call c rfl
  have hwritten : Inv base s' :=
    h.write hs (List.nil_sublist _) (fun k hon => free_of_off_key rfl hon) (htx.runEffects hp)
  obtain ⟨db, hdb, rfl⟩ := Option.map_eq_some_iff.mp hs
  have hnone : Function.update s.calls t none t = none := Function.update_self ..
  unfold CallOk at hok
  rw [hp] at hok
  refine hwritten.finish (fun c' hc' => ?_) (congrArg inserting hnone) ⟨?_, hok.2, nofun⟩
  · exact absurd (hnone ▸ hc') (Option.not_mem_none c')
  · show _ ∈ (List.foldl apply db.committed (db.pending t)).created
    rw [ReadCommitted.write_committed hdb, ReadCommitted.write_pending hdb, Function.update_self,
      List.foldl_append]
    exact hok.1

theorem createStep {a : Act} (h : Inv base s) (hcall : s.calls t = some c)
    (hs : createStep env s t c a = some s') : Inv base s' := by
  cases a with
  | findReplay u =>
    simp only [ItemCreates.createStep] at hs
    split at hs
    case h_1 hp hk =>
      split at hs
      case h_1 row hrow =>
        split at hs
        case isTrue hdb =>
          cases hs
          have hwaits : c.phase.Waits := hp ▸ trivial
          refine h.setPhase hcall hwaits trivial ?_
          show ⟨row.itemId, c.key, c.input.databaseId⟩ ∈ (s.view t).created
          rw [hk]
          exact h.created_of_keyRow hcall hwaits hrow hdb
        case isFalse => exact h.throw hs
      case h_2 => exact h.throw hs
    case h_2 => cases hs
  | readReplay u =>
    simp only [ItemCreates.createStep] at hs
    split at hs
    case h_1 itemId hp =>
      split at hs
      case h_1 item hitem =>
        cases hs
        exact h.replayed hcall (.inl hp) hitem
      case h_2 => exact h.throw hs
    case h_2 => cases hs
  | reserveKey u =>
    simp only [ItemCreates.createStep] at hs
    split at hs
    case h_1 key hp hk =>
      have hwaits : c.phase.Waits := hp ▸ trivial
      split at hs
      case isTrue => cases hs
      case isFalse hfree =>
        split at hs
        case h_1 hnone => exact h.reserved hcall hwaits hk hfree hs (.inl ⟨rfl, hnone⟩)
        case h_2 =>
          cases hs
          exact h.setPhase hcall hwaits trivial trivial
    case h_2 => cases hs
  | selectKey u =>
    simp only [ItemCreates.createStep] at hs
    split at hs
    case h_1 key hp hk =>
      have hwaits : c.phase.Waits := hp ▸ trivial
      split at hs
      case isTrue => cases hs
      case isFalse =>
        split at hs
        case h_1 row hrow =>
          split at hs
          case isTrue hdb =>
            cases hs
            have hset : Inv base (s.setPhase t c (.reserved row.itemId)) := by
              refine h.setPhase hcall hwaits trivial ?_
              show ⟨row.itemId, c.key, c.input.databaseId⟩ ∈ (s.view t).created
              rw [hk]
              exact h.created_of_keyRow hcall hwaits hrow hdb
            exact { hset with }
          case isFalse => exact h.throw hs
        case h_2 => exact h.throw hs
    case h_2 => cases hs
  | readReserved u =>
    simp only [ItemCreates.createStep] at hs
    split at hs
    case h_1 itemId hp =>
      split at hs
      case h_1 item hitem =>
        cases hs
        exact h.replayed hcall (.inr hp) hitem
      case h_2 =>
        cases hs
        have hok := (h.tx t).call c hcall
        unfold CallOk at hok
        rw [hp] at hok
        exact h.setPhase hcall (hp ▸ trivial) trivial hok
    case h_2 => cases hs
  | takeOver u =>
    simp only [ItemCreates.createStep] at hs
    split at hs
    case h_1 itemId key hp hk =>
      split at hs
      case isTrue => cases hs
      case isFalse hfree =>
        exact h.reserved hcall (hp ▸ trivial) hk (fun hlock => hfree (.inl hlock)) hs (.inr rfl)
    case h_2 => cases hs
  | insertItem u =>
    simp only [ItemCreates.createStep] at hs
    split at hs
    case h_1 hp =>
      split at hs
      case h_1 item hitem => exact h.inserted hcall hp hitem hs
      case h_2 => exact h.throw hs
    case h_2 => cases hs
  | runEffects u =>
    simp only [ItemCreates.createStep] at hs
    split at hs
    case h_1 item hp =>
      split at hs
      case h_1 =>
        obtain ⟨s₁, hwrite, rfl⟩ := Option.map_eq_some_iff.mp hs
        exact h.created hcall hp hwrite
      case h_2 => exact h.throw hs
    case h_2 => cases hs
  | _ => cases hs

theorem shrunk (h : Inv base s) (hs : s.write t ws (s.calls t) = some s')
    (hw : ∀ w ∈ ws, w.Shrinks)
    (hfree : ∀ k, (∃ w ∈ ws, w.onKey k = true) → ¬ s.db.Locked t (Write.onKey k)) :
    Inv base s' := by
  refine h.write hs ?_ hfree ((h.tx t).shrink hw)
  rw [(created_effects_of_shrinks hw).1]
  exact List.Sublist.refl _

theorem step {a : Act} (h : Inv base s) (hs : step env s a = some s') : Inv base s' := by
  cases a with
  | begin t =>
    obtain ⟨db, hdb, rfl⟩ := Option.map_eq_some_iff.mp hs
    obtain ⟨committed, opened, pending, hnil⟩ := db
    obtain rfl : committed = s.db.committed := ReadCommitted.begin_committed hdb
    obtain rfl : pending = s.db.pending := ReadCommitted.begin_pending hdb
    exact { h with }
  | createItem t input options =>
    simp only [ItemCreates.step] at hs
    split at hs
    case isTrue hfree =>
      split at hs
      case h_1 call hstart =>
        cases hs
        obtain ⟨hnew, hphase⟩ := of_startCall hstart
        exact h.start (Option.isNone_iff_eq_none.mp hfree.2) hnew hphase
      case h_2 => exact h.throw hs
    case isFalse => cases hs
  | setDeletedAt t databaseId itemId deletedAt | setArchivedAt t databaseId archivedAt =>
    simp only [ItemCreates.step] at hs
    split at hs
    case isTrue => cases hs
    case isFalse =>
      refine h.shrunk hs (fun w hw => ?_) (fun k hon => free_of_off_key rfl hon)
      rw [List.mem_singleton.mp hw]
      trivial
  | purge t databaseId itemId =>
    simp only [ItemCreates.step] at hs
    split at hs
    case isTrue hguard =>
      obtain ⟨-, -, hkeys, hnone⟩ := hguard
      rw [← Option.isNone_iff_eq_none.mp hnone] at hs
      refine h.shrunk hs (fun w hw => ?_) (fun k hon => ?_)
      · rcases List.mem_cons.mp hw with rfl | hw
        · trivial
        · obtain ⟨key, -, rfl⟩ := List.mem_map.mp hw
          trivial
      · obtain ⟨w, hw, hwk⟩ := hon
        rcases List.mem_cons.mp hw with rfl | hw
        · cases hwk
        · obtain ⟨key, hkey, rfl⟩ := List.mem_map.mp hw
          obtain rfl : key = k := by simpa [Write.onKey] using hwk
          exact fun hlock => hkeys key hkey (.inl hlock)
    case isFalse => cases hs
  | commit t =>
    simp only [ItemCreates.step] at hs
    split at hs
    case isTrue hnone =>
      obtain ⟨db, hdb, rfl⟩ := Option.map_eq_some_iff.mp hs
      exact h.commit (Option.isNone_iff_eq_none.mp hnone) hdb
    case isFalse => cases hs
  | rollback t => exact h.throw hs
  | findReplay t | readReplay t | reserveKey t | selectKey t | readReserved t | takeOver t
  | insertItem t | runEffects t =>
    obtain ⟨call, hcall, hs⟩ := Option.bind_eq_some_iff.mp hs
    exact h.createStep hcall hs

end Inv

theorem inv_init (store : Store) : Inv [] (.init store) := by
  have hids : ∀ o, Sys.ids (.init store) o = [] := by
    rintro (_ | t) <;> rfl
  refine ⟨List.nil_prefix, fun _ hr => absurd hr List.not_mem_nil, rfl,
    fun _ hr => absurd hr List.not_mem_nil, fun t u k ht => ?_, fun o i hi => ?_, fun o => ?_,
    fun o o' i hi => ?_, fun t => Inv.nothing_open fun _ hr => absurd hr List.not_mem_nil⟩
  · obtain ⟨w, hw, -⟩ := ht
    exact absurd hw List.not_mem_nil
  · rw [hids o] at hi
    exact absurd hi List.not_mem_nil
  · rw [hids o]
    exact List.nodup_nil
  · rw [hids o] at hi
    exact absurd hi List.not_mem_nil

/-- While its row stays, no other item is created under a key. -/
theorem Inv.createsOnce (h : Inv s.db.committed.created s') (hold : Inv base s) :
    s.CreatesOnce s' := by
  intro row hrow hrow'
  obtain ⟨later, hlater⟩ := h.grows
  rw [← hlater, List.filter_append]
  suffices hnone : later.filter (fun c => c.key = some row.key) = [] by
    rw [hnone, List.append_nil]
  by_contra hne
  have hlast := h.rows row hrow'
  unfold LastCreated at hlast
  rw [← hlater, List.filter_append, List.getLast?_append_of_ne_nil _ hne] at hlast
  have hnew := (List.mem_filter.mp (List.mem_of_getLast? hlast)).1
  have hids := h.ids_nodup none
  simp only [Sys.ids] at hids
  rw [← hlater, List.map_append] at hids
  exact (List.nodup_append.mp hids).2.2 _ (List.mem_map_of_mem (hold.rows row hrow).mem) _
    (List.mem_map_of_mem hnew) rfl

theorem idempotent (env : Env) (store : Store) (s : Sys)
    (hs : Reach (step env) (fun _ _ => True) (.init store) s) :
    s.Idempotent ∧
      ∀ s', Reach (step env) (fun _ _ => True) s s' → s.CreatesOnce s' := by
  have h : Inv [] s := hs.invariant (inv_init store) fun _ _ _ hi _ hs => hi.step hs
  refine ⟨⟨h.rows, fun r hr => ⟨(h.returned r hr).1, (h.returned r hr).2.1⟩, h.effects,
    h.effects ▸ h.ids_nodup none, fun r hr => (h.returned r hr).2.2⟩, fun s' hs' => ?_⟩
  have h' : Inv s.db.committed.created s' :=
    hs'.invariant { h with grows := List.prefix_refl _ } fun _ _ _ hi _ hs => hi.step hs
  exact h'.createsOnce h

def writable : Store := { Store.empty with
  databases := [⟨1, none, none, none, none, none, false, false, none⟩] }

def noHooks : Env where
  now := 0
  validTimezone _ := true
  today _ := ""
  computeNextDueDate _ _ today := today
  assertWrittenConfigStorable _ _ _ := .ok ()
  relationEdgeWriteHook _ _ _ _ _ := .ok ()

def keyed : CreateItemInput := ⟨1, [], some "k"⟩

def recreated : List Act :=
  [.begin 0, .begin 1, .createItem 0 keyed .none, .createItem 1 keyed .none, .reserveKey 0,
    .insertItem 0, .runEffects 0, .commit 0, .reserveKey 1, .selectKey 1, .readReserved 1,
    .commit 1, .begin 2, .setDeletedAt 2 1 0 (some 5), .commit 2, .begin 3,
    .createItem 3 keyed .none, .reserveKey 3, .selectKey 3, .readReserved 3, .takeOver 3,
    .insertItem 3, .runEffects 3, .commit 3]

theorem idempotent_recreated : ∃ s, runActs (step noHooks) (.init writable) recreated = some s ∧
    s.returned.map (fun r => (r.item.id, r.created)) = [(0, true), (0, false), (2, true)] ∧
    s.Idempotent := by
  obtain ⟨s, hs⟩ := Option.isSome_iff_exists.mp
    (rfl : (runActs (step noHooks) (.init writable) recreated).isSome = true)
  exact ⟨s, hs, eq_of_map_eq (f := fun s : Sys =>
    s.returned.map fun r => (r.item.id, r.created)) hs rfl,
    (idempotent noHooks writable s (.of_runActs hs)).1⟩

def archivedMeanwhile : List Act :=
  [.begin 0, .createItem 0 keyed .none, .begin 1, .setArchivedAt 1 1 (some 5), .commit 1,
    .reserveKey 0, .insertItem 0, .runEffects 0]

theorem archivedMeanwhile_creates : ¬ ∀ (env : Env) (store : Store) (s : Sys),
    Reach (step env) (fun _ _ => True) (.init store) s → s.OnlyReplays env := by
  intro hall
  obtain ⟨s, hs⟩ := Option.isSome_iff_exists.mp
    (rfl : (runActs (step noHooks) (.init writable) archivedMeanwhile).isSome = true)
  have hfinished : s.finished 0 = [⟨some "k", 1, ⟨0, 1, [], [], 0, none⟩, true, false⟩] :=
    eq_of_map_eq (f := fun s : Sys => s.finished 0) hs rfl
  have hdatabase : s.db.committed.store.getDatabase 1 =
      some ⟨1, none, none, none, none, none, false, false, some 5⟩ :=
    eq_of_map_eq (f := fun s : Sys => s.db.committed.store.getDatabase 1) hs rfl
  have hcommit : (step noHooks s (.commit 0)).isSome = true :=
    eq_of_map_eq (f := fun s : Sys => (step noHooks s (.commit 0)).isSome) hs rfl
  obtain ⟨s', hs'⟩ := Option.isSome_iff_exists.mp hcommit
  have hopen := hall noHooks writable s (.of_runActs hs) 0 s' hs' _
    (by rw [hfinished]; exact List.mem_singleton_self _) rfl _ hdatabase
  cases hopen

end ItemCreates

end Semprec
