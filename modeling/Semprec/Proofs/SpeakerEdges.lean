import Mathlib.Tactic.SplitIfs
import Semprec.Proofs.RelationEdges
import Semprec.SpeakerEdges

/-!
# One person for each speaker key

What a transaction may do to a transcript whose row it has not locked is to take edges away
(`KeptAt`): so the other edges and the segments, which the hook has read under the lock, still
stand at its commit, and so does the absence of segments that the merge step has read.
-/

namespace Semprec

namespace SpeakerEdges

open ReadCommitted (Program Programs Sound Stable Compatible)
open Relations Schema
open RelationEdges (loadRelationEdgeContext_ok)

theorem Lock.conflicts_symm (l m : Lock) : l.conflicts m = m.conflicts l :=
  BEq.comm

variable {r : SpeakersRelation} {s s' s'' : Store} {w : Write} {ws : List Write}
  {t p i : ℕ} {k : String}

/-! ### The tables -/

structure SpeakersRelation.KeptAt (r : SpeakersRelation) (t : ℕ) (s s' : Store) : Prop where
  edges : ∀ e ∈ s'.itemRelations, e.relationDefinitionId = r.relationDefinitionId → e.itemA = t →
    e ∈ s.itemRelations
  row : ∀ row, s.getItemById r.transcriptsDatabaseId t = some row →
    ∃ row', s'.getItemById r.transcriptsDatabaseId t = some row' ∧
      row'.computed.get? segmentsComputedKey = row.computed.get? segmentsComputedKey

theorem listSegmentSpeakers_congr {row row' : ItemRow}
    (h : row'.computed.get? segmentsComputedKey = row.computed.get? segmentsComputedKey) :
    listSegmentSpeakers row' = listSegmentSpeakers row := by
  unfold listSegmentSpeakers
  rw [h]

namespace SpeakersRelation

theorem KeptAt.refl (s : Store) : r.KeptAt t s s :=
  ⟨fun _ he _ _ => he, fun row hrow => ⟨row, hrow, rfl⟩⟩

theorem KeptAt.trans (h : r.KeptAt t s s') (h' : r.KeptAt t s' s'') : r.KeptAt t s s'' := by
  refine ⟨fun e he hd ht => h.edges e (h'.edges e he hd ht) hd ht, fun row hrow => ?_⟩
  obtain ⟨row', hrow', hsegments⟩ := h.row row hrow
  obtain ⟨row'', hrow'', hsegments'⟩ := h'.row row' hrow'
  exact ⟨row'', hrow'', hsegments'.trans hsegments⟩

theorem KeptAt.mapped (h : r.KeptAt t s s') (hm : r.Mapped s' t k p) : r.Mapped s t k p := by
  obtain ⟨e, he, hd, hA, hB, hk⟩ := hm
  exact ⟨e, h.edges e he hd hA, hd, hA, hB, hk⟩

theorem KeptAt.occurs (h : r.KeptAt t s s') (ho : r.Occurs s t k) : r.Occurs s' t k := by
  obtain ⟨row, hrow, speakers, hspeakers, hk⟩ := ho
  obtain ⟨row', hrow', hsegments⟩ := h.row row hrow
  exact ⟨row', hrow', speakers, (listSegmentSpeakers_congr hsegments).trans hspeakers, hk⟩

/-- What is claimed of one transcript. -/
structure OnePersonAt (r : SpeakersRelation) (s : Store) (t : ℕ) : Prop where
  unique : ∀ k p p', r.Mapped s t k p → r.Mapped s t k p' → p = p'
  occurs : ∀ k p, r.Mapped s t k p → r.Occurs s t k

theorem onePerson_iff : r.OnePerson s ↔ ∀ t, r.OnePersonAt s t :=
  ⟨fun h t => ⟨h.unique t, h.occurs t⟩, fun h => ⟨fun t => (h t).unique, fun t => (h t).occurs⟩⟩

theorem OnePersonAt.kept (h : r.OnePersonAt s t) (hkept : r.KeptAt t s s') :
    r.OnePersonAt s' t :=
  ⟨fun k p p' hp hp' => h.unique k p p' (hkept.mapped hp) (hkept.mapped hp'),
    fun k p hp => hkept.occurs (h.occurs k p (hkept.mapped hp))⟩

theorem onePersonAt_of_not_mapped (h : ∀ k p, ¬ r.Mapped s t k p) : r.OnePersonAt s t :=
  ⟨fun k p _ hp _ => absurd hp (h k p), fun k p hp => absurd hp (h k p)⟩

end SpeakersRelation

/-! ### What a write leaves -/

theorem isAt_of_getItemById {d : ℕ} {row : ItemRow} (h : s.getItemById d t = some row) :
    row.isAt d t = true := by
  have hp := List.find?_some h
  simpa using hp

theorem getItemById_updateItem {databaseId itemId : ℕ} {guard : ItemRow → Bool}
    {set : ItemRow → ItemRow} (hset : ∀ row, (set row).id = row.id ∧
      (set row).databaseId = row.databaseId) (d t : ℕ) :
    (s.updateItem databaseId itemId guard set).2.getItemById d t =
      (s.getItemById d t).map fun row =>
        if row.isAt databaseId itemId && guard row then set row else row := by
  simp only [Store.updateItem, Store.getItemById, List.find?_map]
  congr 1
  refine congrArg (fun q => List.find? q s.items) (funext fun row => ?_)
  simp only [Function.comp]
  split_ifs
  · simp [ItemRow.isAt, (hset row).1, (hset row).2]
  · rfl

theorem keptAt_updateItem {databaseId itemId : ℕ} {set : ItemRow → ItemRow}
    (hset : ∀ row, (set row).id = row.id ∧ (set row).databaseId = row.databaseId)
    (hsegments : ∀ row, (row.isAt r.transcriptsDatabaseId t = true ∧
      row.isAt databaseId itemId = true) →
      (set row).computed.get? segmentsComputedKey = row.computed.get? segmentsComputedKey) :
    r.KeptAt t s (s.updateItem databaseId itemId (fun _ => true) set).2 := by
  refine ⟨fun e he _ _ => he, fun row hrow => ?_⟩
  rw [getItemById_updateItem hset, hrow]
  refine ⟨_, rfl, ?_⟩
  have hat := isAt_of_getItemById hrow
  beta_reduce
  split_ifs with h
  · exact hsegments row ⟨hat, by simpa using h⟩
  · rfl

def Write.Spares (w : Write) (r : SpeakersRelation) (t : ℕ) : Prop :=
  match w with
  | .upsertEdge d a _ _ | .setMetadata d a _ _ => d ≠ r.relationDefinitionId ∨ a ≠ t
  | .writeComputed databaseId itemId key _ =>
    key ≠ segmentsComputedKey ∨ databaseId ≠ r.transcriptsDatabaseId ∨ itemId ≠ t
  | .hardDeleteItem databaseId itemId => databaseId ≠ r.transcriptsDatabaseId ∨ itemId ≠ t
  | _ => True

theorem mem_upsertEdge {d a b : ℕ} {metadata : JsonObject} {e : ItemRelationRow}
    (h : e ∈ (upsertEdge d a b metadata s).2.itemRelations) :
    e ∈ s.itemRelations ∨ (e.relationDefinitionId = d ∧ e.itemA = a ∧ e.itemB = b ∧
      e.metadata = metadata) := by
  unfold upsertEdge at h
  split at h
  · obtain ⟨e₀, he₀, rfl⟩ := List.mem_map.mp h
    split_ifs with hedge
    · right
      simpa [isEdge] using hedge
    · exact .inl he₀
  · rcases List.mem_append.mp h with h | h
    · exact .inl h
    · rw [List.mem_singleton.mp h]
      exact .inr ⟨rfl, rfl, rfl, rfl⟩

theorem mem_updateItemRelationMetadata {d a b : ℕ} {metadata : JsonObject} {e : ItemRelationRow}
    (h : e ∈ (updateItemRelationMetadata d a b metadata s).2.itemRelations) :
    e ∈ s.itemRelations ∨ (e.relationDefinitionId = d ∧ e.itemA = a ∧ e.itemB = b ∧
      e.metadata = metadata) := by
  obtain ⟨e₀, he₀, rfl⟩ := List.mem_map.mp h
  split_ifs with hedge
  · right
    simpa [isEdge] using hedge
  · exact .inl he₀

theorem keptAt_hardDeleteItem {databaseId itemId : ℕ}
    (h : databaseId ≠ r.transcriptsDatabaseId ∨ itemId ≠ t) :
    r.KeptAt t s (apply s (.hardDeleteItem databaseId itemId)) := by
  refine ⟨fun e he _ _ => he, fun row hrow => ⟨row, ?_, rfl⟩⟩
  rw [← hrow]
  simp only [apply, Store.getItemById, List.find?_filter]
  refine congrArg (fun q => List.find? q s.items) (funext fun row => ?_)
  simp only [ItemRow.isAt]
  by_cases hd : row.databaseId = databaseId <;> by_cases hi : row.id = itemId <;>
    simp [hd, hi]
  omega

theorem Write.Spares.keptAt (h : w.Spares r t) : r.KeptAt t s (apply s w) := by
  rcases w with ⟨d, a, b, metadata⟩ | ⟨d, a, b, metadata⟩ | _ | _ | row | _ | _ |
    ⟨databaseId, itemId, key, value⟩ | ⟨databaseId, itemId⟩ | _ | _
  case upsertEdge =>
    refine ⟨fun e he hd ht => ?_, fun row hrow => ⟨row, ?_, rfl⟩⟩
    · refine (mem_upsertEdge he).resolve_right ?_
      rintro ⟨rfl, rfl, -, -⟩
      exact h.elim (absurd hd) (absurd ht)
    · simp only [apply, Relations.upsertEdge]
      split <;> exact hrow
  case setMetadata =>
    refine ⟨fun e he hd ht => ?_, fun row hrow => ⟨row, hrow, rfl⟩⟩
    refine (mem_updateItemRelationMetadata he).resolve_right ?_
    rintro ⟨rfl, rfl, -, -⟩
    exact h.elim (absurd hd) (absurd ht)
  case deleteEdge | deleteEdges =>
    exact ⟨fun e he _ _ => List.mem_of_mem_filter he, fun row hrow => ⟨row, hrow, rfl⟩⟩
  case insertItem =>
    refine ⟨fun e he _ _ => he, fun row hrow => ⟨row, ?_, rfl⟩⟩
    simp only [apply, Store.getItemById] at hrow ⊢
    rw [List.find?_append, hrow, Option.some_or]
  case setProperties => exact keptAt_updateItem (fun _ => ⟨rfl, rfl⟩) fun _ _ => rfl
  case setDeletedAt => exact keptAt_updateItem (fun _ => ⟨rfl, rfl⟩) fun _ _ => rfl
  case writeComputed =>
    refine keptAt_updateItem (fun _ => ⟨rfl, rfl⟩) fun row hrow => ?_
    rcases h with hkey | hid
    · have hne : (segmentsComputedKey == key) = false := by simpa using hkey.symm
      rw [JsonObject.get?_merge]
      simp [JsonObject.get?, List.lookup_cons, hne]
    · simp only [ItemRow.isAt, decide_eq_true_eq] at hrow
      omega
  case hardDeleteItem => exact keptAt_hardDeleteItem h
  case insertProperty | insertRelationDefinition =>
    exact ⟨fun e he _ _ => he, fun row hrow => ⟨row, hrow, rfl⟩⟩

theorem keptAt_foldl (h : ∀ w ∈ ws, w.Spares r t) : r.KeptAt t s (ws.foldl apply s) := by
  induction ws generalizing s with
  | nil => exact SpeakersRelation.KeptAt.refl s
  | cons w ws ih =>
    exact (h w List.mem_cons_self).keptAt.trans (ih fun x hx => h x (List.mem_cons_of_mem w hx))

/-- The rows of the schema are found as before, whatever is inserted after them. -/
theorem inSchema_apply (h : r.InSchema s) (w : Write) : r.InSchema (apply s w) := by
  have hrest : (apply s w).databases = s.databases := by
    rcases w with ⟨d, a, b, metadata⟩ | _ | _ | _ | _ | _ | _ | _ | _ | _ | _
    case upsertEdge =>
      simp only [apply, upsertEdge]
      split <;> rfl
    all_goals rfl
  have hproperties : ∃ rows, (apply s w).properties = s.properties ++ rows := by
    rcases w with ⟨d, a, b, metadata⟩ | _ | _ | _ | _ | _ | _ | _ | _ | row | _
    case upsertEdge =>
      refine ⟨[], ?_⟩
      simp only [apply, upsertEdge, List.append_nil]
      split <;> rfl
    case insertProperty => exact ⟨[row], rfl⟩
    all_goals exact ⟨[], (List.append_nil _).symm⟩
  have hdefinitions : ∃ rows, (apply s w).relationDefinitions = s.relationDefinitions ++ rows := by
    rcases w with ⟨d, a, b, metadata⟩ | _ | _ | _ | _ | _ | _ | _ | _ | _ | row
    case upsertEdge =>
      refine ⟨[], ?_⟩
      simp only [apply, upsertEdge, List.append_nil]
      split <;> rfl
    case insertRelationDefinition => exact ⟨[row], rfl⟩
    all_goals exact ⟨[], (List.append_nil _).symm⟩
  obtain ⟨properties, hp⟩ := hproperties
  obtain ⟨definitions, hd⟩ := hdefinitions
  obtain ⟨⟨database, hdatabase, hmodule⟩, ⟨property, hproperty, hin⟩, definition, hdefinition,
    hsides⟩ := h
  refine ⟨⟨database, ?_, hmodule⟩, ⟨property, ?_, hin⟩, definition, ?_, hsides⟩
  · rw [← hdatabase]
    simp only [Store.getDatabase, hrest]
  · simp only [Store.getProperty, hp, List.find?_append] at hproperty ⊢
    rw [hproperty, Option.some_or]
  · simp only [Store.getRelationDefinition, hd, List.find?_append] at hdefinition ⊢
    rw [hdefinition, Option.some_or]

theorem inSchema_foldl (h : r.InSchema s) : r.InSchema (ws.foldl apply s) := by
  induction ws generalizing s with
  | nil => exact h
  | cons w ws ih => exact ih (inSchema_apply h w)

/-! ### The guarantee -/

structure Guarantee (r : SpeakersRelation) (ls : List Lock) (s s' : Store) : Prop where
  schema : r.InSchema s → r.InSchema s'
  kept : ∀ t, .item r.transcriptsDatabaseId t ∉ ls → r.KeptAt t s s'
  onePerson : r.InSchema s → r.OnePerson s → r.OnePerson s'

/-- The invariant of the committed tables. -/
structure Inv (r : SpeakersRelation) (s : Store) : Prop where
  schema : r.InSchema s
  onePerson : r.OnePerson s

abbrev SoundTx (r : SpeakersRelation) :
    Transaction → List Lock → (Store → Prop) → List Write → Prop :=
  Sound apply Lock.conflicts (Guarantee r) (Inv r)

abbrev StableTx (r : SpeakersRelation) (ls : List Lock) (A : Store → Prop) : Prop :=
  Stable Lock.conflicts (Guarantee r) ls A

section sound

variable {ls : List Lock} {A : Store → Prop} {next : Transaction} {l : Lock}

/-- What survives another transaction that spares the transcript, survives the others while its row
is locked. -/
theorem stable_of_kept (hl : .item r.transcriptsDatabaseId t ∈ ls)
    (hA : ∀ s s', r.KeptAt t s s' → A s → A s') : StableTx r ls A := by
  rintro s s' ⟨ms, hc, hg⟩ h
  refine hA s s' (hg.kept t fun hm => ?_) h
  simpa [Lock.conflicts] using hc _ hl _ hm

theorem sound_commit_but (hl : .item r.transcriptsDatabaseId t ∈ ls)
    (hws : ∀ w ∈ ws, ∀ t' ≠ t, w.Spares r t')
    (hone : ∀ s, Inv r s → A s → r.OnePersonAt (ws.foldl apply s) t) :
    SoundTx r .commit ls A ws := by
  intro s hi hA
  have hkept : ∀ t' ≠ t, r.KeptAt t' s (ws.foldl apply s) :=
    fun t' hne => keptAt_foldl fun w hw => hws w hw t' hne
  refine ⟨inSchema_foldl, fun t' hnot => ?_, fun _ _ => ?_⟩
  · refine hkept t' fun heq => hnot ?_
    rw [heq]
    exact hl
  · rw [SpeakersRelation.onePerson_iff]
    intro t'
    rcases eq_or_ne t' t with rfl | hne
    · exact hone s hi hA
    · exact (SpeakersRelation.onePerson_iff.mp hi.onePerson t').kept (hkept t' hne)

theorem sound_commit (hws : ∀ w ∈ ws, ∀ t, w.Spares r t) : SoundTx r .commit ls A ws := by
  intro s hi _
  have hkept : ∀ t, r.KeptAt t s (ws.foldl apply s) :=
    fun t => keptAt_foldl fun w hw => hws w hw t
  refine ⟨inSchema_foldl, fun t _ => hkept t, fun _ _ => ?_⟩
  exact SpeakersRelation.onePerson_iff.mpr fun t =>
    (SpeakersRelation.onePerson_iff.mp hi.onePerson t).kept (hkept t)

theorem sound_select {next : Store → Transaction} (hA : StableTx r ls A)
    (h : ∀ s, Inv r s → A s → SoundTx r (next (ws.foldl apply s)) ls A ws) :
    SoundTx r (select next) ls A ws :=
  Sound.read fun s hi ha => ⟨A, hA, ha, h s hi ha⟩

theorem sound_check {α : Type} {f : Store → Except Failure α} {next : α → Transaction}
    (hA : StableTx r ls A)
    (h : ∀ s a, Inv r s → A s → f (ws.foldl apply s) = .ok a → SoundTx r (next a) ls A ws) :
    SoundTx r (check f next) ls A ws := by
  refine sound_select hA fun s hi ha => ?_
  rcases hf : f (ws.foldl apply s) with e | a
  · trivial
  · exact h s a hi ha hf

theorem sound_write {w : Write} (hA : StableTx r ls A) (h : SoundTx r next ls A (ws ++ [w])) :
    SoundTx r (write w next) ls A ws :=
  fun _ _ ha => ⟨A, hA, ha, h⟩

theorem sound_lockItemById {databaseId itemId : ℕ} {next : Option ItemRow → Transaction}
    (hnone : SoundTx r (next none) ls (fun _ => True) ws)
    (h : ∀ s, Inv r s → ∃ B, StableTx r (.item databaseId itemId :: ls) B ∧ B s ∧
      SoundTx r (next ((ws.foldl apply s).getItemById databaseId itemId))
        (.item databaseId itemId :: ls) B ws) :
    SoundTx r (lockItemById databaseId itemId next) ls (fun _ => True) ws := by
  refine sound_select ReadCommitted.stable_true fun s _ _ => ?_
  rcases (ws.foldl apply s).getItemById databaseId itemId with _ | row
  · exact hnone
  · exact Sound.acquire <| Sound.read fun s hi _ => h s hi

theorem sound_lockItemById_any {databaseId itemId : ℕ} {next : Option ItemRow → Transaction}
    (h : ∀ ls row, SoundTx r (next row) ls (fun _ => True) ws) :
    SoundTx r (lockItemById databaseId itemId next) ls (fun _ => True) ws :=
  sound_lockItemById (h ls none) fun _ _ =>
    ⟨fun _ => True, ReadCommitted.stable_true, trivial, h _ _⟩

end sound

/-! ### Edge writes -/

theorem speakerOf_of_parse {metadata : JsonObject}
    (h : parseSpeakerEdgeMetadata metadata = some k) : speakerOf metadata = some k := by
  unfold parseSpeakerEdgeMetadata at h
  split at h
  · rename_i key speaker
    split_ifs at h with hkey
    rw [hkey.1, ← h]
    simp [speakerOf, JsonObject.get?]
  · cases h

/-- What the hook has found of an edge: its key occurs in the transcript and is mapped to no other
person. -/
def SpeakersRelation.Writable (r : SpeakersRelation) (t p : ℕ) (k : String) (s : Store) : Prop :=
  r.Occurs s t k ∧ ∀ q, r.Mapped s t k q → q = p

theorem SpeakersRelation.Writable.kept (h : r.Writable t p k s) (hkept : r.KeptAt t s s') :
    r.Writable t p k s' :=
  ⟨hkept.occurs h.1, fun q hq => h.2 q (hkept.mapped hq)⟩

/-- The edges after a write of one that the hook let through. -/
theorem onePersonAt_written {metadata : JsonObject} (h : r.Writable t p k s)
    (hk : speakerOf metadata = some k) (hone : r.OnePersonAt s t)
    (hedges : ∀ e ∈ s'.itemRelations, e ∈ s.itemRelations ∨
      (e.relationDefinitionId = r.relationDefinitionId ∧ e.itemA = t ∧ e.itemB = p ∧
        e.metadata = metadata))
    (hitems : s'.items = s.items) : r.OnePersonAt s' t := by
  have hmapped : ∀ k' q, r.Mapped s' t k' q → r.Mapped s t k' q ∨ k' = k ∧ q = p := by
    rintro k' q ⟨e, he, hd, hA, hB, hk'⟩
    rcases hedges e he with hold | ⟨-, -, hp, hmetadata⟩
    · exact .inl ⟨e, hold, hd, hA, hB, hk'⟩
    · rw [hmetadata, hk] at hk'
      exact .inr ⟨(Option.some.inj hk').symm, hB.symm.trans hp⟩
  have hoccurs : ∀ k', r.Occurs s t k' → r.Occurs s' t k' := by
    rintro k' ⟨row, hrow, hspeakers⟩
    exact ⟨row, by rw [← hrow, Store.getItemById, Store.getItemById, hitems], hspeakers⟩
  constructor
  · intro k' q q' hq hq'
    rcases hmapped k' q hq with hold | ⟨rfl, rfl⟩
    · rcases hmapped k' q' hq' with hold' | ⟨rfl, rfl⟩
      · exact hone.unique k' q q' hold hold'
      · exact h.2 q hold
    · rcases hmapped k' q' hq' with hold' | ⟨-, rfl⟩
      · exact (h.2 q' hold').symm
      · rfl
  · intro k' q hq
    rcases hmapped k' q hq with hold | ⟨rfl, rfl⟩
    · exact hoccurs k' (hone.occurs k' q hold)
    · exact hoccurs k' h.1

theorem of_loadRelationEdgeContext {relationPropertyId : ℕ} {edgeContext : RelationEdgeContext}
    (hs : r.InSchema s) (h : loadRelationEdgeContext s relationPropertyId = .ok edgeContext)
    (hd : edgeContext.reldef.id = r.relationDefinitionId) :
    edgeContext.reldef.propertyIdA = relationPropertyId ∧
      edgeContext.property.databaseId = r.transcriptsDatabaseId ∧
      edgeContext.property.key = speakersPropertyKey := by
  obtain ⟨hproperty, hreldef, hside, -⟩ := loadRelationEdgeContext_ok h
  obtain ⟨d, hdefinition, hA, hB⟩ := hs.definition
  rw [hd, hdefinition] at hreldef
  obtain rfl := Option.some.inj hreldef
  have hid : r.propertyId = relationPropertyId := by simpa [hA, hB] using hside
  obtain ⟨property, hfound, hdatabase, hkey⟩ := hs.property
  rw [hid, hproperty] at hfound
  obtain rfl := Option.some.inj hfound
  exact ⟨hA.trans hid, hdatabase, hkey⟩

theorem otherSide_of_itemA {e : ItemRelationRow} (h : e.itemA = t) :
    otherSide e t = some e.itemB :=
  if_pos h

section sound

variable {ls : List Lock} {next : Transaction} {metadata : Option JsonObject}

/-- What the writes behind the hook rely on. -/
def WritableSound (r : SpeakersRelation) (t p : ℕ) (metadata : Option JsonObject)
    (next : Transaction) : Prop :=
  ∀ k ls, .item r.transcriptsDatabaseId t ∈ ls → speakerOf (metadata.getD []) = some k →
    SoundTx r next ls (r.Writable t p k) []

theorem sound_holders (hl : .item r.transcriptsDatabaseId t ∈ ls)
    (hk : speakerOf (metadata.getD []) = some k) (h : WritableSound r t p metadata next) :
    SoundTx r (select fun s =>
      if (s.listRelationsForItem r.relationDefinitionId t).any (isHolder k t p) then .rollback
      else next) ls (fun s => r.Occurs s t k) [] := by
  refine Sound.read fun s _ hoccurs => ?_
  by_cases hholder : (s.listRelationsForItem r.relationDefinitionId t).any (isHolder k t p) = true
  · refine ⟨fun _ => True, ReadCommitted.stable_true, trivial, ?_⟩
    rw [List.foldl_nil, if_pos hholder]
    trivial
  · refine ⟨r.Writable t p k, stable_of_kept hl fun s s' hkept hw => hw.kept hkept,
      ⟨hoccurs, ?_⟩, ?_⟩
    · rintro q ⟨e, he, hd, hA, hB, hspeaker⟩
      by_contra hne
      refine hholder (List.any_eq_true.mpr ⟨e, ?_, ?_⟩)
      · simp [Store.listRelationsForItem, he, hd, hA]
      · simp [isHolder, hspeaker, otherSide_of_itemA hA, hB, hne]
    · rw [List.foldl_nil, if_neg hholder]
      exact h k ls hl hk

theorem sound_assertSpeakerEdgeWritable (h : WritableSound r t p metadata next) :
    SoundTx r (assertSpeakerEdgeWritable r.relationDefinitionId r.transcriptsDatabaseId t p
      metadata next) ls (fun _ => True) [] := by
  unfold assertSpeakerEdgeWritable
  split
  · trivial
  · rename_i k hparse
    have hspeaker := speakerOf_of_parse hparse
    refine sound_lockItemById trivial fun s hi => ?_
    simp only [List.foldl_nil]
    rcases hrow : s.getItemById r.transcriptsDatabaseId t with _ | row
    · exact ⟨fun _ => True, ReadCommitted.stable_true, trivial, trivial⟩
    by_cases hk : ((listSegmentSpeakers row).getD []).contains k = true
    · have hoccurs : r.Occurs s t k := by
        rcases hspeakers : listSegmentSpeakers row with _ | speakers
        · simp [hspeakers] at hk
        · exact ⟨row, hrow, speakers, hspeakers, by simpa [hspeakers] using hk⟩
      refine ⟨fun s => r.Occurs s t k, stable_of_kept (t := t) List.mem_cons_self
        fun s s' hkept => hkept.occurs, hoccurs, ?_⟩
      dsimp only
      split_ifs
      · trivial
      · exact sound_holders List.mem_cons_self hspeaker h
    · refine ⟨fun _ => True, ReadCommitted.stable_true, trivial, ?_⟩
      dsimp only
      split_ifs <;> trivial

theorem sound_assertSpeakerEdgeWritable_any {d databaseId : ℕ}
    (h : ∀ ls, SoundTx r next ls (fun _ => True) []) :
    SoundTx r (assertSpeakerEdgeWritable d databaseId t p metadata next) ls
      (fun _ => True) [] := by
  unfold assertSpeakerEdgeWritable
  split
  · trivial
  · refine sound_lockItemById_any fun ls row => ?_
    rcases row with _ | row
    · trivial
    dsimp only
    split_ifs
    · trivial
    · refine sound_select ReadCommitted.stable_true fun s _ _ => ?_
      split_ifs
      · trivial
      · exact h ls
    · trivial

theorem sound_hook {edgeContext : RelationEdgeContext} {relationPropertyId : ℕ}
    (hload : ∃ s, r.InSchema s ∧ loadRelationEdgeContext s relationPropertyId = .ok edgeContext)
    (hother : edgeContext.reldef.id ≠ r.relationDefinitionId →
      ∀ ls, SoundTx r next ls (fun _ => True) [])
    (hspeakers : edgeContext.reldef.id = r.relationDefinitionId →
      edgeContext.reldef.propertyIdA = relationPropertyId → WritableSound r t p metadata next) :
    SoundTx r (transcriptSpeakerEdgeWriteHook edgeContext t p metadata next) ls
      (fun _ => True) [] := by
  obtain ⟨s₀, hschema, hload⟩ := hload
  refine sound_select ReadCommitted.stable_true fun s hi _ => ?_
  by_cases hd : edgeContext.reldef.id = r.relationDefinitionId
  · obtain ⟨hside, hdatabase, hkey⟩ := of_loadRelationEdgeContext hschema hload hd
    have hrecognised : isTranscriptSpeakersProperty edgeContext.property s = true := by
      obtain ⟨database, hfound, hmodule⟩ := hi.schema.database
      simp [isTranscriptSpeakersProperty, hkey, hdatabase, hfound, hmodule]
    rw [List.foldl_nil, if_pos hrecognised, hd, hdatabase]
    exact sound_assertSpeakerEdgeWritable (hspeakers hd hside)
  · rw [List.foldl_nil]
    by_cases hproperty : isTranscriptSpeakersProperty edgeContext.property s = true
    · rw [if_pos hproperty]
      exact sound_assertSpeakerEdgeWritable_any (hother hd)
    · rw [if_neg hproperty]
      exact hother hd ls

theorem sound_loadEdgeContext {relationPropertyId : ℕ}
    {context : Option SystemRelationWriteContext} {next : RelationEdgeContext → Transaction}
    (h : ∀ edgeContext,
      (∃ s, r.InSchema s ∧ loadRelationEdgeContext s relationPropertyId = .ok edgeContext) →
      SoundTx r (next edgeContext) ls (fun _ => True) []) :
    SoundTx r (loadEdgeContext relationPropertyId context next) ls (fun _ => True) [] := by
  have htrue : StableTx r ls fun _ => True := ReadCommitted.stable_true
  refine sound_check htrue fun s edgeContext hi _ hload => ?_
  refine sound_check htrue fun _ _ _ _ _ => sound_check htrue fun _ _ _ _ _ =>
    sound_check htrue fun _ _ _ _ _ => ?_
  exact h edgeContext ⟨s, hi.schema, hload⟩

theorem sound_loadWritableEdge {relationPropertyId callerItemId targetItemId : ℕ}
    {context : Option SystemRelationWriteContext} {next : RelationEdgeContext → Transaction}
    (hother : ∀ edgeContext, edgeContext.reldef.id ≠ r.relationDefinitionId →
      ∀ ls, SoundTx r (next edgeContext) ls (fun _ => True) [])
    (hspeakers : ∀ edgeContext, edgeContext.reldef.id = r.relationDefinitionId →
      edgeContext.reldef.propertyIdA = relationPropertyId →
      WritableSound r callerItemId targetItemId metadata (next edgeContext)) :
    SoundTx r (loadWritableEdge relationPropertyId callerItemId targetItemId metadata context
      next) ls (fun _ => True) [] := by
  have htrue : StableTx r ls fun _ => True := ReadCommitted.stable_true
  refine sound_loadEdgeContext fun edgeContext hload => ?_
  refine sound_check htrue fun _ _ _ _ _ => sound_check htrue fun _ _ _ _ _ => ?_
  exact sound_hook hload (hother edgeContext) (hspeakers edgeContext)

theorem sound_commit_edge {m : JsonObject} {w : Write}
    (hw : w = .upsertEdge r.relationDefinitionId t p m ∨
      w = .setMetadata r.relationDefinitionId t p m)
    (hl : .item r.transcriptsDatabaseId t ∈ ls) (hk : speakerOf m = some k) :
    SoundTx r .commit ls (r.Writable t p k) [w] := by
  refine sound_commit_but hl (fun w' hw' t' hne => ?_) fun s hi hwritable => ?_
  · rw [List.mem_singleton.mp hw']
    rcases hw with rfl | rfl <;> exact .inr hne.symm
  · refine onePersonAt_written hwritable hk
      (SpeakersRelation.onePerson_iff.mp hi.onePerson t) ?_ ?_
    · rcases hw with rfl | rfl
      · exact fun e he => mem_upsertEdge he
      · exact fun e he => mem_updateItemRelationMetadata he
    · rcases hw with rfl | rfl
      · simp only [List.foldl_cons, List.foldl_nil, apply, upsertEdge]
        split <;> rfl
      · rfl

theorem stable_writable (hl : .item r.transcriptsDatabaseId t ∈ ls) :
    StableTx r ls (r.Writable t p k) :=
  stable_of_kept hl fun _ _ hkept h => h.kept hkept

theorem normalizeRelationSides_of_side {edgeContext : RelationEdgeContext} {pid caller target : ℕ}
    (h : edgeContext.reldef.propertyIdA = pid) :
    normalizeRelationSides edgeContext.reldef pid caller target = (caller, target) :=
  if_pos h

theorem sound_write_other {w : Write} (hw : ∀ t, w.Spares r t) :
    SoundTx r (write w .commit) ls (fun _ => True) [] :=
  sound_write ReadCommitted.stable_true <| sound_commit fun w' hw' t => by
    rw [List.mem_singleton.mp hw']
    exact hw t

theorem sound_createRelation (input : CreateRelationInput)
    (context : Option SystemRelationWriteContext) :
    SoundTx r (createRelation input context) [] (fun _ => True) [] := by
  refine sound_loadWritableEdge (fun edgeContext hd ls => ?_)
    fun edgeContext hd hside k ls hl hk => ?_
  · refine Sound.acquire <| sound_check ReadCommitted.stable_true fun _ _ _ _ _ => ?_
    exact sound_write_other fun t => .inl hd
  · have hl' := List.mem_cons_of_mem
      (Lock.edge edgeContext.reldef.id input.callerItemId input.targetItemId) hl
    simp only [normalizeRelationSides_of_side hside]
    refine Sound.acquire <| sound_check (stable_writable hl') fun _ _ _ _ _ => ?_
    refine sound_write (stable_writable hl') (sound_commit_edge (.inl ?_) hl' hk)
    rw [hd]

theorem sound_updateRelation (input : UpdateRelationInput)
    (context : Option SystemRelationWriteContext) :
    SoundTx r (updateRelation input context) [] (fun _ => True) [] := by
  refine sound_loadWritableEdge (fun edgeContext hd ls => ?_)
    fun edgeContext hd hside k ls hl hk => ?_
  · refine Sound.acquire <| sound_select ReadCommitted.stable_true fun s _ _ => ?_
    split_ifs
    · exact sound_write_other fun t => .inl hd
    · trivial
  · have hl' := List.mem_cons_of_mem
      (Lock.edge edgeContext.reldef.id input.callerItemId input.targetItemId) hl
    simp only [normalizeRelationSides_of_side hside]
    refine Sound.acquire <| sound_select (stable_writable hl') fun s _ _ => ?_
    split_ifs
    · refine sound_write (stable_writable hl') (sound_commit_edge (.inr ?_) hl' hk)
      rw [hd, Option.getD_some]
    · trivial

theorem sound_deleteRelation (input : DeleteRelationInput)
    (context : Option SystemRelationWriteContext) :
    SoundTx r (deleteRelation input context) [] (fun _ => True) [] :=
  sound_loadEdgeContext fun _ _ => Sound.acquire <| sound_write_other fun _ => trivial

/-! ### Items and relation properties -/

theorem sound_createItem (databaseId itemId : ℕ) (properties : JsonObject) (now : ℤ) :
    SoundTx r (createItem databaseId itemId properties now) [] (fun _ => True) [] :=
  sound_write_other fun _ => trivial

theorem sound_updateItem (databaseId itemId : ℕ) (patch : JsonObject) :
    SoundTx r (updateItem databaseId itemId patch) [] (fun _ => True) [] := by
  refine sound_lockItemById_any fun ls row => ?_
  rcases row with _ | row
  · trivial
  dsimp only
  split_ifs
  · trivial
  · exact sound_write_other fun _ => trivial

theorem sound_commit_nil : SoundTx r .commit ls (fun _ => True) [] :=
  sound_commit fun _ hw => absurd hw List.not_mem_nil

theorem sound_softDeleteItem (databaseId itemId : ℕ) (now : ℤ) :
    SoundTx r (softDeleteItem databaseId itemId now) [] (fun _ => True) [] := by
  refine sound_lockItemById_any fun ls row => ?_
  rcases row with _ | row
  · exact sound_commit_nil
  dsimp only
  split_ifs
  · exact sound_commit_nil
  · exact sound_write_other fun _ => trivial

theorem sound_restoreItem (databaseId itemId : ℕ) :
    SoundTx r (restoreItem databaseId itemId) [] (fun _ => True) [] := by
  refine sound_lockItemById_any fun ls row => ?_
  rcases row with _ | row
  · exact sound_commit_nil
  dsimp only
  split_ifs
  · exact sound_write_other fun _ => trivial
  · exact sound_commit_nil

theorem sound_purgeEdges (hl : .item r.transcriptsDatabaseId i ∈ ls) :
    SoundTx r (.statement (fun s => [.deleteEdges ((s.listAllRelationsForItem i).map (·.id))])
      fun _ => .commit) ls (fun _ => True) [.hardDeleteItem r.transcriptsDatabaseId i] := by
  intro s _ _
  have hlisted : ∀ e ∈ s.itemRelations, e.itemA = i →
      e.id ∈ (s.listAllRelationsForItem i).map (·.id) := by
    intro e he hA
    refine List.mem_map_of_mem ?_
    simp [Store.listAllRelationsForItem, he, hA]
  refine ⟨fun s' => ∀ e ∈ s'.itemRelations, e.relationDefinitionId = r.relationDefinitionId →
    e.itemA = i → e.id ∈ (s.listAllRelationsForItem i).map (·.id), ?_,
    fun e he _ hA => hlisted e he hA, ?_⟩
  · exact stable_of_kept hl fun s s' hkept h e he hd hA => h e (hkept.edges e he hd hA) hd hA
  · refine sound_commit_but hl ?_ fun s' _ hids => ?_
    · intro w hw t hne
      rcases List.mem_cons.mp hw with rfl | hw
      · exact .inr hne.symm
      · rw [List.mem_singleton.mp hw]
        trivial
    · refine SpeakersRelation.onePersonAt_of_not_mapped ?_
      rintro k p ⟨e, he, hd, hA, -⟩
      obtain ⟨hmem, hnot⟩ := List.mem_filter.mp he
      exact of_decide_eq_true hnot (hids e hmem hd hA)

theorem sound_purgeItem (databaseId itemId : ℕ) :
    SoundTx r (purgeItem databaseId itemId) [] (fun _ => True) [] := by
  have htrue : ∀ ls, StableTx r ls fun _ => True := fun _ => ReadCommitted.stable_true
  refine sound_lockItemById sound_commit_nil fun s _ => ⟨fun _ => True, htrue _, trivial, ?_⟩
  rcases (List.foldl apply s []).getItemById databaseId itemId with _ | row
  · exact sound_commit_nil
  dsimp only
  split_ifs
  · refine sound_write (htrue _) ?_
    by_cases hdatabase : databaseId = r.transcriptsDatabaseId
    · subst hdatabase
      exact sound_purgeEdges List.mem_cons_self
    · refine fun _ _ _ => ⟨fun _ => True, htrue _, trivial, sound_commit ?_⟩
      intro w hw t
      rcases List.mem_cons.mp hw with rfl | hw
      · exact .inl hdatabase
      · rw [List.mem_singleton.mp hw]
        trivial
  · exact sound_commit_nil

theorem not_mapped_of_no_segments (hi : Inv r s) {row : ItemRow}
    (hrow : s.getItemById r.transcriptsDatabaseId t = some row)
    (hsegments : row.computed.hasOwn segmentsComputedKey = false) : ¬ r.Mapped s t k p := by
  intro hmapped
  obtain ⟨row', hrow', speakers, hspeakers, hk⟩ := hi.onePerson.occurs t k p hmapped
  rw [hrow] at hrow'
  obtain rfl := Option.some.inj hrow'
  have hnone : row.computed.get? segmentsComputedKey = none := by
    simpa [JsonObject.hasOwn] using hsegments
  simp only [listSegmentSpeakers, hnone, Option.some.injEq] at hspeakers
  rw [← hspeakers] at hk
  exact absurd hk List.not_mem_nil

theorem sound_runMergeStep (databaseId transcriptId : ℕ) (segments language : Json) :
    SoundTx r (runMergeStep databaseId transcriptId segments language) [] (fun _ => True) [] := by
  by_cases hdatabase : databaseId = r.transcriptsDatabaseId
  · subst hdatabase
    refine sound_lockItemById trivial fun s hi => ?_
    rw [List.foldl_nil]
    rcases hrow : s.getItemById r.transcriptsDatabaseId transcriptId with _ | row
    · exact ⟨fun _ => True, ReadCommitted.stable_true, trivial, trivial⟩
    rcases hsegments : row.computed.hasOwn segmentsComputedKey
    · have hstable : StableTx r [.item r.transcriptsDatabaseId transcriptId]
          fun s => ∀ k p, ¬ r.Mapped s transcriptId k p :=
        stable_of_kept List.mem_cons_self fun s s' hkept h k p hm => h k p (hkept.mapped hm)
      refine ⟨_, hstable, fun k p => not_mapped_of_no_segments hi hrow hsegments, ?_⟩
      dsimp only
      rw [if_neg (by simp [hsegments])]
      refine sound_write hstable <| sound_write hstable <|
        sound_commit_but List.mem_cons_self ?_ fun s' _ hno =>
          SpeakersRelation.onePersonAt_of_not_mapped hno
      intro w hw t hne
      rcases List.mem_cons.mp hw with rfl | hw
      · exact .inr (.inr hne.symm)
      · rw [List.mem_singleton.mp hw]
        exact .inr (.inr hne.symm)
    · refine ⟨fun _ => True, ReadCommitted.stable_true, trivial, ?_⟩
      dsimp only
      rw [if_pos hsegments]
      exact sound_commit_nil
  · refine sound_lockItemById_any fun ls row => ?_
    rcases row with _ | row
    · trivial
    dsimp only
    split_ifs
    · exact sound_commit_nil
    · refine sound_write ReadCommitted.stable_true <| sound_write ReadCommitted.stable_true <|
        sound_commit ?_
      intro w hw t
      rcases List.mem_cons.mp hw with rfl | hw
      · exact .inr (.inl hdatabase)
      · rw [List.mem_singleton.mp hw]
        exact .inr (.inl hdatabase)

theorem sound_createRelationProperty (input : CreateRelationPropertyInput)
    (ids : RelationPropertyIds) :
    SoundTx r (createRelationProperty input ids) [] (fun _ => True) [] := by
  have htrue : StableTx r [] fun _ => True := ReadCommitted.stable_true
  refine sound_check htrue fun _ _ _ _ _ => sound_write htrue ?_
  rcases input.inverse with _ | side
  · refine sound_write htrue <| sound_commit ?_
    simp [Write.Spares]
  · refine sound_check htrue fun _ _ _ _ _ => ?_
    refine sound_write htrue <| sound_write htrue <| sound_commit ?_
    simp [Write.Spares]

end sound

theorem sound_transaction (op : Op) : SoundTx r (transaction op) [] (fun _ => True) [] := by
  rcases op with ⟨input, context⟩ | ⟨input, context⟩ | ⟨input, context⟩ | _ | _ | _ | _ | _ | _ | _
  · exact sound_createRelation input context
  · exact sound_updateRelation input context
  · exact sound_deleteRelation input context
  · exact sound_createItem _ _ _ _
  · exact sound_updateItem _ _ _
  · exact sound_softDeleteItem _ _ _
  · exact sound_restoreItem _ _
  · exact sound_purgeItem _ _
  · exact sound_runMergeStep _ _ _ _
  · exact sound_createRelationProperty _ _

/-- In every committed state each key of a transcript is mapped to one person at most, and is a key
of its segments. -/
theorem onePerson_of_reach (seed : Seeded) {s : Sys}
    (h : Reach step (fun _ _ => True) (Programs.init seed.store) s) :
    seed.relation.OnePerson s.db.committed := by
  have hnone : ∀ t k p, ¬ seed.relation.Mapped seed.store t k p := by
    rintro t k p ⟨e, he, hd, -⟩
    exact seed.no_edges e he hd
  have hseed : Inv seed.relation seed.store :=
    ⟨seed.inSchema, SpeakersRelation.onePerson_iff.mpr fun t =>
      SpeakersRelation.onePersonAt_of_not_mapped (hnone t)⟩
  have hinv := ReadCommitted.committed_of_reach Lock.conflicts_symm
    (fun _ _ _ hg hi => ⟨hg.schema hi.schema, hg.onePerson hi.schema hi.onePerson⟩)
    sound_transaction hseed h
  exact hinv.onePerson

def systemDatabase (id : ℕ) (ownerModuleId : String) : DatabaseRow where
  id := id
  key := none
  name := none
  parentItemId := none
  ownerProjectItemId := none
  ownerModuleId := some ownerModuleId
  schemaLocked := true
  system := true
  archivedAt := none

def oneSpeaker : Seeded where
  relation := ⟨0, 0, 0⟩
  store := { Store.empty with
    databases := [systemDatabase 0 transcriptsModuleId, systemDatabase 1 "people"]
    properties := [sidePropertyRow 0 0 0 1 ⟨speakersPropertyKey, none, .user, none, false⟩]
    relationDefinitions := [⟨0, 0, none, .many_to_many⟩]
    items := [
      ⟨0, 0, [], [(segmentsComputedKey, .arr [.obj [("speaker", .str "SPEAKER_00")]])], 0, none⟩,
      ⟨1, 1, [], [], 0, none⟩, ⟨2, 1, [], [], 0, none⟩] }
  inSchema := ⟨⟨_, rfl, rfl⟩, ⟨_, rfl, rfl, rfl⟩, ⟨_, rfl, rfl, rfl⟩⟩
  no_edges := fun _ he => absurd he List.not_mem_nil

def mapTo (personId : ℕ) : Op :=
  .createRelation ⟨0, 0, personId, some [("speaker", .str "SPEAKER_00")]⟩ none

/-- Both writes are past their checks when the first takes the transcript's row; the second waits
for it, and finds the first one's edge. -/
def bothMapTheSpeaker : List Act :=
  ([.begin 0 (mapTo 1), .begin 1 (mapTo 2)] : List Act) ++ List.replicate 8 (.run 0 : Act) ++
    List.replicate 8 (.run 1 : Act) ++ List.replicate 7 (.run 0 : Act) ++
    List.replicate 4 (.run 1 : Act)

theorem bothMapTheSpeaker_onePerson : ∃ s,
    runActs step (Programs.init oneSpeaker.store) bothMapTheSpeaker = some s ∧
    s.db.opened = ∅ ∧
    s.db.committed.itemRelations.map (fun e => (e.itemA, e.itemB)) = [(0, 1)] ∧
    oneSpeaker.relation.OnePerson s.db.committed := by
  obtain ⟨s, hs⟩ := Option.isSome_iff_exists.mp (show
    (runActs step (Programs.init oneSpeaker.store) bothMapTheSpeaker).isSome = true by
      decide +kernel)
  exact ⟨s, hs, eq_of_map_eq (f := fun s => s.db.opened) hs (by decide +kernel),
    eq_of_map_eq (f := fun s => s.db.committed.itemRelations.map fun e => (e.itemA, e.itemB)) hs
      (by decide +kernel),
    onePerson_of_reach oneSpeaker (.of_runActs hs)⟩

end SpeakerEdges

end Semprec
