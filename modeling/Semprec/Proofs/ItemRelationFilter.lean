import Semprec.ItemRelationFilter

/-!
# When the relation filter sees every related item

The query finds the related items in the database on the other side of the definition
(`mem_query`), which for a one-directional definition is none.
-/

namespace Semprec

namespace ItemRelationFilter

variable {pg : Postgres} {s : Store} {relationPropertyId itemId : ℕ} {property value : String}
  {filter : ItemRelationFilterConfig} {r : ItemRelationRow} {rd : RelationDefinitionRow}
  {related : ItemRow}

/-- The other end of an edge is the item that the edge joins. -/
theorem otherItemId_eq_iff : (r.itemA = itemId ∨ r.itemB = itemId) ∧
    otherItemId r itemId = related.id ↔
      r.itemA = itemId ∧ r.itemB = related.id ∨ r.itemB = itemId ∧ r.itemA = related.id := by
  unfold otherItemId
  split_ifs with ha
  · constructor
    · exact fun h => .inl ⟨ha, h.2⟩
    · rintro (⟨-, hb⟩ | ⟨hb, hra⟩)
      · exact ⟨.inl ha, hb⟩
      · exact ⟨.inl ha, hb.trans (ha.symm.trans hra)⟩
  · simp [ha]

theorem mem_query : some value ∈ ITEM_RELATION_FILTER_QUERY pg s relationPropertyId property itemId ↔
    ∃ rd related, JoinedBy s relationPropertyId itemId rd related ∧
      OnOtherSide s relationPropertyId rd related ∧ textAt pg related property = some value := by
  simp only [ITEM_RELATION_FILTER_QUERY, List.mem_flatMap, List.mem_filter, List.mem_map,
    decide_eq_true_eq, ItemRow.isAt]
  constructor
  · rintro ⟨rd, ⟨hrd, hp⟩, op, ⟨hop, hother⟩, r, ⟨hr, hrdid, hside⟩, related,
      ⟨hrelated, ⟨hdb, hid⟩, hlive⟩, htext⟩
    exact ⟨rd, related, ⟨hrd, hp, hrelated, hlive, r, hr, hrdid,
      otherItemId_eq_iff.mp ⟨hside, hid.symm⟩⟩, ⟨op, hop, hother.symm, hdb⟩, htext⟩
  · rintro ⟨rd, related, ⟨hrd, hp, hrelated, hlive, r, hr, hrdid, hends⟩, ⟨op, hop, hother, hdb⟩,
      htext⟩
    obtain ⟨hside, hid⟩ := otherItemId_eq_iff.mpr hends
    exact ⟨rd, ⟨hrd, hp⟩, op, ⟨hop, hother.symm⟩, r, ⟨hr, hrdid, hside⟩, related,
      ⟨hrelated, ⟨hdb, hid.symm⟩, hlive⟩, htext⟩

theorem passes_iff : passesItemRelationFilter pg s itemId filter = true ↔
    (filter.include_ = [] ∨ ∃ value ∈ filter.include_, some value ∈
      ITEM_RELATION_FILTER_QUERY pg s filter.relationPropertyId filter.property itemId) ∧
    ¬∃ value ∈ filter.exclude, some value ∈
      ITEM_RELATION_FILTER_QUERY pg s filter.relationPropertyId filter.property itemId := by
  simp only [passesItemRelationFilter, Bool.and_eq_true, Bool.or_eq_true, List.isEmpty_iff,
    List.any_eq_true, List.mem_filterMap, id_eq, decide_eq_true_eq, Bool.not_eq_true',
    List.any_eq_false, exists_eq_right]
  refine and_congr (or_congr .rfl (exists_congr fun _ => and_comm)) ?_
  exact ⟨fun h ⟨value, hex, hmem⟩ => h value hmem hex, fun h value hmem hex => h ⟨value, hex, hmem⟩⟩

/-- The filter, whatever it includes and excludes, goes by the related items of the item if and only
if each of their values is also that of one in the database on the other side. -/
theorem passes_iff_names :
    (∀ include_ exclude,
      passesItemRelationFilter pg s itemId ⟨relationPropertyId, property, include_, exclude⟩ = true ↔
        Names pg s itemId ⟨relationPropertyId, property, include_, exclude⟩) ↔
      ValuesOnOtherSide pg s relationPropertyId property itemId := by
  constructor
  · intro h value hvalue
    -- the filter that includes just the value
    have hpasses := (h [value] []).mpr
      ⟨.inr ⟨value, List.mem_singleton_self _, hvalue⟩, by simp⟩
    rw [passes_iff] at hpasses
    obtain ⟨value', hmem, hquery⟩ := hpasses.1.resolve_left (List.cons_ne_nil _ _)
    rw [List.mem_singleton.mp hmem] at hquery
    exact mem_query.mp hquery
  · intro h include_ exclude
    have hvalue : ∀ value, some value ∈
        ITEM_RELATION_FILTER_QUERY pg s relationPropertyId property itemId ↔
          RelatedValue pg s relationPropertyId property itemId value := by
      refine fun value => ⟨fun hquery => ?_, fun hvalue => mem_query.mpr (h value hvalue)⟩
      obtain ⟨rd, related, hjoined, -, htext⟩ := mem_query.mp hquery
      exact ⟨rd, related, hjoined, htext⟩
    rw [passes_iff]
    simp only [Names, hvalue]

def oneDirectional : Store :=
  { Store.empty with
    properties := [⟨10, 1, "folder", none, .relation,
      { PropertyConfig.empty with relationDefinitionId := some 1, targetDatabaseId := some 2 },
      false, .user, none, .stable⟩]
    relationDefinitions := [⟨1, 10, none, .many_to_many⟩]
    items := [⟨100, 1, [], [], 0, none⟩, ⟨200, 2, [("specialPurpose", .str "inbox")], [], 0, none⟩]
    itemRelations := [⟨1, 1, 100, 200, []⟩] }

/-- It is not found to be in the inbox. -/
theorem oneDirectional_not_found : ¬∀ (pg : Postgres) (s : Store) (itemId : ℕ)
    (filter : ItemRelationFilterConfig),
    passesItemRelationFilter pg s itemId filter = true ↔ Names pg s itemId filter := by
  intro h
  let pg : Postgres := ⟨fun _ => none, fun _ => none, fun _ => none, fun _ => .nan,
    fun _ _ => .null, fun _ => .null, fun _ => "", fun _ => false⟩
  have hnames : Names pg oneDirectional 100 ⟨10, "specialPurpose", ["inbox"], ["junk"]⟩ := by
    refine ⟨.inr ⟨"inbox", List.mem_singleton_self _, ⟨1, 10, none, .many_to_many⟩,
      ⟨200, 2, [("specialPurpose", .str "inbox")], [], 0, none⟩, ?_, rfl⟩, ?_⟩
    · exact ⟨List.mem_singleton_self _, .inl rfl, by simp [oneDirectional], rfl,
        ⟨1, 1, 100, 200, []⟩, List.mem_singleton_self _, rfl, .inl ⟨rfl, rfl⟩⟩
    · rintro ⟨value, hvalue, rd, related, ⟨-, -, hrelated, -, -⟩, htext⟩
      obtain rfl := List.mem_singleton.mp hvalue
      rcases List.mem_cons.mp hrelated with rfl | hrelated
      · simp [textAt, JsonObject.get?] at htext
      · obtain rfl := List.mem_singleton.mp hrelated
        exact absurd htext (by decide)
  exact absurd ((h pg oneDirectional 100 _).mpr hnames) (by decide)

end ItemRelationFilter

end Semprec
