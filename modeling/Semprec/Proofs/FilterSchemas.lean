import Mathlib.Data.List.Forall2
import Mathlib.Data.List.Nodup
import Mathlib.Tactic.Tauto
import Semprec.FilterSchemas

/-!
# What the two schemas of a filter have in common

Both schemas read a filter into the same tree.  The data layer's puts no bound on the tree and
ignores the keys it does not name; the request's accepts what it accepts, with that tree, when there
are no such keys and the tree keeps within the limits (`filterNodeSchema_iff`).
-/

namespace Semprec

namespace FilterSchemas

variable {α τ : Type} {uuid : String → Bool} {strict : Bool} {v : Json}
  {keys : List String} {types : List (String × τ)}

/-! ## Objects of a type -/

def HasType (tags : List String) (v : Json) : Prop :=
  ∃ (fields : JsonObject) (tag : String), v = .obj fields ∧
    fields.get? "type" = some (.str tag) ∧ tag ∈ tags

theorem field_string {fields : JsonObject} {key s : String} :
    field fields key string = some s ↔ fields.get? key = some (.str s) := by
  rw [field, Option.bind_eq_some_iff]
  constructor
  · rintro ⟨v, hv, hs⟩
    cases v with
    | str s' => exact hv.trans (congrArg (some ∘ Json.str) (Option.some.inj hs))
    | _ => cases hs
  · exact fun h => ⟨_, h, rfl⟩

theorem object_eq_some {read : JsonObject → Option α} {a : α} :
    object strict keys read v = some a ↔
      ∃ fields, v = .obj fields ∧ (strict = true → HasOnly keys fields) ∧ read fields = some a := by
  cases v with
  | obj fields =>
    simp only [object, Json.obj.injEq, exists_eq_left', Option.ite_none_left_eq_some, not_and,
      not_not]
  | _ => simp [object]

theorem typed_eq_some {read : τ → JsonObject → Option α} {a : α} :
    typed strict types keys read v = some a ↔
      ∃ (fields : JsonObject) (tag : String) (t : τ), v = .obj fields ∧
        (strict = true → HasOnly ("type" :: keys) fields) ∧
        fields.get? "type" = some (.str tag) ∧ types.lookup tag = some t ∧
        read t fields = some a := by
  simp only [typed, object_eq_some, Option.bind_eq_some_iff, field_string]
  constructor
  · rintro ⟨fields, hv, honly, tag, htag, t, ht, hread⟩
    exact ⟨fields, tag, t, hv, honly, htag, ht, hread⟩
  · rintro ⟨fields, tag, t, hv, honly, htag, ht, hread⟩
    exact ⟨fields, hv, honly, tag, htag, t, ht, hread⟩

theorem mem_of_lookup {tag : String} {t : τ} : ∀ {types : List (String × τ)},
    types.lookup tag = some t → tag ∈ types.map Prod.fst
  | (k, u) :: types, h => by
    rw [List.lookup_cons] at h
    rw [List.map_cons, List.mem_cons]
    by_cases hk : tag = k
    · exact .inl hk
    · rw [beq_eq_false_iff_ne.mpr hk] at h
      exact .inr (mem_of_lookup h)

theorem hasType_of_typed {read : τ → JsonObject → Option α} {a : α}
    (h : typed strict types keys read v = some a) : HasType (types.map Prod.fst) v := by
  obtain ⟨fields, tag, t, hv, -, htag, ht, -⟩ := typed_eq_some.mp h
  exact ⟨fields, tag, hv, htag, mem_of_lookup ht⟩

theorem HasType.not_of_disjoint {tags tags' : List String} (h : HasType tags v)
    (hdisjoint : ∀ tag ∈ tags, tag ∉ tags') : ¬HasType tags' v := by
  obtain ⟨fields, tag, rfl, htag, hmem⟩ := h
  rintro ⟨fields', tag', hv, htag', hmem'⟩
  obtain rfl := Json.obj.inj hv
  obtain rfl := Json.str.inj (Option.some.inj (htag.symm.trans htag'))
  exact hdisjoint tag hmem hmem'

/-! ## Unions -/

theorem union_cons {option : Schema α} {options : List (Schema α)} :
    union (option :: options) v = (option v).or (union options v) := by
  rw [union, List.findSome?_cons]
  cases option v <;> rfl

/-- No two of the options accept the value. -/
def Exclusive (v : Json) (options : List (Schema α)) : Prop :=
  options.Pairwise fun option option' => ∀ a, option v = some a → option' v = none

theorem Exclusive.union_eq_some : ∀ {options : List (Schema α)}, Exclusive v options → ∀ {a : α},
    (union options v = some a ↔ ∃ option ∈ options, option v = some a)
  | [], _, a => by simp [union]
  | option :: options, h, a => by
    obtain ⟨hfirst, h⟩ := List.pairwise_cons.mp h
    rw [union_cons, Option.or_eq_some_iff, Exclusive.union_eq_some h]
    constructor
    · rintro (ha | ⟨-, option', hmem, ha⟩)
      · exact ⟨option, List.mem_cons_self, ha⟩
      · exact ⟨option', List.mem_cons_of_mem _ hmem, ha⟩
    · rintro ⟨option', hmem, ha⟩
      rcases List.mem_cons.mp hmem with rfl | hmem
      · exact .inl ha
      · refine .inr ⟨Option.eq_none_iff_forall_ne_some.mpr fun b hb => ?_, option', hmem, ha⟩
        exact nomatch (hfirst option' hmem b hb).symm.trans ha

theorem union_strict {P : α → Prop} {options : List (Bool → Schema α)}
    (hstrict : ∀ option ∈ options, ∀ a, option true v = some a ↔ option false v = some a ∧ P a)
    (h : Exclusive v (options.map fun option => option false)) (a : α) :
    union (options.map fun option => option true) v = some a ↔
      union (options.map fun option => option false) v = some a ∧ P a := by
  have htrue : Exclusive v (options.map fun option => option true) := by
    refine List.pairwise_map.mpr ((List.pairwise_map.mp h).imp_of_mem fun ho ho' hpair a ha => ?_)
    refine Option.eq_none_iff_forall_ne_some.mpr fun b hb => ?_
    exact nomatch (hpair a ((hstrict _ ho a).mp ha).1).symm.trans ((hstrict _ ho' b).mp hb).1
  rw [htrue.union_eq_some, h.union_eq_some]
  simp only [List.mem_map, exists_exists_and_eq_and]
  constructor
  · rintro ⟨option, hmem, ha⟩
    obtain ⟨hfalse, hP⟩ := (hstrict option hmem a).mp ha
    exact ⟨⟨option, hmem, hfalse⟩, hP⟩
  · rintro ⟨⟨option, hmem, ha⟩, hP⟩
    exact ⟨option, hmem, (hstrict option hmem a).mpr ⟨ha, hP⟩⟩

theorem exists_mem_of_forall₂ {β γ : Type} {R : β → γ → Prop} {bs : List β} {cs : List γ} {b : β}
    (h : List.Forall₂ R bs cs) (hb : b ∈ bs) : ∃ c ∈ cs, R b c := by
  induction h with
  | nil => cases hb
  | cons hR _ ih =>
    rcases List.mem_cons.mp hb with rfl | hb
    · exact ⟨_, List.mem_cons_self, hR⟩
    · obtain ⟨c, hc, hR⟩ := ih hb
      exact ⟨c, List.mem_cons_of_mem _ hc, hR⟩

theorem exclusive_of_types {options : List (Schema α)} {tagss : List (List String)}
    (h : List.Forall₂ (fun option tags => ∀ a, option v = some a → HasType tags v) options tagss)
    (hdisjoint : tagss.Pairwise fun tags tags' => ∀ tag ∈ tags, tag ∉ tags') :
    Exclusive v options := by
  induction h with
  | nil => exact .nil
  | @cons option tags options tagss hoption hrest ih =>
    obtain ⟨hfirst, hdisjoint⟩ := List.pairwise_cons.mp hdisjoint
    refine List.pairwise_cons.mpr ⟨fun option' hoption' a ha => ?_, ih hdisjoint⟩
    obtain ⟨tags', htags', htype⟩ := exists_mem_of_forall₂ hrest hoption'
    refine Option.eq_none_iff_forall_ne_some.mpr fun b hb => ?_
    exact (hoption a ha).not_of_disjoint (hfirst tags' htags') (htype b hb)

/-! ## Conditions -/

def HasConditionKeys (v : Json) (c : FilterCondition) : Prop :=
  ∃ fields, v = .obj fields ∧ c.HasOnlyKeys fields

theorem typed_strict {read : τ → JsonObject → Option FilterCondition}
    (hkeys : ∀ t fields c, read t fields = some c →
      (c.HasOnlyKeys fields ↔ HasOnly ("type" :: keys) fields)) (c : FilterCondition) :
    typed true types keys read v = some c ↔
      typed false types keys read v = some c ∧ HasConditionKeys v c := by
  simp only [typed_eq_some, HasConditionKeys]
  constructor
  · rintro ⟨fields, tag, t, rfl, honly, htag, ht, hread⟩
    exact ⟨⟨fields, tag, t, rfl, nofun, htag, ht, hread⟩, fields, rfl,
      (hkeys t fields c hread).mpr (honly trivial)⟩
  · rintro ⟨⟨fields, tag, t, rfl, -, htag, ht, hread⟩, fields', hv, honly⟩
    obtain rfl := Json.obj.inj hv
    exact ⟨fields, tag, t, rfl, fun _ => (hkeys t fields c hread).mp honly, htag, ht, hread⟩

theorem range_strict {fields : JsonObject} {r : String × String} :
    field fields "value" (range true) = some r ↔ field fields "value" (range false) = some r ∧
      ∀ range, fields.get? "value" = some (.obj range) → HasOnly ["from", "to"] range := by
  simp only [field, Option.bind_eq_some_iff, range, object_eq_some]
  constructor
  · rintro ⟨_, hvalue, value, rfl, honly, hread⟩
    refine ⟨⟨_, hvalue, value, rfl, nofun, hread⟩, fun value' hvalue' => ?_⟩
    obtain rfl := Json.obj.inj (Option.some.inj (hvalue.symm.trans hvalue'))
    exact honly trivial
  · rintro ⟨⟨_, hvalue, value, rfl, -, hread⟩, honly⟩
    exact ⟨_, hvalue, value, rfl, fun _ => honly value hvalue, hread⟩

theorem dateRange_strict (c : FilterCondition) :
    dateRange true v = some c ↔ dateRange false v = some c ∧ HasConditionKeys v c := by
  simp only [dateRange, typed_eq_some, HasConditionKeys, Option.bind_eq_bind,
    Option.bind_eq_some_iff, Option.pure_def, Option.some.injEq, range_strict]
  constructor
  · rintro ⟨fields, tag, t, rfl, honly, htag, ht, property, hproperty, r, ⟨hr, hkeys⟩, rfl⟩
    exact ⟨⟨fields, tag, t, rfl, nofun, htag, ht, property, hproperty, r, hr, rfl⟩, fields, rfl,
      honly trivial, hkeys⟩
  · rintro ⟨⟨fields, tag, t, rfl, -, htag, ht, property, hproperty, r, hr, rfl⟩, fields', hv,
      honly, hkeys⟩
    obtain rfl := Json.obj.inj hv
    exact ⟨fields, tag, t, rfl, fun _ => honly, htag, ht, property, hproperty, r, ⟨hr, hkeys⟩, rfl⟩

def conditionOptions (uuid : String → Bool) : List (Bool → Schema FilterCondition) :=
  [equality, text, empty, date, dateRange, in_, relation uuid, fun _ => relationPath uuid]

def conditionTypes : List (List String) :=
  [["equals", "not_equals"], ["contains", "not_contains", "starts_with", "ends_with"],
    ["is_empty", "is_not_empty"], ["before", "after", "on_or_before", "on_or_after"],
    ["date_range"], ["in"], ["relation_contains", "relation_not_contains"],
    ["relation_path_contains"]]

theorem hasType_conditionOptions (strict : Bool) : List.Forall₂
    (fun option tags => ∀ c, option strict v = some c → HasType tags v) (conditionOptions uuid)
      conditionTypes := by
  refine .cons ?_ <| .cons ?_ <| .cons ?_ <| .cons ?_ <| .cons ?_ <| .cons ?_ <| .cons ?_ <|
    .cons ?_ .nil
  all_goals exact fun c h => hasType_of_typed h

theorem conditions_strict (c : FilterCondition) :
    conditions uuid true v = some c ↔
      conditions uuid false v = some c ∧ HasConditionKeys v c := by
  refine union_strict (?_ : ∀ option ∈ conditionOptions uuid, _)
    (exclusive_of_types (List.forall₂_map_left_iff.mpr (hasType_conditionOptions false))
      (by decide)) c
  simp only [conditionOptions, List.forall_mem_cons]
  refine ⟨typed_strict fun t fields c h => ?_, typed_strict fun t fields c h => ?_,
    typed_strict fun t fields c h => ?_, typed_strict fun t fields c h => ?_, dateRange_strict,
    typed_strict fun t fields c h => ?_, typed_strict fun t fields c h => ?_, fun c => ?_, nofun⟩
  case refine_3 =>
    obtain ⟨property, -, h⟩ := Option.bind_eq_some_iff.mp h
    cases h
    exact Iff.rfl
  case refine_7 =>
    refine (and_iff_left_of_imp fun h => ?_).symm
    obtain ⟨fields, tag, t, hv, honly, -, -, h⟩ := typed_eq_some.mp h
    obtain ⟨path, -, h⟩ := Option.bind_eq_some_iff.mp h
    obtain ⟨value, -, h⟩ := Option.bind_eq_some_iff.mp h
    cases h
    exact ⟨fields, hv, honly rfl⟩
  all_goals
    obtain ⟨property, -, h⟩ := Option.bind_eq_some_iff.mp h
    obtain ⟨value, -, h⟩ := Option.bind_eq_some_iff.mp h
    cases h
    exact Iff.rfl

/-- A condition's `type` is none of the other nodes'. -/
theorem hasType_conditions {c : FilterCondition} (h : conditions uuid strict v = some c) :
    HasType conditionTypes.flatten v := by
  obtain ⟨option, hoption, hc⟩ := List.exists_of_findSome?_eq_some h
  obtain ⟨option', hoption', rfl⟩ : ∃ option' ∈ conditionOptions uuid, option' strict = option :=
    List.mem_map.mp hoption
  obtain ⟨tags, htags, htype⟩ :=
    exists_mem_of_forall₂ (hasType_conditionOptions (v := v) strict) hoption'
  obtain ⟨fields, tag, hv, htag, hmem⟩ := htype c hc
  exact ⟨fields, tag, hv, htag, List.mem_flatten_of_mem htags hmem⟩

/-! ## Nodes -/

section nodes

variable {max : Option ℕ} {child child' : Schema FilterNode}

theorem mapM_eq_some_iff {β : Type} {f : α → Option β} : ∀ {as : List α} {bs : List β},
    as.mapM f = some bs ↔ List.Forall₂ (fun a b => f a = some b) as bs
  | [], [] => iff_of_true rfl .nil
  | [], b :: bs => iff_of_false nofun nofun
  | a :: as, bs => by
    rw [List.mapM_cons, List.forall₂_cons_left_iff]
    simp only [Option.bind_eq_bind, Option.bind_eq_some_iff, Option.pure_def, Option.some.injEq,
      mapM_eq_some_iff]
    constructor
    · rintro ⟨b, hb, bs, hbs, rfl⟩
      exact ⟨b, bs, hb, hbs, rfl⟩
    · rintro ⟨b, bs, hb, hbs, rfl⟩
      exact ⟨b, hb, bs, hbs, rfl⟩

def GroupType.tag : GroupType → String
  | .and => "and"
  | .or => "or"

def IsGroup (strict : Bool) (max : Option ℕ) (t : GroupType) (vs : List Json) (v : Json) : Prop :=
  ∃ fields : JsonObject, v = .obj fields ∧ (strict = true → HasOnly ["type", "nodes"] fields) ∧
    fields.get? "type" = some (.str t.tag) ∧ fields.get? "nodes" = some (.arr vs) ∧ vs ≠ [] ∧
    ∀ bound ∈ max, vs.length ≤ bound

def IsNegation (strict : Bool) (w v : Json) : Prop :=
  ∃ fields : JsonObject, v = .obj fields ∧ (strict = true → HasOnly ["type", "node"] fields) ∧
    fields.get? "type" = some (.str "not") ∧ fields.get? "node" = some w

theorem array_eq_some {w : Json} {ns : List FilterNode} :
    array max child w = some ns ↔ ∃ vs, w = .arr vs ∧ vs ≠ [] ∧ (∀ bound ∈ max, vs.length ≤ bound) ∧
      List.Forall₂ (fun v n => child v = some n) vs ns := by
  cases w with
  | arr vs =>
    simp only [array, Json.arr.injEq, exists_eq_left', Option.ite_none_left_eq_some, not_or,
      not_exists, not_and, Nat.not_lt, mapM_eq_some_iff, and_assoc, Ne]
  | _ => simp [array]

theorem lookup_singleton {key tag : String} {t u : τ} :
    [(key, t)].lookup tag = some u ↔ tag = key ∧ t = u := by
  rw [List.lookup_cons]
  by_cases h : tag = key
  · simp [h]
  · simp [h, beq_eq_false_iff_ne.mpr h]

theorem group_eq_some {t : GroupType} {n : FilterNode} :
    group strict max (t.tag, t) child v = some n ↔
      ∃ vs ns, IsGroup strict max t vs v ∧ List.Forall₂ (fun v n => child v = some n) vs ns ∧
        n = .group t ns := by
  simp only [group, typed_eq_some, lookup_singleton, Option.map_eq_some_iff, field,
    Option.bind_eq_some_iff, array_eq_some, IsGroup]
  constructor
  · rintro ⟨fields, tag, u, rfl, honly, htag, ⟨rfl, rfl⟩, ns,
      ⟨_, hnodes, vs, rfl, hne, hmax, hall⟩, rfl⟩
    exact ⟨vs, ns, ⟨fields, rfl, honly, htag, hnodes, hne, hmax⟩, hall, rfl⟩
  · rintro ⟨vs, ns, ⟨fields, rfl, honly, htag, hnodes, hne, hmax⟩, hall, rfl⟩
    exact ⟨fields, _, t, rfl, honly, htag, ⟨rfl, rfl⟩, ns, ⟨_, hnodes, vs, rfl, hne, hmax, hall⟩,
      rfl⟩

theorem negation_eq_some {n : FilterNode} :
    negation strict child v = some n ↔
      ∃ w m, IsNegation strict w v ∧ child w = some m ∧ n = .not m := by
  simp only [negation, typed_eq_some, lookup_singleton, Option.map_eq_some_iff, field,
    Option.bind_eq_some_iff, IsNegation]
  constructor
  · rintro ⟨fields, tag, u, rfl, honly, htag, ⟨rfl, -⟩, m, ⟨w, hnode, hm⟩, rfl⟩
    exact ⟨w, m, ⟨fields, rfl, honly, htag, hnode⟩, hm, rfl⟩
  · rintro ⟨w, m, ⟨fields, rfl, honly, htag, hnode⟩, hm, rfl⟩
    exact ⟨fields, _, (), rfl, honly, htag, ⟨rfl, trivial⟩, m, ⟨w, hnode, hm⟩, rfl⟩

theorem nodes_eq_some {n : FilterNode} :
    nodes uuid strict max child v = some n ↔
      (∃ c, conditions uuid strict v = some c ∧ n = .condition c) ∨
      (∃ t vs ns, IsGroup strict max t vs v ∧
        List.Forall₂ (fun v n => child v = some n) vs ns ∧ n = .group t ns) ∨
      ∃ w m, IsNegation strict w v ∧ child w = some m ∧ n = .not m := by
  have hexclusive : Exclusive v [fun v => (conditions uuid strict v).map .condition,
      group strict max ("and", .and) child, group strict max ("or", .or) child,
      negation strict child] := by
    refine exclusive_of_types
      (?_ : List.Forall₂ _ _ [conditionTypes.flatten, ["and"], ["or"], ["not"]]) (by decide)
    refine (.cons (fun n h => ?_) <| .cons (fun n h => hasType_of_typed h) <|
        .cons (fun n h => hasType_of_typed h) <| .cons (fun n h => hasType_of_typed h) .nil)
    obtain ⟨c, hc, -⟩ := Option.map_eq_some_iff.mp h
    exact hasType_conditions hc
  have hand : group strict max ("and", .and) child v = some n ↔ _ :=
    group_eq_some (t := .and)
  have hor : group strict max ("or", .or) child v = some n ↔ _ := group_eq_some (t := .or)
  rw [nodes, hexclusive.union_eq_some]
  simp only [List.exists_mem_cons_iff, List.not_mem_nil, false_and, exists_false, or_false, hand,
    hor, negation_eq_some, Option.map_eq_some_iff]
  constructor
  · rintro (⟨c, hc, rfl⟩ | h | h | h)
    · exact .inl ⟨c, hc, rfl⟩
    · exact .inr (.inl ⟨.and, h⟩)
    · exact .inr (.inl ⟨.or, h⟩)
    · exact .inr (.inr h)
  · rintro (⟨c, hc, rfl⟩ | ⟨_ | _, h⟩ | h)
    · exact .inl ⟨c, hc, rfl⟩
    · exact .inr (.inl h)
    · exact .inr (.inr (.inl h))
    · exact .inr (.inr (.inr h))

theorem nodes_condition {c : FilterCondition} :
    nodes uuid strict max child v = some (.condition c) ↔ conditions uuid strict v = some c := by
  rw [nodes_eq_some]
  constructor
  · rintro (⟨c', hc, heq⟩ | ⟨t, vs, ns, -, -, heq⟩ | ⟨w, m, -, -, heq⟩)
    · cases heq
      exact hc
    · cases heq
    · cases heq
  · exact fun h => .inl ⟨c, h, rfl⟩

theorem nodes_group {t : GroupType} {ns : List FilterNode} :
    nodes uuid strict max child v = some (.group t ns) ↔
      ∃ vs, IsGroup strict max t vs v ∧ List.Forall₂ (fun v n => child v = some n) vs ns := by
  rw [nodes_eq_some]
  constructor
  · rintro (⟨c, -, heq⟩ | ⟨t', vs, ns', hv, hall, heq⟩ | ⟨w, m, -, -, heq⟩)
    · cases heq
    · cases heq
      exact ⟨vs, hv, hall⟩
    · cases heq
  · exact fun ⟨vs, hv, hall⟩ => .inr (.inl ⟨t, vs, ns, hv, hall, rfl⟩)

theorem nodes_not {m : FilterNode} :
    nodes uuid strict max child v = some (.not m) ↔
      ∃ w, IsNegation strict w v ∧ child w = some m := by
  rw [nodes_eq_some]
  constructor
  · rintro (⟨c, -, heq⟩ | ⟨t, vs, ns, -, -, heq⟩ | ⟨w, m', hv, hm, heq⟩)
    · cases heq
    · cases heq
    · cases heq
      exact ⟨w, hv, hm⟩
  · exact fun ⟨w, hv, hm⟩ => .inr (.inr ⟨w, m, hv, hm, rfl⟩)

end nodes

/-! ## The schema of the data layer -/

namespace Data

theorem depth_le_elements {vs : List Json} (h : v ∈ vs) : depth v ≤ depthOfElements vs := by
  induction vs with
  | nil => cases h
  | cons w vs ih =>
    rw [depthOfElements]
    rcases List.mem_cons.mp h with rfl | h
    · exact Nat.le_max_left _ _
    · exact Nat.le_trans (ih h) (Nat.le_max_right _ _)

theorem depth_lt_of_get? {fields : JsonObject} {key : String}
    (h : fields.get? key = some v) : depth v < depth (.obj fields) := by
  rw [depth, Nat.lt_succ_iff]
  induction fields with
  | nil => cases h
  | cons f fields ih =>
    rw [depthOfFields]
    rw [JsonObject.get?, List.lookup_cons] at h
    split at h
    · cases h
      exact Nat.le_max_left _ _
    · exact Nat.le_trans (ih h) (Nat.le_max_right _ _)

theorem depth_lt_of_isGroup {max : Option ℕ} {t : GroupType} {vs : List Json} {w : Json}
    (h : IsGroup strict max t vs w) (hv : v ∈ vs) : depth v < depth w := by
  obtain ⟨fields, rfl, -, -, hnodes, -⟩ := h
  have hlt := depth_lt_of_get? hnodes
  have hle := depth_le_elements hv
  rw [depth] at hlt
  omega

theorem depth_lt_of_isNegation {w : Json} (h : IsNegation strict v w) : depth v < depth w := by
  obtain ⟨fields, rfl, -, -, hnode⟩ := h
  exact depth_lt_of_get? hnode

theorem mapM_congr {child child' : Schema FilterNode} : ∀ {vs : List Json},
    (∀ v ∈ vs, child v = child' v) → vs.mapM child = vs.mapM child'
  | [], _ => rfl
  | v :: vs, h => by
    rw [List.mapM_cons, List.mapM_cons, h v List.mem_cons_self,
      mapM_congr fun w hw => h w (List.mem_cons_of_mem _ hw)]

/-- Only the values nested in it are read with `child`. -/
theorem nodes_congr {max : Option ℕ} {child child' : Schema FilterNode}
    (h : ∀ w, depth w < depth v → child w = child' w) :
    nodes uuid strict max child v = nodes uuid strict max child' v := by
  refine Option.ext fun n => ?_
  cases n with
  | condition c => rw [nodes_condition, nodes_condition]
  | group t ns =>
    rw [nodes_group, nodes_group]
    refine exists_congr fun vs => and_congr_right fun hv => ?_
    rw [← mapM_eq_some_iff, ← mapM_eq_some_iff,
      mapM_congr fun w hw => h w (depth_lt_of_isGroup hv hw)]
  | not m =>
    rw [nodes_not, nodes_not]
    refine exists_congr fun w => and_congr_right fun hv => ?_
    rw [h w (depth_lt_of_isNegation hv)]

theorem filterNodeSchema_eq : ∀ {fuel fuel' : ℕ} {v : Json}, depth v < fuel → depth v < fuel' →
    filterNodeSchema uuid fuel v = filterNodeSchema uuid fuel' v
  | fuel + 1, fuel' + 1, v, h, h' => by
    rw [filterNodeSchema, filterNodeSchema]
    exact nodes_congr fun w hw => filterNodeSchema_eq (by omega) (by omega)

/-- The schema, referring to itself. -/
theorem parseFilterNode_eq (v : Json) :
    parseFilterNode uuid v = nodes uuid false none (parseFilterNode uuid) v := by
  rw [parseFilterNode, filterNodeSchema]
  exact nodes_congr fun w hw => filterNodeSchema_eq hw (Nat.lt_succ_self _)

end Data

/-! ## Both schemas -/

theorem forall₂_iff_and {β γ : Type} {R S T : β → γ → Prop} {P : γ → Prop}
    (h : ∀ b c, R b c ↔ S b c ∧ T b c ∧ P c) : ∀ {bs : List β} {cs : List γ},
    List.Forall₂ R bs cs ↔ List.Forall₂ S bs cs ∧ List.Forall₂ T bs cs ∧ ∀ c ∈ cs, P c
  | [], [] => iff_of_true .nil ⟨.nil, .nil, nofun⟩
  | [], c :: cs => iff_of_false nofun fun h => nomatch h.1
  | b :: bs, [] => iff_of_false nofun fun h => nomatch h.1
  | b :: bs, c :: cs => by
    rw [List.forall₂_cons, List.forall₂_cons, List.forall₂_cons, List.forall_mem_cons, h,
      forall₂_iff_and h]
    tauto

theorem hasOnlyKeys_condition {c : FilterCondition} :
    HasOnlyKeys v (.condition c) ↔ HasConditionKeys v c := by
  constructor
  · rintro ⟨h⟩
    exact ⟨_, rfl, h⟩
  · rintro ⟨fields, rfl, h⟩
    exact .condition h

theorem buildFilterNodeSchema_condition {c : FilterCondition} : ∀ {depth : ℕ},
    Shared.buildFilterNodeSchema uuid depth v = some (.condition c) ↔
      conditions uuid true v = some c
  | 0 => by simp [Shared.buildFilterNodeSchema, Shared.filterConditionSchema]
  | depth + 1 => by rw [Shared.buildFilterNodeSchema, nodes_condition]

theorem buildFilterNodeSchema_iff : ∀ (depth : ℕ) (v : Json) (n : FilterNode),
    Shared.buildFilterNodeSchema uuid depth v = some n ↔
      Data.parseFilterNode uuid v = some n ∧ HasOnlyKeys v n ∧ WithinLimits depth n
  | depth, v, .condition c => by
    rw [buildFilterNodeSchema_condition, Data.parseFilterNode_eq, nodes_condition,
      hasOnlyKeys_condition, and_iff_left (WithinLimits.condition depth c), conditions_strict]
  | 0, v, .group t ns | 0, v, .not m => by
    refine iff_of_false (fun h => ?_) fun ⟨_, _, h⟩ => nomatch h
    obtain ⟨c, -, heq⟩ := Option.map_eq_some_iff.mp h
    cases heq
  | depth + 1, v, .group t ns => by
    have ih : ∀ vs : List Json, List.Forall₂ _ vs ns ↔ _ := fun vs =>
      forall₂_iff_and (buildFilterNodeSchema_iff depth)
    rw [Shared.buildFilterNodeSchema, Data.parseFilterNode_eq, nodes_group, nodes_group]
    constructor
    · rintro ⟨vs, ⟨fields, rfl, honly, htype, hnodes, hne, hmax⟩, hall⟩
      obtain ⟨hparse, hkeys, hlimits⟩ := (ih vs).mp hall
      exact ⟨⟨vs, ⟨fields, rfl, nofun, htype, hnodes, hne, nofun⟩, hparse⟩,
        .group (honly rfl) hnodes hkeys, .group (hall.length_eq ▸ hmax _ rfl) hlimits⟩
    · rintro ⟨⟨vs, ⟨fields, rfl, -, htype, hnodes, hne, -⟩, hparse⟩, hkeys, hlimits⟩
      cases hkeys with
      | @group _ vs' _ _ honly hnodes' hkeys =>
        obtain rfl := Json.arr.inj (Option.some.inj (hnodes.symm.trans hnodes'))
        cases hlimits with
        | group hlength hlimits =>
          refine ⟨vs, ⟨fields, rfl, fun _ => honly, htype, hnodes, hne, fun bound hbound => ?_⟩,
            (ih vs).mpr ⟨hparse, hkeys, hlimits⟩⟩
          obtain rfl := Option.mem_some.mp hbound
          exact hparse.length_eq ▸ hlength
  | depth + 1, v, .not m => by
    rw [Shared.buildFilterNodeSchema, Data.parseFilterNode_eq, nodes_not, nodes_not]
    constructor
    · rintro ⟨w, ⟨fields, rfl, honly, htype, hnode⟩, hm⟩
      obtain ⟨hparse, hkeys, hlimits⟩ := (buildFilterNodeSchema_iff depth w m).mp hm
      exact ⟨⟨w, ⟨fields, rfl, nofun, htype, hnode⟩, hparse⟩, .not (honly rfl) hnode hkeys,
        .not hlimits⟩
    · rintro ⟨⟨w, ⟨fields, rfl, -, htype, hnode⟩, hparse⟩, hkeys, hlimits⟩
      cases hkeys with
      | @not _ w' _ honly hnode' hkeys =>
        obtain rfl := Option.some.inj (hnode.symm.trans hnode')
        cases hlimits with
        | not hlimits =>
          exact ⟨w, ⟨fields, rfl, fun _ => honly, htype, hnode⟩,
            (buildFilterNodeSchema_iff depth w m).mpr ⟨hparse, hkeys, hlimits⟩⟩

/-- The request's schema accepts what the data layer's does, and reads the same tree from it, when
no object has a key that its schema does not name and the tree keeps within the limits. -/
theorem filterNodeSchema_iff (uuid : String → Bool) (v : Json) (n : FilterNode) :
    Shared.filterNodeSchema uuid v = some n ↔
      Data.parseFilterNode uuid v = some n ∧ HasOnlyKeys v n ∧
        WithinLimits Shared.MAX_FILTER_DEPTH n :=
  buildFilterNodeSchema_iff Shared.MAX_FILTER_DEPTH v n

/-- An object with a key that neither schema names. -/
theorem extraKey_disagrees : ¬∀ (uuid : String → Bool) (v : Json),
    (Shared.filterNodeSchema uuid v).isSome = true ↔ (Data.parseFilterNode uuid v).isSome = true := by
  intro hall
  have h := hall (fun _ => false)
    (.obj [("type", .str "is_empty"), ("property", .str "done"), ("value", .null)])
  exact absurd h (by decide +kernel)

end FilterSchemas

end Semprec
