import Mathlib.Data.List.Forall2
import Mathlib.Data.List.Pairwise
import Mathlib.Data.List.Perm.Basic
import Semprec.CanonicalJson

/-!
# When the canonical text of a value is canonical

The text is the one `JSON.stringify` gives the value with the fields of its objects sorted
(`canonicalizeJson_eq`), so it reads back as that value, and two values have one text exactly when
sorting leaves nothing between them (`ordered_eq_iff`).  The fields then stand in the order of the
code units of their keys, which is that of the code points unless two of them clash.
-/

namespace Semprec

namespace CanonicalJson

open JsonText

variable {ν : Type} {format : NumberFormat ν} {p q : List String → Prop} {v w : Value ν}
  {keys : List String}

/-! ## The order of the keys -/

theorem compareByCodePoint_nonpos {a b : String} :
    compareByCodePoint a b ≤ 0 ↔ Utf16.codeUnits a ≤ Utf16.codeUnits b := by
  unfold compareByCodePoint
  split_ifs with hlt hgt
  · exact iff_of_true (by decide) hlt.le
  · exact iff_of_false (by decide) hgt.not_ge
  · exact iff_of_true (by decide) (le_of_not_gt hgt)

theorem sortKeys_eq (keys : List String) : sortKeys keys = Utf16.sort keys := by
  simp only [sortKeys, Utf16.sort, compareByCodePoint_nonpos]

theorem codePointOrder_iff (hsorted : Utf16.Sorted keys) (hnodup : keys.Nodup) :
    CodePointOrder keys ↔ NoClash keys := by
  constructor
  · intro horder a ha b hb hclash
    let agree : String → String → Prop := fun a b =>
      Utf16.codeUnits a ≤ Utf16.codeUnits b ∧ a.toList < b.toList ∨
        Utf16.codeUnits b ≤ Utf16.codeUnits a ∧ b.toList < a.toList
    have : Std.Symm agree := ⟨fun _ _ h => h.symm⟩
    have hagree : keys.Pairwise agree := (hsorted.and horder).imp fun h => .inl h
    obtain ⟨hunits, hlt⟩ := hclash.lt
    have hne : a ≠ b := by
      rintro rfl
      exact lt_irrefl _ hlt
    rcases hagree.forall ha hb hne with h | h
    · exact lt_asymm hlt h.2
    · exact absurd h.1 hunits.not_ge
  · intro hclash
    refine (hsorted.and hnodup).imp_of_mem fun ha hb h => ?_
    refine Utf16.lt_of_encode_lt (lt_of_le_of_ne h.1 fun heq => h.2 ?_) (hclash _ ha _ hb)
    exact Utf16.codeUnits_injective heq

/-! ## The value with its fields sorted -/

def orderFields (fs : List (String × Value ν)) : List (String × Value ν) :=
  fs.insertionSort fun f g => Utf16.codeUnits f.1 ≤ Utf16.codeUnits g.1

mutual

def ordered : Value ν → Value ν
  | .arr vs => .arr (orderedElements vs)
  | .obj fs => .obj (orderFields (orderedFields fs))
  | .null => .null
  | .bool b => .bool b
  | .num n => .num n
  | .str s => .str s

def orderedElements : List (Value ν) → List (Value ν)
  | [] => []
  | v :: vs => ordered v :: orderedElements vs

def orderedFields : List (String × Value ν) → List (String × Value ν)
  | [] => []
  | (k, v) :: fs => (k, ordered v) :: orderedFields fs

end

theorem ordered_arr (vs : List (Value ν)) : ordered (.arr vs) = .arr (vs.map ordered) := by
  rw [ordered, Value.arr.injEq]
  induction vs with
  | nil => rfl
  | cons v vs ih => rw [orderedElements, ih, List.map_cons]

theorem map_orderFields {F : Value ν → Value ν} (fs : List (String × Value ν)) :
    orderFields (fs.map fun f => (f.1, F f.2)) = (orderFields fs).map fun f => (f.1, F f.2) :=
  (List.map_insertionSort _ _ (fun f : String × Value ν => (f.1, F f.2)) fs
    fun _ _ _ _ => Iff.rfl).symm

theorem ordered_obj (fs : List (String × Value ν)) :
    ordered (.obj fs) = .obj ((orderFields fs).map fun f => (f.1, ordered f.2)) := by
  have hfields : orderedFields fs = fs.map fun f => (f.1, ordered f.2) := by
    induction fs with
    | nil => rfl
    | cons f fs ih => rw [orderedFields, ih, List.map_cons]
  rw [ordered, hfields, map_orderFields]

theorem perm_orderFields (fs : List (String × Value ν)) : (orderFields fs).Perm fs :=
  List.perm_insertionSort _ fs

theorem keys_orderFields (fs : List (String × Value ν)) :
    (orderFields fs).map Prod.fst = Utf16.sort (fs.map Prod.fst) :=
  List.map_insertionSort _ _ _ _ fun _ _ _ _ => Iff.rfl

theorem keys_map (fs : List (String × Value ν)) (F : Value ν → Value ν) :
    (fs.map fun f => (f.1, F f.2)).map Prod.fst = fs.map Prod.fst := by
  rw [List.map_map]
  rfl

theorem everyObject_arr {vs : List (Value ν)} :
    EveryObject p (.arr vs) ↔ ∀ v ∈ vs, EveryObject p v :=
  ⟨fun | .arr h => h, .arr⟩

theorem everyObject_obj {fs : List (String × Value ν)} :
    EveryObject p (.obj fs) ↔ p (fs.map Prod.fst) ∧ ∀ f ∈ fs, EveryObject p f.2 :=
  ⟨fun | .obj hp h => ⟨hp, h⟩, fun h => .obj h.1 h.2⟩

theorem everyObject_ordered (hv : EveryObject List.Nodup v) :
    EveryObject CodePointOrder (ordered v) ↔ EveryObject NoClash v := by
  induction hv with
  | null => exact iff_of_true .null .null
  | bool b => exact iff_of_true (.bool b) (.bool b)
  | num n => exact iff_of_true (.num n) (.num n)
  | str s => exact iff_of_true (.str s) (.str s)
  | arr _ ih =>
    rw [ordered_arr, everyObject_arr, everyObject_arr, List.forall_mem_map]
    exact forall₂_congr ih
  | @obj fs hnodup _ ih =>
    have hclash : NoClash (Utf16.sort (fs.map Prod.fst)) ↔ NoClash (fs.map Prod.fst) := by
      simp only [NoClash, Utf16.mem_sort]
    rw [ordered_obj, everyObject_obj, everyObject_obj, keys_map, keys_orderFields,
      codePointOrder_iff (Utf16.sorted_sort _) (Utf16.nodup_sort.mpr hnodup), hclash,
      List.forall_mem_map]
    refine and_congr_right fun _ => ?_
    simp only [(perm_orderFields fs).mem_iff]
    exact forall₂_congr ih

/-! ## Equal up to the order of the fields -/

theorem forall₂_iff_map_eq {α β γ : Type} {R : α → β → Prop} {F : α → γ} {G : β → γ} :
    ∀ {as : List α} {bs : List β}, (∀ a ∈ as, ∀ b, R a b ↔ F a = G b) →
      (List.Forall₂ R as bs ↔ as.map F = bs.map G)
  | [], [], _ => iff_of_true .nil rfl
  | [], b :: bs, _ => iff_of_false nofun nofun
  | a :: as, [], _ => iff_of_false nofun nofun
  | a :: as, b :: bs, h => by
    rw [List.forall₂_cons, List.map_cons, List.map_cons, List.cons.injEq,
      h a List.mem_cons_self b, forall₂_iff_map_eq fun a ha => h a (List.mem_cons_of_mem _ ha)]

theorem eq_of_fst_snd {α β : Type} {xs ys : List (α × β)}
    (hfst : xs.map Prod.fst = ys.map Prod.fst) (hsnd : xs.map Prod.snd = ys.map Prod.snd) :
    xs = ys :=
  (List.zip_of_prod hfst hsnd).trans (List.zip_of_prod rfl rfl).symm

theorem orderFields_eq {fs gs : List (String × Value ν)} (h : fs.Perm gs)
    (hnodup : (fs.map Prod.fst).Nodup) : orderFields fs = orderFields gs := by
  have hsorted : ∀ fs : List (String × Value ν), (orderFields fs).Pairwise fun f g =>
      Utf16.codeUnits f.1 ≤ Utf16.codeUnits g.1 := fun fs => List.pairwise_insertionSort _ fs
  refine (((perm_orderFields fs).trans h).trans (perm_orderFields gs).symm).eq_of_pairwise
    (fun f g hf hg hfg hgf => ?_) (hsorted fs) (hsorted gs)
  exact List.inj_on_of_nodup_map hnodup ((perm_orderFields fs).mem_iff.mp hf)
    (h.mem_iff.mpr ((perm_orderFields gs).mem_iff.mp hg))
    (Utf16.codeUnits_injective (le_antisymm hfg hgf))

theorem same_iff (hv : EveryObject List.Nodup v) (w : Value ν) :
    Same v w ↔ ordered v = ordered w := by
  induction hv generalizing w with
  | null => exact ⟨fun | .null => rfl, fun h => by cases w <;> first | exact .null | cases h⟩
  | bool b =>
    refine ⟨fun | .bool _ => rfl, fun h => ?_⟩
    cases w <;> first | (cases h; exact .bool b) | cases h
  | num n =>
    refine ⟨fun | .num _ => rfl, fun h => ?_⟩
    cases w <;> first | (cases h; exact .num n) | cases h
  | str s =>
    refine ⟨fun | .str _ => rfl, fun h => ?_⟩
    cases w <;> first | (cases h; exact .str s) | cases h
  | @arr vs _ ih =>
    constructor
    · rintro (⟨⟩ | ⟨⟩ | ⟨⟩ | ⟨⟩ | h)
      rw [ordered_arr, ordered_arr, (forall₂_iff_map_eq ih).mp h]
    · intro h
      rw [ordered_arr] at h
      cases w with
      | arr ws =>
        rw [ordered_arr, Value.arr.injEq] at h
        exact .arr ((forall₂_iff_map_eq ih).mpr h)
      | null | bool | num | str | obj => cases h
  | @obj fs hnodup _ ih =>
    constructor
    · intro h
      cases h with
      | @obj _ fs' gs hperm hfst hsnd =>
        have hih : ∀ v ∈ fs'.map Prod.snd, ∀ w, Same v w ↔ ordered v = ordered w := by
          rw [List.forall_mem_map]
          exact fun f hf => ih f (hperm.mem_iff.mpr hf)
        have hmap : (fs'.map fun f => (f.1, ordered f.2)) = gs.map fun f => (f.1, ordered f.2) :=
          eq_of_fst_snd (by rw [keys_map, keys_map, hfst]) (by
            have hsnd := (forall₂_iff_map_eq hih).mp hsnd
            rw [List.map_map, List.map_map] at hsnd ⊢
            exact hsnd)
        have hkeys : ((fs.map fun f => (f.1, ordered f.2)).map Prod.fst).Nodup := by
          rwa [keys_map]
        rw [ordered_obj, ordered_obj, ← map_orderFields, ← map_orderFields, ← hmap,
          orderFields_eq (hperm.map _) hkeys]
    · intro h
      rw [ordered_obj] at h
      cases w with
      | obj gs =>
        rw [ordered_obj, Value.obj.injEq] at h
        have hperm : (gs.map fun f => (f.1, ordered f.2)).Perm
            (fs.map fun f => (f.1, ordered f.2)) :=
          ((perm_orderFields gs).map _).symm.trans (h ▸ (perm_orderFields fs).map _)
        obtain ⟨fs', hmap, hfs⟩ : ∃ fs' : List (String × Value ν), (gs.map fun f => (f.1, ordered f.2)) =
            fs'.map (fun f => (f.1, ordered f.2)) ∧ fs'.Perm fs :=
          (congrFun (congrFun (List.eq_map_comp_perm _) _) _).mpr hperm
        have hih : ∀ v ∈ fs'.map Prod.snd, ∀ w, Same v w ↔ ordered v = ordered w := by
          rw [List.forall_mem_map]
          exact fun f hf => ih f (hfs.mem_iff.mp hf)
        refine .obj hfs.symm ?_ ((forall₂_iff_map_eq hih).mpr ?_)
        · rw [← keys_map fs' ordered, ← hmap, keys_map]
        · have hsnd := congrArg (List.map Prod.snd) hmap.symm
          rw [List.map_map, List.map_map] at hsnd ⊢
          exact hsnd
      | null | bool | num | str | arr => cases h

theorem ordered_ordered (hv : EveryObject List.Nodup v) : ordered (ordered v) = ordered v := by
  induction hv with
  | null | bool | num | str => rfl
  | arr _ ih =>
    rw [ordered_arr, ordered_arr, List.map_map]
    exact congrArg Value.arr (List.map_congr_left ih)
  | @obj fs _ _ ih =>
    have hsorted : orderFields (orderFields fs) = orderFields fs :=
      (List.pairwise_insertionSort _ fs).insertionSort_eq
    rw [ordered_obj, ordered_obj, map_orderFields, hsorted, List.map_map]
    refine congrArg Value.obj (List.map_congr_left fun f hf => ?_)
    exact congrArg (Prod.mk f.1) (ih f ((perm_orderFields fs).mem_iff.mp hf))

/-! ## The text -/

theorem join_cons (text next : List Char) (texts : List (List Char)) :
    join (text :: next :: texts) = text ++ ',' :: join (next :: texts) := rfl

theorem stringify_arr (vs : List (Value ν)) :
    stringify format (.arr vs) = '[' :: (join (vs.map (stringify format)) ++ [']']) := by
  have helements : ∀ (v : Value ν) (vs : List (Value ν)), stringify format v ++
      elementsText format vs = join ((v :: vs).map (stringify format)) ++ [']'] := by
    intro v vs
    induction vs generalizing v with
    | nil => rfl
    | cons w ws ih =>
      rw [elementsText, ih, List.map_cons, List.map_cons, List.map_cons, join_cons,
        List.append_assoc, List.cons_append]
  cases vs with
  | nil => rfl
  | cons v vs => rw [stringify, helements]

theorem stringify_obj (fs : List (String × Value ν)) :
    stringify format (.obj fs) = '{' :: (join (fs.map fun f =>
      quote f.1.toList ++ ':' :: stringify format f.2) ++ ['}']) := by
  have hfields : ∀ (k : String) (v : Value ν) (fs : List (String × Value ν)),
      quote k.toList ++ ':' :: (stringify format v ++ fieldsText format fs) =
        join (((k, v) :: fs).map fun f => quote f.1.toList ++ ':' :: stringify format f.2) ++
          ['}'] := by
    intro k v fs
    induction fs generalizing k v with
    | nil => simp [fieldsText, join]
    | cons f fs ih =>
      rw [fieldsText, ih, List.map_cons, List.map_cons, List.map_cons, join_cons]
      simp
  cases fs with
  | nil => rfl
  | cons f fs => rw [stringify, hfields]

theorem canonicalElements_eq (vs : List (Value ν)) :
    canonicalElements format vs = vs.map (canonicalizeJson format) := by
  induction vs with
  | nil => rfl
  | cons v vs ih => rw [canonicalElements, ih, List.map_cons]

theorem canonicalFields_eq (fs : List (String × Value ν)) :
    canonicalFields format fs = fs.map fun f => (f.1, canonicalizeJson format f.2) := by
  induction fs with
  | nil => rfl
  | cons f fs ih => rw [canonicalFields, ih, List.map_cons]

theorem lookup_map {τ : Type} (F : Value ν → τ) {fs : List (String × Value ν)}
    {f : String × Value ν} (hnodup : (fs.map Prod.fst).Nodup) (hf : f ∈ fs) :
    (fs.map fun f => (f.1, F f.2)).lookup f.1 = some (F f.2) := by
  induction fs with
  | nil => cases hf
  | cons g fs ih =>
    rw [List.map_cons, List.nodup_cons] at hnodup
    rw [List.map_cons, List.lookup_cons]
    rcases List.mem_cons.mp hf with rfl | hf
    · simp
    · have hne : f.1 ≠ g.1 := fun heq => hnodup.1 (heq ▸ List.mem_map_of_mem hf)
      have hbeq : (f.1 == g.1) = false := beq_eq_false_iff_ne.mpr hne
      rw [hbeq]
      exact ih hnodup.2 hf

/-- The text is that of the value with its fields sorted. -/
theorem canonicalizeJson_eq (hv : EveryObject List.Nodup v) :
    canonicalizeJson format v = stringify format (ordered v) := by
  induction hv with
  | null => rfl
  | bool b => rfl
  | num n => rfl
  | str s => rfl
  | arr _ ih =>
    rw [canonicalizeJson, ordered_arr, stringify_arr, canonicalElements_eq, List.map_map,
      List.map_congr_left ih]
    rfl
  | @obj fs hnodup _ ih =>
    rw [ordered_obj, stringify_obj, canonicalizeJson, canonicalFields_eq, sortKeys_eq,
      ← keys_orderFields, List.map_map, List.map_map]
    refine congrArg (fun texts => '{' :: (join texts ++ ['}'])) (List.map_congr_left fun f hf => ?_)
    have hf := (perm_orderFields fs).mem_iff.mp hf
    rw [Function.comp_apply, Function.comp_apply, lookup_map _ hnodup hf, Option.getD_some,
      ih f hf]

theorem parse_canonicalizeJson (hv : EveryObject List.Nodup v) :
    parse format (canonicalizeJson format v) = some (ordered v) := by
  rw [canonicalizeJson_eq hv, parse_stringify]

theorem canonical (format : NumberFormat ν) (v : JsonValue ν) : Canonical format v := by
  refine ⟨fun w => ?_, ordered v.value, parse_canonicalizeJson v.distinct, ?_⟩
  · rw [same_iff v.distinct]
    constructor
    · intro heq
      have hparse := congrArg (parse format) heq
      rw [parse_canonicalizeJson v.distinct, parse_canonicalizeJson w.distinct] at hparse
      exact Option.some.inj hparse
    · intro heq
      rw [canonicalizeJson_eq v.distinct, canonicalizeJson_eq w.distinct, heq]
  · rw [same_iff v.distinct, ordered_ordered v.distinct]

/-- Equal values have one text and different ones have not, and the text reads back as an equal
value; the keys stand in the order of their code points in it exactly when no two keys of one object
first differ in a character above `U+FFFF` and one from `U+E000` on below it. -/
theorem canonicalizeJson_canonical_iff (format : NumberFormat ν) (v : JsonValue ν) :
    Canonical format v ∧
      (Canonical format v ∧ KeysInOrder format v ↔ EveryObject NoClash v.value) := by
  refine ⟨canonical format v, ?_⟩
  rw [and_iff_right (canonical format v), ← everyObject_ordered v.distinct, KeysInOrder,
    parse_canonicalizeJson v.distinct]
  exact ⟨fun h => h _ rfl, fun h w hw => Option.some.inj hw ▸ h⟩

/-! ## A character outside the Basic Multilingual Plane -/

def decimal : NumberFormat ℕ where
  text n := Nat.toDigits 10 n
  read text := some (Nat.ofDigitChars 10 text 0)
  text_ne_nil := digits_ne_nil
  isNumberChar_text := isNumberChar_digits
  read_text := read_digits

/-- The keys are `U+FF5E` and `U+1F600`, in the order of their code points. -/
def astralKey : JsonValue ℕ where
  value := .obj [("～", .num 1), ("😀", .num 2)]
  distinct := .obj (by decide) (by
    simpa using And.intro (EveryObject.num 1) (EveryObject.num 2))

theorem astralKey_not_inOrder :
    ¬∀ v : JsonValue ℕ, Canonical decimal v ∧ KeysInOrder decimal v := by
  intro hall
  have horder := (hall astralKey).2 _ (parse_canonicalizeJson astralKey.distinct)
  rw [everyObject_ordered astralKey.distinct, astralKey, everyObject_obj] at horder
  exact horder.1 "😀" (by decide) "～" (by decide)
    ⟨[], '😀', '～', [], [], by decide, by decide, by decide, by decide, by decide⟩

end CanonicalJson

end Semprec
