import Mathlib.Data.List.Lex
import Mathlib.Data.List.Sort
import Mathlib.Data.String.Basic
import Mathlib.Tactic.SplitIfs

/-!
# UTF-16 code units

The code units of a string, and the order they give strings in.  It is the order of the code points
except for two strings that first differ in a character above `U+FFFF` and one from `U+E000` to
`U+FFFF` (`Clash`): the surrogates of the former stand below the latter.
-/

namespace Semprec

namespace Utf16

variable {c d : Char} {s t : List Char}

def units (c : Char) : List ℕ :=
  if c.toNat < 0x10000 then [c.toNat]
  else [0xD800 + (c.toNat - 0x10000) / 0x400, 0xDC00 + (c.toNat - 0x10000) % 0x400]

def encode (s : List Char) : List ℕ := s.flatMap units

@[simp]
theorem encode_nil : encode [] = [] := rfl

@[simp]
theorem encode_cons (c : Char) (s : List Char) : encode (c :: s) = units c ++ encode s := rfl

theorem toNat_bounds (c : Char) :
    c.toNat < 0xD800 ∨ 0xE000 ≤ c.toNat ∧ c.toNat < 0x110000 := by
  have h : c.toNat < 0xD800 ∨ 0xDFFF < c.toNat ∧ c.toNat < 0x110000 := c.valid
  omega

theorem toNat_ne (h : c ≠ d) : c.toNat ≠ d.toNat := fun heq => h (Char.toNat_inj.mp heq)

theorem units_ne_nil (c : Char) : units c ≠ [] := by
  unfold units
  split_ifs <;> exact List.cons_ne_nil _ _

/-- Which of two strings stands first is decided by the first character they differ in. -/
theorem encode_cons_lt (h : c ≠ d) (s t : List Char) :
    encode (c :: s) < encode (d :: t) ↔
      0x10000 ≤ c.toNat ∧ 0xE000 ≤ d.toNat ∧ d.toNat < 0x10000 ∨
        c.toNat < d.toNat ∧ ¬(0x10000 ≤ d.toNat ∧ 0xE000 ≤ c.toNat ∧ c.toNat < 0x10000) := by
  have hne := toNat_ne h
  have hc := toNat_bounds c
  have hd := toNat_bounds d
  rw [encode_cons, encode_cons, units, units]
  split_ifs with hcb hdb hdb <;>
    simp only [List.cons_append, List.nil_append, List.cons_lt_cons_iff]
  · omega
  · omega
  · omega
  · omega

theorem encode_injective : Function.Injective encode
  | [], [], _ => rfl
  | [], d :: t, h => absurd (List.append_eq_nil_iff.mp h.symm).1 (units_ne_nil d)
  | c :: s, [], h => absurd (List.append_eq_nil_iff.mp h).1 (units_ne_nil c)
  | c :: s, d :: t, h => by
    by_cases hcd : c = d
    · subst hcd
      rw [encode_injective (List.append_cancel_left h)]
    · have hlt := encode_cons_lt hcd s t
      have hgt := encode_cons_lt (Ne.symm hcd) t s
      have hne := toNat_ne hcd
      rw [h] at hlt hgt
      have h₁ := hlt.not.mp (lt_irrefl _)
      have h₂ := hgt.not.mp (lt_irrefl _)
      omega

/-- Where the strings first differ, the one has a character above `U+FFFF` and the other one from
`U+E000` to `U+FFFF`. -/
def Clash (s t : List Char) : Prop :=
  ∃ p c d s' t', s = p ++ c :: s' ∧ t = p ++ d :: t' ∧
    0x10000 ≤ c.toNat ∧ 0xE000 ≤ d.toNat ∧ d.toNat < 0x10000

theorem Clash.cons (h : Clash s t) (c : Char) : Clash (c :: s) (c :: t) := by
  obtain ⟨p, a, b, s', t', hs, ht, hab⟩ := h
  exact ⟨c :: p, a, b, s', t', by rw [hs]; rfl, by rw [ht]; rfl, hab⟩

theorem Clash.lt (h : Clash s t) : encode s < encode t ∧ t < s := by
  obtain ⟨p, c, d, s', t', rfl, rfl, hc, hd, hd'⟩ := h
  have hne : c ≠ d := by
    rintro rfl
    omega
  induction p with
  | nil =>
    refine ⟨(encode_cons_lt hne s' t').mpr (.inl ⟨hc, hd, hd'⟩), ?_⟩
    exact List.cons_lt_cons_iff.mpr (.inl (by
      have hlt : d.toNat < c.toNat := by omega
      exact hlt))
  | cons a p ih =>
    refine ⟨?_, List.cons_lt_cons_iff.mpr (.inr ⟨rfl, ih.2⟩)⟩
    rw [List.cons_append, List.cons_append, encode_cons, encode_cons]
    exact List.append_left_lt ih.1

theorem lt_of_encode_lt : ∀ {s t : List Char}, encode s < encode t → ¬Clash s t → s < t
  | [], [], h, _ => absurd h (lt_irrefl _)
  | [], d :: t, _, _ => List.nil_lt_cons d t
  | c :: s, [], h, _ => absurd h (List.not_lt_nil _)
  | c :: s, d :: t, h, hclash => by
    by_cases hcd : c = d
    · subst hcd
      refine List.cons_lt_cons_iff.mpr (.inr ⟨rfl, lt_of_encode_lt ?_ fun hc => hclash (hc.cons c)⟩)
      rw [encode_cons, encode_cons] at h
      rcases lt_trichotomy (encode s) (encode t) with hlt | heq | hgt
      · exact hlt
      · exact absurd (heq ▸ h) (lt_irrefl _)
      · exact absurd h (lt_asymm (List.append_left_lt hgt))
    · rcases (encode_cons_lt hcd s t).mp h with hfirst | hfirst
      · exact absurd ⟨[], c, d, s, t, rfl, rfl, hfirst⟩ hclash
      · exact List.cons_lt_cons_iff.mpr (.inl hfirst.1)

/-! ## Sorting -/

/-- What `<` compares two strings by. -/
def codeUnits (s : String) : List ℕ := encode s.toList

theorem codeUnits_injective : Function.Injective codeUnits := fun _ _ h =>
  String.toList_injective (encode_injective h)

def sort (names : List String) : List String :=
  names.insertionSort fun a b => codeUnits a ≤ codeUnits b

variable {names names' : List String} {name : String}

def Sorted (names : List String) : Prop := names.Pairwise fun a b => codeUnits a ≤ codeUnits b

theorem perm_sort (names : List String) : (sort names).Perm names :=
  List.perm_insertionSort _ names

@[simp]
theorem mem_sort : name ∈ sort names ↔ name ∈ names := (perm_sort names).mem_iff

@[simp]
theorem nodup_sort : (sort names).Nodup ↔ names.Nodup := (perm_sort names).nodup_iff

theorem sorted_sort (names : List String) : Sorted (sort names) :=
  List.pairwise_insertionSort _ names

/-- Names that stand in order, none of them twice, are known by which they are. -/
theorem Sorted.eq_of_mem_iff (h : Sorted names) (h' : Sorted names') (hnodup : names.Nodup)
    (hnodup' : names'.Nodup) (hmem : ∀ name, name ∈ names ↔ name ∈ names') : names = names' :=
  ((List.perm_ext_iff_of_nodup hnodup hnodup').mpr hmem).eq_of_pairwise
    (fun _ _ _ _ hab hba => codeUnits_injective (le_antisymm hab hba)) h h'

end Utf16

end Semprec
