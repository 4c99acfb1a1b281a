import Mathlib.Data.List.Basic

/-!
# Base64

Three bytes are four digits of six bits; one or two bytes at the end are padded with `=`.
-/

namespace Semprec

namespace Base64

def digit (n : ℕ) : Char :=
  if n < 26 then Char.ofNat (65 + n)
  else if n < 52 then Char.ofNat (71 + n)
  else if n < 62 then Char.ofNat (n - 4)
  else if n = 62 then '+'
  else '/'

def digitValue (c : Char) : Option ℕ :=
  let n := c.toNat
  if 65 ≤ n ∧ n ≤ 90 then some (n - 65)
  else if 97 ≤ n ∧ n ≤ 122 then some (n - 71)
  else if 48 ≤ n ∧ n ≤ 57 then some (n + 4)
  else if c = '+' then some 62
  else if c = '/' then some 63
  else none

@[grind =]
def encode : List UInt8 → List Char
  | [] => []
  | [a] => [digit (a.toNat / 4), digit (a.toNat % 4 * 16), '=', '=']
  | [a, b] =>
    [digit (a.toNat / 4), digit (a.toNat % 4 * 16 + b.toNat / 16), digit (b.toNat % 16 * 4), '=']
  | a :: b :: c :: bytes =>
    digit (a.toNat / 4) :: digit (a.toNat % 4 * 16 + b.toNat / 16) ::
      digit (b.toNat % 16 * 4 + c.toNat / 64) :: digit (c.toNat % 64) :: encode bytes

@[grind =]
def decode : List Char → Option (List UInt8)
  | [] => some []
  | w :: x :: y :: z :: text =>
    (digitValue w).bind fun w => (digitValue x).bind fun x =>
      if y = '=' then
        if z = '=' ∧ text = [] then some [UInt8.ofNat (w * 4 + x / 16)] else none
      else (digitValue y).bind fun y =>
        if z = '=' then
          if text = [] then
            some [UInt8.ofNat (w * 4 + x / 16), UInt8.ofNat (x % 16 * 16 + y / 4)]
          else none
        else (digitValue z).bind fun z => (decode text).map fun bytes =>
          UInt8.ofNat (w * 4 + x / 16) :: UInt8.ofNat (x % 16 * 16 + y / 4) ::
            UInt8.ofNat (y % 4 * 64 + z) :: bytes
  | _ => none

theorem digitValue_digit : ∀ n < 64, digitValue (digit n) = some n := by
  decide

theorem digit_ne_pad : ∀ n < 64, digit n ≠ '=' := by
  decide

theorem ofNat_eq {n : ℕ} {a : UInt8} (h : n = a.toNat) : UInt8.ofNat n = a := by
  rw [h, UInt8.ofNat_toNat]

theorem decode_encode (bytes : List UInt8) : decode (encode bytes) = some bytes := by
  induction bytes using encode.induct with
  | case1 => rfl
  | case2 a =>
    have ha := a.toNat_lt
    rw [encode, decode, digitValue_digit _ (by omega), digitValue_digit _ (by omega)]
    simp only [Option.bind_some, and_self, ↓reduceIte]
    rw [ofNat_eq (a := a) (by omega)]
  | case3 a b =>
    have ha := a.toNat_lt
    have hb := b.toNat_lt
    rw [encode, decode, digitValue_digit _ (by omega), digitValue_digit _ (by omega),
      digitValue_digit _ (by omega)]
    simp only [Option.bind_some, ↓reduceIte, digit_ne_pad (b.toNat % 16 * 4) (by omega)]
    rw [ofNat_eq (a := a) (by omega), ofNat_eq (a := b) (by omega)]
  | case4 a b c bytes ih =>
    have ha := a.toNat_lt
    have hb := b.toNat_lt
    have hc := c.toNat_lt
    rw [encode, decode, digitValue_digit _ (by omega), digitValue_digit _ (by omega),
      digitValue_digit _ (by omega), digitValue_digit _ (by omega), ih]
    simp only [Option.bind_some, Option.map_some, ↓reduceIte,
      digit_ne_pad (c.toNat % 64) (by omega),
      digit_ne_pad (b.toNat % 16 * 4 + c.toNat / 64) (by omega)]
    rw [ofNat_eq (a := a) (by omega), ofNat_eq (a := b) (by omega), ofNat_eq (a := c) (by omega)]

/-- A text has only digits and padding. -/
theorem eq_of_mem_encode (bytes : List UInt8) :
    ∀ d ∈ encode bytes, d = '=' ∨ ∃ n < 64, d = digit n := by
  induction bytes using encode.induct with
  | case1 => simp [encode]
  | case2 a =>
    have ha := a.toNat_lt
    simp only [encode, List.forall_mem_cons]
    exact ⟨.inr ⟨_, by omega, rfl⟩, .inr ⟨_, by omega, rfl⟩, .inl trivial, .inl trivial, by simp⟩
  | case3 a b =>
    have ha := a.toNat_lt
    have hb := b.toNat_lt
    simp only [encode, List.forall_mem_cons]
    exact ⟨.inr ⟨_, by omega, rfl⟩, .inr ⟨_, by omega, rfl⟩, .inr ⟨_, by omega, rfl⟩, .inl trivial,
      by simp⟩
  | case4 a b c bytes ih =>
    have ha := a.toNat_lt
    have hb := b.toNat_lt
    have hc := c.toNat_lt
    simp only [encode, List.forall_mem_cons]
    exact ⟨.inr ⟨_, by omega, rfl⟩, .inr ⟨_, by omega, rfl⟩, .inr ⟨_, by omega, rfl⟩,
      .inr ⟨_, by omega, rfl⟩, ih⟩

theorem encode_ne_nil {bytes : List UInt8} (h : bytes ≠ []) : encode bytes ≠ [] := by
  rcases bytes with _ | ⟨a, _ | ⟨b, _ | ⟨c, bytes⟩⟩⟩
  · exact absurd rfl h
  all_goals rw [encode]; exact List.cons_ne_nil _ _

end Base64

end Semprec
