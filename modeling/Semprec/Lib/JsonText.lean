import Semprec.Lib.IpAddress

/-!
# JSON texts

The text `JSON.stringify` gives a value, and the value `JSON.parse` reads from a text.  How a
number is written is a parameter: its text reads back as the number it was written for.
-/

namespace Semprec

namespace JsonText

open IpAddress

variable {ν : Type}

/-- The fields of an object stand in the order of their text, none of them twice. -/
inductive Value (ν : Type) where
  | null
  | bool (b : Bool)
  | num (n : ν)
  | str (s : String)
  | arr (elements : List (Value ν))
  | obj (fields : List (String × Value ν))

def isNumberChar (c : Char) : Bool := c.isDigit || c ∈ ['-', '+', '.', 'e', 'E']

structure NumberFormat (ν : Type) where
  text : ν → List Char
  read : List Char → Option ν
  text_ne_nil : ∀ n, text n ≠ []
  isNumberChar_text : ∀ n, ∀ c ∈ text n, isNumberChar c = true
  read_text : ∀ n, read (text n) = some n

/-! ## Natural numbers in decimal -/

theorem digits_ne_nil (n : ℕ) : Nat.toDigits 10 n ≠ [] := Nat.toDigits_ne_nil

theorem isNumberChar_digits (n : ℕ) (c : Char) (hc : c ∈ Nat.toDigits 10 n) :
    isNumberChar c = true := by
  have hdigit : c.isDigit = true := Nat.isDigit_of_mem_toDigits (by decide) (by decide) hc
  simp [isNumberChar, hdigit]

theorem read_digits (n : ℕ) : some (Nat.ofDigitChars 10 (Nat.toDigits 10 n) 0) = some n := by
  rw [Nat.ofDigitChars_ten_toDigits]

/-! ## Writing -/

def escapeChar (c : Char) : List Char :=
  if c = '"' ∨ c = '\\' then ['\\', c]
  else if c.toNat = 8 then ['\\', 'b']
  else if c.toNat = 12 then ['\\', 'f']
  else if c = '\n' then ['\\', 'n']
  else if c = '\r' then ['\\', 'r']
  else if c = '\t' then ['\\', 't']
  else if c.toNat < 32 then
    ['\\', 'u', '0', '0', Nat.digitChar (c.toNat / 16), Nat.digitChar (c.toNat % 16)]
  else [c]

def quote (s : List Char) : List Char := '"' :: (s.flatMap escapeChar ++ ['"'])

section
variable (format : NumberFormat ν)

mutual

def stringify : Value ν → List Char
  | .null => ['n', 'u', 'l', 'l']
  | .bool true => ['t', 'r', 'u', 'e']
  | .bool false => ['f', 'a', 'l', 's', 'e']
  | .num n => format.text n
  | .str s => quote s.toList
  | .arr [] => ['[', ']']
  | .arr (v :: vs) => '[' :: (stringify v ++ elementsText vs)
  | .obj [] => ['{', '}']
  | .obj ((k, v) :: fs) => '{' :: (quote k.toList ++ ':' :: (stringify v ++ fieldsText fs))

/-- The elements after the first, and the bracket that closes them. -/
def elementsText : List (Value ν) → List Char
  | [] => [']']
  | v :: vs => ',' :: (stringify v ++ elementsText vs)

/-- The fields after the first, and the brace that closes them. -/
def fieldsText : List (String × Value ν) → List Char
  | [] => ['}']
  | (k, v) :: fs => ',' :: (quote k.toList ++ ':' :: (stringify v ++ fieldsText fs))

end

end

/-! ## Reading -/

def isSpace (c : Char) : Bool := c ∈ [' ', '\t', '\n', '\r']

def skipSpace (text : List Char) : List Char := text.dropWhile isSpace

def unescape (c : Char) : Option Char :=
  if c = '"' ∨ c = '\\' ∨ c = '/' then some c
  else if c = 'b' then some (Char.ofNat 8)
  else if c = 'f' then some (Char.ofNat 12)
  else if c = 'n' then some '\n'
  else if c = 'r' then some '\r'
  else if c = 't' then some '\t'
  else none

def hexChar (digits : List Char) : Option Char :=
  (hexValue 0 digits).bind fun n => if n.isValidChar then some (Char.ofNat n) else none

/-- What stands before the closing quotation mark, and the text after it. -/
def parseChars : List Char → Option (List Char × List Char)
  | [] => none
  | c :: text =>
    if c = '"' then some ([], text)
    else if c = '\\' then
      match text with
      | 'u' :: h₃ :: h₂ :: h₁ :: h₀ :: text =>
        (hexChar [h₃, h₂, h₁, h₀]).bind fun d =>
          (parseChars text).map fun (s, rest) => (d :: s, rest)
      | e :: text =>
        (unescape e).bind fun d => (parseChars text).map fun (s, rest) => (d :: s, rest)
      | [] => none
    else if c.toNat < 32 then none
    else (parseChars text).map fun (s, rest) => (c :: s, rest)

@[grind =] def parseWord (word : List Char) (v : Value ν) (text : List Char) :
    Option (Value ν × List Char) :=
  if word.isPrefixOf text then some (v, text.drop word.length) else none

section
variable (format : NumberFormat ν)

def parseNumber (text : List Char) : Option (Value ν × List Char) :=
  (format.read (text.takeWhile isNumberChar)).map fun n => (.num n, text.dropWhile isNumberChar)

mutual

def parseValue : ℕ → List Char → Option (Value ν × List Char)
  | 0, _ => none
  | fuel + 1, text =>
    match skipSpace text with
    | [] => none
    | c :: rest =>
      if c = '[' then
        if (skipSpace rest).head? = some ']' then some (.arr [], (skipSpace rest).tail)
        else
          (parseValue fuel rest).bind fun (v, rest) =>
            (parseElements fuel rest).map fun (vs, rest) => (.arr (v :: vs), rest)
      else if c = '{' then
        if (skipSpace rest).head? = some '}' then some (.obj [], (skipSpace rest).tail)
        else
          (parseField fuel rest).bind fun (f, rest) =>
            (parseFields fuel rest).map fun (fs, rest) => (.obj (f :: fs), rest)
      else if c = '"' then
        (parseChars rest).map fun (s, rest) => (.str (String.ofList s), rest)
      else if c = 'n' then parseWord ['u', 'l', 'l'] .null rest
      else if c = 't' then parseWord ['r', 'u', 'e'] (.bool true) rest
      else if c = 'f' then parseWord ['a', 'l', 's', 'e'] (.bool false) rest
      else parseNumber format (c :: rest)

def parseElements : ℕ → List Char → Option (List (Value ν) × List Char)
  | 0, _ => none
  | fuel + 1, text =>
    match skipSpace text with
    | ']' :: rest => some ([], rest)
    | ',' :: rest =>
      (parseValue fuel rest).bind fun (v, rest) =>
        (parseElements fuel rest).map fun (vs, rest) => (v :: vs, rest)
    | _ => none

def parseField : ℕ → List Char → Option ((String × Value ν) × List Char)
  | 0, _ => none
  | fuel + 1, text =>
    match skipSpace text with
    | '"' :: rest =>
      (parseChars rest).bind fun (k, rest) =>
        match skipSpace rest with
        | ':' :: rest => (parseValue fuel rest).map fun (v, rest) => ((String.ofList k, v), rest)
        | _ => none
    | _ => none

def parseFields : ℕ → List Char → Option (List (String × Value ν) × List Char)
  | 0, _ => none
  | fuel + 1, text =>
    match skipSpace text with
    | '}' :: rest => some ([], rest)
    | ',' :: rest =>
      (parseField fuel rest).bind fun (f, rest) =>
        (parseFields fuel rest).map fun (fs, rest) => (f :: fs, rest)
    | _ => none

end

/-- `JSON.parse`: one value, with nothing but space around it. -/
@[grind =] def parse (text : List Char) : Option (Value ν) :=
  (parseValue format (text.length + 1) text).bind fun (v, rest) =>
    if skipSpace rest = [] then some v else none

end

/-! ## Strings read back -/

section strings

theorem skipSpace_cons {c : Char} {text : List Char} (hc : isSpace c = false) :
    skipSpace (c :: text) = c :: text := by
  simp [skipSpace, hc]

theorem parseChars_plain {c : Char} (text : List Char) (hquote : c ≠ '"') (hslash : c ≠ '\\')
    (hcontrol : ¬ c.toNat < 32) :
    parseChars (c :: text) = (parseChars text).map fun (s, rest) => (c :: s, rest) := by
  rw [parseChars.eq_def]
  simp [hquote, hslash, hcontrol]

theorem parseChars_hex {n : ℕ} (text : List Char) (hn : n < 32) :
    parseChars ('\\' :: 'u' :: '0' :: '0' :: Nat.digitChar (n / 16) :: Nat.digitChar (n % 16) ::
      text) = (parseChars text).map fun (s, rest) => (Char.ofNat n :: s, rest) := by
  have hchar : hexChar ['0', '0', Nat.digitChar (n / 16), Nat.digitChar (n % 16)] =
      some (Char.ofNat n) := by
    revert n
    decide
  rw [parseChars.eq_def]
  simp [hchar]

theorem parseChars_escape {e d : Char} (text : List Char) (he : e ≠ 'u')
    (hd : unescape e = some d) :
    parseChars ('\\' :: e :: text) = (parseChars text).map fun (s, rest) => (d :: s, rest) := by
  rw [parseChars.eq_def]
  simp [he, hd]

theorem parseChars_escapeChar (c : Char) (text : List Char) :
    parseChars (escapeChar c ++ text) = (parseChars text).map fun (s, rest) => (c :: s, rest) := by
  unfold escapeChar
  split_ifs with hmark h8 h12 hn hr ht hcontrol
  · rcases hmark with rfl | rfl <;> exact parseChars_escape text (by decide) (by decide)
  · rw [show c = Char.ofNat 8 by rw [← h8, Char.ofNat_toNat]]
    exact parseChars_escape text (by decide) (by decide)
  · rw [show c = Char.ofNat 12 by rw [← h12, Char.ofNat_toNat]]
    exact parseChars_escape text (by decide) (by decide)
  · exact hn ▸ parseChars_escape text (by decide) (by decide)
  · exact hr ▸ parseChars_escape text (by decide) (by decide)
  · exact ht ▸ parseChars_escape text (by decide) (by decide)
  · have hhex := parseChars_hex text hcontrol
    rwa [Char.ofNat_toNat] at hhex
  · exact parseChars_plain text (fun h => hmark (Or.inl h)) (fun h => hmark (Or.inr h)) hcontrol

theorem parseChars_quote (s text : List Char) :
    parseChars (s.flatMap escapeChar ++ '"' :: text) = some (s, text) := by
  induction s with
  | nil =>
    rw [List.flatMap_nil, List.nil_append, parseChars.eq_def]
    simp
  | cons c s ih =>
    rw [List.flatMap_cons, List.append_assoc, parseChars_escapeChar, ih]
    rfl

end strings

/-! ## Values read back -/

section values
variable {format : NumberFormat ν}

def EndsNumber (rest : List Char) : Prop := ∀ c ∈ rest.head?, isNumberChar c = false

theorem EndsNumber.cons {c : Char} {rest : List Char} (hc : isNumberChar c = false) :
    EndsNumber (c :: rest) := by
  rintro d ⟨⟩
  exact hc

theorem span_number {s rest : List Char} (hs : ∀ c ∈ s, isNumberChar c = true)
    (hrest : EndsNumber rest) :
    (s ++ rest).takeWhile isNumberChar = s ∧ (s ++ rest).dropWhile isNumberChar = rest := by
  induction s with
  | nil =>
    cases rest with
    | nil => exact ⟨rfl, rfl⟩
    | cons c rest => simp [hrest c rfl]
  | cons c s ih =>
    have hc := hs c List.mem_cons_self
    simpa [hc] using ih fun d hd => hs d (List.mem_cons_of_mem c hd)

theorem parseNumber_text (n : ν) {rest : List Char} (hrest : EndsNumber rest) :
    parseNumber format (format.text n ++ rest) = some (.num n, rest) := by
  obtain ⟨htake, hdrop⟩ := span_number (format.isNumberChar_text n) hrest
  rw [parseNumber, htake, hdrop, format.read_text]
  rfl

theorem parseWord_append (word rest : List Char) (v : Value ν) :
    parseWord word v (word ++ rest) = some (v, rest) := by
  simp [parseWord]

theorem isSpace_of_isNumberChar {c : Char} (hc : isNumberChar c = true) : isSpace c = false := by
  by_contra h
  simp only [isSpace, Bool.not_eq_false, decide_eq_true_eq, List.mem_cons, List.not_mem_nil,
    or_false] at h
  rcases h with rfl | rfl | rfl | rfl <;> exact absurd hc (by decide)

theorem parseValue_num (n : ν) {fuel : ℕ} {rest : List Char} (hrest : EndsNumber rest) :
    parseValue format (fuel + 1) (format.text n ++ rest) = some (.num n, rest) := by
  have hnumber : parseNumber format (format.text n ++ rest) = some (.num n, rest) :=
    parseNumber_text n hrest
  obtain ⟨c, s, hs⟩ := List.exists_cons_of_ne_nil (format.text_ne_nil n)
  have hc : isNumberChar c = true := format.isNumberChar_text n c (by simp [hs])
  have hne : ∀ d, isNumberChar d = false → c ≠ d := fun d hd h => by simp [← h, hc] at hd
  rw [hs, List.cons_append] at hnumber ⊢
  rw [parseValue, skipSpace_cons (isSpace_of_isNumberChar hc)]
  simp [hne '[' (by decide), hne '{' (by decide), hne '"' (by decide), hne 'n' (by decide),
    hne 't' (by decide), hne 'f' (by decide), hnumber]

theorem parseValue_str (s : String) (fuel : ℕ) (rest : List Char) :
    parseValue format (fuel + 1) (quote s.toList ++ rest) = some (.str s, rest) := by
  rw [quote, List.cons_append, List.append_assoc, parseValue, skipSpace_cons (by decide)]
  simp [parseChars_quote]

theorem parseValue_space {space : List Char} (hspace : ∀ c ∈ space, isSpace c = true)
    (fuel : ℕ) (text : List Char) :
    parseValue format fuel (space ++ text) = parseValue format fuel text := by
  cases fuel with
  | zero => rfl
  | succ fuel => rw [parseValue, parseValue, skipSpace, List.dropWhile_append_of_pos hspace]; rfl

theorem parseField_space {space : List Char} (hspace : ∀ c ∈ space, isSpace c = true)
    (fuel : ℕ) (text : List Char) :
    parseField format fuel (space ++ text) = parseField format fuel text := by
  cases fuel with
  | zero => rfl
  | succ fuel => rw [parseField, parseField, skipSpace, List.dropWhile_append_of_pos hspace]; rfl

theorem parseField_quote {before after : List Char} (hbefore : ∀ c ∈ before, isSpace c = true)
    (hafter : ∀ c ∈ after, isSpace c = true) (k : String) {v : Value ν} {fuel : ℕ}
    {text rest : List Char} (hvalue : parseValue format fuel text = some (v, rest)) :
    parseField format (fuel + 1) (quote k.toList ++ (before ++ ':' :: (after ++ text))) =
      some ((k, v), rest) := by
  have hcolon : skipSpace (before ++ ':' :: (after ++ text)) = ':' :: (after ++ text) := by
    rw [skipSpace, List.dropWhile_append_of_pos hbefore]
    rfl
  rw [quote, List.cons_append, List.append_assoc, parseField, skipSpace_cons (by decide)]
  simp only [List.cons_append, List.nil_append, parseChars_quote, Option.bind_some, hcolon,
    parseValue_space hafter, hvalue, Option.map_some, String.ofList_toList]

variable (format) in
theorem head_stringify (v : Value ν) :
    ∃ c text, stringify format v = c :: text ∧ isSpace c = false ∧ c ≠ ']' := by
  cases v with
  | num n =>
    obtain ⟨c, s, hs⟩ := List.exists_cons_of_ne_nil (format.text_ne_nil n)
    have hc : isNumberChar c = true := format.isNumberChar_text n c (by simp [hs])
    refine ⟨c, s, by rw [stringify, hs], isSpace_of_isNumberChar hc, ?_⟩
    rintro rfl
    exact absurd hc (by decide)
  | bool b => cases b <;> exact ⟨_, _, by rw [stringify], by decide, by decide⟩
  | arr vs => cases vs <;> exact ⟨_, _, by rw [stringify], by decide, by decide⟩
  | obj fs => cases fs <;> exact ⟨_, _, by rw [stringify], by decide, by decide⟩
  | null => exact ⟨_, _, by rw [stringify], by decide, by decide⟩
  | str s => exact ⟨_, _, by rw [stringify, quote], by decide, by decide⟩

theorem endsNumber_elementsText (vs : List (Value ν)) (rest : List Char) :
    EndsNumber (elementsText format vs ++ rest) := by
  cases vs <;> rw [elementsText] <;> exact EndsNumber.cons (by decide)

theorem endsNumber_fieldsText (fs : List (String × Value ν)) (rest : List Char) :
    EndsNumber (fieldsText format fs ++ rest) := by
  rcases fs with _ | ⟨⟨k, v⟩, fs⟩ <;> rw [fieldsText] <;> exact EndsNumber.cons (by decide)

variable (format) in
def Reads (fuel : ℕ) (v : Value ν) : Prop := ∀ rest, EndsNumber rest →
  parseValue format fuel (stringify format v ++ rest) = some (v, rest)

theorem Reads.elements {fuel : ℕ} {v : Value ν} {vs : List (Value ν)} {rest : List Char}
    (hv : Reads format fuel v)
    (hvs : parseElements format fuel (elementsText format vs ++ rest) = some (vs, rest)) :
    parseElements format (fuel + 1) (elementsText format (v :: vs) ++ rest) =
      some (v :: vs, rest) := by
  rw [elementsText, List.cons_append, List.append_assoc, parseElements, skipSpace_cons (by decide)]
  simp only [hv _ (endsNumber_elementsText vs rest), Option.bind_some, hvs, Option.map_some]

theorem Reads.arr {fuel : ℕ} {v : Value ν} {vs : List (Value ν)} {rest : List Char}
    (hv : Reads format fuel v)
    (hvs : parseElements format fuel (elementsText format vs ++ rest) = some (vs, rest)) :
    parseValue format (fuel + 1) (stringify format (.arr (v :: vs)) ++ rest) =
      some (.arr (v :: vs), rest) := by
  obtain ⟨c, text, htext, hc, hne⟩ := head_stringify format v
  have hends : EndsNumber (elementsText format vs ++ rest) := endsNumber_elementsText vs rest
  have hfirst := hv _ hends
  rw [stringify, List.cons_append, List.append_assoc, parseValue, skipSpace_cons (by decide)]
  rw [htext, List.cons_append] at hfirst ⊢
  simp only [↓reduceIte, skipSpace_cons hc, List.head?_cons, Option.some.injEq, hne, hfirst,
    Option.bind_some, hvs, Option.map_some]

theorem Reads.field {fuel : ℕ} {v : Value ν} (hv : Reads format fuel v) (k : String)
    (fs : List (String × Value ν)) (rest : List Char) :
    parseField format (fuel + 1)
      (quote k.toList ++ ':' :: (stringify format v ++ (fieldsText format fs ++ rest))) =
        some ((k, v), fieldsText format fs ++ rest) := by
  have hspace : ∀ c ∈ ([] : List Char), isSpace c = true := by simp
  exact parseField_quote hspace hspace k (hv _ (endsNumber_fieldsText fs rest))

theorem Reads.fields {fuel : ℕ} {k : String} {v : Value ν} {fs : List (String × Value ν)}
    {rest : List Char} (hv : Reads format fuel v)
    (hfs : parseFields format (fuel + 1) (fieldsText format fs ++ rest) = some (fs, rest)) :
    parseFields format (fuel + 2) (fieldsText format ((k, v) :: fs) ++ rest) =
      some ((k, v) :: fs, rest) := by
  rw [fieldsText, List.cons_append, List.append_assoc, List.cons_append, List.append_assoc,
    parseFields, skipSpace_cons (by decide)]
  simp only [hv.field k fs rest, Option.bind_some, hfs, Option.map_some]

theorem Reads.obj {fuel : ℕ} {k : String} {v : Value ν} {fs : List (String × Value ν)}
    {rest : List Char} (hv : Reads format fuel v)
    (hfs : parseFields format (fuel + 1) (fieldsText format fs ++ rest) = some (fs, rest)) :
    parseValue format (fuel + 2) (stringify format (.obj ((k, v) :: fs)) ++ rest) =
      some (.obj ((k, v) :: fs), rest) := by
  have hfield := hv.field k fs rest
  rw [stringify, List.cons_append, List.append_assoc, List.cons_append, List.append_assoc,
    parseValue, skipSpace_cons (by decide)]
  rw [quote, List.cons_append] at hfield ⊢
  simp only [Char.reduceEq, ↓reduceIte, skipSpace_cons (c := '"') (by decide), List.head?_cons,
    Option.some.injEq, hfield, Option.bind_some, hfs, Option.map_some]

def Value.IsLeaf : Value ν → Prop
  | .arr (_ :: _) | .obj (_ :: _) => False
  | _ => True

theorem Value.IsLeaf.reads {v : Value ν} (hv : v.IsLeaf) {fuel : ℕ}
    (hfuel : (stringify format v).length ≤ fuel) : Reads format fuel v := by
  obtain ⟨c, text, htext, -⟩ := head_stringify format v
  obtain ⟨fuel, rfl⟩ : ∃ m, fuel = m + 1 :=
    ⟨fuel - 1, by rw [htext, List.length_cons] at hfuel; omega⟩
  intro rest hrest
  cases v with
  | num n =>
    rw [stringify]
    exact parseValue_num n hrest
  | str s =>
    rw [stringify]
    exact parseValue_str s fuel rest
  | null => exact parseWord_append ['u', 'l', 'l'] rest .null
  | bool b =>
    cases b
    · exact parseWord_append ['a', 'l', 's', 'e'] rest (.bool false)
    · exact parseWord_append ['r', 'u', 'e'] rest (.bool true)
  | arr vs =>
    cases vs with
    | nil => rfl
    | cons v vs => exact hv.elim
  | obj fs =>
    cases fs with
    | nil => rfl
    | cons f fs => exact hv.elim

mutual

theorem reads_stringify : ∀ (v : Value ν) {fuel : ℕ}, (stringify format v).length ≤ fuel →
    Reads format fuel v
  | .arr (v :: vs), fuel, hfuel => by
    rw [stringify, List.length_cons, List.length_append] at hfuel
    obtain ⟨fuel, rfl⟩ : ∃ m, fuel = m + 1 := ⟨fuel - 1, by omega⟩
    intro rest hrest
    exact (reads_stringify v (by omega)).arr (reads_elementsText vs (by omega))
  | .obj ((k, v) :: fs), fuel, hfuel => by
    simp only [stringify, List.length_cons, List.length_append] at hfuel
    obtain ⟨fuel, rfl⟩ : ∃ m, fuel = m + 2 := ⟨fuel - 2, by omega⟩
    intro rest hrest
    exact (reads_stringify v (by omega)).obj (reads_fieldsText fs (by omega))
  | .arr [], _, hfuel | .obj [], _, hfuel | .null, _, hfuel | .bool _, _, hfuel
  | .num _, _, hfuel | .str _, _, hfuel => Value.IsLeaf.reads (by trivial) hfuel

theorem reads_elementsText : ∀ (vs : List (Value ν)) {fuel : ℕ} {rest : List Char},
    (elementsText format vs).length ≤ fuel →
      parseElements format fuel (elementsText format vs ++ rest) = some (vs, rest)
  | [], fuel, rest, hfuel => by
    obtain ⟨fuel, rfl⟩ : ∃ m, fuel = m + 1 := ⟨fuel - 1, (Nat.sub_add_cancel hfuel).symm⟩
    rfl
  | v :: vs, fuel, rest, hfuel => by
    rw [elementsText, List.length_cons, List.length_append] at hfuel
    obtain ⟨fuel, rfl⟩ : ∃ m, fuel = m + 1 := ⟨fuel - 1, by omega⟩
    exact (reads_stringify v (by omega)).elements (reads_elementsText vs (by omega))

theorem reads_fieldsText : ∀ (fs : List (String × Value ν)) {fuel : ℕ} {rest : List Char},
    (fieldsText format fs).length ≤ fuel →
      parseFields format fuel (fieldsText format fs ++ rest) = some (fs, rest)
  | [], fuel, rest, hfuel => by
    obtain ⟨fuel, rfl⟩ : ∃ m, fuel = m + 1 := ⟨fuel - 1, (Nat.sub_add_cancel hfuel).symm⟩
    rfl
  | (k, v) :: fs, fuel, rest, hfuel => by
    simp only [fieldsText, List.length_cons, List.length_append] at hfuel
    obtain ⟨fuel, rfl⟩ : ∃ m, fuel = m + 2 := ⟨fuel - 2, by omega⟩
    exact (reads_stringify v (by omega)).fields (reads_fieldsText fs (by omega))

end

theorem parse_stringify (v : Value ν) : parse format (stringify format v) = some v := by
  have hread : parseValue format ((stringify format v).length + 1) (stringify format v ++ []) =
      some (v, []) := reads_stringify v (Nat.le_succ _) [] (by rintro c ⟨⟩)
  rw [List.append_nil] at hread
  rw [parse, hread]
  rfl

end values

end JsonText

end Semprec
