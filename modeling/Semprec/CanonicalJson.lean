import Semprec.Lib.JsonText
import Semprec.Lib.Utf16

/-!
# The canonical text of a JSON value

`canonicalizeJson` of `shared/src/canonicalJson.ts`: no whitespace, and the fields of an object in
the order that `<` gives their keys.
-/

namespace Semprec

namespace CanonicalJson

open JsonText

variable {ν : Type}

def compareByCodePoint (a b : String) : ℤ :=
  if Utf16.codeUnits a < Utf16.codeUnits b then -1
  else if Utf16.codeUnits b < Utf16.codeUnits a then 1
  else 0

/-- The keys sorted by `compareByCodePoint`. -/
def sortKeys (keys : List String) : List String :=
  keys.insertionSort fun a b => compareByCodePoint a b ≤ 0

def join : List (List Char) → List Char
  | [] => []
  | [text] => text
  | text :: texts => text ++ ',' :: join texts

section
variable (format : NumberFormat ν)

mutual

def canonicalizeJson : Value ν → List Char
  | .null => ['n', 'u', 'l', 'l']
  | .num n => stringify format (.num n)
  | .bool b => stringify format (.bool b)
  | .str s => stringify format (.str s)
  | .arr vs => '[' :: (join (canonicalElements vs) ++ [']'])
  | .obj fs =>
    let record := canonicalFields fs
    let keys := sortKeys (fs.map Prod.fst)
    '{' :: (join (keys.map fun key => quote key.toList ++ ':' :: (record.lookup key).getD []) ++
      ['}'])

def canonicalElements : List (Value ν) → List (List Char)
  | [] => []
  | v :: vs => canonicalizeJson v :: canonicalElements vs

def canonicalFields : List (String × Value ν) → List (String × List Char)
  | [] => []
  | (k, v) :: fs => (k, canonicalizeJson v) :: canonicalFields fs

end

end

/-! ### What is said of it -/

inductive EveryObject (p : List String → Prop) : Value ν → Prop
  | null : EveryObject p .null
  | bool (b : Bool) : EveryObject p (.bool b)
  | num (n : ν) : EveryObject p (.num n)
  | str (s : String) : EveryObject p (.str s)
  | arr {vs : List (Value ν)} : (∀ v ∈ vs, EveryObject p v) → EveryObject p (.arr vs)
  | obj {fs : List (String × Value ν)} : p (fs.map Prod.fst) →
      (∀ f ∈ fs, EveryObject p f.2) → EveryObject p (.obj fs)

/-- No object has two fields of one key. -/
structure JsonValue (ν : Type) where
  value : Value ν
  distinct : EveryObject List.Nodup value

/-- The values are equal up to the order of the fields of the objects in them. -/
inductive Same : Value ν → Value ν → Prop
  | null : Same .null .null
  | bool (b : Bool) : Same (.bool b) (.bool b)
  | num (n : ν) : Same (.num n) (.num n)
  | str (s : String) : Same (.str s) (.str s)
  | arr {vs ws : List (Value ν)} : List.Forall₂ Same vs ws → Same (.arr vs) (.arr ws)
  | obj {fs fs' gs : List (String × Value ν)} : fs.Perm fs' →
      fs'.map Prod.fst = gs.map Prod.fst →
      List.Forall₂ Same (fs'.map Prod.snd) (gs.map Prod.snd) → Same (.obj fs) (.obj gs)

/-- Equal texts are those of equal values, and the text reads back as an equal value. -/
def Canonical (format : NumberFormat ν) (v : JsonValue ν) : Prop :=
  (∀ w : JsonValue ν, canonicalizeJson format v.value = canonicalizeJson format w.value ↔
    Same v.value w.value) ∧
  ∃ w, parse format (canonicalizeJson format v.value) = some w ∧ Same v.value w

def CodePointOrder (keys : List String) : Prop := keys.Pairwise fun a b => a.toList < b.toList

def KeysInOrder (format : NumberFormat ν) (v : JsonValue ν) : Prop :=
  ∀ w, parse format (canonicalizeJson format v.value) = some w → EveryObject CodePointOrder w

/-- No two of the keys first differ in a character above `U+FFFF` and one from `U+E000` on below
it. -/
def NoClash (keys : List String) : Prop :=
  ∀ a ∈ keys, ∀ b ∈ keys, ¬Utf16.Clash a.toList b.toList

end CanonicalJson

end Semprec
