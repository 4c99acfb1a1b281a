import Mathlib.Algebra.Order.Ring.Rat
import Mathlib.Data.Prod.Lex
import Mathlib.Order.Lattice
import Semprec.Json

/-!
# Postgres values

The `numeric` and `timestamptz` values, in the order Postgres sorts them in, and what the code
relies on Postgres for: which text a cast accepts and to what value, and how a value is written
out.
-/

namespace Semprec

/-- A `numeric`: `-Infinity` sorts first, then the numbers, then `Infinity` and `NaN`. -/
inductive Numeric where
  | negInfinity
  | finite (q : ℚ)
  | infinity
  | nan
deriving DecidableEq

namespace Numeric

def rank : Numeric → ℕ ×ₗ ℚ
  | .negInfinity => toLex (0, 0)
  | .finite q => toLex (1, q)
  | .infinity => toLex (2, 0)
  | .nan => toLex (3, 0)

theorem rank_injective : Function.Injective rank := by
  intro a b h
  cases a <;> cases b <;> simp_all [rank]

instance : LinearOrder Numeric := LinearOrder.lift' rank rank_injective

def add : Numeric → Numeric → Numeric
  | .finite p, .finite q => .finite (p + q)
  | .nan, _ | _, .nan | .infinity, .negInfinity | .negInfinity, .infinity => .nan
  | .infinity, _ | _, .infinity => .infinity
  | .negInfinity, _ | _, .negInfinity => .negInfinity

end Numeric

/-- A `timestamptz`, in microseconds, or one of the two infinities. -/
inductive Timestamp where
  | negInfinity
  | finite (micros : ℤ)
  | infinity
deriving DecidableEq

namespace Timestamp

def rank : Timestamp → ℕ ×ₗ ℤ
  | .negInfinity => toLex (0, 0)
  | .finite t => toLex (1, t)
  | .infinity => toLex (2, 0)

theorem rank_injective : Function.Injective rank := by
  intro a b h
  cases a <;> cases b <;> simp_all [rank]

instance : LinearOrder Timestamp := LinearOrder.lift' rank rank_injective

end Timestamp

inductive CastError where
  | invalidText (target : String) (text : String)
  | outOfRange (target : String)
deriving DecidableEq

/-- What the code takes from Postgres and its driver. -/
structure Postgres where
  /-- `text::numeric`; `none` when Postgres raises. -/
  numeric : String → Option Numeric
  /-- `text::timestamptz`; `none` when Postgres raises. -/
  timestamptz : String → Option Timestamp
  /-- `numeric::float8`, as the JavaScript number it becomes; `none` when it is out of range. -/
  float8 : Numeric → Option Json
  avg : List Numeric → Numeric
  /-- `count::float8 / count`. -/
  ratio : ℕ → ℕ → Json
  timestampJson : Timestamp → Json
  /-- The text of an array or an object. -/
  jsonbText : Json → String
  /-- `[[:digit:]]` in the collation of the database. -/
  digit : Char → Bool

def Decimal.text (d : Decimal) : String :=
  let digits := toString d.coefficient.natAbs
  let padded := "".pushn '0' (d.scale + 1 - digits.length) ++ digits
  let whole := padded.toList.take (padded.length - d.scale)
  let fraction := padded.toList.drop (padded.length - d.scale)
  (if d.coefficient < 0 then "-" else "") ++ String.ofList whole ++
    (if d.scale = 0 then "" else "." ++ String.ofList fraction)

namespace Postgres

variable (pg : Postgres)

/-- `value ->> …` of a value that is present: `NULL` for a JSON null. -/
def text : Json → Option String
  | .null => none
  | .str s => some s
  | .bool b => some (if b then "true" else "false")
  | .num n => some n.text
  | .arr xs => some (pg.jsonbText (.arr xs))
  | .obj fs => some (pg.jsonbText (.obj fs))

def castNumeric (text : String) : Except CastError Numeric :=
  match pg.numeric text with
  | some n => .ok n
  | none => .error (.invalidText "numeric" text)

def castTimestamptz (text : String) : Except CastError Timestamp :=
  match pg.timestamptz text with
  | some t => .ok t
  | none => .error (.invalidText "timestamptz" text)

def castFloat8 (n : Numeric) : Except CastError Json :=
  match pg.float8 n with
  | some v => .ok v
  | none => .error (.outOfRange "double precision")

end Postgres

end Semprec
