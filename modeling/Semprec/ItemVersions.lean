import Semprec.Items
import Semprec.Lib.Runs

/-!
# Versions of an item

One item's row under any number of transactions.  A transaction that writes the row, or reads it
`FOR UPDATE`, keeps it locked until its end, and what it writes is not seen before its commit.  The
version a read returns is `updated_at` in milliseconds; a write of the properties sets it to the
time its transaction began, and no other write changes it.
-/

namespace Semprec

namespace ItemVersions

/-- A committed change of the row; a write of the properties keeps the `now()` of its transaction. -/
inductive Change where
  | properties (now : ℤ)
  | computed
  | deletedAt
deriving DecidableEq

/-- The transaction that has the row locked: the row as it sees it, what it has changed, and the
`ifVersion` its updates carried, each with how much the transaction had changed before. -/
structure Hold where
  t : ℕ
  row : ItemRow
  changes : List Change
  passed : List (ℤ × ℕ)

/-- `started` are the open transactions with their `now()`, and `reads` the versions that have been
read, each with how many changes had been committed. -/
structure Sys where
  row : ItemRow
  history : List Change
  started : ℕ → Option ℤ
  hold : Option Hold
  reads : List (ℤ × ℕ)

def Sys.init (row : ItemRow) : Sys := ⟨row, [], fun _ => none, none, []⟩

/-- The writes of the row other than `updateItemProperties`: a migration's of the properties,
`writeComputed`, `softDeleteItem` and `restoreItem`. -/
inductive RowWrite where
  | properties (f : JsonObject → JsonObject)
  | computed (key : String) (value : Json)
  | softDelete
  | restore

def RowWrite.apply (now : ℤ) (row : ItemRow) : RowWrite → ItemRow
  | .properties f => { row with properties := f row.properties, updatedAt := now }
  | .computed key value => { row with computed := row.computed.merge [(key, value)] }
  | .softDelete => if row.deletedAt = none then { row with deletedAt := some now } else row
  | .restore => { row with deletedAt := none }

def RowWrite.change (now : ℤ) : RowWrite → Change
  | .properties _ => .properties now
  | .computed .. => .computed
  | .softDelete | .restore => .deletedAt

namespace Sys

variable (s : Sys)

def lock (t : ℕ) : Option Hold :=
  match s.hold with
  | none => some ⟨t, s.row, [], []⟩
  | some h => if h.t = t then some h else none

def rollback (t : ℕ) : Sys :=
  { s with
    started := Function.update s.started t none
    hold := s.hold.filter (·.t ≠ t) }

def updateItemProperties (h : Hold) (now : ℤ) (ifVersion : Option ℤ) (patch : JsonObject) :
    Except Failure Hold :=
  (Items.lockUpdatable { Store.empty with items := [h.row] } h.row.databaseId h.row.id
    ifVersion).map fun current =>
      { h with
        row := { current with properties := current.properties.merge patch, updatedAt := now }
        changes := h.changes ++ [.properties now]
        passed := h.passed ++ ifVersion.toList.map fun v => (v, h.changes.length) }

end Sys

inductive Act where
  | begin (t : ℕ) (now : ℤ)
  | lockItem (t : ℕ)
  | update (t : ℕ) (ifVersion : Option ℤ) (patch : JsonObject)
  | write (t : ℕ) (w : RowWrite)
  | commit (t : ℕ)
  | rollback (t : ℕ)
  | read

def step (s : Sys) : Act → Option Sys
  | .begin t now =>
    if s.started t = none then some { s with started := Function.update s.started t (some now) }
    else none
  | .lockItem t =>
    (s.started t).bind fun _ => (s.lock t).map fun h => { s with hold := some h }
  | .update t ifVersion patch =>
    (s.started t).bind fun now => (s.lock t).map fun h =>
      match Sys.updateItemProperties h now ifVersion patch with
      | .ok h => { s with hold := some h }
      | .error _ => s.rollback t
  | .write t w =>
    (s.started t).bind fun now => (s.lock t).map fun h =>
      { s with hold := some { h with
          row := w.apply now h.row
          changes := h.changes ++ [w.change now] } }
  | .commit t =>
    (s.started t).map fun _ =>
      match s.hold.filter (·.t = t) with
      | some h => { s with
          row := h.row
          history := s.history ++ h.changes
          started := Function.update s.started t none
          hold := none }
      | none => { s with started := Function.update s.started t none }
  | .rollback t => (s.started t).map fun _ => s.rollback t
  | .read => some { s with reads := s.reads ++ [(toISOString s.row.updatedAt, s.history.length)] }

/-! ## What a version stands for -/

/-- The `now()` of the last write of the properties among the changes. -/
def lastWrite : List Change → Option ℤ
  | [] => none
  | c :: cs => lastWrite cs <|> match c with
    | .properties now => some now
    | _ => none

/-- An update whose `ifVersion` an earlier read returned passes only if the properties have not been
written since that read, or were last written by a transaction that began in the millisecond of that
version: this brings the version back, whatever has been written before. -/
def Sys.Guarded (s : Sys) : Prop :=
  ∀ h, s.hold = some h → ∀ v k, (v, k) ∈ h.passed → ∀ n, (v, n) ∈ s.reads →
    (∀ now, .properties now ∉ s.history.drop n ++ h.changes.take k) ∨
      ∃ now, lastWrite (s.history.drop n ++ h.changes.take k) = some now ∧ toISOString now = v

def Sys.NoChange (s : Sys) : Prop :=
  ∀ h, s.hold = some h → ∀ v k, (v, k) ∈ h.passed → ∀ n, (v, n) ∈ s.reads →
    s.history.drop n = []

end ItemVersions

end Semprec
