import Mathlib.Data.List.Sort
import Semprec.Lib.Runs

/-!
# Data migrations of a module

`runModuleDataMigration` converts the items of one database in pages by id, each in a transaction of
its own that also commits the progress, and then records the migration.  The first pass skips the
rows that another transaction holds locked, the second waits for them.  Meanwhile other transactions
insert items, with any ids, and hold locks; a crash loses the batch under way, and a later run
resumes from the progress.
-/

namespace Semprec

namespace ModuleDataMigration

variable {P : Type}

structure Item (P : Type) where
  id : ℕ
  original : P
  properties : P
  updatedAt : ℤ

inductive Pass where
  | one
  | two
deriving DecidableEq

structure Progress where
  pass : Pass
  cursor : Option ℕ
deriving DecidableEq

/-- Where the runner is; a batch keeps the ids its statement found, and those that another
transaction has held locked since. -/
inductive Runner where
  | between
  | batch (found : List ℕ) (held : List ℕ)
  | finished
deriving DecidableEq

/-- `progress` is the row of `module_migration_progress`, `recorded` says whether
`module_migrations` has one. -/
structure Sys (P : Type) where
  items : List (Item P)
  locked : List ℕ
  progress : Option Progress
  recorded : Bool
  runner : Option Runner

namespace Sys

/-- A database with these items, each an id and its properties. -/
def init (items : List (ℕ × P)) : Sys P where
  items := items.map fun i => ⟨i.1, i.2, i.2, 0⟩
  locked := []
  progress := none
  recorded := false
  runner := none

variable (s : Sys P)

def readProgress : Progress := s.progress.getD ⟨.one, none⟩

/-- The items of `lockItemBatch`, before they are locked and counted. -/
def idsAfter (cursor : Option ℕ) : List ℕ :=
  ((s.items.map (·.id)).filter fun id => cursor.all (· < id)).insertionSort (· ≤ ·)

end Sys

def convertItem [DecidableEq P] (converter : P → P) (now : ℤ) (item : Item P) : Item P :=
  if converter item.properties = item.properties then item
  else { item with properties := converter item.properties, updatedAt := now }

def nextProgress (pageSize : ℕ) (progress : Progress) (rows : List ℕ) : Progress × Bool :=
  let cursor := rows.getLast? <|> progress.cursor
  if rows.length = pageSize then (⟨progress.pass, cursor⟩, false)
  else if progress.pass = .one then (⟨.two, none⟩, false)
  else (⟨.two, cursor⟩, true)

inductive Act (P : Type) where
  | insert (id : ℕ) (properties : P)
  | lock (id : ℕ)
  | unlock (id : ℕ)
  | run
  | lockItemBatch
  | commitBatch (skipped : List ℕ) (now : ℤ)
  | record
  | crash

variable (converter : P → P) (pageSize : ℕ)

def step [DecidableEq P] (s : Sys P) : Act P → Option (Sys P)
  | .insert id properties =>
    if id ∈ s.items.map (·.id) then none
    else some { s with items := s.items ++ [⟨id, properties, properties, 0⟩] }
  | .lock id =>
    some { s with
      locked := id :: s.locked
      runner := s.runner.map fun
        | .batch found held => .batch found (id :: held)
        | runner => runner }
  | .unlock id => some { s with locked := s.locked.filter (· ≠ id) }
  | .run =>
    -- the advisory lock keeps a second runner out
    if s.runner = none ∧ s.recorded = false then some { s with runner := some .between } else none
  | .lockItemBatch =>
    if s.runner = some .between then
      some { s with runner := some (.batch (s.idsAfter s.readProgress.cursor) s.locked) }
    else none
  | .commitBatch skipped now =>
    match s.runner with
    | some (.batch found held) =>
      let rows := (found.filter (· ∉ skipped)).take pageSize
      if skipped ⊆ held ∧ (s.readProgress.pass = .two → skipped = []) ∧
          ∀ id ∈ rows, id ∉ s.locked then
        let next := nextProgress pageSize s.readProgress rows
        some { s with
          items := s.items.map fun item =>
            if item.id ∈ rows then convertItem converter now item else item
          progress := some next.1
          runner := some (if next.2 then .finished else .between) }
      else none
    | _ => none
  | .record =>
    if s.runner = some .finished then
      some { s with progress := none, recorded := true, runner := none }
    else none
  | .crash => s.runner.map fun _ => { s with runner := none }

/-! ## Completeness -/

def Sys.Converted (s : Sys P) : Prop :=
  ∀ item ∈ s.items, item.properties = converter item.original

def Item.Fits (item : Item P) : Prop := converter item.properties = item.properties

/-- The pass has gone past the id. -/
def Progress.Behind (progress : Progress) (id : ℕ) : Prop :=
  ∃ cursor ∈ progress.cursor, id ≤ cursor

instance (progress : Progress) (id : ℕ) : Decidable (progress.Behind id) := by
  unfold Progress.Behind
  infer_instance

/-- No item that the converter changes is inserted behind the second pass: below its cursor, among
the ids of a batch after its statement, or above the last batch before the migration is recorded. -/
def NoneBehind (s : Sys P) : Act P → Prop
  | .insert id properties => s.readProgress.pass = .two → s.readProgress.Behind id →
    converter properties = properties
  | .commitBatch _ _ => ∀ found held, s.runner = some (.batch found held) →
    s.readProgress.pass = .two → ∀ item ∈ s.items, item.id ∉ found →
      ¬ s.readProgress.Behind item.id →
        (∃ last ∈ (found.take pageSize).getLast?, item.id ≤ last) → item.Fits converter
  | .record => ∀ item ∈ s.items, ¬ s.readProgress.Behind item.id → item.Fits converter
  | _ => True

end ModuleDataMigration

end Semprec
