import Mathlib.Logic.Function.Basic
import Semprec.Lib.Utf16

/-!
# The order in which a tenant's tables are purged

`orderTablesForPurge` of `data/src/tenancy/tenantPurgeOrder.ts`: a table is taken as soon as every
table that references it has been, the alphabetically first of them first.
-/

namespace Semprec

namespace TenantPurgeOrder

structure TableForeignKey where
  table : String
  referencedTable : String
deriving DecidableEq

def addToSet (set : List String) (name : String) : List String :=
  if name ∈ set then set else set ++ [name]

/-- The maps are asked for known tables only. -/
structure TableGraph where
  pendingChildren : String → List String
  parentsOf : String → List String

def TableGraph.addKey (known : List String) (graph : TableGraph) (key : TableForeignKey) :
    TableGraph :=
  if key.table = key.referencedTable ∨ key.table ∉ known ∨ key.referencedTable ∉ known then graph
  else
    { pendingChildren := Function.update graph.pendingChildren key.referencedTable
        (addToSet (graph.pendingChildren key.referencedTable) key.table)
      parentsOf := Function.update graph.parentsOf key.table
        (addToSet (graph.parentsOf key.table) key.referencedTable) }

def tableGraph (known : List String) (foreignKeys : List TableForeignKey) : TableGraph :=
  foreignKeys.foldl (TableGraph.addKey known) ⟨fun _ => [], fun _ => []⟩

structure PurgeState where
  ordered : List String
  ready : List String
  pendingChildren : String → List String

def PurgeState.release (name : String) (s : PurgeState) (parent : String) : PurgeState :=
  let waiting := (s.pendingChildren parent).filter fun child => child ≠ name
  { ordered := s.ordered
    ready := if waiting = [] then Utf16.sort (s.ready ++ [parent]) else s.ready
    pendingChildren := Function.update s.pendingChildren parent waiting }

def takeTables (parentsOf : String → List String) : ℕ → PurgeState → Option (List String)
  | 0, _ => none
  | fuel + 1, s =>
    match s.ready with
    | [] => some s.ordered
    | name :: ready =>
      takeTables parentsOf fuel
        ((parentsOf name).foldl (PurgeState.release name)
          { s with ordered := s.ordered ++ [name], ready })

/-- No run takes more rounds than there are tables, and one that finds `ready` empty. -/
def orderTablesForPurge (tables : List String) (foreignKeys : List TableForeignKey) :
    Option (Except String (List String)) :=
  let known := tables.foldl addToSet []
  let graph := tableGraph known foreignKeys
  let ready := Utf16.sort (known.filter fun name => graph.pendingChildren name = [])
  (takeTables graph.parentsOf (known.length + 1) ⟨[], ready, graph.pendingChildren⟩).map
    fun ordered =>
      if ordered.length ≠ known.length then
        let stuck := Utf16.sort (known.filter fun name => name ∉ ordered)
        .error ("Foreign keys form a cycle; tables on or behind it: " ++ ", ".intercalate stuck)
      else .ok ordered

def References (tables : List String) (foreignKeys : List TableForeignKey)
    (child parent : String) : Prop :=
  ⟨child, parent⟩ ∈ foreignKeys ∧ child ≠ parent ∧ child ∈ tables ∧ parent ∈ tables

end TenantPurgeOrder

end Semprec
