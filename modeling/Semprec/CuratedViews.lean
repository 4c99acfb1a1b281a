import Mathlib.Data.Int.Order.Basic
import Mathlib.Data.List.Sort
import Semprec.Lib.Pages
import Semprec.Lib.ReadCommitted
import Semprec.Lib.Runs

/-!
# The members of a curated view

Any number of open transactions add, remove and reorder the members of views, and purge items; each
reads and writes `view_items` in statements of its own.  Adding and reordering lock the row of the
view, the others do not.  There is no unique constraint on the positions of a view.
-/

namespace Semprec

namespace CuratedViews

structure ViewItemRow where
  viewId : ℕ
  itemId : ℕ
  position : ℤ
deriving DecidableEq

/-- The greatest `integer` of the database. -/
def maxPosition : ℤ := 2147483647

def members (viewId : ℕ) (rows : List ViewItemRow) : List ViewItemRow :=
  rows.filter (·.viewId = viewId)

inductive Write where
  | lockView (viewId : ℕ)
  | lockRow (viewId itemId : ℕ)
  | shift (viewId : ℕ) (itemIds : List ℕ) (distance : ℤ)
  | setPosition (viewId itemId : ℕ) (position : ℤ)
  | insert (row : ViewItemRow)
  | delete (viewId itemId : ℕ)
deriving DecidableEq

def apply (rows : List ViewItemRow) : Write → List ViewItemRow
  | .lockView _ | .lockRow _ _ => rows
  | .shift viewId itemIds distance => rows.map fun row =>
    if row.viewId = viewId ∧ row.itemId ∈ itemIds then
      { row with position := row.position + distance }
    else row
  | .setPosition viewId itemId position => rows.map fun row =>
    if row.viewId = viewId ∧ row.itemId = itemId then { row with position } else row
  | .insert row => rows ++ [row]
  | .delete viewId itemId => rows.filter fun row => ¬(row.viewId = viewId ∧ row.itemId = itemId)

def Write.touches (viewId itemId : ℕ) : Write → Bool
  | .lockView _ => false
  | .lockRow viewId' itemId' | .setPosition viewId' itemId' _ | .delete viewId' itemId' =>
    viewId' = viewId ∧ itemId' = itemId
  | .shift viewId' itemIds _ => viewId' = viewId ∧ itemId ∈ itemIds
  | .insert row => row.viewId = viewId ∧ row.itemId = itemId

inductive ItemState where
  | live
  | trashed
deriving DecidableEq

inductive Op where
  | add (viewId itemId : ℕ) (position : Option ℤ)
  | remove (viewId itemId : ℕ)
  | reorder (viewId itemId : ℕ) (position : ℤ)
  /-- `deleteItemDependents`. -/
  | purge (itemId : ℕ)
deriving DecidableEq

def Op.itemId : Op → ℕ
  | .add _ itemId _ | .remove _ itemId | .reorder _ itemId _ | .purge itemId => itemId

/-- The view that an operation gives positions in. -/
def Op.placesIn : Op → Option ℕ
  | .add viewId _ _ | .reorder viewId _ _ => some viewId
  | .remove _ _ | .purge _ => none

def viewItemPosition (position : ℤ) : Bool := 0 ≤ position ∧ position ≤ maxPosition

inductive Phase where
  | begun
  | lockedView
  /-- The item to add is no member yet. -/
  | placing
  /-- The members from the position on have made room. -/
  | inserting (position : ℤ)
  /-- The item to move is at this position. -/
  | moving (current : ℤ)
  /-- The members between the old and the new position are shifted. -/
  | setting
  | done (result : Option ViewItemRow)
deriving DecidableEq

structure Tx where
  op : Op
  phase : Phase
deriving DecidableEq

/-- `items` are those the caller's tenant sees. -/
structure Sys where
  db : ReadCommitted (List ViewItemRow) Write
  txs : ℕ → Option Tx
  items : ℕ → Option ItemState

def Sys.init (items : ℕ → Option ItemState) : Sys := ⟨.init [], fun _ => none, items⟩

inductive Act where
  | begin (t : ℕ) (op : Op)
  /-- `SELECT id FROM views … FOR UPDATE`. -/
  | lockView (t : ℕ)
  /-- `SELECT position FROM view_items … FOR UPDATE`. -/
  | selectPosition (t : ℕ)
  /-- The next position, or the shift that makes room. -/
  | place (t : ℕ)
  | insert (t : ℕ)
  /-- The shift of the members between the old and the new position. -/
  | shiftBetween (t : ℕ)
  | setPosition (t : ℕ)
  | remove (t : ℕ)
  /-- One row of `DELETE FROM view_items WHERE item_id = …`. -/
  | purgeRow (t viewId : ℕ)
  | commit (t : ℕ)
  /-- The operation throws, or the connection is lost. -/
  | abort (t : ℕ)
  /-- An item is created, trashed, restored or purged. -/
  | setItem (itemId : ℕ) (state : Option ItemState)

def Sys.seen (s : Sys) (t viewId : ℕ) : List ViewItemRow :=
  members viewId (s.db.view apply t)

def Sys.write (s : Sys) (t : ℕ) (writes : List Write) (tx : Tx) : Option Sys :=
  (s.db.write t writes).map fun db => { s with db, txs := Function.update s.txs t (some tx) }

/-- `COALESCE(MAX(position), -1) + 1`. -/
def nextPosition (rows : List ViewItemRow) : ℤ :=
  ((rows.map (·.position)).max?.getD (-1)) + 1

/-- `UPDATE view_items SET position = position ± 1`, which waits for the rows it is to write and
fails when one has no such position. -/
def Sys.shift (s : Sys) (t viewId : ℕ) (within : ℤ → Bool) (distance : ℤ) (tx : Tx) : Option Sys :=
  let rows := (s.seen t viewId).filter fun row => within row.position
  if (∃ row ∈ rows, s.db.Locked t (Write.touches viewId row.itemId)) ∨
      ∃ row ∈ rows, maxPosition < row.position + distance then none
  else s.write t [.shift viewId (rows.map (·.itemId)) distance] tx

def step (s : Sys) : Act → Option Sys
  | .begin t op =>
    let accepted : Bool := match op with
      | .add _ itemId position => s.items itemId = some .live ∧ position.all viewItemPosition
      | .reorder _ _ position => viewItemPosition position
      | .remove _ _ | .purge _ => true
    if accepted then
      (s.db.begin t).map fun db =>
        { s with db, txs := Function.update s.txs t (some ⟨op, .begun⟩) }
    else none
  | .lockView t =>
    match s.txs t with
    | some ⟨op, .begun⟩ =>
      match op.placesIn with
      | some viewId =>
        if s.db.Locked t (· = .lockView viewId) then none
        else s.write t [.lockView viewId] ⟨op, .lockedView⟩
      | none => none
    | _ => none
  | .selectPosition t =>
    match s.txs t with
    | some ⟨.add viewId itemId position, .lockedView⟩ =>
      if s.db.Locked t (Write.touches viewId itemId) then none
      else match (s.seen t viewId).find? (·.itemId = itemId), position with
        | none, _ => s.write t [] ⟨.add viewId itemId position, .placing⟩
        | some row, none =>
          s.write t [.lockRow viewId itemId] ⟨.add viewId itemId position, .done (some row)⟩
        -- adding a member is a move
        | some _, some position =>
          s.write t [.lockRow viewId itemId] ⟨.reorder viewId itemId position, .begun⟩
    | some ⟨.reorder viewId itemId position, .lockedView⟩ =>
      if s.db.Locked t (Write.touches viewId itemId) then none
      else match (s.seen t viewId).find? (·.itemId = itemId) with
        | none => none
        | some row =>
          s.write t [.lockRow viewId itemId]
            ⟨.reorder viewId itemId position, .moving row.position⟩
    | _ => none
  | .place t =>
    match s.txs t with
    | some ⟨.add viewId itemId none, .placing⟩ =>
      let position := nextPosition (s.seen t viewId)
      if maxPosition < position then none
      else s.write t [] ⟨.add viewId itemId none, .inserting position⟩
    | some ⟨.add viewId itemId (some position), .placing⟩ =>
      s.shift t viewId (fun p => position ≤ p) 1
        ⟨.add viewId itemId (some position), .inserting position⟩
    | _ => none
  | .insert t =>
    match s.txs t with
    | some ⟨.add viewId itemId requested, .inserting position⟩ =>
      -- the primary key
      if s.db.Locked t (Write.touches viewId itemId) ∨
          (s.seen t viewId).any (·.itemId = itemId) then none
      else s.write t [.insert ⟨viewId, itemId, position⟩]
        ⟨.add viewId itemId requested, .done (some ⟨viewId, itemId, position⟩)⟩
    | _ => none
  | .shiftBetween t =>
    match s.txs t with
    | some ⟨.reorder viewId itemId position, .moving current⟩ =>
      let tx : Tx := ⟨.reorder viewId itemId position, .setting⟩
      if current < position then
        s.shift t viewId (fun p => current < p ∧ p ≤ position) (-1) tx
      else if position < current then
        s.shift t viewId (fun p => position ≤ p ∧ p < current) 1 tx
      else s.write t [] tx
    | _ => none
  | .setPosition t =>
    match s.txs t with
    | some ⟨.reorder viewId itemId position, .setting⟩ =>
      if s.db.Locked t (Write.touches viewId itemId) then none
      else if (s.seen t viewId).any (·.itemId = itemId) then
        s.write t [.setPosition viewId itemId position]
          ⟨.reorder viewId itemId position, .done (some ⟨viewId, itemId, position⟩)⟩
      else none
    | _ => none
  | .remove t =>
    match s.txs t with
    | some ⟨.remove viewId itemId, .begun⟩ =>
      if s.db.Locked t (Write.touches viewId itemId) then none
      else if (s.seen t viewId).any (·.itemId = itemId) then
        s.write t [.delete viewId itemId] ⟨.remove viewId itemId, .done none⟩
      else none
    | _ => none
  | .purgeRow t viewId =>
    match s.txs t with
    | some ⟨.purge itemId, phase⟩ =>
      if s.db.Locked t (Write.touches viewId itemId) then none
      else s.write t [.delete viewId itemId] ⟨.purge itemId, phase⟩
    | _ => none
  | .commit t =>
    match s.txs t with
    | some ⟨.purge _, _⟩ | some ⟨_, .done _⟩ =>
      (s.db.commit apply t).map fun db => { s with db, txs := Function.update s.txs t none }
    | _ => none
  | .abort t =>
    (s.db.rollback t).map fun db => { s with db, txs := Function.update s.txs t none }
  | .setItem itemId state => some { s with items := Function.update s.items itemId state }

/-! ## Listing and paging -/

def listViewItems (rows : List ViewItemRow) (viewId : ℕ) : List ViewItemRow :=
  (members viewId rows).insertionSort (·.position ≤ ·.position)

def listLiveViewItemsAfter (rows : List ViewItemRow) (items : ℕ → Option ItemState) (viewId : ℕ)
    (afterPosition : Option ℤ) (limit : ℕ) : List ViewItemRow :=
  (((members viewId rows).filter fun row => items row.itemId = some .live ∧
    afterPosition.all (· < row.position)).insertionSort (·.position ≤ ·.position)).take limit

def getItemsByIds (items : ℕ → Option ItemState) (itemId : ℕ) : Option (ℕ × ItemState) :=
  match items itemId with
  | some .live => some (itemId, .live)
  | _ => none

def getItemsByIdsIncludingDeleted (items : ℕ → Option ItemState) (itemId : ℕ) :
    Option (ℕ × ItemState) :=
  (items itemId).map (itemId, ·)

/-- The cursor is the text of a position; a text that is no number is refused. -/
def queryCuratedView (rows : List ViewItemRow) (items : ℕ → Option ItemState) (viewId : ℕ)
    (limit : Option ℕ) (includeDeleted : Bool) (cursorPosition : Option ℤ) :
    List (ℕ × ItemState) × Option ℤ :=
  let limit := min (limit.getD 50) 200
  let afterCursor :=
    if includeDeleted then
      (listViewItems rows viewId).filter fun m => cursorPosition.all (· < m.position)
    else listLiveViewItemsAfter rows items viewId cursorPosition (limit + 1)
  let page := afterCursor.take limit
  let lookup := if includeDeleted then getItemsByIdsIncludingDeleted items else getItemsByIds items
  (page.filterMap fun m => lookup m.itemId,
    if limit < afterCursor.length then page.getLast?.map (·.position) else none)

end CuratedViews

end Semprec
