import Mathlib.Data.Nat.Notation
import Mathlib.Logic.Function.Basic
import Semprec.Json
import Semprec.Lib.Runs

/-!
# The flags of messages

The `read` and `flagged` properties of Emails items, their rows of `mail_message_flag_sync_state`,
and the copies of the messages at the provider.  A reconcile pass is one transaction: it applies the
flags it fetched, lists the pending writes, writes them to the provider and confirms them, and
commits or rolls back.  Its writes, and the locks they take, are its own until then; the provider
keeps what was written to it.
-/

namespace Semprec

namespace MailFlags

inductive MailMessageFlagKey where
  | read
  | flagged
deriving DecidableEq

structure Slot where
  messageItemId : ℕ
  propertyKey : MailMessageFlagKey
deriving DecidableEq

/-- A row of `mail_message_flag_sync_state`. -/
structure SyncState where
  desiredState : Bool
  currentState : Option Bool
deriving DecidableEq

/-- `current_state IS DISTINCT FROM desired_state`. -/
def SyncState.pending (row : SyncState) : Bool := row.currentState != some row.desiredState

def isBool (value : Option Json) (b : Bool) : Bool :=
  match value with
  | some (.bool x) => x == b
  | _ => false

structure Property where
  value : Option Json
  byUser : Bool

structure Observation where
  messageItemId : ℕ
  copy : ℕ
  flags : MailMessageFlagKey → Bool

structure PendingFlagWrite where
  slot : Slot
  desiredState : Bool
  copies : List ℕ

/-- A value of the user that an observation replaced; `changed` says whether the flag of the copy
had been changed at the provider since it held that value. -/
structure Replacement where
  slot : Slot
  copy : ℕ
  changed : Bool
deriving DecidableEq

/-- `listed` is `none` as long as folders are reconciled. -/
structure Pass where
  observed : List Observation
  listed : Option (List PendingFlagWrite)
  items : Slot → Option Bool
  syncs : Slot → Option SyncState
  lockedItems : ℕ → Bool
  replaced : List Replacement

def Pass.start : Pass := ⟨[], none, fun _ => none, fun _ => none, fun _ => false, []⟩

/-- The committed tables, the provider and the passes.  `held` and `changed` are the history of a
copy since the user last set the flag: that it has had the user's value, and that it was then
changed at the provider. -/
structure Sys where
  items : Slot → Property
  syncs : Slot → Option SyncState
  provider : Slot → ℕ → Option Bool
  passes : ℕ → Option Pass
  nextPass : ℕ
  held : Slot → ℕ → Bool
  changed : Slot → ℕ → Bool
  replaced : List Replacement

def Sys.init (values : Slot → Option Json) (provider : Slot → ℕ → Option Bool) : Sys where
  items slot := ⟨values slot, false⟩
  syncs _ := none
  provider := provider
  passes _ := none
  nextPass := 0
  held _ _ := false
  changed _ _ := false
  replaced := []

def agrees (value : Option Json) (copy : Option Bool) : Bool := copy.all (isBool value)

namespace Sys

variable (s : Sys)

def ItemFree (p : Option ℕ) (messageItemId : ℕ) : Prop :=
  ∀ q < s.nextPass, some q ≠ p → (s.passes q).all (fun x => !x.lockedItems messageItemId) = true

/-- No other transaction holds the sync row. -/
def SyncFree (p : Option ℕ) (slot : Slot) : Prop :=
  ∀ q < s.nextPass, some q ≠ p → (s.passes q).all (fun x => (x.syncs slot).isNone) = true

instance (p : Option ℕ) (messageItemId : ℕ) : Decidable (s.ItemFree p messageItemId) := by
  unfold ItemFree
  infer_instance

instance (p : Option ℕ) (slot : Slot) : Decidable (s.SyncFree p slot) := by
  unfold SyncFree
  infer_instance

def item (x : Pass) (slot : Slot) : Property :=
  match x.items slot with
  | some b => ⟨some (.bool b), false⟩
  | none => s.items slot

def sync (x : Pass) (slot : Slot) : Option SyncState := (x.syncs slot).or (s.syncs slot)

def setPass (p : ℕ) (x : Pass) : Sys := { s with passes := Function.update s.passes p (some x) }

end Sys

def writesSync : Option Json → Bool
  | some (.bool _) => true
  | _ => false

/-- `recordDesiredMailMessageFlags`, for a value of the patch. -/
def recordDesired (row : Option SyncState) : Json → Option SyncState
  | .bool b => some ⟨b, row.bind SyncState.currentState⟩
  | _ => row

/-- `recordObservedMailMessageFlags`: the desired state follows in a row that has converged. -/
def recordObserved (row : Option SyncState) (value : Bool) : SyncState :=
  match row with
  | none => ⟨value, some value⟩
  | some row => ⟨if row.pending then row.desiredState else value, some value⟩

/-- `applyObservedMailMessageFlags`, for one of the two flags. -/
def observeFlag (s : Sys) (o : Observation) (x : Pass) (key : MailMessageFlagKey) : Pass :=
  let slot : Slot := ⟨o.messageItemId, key⟩
  let value := o.flags key
  let row := s.sync x slot
  let replaces := !row.any SyncState.pending && !isBool (s.item x slot).value value
  { x with
    items := if replaces then Function.update x.items slot (some value) else x.items
    syncs := Function.update x.syncs slot (some (recordObserved row value))
    replaced :=
      if replaces && (s.item x slot).byUser then
        x.replaced ++ [⟨slot, o.copy, s.changed slot o.copy⟩]
      else x.replaced }

def applyObserved (s : Sys) (x : Pass) (o : Observation) : Pass :=
  let x := observeFlag s o (observeFlag s o x .read) .flagged
  { x with lockedItems := Function.update x.lockedItems o.messageItemId true }

inductive Act where
  | userUpdate (messageItemId : ℕ) (patch : MailMessageFlagKey → Option Json)
  /-- Another client changes the flag of a copy; `none` when the copy is not there. -/
  | providerChange (slot : Slot) (copy : ℕ) (value : Option Bool)
  | begin
  | fetch (p messageItemId copy : ℕ)
  | apply (p : ℕ)
  /-- `listPendingImapFlagWrites`: the slots and copies that the folder edges lead to. -/
  | list (p : ℕ) (edges : List (Slot × List ℕ))
  | write (p : ℕ)
  | confirm (p : ℕ)
  | commit (p : ℕ)
  | rollback (p : ℕ)

def record (s : Sys) (slot : Slot) (copy : ℕ) (value : Option Bool) : Sys :=
  { s with
    provider := Function.update s.provider slot (Function.update (s.provider slot) copy value)
    held := Function.update s.held slot (Function.update (s.held slot) copy
      (s.held slot copy || agrees (s.items slot).value value)) }

def step (s : Sys) : Act → Option Sys
  | .userUpdate m patch =>
    if s.ItemFree none m ∧ (writesSync (patch .read) = true → s.SyncFree none ⟨m, .read⟩) ∧
        (writesSync (patch .flagged) = true → s.SyncFree none ⟨m, .flagged⟩) then
      let patched := fun slot : Slot =>
        if slot.messageItemId = m then patch slot.propertyKey else none
      some { s with
        items := fun slot => (patched slot).elim (s.items slot) fun v => ⟨some v, true⟩
        syncs := fun slot => (patched slot).elim (s.syncs slot) (recordDesired (s.syncs slot))
        held := fun slot => (patched slot).elim (s.held slot) fun v c =>
          agrees (some v) (s.provider slot c)
        changed := fun slot => (patched slot).elim (s.changed slot) fun _ _ => false }
    else none
  | .providerChange slot c value =>
    if s.provider slot c = value then none
    else some { record s slot c value with
      changed := Function.update s.changed slot (Function.update (s.changed slot) c
        (s.changed slot c || (s.held slot c && !agrees (s.items slot).value value))) }
  | .begin =>
    some { s.setPass s.nextPass .start with nextPass := s.nextPass + 1 }
  | .fetch p m c =>
    match s.passes p, s.provider ⟨m, .read⟩ c, s.provider ⟨m, .flagged⟩ c with
    | some x, some read, some flagged =>
      if x.listed.isNone then
        some (s.setPass p { x with observed := x.observed ++ [⟨m, c, fun
          | .read => read
          | .flagged => flagged⟩] })
      else none
    | _, _, _ => none
  | .apply p =>
    match s.passes p with
    | some x =>
      match x.observed with
      | o :: observed =>
        if x.listed.isNone ∧ s.ItemFree (some p) o.messageItemId ∧
            s.SyncFree (some p) ⟨o.messageItemId, .read⟩ ∧
            s.SyncFree (some p) ⟨o.messageItemId, .flagged⟩ then
          some (s.setPass p (applyObserved s { x with observed } o))
        else none
      | [] => none
    | none => none
  | .list p edges =>
    match s.passes p with
    | some x =>
      if x.listed.isNone ∧ x.observed.isEmpty then
        some (s.setPass p { x with listed := some (edges.filterMap fun edge =>
          match s.sync x edge.1 with
          | some row =>
            if row.pending ∧ edge.2 ≠ [] then some ⟨edge.1, row.desiredState, edge.2⟩ else none
          | none => none) })
      else none
    | none => none
  | .write p =>
    match s.passes p with
    | some x =>
      match x.listed with
      | some (⟨slot, desiredState, c :: copies⟩ :: writes) =>
        some ((record s slot c ((s.provider slot c).map fun _ => desiredState)).setPass p
          { x with listed := some (⟨slot, desiredState, copies⟩ :: writes) })
      | _ => none
    | none => none
  | .confirm p =>
    match s.passes p with
    | some x =>
      match x.listed with
      | some (⟨slot, desiredState, []⟩ :: writes) =>
        match s.sync x slot with
        | some row =>
          if s.SyncFree (some p) slot then
            some (s.setPass p { x with
              listed := some writes
              syncs := Function.update x.syncs slot
                (some { row with currentState := some desiredState }) })
          else none
        | none => none
      | _ => none
    | none => none
  | .commit p =>
    match s.passes p with
    | some x =>
      match x.listed with
      | some [] => some { s with
          items := s.item x
          syncs := s.sync x
          passes := Function.update s.passes p none
          replaced := s.replaced ++ x.replaced }
      | _ => none
    | none => none
  | .rollback p =>
    match s.passes p with
    | some _ => some { s with passes := Function.update s.passes p none }
    | none => none

/-! ## Flags that are kept -/

structure FlagsKept (s : Sys) : Prop where
  desired : ∀ slot row, s.syncs slot = some row →
    (s.items slot).value = some (.bool row.desiredState)
  kept : ∀ r ∈ s.replaced, r.changed = true

inductive InFlight (s : Sys) (slot : Slot) (b : Bool) (c : ℕ) : Prop where
  | provider : s.provider slot c = some b → InFlight s slot b c
  | observed {p : ℕ} {x : Pass} {o : Observation} : s.passes p = some x → o ∈ x.observed →
      o.messageItemId = slot.messageItemId → o.copy = c → o.flags slot.propertyKey = b →
      InFlight s slot b c
  | listed {p : ℕ} {x : Pass} {ws : List PendingFlagWrite} {w : PendingFlagWrite} :
      s.passes p = some x → x.listed = some ws → w ∈ ws → w.slot = slot → c ∈ w.copies →
      w.desiredState = b → InFlight s slot b c

/-- The other value of the flag is nowhere in flight but on copies that were changed since. -/
def Agreed (s : Sys) (changed : ℕ → Bool) (slot : Slot) (b : Bool) : Prop :=
  ∀ c, InFlight s slot (!b) c → changed c = true

/-- The user sets booleans, and nothing in flight contradicts a flag of the user's when its row
converges: in the update itself, by an observation or by a confirmation. -/
def Handled (s : Sys) : Act → Prop
  | .userUpdate m patch => ∀ key v, patch key = some v → ∃ b, v = .bool b ∧
      ((s.syncs ⟨m, key⟩).bind SyncState.currentState = some b →
        Agreed s (fun _ => false) ⟨m, key⟩ b)
  | .apply p => ∀ x o, s.passes p = some x → x.observed.head? = some o → ∀ key row,
      s.sync x ⟨o.messageItemId, key⟩ = some row → row.pending = true →
      row.desiredState = o.flags key →
        Agreed s (s.changed ⟨o.messageItemId, key⟩) ⟨o.messageItemId, key⟩ row.desiredState
  | .confirm p => ∀ x w ws row, s.passes p = some x → x.listed = some (w :: ws) →
      s.sync x w.slot = some row → row.desiredState = w.desiredState →
        Agreed s (s.changed w.slot) w.slot row.desiredState
  | _ => True

end MailFlags

end Semprec
