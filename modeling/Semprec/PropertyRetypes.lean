import Semprec.PropertyTypeMigration

/-!
# A property retyped again and again

A type change is accepted whether or not the migration of an earlier one has ended.  The migrations
of a property share one job key: a job that is queued is replaced, one that has started goes on and
is not retried.  The payload has the type before the job's own change, and an attempt reads the type
that it converts to once, when it starts.
-/

namespace Semprec

namespace PropertyRetypes

open PropertyTypeMigration

variable (host : Host)

/-- A row of `items`: its value of the property at first and now, and how many of the accepted
changes have been applied to it or, by a later one, passed over. -/
structure Item where
  id : ℕ
  original : Option Json
  value : Option Json
  through : ℕ

inductive Phase where
  | bootstrap
  /-- The type has been read, after so many changes. -/
  | page (changes : ℕ) (cursor : Option ℕ)
  | settle (changes : ℕ)
deriving DecidableEq

structure Job where
  change : ℕ
  fromType : PropertyType
  attempts : ℕ
deriving DecidableEq

structure Attempt where
  change : ℕ
  fromType : PropertyType
  phase : Phase
deriving DecidableEq

/-- `types n` is the type after `n` accepted changes, of which there are `changes`; `attempts` are
under way. -/
structure Sys where
  items : List Item
  types : ℕ → PropertyType
  changes : ℕ
  job : Option Job
  attempts : List Attempt

def MAX_ATTEMPTS : ℕ := 3

namespace Sys

def init (type : PropertyType) (items : List (ℕ × Option Json)) : Sys where
  items := items.map fun i => ⟨i.1, i.2, i.2, 0⟩
  types := fun _ => type
  changes := 0
  job := none
  attempts := []

variable (s : Sys)

def type : PropertyType := s.types s.changes

def setAttempt (a : ℕ) (attempt : Attempt) : Sys :=
  { s with attempts := s.attempts.set a attempt }

def endAttempt (a : ℕ) : Sys :=
  { s with attempts := s.attempts.eraseIdx a }

def enqueuePropertyTypeMigration (fromType : PropertyType) : Sys :=
  { s with job := some ⟨s.changes, fromType, 0⟩ }

/-- The ids of `lockItemBatch`. -/
def batch (cursor : Option ℕ) : List ℕ :=
  (((s.items.map (·.id)).filter fun id => cursor.all (· < id)).insertionSort (· ≤ ·)).take pageSize

end Sys

def isConversionSupported (source target : PropertyType) : Bool :=
  source = target || (CONVERTERS host source target).isSome

/-- `changePropertyTypeWithClient`, `none` where it refuses.  `sourceRetypeAllowed` is whether no
rollup over the property stands in the way. -/
def changePropertyTypeWithClient (newType : PropertyType) (sourceRetypeAllowed : Bool) (s : Sys) :
    Option Sys :=
  let oldType := s.type
  if oldType = newType then some s
  else if PropertyType.relation ∈ [oldType, newType] ∨ PropertyType.rollup ∈ [oldType, newType] then
    none
  else if !sourceRetypeAllowed then none
  else if !isConversionSupported host oldType newType then none
  else
    let updated : Sys := { s with
      changes := s.changes + 1, types := Function.update s.types (s.changes + 1) newType }
    some (updated.enqueuePropertyTypeMigration oldType)

/-- What a batch makes of a value, `none` when it drops it. -/
def migrateValue (source target : PropertyType) (value : Json) : Option Json :=
  if source ≠ target ∧ isAlreadyTargetType target value = true then some value
  else convertPropertyValue host source target value

def migrateItem (source target : PropertyType) (changes : ℕ) (item : Item) : Item :=
  { item with
    value := item.value.bind (migrateValue host source target)
    through := max item.through changes }

inductive Act where
  | changePropertyType (newType : PropertyType) (sourceRetypeAllowed : Bool)
  | start
  /-- `getProperty` at the start of the job. -/
  | read (attempt : ℕ)
  | commitBatch (attempt : ℕ)
  | settle (attempt : ℕ)
  /-- A crash or an error. -/
  | fail (attempt : ℕ)

def nextPhase (changes : ℕ) (rows : List ℕ) : Phase :=
  match rows.getLast? with
  | none => .settle changes
  | some last => if rows.length < pageSize then .settle changes else .page changes (some last)

/-- The job's lane and its lock only rule schedules out: a worker that has lost its job can go on
while the job is retried. -/
def step (s : Sys) : Act → Option Sys
  | .changePropertyType newType allowed => changePropertyTypeWithClient host newType allowed s
  | .start =>
    match s.job with
    | some job =>
      if job.attempts < MAX_ATTEMPTS then
        some { s with
          job := some { job with attempts := job.attempts + 1 }
          attempts := s.attempts ++ [⟨job.change, job.fromType, .bootstrap⟩] }
      else none
    | none => none
  | .read a =>
    match s.attempts[a]? with
    | some ⟨change, fromType, .bootstrap⟩ =>
      some (s.setAttempt a ⟨change, fromType, .page s.changes none⟩)
    | _ => none
  | .commitBatch a =>
    match s.attempts[a]? with
    | some ⟨change, fromType, .page changes cursor⟩ =>
      let rows := s.batch cursor
      some { s.setAttempt a ⟨change, fromType, nextPhase changes rows⟩ with
        items := s.items.map fun item =>
          if item.id ∈ rows then migrateItem host fromType (s.types changes) changes item
          else item }
    | _ => none
  | .settle a =>
    match s.attempts[a]? with
    | some ⟨change, _, .settle _⟩ =>
      some { s.endAttempt a with job := s.job.filter fun job => job.change ≠ change }
    | _ => none
  | .fail a =>
    s.attempts[a]?.map fun attempt =>
      -- the job gives up where this was its last attempt
      { s.endAttempt a with
        job := s.job.filter fun job => job.change ≠ attempt.change ∨ job.attempts < MAX_ATTEMPTS }

/-! ## What the migrations are to come to -/

def convertThrough (types : ℕ → PropertyType) (value : Option Json) (start : ℕ) : ℕ → Option Json
  | 0 => value
  | n + 1 => (convertThrough types value start n).bind
      (convertPropertyValue host (types (start + n)) (types (start + n + 1)))

namespace Sys

variable (s : Sys)

def Idle : Prop := s.job = none ∧ s.attempts = []

/-- Every value there is is what the accepted changes, applied in order, make of the one the item had
at first, and so what the last of them makes of some value. -/
structure Settled : Prop where
  inOrder : ∀ item ∈ s.items, ∀ value ∈ item.value,
    convertThrough host s.types item.original 0 s.changes = some value
  ofType : ∀ item ∈ s.items, ∀ value ∈ item.value, ∀ n, s.changes = n + 1 →
    ∃ before, convertPropertyValue host (s.types n) s.type before = some value

end Sys

/-- The text of a date as `toISOString` writes it is the same as a date, and a date as a text. -/
def Keeps (source target : PropertyType) (value : Json) : Prop :=
  match source, target, value with
  | .text, .date, .str text =>
    ISO_8601_DATE text = true ∧
      (host.dateParse text).map PropertyTypeMigration.toISOString = some text
  | .date, .text, .str _ => True
  | _, _, _ => False

/-- The text of a number as `String` writes it comes back from the number, and a number from its
text. -/
def ComesBack (source via : PropertyType) (value : Json) : Prop :=
  match source, via, value with
  | .text, .number, .str text =>
    text.toList.all isWhiteSpace = false ∧ (host.number text).map host.string = some text
  | .number, .text, .num n =>
    (host.string n).toList.all isWhiteSpace = false ∧ host.number (host.string n) = some n
  | _, _, _ => False

inductive Unchanged (types : ℕ → PropertyType) (value : Json) (start : ℕ) : ℕ → Prop
  | refl : Unchanged types value start 0
  | keeps {n : ℕ} : Unchanged types value start n →
      Keeps host (types (start + n)) (types (start + n + 1)) value →
      Unchanged types value start (n + 1)
  | comesBack {n : ℕ} : Unchanged types value start n →
      ComesBack host (types (start + n)) (types (start + n + 1)) value →
      types (start + n + 2) = types (start + n) → Unchanged types value start (n + 2)

/-- What a batch leaves in a row the changes that the row has missed leave too, and what it converts
one of them converts like it, those before it and after it leaving the value as it is. -/
def RowFits (types : ℕ → PropertyType) (fromType : PropertyType) (changes : ℕ) (item : Item) : Prop :=
  ∀ value ∈ item.value,
    if fromType = types changes ∨ isAlreadyTargetType (types changes) value = true then
      Unchanged host types value item.through (changes - item.through)
    else ∀ converted ∈ convertPropertyValue host fromType (types changes) value,
      ∃ before after, item.through + before + 1 + after = changes ∧
        Unchanged host types value item.through before ∧
        types (item.through + before) = fromType ∧
        types (item.through + before + 1) = types changes ∧
        Unchanged host types converted (item.through + before + 1) after

def Agrees (s : Sys) : Act → Prop
  | .commitBatch a => ∀ change fromType changes cursor,
      s.attempts[a]? = some ⟨change, fromType, .page changes cursor⟩ →
      ∀ item ∈ s.items, item.id ∈ s.batch cursor → RowFits host s.types fromType changes item
  | .fail a => ∀ attempt, s.attempts[a]? = some attempt → ∀ job, s.job = some job →
      job.change = attempt.change → job.attempts < MAX_ATTEMPTS
  | _ => True

end PropertyRetypes

end Semprec
