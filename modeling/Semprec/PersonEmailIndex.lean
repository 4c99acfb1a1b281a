import Semprec.Lib.Runs
import Semprec.TranscriptMerge

/-!
# The index of people's addresses

A job for each change of a person reads the person and brings `person_email_index` up to date in one
transaction under READ COMMITTED: every statement sees the rows that are committed then, an insert
waits for a transaction that is about to write the same key, a delete for one that deletes the row.
-/

namespace Semprec

namespace PersonEmailIndex

open Transcription (trim)

inductive PersonState where
  | live
  | trashed
deriving DecidableEq

structure Person where
  state : PersonState
  emails : Option String
  /-- A job has found the person in the trash since the last edit. -/
  skipped : Bool
deriving DecidableEq

structure IndexRow where
  email : String
  itemId : ℕ
deriving DecidableEq

/-- The statement that a job is about to run: in `insert` are the addresses it deletes, those that
it has yet to claim and those that it claims. -/
inductive Phase where
  | read
  | select (normalized : List String)
  | delete (normalized toClaim : List String)
  | insert (normalized deleted rest inserted : List String)
deriving DecidableEq

namespace Phase

/-- The addresses that the job has read. -/
def normalized : Phase → Option (List String)
  | read => none
  | select normalized => some normalized
  | delete normalized _ => some normalized
  | insert normalized _ _ _ => some normalized

def deleted : Phase → List String
  | insert _ deleted _ _ => deleted
  | _ => []

def inserted : Phase → List String
  | insert _ _ _ inserted => inserted
  | _ => []

/-- The job has yet to look up who has the addresses that it is to claim. -/
def isEarly : Phase → Bool
  | read => true
  | select _ => true
  | _ => false

end Phase

structure Job where
  personItemId : ℕ
  phase : Phase
deriving DecidableEq

/-- The jobs that are queued or under way, the one that ran last first. -/
structure Sys where
  people : List Person
  rows : List IndexRow
  jobs : List Job
deriving DecidableEq

def init : Sys := ⟨[], [], []⟩

variable (toLowerCase : String → String)

def normalizeEmailAddress (address : String) : String := toLowerCase (trim address)

def parseAddressListProperty (value : String) : List String :=
  ((value.toList.splitOnP fun c => c = '\n' || c = ',').map fun part =>
    trim (String.ofList part)).filter fun address => address.length > 0

def Person.normalized (person : Person) : List String :=
  (((person.emails.elim [] parseAddressListProperty).map (normalizeEmailAddress toLowerCase)).filter
    fun address => address.length > 0).eraseDups

namespace Sys

variable (s : Sys)

/-- The read of `createPersonEmailReindexAction`. -/
def read (p : ℕ) (others : List Job) : Sys :=
  match s.people[p]? with
  | none => { s with jobs := others }
  | some person =>
    if person.state = .live then
      { s with jobs := ⟨p, .select (person.normalized toLowerCase)⟩ :: others }
    else { s with people := s.people.set p { person with skipped := true }, jobs := others }

def select (p : ℕ) (others : List Job) (normalized : List String) : Sys :=
  let toClaim := normalized.filter fun email =>
    !s.rows.any fun row => row.email = email && row.itemId ≠ p
  { s with jobs := ⟨p, .delete normalized toClaim⟩ :: others }

def delete (p : ℕ) (others : List Job) (normalized toClaim : List String) : Option Sys :=
  let deleted := (s.rows.filter fun row => row.itemId = p && row.email ∉ normalized).map (·.email)
  if others.any fun other => other.personItemId = p && other.phase.deleted.any (· ∈ deleted) then
    none
  else some { s with jobs := ⟨p, .insert normalized deleted toClaim []⟩ :: others }

/-- `INSERT … ON CONFLICT DO NOTHING` of one address; `none` while another transaction writes its
key. -/
def insert (p : ℕ) (others : List Job) (normalized deleted : List String) (email : String)
    (rest inserted : List String) : Option Sys :=
  if others.any fun other => email ∈ other.phase.inserted || email ∈ other.phase.deleted then none
  else if email ∈ s.rows.map (·.email) ∨ email ∈ inserted then
    some { s with jobs := ⟨p, .insert normalized deleted rest inserted⟩ :: others }
  else some { s with jobs := ⟨p, .insert normalized deleted rest (inserted ++ [email])⟩ :: others }

def commit (p : ℕ) (others : List Job) (deleted inserted : List String) : Sys :=
  let kept := s.rows.filter fun row => !(row.itemId = p && row.email ∈ deleted)
  { s with rows := kept ++ inserted.map fun email => ⟨email, p⟩, jobs := others }

def advance (job : Job) (others : List Job) : Option Sys :=
  match job.phase with
  | .read => some (s.read toLowerCase job.personItemId others)
  | .select normalized => some (s.select job.personItemId others normalized)
  | .delete normalized toClaim => s.delete job.personItemId others normalized toClaim
  | .insert normalized deleted (email :: rest) inserted =>
    s.insert job.personItemId others normalized deleted email rest inserted
  | .insert _ deleted [] inserted => some (s.commit job.personItemId others deleted inserted)

def write (p : ℕ) (people : List Person) : Sys :=
  { s with people, jobs := ⟨p, .read⟩ :: s.jobs }

def setState (p : ℕ) (state : PersonState) : Option Sys :=
  s.people[p]?.map fun person => { s with people := s.people.set p { person with state } }

end Sys

/-- `abort` rolls a job's transaction back; the job is retried. -/
inductive Act where
  | create (emails : Option String)
  | edit (p : ℕ) (emails : Option String)
  | trash (p : ℕ)
  | restore (p : ℕ)
  | advance (i : ℕ)
  | abort (i : ℕ)

def step (s : Sys) : Act → Option Sys
  | .create emails => some (s.write s.people.length (s.people ++ [⟨.live, emails, false⟩]))
  | .edit p emails =>
    if s.people[p]?.any (·.state = .live) then
      some (s.write p (s.people.set p ⟨.live, emails, false⟩))
    else none
  | .trash p => s.setState p .trashed
  | .restore p => s.setState p .live
  | .advance i => s.jobs[i]?.bind fun job => s.advance toLowerCase job (s.jobs.eraseIdx i)
  | .abort i => s.jobs[i]?.map fun job =>
      { s with jobs := ⟨job.personItemId, .read⟩ :: s.jobs.eraseIdx i }

/-- What the index is for: a live person's address leads to exactly one of the live people who list
it, and every row to a live person who lists its address. -/
def Exact (s : Sys) : Prop :=
  (∀ person ∈ s.people, person.state = .live → ∀ email ∈ person.normalized toLowerCase,
    ∃! row, row ∈ s.rows ∧ row.email = email) ∧
  ∀ row ∈ s.rows, ∃ person ∈ s.people[row.itemId]?, person.state = .live ∧
    row.email ∈ person.normalized toLowerCase

structure Unique (s : Sys) : Prop where
  emails : (s.rows.map (·.email)).Nodup
  owners : ∀ row ∈ s.rows, row.itemId < s.people.length

/-! The trash neither frees an address nor claims one: it counts what people list, trashed or not,
but for those whose last edit no job could read. -/

def Listed (s : Sys) : Prop :=
  s.jobs = [] → ∀ row ∈ s.rows, ∃ person ∈ s.people[row.itemId]?,
    person.skipped = false → row.email ∈ person.normalized toLowerCase

def Mapped (s : Sys) : Prop :=
  s.jobs = [] → ∀ person ∈ s.people, person.skipped = false →
    ∀ email ∈ person.normalized toLowerCase, ∃! row, row ∈ s.rows ∧ row.email = email

def ReadsAlike (s : Sys) : Act → Prop
  | .advance i => ∀ job ∈ s.jobs[i]?,
    match job.phase with
    | .read => ∀ person ∈ s.people[job.personItemId]?, person.state = .live →
      ∀ other ∈ s.jobs.eraseIdx i, other.personItemId = job.personItemId →
        ∀ normalized ∈ other.phase.normalized, normalized = person.normalized toLowerCase
    | _ => True
  | _ => True

/-- No job gives up an address that another person lists but where a job of that person has yet to
look it up. -/
def LeavesNobody (s : Sys) : Act → Prop
  | .advance i => ∀ job ∈ s.jobs[i]?,
    match job.phase with
    | .insert _ deleted [] _ => ∀ email ∈ deleted, ∀ p < s.people.length, p ≠ job.personItemId →
      ∀ person ∈ s.people[p]?, person.skipped = false → email ∈ person.normalized toLowerCase →
        ∃ other ∈ s.jobs, other.personItemId = p ∧ other.phase.isEarly = true
    | _ => True
  | _ => True

end PersonEmailIndex

end Semprec
