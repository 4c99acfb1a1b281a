import Semprec.ItemRelationFilter
import Semprec.TranscriptMerge

/-!
# Mail search

A search string is taken apart into operators and free text, and these become the conditions of one
query over the search index and, by a left join, the items.
-/

namespace Semprec

namespace MailSearch

open ItemRelationFilter (textAt)
open PropertyTypeMigration (isWhiteSpace)
open Transcription (trim)

def READ_PROPERTY_KEY : String := "read"
def FLAGGED_PROPERTY_KEY : String := "flagged"

/-! ## The search string -/

structure ParsedMailSearchQuery where
  freeText : String
  from_ : Option String
  hasAttachment : Bool
  before : Option String
  after : Option String
  read : Option Bool
  flagged : Option Bool

inductive OperatorName where
  | from_
  | has
  | before
  | after
  | is
deriving DecidableEq

def operatorNames : List (String × OperatorName) :=
  [("from", .from_), ("has", .has), ("before", .before), ("after", .after), ("is", .is)]

/-- Between an operator's name and its value. -/
def isWordChar (c : Char) : Bool := c.isAlphanum || c = '_'

/-- No other letter than an ASCII one becomes one of the letters that are looked for. -/
def lower (text : List Char) : List Char := text.map Char.toLower

/-- The name, the length and the value of the operator that the text starts with:
`(from|has|before|after|is):(\S+)`. -/
def operatorAt (text : List Char) : Option (OperatorName × List Char × List Char) :=
  operatorNames.findSome? fun (word, name) =>
    let length := word.length + 1
    if lower (text.take length) = word.toList ++ [':'] then
      match (text.drop length).takeWhile fun c => !isWhiteSpace c with
      | [] => none
      | value => some (name, text.take (length + value.length), value)
    else none

inductive Piece where
  | text (c : Char)
  | operator (name : OperatorName) (matched value : List Char)

/-- The matches of `OPERATOR_PATTERN` and what is between them.  An operator starts at a word
boundary; `skip` characters belong to the operator that was found last. -/
def scan : Bool → ℕ → List Char → List Piece
  | _, _, [] => []
  | _, skip + 1, c :: cs => scan (isWordChar c) skip cs
  | inWord, 0, c :: cs =>
    match if inWord then none else operatorAt (c :: cs) with
    | some (name, matched, value) =>
      .operator name matched value :: scan (isWordChar c) (matched.length - 1) cs
    | none => .text c :: scan (isWordChar c) 0 cs

def contradictory (positive negative : String) : Failure :=
  .validationError s!"Contradictory is:{positive}/is:{negative} search operators"
    (some (.obj [("field", .str s!"is:{positive}"),
      ("conflict", .arr [.str positive, .str negative])]))

def applyIsOperator (parsed : ParsedMailSearchQuery) (value : List Char) :
    Except Failure (Option ParsedMailSearchQuery) :=
  let value := String.ofList (lower value)
  if value = "read" ∨ value = "unread" then
    let next := value = "read"
    if parsed.read = some !next then .error (contradictory "read" "unread")
    else .ok (some { parsed with read := some next })
  else if value = "flagged" ∨ value = "unflagged" then
    let next := value = "flagged"
    if parsed.flagged = some !next then .error (contradictory "flagged" "unflagged")
    else .ok (some { parsed with flagged := some next })
  else .ok none

def applyOperator (parsed : ParsedMailSearchQuery) (matched value : List Char) :
    OperatorName → Except Failure (ParsedMailSearchQuery × List Char)
  | .from_ => .ok ({ parsed with from_ := some (String.ofList value) }, [])
  | .has =>
    if lower value = "attachment".toList then .ok ({ parsed with hasAttachment := true }, [])
    else .ok (parsed, [])
  | .before => .ok ({ parsed with before := some (String.ofList value) }, [])
  | .after => .ok ({ parsed with after := some (String.ofList value) }, [])
  | .is => do
    match ← applyIsOperator parsed value with
    | some parsed => return (parsed, [])
    | none => return (parsed, matched)

def replaceOperators (parsed : ParsedMailSearchQuery) :
    List Piece → Except Failure (ParsedMailSearchQuery × List Char)
  | [] => .ok (parsed, [])
  | .text c :: pieces => do
    let (parsed, text) ← replaceOperators parsed pieces
    return (parsed, c :: text)
  | .operator name matched value :: pieces => do
    let (parsed, replacement) ← applyOperator parsed matched value name
    let (parsed, text) ← replaceOperators parsed pieces
    return (parsed, replacement ++ text)

/-- `.replace(/\s+/g, " ")`, inside a run of white space or not. -/
def collapseSpaces : Bool → List Char → List Char
  | _, [] => []
  | inRun, c :: cs =>
    if isWhiteSpace c then
      if inRun then collapseSpaces true cs else ' ' :: collapseSpaces true cs
    else c :: collapseSpaces false cs

def tidy (text : List Char) : String := trim (String.ofList (collapseSpaces false text))

def parseMailSearchQuery (query : String) : Except Failure ParsedMailSearchQuery := do
  let (parsed, text) ←
    replaceOperators ⟨"", none, false, none, none, none, none⟩ (scan false 0 query.toList)
  return { parsed with freeText := tidy text }

/-! ## The query -/

/-- A condition on an item, with the parameter it is compiled with. -/
inductive Condition where
  | from_ (value : String)
  | before (value : String)
  | after (value : String)
  | hasAttachment
  | read (value : Bool)
  | flagged (value : Bool)
deriving DecidableEq

def ParsedMailSearchQuery.conditions (parsed : ParsedMailSearchQuery) : List Condition :=
  (parsed.from_.map Condition.from_).toList ++ (parsed.before.map Condition.before).toList ++
    (parsed.after.map Condition.after).toList ++
    (if parsed.hasAttachment then [Condition.hasAttachment] else []) ++
    (parsed.read.map Condition.read).toList ++ (parsed.flagged.map Condition.flagged).toList

/-- A row of `item_search_index`, without the time of its last change. -/
structure IndexRow where
  itemId : ℕ
  databaseId : ℕ
  searchVector : String

structure Tables where
  items : List ItemRow
  index : List IndexRow
  primaryKey : (index.map (·.itemId)).Nodup
  /-- `message_item_id` of the rows of `mail_attachments`. -/
  attachments : List ℕ

structure TextSearch where
  /-- `search_vector @@ websearch_to_tsquery('czech', text)`. -/
  websearch : String → String → Bool
  /-- `text ILIKE pattern`. -/
  ilike : String → String → Bool
  /-- `text::boolean`; `none` when Postgres raises. -/
  boolean : String → Option Bool
  /-- The rank of a row for a free text, at the time of the query. -/
  rank : String → IndexRow → ℚ
  /-- The conditions that the planner evaluates on an item of the table.  On an item that it leaves
  out, another condition is not met. -/
  plan : ItemRow → Condition → Bool

inductive DatabaseError where
  | invalidByteSequence
  | cast (e : CastError)

inductive SearchError where
  | domain (e : Failure)
  | database (e : DatabaseError)

section query

variable (pg : Postgres) (search : TextSearch) (t : Tables)

/-- `LEFT JOIN items`. -/
def Tables.join (row : IndexRow) : Option ItemRow :=
  t.items.find? fun item => item.isAt row.databaseId row.itemId

/-- A text that is sent to Postgres. -/
def bindText (text : String) : Except DatabaseError Unit :=
  if text.toList.any fun c => c.toNat = 0 then .error .invalidByteSequence else .ok ()

def bindCondition : Condition → Except DatabaseError Unit
  | .from_ value => bindText value
  | .before value | .after value => do
    bindText value
    -- the parameter itself is a `timestamptz`
    discard ((pg.castTimestamptz value).mapError .cast)
  | .hasAttachment | .read _ | .flagged _ => .ok ()

def castBoolean (text : String) : Except CastError Bool :=
  match search.boolean text with
  | some b => .ok b
  | none => .error (.invalidText "boolean" text)

/-- `(properties ->> 'date')::timestamptz`. -/
def dateOf (item : Option ItemRow) : Except CastError (Option Timestamp) :=
  match item.bind fun item => textAt pg item "date" with
  | none => .ok none
  | some text => (pg.castTimestamptz text).map some

/-- `coalesce((properties ->> key)::boolean, false)`. -/
def flagOf (item : Option ItemRow) (key : String) : Except CastError Bool :=
  match item.bind fun item => textAt pg item key with
  | none => .ok false
  | some text => castBoolean search text

/-- A condition on a row and the item it is joined with; `NULL` if there is nothing to compare. -/
def evaluate (itemId : ℕ) (item : Option ItemRow) : Condition → Except CastError (Option Bool)
  | .from_ value => .ok ((item.bind fun item => textAt pg item "sender").map fun sender =>
      search.ilike sender s!"%{value}%")
  | .before value => do
    let date ← dateOf pg item
    return date.bind fun date => (pg.timestamptz value).map fun bound => decide (date < bound)
  | .after value => do
    let date ← dateOf pg item
    return date.bind fun date => (pg.timestamptz value).map fun bound => decide (bound < date)
  | .hasAttachment => .ok (some (t.attachments.contains itemId))
  | .read value => do
    let read ← flagOf pg search item READ_PROPERTY_KEY
    return some (read == value)
  | .flagged value => do
    let flagged ← flagOf pg search item FLAGGED_PROPERTY_KEY
    return some (flagged == value)

def meets (row : IndexRow) (condition : Condition) : Bool :=
  match evaluate pg search t row.itemId (t.join row) condition with
  | .ok (some true) => true
  | _ => false

def meetsFreeText (freeText : String) (row : IndexRow) : Bool :=
  freeText = "" || search.websearch row.searchVector freeText

def castFails (item : ItemRow) (condition : Condition) : Option CastError :=
  match evaluate pg search t item.id (some item) condition with
  | .error e => some e
  | .ok _ => none

def whereRows (databaseId : ℕ) (freeText : String) (conditions : List Condition) : List IndexRow :=
  t.index.filter fun row => row.databaseId = databaseId && meetsFreeText search freeText row &&
    conditions.all (meets pg search t row)

structure SearchItemsInput where
  databaseId : ℕ
  query : String
  limit : Option ℕ

structure SearchItemsResultRow where
  itemId : ℕ
  rank : ℚ

def castError (conditions : List Condition) : Option CastError :=
  t.items.findSome? fun item => conditions.findSome? fun condition =>
    if search.plan item condition then castFails pg search t item condition else none

def checkQuery (freeText : String) (conditions : List Condition) : Except DatabaseError Unit := do
  bindText freeText
  conditions.forM (bindCondition pg)
  match castError pg search t conditions with
  | some e => .error (.cast e)
  | none => .ok ()

def searchItems (input : SearchItemsInput) : Except SearchError (List SearchItemsResultRow) := do
  let parsed ← (parseMailSearchQuery input.query).mapError .domain
  (checkQuery pg search t parsed.freeText parsed.conditions).mapError .database
  let rank := search.rank parsed.freeText
  let rows := whereRows pg search t input.databaseId parsed.freeText parsed.conditions
  return ((rows.insertionSort fun a b => rank b ≤ rank a).take (input.limit.getD 50)).map fun row =>
    ⟨row.itemId, rank row⟩

end query

/-! ## What a search string asks for -/

def Piece.condition? : Piece → Option Condition
  | .text _ => none
  | .operator name _ value =>
    match name with
    | .from_ => some (.from_ (String.ofList value))
    | .has => if lower value = "attachment".toList then some .hasAttachment else none
    | .before => some (.before (String.ofList value))
    | .after => some (.after (String.ofList value))
    | .is =>
      [("read", Condition.read true), ("unread", .read false), ("flagged", .flagged true),
        ("unflagged", .flagged false)].lookup (String.ofList (lower value))

def operators (query : String) : List Condition :=
  (scan false 0 query.toList).filterMap Piece.condition?

def Piece.rest : Piece → List Char
  | .text c => [c]
  | .operator name matched value =>
    if name = .is ∧ (Piece.operator name matched value).condition? = none then matched else []

def freeText (query : String) : String := tidy ((scan false 0 query.toList).flatMap Piece.rest)

section statement

variable (pg : Postgres) (search : TextSearch) (t : Tables)

def found (databaseId : ℕ) (query : String) (row : IndexRow) : Bool :=
  row.databaseId = databaseId && (t.join row).any (fun item => item.deletedAt.isNone) &&
    meetsFreeText search (freeText query) row && (operators query).all (meets pg search t row)

/-- With a limit that no match exceeds, a search string is rejected with a `ValidationError`, or the
result is the items found. -/
def Sound (databaseId : ℕ) (query : String) : Prop :=
  ∀ limit, (t.index.filter (found pg search t databaseId query)).length ≤ limit.getD 50 →
    match searchItems pg search t ⟨databaseId, query, limit⟩ with
    | .error (.domain e) => ∃ message details, e = .validationError message details
    | .error (.database _) => False
    | .ok rows => ∀ id, id ∈ rows.map (·.itemId) ↔
        id ∈ (t.index.filter (found pg search t databaseId query)).map (·.itemId)

/-- Two operators of which no item can satisfy both. -/
def clash : Condition → Condition → Bool
  | .read a, .read b | .flagged a, .flagged b => a != b
  | _, _ => false

def Contradictory (operators : List Condition) : Prop :=
  ∃ a ∈ operators, ∃ b ∈ operators, clash a b = true

def sameKind : Condition → Condition → Bool
  | .from_ _, .from_ _ | .before _, .before _ | .after _, .after _ | .hasAttachment, .hasAttachment
  | .read _, .read _ | .flagged _, .flagged _ => true
  | _, _ => false

def lastOperators : List Condition → List Condition
  | [] => []
  | c :: operators =>
    if operators.any (sameKind c) then lastOperators operators else c :: lastOperators operators

/-- When a search is what it should be: the last operand of each kind is one Postgres takes, the
values it casts are well formed, and no row that satisfies the last operators of each kind is in the
trash, is of no item, or fails an earlier operator. -/
structure Clean (databaseId : ℕ) (query : String) : Prop where
  text : bindText (freeText query) = .ok ()
  operands : ∀ c ∈ lastOperators (operators query), bindCondition pg c = .ok ()
  values : ∀ item ∈ t.items, ∀ c ∈ lastOperators (operators query), search.plan item c = true →
    castFails pg search t item c = none
  rows : ∀ row ∈ t.index, row.databaseId = databaseId →
    meetsFreeText search (freeText query) row = true →
    (∀ c ∈ lastOperators (operators query), meets pg search t row c = true) →
      (∃ item, t.join row = some item ∧ item.deletedAt = none) ∧
        ∀ c ∈ operators query, meets pg search t row c = true

end statement

end MailSearch

end Semprec
