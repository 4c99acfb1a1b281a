import Semprec.Lib.Transaction
import Semprec.MailSearch

/-!
# When a mail search is sound

The parser keeps the last operator of each kind (`slot_foldl`), and rejects what contradicts itself
(`replaceOperators_eq`).  So the rows of the query are those of the last operators, trashed or not,
and the search is what it should be exactly when nothing hangs on the difference.
-/

namespace Semprec

namespace MailSearch

/-! ## The kinds of operators -/

section kinds

variable {a b c : Condition}

theorem sameKind_refl (c : Condition) : sameKind c c = true := by
  cases c <;> rfl

theorem sameKind_comm : sameKind a b = sameKind b a := by
  cases a <;> cases b <;> rfl

theorem sameKind_congr (h : sameKind a b = true) : sameKind a c = sameKind b c := by
  cases a <;> cases b <;> first | (cases c <;> rfl) | cases h

theorem any_sameKind_congr {operators : List Condition} (h : sameKind a b = true) :
    operators.any (sameKind a) = operators.any (sameKind b) :=
  congrArg operators.any (funext fun _ => sameKind_congr h)

theorem clash_comm : clash a b = clash b a := by
  cases a <;> cases b <;> simp [clash, bne_comm]

theorem clash_irrefl (c : Condition) : clash c c = false := by
  cases c <;> simp [clash]

theorem sameKind_of_clash (h : clash a b = true) : sameKind a b = true := by
  cases a <;> cases b <;> first | rfl | cases h

theorem clash_congr (hk : sameKind a b = true) (h : clash a b = false) : clash a c = clash b c := by
  cases a <;> cases b <;> first
    | (cases c <;> rfl)
    | (have hab := bne_eq_false_iff_eq.mp h; rw [hab])
    | exact nomatch hk

theorem mem_of_mem_lastOperators {operators : List Condition} (h : c ∈ lastOperators operators) :
    c ∈ operators := by
  induction operators with
  | nil => exact h
  | cons d operators ih =>
    rw [lastOperators] at h
    split at h
    · exact List.mem_cons_of_mem d (ih h)
    · exact List.mem_cons.mpr ((List.mem_cons.mp h).imp id ih)

end kinds

/-! ## The parser -/

/-- The operator becomes the one of its kind. -/
def ParsedMailSearchQuery.set (parsed : ParsedMailSearchQuery) : Condition → ParsedMailSearchQuery
  | .from_ value => { parsed with from_ := some value }
  | .before value => { parsed with before := some value }
  | .after value => { parsed with after := some value }
  | .hasAttachment => { parsed with hasAttachment := true }
  | .read value => { parsed with read := some value }
  | .flagged value => { parsed with flagged := some value }

def ParsedMailSearchQuery.slot (parsed : ParsedMailSearchQuery) : Condition → Option Condition
  | .from_ _ => parsed.from_.map .from_
  | .before _ => parsed.before.map .before
  | .after _ => parsed.after.map .after
  | .hasAttachment => if parsed.hasAttachment then some .hasAttachment else none
  | .read _ => parsed.read.map .read
  | .flagged _ => parsed.flagged.map .flagged

section parser

variable {parsed : ParsedMailSearchQuery} {c d : Condition} {operators : List Condition}

theorem slot_set : (parsed.set c).slot d = if sameKind c d then some c else parsed.slot d := by
  cases c <;> cases d <;> rfl

theorem slot_congr (h : sameKind c d = true) : parsed.slot c = parsed.slot d := by
  cases c <;> cases d <;> first | rfl | cases h

theorem mem_conditions : c ∈ parsed.conditions ↔ parsed.slot c = some c := by
  cases c <;> simp [ParsedMailSearchQuery.conditions, ParsedMailSearchQuery.slot]

theorem slot_foldl : (operators.foldl ParsedMailSearchQuery.set parsed).slot c = some c ↔
    c ∈ lastOperators operators ∨
      parsed.slot c = some c ∧ operators.any (sameKind c) = false := by
  induction operators generalizing parsed with
  | nil => simp [lastOperators]
  | cons d operators ih =>
    rw [List.foldl_cons, ih, slot_set, lastOperators, List.any_cons]
    by_cases hk : sameKind d c = true
    · have hk' : sameKind c d = true := sameKind_comm.trans hk
      rw [any_sameKind_congr hk, if_pos hk, hk', Bool.true_or]
      rcases h : operators.any (sameKind c) with _ | _
      · simp [eq_comm, or_comm]
      · simp
    · have hk' : sameKind c d = false := sameKind_comm.trans (by simpa using hk)
      have hne : c ≠ d := fun h => hk (h ▸ sameKind_refl c)
      rw [if_neg hk, hk', Bool.false_or]
      split
      · rfl
      · simp [hne]

/-- What was read before and what comes after do not contradict each other. -/
def Compatible (parsed : ParsedMailSearchQuery) (operators : List Condition) : Prop :=
  (∀ c ∈ operators, (parsed.slot c).any (clash c) = false) ∧
    operators.Pairwise fun a b => clash a b = false

/-- Where an operator agrees with what was read, setting it is one more operator to agree with. -/
theorem slot_set_any (h : (parsed.slot c).any (clash c) = false) :
    ((parsed.set c).slot d).any (clash d) = (clash c d || (parsed.slot d).any (clash d)) := by
  rw [slot_set]
  by_cases hk : sameKind c d = true
  · rw [if_pos hk, Option.any_some, clash_comm]
    have hslot : parsed.slot d = parsed.slot c := slot_congr (sameKind_comm.trans hk)
    rcases hcd : clash c d with _ | _
    · have hclash : clash c = clash d := funext fun e => clash_congr hk hcd
      rw [hslot, ← hclash, h]
      rfl
    · rfl
  · have hclash : clash c d = false := by
      rw [← Bool.not_eq_true]
      exact fun hclash => hk (sameKind_of_clash hclash)
    rw [if_neg hk, hclash, Bool.false_or]

theorem compatible_cons : Compatible parsed (c :: operators) ↔
    (parsed.slot c).any (clash c) = false ∧ Compatible (parsed.set c) operators := by
  simp only [Compatible, List.forall_mem_cons, List.pairwise_cons]
  constructor
  · rintro ⟨⟨hc, hslot⟩, hclash, hpairs⟩
    refine ⟨hc, fun d hd => ?_, hpairs⟩
    rw [slot_set_any hc, hclash d hd, hslot d hd, Bool.or_false]
  · rintro ⟨hc, hslot, hpairs⟩
    simp only [slot_set_any hc, Bool.or_eq_false_iff] at hslot
    exact ⟨⟨hc, fun d hd => (hslot d hd).2⟩, fun d hd => (hslot d hd).1, hpairs⟩

theorem rest_of_ne (name : OperatorName) (matched value : List Char) (h : name ≠ .is) :
    (Piece.operator name matched value).rest = [] :=
  if_neg fun h' => h h'.1

/-- What an operator does: nothing when it is not recognized, else it takes its slot, unless it
contradicts what is there. -/
def Applied (parsed : ParsedMailSearchQuery) (piece : Piece)
    (result : Except Failure (ParsedMailSearchQuery × List Char)) : Prop :=
  match piece.condition? with
  | none => result = .ok (parsed, piece.rest)
  | some c =>
    if (parsed.slot c).any (clash c) = true then
      ∃ message details, result = .error (.validationError message details)
    else result = .ok (parsed.set c, piece.rest)

theorem applied_of_condition {piece : Piece}
    {result : Except Failure (ParsedMailSearchQuery × List Char)} (hc : piece.condition? = some c)
    (hslot : ∀ d, clash c d = false) (h : result = .ok (parsed.set c, piece.rest)) :
    Applied parsed piece result := by
  unfold Applied
  rw [hc]
  have hany : ¬ (parsed.slot c).any (clash c) = true := by
    rw [funext hslot]
    simp
  simp only [if_neg hany, h]

theorem applied_of_is {matched value : List Char} (positive negative : String)
    (hc : (Piece.operator .is matched value).condition? = some c)
    (hany : (parsed.slot c).any (clash c) = decide (parsed.slot c = some d))
    (h : applyIsOperator parsed value = if parsed.slot c = some d then
      .error (contradictory positive negative) else .ok (some (parsed.set c))) :
    Applied parsed (.operator .is matched value) (applyOperator parsed matched value .is) := by
  have hrest : (Piece.operator .is matched value).rest = [] := by
    rw [Piece.rest, hc]
    exact if_neg (by simp)
  unfold Applied
  rw [hc, hrest, applyOperator, h]
  by_cases hslot : parsed.slot c = some d
  · have hclash : (parsed.slot c).any (clash c) = true := by rw [hany, hslot, decide_eq_true rfl]
    simp only [if_pos hclash, if_pos hslot]
    exact ⟨_, _, rfl⟩
  · have hclash : ¬ (parsed.slot c).any (clash c) = true := by
      rw [hany, decide_eq_true_eq]
      exact hslot
    simp only [if_neg hclash, if_neg hslot]
    rfl

theorem slot_read_any (next : Bool) : (parsed.slot (.read next)).any (clash (.read next)) =
    decide (parsed.slot (.read next) = some (.read !next)) := by
  cases next <;> rcases h : parsed.read with _ | _ | _ <;>
    simp [ParsedMailSearchQuery.slot, h, clash]

theorem slot_flagged_any (next : Bool) :
    (parsed.slot (.flagged next)).any (clash (.flagged next)) =
      decide (parsed.slot (.flagged next) = some (.flagged !next)) := by
  cases next <;> rcases h : parsed.flagged with _ | _ | _ <;>
    simp [ParsedMailSearchQuery.slot, h, clash]

theorem applyIsOperator_applied (matched value : List Char) :
    Applied parsed (.operator .is matched value) (applyOperator parsed matched value .is) := by
  by_cases hread : String.ofList (lower value) = "read"
  · refine applied_of_is "read" "unread" ?_ (slot_read_any true) ?_
    · simp [Piece.condition?, hread]
    · simp [applyIsOperator, hread, ParsedMailSearchQuery.slot, ParsedMailSearchQuery.set]
  by_cases hunread : String.ofList (lower value) = "unread"
  · refine applied_of_is "read" "unread" ?_ (slot_read_any false) ?_
    · simp [Piece.condition?, hunread, List.lookup_cons]
    · simp [applyIsOperator, hunread, ParsedMailSearchQuery.slot, ParsedMailSearchQuery.set]
  by_cases hflagged : String.ofList (lower value) = "flagged"
  · refine applied_of_is "flagged" "unflagged" ?_ (slot_flagged_any true) ?_
    · simp [Piece.condition?, hflagged, List.lookup_cons]
    · simp [applyIsOperator, hflagged, ParsedMailSearchQuery.slot, ParsedMailSearchQuery.set]
  by_cases hunflagged : String.ofList (lower value) = "unflagged"
  · refine applied_of_is "flagged" "unflagged" ?_ (slot_flagged_any false) ?_
    · simp [Piece.condition?, hunflagged, List.lookup_cons]
    · simp [applyIsOperator, hunflagged, ParsedMailSearchQuery.slot, ParsedMailSearchQuery.set]
  have hc : (Piece.operator .is matched value).condition? = none := by
    simp [Piece.condition?, List.lookup_cons, beq_eq_false_iff_ne.mpr hread,
      beq_eq_false_iff_ne.mpr hunread, beq_eq_false_iff_ne.mpr hflagged,
      beq_eq_false_iff_ne.mpr hunflagged]
  have hrest : (Piece.operator .is matched value).rest = matched := if_pos ⟨rfl, hc⟩
  rw [Applied, hc, hrest, applyOperator, applyIsOperator]
  simp only [hread, hunread, hflagged, hunflagged, or_false, if_false]
  rfl

theorem applyOperator_applied (name : OperatorName) (matched value : List Char) :
    Applied parsed (.operator name matched value) (applyOperator parsed matched value name) := by
  cases name with
  | from_ =>
    refine applied_of_condition rfl (fun _ => rfl) ?_
    rw [rest_of_ne .from_ _ _ (by decide)]
    rfl
  | has =>
    by_cases hv : lower value = "attachment".toList
    · refine applied_of_condition (if_pos hv) (fun _ => rfl) ?_
      rw [rest_of_ne .has _ _ (by decide)]
      exact if_pos hv
    · have hc : (Piece.operator .has matched value).condition? = none := if_neg hv
      rw [Applied, hc, rest_of_ne .has _ _ (by decide)]
      exact if_neg hv
  | before =>
    refine applied_of_condition rfl (fun _ => rfl) ?_
    rw [rest_of_ne .before _ _ (by decide)]
    rfl
  | after =>
    refine applied_of_condition rfl (fun _ => rfl) ?_
    rw [rest_of_ne .after _ _ (by decide)]
    rfl
  | is => exact applyIsOperator_applied matched value

/-- The whole string: what can be read is, and what contradicts itself is rejected. -/
theorem replaceOperators_eq (pieces : List Piece) :
    (Compatible parsed (pieces.filterMap Piece.condition?) ∧
      replaceOperators parsed pieces =
        .ok ((pieces.filterMap Piece.condition?).foldl ParsedMailSearchQuery.set parsed,
          pieces.flatMap Piece.rest)) ∨
    (¬ Compatible parsed (pieces.filterMap Piece.condition?) ∧
      ∃ message details, replaceOperators parsed pieces =
        .error (.validationError message details)) := by
  induction pieces generalizing parsed with
  | nil => exact .inl ⟨⟨fun _ h => absurd h List.not_mem_nil, .nil⟩, rfl⟩
  | cons piece pieces ih =>
    cases piece with
    | text c =>
      simp only [List.filterMap_cons, Piece.condition?, List.flatMap_cons, Piece.rest]
      rcases ih with ⟨hc, h⟩ | ⟨hc, message, details, h⟩
      · exact .inl ⟨hc, except_bind_ok.mpr ⟨_, h, rfl⟩⟩
      · exact .inr ⟨hc, message, details, except_bind_error.mpr (.inl h)⟩
    | operator name matched value =>
      have happly : Applied parsed (.operator name matched value)
          (applyOperator parsed matched value name) := applyOperator_applied name matched value
      unfold Applied at happly
      rw [List.filterMap_cons, List.flatMap_cons, replaceOperators]
      rcases hcond : (Piece.operator name matched value).condition? with _ | c
      · rw [hcond] at happly
        rcases ih with ⟨hc, h⟩ | ⟨hc, message, details, h⟩
        · exact .inl ⟨hc, except_bind_ok.mpr ⟨_, happly, except_bind_ok.mpr ⟨_, h, rfl⟩⟩⟩
        · exact .inr ⟨hc, message, details, except_bind_error.mpr (.inr ⟨_, happly,
            except_bind_error.mpr (.inl h)⟩)⟩
      · rw [hcond] at happly
        simp only [compatible_cons, List.foldl_cons]
        rcases hany : (parsed.slot c).any (clash c) with _ | _
        · simp only [hany, Bool.false_eq_true, if_false] at happly
          rcases @ih (parsed.set c) with ⟨hc, h⟩ | ⟨hc, message, details, h⟩
          · exact .inl ⟨⟨rfl, hc⟩, except_bind_ok.mpr ⟨_, happly, except_bind_ok.mpr ⟨_, h, rfl⟩⟩⟩
          · exact .inr ⟨fun hc' => hc hc'.2, message, details, except_bind_error.mpr (.inr
              ⟨_, happly, except_bind_error.mpr (.inl h)⟩)⟩
        · simp only [hany, if_true] at happly
          obtain ⟨message, details, happly⟩ := happly
          exact .inr ⟨fun hc => Bool.noConfusion hc.1, message, details,
            except_bind_error.mpr (.inl happly)⟩

end parser

/-- Nothing has been read yet. -/
def unread : ParsedMailSearchQuery := ⟨"", none, false, none, none, none, none⟩

theorem slot_withFreeText {parsed : ParsedMailSearchQuery} {text : String} (c : Condition) :
    { parsed with freeText := text }.slot c = parsed.slot c := by
  cases c <;> rfl

theorem slot_unread (c : Condition) : unread.slot c = none := by
  cases c <;> rfl

theorem compatible_unread {operators : List Condition} :
    Compatible unread operators ↔ ¬ Contradictory operators := by
  constructor
  · rintro ⟨-, hpairs⟩ ⟨a, ha, b, hb, hab⟩
    have hnone : clash a b = false :=
      hpairs.forall_of_forall_of_flip (fun x _ => clash_irrefl x)
        (hpairs.imp fun h => clash_comm.trans h) ha hb
    rw [hnone] at hab
    cases hab
  · intro hnone
    refine ⟨fun c _ => by rw [slot_unread]; rfl,
      List.pairwise_of_forall_mem_list fun a ha b hb => ?_⟩
    rw [← Bool.not_eq_true]
    exact fun hab => hnone ⟨a, ha, b, hb, hab⟩

theorem parseMailSearchQuery_eq (query : String) :
    (Contradictory (operators query) ∧ ∃ message details,
      parseMailSearchQuery query = .error (.validationError message details)) ∨
    (¬ Contradictory (operators query) ∧ ∃ parsed, parseMailSearchQuery query = .ok parsed ∧
      parsed.freeText = freeText query ∧
      ∀ c, c ∈ parsed.conditions ↔ c ∈ lastOperators (operators query)) := by
  rcases @replaceOperators_eq unread (scan false 0 query.toList) with
    ⟨hc, h⟩ | ⟨hc, message, details, h⟩
  · refine .inr ⟨compatible_unread.mp hc, _, except_bind_ok.mpr ⟨_, h, rfl⟩, rfl, fun c => ?_⟩
    rw [mem_conditions, slot_withFreeText, slot_foldl, slot_unread]
    simp only [reduceCtorEq, false_and, or_false, operators]
  · refine .inl ⟨?_, message, details, except_bind_error.mpr (.inl h)⟩
    exact not_not.mp fun hnone => hc (compatible_unread.mpr hnone)

section query

variable {pg : Postgres} {search : TextSearch} {t : Tables} {databaseId : ℕ} {query : String}
  {limit : Option ℕ} {parsed : ParsedMailSearchQuery}

/-- The rows of the query, the best first. -/
def ranked (search : TextSearch) (freeText : String) (rows : List IndexRow) : List IndexRow :=
  rows.insertionSort fun a b => search.rank freeText b ≤ search.rank freeText a

structure Runs (pg : Postgres) (search : TextSearch) (t : Tables) (freeText : String)
    (conditions : List Condition) : Prop where
  text : bindText freeText = .ok ()
  operands : ∀ c ∈ conditions, bindCondition pg c = .ok ()
  values : ∀ item ∈ t.items, ∀ c ∈ conditions, search.plan item c = true →
    castFails pg search t item c = none

theorem castError_eq_none {conditions : List Condition} :
    castError pg search t conditions = none ↔
      ∀ item ∈ t.items, ∀ c ∈ conditions, search.plan item c = true →
        castFails pg search t item c = none := by
  simp only [castError, List.findSome?_eq_none_iff, ite_eq_right_iff]

theorem checkQuery_ok {text : String} {conditions : List Condition} :
    checkQuery pg search t text conditions = .ok () ↔ Runs pg search t text conditions := by
  constructor
  · intro h
    obtain ⟨_, htext, h⟩ := except_bind_ok.mp h
    obtain ⟨_, hoperands, h⟩ := except_bind_ok.mp h
    refine ⟨htext, except_forM_ok.mp hoperands, castError_eq_none.mp ?_⟩
    rcases hcast : castError pg search t conditions with _ | e
    · rfl
    · rw [hcast] at h
      cases h
  · intro h
    refine except_bind_ok.mpr ⟨(), h.text, except_bind_ok.mpr
      ⟨(), except_forM_ok.mpr h.operands, ?_⟩⟩
    rw [castError_eq_none.mpr h.values]

theorem searchItems_ok (hp : parseMailSearchQuery query = .ok parsed)
    (h : Runs pg search t parsed.freeText parsed.conditions) :
    searchItems pg search t ⟨databaseId, query, limit⟩ =
      .ok (((ranked search parsed.freeText (whereRows pg search t databaseId parsed.freeText
        parsed.conditions)).take (limit.getD 50)).map fun row =>
          ⟨row.itemId, search.rank parsed.freeText row⟩) := by
  unfold searchItems
  rw [hp]
  exact except_bind_ok.mpr ⟨parsed, rfl, except_bind_ok.mpr
    ⟨(), by rw [checkQuery_ok.mpr h]; rfl, rfl⟩⟩

theorem searchItems_error (hp : parseMailSearchQuery query = .ok parsed)
    (h : ¬ Runs pg search t parsed.freeText parsed.conditions) :
    ∃ e, searchItems pg search t ⟨databaseId, query, limit⟩ = .error (.database e) := by
  unfold searchItems
  rw [hp]
  rcases hquery : checkQuery pg search t parsed.freeText parsed.conditions with e | _
  · exact ⟨e, except_bind_error.mpr (.inr ⟨parsed, rfl, except_bind_error.mpr
      (.inl (by rw [hquery]; rfl))⟩)⟩
  · exact absurd (checkQuery_ok.mp hquery) h

theorem mem_ranked {text : String} {rows : List IndexRow} {row : IndexRow} :
    row ∈ ranked search text rows ↔ row ∈ rows :=
  (List.perm_insertionSort _ rows).mem_iff

theorem length_ranked {text : String} {rows : List IndexRow} :
    (ranked search text rows).length = rows.length :=
  (List.perm_insertionSort _ rows).length_eq

theorem whereRows_congr {text : String} {conditions conditions' : List Condition}
    (h : ∀ c, c ∈ conditions ↔ c ∈ conditions') :
    whereRows pg search t databaseId text conditions =
      whereRows pg search t databaseId text conditions' := by
  have hall : ∀ row, conditions.all (meets pg search t row) =
      conditions'.all (meets pg search t row) := fun row => by
    rw [Bool.eq_iff_iff, List.all_eq_true, List.all_eq_true]
    exact forall_congr' fun c => by rw [h]
  simp only [whereRows, hall]

theorem searchItems_cases (h : ¬ Contradictory (operators query)) :
    (Runs pg search t (freeText query) (lastOperators (operators query)) ∧ ∀ limit,
      searchItems pg search t ⟨databaseId, query, limit⟩ =
        .ok (((ranked search (freeText query) (whereRows pg search t databaseId (freeText query)
          (lastOperators (operators query)))).take (limit.getD 50)).map fun row =>
            ⟨row.itemId, search.rank (freeText query) row⟩)) ∨
    (¬ Runs pg search t (freeText query) (lastOperators (operators query)) ∧ ∀ limit, ∃ e,
      searchItems pg search t ⟨databaseId, query, limit⟩ = .error (.database e)) := by
  rcases parseMailSearchQuery_eq query with ⟨hc, -⟩ | ⟨-, parsed, hp, htext, hcond⟩
  · exact absurd hc h
  by_cases hruns : Runs pg search t (freeText query) (lastOperators (operators query))
  · have hruns' : Runs pg search t parsed.freeText parsed.conditions :=
      ⟨htext ▸ hruns.text, fun c hc => hruns.operands c ((hcond c).mp hc),
        fun item hi c hc => hruns.values item hi c ((hcond c).mp hc)⟩
    refine .inl ⟨hruns, fun limit => ?_⟩
    rw [searchItems_ok hp hruns', htext, whereRows_congr hcond]
  · refine .inr ⟨hruns, fun limit => searchItems_error hp fun hruns' => hruns ?_⟩
    exact ⟨htext ▸ hruns'.text, fun c hc => hruns'.operands c ((hcond c).mpr hc),
      fun item hi c hc => hruns'.values item hi c ((hcond c).mpr hc)⟩

theorem mem_whereRows {text : String} {conditions : List Condition} {row : IndexRow} :
    row ∈ whereRows pg search t databaseId text conditions ↔
      row ∈ t.index ∧ (row.databaseId = databaseId ∧ meetsFreeText search text row = true) ∧
        ∀ c ∈ conditions, meets pg search t row c = true := by
  simp only [whereRows, List.mem_filter, Bool.and_eq_true, List.all_eq_true, decide_eq_true_eq]

theorem found_iff {row : IndexRow} : found pg search t databaseId query row = true ↔
    (row.databaseId = databaseId ∧ meetsFreeText search (freeText query) row = true) ∧
      (∃ item, t.join row = some item ∧ item.deletedAt = none) ∧
        ∀ c ∈ operators query, meets pg search t row c = true := by
  simp only [found, Bool.and_eq_true, List.all_eq_true, decide_eq_true_eq, Option.any_eq_true,
    Option.isNone_iff_eq_none]
  exact ⟨fun ⟨⟨⟨hdb, hlive⟩, htext⟩, hall⟩ => ⟨⟨hdb, htext⟩, hlive, hall⟩,
    fun ⟨⟨hdb, htext⟩, hlive, hall⟩ => ⟨⟨⟨hdb, hlive⟩, htext⟩, hall⟩⟩

theorem Clean.whereRows_eq (h : Clean pg search t databaseId query) :
    whereRows pg search t databaseId (freeText query) (lastOperators (operators query)) =
      t.index.filter (found pg search t databaseId query) := by
  unfold whereRows
  refine List.filter_congr fun row hrow => ?_
  rw [Bool.eq_iff_iff, found_iff]
  simp only [Bool.and_eq_true, List.all_eq_true, decide_eq_true_eq]
  constructor
  · rintro ⟨⟨hdb, htext⟩, hlast⟩
    exact ⟨⟨hdb, htext⟩, h.rows row hrow hdb htext hlast⟩
  · rintro ⟨⟨hdb, htext⟩, -, hall⟩
    exact ⟨⟨hdb, htext⟩, fun c hc => hall c (mem_of_mem_lastOperators hc)⟩

theorem Clean.sound (hc : ¬ Contradictory (operators query))
    (h : Clean pg search t databaseId query) : Sound pg search t databaseId query := by
  intro limit hlimit
  rcases searchItems_cases hc with ⟨-, hsearch⟩ | ⟨hruns, -⟩
  · have hall : ((ranked search (freeText query) (t.index.filter
        (found pg search t databaseId query))).take (limit.getD 50)) =
        ranked search (freeText query) (t.index.filter (found pg search t databaseId query)) :=
      List.take_of_length_le (by rw [length_ranked]; exact hlimit)
    rw [hsearch limit, h.whereRows_eq, hall]
    intro id
    simp only [List.map_map, List.mem_map, Function.comp, mem_ranked]
  · exact absurd ⟨h.text, h.operands, h.values⟩ hruns

theorem Sound.clean (hc : ¬ Contradictory (operators query))
    (h : Sound pg search t databaseId query) : Clean pg search t databaseId query := by
  have hlimit := h (some t.index.length) (List.length_filter_le _ _)
  rcases searchItems_cases hc with ⟨hruns, hsearch⟩ | ⟨-, hsearch⟩
  · rw [hsearch] at hlimit
    refine ⟨hruns.text, hruns.operands, hruns.values, fun row hrow hdb htext hlast => ?_⟩
    have hmem : row ∈ whereRows pg search t databaseId (freeText query)
        (lastOperators (operators query)) := mem_whereRows.mpr ⟨hrow, ⟨hdb, htext⟩, hlast⟩
    have hall : ((ranked search (freeText query) (whereRows pg search t databaseId (freeText query)
        (lastOperators (operators query)))).take t.index.length) =
        ranked search (freeText query) (whereRows pg search t databaseId (freeText query)
          (lastOperators (operators query))) :=
      List.take_of_length_le (by rw [length_ranked]; exact List.length_filter_le _ _)
    have hid := hlimit row.itemId
    simp only [Option.getD_some, hall, List.map_map, List.mem_map, Function.comp, mem_ranked] at hid
    obtain ⟨row', hrow', heq⟩ := hid.mp ⟨row, hmem, rfl⟩
    obtain ⟨hmem', hfound⟩ := List.mem_filter.mp hrow'
    cases List.inj_on_of_nodup_map t.primaryKey hmem' hrow heq
    exact (found_iff.mp hfound).2
  · obtain ⟨e, he⟩ := hsearch (some t.index.length)
    rw [he] at hlimit
    exact hlimit.elim

/-- A search is sound exactly when its string contradicts itself or nothing hangs on what the query
leaves out. -/
theorem sound_iff (pg : Postgres) (search : TextSearch) (t : Tables) (databaseId : ℕ)
    (query : String) : Sound pg search t databaseId query ↔
      Contradictory (operators query) ∨ Clean pg search t databaseId query := by
  by_cases hc : Contradictory (operators query)
  · refine ⟨fun _ => .inl hc, fun _ limit _ => ?_⟩
    rcases parseMailSearchQuery_eq query with ⟨-, message, details, hp⟩ | ⟨hc', -⟩
    · have hsearch : searchItems pg search t ⟨databaseId, query, limit⟩ =
          .error (.domain (.validationError message details)) :=
        except_bind_error.mpr (.inl (by rw [hp]; rfl))
      rw [hsearch]
      exact ⟨message, details, rfl⟩
    · exact absurd hc hc'
  · exact ⟨fun h => .inr (h.clean hc), fun h => (h.resolve_left hc).sound hc⟩

end query

/-- Postgres as far as the search below asks: it knows no time by that name. -/
def noTimes : Postgres :=
  ⟨fun _ => none, fun _ => none, fun _ => none, fun _ => .nan, fun _ _ => .null, fun _ => .null,
    fun _ => "", fun _ => false⟩

def noMatches : TextSearch :=
  ⟨fun _ _ => false, fun _ _ => false, fun _ => none, fun _ _ => 0, fun _ _ => true⟩

def isDatabaseError : Except SearchError (List SearchItemsResultRow) → Bool
  | .error (.database _) => true
  | _ => false

/-- A search for what came before an unknown date raises an error of the database. -/
theorem unknownDate_unsound : ¬ ∀ (pg : Postgres) (search : TextSearch) (t : Tables)
    (databaseId : ℕ) (query : String), Sound pg search t databaseId query := by
  intro hall
  have hsound := hall noTimes noMatches ⟨[], [], .nil, []⟩ 0 "before:soon" none (Nat.zero_le _)
  have herror : isDatabaseError (searchItems noTimes noMatches ⟨[], [], .nil, []⟩
      ⟨0, "before:soon", none⟩) = true := by decide +kernel
  split at hsound
  next e h =>
    rw [h] at herror
    cases herror
  next e h => exact hsound
  next rows h =>
    rw [h] at herror
    cases herror

end MailSearch

end Semprec
