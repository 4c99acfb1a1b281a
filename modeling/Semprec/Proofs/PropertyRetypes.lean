import Semprec.Proofs.PropertyTypeMigration
import Semprec.PropertyRetypes

/-!
# What a chain of retypes comes to

Each row counts the changes that its value has been through.  An attempt that has read the type
after some changes takes the rows behind its cursor through them, and the job that has the key was
enqueued for the last change, so when it ends every row has been through them all.
-/

namespace Semprec

namespace PropertyRetypes

open PropertyTypeMigration

variable {host : Host} {s s' : Sys} {types types' : ℕ → PropertyType}

/-! ## The changes one after the other -/

theorem convertThrough_congr (value : Option Json) (start : ℕ) : ∀ {steps : ℕ},
    (∀ n ≤ start + steps, types n = types' n) →
    convertThrough host types value start steps = convertThrough host types' value start steps
  | 0, _ => rfl
  | n + 1, h => by
    rw [convertThrough, convertThrough, h (start + n) (by omega), h (start + n + 1) (by omega),
      convertThrough_congr value start fun m hm => h m (by omega)]

theorem convertThrough_add (value : Option Json) (start m : ℕ) : ∀ n : ℕ,
    convertThrough host types value start (m + n) =
      convertThrough host types (convertThrough host types value start m) (start + m) n
  | 0 => rfl
  | n + 1 => by
    rw [← Nat.add_assoc, convertThrough, convertThrough, convertThrough_add value start m n,
      Nat.add_assoc start m n]

variable {source target fromType : PropertyType} {value : Json} {changes first n : ℕ} {item : Item}

theorem Keeps.convert (h : Keeps host source target value) :
    convertPropertyValue host source target value = some value := by
  unfold Keeps at h
  split at h
  case h_1 text =>
    obtain ⟨hiso, hparse⟩ := h
    obtain ⟨ms, hms, htext⟩ := Option.map_eq_some_iff.mp hparse
    simp [convertPropertyValue, CONVERTERS, hiso, hms, htext]
  case h_2 text => rfl
  case h_3 => exact h.elim

theorem convert_text_number {text : String} (h : text.toList.all isWhiteSpace = false) :
    convertPropertyValue host .text .number (.str text) = (host.number text).map Json.num := by
  show (if text.toList.all isWhiteSpace = true then none else (host.number text).map Json.num) = _
  rw [h]
  rfl

theorem ComesBack.convert {via : PropertyType} (h : ComesBack host source via value) :
    (convertPropertyValue host source via value).bind (convertPropertyValue host via source) =
      some value := by
  unfold ComesBack at h
  split at h
  case h_1 text =>
    obtain ⟨hblank, hnumber⟩ := h
    obtain ⟨n, hn, htext⟩ := Option.map_eq_some_iff.mp hnumber
    rw [convert_text_number hblank, hn]
    exact congrArg (fun text => some (Json.str text)) htext
  case h_2 n =>
    show convertPropertyValue host .text .number (.str (host.string n)) = _
    rw [convert_text_number h.1, h.2]
    rfl
  case h_3 => exact h.elim

theorem Unchanged.convertThrough (h : Unchanged host types value first n) :
    convertThrough host types (some value) first n = some value := by
  induction h with
  | refl => rfl
  | keeps _ hkeeps ih => rw [PropertyRetypes.convertThrough, ih, Option.bind_some, hkeeps.convert]
  | comesBack _ hback htypes ih =>
    rw [PropertyRetypes.convertThrough, PropertyRetypes.convertThrough, ih, Option.bind_some,
      ← Nat.add_assoc, show first + _ + 1 + 1 = first + _ + 2 from rfl, htypes]
    exact hback.convert

theorem RowFits.convertThrough (h : RowFits host types fromType changes item)
    (hvalue : value ∈ item.value) {result : Json}
    (hresult : result ∈ migrateValue host fromType (types changes) value) :
    convertThrough host types (some value) item.through (changes - item.through) = some result := by
  have hfits := h value hvalue
  unfold migrateValue at hresult
  split_ifs at hfits with hleft
  · obtain rfl : value = result := by
      rcases hleft with hsame | hshape
      · simpa [hsame, convertPropertyValue] using hresult
      · by_cases hsame : fromType = types changes
        · simpa [hsame, convertPropertyValue] using hresult
        · simpa [hsame, hshape] using hresult
    exact hfits.convertThrough
  · obtain ⟨hne, hshape⟩ := not_or.mp hleft
    rw [if_neg fun hkept => hshape hkept.2] at hresult
    obtain ⟨before, after, rfl, hbefore, hfrom, hto, hafter⟩ := hfits result hresult
    have hsteps : item.through + before + 1 + after - item.through = before + 1 + after := by omega
    rw [hsteps, convertThrough_add, PropertyRetypes.convertThrough, hbefore.convertThrough,
      Option.bind_some, hfrom, hto, hresult, ← Nat.add_assoc]
    exact hafter.convertThrough

theorem rowFits_of_fits (hmissed : item.through + 1 = changes) (hfrom : types item.through = fromType)
    (hne : fromType ≠ types changes)
    (hfits : ∀ value ∈ item.value, Fits host fromType (types changes) value) :
    RowFits host types fromType changes item := by
  intro value hvalue
  have hfit := (hfits value hvalue).resolve_left hne
  clear hfits
  split_ifs with hleft
  · have hshape := hleft.resolve_left hne
    rw [show changes - item.through = 0 + 1 by omega]
    refine .keeps .refl ?_
    rw [Nat.add_zero, hmissed, hfrom]
    generalize types changes = target at hfit hshape ⊢
    split at hfit
    case h_1 text =>
      rw [if_pos (show CONVERTED_DATE_SHAPE text = true from hshape)] at hfit
      exact ⟨iso_of_converted hshape, hfit⟩
    case h_2 =>
      cases value with
      | str text => trivial
      | _ => cases hshape
    case h_3 => exact absurd hshape (by simp [hfit])
  · intro converted _
    exact ⟨0, 0, hmissed, .refl, hfrom, congrArg types hmissed, .refl⟩

/-! ## The invariant -/

def Attempt.Covers (s : Sys) (attempt : Attempt) : Prop :=
  match attempt.phase with
  | .bootstrap => attempt.change ≤ s.changes
  | .page changes cursor => attempt.change ≤ changes ∧ changes ≤ s.changes ∧
      ∀ c ∈ cursor, ∀ item ∈ s.items, item.id ≤ c → changes ≤ item.through
  | .settle changes => attempt.change ≤ changes ∧ changes ≤ s.changes ∧
      ∀ item ∈ s.items, changes ≤ item.through

structure Inv (host : Host) (s : Sys) : Prop where
  values : ∀ item ∈ s.items, ∀ value ∈ item.value,
    convertThrough host s.types item.original 0 item.through = some value
  through : ∀ item ∈ s.items, item.through ≤ s.changes
  job : ∀ job ∈ s.job, job.change = s.changes
  done : s.job = none → ∀ item ∈ s.items, item.through = s.changes
  attempts : ∀ attempt ∈ s.attempts, attempt.Covers s

theorem Inv.init (type : PropertyType) (items : List (ℕ × Option Json)) :
    Inv host (.init type items) where
  values item hitem value hvalue := by
    obtain ⟨i, -, rfl⟩ := List.mem_map.mp hitem
    exact hvalue
  through item hitem := by
    obtain ⟨i, -, rfl⟩ := List.mem_map.mp hitem
    exact le_rfl
  job := nofun
  done _ item hitem := by
    obtain ⟨i, -, rfl⟩ := List.mem_map.mp hitem
    rfl
  attempts := nofun

/-- Rows only go further, and changes are only added. -/
theorem Attempt.Covers.mono {attempt : Attempt} (h : attempt.Covers s)
    (hchanges : s.changes ≤ s'.changes)
    (hitems : ∀ item' ∈ s'.items, ∃ item ∈ s.items, item.id = item'.id ∧
      item.through ≤ item'.through) : attempt.Covers s' := by
  obtain ⟨change, fromType, _ | ⟨changes, cursor⟩ | changes⟩ := attempt
  · exact Nat.le_trans h hchanges
  · refine ⟨h.1, Nat.le_trans h.2.1 hchanges, fun c hc item' hitem' hle => ?_⟩
    obtain ⟨item, hitem, hid, hthrough⟩ := hitems item' hitem'
    exact Nat.le_trans (h.2.2 c hc item hitem (hid ▸ hle)) hthrough
  · refine ⟨h.1, Nat.le_trans h.2.1 hchanges, fun item' hitem' => ?_⟩
    obtain ⟨item, hitem, -, hthrough⟩ := hitems item' hitem'
    exact Nat.le_trans (h.2.2 item hitem) hthrough

theorem same_items (items : List Item) : ∀ item' ∈ items, ∃ item ∈ items, item.id = item'.id ∧
    item.through ≤ item'.through :=
  fun item' hitem' => ⟨item', hitem', rfl, le_rfl⟩

theorem covers_nextPhase {change changes : ℕ} {fromType : PropertyType} {rows : List ℕ}
    (hchange : change ≤ changes) (hle : changes ≤ s.changes)
    (hrows : ∀ item ∈ s.items, changes ≤ item.through ∨ ∃ last, rows.getLast? = some last ∧
      ¬rows.length < pageSize ∧ last < item.id) :
    Attempt.Covers s ⟨change, fromType, nextPhase changes rows⟩ := by
  unfold nextPhase
  rcases hlast : rows.getLast? with _ | last
  · refine ⟨hchange, hle, fun item hitem => ?_⟩
    rcases hrows item hitem with hthrough | ⟨last, hsome, -⟩
    · exact hthrough
    · simp [hlast] at hsome
  · simp only
    split_ifs with hshort
    · refine ⟨hchange, hle, fun item hitem => ?_⟩
      rcases hrows item hitem with hthrough | ⟨-, -, hfull, -⟩
      · exact hthrough
      · exact absurd hshort hfull
    · refine ⟨hchange, hle, fun c hc item hitem hid => ?_⟩
      obtain rfl := Option.some.inj hc
      rcases hrows item hitem with hthrough | ⟨last', hlast', -, hlt⟩
      · exact hthrough
      · obtain rfl := Option.some.inj (hlast.symm.trans hlast')
        omega

theorem Inv.changePropertyType (h : Inv host s) {newType : PropertyType} {allowed : Bool}
    (hs : changePropertyTypeWithClient host newType allowed s = some s') : Inv host s' := by
  simp only [changePropertyTypeWithClient] at hs
  split_ifs at hs
  · obtain rfl := Option.some.inj hs
    exact h
  · obtain rfl := Option.some.inj hs
    refine ⟨fun item hitem value hvalue => ?_, fun item hitem => ?_, fun job hjob => ?_, nofun,
      fun attempt hattempt => ?_⟩
    · rw [← h.values item hitem value hvalue]
      refine convertThrough_congr _ _ fun n hn => ?_
      have := h.through item hitem
      exact Function.update_of_ne (by omega) _ _
    · exact Nat.le_succ_of_le (h.through item hitem)
    · obtain rfl := Option.some.inj hjob
      rfl
    · exact (h.attempts attempt hattempt).mono (Nat.le_succ _) (same_items _)

theorem Inv.start {job : Job} (h : Inv host s) (hjob : s.job = some job) :
    Inv host { s with
      job := some { job with attempts := job.attempts + 1 }
      attempts := s.attempts ++ [⟨job.change, job.fromType, .bootstrap⟩] } where
  values := h.values
  through := h.through
  job job' hjob' := by
    obtain rfl := Option.some.inj hjob'
    exact h.job job hjob
  done := nofun
  attempts attempt hattempt := by
    rcases List.mem_append.mp hattempt with hold | hnew
    · exact (h.attempts attempt hold).mono le_rfl (same_items _)
    · obtain rfl := List.mem_singleton.mp hnew
      exact (h.job job hjob).le

theorem Inv.setAttempt (h : Inv host s) (a : ℕ) {attempt : Attempt} (hcovers : attempt.Covers s) :
    Inv host (s.setAttempt a attempt) where
  values := h.values
  through := h.through
  job := h.job
  done := h.done
  attempts attempt' hattempt := by
    rcases List.mem_or_eq_of_mem_set hattempt with hold | rfl
    · exact h.attempts attempt' hold
    · exact hcovers

theorem Inv.endAttempt (h : Inv host s) (a : ℕ) {job : Option Job} (hjob : ∀ j ∈ job, j ∈ s.job)
    (hdone : job = none → ∀ item ∈ s.items, item.through = s.changes) :
    Inv host { s.endAttempt a with job } where
  values := h.values
  through := h.through
  job j hj := h.job j (hjob j hj)
  done := hdone
  attempts attempt hattempt := h.attempts attempt (List.mem_of_mem_eraseIdx hattempt)

theorem Inv.commitBatch (h : Inv host s) {a change changes : ℕ} {fromType : PropertyType}
    {cursor : Option ℕ} (ha : s.attempts[a]? = some ⟨change, fromType, .page changes cursor⟩)
    (hfits : ∀ item ∈ s.items, item.id ∈ s.batch cursor →
      RowFits host s.types fromType changes item) :
    Inv host { s.setAttempt a ⟨change, fromType, nextPhase changes (s.batch cursor)⟩ with
      items := s.items.map fun item =>
        if item.id ∈ s.batch cursor then
          migrateItem host fromType (s.types changes) changes item
        else item } := by
  obtain ⟨hchange, hle, hbehind⟩ := h.attempts _ (List.mem_of_getElem? ha)
  have hitems : ∀ item' ∈ s.items.map (fun item => if item.id ∈ s.batch cursor then
      migrateItem host fromType (s.types changes) changes item else item),
      ∃ item ∈ s.items, item.id = item'.id ∧ item.through ≤ item'.through := by
    intro item' hitem'
    obtain ⟨item, hitem, rfl⟩ := List.mem_map.mp hitem'
    refine ⟨item, hitem, ?_⟩
    split_ifs
    · exact ⟨rfl, le_max_left _ _⟩
    · exact ⟨rfl, le_rfl⟩
  refine ⟨fun item' hitem' value hvalue => ?_, fun item' hitem' => ?_, h.job, fun hnone item' hitem' => ?_,
    fun attempt hattempt => ?_⟩
  · obtain ⟨item, hitem, rfl⟩ := List.mem_map.mp hitem'
    split_ifs at hvalue ⊢ with hrow
    · obtain ⟨old, hold, hmigrate⟩ := Option.bind_eq_some_iff.mp hvalue
      have hrest := (hfits item hitem hrow).convertThrough hold hmigrate
      have hmax : item.through + (changes - item.through) = max item.through changes := by omega
      have hadd : convertThrough host s.types item.original 0 (max item.through changes) = _ :=
        hmax ▸ convertThrough_add item.original 0 item.through (changes - item.through)
      rw [h.values item hitem old hold, Nat.zero_add] at hadd
      exact hadd.trans hrest
    · exact h.values item hitem value hvalue
  · obtain ⟨item, hitem, rfl⟩ := List.mem_map.mp hitem'
    have hthrough := h.through item hitem
    split_ifs
    · exact max_le hthrough hle
    · exact hthrough
  · obtain ⟨item, hitem, rfl⟩ := List.mem_map.mp hitem'
    have hthrough := h.done hnone item hitem
    split_ifs
    · exact (max_eq_left (hthrough ▸ hle)).trans hthrough
    · exact hthrough
  · rcases List.mem_or_eq_of_mem_set hattempt with hold | rfl
    · exact (h.attempts attempt hold).mono le_rfl hitems
    · refine covers_nextPhase hchange hle fun item' hitem' => ?_
      obtain ⟨item, hitem, rfl⟩ := List.mem_map.mp hitem'
      split_ifs with hrow
      · exact .inl (le_max_right _ _)
      · exact (mem_pageAfter (by decide) (List.mem_map_of_mem hitem) hrow).imp_left
          fun ⟨c, hc, hid⟩ => hbehind c hc item hitem hid

theorem Inv.step {act : Act} (h : Inv host s) (hok : Agrees host s act)
    (hs : step host s act = some s') : Inv host s' := by
  unfold PropertyRetypes.step at hs
  rcases act with ⟨newType, allowed⟩ | _ | a | a | a | a
  · exact h.changePropertyType hs
  · rcases hjob : s.job with _ | job
    · simp [hjob] at hs
    · simp only [hjob] at hs
      split_ifs at hs
      obtain rfl := Option.some.inj hs
      exact h.start hjob
  · simp only at hs
    split at hs
    case h_1 change fromType ha =>
      obtain rfl := Option.some.inj hs
      exact h.setAttempt a ⟨h.attempts _ (List.mem_of_getElem? ha), le_rfl, nofun⟩
    case h_2 => simp at hs
  · simp only at hs
    split at hs
    case h_1 change fromType changes cursor ha =>
      obtain rfl := Option.some.inj hs
      exact h.commitBatch ha fun item hitem hrow => hok change fromType changes cursor ha item hitem hrow
    case h_2 => simp at hs
  · simp only at hs
    split at hs
    case h_1 change fromType changes ha =>
      obtain rfl := Option.some.inj hs
      obtain ⟨hchange, hle, hall⟩ := h.attempts _ (List.mem_of_getElem? ha)
      refine h.endAttempt a (fun j hj => (Option.filter_eq_some_iff.mp hj).1) fun hnone item hitem => ?_
      rcases hjob : s.job with _ | job
      · exact h.done hjob item hitem
      · -- the job that has the key is the one for the last change
        have hkey : job.change = change := by simpa [hjob, Option.filter] using hnone
        have hlast := h.job job hjob
        have hthrough := h.through item hitem
        have hbehind := hall item hitem
        simp only at hchange
        omega
    case h_2 => simp at hs
  · obtain ⟨attempt, ha, rfl⟩ := Option.map_eq_some_iff.mp hs
    refine h.endAttempt a (fun j hj => (Option.filter_eq_some_iff.mp hj).1) fun hnone item hitem => ?_
    rcases hjob : s.job with _ | job
    · exact h.done hjob item hitem
    · have hretried := hok attempt ha job hjob
      simp only [hjob, Option.filter_eq_none_iff] at hnone
      grind

theorem Inv.settled (h : Inv host s) (hidle : s.Idle) : s.Settled host where
  inOrder item hitem value hvalue := by
    rw [← h.done hidle.1 item hitem]
    exact h.values item hitem value hvalue
  ofType item hitem value hvalue n hn := by
    have hvalues := h.values item hitem value hvalue
    rw [h.done hidle.1 item hitem, hn, convertThrough] at hvalues
    obtain ⟨before, -, hbefore⟩ := Option.bind_eq_some_iff.mp hvalues
    rw [Nat.zero_add] at hbefore
    rw [Sys.type, hn]
    exact ⟨before, hbefore⟩

/-- Where every batch comes to rows that it fits, whatever the order in which changes are
accepted, migrations start, crash and are retried, what the migrations leave when there are none left
is the accepted changes applied in order. -/
theorem settled_of_reach {host : Host} {type : PropertyType} {items : List (ℕ × Option Json)} {s : Sys}
    (hs : Reach (step host) (Agrees host) (.init type items) s) (hidle : s.Idle) : s.Settled host :=
  (hs.invariant (I := Inv host) (Inv.init type items) fun _ _ _ hi hok hs => hi.step hok hs).settled
    hidle

/-- A row has missed nothing, or the attempt's own change alone, or loses its value. -/
def rowFitsCheck (host : Host) (types : ℕ → PropertyType) (fromType : PropertyType) (changes : ℕ)
    (item : Item) : Bool :=
  item.value.all fun value =>
    if fromType = types changes ∨ isAlreadyTargetType (types changes) value = true then
      changes ≤ item.through
    else (convertPropertyValue host fromType (types changes) value).isNone ||
      (item.through + 1 = changes && types item.through = fromType)

theorem rowFits_of_check (h : rowFitsCheck host types fromType changes item = true) :
    RowFits host types fromType changes item := by
  intro value hvalue
  have hcheck := (Option.all_eq_true _ _).mp h value hvalue
  split_ifs at hcheck ⊢
  · rw [Nat.sub_eq_zero_of_le (of_decide_eq_true hcheck)]
    exact .refl
  · intro converted hconverted
    rw [Option.mem_def.mp hconverted] at hcheck
    simp only [Option.isNone_some, Bool.false_or, Bool.and_eq_true, decide_eq_true_eq] at hcheck
    exact ⟨0, 0, hcheck.1, .refl, hcheck.2, congrArg types hcheck.1, .refl⟩

def agreesCheck (host : Host) (s : Sys) : Act → Bool
  | .commitBatch a =>
    match s.attempts[a]? with
    | some ⟨_, fromType, .page changes cursor⟩ => s.items.all fun item =>
        !(s.batch cursor).contains item.id || rowFitsCheck host s.types fromType changes item
    | _ => true
  | .fail a => s.attempts[a]?.all fun attempt => s.job.all fun job =>
      job.change ≠ attempt.change || job.attempts < MAX_ATTEMPTS
  | _ => true

theorem agrees_of_check (s : Sys) (act : Act) (h : agreesCheck host s act = true) :
    Agrees host s act := by
  rcases act with ⟨newType, allowed⟩ | _ | a | a | a | a
  · trivial
  · trivial
  · trivial
  · intro change fromType changes cursor ha item hitem hrow
    simp only [agreesCheck, ha, List.all_eq_true] at h
    have hcheck := h item hitem
    simp only [List.contains_eq_mem, hrow, decide_true, Bool.not_true, Bool.false_or] at hcheck
    exact rowFits_of_check hcheck
  · trivial
  · intro attempt ha job hjob hchange
    simp only [agreesCheck, ha, hjob, Option.all_some] at h
    simpa [hchange] using h

def digitHost : Host where
  number text := if text = "5" then some ⟨5, 0⟩ else none
  string _ := "5"
  dateParse _ := none

/-- The first migration crashes after its page and is retried, and the second change is accepted
before the retry has ended. -/
def overtaken : List Act :=
  [.changePropertyType .number true, .start, .read 0, .commitBatch 0, .fail 0, .start, .read 0,
    .commitBatch 0, .changePropertyType .text true, .settle 0, .start, .read 0, .commitBatch 0,
    .settle 0]

def texts : List (ℕ × Option Json) := [(1, some (.str "5")), (2, some (.str "abc")), (3, none)]

theorem overtaken_settled : ∃ s, runActs (step digitHost) (.init .text texts) overtaken = some s ∧
    s.Idle ∧ s.changes = 2 ∧ s.Settled digitHost := by
  obtain ⟨s, hs⟩ := Option.isSome_iff_exists.mp (show (runChecked (step digitHost)
    (agreesCheck digitHost) (.init .text texts) overtaken).isSome = true from rfl)
  have hidle : s.Idle := ⟨eq_of_map_eq (f := Sys.job) hs rfl, eq_of_map_eq (f := Sys.attempts) hs rfl⟩
  exact ⟨s, runActs_of_runChecked hs, hidle, eq_of_map_eq (f := Sys.changes) hs rfl,
    settled_of_reach (.of_runChecked agrees_of_check hs) hidle⟩

/-- The migration to a number is replaced before it starts, and the one back to a text takes the text
for what an earlier attempt has made. -/
theorem replaced_unsettled : ¬∀ (host : Host) (type : PropertyType) (items : List (ℕ × Option Json))
    (s : Sys), Reach (step host) (fun _ _ => True) (.init type items) s → s.Idle →
      s.Settled host := by
  intro hall
  obtain ⟨s, hs⟩ := Option.isSome_iff_exists.mp (rfl : (runActs (step digitHost)
    (.init .text [(1, some (.str "abc"))]) [.changePropertyType .number true,
      .changePropertyType .text true, .start, .read 0, .commitBatch 0, .settle 0]).isSome = true)
  have hidle : s.Idle := ⟨eq_of_map_eq (f := Sys.job) hs rfl, eq_of_map_eq (f := Sys.attempts) hs rfl⟩
  have hitems : s.items = [⟨1, some (.str "abc"), some (.str "abc"), 2⟩] :=
    eq_of_map_eq (f := Sys.items) hs rfl
  have hgone : convertThrough digitHost s.types (some (.str "abc")) 0 s.changes = none :=
    eq_of_map_eq (f := fun s => convertThrough digitHost s.types (some (.str "abc")) 0 s.changes) hs
      rfl
  have hkept := (hall digitHost .text _ s (.of_runActs hs) hidle).inOrder _
    (by rw [hitems]; exact List.mem_singleton_self _) _ rfl
  exact nomatch hgone.symm.trans hkept

end PropertyRetypes

end Semprec
