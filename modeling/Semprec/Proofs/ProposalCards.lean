import Semprec.Proofs.ProposalDecisions

/-!
# One card for an Inbox item

What a transaction sees only grows older: a card it knows keeps its source, and a deleted one stays
deleted (`Tables.Evolves`).  So a tick that found no card of its item may create one as long as no
card of the item was committed since; two ticks that see neither's card both create theirs.
-/

namespace Semprec

namespace Proposals

variable {f : String → String → String} {s s' : Sys} {t u : ℕ} {phase : Phase}
  {tables tables' tables'' : Tables} {row proposal : ProposalRow}

def Tables.Evolves (tables tables' : Tables) : Prop :=
  ∀ p row, tables.proposals p = some row → ∃ row', tables'.proposals p = some row' ∧
    row'.sourceInbox = row.sourceInbox ∧ (row.deleted = true → row'.deleted = true)

def Tables.Narrows (tables tables' : Tables) : Prop :=
  ∀ p row', tables'.proposals p = some row' → row'.sourceInbox ≠ none → row'.deleted = false →
    ∃ row, tables.proposals p = some row ∧ row.sourceInbox = row'.sourceInbox ∧ row.deleted = false

theorem Tables.Evolves.refl (tables : Tables) : tables.Evolves tables :=
  fun _ row h => ⟨row, h, rfl, id⟩

theorem Tables.Evolves.trans (h : tables.Evolves tables') (h' : tables'.Evolves tables'') :
    tables.Evolves tables'' := by
  intro p row hr
  obtain ⟨row', hr', hsource, hdeleted⟩ := h p row hr
  obtain ⟨row'', hr'', hsource', hdeleted'⟩ := h' p row' hr'
  exact ⟨row'', hr'', hsource'.trans hsource, hdeleted' ∘ hdeleted⟩

theorem Tables.Narrows.refl (tables : Tables) : tables.Narrows tables :=
  fun _ row h _ hd => ⟨row, h, rfl, hd⟩

theorem Tables.OneCard.narrows (h : tables.OneCard) (hn : tables.Narrows tables') :
    tables'.OneCard := by
  intro i p q row row' hp hq hi hi' hd hd'
  obtain ⟨old, hold, hsource, hlive⟩ := hn p row hp (by rw [hi]; nofun) hd
  obtain ⟨old', hold', hsource', hlive'⟩ := hn q row' hq (by rw [hi']; nofun) hd'
  exact h i p q old old' hold hold' (hsource.trans hi) (hsource'.trans hi') hlive hlive'

theorem evolves_setProposal (hold : tables.proposals row.id = some proposal)
    (hsource : row.sourceInbox = proposal.sourceInbox)
    (hdeleted : proposal.deleted = true → row.deleted = true) :
    tables.Evolves (tables.setProposal row) := by
  intro p r hr
  by_cases hp : p = row.id
  · subst hp
    rw [hold] at hr
    cases hr
    exact ⟨row, Function.update_self .., hsource, hdeleted⟩
  · exact ⟨r, (Function.update_of_ne hp ..).trans hr, rfl, id⟩

theorem narrows_setProposal (hold : tables.proposals row.id = some proposal)
    (hsource : row.sourceInbox = proposal.sourceInbox)
    (hdeleted : row.deleted = false → proposal.deleted = false) :
    tables.Narrows (tables.setProposal row) := by
  intro p r hr hs hd
  rcases proposals_setProposal hr with ⟨rfl, rfl⟩ | ⟨-, hr⟩
  · exact ⟨proposal, hold, hsource.symm, hdeleted hd⟩
  · exact ⟨r, hr, rfl, hd⟩

theorem evolves_createProposal (hi : Inv s) : s.tables.Evolves (s.tables.createProposal row) := by
  intro p r hr
  have hid := hi.ids p r hr
  subst hid
  exact ⟨r, keep_createProposal hi hr, rfl, id⟩

theorem step_cards (hi : Inv s) {a : Act} (h : step f s a = some s') :
    s.tables.Evolves s'.tables ∧ (s.tables.Narrows s'.tables ∨ ∃ t row snapshot, a = .commit t ∧
      s.transactions t = some (.creating row snapshot) ∧
      s'.tables = s.tables.createProposal row) := by
  have hsame : ∀ {s' : Sys}, s'.tables = s.tables → s.tables.Evolves s'.tables ∧
      s.tables.Narrows s'.tables := fun he => he ▸ ⟨.refl _, .refl _⟩
  cases a with
  | setSource sourceItemId source =>
    cases h
    exact ⟨.refl s.tables, .inl (.refl s.tables)⟩
  | createTranscriptProposal transcriptId envelope now =>
    cases h
    refine ⟨evolves_createProposal hi, .inl fun p r hr hs hd => ?_⟩
    rcases proposals_createProposal hr with ⟨rfl, rfl⟩ | ⟨-, hr⟩
    · exact absurd rfl hs
    · exact ⟨r, hr, rfl, hd⟩
  | deleteProposal proposalId now =>
    simp only [step] at h
    split at h
    · next card hcard =>
      split_ifs at h with hfree
      cases h
      have hid := hi.ids _ _ hcard
      subst hid
      exact ⟨evolves_setProposal hcard rfl fun _ => rfl, .inl (narrows_setProposal hcard rfl nofun)⟩
    · cases h
  | commit t =>
    simp only [step] at h
    split at h
    · next row execution ht =>
      cases h
      obtain ⟨proposal, hp, -, hedits, -⟩ := replaces_of_updated (hi.phases t _ ht)
      have hold : s.tables.proposals row.id = some proposal := hedits.id ▸ hp.2
      exact ⟨evolves_setProposal hold hedits.sourceInbox hedits.deleted.trans,
        .inl (narrows_setProposal hold hedits.sourceInbox hedits.deleted.symm.trans)⟩
    · next row snapshot ht =>
      cases h
      exact ⟨evolves_createProposal hi, .inr ⟨t, row, snapshot, rfl, ht, rfl⟩⟩
    · cases h
  | readTickSnapshot t pick now | writeTickResult t pick d now =>
    simp only [step] at h
    split at h
    · cases h
      exact (hsame tables_tickStep).imp_right .inl
    · cases h
  | _ =>
    simp only [step] at h
    repeat' split at h
    all_goals
      cases h
      try exact (hsame rfl).imp_right .inl

/-! ## Snapshots -/

structure Tables.Past (tables tables' : Tables) : Prop where
  evolves : tables.Evolves tables'
  fresh : ∀ p row, tables.proposals p = some row → p < tables.nextId

def Tables.NoLive (tables : Tables) (sourceItemId : Option ℕ) : Prop :=
  ∀ p row, tables.proposals p = some row → row.sourceInbox = sourceItemId → row.deleted = true

/-- What a tick's transaction knows of the tables that it sees. -/
def SnapshotOk (tables : Tables) : Phase → Prop
  | .reading _ snapshot => snapshot.Past tables
  | .writing _ _ snapshot => snapshot.Past tables
  | .creating row snapshot => snapshot.Past tables ∧ snapshot.NoLive row.sourceInbox
  | _ => True

theorem SnapshotOk.evolves (h : SnapshotOk tables phase) (he : tables.Evolves tables') :
    SnapshotOk tables' phase := by
  have hpast : ∀ {snapshot : Tables}, snapshot.Past tables → snapshot.Past tables' :=
    fun hp => ⟨hp.evolves.trans he, hp.fresh⟩
  cases phase with
  | reading sourceItemId snapshot => exact hpast h
  | writing x envelope snapshot => exact hpast h
  | creating row snapshot => exact ⟨hpast h.1, h.2⟩
  | _ => trivial

theorem noLive_of_findExistingProposal {sourceItemId pick : ℕ}
    (hfresh : ∀ p row, tables.proposals p = some row → p < tables.nextId)
    (h : tables.findExistingProposal sourceItemId pick = none) :
    tables.NoLive (some sourceItemId) := by
  intro p row hr hs
  have hnil : tables.liveProposals sourceItemId = [] :=
    List.head?_eq_none_iff.mp (Option.or_eq_none_iff.mp h).2
  by_contra hd
  have hmem : row ∈ tables.liveProposals sourceItemId := by
    refine List.mem_filter.mpr ⟨List.mem_filterMap.mpr ⟨p, ?_, hr⟩, ?_⟩
    · exact List.mem_range.mpr (hfresh p row hr)
    · simpa [hs] using hd
  rw [hnil] at hmem
  exact List.not_mem_nil hmem

structure CardsInv (s : Sys) : Prop where
  base : Inv s
  snapshots : ∀ t phase, s.transactions t = some phase → SnapshotOk s.tables phase
  oneCard : s.tables.OneCard

theorem cardsInv_init : CardsInv Sys.init where
  base := inv_init
  snapshots _ _ h := nomatch h
  oneCard _ _ _ _ _ h := nomatch h

theorem snapshotOk_tickStep {now : ℤ} {x : TickStep} {snapshot : Tables}
    (hs : ∀ u p', s.transactions u = some p' → SnapshotOk s.tables p')
    (hpast : snapshot.Past s.tables)
    (hcreate : ∀ row, x = .create row → snapshot.NoLive row.sourceInbox) {p' : Phase}
    (hu : (s.tickStep t snapshot now x).transactions u = some p') :
    SnapshotOk s.tables p' := by
  cases x with
  | done => exact hs u p' (transactions_close hu).2
  | relock existing patch | compute x =>
    rcases transactions_setPhase hu with ⟨-, rfl⟩ | ⟨-, hu⟩
    · trivial
    · exact hs u p' hu
  | create row =>
    rcases transactions_setPhase hu with ⟨-, rfl⟩ | ⟨-, hu⟩
    · exact ⟨hpast, hcreate row rfl⟩
    · exact hs u p' hu

theorem snapshots_step (hi : Inv s)
    (hs : ∀ u p', s.transactions u = some p' → SnapshotOk s.tables p') {a : Act}
    (h : step f s a = some s') {p' : Phase} (hu : s'.transactions u = some p') :
    SnapshotOk s.tables p' := by
  have hset : ∀ {t : ℕ} {phase : Phase}, SnapshotOk s.tables phase →
      (s.setPhase t phase).transactions u = some p' → SnapshotOk s.tables p' := by
    intro t phase hp hu
    rcases transactions_setPhase hu with ⟨-, rfl⟩ | ⟨-, hu⟩
    · exact hp
    · exact hs u p' hu
  have hclose : ∀ {t : ℕ} {tables : Tables}, (s.close t tables).transactions u = some p' →
      SnapshotOk s.tables p' := fun hu => hs u p' (transactions_close hu).2
  cases a with
  | setSource sourceItemId source =>
    cases h
    exact hs u p' hu
  | createTranscriptProposal transcriptId envelope now =>
    cases h
    exact hs u p' hu
  | deleteProposal proposalId now =>
    simp only [step] at h
    split at h
    · split_ifs at h
      cases h
      exact hs u p' hu
    · cases h
  | tick t sourceItemId =>
    simp only [step] at h
    split at h
    · cases h
      exact hset (show SnapshotOk s.tables (.reading sourceItemId s.tables) from
        ⟨.refl _, hi.fresh⟩) hu
    · cases h
  | beginWrite t =>
    simp only [step] at h
    split at h
    · next x envelope ht =>
      cases h
      exact hset (show SnapshotOk s.tables (.writing x envelope s.tables) from
        ⟨.refl _, hi.fresh⟩) hu
    · cases h
  | readTickSnapshot t pick now =>
    simp only [step] at h
    split at h
    · next sourceItemId snapshot ht =>
      cases h
      have hpast : snapshot.Past s.tables := hs t _ ht
      refine snapshotOk_tickStep hs hpast (fun row hx => ?_) hu
      obtain ⟨hnone, hsource, -⟩ := readTickSnapshot_create hx
      rw [hsource]
      exact noLive_of_findExistingProposal hpast.fresh hnone
    · cases h
  | writeTickResult t pick d now =>
    simp only [step] at h
    split at h
    · next x envelope snapshot ht =>
      cases h
      have hpast : snapshot.Past s.tables := hs t _ ht
      refine snapshotOk_tickStep hs hpast (fun row hx => ?_) hu
      obtain ⟨hnone, hsource, -⟩ := writeTickResult_create hx
      rw [hsource]
      exact noLive_of_findExistingProposal hpast.fresh hnone
    · cases h
  | _ =>
    simp only [step] at h
    repeat' split at h
    all_goals
      cases h
      try first
        | exact hclose hu
        | exact hset (by trivial) hu

theorem CardsInv.oneCard_create (hi : CardsInv s) {snapshot : Tables}
    (hok : NotRaced s (.commit t)) (ht : s.transactions t = some (.creating row snapshot)) :
    (s.tables.createProposal row).OneCard := by
  obtain ⟨hpast, hnone⟩ := hi.snapshots t _ ht
  have hdead : ∀ p card, s.tables.proposals p = some card → card.sourceInbox = row.sourceInbox →
      card.deleted = true := by
    intro p card hc hs
    by_contra hlive
    obtain ⟨old, hold⟩ := Option.isSome_iff_exists.mp
      (hok row snapshot ht p (hi.base.fresh p card hc) card hc hs (by simpa using hlive))
    obtain ⟨card', hc', hs', hd⟩ := hpast.evolves p old hold
    rw [hc] at hc'
    cases hc'
    exact hlive (hd (hnone p old hold (hs'.symm.trans hs)))
  intro i p q r r' hp hq hi' hi'' hd hd'
  rcases proposals_createProposal hp with ⟨rfl, rfl⟩ | ⟨-, hp⟩
  · rcases proposals_createProposal hq with ⟨rfl, rfl⟩ | ⟨-, hq⟩
    · rfl
    · rw [hdead q r' hq (hi''.trans hi'.symm)] at hd'
      cases hd'
  · rcases proposals_createProposal hq with ⟨rfl, rfl⟩ | ⟨-, hq⟩
    · rw [hdead p r hp (hi'.trans hi''.symm)] at hd
      cases hd
    · exact hi.oneCard i p q r r' hp hq hi' hi'' hd hd'

theorem cardsInv_step (hi : CardsInv s) {a : Act} (hok : NotRaced s a)
    (h : step f s a = some s') : CardsInv s' := by
  obtain ⟨hevolves, hcards⟩ := step_cards hi.base h
  refine ⟨inv_step hi.base h, fun u p' hu => ?_, ?_⟩
  · exact (snapshots_step hi.base hi.snapshots h hu).evolves hevolves
  · rcases hcards with hnarrows | ⟨t, row, snapshot, rfl, ht, htables⟩
    · exact hi.oneCard.narrows hnarrows
    · rw [htables]
      exact hi.oneCard_create hok ht

/-- In every run in which no tick's card is committed over one that its transaction could not see,
an Inbox item has one card at most, and in every run whatever no step but a deletion changes a card
that is confirmed or rejected. -/
theorem oneCard :
    (∀ s, Reach (step f) NotRaced .init s → s.tables.OneCard) ∧
      ∀ s a s', Reach (step f) (fun _ _ => True) .init s → (∀ p now, a ≠ .deleteProposal p now) →
        step f s a = some s' → s.KeepsLocked s' := by
  refine ⟨fun s h => ?_, fun s a s' h ha hs => keepsLocked (inv_of_reach h) ha hs⟩
  have hi : CardsInv s := h.invariant cardsInv_init fun _ _ _ hi hok hs => cardsInv_step hi hok hs
  exact hi.oneCard

/-! ## Runs -/

def notRaced (s : Sys) : Act → Bool
  | .commit t =>
    match s.transactions t with
    | some (.creating row snapshot) =>
      (List.range s.tables.nextId).all fun p => (s.tables.proposals p).all fun card =>
        card.sourceInbox ≠ row.sourceInbox ∨ card.deleted ∨ (snapshot.proposals p).isSome
    | _ => true
  | _ => true

theorem notRaced_of_check {a : Act} (h : notRaced s a = true) : NotRaced s a := by
  cases a with
  | commit t =>
    intro row snapshot ht p hp card hcard hsource hlive
    simp only [notRaced, ht, List.all_eq_true] at h
    have hall := h p (List.mem_range.mpr hp)
    rw [hcard] at hall
    simpa [hsource, hlive] using hall
  | _ => trivial

section

def proposedAgain : List Act :=
  [.setSource 0 (some ⟨false, none, "call"⟩), .tick 0 0, .readTickSnapshot 0 0 1, .commit 0,
    .deleteProposal 0 2, .tick 1 0, .readTickSnapshot 1 0 3, .commit 1]

theorem oneCard_proposedAgain : ∃ s, runActs (step fun emoji text => emoji ++ text) .init
    proposedAgain = some s ∧ s.tables.OneCard ∧
      (s.tables.liveProposals 0).map (fun row => row.id) = [1] := by
  obtain ⟨s, hs⟩ := Option.isSome_iff_exists.mp
    (show (runChecked (step fun emoji text => emoji ++ text) notRaced .init proposedAgain).isSome =
      true by decide +kernel)
  refine ⟨s, runActs_of_runChecked hs,
    oneCard.1 s (.of_runChecked (fun _ _ => notRaced_of_check) hs), ?_⟩
  exact eq_of_map_eq (f := fun s => (s.tables.liveProposals 0).map fun row => row.id) (b := [1]) hs
    (by decide +kernel)

def proposedTwice : List Act :=
  [.setSource 0 (some ⟨false, none, "call"⟩), .tick 0 0, .tick 1 0, .readTickSnapshot 0 0 1,
    .readTickSnapshot 1 0 1, .commit 0, .commit 1]

theorem proposedTwice_not_oneCard : ∃ s,
    Reach (step fun emoji text => emoji ++ text) (fun _ _ => True) .init s ∧
      ¬ s.tables.OneCard := by
  obtain ⟨s, hs⟩ := Option.isSome_iff_exists.mp
    (show (runActs (step fun emoji text => emoji ++ text) .init proposedTwice).isSome = true by
      decide +kernel)
  refine ⟨s, .of_runActs hs, fun h => ?_⟩
  have hlive : ∀ p < 2, (s.tables.proposals p).any (fun row =>
      row.sourceInbox = some 0 ∧ row.deleted = false) = true := by
    have hall : (List.range 2).all (fun p => (s.tables.proposals p).any fun row =>
        row.sourceInbox = some 0 ∧ row.deleted = false) = true :=
      eq_of_map_eq (f := fun s => (List.range 2).all fun p => (s.tables.proposals p).any fun row =>
        row.sourceInbox = some 0 ∧ row.deleted = false) (b := true) hs (by decide +kernel)
    exact fun p hp => List.all_eq_true.mp hall p (List.mem_range.mpr hp)
  obtain ⟨row, hr, hrow⟩ := (Option.any_eq_true _ _).mp (hlive 0 (by decide))
  obtain ⟨row', hr', hrow'⟩ := (Option.any_eq_true _ _).mp (hlive 1 (by decide))
  simp only [decide_eq_true_eq] at hrow hrow'
  exact absurd (h 0 0 1 row row' hr hr' hrow.1 hrow'.1 hrow.2 hrow'.2) (by decide)

end

end Proposals

end Semprec
