import Mathlib.Data.List.Nodup
import Semprec.Proposals

/-!
# A card is decided once

Whoever writes a card holds its row since it read it, so the status it decided on is still the
committed one at its commit (`PhaseOk`).  A confirm goes on from `proposed` only, and every other
write leaves the card at another status than `confirmed`.
-/

namespace Semprec

namespace Proposals

variable {f : String → String → String} {s s' : Sys} {t u : ℕ} {phase : Phase} {tables : Tables}
  {row proposal : ProposalRow}

def Sys.Holds (s : Sys) (t : ℕ) (proposal : ProposalRow) : Prop :=
  s.locks proposal.id = some t ∧ s.tables.proposals proposal.id = some proposal

/-- What no write of a decision or a tick changes of a card. -/
structure ProposalRow.Edits (row proposal : ProposalRow) : Prop where
  id : row.id = proposal.id
  sourceInbox : row.sourceInbox = proposal.sourceInbox
  deleted : row.deleted = proposal.deleted

/-- The row to be committed is that of a card which was neither confirmed nor rejected. -/
def Sys.Replaces (s : Sys) (t : ℕ) (row : ProposalRow) : Prop :=
  ∃ proposal, s.Holds t proposal ∧ proposal.status.locked = false ∧ row.Edits proposal

/-- What a transaction knows of its card. -/
def PhaseOk (s : Sys) (t : ℕ) : Phase → Prop
  | .locked proposal _ => s.Holds t proposal
  | .executing proposal call envelope written unwritten =>
    s.Holds t proposal ∧ proposal.status = .proposed ∧ proposal.proposal = some envelope ∧
      Execution.Exact ⟨proposal, call, envelope, written ++ unwritten⟩
  | .updated row none => s.Replaces t row ∧ row.status ≠ .confirmed
  | .updated row (some e) => s.Replaces t row ∧ row.status = .confirmed ∧
      row.proposal = some e.envelope ∧ e.proposalId = row.id ∧ e.Exact
  | .creating row _ => row.status ≠ .confirmed
  | _ => True

structure Inv (s : Sys) : Prop where
  ids : ∀ p row, s.tables.proposals p = some row → row.id = p
  fresh : ∀ p row, s.tables.proposals p = some row → p < s.tables.nextId
  phases : ∀ t phase, s.transactions t = some phase → PhaseOk s t phase
  decided : s.tables.DecidedOnce

theorem inv_init : Inv Sys.init where
  ids _ _ h := nomatch h
  fresh _ _ h := nomatch h
  phases _ _ h := nomatch h
  decided := ⟨List.nodup_nil, fun _ h => (nomatch h), fun _ _ h => nomatch h⟩

/-! ## What the code computes -/

theorem destinationWrites_ne_nil {proposalId : ℕ} {envelope : ProposalEnvelope}
    {edge : Option TranscriptCardEdge} {credential : Option ConfirmProposalCredentialInput}
    {createdId : ℕ} (h : ¬ (envelope.entityKind = .relation ∧ edge.isNone = true)) :
    destinationWrites proposalId envelope edge credential createdId ≠ [] := by
  unfold destinationWrites
  cases hk : envelope.entityKind with
  | database => simp
  | pageContent => simp
  | relation =>
    rcases edge with _ | edge
    · exact absurd ⟨hk, rfl⟩ h
    · simp

theorem confirmPlan_some {d : Destination} {credential : Option ConfirmProposalCredentialInput}
    {createdId : ℕ} {envelope : ProposalEnvelope} {writes : List DestinationWrite}
    (h : confirmPlan d proposal credential createdId = .ok (some (envelope, writes))) :
    proposal.status = .proposed ∧ proposal.proposal = some envelope ∧
      Execution.Exact ⟨proposal, ⟨credential, d, createdId⟩, envelope, writes⟩ := by
  unfold confirmPlan at h
  split_ifs at h with hconfirmed hproposed
  · cases h
  · cases h
  · rcases hp : proposal.proposal with _ | stored
    · rw [hp] at h
      cases h
    · rw [hp] at h
      obtain ⟨forCard, hforCard, h⟩ := except_bind_ok.mp h
      split_ifs at h with hcredential hrelation
      · cases h
      · cases h
        exact ⟨not_not.mp hproposed, rfl, destinationWrites_ne_nil hrelation, hp, forCard, hforCard,
          rfl⟩

theorem decideProposal_execute {d : Destination} {createdId : ℕ} {decision : Decision}
    {envelope : ProposalEnvelope} {writes : List DestinationWrite}
    (h : decideProposal d createdId proposal decision = .ok (.execute envelope writes)) :
    proposal.status = .proposed ∧ proposal.proposal = some envelope ∧
      Execution.Exact ⟨proposal, ⟨decision.credential, d, createdId⟩, envelope, writes⟩ := by
  cases decision with
  | confirm credential =>
    obtain ⟨plan, hplan, h⟩ := except_bind_ok.mp h
    rcases plan with _ | ⟨envelope', writes'⟩
    · cases h
    · cases h
      exact confirmPlan_some hplan
  | reject message =>
    simp only [decideProposal, rejectProposal] at h
    split_ifs at h <;> cases h
  | revise input =>
    simp only [decideProposal, reviseProposal] at h
    split_ifs at h
    · cases h
    · obtain ⟨-, -, h⟩ := except_bind_ok.mp h
      cases h

theorem decideProposal_update {d : Destination} {createdId : ℕ} {decision : Decision}
    (h : decideProposal d createdId proposal decision = .ok (.update row)) :
    proposal.status.locked = false ∧ row.Edits proposal ∧ row.status ≠ .confirmed := by
  cases decision with
  | confirm credential =>
    obtain ⟨plan, -, h⟩ := except_bind_ok.mp h
    rcases plan with _ | ⟨envelope, writes⟩ <;> cases h
  | reject message =>
    simp only [decideProposal, rejectProposal] at h
    split_ifs at h with hrejected hconfirmed
    · cases h
    · cases h
    · cases h
      refine ⟨?_, ⟨rfl, rfl, rfl⟩, nofun⟩
      rcases hs : proposal.status <;> simp_all [ProposalStatus.locked]
  | revise input =>
    simp only [decideProposal, reviseProposal] at h
    split_ifs at h with hlocked
    · cases h
    · obtain ⟨-, -, h⟩ := except_bind_ok.mp h
      cases h
      exact ⟨by simpa using hlocked, ⟨rfl, rfl, rfl⟩, nofun⟩

theorem writeNeedsClarification_create {sourceItemId : ℕ} {existing : Option ProposalRow}
    {message : String} {fingerprint : Option String}
    (h : writeNeedsClarification sourceItemId existing message fingerprint = .create row) :
    existing = none ∧ row.sourceInbox = some sourceItemId ∧ row.status.locked = false := by
  unfold writeNeedsClarification at h
  rcases existing with _ | existing
  · cases h
    exact ⟨rfl, rfl, rfl⟩
  · simp only at h
    split_ifs at h

theorem invalidateProposalForDeletedSource_ne_create {existing : Option ProposalRow} :
    invalidateProposalForDeletedSource existing ≠ .create row := by
  unfold invalidateProposalForDeletedSource
  rcases existing with _ | existing
  · nofun
  · simp only
    split_ifs <;> nofun

theorem readTickSnapshot_create {sourceItemId pick : ℕ}
    (h : readTickSnapshot f tables sourceItemId pick = .create row) :
    tables.findExistingProposal sourceItemId pick = none ∧
      row.sourceInbox = some sourceItemId ∧ row.status.locked = false := by
  simp only [readTickSnapshot] at h
  split at h
  · exact absurd h invalidateProposalForDeletedSource_ne_create
  · split at h
    · exact writeNeedsClarification_create h
    · split_ifs at h

theorem writeTickResult_create {d : Destination} {x : TickSnapshot} {envelope : ProposalEnvelope}
    {pick : ℕ} (h : writeTickResult f tables d x envelope pick = .create row) :
    tables.findExistingProposal x.sourceItemId pick = none ∧
      row.sourceInbox = some x.sourceItemId ∧ row.status.locked = false := by
  have hnone : ∀ {existing : Option ProposalRow},
      x.existingProposal.or existing = none → existing = none := by
    intro existing he
    exact (Option.or_eq_none_iff.mp he).2
  simp only [writeTickResult] at h
  split at h
  · cases h
  · split at h
    · cases h
    · split_ifs at h
      split at h
      · cases h
      · split_ifs at h
        obtain ⟨he, hrow⟩ := writeNeedsClarification_create h
        exact ⟨hnone he, hrow⟩
      · split at h
        · cases h
        · next he =>
          cases h
          exact ⟨hnone he, rfl, rfl⟩

/-! ## What the transactions keep of each other -/

theorem PhaseOk.mono (h : PhaseOk s t phase)
    (hkeep : ∀ proposal, s.Holds t proposal → s'.Holds t proposal) : PhaseOk s' t phase := by
  have hreplaces : ∀ {row}, s.Replaces t row → s'.Replaces t row :=
    fun ⟨proposal, hp, h⟩ => ⟨proposal, hkeep proposal hp, h⟩
  cases phase with
  | locked proposal decision => exact hkeep _ h
  | executing proposal call envelope written unwritten => exact ⟨hkeep _ h.1, h.2⟩
  | updated row execution =>
    rcases execution with _ | e
    · exact ⟨hreplaces h.1, h.2⟩
    · exact ⟨hreplaces h.1, h.2⟩
  | creating row snapshot => exact h
  | _ => trivial

theorem transactions_setPhase {p' : Phase} (h : (s.setPhase t phase).transactions u = some p') :
    u = t ∧ p' = phase ∨ u ≠ t ∧ s.transactions u = some p' :=
  of_update_some h

theorem transactions_close {p' : Phase} (h : (s.close t tables).transactions u = some p') :
    u ≠ t ∧ s.transactions u = some p' :=
  of_update_none h

theorem Inv.setPhase (hi : Inv s) (h : PhaseOk s t phase) : Inv (s.setPhase t phase) where
  ids := hi.ids
  fresh := hi.fresh
  decided := hi.decided
  phases u p' hu := by
    rcases transactions_setPhase hu with ⟨rfl, rfl⟩ | ⟨-, hu⟩
    · exact h.mono fun _ h => h
    · exact (hi.phases u p' hu).mono fun _ h => h

theorem Inv.lockRow (hi : Inv s) {proposalId : ℕ} (hfree : s.locks proposalId = none)
    (h : PhaseOk (s.lockRow t proposalId phase) t phase) : Inv (s.lockRow t proposalId phase) where
  ids := hi.ids
  fresh := hi.fresh
  decided := hi.decided
  phases u p' hu := by
    rcases transactions_setPhase hu with ⟨rfl, rfl⟩ | ⟨-, hu⟩
    · exact h
    · refine (hi.phases u p' hu).mono fun proposal hp => ⟨?_, hp.2⟩
      have hne : proposal.id ≠ proposalId := by
        rintro rfl
        exact nomatch hfree.symm.trans hp.1
      exact (Function.update_of_ne hne _ _).trans hp.1

/-- The end of a transaction that leaves the rows held by the others as they are. -/
theorem Inv.closeWith (hi : Inv s) (hids : ∀ p row, tables.proposals p = some row → row.id = p)
    (hfresh : ∀ p row, tables.proposals p = some row → p < tables.nextId)
    (hdecided : tables.DecidedOnce)
    (hkeep : ∀ u, u ≠ t → ∀ proposal, s.Holds u proposal →
      tables.proposals proposal.id = some proposal) : Inv (s.close t tables) where
  ids := hids
  fresh := hfresh
  decided := hdecided
  phases u p' hu := by
    obtain ⟨hne, hu⟩ := transactions_close hu
    refine (hi.phases u p' hu).mono fun proposal hp => ⟨?_, hkeep u hne proposal hp⟩
    simp only [Sys.close, hp.1]
    simpa using hne

theorem Inv.close (hi : Inv s) : Inv (s.close t s.tables) :=
  hi.closeWith hi.ids hi.fresh hi.decided fun _ _ _ h => h.2

theorem Inv.setTables (hi : Inv s) (hids : ∀ p row, tables.proposals p = some row → row.id = p)
    (hfresh : ∀ p row, tables.proposals p = some row → p < tables.nextId)
    (hdecided : tables.DecidedOnce)
    (hkeep : ∀ u proposal, s.Holds u proposal →
      tables.proposals proposal.id = some proposal) : Inv (s.setTables tables) where
  ids := hids
  fresh := hfresh
  decided := hdecided
  phases u p' hu := (hi.phases u p' hu).mono fun proposal hp => ⟨hp.1, hkeep u proposal hp⟩

/-! ## The writes of a card -/

theorem proposals_setProposal {p : ℕ} {r : ProposalRow}
    (h : (tables.setProposal row).proposals p = some r) :
    p = row.id ∧ r = row ∨ p ≠ row.id ∧ tables.proposals p = some r := by
  simp only [Tables.setProposal] at h
  by_cases hp : p = row.id
  · subst hp
    rw [Function.update_self] at h
    exact .inl ⟨rfl, (Option.some.inj h).symm⟩
  · rw [Function.update_of_ne hp] at h
    exact .inr ⟨hp, h⟩

theorem proposals_createProposal {p : ℕ} {r : ProposalRow}
    (h : (tables.createProposal row).proposals p = some r) :
    p = tables.nextId ∧ r = { row with id := tables.nextId } ∨
      p ≠ tables.nextId ∧ tables.proposals p = some r := by
  simp only [Tables.createProposal] at h
  by_cases hp : p = tables.nextId
  · subst hp
    rw [Function.update_self] at h
    exact .inl ⟨rfl, (Option.some.inj h).symm⟩
  · rw [Function.update_of_ne hp] at h
    exact .inr ⟨hp, h⟩

theorem Tables.DecidedOnce.setProposal (h : tables.DecidedOnce)
    (hold : tables.proposals row.id = some proposal) (hstatus : row.status = proposal.status)
    (henvelope : row.proposal = proposal.proposal) : (tables.setProposal row).DecidedOnce where
  once := h.once
  confirmed e he := by
    obtain ⟨hexact, r, hr, hc, hp⟩ := h.confirmed e he
    refine ⟨hexact, ?_⟩
    by_cases hid : e.proposalId = row.id
    · rw [hid, hold] at hr
      cases hr
      refine ⟨row, ?_, hstatus.trans hc, henvelope.trans hp⟩
      rw [hid]
      exact Function.update_self ..
    · exact ⟨r, (Function.update_of_ne hid ..).trans hr, hc, hp⟩
  executed p r hr hc := by
    rcases proposals_setProposal hr with ⟨rfl, rfl⟩ | ⟨-, hr⟩
    · exact h.executed _ _ hold (hstatus.symm.trans hc)
    · exact h.executed p r hr hc

theorem Tables.DecidedOnce.update (h : tables.DecidedOnce) {execution : Option Execution}
    (hold : tables.proposals row.id = some proposal) (hopen : proposal.status.locked = false)
    (hconfirmed : ∀ e, execution = some e → e.Exact ∧ e.proposalId = row.id ∧
      row.status = .confirmed ∧ row.proposal = some e.envelope)
    (hnone : execution = none → row.status ≠ .confirmed) :
    Tables.DecidedOnce { tables.setProposal row with
      executed := tables.executed ++ execution.toList } where
  once := by
    rcases execution with _ | e
    · simpa using h.once
    · obtain ⟨-, hid, -⟩ := hconfirmed e rfl
      simp only [Option.toList_some, List.map_append, List.map_singleton]
      refine List.nodup_append.mpr ⟨h.once, List.nodup_singleton _, ?_⟩
      intro p hp q hq hpq
      obtain ⟨e', he', rfl⟩ := List.mem_map.mp hp
      obtain ⟨-, r, hr, hc, -⟩ := h.confirmed e' he'
      rw [hpq, List.mem_singleton.mp hq, hid, hold] at hr
      cases hr
      rw [hc] at hopen
      cases hopen
  confirmed e he := by
    rcases List.mem_append.mp he with he | he
    · obtain ⟨hexact, r, hr, hc, hp⟩ := h.confirmed e he
      refine ⟨hexact, r, ?_, hc, hp⟩
      have hne : e.proposalId ≠ row.id := by
        intro hid
        rw [hid, hold] at hr
        cases hr
        rw [hc] at hopen
        cases hopen
      exact (Function.update_of_ne hne ..).trans hr
    · obtain ⟨hexact, hid, hc, hp⟩ := hconfirmed e (Option.mem_toList.mp he)
      refine ⟨hexact, row, ?_, hc, hp⟩
      rw [hid]
      exact Function.update_self ..
  executed p r hr hc := by
    rcases proposals_setProposal hr with ⟨rfl, rfl⟩ | ⟨-, hr⟩
    · rcases execution with _ | e
      · exact absurd hc (hnone rfl)
      · exact ⟨e, List.mem_append_right _ (by simp), (hconfirmed e rfl).2.1⟩
    · obtain ⟨e, he, hid⟩ := h.executed p r hr hc
      exact ⟨e, List.mem_append_left _ he, hid⟩

theorem Tables.DecidedOnce.createProposal (h : tables.DecidedOnce)
    (hfresh : ∀ p row, tables.proposals p = some row → p < tables.nextId)
    (hstatus : row.status ≠ .confirmed) : (tables.createProposal row).DecidedOnce where
  once := h.once
  confirmed e he := by
    obtain ⟨hexact, r, hr, hc, hp⟩ := h.confirmed e he
    have hlt := hfresh _ _ hr
    exact ⟨hexact, r, (Function.update_of_ne (by omega) ..).trans hr, hc, hp⟩
  executed p r hr hc := by
    rcases proposals_createProposal hr with ⟨rfl, rfl⟩ | ⟨-, hr⟩
    · exact absurd hc hstatus
    · exact h.executed p r hr hc

theorem ids_setProposal (hi : Inv s) (p : ℕ) (r : ProposalRow)
    (h : (s.tables.setProposal row).proposals p = some r) : r.id = p := by
  rcases proposals_setProposal h with ⟨rfl, rfl⟩ | ⟨-, h⟩
  · rfl
  · exact hi.ids p r h

theorem fresh_setProposal (hi : Inv s) (hold : s.tables.proposals row.id = some proposal) (p : ℕ)
    (r : ProposalRow) (h : (s.tables.setProposal row).proposals p = some r) :
    p < s.tables.nextId := by
  rcases proposals_setProposal h with ⟨rfl, rfl⟩ | ⟨-, h⟩
  · exact hi.fresh _ _ hold
  · exact hi.fresh p r h

theorem ids_createProposal (hi : Inv s) (p : ℕ) (r : ProposalRow)
    (h : (s.tables.createProposal row).proposals p = some r) : r.id = p := by
  rcases proposals_createProposal h with ⟨rfl, rfl⟩ | ⟨-, h⟩
  · rfl
  · exact hi.ids p r h

theorem fresh_createProposal (hi : Inv s) (p : ℕ) (r : ProposalRow)
    (h : (s.tables.createProposal row).proposals p = some r) :
    p < (s.tables.createProposal row).nextId := by
  rcases proposals_createProposal h with ⟨rfl, rfl⟩ | ⟨-, h⟩
  · exact Nat.lt_succ_self _
  · exact (hi.fresh p r h).trans (Nat.lt_succ_self _)

theorem keep_createProposal (hi : Inv s) (hp : s.tables.proposals proposal.id = some proposal) :
    (s.tables.createProposal row).proposals proposal.id = some proposal := by
  have hlt := hi.fresh _ _ hp
  exact (Function.update_of_ne (by omega) ..).trans hp

theorem Inv.tickStep (hi : Inv s) {now : ℤ} {x : TickStep}
    (hcreate : ∀ row, x = .create row → row.status.locked = false) :
    Inv (s.tickStep t tables now x) := by
  cases x with
  | done => exact hi.close
  | relock existing patch => exact hi.setPhase trivial
  | create row =>
    refine hi.setPhase fun hc => ?_
    have := hcreate row rfl
    rw [hc] at this
    cases this
  | compute snapshot => exact hi.setPhase trivial

theorem lockUnlockedProposal_some {existing : ProposalRow}
    (h : s.lockUnlockedProposal existing tables = some row) :
    s.tables.proposals existing.id = some row ∧ row.deleted = false ∧
      row.status.locked = false := by
  unfold Sys.lockUnlockedProposal at h
  split at h
  · next current r hc hr =>
    split_ifs at h with hversion hunlocked
    cases h
    simp only [not_or, Bool.not_eq_true] at hunlocked
    exact ⟨hc, hunlocked.1, hunlocked.2.1⟩
  · cases h

theorem TickPatch.apply_status (patch : TickPatch) : (patch.apply row).status ≠ .confirmed := by
  cases patch <;> nofun

theorem TickPatch.apply_edits (patch : TickPatch) (now : ℤ) :
    ((patch.apply row).touch now).Edits row := by
  cases patch <;> exact ⟨rfl, rfl, rfl⟩

theorem replaces_of_updated {execution : Option Execution}
    (h : PhaseOk s t (.updated row execution)) : ∃ proposal, s.Holds t proposal ∧
      proposal.status.locked = false ∧ row.Edits proposal ∧
      (∀ e, execution = some e → e.Exact ∧ e.proposalId = row.id ∧ row.status = .confirmed ∧
        row.proposal = some e.envelope) ∧ (execution = none → row.status ≠ .confirmed) := by
  rcases execution with _ | e
  · obtain ⟨⟨proposal, hp, hopen, hedits⟩, hne⟩ := h
    exact ⟨proposal, hp, hopen, hedits, (fun _ he => by cases he), fun _ => hne⟩
  · obtain ⟨⟨proposal, hp, hopen, hedits⟩, hc, henvelope, he, hexact⟩ := h
    refine ⟨proposal, hp, hopen, hedits, fun e' he' => ?_, fun he => by cases he⟩
    cases he'
    exact ⟨hexact, he, hc, henvelope⟩

theorem inv_step (hi : Inv s) {a : Act} (h : step f s a = some s') : Inv s' := by
  cases a with
  | setSource sourceItemId source =>
    cases h
    exact hi.setTables hi.ids hi.fresh ⟨hi.decided.once, hi.decided.confirmed, hi.decided.executed⟩
      fun _ _ h => h.2
  | createTranscriptProposal transcriptId envelope now =>
    cases h
    exact hi.setTables (ids_createProposal hi) (fresh_createProposal hi)
      (hi.decided.createProposal hi.fresh nofun) fun _ _ h => keep_createProposal hi h.2
  | deleteProposal proposalId now =>
    simp only [step] at h
    split at h
    · next row hrow =>
      split_ifs at h with hfree
      cases h
      have hid := hi.ids _ _ hrow
      subst hid
      refine hi.setTables (ids_setProposal hi) (fresh_setProposal hi hrow)
        (hi.decided.setProposal hrow rfl rfl) fun u proposal hp => ?_
      have hne : proposal.id ≠ row.id := by
        intro he
        have hlock := hp.1
        rw [he, hfree.1] at hlock
        cases hlock
      exact (Function.update_of_ne hne ..).trans hp.2
    · cases h
  | decide t proposalId decision | tick t sourceItemId | beginWrite t =>
    simp only [step] at h
    split at h
    · cases h
      exact hi.setPhase trivial
    · cases h
  | lockLiveProposal t =>
    simp only [step] at h
    split at h
    · split_ifs at h with hfree
      split at h
      · next row hrow =>
        cases h
        have hrow := (Option.filter_eq_some_iff.mp hrow).1
        have hid := hi.ids _ _ hrow
        subst hid
        exact hi.lockRow hfree ⟨Function.update_self .., hrow⟩
      · cases h
        exact hi.close
    · cases h
  | check t d createdId now =>
    simp only [step] at h
    split at h
    · next proposal decision ht =>
      have hp := hi.phases t _ ht
      split at h
      · next envelope writes hd =>
        cases h
        obtain ⟨hstatus, henvelope, hexact⟩ := decideProposal_execute hd
        exact hi.setPhase ⟨hp, hstatus, henvelope, hexact⟩
      · next row hd =>
        cases h
        obtain ⟨hopen, hedits, hne⟩ := decideProposal_update hd
        exact hi.setPhase ⟨⟨proposal, hp, hopen, ⟨hedits.id, hedits.sourceInbox, hedits.deleted⟩⟩,
          hne⟩
      · cases h
        exact hi.close
      · cases h
        exact hi.close
    · cases h
  | writeDestination t =>
    simp only [step] at h
    split at h
    · next proposal call envelope written w unwritten ht =>
      cases h
      obtain ⟨hp, hstatus, henvelope, hexact⟩ := hi.phases t _ ht
      refine hi.setPhase ⟨hp, hstatus, henvelope, ?_⟩
      rwa [List.append_assoc, List.singleton_append]
    · cases h
  | updateConfirmed t resultItemId resultLabel now =>
    simp only [step] at h
    split at h
    · next proposal call envelope written ht =>
      cases h
      obtain ⟨hp, hstatus, henvelope, hexact⟩ := hi.phases t _ ht
      rw [List.append_nil] at hexact
      refine hi.setPhase ⟨⟨proposal, hp, ?_, ⟨rfl, rfl, rfl⟩⟩, rfl, henvelope, rfl, hexact⟩
      rw [hstatus]
      rfl
    · cases h
  | readTickSnapshot t pick now =>
    simp only [step] at h
    split at h
    · cases h
      exact hi.tickStep fun row hx => (readTickSnapshot_create hx).2.2
    · cases h
  | computeProposal t target properties =>
    simp only [step] at h
    split at h
    · split at h
      · cases h
        exact hi.setPhase trivial
      · cases h
        exact hi.close
    · cases h
  | writeTickResult t pick d now =>
    simp only [step] at h
    split at h
    · cases h
      exact hi.tickStep fun row hx => (writeTickResult_create hx).2.2
    · cases h
  | lockUnlockedProposal t now =>
    simp only [step] at h
    split at h
    · next existing patch snapshot ht =>
      split_ifs at h with hfree
      split at h
      · next row hrow =>
        cases h
        obtain ⟨hrow, -, hopen⟩ := lockUnlockedProposal_some hrow
        have hid := hi.ids _ _ hrow
        rw [← hid] at hfree
        refine hi.lockRow hfree ⟨⟨row, ⟨Function.update_self .., ?_⟩, hopen,
          patch.apply_edits now⟩, patch.apply_status⟩
        exact (congrArg _ hid).trans hrow
      · cases h
        exact hi.close
    · cases h
  | commit t =>
    simp only [step] at h
    split at h
    · next row execution ht =>
      cases h
      obtain ⟨proposal, hp, hopen, hedits, hconfirmed, hnone⟩ :=
        replaces_of_updated (hi.phases t _ ht)
      have hid := hedits.id
      have hold : s.tables.proposals row.id = some proposal := hid ▸ hp.2
      refine hi.closeWith (ids_setProposal hi) (fresh_setProposal hi hold)
        (hi.decided.update hold hopen hconfirmed hnone) fun u hu proposal' hp' => ?_
      have hne : proposal'.id ≠ row.id := by
        intro he
        rw [hid] at he
        exact hu (Option.some.inj (hp'.1.symm.trans (he ▸ hp.1)))
      exact (Function.update_of_ne hne ..).trans hp'.2
    · next row snapshot ht =>
      cases h
      exact hi.closeWith (ids_createProposal hi) (fresh_createProposal hi)
        (hi.decided.createProposal hi.fresh (hi.phases t _ ht)) fun _ _ _ h =>
          keep_createProposal hi h.2
    · cases h
  | fail t =>
    simp only [step] at h
    split at h
    · cases h
      exact hi.close
    · cases h

theorem inv_of_reach (h : Reach (step f) (fun _ _ => True) .init s) : Inv s :=
  h.invariant inv_init fun _ _ _ hi _ hs => inv_step hi hs

/-! ## Locked cards -/

theorem keepsLocked_setProposal (hopen : ∀ proposal, s.tables.proposals row.id = some proposal →
    proposal.status.locked = false) (p : ℕ) (r : ProposalRow)
    (hr : s.tables.proposals p = some r) (hlocked : r.status.locked = true) :
    (s.tables.setProposal row).proposals p = some r := by
  have hne : p ≠ row.id := by
    rintro rfl
    rw [hopen r hr] at hlocked
    cases hlocked
  exact (Function.update_of_ne hne ..).trans hr

theorem keepsLocked_tickStep {now : ℤ} {x : TickStep} :
    s.KeepsLocked (s.tickStep t tables now x) := by
  cases x <;> exact fun _ _ h _ => h

/-- Only a deletion changes a card that is confirmed or rejected. -/
theorem keepsLocked (hi : Inv s) {a : Act} (ha : ∀ p now, a ≠ .deleteProposal p now)
    (h : step f s a = some s') : s.KeepsLocked s' := by
  cases a with
  | deleteProposal proposalId now => exact absurd rfl (ha _ _)
  | createTranscriptProposal transcriptId envelope now =>
    cases h
    intro p r hr _
    have hid := hi.ids p r hr
    subst hid
    exact keep_createProposal hi hr
  | commit t =>
    simp only [step] at h
    split at h
    · next row execution ht =>
      cases h
      obtain ⟨proposal, hp, hopen, hedits, -⟩ := replaces_of_updated (hi.phases t _ ht)
      refine keepsLocked_setProposal fun r hr => ?_
      rw [hedits.id, hp.2] at hr
      cases hr
      exact hopen
    · cases h
      intro p r hr _
      have hid := hi.ids p r hr
      subst hid
      exact keep_createProposal hi hr
    · cases h
  | readTickSnapshot t pick now | writeTickResult t pick d now =>
    simp only [step] at h
    split at h
    · cases h
      exact keepsLocked_tickStep
    · cases h
  | _ =>
    simp only [step] at h
    repeat' split at h
    all_goals
      cases h
      try exact fun _ _ h _ => h

/-- A deletion leaves the status of a card. -/
theorem status_step (hi : Inv s) {a : Act} (h : step f s a = some s') {p : ℕ}
    (hr : s.tables.proposals p = some row) (hlocked : row.status.locked = true) :
    ∃ row', s'.tables.proposals p = some row' ∧ row'.status = row.status := by
  by_cases ha : ∃ q now, a = .deleteProposal q now
  · obtain ⟨q, now, rfl⟩ := ha
    simp only [step] at h
    split at h
    · next card hcard =>
      split_ifs at h with hfree
      cases h
      have hid := hi.ids _ _ hcard
      subst hid
      by_cases hp : p = card.id
      · subst hp
        rw [hcard] at hr
        cases hr
        exact ⟨_, Function.update_self .., rfl⟩
      · exact ⟨row, (Function.update_of_ne hp ..).trans hr, rfl⟩
    · cases h
  · exact ⟨row, keepsLocked hi (fun q now he => ha ⟨q, now, he⟩) h p row hr hlocked, rfl⟩

/-- The status of a card that is confirmed or rejected is final. -/
theorem status_reach (hi : Inv s) (h : Reach (step f) (fun _ _ => True) s s') {p : ℕ}
    (hr : s.tables.proposals p = some row) (hlocked : row.status.locked = true) :
    Inv s' ∧ ∃ row', s'.tables.proposals p = some row' ∧ row'.status = row.status := by
  induction h with
  | refl => exact ⟨hi, row, hr, rfl⟩
  | tail _ _ hs ih =>
    obtain ⟨hi', row', hr', hstatus⟩ := ih
    obtain ⟨row'', hr'', hstatus'⟩ := status_step hi' hs hr' (hstatus ▸ hlocked)
    exact ⟨inv_step hi' hs, row'', hr'', hstatus'.trans hstatus⟩

/-! ## The decisions -/

theorem tables_tickStep {now : ℤ} {x : TickStep} : (s.tickStep t tables now x).tables = s.tables := by
  cases x <;> rfl

theorem unchanged_of_ended {a : Act} (h : step f s a = some s')
    (hopen : (s.transactions t).isSome) (hended : s'.transactions t = none)
    (hcommit : a ≠ .commit t) : s'.tables = s.tables := by
  have hgoes : s'.transactions t ≠ s.transactions t := by
    rw [hended]
    intro he
    rw [← he] at hopen
    cases hopen
  cases a with
  | setSource sourceItemId source =>
    cases h
    exact absurd rfl hgoes
  | createTranscriptProposal transcriptId envelope now =>
    cases h
    exact absurd rfl hgoes
  | deleteProposal proposalId now =>
    simp only [step] at h
    split at h
    · split_ifs at h
      cases h
      exact absurd rfl hgoes
    · cases h
  | commit u =>
    have hne : t ≠ u := fun he => hcommit (he ▸ rfl)
    simp only [step] at h
    split at h
    · cases h
      exact absurd (Function.update_of_ne hne ..) hgoes
    · cases h
      exact absurd (Function.update_of_ne hne ..) hgoes
    · cases h
  | readTickSnapshot u pick now | writeTickResult u pick d now =>
    simp only [step] at h
    split at h
    · cases h
      exact tables_tickStep
    · cases h
  | _ =>
    simp only [step] at h
    repeat' split at h
    all_goals
      cases h
      try rfl

section

def mcpServers : DatabaseRow := ⟨7, none, none, none, none, some "mcpServers", true, true, none⟩

def destination : Destination where
  store := { Store.empty with databases := [mcpServers] }
  uuid text := if text = "7" then some 7 else none
  assertValidMcpServerProposalProperties _ := .ok ()
  assertRelationCreatable _ _ _ _ := .ok ()

/-- A tick proposes an MCP server; two confirms of the card, the first of which fails after it has
written the item, and a rejection that comes too late. -/
def confirmedOnce : List Act :=
  [.setSource 0 (some ⟨false, some ⟨"x", .database "7"⟩, "server"⟩), .tick 0 0,
    .readTickSnapshot 0 0 1, .computeProposal 0 none [], .beginWrite 0,
    .writeTickResult 0 0 destination 2, .commit 0,
    .decide 1 0 (.confirm (some ⟨"api_key", "k"⟩)), .lockLiveProposal 1, .check 1 destination 20 3,
    .writeDestination 1, .fail 1,
    .decide 2 0 (.confirm (some ⟨"api_key", "k"⟩)), .decide 3 0 (.reject none),
    .lockLiveProposal 2, .check 2 destination 21 4, .writeDestination 2, .writeDestination 2,
    .updateConfirmed 2 "21" "server" 5, .commit 2,
    .lockLiveProposal 3, .check 3 destination 22 6]

end

end Proposals

end Semprec
