import Mathlib.Data.Finset.Basic
import Mathlib.Order.Nat
import Semprec.TranscriptEventMatch

/-!
# One edge or one card

A run holds the row of its transcript from its first check to its commit, so what it has found of
the transcript is still so when it writes (`Before`).  What it has found of the event is, as long as
no other run is linking it.
-/

namespace Semprec

namespace TranscriptEventMatch

variable {dateParse : String → Option ℤ} {s s' : Sys} {t u transcriptId eventId : ℕ} {w : Write}
  {ws : List Write} {c c' : Tables} {tx tx' : Tx} {edge : Edge} {card : Card}

/-! ## Writes -/

def added (ws : List Write) (transcriptId : ℕ) : ℕ :=
  (ws.filter fun w => match w with
    | .insertEdge edge => edge.transcriptId = transcriptId
    | .insertCard card => card.transcriptId = transcriptId
    | _ => false).length

theorem added_append (ws ws' : List Write) :
    added (ws ++ ws') transcriptId = added ws transcriptId + added ws' transcriptId := by
  simp [added, List.filter_append]

theorem total_apply :
    (apply c w).total transcriptId = c.total transcriptId + added [w] transcriptId := by
  cases w with
  | lockTranscript _ => rfl
  | lockRelation => rfl
  | insertEdge edge =>
    by_cases h : edge.transcriptId = transcriptId
    · simp only [apply, Tables.total, added, List.filter_append, List.length_append,
        List.filter_cons, h, decide_true, if_true, List.filter_nil, List.length_singleton]
      omega
    · simp [apply, Tables.total, added, List.filter_append, h]
  | insertCard card =>
    by_cases h : card.transcriptId = transcriptId
    · simp only [apply, Tables.total, added, List.filter_append, List.length_append,
        List.filter_cons, h, decide_true, if_true, List.filter_nil, List.length_singleton]
      omega
    · simp [apply, Tables.total, added, List.filter_append, h]

theorem total_foldl : ∀ {ws : List Write} {c : Tables},
    (ws.foldl apply c).total transcriptId = c.total transcriptId + added ws transcriptId
  | [], _ => rfl
  | w :: ws, c => by
    rw [List.foldl_cons, total_foldl, total_apply, ← List.singleton_append (l := ws), added_append]
    omega

theorem mem_edges_apply : edge ∈ (apply c w).edges ↔ edge ∈ c.edges ∨ w = .insertEdge edge := by
  cases w <;> simp [apply, eq_comm]

theorem mem_edges_foldl : ∀ {ws : List Write} {c : Tables},
    edge ∈ (ws.foldl apply c).edges ↔ edge ∈ c.edges ∨ .insertEdge edge ∈ ws
  | [], _ => by simp
  | w :: ws, c => by
    rw [List.foldl_cons, mem_edges_foldl, mem_edges_apply, List.mem_cons, or_assoc, eq_comm]

theorem total_eq_zero : c.total transcriptId = 0 ↔
    (∀ edge ∈ c.edges, edge.transcriptId ≠ transcriptId) ∧
      ∀ card ∈ c.cards, card.transcriptId ≠ transcriptId := by
  simp [Tables.total]

/-! ## The invariant -/

def Phase.isDone : Phase → Bool
  | .done _ => true
  | _ => false

/-- What a run has found so far. -/
def Before (c : Tables) (transcriptId : ℕ) : Phase → Prop
  | .begun | .locked _ | .done _ => True
  | .unlinked _ => ∀ edge ∈ c.edges, edge.transcriptId ≠ transcriptId
  | .unmatched _ | .candidate _ _ | .suggesting _ _ => c.total transcriptId = 0
  | .linking eventId => c.total transcriptId = 0 ∧ ∀ edge ∈ c.edges, edge.eventId ≠ eventId
  | .conflict => False

structure TxOk (c : Tables) (ws : List Write) (tx : Tx) : Prop where
  owned : ∀ edge, .insertEdge edge ∈ ws → edge.transcriptId = tx.transcriptId
  others : ∀ transcriptId, transcriptId ≠ tx.transcriptId → added ws transcriptId = 0
  locked : tx.phase ≠ .begun → .lockTranscript tx.transcriptId ∈ ws
  nothing : tx.phase.isDone = false → added ws tx.transcriptId = 0 ∧ ∀ edge, .insertEdge edge ∉ ws
  before : Before c tx.transcriptId tx.phase
  one : tx.phase.isDone = true → c.total tx.transcriptId + added ws tx.transcriptId = 1

structure Inv (s : Sys) : Prop where
  atMostOne : ∀ transcriptId, s.db.committed.total transcriptId ≤ 1
  finished : ∀ transcriptId ∈ s.finished, s.db.committed.total transcriptId = 1
  txs : ∀ t tx, s.txs t = some tx → TxOk s.db.committed (s.db.pending t) tx
  opened : ∀ t tx, s.txs t = some tx → t ∈ s.db.opened
  alone : ∀ t u transcriptId, .lockTranscript transcriptId ∈ s.db.pending t →
    .lockTranscript transcriptId ∈ s.db.pending u → t = u
  links : ∀ t u eventId, s.Links t eventId → s.Links u eventId → t = u

theorem inv_init {transcripts events : List Row} : Inv (.init transcripts events) where
  atMostOne := fun _ => Nat.zero_le _
  finished := nofun
  txs := nofun
  opened := nofun
  alone := nofun
  links := by
    rintro t u eventId (⟨_, h, -⟩ | ⟨_, h⟩) <;> cases h

theorem Inv.opened_of_links (hi : Inv s) (h : s.Links t eventId) : t ∈ s.db.opened := by
  rcases h with ⟨tx, ht, -⟩ | ⟨transcriptId, hw⟩
  · exact hi.opened t tx ht
  · exact ReadCommitted.mem_opened_of_mem_pending hw

theorem Inv.write (hi : Inv s) (h : s.write t ws tx = some s') (hopened : t ∈ s.db.opened)
    (hok : TxOk s.db.committed (s.db.pending t ++ ws) tx)
    (hlock : ∀ transcriptId, .lockTranscript transcriptId ∈ ws → ∀ u, u ≠ t →
      .lockTranscript transcriptId ∉ s.db.pending u)
    (hlinks : ∀ eventId, tx.phase = .linking eventId ∨
      (∃ transcriptId, .insertEdge ⟨eventId, transcriptId⟩ ∈ ws) →
        ∀ u, u ≠ t → ¬s.Links u eventId) : Inv s' := by
  obtain ⟨db, hdb, rfl⟩ := Option.map_eq_some_iff.mp h
  have hcommitted := ReadCommitted.write_committed hdb
  have hpending := ReadCommitted.write_pending hdb
  constructor
  · exact fun transcriptId => hcommitted ▸ hi.atMostOne transcriptId
  · exact fun transcriptId hf => hcommitted ▸ hi.finished transcriptId hf
  · intro u tx' hu
    simp only [hcommitted, hpending]
    rcases of_update_some hu with ⟨rfl, rfl⟩ | ⟨hut, hu⟩
    · rwa [Function.update_self]
    · rw [Function.update_of_ne hut]
      exact hi.txs u tx' hu
  · intro u tx' hu
    simp only [ReadCommitted.write_opened hdb]
    rcases of_update_some hu with ⟨rfl, rfl⟩ | ⟨-, hu⟩
    · exact hopened
    · exact hi.opened u tx' hu
  · exact ReadCommitted.Exclusive.write Write.lockTranscript hi.alone hdb hlock
  · -- a transaction that links links now as it did before, or is the one that takes the step
    refine ReadCommitted.Exclusive.step (t := t) hi.links fun u eventId hu => ?_
    rcases hu with ⟨tx', hu, hphase⟩ | ⟨transcriptId, hw⟩
    · rcases of_update_some hu with ⟨hut, rfl⟩ | ⟨-, hu⟩
      · exact .inr ⟨hut, hlinks eventId (.inl hphase)⟩
      · exact .inl (.inl ⟨tx', hu, hphase⟩)
    · rcases ReadCommitted.mem_write_pending hdb hw with hw | ⟨hut, hw⟩
      · exact .inl (.inr ⟨transcriptId, hw⟩)
      · exact .inr ⟨hut, hlinks eventId (.inr ⟨transcriptId, hw⟩)⟩

theorem Inv.close (hi : Inv s) {db : ReadCommitted Tables Write} {finished : List ℕ}
    (hpending : db.pending = Function.update s.db.pending t [])
    (hopened : db.opened = s.db.opened.erase t)
    (hatMostOne : ∀ transcriptId, db.committed.total transcriptId ≤ 1)
    (hfinished : ∀ transcriptId ∈ finished, db.committed.total transcriptId = 1)
    (hothers : ∀ u tx, u ≠ t → s.txs u = some tx → TxOk db.committed (s.db.pending u) tx) :
    Inv { s with db, txs := Function.update s.txs t none, finished } := by
  have hlinks : ∀ {u eventId}, Sys.Links
      { s with db, txs := Function.update s.txs t none, finished } u eventId →
        s.Links u eventId := by
    rintro u eventId (⟨tx, hu, hphase⟩ | ⟨transcriptId, hw⟩)
    · exact .inl ⟨tx, (of_update_none hu).2, hphase⟩
    · exact .inr ⟨transcriptId, (ReadCommitted.mem_closed_pending hpending hw).2⟩
  constructor
  · exact hatMostOne
  · exact hfinished
  · intro u tx hu
    obtain ⟨hut, hu⟩ := of_update_none hu
    simp only [hpending, Function.update_of_ne hut]
    exact hothers u tx hut hu
  · intro u tx hu
    obtain ⟨hut, hu⟩ := of_update_none hu
    exact hopened ▸ Finset.mem_erase.mpr ⟨hut, hi.opened u tx hu⟩
  · exact ReadCommitted.Exclusive.close Write.lockTranscript hi.alone hpending
  · exact ReadCommitted.Exclusive.mono hi.links fun u eventId hu => hlinks hu

theorem TxOk.commit_other (hi : Inv s) (ht : s.txs t = some tx) (hdone : tx.phase.isDone = true)
    (hut : u ≠ t) (hu : s.txs u = some tx') :
    TxOk ((s.db.pending t).foldl apply s.db.committed) (s.db.pending u) tx' := by
  have hok := hi.txs t tx ht
  have hok' := hi.txs u tx' hu
  by_cases hbegun : tx'.phase = .begun
  · exact { hok' with
      before := by
        rw [hbegun]
        trivial
      one := fun h => by simp [hbegun, Phase.isDone] at h }
  · -- the runs have locked different transcripts
    have hne : tx'.transcriptId ≠ tx.transcriptId := fun heq => hut (hi.alone u t _
      (hok'.locked hbegun) (heq ▸ hok.locked fun h => by simp [h, Phase.isDone] at hdone))
    have htotal : ((s.db.pending t).foldl apply s.db.committed).total tx'.transcriptId =
        s.db.committed.total tx'.transcriptId := by
      rw [total_foldl, hok.others _ hne, Nat.add_zero]
    refine { hok' with before := ?_, one := fun h => htotal ▸ hok'.one h }
    have hbefore := hok'.before
    rcases hphase : tx'.phase with _ | _ | _ | _ | _ | e | _ | _ | _ <;>
      simp only [hphase, Before, htotal] at hbefore ⊢
    · intro edge hedge
      rcases mem_edges_foldl.mp hedge with hedge | hedge
      · exact hbefore edge hedge
      · exact fun heq => hne (heq.symm.trans (hok.owned edge hedge))
    · exact hbefore
    · exact hbefore
    · refine ⟨hbefore.1, fun edge hedge heq => ?_⟩
      rcases mem_edges_foldl.mp hedge with hedge | hedge
      · exact hbefore.2 edge hedge heq
      · exact hut (hi.links u t e (.inl ⟨tx', hu, hphase⟩)
          (.inr ⟨edge.transcriptId, by rw [← heq]; exact hedge⟩))
    · exact hbefore

/-! ## The statements -/

theorem view_of_not_done (hok : TxOk s.db.committed (s.db.pending t) tx)
    (hopen : tx.phase.isDone = false) :
    (s.db.view apply t).total tx.transcriptId = s.db.committed.total tx.transcriptId ∧
      ∀ edge, edge ∈ (s.db.view apply t).edges ↔ edge ∈ s.db.committed.edges := by
  obtain ⟨hadded, hnone⟩ := hok.nothing hopen
  unfold ReadCommitted.view
  exact ⟨by rw [total_foldl, hadded, Nat.add_zero], fun edge => by simp [mem_edges_foldl, hnone]⟩

theorem Inv.goOn (hi : Inv s) (h : s.write t ws tx' = some s') (ht : s.txs t = some tx)
    (hopen : tx.phase.isDone = false) (hsame : tx'.transcriptId = tx.transcriptId)
    (hws : ws = [] ∧ tx.phase ≠ .begun ∨ ws = [.lockTranscript tx.transcriptId] ∧
      ∀ u, u ≠ t → .lockTranscript tx.transcriptId ∉ s.db.pending u)
    (hbefore : Before s.db.committed tx.transcriptId tx'.phase)
    (hone : tx'.phase.isDone = true → s.db.committed.total tx.transcriptId = 1)
    (hlinks : ∀ eventId, tx'.phase = .linking eventId → ∀ u, u ≠ t → ¬s.Links u eventId) :
    Inv s' := by
  have hok := hi.txs t tx ht
  obtain ⟨hadded, hnone⟩ := hok.nothing hopen
  have hreads : ∀ transcriptId, added ws transcriptId = 0 := by
    rcases hws with ⟨rfl, -⟩ | ⟨rfl, -⟩ <;> exact fun _ => rfl
  have hedges : ∀ edge, .insertEdge edge ∉ s.db.pending t ++ ws := by
    intro edge hmem
    rcases List.mem_append.mp hmem with hmem | hmem
    · exact hnone edge hmem
    · rcases hws with ⟨rfl, -⟩ | ⟨rfl, -⟩ <;> simp at hmem
  refine hi.write h (hi.opened t tx ht) ⟨fun edge hmem => absurd hmem (hedges edge),
    fun transcriptId hne => ?_, fun _ => ?_, fun _ => ⟨?_, hedges⟩, hsame ▸ hbefore, fun hdone => ?_⟩ ?_ ?_
  · rw [added_append, hok.others transcriptId (hsame ▸ hne), hreads]
  · rw [hsame]
    rcases hws with ⟨rfl, hbegun⟩ | ⟨rfl, -⟩
    · simpa using hok.locked hbegun
    · simp
  · rw [hsame, added_append, hadded, hreads]
  · rw [hsame, added_append, hadded, hreads, hone hdone]
  · intro transcriptId hmem u hut
    rcases hws with ⟨rfl, -⟩ | ⟨rfl, hfree⟩
    · cases hmem
    · obtain rfl : transcriptId = tx.transcriptId := by simpa using hmem
      exact hfree u hut
  · rintro eventId (hphase | ⟨transcriptId, hmem⟩)
    · exact hlinks eventId hphase
    · rcases hws with ⟨rfl, -⟩ | ⟨rfl, -⟩ <;> simp at hmem

theorem Inv.done (hi : Inv s) {outcome : Outcome} {l : List Write}
    (h : s.write t (l ++ [w]) ⟨tx.transcriptId, tx.durationMs, .done outcome⟩ = some s')
    (ht : s.txs t = some tx) (hopen : tx.phase.isDone = false) (hbegun : tx.phase ≠ .begun)
    (hnone : s.db.committed.total tx.transcriptId = 0)
    (hlocks : ∀ w ∈ l, w = .lockRelation)
    (hw : (∃ eventId, tx.phase = .linking eventId ∧ w = .insertEdge ⟨eventId, tx.transcriptId⟩) ∨
      ∃ card : Card, card.transcriptId = tx.transcriptId ∧ w = .insertCard card) : Inv s' := by
  have hok := hi.txs t tx ht
  obtain ⟨hadded, hnoEdge⟩ := hok.nothing hopen
  have hlocksAdded : ∀ transcriptId, added l transcriptId = 0 := by
    intro transcriptId
    unfold added
    rw [List.length_eq_zero_iff, List.filter_eq_nil_iff]
    intro w' hw'
    rw [hlocks w' hw']
    exact Bool.false_ne_true
  have hself : added [w] tx.transcriptId = 1 := by
    rcases hw with ⟨eventId, -, rfl⟩ | ⟨card, hcard, rfl⟩
    · simp [added]
    · simp [added, hcard]
  have hother : ∀ transcriptId, transcriptId ≠ tx.transcriptId → added [w] transcriptId = 0 := by
    intro transcriptId hne
    rcases hw with ⟨eventId, -, rfl⟩ | ⟨card, hcard, rfl⟩
    · simp [added, Ne.symm hne]
    · simp [added, hcard, Ne.symm hne]
  have hmem : ∀ {edge}, .insertEdge edge ∈ l ++ [w] →
      ∃ eventId, tx.phase = .linking eventId ∧ edge = ⟨eventId, tx.transcriptId⟩ := by
    intro edge hedge
    rcases List.mem_append.mp hedge with hedge | hedge
    · cases hlocks _ hedge
    · rcases hw with ⟨eventId, hphase, rfl⟩ | ⟨card, -, rfl⟩
      · exact ⟨eventId, hphase, by simpa using hedge⟩
      · simp at hedge
  refine hi.write h (hi.opened t tx ht) ⟨fun edge hedge => ?_, fun transcriptId hne => ?_,
    fun _ => ?_, nofun, trivial, fun _ => ?_⟩ ?_ ?_
  · rcases List.mem_append.mp hedge with hedge | hedge
    · exact absurd hedge (hnoEdge edge)
    · obtain ⟨eventId, -, rfl⟩ := hmem hedge
      rfl
  · rw [added_append, added_append, hok.others transcriptId hne, hlocksAdded,
      hother transcriptId hne]
  · exact List.mem_append_left _ (hok.locked hbegun)
  · rw [added_append, added_append, hnone, hadded, hlocksAdded, hself]
  · intro transcriptId hlock
    rcases List.mem_append.mp hlock with hlock | hlock
    · cases hlocks _ hlock
    · rcases hw with ⟨eventId, -, rfl⟩ | ⟨card, -, rfl⟩ <;> simp at hlock
  · rintro eventId (hphase | ⟨transcriptId, hedge⟩) u hut hu
    · cases hphase
    · obtain ⟨eventId', hphase, heq⟩ := hmem hedge
      cases heq
      exact hut (hi.links u t eventId hu (.inl ⟨tx, ht, hphase⟩))

theorem Inv.begin (hi : Inv s) {db : ReadCommitted Tables Write} {durationMs : ℤ}
    (h : s.db.begin t = some db) :
    Inv { s with
      db, txs := Function.update s.txs t (some ⟨transcriptId, durationMs, .begun⟩) } := by
  have hnil : s.db.pending t = [] := by
    refine s.db.pending_nil t fun hopen => ?_
    simp [ReadCommitted.begin, hopen] at h
  have hcommitted := ReadCommitted.begin_committed h
  have hpending := ReadCommitted.begin_pending h
  have hlinks : ∀ {u eventId}, Sys.Links { s with
      db, txs := Function.update s.txs t (some ⟨transcriptId, durationMs, .begun⟩) } u eventId →
        s.Links u eventId := by
    rintro u eventId (⟨tx, hu, hphase⟩ | ⟨transcriptId', hw⟩)
    · by_cases hut : u = t
      · obtain rfl : ⟨transcriptId, durationMs, .begun⟩ = tx := by simpa [hut] using hu
        cases hphase
      · exact .inl ⟨tx, by simpa [hut] using hu, hphase⟩
    · exact .inr ⟨transcriptId', hpending ▸ hw⟩
  constructor
  · exact fun transcriptId => hcommitted ▸ hi.atMostOne transcriptId
  · exact fun transcriptId hf => hcommitted ▸ hi.finished transcriptId hf
  · intro u tx hu
    simp only [hcommitted, hpending]
    by_cases hut : u = t
    · subst hut
      obtain rfl : ⟨transcriptId, durationMs, .begun⟩ = tx := by simpa using hu
      rw [hnil]
      exact ⟨by simp, fun _ _ => rfl, fun hne => absurd rfl hne, fun _ => ⟨rfl, by simp⟩, trivial,
        nofun⟩
    · simp only [Function.update_of_ne hut] at hu
      exact hi.txs u tx hu
  · intro u tx hu
    rw [ReadCommitted.begin_opened h]
    by_cases hut : u = t
    · exact hut ▸ Finset.mem_insert_self _ _
    · exact Finset.mem_insert_of_mem (hi.opened u tx (by simpa [hut] using hu))
  · intro u u' transcriptId' hu hu'
    simp only [hpending] at hu hu'
    exact hi.alone u u' transcriptId' hu hu'
  · exact fun u u' eventId hu hu' => hi.links u u' eventId (hlinks hu) (hlinks hu')

theorem Inv.commit (hi : Inv s) (ht : s.txs t = some tx) (hdone : tx.phase.isDone = true)
    {db : ReadCommitted Tables Write} (h : s.db.commit apply t = some db) :
    Inv { s with
      db, txs := Function.update s.txs t none, finished := tx.transcriptId :: s.finished } := by
  have hok := hi.txs t tx ht
  have hcommitted := ReadCommitted.commit_committed h
  unfold ReadCommitted.view at hcommitted
  have htotal : ∀ transcriptId, db.committed.total transcriptId =
      if transcriptId = tx.transcriptId then 1 else s.db.committed.total transcriptId := by
    intro transcriptId
    rw [hcommitted, total_foldl]
    split_ifs with heq
    · exact heq ▸ hok.one hdone
    · rw [hok.others transcriptId heq, Nat.add_zero]
  refine hi.close (ReadCommitted.commit_pending h) (ReadCommitted.commit_opened h) ?_ ?_
    fun u tx' hut hu => ?_
  · intro transcriptId
    rw [htotal]
    split_ifs
    · exact le_rfl
    · exact hi.atMostOne transcriptId
  · intro transcriptId hf
    rw [htotal]
    split_ifs with heq
    · rfl
    · exact hi.finished transcriptId ((List.mem_cons.mp hf).resolve_left heq)
  · rw [hcommitted]
    exact TxOk.commit_other hi ht hdone hut hu

theorem Inv.step (hi : Inv s) {a : Act} (hok : OneLinks s a)
    (h : TranscriptEventMatch.step dateParse s a = some s') : Inv s' := by
  cases a with
  | begin t transcriptId durationMs =>
    obtain ⟨db, hdb, rfl⟩ := Option.map_eq_some_iff.mp h
    exact hi.begin hdb
  | lockItemById t =>
    simp only [TranscriptEventMatch.step] at h
    split at h
    · rename_i transcriptId durationMs ht
      split_ifs at h with hlocked
      split at h
      · split_ifs at h
        refine hi.goOn h ht rfl rfl (.inr ⟨rfl, fun u hut hu => hlocked ?_⟩) trivial nofun nofun
        exact .of_mem hu hut (by simp [Write.locksTranscript])
      · cases h
    · cases h
  | listTranscriptEdges t =>
    simp only [TranscriptEventMatch.step] at h
    split at h
    · rename_i transcriptId durationMs transcript ht
      obtain ⟨htotal, hedges⟩ := view_of_not_done (hi.txs t _ ht) rfl
      split_ifs at h with hany
      · refine hi.goOn h ht rfl rfl (.inl ⟨rfl, nofun⟩) trivial (fun _ => ?_) nofun
        obtain ⟨edge, hedge, heq⟩ := List.any_eq_true.mp hany
        have hne : s.db.committed.total transcriptId ≠ 0 := fun hzero =>
          (total_eq_zero.mp hzero).1 edge ((hedges edge).mp hedge) (by simpa using heq)
        exact le_antisymm (hi.atMostOne transcriptId) (Nat.pos_of_ne_zero hne)
      · refine hi.goOn h ht rfl rfl (.inl ⟨rfl, nofun⟩) (fun edge hedge heq => hany ?_) nofun nofun
        exact List.any_eq_true.mpr ⟨edge, (hedges edge).mpr hedge, by simpa using heq⟩
    · cases h
  | findIdempotentReplay t =>
    simp only [TranscriptEventMatch.step] at h
    split at h
    · rename_i transcriptId durationMs transcript ht
      have htx := hi.txs t _ ht
      obtain ⟨htotal, hedges⟩ := view_of_not_done htx rfl
      split_ifs at h with hany
      · refine hi.goOn h ht rfl rfl (.inl ⟨rfl, nofun⟩) trivial (fun _ => ?_) nofun
        obtain ⟨card, hcard, heq⟩ := List.any_eq_true.mp hany
        have hne : s.db.committed.total transcriptId ≠ 0 := fun hzero =>
          (total_eq_zero.mp (htotal.trans hzero)).2 card hcard (by simpa using heq)
        exact le_antisymm (hi.atMostOne transcriptId) (Nat.pos_of_ne_zero hne)
      · refine hi.goOn h ht rfl rfl (.inl ⟨rfl, nofun⟩) (htotal.symm.trans ?_) nofun nofun
        refine total_eq_zero.mpr ⟨fun edge hedge => htx.before edge ((hedges edge).mp hedge), ?_⟩
        exact fun card hcard heq => hany (List.any_eq_true.mpr ⟨card, hcard, by simpa using heq⟩)
    · cases h
  | listCandidates t =>
    simp only [TranscriptEventMatch.step] at h
    split at h
    · rename_i transcriptId durationMs transcript ht
      have hbefore := (hi.txs t _ ht).before
      split at h
      · cases h
      · split at h
        · exact hi.goOn h ht rfl rfl (.inl ⟨rfl, nofun⟩) hbefore nofun nofun
        · exact hi.goOn h ht rfl rfl (.inl ⟨rfl, nofun⟩) hbefore nofun nofun
    · cases h
  | listEventEdges t =>
    simp only [TranscriptEventMatch.step] at h
    split at h
    · rename_i transcriptId durationMs transcript eventId ht
      have htx := hi.txs t _ ht
      obtain ⟨-, hedges⟩ := view_of_not_done htx rfl
      split_ifs at h with hany
      · exact hi.goOn h ht rfl rfl (.inl ⟨rfl, nofun⟩) htx.before nofun nofun
      · refine hi.goOn h ht rfl rfl (.inl ⟨rfl, nofun⟩)
          ⟨htx.before, fun edge hedge heq => hany ?_⟩ nofun fun eventId' hphase => ?_
        · exact List.any_eq_true.mpr ⟨edge, (hedges edge).mpr hedge, by simpa using heq⟩
        · cases hphase
          exact fun u hut hu => hok _ transcript eventId ht rfl u (hi.opened_of_links hu) hut hu
    · cases h
  | createRelation t =>
    simp only [TranscriptEventMatch.step] at h
    split at h
    · rename_i transcriptId durationMs eventId ht
      have htx := hi.txs t _ ht
      obtain ⟨hnone, hfree⟩ : s.db.committed.total transcriptId = 0 ∧
        ∀ edge ∈ s.db.committed.edges, edge.eventId ≠ eventId := htx.before
      obtain ⟨-, hedges⟩ := view_of_not_done htx rfl
      split_ifs at h with hlocked hconflict
      · -- nothing is in the way of the edge
        obtain ⟨edge, hedge, heq⟩ := List.any_eq_true.mp hconflict
        have hedge := (hedges edge).mp hedge
        rcases (of_decide_eq_true heq).1 with h | h
        · exact absurd h (hfree edge hedge)
        · exact absurd h ((total_eq_zero.mp hnone).1 edge hedge)
      · exact hi.done (l := [.lockRelation]) h ht rfl nofun hnone (by simp)
          (.inl ⟨eventId, rfl, rfl⟩)
    · cases h
  | createCard t =>
    simp only [TranscriptEventMatch.step] at h
    split at h
    · rename_i transcriptId durationMs transcript candidates ht
      split_ifs at h
      exact hi.done (l := []) h ht rfl nofun (hi.txs t _ ht).before nofun (.inr ⟨_, rfl, rfl⟩)
    · cases h
  | commit t =>
    simp only [TranscriptEventMatch.step] at h
    split at h
    · rename_i ht
      obtain ⟨db, hdb, rfl⟩ := Option.map_eq_some_iff.mp h
      exact hi.commit ht rfl hdb
    · cases h
  | abort t =>
    obtain ⟨db, hdb, rfl⟩ := Option.map_eq_some_iff.mp h
    have hcommitted := ReadCommitted.rollback_committed hdb
    exact hi.close (ReadCommitted.rollback_pending hdb) (ReadCommitted.rollback_opened hdb)
      (fun i => hcommitted ▸ hi.atMostOne i) (fun i hf => hcommitted ▸ hi.finished i hf)
      fun u tx _ hu => hcommitted ▸ hi.txs u tx hu
  | setEvents events | setTranscripts transcripts =>
    cases h
    exact ⟨hi.atMostOne, hi.finished, hi.txs, hi.opened, hi.alone, hi.links⟩

/-- While no two runs link one event at the same time, none is thrown off, and each leaves its
transcript with one edge or one card. -/
theorem runs_settle {transcripts events : List Row}
    (h : Reach (step dateParse) OneLinks (.init transcripts events) s) : s.Settled := by
  have hi : Inv s := h.invariant inv_init fun _ _ _ hi hok hs => hi.step hok hs
  refine ⟨fun t tx ht hconflict => ?_, hi.atMostOne, hi.finished⟩
  have hbefore := (hi.txs t tx ht).before
  rw [hconflict] at hbefore
  exact hbefore

/-- The time of day, for dates of one day. -/
def clock (text : String) : Option ℤ :=
  match text.toList.drop 11 with
  | [h₁, h₂, _, m₁, m₂] => some (((digit h₁ * 10 + digit h₂) * 60 + digit m₁ * 10 + digit m₂) * 60000)
  | _ => none
where
  digit (c : Char) : ℤ := (c.toNat : ℤ) - 48

def agenda : List Row :=
  [⟨9, [("type", .str "standup"), ("date", .str "2026-01-05T09:00")], none⟩,
    ⟨8, [("type", .str "meeting"), ("date", .str "2026-01-05T18:00")], none⟩]

def recordings : List Row :=
  [⟨1, [("name", .str "First"), ("date", .str "2026-01-05T09:05")], none⟩,
    ⟨2, [("name", .str "Second"), ("date", .str "2026-01-05T09:10")], none⟩]

def checks (t transcriptId : ℕ) : List Act :=
  [.begin t transcriptId 600000, .lockItemById t, .listTranscriptEdges t, .findIdempotentReplay t,
    .listCandidates t, .listEventEdges t]

/-- Both recordings are matched, one after the other, and the first one once more. -/
def oneByOne : List Act :=
  checks 0 1 ++ ([.createRelation 0, .commit 0] : List Act) ++ checks 0 2 ++
    ([.createCard 0, .commit 0] : List Act) ++
    ([.begin 1 1 600000, .lockItemById 1, .listTranscriptEdges 1, .commit 1] : List Act)

def listsAlone (s : Sys) : Act → Bool
  | .listEventEdges t => ∀ u ∈ s.db.opened, u = t
  | _ => true

theorem runs_settle_oneByOne : ∃ s,
    runActs (step clock) (.init recordings agenda) oneByOne = some s ∧
      s.finished = [1, 2, 1] ∧ s.Settled := by
  obtain ⟨s, hs⟩ := Option.isSome_iff_exists.mp (by decide +kernel :
    (runChecked (step clock) listsAlone (.init recordings agenda) oneByOne).isSome = true)
  refine ⟨s, runActs_of_runChecked hs, eq_of_map_eq (f := fun s => s.finished) (b := [1, 2, 1]) hs
    (by decide +kernel), runs_settle (.of_runChecked (fun s a ha => ?_) hs)⟩
  cases a with
  | listEventEdges t =>
    exact fun _ _ _ _ _ u hu hut => absurd (of_decide_eq_true ha u hu) hut
  | _ => trivial

def bothLink : List Act :=
  checks 0 1 ++ checks 1 2 ++ [Act.createRelation 0, Act.commit 0, Act.createRelation 1]

theorem bothLink_conflict : ¬∀ (dateParse : String → Option ℤ) transcripts events s,
    Reach (step dateParse) (fun _ _ => True) (.init transcripts events) s → s.Settled := by
  intro hall
  obtain ⟨s, hs⟩ := Option.isSome_iff_exists.mp (by decide +kernel :
    (runActs (step clock) (.init recordings agenda) bothLink).isSome = true)
  have hthrown : (s.txs 1).map (fun tx => match tx.phase with
      | .conflict => true
      | _ => false) = some true :=
    eq_of_map_eq (f := fun s => (s.txs 1).map fun tx => match tx.phase with
      | .conflict => true
      | _ => false) (b := some true) hs (by decide +kernel)
  obtain ⟨tx, ht, hphase⟩ := Option.map_eq_some_iff.mp hthrown
  refine (hall _ _ _ s (.of_runActs hs)).noConflict 1 tx ht ?_
  split at hphase
  · assumption
  · cases hphase

end TranscriptEventMatch

end Semprec
