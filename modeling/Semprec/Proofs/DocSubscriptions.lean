import Semprec.DocSubscriptions

/-!
# The books of the subscriptions are exact

A slot is held by a subscription or by a lookup that is still to come (`Inv.slots`), and an open
socket is subscribed where its latest frame is an open that has been found or may be (`Inv.wanted`,
`Inv.found`).  When no lookup is left, each slot is a subscription's.
-/

namespace Semprec

namespace DocSubscriptions

variable {tenant : ℕ → String} {s s' : Sys} {ws n : ℕ} {docId : String} {frame : Frame} {fate : Fate}

/-- Frames are numbered below `nextFrame`, and the latest of a document is one for it. -/
structure Framed (s : Sys) : Prop where
  numbered : ∀ n, ∀ frame ∈ s.frames n, n < s.nextFrame
  latest : ∀ ws docId, ∀ n ∈ s.latest ws docId, ∃ fate, s.frames n = some ⟨ws, docId, fate⟩

structure Inv (tenant : ℕ → String) (s : Sys) : Prop where
  cap : ∀ ws, (s.openDocsByClient ws).card ≤ MAX_OPEN_DOCS_PER_CONNECTION
  subscribed : ∀ ws key, ws ∈ s.subscribersByDoc key → key.1 = tenant ws ∧
    s.tenantByClient ws = some key.1 ∧ key.2 ∈ s.openDocsByClient ws
  slots : ∀ ws, ∀ docId ∈ s.openDocsByClient ws, Subscribed tenant s ws docId ∨
    ∃ n, s.frames n = some ⟨ws, docId, .pending⟩
  wanted : ∀ ws docId, s.readyState ws = .OPEN → Subscribed tenant s ws docId →
    latestFate s ws docId = some .pending ∨ latestFate s ws docId = some .visible
  found : ∀ ws docId, s.readyState ws = .OPEN → latestFate s ws docId = some .visible →
    Subscribed tenant s ws docId
  closed : ∀ ws, s.readyState ws = .CLOSED → s.openDocsByClient ws = ∅
  framed : Framed s

theorem inv_init : Inv tenant Sys.init := by
  have hframed : Framed Sys.init := ⟨nofun, nofun⟩
  constructor <;> simp [Sys.init, latestFate, Subscribed]
  exact hframed

theorem Inv.exact (hi : Inv tenant s) (hquiet : Quiet s) : Exact tenant s where
  cap := hi.cap
  slots ws docId := by
    refine ⟨fun h => (hi.slots ws docId h).resolve_right ?_, fun h => (hi.subscribed ws _ h).2.2⟩
    rintro ⟨n, hframe⟩
    exact hquiet n _ hframe rfl
  latest ws hopen docId := by
    refine ⟨fun h => (hi.wanted ws docId hopen h).resolve_left fun hpending => ?_,
      hi.found ws docId hopen⟩
    obtain ⟨frame, hframe, hfate⟩ := Option.map_eq_some_iff.mp hpending
    obtain ⟨n, -, hframe⟩ := Option.bind_eq_some_iff.mp hframe
    exact hquiet n frame hframe hfate
  own ws key h := (hi.subscribed ws key h).1
  gone ws hclosed key h := by
    have hmem := (hi.subscribed ws key h).2.2
    rw [hi.closed ws hclosed] at hmem
    exact absurd hmem (Finset.notMem_empty _)

/-! ## The latest frame -/

theorem latestFate_congr {ws' : ℕ} {docId' : String} (hlatest : s'.latest ws' docId' = s.latest ws' docId')
    (hframes : ∀ n ∈ s.latest ws' docId', s'.frames n = s.frames n) :
    latestFate s' ws' docId' = latestFate s ws' docId' := by
  unfold latestFate
  rw [hlatest]
  rcases hn : s.latest ws' docId' with _ | n
  · rfl
  · simp only [Option.bind_some, hframes n hn]

theorem latestFate_note : latestFate (s.note ws docId fate) ws docId = some fate := by
  simp [latestFate, Sys.note]

theorem latest_note_of_ne {ws' : ℕ} {docId' : String} (hne : ¬(ws' = ws ∧ docId' = docId)) :
    (s.note ws docId fate).latest ws' docId' = s.latest ws' docId' := by
  simp only [Sys.note, Function.update_apply]
  split_ifs with hws
  · subst hws
    exact Function.update_of_ne (fun h => hne ⟨rfl, h⟩) _ _
  · rfl

/-- Noting a frame leaves the latest frames of the other documents alone. -/
theorem Framed.latestFate_note_of_ne (hi : Framed s) {ws' : ℕ} {docId' : String}
    (hne : ¬(ws' = ws ∧ docId' = docId)) :
    latestFate (s.note ws docId fate) ws' docId' = latestFate s ws' docId' := by
  refine latestFate_congr (latest_note_of_ne hne) fun n hn => ?_
  obtain ⟨fate', hframe⟩ := hi.latest ws' docId' n hn
  exact Function.update_of_ne (hi.numbered n _ hframe).ne _ _

/-- A lookup that is over is of its own document. -/
theorem Framed.latestFate_settle_of_ne (hi : Framed s) (hframe : s.frames n = some frame) {ws' : ℕ}
    {docId' : String} (hne : ¬(ws' = frame.ws ∧ docId' = frame.docId)) :
    latestFate (s.settle n frame fate) ws' docId' = latestFate s ws' docId' := by
  refine latestFate_congr rfl fun m hm => Function.update_of_ne (fun heq => hne ?_) _ _
  subst heq
  obtain ⟨fate', hframe'⟩ := hi.latest ws' docId' m hm
  rw [hframe] at hframe'
  obtain rfl := Option.some.inj hframe'
  exact ⟨rfl, rfl⟩

theorem latestFate_settle : latestFate (s.settle n frame fate) ws docId = some fate ∨
    latestFate (s.settle n frame fate) ws docId = latestFate s ws docId := by
  unfold latestFate
  simp only [Sys.settle]
  rcases hm : s.latest ws docId with _ | m
  · exact .inr rfl
  · by_cases heq : m = n
    · subst heq
      exact .inl (by simp)
    · exact .inr (by simp [Function.update_of_ne heq])

theorem frames_note_of_lt (hlt : n < s.nextFrame) : (s.note ws docId fate).frames n = s.frames n :=
  Function.update_of_ne hlt.ne _ _

theorem frames_note_self : (s.note ws docId fate).frames s.nextFrame = some ⟨ws, docId, fate⟩ :=
  Function.update_self _ _ _

theorem Framed.note (hi : Framed s) : Framed (s.note ws docId fate) where
  numbered n frame hframe := by
    simp only [Sys.note, Function.update_apply] at hframe
    split_ifs at hframe with heq
    · exact heq ▸ Nat.lt_succ_self _
    · exact Nat.lt_succ_of_lt (hi.numbered n frame hframe)
  latest ws' docId' n hn := by
    by_cases heq : ws' = ws ∧ docId' = docId
    · obtain ⟨rfl, rfl⟩ := heq
      obtain rfl : s.nextFrame = n := by simpa [Sys.note] using hn
      exact ⟨fate, frames_note_self⟩
    · rw [latest_note_of_ne heq] at hn
      obtain ⟨fate', hframe⟩ := hi.latest ws' docId' n hn
      exact ⟨fate', (frames_note_of_lt (hi.numbered n _ hframe)).trans hframe⟩

theorem Framed.settle (hi : Framed s) (hframe : s.frames n = some frame) :
    Framed (s.settle n frame fate) where
  numbered m frame' h := by
    simp only [Sys.settle, Function.update_apply] at h
    split_ifs at h with heq
    · exact hi.numbered m frame (heq ▸ hframe)
    · exact hi.numbered m frame' h
  latest ws' docId' m hm := by
    obtain ⟨fate', hframe'⟩ := hi.latest ws' docId' m hm
    by_cases heq : m = n
    · subst heq
      obtain rfl := Option.some.inj (hframe.symm.trans hframe')
      exact ⟨fate, Function.update_self _ _ _⟩
    · exact ⟨fate', (Function.update_of_ne heq _ _).trans hframe'⟩

/-! ## A frame that comes -/

theorem Inv.note (hi : Inv tenant s) (hfate : fate ≠ .visible) (hwanted : s.readyState ws = .OPEN →
      Subscribed tenant s ws docId → fate = .pending) : Inv tenant (s.note ws docId fate) where
  cap := hi.cap
  subscribed := hi.subscribed
  slots ws' docId' hslot := (hi.slots ws' docId' hslot).imp_right fun ⟨n, hframe⟩ =>
    ⟨n, (frames_note_of_lt (hi.framed.numbered n _ hframe)).trans hframe⟩
  wanted ws' docId' hopen hsubscribed := by
    by_cases heq : ws' = ws ∧ docId' = docId
    · obtain ⟨rfl, rfl⟩ := heq
      exact .inl (latestFate_note.trans (congrArg some (hwanted hopen hsubscribed)))
    · rw [hi.framed.latestFate_note_of_ne heq]
      exact hi.wanted ws' docId' hopen hsubscribed
  found ws' docId' hopen hvisible := by
    by_cases heq : ws' = ws ∧ docId' = docId
    · obtain ⟨rfl, rfl⟩ := heq
      exact absurd (Option.some.inj (latestFate_note.symm.trans hvisible)) hfate
    · rw [hi.framed.latestFate_note_of_ne heq] at hvisible
      exact hi.found ws' docId' hopen hvisible
  closed := hi.closed
  framed := hi.framed.note

theorem mem_addOpenDoc {ws' : ℕ} {docId' : String} :
    docId' ∈ (s.addOpenDoc ws docId).openDocsByClient ws' ↔
      (ws' = ws ∧ docId' = docId) ∨ docId' ∈ s.openDocsByClient ws' := by
  simp only [Sys.addOpenDoc, Function.update_apply]
  split_ifs with hws
  · simp [hws]
  · simp [hws]

theorem mem_deleteOpenDoc {ws' : ℕ} {docId' : String} :
    docId' ∈ (s.deleteOpenDoc ws docId).openDocsByClient ws' ↔
      ¬(ws' = ws ∧ docId' = docId) ∧ docId' ∈ s.openDocsByClient ws' := by
  simp only [Sys.deleteOpenDoc, Function.update_apply]
  split_ifs with hws
  · simp [hws]
  · simp [hws]

theorem cap_addOpenDoc (hcap : ∀ ws, (s.openDocsByClient ws).card ≤ MAX_OPEN_DOCS_PER_CONNECTION)
    (hfree : docId ∈ s.openDocsByClient ws ∨
      (s.openDocsByClient ws).card < MAX_OPEN_DOCS_PER_CONNECTION) (ws' : ℕ) :
    ((s.addOpenDoc ws docId).openDocsByClient ws').card ≤ MAX_OPEN_DOCS_PER_CONNECTION := by
  simp only [Sys.addOpenDoc, Function.update_apply]
  split_ifs
  · rcases hfree with hin | hlt
    · rw [Finset.insert_eq_of_mem hin]
      exact hcap ws
    · exact (Finset.card_insert_le _ _).trans hlt
  · exact hcap ws'

theorem cap_deleteOpenDoc (hcap : ∀ ws, (s.openDocsByClient ws).card ≤ MAX_OPEN_DOCS_PER_CONNECTION)
    (ws' : ℕ) :
    ((s.deleteOpenDoc ws docId).openDocsByClient ws').card ≤ MAX_OPEN_DOCS_PER_CONNECTION := by
  refine (Finset.card_le_card fun docId' h => ?_).trans (hcap ws')
  exact (mem_deleteOpenDoc.mp h).2

theorem Inv.addOpenDoc (hi : Inv tenant s) (hready : s.readyState ws ≠ .CLOSED)
    (hfree : docId ∈ s.openDocsByClient ws ∨
      (s.openDocsByClient ws).card < MAX_OPEN_DOCS_PER_CONNECTION)
    (hpending : ∃ n, s.frames n = some ⟨ws, docId, .pending⟩) : Inv tenant (s.addOpenDoc ws docId) where
  cap := cap_addOpenDoc hi.cap hfree
  subscribed ws' key h := by
    obtain ⟨htenant, hclient, hmem⟩ := hi.subscribed ws' key h
    exact ⟨htenant, hclient, mem_addOpenDoc.mpr (.inr hmem)⟩
  slots ws' docId' h := by
    rcases mem_addOpenDoc.mp h with ⟨rfl, rfl⟩ | hold
    · exact .inr hpending
    · exact hi.slots ws' docId' hold
  wanted := hi.wanted
  found := hi.found
  closed ws' hclosed := by
    have hne : ws' ≠ ws := fun heq => hready (heq ▸ hclosed)
    simpa only [Sys.addOpenDoc, Function.update_of_ne hne] using hi.closed ws' hclosed
  framed := ⟨hi.framed.numbered, hi.framed.latest⟩

theorem Inv.handleOpen (hi : Inv tenant s) (hready : s.readyState ws ≠ .CLOSED) :
    Inv tenant (s.handleOpen ws docId) := by
  unfold Sys.handleOpen Sys.reserveOpenSlot
  split_ifs with hheld hfull
  · exact hi.note nofun fun _ _ => rfl
  · exact hi.note nofun fun _ hsubscribed => absurd (hi.subscribed ws _ hsubscribed).2.2 hheld
  · have hnoted : Inv tenant (s.note ws docId .pending) := hi.note nofun fun _ _ => rfl
    exact hnoted.addOpenDoc hready (.inr (Nat.not_le.mp hfull)) ⟨_, frames_note_self⟩

theorem Inv.mem_unsubscribe (hi : Inv tenant s) {ws' : ℕ} {key : String × String} :
    ws' ∈ (s.unsubscribe ws docId).subscribersByDoc key ↔
      ¬(ws' = ws ∧ key.2 = docId) ∧ ws' ∈ s.subscribersByDoc key := by
  unfold Sys.unsubscribe
  split
  · rename_i hnone
    refine ⟨fun h => ⟨fun heq => ?_, h⟩, fun h => h.2⟩
    exact nomatch (heq.1 ▸ hnone).symm.trans (hi.subscribed ws' key h).2.1
  · rename_i tenantId hsome
    simp only [Sys.deleteOpenDoc, Function.update_apply]
    split_ifs with hkey
    · simp [hkey]
    · refine ⟨fun h => ⟨fun heq => hkey ?_, h⟩, fun h => h.2⟩
      have hclient := (hi.subscribed ws' key h).2.1
      rw [heq.1, hsome] at hclient
      exact Prod.ext (Option.some.inj hclient).symm heq.2

theorem openDocs_unsubscribe : (s.unsubscribe ws docId).openDocsByClient =
    (s.deleteOpenDoc ws docId).openDocsByClient := by
  unfold Sys.unsubscribe
  split <;> rfl

theorem frames_unsubscribe : (s.unsubscribe ws docId).frames = s.frames ∧
    (s.unsubscribe ws docId).nextFrame = s.nextFrame ∧
    (s.unsubscribe ws docId).latest = s.latest := by
  unfold Sys.unsubscribe
  split <;> exact ⟨rfl, rfl, rfl⟩

theorem sockets_unsubscribe : (s.unsubscribe ws docId).readyState = s.readyState ∧
    (s.unsubscribe ws docId).tenantByClient = s.tenantByClient := by
  unfold Sys.unsubscribe
  split <;> exact ⟨rfl, rfl⟩

theorem Framed.unsubscribe (hi : Framed s) : Framed (s.unsubscribe ws docId) := by
  obtain ⟨hframes, hnext, hlatest⟩ := @frames_unsubscribe s ws docId
  exact ⟨by rw [hframes, hnext]; exact hi.numbered, by rw [hframes, hlatest]; exact hi.latest⟩

theorem Inv.handleClose (hi : Inv tenant s) : Inv tenant (s.handleClose ws docId) := by
  obtain ⟨hframes, hnext, hlatest⟩ := @frames_unsubscribe s ws docId
  obtain ⟨hready, hclient⟩ := @sockets_unsubscribe s ws docId
  have hframed : Framed (s.unsubscribe ws docId) := hi.framed.unsubscribe
  have hfate : ∀ {ws' docId'}, ¬(ws' = ws ∧ docId' = docId) →
      latestFate (s.handleClose ws docId) ws' docId' = latestFate s ws' docId' := fun hne =>
    (hframed.latestFate_note_of_ne hne).trans (by rw [latestFate, hlatest, hframes]; rfl)
  refine ⟨fun ws' => ?_, fun ws' key h => ?_, fun ws' docId' h => ?_, fun ws' docId' hopen h => ?_,
    fun ws' docId' hopen h => ?_, fun ws' hclosed => ?_, hframed.note⟩
  · simp only [Sys.handleClose, Sys.note, openDocs_unsubscribe]
    exact cap_deleteOpenDoc hi.cap ws'
  · obtain ⟨hne, hold⟩ := hi.mem_unsubscribe.mp h
    obtain ⟨htenant, htenant', hmem⟩ := hi.subscribed ws' key hold
    simp only [Sys.handleClose, Sys.note, openDocs_unsubscribe, hclient]
    exact ⟨htenant, htenant', mem_deleteOpenDoc.mpr ⟨hne, hmem⟩⟩
  · simp only [Sys.handleClose, Sys.note, openDocs_unsubscribe] at h
    obtain ⟨hne, hmem⟩ := mem_deleteOpenDoc.mp h
    refine (hi.slots ws' docId' hmem).imp (fun hold => hi.mem_unsubscribe.mpr ⟨hne, hold⟩) ?_
    rintro ⟨n, hframe⟩
    refine ⟨n, (frames_note_of_lt ?_).trans (hframes ▸ hframe)⟩
    exact hnext ▸ hi.framed.numbered n _ hframe
  · obtain ⟨hne, hold⟩ := hi.mem_unsubscribe.mp h
    rw [hfate hne]
    exact hi.wanted ws' docId' (hready ▸ hopen) hold
  · by_cases heq : ws' = ws ∧ docId' = docId
    · obtain ⟨rfl, rfl⟩ := heq
      exact nomatch latestFate_note.symm.trans h
    · rw [hfate heq] at h
      exact hi.mem_unsubscribe.mpr ⟨heq, hi.found ws' docId' (hready ▸ hopen) h⟩
  · simp only [Sys.handleClose, Sys.note, openDocs_unsubscribe]
    refine Finset.eq_empty_of_forall_notMem fun docId' h => ?_
    exact Finset.notMem_empty docId' (hi.closed ws' (hready ▸ hclosed) ▸ (mem_deleteOpenDoc.mp h).2)

theorem Inv.giveBack (hi : Inv tenant s) (hframe : s.frames n = some frame)
    (hnot : ¬Subscribed tenant s frame.ws frame.docId)
    (hfate : s.readyState frame.ws = .OPEN → fate ≠ .visible) :
    Inv tenant ((s.settle n frame fate).deleteOpenDoc frame.ws frame.docId) where
  cap := cap_deleteOpenDoc (s := s.settle n frame fate) hi.cap
  subscribed ws' key h := by
    obtain ⟨htenant, hclient, hmem⟩ := hi.subscribed ws' key h
    refine ⟨htenant, hclient, mem_deleteOpenDoc.mpr ⟨fun heq => hnot ?_, hmem⟩⟩
    obtain ⟨rfl, hdoc⟩ := heq
    have hkey : key = (tenant frame.ws, frame.docId) := Prod.ext htenant hdoc
    rwa [hkey] at h
  slots ws' docId' h := by
    obtain ⟨hne, hmem⟩ := mem_deleteOpenDoc.mp h
    refine (hi.slots ws' docId' hmem).imp_right fun ⟨m, hpending⟩ => ⟨m, ?_⟩
    refine (Function.update_of_ne (fun heq => hne ?_) _ _).trans hpending
    subst heq
    obtain rfl := Option.some.inj (hframe.symm.trans hpending)
    exact ⟨rfl, rfl⟩
  wanted ws' docId' hopen hsubscribed := by
    have hne : ¬(ws' = frame.ws ∧ docId' = frame.docId) := by
      rintro ⟨rfl, rfl⟩
      exact hnot hsubscribed
    have hold := hi.wanted ws' docId' hopen hsubscribed
    rwa [← hi.framed.latestFate_settle_of_ne hframe hne] at hold
  found ws' docId' hopen hvisible := by
    by_cases heq : ws' = frame.ws ∧ docId' = frame.docId
    · obtain ⟨rfl, rfl⟩ := heq
      rcases @latestFate_settle s frame.ws n frame.docId frame fate with hsettled | hsame
      · exact absurd (Option.some.inj (hsettled.symm.trans hvisible)) (hfate hopen)
      · exact hi.found frame.ws frame.docId hopen (hsame.symm.trans hvisible)
    · have hsame : latestFate (s.settle n frame fate) ws' docId' = _ :=
        hi.framed.latestFate_settle_of_ne hframe heq
      exact hi.found ws' docId' hopen (hsame.symm.trans hvisible)
  closed ws' hclosed := by
    have hempty := hi.closed ws' hclosed
    refine Finset.eq_empty_of_forall_notMem fun docId' h => ?_
    exact Finset.notMem_empty docId' (hempty ▸ (mem_deleteOpenDoc.mp h).2)
  framed := ⟨(hi.framed.settle hframe).numbered, (hi.framed.settle hframe).latest⟩

theorem mem_subscribe {ws' : ℕ} {tenantId : String} {key : String × String} :
    ws' ∈ (s.subscribe ws tenantId docId).subscribersByDoc key ↔
      (ws' = ws ∧ key = (tenantId, docId)) ∨ ws' ∈ s.subscribersByDoc key := by
  simp only [Sys.subscribe, Sys.addOpenDoc, Function.update_apply]
  split_ifs with hkey
  · simp [hkey]
  · simp [hkey]

theorem Inv.subscribe (hi : Inv tenant s) (hframe : s.frames n = some frame)
    (hopen : s.readyState frame.ws = .OPEN)
    (hlatest : latestFate s frame.ws frame.docId = some .pending ∨
      latestFate s frame.ws frame.docId = some .visible)
    (hfree : frame.docId ∈ s.openDocsByClient frame.ws ∨
      (s.openDocsByClient frame.ws).card < MAX_OPEN_DOCS_PER_CONNECTION) :
    Inv tenant ({ s.settle n frame .visible with
      tenantByClient := Function.update s.tenantByClient frame.ws (some (tenant frame.ws)) }.subscribe
        frame.ws (tenant frame.ws) frame.docId) := by
  have hsubscribed : ∀ {ws' docId'}, Subscribed tenant ({ s.settle n frame .visible with
        tenantByClient := Function.update s.tenantByClient frame.ws (some (tenant frame.ws)) }.subscribe
          frame.ws (tenant frame.ws) frame.docId) ws' docId' ↔
      (ws' = frame.ws ∧ docId' = frame.docId) ∨ Subscribed tenant s ws' docId' := by
    intro ws' docId'
    refine mem_subscribe.trans (or_congr_left ⟨fun h => ⟨h.1, congrArg Prod.snd h.2⟩, ?_⟩)
    rintro ⟨rfl, rfl⟩
    exact ⟨rfl, rfl⟩
  refine ⟨fun ws' => ?_, fun ws' key h => ?_, fun ws' docId' h => ?_, fun ws' docId' hopen' h => ?_,
    fun ws' docId' hopen' h => ?_, fun ws' hclosed => ?_,
    ⟨(hi.framed.settle hframe).numbered, (hi.framed.settle hframe).latest⟩⟩
  · exact cap_addOpenDoc (s := s) hi.cap hfree ws'
  · rcases mem_subscribe.mp h with ⟨rfl, rfl⟩ | hold
    · exact ⟨rfl, Function.update_self _ _ _, (mem_addOpenDoc (s := s)).mpr (.inl ⟨rfl, rfl⟩)⟩
    · obtain ⟨htenant, hclient, hmem⟩ := hi.subscribed ws' key hold
      refine ⟨htenant, ?_, (mem_addOpenDoc (s := s)).mpr (.inr hmem)⟩
      refine (Function.update_apply _ _ _ _).trans ?_
      split_ifs with heq
      · rw [htenant, heq]
      · exact hclient
  · rw [hsubscribed]
    rcases (mem_addOpenDoc (s := s)).mp h with heq | hold
    · exact .inl (.inl heq)
    · by_cases heq : ws' = frame.ws ∧ docId' = frame.docId
      · exact .inl (.inl heq)
      · refine (hi.slots ws' docId' hold).imp .inr fun ⟨m, hpending⟩ => ⟨m, ?_⟩
        refine (Function.update_of_ne (fun hm => heq ?_) _ _).trans hpending
        subst hm
        obtain rfl := Option.some.inj (hframe.symm.trans hpending)
        exact ⟨rfl, rfl⟩
  · by_cases heq : ws' = frame.ws ∧ docId' = frame.docId
    · obtain ⟨rfl, rfl⟩ := heq
      rcases @latestFate_settle s frame.ws n frame.docId frame .visible with hsettled | hsame
      · exact .inr hsettled
      · exact hlatest.imp hsame.trans hsame.trans
    · have hsame : latestFate (s.settle n frame .visible) ws' docId' = _ :=
        hi.framed.latestFate_settle_of_ne hframe heq
      have hold := hi.wanted ws' docId' hopen' ((hsubscribed.mp h).resolve_left heq)
      exact hold.imp hsame.trans hsame.trans
  · by_cases heq : ws' = frame.ws ∧ docId' = frame.docId
    · exact hsubscribed.mpr (.inl heq)
    · have hsame : latestFate (s.settle n frame .visible) ws' docId' = _ :=
        hi.framed.latestFate_settle_of_ne hframe heq
      exact hsubscribed.mpr (.inr (hi.found ws' docId' hopen' (hsame.symm.trans h)))
  · have hne : ws' ≠ frame.ws := by
      rintro rfl
      exact nomatch hopen.symm.trans hclosed
    exact (Function.update_of_ne hne _ _).trans (hi.closed ws' hclosed)

/-- A lookup that throws after the close of its socket. -/
theorem Inv.threw (hi : Inv tenant s) (hframe : s.frames n = some frame)
    (hclosed : s.readyState frame.ws = .CLOSED) : Inv tenant (s.settle n frame .threw) := by
  have hne : ∀ {ws' docId'}, ws' ≠ frame.ws → latestFate (s.settle n frame .threw) ws' docId' =
      latestFate s ws' docId' := fun hne =>
    hi.framed.latestFate_settle_of_ne hframe fun heq => hne heq.1
  have hopen : ∀ {ws'}, s.readyState ws' = .OPEN → ws' ≠ frame.ws := by
    rintro _ hopen rfl
    exact nomatch hopen.symm.trans hclosed
  refine ⟨hi.cap, hi.subscribed, fun ws' docId' h => ?_, fun ws' docId' hopen' h => ?_,
    fun ws' docId' hopen' h => ?_, hi.closed, hi.framed.settle hframe⟩
  · refine (hi.slots ws' docId' h).imp_right fun ⟨m, hpending⟩ => ⟨m, ?_⟩
    refine (Function.update_of_ne (fun hm => ?_) _ _).trans hpending
    subst hm
    obtain rfl := Option.some.inj (hframe.symm.trans hpending)
    exact Finset.notMem_empty docId' (hi.closed _ hclosed ▸ h)
  · rw [hne (hopen hopen')]
    exact hi.wanted ws' docId' hopen' h
  · rw [hne (hopen hopen')] at h
    exact hi.found ws' docId' hopen' h

/-- A socket that stays open, or an open socket that begins to close. -/
theorem Inv.closing (hi : Inv tenant s) : Inv tenant { s with
    readyState := Function.update s.readyState ws .CLOSING } := by
  have hstate : ∀ {ws' state}, Function.update s.readyState ws .CLOSING ws' = state →
      state ≠ .CLOSING → s.readyState ws' = state := by
    intro ws' state h hne
    rw [Function.update_apply] at h
    split_ifs at h
    · exact absurd h.symm hne
    · exact h
  exact ⟨hi.cap, hi.subscribed, hi.slots,
    fun ws' docId' hopen => hi.wanted ws' docId' (hstate hopen nofun),
    fun ws' docId' hopen => hi.found ws' docId' (hstate hopen nofun),
    fun ws' hclosed => hi.closed ws' (hstate hclosed nofun),
    ⟨hi.framed.numbered, hi.framed.latest⟩⟩

theorem Inv.mem_handleSocketClosed (hi : Inv tenant s) {ws' : ℕ} {key : String × String} :
    ws' ∈ (s.handleSocketClosed ws).subscribersByDoc key ↔ ws' ≠ ws ∧ ws' ∈ s.subscribersByDoc key := by
  simp only [Sys.handleSocketClosed]
  split_ifs with hheld
  · exact Finset.mem_erase
  · refine ⟨fun h => ⟨?_, h⟩, fun h => h.2⟩
    rintro rfl
    exact hheld (hi.subscribed ws' key h).2

theorem Inv.socketClosed (hi : Inv tenant s) : Inv tenant { s.handleSocketClosed ws with
    readyState := Function.update s.readyState ws .CLOSED } := by
  have hstate : ∀ {ws'}, Function.update s.readyState ws .CLOSED ws' = .OPEN →
      ws' ≠ ws ∧ s.readyState ws' = .OPEN := by
    intro ws' h
    rw [Function.update_apply] at h
    split_ifs at h with heq
    exact ⟨heq, h⟩
  refine ⟨fun ws' => ?_, fun ws' key h => ?_, fun ws' docId h => ?_, fun ws' docId hopen h => ?_,
    fun ws' docId hopen h => ?_, fun ws' hclosed => ?_, ⟨hi.framed.numbered, hi.framed.latest⟩⟩
  · simp only [Sys.handleSocketClosed, Function.update_apply]
    split_ifs
    · exact Nat.zero_le _
    · exact hi.cap ws'
  · obtain ⟨hne, hold⟩ := hi.mem_handleSocketClosed.mp h
    obtain ⟨htenant, hclient, hmem⟩ := hi.subscribed ws' key hold
    refine ⟨htenant, hclient, ?_⟩
    simpa only [Sys.handleSocketClosed, Function.update_of_ne hne] using hmem
  · simp only [Sys.handleSocketClosed, Function.update_apply] at h
    split_ifs at h with heq
    · exact absurd h (Finset.notMem_empty _)
    · exact (hi.slots ws' docId h).imp_left fun hold => hi.mem_handleSocketClosed.mpr ⟨heq, hold⟩
  · exact hi.wanted ws' docId (hstate hopen).2 (hi.mem_handleSocketClosed.mp h).2
  · obtain ⟨hne, hopen⟩ := hstate hopen
    exact hi.mem_handleSocketClosed.mpr ⟨hne, hi.found ws' docId hopen h⟩
  · simp only [Sys.handleSocketClosed, Function.update_apply] at hclosed ⊢
    split_ifs at hclosed ⊢
    · rfl
    · exact hi.closed ws' hclosed

theorem Inv.step {act : Act} (hi : Inv tenant s) (hok : InOrder tenant s act)
    (h : step tenant s act = some s') : Inv tenant s' := by
  rcases act with ⟨ws, docId⟩ | ⟨ws, docId⟩ | ⟨n, result⟩ | ws | ws <;>
    simp only [DocSubscriptions.step] at h
  case docOpen =>
    split_ifs at h with hready
    obtain rfl := Option.some.inj h
    exact hi.handleOpen hready
  case docClose =>
    split_ifs at h
    obtain rfl := Option.some.inj h
    exact hi.handleClose
  case lookup =>
    obtain ⟨frame, hframe, h⟩ := Option.bind_eq_some_iff.mp h
    have hcond := hok frame hframe
    split_ifs at h
    rcases result with _ | _ | _ <;> obtain rfl := Option.some.inj h
    · unfold Sys.resumeOpen
      by_cases hopen : s.readyState frame.ws = .OPEN
      · rw [if_neg nofun, if_pos ⟨rfl, hopen⟩] at hcond
        rw [if_neg nofun, if_neg (not_not.mpr hopen)]
        exact hi.subscribe hframe hopen hcond.1 hcond.2
      · rw [if_neg nofun, if_neg fun hand => hopen hand.2] at hcond
        rw [if_neg nofun, if_pos hopen]
        exact hi.giveBack hframe hcond fun h => absurd h hopen
    · rw [if_neg nofun, if_neg fun hand => nomatch hand.1] at hcond
      exact hi.giveBack hframe hcond fun _ => nofun
    · rw [if_pos rfl] at hcond
      exact hi.threw hframe hcond
  case closing =>
    split_ifs at h
    obtain rfl := Option.some.inj h
    exact hi.closing
  case socketClosed =>
    split_ifs at h
    obtain rfl := Option.some.inj h
    exact hi.socketClosed

theorem subscriptions_exact (tenant : ℕ → String) (s : Sys)
    (hs : Reach (step tenant) (InOrder tenant) Sys.init s) (hquiet : Quiet s) : Exact tenant s :=
  (hs.invariant inv_init fun _ _ _ hi hok h => hi.step hok h).exact hquiet

/-- The second socket's lookups end in the other order, and it closes its document before it goes. -/
def twoSockets : List Act :=
  [.docOpen 0 "a", .docOpen 1 "a", .docOpen 0 "b", .lookup 2 .notFound, .lookup 1 .found,
    .lookup 0 .found, .docClose 1 "a", .docOpen 1 "b", .socketClosed 1, .lookup 4 .threw]

theorem twoSockets_exact : ∃ s, runActs (step fun _ => "t") Sys.init twoSockets = some s ∧
    s.subscribersByDoc ("t", "a") = {0} ∧ Exact (fun _ => "t") s := by
  obtain ⟨s, hs⟩ := Option.isSome_iff_exists.mp (by decide +kernel :
    (runChecked (step fun _ => "t") (fun s act => decide (InOrder (fun _ => "t") s act)) Sys.init
      twoSockets).isSome = true)
  have hreach : Reach (step fun _ => "t") (InOrder fun _ => "t") Sys.init s :=
    .of_runChecked (fun _ _ => of_decide_eq_true) hs
  have hi : Inv (fun _ => "t") s := hreach.invariant inv_init fun _ _ _ hi hok h => hi.step hok h
  have hnext := eq_of_map_eq (f := fun s => s.nextFrame) hs (b := 5) (by decide +kernel)
  have hfates := eq_of_map_eq (f := fun s => (List.range 5).all fun n => (s.frames n).all fun frame =>
    frame.fate ≠ .pending) hs (b := true) (by decide +kernel)
  refine ⟨s, runActs_of_runChecked hs,
    eq_of_map_eq (f := fun s => s.subscribersByDoc ("t", "a")) hs (by decide +kernel),
    subscriptions_exact _ s hreach fun n frame hframe => ?_⟩
  have hlt : n < 5 := hnext ▸ hi.framed.numbered n frame hframe
  have hfate := List.all_eq_true.mp hfates n (List.mem_range.mpr hlt)
  rw [hframe] at hfate
  exact of_decide_eq_true hfate

def lookupThrows : List Act := [.docOpen 0 "a", .lookup 0 .threw]

theorem slot_leaks : ¬∀ s, Reach (step fun _ => "t") (fun _ _ => True) Sys.init s → Quiet s →
    Exact (fun _ => "t") s := by
  intro hclaim
  obtain ⟨s, hs⟩ := Option.isSome_iff_exists.mp
    (by decide +kernel : (runActs (step fun _ => "t") Sys.init lookupThrows).isSome = true)
  have hframes : s.frames = Function.update (Function.update (fun _ => none) 0
      (some ⟨0, "a", .pending⟩)) 0 (some ⟨0, "a", .threw⟩) :=
    eq_of_map_eq (f := fun s => s.frames) hs rfl
  have hquiet : Quiet s := by
    intro n frame hframe
    simp only [hframes, Function.update_apply] at hframe
    split_ifs at hframe
    · obtain rfl := Option.some.inj hframe
      exact nofun
    · exact nomatch hframe
  have hslot := eq_of_map_eq (f := fun s => decide ("a" ∈ s.openDocsByClient 0)) hs (b := true)
    (by decide +kernel)
  have hnone := eq_of_map_eq (f := fun s => decide (Subscribed (fun _ => "t") s 0 "a")) hs (b := false)
    (by decide +kernel)
  exact of_decide_eq_false hnone
    (((hclaim s (.of_runActs hs) hquiet).slots 0 "a").mp (of_decide_eq_true hslot))

end DocSubscriptions

end Semprec
