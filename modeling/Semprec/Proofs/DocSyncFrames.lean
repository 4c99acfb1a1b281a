import Semprec.DocSync
import Semprec.Proofs.DocsCompaction
import Semprec.SingleClient

/-!
# What becomes of accepted frames

A handler persists the update event of its own transaction, so what it cannot integrate when it
holds the lock is in neither the event nor the database.  A frame all of whose dependencies are
in the document its handler loads is kept (`handleUpdate_keeps_frame`); one that overtakes the
frame it depends on is lost (`handleUpdate_loses_frame`).
-/

namespace Semprec

namespace DocSync

open Docs

variable {Y : Yjs} {snapshot₀ : Y.Update} {s s' : SyncState Y}

def CausallySent (known : Set Y.Struct) : List Y.Update → Prop
  | [] => True
  | u :: us => Y.content u ⊆ Y.visible (known ∪ Y.content u) ∧ CausallySent (known ∪ Y.content u) us

def Finished (s : SyncState Y) (p : ℕ) : Prop :=
  ∃ ses, s.docs.sessions p = some ses ∧ ses.phase = .committed

/-- The steps under which no frame is lost: a handler about to persist its frame has loaded a
document in which all of the frame can be integrated. -/
def DependenciesLoaded (s : SyncState Y) : Act Y → Prop
  | .docs (.exec p) => ∀ u ses doc, (p, u) ∈ s.accepted → s.docs.sessions p = some ses →
      ses.phase = .ready doc → Y.content u ⊆ Y.visible (Y.structs doc ∪ Y.content u)
  | _ => True

/-- What a transaction sees or would commit: the first snapshot, the committed updates and its
own. -/
def knownTo (snapshot₀ : Y.Update) (s : Sys Y) (ses : Session Y) : Set Y.Struct :=
  Y.content snapshot₀ ∪ Y.contents ((s.committed ++ insertedRows ses.writes).map (·.update))

structure HandlerInv (snapshot₀ : Y.Update) (s : Sys Y) (u : Y.Update) (ses : Session Y) :
    Prop where
  job : ∃ days, ses.job = applyFrame days u
  finished : ses.phase.finished → ses.phase = .done
  done : ses.phase = .done → Y.content u ⊆ Y.visible (knownTo snapshot₀ s ses)
  committed : ses.phase = .committed →
    Y.content u ⊆ Y.visible (Y.content snapshot₀ ∪ Y.contents (s.committed.map (·.update)))

structure FrameInv (snapshot₀ : Y.Update) (s : SyncState Y) : Prop where
  docs : Inv snapshot₀ s.docs
  handlers : ∀ p u, (p, u) ∈ s.accepted →
    ∃ ses, s.docs.sessions p = some ses ∧ HandlerInv snapshot₀ s.docs u ses

theorem visible_mono {S T : Set Y.Struct} (h : S ⊆ T) : Y.visible S ⊆ Y.visible T :=
  integrated_mono h

theorem content_mono {L L' : List (UpdateRow Y)} (h : ∀ r ∈ L, r ∈ L') :
    Y.content snapshot₀ ∪ Y.contents (L.map (·.update)) ⊆
      Y.content snapshot₀ ∪ Y.contents (L'.map (·.update)) := by
  refine Set.union_subset_union_right _ ?_
  rintro x ⟨u, hu, hx⟩
  obtain ⟨r, hr, rfl⟩ := List.mem_map.mp hu
  exact ⟨_, List.mem_map_of_mem (h r hr), hx⟩

theorem HandlerInv.mono {d d' : Sys Y} {u : Y.Update} {ses : Session Y}
    (h : HandlerInv snapshot₀ d u ses) (hsub : ∀ r ∈ d.committed, r ∈ d'.committed) :
    HandlerInv snapshot₀ d' u ses where
  job := h.job
  finished := h.finished
  done := fun hd => (h.done hd).trans (visible_mono (content_mono fun r hr =>
    (List.mem_append.mp hr).elim (fun hr => List.mem_append_left _ (hsub r hr))
      fun hr => List.mem_append_right _ hr))
  committed := fun hc => (h.committed hc).trans (visible_mono (content_mono hsub))

theorem HandlerInv.working {d : Sys Y} {u : Y.Update} {ses : Session Y}
    (hjob : ∃ days, ses.job = applyFrame days u) (hfin : ses.phase.finished = false)
    (hc : ses.phase ≠ .committed) : HandlerInv snapshot₀ d u ses where
  job := hjob
  finished := by simp [hfin]
  done := fun hd => by simp [hd, Phase.finished] at hfin
  committed := fun h => absurd h hc

theorem HandlerInv.exec (hY : Y.Lawful) {d d' : Sys Y} {p : ℕ} {u : Y.Update}
    {ses ses' : Session Y} (h : HandlerInv snapshot₀ d u ses)
    (hbase : SessionInv snapshot₀ d ses) (hst : Stmt d p ses ses')
    (hf : ExecFrame d d' p ses ses')
    (hok : ∀ doc, ses.phase = .ready doc →
      Y.content u ⊆ Y.visible (Y.structs doc ∪ Y.content u)) :
    HandlerInv snapshot₀ d' u ses' := by
  obtain ⟨days, hjob⟩ := h.job
  have hknown : ∀ doc, ses.phase = .ready doc → Y.structs doc = knownTo snapshot₀ d ses := by
    intro doc hp
    have hdoc := hbase.phase
    rw [hp] at hdoc
    exact hdoc.trans hbase.total
  cases hst with
  | lockDoc => exact .working h.job rfl (by simp)
  | readPending => exact .working h.job rfl (by simp)
  | compact => exact .working h.job rfl (by simp)
  | skipCompaction => exact .working h.job rfl (by simp)
  | noUpdate hj hp he =>
    rename_i call rest doc
    rw [hjob, applyFrame] at hj
    cases hj
    refine ⟨⟨days, hjob⟩, fun _ => rfl, fun _ => ?_, fun hc => by simp [Session.nextCall] at hc⟩
    refine hY.subset_visible_of_event (hok doc hp) ?_ fun e hev => ?_
    · rw [hknown doc hp, knownTo, knownTo, hf.committed]
      exact content_mono fun _ hr => hr
    · simp only [Option.bind_some] at he
      rw [he] at hev
      cases hev
  | append hj hp he =>
    rename_i call rest doc e
    rw [hjob, applyFrame] at hj
    cases hj
    refine ⟨⟨days, hjob⟩, fun _ => rfl, fun _ => ?_, fun hc => by simp [Session.nextCall] at hc⟩
    refine hY.subset_visible_of_event (hok doc hp) ?_ fun e' hev => ?_
    · rw [hknown doc hp, knownTo, knownTo, hf.committed]
      refine content_mono fun r hr => ?_
      simp only [insertedRows_append, List.mem_append] at hr ⊢
      exact hr.imp_right .inl
    · simp only [Option.bind_some] at he
      rw [he, Option.some.injEq] at hev
      subst hev
      refine (Yjs.content_subset_contents ?_).trans Set.subset_union_right
      rw [hf.committed]
      simp [insertedRows_append, appendDocUpdate, insertedRows]
  | chooseCheckpoint hj => simp [hjob, applyFrame] at hj
  | rebaseline hj => simp [hjob, applyFrame] at hj
  | checkAvailable hj => simp [hjob, applyFrame] at hj
  | noCheckpoint hj => simp [hjob, applyFrame] at hj
  | readCheckpoint hj => simp [hjob, applyFrame] at hj
  | readHistory hj => simp [hjob, applyFrame] at hj

/-- A step of the document layer keeps what the handlers rely on. -/
theorem FrameInv.docs_step (hY : Y.Lawful) (h : FrameInv snapshot₀ s) {a : Docs.Act Y}
    {d : Sys Y} (hs : Docs.step s.docs a = some d) (hok : DependenciesLoaded s (.docs a)) :
    FrameInv snapshot₀ { s with docs := d } := by
  refine ⟨h.docs.step hY hs, fun p u hacc => ?_⟩
  obtain ⟨ses, hp, hses⟩ := h.handlers p u hacc
  cases step_cases hs with
  | exec hq hst hf =>
    rename_i q sq sq'
    by_cases hqp : p = q
    · subst hqp
      rw [hp, Option.some.injEq] at hq
      subst hq
      exact ⟨sq', by simp [hf.sessions], hses.exec hY (h.docs.sessions p ses hp) hst hf
        fun doc hdoc => hok u ses doc hacc hp hdoc⟩
    · exact ⟨ses, by simp [hf.sessions, hqp, hp], hses.mono (hf.committed ▸ fun _ h => h)⟩
  | commit hq hfin =>
    rename_i q sq
    by_cases hqp : p = q
    · subst hqp
      rw [hp, Option.some.injEq] at hq
      subst hq
      exact ⟨{ ses with phase := .committed, writes := [] }, by rw [commit_sessions, if_pos rfl],
        hses.job, by simp [Phase.finished], by simp, fun _ => hses.done (hses.finished hfin)⟩
    · exact ⟨ses, by rw [commit_sessions, if_neg hqp, hp],
        hses.mono fun r hr => List.mem_append_left _ hr⟩
  | abort hq hend =>
    rename_i q sq
    by_cases hqp : p = q
    · subst hqp
      rw [hp, Option.some.injEq] at hq
      subst hq
      exact ⟨{ ses with phase := .aborted, writes := [] }, by rw [abort_sessions, if_pos rfl],
        .working hses.job rfl (by simp)⟩
    · exact ⟨ses, by rw [abort_sessions, if_neg hqp, hp], hses.mono fun _ h => h⟩
  | start hq hjob =>
    rename_i q job now
    have hqp : p ≠ q := by
      rintro rfl
      rw [hp] at hq
      cases hq
    exact ⟨ses, by rw [set_sessions, if_neg hqp, hp], hses.mono fun _ h => h⟩
  | idle => exact ⟨ses, hp, hses⟩
  | cleanup => exact ⟨ses, hp, hses.mono fun _ h => h⟩
  | nextval => exact ⟨ses, hp, hses.mono fun _ h => h⟩

theorem FrameInv.congr (h : FrameInv snapshot₀ s) (hd : s'.docs = s.docs)
    (ha : s'.accepted = s.accepted) : FrameInv snapshot₀ s' := by
  refine ⟨hd ▸ h.docs, ?_⟩
  rw [hd, ha]
  exact h.handlers

theorem FrameInv.begin (hY : Y.Lawful) (h : FrameInv snapshot₀ s) {p : ℕ} {job : Docs.Job Y}
    {startedAt : ℤ} (hs : s.begin p job startedAt = some s') :
    FrameInv snapshot₀ s' ∧ s'.accepted = s.accepted ∧
      s'.docs.sessions p = some { startedAt := startedAt, job := job } := by
  obtain ⟨d, hd, rfl⟩ := Option.map_eq_some_iff.mp hs
  refine ⟨h.docs_step hY hd trivial, rfl, ?_⟩
  simp only [Docs.step] at hd
  split at hd
  · cases hd
    rw [set_sessions, if_pos rfl]
  · cases hd

theorem FrameInv.handleUpdate (hY : Y.Lawful) (h : FrameInv snapshot₀ s) {ws p : ℕ}
    {now startedAt : ℤ} {update : Option Y.Update}
    (hs : s.handleUpdate ws p now startedAt update = some s') : FrameInv snapshot₀ s' := by
  simp only [SyncState.handleUpdate] at hs
  split_ifs at hs
  · cases hs
    exact h.congr rfl rfl
  · split at hs
    · cases hs
      exact h.congr rfl rfl
    · rename_i u
      obtain ⟨s₁, hs₁, rfl⟩ := Option.map_eq_some_iff.mp hs
      have h' : FrameInv snapshot₀ (s.setRate ws
          (isRateLimited (s.updateRateByClient ws) now).1) := h.congr rfl rfl
      obtain ⟨h₁, hacc, hses⟩ := h'.begin hY hs₁
      refine ⟨h₁.docs, fun q v hq => ?_⟩
      rcases List.mem_append.mp hq with hq | hq
      · obtain ⟨ses, hq, hses⟩ := h₁.handlers q v hq
        exact ⟨ses, hq, hses⟩
      · rw [List.mem_singleton] at hq
        cases hq
        exact ⟨_, hses, .working ⟨_, rfl⟩ rfl (by simp)⟩

theorem FrameInv.step (hY : Y.Lawful) (h : FrameInv snapshot₀ s) {a : Act Y}
    (hok : DependenciesLoaded s a) (hs : step s a = some s') : FrameInv snapshot₀ s' := by
  cases a with
  | doOpen ws p startedAt =>
    have h' : FrameInv snapshot₀ { s with subscribers := ws :: s.subscribers } := h.congr rfl rfl
    exact (h'.begin hY hs).1
  | doClose ws =>
    cases hs
    exact h.congr rfl rfl
  | binaryFrame ws p now startedAt payload =>
    simp only [DocSync.step] at hs
    split_ifs at hs
    · split at hs
      · cases hs
        exact h
      · cases hs
        exact h
      · cases hs
        exact h
      · exact (h.begin hY hs).1
      · exact h.handleUpdate hY hs
      · exact h.handleUpdate hY hs
    · cases hs
      exact h
  | docs a =>
    obtain ⟨d, hd, rfl⟩ := Option.map_eq_some_iff.mp hs
    exact h.docs_step hY hd hok

theorem FrameInv.init (snapshot₀ : Y.Update) (now : ℤ) (days : ℕ) :
    FrameInv snapshot₀ (start snapshot₀ now days) :=
  ⟨.init snapshot₀ now, by simp [start]⟩

/-- In a run where every handler has its frame's dependencies loaded when it persists it, the
persisted document contains every accepted frame whose handler has committed. -/
theorem handleUpdate_keeps_frame (hY : Y.Lawful) {now : ℤ} {days : ℕ}
    (h : Reach step DependenciesLoaded (start snapshot₀ now days) s) {p : ℕ} {u : Y.Update}
    (hacc : (p, u) ∈ s.accepted) (hfin : Finished s p) :
    Y.content u ⊆ Y.visible (Y.structs (loadDoc s.docs.db)) := by
  have hinv : FrameInv snapshot₀ s :=
    h.invariant (.init snapshot₀ now days) fun _ _ _ hi hok hs => hi.step hY hok hs
  obtain ⟨ses, hp, hses⟩ := hinv.handlers p u hacc
  obtain ⟨ses', hp', hphase⟩ := hfin
  rw [hp, Option.some.injEq] at hp'
  subst hp'
  rw [structs_loadDoc hY, hinv.docs.total]
  exact hses.committed hphase

section runs

open Yjs (singleClient gapless)

/-- A socket opens the document and sends two frames, the second of which needs the first. -/
def twoFrames : List (Act singleClient) :=
  [.doOpen 7 0 0, .docs (.exec 0), .docs (.exec 0), .docs (.exec 0), .docs (.exec 0),
    .docs (.commit 0), .binaryFrame 7 1 10 10 (.update (some [0])),
    .binaryFrame 7 2 11 11 (.update (some [1]))]

theorem causallySent_two : CausallySent (singleClient.content []) [[0], [1]] := by
  refine ⟨Yjs.subset_visible_singleClient (by decide), ?_, trivial⟩
  rw [← Yjs.singleClient_content_append]
  exact Yjs.subset_visible_singleClient (by decide)

/-- The second frame's handler takes the lock first: its struct stays pending there, no event is
persisted, and once both handlers are done the document lacks it. -/
theorem handleUpdate_loses_frame :
    ¬ ∀ s : SyncState singleClient, Reach step (fun _ _ => True) (start [] 0 30) s →
      CausallySent (singleClient.content []) (s.accepted.map (·.2)) →
      (∀ f ∈ s.accepted, Finished s f.1) → ∀ f ∈ s.accepted, singleClient.content f.2 ⊆
        singleClient.visible (singleClient.structs (loadDoc s.docs.db)) := by
  intro h
  obtain ⟨s, hs⟩ := Option.isSome_iff_exists.mp (rfl : (runActs step
    (start (Y := singleClient) [] 0 30) (twoFrames ++ handler 2 ++ handler 1)).isSome = true)
  have hacc : s.accepted = [(1, [0]), (2, [1])] :=
    eq_of_map_eq (f := fun s => s.accepted) hs rfl
  have hload : loadDoc s.docs.db = [0] := eq_of_map_eq (f := fun s => loadDoc s.docs.db) hs rfl
  have hfin : ∀ f ∈ s.accepted, Finished s f.1 := by
    have h1 : (s.docs.sessions 1).map (·.phase) = some .committed :=
      eq_of_map_eq (f := fun s => (s.docs.sessions 1).map (·.phase)) hs rfl
    have h2 : (s.docs.sessions 2).map (·.phase) = some .committed :=
      eq_of_map_eq (f := fun s => (s.docs.sessions 2).map (·.phase)) hs rfl
    rw [hacc]
    rintro f (_ | ⟨_, _ | ⟨_, hf⟩⟩)
    · exact Option.map_eq_some_iff.mp h1
    · exact Option.map_eq_some_iff.mp h2
    · cases hf
  have hsecond : (2, [1]) ∈ s.accepted := hacc ▸ .tail _ (.head _)
  have hlost := h s (.of_runActs hs) (by rw [hacc]; exact causallySent_two) hfin _ hsecond
  rw [hload] at hlost
  have hmem : (1 : ℕ) ∈ gapless [0] :=
    Yjs.mem_visible_singleClient.mp (hlost (List.mem_singleton_self 1))
  exact absurd hmem (by decide)

/-- A test for `DependenciesLoaded` that can be run. -/
def dependenciesLoadedCheck (s : SyncState singleClient) : Act singleClient → Bool
  | .docs (.exec p) => (s.docs.sessions p).all fun ses => match ses.phase with
    | .ready (doc : List ℕ) => s.accepted.all fun (q, (u : List ℕ)) =>
        q ≠ p || u.all (· ∈ gapless (doc ++ u))
    | _ => true
  | _ => true

theorem dependenciesLoaded_of_check (s : SyncState singleClient) (a : Act singleClient)
    (h : dependenciesLoadedCheck s a = true) : DependenciesLoaded s a := by
  unfold dependenciesLoadedCheck at h
  split at h
  · rename_i p
    intro u ses doc hacc hp hphase
    simp only [hp, hphase, Option.all_some, List.all_eq_true, Bool.or_eq_true,
      decide_eq_true_eq] at h
    rcases h (p, u) hacc with hne | hall
    · exact absurd rfl hne
    · exact Yjs.subset_visible_singleClient fun n hn =>
        of_decide_eq_true (List.all_eq_true.mp hall n hn)
  · rename_i hne
    cases a with
    | docs a => cases a <;> first | exact trivial | exact absurd rfl (hne _)
    | _ => exact trivial

/-- The same frames, each handled before the next takes the lock. -/
theorem handleUpdate_keeps_frame_in_order : ∃ s : SyncState singleClient,
    runActs step (start [] 0 30) (twoFrames ++ handler 1 ++ handler 2) = some s ∧
      singleClient.content [1] ⊆
        singleClient.visible (singleClient.structs (loadDoc s.docs.db)) := by
  obtain ⟨s, hs⟩ := Option.isSome_iff_exists.mp (rfl : (runChecked step dependenciesLoadedCheck
    (start (Y := singleClient) [] 0 30) (twoFrames ++ handler 1 ++ handler 2)).isSome = true)
  have hacc : s.accepted = [(1, [0]), (2, [1])] :=
    eq_of_map_eq (f := fun s => s.accepted) hs rfl
  have hfin : (s.docs.sessions 2).map (·.phase) = some .committed :=
    eq_of_map_eq (f := fun s => (s.docs.sessions 2).map (·.phase)) hs rfl
  have hsecond : (2, [1]) ∈ s.accepted := hacc ▸ .tail _ (.head _)
  exact ⟨s, runActs_of_runChecked hs, handleUpdate_keeps_frame Yjs.singleClient_lawful
    (.of_runChecked dependenciesLoaded_of_check hs) hsecond (Option.map_eq_some_iff.mp hfin)⟩

end runs

end DocSync

end Semprec
