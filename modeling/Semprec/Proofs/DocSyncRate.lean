import Semprec.Proofs.DocSyncFrames

/-!
# The rate limit and convergence

The client sends each change once, so what a dropped frame carried is in no later frame, and no
document persisted after it has it (`serve_lost`).  Dropped edits are recovered within a session
exactly when there is nothing to recover them from: no window but the last overflows
(`rateLimit_converges_iff`).
-/

namespace Semprec

namespace DocSync

open Docs

variable {Y : Yjs} {snapshot₀ : Y.Update}

section windows

/-- Which of the frames arriving at these times the limiter drops. -/
def limited : Option RateState → List ℤ → List Bool
  | _, [] => []
  | st, t :: ts => (isRateLimited st t).2 :: limited (some (isRateLimited st t).1) ts

/-- The number of frames in each window, the first of which opened at `start` and has `n` so far.
A window ends with the first frame that arrives its length after it opened, which opens the
next. -/
def windowSizesFrom (start : ℤ) : ℕ → List ℤ → List ℕ
  | n, [] => [n]
  | n, t :: ts =>
    if RATE_LIMIT_WINDOW_MS ≤ t - start then n :: windowSizesFrom t 1 ts
    else windowSizesFrom start (n + 1) ts

def windowSizes : List ℤ → List ℕ
  | [] => []
  | t :: ts => windowSizesFrom t 1 ts

theorem windowSizesFrom_ne_nil : ∀ (start : ℤ) (n : ℕ) (ts : List ℤ),
    windowSizesFrom start n ts ≠ []
  | _, _, [] => by simp [windowSizesFrom]
  | start, n, t :: ts => by
    simp only [windowSizesFrom]
    split_ifs
    · simp
    · exact windowSizesFrom_ne_nil start (n + 1) ts

/-- A dropped frame precedes an accepted one, counting the drops of the window so far, exactly
when a window that is followed by another overflows. -/
theorem limited_from_iff : ∀ (start : ℤ) (n : ℕ) (ts : List ℤ),
    (List.Sublist [true, false] (limited (some ⟨n, start⟩) ts) ∨
        (MAX_UPDATES_PER_WINDOW < n ∧ false ∈ limited (some ⟨n, start⟩) ts)) ↔
      ∃ m ∈ (windowSizesFrom start n ts).dropLast, MAX_UPDATES_PER_WINDOW < m
  | start, n, [] => by simp [limited, windowSizesFrom]
  | start, n, t :: ts => by
    by_cases hw : RATE_LIMIT_WINDOW_MS ≤ t - start
    · have ih := limited_from_iff t 1 ts
      have hone : ¬ MAX_UPDATES_PER_WINDOW < 1 := by decide
      simp only [hone, false_and, or_false] at ih
      simp only [limited, windowSizesFrom, isRateLimited, if_pos hw,
        List.dropLast_cons_of_ne_nil (windowSizesFrom_ne_nil t 1 ts), List.mem_cons,
        exists_eq_or_imp, ← ih, true_or, and_true, List.sublist_cons_iff, List.cons.injEq,
        Bool.true_eq_false, false_and, exists_const, or_false]
      exact or_comm
    · have ih := limited_from_iff start (n + 1) ts
      simp only [limited, windowSizesFrom, isRateLimited, if_neg hw, ← ih]
      by_cases hn : MAX_UPDATES_PER_WINDOW < n + 1
      · simp only [hn, decide_true, List.cons_sublist_cons, List.singleton_sublist, true_and,
          List.mem_cons, Bool.false_eq_true, false_or]
        refine ⟨fun h => h.elim .inr fun h => .inr h.2, fun h => .inl ?_⟩
        exact h.elim (fun h => h.subset (by simp)) id
      · have hn' : ¬ MAX_UPDATES_PER_WINDOW < n := fun h => hn (h.trans (Nat.lt_succ_self n))
        simp only [hn, hn', decide_false, false_and, or_false, List.sublist_cons_iff,
          List.cons.injEq, Bool.true_eq_false, exists_const]

theorem limited_iff : ∀ ts : List ℤ, List.Sublist [true, false] (limited none ts) ↔
    ∃ m ∈ (windowSizes ts).dropLast, MAX_UPDATES_PER_WINDOW < m
  | [] => by simp [limited, windowSizes]
  | t :: ts => by
    have h := limited_from_iff t 1 ts
    have hone : ¬ MAX_UPDATES_PER_WINDOW < 1 := by decide
    simp only [hone, false_and, or_false] at h
    simp only [limited, windowSizes, isRateLimited, ← h, List.sublist_cons_iff, List.cons.injEq,
      Bool.true_eq_false, false_and, exists_const, or_false]

end windows

section sent

def Fresh : Set Y.Struct → List (Frame Y) → Prop
  | _, [] => True
  | known, f :: fs =>
    (∃ x ∈ Y.content f.update, x ∉ known ∧ ∀ g ∈ fs, x ∉ Y.content g.update) ∧
      Fresh (known ∪ Y.content f.update) fs

theorem Fresh.mono : ∀ {fs : List (Frame Y)} {known known' : Set Y.Struct}, Fresh known fs →
    known' ⊆ known → Fresh known' fs
  | [], _, _, _, _ => trivial
  | _ :: _, _, _, ⟨⟨x, hx, hn, hfs⟩, h⟩, hle =>
    ⟨⟨x, hx, fun hk => hn (hle hk), hfs⟩, h.mono (Set.union_subset_union_left _ hle)⟩

theorem Fresh.split : ∀ {l : List (Frame Y)} {known : Set Y.Struct} {f : Frame Y}
    {r : List (Frame Y)}, Fresh known (l ++ f :: r) →
    ∃ x ∈ Y.content f.update, x ∉ known ∧ ∀ g ∈ l ++ r, x ∉ Y.content g.update
  | [], _, _, _, h => h.1
  | g :: l, _, f, r, h => by
    obtain ⟨x, hx, hn, hfs⟩ := Fresh.split h.2
    refine ⟨x, hx, fun hk => hn (.inl hk), fun g' hg' => ?_⟩
    rcases List.mem_cons.mp hg' with rfl | hg'
    · exact fun hc => hn (.inr hc)
    · exact hfs g' hg'

/-- An update that integrates something integrates something new to the document. -/
theorem exists_new_of_delta {σ : Type*} {dep : σ → σ → Prop} {S T : Set σ}
    (h : delta dep S T ≠ ∅) : ∃ x ∈ delta dep S T, x ∉ S := by
  by_contra hn
  have hsub : integrated dep (S ∪ T) ⊆ S := by
    intro x hx
    by_cases hi : x ∈ integrated dep S
    · exact integrated_subset hi
    · by_contra hxS
      exact hn ⟨x, ⟨hx, hi⟩, hxS⟩
  have hle : integrated dep (S ∪ T) ⊆ integrated dep S :=
    closed_integrated.subset_integrated hsub
  exact h (Set.sdiff_eq_empty.mpr hle)

theorem sentFrames_disjoint (hY : Y.Lawful) {x : Y.Struct} :
    ∀ (events : List (ClientEvent Y)) (ydoc : Y.Doc), x ∈ Y.visible (Y.structs ydoc) →
      ∀ g ∈ sentFrames ydoc events, x ∉ Y.content g.update
  | [], _, _ => by simp [sentFrames]
  | .remote u :: events, ydoc, hx => by
    refine sentFrames_disjoint hY events (Y.applyUpdate ydoc u) (integrated_mono ?_ hx)
    rw [hY.structs_applyUpdate]
    exact Set.subset_union_left
  | .edit u arrival :: events, ydoc, hx => by
    intro g hg
    rcases List.mem_append.mp hg with hg | hg
    · obtain ⟨e, he, rfl⟩ := Option.map_eq_some_iff.mp (Option.mem_toList.mp hg)
      rw [hY.updateEvent_some ydoc u e he]
      exact fun hd => hd.2 hx
    · refine sentFrames_disjoint hY events (Y.applyUpdate ydoc u) (integrated_mono ?_ hx) g hg
      rw [hY.structs_applyUpdate]
      exact Set.subset_union_left

theorem fresh_sentFrames (hY : Y.Lawful) : ∀ (events : List (ClientEvent Y)) (ydoc : Y.Doc),
    Fresh (Y.structs ydoc) (sentFrames ydoc events)
  | [], _ => trivial
  | .remote u :: events, ydoc => by
    refine (fresh_sentFrames hY events (Y.applyUpdate ydoc u)).mono ?_
    rw [hY.structs_applyUpdate]
    exact Set.subset_union_left
  | .edit u arrival :: events, ydoc => by
    have ih := fresh_sentFrames hY events (Y.applyUpdate ydoc u)
    rw [hY.structs_applyUpdate] at ih
    simp only [sentFrames]
    rcases he : Y.updateEvent ydoc u with _ | e
    · exact ih.mono Set.subset_union_left
    · have hcontent := hY.updateEvent_some ydoc u e he
      have hne : delta Y.dependsOn (Y.structs ydoc) (Y.content u) ≠ ∅ := by
        intro hempty
        rw [(hY.updateEvent_none ydoc u).mpr hempty] at he
        cases he
      obtain ⟨x, hx, hnew⟩ := exists_new_of_delta hne
      refine ⟨⟨x, by rwa [hcontent], hnew, fun g hg => ?_⟩, ih.mono ?_⟩
      · refine sentFrames_disjoint hY events (Y.applyUpdate ydoc u) ?_ g hg
        rw [hY.structs_applyUpdate]
        exact hx.1
      · rw [hcontent]
        exact Set.union_subset Set.subset_union_left fun y hy => integrated_subset hy.1

end sent

section lost

structure Unreceived (x : Y.Struct) (s : Sys Y) : Prop where
  committed : ∀ r ∈ s.committed, x ∉ Y.content r.update
  inserted : ∀ p ses, s.sessions p = some ses → ∀ r ∈ insertedRows ses.writes,
    x ∉ Y.content r.update
  jobs : ∀ p ses, s.sessions p = some ses → JobAvoids {x} ses.job

theorem nextCall_jobAvoids {x : Y.Struct} {ses : Session Y} {call : DocCall Y}
    {rest : List (DocCall Y)} (hj : ses.job = .calls call rest) (h : JobAvoids {x} ses.job) :
    JobAvoids {x} (ses.nextCall rest).job := by
  cases rest with
  | nil => exact h
  | cons c rest =>
    rw [hj] at h
    exact fun c' hc' => h c' (.tail _ hc')

/-- A statement inserts no row with a struct that is in neither the loaded document nor the job. -/
theorem Stmt.unreceived (hY : Y.Lawful) {x : Y.Struct} {s : Sys Y} {p : ℕ}
    {ses ses' : Session Y} (hst : Stmt s p ses ses') (hx : x ∉ Y.content snapshot₀)
    (hbase : SessionInv snapshot₀ s ses) (hc : ∀ r ∈ s.committed, x ∉ Y.content r.update)
    (hi : ∀ r ∈ insertedRows ses.writes, x ∉ Y.content r.update) (hj : JobAvoids {x} ses.job) :
    (∀ r ∈ insertedRows ses'.writes, x ∉ Y.content r.update) ∧ JobAvoids {x} ses'.job := by
  cases hst with
  | compact => exact ⟨by simpa [insertedRows_append, insertedRows_compact] using hi, hj⟩
  | rebaseline =>
    exact ⟨by simpa [insertedRows_append, Docs.rebaseline, insertedRows] using hi, hj⟩
  | noUpdate hjob => exact ⟨by simpa using hi, nextCall_jobAvoids hjob hj⟩
  | append hjob hp he =>
    rename_i call rest doc e
    refine ⟨fun r hr => ?_, nextCall_jobAvoids hjob hj⟩
    simp only [insertedRows_append, List.mem_append] at hr
    rcases hr with hr | hr
    · exact hi r hr
    · obtain ⟨fn, hfn, hev⟩ := Option.bind_eq_some_iff.mp he
      have hr : r.update = e := by
        simp only [appendDocUpdate, insertedRows, List.mem_singleton] at hr
        rw [hr]
      have hdoc := hbase.phase
      rw [hp] at hdoc
      rw [hr, hY.updateEvent_some doc (fn doc) e hev]
      intro hd
      rcases integrated_subset hd.1 with hxd | hxu
      · rw [show Y.structs doc = _ from hdoc.trans hbase.total] at hxd
        rcases hxd with hxd | ⟨u, hu, hxu⟩
        · exact hx hxd
        · obtain ⟨r', hr', rfl⟩ := List.mem_map.mp hu
          exact (List.mem_append.mp hr').elim (fun h => hc r' h hxu) fun h => hi r' h hxu
      · rw [hjob] at hj
        exact Set.disjoint_singleton_right.mp (hj call (.head _) fn hfn doc) hxu
  | _ => exact ⟨hi, hj⟩

theorem Unreceived.docs_step (hY : Y.Lawful) {x : Y.Struct} {s s' : Sys Y} {a : Docs.Act Y}
    (h : Unreceived x s) (hx : x ∉ Y.content snapshot₀) (hbase : Inv snapshot₀ s)
    (ha : ∀ p job now, a = .begin p job now → JobAvoids {x} job)
    (hs : Docs.step s a = some s') : Unreceived x s' := by
  cases step_cases hs with
  | exec hp hst hf =>
    rename_i p ses ses'
    have hnew := Stmt.unreceived hY hst hx (hbase.sessions p ses hp) h.committed
      (h.inserted p ses hp) (h.jobs p ses hp)
    refine ⟨hf.committed ▸ h.committed, fun q sq hq => ?_, fun q sq hq => ?_⟩ <;>
      rw [hf.sessions, Function.update_apply] at hq <;> split_ifs at hq
    · exact Option.some.inj hq ▸ hnew.1
    · exact h.inserted q sq hq
    · exact Option.some.inj hq ▸ hnew.2
    · exact h.jobs q sq hq
  | commit hp _ =>
    rename_i p ses _
    refine ⟨fun r hr => ?_, fun q sq hq => ?_, fun q sq hq => ?_⟩
    · exact (List.mem_append.mp hr).elim (h.committed r) (h.inserted p ses hp r)
    all_goals rw [commit_sessions] at hq; split_ifs at hq
    · exact Option.some.inj hq ▸ by simp [insertedRows]
    · exact h.inserted q sq hq
    · exact Option.some.inj hq ▸ h.jobs p ses hp
    · exact h.jobs q sq hq
  | abort hp _ =>
    rename_i p ses _
    refine ⟨h.committed, fun q sq hq => ?_, fun q sq hq => ?_⟩ <;>
      rw [abort_sessions] at hq <;> split_ifs at hq
    · exact Option.some.inj hq ▸ by simp [insertedRows]
    · exact h.inserted q sq hq
    · exact Option.some.inj hq ▸ h.jobs p ses hp
    · exact h.jobs q sq hq
  | start hp hjob =>
    rename_i p job now
    have hj : JobAvoids {x} job := by
      rcases hjob with rfl | ⟨threshold, days, rfl⟩
      · exact ha p job now rfl
      · intro c hc fn hfn
        rw [List.mem_singleton.mp hc] at hfn
        cases hfn
    refine ⟨h.committed, fun q sq hq => ?_, fun q sq hq => ?_⟩ <;>
      rw [set_sessions] at hq <;> split_ifs at hq
    · exact Option.some.inj hq ▸ by simp [insertedRows]
    · exact h.inserted q sq hq
    · exact Option.some.inj hq ▸ hj
    · exact h.jobs q sq hq
  | idle => exact h
  | cleanup => exact ⟨h.committed, h.inserted, h.jobs⟩
  | nextval => exact ⟨h.committed, h.inserted, h.jobs⟩

variable {s s' t : SyncState Y} {X : Set Y.Struct} {ws : ℕ}

theorem handleUpdate_cases {p : ℕ} {now startedAt : ℤ} {u : Y.Update}
    (h : s.handleUpdate ws p now startedAt (some u) = some s') :
    ((isRateLimited (s.updateRateByClient ws) now).2 = true ∧
        s' = s.setRate ws (isRateLimited (s.updateRateByClient ws) now).1) ∨
      ((isRateLimited (s.updateRateByClient ws) now).2 = false ∧
        ∃ d, Docs.step s.docs (.begin p (applyFrame s.retentionDays u) startedAt) = some d ∧
          s' = { s.setRate ws (isRateLimited (s.updateRateByClient ws) now).1 with
            docs := d, accepted := s.accepted ++ [(p, u)] }) := by
  simp only [SyncState.handleUpdate] at h
  split_ifs at h with hl
  · cases h
    exact .inl ⟨hl, rfl⟩
  · obtain ⟨s₁, hs₁, rfl⟩ := Option.map_eq_some_iff.mp h
    obtain ⟨d, hd, rfl⟩ := Option.map_eq_some_iff.mp hs₁
    exact .inr ⟨by simpa using hl, d, hd, rfl⟩

theorem frame_step {p : ℕ} {now startedAt : ℤ} {u : Y.Update} (hws : ws ∈ s.subscribers)
    (h : step s (.binaryFrame ws p now startedAt (.update (some u))) = some s') :
    ws ∈ s'.subscribers ∧
      s'.updateRateByClient ws = some (isRateLimited (s.updateRateByClient ws) now).1 ∧
      ((s'.accepted = s.accepted ∧ (isRateLimited (s.updateRateByClient ws) now).2 = true ∧
          s'.docs = s.docs) ∨
        (s'.accepted = s.accepted ++ [(p, u)] ∧
          (isRateLimited (s.updateRateByClient ws) now).2 = false ∧
          Docs.step s.docs (.begin p (applyFrame s.retentionDays u) startedAt) =
            some s'.docs)) := by
  simp only [step, if_pos hws] at h
  rcases handleUpdate_cases h with ⟨hl, rfl⟩ | ⟨hl, d, hd, rfl⟩
  · exact ⟨hws, by simp [SyncState.setRate], .inl ⟨rfl, hl, rfl⟩⟩
  · exact ⟨hws, by simp [SyncState.setRate], .inr ⟨rfl, hl, hd⟩⟩

theorem begin_frame {p : ℕ} {job : Docs.Job Y} {startedAt : ℤ}
    (h : s.begin p job startedAt = some s') :
    s'.subscribers = s.subscribers ∧ s'.updateRateByClient = s.updateRateByClient ∧
      Docs.step s.docs (.begin p job startedAt) = some s'.docs := by
  obtain ⟨d, hd, rfl⟩ := Option.map_eq_some_iff.mp h
  exact ⟨rfl, rfl, hd⟩

theorem loadJob_avoids (days : ℕ) : JobAvoids X (loadJob (Y := Y) days) := by
  intro c hc fn hfn
  rw [List.mem_singleton.mp hc] at hfn
  cases hfn

theorem applyFrame_avoids {u : Y.Update} (h : Disjoint (Y.content u) X) (days : ℕ) :
    JobAvoids X (applyFrame days u) := by
  intro c hc fn hfn doc
  rw [List.mem_singleton.mp hc] at hfn
  cases hfn
  exact h

/-- A step of another party leaves the socket's subscription and rate alone, and what it does to
the document brings none of `X`. -/
theorem other_step {a : Act Y} (ho : Other ws X a) (hws : ws ∈ s.subscribers)
    (h : step s a = some s') :
    ws ∈ s'.subscribers ∧ s'.updateRateByClient ws = s.updateRateByClient ws ∧
      (s'.docs = s.docs ∨ ∃ b, Docs.step s.docs b = some s'.docs ∧
        ∀ p job now, b = .begin p job now → JobAvoids X job) := by
  have hload : ∀ {s : SyncState Y} {p : ℕ} {startedAt : ℤ}, ∀ q job now,
      Docs.Act.begin p (loadJob s.retentionDays) startedAt = .begin q job now →
      JobAvoids X job := by
    rintro s p startedAt q job now ⟨⟩
    exact loadJob_avoids _
  cases a with
  | doOpen ws' p startedAt =>
    obtain ⟨hs, hr, hd⟩ := begin_frame h
    exact ⟨hs ▸ .tail _ hws, by rw [hr], .inr ⟨_, hd, hload (s := s)⟩⟩
  | doClose ws' =>
    cases h
    exact ⟨List.mem_filter.mpr ⟨hws, by simpa using ho.symm⟩, rfl, .inl rfl⟩
  | docs a =>
    obtain ⟨d, hd, rfl⟩ := Option.map_eq_some_iff.mp h
    refine ⟨hws, rfl, .inr ⟨a, hd, ?_⟩⟩
    rintro p job now rfl
    exact ho
  | binaryFrame ws' p now startedAt payload =>
    have hupdate : ∀ u, (ws' ≠ ws ∧ ∀ v, u = some v → Disjoint (Y.content v) X) →
        s.handleUpdate ws' p now startedAt u = some s' → ws ∈ s'.subscribers ∧
          s'.updateRateByClient ws = s.updateRateByClient ws ∧
          (s'.docs = s.docs ∨ ∃ b, Docs.step s.docs b = some s'.docs ∧
            ∀ p job now, b = .begin p job now → JobAvoids X job) := by
      rintro (_ | u) ⟨hne, hv⟩ hu
      · simp only [SyncState.handleUpdate, ite_self, Option.some.injEq] at hu
        subst hu
        exact ⟨hws, by simp [SyncState.setRate, hne.symm], .inl rfl⟩
      · rcases handleUpdate_cases hu with ⟨-, rfl⟩ | ⟨-, d, hd, rfl⟩
        · exact ⟨hws, by simp [SyncState.setRate, hne.symm], .inl rfl⟩
        · refine ⟨hws, by simp [SyncState.setRate, hne.symm], .inr ⟨_, hd, ?_⟩⟩
          rintro q job now ⟨⟩
          exact applyFrame_avoids (hv u rfl) _
    simp only [step] at h
    split_ifs at h
    · split at h
      · cases h
        exact ⟨hws, rfl, .inl rfl⟩
      · cases h
        exact ⟨hws, rfl, .inl rfl⟩
      · cases h
        exact ⟨hws, rfl, .inl rfl⟩
      · obtain ⟨hs, hr, hd⟩ := begin_frame h
        exact ⟨hs ▸ hws, by rw [hr], .inr ⟨_, hd, hload (s := s)⟩⟩
      · exact hupdate _ ho h
      · exact hupdate _ ho h
    · cases h
      exact ⟨hws, rfl, .inl rfl⟩

theorem SessionRun.dropped_eq {os : List (Received Y)} (h : SessionRun ws X s os t)
    (hws : ws ∈ s.subscribers) :
    os.map (·.transaction.isNone) = limited (s.updateRateByClient ws) (os.map (·.arrival)) := by
  induction h with
  | done => rfl
  | accepted hs hacc _ ih =>
    obtain ⟨hws', hrate, hcase⟩ := frame_step hws hs
    rcases hcase with ⟨heq, -, -⟩ | ⟨-, hl, -⟩
    · rw [hacc] at heq
      simp at heq
    · simp [limited, hl, ih hws', hrate]
  | dropped hs hacc _ ih =>
    obtain ⟨hws', hrate, hcase⟩ := frame_step hws hs
    rcases hcase with ⟨-, hl, -⟩ | ⟨heq, -, -⟩
    · simp [limited, hl, ih hws', hrate]
    · rw [hacc] at heq
      simp at heq
  | other ho hs _ ih =>
    obtain ⟨hws', hrate, -⟩ := other_step ho hws hs
    rw [ih hws', hrate]

/-- A struct that only dropped frames carry never reaches the server. -/
theorem SessionRun.unreceived (hY : Y.Lawful) {os : List (Received Y)} {x : Y.Struct}
    (h : SessionRun ws X s os t) (hws : ws ∈ s.subscribers) (hX : x ∈ X)
    (hx : x ∉ Y.content snapshot₀)
    (hos : ∀ o ∈ os, o.transaction ≠ none → x ∉ Y.content o.update)
    (hbase : Inv snapshot₀ s.docs) (hun : Unreceived x s.docs) :
    Inv snapshot₀ t.docs ∧ Unreceived x t.docs := by
  induction h with
  | done => exact ⟨hbase, hun⟩
  | accepted hs hacc _ ih =>
    obtain ⟨hws', -, hcase⟩ := frame_step hws hs
    rcases hcase with ⟨heq, -, -⟩ | ⟨-, -, hd⟩
    · rw [hacc] at heq
      simp at heq
    · refine ih hws' (fun o ho => hos o (.tail _ ho)) (hbase.step hY hd)
        (hun.docs_step hY hx hbase ?_ hd)
      rintro q job now ⟨⟩
      exact applyFrame_avoids (Set.disjoint_singleton_right.mpr (hos _ (.head _) (by simp))) _
  | dropped hs hacc _ ih =>
    obtain ⟨hws', -, hcase⟩ := frame_step hws hs
    rcases hcase with ⟨-, -, hd⟩ | ⟨heq, -, -⟩
    · exact ih hws' (fun o ho => hos o (.tail _ ho)) (hd ▸ hbase) (hd ▸ hun)
    · rw [hacc] at heq
      simp at heq
  | other ho hs _ ih =>
    obtain ⟨hws', -, hd | ⟨b, hd, hb⟩⟩ := other_step ho hws hs
    · exact ih hws' hos (hd ▸ hbase) (hd ▸ hun)
    · refine ih hws' hos (hbase.step hY hd) (hun.docs_step hY hx hbase (fun p job now he => ?_) hd)
      have hjob := hb p job now he
      cases job with
      | calls call rest =>
        exact fun c hc fn hfn doc => (hjob c hc fn hfn doc).mono_right
          (Set.singleton_subset_iff.mpr hX)
      | rebaseline days => trivial
      | openVersion at_ days => trivial

def droppedStructs (os : List (Received Y)) : Set Y.Struct :=
  Y.contents ((os.filter (·.transaction.isNone)).map (·.update))

/-- Whenever a frame was dropped and a later one accepted and handled, the persisted document has
the dropped one's edits. -/
def Converges (os : List (Received Y)) (t : SyncState Y) : Prop :=
  os.Pairwise fun a b => a.transaction = none → ∀ p, b.transaction = some p → Finished t p →
    Y.content a.update ⊆ Y.visible (Y.structs (loadDoc t.docs.db))

/-- A session as it starts: the socket has the document open and has sent no update yet. -/
structure Opened (snapshot₀ : Y.Update) (ws : ℕ) (s : SyncState Y) : Prop where
  docs : ∃ now, s.docs = initial snapshot₀ now
  subscribed : ws ∈ s.subscribers
  rate : s.updateRateByClient ws = none

/-- A dropped frame of a session is not in the document, whatever was done since. -/
theorem SessionRun.lost (hY : Y.Lawful) {events : List (ClientEvent Y)} {ydoc : Y.Doc}
    {os : List (Received Y)} (hopen : Opened snapshot₀ ws s)
    (hrun : SessionRun ws (droppedStructs os) s os t)
    (hsync : Y.content snapshot₀ ⊆ Y.structs ydoc)
    (hsent : os.map (·.toFrame) = sentFrames ydoc events) {o : Received Y} (ho : o ∈ os)
    (hdrop : o.transaction = none) :
    ¬ Y.content o.update ⊆ Y.visible (Y.structs (loadDoc t.docs.db)) := by
  obtain ⟨l, r, rfl⟩ := List.append_of_mem ho
  have hfresh : Fresh (Y.content snapshot₀) ((l ++ o :: r).map (·.toFrame)) :=
    hsent ▸ (fresh_sentFrames hY events ydoc).mono hsync
  rw [List.map_append, List.map_cons] at hfresh
  obtain ⟨x, hx, hknown, hothers⟩ := hfresh.split
  obtain ⟨now, hdocs⟩ := hopen.docs
  have hX : x ∈ droppedStructs (l ++ o :: r) :=
    Yjs.content_subset_contents (List.mem_map_of_mem (List.mem_filter.mpr ⟨ho, by simp [hdrop]⟩)) hx
  have hacc : ∀ o' ∈ l ++ o :: r, o'.transaction ≠ none → x ∉ Y.content o'.update := by
    intro o' ho' hne
    have hmem : o' ∈ l ++ r := by
      rcases List.mem_append.mp ho' with h | h
      · exact List.mem_append_left _ h
      · rcases List.mem_cons.mp h with rfl | h
        · exact absurd hdrop hne
        · exact List.mem_append_right _ h
    refine hothers o'.toFrame ?_
    rw [← List.map_append]
    exact List.mem_map_of_mem hmem
  have hun : Unreceived x (initial snapshot₀ now) := ⟨by simp [initial], by simp [initial],
    by simp [initial]⟩
  obtain ⟨hbase, hun⟩ := hrun.unreceived hY hopen.subscribed hX hknown hacc
    (hdocs ▸ .init snapshot₀ now) (hdocs ▸ hun)
  intro hsub
  have hmem : x ∈ Y.structs (loadDoc t.docs.db) := integrated_subset (hsub hx)
  rw [structs_loadDoc hY, hbase.total] at hmem
  rcases hmem with h | ⟨u, hu, hxu⟩
  · exact hknown h
  · obtain ⟨row, hrow, rfl⟩ := List.mem_map.mp hu
    exact hun.committed row hrow hxu

theorem SessionRun.converges_iff (hY : Y.Lawful) {events : List (ClientEvent Y)} {ydoc : Y.Doc}
    {os : List (Received Y)} (hopen : Opened snapshot₀ ws s)
    (hrun : SessionRun ws (droppedStructs os) s os t)
    (hsync : Y.content snapshot₀ ⊆ Y.structs ydoc)
    (hsent : os.map (·.toFrame) = sentFrames ydoc events)
    (hfin : ∀ o ∈ os, ∀ p, o.transaction = some p → Finished t p) :
    Converges os t ↔ ¬ List.Sublist [true, false] (limited none (os.map (·.arrival))) := by
  have hdropped := hrun.dropped_eq hopen.subscribed
  rw [hopen.rate] at hdropped
  rw [← hdropped]
  refine ⟨fun hconv hsub => ?_, fun hnot => ?_⟩
  · obtain ⟨l, hl, hmap⟩ := List.sublist_map_iff.mp hsub
    obtain ⟨a, l, rfl, ha, hmap⟩ := List.map_eq_cons_iff.mp hmap.symm
    obtain ⟨b, l, rfl, hb, hmap⟩ := List.map_eq_cons_iff.mp hmap
    obtain rfl := List.map_eq_nil_iff.mp hmap
    rw [Option.isNone_iff_eq_none] at ha
    obtain ⟨p, hp⟩ := Option.ne_none_iff_exists'.mp
      (fun h => by simp [h] at hb : b.transaction ≠ none)
    exact hrun.lost hY hopen hsync hsent (hl.subset (.head _)) ha
      (List.pairwise_iff_forall_sublist.mp hconv hl ha p hp
        (hfin b (hl.subset (.tail _ (.head _))) p hp))
  · refine List.pairwise_iff_forall_sublist.mpr fun {a b} hl ha p hp _ => absurd ?_ hnot
    have hpair := hl.map (·.transaction.isNone)
    simpa [ha, hp] using hpair

/-- In every session whose accepted frames have been handled, the document converges over the
limiter's drops exactly when no window that is followed by another held more frames than the
limit: a dropped edit is never recovered by a later frame. -/
theorem rateLimit_converges_iff (hY : Y.Lawful) {events : List (ClientEvent Y)} {ydoc : Y.Doc}
    {os : List (Received Y)} (hopen : Opened snapshot₀ ws s)
    (hrun : SessionRun ws (droppedStructs os) s os t)
    (hsync : Y.content snapshot₀ ⊆ Y.structs ydoc)
    (hsent : os.map (·.toFrame) = sentFrames ydoc events)
    (hfin : ∀ o ∈ os, ∀ p, o.transaction = some p → Finished t p) :
    Converges os t ↔
      ∀ n ∈ (windowSizes (os.map (·.arrival))).dropLast, n ≤ MAX_UPDATES_PER_WINDOW := by
  rw [hrun.converges_iff hY hopen hsync hsent hfin, limited_iff]
  push Not
  rfl

end lost

section runs

structure RanToEnd (p : ℕ) (d d' : Sys Y) : Prop where
  lock : d'.lock = none
  others : ∀ q, q ≠ p → d'.sessions q = d.sessions q
  committed : ∃ ses, d'.sessions p = some ses ∧ ses.phase = .committed

theorem ranToEnd_commit {d e : Sys Y} {p : ℕ} {ses : Session Y} (hl : e.lock = some p)
    (hs : ∀ q, q ≠ p → e.sessions q = d.sessions q) : RanToEnd p d (e.commit p ses) where
  lock := by simp [Sys.commit, Sys.set, hl]
  others q hq := by rw [commit_sessions, if_neg hq, hs q hq]
  committed := ⟨_, by rw [commit_sessions, if_pos rfl], rfl⟩

def handlerActs (p : ℕ) : List (Docs.Act Y) := [.exec p, .exec p, .exec p, .exec p, .commit p]

/-- While no other transaction holds the document's row, a frame's handler runs to its end. -/
theorem handler_ranToEnd {d : Sys Y} {p days : ℕ} {u : Y.Update} {startedAt : ℤ}
    (hl : d.lock = none)
    (hp : d.sessions p = some { startedAt := startedAt, job := applyFrame days u }) :
    ∃ d', runActs Docs.step d (handlerActs p) = some d' ∧ RanToEnd p d d' := by
  simp only [handlerActs, runActs, runChecked, if_true, Docs.step, hp, Option.bind_some, Sys.exec,
    applyFrame, hl, true_or, Sys.set, Function.update_self]
  split_ifs
  all_goals
    simp only [Option.bind_some, Function.update_self, Session.nextCall]
    split
    all_goals
      simp only [Phase.finished, if_true, Function.update_self, Option.bind_some,
        Option.some.injEq, exists_eq_left', Function.update_idem]
      exact ranToEnd_commit rfl fun q hq => Function.update_of_ne hq _ _

variable {s s' t : SyncState Y} {X : Set Y.Struct} {ws : ℕ}

theorem SessionRun.handler {os : List (Received Y)} {p : ℕ} {d : Sys Y}
    (hd : runActs Docs.step s.docs (handlerActs p) = some d)
    (h : SessionRun ws X { s with docs := d } os t) : SessionRun ws X s os t := by
  have hacts : ∀ a ∈ handlerActs (Y := Y) p, Other ws X (.docs a) := by
    simp [handlerActs, Other]
  revert hd hacts
  generalize handlerActs p = as
  intro hd hacts
  induction as generalizing s with
  | nil =>
    cases hd
    exact h
  | cons a as ih =>
    simp only [runActs, runChecked, if_true] at hd
    obtain ⟨d₁, hd₁, hd⟩ := Option.bind_eq_some_iff.mp hd
    have hstep : step s (.docs a) = some { s with docs := d₁ } := by simp [step, hd₁]
    exact .other (hacts a (.head _)) hstep
      (ih (s := { s with docs := d₁ }) h hd fun b hb => hacts b (.tail _ hb))

/-- Any frames at all can be received one after the other, each handled before the next. -/
theorem SessionRun.exists_sequential : ∀ (fs : List (Frame Y)) (s : SyncState Y) (p : ℕ),
    ws ∈ s.subscribers → s.docs.lock = none → (∀ q, p ≤ q → s.docs.sessions q = none) →
    ∃ os t, (∀ X, SessionRun ws X s os t) ∧ os.map (·.toFrame) = fs ∧
      (∀ o ∈ os, ∀ q, o.transaction = some q → Finished t q) ∧
      ∀ q, q < p → t.docs.sessions q = s.docs.sessions q
  | [], s, p, _, _, _ => ⟨[], s, fun _ => .done s, rfl, by simp, fun _ _ => rfl⟩
  | f :: fs, s, p, hws, hl, hnew => by
    rcases hr : isRateLimited (s.updateRateByClient ws) f.arrival with ⟨rate, _ | _⟩
    · let s₁ : SyncState Y := { s.setRate ws rate with
        docs := s.docs.set p ⟨f.arrival, applyFrame s.retentionDays f.update, .begun, [], []⟩
        accepted := s.accepted ++ [(p, f.update)] }
      have hstep : step s (.binaryFrame ws p f.arrival f.arrival (.update (some f.update))) =
          some s₁ := by
        simp [step, hws, SyncState.handleUpdate, hr, SyncState.begin, Docs.step, hnew p le_rfl,
          SyncState.setRate, s₁]
      have hses : s₁.docs.sessions p =
          some { startedAt := f.arrival, job := applyFrame s.retentionDays f.update } := by
        simp [s₁, set_sessions]
      obtain ⟨d, hd, hend⟩ := handler_ranToEnd (d := s₁.docs) hl hses
      have hold : ∀ q, q ≠ p → d.sessions q = s.docs.sessions q := fun q hq => by
        rw [hend.others q hq, set_sessions, if_neg hq]
      obtain ⟨os, t, hrun, hos, hfin, hkeep⟩ := SessionRun.exists_sequential fs
        { s₁ with docs := d } (p + 1) hws hend.lock fun q hq => by
          rw [hold q (by omega), hnew q (by omega)]
      refine ⟨⟨f, some p⟩ :: os, t, fun X => .accepted hstep rfl (.handler hd (hrun X)),
        by simp [hos], ?_, fun q hq => by rw [hkeep q (by omega), hold q (by omega)]⟩
      intro o ho q hq
      rcases List.mem_cons.mp ho with rfl | ho
      · cases hq
        obtain ⟨ses, hses, hphase⟩ := hend.committed
        exact ⟨ses, by rw [hkeep p (by omega), hses], hphase⟩
      · exact hfin o ho q hq
    · have hstep : step s (.binaryFrame ws p f.arrival f.arrival (.update (some f.update))) =
          some (s.setRate ws rate) := by
        simp [step, hws, SyncState.handleUpdate, hr]
      obtain ⟨os, t, hrun, hos, hfin, hkeep⟩ := SessionRun.exists_sequential fs
        (s.setRate ws rate) (p + 1) hws hl fun q hq => hnew q (by omega)
      refine ⟨⟨f, none⟩ :: os, t, fun X => .dropped hstep rfl (hrun X), by simp [hos], ?_,
        fun q hq => hkeep q (by omega)⟩
      intro o ho q hq
      rcases List.mem_cons.mp ho with rfl | ho
      · cases hq
      · exact hfin o ho q hq

open Yjs (singleClient)

def edits : ℕ → List ℤ → List (ClientEvent singleClient)
  | _, [] => []
  | n, arrival :: arrivals => .edit [n] arrival :: edits (n + 1) arrivals

theorem arrivals_edits : ∀ (arrivals : List ℤ) (n : ℕ) (d : List ℕ), (∀ m, m ∈ d ↔ m < n) →
    (sentFrames (Y := singleClient) d (edits n arrivals)).map (·.arrival) = arrivals
  | [], _, _, _ => rfl
  | arrival :: arrivals, n, d, hd => by
    have hne : Yjs.newlyGapless d [n] ≠ [] := by
      refine List.ne_nil_of_mem (a := n) (List.mem_filter.mpr ⟨Yjs.mem_gapless_iff.mpr ?_, ?_⟩)
      · exact ⟨by simp, fun m hm => List.mem_append_left _ ((hd m).mpr hm)⟩
      · simp [Yjs.mem_gapless_iff, hd]
    have hnext : ∀ m, m ∈ d ++ [n] ↔ m < n + 1 := fun m => by
      rw [List.mem_append, hd, List.mem_singleton]
      omega
    have hevent : singleClient.updateEvent d ([n] : List ℕ) = some (Yjs.newlyGapless d [n]) :=
      if_neg hne
    have hsent : sentFrames (Y := singleClient) d (edits n (arrival :: arrivals)) =
        ⟨Yjs.newlyGapless d [n], arrival⟩ ::
          sentFrames (Y := singleClient) (d ++ [n] : List ℕ) (edits (n + 1) arrivals) := by
      change ((singleClient.updateEvent d ([n] : List ℕ)).map _).toList ++ _ = _
      rw [hevent]
      rfl
    rw [hsent, List.map_cons, arrivals_edits arrivals (n + 1) (d ++ [n]) hnext]

theorem opened_start (ws : ℕ) :
    Opened (Y := singleClient) [] ws { start [] 0 30 with subscribers := [ws] } :=
  ⟨⟨0, rfl⟩, List.mem_singleton_self ws, rfl⟩

/-- Edits received one after the other on a document that nobody else changes. -/
theorem exists_session (arrivals : List ℤ) : ∃ os t,
    SessionRun 7 (droppedStructs os)
        { start (Y := singleClient) [] 0 30 with subscribers := [7] } os t ∧
      os.map (·.toFrame) = sentFrames [] (edits 0 arrivals) ∧
      (∀ o ∈ os, ∀ p, o.transaction = some p → Finished t p) ∧ os.map (·.arrival) = arrivals := by
  obtain ⟨os, t, hrun, hos, hfin, -⟩ := SessionRun.exists_sequential
    (sentFrames (Y := singleClient) [] (edits 0 arrivals))
    { start (Y := singleClient) [] 0 30 with subscribers := [7] } 0
    (List.mem_singleton_self 7) rfl fun _ _ => rfl
  refine ⟨os, t, hrun _, hos, hfin, ?_⟩
  rw [← arrivals_edits arrivals 0 [] (by simp), ← hos, List.map_map]
  rfl

/-- A burst of 51 edits in a second: the last is dropped.  One more edit in the next second is
accepted, and the document does not have the dropped one. -/
theorem rateLimit_loses_edit :
    ¬ ∀ (events : List (ClientEvent singleClient)) (ydoc : List ℕ)
        (os : List (Received singleClient)) (s t : SyncState singleClient),
      Opened [] 7 s → SessionRun 7 (droppedStructs os) s os t →
      singleClient.content [] ⊆ singleClient.structs ydoc →
      os.map (·.toFrame) = sentFrames ydoc events →
      (∀ o ∈ os, ∀ p, o.transaction = some p → Finished t p) → Converges os t := by
  intro h
  obtain ⟨os, t, hrun, hos, hfin, harr⟩ :=
    exists_session (List.replicate 51 0 ++ [1000])
  have hconv := h _ [] os _ t (opened_start 7) hrun subset_rfl hos hfin
  rw [hrun.converges_iff Yjs.singleClient_lawful (opened_start 7) subset_rfl hos hfin, harr]
    at hconv
  exact hconv (by decide)

/-- Three edits, the last of them after the window of the first two. -/
theorem rateLimit_converges_iff_three : ∃ (os : List (Received singleClient))
    (t : SyncState singleClient), SessionRun 7 (droppedStructs os)
        { start (Y := singleClient) [] 0 30 with subscribers := [7] } os t ∧
      os.map (·.toFrame) = sentFrames [] (edits 0 [0, 10, 1000]) ∧ Converges os t := by
  obtain ⟨os, t, hrun, hos, hfin, harr⟩ := exists_session [0, 10, 1000]
  refine ⟨os, t, hrun, hos, (rateLimit_converges_iff Yjs.singleClient_lawful (opened_start 7) hrun
    subset_rfl hos hfin).mpr ?_⟩
  rw [harr]
  decide

end runs

end DocSync

end Semprec
