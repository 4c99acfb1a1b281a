import Semprec.Lib.ReadCommitted
import Semprec.Lib.Runs

/-!
# Programs of transactions that take locks

The program of a transaction is its statements in order, each chosen by what the ones before it have
read, between them the locks it waits for; a lock is held until the transaction ends.  Any number of
transactions run side by side under READ COMMITTED, and any of them may be rolled back at any time.

The rule for their invariants is rely and guarantee by locks.  `guar ls` is what a commit may do of
a transaction that holds the locks `ls`; what a transaction relies on (`Rely`) is the guarantee of
the transactions whose locks do not conflict with its own.  `Sound` says of a program that, from an
assertion that survives what it relies on, its commits keep the guarantee.  When every program is
sound, an invariant that the guarantee keeps holds in every committed state (`committed_of_reach`).
-/

namespace Semprec

namespace ReadCommitted

variable {σ ω lock op : Type*}

inductive Program (σ ω lock : Type*) where
  | commit
  | rollback
  | acquire (l : lock) (next : Program σ ω lock)
  | statement (writes : σ → List ω) (next : σ → Program σ ω lock)

structure Programs (σ ω lock : Type*) where
  db : ReadCommitted σ ω
  left : ℕ → Program σ ω lock
  locks : ℕ → List lock

inductive ProgramAct (op : Type*) where
  | begin (t : ℕ) (o : op)
  /-- The next statement of the transaction, the lock it waits for, or its end. -/
  | run (t : ℕ)
  /-- The transaction is rolled back: its connection is lost, a statement fails, a deadlock is
  resolved against it. -/
  | abort (t : ℕ)

def Programs.init (tables : σ) : Programs σ ω lock :=
  ⟨.init tables, fun _ => .rollback, fun _ => []⟩

def Compatible (conflicts : lock → lock → Bool) (ls ms : List lock) : Prop :=
  ∀ l ∈ ls, ∀ m ∈ ms, conflicts l m = false

instance (conflicts : lock → lock → Bool) (ls ms : List lock) :
    Decidable (Compatible conflicts ls ms) := by
  unfold Compatible
  infer_instance

section step

variable (apply : σ → ω → σ) (conflicts : lock → lock → Bool) (program : op → Program σ ω lock)

def Programs.step (s : Programs σ ω lock) : ProgramAct op → Option (Programs σ ω lock)
  | .begin t o =>
    (s.db.begin t).map fun db =>
      { s with
        db
        left := Function.update s.left t (program o)
        locks := Function.update s.locks t [] }
  | .run t =>
    if t ∈ s.db.opened then
      match s.left t with
      | .commit => (s.db.commit apply t).map fun db => { s with db }
      | .rollback => (s.db.rollback t).map fun db => { s with db }
      | .acquire l next =>
        if ∀ u ∈ s.db.opened, u ≠ t → Compatible conflicts (s.locks u) [l] then
          some { s with
            left := Function.update s.left t next
            locks := Function.update s.locks t (l :: s.locks t) }
        else none
      | .statement writes next =>
        (s.db.write t (writes (s.db.view apply t))).map fun db =>
          { s with
            db
            left := Function.update s.left t (next (s.db.view apply t)) }
    else none
  | .abort t => (s.db.rollback t).map fun db => { s with db }

end step

section rule

variable {apply : σ → ω → σ} {conflicts : lock → lock → Bool} {program : op → Program σ ω lock}
  {guar : List lock → σ → σ → Prop} {inv : σ → Prop} {ls ms : List lock} {A B : σ → Prop}
  {ws : List ω}

theorem Compatible.symm (hsymm : ∀ l m, conflicts l m = conflicts m l)
    (h : Compatible conflicts ls ms) : Compatible conflicts ms ls :=
  fun m hm l hl => (hsymm m l).trans (h l hl m hm)

theorem Compatible.mono {ls' : List lock} (hls : ls ⊆ ls') (h : Compatible conflicts ls' ms) :
    Compatible conflicts ls ms :=
  fun l hl => h l (hls hl)

theorem compatible_cons {l : lock} : Compatible conflicts (l :: ls) ms ↔
    Compatible conflicts [l] ms ∧ Compatible conflicts ls ms := by
  simp [Compatible]

/-- What the other transactions may commit while these locks are held. -/
def Rely (conflicts : lock → lock → Bool) (guar : List lock → σ → σ → Prop) (ls : List lock)
    (tables tables' : σ) : Prop :=
  ∃ ms, Compatible conflicts ls ms ∧ guar ms tables tables'

def Stable (conflicts : lock → lock → Bool) (guar : List lock → σ → σ → Prop) (ls : List lock)
    (A : σ → Prop) : Prop :=
  ∀ tables tables', Rely conflicts guar ls tables tables' → A tables → A tables'

/-- The assertion `A` holds of the committed tables; `ws` is what is written and not committed. -/
def Sound (apply : σ → ω → σ) (conflicts : lock → lock → Bool)
    (guar : List lock → σ → σ → Prop) (inv : σ → Prop) :
    Program σ ω lock → List lock → (σ → Prop) → List ω → Prop
  | .commit, ls, A, ws => ∀ tables, inv tables → A tables → guar ls tables (ws.foldl apply tables)
  | .rollback, _, _, _ => True
  | .acquire l next, ls, A, ws => Sound apply conflicts guar inv next (l :: ls) A ws
  | .statement writes next, ls, A, ws => ∀ tables, inv tables → A tables →
    ∃ B, Stable conflicts guar ls B ∧ B tables ∧
      Sound apply conflicts guar inv (next (ws.foldl apply tables)) ls B
        (ws ++ writes (ws.foldl apply tables))

theorem Rely.mono {ls' : List lock} (hls : ls ⊆ ls') {tables tables' : σ}
    (h : Rely conflicts guar ls' tables tables') : Rely conflicts guar ls tables tables' := by
  obtain ⟨ms, hc, hg⟩ := h
  exact ⟨ms, hc.mono hls, hg⟩

theorem Stable.mono {ls' : List lock} (hls : ls ⊆ ls') (h : Stable conflicts guar ls A) :
    Stable conflicts guar ls' A :=
  fun _ _ hr => h _ _ (hr.mono hls)

theorem Stable.and (hA : Stable conflicts guar ls A) (hB : Stable conflicts guar ls B) :
    Stable conflicts guar ls fun tables => A tables ∧ B tables :=
  fun _ _ hr h => ⟨hA _ _ hr h.1, hB _ _ hr h.2⟩

theorem stable_true : Stable conflicts guar ls fun _ => True :=
  fun _ _ _ _ => trivial

theorem Sound.weaken {p : Program σ ω lock} (hAB : ∀ tables, inv tables → A tables → B tables)
    (h : Sound apply conflicts guar inv p ls B ws) : Sound apply conflicts guar inv p ls A ws := by
  induction p generalizing ls with
  | commit => exact fun tables hi hA => h tables hi (hAB tables hi hA)
  | rollback => trivial
  | acquire l next ih => exact ih h
  | statement writes next => exact fun tables hi hA => h tables hi (hAB tables hi hA)

theorem Sound.acquire {l : lock} {next : Program σ ω lock}
    (h : Sound apply conflicts guar inv next (l :: ls) A ws) :
    Sound apply conflicts guar inv (.acquire l next) ls A ws :=
  h

/-- A statement that writes nothing, after which the assertion stands as it did or better. -/
theorem Sound.read {next : σ → Program σ ω lock}
    (h : ∀ tables, inv tables → A tables → ∃ B, Stable conflicts guar ls B ∧ B tables ∧
      Sound apply conflicts guar inv (next (ws.foldl apply tables)) ls B ws) :
    Sound apply conflicts guar inv (.statement (fun _ => []) next) ls A ws := by
  intro tables hi hA
  obtain ⟨B, hB, hb, hs⟩ := h tables hi hA
  exact ⟨B, hB, hb, by rwa [List.append_nil]⟩

/-- The invariant of the runs: the open transactions hold locks that do not conflict, and each is
sound from an assertion that the committed tables meet. -/
structure ProgramsInv (apply : σ → ω → σ) (conflicts : lock → lock → Bool)
    (guar : List lock → σ → σ → Prop) (inv : σ → Prop) (s : Programs σ ω lock) : Prop where
  committed : inv s.db.committed
  compatible : ∀ t ∈ s.db.opened, ∀ u ∈ s.db.opened, t ≠ u →
    Compatible conflicts (s.locks t) (s.locks u)
  sound : ∀ t ∈ s.db.opened, ∃ A, Stable conflicts guar (s.locks t) A ∧ A s.db.committed ∧
    Sound apply conflicts guar inv (s.left t) (s.locks t) A (s.db.pending t)

namespace ProgramsInv

variable {s s' : Programs σ ω lock} {t : ℕ}

theorem init (tables : σ) (h : inv tables) :
    ProgramsInv apply conflicts guar inv (Programs.init tables) :=
  ⟨h, fun _ ht => absurd ht (Finset.notMem_empty _), fun _ ht => absurd ht (Finset.notMem_empty _)⟩

theorem begin (o : op) {db : ReadCommitted σ ω} (hs : ProgramsInv apply conflicts guar inv s)
    (ho : Sound apply conflicts guar inv (program o) [] (fun _ => True) [])
    (hdb : s.db.begin t = some db) :
    ProgramsInv apply conflicts guar inv { s with
      db
      left := Function.update s.left t (program o)
      locks := Function.update s.locks t [] } := by
  have hnew : t ∉ s.db.opened := by
    intro ht
    simp [ReadCommitted.begin, ht] at hdb
  have hopened := begin_opened hdb
  have hold : ∀ u, u ∈ db.opened → u ≠ t → u ∈ s.db.opened := by
    intro u hu hut
    rw [hopened] at hu
    exact Finset.mem_of_mem_insert_of_ne hu hut
  constructor
  · simpa [begin_committed hdb] using hs.committed
  · intro u hu v hv huv
    rcases eq_or_ne u t with rfl | hut
    · simp [Compatible]
    rcases eq_or_ne v t with rfl | hvt
    · simp [Compatible]
    · simpa [hut, hvt] using hs.compatible u (hold u hu hut) v (hold v hv hvt) huv
  · intro u hu
    rcases eq_or_ne u t with rfl | hut
    · refine ⟨fun _ => True, stable_true, trivial, ?_⟩
      simpa [begin_pending hdb, s.db.pending_nil u hnew] using ho
    · simpa [hut, begin_committed hdb, begin_pending hdb] using hs.sound u (hold u hu hut)

theorem close {db : ReadCommitted σ ω} (hs : ProgramsInv apply conflicts guar inv s)
    (ht : t ∈ s.db.opened) (hopened : db.opened = s.db.opened.erase t)
    (hpending : db.pending = Function.update s.db.pending t [])
    (hinv : inv db.committed)
    (hguar : db.committed = s.db.committed ∨ guar (s.locks t) s.db.committed db.committed) :
    ProgramsInv apply conflicts guar inv { s with db } := by
  refine ⟨hinv, ?_, ?_⟩
  · intro u hu v hv huv
    rw [hopened] at hu hv
    exact hs.compatible u (Finset.mem_of_mem_erase hu) v (Finset.mem_of_mem_erase hv) huv
  · intro u hu
    simp only [hopened, Finset.mem_erase] at hu
    obtain ⟨A, hA, ha, hsound⟩ := hs.sound u hu.2
    refine ⟨A, hA, ?_, by simpa [hpending, hu.1] using hsound⟩
    rcases hguar with heq | hg
    · simpa [heq] using ha
    · exact hA _ _ ⟨_, hs.compatible u hu.2 t ht hu.1, hg⟩ ha

theorem goOn {left : Program σ ω lock} {locks : List lock} {db : ReadCommitted σ ω}
    (hs : ProgramsInv apply conflicts guar inv s) (hopened : db.opened = s.db.opened)
    (hcommitted : db.committed = s.db.committed)
    (hpending : ∀ u, u ≠ t → db.pending u = s.db.pending u)
    (hlocks : ∀ u ∈ s.db.opened, u ≠ t → Compatible conflicts locks (s.locks u) ∧
      Compatible conflicts (s.locks u) locks)
    (hsound : ∃ A, Stable conflicts guar locks A ∧ A s.db.committed ∧
      Sound apply conflicts guar inv left locks A (db.pending t)) :
    ProgramsInv apply conflicts guar inv { s with
      db
      left := Function.update s.left t left
      locks := Function.update s.locks t locks } := by
  constructor
  · simpa [hcommitted] using hs.committed
  · intro u hu v hv huv
    simp only [hopened] at hu hv
    rcases eq_or_ne u t with rfl | hut
    · simpa [huv.symm] using (hlocks v hv huv.symm).1
    rcases eq_or_ne v t with rfl | hvt
    · simpa [hut] using (hlocks u hu hut).2
    · simpa [hut, hvt] using hs.compatible u hu v hv huv
  · intro u hu
    simp only [hopened] at hu
    rcases eq_or_ne u t with rfl | hut
    · simpa [hcommitted] using hsound
    · simpa [hut, hcommitted, hpending u hut] using hs.sound u hu

theorem run (hsymm : ∀ l m, conflicts l m = conflicts m l)
    (hguar : ∀ ls tables tables', guar ls tables tables' → inv tables → inv tables')
    (hs : ProgramsInv apply conflicts guar inv s) (ht : t ∈ s.db.opened)
    (h : s.step apply conflicts program (.run t) = some s') :
    ProgramsInv apply conflicts guar inv s' := by
  obtain ⟨A, hA, ha, hsound⟩ := hs.sound t ht
  simp only [Programs.step, if_pos ht] at h
  split at h
  · rename_i hleft
    obtain ⟨db, hdb, rfl⟩ := Option.map_eq_some_iff.mp h
    rw [hleft] at hsound
    have hg := hsound _ hs.committed ha
    have hc : db.committed = (s.db.pending t).foldl apply s.db.committed := commit_committed hdb
    rw [← hc] at hg
    exact hs.close ht (commit_opened hdb) (commit_pending hdb) (hguar _ _ _ hg hs.committed)
      (.inr hg)
  · obtain ⟨db, hdb, rfl⟩ := Option.map_eq_some_iff.mp h
    have hc := rollback_committed hdb
    exact hs.close ht (rollback_opened hdb) (rollback_pending hdb) (hc ▸ hs.committed) (.inl hc)
  · rename_i l next hleft
    split_ifs at h with hfree
    cases h
    rw [hleft] at hsound
    refine hs.goOn rfl rfl (fun _ _ => rfl) (fun u hu hut => ?_) ⟨A, ?_, ha, hsound⟩
    · have hnew := (hfree u hu hut).symm hsymm
      have hold := hs.compatible t ht u hu hut.symm
      have hall := compatible_cons.mpr ⟨hnew, hold⟩
      exact ⟨hall, hall.symm hsymm⟩
    · exact hA.mono (List.subset_cons_self l _)
  · rename_i writes next hleft
    obtain ⟨db, hdb, rfl⟩ := Option.map_eq_some_iff.mp h
    rw [hleft] at hsound
    obtain ⟨B, hB, hb, hnext⟩ := hsound _ hs.committed ha
    have hpending := write_pending hdb
    have hlocks : s.locks = Function.update s.locks t (s.locks t) :=
      (Function.update_eq_self t s.locks).symm
    rw [hlocks]
    refine hs.goOn (write_opened hdb) (write_committed hdb) (fun u hut => ?_)
      (fun u hu hut => ⟨hs.compatible t ht u hu hut.symm, hs.compatible u hu t ht hut⟩)
      ⟨B, hB, hb, ?_⟩
    · rw [hpending, Function.update_of_ne hut]
    · rw [hpending, Function.update_self]
      exact hnext

end ProgramsInv

theorem committed_of_reach (hsymm : ∀ l m, conflicts l m = conflicts m l)
    (hguar : ∀ ls tables tables', guar ls tables tables' → inv tables → inv tables')
    (hsound : ∀ o, Sound apply conflicts guar inv (program o) [] (fun _ => True) [])
    {tables : σ} (h₀ : inv tables) {s : Programs σ ω lock}
    (h : Reach (Programs.step apply conflicts program) (fun _ _ => True) (Programs.init tables) s) :
    inv s.db.committed := by
  refine (Reach.invariant (ProgramsInv.init tables h₀) (fun s a s' hs _ hstep => ?_) h :
    ProgramsInv apply conflicts guar inv s).committed
  rcases a with ⟨t, o⟩ | t | t
  · obtain ⟨db, hdb, rfl⟩ := Option.map_eq_some_iff.mp hstep
    exact hs.begin o (hsound o) hdb
  · by_cases ht : t ∈ s.db.opened
    · exact hs.run hsymm hguar ht hstep
    · simp [Programs.step, ht] at hstep
  · obtain ⟨db, hdb, rfl⟩ := Option.map_eq_some_iff.mp hstep
    by_cases ht : t ∈ s.db.opened
    · have hc := rollback_committed hdb
      exact hs.close ht (rollback_opened hdb) (rollback_pending hdb) (hc ▸ hs.committed) (.inl hc)
    · simp [ReadCommitted.rollback, ht] at hdb

end rule

end ReadCommitted

end Semprec
