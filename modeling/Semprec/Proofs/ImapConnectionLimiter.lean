import Mathlib.Data.List.Nodup
import Mathlib.Data.List.Perm.Subperm
import Semprec.ImapConnectionLimiter

/-!
# The limiter's slots are accounted for

`Books` is what an account's records say of its queue whatever the limit is, so that it survives a
change of it; `wakeWaiters` then brings back that nobody waits for a slot that is free (`Full`).
-/

namespace Semprec

namespace ImapConnectionLimiter

variable {a : Account} {queue : AccountQueue} {limit active task : ℕ} {waiters : List ℕ}

/-! ## The loop that wakes -/

/-- What `wake` makes of a queue: the first waiters get the slots that are free. -/
structure Woken (limit active : ℕ) (waiters : List ℕ) (queue : AccountQueue)
    (grants : List Grant) : Prop where
  limit : queue.limit = limit
  active : queue.active = active + grants.length
  waiters : grants.map Grant.task ++ queue.waiters = waiters
  under : ∀ grant ∈ grants, grant.active < grant.limit
  full : queue.waiters ≠ [] → queue.limit ≤ queue.active

theorem woken (limit : ℕ) : ∀ (active : ℕ) (waiters : List ℕ),
    Woken limit active waiters (wake limit active waiters).1 (wake limit active waiters).2
  | active, [] => ⟨rfl, rfl, rfl, nofun, fun h => absurd rfl h⟩
  | active, waiter :: waiters => by
    rw [wake]
    split_ifs with hfree
    · have ih := woken limit (active + 1) waiters
      refine ⟨ih.limit, ?_, ?_, ?_, ih.full⟩
      · rw [ih.active, List.length_cons]
        omega
      · rw [List.map_cons, List.cons_append, ih.waiters]
      · exact List.forall_mem_cons.mpr ⟨hfree, ih.under⟩
    · exact ⟨rfl, rfl, rfl, nofun, fun _ => Nat.not_lt.mp hfree⟩

/-! ## The books -/

def Account.grantedTasks (a : Account) : List ℕ := a.granted.map Grant.task

structure Books (a : Account) (queue : AccountQueue) : Prop where
  granted : (a.resolved ++ a.started).Perm a.grantedTasks
  once : a.grantedTasks.Nodup
  below : ∀ task ∈ a.grantedTasks, task < a.nextTask
  under : ∀ grant ∈ a.granted, grant.active < grant.limit
  finished : a.finished.Nodup
  ran : ∀ task ∈ a.finished, task ∈ a.started
  active : queue.active + a.finished.length = a.granted.length
  waited : a.waited.Nodup
  numbered : ∀ task ∈ a.waited, task < a.nextTask
  waiting : ∀ task ∈ queue.waiters, task ∈ a.waited ∧ task ∉ a.grantedTasks ∧ task ∉ a.timedOut
  queued : queue.waiters.Nodup
  late : ∀ task ∈ a.timedOut, task ∈ a.waited ∧ task ∉ a.grantedTasks
  lateOnce : a.timedOut.Nodup
  fate : ∀ task ∈ a.waited, task ∈ queue.waiters ∨ task ∈ a.timedOut ∨ task ∈ a.grantedTasks

/-- Nobody waits for a slot that is free. -/
def Full (queue : AccountQueue) : Prop := queue.waiters ≠ [] → queue.limit ≤ queue.active

def Account.Inv (a : Account) : Prop :=
  match a.queue with
  | none => a = .init
  | some queue => Books a queue ∧ Full queue

theorem inv_some (queue : AccountQueue) (hqueue : a.queue = some queue) : a.Inv ↔ Books a queue ∧ Full queue := by
  rw [Account.Inv, hqueue]

theorem inv_none (hqueue : a.queue = none) : a.Inv ↔ a = .init := by
  rw [Account.Inv, hqueue]

theorem books_new : Books .init ⟨limit, 0, []⟩ := by
  constructor <;> simp [Account.init, Account.grantedTasks]

theorem Books.setLimit (h : Books a queue) : Books a { queue with limit := limit } :=
  ⟨h.granted, h.once, h.below, h.under, h.finished, h.ran, h.active, h.waited, h.numbered,
    h.waiting, h.queued, h.late, h.lateOnce, h.fate⟩

theorem Books.wakeWaiters (h : Books a queue) : (a.wakeWaiters queue).Inv := by
  have hw := woken queue.limit queue.active queue.waiters
  unfold Account.wakeWaiters
  generalize wake queue.limit queue.active queue.waiters = woke at hw
  obtain ⟨queue', grants⟩ := woke
  obtain ⟨-, hactive, hwaiters, hunder, hfull⟩ := hw
  simp only at hactive hwaiters hunder hfull
  have hqueued := h.queued
  have hwaiting := h.waiting
  rw [← hwaiters] at hqueued hwaiting
  obtain ⟨hgrants, hleft, hdisjoint⟩ := List.nodup_append.mp hqueued
  refine ⟨⟨?_, ?_, ?_, ?_, h.finished, h.ran, ?_, h.waited, h.numbered, ?_, hleft, ?_, h.lateOnce, ?_⟩,
    hfull⟩
  all_goals simp only [Account.grantedTasks, List.map_append]
  · -- the waiters that are woken have their promise resolved
    calc (a.resolved ++ grants.map Grant.task ++ a.started).Perm
          (a.resolved ++ (a.started ++ grants.map Grant.task)) := by
          rw [List.append_assoc]
          exact List.perm_append_comm.append_left _
      _ = a.resolved ++ a.started ++ grants.map Grant.task := (List.append_assoc _ _ _).symm
      List.Perm _ (a.grantedTasks ++ grants.map Grant.task) := h.granted.append_right _
  · refine List.nodup_append.mpr ⟨h.once, hgrants, fun task hold task' hnew heq => ?_⟩
    exact (hwaiting task' (List.mem_append_left _ hnew)).2.1 (heq ▸ hold)
  · intro task htask
    rcases List.mem_append.mp htask with hold | hnew
    · exact h.below task hold
    · exact h.numbered task (hwaiting task (List.mem_append_left _ hnew)).1
  · intro grant hgrant
    exact (List.mem_append.mp hgrant).elim (h.under grant) (hunder grant)
  · have := h.active
    simp only [List.length_append]
    omega
  · intro task htask
    obtain ⟨hwaited, hnot, hlate⟩ := hwaiting task (List.mem_append_right _ htask)
    refine ⟨hwaited, fun hmem => ?_, hlate⟩
    exact (List.mem_append.mp hmem).elim hnot fun hnew => hdisjoint task hnew task htask rfl
  · intro task htask
    obtain ⟨hwaited, hnot⟩ := h.late task htask
    refine ⟨hwaited, fun hmem => (List.mem_append.mp hmem).elim hnot fun hnew => ?_⟩
    exact (hwaiting task (List.mem_append_left _ hnew)).2.2 htask
  · intro task htask
    have hfate := h.fate task htask
    rw [← hwaiters] at hfate
    simp only [List.mem_append] at hfate ⊢
    tauto

theorem notMem_of_forall_lt {tasks : List ℕ} {n : ℕ} (h : ∀ task ∈ tasks, task < n) : n ∉ tasks :=
  fun hmem => Nat.lt_irrefl n (h n hmem)

theorem lt_succ_of_mem_snoc {tasks : List ℕ} {n : ℕ} (h : ∀ task ∈ tasks, task < n) :
    ∀ task ∈ tasks ++ [n], task < n + 1 := by
  intro task htask
  rcases List.mem_append.mp htask with hold | hnew
  · exact Nat.lt_trans (h task hold) (Nat.lt_succ_self n)
  · exact List.mem_singleton.mp hnew ▸ Nat.lt_succ_self n

theorem nodup_snoc {tasks : List ℕ} (h : tasks.Nodup) (hnew : task ∉ tasks) :
    (tasks ++ [task]).Nodup := by
  refine List.nodup_append.mpr ⟨h, List.nodup_singleton task, fun other hother task' htask' => ?_⟩
  exact fun heq => hnew (List.mem_singleton.mp htask' ▸ heq ▸ hother)

/-- `run` starts the task or has it wait. -/
theorem Books.begin (h : Books a queue) (hfull : Full queue) : (a.begin queue).Inv := by
  have hgranted := notMem_of_forall_lt h.below
  have hwaited := notMem_of_forall_lt h.numbered
  have hlate : a.nextTask ∉ a.timedOut := fun hmem => hwaited (h.late _ hmem).1
  have hwaiting : a.nextTask ∉ queue.waiters := fun hmem => hwaited (h.waiting _ hmem).1
  rw [Account.begin]
  split_ifs with hfree
  · have hnone : queue.waiters = [] := by
      by_contra hsome
      exact Nat.not_lt.mpr (hfull hsome) hfree
    have htasks : (a.granted ++ [(⟨a.nextTask, queue.active, queue.limit⟩ : Grant)]).map Grant.task =
        a.grantedTasks ++ [a.nextTask] := List.map_append
    have hold : ∀ task ∈ a.waited, task ∉ a.grantedTasks → task ∉ a.grantedTasks ++ [a.nextTask] := by
      intro task htask hnot hmem
      rcases List.mem_append.mp hmem with hmem | hmem
      · exact hnot hmem
      · exact hwaited (List.mem_singleton.mp hmem ▸ htask)
    refine (inv_some { queue with active := queue.active + 1 } rfl).mpr ⟨⟨?_, ?_, ?_, ?_,
      h.finished, fun task htask => List.mem_append_left _ (h.ran task htask), ?_,
      h.waited, fun task htask => Nat.lt_trans (h.numbered task htask) (Nat.lt_succ_self _), ?_, h.queued, ?_,
      h.lateOnce, ?_⟩, fun hsome => absurd hnone hsome⟩
    all_goals simp only [Account.grantedTasks, htasks]
    · rw [← List.append_assoc]
      exact h.granted.append_right _
    · exact nodup_snoc h.once hgranted
    · exact lt_succ_of_mem_snoc h.below
    · intro grant hgrant
      rcases List.mem_append.mp hgrant with hold | hnew
      · exact h.under grant hold
      · exact List.mem_singleton.mp hnew ▸ hfree
    · have := h.active
      simp only [List.length_append, List.length_singleton]
      omega
    · simp [hnone]
    · exact fun task htask => ⟨(h.late task htask).1, hold task (h.late task htask).1 (h.late task htask).2⟩
    · exact fun task htask => (h.fate task htask).imp_right (.imp_right (List.mem_append_left _))
  · refine (inv_some { queue with waiters := queue.waiters ++ [a.nextTask] } rfl).mpr
      ⟨⟨h.granted, h.once, fun task htask => Nat.lt_trans (h.below task htask) (Nat.lt_succ_self _),
      h.under, h.finished, h.ran, h.active, nodup_snoc h.waited hwaited,
      lt_succ_of_mem_snoc h.numbered, ?_, nodup_snoc h.queued hwaiting, ?_, h.lateOnce, ?_⟩,
      fun _ => Nat.not_lt.mp hfree⟩
    · intro task htask
      rcases List.mem_append.mp htask with hold | hnew
      · exact (h.waiting task hold).imp_left (List.mem_append_left _)
      · obtain rfl := List.mem_singleton.mp hnew
        exact ⟨List.mem_append_right _ hnew, hgranted, hlate⟩
    · exact fun task htask => (h.late task htask).imp_left (List.mem_append_left _)
    · intro task htask
      rcases List.mem_append.mp htask with hold | hnew
      · exact (h.fate task hold).imp_left (List.mem_append_left _)
      · exact .inl (List.mem_append_right _ hnew)

/-! ## The steps -/

theorem Account.Inv.run (hi : a.Inv) (limit : ℕ) : (a.run limit).Inv := by
  unfold Account.run
  rcases hqueue : a.queue with _ | queue
  · obtain rfl := (inv_none hqueue).mp hi
    exact books_new.begin fun h => absurd rfl h
  · have hset : (a.setLimit queue limit).Inv :=
      ((inv_some _ hqueue).mp hi).1.setLimit.wakeWaiters
    obtain ⟨hbooks, hfull⟩ := (inv_some ((a.setLimit queue limit).queue.getD queue) rfl).mp hset
    exact hbooks.begin hfull

/-- A task that has started gives its slot back once. -/
theorem Books.release (h : Books a queue) (hstarted : task ∈ a.started) (hnot : task ∉ a.finished) :
    (a.release queue task).Inv := by
  have hfinished : (a.finished ++ [task]).Nodup := nodup_snoc h.finished hnot
  have hran : ∀ other ∈ a.finished ++ [task], other ∈ a.started := by
    intro other hother
    rcases List.mem_append.mp hother with hold | hnew
    · exact h.ran other hold
    · exact List.mem_singleton.mp hnew ▸ hstarted
  have hle : (a.finished ++ [task]).length ≤ a.granted.length := by
    have hsub : a.finished ++ [task] ⊆ a.grantedTasks := fun other hother =>
      h.granted.mem_iff.mp (List.mem_append_right _ (hran other hother))
    simpa [Account.grantedTasks] using (hfinished.subperm hsub).length_le
  have hactive := h.active
  rw [List.length_append, List.length_singleton] at hle
  have hbooks : Books { a with finished := a.finished ++ [task] }
      { queue with active := queue.active - 1 } :=
    ⟨h.granted, h.once, h.below, h.under, hfinished, hran, by
      simp only [List.length_append, List.length_singleton]
      omega, h.waited, h.numbered, h.waiting, h.queued, h.late, h.lateOnce, h.fate⟩
  exact hbooks.wakeWaiters

theorem Books.timeout (h : Books a queue) (hfull : Full queue) (htask : task ∈ queue.waiters) :
    (a.timeout queue task).Inv := by
  obtain ⟨hwaited, hgranted, hlate⟩ := h.waiting task htask
  have herase : ∀ other ∈ queue.waiters.erase task, other ∈ queue.waiters :=
    fun _ => List.mem_of_mem_erase
  refine ⟨⟨h.granted, h.once, h.below, h.under, h.finished, h.ran, h.active, h.waited, h.numbered, ?_,
    h.queued.erase task, ?_, nodup_snoc h.lateOnce hlate, ?_⟩, fun hsome => hfull fun hnil => ?_⟩
  · intro other hother
    obtain ⟨hin, hnot, hother'⟩ := h.waiting other (herase other hother)
    refine ⟨hin, hnot, fun hmem => (List.mem_append.mp hmem).elim hother' fun heq => ?_⟩
    exact h.queued.not_mem_erase (List.mem_singleton.mp heq ▸ hother)
  · intro other hother
    rcases List.mem_append.mp hother with hold | hnew
    · exact h.late other hold
    · obtain rfl := List.mem_singleton.mp hnew
      exact ⟨hwaited, hgranted⟩
  · intro other hother
    by_cases heq : other = task
    · exact .inr (.inl (List.mem_append_right _ (List.mem_singleton.mpr heq)))
    · rcases h.fate other hother with hin | hlate | hgranted
      · exact .inl ((List.mem_erase_of_ne heq).mpr hin)
      · exact .inr (.inl (List.mem_append_left _ hlate))
      · exact .inr (.inr hgranted)
  · rw [hnil] at htask
    exact nomatch htask

theorem Books.resume (h : Books a queue) (htask : task ∈ a.resolved) :
    Books { a with resolved := a.resolved.erase task, started := a.started ++ [task] } queue := by
  refine ⟨?_, h.once, h.below, h.under, h.finished,
    fun other hother => List.mem_append_left _ (h.ran other hother), h.active, h.waited, h.numbered,
    h.waiting, h.queued, h.late, h.lateOnce, h.fate⟩
  calc (a.resolved.erase task ++ (a.started ++ [task])).Perm
        (task :: (a.resolved.erase task ++ a.started)) := by
        rw [← List.append_assoc]
        exact List.perm_append_singleton _ _
    List.Perm _ (a.resolved ++ a.started) := (List.perm_cons_erase htask).symm.append_right _
    List.Perm _ _ := h.granted

theorem Account.Inv.step {a' : Account} {act : Act} (hi : a.Inv) (h : a.step act = some a') :
    a'.Inv := by
  rcases act with limit | limit | task | ⟨task, failed⟩ | task <;> simp only [Account.step] at h
  case run =>
    obtain rfl := Option.some.inj h
    exact hi.run limit
  case setLimit =>
    obtain ⟨queue, hqueue, rfl⟩ := Option.map_eq_some_iff.mp h
    exact ((inv_some _ hqueue).mp hi).1.setLimit.wakeWaiters
  case resume =>
    split_ifs at h with htask
    obtain rfl := Option.some.inj h
    rcases Option.eq_none_or_eq_some a.queue with hqueue | ⟨queue, hqueue⟩
    · obtain rfl := (inv_none hqueue).mp hi
      exact nomatch htask
    · obtain ⟨hbooks, hfull⟩ := (inv_some _ hqueue).mp hi
      refine (inv_some queue ?_).mpr ⟨hbooks.resume htask, hfull⟩
      exact hqueue
  case finish =>
    split_ifs at h with htask
    obtain ⟨queue, hqueue, rfl⟩ := Option.map_eq_some_iff.mp h
    exact ((inv_some _ hqueue).mp hi).1.release htask.1 htask.2
  case timeout =>
    obtain ⟨queue, hqueue, h⟩ := Option.bind_eq_some_iff.mp h
    split_ifs at h with htask
    obtain rfl := Option.some.inj h
    obtain ⟨hbooks, hfull⟩ := (inv_some _ hqueue).mp hi
    exact hbooks.timeout hfull htask

/-! ## What the books say -/

/-- As many are left as the list has more than the part that is taken out. -/
theorem length_filter_notMem {tasks out : List ℕ} (htasks : tasks.Nodup) (hout : out.Nodup)
    (hsub : ∀ task ∈ out, task ∈ tasks) :
    (tasks.filter fun task => task ∉ out).length + out.length = tasks.length := by
  have hperm : (tasks.filter fun task => task ∈ out).Perm out :=
    (List.perm_ext_iff_of_nodup (htasks.filter _) hout).mpr fun task => by
      simpa using hsub task
  have hsplit := tasks.length_eq_length_filter_add fun task => decide (task ∈ out)
  rw [hperm.length_eq] at hsplit
  simp only [decide_not]
  omega

theorem Books.exact (hqueue : a.queue = some queue) (h : Books a queue) (hfull : Full queue) :
    a.Exact where
  active := by
    have hheld := length_filter_notMem h.once h.finished fun task htask =>
      h.granted.mem_iff.mp (List.mem_append_right _ (h.ran task htask))
    have hactive := h.active
    simp only [Account.grantedTasks, List.length_map] at hheld
    simp only [Account.held, hqueue, Option.map_some, Option.getD_some]
    omega
  once := h.once
  under := h.under
  waited := h.waited
  fate := by
    simp only [hqueue, Option.map_some, Option.getD_some]
    have hhanded : ∀ task, task ∈ a.handed ↔ task ∈ a.waited ∧ task ∈ a.grantedTasks := fun task => by
      rw [Account.handed, List.mem_filter, decide_eq_true_iff]
      rfl
    have hends : (a.handed ++ a.timedOut).Nodup :=
      List.nodup_append.mpr ⟨h.waited.filter _, h.lateOnce, fun task htask task' htask' heq =>
        (h.late task' htask').2 (heq ▸ ((hhanded task).mp htask).2)⟩
    have hall : (a.handed ++ a.timedOut ++ queue.waiters).Nodup := by
      refine List.nodup_append.mpr ⟨hends, h.queued, fun task htask task' htask' heq => ?_⟩
      obtain ⟨-, hgranted, hlate⟩ := h.waiting task' htask'
      rcases List.mem_append.mp htask with hmem | hmem
      · exact hgranted (heq ▸ ((hhanded task).mp hmem).2)
      · exact hlate (heq ▸ hmem)
    refine (List.perm_ext_iff_of_nodup hall h.waited).mpr fun task => ?_
    simp only [List.mem_append, hhanded]
    constructor
    · rintro ((⟨hwaited, -⟩ | hlate) | hwaiting)
      · exact hwaited
      · exact (h.late task hlate).1
      · exact (h.waiting task hwaiting).1
    · intro hwaited
      rcases h.fate task hwaited with hwaiting | hlate | hgranted
      · exact .inr hwaiting
      · exact .inl (.inr hlate)
      · exact .inl (.inl ⟨hwaited, hgranted⟩)
  used task htask := by
    have hmem : task ∈ a.grantedTasks := of_decide_eq_true (List.mem_filter.mp htask).2
    rcases List.mem_append.mp (h.granted.mem_iff.mpr hmem) with hresolved | hstarted
    · exact .inr (by simp [Account.step, hresolved])
    · exact .inl hstarted
  full queue' hqueue' := by
    obtain rfl := Option.some.inj (hqueue.symm.trans hqueue')
    exact hfull

theorem exact_init : Account.init.Exact := by
  constructor <;> simp [Account.init, Account.held, Account.handed]

theorem Account.Inv.exact (hi : a.Inv) : a.Exact := by
  rcases hqueue : a.queue with _ | queue
  · rw [(inv_none hqueue).mp hi]
    exact exact_init
  · obtain ⟨hbooks, hfull⟩ := (inv_some _ hqueue).mp hi
    exact hbooks.exact hqueue hfull

/-- In every run of the limiter, the books of each account are exact. -/
theorem limiter_exact (s : Sys) (hs : Reach step (fun _ _ => True) Sys.init s) (accountId : String) :
    (s accountId).Exact := by
  have hi : ∀ accountId, (s accountId).Inv := by
    refine hs.invariant (I := fun s => ∀ accountId, (s accountId).Inv)
      (fun _ => (inv_none rfl).mpr rfl) fun s act s' hi _ h accountId => ?_
    obtain ⟨a', ha', rfl⟩ := Option.map_eq_some_iff.mp h
    by_cases heq : accountId = act.1
    · subst heq
      rw [Function.update_self]
      exact (hi _).step ha'
    · rw [Function.update_of_ne heq]
      exact hi accountId
  exact (hi accountId).exact

/-- One of two waiters gives up, and the other is handed the slot. -/
def handOver : List (String × Act) :=
  [("a", .run 1), ("a", .run 1), ("a", .run 1), ("a", .timeout 2), ("a", .finish 0 true)]

theorem limiter_hands_over : ∃ s, runActs step Sys.init handOver = some s ∧
    (s "a").handed = [1] ∧ (s "a").timedOut = [2] ∧ (s "a").Exact := by
  obtain ⟨s, hs⟩ := Option.isSome_iff_exists.mp
    (rfl : (runActs step Sys.init handOver).isSome = true)
  exact ⟨s, hs, eq_of_map_eq (f := fun s => (s "a").handed) hs rfl,
    eq_of_map_eq (f := fun s => (s "a").timedOut) hs rfl, limiter_exact s (.of_runActs hs) "a"⟩

end ImapConnectionLimiter

end Semprec
