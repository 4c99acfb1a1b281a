import Semprec.ImapIdle
import Semprec.Proofs.ImapConnectionLimiter

/-!
# The rounds leave a slot

A loop has one task at a time, so the rounds hold no more slots than there are folders, and the limit
in force is the one that the last caller passed (`limit_step`).
-/

namespace Semprec

namespace ImapIdle

open ImapConnectionLimiter (Account AccountQueue)

variable {a a' : Account} {queue : AccountQueue} {limit : ℕ} {s s' : Sys}

/-! ## The limit in force -/

def limitOf : ImapConnectionLimiter.Act → Option ℕ
  | .run limit | .setLimit limit => some limit
  | _ => none

theorem limit_wakeWaiters : ∀ queue' ∈ (a.wakeWaiters queue).queue, queue'.limit = queue.limit := by
  rintro _ ⟨⟩
  exact (ImapConnectionLimiter.woken queue.limit queue.active queue.waiters).limit

theorem limit_begin : ∀ queue' ∈ (a.begin queue).queue, queue'.limit = queue.limit := by
  unfold Account.begin
  split_ifs <;> rintro _ ⟨⟩ <;> rfl

theorem limit_run : ∀ queue ∈ (a.run limit).queue, queue.limit = limit := by
  intro queue' h
  unfold Account.run at h
  split at h
  · exact limit_begin queue' h
  · rename_i queue hqueue
    have hset : ((a.setLimit queue limit).queue.getD queue).limit = limit :=
      (ImapConnectionLimiter.woken limit queue.active queue.waiters).limit
    exact (limit_begin queue' h).trans hset

theorem limit_step {act : ImapConnectionLimiter.Act} (h : a.step act = some a') :
    ∀ queue' ∈ a'.queue, queue'.limit ∈ limitOf act ∨ ∃ queue ∈ a.queue, queue.limit = queue'.limit := by
  intro queue' hqueue'
  rcases act with limit | limit | task | ⟨task, failed⟩ | task <;> simp only [Account.step] at h
  case run =>
    obtain rfl := Option.some.inj h
    exact .inl (congrArg some (limit_run queue' hqueue').symm)
  case setLimit =>
    obtain ⟨queue, hqueue, rfl⟩ := Option.map_eq_some_iff.mp h
    exact .inl (congrArg some (limit_wakeWaiters queue' hqueue').symm)
  case resume =>
    split_ifs at h
    obtain rfl := Option.some.inj h
    exact .inr ⟨queue', hqueue', rfl⟩
  case finish =>
    split_ifs at h
    obtain ⟨queue, hqueue, rfl⟩ := Option.map_eq_some_iff.mp h
    exact .inr ⟨queue, hqueue, (limit_wakeWaiters queue' hqueue').symm⟩
  case timeout =>
    obtain ⟨queue, hqueue, h⟩ := Option.bind_eq_some_iff.mp h
    split_ifs at h
    obtain rfl := Option.some.inj h
    obtain rfl := Option.some.inj hqueue'
    exact .inr ⟨queue, hqueue, rfl⟩

/-! ## The loops -/

/-- The round has been told to stop. -/
def Phase.stopping : Phase → Bool
  | closing _ .stop => true
  | _ => false

variable {roomy answered : Prop}

structure Inv (roomy answered : Prop) (s : Sys) : Prop where
  books : s.account.Inv
  limits : roomy → ∀ queue ∈ s.account.queue, s.loops.length < queue.limit
  alive : answered → s.stopped = false → ∀ phase ∈ s.loops, phase.over = false
  stops : ∀ phase ∈ s.loops, phase.stopping = true → s.stopped = true

theorem inv_init : Inv roomy answered Sys.init :=
  ⟨(ImapConnectionLimiter.inv_none rfl).mpr rfl, fun _ => nofun, fun _ _ => nofun, nofun⟩

theorem Inv.leavesSlot (hi : Inv roomy answered s) (h : roomy) : LeavesSlot s := by
  intro queue hqueue
  have hle : s.idleSlots.length ≤ s.loops.length :=
    (List.length_filter_le _ _).trans (List.length_filterMap_le _ _)
  exact hle.trans_lt (hi.limits h queue hqueue)

theorem Inv.isAlive (hi : Inv roomy answered s) (h : answered) : Alive s where
  alive := hi.alive h
  retries hstopped i hloop := by
    refine ⟨_, if_pos hloop, ?_⟩
    obtain ⟨hlt, -⟩ := List.getElem?_eq_some_iff.mp hloop
    simp [Sys.setLoop, Sys.again, hstopped, hlt]

theorem Inv.setLoop {i : ℕ} {phase : Phase} (hi : Inv roomy answered s) (hbooks : a'.Inv)
    (hlimits : roomy → ∀ queue ∈ a'.queue, s.loops.length < queue.limit)
    (hphase : answered → s.stopped = false → phase.over = false)
    (hstops : phase.stopping = true → s.stopped = true) :
    Inv roomy answered ((s.setAccount a').setLoop i phase) := by
  refine ⟨hbooks, fun hroomy queue hqueue => ?_, fun hanswered hstopped other hother => ?_,
    fun other hother hstop => ?_⟩
  · simpa [Sys.setLoop, Sys.setAccount] using hlimits hroomy queue hqueue
  · rcases List.mem_or_eq_of_mem_set hother with hold | rfl
    · exact hi.alive hanswered hstopped other hold
    · exact hphase hanswered hstopped
  · rcases List.mem_or_eq_of_mem_set hother with hold | rfl
    · exact hi.stops other hold hstop
    · exact hstops hstop

theorem Inv.task {act : ImapConnectionLimiter.Act} {i : ℕ} {phase : Phase}
    (hi : Inv roomy answered s) (hact : limitOf act = none) (h : s.account.step act = some a')
    (hphase : s.stopped = false → phase.over = false) (hstops : phase.stopping = false) :
    Inv roomy answered ((s.setAccount a').setLoop i phase) := by
  refine hi.setLoop (hi.books.step h) (fun hroomy queue hqueue => ?_) (fun _ => hphase)
    fun hstop => nomatch hstops.symm.trans hstop
  rcases limit_step h queue hqueue with hset | ⟨queue', hqueue', heq⟩
  · exact nomatch hact.symm.trans hset
  · exact heq ▸ hi.limits hroomy queue' hqueue'

theorem Inv.goesOn {i : ℕ} {phase : Phase} (hi : Inv roomy answered s)
    (hphase : answered → s.stopped = false → phase.over = false)
    (hstops : phase.stopping = true → s.stopped = true) :
    Inv roomy answered (s.setLoop i phase) :=
  hi.setLoop hi.books hi.limits hphase hstops

theorem stopping_again (s : Sys) : s.again.stopping = false := by
  unfold Sys.again
  split_ifs <;> rfl

theorem stopping_failed (s : Sys) : s.failed.stopping = false := by
  unfold Sys.failed
  split_ifs <;> rfl

theorem over_again (hstopped : s.stopped = false) : s.again.over = false := by
  simp [Sys.again, hstopped, Phase.over]

theorem over_failed (hstopped : s.stopped = false) : s.failed.over = false := by
  simp [Sys.failed, hstopped, Phase.over]

theorem Inv.step {act : Act} (hi : Inv roomy answered s) (hroomy : roomy → Roomy s act)
    (hanswered : answered → Answered s act) (h : step s act = some s') :
    Inv roomy answered s' := by
  rcases act with act | _ | folders | _ | ⟨i, limit⟩ | i | i | i | i | i | ⟨i, outcome⟩ | i | i | i <;>
    simp only [ImapIdle.step] at h
  case other =>
    split_ifs at h
    obtain ⟨a', ha', rfl⟩ := Option.map_eq_some_iff.mp h
    refine ⟨hi.books.step ha', fun hroom queue hqueue => ?_, hi.alive, hi.stops⟩
    rcases limit_step ha' queue hqueue with hset | ⟨queue', hqueue', heq⟩
    · rcases act with limit | limit | _ | _ | _
      · exact Option.some.inj hset ▸ hroomy hroom
      · exact Option.some.inj hset ▸ hroomy hroom
      all_goals exact nomatch hset
    · exact heq ▸ hi.limits hroom queue' hqueue'
  case start =>
    split_ifs at h
    obtain rfl := Option.some.inj h
    exact ⟨hi.books, fun hroom queue hqueue =>
      (Nat.zero_le _).trans_lt (hi.limits hroom queue hqueue), fun _ _ => nofun, nofun⟩
  case resolveFolders =>
    split_ifs at h
    obtain rfl := Option.some.inj h
    refine ⟨hi.books, fun hroom queue hqueue => ?_, fun _ hstopped phase hphase => ?_,
      fun phase hphase hstop => ?_⟩
    · rw [List.length_replicate]
      exact hroomy hroom queue hqueue
    · exact List.eq_of_mem_replicate hphase ▸ over_again hstopped
    · rw [List.eq_of_mem_replicate hphase, stopping_again] at hstop
      exact nomatch hstop
  case stop =>
    obtain rfl := Option.some.inj h
    exact ⟨hi.books, hi.limits, fun _ => nofun, fun _ _ _ => rfl⟩
  case limitFound =>
    have hlimits : roomy → ∀ queue ∈ (s.account.run limit).queue, s.loops.length < queue.limit :=
      fun hroom queue hqueue => limit_run queue hqueue ▸ hroomy hroom
    split_ifs at h
    · obtain rfl := Option.some.inj h
      exact hi.setLoop (hi.books.run limit) hlimits (fun _ _ => rfl) nofun
    · obtain rfl := Option.some.inj h
      exact hi.setLoop (hi.books.run limit) hlimits (fun _ _ => rfl) nofun
  case limitFails =>
    split_ifs at h
    obtain rfl := Option.some.inj h
    exact hi.goesOn (fun hanswer => (hanswered hanswer).elim) nofun
  case resume =>
    split at h
    · obtain ⟨a', ha', rfl⟩ := Option.map_eq_some_iff.mp h
      exact hi.task rfl ha' (fun _ => rfl) rfl
    · exact nomatch h
  case waitTimeout | connectFails =>
    split at h
    · obtain ⟨a', ha', rfl⟩ := Option.map_eq_some_iff.mp h
      exact hi.task rfl ha' over_failed (stopping_failed s)
    · exact nomatch h
  case connected =>
    split at h
    · obtain rfl := Option.some.inj h
      exact hi.goesOn (fun _ _ => rfl) nofun
    · exact nomatch h
  case roundEnds =>
    split at h
    · split_ifs at h with hstops
      obtain rfl := Option.some.inj h
      refine hi.goesOn (fun _ _ => rfl) fun hstop => ?_
      rcases outcome with _ | _ | _
      · simpa using hstops
      · exact nomatch hstop
      · exact nomatch hstop
    · exact nomatch h
  case closed =>
    split at h
    · rename_i task outcome hloop
      obtain ⟨a', ha', rfl⟩ := Option.map_eq_some_iff.mp h
      refine hi.task rfl ha' (fun hstopped => ?_) ?_
      · rcases outcome with _ | _ | (_ | _)
        · have hstop := hi.stops _ (List.mem_of_getElem? hloop) rfl
          exact nomatch hstopped.symm.trans hstop
        · exact over_again hstopped
        · exact over_again hstopped
        · rfl
      · rcases outcome with _ | _ | (_ | _)
        · rfl
        · exact stopping_again s
        · exact stopping_again s
        · rfl
    · exact nomatch h
  case slept =>
    split_ifs at h
    obtain rfl := Option.some.inj h
    exact hi.goesOn (fun _ => over_again) fun hstop => nomatch (stopping_again s).symm.trans hstop
  case stopSeen =>
    split_ifs at h with hstops
    obtain rfl := Option.some.inj h
    exact hi.goesOn (fun _ hstopped => nomatch hstops.2.symm.trans hstopped) nofun

/-- The rounds are in the account's books with every other task; where each limit leaves room for it
they leave a slot, and while the lookups of the limit answer no loop ends unless it is stopped. -/
theorem rounds_fair :
    (∀ s, Reach step (fun _ _ => True) Sys.init s → s.account.Exact) ∧
      (∀ s, Reach step Roomy Sys.init s → LeavesSlot s) ∧
      ∀ s, Reach step Answered Sys.init s → Alive s := by
  refine ⟨fun s h => ?_, fun s h => ?_, fun s h => ?_⟩
  · have hi : Inv False False s :=
      h.invariant inv_init fun _ _ _ hi _ hs => hi.step False.elim False.elim hs
    exact hi.books.exact
  · have hi : Inv True False s :=
      h.invariant inv_init fun _ _ _ hi hok hs => hi.step (fun _ => hok) False.elim hs
    exact hi.leavesSlot trivial
  · have hi : Inv False True s :=
      h.invariant inv_init fun _ _ _ hi hok hs => hi.step False.elim (fun _ => hok) hs
    exact hi.isAlive trivial

/-- A mailbox whose provider has a limit of three: a round is recycled, one fails to connect, and a
pass waits for its slot and gets it. -/
def icloudRun : List Act :=
  let limit := imapConnectionLimitForProvider (some "icloud") none
  [.start, .resolveFolders 2, .limitFound 0 limit, .connected 0, .other (.run limit), .limitFound 1 limit,
    .connectFails 1, .slept 1, .roundEnds 0 .recycled, .closed 0, .other (.run limit)]

theorem icloudRun_fair : ∃ s : Sys, runActs step Sys.init icloudRun = some s ∧
    s.loops = [.lookup, .lookup] ∧ LeavesSlot s ∧ Alive s := by
  obtain ⟨s, hs⟩ := Option.isSome_iff_exists.mp (by decide +kernel :
    (runChecked step (fun s act => decide (Roomy s act ∧ Answered s act)) Sys.init
      icloudRun).isSome = true)
  refine ⟨s, runActs_of_runChecked hs,
    eq_of_map_eq (f := fun s => s.loops) hs (by decide +kernel), ?_, ?_⟩
  · exact rounds_fair.2.1 s (.of_runChecked (fun _ _ h => (of_decide_eq_true h).1) hs)
  · exact rounds_fair.2.2 s (.of_runChecked (fun _ _ h => (of_decide_eq_true h).2) hs)

def defaultRun : List Act :=
  let limit := imapConnectionLimitForProvider none none
  [.start, .resolveFolders 2, .limitFound 0 limit, .limitFound 1 limit, .connected 0, .connected 1]

theorem rounds_starve : ¬∀ s, Reach step (fun _ _ => True) Sys.init s → LeavesSlot s := by
  intro hclaim
  obtain ⟨s, hs⟩ := Option.isSome_iff_exists.mp
    (by decide +kernel : (runActs step Sys.init defaultRun).isSome = true)
  have hslots := eq_of_map_eq (f := fun s => s.idleSlots.length) hs (b := 2) (by decide +kernel)
  have hqueue := eq_of_map_eq (f := fun s => s.account.queue) hs (b := some ⟨2, 2, []⟩)
    (by decide +kernel)
  have hslot := hclaim s (.of_runActs hs) _ hqueue
  rw [hslots] at hslot
  exact Nat.lt_irrefl 2 hslot

end ImapIdle

end Semprec
