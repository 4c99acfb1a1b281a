import Semprec.Lib.Runs
import Semprec.OperationReplay
import Semprec.Proofs.TrashRestore

/-!
# The replay of an approved operation is exactly once

Four of the five operations check everything before their first write (`Tx.Atomic`), so a domain
error that is caught leaves nothing behind.  A relation property is the exception: its pair is
deleted before its own row is checked (`propertyDelete_unchanged` says when that is harmless).  The
invariant of a run follows the one request whose job is delivered; every other step leaves the
requests that have ended as they are.
-/

namespace Semprec

namespace OperationReplay

open Approvals TxState

/-! ## Operations that fail before they write -/

section atomic

theorem readOnly_check {α : Type} (f : Store → Except Failure α) : (check f).ReadOnly :=
  Tx.readOnly_query _

theorem infallible_statement {α : Type} (f : Store → α × Store) : (statement f).Infallible :=
  Tx.infallible_write _

theorem infallible_execute (f : Store → Store) : (execute f).Infallible := Tx.infallible_write _

theorem infallible_enqueueForEdge (d a b : ℕ) :
    (Rollup.enqueueRollupRecomputeForEdge d a b).Infallible :=
  (Tx.infallible_gets _).bind fun targets => Tx.Infallible.forM (fun _ => Tx.infallible_write _) targets

theorem infallible_cascadeRow {write : ItemRow → Store → Option ItemRow × Store} {itemId : ℕ}
    (rootResult : Option ItemRow) (row : ItemRow) :
    (Trash.cascadeRow write itemId rootResult row).Infallible := by
  refine (infallible_statement _).bind fun item => ?_
  rcases item with _ | item
  · exact Tx.infallible_pure _
  · have hedges : (Trash.enqueueForEdges row.id).Infallible :=
      (Tx.infallible_gets _).bind fun edges =>
        Tx.Infallible.forM (fun e => infallible_enqueueForEdge _ _ _) edges
    exact hedges.bind fun _ => Tx.infallible_pure _

theorem databaseArchive_atomic (env : Env) (id : ℕ) :
    (Schema.databaseArchiveWithClient env id).Atomic :=
  (readOnly_check _).atomic.bind_infallible fun _ =>
    (infallible_execute _).bind fun _ => Tx.infallible_pure _

theorem viewDelete_atomic (id : ℕ) (actor : Actor) :
    (Schema.viewDeleteWithClient id actor).Atomic :=
  (readOnly_check _).bind_atomic fun _ => (readOnly_check _).bind_atomic fun _ =>
    (readOnly_check _).atomic.bind_infallible fun _ =>
      (infallible_execute _).bind fun _ => Tx.infallible_pure _

theorem itemDelete_atomic (env : Env) (databaseId itemId : ℕ) :
    (Trash.itemDeleteWithClient env databaseId itemId).Atomic := by
  refine (readOnly_check _).bind_atomic fun before => ?_
  rcases before with _ | before
  · exact (Tx.infallible_pure _).atomic
  · by_cases hd : before.deletedAt.isSome = true
    · simp only [hd, if_true]
      exact (Tx.infallible_pure _).atomic
    · simp only [hd]
      exact (readOnly_check _).atomic.bind_infallible fun subtree =>
        Tx.Infallible.foldlM (fun b row => infallible_cascadeRow b row) subtree none

theorem relationDelete_atomic (input : DeleteRelationInput)
    (context : Option SystemRelationWriteContext) :
    (Relations.deleteRelationWithClient input context).Atomic :=
  (readOnly_check _).atomic.bind_infallible fun _ => (infallible_statement _).bind fun _ =>
    (infallible_enqueueForEdge _ _ _).bind fun _ => Tx.infallible_pure _

theorem deletePropertyRow_atomic (id : ℕ) : (Schema.deletePropertyRow id).Atomic :=
  (readOnly_check _).bind_atomic fun _ =>
    (readOnly_check _).atomic.bind_infallible fun _ => infallible_execute _

theorem deletePairedProperty_atomic (reldef : RelationDefinitionRow) (id : ℕ) :
    (Schema.deletePairedProperty reldef id).Atomic := by
  refine (readOnly_check _).bind_atomic fun _ => ?_
  rcases Schema.otherPropertyId reldef id with _ | other
  · exact (Tx.infallible_pure _).atomic
  · exact (readOnly_check _).bind_atomic fun _ => deletePropertyRow_atomic other

end atomic

/-! ## Deleting a property -/

section propertyDelete

variable {s : Store} {id other : ℕ} {t t' : TxState} {e : Failure} {property : PropertyRow}

theorem deletePropertyRow_ok (h : (Schema.deletePropertyRow id).run t = (.ok (), t')) :
    Deletable t.store id ∧
      t' = { t with store := Trash.deleteProperties (fun p => p.id = id) t.store } := by
  obtain ⟨property, hp, h⟩ := Tx.run_query_bind_ok.mp h
  obtain ⟨_, hm, h⟩ := Tx.run_query_bind_ok.mp h
  exact ⟨⟨property, hp, hm⟩, (Prod.mk.inj h).2.symm⟩

theorem deleteOwn_error
    (h : (Schema.deletePropertyRow id >>= fun _ => pure property).run t = (.error e, t')) :
    t' = t ∧ ¬ Deletable t.store id := by
  rcases Tx.run_bind_error.mp h with h | ⟨_, _, _, h⟩
  · refine ⟨deletePropertyRow_atomic id _ _ _ h, ?_⟩
    rintro ⟨property, hp, hm⟩
    have hrun : (Schema.deletePropertyRow id).run t =
        (.ok (), { t with store := Trash.deleteProperties (fun p => p.id = id) t.store }) :=
      Tx.run_query_bind_ok.mpr ⟨property, hp, Tx.run_query_bind_ok.mpr ⟨(), hm, rfl⟩⟩
    rw [hrun] at h
    cases h
  · cases h

theorem deletePairedProperty_ok {reldef : RelationDefinitionRow}
    (h : (Schema.deletePairedProperty reldef id).run t = (.ok (), t')) :
    t' = t ∨ ∃ other, Schema.otherPropertyId reldef id = some other ∧ Deletable t.store other ∧
      t' = { t with store := Trash.deleteProperties (fun p => p.id = other) t.store } := by
  obtain ⟨_, _, h⟩ := Tx.run_query_bind_ok.mp h
  rcases ho : Schema.otherPropertyId reldef id with _ | other
  · rw [ho] at h
    cases h
    exact .inl rfl
  · rw [ho] at h
    obtain ⟨_, _, h⟩ := Tx.run_query_bind_ok.mp h
    obtain ⟨hd, ht⟩ := deletePropertyRow_ok h
    exact .inr ⟨other, rfl, hd, ht⟩

theorem requireProperty_eq_ok :
    s.requireProperty id = .ok property ↔ s.getProperty id = some property := by
  unfold Store.requireProperty
  rcases s.getProperty id with _ | p <;> simp

theorem getProperty_deleteProperties (hne : id ≠ other) :
    (Trash.deleteProperties (fun p => p.id = other) s).getProperty id = s.getProperty id := by
  unfold Store.getProperty Trash.deleteProperties
  rw [List.find?_filter]
  refine congrArg (List.find? · s.properties) (funext fun p => ?_)
  by_cases hp : p.id = id
  · simp [hp, hne]
  · simp [hp]

theorem Deletable.deleteProperties (h : Deletable s id) (hne : id ≠ other) :
    Deletable (Trash.deleteProperties (fun p => p.id = other) s) id := by
  obtain ⟨property, hp, hm⟩ := h
  refine ⟨property, ?_, hm⟩
  rw [requireProperty_eq_ok] at hp ⊢
  rw [getProperty_deleteProperties hne, hp]

theorem propertyDelete_unchanged (hstuck : ¬ OwnSideStuck t.store id)
    (h : (Schema.propertyDeleteWithClient id).run t = (.error e, t')) : t' = t := by
  rcases Tx.run_bind_error.mp h with h | ⟨property, t₁, hp, h⟩
  · exact readOnly_check _ _ _ _ h
  obtain ⟨hproperty, rfl⟩ := Prod.mk.inj hp
  by_cases hr : property.type = .relation
  · simp only [hr, if_true] at h
    rcases hd : t.store.getRelationDefinitionByPropertyId id with _ | reldef
    · rw [select, Tx.run_gets_bind, hd] at h
      exact (deleteOwn_error h).1
    · rw [select, Tx.run_gets_bind, hd] at h
      rcases Tx.run_bind_error.mp h with h | ⟨_, t₂, hpair, h⟩
      · exact deletePairedProperty_atomic _ _ _ _ _ h
      obtain ⟨rfl, hown⟩ := deleteOwn_error h
      rcases deletePairedProperty_ok hpair with rfl | ⟨other, ho, hother, rfl⟩
      · rfl
      · refine absurd ⟨property, reldef, other, hproperty, hr, hd, ho, hother, ?_⟩ hstuck
        by_cases hne : id = other
        · exact .inl hne
        · exact .inr fun hdel => hown (hdel.deleteProperties hne)
  · simp only [hr, if_false] at h
    rcases Tx.run_bind_error.mp h with h | ⟨_, t₁, hc, h⟩
    · exact readOnly_check _ _ _ _ h
    · rw [(deleteOwn_error h).1]
      exact readOnly_check _ _ _ _ hc

end propertyDelete

theorem executeDestructive_unchanged {env : Env} {actor : Actor} {resource : Resource}
    {input : DestructiveInput} {t t' : TxState} {e : Failure}
    (hstuck : ∀ id, input = .propertyDelete id → ¬ OwnSideStuck t.store id)
    (h : (executeDestructiveWithClient env actor resource input).run t = (.error e, t')) :
    t' = t := by
  cases input with
  | databaseArchive id =>
    exact ((databaseArchive_atomic env id).bind_infallible fun _ => Tx.infallible_pure _) _ _ _ h
  | propertyDelete id =>
    rcases Tx.run_bind_error.mp h with h | ⟨_, _, _, h⟩
    · exact propertyDelete_unchanged (hstuck id rfl) h
    · cases h
  | viewDelete id =>
    exact ((viewDelete_atomic id actor).bind_infallible fun _ => Tx.infallible_pure _) _ _ _ h
  | itemDelete id =>
    cases resource with
    | item _ databaseId _ _ _ =>
      exact ((itemDelete_atomic env databaseId id).bind_infallible fun _ =>
        Tx.infallible_pure _) _ _ _ h
    | _ => exact Tx.atomic_throw _ _ _ _ h
  | relationDelete input =>
    exact ((relationDelete_atomic input none).bind_infallible fun _ =>
      Tx.infallible_pure _) _ _ _ h

/-! ## How a request ends -/

structure Ended (id : ℕ) (status : ApprovalRequestExecutionStatus) (t t' : Tables) : Prop where
  only : OnlyStatus id t t'
  queued : executionStatus t id = some .queued
  ended : executionStatus t' id = some status

theorem OnlyStatus.refl (id : ℕ) (t : Tables) : OnlyStatus id t t :=
  ⟨rfl, fun _ _ => rfl, fun request h =>
    ⟨request.executionStatus, request.executionError, request.executionResult, request.executedAt,
      h⟩⟩

theorem updateWhere_some {t t' : Tables} {id : ℕ} {guard : ApprovalRequest → Bool}
    {set : ApprovalRequest → ApprovalRequest} {row : ApprovalRequest}
    (h : t.updateWhere id guard set = (t', some row)) :
    ∃ request, t.requests id = some request ∧ guard request = true ∧
      t' = { t with requests := Function.update t.requests id (some (set request)) } := by
  unfold Tables.updateWhere at h
  rcases hr : t.requests id with _ | request
  · simp [hr] at h
  · simp only [hr] at h
    split_ifs at h with hg
    · exact ⟨request, rfl, hg, (Prod.mk.inj h).1.symm⟩
    · cases h

theorem updateWhere_none {t t' : Tables} {id : ℕ} {guard : ApprovalRequest → Bool}
    {set : ApprovalRequest → ApprovalRequest} (h : t.updateWhere id guard set = (t', none)) :
    t' = t := by
  unfold Tables.updateWhere at h
  split at h
  · exact (Prod.mk.inj h).1.symm
  · split_ifs at h
    · cases h
    · exact (Prod.mk.inj h).1.symm

theorem ended_of_updateWhere {t t' : Tables} {id : ℕ} {status : ApprovalRequestExecutionStatus}
    {set : ApprovalRequest → ApprovalRequest} {row : ApprovalRequest}
    (hset : ∀ request, ∃ executionError executionResult executedAt, set request =
      { request with executionStatus := status, executionError, executionResult, executedAt })
    (h : t.updateWhere id (fun request => request.executionStatus = .queued) set =
      (t', some row)) : Ended id status t t' := by
  obtain ⟨request, hr, hq, rfl⟩ := updateWhere_some h
  obtain ⟨executionError, executionResult, executedAt, hset⟩ := hset request
  refine ⟨⟨rfl, fun j hj => Function.update_of_ne hj _ _, fun request' hr' => ?_⟩, ?_, ?_⟩
  · obtain rfl := Option.some.inj (hr.symm.trans hr')
    exact ⟨status, executionError, executionResult, executedAt,
      (Function.update_self _ _ _).trans (congrArg some hset)⟩
  · rw [executionStatus, hr, Option.map_some, of_decide_eq_true hq]
  · simp only [executionStatus, Function.update_self, Option.map_some, hset]

theorem ended_conflict {t t' : Tables} {id : ℕ} {details : Json} {now : ℤ} {row : ApprovalRequest}
    (h : terminalizeApprovalRequestAsConflict t id details now = (t', some row)) :
    Ended id .conflict t t' :=
  ended_of_updateWhere (fun _ => ⟨_, _, _, rfl⟩) h

theorem ended_succeeded {t t' : Tables} {id : ℕ} {result : Json} {now : ℤ} {row : ApprovalRequest}
    (h : markApprovalRequestExecutionSucceeded t id result now = (t', some row)) :
    Ended id .succeeded t t' :=
  ended_of_updateWhere (fun _ => ⟨_, _, _, rfl⟩) h

section replay

variable {host : Host} {env : Env} {now : ℤ} {request : ApprovalRequest}
  {payload : GenericOperationApprovalRequestPayload} {r r' : ReplayState} {result : ReplayResult}

theorem settle_ok {error : Bool} {update : Tables → Tables × Option ApprovalRequest}
    (h : (settle error update).run r = (.ok result, r')) :
    ∃ row, update r.tables = (r'.tables, some row) ∧ r'.tx = r.tx := by
  unfold settle Tx.run at h
  rcases hu : update r.tables with ⟨tables, _ | row⟩
  · simp [hu] at h
  · simp only [hu, Prod.mk.injEq] at h
    obtain ⟨_, rfl⟩ := h
    exact ⟨row, rfl, rfl⟩

/-- A request that is no longer queued is not a domain error. -/
theorem settle_error {error : Bool} {update : Tables → Tables × Option ApprovalRequest}
    {e : ChokePointError} : (settle error update).run r ≠ (.error (.chokePoint e), r') := by
  intro h
  unfold settle Tx.run at h
  rcases hu : update r.tables with ⟨tables, _ | row⟩ <;> simp [hu] at h

theorem onStore_run {α : Type} {x : Tx TxState Failure α} {o : Except Failure α}
    (h : (onStore x).run r = (o, r')) : ∃ tx, x.run r.tx = (o, tx) ∧ r' = { r with tx } := by
  obtain ⟨ho, rfl⟩ := Prod.mk.inj h
  exact ⟨_, Prod.ext ho rfl, rfl⟩

abbrev mutation (env : Env) (payload : GenericOperationApprovalRequestPayload)
    (input : DestructiveInput) (resource : Resource) : Tx TxState Failure MutationResult :=
  executeDestructiveWithClient env (dataActor payload.actor) resource input

theorem replayMutation_ok
    (h : (replayMutation host env now request payload).run r = (.ok result, r')) :
    (r'.tx = r.tx ∧ Ended request.id .conflict r.tables r'.tables) ∨
    ∃ input resource output, revalidate host request payload r = .ok (input, resource) ∧
      (mutation env payload input resource).run r.tx = (.ok output, r'.tx) ∧
      Ended request.id .succeeded r.tables r'.tables := by
  obtain ⟨⟨input, resource⟩, hv, h⟩ := Tx.run_query_bind_ok.mp h
  simp only [] at h
  split_ifs at h with hs
  · obtain ⟨row, hu, htx⟩ := settle_ok h
    exact .inl ⟨htx, ended_conflict hu⟩
  · obtain ⟨output, r₁, hx, h⟩ := Tx.run_bind_ok.mp h
    obtain ⟨row, hu, htx⟩ := settle_ok h
    obtain ⟨tx, hrun, rfl⟩ := onStore_run hx
    refine .inr ⟨input, resource, output, hv, ?_, ended_succeeded hu⟩
    rw [htx, hrun]

theorem replayMutation_error {e : ChokePointError}
    (hstuck : ∀ id resource,
      revalidate host request payload r = .ok (.propertyDelete id, resource) →
      resource.snapshot host = request.resourceSnapshot → ¬ OwnSideStuck r.tx.store id)
    (h : (replayMutation host env now request payload).run r = (.error (.chokePoint e), r')) :
    r' = r := by
  rcases Tx.run_bind_error.mp h with h | ⟨⟨input, resource⟩, r₁, hv, h⟩
  · exact Tx.readOnly_query _ _ _ _ h
  obtain ⟨hinput, rfl⟩ := Prod.mk.inj hv
  simp only [] at h
  split_ifs at h with hs
  · exact absurd h settle_error
  · rcases Tx.run_bind_error.mp h with h | ⟨output, r₁, _, h⟩
    · obtain ⟨tx, hx, rfl⟩ := onStore_run h
      rw [executeDestructive_unchanged
        (fun id hid => hstuck id resource (hid ▸ hinput) (not_not.mp hs)) hx]
    · exact absurd h settle_error

theorem replay_cases {id : ℕ} (hid : ∀ request, r.tables.requests id = some request → request.id = id)
    (hstuck : ∀ request payload propertyId resource, r.tables.requests id = some request →
      request.payload = .genericOperation payload → request.status = .approved →
      request.executionStatus = .queued →
      revalidate host request payload r = .ok (.propertyDelete propertyId, resource) →
      resource.snapshot host = request.resourceSnapshot → ¬ OwnSideStuck r.tx.store propertyId)
    (h : (replayApprovedGenericOperation host env now id).run r = (.ok result, r')) :
    r' = r ∨ (r'.tx = r.tx ∧ Ended id .conflict r.tables r'.tables) ∨
    ∃ request payload input resource output, r.tables.requests id = some request ∧
      request.payload = .genericOperation payload ∧
      revalidate host request payload r = .ok (input, resource) ∧
      (mutation env payload input resource).run r.tx = (.ok output, r'.tx) ∧
      Ended id .succeeded r.tables r'.tables := by
  unfold replayApprovedGenericOperation at h
  rw [Tx.run_gets_bind] at h
  rcases hr : r.tables.requests id with _ | request
  · rw [hr] at h
    cases h
  rw [hr] at h
  rcases hp : request.payload with _ | payload
  · simp only [hp] at h
    cases h
  simp only [hp, replayLocked] at h
  obtain rfl := hid request hr
  split_ifs at h with hended hqueued
  · cases h
    exact .inl rfl
  · cases h
  · obtain ⟨happroved, hqueued⟩ : request.status = .approved ∧ request.executionStatus = .queued := by
      simpa [not_or] using hqueued
    have hstuck := fun propertyId resource =>
      hstuck request payload propertyId resource hr hp happroved hqueued
    unfold Tx.catchError Tx.run at h
    rcases hm : (replayMutation host env now request payload).run r with ⟨e | a, r₁⟩
    · simp only [Tx.run] at hm
      simp only [hm] at h
      cases e with
      | internal message => cases h
      | chokePoint e =>
        obtain rfl := replayMutation_error hstuck hm
        obtain ⟨row, hu, htx⟩ := settle_ok h
        exact .inr (.inl ⟨htx, ended_conflict hu⟩)
    · have hm' := hm
      simp only [Tx.run] at hm
      simp only [hm] at h
      cases h
      rcases replayMutation_ok hm' with h | ⟨input, resource, output, hv, hx, he⟩
      · exact .inr (.inl h)
      · exact .inr (.inr ⟨request, payload, input, resource, output, rfl, hp, hv, hx, he⟩)

end replay

/-! ## Runs -/

structure WellFormed (t : Tables) : Prop where
  pending : ∀ id request, t.requests id = some request → request.status = .pending →
    request.executionStatus = .notApproved
  ids : ∀ id request, t.requests id = some request → request.id = id

/-- The invariant of a run. -/
structure Inv (host : Host) (s : Sys) : Prop where
  exactlyOnce : s.ExactlyOnce host
  settled : ∀ replay ∈ s.replays, replay.ends .succeeded →
    executionStatus s.committed.tables replay.id = some .succeeded
  tables : WellFormed s.committed.tables

section run

variable {host : Host} {s s' : Sys} {t t' : Tables} {id j : ℕ}

theorem inv_init (host : Host) (store : Store) : Inv host (.init store) where
  exactlyOnce := {
    once := fun _ => Nat.zero_le _
    succeeded := fun _ h => by cases h
    whole := fun _ h => absurd h List.not_mem_nil
    others := fun _ h => absurd h List.not_mem_nil
    status := fun _ h => absurd h List.not_mem_nil }
  settled := fun _ h => absurd h List.not_mem_nil
  tables := ⟨fun _ _ h _ => (nomatch h), fun _ _ h => (nomatch h)⟩

theorem Inv.keep (hi : Inv host s) (hreplays : s'.replays = s.replays)
    (hstatus : ∀ id, executionStatus s'.committed.tables id = some .succeeded ↔
      executionStatus s.committed.tables id = some .succeeded)
    (ht : WellFormed s'.committed.tables) : Inv host s' where
  exactlyOnce := {
    once := hreplays ▸ hi.exactlyOnce.once
    succeeded := fun id h => hreplays ▸ hi.exactlyOnce.succeeded id ((hstatus id).mp h)
    whole := hreplays ▸ hi.exactlyOnce.whole
    others := hreplays ▸ hi.exactlyOnce.others
    status := hreplays ▸ hi.exactlyOnce.status }
  settled := fun replay hr he => (hstatus _).mpr (hi.settled replay (hreplays ▸ hr) he)
  tables := ht

theorem executionStatus_update (request : ApprovalRequest) (agentRuns : ℕ → Option AgentRun) :
    executionStatus ⟨Function.update t.requests id (some request), agentRuns⟩ j =
      if j = id then some request.executionStatus else executionStatus t j := by
  simp only [executionStatus, Function.update_apply]
  split_ifs <;> rfl

theorem WellFormed.update (ht : WellFormed t) (request : ApprovalRequest)
    (hpending : request.status = .pending → request.executionStatus = .notApproved)
    (hid : request.id = id) (agentRuns : ℕ → Option AgentRun) :
    WellFormed ⟨Function.update t.requests id (some request), agentRuns⟩ := by
  refine ⟨fun j request' h => ?_, fun j request' h => ?_⟩ <;> simp only [Function.update_apply] at h <;>
    split_ifs at h with hj
  · obtain rfl := Option.some.inj h
    exact hpending
  · exact ht.pending j request' h
  · obtain rfl := Option.some.inj h
    rw [hid, hj]
  · exact ht.ids j request' h

theorem Inv.createRequest (hi : Inv host s) {input : CreatePendingApprovalRequestInput} {now : ℤ}
    (h : createPendingApprovalRequest s.committed.tables input id now = some t) :
    Inv host { s with committed := { s.committed with tables := t } } := by
  unfold createPendingApprovalRequest at h
  split_ifs at h with hc
  obtain rfl := Option.some.inj h
  refine hi.keep rfl (fun j => ?_) (hi.tables.update (pendingRequest input id now) (fun _ => rfl) rfl _)
  rw [executionStatus_update]
  split_ifs with hj
  · subst hj
    simp [executionStatus, hc.2, pendingRequest]
  · rfl

theorem Inv.decide (hi : Inv host s) {decision : ApprovalRequestDecision} {user : ℕ} {now : ℤ}
    {queue queue' : List ℕ} {result : Option DecideAndEnqueueResult}
    (h : decideAndEnqueueApprovalRequest s.committed.tables queue id decision user now =
      (t, queue', result)) :
    Inv host { s with committed := { s.committed with tables := t }, queue := queue' } := by
  unfold decideAndEnqueueApprovalRequest at h
  rcases hd : decideApprovalRequest s.committed.tables id decision user now with ⟨t₁, _ | row⟩
  · simp only [hd, Prod.mk.injEq] at h
    obtain ⟨rfl, _⟩ := h
    obtain rfl := updateWhere_none hd
    exact hi.keep rfl (fun _ => Iff.rfl) hi.tables
  · simp only [hd, Prod.mk.injEq] at h
    obtain ⟨rfl, _⟩ := h
    obtain ⟨request, hr, hg, rfl⟩ := updateWhere_some hd
    have hexecution := hi.tables.pending id request hr (of_decide_eq_true hg).1
    refine hi.keep rfl (fun j => ?_) (hi.tables.update _ (fun hp => ?_) ?_ _)
    · rw [executionStatus_update]
      by_cases hj : j = id
      · subst hj
        cases decision <;> simp [executionStatus, hr, hexecution]
      · rw [if_neg hj]
    · cases decision <;> cases hp
    · exact hi.tables.ids id request hr

theorem Ended.executionStatus_ne {status : ApprovalRequestExecutionStatus}
    (h : Ended id status t t') (hj : j ≠ id) : executionStatus t' j = executionStatus t j := by
  unfold executionStatus
  rw [h.only.2.1 j hj]

theorem WellFormed.ended {status : ApprovalRequestExecutionStatus} (ht : WellFormed t)
    (h : Ended id status t t') : WellFormed t' := by
  have hid : ∀ request, t.requests id = some request → request.executionStatus = .queued :=
    fun request hr => by simpa [executionStatus, hr] using h.queued
  rcases hr : t.requests id with _ | request
  · have hq := h.queued
    rw [executionStatus, hr] at hq
    cases hq
  obtain ⟨_, _, _, _, hset⟩ := h.only.2.2 request hr
  refine ⟨fun j request' hj hp => ?_, fun j request' hj => ?_⟩
  · by_cases hne : j = id
    · subst hne
      obtain rfl := Option.some.inj (hset.symm.trans hj)
      have hq := (ht.pending j request hr hp).symm.trans (hid request hr)
      cases hq
    · exact ht.pending j request' ((h.only.2.1 j hne).symm.trans hj) hp
  · by_cases hne : j = id
    · subst hne
      obtain rfl := Option.some.inj (hset.symm.trans hj)
      exact ht.ids j request hr
    · exact ht.ids j request' ((h.only.2.1 j hne).symm.trans hj)

theorem Inv.unchanged (hi : Inv host s) (replay : Replay) (hends : ¬ replay.ends .succeeded)
    (hstore : replay.after.store = replay.before.store ∧ replay.after.jobs = replay.before.jobs)
    (honly : OnlyStatus replay.id replay.before.tables replay.after.tables)
    (hstatus : ∀ id, executionStatus replay.after.tables id = some .succeeded ↔
      executionStatus s.committed.tables id = some .succeeded)
    (ht : WellFormed replay.after.tables) :
    Inv host { s with committed := replay.after, replays := s.replays ++ [replay] } where
  exactlyOnce := {
    once := fun id => by
      rw [List.filter_append, List.filter_cons_of_neg (by simp [hends]), List.filter_nil,
        List.append_nil]
      exact hi.exactlyOnce.once id
    succeeded := fun id h => by
      obtain ⟨old, ho, hold⟩ := hi.exactlyOnce.succeeded id ((hstatus id).mp h)
      exact ⟨old, List.mem_append_left _ ho, hold⟩
    whole := List.forall_mem_append.mpr
      ⟨hi.exactlyOnce.whole, List.forall_mem_singleton.mpr fun h => absurd h hends⟩
    others := List.forall_mem_append.mpr
      ⟨hi.exactlyOnce.others, List.forall_mem_singleton.mpr fun _ => hstore⟩
    status := List.forall_mem_append.mpr
      ⟨hi.exactlyOnce.status, List.forall_mem_singleton.mpr honly⟩ }
  settled := List.forall_mem_append.mpr
    ⟨fun old ho hold => (hstatus _).mpr (hi.settled old ho hold),
      List.forall_mem_singleton.mpr fun h => absurd h hends⟩
  tables := ht

theorem Inv.success (hi : Inv host s) (replay : Replay) (hbefore : replay.before = s.committed)
    (hended : Ended replay.id .succeeded replay.before.tables replay.after.tables)
    (hwhole : replay.Whole host) :
    Inv host { s with committed := replay.after, replays := s.replays ++ [replay] } := by
  have hends : replay.ends .succeeded = true := by
    simpa [Replay.ends] using ⟨hended.queued, hended.ended⟩
  have hnone : ∀ old ∈ s.replays, old.ends .succeeded = true → old.id ≠ replay.id := by
    intro old ho hold hid
    have hs := hi.settled old ho hold
    rw [hid, ← hbefore, hended.queued] at hs
    cases hs
  have hstatus : ∀ id, id ≠ replay.id → executionStatus replay.after.tables id =
      executionStatus s.committed.tables id := fun id hne => by
    rw [hended.executionStatus_ne hne, hbefore]
  refine ⟨⟨fun id => ?_, fun id h => ?_, ?_, ?_, ?_⟩, fun old ho hold => ?_, ?_⟩
  · rw [List.filter_append, List.length_append]
    by_cases hid : replay.id = id
    · have hfilter : s.replays.filter (fun old => old.id = id ∧ old.ends .succeeded) = [] := by
        refine List.filter_eq_nil_iff.mpr fun old ho hc => ?_
        simp only [decide_eq_true_eq] at hc
        exact hnone old ho hc.2 (hc.1.trans hid.symm)
      rw [hfilter, List.length_nil, Nat.zero_add]
      exact List.length_filter_le _ _
    · rw [List.filter_cons_of_neg (by simp [hid]), List.filter_nil, List.length_nil, Nat.add_zero]
      exact hi.exactlyOnce.once id
  · by_cases hid : id = replay.id
    · exact ⟨replay, List.mem_append_right _ (List.mem_singleton_self _), hid.symm, hends⟩
    · rw [hstatus id hid] at h
      obtain ⟨old, ho, hold⟩ := hi.exactlyOnce.succeeded id h
      exact ⟨old, List.mem_append_left _ ho, hold⟩
  · exact List.forall_mem_append.mpr
      ⟨hi.exactlyOnce.whole, List.forall_mem_singleton.mpr fun _ => hwhole⟩
  · exact List.forall_mem_append.mpr
      ⟨hi.exactlyOnce.others, List.forall_mem_singleton.mpr fun h => absurd hends h⟩
  · exact List.forall_mem_append.mpr
      ⟨hi.exactlyOnce.status, List.forall_mem_singleton.mpr hended.only⟩
  · rcases List.mem_append.mp ho with ho | ho
    · rw [hstatus _ (hnone old ho hold)]
      exact hi.settled old ho hold
    · obtain rfl := List.mem_singleton.mp ho
      exact hended.ended
  · exact (hbefore ▸ hi.tables : WellFormed replay.before.tables).ended hended

variable {env : Env} {now : ℤ} {result : ReplayResult} {r : ReplayState}

theorem revalidate_ok {request : ApprovalRequest} {payload : GenericOperationApprovalRequestPayload}
    {input : DestructiveInput} {resource : Resource}
    (h : revalidate host request payload r = .ok (input, resource)) :
    parseOperation host payload = .ok input ∧ computeDestructiveResourceProjection host r.tx.store
      (dataActor payload.actor) input = .ok resource := by
  obtain ⟨input, hparse, h⟩ := except_bind_ok.mp h
  obtain ⟨_, _, h⟩ := except_bind_ok.mp h
  obtain ⟨resource, hproject, h⟩ := except_bind_ok.mp h
  cases h
  exact ⟨hparse, hproject⟩

theorem Inv.deliver (hi : Inv host s) (hok : NotStuck host s (.deliver id env now))
    (h : (replayApprovedGenericOperation host env now id).transaction
      ⟨⟨s.committed.store, []⟩, s.committed.tables⟩ = (.ok result, r)) :
    Inv host { s with
      committed := ⟨r.tx.store, s.committed.jobs ++ r.tx.jobs, r.tables⟩
      replays := s.replays ++ [⟨id, env, s.committed,
        ⟨r.tx.store, s.committed.jobs ++ r.tx.jobs, r.tables⟩⟩] } := by
  simp only [NotStuck] at hok
  have ht := hi.tables
  rcases replay_cases (ht.ids id) hok (Tx.transaction_ok.mp h) with rfl | ⟨htx, hended⟩ |
    ⟨request, payload, input, resource, output, hr, hp, hv, hx, hended⟩
  · refine hi.unchanged ⟨id, env, s.committed, ⟨s.committed.store, _, s.committed.tables⟩⟩
      (fun hends => ?_) ⟨rfl, List.append_nil _⟩ (.refl _ _) (fun _ => Iff.rfl) ht
    -- a request that was queued and is unchanged has not succeeded
    obtain ⟨hq, hs⟩ := of_decide_eq_true hends
    cases hq.symm.trans hs
  · refine hi.unchanged ⟨id, env, s.committed, ⟨r.tx.store, _, r.tables⟩⟩ (fun hends => ?_) ?_
      hended.only (fun j => ?_) (ht.ended hended)
    · obtain ⟨_, hs⟩ := of_decide_eq_true hends
      cases hended.ended.symm.trans hs
    · simp only [htx, List.append_nil, and_self]
    · by_cases hj : j = id
      · subst hj
        have hq := hended.queued
        simp only [hq, hended.ended, Option.some.injEq, reduceCtorEq]
      · simp only [hended.executionStatus_ne hj]
  · obtain ⟨hparse, hproject⟩ := revalidate_ok hv
    exact hi.success ⟨id, env, s.committed, ⟨r.tx.store, _, r.tables⟩⟩ rfl hended
      ⟨request, payload, input, resource, output, r.tx.jobs, hr, hp, hparse, hproject, hx, rfl⟩

variable {pg : Postgres} {computedKeys : List String}

theorem inv_step {a : Act} (hi : Inv host s) (hok : NotStuck host s a)
    (h : step host pg computedKeys s a = some s') : Inv host s' := by
  cases a with
  | operate env op =>
    obtain ⟨⟨store, jobs⟩, _, rfl⟩ := Option.map_eq_some_iff.mp h
    exact hi.keep rfl (fun _ => Iff.rfl) hi.tables
  | setAgentRun id run =>
    cases h
    exact hi.keep rfl (fun _ => Iff.rfl) ⟨hi.tables.pending, hi.tables.ids⟩
  | createRequest id input now =>
    obtain ⟨t, ht, rfl⟩ := Option.map_eq_some_iff.mp h
    exact hi.createRequest ht
  | decide id decision user now =>
    cases h
    exact hi.decide rfl
  | deliver id env now =>
    simp only [step] at h
    split_ifs at h
    split at h
    · next result r hr =>
      cases h
      exact hi.deliver hok hr
    · cases h
      exact hi

/-- Where no property is stuck, replays are exactly once. -/
theorem exactlyOnce_of_notStuck (host : Host) (pg : Postgres) (computedKeys : List String) (store : Store)
    (s : Sys) (hs : Reach (step host pg computedKeys) (NotStuck host) (.init store) s) :
    s.ExactlyOnce host :=
  (hs.invariant (inv_init host store) fun _ _ _ hi hok h => inv_step hi hok h).exactlyOnce

end run

/-! ## A pair of relation properties -/

def optionJson {α : Type} (f : α → Json) : Option α → Json
  | none => .null
  | some a => f a

def relationPropertyJson (row : PropertyRow) (databaseSchemaLocked : Bool)
    (databaseArchivedAt : Option ℤ) : Json :=
  .obj [("id", idJson row.id), ("databaseId", idJson row.databaseId), ("key", .str row.key),
    ("name", optionJson .str row.name), ("type", .str row.type.name),
    ("config", .obj [("relationDefinitionId", optionJson idJson row.config.relationDefinitionId),
      ("targetDatabaseId", optionJson idJson row.config.targetDatabaseId)]),
    ("locked", .bool row.locked), ("owner", .str "user"), ("ownerProcess", .null),
    ("migrationStatus", .str "stable"), ("databaseSchemaLocked", .bool databaseSchemaLocked),
    ("databaseArchivedAt", optionJson (fun t => .num ⟨t, 0⟩) databaseArchivedAt)]

def relationPropertyHost : Host where
  parseInput
    | .propertyDelete, .obj [("propertyId", .str text)] =>
      .ok (.propertyDelete ((List.range 10).findIdx fun id => toString id = text))
    | _, _ => .error (.validationError "Invalid input" none)
  json
    | .property row locked archivedAt => relationPropertyJson row locked archivedAt
    | _ => .null
  sha256 _ := "5d9c68c6c50ed3d02a2fcf54f63993b6"
  resultJson
    | .property row => relationPropertyJson row false none
    | _ => .null

def deletePayload : GenericOperationApprovalRequestPayload where
  operationName := "property.delete"
  canonicalInput := .obj [("propertyId", .str "2")]
  actor := ⟨0, 9, 1⟩
  resourceSnapshot := ⟨"property_delete", 2, some "5d9c68c6c50ed3d02a2fcf54f63993b6"⟩

def userSide (key : String) (locked : Bool) : RelationPropertySideInput :=
  ⟨key, some key, .user, none, locked⟩

def approvedDelete (locked : Bool) : List Act :=
  [.operate (Trash.envAt 0)
      (.createDatabase ⟨some "Tasks", none, none, none, none, false, false⟩),
    .operate (Trash.envAt 0)
      (.createDatabase ⟨some "Projects", none, none, none, none, false, false⟩),
    .operate (Trash.envAt 0) (.createRelationProperty
      ⟨0, userSide "project" locked, 1, .many_to_many, some (userSide "tasks" false)⟩ none),
    .setAgentRun 0 ⟨some 9, 1⟩,
    .createRequest 0 ⟨0, "property.delete", "destructive", .genericOperation deletePayload,
      deletePayload.resourceSnapshot⟩ 0,
    .decide 0 .approved 1 1]

/-- Nothing but a delivery is restricted. -/
theorem reach_of_runActs {host : Host} {pg : Postgres} {computedKeys : List String} {s₀ s : Sys}
    {acts : List Act} (hacts : ∀ a ∈ acts, ∀ s, NotStuck host s a)
    (h : runActs (step host pg computedKeys) s₀ acts = some s) :
    Reach (step host pg computedKeys) (NotStuck host) s₀ s := by
  induction acts generalizing s₀ with
  | nil =>
    cases h
    exact .refl
  | cons a acts ih =>
    obtain ⟨s₁, hs, h⟩ := Option.bind_eq_some_iff.mp h
    exact .head (hacts a List.mem_cons_self s₀) hs
      (ih (fun b hb => hacts b (List.mem_cons_of_mem _ hb)) h)

/-- The unlocked source side can be deleted after its pair. -/
theorem notStuck_of_deletable {s : Sys} {env : Env} {now : ℤ}
    (hrequest : (s.committed.tables.requests 0).map (fun request => request.payload) =
      some (.genericOperation deletePayload))
    (hdeletable : Deletable s.committed.store 2)
    (hpair : (s.committed.store.getRelationDefinitionByPropertyId 2).map
      (fun reldef => Schema.otherPropertyId reldef 2) = some (some 3)) :
    NotStuck relationPropertyHost s (.deliver 0 env now) := by
  intro request payload propertyId resource hr hp _ _ hv _ hstuck
  obtain ⟨_, reldef, other, _, _, hd, ho, _, hown⟩ := hstuck
  rw [hr, Option.map_some, Option.some.injEq, hp] at hrequest
  cases hrequest
  -- the payload names the property 2
  have hparse : parseOperation relationPropertyHost deletePayload = .ok (.propertyDelete 2) := rfl
  cases hparse.symm.trans (revalidate_ok hv).1
  rw [hd, Option.map_some, ho, Option.some.injEq, Option.some.injEq] at hpair
  rcases hown with hown | hown
  · omega
  · exact hown hdeletable

theorem notStuck_of_ended {host : Host} {s : Sys} {id : ℕ} {env : Env} {now : ℤ}
    (h : executionStatus s.committed.tables id ≠ some .queued) :
    NotStuck host s (.deliver id env now) := by
  intro request _ _ _ hr _ _ hq
  exact absurd (by rw [executionStatus, hr, Option.map_some, hq]) h

/-- The request succeeds at its first delivery; the second is a no-op. -/
theorem exactlyOnce_redelivered : ∃ s,
    Reach (step relationPropertyHost Trash.noCasts []) (NotStuck relationPropertyHost)
      (.init .empty) s ∧
    s.replays.map (fun replay => replay.ends .succeeded) = [true, false] ∧
    s.ExactlyOnce relationPropertyHost := by
  let step' := step relationPropertyHost Trash.noCasts []
  let first : Act := .deliver 0 (Trash.envAt 2) 2
  let second : Act := .deliver 0 (Trash.envAt 3) 3
  obtain ⟨s, hs⟩ := Option.isSome_iff_exists.mp
    (rfl : (runActs step' (.init .empty) (approvedDelete false)).isSome = true)
  have hreach : Reach step' (NotStuck relationPropertyHost) (.init .empty) s :=
    reach_of_runActs (fun a ha s => by
      simp only [approvedDelete, List.mem_cons, List.not_mem_nil, or_false] at ha
      rcases ha with rfl | rfl | rfl | rfl | rfl | rfl <;> trivial) hs
  have hfirst : NotStuck relationPropertyHost s first :=
    notStuck_of_deletable
      (eq_of_map_eq (f := fun s : Sys =>
        (s.committed.tables.requests 0).map fun request => request.payload) hs rfl)
      (except_bind_ok.mp (eq_of_map_eq (f := fun s : Sys =>
        s.committed.store.requireProperty 2 >>= fun property =>
          Schema.assertPropertySchemaMutable s.committed.store property) hs rfl))
      (eq_of_map_eq (f := fun s : Sys => (s.committed.store.getRelationDefinitionByPropertyId 2).map
        fun reldef => Schema.otherPropertyId reldef 2) hs rfl)
  obtain ⟨s₁, h₁⟩ := Option.isSome_iff_exists.mp
    (eq_of_map_eq (f := fun s => (step' s first).isSome) hs rfl)
  have hended : executionStatus s₁.committed.tables 0 = some .succeeded :=
    eq_of_map_eq (f := fun s : Sys => executionStatus s.committed.tables 0) h₁
      (eq_of_map_eq (f := fun s => (step' s first).map fun s : Sys =>
        executionStatus s.committed.tables 0) hs rfl)
  obtain ⟨s₂, h₂⟩ := Option.isSome_iff_exists.mp
    (eq_of_map_eq (f := fun s : Sys => (step' s second).isSome) h₁
      (eq_of_map_eq (f := fun s => (step' s first).map fun s => (step' s second).isSome) hs rfl))
  have hreplays : s₂.replays.map (fun replay => replay.ends .succeeded) = [true, false] := by
    have hmap := eq_of_map_eq (f := fun s => (step' s first).map fun s =>
      (step' s second).map fun s => s.replays.map fun replay => replay.ends .succeeded)
      (b := some (some [true, false])) hs rfl
    simp only [h₁, h₂, Option.map_some, Option.some.injEq] at hmap
    exact hmap
  have hreach₂ : Reach step' (NotStuck relationPropertyHost) (.init .empty) s₂ :=
    (hreach.tail hfirst h₁).tail (notStuck_of_ended (by rw [hended]; simp)) h₂
  exact ⟨s₂, hreach₂, hreplays, exactlyOnce_of_notStuck _ _ _ _ s₂ hreach₂⟩

/-- The pair of a locked property is deleted, and then the request ends in a conflict. -/
theorem lockedDelete_conflicts : ¬ ∀ (host : Host) (pg : Postgres) (computedKeys : List String)
    (store : Store) (s : Sys),
    Reach (step host pg computedKeys) (fun _ _ => True) (.init store) s →
      s.ExactlyOnce host := by
  intro hall
  obtain ⟨s, hs⟩ := Option.isSome_iff_exists.mp
    (rfl : (runActs (step relationPropertyHost Trash.noCasts []) (.init .empty)
      (approvedDelete true ++ [.deliver 0 (Trash.envAt 2) 2])).isSome = true)
  have hreplays : s.replays.map (fun replay => (replay.ends .succeeded,
      replay.before.store.properties.length, replay.after.store.properties.length)) =
      [(false, 2, 1)] :=
    eq_of_map_eq (f := fun s : Sys => s.replays.map fun replay => (replay.ends .succeeded,
      replay.before.store.properties.length, replay.after.store.properties.length)) hs rfl
  obtain ⟨replay, rest, hr, hfacts, _⟩ := List.map_eq_cons_iff.mp hreplays
  simp only [Prod.mk.injEq] at hfacts
  have hstore := ((hall _ _ _ _ s (.of_runActs hs)).others replay (by simp [hr])
    (by simp [hfacts.1])).1
  rw [hstore, hfacts.2.1] at hfacts
  exact absurd hfacts.2.2 (by decide)

end OperationReplay

end Semprec
