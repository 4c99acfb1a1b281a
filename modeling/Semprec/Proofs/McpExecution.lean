import Semprec.McpExecution

/-!
# Approved MCP calls run at most once

Every statement on `approval_requests` changes only rows that are still pending or queued, so a
settled row stays as it is (`Evolves`).  A claim is the only way to a tool call and stamps a row
that had no stamp, so at most one delivery ever holds a request (`Inv.unique`) and its tool is
called at most once, for an approval by the actor of its run (`mcpInvoke_exactly_once`).
-/

namespace Semprec

namespace McpExecution

open Approvals

def Terminal (r : ApprovalRequest) : Prop :=
  r.status = .rejected ∨ r.executionStatus = .succeeded ∨ r.executionStatus = .conflict ∨
    r.executionStatus = .legacyTerminal

section rows

variable {runs : ℕ → Option AgentRun} {id : ℕ} {r r' : ApprovalRequest} {t t' : Tables}

def ApprovedByActor (runs : ℕ → Option AgentRun) (r : ApprovalRequest) : Prop :=
  r.status = .approved ∧ ∃ run, runs r.agentRunId = some run ∧ r.decidedBy = some run.actorUserId

structure RowInv (runs : ℕ → Option AgentRun) (id : ℕ) (r : ApprovalRequest) : Prop where
  id_eq : r.id = id
  pending : r.status = .pending → r.executionStatus = .notApproved ∧ r.executedAt = none
  queued : r.executionStatus = .queued → ApprovedByActor runs r

structure Updated (r r' : ApprovalRequest) : Prop where
  id_eq : r'.id = r.id
  agentRunId : r'.agentRunId = r.agentRunId
  toolName : r'.toolName = r.toolName
  payload : r'.payload = r.payload
  decision : r.status ≠ .pending → r'.status = r.status ∧ r'.decidedBy = r.decidedBy
  executedAt : r.executedAt ≠ none → r'.executedAt ≠ none

theorem Updated.refl (r : ApprovalRequest) : Updated r r :=
  ⟨rfl, rfl, rfl, rfl, fun _ => ⟨rfl, rfl⟩, id⟩

/-- A conditional `UPDATE` that only touches requests which are not settled. -/
structure GoodUpdate (runs : ℕ → Option AgentRun) (guard : ApprovalRequest → Bool)
    (set : ApprovalRequest → ApprovalRequest) : Prop where
  live : ∀ id r, guard r = true → RowInv runs id r → ¬ Terminal r
  updated : ∀ r, guard r = true → Updated r (set r)
  inv : ∀ id r, guard r = true → RowInv runs id r → RowInv runs id (set r)

/-- How the rows change over a step. -/
structure Evolves (t t' : Tables) : Prop where
  agentRuns : ∀ id run, t.agentRuns id = some run → t'.agentRuns id = some run
  requests : ∀ id r, t.requests id = some r →
    ∃ r', t'.requests id = some r' ∧ Updated r r' ∧ (Terminal r → r' = r)

theorem Evolves.refl (t : Tables) : Evolves t t :=
  ⟨fun _ _ h => h, fun _ r h => ⟨r, h, .refl r, fun _ => rfl⟩⟩

def RowsInv (t : Tables) : Prop := ∀ id r, t.requests id = some r → RowInv t.agentRuns id r

theorem updateWhere_cases (t : Tables) (id : ℕ) (guard : ApprovalRequest → Bool)
    (set : ApprovalRequest → ApprovalRequest) :
    t.updateWhere id guard set = (t, none) ∨
      ∃ r, t.requests id = some r ∧ guard r = true ∧
        t.updateWhere id guard set =
          ({ t with requests := Function.update t.requests id (some (set r)) }, some (set r)) := by
  unfold Tables.updateWhere
  split
  · exact .inl rfl
  · rename_i r hr
    split_ifs with hg
    · exact .inr ⟨r, hr, hg, rfl⟩
    · exact .inl rfl

theorem GoodUpdate.tables {guard : ApprovalRequest → Bool}
    {set : ApprovalRequest → ApprovalRequest} (h : GoodUpdate t.agentRuns guard set)
    (hrows : RowsInv t) (id : ℕ) :
    RowsInv (t.updateWhere id guard set).1 ∧ Evolves t (t.updateWhere id guard set).1 := by
  rcases updateWhere_cases t id guard set with heq | ⟨r, hr, hg, heq⟩
  · rw [heq]
    exact ⟨hrows, .refl t⟩
  · rw [heq]
    refine ⟨fun q rq hq => ?_, fun _ _ h => h, fun q rq hq => ?_⟩
    · simp only [Function.update_apply] at hq
      split_ifs at hq with hqid
      · cases hq
        rw [hqid]
        exact h.inv id r hg (hrows id r hr)
      · exact hrows q rq hq
    · by_cases hqid : q = id
      · subst hqid
        rw [hr, Option.some.injEq] at hq
        subst hq
        exact ⟨set r, by simp, h.updated r hg, fun ht => absurd ht (h.live q r hg (hrows q r hr))⟩
      · exact ⟨rq, by simp [hqid, hq], .refl rq, fun _ => rfl⟩

theorem RowInv.not_terminal_of_queued (h : RowInv runs id r) (hq : r.executionStatus = .queued) :
    ¬ Terminal r := by
  rintro (hs | hs | hs | hs)
  · rw [(h.queued hq).1] at hs
    cases hs
  all_goals
    rw [hq] at hs
    cases hs

theorem RowInv.not_terminal_of_pending (h : RowInv runs id r) (hp : r.status = .pending) :
    ¬ Terminal r := by
  rintro (hs | hs | hs | hs)
  · rw [hp] at hs
    cases hs
  all_goals
    rw [(h.pending hp).1] at hs
    cases hs

theorem decide_good (decision : ApprovalRequestDecision) (decidedBy : ℕ) (now : ℤ) :
    GoodUpdate t.agentRuns (fun r => r.status = .pending ∧ t.actsFor r decidedBy) fun r =>
      { r with
        status := decision.toStatus
        decidedAt := some now
        decidedBy := some decidedBy
        executionStatus := if decision = .approved then .queued else r.executionStatus } where
  live id r hg h := h.not_terminal_of_pending (by simp_all)
  updated r hg := ⟨rfl, rfl, rfl, rfl, fun hp => absurd (by simp_all) hp, id⟩
  inv id r hg h := by
    simp only [Tables.actsFor, Option.any_eq_true, decide_eq_true_eq] at hg
    obtain ⟨hp, run, hrun, hactor⟩ := hg
    refine ⟨h.id_eq, fun hs => ?_, fun hq => ⟨?_, run, hrun, by rw [hactor]⟩⟩
    · cases decision <;> simp [ApprovalRequestDecision.toStatus] at hs
    · cases decision with
      | approved => rfl
      | rejected => simp [(h.pending hp).1] at hq

theorem good_of_queued {guard : ApprovalRequest → Bool} {set : ApprovalRequest → ApprovalRequest}
    (hguard : ∀ r, guard r = true → r.executionStatus = .queued)
    (hset : ∀ r, (set r).id = r.id ∧ (set r).agentRunId = r.agentRunId ∧
      (set r).toolName = r.toolName ∧ (set r).payload = r.payload ∧ (set r).status = r.status ∧
      (set r).decidedBy = r.decidedBy ∧ (r.executedAt ≠ none → (set r).executedAt ≠ none)) :
    GoodUpdate runs guard set where
  live id r hg h := h.not_terminal_of_queued (hguard r hg)
  updated r hg := by
    obtain ⟨h1, h2, h3, h4, h5, h6, h7⟩ := hset r
    exact ⟨h1, h2, h3, h4, fun _ => ⟨h5, h6⟩, h7⟩
  inv id r hg h := by
    obtain ⟨h1, h2, -, -, h5, h6, -⟩ := hset r
    have hq := h.queued (hguard r hg)
    refine ⟨h1.trans h.id_eq, fun hs => ?_, fun _ => ⟨h5.trans hq.1, ?_⟩⟩
    · rw [h5, hq.1] at hs
      cases hs
    · rw [h2, h6]
      exact hq.2

theorem claim_good (now : ℤ) :
    GoodUpdate runs
      (fun r => r.status = .approved ∧ r.executedAt = none ∧ r.executionStatus = .queued)
      fun r => { r with executedAt := some now } :=
  good_of_queued (by simp) (by simp)

theorem record_good (outcome : ApprovalRequestOutcome) (now : ℤ) :
    GoodUpdate runs (fun r => r.executionStatus = .queued) fun r =>
      { r with
        executionError := some outcome.error
        executionResult := some (.str outcome.result)
        executionStatus := if outcome.error then .conflict else .succeeded
        executedAt := some (r.executedAt.getD now) } :=
  good_of_queued (by simp) (by simp)

theorem settle_good (staleAfterMs : ℕ) (now : ℤ) :
    GoodUpdate runs
      (fun r => r.status = .approved ∧ r.executionStatus = .queued ∧
        r.executedAt.any fun at_ => at_ < now - staleAfterMs * 1000) fun r =>
      { r with
        executionStatus := .conflict
        executionError := some true
        executionResult := some (.str unknownOutcomeText) } :=
  good_of_queued (by simp +contextual) (by simp)

theorem terminalize_good (details : Json) (now : ℤ) :
    GoodUpdate runs (fun r => r.executionStatus = .queued) fun r =>
      { r with
        executionStatus := .conflict
        executionError := some true
        executionResult := some
          (.obj [("error", .obj [("code", .str "version_conflict"), ("details", details)])])
        executedAt := some now } :=
  good_of_queued (by simp) (by simp)

theorem mark_good (result : Json) (now : ℤ) :
    GoodUpdate runs (fun r => r.executionStatus = .queued) fun r =>
      { r with
        executionStatus := .succeeded
        executionError := some false
        executionResult := some (.obj [("result", result)])
        executedAt := some now } :=
  good_of_queued (by simp) (by simp)

theorem claim_evolves (hrows : RowsInv t) {now : ℤ} {o : Option ApprovalRequest}
    (h : claimApprovalRequestExecution t id now = (t', o)) : RowsInv t' ∧ Evolves t t' := by
  have hgood : RowsInv (claimApprovalRequestExecution t id now).1 ∧
      Evolves t (claimApprovalRequestExecution t id now).1 := (claim_good now).tables hrows id
  rwa [h] at hgood

theorem settle_evolves (hrows : RowsInv t) {staleAfterMs : ℕ} {now : ℤ}
    {o : Option ApprovalRequest}
    (h : settleStaleApprovalRequestClaim t id staleAfterMs now = (t', o)) :
    RowsInv t' ∧ Evolves t t' := by
  have hgood : RowsInv (settleStaleApprovalRequestClaim t id staleAfterMs now).1 ∧
      Evolves t (settleStaleApprovalRequestClaim t id staleAfterMs now).1 :=
    (settle_good staleAfterMs now).tables hrows id
  rwa [h] at hgood

end rows

section claims

variable {s s' : Sys} {t t' : Tables}

def Claimed (t : Tables) (id : ℕ) (toolName : String)
    (payload : McpInvokeApprovalRequestPayload) : Prop :=
  ∃ r, t.requests id = some r ∧ r.executedAt ≠ none ∧ ApprovedByActor t.agentRuns r ∧
    r.payload = .mcpInvoke payload ∧ r.toolName = toolName

/-- The claim a delivery holds that has not called its tool yet. -/
def Delivery.claim : Delivery → Option (ApprovalRequest × McpInvokeApprovalRequestPayload)
  | .claimed r payload | .resolved r payload _ | .connecting r payload | .connected r payload =>
    some (r, payload)
  | _ => none

def calledIds (s : Sys) : List ℕ := s.calls.map (·.requestId)

structure Inv (s : Sys) : Prop where
  rows : RowsInv s.tables
  claims : ∀ d δ r payload, s.deliveries d = some δ → δ.claim = some (r, payload) →
    Claimed s.tables r.id r.toolName payload ∧ r.id ∉ calledIds s
  unique : ∀ d d' δ δ' r r' payload payload', s.deliveries d = some δ →
    s.deliveries d' = some δ' → δ.claim = some (r, payload) → δ'.claim = some (r', payload') →
    r.id = r'.id → d = d'
  calls : ∀ c ∈ s.calls, ∃ payload, Claimed s.tables c.requestId c.toolName payload ∧
    c.args = payload.args
  nodup : (calledIds s).Nodup

theorem Claimed.evolves {id : ℕ} {toolName : String} {payload : McpInvokeApprovalRequestPayload}
    (h : Claimed t id toolName payload) (he : Evolves t t') : Claimed t' id toolName payload := by
  obtain ⟨r, hr, hex, ⟨happ, run, hrun, hby⟩, hpay, htool⟩ := h
  obtain ⟨r', hr', hu, -⟩ := he.requests id r hr
  have hne : r.status ≠ .pending := by simp [happ]
  obtain ⟨hs, hd⟩ := hu.decision hne
  refine ⟨r', hr', hu.executedAt hex, ⟨hs.trans happ, run, ?_, hd.trans hby⟩,
    hu.payload.trans hpay, hu.toolName.trans htool⟩
  rw [hu.agentRunId]
  exact he.agentRuns _ _ hrun

/-- A step that calls nothing keeps the invariant when the claims it leaves were held before. -/
theorem Inv.move (h : Inv s) (hrows : RowsInv s'.tables) (he : Evolves s.tables s'.tables)
    (hcalls : s'.calls = s.calls)
    (hd : ∀ d δ c, s'.deliveries d = some δ → δ.claim = some c →
      ∃ δ', s.deliveries d = some δ' ∧ δ'.claim = some c) : Inv s' where
  rows := hrows
  claims d δ r payload hδ hc := by
    obtain ⟨δ', hδ', hc'⟩ := hd d δ _ hδ hc
    obtain ⟨hclaimed, hn⟩ := h.claims d δ' r payload hδ' hc'
    rw [calledIds, hcalls]
    exact ⟨hclaimed.evolves he, hn⟩
  unique d d' δ₁ δ₂ r r' payload payload' h₁ h₂ hc₁ hc₂ hid := by
    obtain ⟨ε₁, hε₁, he₁⟩ := hd d δ₁ _ h₁ hc₁
    obtain ⟨ε₂, hε₂, he₂⟩ := hd d' δ₂ _ h₂ hc₂
    exact h.unique d d' ε₁ ε₂ r r' payload payload' hε₁ hε₂ he₁ he₂ hid
  calls c hc := by
    obtain ⟨payload, hclaimed, hargs⟩ := h.calls c (hcalls ▸ hc)
    exact ⟨payload, hclaimed.evolves he, hargs⟩
  nodup := by
    rw [calledIds, hcalls]
    exact h.nodup

theorem set_claims {d : ℕ} {δ δ' : Delivery} (hδ : s.deliveries d = some δ)
    (hc : ∀ c, δ'.claim = some c → δ.claim = some c) {q : ℕ} {ε : Delivery}
    {c : ApprovalRequest × McpInvokeApprovalRequestPayload}
    (hq : Function.update s.deliveries d (some δ') q = some ε) (hε : ε.claim = some c) :
    ∃ ε', s.deliveries q = some ε' ∧ ε'.claim = some c := by
  rw [Function.update_apply] at hq
  split_ifs at hq with hqd
  · cases hq
    exact ⟨δ, hqd ▸ hδ, hc c hε⟩
  · exact ⟨ε, hq, hε⟩

theorem Inv.set (h : Inv s) {d : ℕ} {δ δ' : Delivery} (hδ : s.deliveries d = some δ)
    (hc : ∀ c, δ'.claim = some c → δ.claim = some c) : Inv (s.set d δ') :=
  h.move h.rows (.refl _) rfl fun _ _ _ hq hε => set_claims hδ hc hq hε

theorem Inv.set_tables (h : Inv s) {d : ℕ} {δ δ' : Delivery} (hδ : s.deliveries d = some δ)
    (hc : δ'.claim = none) {id : ℕ} {guard : ApprovalRequest → Bool}
    {set : ApprovalRequest → ApprovalRequest} (hg : GoodUpdate s.tables.agentRuns guard set) :
    Inv ({ s with tables := (s.tables.updateWhere id guard set).1 }.set d δ') := by
  obtain ⟨hrows, he⟩ := hg.tables h.rows id
  refine h.move hrows he rfl fun _ _ _ hq hε => set_claims hδ (fun c hc' => ?_) hq hε
  rw [hc] at hc'
  cases hc'

/-- A claim is only granted on a row that nobody has claimed or called. -/
theorem Inv.claim (h : Inv s) {d id : ℕ} {claimed : ApprovalRequest} {now : ℤ} {t : Tables}
    {payload : McpInvokeApprovalRequestPayload}
    (hc : claimApprovalRequestExecution s.tables id now = (t, some claimed))
    (hpay : claimed.payload = .mcpInvoke payload) :
    Inv ({ s with tables := t }.set d (.claimed claimed payload)) := by
  unfold claimApprovalRequestExecution at hc
  obtain ⟨hrows, he⟩ := (claim_good now).tables h.rows id
  rcases updateWhere_cases s.tables id
    (fun r => r.status = .approved ∧ r.executedAt = none ∧ r.executionStatus = .queued)
    (fun r => { r with executedAt := some now }) with heq | ⟨r₀, hr₀, hg, heq⟩
  · rw [heq] at hc
    cases hc
  · rw [heq] at hc hrows he
    cases hc
    simp only [decide_eq_true_eq] at hg
    obtain ⟨-, hfree, hq⟩ := hg
    have hinv := h.rows id r₀ hr₀
    have hfresh : ∀ toolName payload, ¬ Claimed s.tables id toolName payload := by
      rintro toolName payload ⟨r', hr', hex, -⟩
      rw [hr₀, Option.some.injEq] at hr'
      exact hex (hr' ▸ hfree)
    have hnone : ∀ q δ r' payload', s.deliveries q = some δ → δ.claim = some (r', payload') →
        r'.id ≠ id := by
      rintro q δ r' payload' hq hcl rfl
      exact hfresh _ _ (h.claims q δ r' payload' hq hcl).1
    refine ⟨hrows, fun q δ r' payload' hq hcl => ?_, fun q q' δ δ' r' r'' p' p'' h₁ h₂ c₁ c₂ hid => ?_,
      fun c hc => ?_, h.nodup⟩
    · simp only [Sys.set, Function.update_apply] at hq
      split_ifs at hq
      · cases hq
        cases hcl
        refine ⟨⟨{ r₀ with executedAt := some now }, ?_, by simp, hinv.queued ‹_›, hpay, rfl⟩, ?_⟩
        · simp [Sys.set, hinv.id_eq]
        · intro hmem
          obtain ⟨c, hc, hcid⟩ := List.mem_map.mp hmem
          obtain ⟨payload', hclaimed, -⟩ := h.calls c hc
          exact hfresh _ _ (hinv.id_eq ▸ hcid ▸ hclaimed)
      · obtain ⟨hclaimed, hn⟩ := h.claims q δ r' payload' hq hcl
        exact ⟨hclaimed.evolves he, hn⟩
    · simp only [Sys.set, Function.update_apply] at h₁ h₂
      split_ifs at h₁ h₂ with hqd hqd' hqd'
      · rw [hqd, hqd']
      · cases h₁
        cases c₁
        exact absurd (hid.symm.trans hinv.id_eq) (hnone q' δ' r'' p'' h₂ c₂)
      · cases h₂
        cases c₂
        exact absurd (hid.trans hinv.id_eq) (hnone q δ r' p' h₁ c₁)
      · exact h.unique q q' δ δ' r' r'' p' p'' h₁ h₂ c₁ c₂ hid
    · obtain ⟨payload', hclaimed, hargs⟩ := h.calls c hc
      exact ⟨payload', hclaimed.evolves he, hargs⟩

theorem Inv.call (h : Inv s) {d : ℕ} {r : ApprovalRequest}
    {payload : McpInvokeApprovalRequestPayload}
    (hδ : s.deliveries d = some (.connected r payload)) {c : ToolCall}
    (hcall : c = ⟨r.id, r.toolName, payload.args⟩) :
    Inv ({ s with calls := s.calls ++ [c] }.set d (.calling r)) := by
  subst hcall
  obtain ⟨hclaimed, hn⟩ := h.claims d _ r payload hδ rfl
  have hother : ∀ q δ r' payload', Function.update s.deliveries d (some (.calling r)) q = some δ →
      δ.claim = some (r', payload') → q ≠ d ∧ s.deliveries q = some δ := by
    intro q δ r' payload' hq hc
    rw [Function.update_apply] at hq
    split_ifs at hq with hqd
    · cases hq
      cases hc
    · exact ⟨hqd, hq⟩
  refine ⟨h.rows, fun q δ r' payload' hq hc => ?_, fun q q' δ δ' r' r'' p' p'' h₁ h₂ c₁ c₂ hid => ?_,
    fun c hc => ?_, ?_⟩
  · obtain ⟨hqd, hq⟩ := hother q δ r' payload' hq hc
    obtain ⟨hcl, hn'⟩ := h.claims q δ r' payload' hq hc
    refine ⟨hcl, ?_⟩
    simp only [calledIds, Sys.set, List.map_append, List.map_cons, List.map_nil, List.mem_append,
      List.mem_singleton, not_or]
    exact ⟨hn', fun he => hqd (h.unique q d δ _ r' r payload' payload hq hδ hc rfl he)⟩
  · obtain ⟨-, h₁⟩ := hother q δ r' p' h₁ c₁
    obtain ⟨-, h₂⟩ := hother q' δ' r'' p'' h₂ c₂
    exact h.unique q q' δ δ' r' r'' p' p'' h₁ h₂ c₁ c₂ hid
  · rcases List.mem_append.mp hc with hc | hc
    · exact h.calls c hc
    · obtain rfl := List.mem_singleton.mp hc
      exact ⟨payload, hclaimed, rfl⟩
  · simp only [calledIds, Sys.set, List.map_append, List.map_cons, List.map_nil]
    exact List.nodup_append.mpr ⟨h.nodup, by simp, by
      rintro a ha b hb rfl
      exact hn (List.mem_singleton.mp hb ▸ ha)⟩

theorem Inv.replayGeneric (h : Inv s) (replay : Sys → ApprovalRequest → ReplayResult) {d : ℕ}
    {δ : Delivery} (hδ : s.deliveries d = some δ) (id : ℕ) (now : ℤ) :
    Inv (s.replayGeneric replay d id now) ∧
      Evolves s.tables (s.replayGeneric replay d id now).tables := by
  unfold Sys.replayGeneric
  split
  · exact ⟨h.set hδ (by simp [Delivery.claim]), .refl _⟩
  · split
    · exact ⟨h.set hδ (by simp [Delivery.claim]), .refl _⟩
    · exact ⟨h.set hδ (by simp [Delivery.claim]), .refl _⟩
    · exact ⟨h.set hδ (by simp [Delivery.claim]), .refl _⟩
    · exact ⟨h.set hδ (by simp [Delivery.claim]), .refl _⟩
    · split
      · exact ⟨h.set hδ (by simp [Delivery.claim]), .refl _⟩
      · rename_i details _
        exact ⟨h.set_tables hδ rfl (terminalize_good details now),
          ((terminalize_good details now).tables h.rows id).2⟩
      · rename_i result _
        exact ⟨h.set_tables hδ rfl (mark_good result now),
          ((mark_good result now).tables h.rows id).2⟩
    · exact ⟨h.set hδ (by simp [Delivery.claim]), .refl _⟩

/-- What one step does to what is already there: settled rows stay, and a tool is only called for
a claimed request. -/
structure Progress (s s' : Sys) : Prop where
  evolves : Evolves s.tables s'.tables
  calls : s'.calls = s.calls ∨ ∃ c payload, s'.calls = s.calls ++ [c] ∧
    Claimed s.tables c.requestId c.toolName payload ∧ c.args = payload.args

theorem Inv.exec (h : Inv s) (replay : Option (Sys → ApprovalRequest → ReplayResult)) {d : ℕ}
    {δ : Delivery} (hδ : s.deliveries d = some δ) {now : ℤ}
    (hs : s.exec replay d now δ = some s') : Inv s' ∧ Progress s s' := by
  have hquiet : ∀ δ', (∀ c, δ'.claim = some c → δ.claim = some c) →
      Inv (s.set d δ') ∧ Progress s (s.set d δ') := fun δ' hc =>
    ⟨h.set hδ hc, .refl _, .inl rfl⟩
  cases δ with
  | started id =>
    simp only [Sys.exec] at hs
    split at hs
    · cases hs
      exact hquiet _ (by simp [Delivery.claim])
    · rename_i r hr
      cases hs
      refine hquiet _ fun c hc => ?_
      cases hp : r.payload <;> simp [hp, Delivery.claim] at hc
  | replaying r =>
    simp only [Sys.exec] at hs
    split at hs
    · cases hs
      obtain ⟨hinv, he⟩ := h.replayGeneric ‹_› hδ r.id now
      refine ⟨hinv, he, .inl ?_⟩
      unfold Sys.replayGeneric
      split
      · rfl
      · split
        all_goals first | rfl | (split <;> rfl)
    · cases hs
      exact ⟨h.set_tables hδ rfl (record_good _ now),
        ((record_good _ now).tables h.rows r.id).2, .inl rfl⟩
  | claiming r =>
    simp only [Sys.exec] at hs
    split at hs
    · cases hs
      exact hquiet _ (by simp [Delivery.claim])
    · rename_i t claimed hc
      cases hs
      obtain ⟨hrows, he⟩ := claim_evolves h.rows hc
      rcases hp : claimed.payload with payload | payload
      · exact ⟨h.claim hc hp, he, .inl rfl⟩
      · refine ⟨h.move hrows he rfl fun _ _ _ hq hε => set_claims hδ ?_ hq hε, he, .inl rfl⟩
        simp [Delivery.claim]
  | settling id =>
    simp only [Sys.exec] at hs
    split at hs
    · cases hs
      exact hquiet _ (by simp [Delivery.claim])
    · rename_i t r hc
      cases hs
      obtain ⟨hrows, he⟩ := settle_evolves h.rows hc
      refine ⟨h.move hrows he rfl fun _ _ _ hq hε => set_claims hδ ?_ hq hε, he, .inl rfl⟩
      simp [Delivery.claim]
  | readingClaim id =>
    simp only [Sys.exec] at hs
    split at hs <;> cases hs <;> exact hquiet _ (by simp [Delivery.claim])
  | claimed r payload =>
    cases hs
    exact hquiet _ fun c hc => hc
  | resolved r payload target =>
    simp only [Sys.exec] at hs
    split_ifs at hs <;> cases hs
    · exact hquiet _ fun c hc => hc
    · exact hquiet _ (by simp [Delivery.claim])
  | connecting r payload => cases hs
  | connected r payload =>
    cases hs
    exact ⟨h.call hδ rfl, .refl _,
      .inr ⟨_, payload, rfl, (h.claims d _ r payload hδ rfl).1, rfl⟩⟩
  | calling r => cases hs
  | recording r outcome =>
    cases hs
    exact ⟨h.set_tables hδ rfl (record_good outcome now),
      ((record_good outcome now).tables h.rows r.id).2, .inl rfl⟩
  | done => cases hs
  | failed => cases hs

theorem Inv.step (h : Inv s) {replay : Option (Sys → ApprovalRequest → ReplayResult)} {a : Act}
    (hs : step replay s a = some s') : Inv s' ∧ Progress s s' := by
  cases a with
  | createAgentRun id run =>
    simp only [McpExecution.step] at hs
    split at hs
    · rename_i hfree
      cases hs
      have hruns : ∀ q rq, s.tables.agentRuns q = some rq →
          Function.update s.tables.agentRuns id (some run) q = some rq := by
        intro q rq hq
        have hne : q ≠ id := by
          rintro rfl
          rw [hfree] at hq
          cases hq
        simpa [hne] using hq
      have he : Evolves s.tables
          { s.tables with agentRuns := Function.update s.tables.agentRuns id (some run) } :=
        ⟨hruns, fun q r hr => ⟨r, hr, .refl r, fun _ => rfl⟩⟩
      refine ⟨h.move (fun q r hr => ?_) he rfl fun d δ c hd hc => ⟨δ, hd, hc⟩, he, .inl rfl⟩
      obtain ⟨hid, hp, hq⟩ := h.rows q r hr
      refine ⟨hid, hp, fun hqueued => ?_⟩
      obtain ⟨happ, run', hrun', hby⟩ := hq hqueued
      exact ⟨happ, run', hruns _ _ hrun', hby⟩
    · cases hs
  | createRequest id input now =>
    obtain ⟨t, ht, rfl⟩ := Option.map_eq_some_iff.mp hs
    unfold createPendingApprovalRequest at ht
    split_ifs at ht with hg
    cases ht
    have he : Evolves s.tables { s.tables with
        requests := Function.update s.tables.requests id (some (pendingRequest input id now)) } := by
      refine ⟨fun _ _ h => h, fun q r hr => ⟨r, ?_, .refl r, fun _ => rfl⟩⟩
      have hne : q ≠ id := by
        rintro rfl
        rw [hg.2] at hr
        cases hr
      simpa [hne] using hr
    refine ⟨h.move (fun q r hr => ?_) he rfl fun d δ c hd hc => ⟨δ, hd, hc⟩, he, .inl rfl⟩
    simp only [Function.update_apply] at hr
    split_ifs at hr with hq
    · cases hr
      exact ⟨hq.symm, fun _ => ⟨rfl, rfl⟩, fun hq => by cases hq⟩
    · exact h.rows q r hr
  | decide id decision user now =>
    have hg := (decide_good (t := s.tables) decision user now).tables h.rows id
    have htables : s'.tables = (decideApprovalRequest s.tables id decision user now).1 ∧
        s'.calls = s.calls ∧ s'.deliveries = s.deliveries := by
      simp only [McpExecution.step, decideAndEnqueueApprovalRequest] at hs
      split at hs <;> rename_i hdec <;> cases hs <;> exact ⟨by rw [hdec], rfl, rfl⟩
    obtain ⟨ht, hcalls, hdel⟩ := htables
    refine ⟨h.move (ht ▸ hg.1) (ht ▸ hg.2) hcalls fun d δ c hd hc => ⟨δ, hdel ▸ hd, hc⟩,
      ht ▸ hg.2, .inl hcalls⟩
  | setGrants grants =>
    cases hs
    exact ⟨h.move h.rows (.refl _) rfl fun d δ c hd hc => ⟨δ, hd, hc⟩, .refl _, .inl rfl⟩
  | deliver d id =>
    simp only [McpExecution.step] at hs
    split_ifs at hs
    split at hs
    · cases hs
      refine ⟨h.move h.rows (.refl _) rfl fun q δ c hq hc => ?_, .refl _, .inl rfl⟩
      simp only [Sys.set, Function.update_apply] at hq
      split_ifs at hq
      · cases hq
        cases hc
      · exact ⟨δ, hq, hc⟩
    · cases hs
  | exec d now =>
    obtain ⟨δ, hδ, hs⟩ := Option.bind_eq_some_iff.mp hs
    exact h.exec replay hδ hs
  | reply d reply =>
    obtain ⟨δ, hδ, hs⟩ := Option.bind_eq_some_iff.mp hs
    unfold Sys.receive at hs
    split at hs <;> cases hs
    all_goals refine ⟨h.set hδ fun c hc => ?_, .refl _, .inl rfl⟩
    · exact hc
    all_goals cases hc
  | crash d =>
    obtain ⟨δ, hδ, rfl⟩ := Option.map_eq_some_iff.mp hs
    exact ⟨h.set hδ (by simp [Delivery.claim]), .refl _, .inl rfl⟩

theorem Migrated.inv (h : Migrated s) : Inv s := by
  have hnone : ∀ d, s.deliveries d = none := fun d => by rw [h.deliveries]
  refine ⟨fun id r hr => ?_, by simp [hnone], by simp [hnone], by simp [h.calls],
    by simp [calledIds, h.calls]⟩
  obtain ⟨hid, hex, hst⟩ := h.requests id r hr
  refine ⟨hid, fun hp => absurd hp hst, fun hq => ?_⟩
  rw [hex] at hq
  cases hq

theorem Inv.reach {replay : Option (Sys → ApprovalRequest → ReplayResult)} (h : Inv s)
    (hreach : Reach (McpExecution.step replay) (fun _ _ => True) s s') : Inv s' :=
  hreach.invariant h fun _ _ _ hi _ hs => (hi.step hs).1

/-- A settled request is never changed again. -/
theorem Inv.terminal {replay : Option (Sys → ApprovalRequest → ReplayResult)} (h : Inv s)
    (hreach : Reach (McpExecution.step replay) (fun _ _ => True) s s') {id : ℕ} {r : ApprovalRequest}
    (hr : s.tables.requests id = some r) (hterm : Terminal r) :
    s'.tables.requests id = some r := by
  have hboth : Inv s' ∧ s'.tables.requests id = some r := by
    refine hreach.invariant (I := fun s' => Inv s' ∧ s'.tables.requests id = some r) ⟨h, hr⟩ ?_
    rintro u a u' ⟨hi, hu⟩ - hs
    obtain ⟨hi', hp⟩ := hi.step hs
    obtain ⟨r', hr', -, heq⟩ := hp.evolves.requests id r hu
    exact ⟨hi', heq hterm ▸ hr'⟩
  exact hboth.2

/-- Whatever decisions, claims, settlements, deliveries and crashes interleave: no request's tool
is called twice; a tool is only called with what the request stores, when the stored decision is
an approval by the actor of its run; and a settled request stays as it is. -/
theorem mcpInvoke_exactly_once {replay : Option (Sys → ApprovalRequest → ReplayResult)}
    {s₀ : Sys} (h₀ : Migrated s₀) (h : Reach (step replay) (fun _ _ => True) s₀ s) :
    (s.calls.map (·.requestId)).Nodup ∧
      (∀ a s', step replay s a = some s' → s'.calls = s.calls ∨
        ∃ c payload r run, s'.calls = s.calls ++ [c] ∧ s.tables.requests c.requestId = some r ∧
          r.payload = .mcpInvoke payload ∧ c.toolName = r.toolName ∧ c.args = payload.args ∧
          r.status = .approved ∧ s.tables.agentRuns r.agentRunId = some run ∧
          r.decidedBy = some run.actorUserId) ∧
      ∀ s', Reach (step replay) (fun _ _ => True) s s' → ∀ id r,
        s.tables.requests id = some r → Terminal r → s'.tables.requests id = some r := by
  have hinv : Inv s := h₀.inv.reach h
  refine ⟨hinv.nodup, fun a s' hs => ?_, fun s' hs id r hr ht => hinv.terminal hs hr ht⟩
  refine (hinv.step hs).2.calls.imp_right ?_
  rintro ⟨c, payload, hc, ⟨r, hr, -, ⟨happ, run, hrun, hby⟩, hpay, htool⟩, hargs⟩
  exact ⟨c, payload, r, run, hc, hr, hpay, htool.symm, hargs, happ, hrun, hby⟩

/-- A run of project 5 acting for user 9, and a tool that the project is granted. -/
def oneTool : Sys where
  tables := ⟨fun _ => none, fun id => if id = 1 then some ⟨some 5, 9⟩ else none⟩
  grants := ⟨some 8, [⟨5, 2, true⟩], [⟨2, 4, "search", true⟩], [⟨4, 8, false, true⟩]⟩
  jobs := []
  deliveries := fun _ => none
  calls := []

def approveAndDeliver : List Act :=
  [.createRequest 3 ⟨1, "search", "low", .mcpInvoke ⟨2, 4, []⟩, ⟨"mcp_invoke", 2, none⟩⟩ 10,
    .decide 3 .approved 9 20, .deliver 0 3, .deliver 1 3, .exec 0 30, .exec 1 31, .exec 0 32,
    .exec 1 33, .exec 0 34, .exec 0 35, .reply 0 .connected, .exec 0 36, .exec 1 37, .exec 1 38]

theorem mcpInvoke_exactly_once_two : ∃ s, runActs (step none) oneTool approveAndDeliver = some s ∧
    s.calls.map (·.requestId) = [3] ∧ (s.calls.map (·.requestId)).Nodup := by
  obtain ⟨s, hs⟩ := Option.isSome_iff_exists.mp
    (rfl : (runActs (step none) oneTool approveAndDeliver).isSome = true)
  refine ⟨s, hs, eq_of_map_eq (f := fun s => s.calls.map (·.requestId)) hs rfl, ?_⟩
  exact (mcpInvoke_exactly_once ⟨by simp [oneTool], rfl, rfl⟩ (.of_runActs hs)).1

end claims

end McpExecution

end Semprec
