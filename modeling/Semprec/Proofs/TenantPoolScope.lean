import Semprec.TenantPool

/-!
# A connection carries the tenant it was taken in

`Held` says where a connection stands between the statements the pool waits for.  A caller's
statement queued on it finds the value of its own checkout's scope, and what goes back to the pool
is clean; the value follows the checkout, not the scope a statement is issued in.
-/

namespace Semprec

namespace TenantPool

variable {s s' : Sys} {a : Act} {conn conn' : Conn} {k : Checkout}

/-- No tenant is set and no transaction is open. -/
structure Clean (conn : Conn) : Prop where
  session : conn.session = ""
  localValue : conn.localValue = none
  tx : conn.tx = none

def Mode.inTransaction : Mode → Bool
  | .query | .transaction => true
  | _ => false

inductive Held (conn : Conn) (k : Checkout) : Prop where
  | setting : k.mode = .session → conn.own = some (.setSession (scopeGucValue k.scope)) →
      Clean conn → Held conn k
  | session : k.mode = .session → conn.own = none ∨ conn.own = some .reset →
      conn.session = scopeGucValue k.scope → conn.localValue = none → conn.tx = none →
      Held conn k
  | raw : k.mode = .raw → k.scope = none → conn.own = none → Clean conn → Held conn k
  | beginning : k.mode.inTransaction = true → conn.own = some .begin → Clean conn → Held conn k
  | scoping (aborted : Bool) : k.mode.inTransaction = true →
      conn.own = some (.setLocal (scopeGucValue k.scope)) → conn.session = "" →
      conn.tx = some ⟨"", aborted⟩ → conn.queued = [] → Held conn k
  | body (aborted : Bool) : k.mode.inTransaction = true → conn.own = none ∨ conn.own = some .commit →
      conn.session = "" → conn.tenantId = scopeGucValue k.scope →
      conn.tx = some ⟨"", aborted⟩ → Held conn k
  | rolling : conn.own = some .rollback → conn.session = "" →
      (conn.tx = none ∧ conn.localValue = none ∨ ∃ aborted, conn.tx = some ⟨"", aborted⟩) →
      Held conn k

structure Conn.Inv (conn : Conn) : Prop where
  queued : ∀ st ∈ conn.queued, conn.tenantId = scopeGucValue st.takenIn
  idle : conn.holder = none → conn.own = none ∧ Clean conn
  held : ∀ k, conn.holder = some k → Held conn k

theorem Clean.tenantId (h : Clean conn) : conn.tenantId = "" := by
  simp only [Conn.tenantId, h.localValue, h.session, Option.getD_none]

theorem inv_opened : Conn.opened.Inv where
  queued := nofun
  idle := fun _ => ⟨rfl, rfl, rfl, rfl⟩
  held := nofun

theorem Conn.Inv.giveBack (hq : ∀ st ∈ conn.queued, conn.tenantId = scopeGucValue st.takenIn)
    (hc : Clean conn) : conn.giveBack.Inv where
  queued := hq
  idle := fun _ => ⟨rfl, hc.session, hc.localValue, hc.tx⟩
  held := nofun

/-- A connection from the pool is as clean as a new one, whoever takes it. -/
theorem Conn.Inv.useSession (hi : conn.Inv) (hidle : conn.holder = none)
    (scope : Option TenantScope) : (useSession scope conn).Inv := by
  obtain ⟨hown, hc⟩ := hi.idle hidle
  cases scope with
  | none =>
    refine ⟨hi.queued, nofun, ?_⟩
    rintro k ⟨⟩
    exact .raw rfl rfl hown ⟨hc.session, hc.localValue, hc.tx⟩
  | some scope =>
    refine ⟨hi.queued, nofun, ?_⟩
    rintro k ⟨⟩
    exact .setting rfl rfl ⟨hc.session, hc.localValue, hc.tx⟩

theorem Conn.Inv.useQuery (hi : conn.Inv) (hidle : conn.holder = none)
    (scope : Option TenantScope) : (useQuery scope conn).Inv := by
  obtain ⟨hown, hc⟩ := hi.idle hidle
  cases scope with
  | none =>
    refine ⟨?_, nofun, ?_⟩
    · intro st hst
      rcases List.mem_append.mp hst with hst | hst
      · exact hi.queued st hst
      · cases List.mem_singleton.mp hst
        exact hc.tenantId
    · rintro k ⟨⟩
      exact .raw rfl rfl hown ⟨hc.session, hc.localValue, hc.tx⟩
  | some scope =>
    refine ⟨hi.queued, nofun, ?_⟩
    rintro k ⟨⟩
    exact .beginning rfl rfl ⟨hc.session, hc.localValue, hc.tx⟩

theorem Conn.Inv.useTransaction (hi : conn.Inv) (hidle : conn.holder = none)
    (scope : Option TenantScope) : (useTransaction scope conn).Inv := by
  obtain ⟨-, hc⟩ := hi.idle hidle
  refine ⟨hi.queued, nofun, ?_⟩
  rintro k ⟨⟩
  exact .beginning rfl rfl ⟨hc.session, hc.localValue, hc.tx⟩

/-- While the holder may issue statements, the setting is its scope's. -/
theorem Held.tenantId (h : Held conn k) (hown : conn.own = none) :
    conn.tenantId = scopeGucValue k.scope := by
  cases h with
  | session _ _ hs hl _ => simp only [Conn.tenantId, hl, hs, Option.getD_none]
  | raw _ hk _ hc => rw [hc.tenantId, hk]; rfl
  | body _ _ _ _ ht _ => exact ht
  | setting _ h | beginning _ h | scoping _ _ h | rolling h => rw [hown] at h; cases h

theorem Conn.Inv.issue {issuedIn : Option TenantScope} (hi : conn.Inv)
    (h : conn.issue issuedIn = some conn') : conn'.Inv := by
  unfold Conn.issue at h
  split at h
  · cases h
  · rename_i k _ hk hown
    cases h
    have hheld := hi.held k hk
    refine ⟨?_, fun h => (nomatch hk.symm.trans h), ?_⟩
    · intro st hst
      rcases List.mem_append.mp hst with hst | hst
      · exact hi.queued st hst
      · cases List.mem_singleton.mp hst
        exact hheld.tenantId hown
    · intro k' hk'
      cases hk.symm.trans hk'
      cases hheld with
      | session hm ho hs hl ht => exact .session hm ho hs hl ht
      | raw hm hk ho hc => exact .raw hm hk ho ⟨hc.session, hc.localValue, hc.tx⟩
      | body ab hm ho hs ht htx => exact .body ab hm ho hs ht htx
      | setting _ h | beginning _ h | scoping _ _ h | rolling h => rw [hown] at h; cases h
  · cases h

theorem Conn.Inv.release {err : Bool} (hi : conn.Inv)
    (h : conn.release err = some (some conn')) : conn'.Inv := by
  unfold Conn.release at h
  split at h
  · rename_i scope hk hown
    split_ifs at h
    · cases h
    · cases h
      refine ⟨hi.queued, fun h => (nomatch hk.symm.trans h), fun k' hk' => ?_⟩
      cases hk.symm.trans hk'
      cases hi.held _ hk with
      | session hm _ hs hl ht => exact .session hm (.inr rfl) hs hl ht
      | raw hm => cases hm
      | body _ hm => cases hm
      | setting _ h | beginning _ h | scoping _ _ h | rolling h => rw [hown] at h; cases h
  · rename_i scope hk hown
    split_ifs at h
    · cases h
    · cases h
      refine .giveBack hi.queued ?_
      cases hi.held _ hk with
      | raw _ _ _ hc => exact hc
      | session hm => cases hm
      | setting hm => cases hm
      | body _ hm => cases hm
      | beginning hm | scoping _ hm => cases hm
      | rolling h => rw [hown] at h; cases h
  · cases h

theorem Conn.Inv.settle {own : OwnStmt} (hi : conn.Inv) (hown' : own = .commit ∨ own = .rollback)
    (h : conn.settle own = some conn') : conn'.Inv := by
  unfold Conn.settle at h
  split at h
  · rename_i scope hk hown
    cases h
    refine ⟨hi.queued, fun h => (nomatch hk.symm.trans h), fun k' hk' => ?_⟩
    cases hk.symm.trans hk'
    cases hi.held _ hk with
    | body ab hm _ hs ht htx =>
      rcases hown' with rfl | rfl
      · exact .body ab hm (.inr rfl) hs ht htx
      · exact .rolling rfl hs (.inr ⟨ab, htx⟩)
    | session hm => cases hm
    | raw hm => cases hm
    | setting hm => cases hm
    | beginning _ h | scoping _ _ h | rolling h => rw [hown] at h; cases h
  · cases h

/-- A caller's statement leaves the setting as it is, failed or not. -/
theorem Conn.serve_cases {ok : Bool} (h : conn.serve ok = some conn') :
    conn' = conn ∨ conn' = conn.abort := by
  unfold Conn.serve at h
  split_ifs at h
  · cases h
    exact .inl rfl
  · cases h
    exact .inr rfl

theorem Clean.abort (h : Clean conn) : Clean conn.abort :=
  ⟨h.session, h.localValue, by rw [Conn.abort, h.tx]; rfl⟩

theorem Held.abort (h : Held conn k) : Held conn.abort k := by
  have htx : ∀ {b : Bool}, conn.tx = some ⟨"", b⟩ → conn.abort.tx = some ⟨"", true⟩ := by
    intro b htx
    rw [Conn.abort, htx]
    rfl
  have hnone : conn.tx = none → conn.abort.tx = none := by
    intro htx
    rw [Conn.abort, htx]
    rfl
  cases h with
  | setting hm ho hc => exact .setting hm ho hc.abort
  | session hm ho hs hl ht => exact .session hm ho hs hl (hnone ht)
  | raw hm hk ho hc => exact .raw hm hk ho hc.abort
  | beginning hm ho hc => exact .beginning hm ho hc.abort
  | scoping ab hm ho hs ht hq => exact .scoping true hm ho hs (htx ht) hq
  | body ab hm ho hs ht hx => exact .body true hm ho hs ht (htx hx)
  | rolling ho hs hx =>
    refine .rolling ho hs ?_
    rcases hx with ⟨hx, hl⟩ | ⟨ab, hx⟩
    · exact .inl ⟨hnone hx, hl⟩
    · exact .inr ⟨true, htx hx⟩

theorem Conn.Inv.abort (hi : conn.Inv) : conn.abort.Inv where
  queued := hi.queued
  idle := fun h => ⟨(hi.idle h).1, (hi.idle h).2.abort⟩
  held := fun k hk => (hi.held k hk).abort

theorem Conn.Inv.dequeue {st : Stmt} {rest : List Stmt} (hi : conn.Inv)
    (hq : conn.queued = st :: rest) : Conn.Inv { conn with queued := rest } where
  queued := fun st' hst => hi.queued st' (hq ▸ List.mem_cons_of_mem _ hst)
  idle := fun h => ⟨(hi.idle h).1, (hi.idle h).2.session, (hi.idle h).2.localValue,
    (hi.idle h).2.tx⟩
  held := fun k hk => by
    cases hi.held k hk with
    | setting hm ho hc => exact .setting hm ho ⟨hc.session, hc.localValue, hc.tx⟩
    | session hm ho hs hl ht => exact .session hm ho hs hl ht
    | raw hm hk ho hc => exact .raw hm hk ho ⟨hc.session, hc.localValue, hc.tx⟩
    | beginning hm ho hc => exact .beginning hm ho ⟨hc.session, hc.localValue, hc.tx⟩
    | scoping _ _ _ _ _ hnil => rw [hq] at hnil; cases hnil
    | body ab hm ho hs ht hx => exact .body ab hm ho hs ht hx
    | rolling ho hs hx => exact .rolling ho hs hx

theorem Conn.Inv.stmtAnswered (hi : conn.Inv) (ok : Bool) : (conn.stmtAnswered ok).Inv := by
  unfold Conn.stmtAnswered
  split
  · rename_i scope hk hown
    refine ⟨hi.queued, fun h => (nomatch hk.symm.trans h), fun k' hk' => ?_⟩
    cases hk.symm.trans hk'
    cases hi.held _ hk with
    | body ab hm _ hs ht hx =>
      cases ok with
      | true => exact .body ab hm (.inr rfl) hs ht hx
      | false => exact .rolling rfl hs (.inr ⟨ab, hx⟩)
    | session hm => cases hm
    | raw hm => cases hm
    | setting hm => cases hm
    | beginning _ h | scoping _ _ h | rolling h => rw [hown] at h; cases h
  · exact hi

theorem Clean.of_rolledBack {b : Bool} (hs : conn.session = "")
    (hx : conn.tx = none ∧ conn.localValue = none ∨ conn.tx = some ⟨"", b⟩) :
    Clean conn.rolledBack := by
  unfold Conn.rolledBack
  rcases hx with ⟨hx, hl⟩ | hx
  · rw [hx]
    exact ⟨hs, hl, hx⟩
  · rw [hx]
    exact ⟨rfl, rfl, rfl⟩

theorem Conn.Inv.of_held (hk : conn.holder = some k) (hq : conn.queued = []) (h : Held conn k) :
    conn.Inv where
  queued := fun st hst => by rw [hq] at hst; cases hst
  idle := fun hn => (nomatch hk.symm.trans hn)
  held := fun k' hk' => by
    cases hk.symm.trans hk'
    exact h

theorem Conn.Inv.giveBack_of_empty (hq : conn.queued = []) (hc : Clean conn) :
    conn.giveBack.Inv :=
  .giveBack (fun st hst => by rw [hq] at hst; cases hst) hc

theorem Conn.aborted_of_tx {tx : Option OpenTx} (h : conn.tx = tx) :
    conn.aborted = (tx.map (·.aborted)).getD false := by
  rw [Conn.aborted, h]

/-- The answer of a statement of the pool, case by case of where the connection stands. -/
theorem Conn.Inv.answered {own : OwnStmt} {ok : Bool} {c₁ : Conn}
    (hk : conn.holder = some k) (hq : conn.queued = []) (hown : conn.own = some own)
    (hheld : Held conn k) (hs : conn.serveOwn own ok = some c₁)
    (ha : c₁.answered k own ok = some conn') : conn'.Inv := by
  cases hheld with
  | setting hm ho hc =>
    cases hown.symm.trans ho
    cases ok with
    | false => cases ha
    | true =>
      simp only [Conn.serveOwn, Conn.aborted_of_tx hc.tx, Option.map_none, Option.getD_none,
        Bool.false_eq_true, if_false, Option.some.injEq] at hs
      subst hs
      cases ha
      exact .of_held hk hq (.session hm (.inl rfl) rfl rfl hc.tx)
  | session hm ho hsess hl ht =>
    rcases ho with ho | ho
    · cases hown.symm.trans ho
    cases hown.symm.trans ho
    cases ok with
    | false => cases ha
    | true =>
      simp only [Conn.serveOwn, Conn.aborted_of_tx ht, Option.map_none, Option.getD_none,
        Bool.false_eq_true, if_false, Option.some.injEq] at hs
      subst hs
      cases ha
      exact .giveBack_of_empty hq ⟨rfl, rfl, ht⟩
  | raw _ _ ho _ => cases hown.symm.trans ho
  | beginning hm ho hc =>
    cases hown.symm.trans ho
    cases ok with
    | false =>
      cases hs
      simp only [Conn.answered] at ha
      split at ha
      · cases ha
        exact .giveBack_of_empty hq hc.abort
      · cases ha
        exact .of_held hk hq (.rolling rfl hc.session (.inl ⟨hc.abort.tx, hc.localValue⟩))
    | true =>
      simp only [Conn.serveOwn, Conn.aborted_of_tx hc.tx, Option.map_none, Option.getD_none,
        Bool.false_eq_true, if_false, hc.tx, hc.session, Option.some.injEq] at hs
      subst hs
      simp only [Conn.answered] at ha
      split at ha
      · rename_i hkm hks
        cases ha
        refine .of_held hk hq (.body false hm (.inl rfl) rfl ?_ rfl)
        rw [hks]
        simp only [Conn.tenantId, hc.localValue, Option.getD_none, scopeGucValue]
      · cases ha
        exact .of_held hk hq (.scoping false hm rfl rfl rfl hq)
  | scoping ab hm ho hsess ht _ =>
    cases hown.symm.trans ho
    cases ok with
    | false =>
      cases hs
      cases ha
      exact .of_held hk hq (.rolling rfl hsess (.inr ⟨true, by rw [Conn.abort, ht]; rfl⟩))
    | true =>
      simp only [Conn.serveOwn, Conn.aborted_of_tx ht, Option.map_some, Option.getD_some, ht] at hs
      split_ifs at hs
      cases hs
      simp only [Conn.answered] at ha
      split at ha
      · cases ha
        refine ⟨fun st hst => ?_, fun hn => (nomatch hk.symm.trans hn), fun k' hk' => ?_⟩
        · simp only [hq, List.nil_append, List.mem_singleton] at hst
          subst hst
          rfl
        · cases hk.symm.trans hk'
          exact .body ab hm (.inl rfl) hsess rfl rfl
      · cases ha
        exact .of_held hk hq (.body ab hm (.inl rfl) hsess rfl rfl)
  | body ab hm ho hsess ht hx =>
    rcases ho with ho | ho
    · cases hown.symm.trans ho
    cases hown.symm.trans ho
    cases ok with
    | false =>
      cases hs
      cases ha
      have hc : Clean conn.rolledBack := .of_rolledBack hsess (.inr hx)
      have hk' : conn.rolledBack.holder = some k := by rw [Conn.rolledBack, hx]; exact hk
      have hq' : conn.rolledBack.queued = [] := by rw [Conn.rolledBack, hx]; exact hq
      exact .of_held hk' hq' (.rolling rfl hc.session (.inl ⟨hc.tx, hc.localValue⟩))
    | true =>
      cases hs
      cases ha
      split_ifs
      · have hq' : conn.rolledBack.queued = [] := by rw [Conn.rolledBack, hx]; exact hq
        exact .giveBack_of_empty hq' (.of_rolledBack hsess (.inr hx))
      · exact .giveBack_of_empty hq ⟨hsess, rfl, rfl⟩
  | rolling ho hsess hx =>
    cases hown.symm.trans ho
    cases ok with
    | false => cases ha
    | true =>
      cases hs
      cases ha
      rcases hx with ⟨hx, hl⟩ | ⟨ab, hx⟩
      · have hq' : conn.rolledBack.queued = [] := by rw [Conn.rolledBack, hx]; exact hq
        exact .giveBack_of_empty hq' (.of_rolledBack (b := false) hsess (.inl ⟨hx, hl⟩))
      · have hq' : conn.rolledBack.queued = [] := by rw [Conn.rolledBack, hx]; exact hq
        exact .giveBack_of_empty hq' (.of_rolledBack hsess (.inr hx))

theorem Conn.Inv.exec {ok : Bool} (hi : conn.Inv) (h : conn.exec ok = some (some conn')) :
    conn'.Inv := by
  unfold Conn.exec at h
  split at h
  · rename_i st rest hq
    obtain ⟨c₁, hserve, hc₁⟩ := Option.map_eq_some_iff.mp h
    cases hc₁
    have hi' := hi.dequeue hq
    rcases Conn.serve_cases hserve with rfl | rfl
    · exact hi'.stmtAnswered ok
    · exact hi'.abort.stmtAnswered ok
  · rename_i hq
    split at h
    · rename_i own k hown hk
      obtain ⟨c₁, hserve, hc₁⟩ := Option.map_eq_some_iff.mp h
      exact .answered hk hq hown (hi.held k hk) hserve hc₁
    · cases h

def Inv (s : Sys) : Prop := ∀ c conn, s.conns c = some conn → conn.Inv

theorem Inv.setConn {c : ℕ} {x : Option Conn} (hi : Inv s) (hx : ∀ conn, x = some conn → conn.Inv) :
    Inv (s.setConn c x) := by
  intro d conn hd
  by_cases hdc : d = c
  · subst hdc
    exact hx conn (by simpa only [Sys.setConn, Function.update_self] using hd)
  · exact hi d conn ((Function.update_of_ne hdc _ _).symm.trans hd)

theorem Inv.take {t c : ℕ} {use : Option TenantScope → Conn → Conn}
    (huse : ∀ conn : Conn, conn.Inv → conn.holder = none → ∀ scope, (use scope conn).Inv)
    (hi : Inv s) (h : s.take t c use = some s') : Inv s' := by
  unfold Sys.take at h
  split at h
  · rename_i scope conn _ hconn
    split_ifs at h with hidle
    cases h
    exact hi.setConn fun _ hx => by cases hx; exact huse conn (hi c conn hconn) hidle scope
  · cases h

theorem Inv.preserved (hi : Inv s) (h : step s a = some s') : Inv s' := by
  cases a with
  | openConnection c =>
    simp only [step] at h
    split at h
    · cases h
      exact hi.setConn fun _ hx => by cases hx; exact inv_opened
    · cases h
  | runInTenant t tenantId =>
    obtain ⟨scope, -, rfl⟩ := Option.map_eq_some_iff.mp h
    exact hi
  | runAsSystem t reason =>
    obtain ⟨scope, -, rfl⟩ := Option.map_eq_some_iff.mp h
    exact hi
  | leave t =>
    cases h
    exact hi
  | connect t c => exact hi.take (fun _ hi hidle scope => hi.useSession hidle scope) h
  | query t c => exact hi.take (fun _ hi hidle scope => hi.useQuery hidle scope) h
  | withTransaction t c => exact hi.take (fun _ hi hidle scope => hi.useTransaction hidle scope) h
  | issue t c =>
    obtain ⟨conn, hconn, h⟩ := Option.bind_eq_some_iff.mp h
    obtain ⟨conn', hissue, rfl⟩ := Option.map_eq_some_iff.mp h
    exact hi.setConn fun _ hx => by cases hx; exact (hi c conn hconn).issue hissue
  | exec c ok =>
    obtain ⟨conn, hconn, h⟩ := Option.bind_eq_some_iff.mp h
    obtain ⟨x, hexec, rfl⟩ := Option.map_eq_some_iff.mp h
    exact hi.setConn fun _ hx => (hi c conn hconn).exec (hx ▸ hexec)
  | release c err =>
    obtain ⟨conn, hconn, h⟩ := Option.bind_eq_some_iff.mp h
    obtain ⟨x, hrel, rfl⟩ := Option.map_eq_some_iff.mp h
    exact hi.setConn fun _ hx => (hi c conn hconn).release (hx ▸ hrel)
  | resolve c =>
    obtain ⟨conn, hconn, h⟩ := Option.bind_eq_some_iff.mp h
    obtain ⟨conn', hsettle, rfl⟩ := Option.map_eq_some_iff.mp h
    exact hi.setConn fun _ hx => by cases hx; exact (hi c conn hconn).settle (.inl rfl) hsettle
  | reject c =>
    obtain ⟨conn, hconn, h⟩ := Option.bind_eq_some_iff.mp h
    obtain ⟨conn', hsettle, rfl⟩ := Option.map_eq_some_iff.mp h
    exact hi.setConn fun _ hx => by cases hx; exact (hi c conn hconn).settle (.inr rfl) hsettle

/-- In every state a run reaches, the statement a connection runs next finds the tenant of its
scope in the setting, and no connection is in the pool with a tenant set. -/
def CarriesScope (scopeOf : Stmt → Option TenantScope) : Prop :=
  ∀ scopeMode s, Reach step (fun _ _ => True) (Sys.init scopeMode) s →
    ∀ c, ∀ conn ∈ s.conns c,
      (∀ st ∈ conn.queued.head?, conn.tenantId = scopeGucValue (scopeOf st)) ∧
      (conn.holder = none → Clean conn)

theorem carriesScope_takenIn : CarriesScope (·.takenIn) := by
  intro scopeMode s hs c conn hconn
  have hi : Inv s := hs.invariant (fun _ _ h => by cases h) fun _ _ _ hi _ h => hi.preserved h
  have hc := hi c conn hconn
  exact ⟨fun st hst => hc.queued st (List.mem_of_mem_head? hst), fun h => (hc.idle h).2⟩

def handedOver : List Act :=
  [.openConnection 0, .runInTenant 0 "00000000-0000-0000-0000-00000000000a", .connect 0 0,
    .exec 0 true, .runInTenant 1 "00000000-0000-0000-0000-00000000000b", .issue 1 0]

theorem handedOver_conn : (runActs step (Sys.init none) handedOver).map (fun s => s.conns 0) =
    some (some ⟨"00000000-0000-0000-0000-00000000000a", none, none,
      [⟨some (.tenant "00000000-0000-0000-0000-00000000000b"),
        some (.tenant "00000000-0000-0000-0000-00000000000a")⟩], none,
      some ⟨.session, some (.tenant "00000000-0000-0000-0000-00000000000a")⟩⟩) := by
  decide +kernel

theorem not_carriesScope_issuedIn : ¬ CarriesScope (·.issuedIn) := by
  intro hclaim
  obtain ⟨s, hs, hconn⟩ := Option.map_eq_some_iff.mp handedOver_conn
  have hvalue := (hclaim none s (.of_runActs hs) 0 _ hconn).1 _ rfl
  simp only [Conn.tenantId, Option.getD_none, scopeGucValue] at hvalue
  exact absurd hvalue (by decide)

end TenantPool

end Semprec
