import Mathlib
import Semprec.SyncClient

/-!
# A connected client's cache is fresh

While every invalidation the gate drops is one that the refetch in flight still reads after, each
committed write is accounted for at the current connection: the cached queries it affects were read
after it, are about to be, or its frame is still on its way (`Covered`).  At rest only the first is
left (`neverLoses`).
-/

namespace Semprec

namespace SyncClient

variable {Q : Type} {affects : InvalidateFrame → Q → Bool} {s s' : Sys Q}
  {a : Act Q} {c w : ℕ} {q q' : Q}

def Unread (s : Sys Q) (c : ℕ) (q : Q) : Prop := ∃ r ∈ s.refetches c, q ∈ r.unread

/-- An invalidation that meets the gate is superseded: each cached query it affects was read after
its write, or is read later by the refetch in flight or by a fetch already started. -/
def Superseded (affects : InvalidateFrame → Q → Bool) (s : Sys Q) : Act Q → Prop
  | .onmessage c => c = s.connectionId → s.gateInvalidations = true → ∀ conn ∈ s.conns c,
      ∀ w ∈ conn.inFlight.head?, ∀ frame ∈ s.committed[w]?, ∀ q ∈ s.cached,
        affects frame q = true → w < s.fetchedAt q ∨ q ∈ s.pending ∨ Unread s c q
  | _ => True

structure Quiescent (s : Sys Q) : Prop where
  connected : s.socket = some s.connectionId
  conn : ∃ conn ∈ s.conns s.connectionId, conn.opened = true ∧ conn.closing = false ∧
    conn.inFlight = []
  refetched : ∃ r ∈ s.refetches s.connectionId, r.status = .fulfilled
  listening : s.listening = true
  published : s.published = s.committed.length
  fetched : s.pending = ∅

/-- Every cached query has been read after every write that affects it. -/
def Fresh (affects : InvalidateFrame → Q → Bool) (s : Sys Q) : Prop :=
  ∀ q ∈ s.cached, ∀ w, ∀ frame ∈ s.committed[w]?, affects frame q = true → w < s.fetchedAt q

/-- Every run that ends at rest ends with a fresh cache. -/
def NeverLoses [DecidableEq Q] (affects : InvalidateFrame → Q → Bool)
    (ok : Sys Q → Act Q → Prop) : Prop :=
  ∀ s, Reach (step affects) ok Sys.init s → Quiescent s → Fresh affects s

def Covered (s : Sys Q) (c : ℕ) (conn : Conn) (w : ℕ) (q : Q) : Prop :=
  w < s.fetchedAt q ∨ q ∈ s.pending ∨ Unread s c q ∨ w ∈ conn.inFlight ∨ s.published ≤ w

/-- The current connection is told of every write whose effect the client has not fetched. -/
def Informed (affects : InvalidateFrame → Q → Bool) (s : Sys Q) : Prop :=
  ∀ conn ∈ s.conns s.connectionId, conn.opened = true → conn.closing = false →
    ∀ q ∈ s.cached, ∀ w, ∀ frame ∈ s.committed[w]?, affects frame q = true →
      Covered s s.connectionId conn w q

structure Inv (affects : InvalidateFrame → Q → Bool) (s : Sys Q) : Prop where
  informed : Informed affects s
  published : s.published ≤ s.committed.length
  attached : ∀ c, ∀ conn ∈ s.conns c, conn.opened = true → conn.attached = true
  finished : ∀ c, ∀ r ∈ s.refetches c, r.status = .fulfilled → r.unread = ∅

theorem inv_init : Inv affects (Sys.init : Sys Q) where
  informed := fun _ h => by cases h
  published := le_rfl
  attached := fun _ _ h => by cases h
  finished := fun _ _ h => by cases h

theorem Inv.fresh (hi : Inv affects s) (hq : Quiescent s) : Fresh affects s := by
  intro q hmem w frame hframe haff
  obtain ⟨conn, hconn, hopen, hclosing, hflight⟩ := hq.conn
  obtain ⟨r, hr, hstatus⟩ := hq.refetched
  rcases hi.informed conn hconn hopen hclosing q hmem w frame hframe haff with
    h | h | ⟨r', hr', h⟩ | h | h
  · exact h
  · rw [hq.fetched] at h
    cases h
  · cases Option.mem_unique hr hr'
    rw [hi.finished _ r hr hstatus] at h
    cases h
  · rw [hflight] at h
    cases h
  · rw [hq.published] at h
    obtain ⟨hlt, -⟩ := List.getElem?_eq_some_iff.mp hframe
    omega

/-- A change of one connection that tells the current one no less. -/
theorem Inv.setConn {conn' : Option Conn} (hi : Inv affects s)
    (hat : ∀ x, conn' = some x → x.opened = true → x.attached = true)
    (hinf : c = s.connectionId → ∀ x, conn' = some x → x.opened = true → x.closing = false →
      ∃ conn ∈ s.conns c, conn.opened = true ∧ conn.closing = false ∧
        conn.inFlight = x.inFlight) :
    Inv affects (s.setConn c conn') where
  informed := by
    intro x hx hopen hclosing q hq w frame hframe haff
    by_cases hc : s.connectionId = c
    · have hx' : x ∈ conn' := by
        simpa only [Sys.setConn, hc, Function.update_self] using hx
      obtain ⟨conn, hconn, ho, hcl, hfl⟩ := hinf hc.symm x hx' hopen hclosing
      have hcov := hi.informed conn (hc ▸ hconn) ho hcl q hq w frame hframe haff
      unfold Covered at hcov ⊢
      rwa [hfl] at hcov
    · exact hi.informed x ((Function.update_of_ne hc _ _).symm.trans hx) hopen hclosing q hq w
        frame hframe haff
  published := hi.published
  attached := by
    intro d x hx
    by_cases hd : d = c
    · subst hd
      have hx' : x ∈ conn' := by simpa only [Sys.setConn, Function.update_self] using hx
      exact hat x hx'
    · exact hi.attached d x ((Function.update_of_ne hd _ _).symm.trans hx)
  finished := hi.finished

theorem Inv.establish (hi : Inv affects s) : Inv affects (establishConnection s) := by
  unfold establishConnection
  split_ifs
  · exact hi
  · refine ⟨?_, hi.published, ?_, hi.finished⟩
    · intro x hx hopen
      cases (Function.update_self _ _ _).symm.trans hx
      cases hopen
    · intro d x hx hopen
      rcases of_update_some hx with ⟨rfl, rfl⟩ | ⟨-, hx⟩
      · cases hopen
      · exact hi.attached d x hx hopen

theorem closeAll_opened {conn : Conn} (hat : conn.opened = true → conn.attached = true)
    (hopen : conn.closeAll.opened = true) : conn.closeAll.closing = true := by
  unfold Conn.closeAll at hopen ⊢
  split_ifs at hopen ⊢ with h
  · rfl
  · exact absurd (hat hopen) h

theorem Inv.closeAll {published : ℕ} {listening : Bool} (hi : Inv affects s)
    (hp : published ≤ s.committed.length) :
    Inv affects { s with
      listening := listening
      published := published
      conns := fun c => (s.conns c).map .closeAll } where
  informed := by
    intro x hx hopen hclosing
    obtain ⟨conn, hconn, rfl⟩ := Option.map_eq_some_iff.mp hx
    rw [closeAll_opened (hi.attached _ conn hconn) hopen] at hclosing
    cases hclosing
  published := hp
  attached := by
    intro d x hx hopen
    obtain ⟨conn, hconn, rfl⟩ := Option.map_eq_some_iff.mp hx
    unfold Conn.closeAll at hopen ⊢
    split_ifs at hopen ⊢ with h
    · exact h
    · exact absurd (hi.attached d conn hconn hopen) h
  finished := hi.finished

theorem Inv.commit (hi : Inv affects s) (frame : InvalidateFrame) :
    Inv affects { s with committed := s.committed ++ [frame] } where
  informed := by
    intro conn hconn hopen hclosing q hq w frame' hframe haff
    by_cases hw : w < s.committed.length
    · exact hi.informed conn hconn hopen hclosing q hq w frame'
        ((List.getElem?_append_left hw).symm.trans hframe) haff
    · exact .inr (.inr (.inr (.inr (hi.published.trans (Nat.le_of_not_lt hw)))))
  published := by
    simp only [List.length_append, List.length_singleton]
    exact hi.published.trans (Nat.le_succ _)
  attached := hi.attached
  finished := hi.finished

theorem Inv.publish (hi : Inv affects s) (hp : s.published < s.committed.length) :
    Inv affects { s with
      published := s.published + 1
      conns := fun c => (s.conns c).map (.receive s.published) } where
  informed := by
    intro x hx hopen hclosing q hq w frame hframe haff
    obtain ⟨conn, hconn, rfl⟩ := Option.map_eq_some_iff.mp hx
    unfold Conn.receive at hopen hclosing ⊢
    split_ifs at hopen hclosing ⊢ with h
    · rcases hi.informed conn hconn hopen hclosing q hq w frame hframe haff with
        hf | hf | hf | hf | hf
      · exact .inl hf
      · exact .inr (.inl hf)
      · exact .inr (.inr (.inl hf))
      · exact .inr (.inr (.inr (.inl (List.mem_append_left _ hf))))
      · rcases hf.eq_or_lt with rfl | hlt
        · exact .inr (.inr (.inr (.inl (List.mem_append_right _ (List.mem_singleton_self _)))))
        · exact .inr (.inr (.inr (.inr hlt)))
    · exact absurd ⟨hi.attached _ conn hconn hopen, by simp [hclosing]⟩ h
  published := hp
  attached := by
    intro d x hx hopen
    obtain ⟨conn, hconn, rfl⟩ := Option.map_eq_some_iff.mp hx
    unfold Conn.receive at hopen ⊢
    split_ifs at hopen ⊢ with h <;> exact hi.attached d conn hconn hopen
  finished := hi.finished

theorem Inv.onopen {conn : Conn} (hi : Inv affects s) (hconn : s.conns c = some conn)
    (hat : conn.attached = true) :
    Inv affects (onopen (s.setConn c (some { conn with opened := true })) c) := by
  unfold SyncClient.onopen
  split_ifs with hc
  · refine hi.setConn ?_ fun h => absurd h hc
    rintro x ⟨⟩ -
    exact hat
  · have hc : c = s.connectionId := not_not.mp hc
    refine ⟨?_, hi.published, ?_, ?_⟩
    · intro x _ _ _ q hq w _ _ _
      refine .inr (.inr (.inl ⟨⟨s.cached, .running⟩, ?_, hq⟩))
      exact hc ▸ Function.update_self _ _ _
    · intro d x hx hopen
      rcases of_update_some hx with ⟨rfl, rfl⟩ | ⟨-, hx⟩
      · exact hat
      · exact hi.attached d x hx hopen
    · intro d r hr
      rcases of_update_some hr with ⟨rfl, rfl⟩ | ⟨-, hr⟩
      · exact nofun
      · exact hi.finished d r hr

theorem Inv.settle {r : Refetch Q} {status : RefetchStatus} (hi : Inv affects s)
    (hr : s.refetches c = some r) (hst : status = .fulfilled → r.unread = ∅) :
    Inv affects (settle s c r status) where
  informed := by
    intro conn hconn hopen hclosing q hq w frame hframe haff
    rcases hi.informed conn hconn hopen hclosing q hq w frame hframe haff with
      hf | hf | ⟨r', hr', hf⟩ | hf | hf
    · exact .inl hf
    · exact .inr (.inl hf)
    · refine .inr (.inr (.inl ?_))
      by_cases hc : s.connectionId = c
      · rw [hc] at hr'
        cases Option.mem_unique hr hr'
        exact ⟨{ r with status := status }, hc ▸ Function.update_self _ _ _, hf⟩
      · exact ⟨r', (Function.update_of_ne hc _ _).trans hr', hf⟩
    · exact .inr (.inr (.inr (.inl hf)))
    · exact .inr (.inr (.inr (.inr hf)))
  published := hi.published
  attached := hi.attached
  finished := by
    intro d r' hr'
    rcases of_update_some hr' with ⟨rfl, rfl⟩ | ⟨-, hr'⟩
    · exact hst
    · exact hi.finished d r' hr'

variable [DecidableEq Q]

theorem Covered.of_read {conn : Conn} (hw : w < s.committed.length)
    (h : q' ≠ q → Covered s c conn w q') (hsame : s'.published = s.published)
    (hread : s'.fetchedAt = Function.update s.fetchedAt q s.committed.length)
    (hpending : q' ≠ q → q' ∈ s.pending → q' ∈ s'.pending)
    (hunread : q' ≠ q → Unread s c q' → Unread s' c q') : Covered s' c conn w q' := by
  by_cases hqq : q' = q
  · refine .inl ?_
    rw [hread, hqq, Function.update_self]
    exact hw
  · rcases h hqq with hf | hf | hf | hf | hf
    · refine .inl ?_
      rw [hread, Function.update_of_ne hqq]
      exact hf
    · exact .inr (.inl (hpending hqq hf))
    · exact .inr (.inr (.inl (hunread hqq hf)))
    · exact .inr (.inr (.inr (.inl hf)))
    · exact .inr (.inr (.inr (.inr (hsame ▸ hf))))

theorem Inv.onmessage {conn : Conn} {rest : List ℕ} (hi : Inv affects s)
    (hok : Superseded affects s (.onmessage c)) (hconn : s.conns c = some conn)
    (hfl : conn.inFlight = w :: rest) :
    Inv affects (onmessage affects (s.setConn c (some { conn with inFlight := rest })) c w) := by
  by_cases hc : c = s.connectionId
  swap
  · rw [SyncClient.onmessage, if_pos (.inl hc)]
    refine hi.setConn ?_ fun h => absurd h hc
    rintro x ⟨⟩
    exact hi.attached c conn hconn
  have hat : ∀ d, ∀ x ∈ (s.setConn c (some { conn with inFlight := rest })).conns d,
      x.opened = true → x.attached = true := by
    intro d x hx
    rcases of_update_some hx with ⟨rfl, rfl⟩ | ⟨-, hx⟩
    · exact hi.attached d conn hconn
    · exact hi.attached d x hx
  have hself : ∀ x ∈ (s.setConn c (some { conn with inFlight := rest })).conns s.connectionId,
      x = { conn with inFlight := rest } := by
    intro x hx
    rw [← hc] at hx
    cases (Function.update_self _ _ _).symm.trans hx
    rfl
  have hold : ∀ q ∈ s.cached, ∀ w', ∀ frame ∈ s.committed[w']?, affects frame q = true →
      conn.opened = true → conn.closing = false → w' ≠ w →
      Covered s s.connectionId { conn with inFlight := rest } w' q := by
    intro q hq w' frame hframe haff hopen hclosing hne
    rcases hi.informed conn (hc ▸ hconn) hopen hclosing q hq w' frame hframe haff with
      hf | hf | hf | hf | hf
    · exact .inl hf
    · exact .inr (.inl hf)
    · exact .inr (.inr (.inl hf))
    · rw [hfl] at hf
      exact .inr (.inr (.inr (.inl ((List.mem_cons.mp hf).resolve_left hne))))
    · exact .inr (.inr (.inr (.inr hf)))
  unfold SyncClient.onmessage
  split_ifs with hgate
  · refine ⟨?_, hi.published, hat, hi.finished⟩
    intro x hx hopen hclosing q hq w' frame hframe haff
    cases hself x hx
    by_cases hw : w' = w
    · subst hw
      have hg : s.gateInvalidations = true := hgate.resolve_left fun h => h hc
      rcases hok hc hg conn hconn w' (by rw [hfl]; rfl) frame hframe q hq haff with hf | hf | hf
      · exact .inl hf
      · exact .inr (.inl hf)
      · exact .inr (.inr (.inl (hc ▸ hf)))
    · exact hold q hq w' frame hframe haff hopen hclosing hw
  · split
    · rename_i frame₀ hframe₀
      refine ⟨?_, hi.published, hat, hi.finished⟩
      intro x hx hopen hclosing q hq w' frame hframe haff
      cases hself x hx
      by_cases hw : w' = w
      · subst hw
        cases Option.mem_unique hframe hframe₀
        exact .inr (.inl (Finset.mem_union_right _ (Finset.mem_filter.mpr ⟨hq, haff⟩)))
      · rcases hold q hq w' frame hframe haff hopen hclosing hw with hf | hf | hf | hf | hf
        · exact .inl hf
        · exact .inr (.inl (Finset.mem_union_left _ hf))
        · exact .inr (.inr (.inl hf))
        · exact .inr (.inr (.inr (.inl hf)))
        · exact .inr (.inr (.inr (.inr hf)))
    · rename_i hnone
      refine ⟨?_, hi.published, hat, hi.finished⟩
      intro x hx hopen hclosing q hq w' frame hframe haff
      cases hself x hx
      refine hold q hq w' frame hframe haff hopen hclosing ?_
      rintro rfl
      cases Option.some_ne_none _ (hframe.symm.trans hnone)

theorem Inv.refetchRead {r : Refetch Q} (hi : Inv affects s) (hr : s.refetches c = some r)
    (hrun : r.status = .running) :
    Inv affects { s.read q with
      refetches := Function.update s.refetches c (some { r with unread := r.unread.erase q }) }
    where
  informed := by
    intro conn hconn hopen hclosing q' hq w frame hframe haff
    refine .of_read (s := s) (q := q) (List.getElem?_eq_some_iff.mp hframe).1
      (fun _ => hi.informed conn hconn hopen hclosing q' hq w frame hframe haff) rfl rfl
      (fun _ h => h) fun hne => ?_
    rintro ⟨r', hr', hf⟩
    by_cases hc : s.connectionId = c
    · change s.refetches s.connectionId = some r' at hr'
      rw [hc, hr] at hr'
      cases hr'
      exact ⟨{ r with unread := r.unread.erase q }, hc ▸ Function.update_self _ _ _,
        Finset.mem_erase.mpr ⟨hne, hf⟩⟩
    · exact ⟨r', (Function.update_of_ne hc _ _).trans hr', hf⟩
  published := hi.published
  attached := hi.attached
  finished := by
    intro d r' hr' hst
    rcases of_update_some hr' with ⟨rfl, rfl⟩ | ⟨-, hr'⟩
    · rw [hrun] at hst
      cases hst
    · exact hi.finished d r' hr' hst

theorem Inv.fetch (hi : Inv affects s) :
    Inv affects { s.read q with pending := s.pending.erase q } where
  informed := fun conn hconn hopen hclosing q' hq w frame hframe haff =>
    .of_read (s := s) (q := q) (List.getElem?_eq_some_iff.mp hframe).1
      (fun _ => hi.informed conn hconn hopen hclosing q' hq w frame hframe haff) rfl rfl
      (fun hne h => Finset.mem_erase.mpr ⟨hne, h⟩) fun _ h => h
  published := hi.published
  attached := hi.attached
  finished := hi.finished

theorem Inv.display (hi : Inv affects s) :
    Inv affects { s with cached := insert q s.cached, pending := insert q s.pending } where
  informed := by
    intro conn hconn hopen hclosing q' hq w frame hframe haff
    rcases Finset.mem_insert.mp hq with rfl | hq
    · exact .inr (.inl (Finset.mem_insert_self _ _))
    · rcases hi.informed conn hconn hopen hclosing q' hq w frame hframe haff with
        hf | hf | hf | hf | hf
      · exact .inl hf
      · exact .inr (.inl (Finset.mem_insert_of_mem hf))
      · exact .inr (.inr (.inl hf))
      · exact .inr (.inr (.inr (.inl hf)))
      · exact .inr (.inr (.inr (.inr hf)))
  published := hi.published
  attached := hi.attached
  finished := hi.finished

theorem Inv.hide (hi : Inv affects s) :
    Inv affects { s with cached := s.cached.erase q, pending := s.pending.erase q } where
  informed := by
    intro conn hconn hopen hclosing q' hq w frame hframe haff
    obtain ⟨hne, hq⟩ := Finset.mem_erase.mp hq
    rcases hi.informed conn hconn hopen hclosing q' hq w frame hframe haff with
      hf | hf | hf | hf | hf
    · exact .inl hf
    · exact .inr (.inl (Finset.mem_erase.mpr ⟨hne, hf⟩))
    · exact .inr (.inr (.inl hf))
    · exact .inr (.inr (.inr (.inl hf)))
    · exact .inr (.inr (.inr (.inr hf)))
  published := hi.published
  attached := hi.attached
  finished := hi.finished

theorem Inv.preserved (hi : Inv affects s) (hok : Superseded affects s a)
    (h : step affects s a = some s') : Inv affects s' := by
  cases a with
  | commit frame => cases h; exact hi.commit frame
  | publish =>
    simp only [step] at h
    split_ifs at h with hp
    cases h
    exact hi.publish hp.2
  | loseListen => cases h; exact ⟨hi.informed, hi.published, hi.attached, hi.finished⟩
  | listenError =>
    simp only [step] at h
    split_ifs at h
    cases h
    exact hi.closeAll hi.published
  | restoreListen =>
    simp only [step] at h
    split_ifs at h
    cases h
    exact hi.closeAll le_rfl
  | connect =>
    cases h
    unfold connect
    split_ifs
    · exact ⟨hi.informed, hi.published, hi.attached, hi.finished⟩
    · exact Inv.establish ⟨hi.informed, hi.published, hi.attached, hi.finished⟩
  | close => cases h; exact ⟨hi.informed, hi.published, hi.attached, hi.finished⟩
  | reconnect =>
    simp only [step] at h
    split_ifs at h
    cases h
    exact Inv.establish ⟨hi.informed, hi.published, hi.attached, hi.finished⟩
  | attach c =>
    simp only [step] at h
    split at h
    · rename_i conn hconn
      split_ifs at h
      cases h
      refine hi.setConn (fun x hx _ => by cases hx; rfl) fun _ x hx hopen hclosing => ?_
      cases hx
      exact ⟨conn, hconn, hopen, hclosing, rfl⟩
    · cases h
  | onopen c =>
    simp only [step] at h
    split at h
    · rename_i conn hconn
      split_ifs at h with hat
      cases h
      exact hi.onopen hconn hat.1
    · cases h
  | onmessage c =>
    simp only [step] at h
    split at h
    · rename_i conn hconn
      split at h
      · rename_i w rest hfl
        split_ifs at h
        cases h
        exact hi.onmessage hok hconn hfl
      · cases h
    · cases h
  | drop c kept =>
    obtain ⟨conn, hconn, rfl⟩ := Option.map_eq_some_iff.mp h
    refine hi.setConn (fun x hx => ?_) fun _ x hx _ hclosing => ?_
    · cases hx
      exact hi.attached c conn hconn
    · cases hx
      cases hclosing
  | onclose c revoked =>
    simp only [step] at h
    split at h
    · split_ifs at h
      cases h
      have hi' : Inv affects (s.setConn c none) :=
        hi.setConn (fun x hx => by cases hx) fun _ x hx => by cases hx
      unfold onclose scheduleReconnect
      split_ifs <;> exact ⟨hi'.informed, hi'.published, hi'.attached, hi'.finished⟩
    · cases h
  | refetchRead c q =>
    simp only [step] at h
    split at h
    · rename_i r hr
      split_ifs at h with hrun
      cases h
      exact hi.refetchRead hr hrun.1
    · cases h
  | refetchFulfilled c =>
    simp only [step] at h
    split at h
    · rename_i r hr
      split_ifs at h with hrun
      cases h
      exact hi.settle hr fun _ => hrun.2
    · cases h
  | refetchRejected c =>
    simp only [step] at h
    split at h
    · rename_i r hr
      split_ifs at h with hrun
      cases h
      exact hi.settle hr nofun
    · cases h
  | display q => cases h; exact hi.display
  | hide q => cases h; exact hi.hide
  | fetch q =>
    simp only [step] at h
    split_ifs at h
    cases h
    exact hi.fetch

theorem neverLoses (affects : InvalidateFrame → Q → Bool) :
    NeverLoses affects (Superseded affects) := by
  intro s hs hq
  have hi : Inv affects s := hs.invariant inv_init fun _ _ _ hi hok h => hi.preserved hok h
  exact hi.fresh hq

instance (s : Sys Q) (c : ℕ) (q : Q) : Decidable (Unread s c q) :=
  inferInstanceAs (Decidable (∃ r ∈ s.refetches c, q ∈ r.unread))

set_option synthInstance.maxSize 256 in
instance (s : Sys Q) (a : Act Q) : Decidable (Superseded affects s a) := by
  cases a <;> unfold Superseded <;> infer_instance

omit [DecidableEq Q] in
theorem quiescent_of_run {o : Option (Sys Q)} {frames : List InvalidateFrame} (hs : o = some s)
    (hcommitted : s.committed = frames)
    (hconn : o.map (fun s => (s.connectionId, s.socket, s.conns 1)) =
      some (1, some 1, some ⟨true, true, false, []⟩))
    (hrefetched : o.map (fun s => (s.refetches 1).map (·.status)) = some (some .fulfilled))
    (hrest : o.map (fun s => (s.listening, s.published, s.pending)) =
      some (true, frames.length, ∅)) : Quiescent s := by
  subst hs
  simp only [Option.map_some, Option.some.injEq, Prod.mk.injEq] at hconn hrefetched hrest
  obtain ⟨hid, hsocket, hconn⟩ := hconn
  obtain ⟨r, hr, hst⟩ := Option.map_eq_some_iff.mp hrefetched
  obtain ⟨hlistening, hpublished, hpending⟩ := hrest
  rw [← hid] at hsocket hconn hr
  exact ⟨hsocket, ⟨_, hconn, rfl, rfl, rfl⟩, ⟨r, hr, hst⟩, hlistening,
    hpublished.trans (by rw [hcommitted]), hpending⟩

/-- A frame that arrives before the refetch has read meets the gate, and one that arrives after it
is fetched for. -/
def writesAroundRefetch : List (Act Unit) :=
  [.display (), .fetch (), .connect, .attach 1, .onopen 1, .commit (.schema "db"), .publish,
    .onmessage 1, .refetchRead 1 (), .refetchFulfilled 1, .commit (.schema "db"), .publish,
    .onmessage 1, .fetch ()]

theorem neverLoses_writesAroundRefetch : ∃ s, runActs (step fun _ (_ : Unit) => true) Sys.init
    writesAroundRefetch = some s ∧ s.committed.length = 2 ∧ Fresh (fun _ _ => true) s := by
  obtain ⟨s, hs⟩ := Option.isSome_iff_exists.mp
    (by decide +kernel : (runChecked (step fun _ (_ : Unit) => true)
      (fun s a => decide (Superseded (fun _ _ => true) s a)) Sys.init writesAroundRefetch).isSome =
        true)
  have hrun := runActs_of_runChecked hs
  have hcommitted := eq_of_map_eq (f := fun s => s.committed) hrun rfl
  exact ⟨s, hrun, congrArg List.length hcommitted, neverLoses _ s
    (.of_runChecked (fun _ _ h => of_decide_eq_true h) hs)
    (quiescent_of_run hrun hcommitted rfl rfl rfl)⟩

def writeDuringRefetch : List (Act Unit) :=
  [.display (), .fetch (), .connect, .attach 1, .onopen 1, .refetchRead 1 (),
    .commit (.schema "db"), .publish, .onmessage 1, .refetchFulfilled 1]

theorem frame_lost_behind_gate : ¬ NeverLoses (fun _ (_ : Unit) => true) fun _ _ => True := by
  intro hclaim
  obtain ⟨s, hs⟩ := Option.isSome_iff_exists.mp
    (rfl : (runActs (step fun _ (_ : Unit) => true) Sys.init writeDuringRefetch).isSome = true)
  have hcommitted := eq_of_map_eq (f := fun s => s.committed) hs rfl
  have hquiet := quiescent_of_run hs hcommitted rfl rfl rfl
  have hcached := eq_of_map_eq (f := fun s => decide (() ∈ s.cached)) hs rfl
  have hread := eq_of_map_eq (f := fun s => s.fetchedAt ()) hs rfl
  have hlt := hclaim s (.of_runActs hs) hquiet () (of_decide_eq_true hcached) 0 (.schema "db")
    (by rw [hcommitted]; rfl) rfl
  rw [hread] at hlt
  cases hlt

end SyncClient

end Semprec
