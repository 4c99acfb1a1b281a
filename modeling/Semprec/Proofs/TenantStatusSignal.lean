import Semprec.TenantStatusSignal
import Mathlib.Data.List.Basic

/-!
# No tenant deactivation is missed

What a client has to hand on it has from one of three: the signal is on its way to it or buffered,
or the commit came before its resync, or the call has been made (`Covers`).  The connection listens
before the resync reads, so a commit is before the read or its signal reaches the client.
-/

namespace Semprec

namespace TenantStatusSignal

open AccountAccess (TenantStatus TenantRow)

/-! ### Which client has which listeners -/

inductive Role where
  | free
  | setup
  | attached

def Client.Fits (x : Client) : Role → Prop
  | .free => (x.taken = true → x.released = 1) ∧ x.collect = false ∧ x.onNotification = false
  | .setup => x.taken = true ∧ x.released = 0 ∧ x.collect = true ∧ x.onNotification = false
  | .attached => x.taken = true ∧ x.released = 0 ∧ x.collect = false ∧ x.onNotification = true

theorem Client.Fits.of_same {x y : Client} {r : Role} (h : x.Fits r) (ht : y.taken = x.taken)
    (hr : y.released = x.released) (hcol : y.collect = x.collect)
    (hon : y.onNotification = x.onNotification) : y.Fits r := by
  rcases r <;> simpa only [Client.Fits, ht, hr, hcol, hon] using h

namespace Sys

variable {s s' : Sys} {c : ℕ}

def held (s : Sys) : Option ℕ := s.connecting.bind Phase.client

def role (s : Sys) (c : ℕ) : Role :=
  if s.client = some c then .attached else if s.held = some c then .setup else .free

theorem setClient_self (x : Client) : (s.setClient c x).clients c = x :=
  Function.update_self _ _ _

theorem setClient_of_ne {c' : ℕ} (x : Client) (h : c' ≠ c) :
    (s.setClient c x).clients c' = s.clients c' :=
  Function.update_of_ne h _ _

end Sys

open Sys

structure Roles (s : Sys) : Prop where
  fresh : ∀ c, s.nextClient ≤ c → (s.clients c).taken = false
  exclusive : s.client = none ∨ s.connecting = none
  closed : s.closed = true → s.client = none
  fits : ∀ c, (s.clients c).Fits (s.role c)

namespace Roles

variable {s s' : Sys} {c : ℕ}

theorem of_attached (h : Roles s) (hc : s.client = some c) : (s.clients c).Fits .attached := by
  have := h.fits c
  rwa [Sys.role, if_pos hc] at this

theorem connecting_none (h : Roles s) (hc : s.client = some c) : s.connecting = none :=
  h.exclusive.resolve_left fun hno => by simp [hno] at hc

theorem client_none {phase : Phase} (h : Roles s) (hp : s.connecting = some phase) :
    s.client = none :=
  h.exclusive.resolve_right fun hno => by simp [hno] at hp

theorem of_held {phase : Phase} (h : Roles s) (hp : s.connecting = some phase)
    (hc : phase.client = some c) : (s.clients c).Fits .setup := by
  have := h.fits c
  rwa [Sys.role, if_neg (by simp [h.client_none hp]), if_pos (by simp [Sys.held, hp, hc])] at this

theorem attached_of_onNotification (h : Roles s) (hc : (s.clients c).onNotification = true) :
    s.client = some c := by
  have hf := h.fits c
  by_contra hne
  rw [Sys.role, if_neg hne] at hf
  split_ifs at hf
  · simp [hf.2.2.2] at hc
  · simp [hf.2.2] at hc

theorem lt_next (h : Roles s) (hc : (s.clients c).taken = true) : c < s.nextClient := by
  by_contra hle
  simp [h.fresh c (Nat.le_of_not_lt hle)] at hc

/-- A step that changes neither the listeners of a client nor which is held. -/
theorem of_same (h : Roles s) (hnext : s'.nextClient = s.nextClient) (hclosed : s'.closed = s.closed)
    (hclient : s'.client = s.client) (hheld : s'.held = s.held)
    (hexclusive : s'.client = none ∨ s'.connecting = none)
    (hclients : ∀ c, (s'.clients c).taken = (s.clients c).taken ∧
      (s'.clients c).released = (s.clients c).released ∧
      (s'.clients c).collect = (s.clients c).collect ∧
      (s'.clients c).onNotification = (s.clients c).onNotification) : Roles s' := by
  refine ⟨fun c hc => ?_, hexclusive, fun hc => ?_, fun c => ?_⟩
  · rw [(hclients c).1]
    exact h.fresh c (hnext ▸ hc)
  · rw [hclient]
    exact h.closed (hclosed ▸ hc)
  · have hrole : s'.role c = s.role c := by simp only [Sys.role, hclient, hheld]
    obtain ⟨ht, hr, hcol, hon⟩ := hclients c
    rw [hrole]
    exact (h.fits c).of_same ht hr hcol hon

theorem notify (h : Roles s) (payload : Option ℕ) : Roles (s.notify payload) := by
  refine h.of_same rfl rfl rfl rfl h.exclusive fun c => ?_
  simp only [Sys.notify]
  split_ifs <;> exact ⟨rfl, rfl, rfl, rfl⟩

theorem release_held {phase : Phase} (h : Roles s) (hp : s.connecting = some phase)
    (hc : phase.client = some c) {connecting : Option Phase}
    (hconnecting : connecting.bind Phase.client = none) {initial failed : Bool} :
    Roles { s.release c with connecting, initial, failed } := by
  obtain ⟨ht, hr, -, -⟩ := h.of_held hp hc
  have hclient := h.client_none hp
  refine ⟨fun c' hc' => ?_, .inl hclient, fun _ => hclient, fun c' => ?_⟩
  · rcases eq_or_ne c' c with rfl | hne
    · exact absurd (h.lt_next ht) (Nat.not_lt.mpr hc')
    · simpa [Sys.release, setClient_of_ne _ hne] using h.fresh c' hc'
  · have hrole : Sys.role { s.release c with connecting, initial, failed } c' = .free := by
      have : (Sys.release s c).client = none := hclient
      simp [Sys.role, Sys.held, hconnecting, this]
    rw [hrole]
    rcases eq_or_ne c' c with rfl | hne
    · simp [Sys.release, setClient_self, Client.Fits, hr]
    · have hf := h.fits c'
      rw [Sys.role, if_neg (by simp [hclient]), if_neg (by simp [Sys.held, hp, hc, hne.symm])] at hf
      simpa [Sys.release, setClient_of_ne _ hne] using hf

theorem detach (h : Roles s) : Roles s.detach := by
  unfold Sys.detach
  split
  · exact h
  · rename_i c hc
    obtain ⟨ht, hr, -, -⟩ := h.of_attached hc
    have hconnecting := h.connecting_none hc
    refine ⟨fun c' hc' => ?_, .inl rfl, fun _ => rfl, fun c' => ?_⟩
    · rcases eq_or_ne c' c with rfl | hne
      · exact absurd (h.lt_next ht) (Nat.not_lt.mpr hc')
      · simpa [Sys.release, setClient_of_ne _ hne] using h.fresh c' hc'
    · have hrole : Sys.role (Sys.release { s with client := none } c) c' = .free := by
        simp [Sys.role, Sys.held, Sys.release, Sys.setClient, hconnecting]
      rw [hrole]
      rcases eq_or_ne c' c with rfl | hne
      · simp [Sys.release, setClient_self, Client.Fits, hr]
      · have hf := h.fits c'
        rw [Sys.role, if_neg (by simp [hc, hne.symm]), if_neg (by simp [Sys.held, hconnecting])] at hf
        simpa [Sys.release, setClient_of_ne _ hne] using hf

theorem detach_client : s.detach.client = none := by
  unfold Sys.detach
  split
  · assumption
  · rfl

end Roles

/-! ### What becomes of a deactivation -/

def Sys.Gone (s : Sys) (d : Deactivation) : Prop :=
  ∃ read ∈ s.attached, d.time < read.time ∧ d.tenantId ∉ read.deactivated

def Phase.Keeps (s : Sys) (x : Client) : Phase → Prop
  | .resync _ => x.listens = true
  | .answered _ read | .connected _ read => x.listens = true ∧ ∀ d ∈ s.deactivations,
    d.time < read.time ∨ some d.tenantId ∈ x.notifications ∨ some d.tenantId ∈ x.buffered
  | _ => True

def Phase.read : Phase → Option Resync
  | .answered _ read | .connected _ read => some read
  | _ => none

structure Covers (s : Sys) : Prop where
  times : ∀ d ∈ s.deactivations, d.time < s.time
  reads : ∀ read ∈ s.attached, read.time ≤ s.time
  pending : ∀ phase, s.connecting = some phase → ∀ read, phase.read = some read →
    read.time ≤ s.time
  resynced : ∀ d ∈ s.deactivations, ∀ read ∈ s.attached, d.time < read.time →
    s.Called d ∨ d.tenantId ∉ read.deactivated
  current : ∀ c, s.client = some c → (s.clients c).connected = true →
    (s.clients c).listens = true ∧ ∀ d ∈ s.deactivations,
      s.Called d ∨ some d.tenantId ∈ (s.clients c).notifications ∨ s.Gone d
  setup : ∀ phase c, s.connecting = some phase → phase.client = some c →
    (s.clients c).connected = true → phase.Keeps s (s.clients c)

namespace Covers

variable {s s' : Sys} {c : ℕ}

/-- A step of the tenants that is no deactivation: only the count of commits grows. -/
theorem commit (h : Covers s) (tenants : List TenantRow) :
    Covers { s with tenants, time := s.time + 1 } where
  times := fun d hd => Nat.lt_succ_of_lt (h.times d hd)
  reads := fun read hr => Nat.le_succ_of_le (h.reads read hr)
  pending := fun phase hp read hr => Nat.le_succ_of_le (h.pending phase hp read hr)
  resynced := h.resynced
  current := h.current
  setup := fun phase c hp hc hconn => by
    have := h.setup phase c hp hc hconn
    rcases phase <;> exact this

theorem mem_notify (payload : Option ℕ) {T : Option ℕ}
    (h : T ∈ (s.clients c).notifications) :
    T ∈ ((s.notify payload).clients c).notifications := by
  simp only [Sys.notify]
  split_ifs
  · exact List.mem_append_left _ h
  · exact h

theorem notify_same (s : Sys) (payload : Option ℕ) (c : ℕ) :
    ((s.notify payload).clients c).connected = (s.clients c).connected ∧
      ((s.notify payload).clients c).listens = (s.clients c).listens ∧
      ((s.notify payload).clients c).buffered = (s.clients c).buffered := by
  simp only [Sys.notify]
  split_ifs <;> exact ⟨rfl, rfl, rfl⟩

theorem mem_notify_self {payload : Option ℕ} (hl : (s.clients c).listens = true)
    (hc : (s.clients c).connected = true) :
    payload ∈ ((s.notify payload).clients c).notifications := by
  simp [Sys.notify, hl, hc]

theorem signal (h : Covers s) (tenants : List TenantRow) (time : ℕ) (ds : List Deactivation)
    (payload : Option ℕ) (htime : s.time ≤ time)
    (hds : ∀ d ∈ ds, s.time ≤ d.time ∧ d.time < time ∧ payload = some d.tenantId) :
    Covers (Sys.notify { s with tenants, time, deactivations := s.deactivations ++ ds }
      payload) where
  times := fun d hd => by
    rcases List.mem_append.mp hd with hd | hd
    · exact Nat.lt_of_lt_of_le (h.times d hd) htime
    · exact (hds d hd).2.1
  reads := fun read hr => Nat.le_trans (h.reads read hr) htime
  pending := fun phase hp read hr => Nat.le_trans (h.pending phase hp read hr) htime
  resynced := fun d hd read hr hlt => by
    rcases List.mem_append.mp hd with hd | hd
    · exact h.resynced d hd read hr hlt
    · exact absurd (Nat.lt_of_lt_of_le hlt (h.reads read hr)) (Nat.not_lt.mpr (hds d hd).1)
  current := fun c hc hconn => by
    obtain ⟨hconn', hlistens', -⟩ := notify_same
      { s with tenants, time, deactivations := s.deactivations ++ ds } payload c
    rw [hconn'] at hconn
    rw [hlistens']
    obtain ⟨hl, hall⟩ := h.current c hc hconn
    refine ⟨hl, fun d hd => ?_⟩
    rcases List.mem_append.mp hd with hd | hd
    · rcases hall d hd with hcalled | hin | hgone
      · exact .inl hcalled
      · exact .inr (.inl (mem_notify payload hin))
      · exact .inr (.inr hgone)
    · exact .inr (.inl ((hds d hd).2.2 ▸ mem_notify_self hl hconn))
  setup := fun phase c hp hc hconn => by
    obtain ⟨hconn', hlistens', hbuffered'⟩ := notify_same
      { s with tenants, time, deactivations := s.deactivations ++ ds } payload c
    rw [hconn'] at hconn
    have hkeeps := h.setup phase c hp hc hconn
    rcases phase with _ | c' | c' | ⟨c', read⟩ | ⟨c', read⟩ | _
    case resync => exact hlistens'.trans hkeeps
    case answered =>
      refine ⟨hlistens'.trans hkeeps.1, fun d hd => ?_⟩
      rw [hbuffered']
      rcases List.mem_append.mp hd with hd | hd
      · exact (hkeeps.2 d hd).imp_right (.imp_left (mem_notify payload))
      · exact .inr (.inl ((hds d hd).2.2 ▸ mem_notify_self hkeeps.1 hconn))
    case connected =>
      refine ⟨hlistens'.trans hkeeps.1, fun d hd => ?_⟩
      rw [hbuffered']
      rcases List.mem_append.mp hd with hd | hd
      · exact (hkeeps.2 d hd).imp_right (.imp_left (mem_notify payload))
      · exact .inr (.inl ((hds d hd).2.2 ▸ mem_notify_self hkeeps.1 hconn))
    all_goals trivial

theorem idle (h : Covers s) (htime : s'.time = s.time) (hd : s'.deactivations = s.deactivations)
    (hattached : s'.attached = s.attached) (hcalls : s'.calls = s.calls)
    (hclient : s'.client = none)
    (hphase : ∀ phase, s'.connecting = some phase → phase.read = none ∧ ∀ x, phase.Keeps s' x) :
    Covers s' where
  times := by rw [hd, htime]; exact h.times
  reads := by rw [hattached, htime]; exact h.reads
  pending := fun phase hp read hr => by simp [(hphase phase hp).1] at hr
  resynced := by
    rw [hd, hattached]
    unfold Sys.Called
    rw [hcalls]
    exact h.resynced
  current := fun c hc => by simp [hclient] at hc
  setup := fun phase c hp _ _ => (hphase phase hp).2 _

theorem of_clients (h : Covers s) (htime : s'.time = s.time)
    (hd : s'.deactivations = s.deactivations) (hattached : s'.attached = s.attached)
    (hcalls : s'.calls = s.calls) (hconnecting : s'.connecting = s.connecting)
    (hclient : ∀ c, s'.client = some c → s.client = some c ∧ s'.clients c = s.clients c)
    (hheld : ∀ c, s.held = some c → (s'.clients c).connected = true →
      s'.clients c = s.clients c) : Covers s' where
  times := by rw [hd, htime]; exact h.times
  reads := by rw [hattached, htime]; exact h.reads
  pending := by rw [hconnecting, htime]; exact h.pending
  resynced := by
    rw [hd, hattached]
    unfold Sys.Called
    rw [hcalls]
    exact h.resynced
  current := fun c hc => by
    obtain ⟨hc, hsame⟩ := hclient c hc
    unfold Sys.Called Sys.Gone
    rw [hd, hattached, hcalls, hsame]
    exact h.current c hc
  setup := fun phase c hp hc hconn => by
    rw [hconnecting] at hp
    have hsame := hheld c (by simp [Sys.held, hp, hc]) hconn
    rw [hsame] at hconn ⊢
    have := h.setup phase c hp hc hconn
    rcases phase with _ | c' | c' | ⟨c', read⟩ | ⟨c', read⟩ | _
    case answered => exact ⟨this.1, by rw [hd]; exact this.2⟩
    case connected => exact ⟨this.1, by rw [hd]; exact this.2⟩
    all_goals exact this

end Covers

/-! ### The attached client -/

theorem foldl_dispatch {s : Sys} (h : s.closed = false) (tenantIds : List ℕ) :
    tenantIds.foldl Sys.dispatch s =
      { s with calls := s.calls ++ tenantIds.map fun T => ⟨T, s.time⟩ } := by
  induction tenantIds generalizing s with
  | nil => simp
  | cons T tenantIds ih =>
    rw [List.foldl_cons, ih (by simp [Sys.dispatch, h])]
    simp [Sys.dispatch, h]

theorem foldl_onNotification {s : Sys} (h : s.closed = false) (payloads : List (Option ℕ)) :
    payloads.foldl Sys.onNotification s =
      { s with calls := s.calls ++ (payloads.filterMap id).map fun T => ⟨T, s.time⟩ } := by
  induction payloads generalizing s with
  | nil => simp
  | cons payload payloads ih =>
    rcases payload with _ | T
    · rw [List.foldl_cons, ih (by simpa [Sys.onNotification] using h)]
      simp [Sys.onNotification]
    · rw [List.foldl_cons, ih (by simp [Sys.onNotification, Sys.dispatch, h])]
      simp [Sys.onNotification, Sys.dispatch, h]

theorem attach_open {s : Sys} (h : s.closed = false) (c : ℕ) (read : Resync) :
    s.attach c read = { s.swapListeners c read with
      calls := s.calls ++ (read.deactivated ++ (s.clients c).buffered.filterMap id).map
        fun T => ⟨T, s.time⟩ } := by
  have hopen : (s.swapListeners c read).closed = false := h
  unfold Sys.attach
  rw [if_neg (by simp [h]), foldl_dispatch hopen, foldl_onNotification]
  · simp [Sys.swapListeners, Sys.setClient]
  · exact hopen

theorem swapListeners_self (s : Sys) (c : ℕ) (read : Resync) :
    (s.swapListeners c read).clients c =
      { s.clients c with collect := false, onNotification := true } :=
  Function.update_self _ _ _

theorem swapListeners_of_ne {s : Sys} {c c' : ℕ} {read : Resync} (h : c' ≠ c) :
    (s.swapListeners c read).clients c' = s.clients c' :=
  Function.update_of_ne h _ _

theorem Roles.attach {s : Sys} {c : ℕ} {read : Resync} (h : Roles s)
    (hp : s.connecting = some (.connected c read)) : Roles (s.attach c read) := by
  rcases hclosed : s.closed with _ | _
  · have hf := h.of_held hp rfl
    have hclient := h.client_none hp
    rw [attach_open hclosed]
    have hopen : (s.swapListeners c read).closed = false := hclosed
    refine ⟨fun c' hc' => ?_, .inr rfl, fun hc => by simp [hopen] at hc, fun c' => ?_⟩
    · have hne : c' ≠ c := Nat.ne_of_gt (Nat.lt_of_lt_of_le (h.lt_next hf.1) hc')
      change ((s.swapListeners c read).clients c').taken = false
      rw [swapListeners_of_ne hne]
      exact h.fresh c' hc'
    · rcases eq_or_ne c' c with rfl | hne
      · simp only [swapListeners_self]
        simp [Sys.role, swapListeners, Client.Fits, hf.1, hf.2.1]
      · have hf' := h.fits c'
        rw [Sys.role, if_neg (by simp [hclient]),
          if_neg (by simp [Sys.held, hp, Phase.client, hne.symm])] at hf'
        simp only [swapListeners_of_ne hne]
        simpa [Sys.role, Sys.held, swapListeners, hne.symm] using hf'
  · unfold Sys.attach
    rw [if_pos hclosed]
    exact h.release_held hp rfl rfl

theorem Covers.attach {s : Sys} {c : ℕ} {read : Resync} (h : Covers s) (hr : Roles s)
    (hp : s.connecting = some (.connected c read)) : Covers (s.attach c read) := by
  have hread : read.time ≤ s.time := h.pending _ hp read rfl
  rcases hclosed : s.closed with _ | _
  · have hs' := attach_open hclosed c read
    have hcalls : (s.attach c read).calls = s.calls ++
        (read.deactivated ++ (s.clients c).buffered.filterMap id).map fun T => ⟨T, s.time⟩ := by
      rw [hs']
    -- what was called before is still, and what was read or buffered is called now
    have hold : ∀ d, s.Called d → (s.attach c read).Called d := fun d ⟨call, hc, hcall⟩ =>
      ⟨call, by rw [hcalls]; exact List.mem_append_left _ hc, hcall⟩
    have hnew : ∀ d ∈ s.deactivations,
        d.tenantId ∈ read.deactivated ∨ some d.tenantId ∈ (s.clients c).buffered →
        (s.attach c read).Called d := by
      intro d hd hin
      refine ⟨⟨d.tenantId, s.time⟩, ?_, rfl, h.times d hd⟩
      rw [hcalls]
      refine List.mem_append_right _ (List.mem_map.mpr ⟨d.tenantId, ?_, rfl⟩)
      exact List.mem_append.mpr (hin.imp_right fun hb => List.mem_filterMap.mpr ⟨_, hb, rfl⟩)
    have hattached : (s.attach c read).attached = s.attached ++ [read] := by rw [hs']; rfl
    have hdeactivations : (s.attach c read).deactivations = s.deactivations := by rw [hs']; rfl
    have htime : (s.attach c read).time = s.time := by rw [hs']; rfl
    have hconnecting : (s.attach c read).connecting = none := by rw [hs']; rfl
    constructor
    case times => rw [hdeactivations, htime]; exact h.times
    case reads =>
      rw [hattached, htime]
      exact List.forall_mem_append.mpr ⟨h.reads, by simpa using hread⟩
    case pending => simp [hconnecting]
    case setup => simp [hconnecting]
    case resynced =>
      intro d hd r hmem hlt
      rw [hdeactivations] at hd
      rw [hattached] at hmem
      rcases List.mem_append.mp hmem with hmem | hmem
      · exact (h.resynced d hd r hmem hlt).imp_left (hold d)
      · obtain rfl := List.mem_singleton.mp hmem
        by_cases hin : d.tenantId ∈ r.deactivated
        · exact .inl (hnew d hd (.inl hin))
        · exact .inr hin
    case current =>
      intro c' hc' hconn
      have hclient : (s.attach c read).client = some c := by rw [hs']; rfl
      obtain rfl : c = c' := Option.some.inj (hclient.symm.trans hc')
      have hself : (s.attach c read).clients c =
          { s.clients c with collect := false, onNotification := true } := by
        rw [hs']
        exact swapListeners_self s c read
      rw [hself] at hconn ⊢
      obtain ⟨hl, hall⟩ := h.setup _ c hp rfl hconn
      refine ⟨hl, fun d hd => ?_⟩
      rw [hdeactivations] at hd
      rcases hall d hd with hlt | hin | hin
      · by_cases hmem : d.tenantId ∈ read.deactivated
        · exact .inl (hnew d hd (.inl hmem))
        · refine .inr (.inr ⟨read, ?_, hlt, hmem⟩)
          rw [hattached]
          exact List.mem_append_right _ (List.mem_singleton_self _)
      · exact .inr (.inl hin)
      · exact .inl (hnew d hd (.inr hin))
  · unfold Sys.attach
    rw [if_pos hclosed]
    exact h.idle rfl rfl rfl rfl (hr.client_none hp) nofun

/-! ### The steps -/

structure Inv (s : Sys) : Prop extends Roles s, Covers s

namespace Inv

variable {s s' : Sys} {c : ℕ}

theorem init (tenants : List TenantRow) : Inv (Sys.init tenants) := by
  refine ⟨⟨fun _ _ => rfl, .inl rfl, nofun, fun _ => ?_⟩, ⟨nofun, nofun, ?_, nofun, nofun, ?_⟩⟩
  · simp [Sys.init, Sys.role, Sys.held, Phase.client, Client.Fits, Client.untaken]
  · rintro phase ⟨⟩ read ⟨⟩
  · rintro phase c ⟨⟩ ⟨⟩

theorem commit (h : Inv s) (tenants : List TenantRow) :
    Inv { s with tenants, time := s.time + 1 } :=
  ⟨h.toRoles.of_same rfl rfl rfl rfl h.exclusive fun _ => ⟨rfl, rfl, rfl, rfl⟩,
    h.toCovers.commit tenants⟩

theorem deactivate (h : Inv s) (tenantId : ℕ) (status : TenantStatus) :
    Inv (s.deactivate tenantId status) := by
  have hr : Roles { s.setStatus tenantId status with
      deactivations := s.deactivations ++ [⟨tenantId, s.time⟩] } :=
    h.toRoles.of_same rfl rfl rfl rfl h.exclusive fun _ => ⟨rfl, rfl, rfl, rfl⟩
  refine ⟨hr.notify _, h.toCovers.signal _ (s.time + 1) [⟨tenantId, s.time⟩] _
    (Nat.le_succ _) ?_⟩
  intro d hd
  obtain rfl := List.mem_singleton.mp hd
  exact ⟨Nat.le_refl _, Nat.lt_succ_self _, rfl⟩

theorem notify (h : Inv s) (payload : Option ℕ) : Inv (s.notify payload) := by
  have hs : s = { s with deactivations := s.deactivations ++ [] } := by simp
  refine ⟨h.toRoles.notify payload, ?_⟩
  rw [hs]
  exact h.toCovers.signal _ s.time [] payload (Nat.le_refl _) nofun

theorem poolConnect (h : Inv s) (hp : s.connecting = some .poolConnect) :
    Inv { s.setClient s.nextClient ⟨true, 0, true, false, true, false, [], []⟩ with
      nextClient := s.nextClient + 1
      connecting := some (.listen s.nextClient) } := by
  have hclient := h.client_none hp
  refine ⟨⟨fun c hc => ?_, .inl hclient, fun _ => hclient, fun c => ?_⟩,
    h.toCovers.idle rfl rfl rfl rfl hclient ?_⟩
  · have hne : c ≠ s.nextClient := Nat.ne_of_gt hc
    simpa [Sys.setClient, Function.update_of_ne hne] using h.fresh c (Nat.le_of_succ_le hc)
  · rcases eq_or_ne c s.nextClient with rfl | hne
    · simp [Sys.role, Sys.held, Sys.setClient, Phase.client, hclient, Client.Fits]
    · have hf := h.fits c
      rw [Sys.role, if_neg (by simp [hclient]), if_neg (by simp [Sys.held, hp, Phase.client])] at hf
      simpa [Sys.role, Sys.held, Sys.setClient, Phase.client, hclient, hne, hne.symm] using hf
  · rintro phase ⟨⟩
    exact ⟨rfl, fun _ => trivial⟩

theorem connectFailed {phase : Phase} (h : Inv s) (hp : s.connecting = some phase)
    (hc : phase.client = none) : Inv s.connectFailed := by
  have hclient := h.client_none hp
  have hheld : s.held = none := by simp [Sys.held, hp, hc]
  unfold Sys.connectFailed
  split_ifs
  · exact ⟨h.toRoles.of_same rfl rfl rfl hheld.symm (.inl hclient) fun _ => ⟨rfl, rfl, rfl, rfl⟩,
      h.toCovers.idle rfl rfl rfl rfl hclient nofun⟩
  · exact ⟨h.toRoles.of_same rfl rfl rfl hheld.symm (.inl hclient) fun _ => ⟨rfl, rfl, rfl, rfl⟩,
      h.toCovers.idle rfl rfl rfl rfl hclient nofun⟩
  · refine ⟨h.toRoles.of_same rfl rfl rfl hheld.symm (.inl hclient) fun _ => ⟨rfl, rfl, rfl, rfl⟩,
      h.toCovers.idle rfl rfl rfl rfl hclient ?_⟩
    rintro phase ⟨⟩
    exact ⟨rfl, fun _ => trivial⟩

theorem failQuery {phase : Phase} (h : Inv s) (hp : s.connecting = some phase)
    (hc : phase.client = some c) : Inv (s.release c).connectFailed := by
  have hclient : (s.release c).client = none := h.client_none hp
  unfold Sys.connectFailed
  split_ifs
  · exact ⟨h.toRoles.release_held hp hc rfl, h.toCovers.idle rfl rfl rfl rfl hclient nofun⟩
  · exact ⟨h.toRoles.release_held hp hc rfl, h.toCovers.idle rfl rfl rfl rfl hclient nofun⟩
  · refine ⟨h.toRoles.release_held hp hc rfl, h.toCovers.idle rfl rfl rfl rfl hclient ?_⟩
    rintro phase ⟨⟩
    exact ⟨rfl, fun _ => trivial⟩

theorem goOn {phase next : Phase} {x : Client} (h : Inv s) (hp : s.connecting = some phase)
    (hc : phase.client = some c) (hnext : next.client = some c)
    (hx : x.taken = (s.clients c).taken ∧ x.released = (s.clients c).released ∧
      x.collect = (s.clients c).collect ∧ x.onNotification = (s.clients c).onNotification)
    (hread : ∀ read, next.read = some read → read.time ≤ s.time)
    (hkeeps : x.connected = true → next.Keeps s x) :
    Inv { s.setClient c x with connecting := some next } := by
  have hclient := h.client_none hp
  constructor
  · refine h.toRoles.of_same rfl rfl rfl ?_ (.inl hclient) fun c' => ?_
    · simp [Sys.held, hp, hc, hnext]
    · rcases eq_or_ne c' c with rfl | hne
      · simpa [Sys.setClient] using hx
      · simp [Sys.setClient, Function.update_of_ne hne]
  · refine ⟨h.times, h.reads, ?_, h.resynced, fun c' hc' => ?_, ?_⟩
    · rintro phase' ⟨⟩
      exact hread
    · have : s.client = some c' := hc'
      simp [hclient] at this
    · rintro phase' c' ⟨⟩ hc'
      obtain rfl : c = c' := Option.some.inj (hnext.symm.trans hc')
      simp only [Sys.setClient, Function.update_self]
      intro hconn
      have := hkeeps hconn
      rcases next <;> exact this

theorem goOn_same {phase : Phase} (next : Phase) (h : Inv s) (hp : s.connecting = some phase)
    (hc : phase.client = some c) (hnext : next.client = some c)
    (hread : ∀ read, next.read = some read → read.time ≤ s.time)
    (hkeeps : (s.clients c).connected = true → next.Keeps s (s.clients c)) :
    Inv { s with connecting := some next } := by
  have h' := h.goOn hp hc hnext ⟨rfl, rfl, rfl, rfl⟩ hread hkeeps
  have hself : s.setClient c (s.clients c) = s := by
    simp [Sys.setClient, Function.update_eq_self]
  rwa [hself] at h'

theorem detach (h : Inv s) : Inv s.detach := by
  refine ⟨h.toRoles.detach, ?_⟩
  unfold Sys.detach
  split
  · exact h.toCovers
  · rename_i c hc
    exact h.toCovers.idle rfl rfl rfl rfl rfl fun phase hp => by
      simp [Sys.release, Sys.setClient, h.connecting_none hc] at hp

theorem setClient {x : Client} (h : Inv s) (hlost : s.client = some c → x.connected = false)
    (hx : x.taken = (s.clients c).taken ∧ x.released = (s.clients c).released ∧
      x.collect = (s.clients c).collect ∧ x.onNotification = (s.clients c).onNotification)
    (hsetup : ∀ phase, s.connecting = some phase → phase.client = some c → x.connected = true →
      (s.clients c).connected = true ∧ (phase.Keeps s (s.clients c) → phase.Keeps s x)) :
    Inv (s.setClient c x) := by
  constructor
  · refine h.toRoles.of_same rfl rfl rfl rfl h.exclusive fun c' => ?_
    rcases eq_or_ne c' c with rfl | hc
    · simpa [Sys.setClient] using hx
    · simp [setClient_of_ne _ hc]
  · refine ⟨h.times, h.reads, h.pending, h.resynced, fun c' hc' => ?_, fun phase c' hp hc' => ?_⟩
    · rcases eq_or_ne c' c with rfl | hcc
      · rw [setClient_self, hlost hc']
        nofun
      · rw [setClient_of_ne _ hcc]
        exact h.current c' hc'
    · rcases eq_or_ne c' c with rfl | hcc
      · rw [setClient_self]
        intro hconn
        obtain ⟨hconn', hkeeps⟩ := hsetup phase hp hc' hconn
        have := hkeeps (h.setup phase c' hp hc' hconn')
        rcases phase <;> exact this
      · rw [setClient_of_ne _ hcc]
        intro hconn
        have := h.setup phase c' hp hc' hconn
        rcases phase <;> exact this

theorem deliver_attached {payload : Option ℕ} {rest : List (Option ℕ)} (h : Inv s)
    (hc : s.client = some c) (hn : (s.clients c).notifications = payload :: rest) :
    Inv ((s.setClient c { s.clients c with notifications := rest }).onNotification payload) := by
  have hopen : s.closed = false := by
    by_contra hclosed
    simp [h.closed (by simpa using hclosed)] at hc
  have hconnecting := h.connecting_none hc
  have hs' : (s.setClient c { s.clients c with notifications := rest }).onNotification payload =
      { s.setClient c { s.clients c with notifications := rest } with
        calls := s.calls ++ (payload.toList.map fun T => ⟨T, s.time⟩) } := by
    rcases payload with _ | T
    · simp [Sys.onNotification, Sys.setClient]
    · simp [Sys.onNotification, Sys.dispatch, Sys.setClient, hopen]
  rw [hs']
  have hcalled : ∀ d, s.Called d → Sys.Called
      { s.setClient c { s.clients c with notifications := rest } with
        calls := s.calls ++ (payload.toList.map fun T => ⟨T, s.time⟩) } d :=
    fun d ⟨call, hmem, hcall⟩ => ⟨call, List.mem_append_left _ hmem, hcall⟩
  constructor
  · refine h.toRoles.of_same rfl rfl rfl rfl h.exclusive fun c' => ?_
    rcases eq_or_ne c' c with rfl | hne
    · simp [Sys.setClient]
    · simp [Sys.setClient, Function.update_of_ne hne]
  · refine ⟨h.times, h.reads, h.pending,
      fun d hd read hr hlt => (h.resynced d hd read hr hlt).imp_left (hcalled d),
      fun c' hc' => ?_, fun phase c' hp => by simp [Sys.setClient, hconnecting] at hp⟩
    obtain rfl : c = c' := Option.some.inj (hc.symm.trans hc')
    simp only [Sys.setClient, Function.update_self]
    intro hconn
    obtain ⟨hl, hall⟩ := h.current c hc hconn
    refine ⟨hl, fun d hd => ?_⟩
    rcases hall d hd with hd' | hin | hgone
    · exact .inl (hcalled d hd')
    · rw [hn] at hin
      rcases List.mem_cons.mp hin with rfl | hin
      · exact .inl ⟨⟨d.tenantId, s.time⟩, List.mem_append_right _ (by simp), rfl, h.times d hd⟩
      · exact .inr (.inl hin)
    · exact .inr (.inr hgone)

theorem deliver (h : Inv s) (hs : step s (.deliver c) = some s') : Inv s' := by
  simp only [TenantStatusSignal.step] at hs
  split at hs
  · cases hs
  rename_i payload rest hn
  split_ifs at hs with hcollect hon
  · obtain rfl := Option.some.inj hs
    have hne : s.client ≠ some c := fun hc => by simp [(h.of_attached hc).2.2.1] at hcollect
    refine h.setClient (fun hc => absurd hc hne) ⟨rfl, rfl, rfl, rfl⟩
      fun phase hp hc hconn => ⟨hconn, fun hkeeps => ?_⟩
    -- what was on its way is buffered
    have hmove : ∀ T : Option ℕ, T ∈ (s.clients c).notifications ∨ T ∈ (s.clients c).buffered →
        T ∈ rest ∨ T ∈ (s.clients c).buffered ++ [payload] := by
      intro T hT
      rw [hn] at hT
      rcases hT with hT | hT
      · rcases List.mem_cons.mp hT with rfl | hT
        · exact .inr (List.mem_append_right _ (List.mem_singleton_self _))
        · exact .inl hT
      · exact .inr (List.mem_append_left _ hT)
    rcases phase with _ | _ | _ | _ | _ | _
    case resync => exact hkeeps
    case answered => exact ⟨hkeeps.1, fun d hd => (hkeeps.2 d hd).imp_right (hmove _)⟩
    case connected => exact ⟨hkeeps.1, fun d hd => (hkeeps.2 d hd).imp_right (hmove _)⟩
    all_goals trivial
  · obtain rfl := Option.some.inj hs
    exact h.deliver_attached (h.attached_of_onNotification hon) hn
  · obtain rfl := Option.some.inj hs
    have hne : s.client ≠ some c := fun hc => hon (h.of_attached hc).2.2.2
    refine h.setClient (fun hc => absurd hc hne) ⟨rfl, rfl, rfl, rfl⟩ fun phase hp hc _ => ?_
    exact absurd (h.of_held hp hc).2.2.1 (by simpa using hcollect)

theorem connectAgain (h : Inv s) (hclient : s.client = none) (hconnecting : s.connecting = none) :
    Inv { s with connecting := some .poolConnect } := by
  refine ⟨h.toRoles.of_same rfl rfl rfl ?_ (.inl hclient) fun _ => ⟨rfl, rfl, rfl, rfl⟩,
    h.toCovers.idle rfl rfl rfl rfl hclient ?_⟩
  · simp [Sys.held, hconnecting, Phase.client]
  · rintro phase ⟨⟩
    exact ⟨rfl, fun _ => trivial⟩

theorem error (h : Inv s) (hs : step s (.error c) = some s') : Inv s' := by
  simp only [TenantStatusSignal.step] at hs
  have hlost : Inv (s.setClient c { s.clients c with connected := false, notifications := [] }) :=
    h.setClient (fun _ => rfl) ⟨rfl, rfl, rfl, rfl⟩ fun _ _ _ hconn => by simp at hconn
  split_ifs at hs with htaken hon hrunning
  · obtain rfl := Option.some.inj hs
    exact hlost.detach
  · obtain rfl := Option.some.inj hs
    refine hlost.detach.connectAgain Roles.detach_client ?_
    have hconnecting := h.connecting_none (h.attached_of_onNotification hon)
    unfold Sys.detach
    split <;> exact hconnecting
  · obtain rfl := Option.some.inj hs
    exact hlost

theorem detach_closed (s : Sys) :
    Sys.detach { s with closed := true } = { s.detach with closed := true } := by
  unfold Sys.detach
  rcases hc : s.client with _ | c
  · simp only [← hc]
  · rfl

theorem detach_connecting (s : Sys) : s.detach.connecting = s.connecting := by
  unfold Sys.detach
  split <;> rfl

theorem close (h : Inv s) (hs : step s .close = some s') : Inv s' := by
  simp only [TenantStatusSignal.step, detach_closed] at hs
  split_ifs at hs with hopen hbackoff
  · obtain rfl := Option.some.inj hs
    have hclient : s.detach.client = none := Roles.detach_client
    have hconnecting := (detach_connecting s).trans hbackoff
    have hd := h.detach
    refine ⟨⟨hd.fresh, .inl hclient, fun _ => hclient, fun c => ?_⟩,
      hd.toCovers.idle rfl rfl rfl rfl hclient nofun⟩
    have hf := hd.fits c
    have hheld : s.detach.held = none := by simp [Sys.held, hconnecting, Phase.client]
    rw [Sys.role, if_neg (by simp [hclient]), if_neg (by simp [hheld])] at hf
    simpa [Sys.role, Sys.held, hclient] using hf
  · obtain rfl := Option.some.inj hs
    have hclient : s.detach.client = none := Roles.detach_client
    have hd := h.detach
    have hconnecting := detach_connecting s
    rw [← hconnecting]
    exact ⟨⟨hd.fresh, .inl hclient, fun _ => hclient, hd.fits⟩,
      hd.toCovers.of_clients rfl rfl rfl rfl rfl (fun _ hc => ⟨hc, rfl⟩) fun _ _ _ => rfl⟩

theorem endBackoff (h : Inv s) (hp : s.connecting = some .backoff) :
    Inv { s with connecting := if s.closed then none else some .poolConnect } := by
  have hclient := h.client_none hp
  refine ⟨h.toRoles.of_same rfl rfl rfl ?_ (.inl hclient) fun _ => ⟨rfl, rfl, rfl, rfl⟩,
    h.toCovers.idle rfl rfl rfl rfl hclient ?_⟩
  · simp only [Sys.held, hp]
    split_ifs <;> rfl
  · intro phase hphase
    dsimp only at hphase
    split_ifs at hphase
    obtain rfl := Option.some.inj hphase
    exact ⟨rfl, fun _ => trivial⟩

theorem step {a : Act} (h : Inv s) (hs : TenantStatusSignal.step s a = some s') : Inv s' := by
  cases a with
  | deactivate tenantId deleting =>
    simp only [TenantStatusSignal.step] at hs
    split_ifs at hs <;> obtain rfl := Option.some.inj hs <;> exact h.deactivate _ _
  | reactivate tenantId | purge tenantId =>
    simp only [TenantStatusSignal.step] at hs
    split_ifs at hs
    obtain rfl := Option.some.inj hs
    exact h.commit _
  | notify payload =>
    obtain rfl := Option.some.inj hs
    exact h.notify payload
  | poolConnect =>
    simp only [TenantStatusSignal.step] at hs
    split_ifs at hs with hp
    obtain rfl := Option.some.inj hs
    exact h.poolConnect hp
  | failPoolConnect =>
    simp only [TenantStatusSignal.step] at hs
    split_ifs at hs with hp
    obtain rfl := Option.some.inj hs
    exact h.connectFailed hp rfl
  | listen =>
    simp only [TenantStatusSignal.step] at hs
    split at hs
    · rename_i c hp
      split_ifs at hs
      obtain rfl := Option.some.inj hs
      exact h.goOn hp rfl rfl ⟨rfl, rfl, rfl, rfl⟩ nofun fun _ => rfl
    · cases hs
  | resync =>
    simp only [TenantStatusSignal.step] at hs
    split at hs
    · rename_i c hp
      split_ifs at hs with hconn
      obtain rfl := Option.some.inj hs
      refine h.goOn_same (.answered c _) hp rfl rfl ?_ fun _ =>
        ⟨h.setup _ c hp rfl hconn, fun d hd => .inl (h.times d hd)⟩
      rintro read ⟨⟩
      exact Nat.le_refl _
    · cases hs
  | answer =>
    simp only [TenantStatusSignal.step] at hs
    split at hs
    · rename_i c read hp
      split_ifs at hs with hconn
      obtain rfl := Option.some.inj hs
      have hkeeps := fun hc => h.setup _ c hp rfl hc
      exact h.goOn_same (.connected c read) hp rfl rfl (fun r hr => h.pending _ hp r hr) hkeeps
    · cases hs
  | failQuery =>
    simp only [TenantStatusSignal.step] at hs
    split at hs
    case h_4 => cases hs
    case h_1 hp | h_2 hp =>
      obtain rfl := Option.some.inj hs
      exact h.failQuery hp rfl
    case h_3 hp =>
      obtain rfl := Option.some.inj hs
      exact h.failQuery hp rfl
  | attach =>
    simp only [TenantStatusSignal.step] at hs
    split at hs
    · rename_i c read hp
      obtain rfl := Option.some.inj hs
      exact ⟨h.toRoles.attach hp, h.toCovers.attach h.toRoles hp⟩
    · cases hs
  | endBackoff =>
    simp only [TenantStatusSignal.step] at hs
    rw [Option.ite_none_right_eq_some] at hs
    obtain ⟨hp, hs⟩ := hs
    obtain rfl := Option.some.inj hs
    exact h.endBackoff hp
  | deliver c => exact h.deliver hs
  | error c => exact h.error hs
  | close => exact h.close hs

theorem reach {tenants : List TenantRow}
    (h : Reach TenantStatusSignal.step (fun _ _ => True) (Sys.init tenants) s) : Inv s :=
  h.invariant (init tenants) fun _ _ _ hi _ hs => hi.step hs

theorem noneMissedStill (h : Inv s) : s.NoneMissedStill where
  resynced := h.resynced
  connected := fun c hc hconn hn d hd => by
    rcases (h.current c hc hconn).2 d hd with hcalled | hin | hgone
    · exact .inl hcalled
    · simp [hn] at hin
    · exact .inr hgone

theorem clientsKept (h : Inv s) : s.ClientsKept where
  attached := fun c c' hc hc' =>
    Option.some.inj ((h.attached_of_onNotification hc).symm.trans (h.attached_of_onNotification hc'))
  released := fun c ht => by
    have hf := h.fits c
    unfold Sys.role at hf
    split_ifs at hf with hclient hheld
    · exact .inr ⟨hf.2.1, .inl hclient⟩
    · obtain ⟨phase, hp, hc⟩ := Option.bind_eq_some_iff.mp hheld
      exact .inr ⟨hf.2.1, .inr ⟨phase, hp, hc⟩⟩
    · exact .inl (hf.1 ht)

end Inv

theorem detach_calls (s : Sys) : s.detach.calls = s.calls := by
  unfold Sys.detach
  split <;> rfl

theorem connectFailed_calls (s : Sys) : s.connectFailed.calls = s.calls := by
  unfold Sys.connectFailed
  split_ifs <;> rfl

theorem onNotification_closed {s : Sys} (h : s.closed = true) (payload : Option ℕ) :
    s.onNotification payload = s := by
  rcases payload with _ | T
  · rfl
  · simp [Sys.onNotification, Sys.dispatch, h]

theorem calls_of_closed {s s' : Sys} {a : Act} (h : s.closed = true) (hs : step s a = some s') :
    s'.calls = s.calls := by
  cases a <;> simp only [step] at hs
  case attach =>
    split at hs
    · obtain rfl := Option.some.inj hs
      unfold Sys.attach
      rw [if_pos h]
      rfl
    · cases hs
  case deliver c =>
    split at hs
    · cases hs
    split_ifs at hs <;> obtain rfl := Option.some.inj hs
    · rfl
    · rw [onNotification_closed]
      · rfl
      · exact h
    · rfl
  case failQuery =>
    split at hs
    case h_4 => cases hs
    all_goals
      obtain rfl := Option.some.inj hs
      exact connectFailed_calls _
  case failPoolConnect =>
    split_ifs at hs
    obtain rfl := Option.some.inj hs
    exact connectFailed_calls s
  case close => simp [h] at hs
  case error c =>
    split_ifs at hs <;> obtain rfl := Option.some.inj hs
    · exact detach_calls _
    · exact detach_calls _
    · rfl
  case listen | resync | answer =>
    split at hs
    · split_ifs at hs
      obtain rfl := Option.some.inj hs
      rfl
    · cases hs
  case notify payload =>
    obtain rfl := Option.some.inj hs
    rfl
  all_goals
    split_ifs at hs
    all_goals
      obtain rfl := Option.some.inj hs
      rfl

/-- In every reachable state no deactivation has been missed of a tenant that was still deactivated
at the resync, the clients are kept, and no handler call starts once `close` has begun. -/
theorem noneMissedStill_of_reach {tenants : List TenantRow} {s : Sys}
    (h : Reach step (fun _ _ => True) (Sys.init tenants) s) :
    s.NoneMissedStill ∧ s.ClientsKept ∧
      ∀ a s', s.closed = true → step s a = some s' → s'.calls = s.calls :=
  have hi := Inv.reach h
  ⟨hi.noneMissedStill, hi.clientsKept, fun _ _ hclosed hs => calls_of_closed hclosed hs⟩

def connectionLost : List Act :=
  [.poolConnect, .listen, .resync, .answer, .attach, .error 0]

def reconnected : List Act := [.poolConnect, .listen, .resync, .answer, .attach]

theorem deactivatedWhileLost_called : ∃ s,
    runActs step (.init [⟨0, .active⟩]) (connectionLost ++ .deactivate 0 false :: reconnected) =
      some s ∧
    s.deactivations = [⟨0, 0⟩] ∧ s.calls = [⟨0, 1⟩] ∧ s.NoneMissedStill ∧ s.ClientsKept := by
  obtain ⟨s, hs⟩ := Option.isSome_iff_exists.mp (show (runActs step (.init [⟨0, .active⟩])
    (connectionLost ++ .deactivate 0 false :: reconnected)).isSome = true by decide +kernel)
  obtain ⟨hmissed, hclients, -⟩ := noneMissedStill_of_reach (.of_runActs hs)
  exact ⟨s, hs, eq_of_map_eq (f := fun s => s.deactivations) hs (by decide +kernel),
    eq_of_map_eq (f := fun s => s.calls) hs (by decide +kernel), hmissed, hclients⟩

/-- The tenant is suspended and reactivated while the connection is lost: the resync of the next
connect does not read it, and nobody is told. -/
theorem reactivatedWhileLost_missed : ∃ s,
    Reach step (fun _ _ => True) (.init [⟨0, .active⟩]) s ∧ s.closed = false ∧ s.client = some 1 ∧
      s.deactivations = [⟨0, 0⟩] ∧ s.calls = [] ∧ ¬ s.NoneMissed := by
  obtain ⟨s, hs⟩ := Option.isSome_iff_exists.mp (show (runActs step (.init [⟨0, .active⟩])
    (connectionLost ++ .deactivate 0 false :: .reactivate 0 :: reconnected)).isSome = true by
      decide +kernel)
  have hd : s.deactivations = [⟨0, 0⟩] :=
    eq_of_map_eq (f := fun s => s.deactivations) hs (by decide +kernel)
  have hcalls : s.calls = [] := eq_of_map_eq (f := fun s => s.calls) hs (by decide +kernel)
  have hattached : s.attached = [⟨[], 0⟩, ⟨[], 2⟩] :=
    eq_of_map_eq (f := fun s => s.attached) hs (by decide +kernel)
  refine ⟨s, .of_runActs hs, eq_of_map_eq (f := fun s => s.closed) hs (by decide +kernel),
    eq_of_map_eq (f := fun s => s.client) hs (by decide +kernel), hd, hcalls, fun h => ?_⟩
  obtain ⟨call, hcall, -⟩ := h ⟨0, 0⟩ (by simp [hd]) ⟨[], 2⟩ (by simp [hattached]) (by decide)
  simp [hcalls] at hcall

end TenantStatusSignal

end Semprec
