import Mathlib
import Semprec.SyncClient

/-!
# A client that is wanted is on its way

Next to the client stands what its user wants of it.  While `connect` is not called on the handle of
a timer that has fired, a wanted client has a socket or waits for its timer (`neverIdle`).  The
handle outlives a session that is rejected on a connection of the timer's own, and `connect` then
does nothing.
-/

namespace Semprec

namespace SyncClient

variable {Q : Type} {s s' : Sys Q}

/-- What happens to the client, a socket's error among it. -/
inductive Event (Q : Type) where
  | act (a : Act Q)
  | onerror (c : ℕ)

/-- The last call of the user, and whether the server has rejected the session since. -/
inductive Wish where
  | wanted
  | rejected
  | closed
deriving DecidableEq

structure Watched (Q : Type) where
  sys : Sys Q
  wish : Wish

def HasSocket (s : Sys Q) : Prop := ∃ c ∈ s.socket, (s.conns c).isSome = true

def Going (s : Sys Q) : Prop := HasSocket s ∨ s.reconnectTimer = .waiting

def TimerSpent (w : Watched Q) : Event Q → Prop
  | .act .connect => w.sys.socket = none → w.sys.reconnectTimer ≠ .fired
  | _ => True

instance (w : Watched Q) : ∀ event, Decidable (TimerSpent w event)
  | .act .connect =>
    inferInstanceAs (Decidable (w.sys.socket = none → w.sys.reconnectTimer ≠ .fired))
  | .act (.commit _) | .act .publish | .act .loseListen | .act .listenError | .act .restoreListen
  | .act .close | .act .reconnect | .act (.attach _) | .act (.onopen _) | .act (.onmessage _)
  | .act (.drop ..) | .act (.onclose ..) | .act (.refetchRead ..) | .act (.refetchFulfilled _)
  | .act (.refetchRejected _) | .act (.display _) | .act (.hide _) | .act (.fetch _)
  | .onerror _ => isTrue trivial

section

variable [DecidableEq Q]

def Watched.init : Watched Q := ⟨Sys.init, .closed⟩

def Wish.next (s : Sys Q) (wish : Wish) : Act Q → Wish
  | .connect => .wanted
  | .close => .closed
  | .onclose c revoked =>
    if c = s.connectionId ∧ revoked = true ∧ wish = .wanted then .rejected else wish
  | _ => wish

/-- `onerror` writes a line to the console. -/
def watch (affects : InvalidateFrame → Q → Bool) (w : Watched Q) : Event Q → Option (Watched Q)
  | .act a => (step affects w.sys a).map fun s => ⟨s, w.wish.next w.sys a⟩
  | .onerror c => (w.sys.conns c).map fun _ => w

/-- In every run the wanted client goes on, and one whose session was rejected opens a socket when
it is wanted again. -/
def NeverIdle (affects : InvalidateFrame → Q → Bool) (ok : Watched Q → Event Q → Prop) : Prop :=
  ∀ w, Reach (watch affects) ok Watched.init w →
    (w.wish = .wanted → Going w.sys) ∧
    (w.wish = .rejected → ok w (.act .connect) → HasSocket (connect w.sys))

end

namespace Watched

structure Inv (w : Watched Q) : Prop where
  socket : ∀ c ∈ w.sys.socket, c = w.sys.connectionId ∧ (w.sys.conns c).isSome = true
  timer : (w.sys.conns w.sys.connectionId).isSome = true → w.sys.reconnectTimer ≠ .waiting
  wanted : w.wish = .wanted → w.sys.closedByCaller = false ∧ Going w.sys
  rejected : w.wish = .rejected → w.sys.closedByCaller = true ∧ w.sys.socket = none ∧
    w.sys.reconnectTimer ≠ .waiting

theorem inv_init [DecidableEq Q] : (init : Watched Q).Inv where
  socket := nofun
  timer := nofun
  wanted := nofun
  rejected := nofun

theorem Inv.frame {wish : Wish} (hi : Inv ⟨s, wish⟩) (hsocket : s'.socket = s.socket)
    (hid : s'.connectionId = s.connectionId) (htimer : s'.reconnectTimer = s.reconnectTimer)
    (hclosed : s'.closedByCaller = s.closedByCaller)
    (hconns : ∀ c, (s'.conns c).isSome = (s.conns c).isSome) : Inv ⟨s', wish⟩ where
  socket c hc := by
    simp only [hsocket, hid, hconns] at hc ⊢
    exact hi.socket c hc
  timer h := by
    simp only [hid, htimer, hconns] at h ⊢
    exact hi.timer h
  wanted h := by
    simp only [Going, HasSocket, hsocket, htimer, hclosed, hconns]
    exact hi.wanted h
  rejected h := by
    simp only [hsocket, htimer, hclosed]
    exact hi.rejected h

theorem isSome_setConn {c : ℕ} {conn conn' : Conn} (hconn : s.conns c = some conn) (c' : ℕ) :
    ((s.setConn c (some conn')).conns c').isSome = (s.conns c').isSome := by
  simp only [Sys.setConn, Function.update_apply]
  split_ifs with h
  · simp [h, hconn]
  · rfl

theorem Inv.setConn {wish : Wish} {c : ℕ} {conn conn' : Conn} (hi : Inv ⟨s, wish⟩)
    (hconn : s.conns c = some conn) : Inv ⟨s.setConn c (some conn'), wish⟩ :=
  hi.frame rfl rfl rfl rfl (isSome_setConn hconn)

theorem hasSocket_establish (h : s.closedByCaller = false) :
    HasSocket (establishConnection s) := by
  simp [HasSocket, establishConnection, h, Sys.setConn]

theorem Inv.establish (hclosed : s.closedByCaller = false) (htimer : s.reconnectTimer ≠ .waiting) :
    Inv ⟨establishConnection s, .wanted⟩ where
  socket c hc := by
    simp only [establishConnection, hclosed, Bool.false_eq_true, if_false] at hc ⊢
    obtain rfl : s.connectionId + 1 = c := by simpa using hc
    simp [Sys.setConn]
  timer _ := by simpa [establishConnection, hclosed, Sys.setConn] using htimer
  wanted _ := ⟨by simp [establishConnection, hclosed, Sys.setConn], .inl (hasSocket_establish hclosed)⟩
  rejected := nofun

theorem Inv.connect {wish : Wish} (hi : Inv ⟨s, wish⟩)
    (hspent : s.socket = none → s.reconnectTimer ≠ .fired) :
    Inv ⟨SyncClient.connect s, .wanted⟩ := by
  unfold SyncClient.connect
  split_ifs with hbusy
  · refine ⟨hi.socket, hi.timer, fun _ => ⟨rfl, ?_⟩, nofun⟩
    rcases Option.eq_none_or_eq_some s.socket with hsocket | ⟨c, hsocket⟩
    · have hset := hbusy.resolve_left (by simp [hsocket])
      have hfired := hspent hsocket
      exact .inr (by rcases htimer : s.reconnectTimer <;> simp_all)
    · exact .inl ⟨c, hsocket, (hi.socket c hsocket).2⟩
  · obtain ⟨-, hunset⟩ := not_or.mp hbusy
    refine Inv.establish rfl fun hwaiting => hunset fun h => ?_
    exact nomatch h.symm.trans hwaiting

/-- A connection that a newer has taken the place of is gone. -/
theorem Inv.stale {wish : Wish} {c : ℕ} (hi : Inv ⟨s, wish⟩) (hstale : c ≠ s.connectionId) :
    Inv ⟨s.setConn c none, wish⟩ := by
  have hcurrent : (s.setConn c none).conns s.connectionId = s.conns s.connectionId :=
    Function.update_of_ne hstale.symm _ _
  have hsocket : ∀ c' ∈ s.socket, (s.setConn c none).conns c' = s.conns c' := by
    intro c' hc'
    rw [(hi.socket c' hc').1, hcurrent]
  refine ⟨fun c' hc' => ?_, fun h => ?_, fun h => ?_, hi.rejected⟩
  · exact ⟨(hi.socket c' hc').1, by simpa only [hsocket c' hc'] using (hi.socket c' hc').2⟩
  · exact hi.timer ((congrArg Option.isSome hcurrent).symm.trans h)
  · obtain ⟨hclosed, hgoing⟩ := hi.wanted h
    refine ⟨hclosed, hgoing.imp_left ?_⟩
    rintro ⟨c', hc', hsome⟩
    exact ⟨c', hc', by simpa only [hsocket c' hc'] using hsome⟩

theorem Inv.onclose {wish : Wish} {c : ℕ} {conn : Conn} {revoked : Bool} (hi : Inv ⟨s, wish⟩)
    (hconn : s.conns c = some conn) :
    Inv ⟨SyncClient.onclose (s.setConn c none) c revoked,
      if c = s.connectionId ∧ revoked = true ∧ wish = .wanted then .rejected else wish⟩ := by
  have hid : (s.setConn c none).connectionId = s.connectionId := rfl
  unfold SyncClient.onclose
  rw [hid]
  by_cases hstale : c ≠ s.connectionId
  · rw [if_pos hstale, if_neg fun h => hstale h.1]
    exact hi.stale hstale
  · obtain rfl := not_not.mp hstale
    have hgone : ((s.setConn s.connectionId none).conns s.connectionId).isSome = false := by
      simp [Sys.setConn]
    have htimer : s.reconnectTimer ≠ .waiting := hi.timer (by rw [hconn]; rfl)
    rw [if_neg fun h => h rfl]
    rcases revoked with _ | _
    · rw [if_neg Bool.false_ne_true, if_neg fun h => Bool.false_ne_true h.2.1, scheduleReconnect]
      split_ifs with hclosed
      · refine ⟨(fun _ h => by cases h), (fun h => by cases hgone.symm.trans h), fun h => ?_, fun _ => ?_⟩
        · cases hclosed.symm.trans (hi.wanted h).1
        · exact ⟨hclosed, rfl, htimer⟩
      · refine ⟨(fun _ h => by cases h), (fun h => by cases hgone.symm.trans h), fun _ => ?_, fun h => ?_⟩
        · exact ⟨Bool.not_eq_true _ ▸ hclosed, .inr rfl⟩
        · exact absurd (hi.rejected h).1 hclosed
    · rw [if_pos rfl]
      refine ⟨(fun _ h => by cases h), (fun h => by cases hgone.symm.trans h), fun h => ?_, fun _ => ?_⟩
      · simp only [true_and] at h
        split_ifs at h with hwish
        exact absurd h hwish
      · exact ⟨rfl, rfl, htimer⟩

variable [DecidableEq Q] {affects : InvalidateFrame → Q → Bool} {w w' : Watched Q} {event : Event Q}

/-- An action of the client or around it. -/
theorem Inv.act {wish : Wish} {a : Act Q} (hi : Inv ⟨s, wish⟩)
    (hok : TimerSpent ⟨s, wish⟩ (.act a)) (h : step affects s a = some s') :
    Inv ⟨s', wish.next s a⟩ := by
  have hsame : ∀ {s' : Sys Q}, s'.socket = s.socket → s'.connectionId = s.connectionId →
      s'.reconnectTimer = s.reconnectTimer → s'.closedByCaller = s.closedByCaller →
      (∀ c, (s'.conns c).isSome = (s.conns c).isSome) → Inv ⟨s', wish⟩ := hi.frame
  rcases a with frame | _ | _ | _ | _ | _ | _ | _ | c | c | c | ⟨c, kept⟩ | ⟨c, revoked⟩ | ⟨c, q⟩ |
    c | c | q | q | q <;> simp only [step] at h
  case commit | loseListen | display | hide =>
    obtain rfl := Option.some.inj h
    exact hsame rfl rfl rfl rfl fun _ => rfl
  case publish | listenError | restoreListen =>
    split_ifs at h
    obtain rfl := Option.some.inj h
    exact hsame rfl rfl rfl rfl fun _ => Option.isSome_map
  case connect =>
    obtain rfl := Option.some.inj h
    exact hi.connect hok
  case close =>
    obtain rfl := Option.some.inj h
    exact ⟨nofun, fun _ => nofun, nofun, nofun⟩
  case reconnect =>
    split_ifs at h with hwaiting
    obtain rfl := Option.some.inj h
    rcases wish with _ | _ | _
    · exact Inv.establish (hi.wanted rfl).1 nofun
    · exact absurd hwaiting (hi.rejected rfl).2.2
    · by_cases hclosed : s.closedByCaller = true
      · have hstays : establishConnection { s with reconnectTimer := .fired } =
            { s with reconnectTimer := .fired } := if_pos hclosed
        rw [hstays]
        exact ⟨hi.socket, fun _ => nofun, nofun, nofun⟩
      · have hnew := Inv.establish (s := { s with reconnectTimer := .fired })
          (Bool.not_eq_true _ ▸ hclosed) nofun
        exact ⟨hnew.socket, hnew.timer, nofun, nofun⟩
  case attach =>
    split at h
    · rename_i conn hconn
      split_ifs at h
      obtain rfl := Option.some.inj h
      exact hi.setConn hconn
    · exact nomatch h
  case onopen =>
    split at h
    · rename_i conn hconn
      split_ifs at h
      obtain rfl := Option.some.inj h
      unfold SyncClient.onopen
      split_ifs
      · exact hi.setConn hconn
      · exact hsame rfl rfl rfl rfl (isSome_setConn hconn)
    · exact nomatch h
  case onmessage =>
    split at h
    · rename_i conn hconn
      split at h
      · split_ifs at h
        obtain rfl := Option.some.inj h
        unfold SyncClient.onmessage
        split_ifs
        · exact hi.setConn hconn
        · split
          · exact hsame rfl rfl rfl rfl (isSome_setConn hconn)
          · exact hi.setConn hconn
      · exact nomatch h
    · exact nomatch h
  case drop =>
    obtain ⟨conn, hconn, rfl⟩ := Option.map_eq_some_iff.mp h
    exact hi.setConn hconn
  case onclose =>
    split at h
    · rename_i conn hconn
      split_ifs at h
      obtain rfl := Option.some.inj h
      exact hi.onclose hconn
    · exact nomatch h
  case refetchRead | refetchFulfilled | refetchRejected =>
    split at h
    · split_ifs at h
      obtain rfl := Option.some.inj h
      exact hsame rfl rfl rfl rfl fun _ => rfl
    · exact nomatch h
  case fetch =>
    split_ifs at h
    obtain rfl := Option.some.inj h
    exact hsame rfl rfl rfl rfl fun _ => rfl

theorem Inv.preserved (hi : w.Inv) (hok : TimerSpent w event) (h : watch affects w event = some w') :
    w'.Inv := by
  rcases event with a | c
  · obtain ⟨s', hs', rfl⟩ := Option.map_eq_some_iff.mp h
    exact hi.act hok hs'
  · obtain ⟨conn, -, rfl⟩ := Option.map_eq_some_iff.mp h
    exact hi

end Watched

theorem reconnectTimer_connect (s : Sys Q) : (connect s).reconnectTimer = s.reconnectTimer := by
  unfold connect establishConnection
  split_ifs <;> rfl

theorem neverIdle [DecidableEq Q] (affects : InvalidateFrame → Q → Bool) :
    NeverIdle affects TimerSpent := by
  intro w hw
  have hi : w.Inv := hw.invariant Watched.inv_init fun _ _ _ hi hok h => hi.preserved hok h
  refine ⟨fun hwanted => (hi.wanted hwanted).2, fun hrejected hspent => ?_⟩
  obtain ⟨-, hsocket, hwaiting⟩ := hi.rejected hrejected
  have hgoing : Going (connect w.sys) := 
    ((show Watched.Inv ⟨w.sys, w.wish⟩ from hi).connect hspent).wanted rfl |>.2
  refine hgoing.resolve_right fun htimer => hwaiting ?_
  rwa [reconnectTimer_connect] at htimer

def reconnectedThenRejected : List (Event Unit) :=
  [.act .connect, .act (.drop 1 0), .act (.onclose 1 false), .act .reconnect, .act .close,
    .act .connect, .act (.drop 3 0), .act (.onclose 3 true)]

theorem neverIdle_rejected : ∃ w, runActs (watch fun _ (_ : Unit) => true) Watched.init
    reconnectedThenRejected = some w ∧ w.wish = .rejected ∧ HasSocket (connect w.sys) := by
  obtain ⟨w, hw⟩ := Option.isSome_iff_exists.mp
    (by decide +kernel : (runChecked (watch fun _ (_ : Unit) => true)
      (fun w event => decide (TimerSpent w event)) Watched.init reconnectedThenRejected).isSome =
        true)
  have hwish := eq_of_map_eq (f := fun w => w.wish) (b := .rejected) hw (by decide +kernel)
  have hspent := eq_of_map_eq (f := fun w => decide (TimerSpent w (.act .connect))) (b := true) hw
    (by decide +kernel)
  exact ⟨w, runActs_of_runChecked hw, hwish, (neverIdle _ w
    (.of_runChecked (fun _ _ h => of_decide_eq_true h) hw)).2 hwish (of_decide_eq_true hspent)⟩

def rejectedAfterReconnect : List (Event Unit) :=
  [.act .connect, .act (.drop 1 0), .act (.onclose 1 false), .act .reconnect, .act (.drop 2 0),
    .act (.onclose 2 true), .act .connect]

theorem idle_after_rejection : ¬NeverIdle (fun _ (_ : Unit) => true) fun _ _ => True := by
  intro hclaim
  obtain ⟨w, hw⟩ := Option.isSome_iff_exists.mp
    (rfl : (runActs (watch fun _ (_ : Unit) => true) Watched.init rejectedAfterReconnect).isSome =
      true)
  have hsocket := eq_of_map_eq (f := fun w => w.sys.socket) hw rfl
  have htimer := eq_of_map_eq (f := fun w => w.sys.reconnectTimer) hw rfl
  have hwish := eq_of_map_eq (f := fun w => w.wish) hw rfl
  rcases (hclaim w (.of_runActs hw)).1 hwish with ⟨c, hc, -⟩ | hwaiting
  · exact nomatch hsocket.symm.trans hc
  · exact nomatch htimer.symm.trans hwaiting

end SyncClient

end Semprec
