import Mathlib.Order.Nat
import Semprec.InvalidationCoalescer

/-!
# No invalidation is lost while its socket is open

A flush sends the frames of the queue in turn until the socket is closed (`flush_eq`), and a frame
that waits for its item takes the place of the queued one or gives way to it.
-/

namespace Semprec

namespace InvalidationCoalescer

variable {c c' : Client} {e x : Entry} {frame : Frame} {l : List Entry} {s s' : Sys}

/-! ## The map -/

theorem mem_setPending (h : x ∈ setPending e l) : x = e ∨ x ∈ l := by
  induction l with
  | nil => exact .inl (List.mem_singleton.mp h)
  | cons y rest ih =>
    unfold setPending at h
    split_ifs at h with hkey
    · rcases List.mem_cons.mp h with h | h
      · exact .inl h
      · exact .inr (List.mem_cons_of_mem _ h)
    · rcases List.mem_cons.mp h with h | h
      · exact .inr (h ▸ List.mem_cons_self)
      · exact (ih h).imp_right (List.mem_cons_of_mem _)

theorem self_mem_setPending : e ∈ setPending e l := by
  induction l with
  | nil => exact List.mem_singleton_self e
  | cons y rest ih =>
    unfold setPending
    split_ifs
    · exact List.mem_cons_self
    · exact List.mem_cons_of_mem _ ih

/-- What was queued for another item stays. -/
theorem mem_setPending_of_ne (h : x ∈ l) (hkey : x.frame.key ≠ e.frame.key) :
    x ∈ setPending e l := by
  induction l with
  | nil => cases h
  | cons y rest ih =>
    unfold setPending
    split_ifs with hy
    · rcases List.mem_cons.mp h with h | h
      · exact absurd (h ▸ hy) hkey
      · exact List.mem_cons_of_mem _ h
    · rcases List.mem_cons.mp h with h | h
      · exact h ▸ List.mem_cons_self
      · exact List.mem_cons_of_mem _ (ih h)

/-- A key that is there keeps its place, a new one comes last. -/
theorem keys_setPending : (setPending e l).map (fun x => x.frame.key) =
    if e.frame.key ∈ l.map (fun x => x.frame.key) then l.map fun x => x.frame.key
    else l.map (fun x => x.frame.key) ++ [e.frame.key] := by
  induction l with
  | nil => rfl
  | cons y rest ih =>
    unfold setPending
    by_cases hy : y.frame.key = e.frame.key
    · simp [hy]
    · have hne : ¬ e.frame.key = y.frame.key := fun h => hy h.symm
      rw [if_neg hy, List.map_cons, List.map_cons, ih]
      by_cases hmem : e.frame.key ∈ rest.map fun x => x.frame.key
      · rw [if_pos hmem, if_pos (List.mem_cons_of_mem _ hmem)]
      · rw [if_neg hmem, if_neg (by simp [hne, hmem])]
        rfl

theorem nodup_setPending (h : (l.map fun x => x.frame.key).Nodup) :
    ((setPending e l).map fun x => x.frame.key).Nodup := by
  rw [keys_setPending]
  split_ifs with hmem
  · exact h
  · rw [List.nodup_append]
    refine ⟨h, List.nodup_singleton _, fun k hk k' hk' => ?_⟩
    rw [List.mem_singleton.mp hk']
    exact fun heq => hmem (heq ▸ hk)

/-! ## Sending -/

/-- A socket that is not open is sent nothing. -/
theorem foldl_of_not_open (buffered : ℕ → ℕ) (h : c.readyState ≠ .OPEN) :
    l.foldl (fun c e => c.sendWithBackpressure e (buffered e.n)) c = c := by
  induction l with
  | nil => rfl
  | cons e rest ih =>
    rw [List.foldl_cons, show c.sendWithBackpressure e (buffered e.n) = c from if_pos h]
    exact ih

/-- The frames are sent in turn, all of them unless the socket is closed. -/
theorem foldl_send (buffered : ℕ → ℕ) (c : Client) :
    ∃ l₁ l₂ readyState bufferedAmount, l = l₁ ++ l₂ ∧
      l.foldl (fun c e => c.sendWithBackpressure e (buffered e.n)) c =
        { c with sent := c.sent ++ l₁, readyState, bufferedAmount } ∧
      (readyState = .OPEN → c.readyState = .OPEN ∧ l₂ = []) := by
  induction l generalizing c with
  | nil => exact ⟨[], [], c.readyState, c.bufferedAmount, rfl, by simp, fun h => ⟨h, rfl⟩⟩
  | cons e rest ih =>
    rw [List.foldl_cons]
    by_cases hopen : c.readyState = .OPEN
    · by_cases hfull : MAX_BUFFERED_BYTES < c.bufferedAmount
      · have hclosed : c.sendWithBackpressure e (buffered e.n) =
            { c with readyState := .CLOSING } := by
          rw [Client.sendWithBackpressure, if_neg (not_not.mpr hopen), if_pos hfull]
        rw [hclosed, foldl_of_not_open buffered (by nofun)]
        exact ⟨[], e :: rest, .CLOSING, c.bufferedAmount, rfl, by simp, nofun⟩
      · have hsent : c.sendWithBackpressure e (buffered e.n) =
            { c with sent := c.sent ++ [e], bufferedAmount := buffered e.n } := by
          rw [Client.sendWithBackpressure, if_neg (not_not.mpr hopen), if_neg hfull]
        obtain ⟨l₁, l₂, readyState, bufferedAmount, rfl, heq, hkept⟩ :=
          ih { c with sent := c.sent ++ [e], bufferedAmount := buffered e.n }
        refine ⟨e :: l₁, l₂, readyState, bufferedAmount, rfl, ?_, hkept⟩
        rw [hsent, heq]
        simp
    · rw [show c.sendWithBackpressure e (buffered e.n) = c from if_pos hopen,
        foldl_of_not_open buffered hopen]
      exact ⟨[], e :: rest, c.readyState, c.bufferedAmount, rfl, by simp,
        fun h => absurd h hopen⟩

/-! ## The invariant -/

structure Inv (c : Client) : Prop where
  ordered : c.Ordered
  kept : c.Kept
  numbered : ∀ e ∈ c.enqueued, e.n < c.enqueued.length
  queued : ∀ e ∈ c.pending, e ∈ c.enqueued
  sent : ∀ e ∈ c.sent, e ∈ c.enqueued
  later : ∀ e ∈ c.sent, ∀ e' ∈ c.pending, e.frame.key = e'.frame.key → e.n < e'.n

theorem inv_init : Inv .init where
  ordered := ⟨List.Pairwise.nil, List.nodup_nil, fun _ h => absurd rfl h⟩
  kept := ⟨nofun, nofun⟩
  numbered := nofun
  queued := nofun
  sent := nofun
  later := nofun

/-- What is queued is sent in its order, or given up with the socket. -/
theorem Inv.send (h : Inv c) {l₁ l₂ : List Entry} {readyState : ReadyState} {bufferedAmount : ℕ}
    (hl : c.pending = l₁ ++ l₂) (hopen : readyState = .OPEN → c.readyState = .OPEN ∧ l₂ = []) :
    Inv { c with
      pending := [], polling := false, sent := c.sent ++ l₁, readyState, bufferedAmount } where
  ordered :=
    { sent := by
        have hnodup := h.ordered.pending
        rw [hl, List.map_append] at hnodup
        have hdistinct := List.pairwise_map.mp hnodup.of_append_left
        refine List.pairwise_append.mpr ⟨h.ordered.sent,
          hdistinct.imp fun hne heq => absurd heq hne, fun e he e' he' hkey => ?_⟩
        exact h.later e he e' (hl ▸ List.mem_append_left _ he') hkey
      pending := List.nodup_nil
      polled := fun _ hne => absurd rfl hne }
  kept :=
    { kept := fun hready e he => by
        obtain ⟨hready, hnone⟩ := hopen hready
        obtain ⟨e', hgave, hmem⟩ := h.kept.kept hready e he
        rw [hl, hnone, List.append_nil] at hmem
        exact ⟨e', hgave, .inl (List.mem_append.mpr hmem)⟩
      newer := h.kept.newer }
  numbered := h.numbered
  queued := nofun
  sent := fun e he => (List.mem_append.mp he).elim (h.sent e)
    fun he => h.queued e (hl ▸ List.mem_append_left _ he)
  later := fun _ _ _ he' => absurd he' List.not_mem_nil

theorem Inv.drainTick (h : Inv c) (buffered : ℕ → ℕ) : Inv (c.drainTick buffered) := by
  unfold Client.drainTick
  split_ifs with hopen hempty
  · exact ⟨⟨h.ordered.sent, h.ordered.pending, fun hready => absurd hready hopen⟩,
      ⟨h.kept.kept, h.kept.newer⟩, h.numbered, h.queued, h.sent, h.later⟩
  · obtain ⟨l₁, l₂, readyState, bufferedAmount, hl, heq, hkept⟩ :=
      foldl_send (l := c.pending) buffered { c with polling := false, pending := [] }
    show Inv (c.pending.foldl _ { c with polling := false, pending := [] })
    rw [heq]
    exact h.send hl hkept
  · exact h

/-- A frame that is sent at once comes after all others. -/
theorem Inv.sendNow (h : Inv c) (hempty : c.pending = []) (he : e.n = c.enqueued.length)
    (buffered : ℕ) :
    Inv ({ c with enqueued := c.enqueued ++ [e] }.sendWithBackpressure e buffered) := by
  have hnumbered : ∀ x ∈ c.enqueued ++ [e], x.n < (c.enqueued ++ [e]).length := by
    intro x hx
    rw [List.length_append, List.length_singleton]
    rcases List.mem_append.mp hx with hx | hx
    · exact Nat.lt_succ_of_lt (h.numbered x hx)
    · rw [List.mem_singleton.mp hx]
      omega
  have hsent : ∀ x ∈ c.sent, x ∈ c.enqueued ++ [e] := fun x hx =>
    List.mem_append_left _ (h.sent x hx)
  have hnone : ∀ x ∈ c.pending, x ∈ c.enqueued ++ [e] := by simp [hempty]
  have hlater : ∀ x ∈ c.sent, ∀ y ∈ c.pending, x.frame.key = y.frame.key → x.n < y.n := by
    simp [hempty]
  unfold Client.sendWithBackpressure
  split_ifs with hopen hfull
  · exact ⟨⟨h.ordered.sent, h.ordered.pending, h.ordered.polled⟩,
      ⟨fun hready => absurd hready hopen, h.kept.newer⟩, hnumbered, hnone, hsent, h.later⟩
  · exact ⟨⟨h.ordered.sent, h.ordered.pending, nofun⟩, ⟨nofun, h.kept.newer⟩, hnumbered, hnone,
      hsent, h.later⟩
  · exact
    { ordered :=
        { sent := by
            refine List.pairwise_append.mpr ⟨h.ordered.sent, List.pairwise_singleton _ _,
              fun x hx y hy _ => ?_⟩
            rw [List.mem_singleton.mp hy, he]
            exact h.numbered x (h.sent x hx)
          pending := h.ordered.pending
          polled := fun _ hne => absurd hempty hne }
      kept :=
        { kept := fun _ x hx => by
            rcases List.mem_append.mp hx with hx | hx
            · obtain ⟨x', hgave, hmem⟩ := h.kept.kept (not_not.mp hopen) x hx
              exact ⟨x', hgave, hmem.imp_left (List.mem_append_left _)⟩
            · refine ⟨x, .refl, .inl ?_⟩
              exact List.mem_append_right _ hx
          newer := h.kept.newer }
      numbered := hnumbered
      queued := hnone
      sent := fun x hx => by
        rcases List.mem_append.mp hx with hx | hx
        · exact hsent x hx
        · exact List.mem_append_right _ hx
      later := fun _ _ y hy => by
        rw [show (_ : List Entry) = [] from hempty] at hy
        cases hy }

theorem Inv.queue (h : Inv c) (he : e.n = c.enqueued.length) {gaveWay : List (Entry × Entry)}
    (hnewer : ∀ y ∈ gaveWay, y.2 = e ∧ y.1 ∈ c.pending ∧ y.1.frame.key = e.frame.key ∧
      y.1.frame.updatedAt ≤ e.frame.updatedAt)
    (hgave : ∀ x ∈ c.pending, x.frame.key = e.frame.key → (x, e) ∈ gaveWay) :
    Inv { c with
      enqueued := c.enqueued ++ [e], pending := setPending e c.pending, polling := true,
      gaveWay := c.gaveWay ++ gaveWay } where
  ordered := ⟨h.ordered.sent, nodup_setPending h.ordered.pending, fun _ _ => rfl⟩
  kept :=
    { kept := fun hready x hx => by
        have hmono : ∀ x y, c.GaveWay x y →
            Relation.ReflTransGen (fun x y => (x, y) ∈ c.gaveWay ++ gaveWay) x y :=
          fun x y hxy => hxy.lift id fun _ _ hin => List.mem_append_left _ hin
        rcases List.mem_append.mp hx with hx | hx
        · obtain ⟨x', hxx', hmem⟩ := h.kept.kept hready x hx
          rcases hmem with hmem | hmem
          · exact ⟨x', hmono x x' hxx', .inl hmem⟩
          · by_cases hkey : x'.frame.key = e.frame.key
            · exact ⟨e, (hmono x x' hxx').tail (List.mem_append_right _ (hgave x' hmem hkey)),
                .inr self_mem_setPending⟩
            · exact ⟨x', hmono x x' hxx', .inr (mem_setPending_of_ne hmem hkey)⟩
        · rw [List.mem_singleton.mp hx]
          exact ⟨e, .refl, .inr self_mem_setPending⟩
      newer := fun y hy => by
        rcases List.mem_append.mp hy with hy | hy
        · exact h.kept.newer y hy
        · obtain ⟨heq, hmem, hkey, hle⟩ := hnewer y hy
          rw [heq, he]
          exact ⟨hkey, hle, .inl (h.numbered _ (h.queued _ hmem))⟩ }
  numbered := fun x hx => by
    rw [List.length_append, List.length_singleton]
    rcases List.mem_append.mp hx with hx | hx
    · exact Nat.lt_succ_of_lt (h.numbered x hx)
    · rw [List.mem_singleton.mp hx]
      omega
  queued := fun x hx => by
    rcases mem_setPending hx with rfl | hx
    · exact List.mem_append_right _ (List.mem_singleton_self _)
    · exact List.mem_append_left _ (h.queued x hx)
  sent := fun x hx => List.mem_append_left _ (h.sent x hx)
  later := fun x hx y hy hkey => by
    rcases mem_setPending hy with rfl | hy
    · rw [he]
      exact h.numbered x (h.sent x hx)
    · exact h.later x hx y hy hkey

theorem Inv.giveWay (h : Inv c) (he : e.n = c.enqueued.length) (hx : x ∈ c.pending)
    (hkey : x.frame.key = e.frame.key) (hlt : e.frame.updatedAt < x.frame.updatedAt) :
    Inv { c with
      enqueued := c.enqueued ++ [e], polling := true, gaveWay := c.gaveWay ++ [(e, x)] } where
  ordered := ⟨h.ordered.sent, h.ordered.pending, fun _ _ => rfl⟩
  kept :=
    { kept := fun hready y hy => by
        rcases List.mem_append.mp hy with hy | hy
        · obtain ⟨y', hyy', hmem⟩ := h.kept.kept hready y hy
          exact ⟨y', hyy'.lift id fun _ _ hin => List.mem_append_left _ hin, hmem⟩
        · rw [List.mem_singleton.mp hy]
          exact ⟨x, .single (List.mem_append_right _ (List.mem_singleton_self _)), .inr hx⟩
      newer := fun y hy => by
        rcases List.mem_append.mp hy with hy | hy
        · exact h.kept.newer y hy
        · rw [List.mem_singleton.mp hy]
          exact ⟨hkey.symm, hlt.le, .inr hlt⟩ }
  numbered := fun y hy => by
    rw [List.length_append, List.length_singleton]
    rcases List.mem_append.mp hy with hy | hy
    · exact Nat.lt_succ_of_lt (h.numbered y hy)
    · rw [List.mem_singleton.mp hy]
      omega
  queued := fun y hy => List.mem_append_left _ (h.queued y hy)
  sent := fun y hy => List.mem_append_left _ (h.sent y hy)
  later := h.later

theorem Inv.enqueue (h : Inv c) (frame : Frame) (buffered : ℕ) :
    Inv (c.enqueue frame buffered) := by
  unfold Client.enqueue
  dsimp only
  split_ifs with hnow
  · exact h.sendNow hnow.1 rfl buffered
  split
  · rename_i hfind
    have hnone := List.find?_eq_none.mp hfind
    have hqueued := h.queue (e := ⟨c.enqueued.length, frame⟩) rfl
      (fun y hy => absurd hy List.not_mem_nil) fun x hx hkey =>
        absurd hkey (by simpa using hnone x hx)
    rw [List.append_nil] at hqueued
    exact hqueued
  · rename_i existing hfind
    have hmem := List.mem_of_find?_eq_some hfind
    have hkey : existing.frame.key = frame.key := by simpa using List.find?_some hfind
    split_ifs with hle
    · refine h.queue rfl (fun y hy => ?_) fun x hx hxkey => ?_
      · rw [List.mem_singleton.mp hy]
        exact ⟨rfl, hmem, hkey, hle⟩
      · -- the queue has one frame an item
        have hx : x = existing := List.inj_on_of_nodup_map h.ordered.pending hx hmem
          (hxkey.trans hkey.symm)
        rw [hx]
        exact List.mem_singleton_self _
    · exact h.giveWay rfl hmem hkey (not_le.mp hle)

theorem Inv.socket (h : Inv c) {readyState : ReadyState} {bufferedAmount : ℕ}
    (hopen : readyState = .OPEN → c.readyState = .OPEN) :
    Inv { c with readyState, bufferedAmount } :=
  ⟨⟨h.ordered.sent, h.ordered.pending, fun hready => h.ordered.polled (hopen hready)⟩,
    ⟨fun hready => h.kept.kept (hopen hready), h.kept.newer⟩, h.numbered, h.queued, h.sent,
    h.later⟩

theorem Inv.close (h : Inv c) : Inv { c.discard with readyState := .CLOSED } :=
  ⟨⟨h.ordered.sent, List.nodup_nil, nofun⟩, ⟨nofun, h.kept.newer⟩, h.numbered, nofun, h.sent,
    fun _ _ _ he => absurd he List.not_mem_nil⟩

/-! ## Runs -/

theorem inv_update (h : ∀ ws, Inv (s ws)) {ws : ℕ} (hc : Inv c) (ws' : ℕ) :
    Inv (Function.update s ws c ws') := by
  by_cases hws : ws' = ws
  · rw [hws, Function.update_self]
    exact hc
  · rw [Function.update_of_ne hws]
    exact h ws'

theorem inv_step {a : Act} (h : ∀ ws, Inv (s ws)) (hs : step s a = some s') (ws : ℕ) :
    Inv (s' ws) := by
  cases a with
  | enqueue ws frame buffered =>
    cases hs
    exact inv_update h ((h ws).enqueue frame buffered) _
  | drainTick ws buffered =>
    simp only [step] at hs
    split_ifs at hs
    cases hs
    exact inv_update h ((h ws).drainTick buffered) _
  | buffer ws bufferedAmount =>
    cases hs
    exact inv_update h ((h ws).socket id) _
  | closing ws =>
    simp only [step] at hs
    split_ifs at hs
    cases hs
    have hclosing : Inv { s ws with readyState := .CLOSING } := (h ws).socket nofun
    exact inv_update h hclosing _
  | close ws =>
    cases hs
    exact inv_update h (h ws).close _

/-- In every run, on every socket: frames of one item are sent as they were enqueued, the queue holds
a frame an item and is polled while the socket is open, and until then every frame is sent or queued
or gave way to one that is. -/
theorem coalescer_kept (s : Sys) (hs : Reach step (fun _ _ => True) .init s) (ws : ℕ) :
    (s ws).Ordered ∧ (s ws).Kept := by
  have h : ∀ ws, Inv (s ws) := hs.invariant (fun _ => inv_init) fun _ _ _ hi _ hs => inv_step hi hs
  exact ⟨(h ws).ordered, (h ws).kept⟩

def edited (updatedAt : ℤ) : Frame := ⟨"tasks", "water", .update, updatedAt⟩

/-- An older frame of an item comes after the newer one, while the socket is behind. -/
def overtaken : List Act :=
  [.buffer 0 10, .enqueue 0 (edited 2) 0, .enqueue 0 (edited 1) 0, .buffer 0 0,
    .drainTick 0 fun _ => 0]

theorem overtaken_kept : ∃ s, runActs step .init overtaken = some s ∧ (s 0).Ordered ∧ (s 0).Kept := by
  obtain ⟨s, hs⟩ := Option.isSome_iff_exists.mp
    (by decide +kernel : (runActs step .init overtaken).isSome = true)
  exact ⟨s, hs, coalescer_kept s (.of_runActs hs) 0⟩

theorem overtaken_dropped : ¬ ∀ s, Reach step (fun _ _ => True) .init s →
    ∀ ws, (s ws).readyState = .OPEN → (s ws).SentOrSuperseded := by
  intro hall
  obtain ⟨s, hs⟩ := Option.isSome_iff_exists.mp
    (by decide +kernel : (runActs step .init overtaken).isSome = true)
  have hopen : (s 0).readyState = .OPEN :=
    eq_of_map_eq (f := fun s : Sys => (s 0).readyState) hs (by decide +kernel)
  have hstate : (s 0).sent = [⟨0, edited 2⟩] ∧ (s 0).pending = [] ∧
      (s 0).enqueued = [⟨0, edited 2⟩, ⟨1, edited 1⟩] :=
    of_decide_eq_true (eq_of_map_eq (f := fun s : Sys => decide ((s 0).sent = [⟨0, edited 2⟩] ∧
      (s 0).pending = [] ∧ (s 0).enqueued = [⟨0, edited 2⟩, ⟨1, edited 1⟩])) hs (by decide +kernel))
  obtain ⟨hsent, hpending, henqueued⟩ := hstate
  have hdropped := hall s (.of_runActs hs) 0 hopen ⟨1, edited 1⟩ (by simp [henqueued])
  rw [hsent, hpending, henqueued] at hdropped
  revert hdropped
  decide

end InvalidationCoalescer

end Semprec
