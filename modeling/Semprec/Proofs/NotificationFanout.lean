import Mathlib.Data.List.Nodup
import Semprec.NotificationFanout

/-!
# Every registration once

An attempt's statuses are read after its registrations have been claimed, so each has one, and a
registration that the loop has not passed has its outcome recorded now just if it had then.  No
registration is added during an attempt, so the active row of a registration's endpoint or token is
the registration itself.
-/

namespace Semprec

namespace NotificationFanout

variable {rows : List PushSubscriptionRow} {deliveries : List PushDeliveryRow} {userId : ℕ}

/-! ## Registrations -/

structure Rows (rows : List PushSubscriptionRow) : Prop where
  ids : (rows.map PushSubscriptionRow.id).Nodup
  keys : ∀ a ∈ rows, ∀ b ∈ rows, a.revoked = false → b.revoked = false →
    a.target.key = b.target.key → a.id = b.id

structure Retires (f : PushSubscriptionRow → PushSubscriptionRow) : Prop where
  id : ∀ row, (f row).id = row.id
  key : ∀ row, (f row).target.key = row.target.key
  active : ∀ row, (f row).revoked = false → row.revoked = false

theorem Retires.map_id {f : PushSubscriptionRow → PushSubscriptionRow} (hf : Retires f)
    (rows : List PushSubscriptionRow) :
    (rows.map f).map PushSubscriptionRow.id = rows.map PushSubscriptionRow.id := by
  rw [List.map_map]
  exact List.map_congr_left fun row _ => hf.id row

theorem Rows.map (h : Rows rows) {f : PushSubscriptionRow → PushSubscriptionRow}
    (hf : Retires f) : Rows (rows.map f) where
  ids := by
    rw [hf.map_id]
    exact h.ids
  keys a ha b hb hra hrb hkey := by
    obtain ⟨a, hamem, rfl⟩ := List.mem_map.mp ha
    obtain ⟨b, hbmem, rfl⟩ := List.mem_map.mp hb
    rw [hf.key, hf.key] at hkey
    rw [hf.id, hf.id]
    exact h.keys a hamem b hbmem (hf.active a hra) (hf.active b hrb) hkey

theorem retires_revoke (p : PushSubscriptionRow → Bool) :
    Retires fun row => if p row then row.revoke else row := by
  constructor <;> intro row <;> rcases p row <;> simp [PushSubscriptionRow.revoke]

theorem holds_iff {row : PushSubscriptionRow} {key : Key} :
    row.holds key = true ↔ row.revoked = false ∧ row.target.key = key := by
  simp [PushSubscriptionRow.holds]

theorem retires_refresh (target : Target) :
    Retires fun row => if row.holds target.key then { row with target } else row := by
  constructor <;> intro row <;> rcases hrow : row.holds target.key
  · simp
  · simp
  · simp
  · simpa using (holds_iff.mp hrow).2.symm
  · simp
  · simp

theorem Rows.displaceAndUpsert (h : Rows rows) {id : ℕ} (hid : ∀ row ∈ rows, row.id ≠ id)
    (target : Target) : Rows (displaceAndUpsert id userId target rows) := by
  have hdisplaced : Rows (revokeWhere (fun row => row.holds target.key && row.userId ≠ userId)
    rows) := h.map (retires_revoke _)
  simp only [NotificationFanout.displaceAndUpsert]
  split_ifs with hany
  · exact hdisplaced.map (retires_refresh target)
  · simp only [List.any_eq_true, not_exists, not_and, Bool.not_eq_true] at hany
    have hfresh : ∀ row ∈ revokeWhere (fun row => row.holds target.key && row.userId ≠ userId) rows,
        row.revoked = false → row.target.key ≠ target.key := by
      intro row hrow hactive hkey
      have hnot := hany row hrow
      rw [holds_iff.mpr ⟨hactive, hkey⟩] at hnot
      exact absurd hnot nofun
    constructor
    · rw [List.map_append, List.nodup_append]
      refine ⟨hdisplaced.ids, by simp, ?_⟩
      rintro a ha b hb rfl
      obtain rfl : a = id := by simpa using hb
      rw [revokeWhere, (retires_revoke _).map_id] at ha
      obtain ⟨row, hrow, heq⟩ := List.mem_map.mp ha
      exact hid row hrow heq
    · intro a ha b hb hra hrb hkey
      rcases List.mem_append.mp ha with ha | ha <;> rcases List.mem_append.mp hb with hb | hb
      · exact hdisplaced.keys a ha b hb hra hrb hkey
      · obtain rfl := List.mem_singleton.mp hb
        exact absurd hkey (hfresh a ha hra)
      · obtain rfl := List.mem_singleton.mp ha
        exact absurd hkey.symm (hfresh b hb hrb)
      · rw [List.mem_singleton.mp ha, List.mem_singleton.mp hb]

/-- The registrations of an attempt are rows still, and an active row with the key of one is it. -/
structure Listed (rows registrations : List PushSubscriptionRow) : Prop where
  nodup : (registrations.map PushSubscriptionRow.id).Nodup
  row : ∀ r ∈ registrations, ∃ row ∈ rows, row.id = r.id ∧ row.target.key = r.target.key
  only : ∀ r ∈ registrations, ∀ row ∈ rows, row.holds r.target.key = true → row.id = r.id

theorem Rows.listed (h : Rows rows) (userId : ℕ) : Listed rows
    ((listPushSubscriptionsForUser userId rows).filter fun row => !row.revoked) where
  nodup := by
    refine (List.filter_sublist.map _).nodup ?_
    rw [listPushSubscriptionsForUser, List.map_reverse, List.nodup_reverse]
    exact (List.filter_sublist.map _).nodup h.ids
  row r hr := by
    have hmem := (List.mem_filter.mp hr).1
    rw [listPushSubscriptionsForUser, List.mem_reverse] at hmem
    exact ⟨r, (List.mem_filter.mp hmem).1, rfl, rfl⟩
  only r hr row hrow hholds := by
    obtain ⟨hmem, hactive⟩ := List.mem_filter.mp hr
    rw [listPushSubscriptionsForUser, List.mem_reverse] at hmem
    rw [holds_iff] at hholds
    exact h.keys row hrow r (List.mem_filter.mp hmem).1 hholds.1 (by simpa using hactive) hholds.2

theorem Listed.map {registrations : List PushSubscriptionRow} (h : Listed rows registrations)
    {f : PushSubscriptionRow → PushSubscriptionRow} (hf : Retires f) :
    Listed (rows.map f) registrations where
  nodup := h.nodup
  row r hr := by
    obtain ⟨row, hrow, hid, hkey⟩ := h.row r hr
    exact ⟨f row, List.mem_map_of_mem hrow, (hf.id row).trans hid, (hf.key row).trans hkey⟩
  only r hr row hrow hholds := by
    obtain ⟨row, hmem, rfl⟩ := List.mem_map.mp hrow
    rw [hf.id]
    refine h.only r hr row hmem ?_
    rw [holds_iff, hf.key] at hholds
    rw [holds_iff]
    exact ⟨hf.active row hholds.1, hholds.2⟩

/-! ## Deliveries -/

structure Table (deliveries : List PushDeliveryRow) (recorded : List ℕ) : Prop where
  nodup : (deliveries.map PushDeliveryRow.pushSubscriptionId).Nodup
  stays : ∀ id ∈ recorded, ∃ row ∈ deliveries, row.pushSubscriptionId = id ∧ row.resolved = true
  resolved : ∀ row ∈ deliveries, row.resolved = true → row.pushSubscriptionId ∈ recorded

theorem Table.claim {recorded : List ℕ} (h : Table deliveries recorded) {ids : List ℕ}
    (hids : ids.Nodup) : Table (claimPushDeliveryTargets ids deliveries) recorded where
  nodup := by
    have hmap : ∀ l : List ℕ, (l.map fun id => (⟨id, false, false, none⟩ : PushDeliveryRow)).map
        PushDeliveryRow.pushSubscriptionId = l := fun l => by simp [Function.comp_def]
    rw [claimPushDeliveryTargets, List.map_append, hmap, List.nodup_append]
    refine ⟨h.nodup, hids.filter _, ?_⟩
    rintro a ha b hb rfl
    obtain ⟨row, hrow, rfl⟩ := List.mem_map.mp ha
    have hnone := (List.mem_filter.mp hb).2
    simp only [List.all_eq_true, decide_eq_true_eq] at hnone
    exact hnone row hrow rfl
  stays id hid := by
    obtain ⟨row, hrow, hrest⟩ := h.stays id hid
    exact ⟨row, List.mem_append_left _ hrow, hrest⟩
  resolved row hrow hres := by
    rcases List.mem_append.mp hrow with hrow | hrow
    · exact h.resolved row hrow hres
    · obtain ⟨id, _, rfl⟩ := List.mem_map.mp hrow
      simp [PushDeliveryRow.resolved] at hres

/-- After the claim every pair has its row. -/
theorem exists_claimed (ids : List ℕ) (deliveries : List PushDeliveryRow) {id : ℕ} (hid : id ∈ ids) :
    ∃ row ∈ claimPushDeliveryTargets ids deliveries, row.pushSubscriptionId = id := by
  by_cases hall : deliveries.all fun row => row.pushSubscriptionId ≠ id
  · exact ⟨_, List.mem_append_right _ (List.mem_map_of_mem (List.mem_filter.mpr ⟨hid, hall⟩)), rfl⟩
  · obtain ⟨row, hrow, heq⟩ : ∃ row ∈ deliveries, row.pushSubscriptionId = id := by
      simpa using hall
    exact ⟨row, List.mem_append_left _ hrow, heq⟩

/-- What a status says that is read now. -/
theorem Table.find {recorded : List ℕ} (h : Table deliveries recorded) {id : ℕ}
    (hid : ∃ row ∈ deliveries, row.pushSubscriptionId = id) :
    ∃ status, (deliveries.find? fun row => row.pushSubscriptionId = id) = some status ∧
      (status.resolved = true ↔ id ∈ recorded) := by
  rcases hfind : deliveries.find? fun row => row.pushSubscriptionId = id with _ | status
  · obtain ⟨row, hrow, heq⟩ := hid
    exact absurd heq (by simpa using List.find?_eq_none.mp hfind row hrow)
  · have hmem := List.mem_of_find?_eq_some hfind
    obtain rfl : status.pushSubscriptionId = id := by simpa using List.find?_some hfind
    refine ⟨status, hfind, fun hres => h.resolved status hmem hres, fun hrec => ?_⟩
    obtain ⟨row, hrow, heq, hres⟩ := h.stays _ hrec
    rwa [List.inj_on_of_nodup_map h.nodup hrow hmem heq] at hres

theorem map_updateDelivery {id : ℕ} {f : PushDeliveryRow → PushDeliveryRow}
    (hf : ∀ row, (f row).pushSubscriptionId = row.pushSubscriptionId)
    (deliveries : List PushDeliveryRow) :
    (updateDelivery id f deliveries).map PushDeliveryRow.pushSubscriptionId =
      deliveries.map PushDeliveryRow.pushSubscriptionId := by
  rw [updateDelivery, List.map_map]
  refine List.map_congr_left fun row _ => ?_
  rw [Function.comp_apply]
  split_ifs
  · exact hf row
  · rfl

theorem Table.resolve {recorded : List ℕ} (h : Table deliveries recorded) {id : ℕ}
    {f : PushDeliveryRow → PushDeliveryRow}
    (hf : ∀ row, (f row).pushSubscriptionId = row.pushSubscriptionId)
    (hall : ∀ row, (f row).resolved = true)
    (hid : ∃ row ∈ deliveries, row.pushSubscriptionId = id) :
    Table (updateDelivery id f deliveries) (id :: recorded) where
  nodup := (map_updateDelivery hf deliveries).symm ▸ h.nodup
  stays i hi := by
    rcases List.mem_cons.mp hi with rfl | hold
    · obtain ⟨row, hrow, heq⟩ := hid
      exact ⟨f row, List.mem_map.mpr ⟨row, hrow, if_pos heq⟩, (hf row).trans heq, hall row⟩
    · obtain ⟨row, hrow, rfl, hres⟩ := h.stays i hold
      refine ⟨_, List.mem_map_of_mem hrow, ?_⟩
      split_ifs
      · exact ⟨hf row, hall row⟩
      · exact ⟨rfl, hres⟩
  resolved row hrow hres := by
    obtain ⟨row, hmem, rfl⟩ := List.mem_map.mp hrow
    split_ifs at hres ⊢ with heq
    · rw [hf, heq]
      exact List.mem_cons_self
    · exact List.mem_cons_of_mem _ (h.resolved row hmem hres)

theorem Table.touch {recorded : List ℕ} (h : Table deliveries recorded) {id : ℕ}
    {f : PushDeliveryRow → PushDeliveryRow}
    (hf : ∀ row, (f row).pushSubscriptionId = row.pushSubscriptionId)
    (hsame : ∀ row, (f row).resolved = row.resolved) :
    Table (updateDelivery id f deliveries) recorded where
  nodup := (map_updateDelivery hf deliveries).symm ▸ h.nodup
  stays i hi := by
    obtain ⟨row, hrow, rfl, hres⟩ := h.stays i hi
    refine ⟨_, List.mem_map_of_mem hrow, ?_⟩
    split_ifs
    · exact ⟨hf row, (hsame row).trans hres⟩
    · exact ⟨rfl, hres⟩
  resolved row hrow hres := by
    obtain ⟨row, hmem, rfl⟩ := List.mem_map.mp hrow
    split_ifs at hres ⊢
    · rw [hf]
      exact h.resolved row hmem ((hsame row).symm.trans hres)
    · exact h.resolved row hmem hres

/-! ## The loop -/

/-- Where the loop stands: what it has passed it has sent to or found resolved, and that is recorded
unless a transient failure has been collected. -/
structure Loop (recorded : List ℕ) (attempt : Attempt) : Prop where
  suffix : attempt.rest <:+ attempt.activeRegistrations
  passed : ∀ r ∈ attempt.activeRegistrations, r ∈ attempt.rest ∨ r.id ∈ attempt.attempted ∨
    r.id ∈ attempt.resolvedBefore
  settled : ∀ r ∈ attempt.activeRegistrations, r ∈ attempt.rest ∨ r.id ∈ recorded ∨
    attempt.transientFailures ≠ []
  status : ∀ r ∈ attempt.rest, ∃ status, attempt.status r.id = some status ∧
    (status.resolved = true ↔ r.id ∈ recorded)
  sent : ∀ result, attempt.phase = .sent result → ∃ r rest, attempt.rest = r :: rest ∧
    r.id ∉ recorded ∧ r.id ∈ attempt.attempted

structure AttemptOk (s : Sys) (attempt : Attempt) : Prop where
  listed : Listed s.subscriptions attempt.activeRegistrations
  begun : attempt.phase = .listed ∨ attempt.phase = .claimed →
    attempt.rest = attempt.activeRegistrations ∧ attempt.transientFailures = []
  claimed : attempt.phase ≠ .listed → ∀ r ∈ attempt.activeRegistrations,
    ∃ row ∈ s.deliveries, row.pushSubscriptionId = r.id
  loop : attempt.phase ≠ .listed → attempt.phase ≠ .claimed → Loop s.recorded attempt

structure Inv (s : Sys) : Prop where
  rows : Rows s.subscriptions
  table : Table s.deliveries s.recorded
  attempt : ∀ attempt, s.attempt = some attempt → AttemptOk s attempt
  once : ∀ send ∈ s.sends, send.again = false
  revoked : ∀ revocation ∈ s.revocations,
    (∀ id ∈ revocation.revoked, id = revocation.pushSubscriptionId) ∧
    ∃ row ∈ s.subscriptions, row.id = revocation.pushSubscriptionId ∧ row.revoked = true
  attempted : ∀ ended ∈ s.ended, ∀ registration ∈ ended.activeRegistrations,
    registration.id ∈ ended.attempted ∨ registration.id ∈ ended.resolvedBefore
  complete : ∀ ended ∈ s.ended, ended.success = true →
    ∀ registration ∈ ended.activeRegistrations, registration.id ∈ s.recorded

theorem Inv.init : Inv Sys.init where
  rows := ⟨.nil, nofun⟩
  table := ⟨.nil, nofun, nofun⟩
  attempt := nofun
  once := nofun
  revoked := nofun
  attempted := nofun
  complete := nofun

variable {s : Sys} {attempt : Attempt} {registration : PushSubscriptionRow}
  {rest : List PushSubscriptionRow}

theorem revoked_map {f : PushSubscriptionRow → PushSubscriptionRow} (hf : Retires f) {id : ℕ}
    (h : ∃ row ∈ rows, row.id = id ∧ row.revoked = true) :
    ∃ row ∈ rows.map f, row.id = id ∧ row.revoked = true := by
  obtain ⟨row, hrow, rfl, hrevoked⟩ := h
  refine ⟨f row, List.mem_map_of_mem hrow, hf.id row, ?_⟩
  by_contra hactive
  have := hf.active row (by simpa using hactive)
  simp [hrevoked] at this

theorem Inv.revoke (h : Inv s) (p : PushSubscriptionRow → Bool) :
    Inv { s with subscriptions := revokeWhere p s.subscriptions } where
  rows := h.rows.map (retires_revoke p)
  table := h.table
  attempt attempt ha := by
    have hok := h.attempt attempt ha
    exact ⟨hok.listed.map (retires_revoke p), hok.begun, hok.claimed, hok.loop⟩
  once := h.once
  revoked revocation hr := ⟨(h.revoked revocation hr).1,
    revoked_map (retires_revoke p) (h.revoked revocation hr).2⟩
  attempted := h.attempted
  complete := h.complete

theorem Inv.setAttempt (h : Inv s) {attempt : Option Attempt}
    (hok : ∀ a, attempt = some a → AttemptOk s a) : Inv { s with attempt } where
  rows := h.rows
  table := h.table
  attempt a ha := by
    have hok := hok a ha
    exact ⟨hok.listed, hok.begun, hok.claimed, hok.loop⟩
  once := h.once
  revoked := h.revoked
  attempted := h.attempted
  complete := h.complete

theorem Loop.pass {recorded recorded' : List ℕ} (h : Loop recorded attempt)
    (hnodup : (attempt.activeRegistrations.map PushSubscriptionRow.id).Nodup)
    (hrest : attempt.rest = registration :: rest) {attempt' : Attempt}
    (hactive : attempt'.activeRegistrations = attempt.activeRegistrations)
    (hstatuses : attempt'.statuses = attempt.statuses) (hrest' : attempt'.rest = rest)
    (hphase : attempt'.phase = .looping)
    (hattempted : ∀ id ∈ attempt.attempted, id ∈ attempt'.attempted)
    (hresolved : ∀ id ∈ attempt.resolvedBefore, id ∈ attempt'.resolvedBefore)
    (hfailures : attempt.transientFailures ≠ [] → attempt'.transientFailures ≠ [])
    (hpassed : registration.id ∈ attempt'.attempted ∨ registration.id ∈ attempt'.resolvedBefore)
    (hsettled : registration.id ∈ recorded' ∨ attempt'.transientFailures ≠ [])
    (hmono : ∀ id ∈ recorded, id ∈ recorded')
    (hnew : ∀ id ∈ recorded', id ∈ recorded ∨ id = registration.id) : Loop recorded' attempt' where
  suffix := by
    rw [hrest', hactive]
    exact (List.suffix_cons registration rest).trans (hrest ▸ h.suffix)
  passed r hr := by
    rw [hactive] at hr
    rw [hrest']
    rcases h.passed r hr with hmem | hmem | hmem
    · rcases List.mem_cons.mp (hrest ▸ hmem) with rfl | hmem
      · exact .inr hpassed
      · exact .inl hmem
    · exact .inr (.inl (hattempted _ hmem))
    · exact .inr (.inr (hresolved _ hmem))
  settled r hr := by
    rw [hactive] at hr
    rw [hrest']
    rcases h.settled r hr with hmem | hmem | hne
    · rcases List.mem_cons.mp (hrest ▸ hmem) with rfl | hmem
      · exact .inr hsettled
      · exact .inl hmem
    · exact .inr (.inl (hmono _ hmem))
    · exact .inr (.inr (hfailures hne))
  status r hr := by
    rw [hrest'] at hr
    obtain ⟨status, hstatus, hiff⟩ := h.status r (hrest ▸ List.mem_cons_of_mem _ hr)
    refine ⟨status, by rw [Attempt.status, hstatuses]; exact hstatus, hiff.trans ⟨hmono _, ?_⟩⟩
    intro hmem
    refine (hnew _ hmem).resolve_right fun heq => ?_
    have hids : ((registration :: rest).map PushSubscriptionRow.id).Nodup :=
      (h.suffix.sublist.map _).nodup hnodup |> fun hn => hrest ▸ hn
    rw [List.map_cons, List.nodup_cons] at hids
    exact hids.1 (heq ▸ List.mem_map_of_mem hr)
  sent result hsent := by
    rw [hphase] at hsent
    cases hsent

theorem Inv.register (h : Inv s) (hnone : s.attempt = none) {id : ℕ}
    (hid : ∀ row ∈ s.subscriptions, row.id ≠ id) (userId : ℕ) (target : Target) :
    Inv { s with subscriptions := displaceAndUpsert id userId target s.subscriptions } where
  rows := h.rows.displaceAndUpsert hid target
  table := h.table
  attempt attempt ha := by simp [hnone] at ha
  once := h.once
  revoked revocation hr := by
    refine ⟨(h.revoked revocation hr).1, ?_⟩
    have hdisplaced := revoked_map (retires_revoke fun row =>
      row.holds target.key && row.userId ≠ userId) (h.revoked revocation hr).2
    simp only [displaceAndUpsert]
    split_ifs
    · exact revoked_map (retires_refresh target) hdisplaced
    · obtain ⟨row, hrow, hrest⟩ := hdisplaced
      exact ⟨row, List.mem_append_left _ hrow, hrest⟩
  attempted := h.attempted
  complete := h.complete

theorem Inv.list (h : Inv s) (userId : ℕ) : Inv { s with
    attempt := some ⟨s.subscriptions, (listPushSubscriptionsForUser userId s.subscriptions).filter
      fun row => !row.revoked, .listed, [], (listPushSubscriptionsForUser userId
      s.subscriptions).filter fun row => !row.revoked, [], [], []⟩ } := by
  refine h.setAttempt fun a ha => ?_
  obtain rfl := Option.some.inj ha
  exact ⟨h.rows.listed userId, fun _ => ⟨rfl, rfl⟩, fun hp => absurd rfl hp,
    fun hp => absurd rfl hp⟩

theorem Inv.claim (h : Inv s) (ha : s.attempt = some attempt) (hphase : attempt.phase = .listed) :
    Inv { s with
      deliveries := claimPushDeliveryTargets
        (attempt.activeRegistrations.map PushSubscriptionRow.id) s.deliveries
      attempt := some { attempt with phase := .claimed } } where
  rows := h.rows
  table := h.table.claim (h.attempt attempt ha).listed.nodup
  attempt a hsome := by
    obtain rfl := Option.some.inj hsome
    have hok := h.attempt attempt ha
    exact ⟨hok.listed, fun _ => hok.begun (.inl hphase),
      fun _ r hr => exists_claimed _ _ (List.mem_map_of_mem hr), fun _ hp => absurd rfl hp⟩
  once := h.once
  revoked := h.revoked
  attempted := h.attempted
  complete := h.complete

theorem Inv.readStatuses (h : Inv s) (ha : s.attempt = some attempt)
    (hphase : attempt.phase = .claimed) :
    Inv { s with attempt := some { attempt with phase := .looping, statuses := s.deliveries } } := by
  refine h.setAttempt fun a hsome => ?_
  obtain rfl := Option.some.inj hsome
  have hok := h.attempt attempt ha
  have hclaimed := hok.claimed (by simp [hphase])
  obtain ⟨hrest, -⟩ := hok.begun (.inr hphase)
  refine ⟨hok.listed, by simp, fun _ => hclaimed, fun _ _ => ?_⟩
  constructor <;> simp only [hrest]
  · exact List.suffix_rfl
  · exact fun r hr => .inl hr
  · exact fun r hr => .inl hr
  · exact fun r hr => h.table.find (hclaimed r hr)
  · exact nofun

theorem Inv.skip (h : Inv s) (ha : s.attempt = some attempt) (hphase : attempt.phase = .looping)
    (hrest : attempt.rest = registration :: rest) {status : PushDeliveryRow}
    (hstatus : attempt.status registration.id = some status) (hres : status.resolved = true) :
    Inv { s with attempt := some { attempt with
      rest, resolvedBefore := registration.id :: attempt.resolvedBefore } } := by
  refine h.setAttempt fun a hsome => ?_
  obtain rfl := Option.some.inj hsome
  have hok := h.attempt attempt ha
  have hloop := hok.loop (by simp [hphase]) (by simp [hphase])
  obtain ⟨status', hstatus', hiff⟩ := hloop.status registration (by simp [hrest])
  obtain rfl := Option.some.inj (hstatus.symm.trans hstatus')
  refine ⟨hok.listed, by simp [hphase], fun _ => hok.claimed (by simp [hphase]), fun _ _ => ?_⟩
  exact hloop.pass hok.listed.nodup hrest rfl rfl rfl hphase (fun _ => id)
    (fun _ => List.mem_cons_of_mem _) id (.inr List.mem_cons_self) (.inl (hiff.mp hres))
    (fun _ => id) fun _ => .inl

theorem Inv.send (h : Inv s) (ha : s.attempt = some attempt) (hphase : attempt.phase = .looping)
    (hrest : attempt.rest = registration :: rest) {status : PushDeliveryRow}
    (hstatus : attempt.status registration.id = some status) (hres : status.resolved = false)
    (result : PushSendResult) :
    Inv { s with
      sends := ⟨registration.id, registration.id ∈ s.recorded⟩ :: s.sends
      attempt := some { attempt with
        phase := .sent result, attempted := registration.id :: attempt.attempted } } := by
  have hok := h.attempt attempt ha
  have hloop := hok.loop (by simp [hphase]) (by simp [hphase])
  obtain ⟨status', hstatus', hiff⟩ := hloop.status registration (by simp [hrest])
  obtain rfl := Option.some.inj (hstatus.symm.trans hstatus')
  have hnew : registration.id ∉ s.recorded := fun hmem => by simp [hiff.mpr hmem] at hres
  have hinv : Inv { s with attempt := some { attempt with
      phase := .sent result, attempted := registration.id :: attempt.attempted } } :=
    h.setAttempt fun a hsome => by
      obtain rfl := Option.some.inj hsome
      refine ⟨hok.listed, by simp, fun _ => hok.claimed (by simp [hphase]), fun _ _ => ?_⟩
      exact ⟨hloop.suffix, fun r hr => (hloop.passed r hr).imp_right
        (Or.imp_left (List.mem_cons_of_mem _)), hloop.settled, hloop.status,
        fun _ _ => ⟨registration, rest, hrest, hnew, List.mem_cons_self⟩⟩
  refine { hinv with attempt := fun a hsome => ?_, once := fun sent hsent => ?_ }
  · have hok' := hinv.attempt a hsome
    exact ⟨hok'.listed, hok'.begun, hok'.claimed, hok'.loop⟩
  · rcases List.mem_cons.mp hsent with rfl | hsent
    · exact decide_eq_false hnew
    · exact h.once sent hsent

theorem Inv.finish (h : Inv s) (ha : s.attempt = some attempt) (hphase : attempt.phase = .looping)
    (hrest : attempt.rest = []) :
    Inv { s with
      attempt := none
      done := attempt.transientFailures.isEmpty
      ended := ⟨attempt.subscriptions, attempt.activeRegistrations, attempt.attempted,
        attempt.resolvedBefore, attempt.transientFailures.isEmpty⟩ :: s.ended } where
  rows := h.rows
  table := h.table
  attempt := nofun
  once := h.once
  revoked := h.revoked
  attempted ended hended r hr := by
    rcases List.mem_cons.mp hended with rfl | hended
    · have hloop := (h.attempt attempt ha).loop (by simp [hphase]) (by simp [hphase])
      exact (hloop.passed r hr).resolve_left (by simp [hrest])
    · exact h.attempted ended hended r hr
  complete ended hended hsuccess r hr := by
    rcases List.mem_cons.mp hended with rfl | hended
    · have hloop := (h.attempt attempt ha).loop (by simp [hphase]) (by simp [hphase])
      refine ((hloop.settled r hr).resolve_left (by simp [hrest])).resolve_right ?_
      simpa using hsuccess
    · exact h.complete ended hended hsuccess r hr

theorem exists_updateDelivery {id i : ℕ} {f : PushDeliveryRow → PushDeliveryRow}
    (hf : ∀ row, (f row).pushSubscriptionId = row.pushSubscriptionId)
    (h : ∃ row ∈ deliveries, row.pushSubscriptionId = i) :
    ∃ row ∈ updateDelivery id f deliveries, row.pushSubscriptionId = i := by
  rw [← List.mem_map] at h ⊢
  rwa [map_updateDelivery hf]

theorem Inv.recordResolved (h : Inv s) (ha : s.attempt = some attempt) {result : PushSendResult}
    (hphase : attempt.phase = .sent result) (hrest : attempt.rest = registration :: rest)
    {f : PushDeliveryRow → PushDeliveryRow}
    (hf : ∀ row, (f row).pushSubscriptionId = row.pushSubscriptionId)
    (hall : ∀ row, (f row).resolved = true) :
    Inv { s with
      deliveries := updateDelivery registration.id f s.deliveries
      recorded := registration.id :: s.recorded
      attempt := some { attempt with phase := .looping, rest } } := by
  have hok := h.attempt attempt ha
  have hloop := hok.loop (by simp [hphase]) (by simp [hphase])
  have hclaimed := hok.claimed (by simp [hphase])
  obtain ⟨r, rest', hcons, -, hattempted⟩ := hloop.sent result hphase
  obtain ⟨rfl, rfl⟩ := List.cons.inj (hrest.symm.trans hcons)
  have hmem : registration ∈ attempt.activeRegistrations :=
    hloop.suffix.subset (hrest ▸ List.mem_cons_self)
  exact {
    rows := h.rows
    table := h.table.resolve hf hall (hclaimed registration hmem)
    attempt := fun a hsome => by
      obtain rfl := Option.some.inj hsome
      refine ⟨hok.listed, by simp, fun _ r hr => exists_updateDelivery hf (hclaimed r hr),
        fun _ _ => ?_⟩
      exact hloop.pass hok.listed.nodup hrest rfl rfl rfl rfl (fun _ => id) (fun _ => id) id
        (.inl hattempted) (.inl List.mem_cons_self) (fun _ => List.mem_cons_of_mem _)
        fun _ hnew => (List.mem_cons.mp hnew).symm
    once := h.once
    revoked := h.revoked
    attempted := h.attempted
    complete := fun ended hended hsuccess r hr =>
      List.mem_cons_of_mem _ (h.complete ended hended hsuccess r hr) }

theorem Inv.invalidate (h : Inv s) (ha : s.attempt = some attempt)
    (hmem : registration ∈ attempt.activeRegistrations) :
    Inv { s with
      subscriptions :=
        revokePushSubscriptionByProviderInvalidation registration.target.key s.subscriptions
      revocations := ⟨registration.id, (s.subscriptions.filter fun row =>
        row.holds registration.target.key).map PushSubscriptionRow.id⟩ :: s.revocations } := by
  have hlisted := (h.attempt attempt ha).listed
  have hrevoked := h.revoke fun row => row.holds registration.target.key
  refine { hrevoked with
    attempt := fun a hsome => ?_, revoked := fun revocation hr => ?_ }
  · have hok := hrevoked.attempt a hsome
    exact ⟨hok.listed, hok.begun, hok.claimed, hok.loop⟩
  · rcases List.mem_cons.mp hr with rfl | hr
    · refine ⟨fun id hid => ?_, ?_⟩
      · obtain ⟨row, hrow, rfl⟩ := List.mem_map.mp hid
        obtain ⟨hrow, hholds⟩ := List.mem_filter.mp hrow
        exact hlisted.only registration hmem row hrow hholds
      · obtain ⟨row, hrow, hid, hkey⟩ := hlisted.row registration hmem
        have hretires := retires_revoke fun row => row.holds registration.target.key
        refine ⟨_, List.mem_map_of_mem hrow, (hretires.id row).trans hid, ?_⟩
        rcases hactive : row.revoked
        · rw [if_pos (holds_iff.mpr ⟨hactive, hkey⟩)]
          rfl
        · rw [if_neg (by simp [holds_iff, hactive])]
          exact hactive
    · exact hrevoked.revoked revocation hr

theorem Inv.record (h : Inv s) (ha : s.attempt = some attempt) {result : PushSendResult}
    (hphase : attempt.phase = .sent result) (hrest : attempt.rest = registration :: rest) :
    Inv (s.record attempt registration rest result) := by
  have hok := h.attempt attempt ha
  have hloop := hok.loop (by simp [hphase]) (by simp [hphase])
  have hclaimed := hok.claimed (by simp [hphase])
  have hmem : registration ∈ attempt.activeRegistrations :=
    hloop.suffix.subset (hrest ▸ List.mem_cons_self)
  rcases result with _ | error | error | reason
  case delivered =>
    exact h.recordResolved ha hphase hrest (fun _ => rfl) fun _ => rfl
  case permanentFailure =>
    exact (h.invalidate ha hmem).recordResolved ha hphase hrest (fun _ => rfl) fun row => by
      simp [PushDeliveryRow.resolved]
  case notConfigured =>
    exact h.recordResolved ha hphase hrest (fun _ => rfl) fun row => by
      simp [PushDeliveryRow.resolved]
  case transientFailure =>
    obtain ⟨r, rest', hcons, -, hattempted⟩ := hloop.sent _ hphase
    obtain ⟨rfl, rfl⟩ := List.cons.inj (hrest.symm.trans hcons)
    exact {
      rows := h.rows
      table := h.table.touch (fun _ => rfl) fun _ => rfl
      attempt := fun a hsome => by
        obtain rfl := Option.some.inj hsome
        refine ⟨hok.listed, by simp,
          fun _ r hr => exists_updateDelivery (fun _ => rfl) (hclaimed r hr), fun _ _ => ?_⟩
        exact hloop.pass hok.listed.nodup hrest rfl rfl rfl rfl (fun _ => id) (fun _ => id)
          (by simp) (.inl hattempted) (.inr (by simp)) (fun _ => id) fun _ => .inl
      once := h.once
      revoked := h.revoked
      attempted := h.attempted
      complete := h.complete }

/-! ## Runs -/

theorem Inv.step (h : Inv s) {s' : Sys} {a : Act}
    (hs : NotificationFanout.step userId s a = some s') : Inv s' := by
  rcases a with ⟨id, owner, target⟩ | id | _ | _ | _ | _ | answer | _ | _ | _ <;>
    simp only [NotificationFanout.step] at hs
  case register =>
    split_ifs at hs with hon
    obtain rfl := Option.some.inj hs
    exact h.register (by simpa using hon.1) hon.2 owner target
  case revoke =>
    obtain rfl := Option.some.inj hs
    exact h.revoke _
  case list =>
    split_ifs at hs with hon
    obtain rfl := Option.some.inj hs
    exact h.list userId
  case crash =>
    obtain rfl := Option.some.inj hs
    exact h.setAttempt nofun
  all_goals
    rcases ha : s.attempt with _ | attempt
    · simp [ha] at hs
    simp only [ha] at hs
  case claim =>
    split_ifs at hs with hphase
    obtain rfl := Option.some.inj hs
    exact h.claim ha hphase
  case readStatuses =>
    split_ifs at hs with hphase
    obtain rfl := Option.some.inj hs
    exact h.readStatuses ha hphase
  case finish =>
    split_ifs at hs with hend
    obtain rfl := Option.some.inj hs
    exact h.finish ha hend.1 hend.2
  case record =>
    split at hs
    case h_2 => exact absurd hs nofun
    case h_1 result registration rest hphase hrest =>
      obtain rfl := Option.some.inj hs
      exact h.record ha hphase hrest
  case skip =>
    split at hs
    case h_2 => exact absurd hs nofun
    case h_1 registration rest hphase hrest =>
      have hloop := (h.attempt attempt ha).loop (by simp [hphase]) (by simp [hphase])
      obtain ⟨status, hstatus, -⟩ := hloop.status registration (by simp [hrest])
      simp only [hstatus] at hs
      split_ifs at hs with hres
      obtain rfl := Option.some.inj hs
      exact h.skip ha hphase hrest hstatus hres
  case send =>
    split at hs
    case h_2 => exact absurd hs nofun
    case h_1 registration rest hphase hrest =>
      rcases hstatus : attempt.status registration.id with _ | status
      · simp [hstatus] at hs
      · simp only [hstatus] at hs
        split_ifs at hs with hres
        obtain rfl := Option.some.inj hs
        exact h.send ha hphase hrest hstatus (by simpa using hres) _

structure ListsActive (userId : ℕ) (s : Sys) : Prop where
  attempt : ∀ attempt, s.attempt = some attempt → ∀ row ∈ attempt.subscriptions,
    row.IsActive userId → row ∈ attempt.activeRegistrations
  ended : ∀ ended ∈ s.ended, ∀ row ∈ ended.subscriptions, row.IsActive userId →
    row ∈ ended.activeRegistrations

theorem ListsActive.init : ListsActive userId Sys.init where
  attempt := nofun
  ended _ h := absurd h List.not_mem_nil

theorem ListsActive.goesOn (h : ListsActive userId s) {s' : Sys}
    (hattempt : ∀ a', s'.attempt = some a' → ∃ a, s.attempt = some a ∧
      a'.subscriptions = a.subscriptions ∧ a'.activeRegistrations = a.activeRegistrations)
    (hended : s'.ended = s.ended) : ListsActive userId s' where
  attempt a' ha' := by
    obtain ⟨a, ha, hsubscriptions, hactive⟩ := hattempt a' ha'
    rw [hsubscriptions, hactive]
    exact h.attempt a ha
  ended := hended ▸ h.ended

theorem ListsActive.step (h : ListsActive userId s) {s' : Sys} {a : Act}
    (hs : NotificationFanout.step userId s a = some s') : ListsActive userId s' := by
  rcases a with ⟨id, owner, target⟩ | id | _ | _ | _ | _ | answer | _ | _ | _ <;>
    simp only [NotificationFanout.step] at hs
  case register =>
    split_ifs at hs
    obtain rfl := Option.some.inj hs
    exact ⟨h.attempt, h.ended⟩
  case revoke =>
    obtain rfl := Option.some.inj hs
    exact ⟨h.attempt, h.ended⟩
  case list =>
    split_ifs at hs
    obtain rfl := Option.some.inj hs
    refine ⟨fun attempt ha row hrow hactive => ?_, h.ended⟩
    obtain rfl := Option.some.inj ha
    have huser := hactive.1
    have hrevoked := hactive.2
    simpa [listPushSubscriptionsForUser, huser, hrevoked] using hrow
  case crash =>
    obtain rfl := Option.some.inj hs
    exact ⟨nofun, h.ended⟩
  all_goals
    rcases ha : s.attempt with _ | attempt
    · simp [ha] at hs
    simp only [ha] at hs
  case finish =>
    split_ifs at hs
    obtain rfl := Option.some.inj hs
    refine ⟨nofun, fun ended hended => ?_⟩
    rcases List.mem_cons.mp hended with rfl | hended
    · exact h.attempt attempt ha
    · exact h.ended ended hended
  case record =>
    split at hs
    case h_2 => exact absurd hs nofun
    case h_1 result registration rest hphase hrest =>
      obtain rfl := Option.some.inj hs
      rcases result with _ | error | error | reason <;>
        exact h.goesOn (fun a' ha' => ⟨attempt, ha, by cases ha'; exact ⟨rfl, rfl⟩⟩) rfl
  all_goals
    repeat' split at hs
    all_goals
      cases hs
      try exact h.goesOn (fun a' ha' => ⟨attempt, ha, by cases ha'; exact ⟨rfl, rfl⟩⟩) rfl

def twoPhones : List Act :=
  let gone : Answer := ⟨.ok (), .accepted, .ok ⟨410, none⟩⟩
  let busy : Answer := ⟨.ok (), .accepted, .error "timeout"⟩
  let fine : Answer := ⟨.ok (), .accepted, .ok ⟨200, none⟩⟩
  [.register 1 7 (.apns "one" "production"), .register 2 7 (.apns "two" "production"),
    .list, .claim, .readStatuses, .send busy, .record, .send gone, .record, .finish,
    .list, .claim, .readStatuses, .send fine, .record, .finish]

end NotificationFanout

end Semprec
