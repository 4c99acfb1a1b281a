import Semprec.MailLiveSyncRoot

/-!
# One live-sync lifecycle per mailbox

An entry leaves the map of hosted entries only to be stopped, so the entries that are not stopped
are the hosted one of their mailbox and those whose stop runs (`Inv`).  A pass that creates a
lifecycle only for a free mailbox adds neither a second one nor one that a `stop()` misses.
-/

namespace Semprec

namespace MailLiveSync

theorem setEntry_self (s : Sys) (e : ℕ) (entry : HostedEntry) :
    (s.setEntry e entry).entries e = some entry := Function.update_self e _ _

theorem setEntry_of_ne {s : Sys} {e e' : ℕ} {entry : HostedEntry} (h : e' ≠ e) :
    (s.setEntry e entry).entries e' = s.entries e' := Function.update_of_ne h _ _

/-- What is hosted has no stop, what is not has one, and a `stop()` that has gone on leaves nothing
hosted. -/
structure Inv (s : Sys) : Prop where
  fresh : ∀ e, s.nextEntry ≤ e → s.entries e = none
  hosted : ∀ m e, s.hosted m = some e → ∃ entry, s.entries e = some entry ∧
    entry.mailboxItemId = m ∧ entry.stopping = none
  kept : ∀ e entry, s.entries e = some entry → entry.stopping = none →
    s.hosted entry.mailboxItemId = some e
  one : ∀ e e' entry entry', s.entries e = some entry → s.entries e' = some entry' →
    entry.mailboxItemId = entry'.mailboxItemId → entry.unstopped = true →
    entry'.unstopped = true → e = e'
  stops : ∀ e entry, s.entries e = some entry → entry.stops =
    if entry.stopping = some .calling ∨ entry.stopping = some .settled then 1 else 0
  heartbeat : ∀ e entry, s.entries e = some entry → entry.heartbeat = .beating →
    entry.stopping = none ∨ entry.stopping = some .waiting
  starts : ∀ c call, s.calls c = some call → call.starts ≤ s.starts
  gone : ∀ c call, s.calls c = some call → Sys.Call.stops s call = true → ∀ m, s.hosted m = none
  awaited : ∀ c call es, s.calls c = some call → Sys.Call.stops s call = true →
    call.stage = .waitInFlight es → ∀ e entry, s.entries e = some entry →
    entry.unstopped = true → e ∈ es
  quiet : s.quiet = true → ∀ e entry, s.entries e = some entry → entry.unstopped = false

namespace Inv

variable {s s' : Sys} {e : ℕ} {entry new : HostedEntry}

theorem init : Inv .init := by
  constructor <;> simp [Sys.init]

theorem oneLifecycle (h : Inv s) : s.OneLifecycle where
  one := h.one
  once := fun e entry he => by
    have hstops := h.stops e entry he
    refine ⟨by split_ifs at hstops <;> omega, fun hne => ⟨fun hn => hne (h.kept e entry he hn), ?_⟩⟩
    intro hs
    rw [hstops, if_pos (.inr hs)]
  quiet := fun hq e entry he => by
    have hu := h.quiet hq e entry he
    refine ⟨hu, fun hb => ?_⟩
    rcases h.heartbeat e entry he hb with hs | hs <;> simp [HostedEntry.unstopped, hs] at hu

/-- Steps of the passes that leave the entries alone. -/
theorem of_eq (h : Inv s) (hh : s'.hosted = s.hosted) (he : s'.entries = s.entries)
    (hn : s'.nextEntry = s.nextEntry) (hc : s'.calls = s.calls) (hs : s'.starts = s.starts)
    (hq : s'.quiet = s.quiet) : Inv s' := by
  have hstops : ∀ call, Sys.Call.stops s' call = Sys.Call.stops s call := fun call => by
    simp only [Sys.Call.stops, hs]
  constructor
  case fresh => simpa only [hn, he] using h.fresh
  case hosted => simpa only [hh, he] using h.hosted
  case kept => simpa only [hh, he] using h.kept
  case one => simpa only [he] using h.one
  case stops => simpa only [he] using h.stops
  case heartbeat => simpa only [he] using h.heartbeat
  case starts => simpa only [hc, hs] using h.starts
  case gone => simpa only [hc, hh, hstops] using h.gone
  case awaited => simpa only [hc, he, hstops] using h.awaited
  case quiet => simpa only [hq, he] using h.quiet

theorem setEntry (h : Inv s) (he : s.entries e = some entry)
    (hm : new.mailboxItemId = entry.mailboxItemId)
    (hnone : new.stopping = none ↔ entry.stopping = none)
    (hun : new.unstopped = true → entry.unstopped = true)
    (hstops : new.stops =
      if new.stopping = some .calling ∨ new.stopping = some .settled then 1 else 0)
    (hbeat : new.heartbeat = .beating → new.stopping = none ∨ new.stopping = some .waiting) :
    Inv (s.setEntry e new) := by
  -- Any entry afterwards was there before, with the same mailbox and no more unstopped.
  have hold : ∀ e' entry', (s.setEntry e new).entries e' = some entry' → ∃ old,
      s.entries e' = some old ∧ entry'.mailboxItemId = old.mailboxItemId ∧
      (entry'.stopping = none ↔ old.stopping = none) ∧
      (entry'.unstopped = true → old.unstopped = true) := by
    intro e' entry' he'
    by_cases hne : e' = e
    · subst hne
      rw [setEntry_self] at he'
      obtain rfl := Option.some.inj he'
      exact ⟨entry, he, hm, hnone, hun⟩
    · rw [setEntry_of_ne hne] at he'
      exact ⟨entry', he', rfl, Iff.rfl, id⟩
  have hnew : ∀ (P : HostedEntry → Prop), P new →
      (∀ e' entry', s.entries e' = some entry' → P entry') →
      ∀ e' entry', (s.setEntry e new).entries e' = some entry' → P entry' := by
    intro P hP hs e' entry' he'
    by_cases hne : e' = e
    · subst hne
      rw [setEntry_self] at he'
      obtain rfl := Option.some.inj he'
      exact hP
    · rw [setEntry_of_ne hne] at he'
      exact hs e' entry' he'
  constructor
  case fresh =>
    intro e' hle
    have hne : e' ≠ e := by
      rintro rfl
      rw [h.fresh e' hle] at he
      cases he
    rw [setEntry_of_ne hne]
    exact h.fresh e' hle
  case hosted =>
    intro m e' hhost
    obtain ⟨old, hold', hmail, hstop⟩ := h.hosted m e' hhost
    by_cases hne : e' = e
    · subst hne
      obtain rfl := Option.some.inj (hold'.symm.trans he)
      exact ⟨new, setEntry_self s e' new, hm.trans hmail, hnone.mpr hstop⟩
    · exact ⟨old, by rw [setEntry_of_ne hne]; exact hold', hmail, hstop⟩
  case kept =>
    intro e' entry' he' hstop
    obtain ⟨old, hold', hmail, hiff, -⟩ := hold e' entry' he'
    rw [hmail]
    exact h.kept e' old hold' (hiff.mp hstop)
  case one =>
    intro e₁ e₂ entry₁ entry₂ he₁ he₂ hmail hu₁ hu₂
    obtain ⟨old₁, ho₁, hm₁, -, hun₁⟩ := hold e₁ entry₁ he₁
    obtain ⟨old₂, ho₂, hm₂, -, hun₂⟩ := hold e₂ entry₂ he₂
    exact h.one e₁ e₂ old₁ old₂ ho₁ ho₂ (by rw [← hm₁, hmail, hm₂]) (hun₁ hu₁) (hun₂ hu₂)
  case stops => exact hnew _ hstops h.stops
  case heartbeat => exact hnew _ hbeat h.heartbeat
  case starts => exact h.starts
  case gone => exact h.gone
  case awaited =>
    intro c call es hc hs hstage e' entry' he' hu
    obtain ⟨old, hold', -, -, hun'⟩ := hold e' entry' he'
    exact h.awaited c call es hc hs hstage e' old hold' (hun' hu)
  case quiet =>
    intro hq e' entry' he'
    obtain ⟨old, hold', -, -, hun'⟩ := hold e' entry' he'
    have := h.quiet hq e' old hold'
    by_contra hu
    rw [hun' (by simpa using hu)] at this
    cases this

/-! ### Stops -/

theorem stopHosted_eq (s : Sys) (e : ℕ) : s.stopHosted e = s ∨ ∃ entry,
    s.entries e = some entry ∧ entry.stopping = none ∧ s.hosted entry.mailboxItemId = some e ∧
    s.stopHosted e = { s with
      hosted := Function.update s.hosted entry.mailboxItemId none
      entries := Function.update s.entries e (some { entry with stopping := some .waiting }) } := by
  unfold Sys.stopHosted
  split
  · rename_i entry he
    split_ifs with hc
    · exact .inr ⟨entry, he, hc.1, hc.2, rfl⟩
    · exact .inl rfl
  · exact .inl rfl

theorem stopHosted (h : Inv s) (e : ℕ) : Inv (s.stopHosted e) := by
  rcases stopHosted_eq s e with heq | ⟨entry, he, hnone, hhost, heq⟩ <;> rw [heq]
  · exact h
  have hu : entry.unstopped = true := by simp [HostedEntry.unstopped, hnone]
  -- Another entry is hosted elsewhere.
  have hother : ∀ m e', m ≠ entry.mailboxItemId → s.hosted m = some e' → e' ≠ e := by
    rintro m e' hne hm rfl
    obtain ⟨entry', he', hmail, -⟩ := h.hosted m e' hm
    obtain rfl := Option.some.inj (he'.symm.trans he)
    exact hne hmail.symm
  have hold : ∀ e' entry', Function.update s.entries e
      (some { entry with stopping := some .waiting }) e' = some entry' → ∃ old,
      s.entries e' = some old ∧ entry'.mailboxItemId = old.mailboxItemId ∧
      (entry'.unstopped = true → old.unstopped = true) ∧
      (entry'.stopping = none → e' ≠ e ∧ old = entry') := by
    intro e' entry' he'
    rcases of_update_some he' with ⟨rfl, rfl⟩ | ⟨hne, he'⟩
    · exact ⟨entry, he, rfl, fun _ => hu, nofun⟩
    · exact ⟨entry', he', rfl, id, fun _ => ⟨hne, rfl⟩⟩
  constructor <;> dsimp only
  case fresh =>
    intro e' hle
    have hne : e' ≠ e := by
      rintro rfl
      rw [h.fresh e' hle] at he
      cases he
    rw [Function.update_of_ne hne]
    exact h.fresh e' hle
  case hosted =>
    intro m e' hm
    obtain ⟨hne, hm⟩ := of_update_none hm
    rw [Function.update_of_ne (hother m e' hne hm)]
    exact h.hosted m e' hm
  case kept =>
    intro e' entry' he' hstop
    obtain ⟨old, ho, -, -, hsame⟩ := hold e' entry' he'
    obtain ⟨hne, rfl⟩ := hsame hstop
    have hk := h.kept e' old ho hstop
    have hm : old.mailboxItemId ≠ entry.mailboxItemId := by
      intro hm
      rw [hm, hhost] at hk
      exact hne (Option.some.inj hk).symm
    rwa [Function.update_of_ne hm]
  case one =>
    intro e₁ e₂ entry₁ entry₂ he₁ he₂ hmail hu₁ hu₂
    obtain ⟨old₁, ho₁, hm₁, hun₁, -⟩ := hold e₁ entry₁ he₁
    obtain ⟨old₂, ho₂, hm₂, hun₂, -⟩ := hold e₂ entry₂ he₂
    exact h.one e₁ e₂ old₁ old₂ ho₁ ho₂ (by rw [← hm₁, hmail, hm₂]) (hun₁ hu₁) (hun₂ hu₂)
  case stops =>
    intro e' entry' he'
    rcases of_update_some he' with ⟨rfl, rfl⟩ | ⟨-, he'⟩
    · have := h.stops e' entry he
      simpa [hnone] using this
    · exact h.stops e' entry' he'
  case heartbeat =>
    intro e' entry' he' hb
    rcases of_update_some he' with ⟨rfl, rfl⟩ | ⟨-, he'⟩
    · exact .inr rfl
    · exact h.heartbeat e' entry' he' hb
  case starts => exact h.starts
  case gone =>
    intro c call hc hs m
    rw [h.gone c call hc hs entry.mailboxItemId] at hhost
    cases hhost
  case awaited =>
    intro c call es hc hs hstage e' entry' he' hu'
    obtain ⟨old, ho, -, hun, -⟩ := hold e' entry' he'
    exact h.awaited c call es hc hs hstage e' old ho (hun hu')
  case quiet =>
    intro hq e' entry' he'
    have := h.quiet hq e entry he
    rw [hu] at this
    cases this

theorem stopHosted_frame (s : Sys) (e : ℕ) : (s.stopHosted e).calls = s.calls ∧
    (s.stopHosted e).starts = s.starts ∧ (s.stopHosted e).quiet = s.quiet := by
  rcases stopHosted_eq s e with heq | ⟨entry, -, -, -, heq⟩ <;> rw [heq] <;> exact ⟨rfl, rfl, rfl⟩

theorem hosted_stopHosted (h : Inv s) {m e' : ℕ} (hm : (s.stopHosted e).hosted m = some e') :
    s.hosted m = some e' ∧ e' ≠ e := by
  rcases stopHosted_eq s e with heq | ⟨entry, he, hnone, hhost, heq⟩
  · rw [heq] at hm
    refine ⟨hm, ?_⟩
    rintro rfl
    obtain ⟨entry, he, rfl, hnone⟩ := h.hosted m e' hm
    unfold Sys.stopHosted at heq
    simp only [he, hnone, hm, true_and, if_true] at heq
    have := congrArg (fun s => s.hosted entry.mailboxItemId) heq
    simp only [Function.update_self, hm] at this
    cases this
  · rw [heq] at hm
    by_cases hne : m = entry.mailboxItemId
    · subst hne
      simp at hm
    · dsimp only at hm
      rw [Function.update_of_ne hne] at hm
      refine ⟨hm, ?_⟩
      rintro rfl
      obtain ⟨entry', he', hmail, -⟩ := h.hosted m e' hm
      obtain rfl := Option.some.inj (he'.symm.trans he)
      exact hne hmail.symm

theorem stopAll {s : Sys} (h : Inv s) (es : List ℕ) : Inv (s.stopAll es) := by
  induction es generalizing s with
  | nil => exact h
  | cons e es ih => exact ih (h.stopHosted e)

theorem stopAll_frame : ∀ (es : List ℕ) (s : Sys), (s.stopAll es).calls = s.calls ∧
    (s.stopAll es).starts = s.starts ∧ (s.stopAll es).quiet = s.quiet
  | [], _ => ⟨rfl, rfl, rfl⟩
  | e :: es, s => by
    obtain ⟨hc, hs, hq⟩ := stopAll_frame es (s.stopHosted e)
    obtain ⟨hc', hs', hq'⟩ := stopHosted_frame s e
    exact ⟨hc.trans hc', hs.trans hs', hq.trans hq'⟩

theorem hosted_stopAll : ∀ {es : List ℕ} {s : Sys} {m e' : ℕ}, Inv s →
    (s.stopAll es).hosted m = some e' → s.hosted m = some e' ∧ e' ∉ es
  | [], _, _, _, _, hm => ⟨hm, List.not_mem_nil⟩
  | e :: es, s, m, e', h, hm => by
    obtain ⟨hm', hes⟩ := hosted_stopAll (h.stopHosted e) hm
    obtain ⟨hm'', hne⟩ := h.hosted_stopHosted hm'
    exact ⟨hm'', fun hmem => by
      rcases List.mem_cons.mp hmem with hx | hx
      · exact hne hx
      · exact hes hx⟩

theorem lt_nextEntry (h : Inv s) (he : s.entries e = some entry) : e < s.nextEntry := by
  by_contra hge
  rw [h.fresh e (Nat.le_of_not_lt hge)] at he
  cases he

theorem hosted_stopAll_hostedEntries (h : Inv s) (m : ℕ) :
    (s.stopAll (s.hostedEntries none)).hosted m = none := by
  rcases hm : (s.stopAll (s.hostedEntries none)).hosted m with _ | e
  · rfl
  · obtain ⟨hhost, hmem⟩ := hosted_stopAll h hm
    obtain ⟨entry, he, rfl, -⟩ := h.hosted m e hhost
    refine absurd ?_ hmem
    simp [Sys.hostedEntries, h.lt_nextEntry he, he, hhost]

/-! ### Calls -/

theorem setCall (h : Inv s) {c : ℕ} (call : Option Call) {quiet : Bool}
    (hstarts : ∀ call', call = some call' → call'.starts ≤ s.starts)
    (hgone : ∀ call', call = some call' → Sys.Call.stops s call' = true →
      (∀ m, s.hosted m = none) ∧ ∀ es, call'.stage = .waitInFlight es →
        ∀ e entry, s.entries e = some entry → entry.unstopped = true → e ∈ es)
    (hquiet : quiet = true → ∀ e entry, s.entries e = some entry → entry.unstopped = false) :
    Inv { s.setCall c call with quiet } := by
  have hcall : ∀ c' call', Function.update s.calls c call c' = some call' →
      s.calls c' = some call' ∨ call = some call' := by
    intro c' call' hc
    by_cases hne : c' = c
    · subst hne
      rw [Function.update_self] at hc
      exact .inr hc
    · rw [Function.update_of_ne hne] at hc
      exact .inl hc
  constructor
  case fresh => exact h.fresh
  case hosted => exact h.hosted
  case kept => exact h.kept
  case one => exact h.one
  case stops => exact h.stops
  case heartbeat => exact h.heartbeat
  case starts =>
    intro c' call' hc
    rcases hcall c' call' hc with hc | hc
    · exact h.starts c' call' hc
    · exact hstarts call' hc
  case gone =>
    intro c' call' hc hs
    rcases hcall c' call' hc with hc | hc
    · exact h.gone c' call' hc hs
    · exact (hgone call' hc hs).1
  case awaited =>
    intro c' call' es hc hs hstage
    rcases hcall c' call' hc with hc | hc
    · exact h.awaited c' call' es hc hs hstage
    · exact (hgone call' hc hs).2 es hstage
  case quiet => exact hquiet

theorem start (h : Inv s) : Inv { s with starts := s.starts + 1, quiet := false } := by
  have hnone : ∀ c call, s.calls c = some call →
      Sys.Call.stops { s with starts := s.starts + 1, quiet := false } call = false := by
    intro c call hc
    have := h.starts c call hc
    have hne : (decide (call.starts = s.starts + 1)) = false := by
      simp
      omega
    simp [Sys.Call.stops, hne]
  constructor
  case fresh => exact h.fresh
  case hosted => exact h.hosted
  case kept => exact h.kept
  case one => exact h.one
  case stops => exact h.stops
  case heartbeat => exact h.heartbeat
  case starts => exact fun c call hc => Nat.le_succ_of_le (h.starts c call hc)
  case gone =>
    intro c call hc hs
    rw [hnone c call hc] at hs
    cases hs
  case awaited =>
    intro c call es hc hs
    rw [hnone c call hc] at hs
    cases hs
  case quiet => nofun

/-- A `stop()` or a `stopTenant` goes on. -/
theorem goOn (h : Inv s) {c : ℕ} (hs : MailLiveSync.step s (.goOn c) = some s') : Inv s' := by
  simp only [MailLiveSync.step] at hs
  split at hs
  · rename_i tenantId starts passes hc
    split_ifs at hs
    obtain rfl := Option.some.inj hs
    have hframe := stopAll_frame (s.hostedEntries tenantId) s
    have hle := h.starts c _ hc
    have := (h.stopAll (s.hostedEntries tenantId)).setCall (c := c)
      (some ⟨tenantId, starts, .waitStops (s.hostedEntries tenantId)⟩)
      (fun call' hcall => by
        obtain rfl := Option.some.inj hcall
        rw [hframe.2.1]
        exact hle)
      (fun call' hcall hstop => by
        obtain rfl := Option.some.inj hcall
        refine ⟨fun m => ?_, nofun⟩
        have ht : tenantId = none := by
          simp only [Sys.Call.stops, Bool.and_eq_true, Option.isNone_iff_eq_none] at hstop
          exact hstop.1.1
        subst ht
        exact h.hosted_stopAll_hostedEntries m)
      (h.stopAll (s.hostedEntries tenantId)).quiet
    exact this
  · rename_i tenantId starts es hc
    split_ifs at hs
    obtain rfl := Option.some.inj hs
    refine h.setCall _ (fun call' hcall => ?_) (fun call' hcall hstop => ?_) h.quiet
    · obtain rfl := Option.some.inj hcall
      have := h.starts c _ hc
      exact this
    · obtain rfl := Option.some.inj hcall
      have hgone := h.gone c _ hc hstop
      have ht : tenantId = none := by
        simp only [Sys.Call.stops, Bool.and_eq_true, Option.isNone_iff_eq_none] at hstop
        exact hstop.1.1
      subst ht
      refine ⟨hgone, fun es' hes e entry he hu => ?_⟩
      obtain rfl := Stage.waitInFlight.inj hes
      have hstopping : entry.stopping ≠ none := by
        intro hn
        have := h.kept e entry he hn
        rw [hgone] at this
        cases this
      simp [Sys.stopsInFlight, h.lt_nextEntry he, he, HostedEntry.stopRuns, hu,
        Option.isSome_iff_ne_none, hstopping]
  · rename_i tenantId starts es hc
    split_ifs at hs with hres
    obtain rfl := Option.some.inj hs
    refine h.setCall _ nofun nofun fun hq e entry he => ?_
    rw [Bool.or_eq_true] at hq
    rcases hq with hq | hq
    · exact h.quiet hq e entry he
    · have hstop : Sys.Call.stops s ⟨tenantId, starts, .waitInFlight es⟩ = true := by
        simpa [Sys.Call.stops] using hq
      by_contra hu
      have hu : entry.unstopped = true := by simpa using hu
      have hmem := h.awaited c _ es hc hstop rfl e entry he hu
      have hres := List.all_eq_true.mp hres e hmem
      have hnone : entry.stopping ≠ none := by
        intro hn
        have := h.kept e entry he hn
        rw [h.gone c _ hc hstop] at this
        cases this
      simp [Sys.stopResolved, he, HostedEntry.stopRuns, hu, hnone] at hres
  · cases hs

/-! ### Passes -/

theorem stopped (h : Inv s) {m : ℕ} (hfree : s.Free m) (he : s.entries e = some entry)
    (hm : entry.mailboxItemId = m) : entry.unstopped = false := by
  have hruns := hfree.stops e entry he hm
  cases hstopping : entry.stopping with
  | none =>
    have hhosted := h.kept e entry he hstopping
    rw [hm, hfree.hosted] at hhosted
    cases hhosted
  | some stopping => simpa [HostedEntry.stopRuns, hstopping] using hruns

theorem host (h : Inv s) {p : ℕ} {pass : Pass} {account : Account} {accounts : List Account}
    (hfree : s.Free account.mailboxItemId) : Inv (s.host p pass account accounts) := by
  have hmail : ∀ e' entry', s.entries e' = some entry' → entry'.unstopped = true →
      entry'.mailboxItemId ≠ account.mailboxItemId := by
    intro e' entry' he' hu hm
    rw [h.stopped hfree he' hm] at hu
    cases hu
  have hnone := hfree.hosted
  have hlt : ∀ e' entry', s.entries e' = some entry' → e' ≠ s.nextEntry := by
    intro e' entry' he'
    exact Nat.ne_of_lt (h.lt_nextEntry he')
  constructor <;> dsimp only [Sys.host]
  case fresh =>
    intro e' hle
    rw [Function.update_of_ne (by omega)]
    exact h.fresh e' (by omega)
  case hosted =>
    intro m e' hm
    rcases of_update_some hm with ⟨rfl, rfl⟩ | ⟨-, hm⟩
    · exact ⟨_, Function.update_self _ _ _, rfl, rfl⟩
    · obtain ⟨entry', he', hm', hs⟩ := h.hosted m e' hm
      exact ⟨entry', by rw [Function.update_of_ne (hlt e' entry' he')]; exact he', hm', hs⟩
  case kept =>
    intro e' entry' he' hs
    rcases of_update_some he' with ⟨rfl, rfl⟩ | ⟨-, he'⟩
    · exact Function.update_self _ _ _
    · have hm := hmail e' entry' he' (by simp [HostedEntry.unstopped, hs])
      rw [Function.update_of_ne hm]
      exact h.kept e' entry' he' hs
  case one =>
    intro e₁ e₂ entry₁ entry₂ he₁ he₂ hm hu₁ hu₂
    by_cases h₁ : e₁ = s.nextEntry <;> by_cases h₂ : e₂ = s.nextEntry
    · rw [h₁, h₂]
    · subst h₁
      rw [Function.update_self] at he₁
      rw [Function.update_of_ne h₂] at he₂
      obtain rfl := Option.some.inj he₁
      exact absurd hm.symm (hmail e₂ entry₂ he₂ hu₂)
    · subst h₂
      rw [Function.update_self] at he₂
      rw [Function.update_of_ne h₁] at he₁
      obtain rfl := Option.some.inj he₂
      exact absurd hm (hmail e₁ entry₁ he₁ hu₁)
    · rw [Function.update_of_ne h₁] at he₁
      rw [Function.update_of_ne h₂] at he₂
      exact h.one e₁ e₂ entry₁ entry₂ he₁ he₂ hm hu₁ hu₂
  case stops =>
    intro e' entry' he'
    rcases of_update_some he' with ⟨rfl, rfl⟩ | ⟨-, he'⟩
    · rfl
    · exact h.stops e' entry' he'
  case heartbeat =>
    intro e' entry' he' hb
    rcases of_update_some he' with ⟨rfl, rfl⟩ | ⟨-, he'⟩
    · cases hb
    · exact h.heartbeat e' entry' he' hb
  case starts => exact h.starts
  case gone =>
    intro c call hc hs
    have hstop := hfree.running.2 c call hc
    rw [show Sys.Call.stops s call = true from hs] at hstop
    cases hstop
  case awaited =>
    intro c call es hc hs
    have hstop := hfree.running.2 c call hc
    rw [show Sys.Call.stops s call = true from hs] at hstop
    cases hstop
  case quiet =>
    intro hq
    rw [hfree.running.1] at hq
    cases hq

theorem step {a : Act} (h : Inv s) (hok : HostsFree s a) (hs : step s a = some s') : Inv s' := by
  cases a with
  | start =>
    simp only [MailLiveSync.step] at hs
    split_ifs at hs <;> obtain rfl := Option.some.inj hs
    · exact h.start
    · exact h.start.of_eq rfl rfl rfl rfl rfl rfl
  | resumeStart =>
    simp only [MailLiveSync.step] at hs
    split at hs
    · split_ifs at hs <;> obtain rfl := Option.some.inj hs <;>
        exact h.of_eq rfl rfl rfl rfl rfl rfl
    · cases hs
  | tick =>
    simp only [MailLiveSync.step] at hs
    split_ifs at hs
    obtain rfl := Option.some.inj hs
    exact h.of_eq rfl rfl rfl rfl rfl rfl
  | reconcileOnce =>
    obtain rfl := Option.some.inj hs
    exact h.of_eq rfl rfl rfl rfl rfl rfl
  | stop c =>
    simp only [MailLiveSync.step] at hs
    split_ifs at hs
    obtain rfl := Option.some.inj hs
    have h' : Inv { s with generation := s.generation + 1, started := false, timer := false } :=
      h.of_eq rfl rfl rfl rfl rfl rfl
    refine h'.setCall _ (fun call' hcall => ?_) (fun call' hcall hstop => ?_) h.quiet
    · obtain rfl := Option.some.inj hcall
      exact Nat.le_refl _
    · obtain rfl := Option.some.inj hcall
      simp [Sys.Call.stops] at hstop
  | stopTenant c tenantId =>
    simp only [MailLiveSync.step] at hs
    split_ifs at hs
    obtain rfl := Option.some.inj hs
    refine h.setCall _ (fun call' hcall => ?_) (fun call' hcall hstop => ?_) h.quiet
    · obtain rfl := Option.some.inj hcall
      exact Nat.le_refl _
    · obtain rfl := Option.some.inj hcall
      simp [Sys.Call.stops] at hstop
  | goOn c => exact h.goOn hs
  | discover p active failedTenants =>
    simp only [MailLiveSync.step] at hs
    split at hs
    · split_ifs at hs
      obtain rfl := Option.some.inj hs
      exact h.of_eq rfl rfl rfl rfl rfl rfl
    · cases hs
  | failPass p =>
    simp only [MailLiveSync.step] at hs
    split at hs
    · split at hs
      · obtain rfl := Option.some.inj hs
        exact h.of_eq rfl rfl rfl rfl rfl rfl
      · obtain rfl := Option.some.inj hs
        exact h.of_eq rfl rfl rfl rfl rfl rfl
      · split_ifs at hs
        obtain rfl := Option.some.inj hs
        exact h.of_eq rfl rfl rfl rfl rfl rfl
      · cases hs
    · cases hs
  | next p =>
    simp only [MailLiveSync.step] at hs
    split at hs
    · rename_i pass hp
      split at hs
      · rename_i account accounts hphase
        split at hs
        · rename_i existing hhost
          split at hs
          · split_ifs at hs <;> obtain rfl := Option.some.inj hs
            · exact h.of_eq rfl rfl rfl rfl rfl rfl
            · exact (h.stopHosted existing).of_eq rfl rfl rfl rfl rfl rfl
          · cases hs
        · rename_i hhost
          obtain rfl := Option.some.inj hs
          exact h.host (hok pass account accounts hp hphase hhost)
      · obtain rfl := Option.some.inj hs
        exact h.of_eq rfl rfl rfl rfl rfl rfl
      · rename_i e es hphase
        split at hs
        · split_ifs at hs <;> obtain rfl := Option.some.inj hs
          · exact h.of_eq rfl rfl rfl rfl rfl rfl
          · exact (h.stopHosted e).of_eq rfl rfl rfl rfl rfl rfl
        · cases hs
      · obtain rfl := Option.some.inj hs
        exact h.of_eq rfl rfl rfl rfl rfl rfl
      · cases hs
    · cases hs
  | replace p =>
    simp only [MailLiveSync.step] at hs
    split at hs
    · rename_i pass hp
      split at hs
      · rename_i account existing accounts hphase
        split_ifs at hs
        obtain rfl := Option.some.inj hs
        exact h.host (hok pass account existing accounts hp hphase)
      · cases hs
    · cases hs
  | afterStart p =>
    simp only [MailLiveSync.step] at hs
    split at hs
    · split at hs
      · rename_i e accounts hphase
        split at hs
        · rename_i entry he
          split at hs
          · rename_i ok hstarted
            obtain rfl := Option.some.inj hs
            have hentry : Inv (s.setEntry e (if ok && entry.stopping.isNone then
                { entry with heartbeat := .beating } else entry)) := by
              split_ifs with hc
              · have hn : entry.stopping = none := by
                  simp only [Bool.and_eq_true, Option.isNone_iff_eq_none] at hc
                  exact hc.2
                exact h.setEntry he rfl Iff.rfl id (h.stops _ entry he) fun _ => .inl hn
              · exact h.setEntry he rfl Iff.rfl id (h.stops _ entry he) (h.heartbeat _ entry he)
            exact hentry.of_eq rfl rfl rfl rfl rfl rfl
          · cases hs
        · cases hs
      · cases hs
    · cases hs
  | afterStop p =>
    simp only [MailLiveSync.step] at hs
    split at hs
    · split at hs
      · split_ifs at hs
        obtain rfl := Option.some.inj hs
        exact h.of_eq rfl rfl rfl rfl rfl rfl
      · cases hs
    · cases hs
  | startSettles e ok =>
    simp only [MailLiveSync.step] at hs
    split at hs
    · rename_i entry he
      split_ifs at hs
      obtain rfl := Option.some.inj hs
      exact h.setEntry he rfl Iff.rfl id (h.stops e entry he) (h.heartbeat e entry he)
    · cases hs
  | callStop e =>
    simp only [MailLiveSync.step] at hs
    split at hs
    · rename_i entry he
      split_ifs at hs with hc hbeat <;> obtain rfl := Option.some.inj hs <;>
        have hstops := h.stops e entry he <;> rw [hc.1] at hstops
      · exact h.setEntry he rfl (by simp [hc.1]) (fun _ => by simp [HostedEntry.unstopped, hc.1])
          (by simpa using hstops) nofun
      · exact h.setEntry he rfl (by simp [hc.1]) (fun _ => by simp [HostedEntry.unstopped, hc.1])
          (by simpa using hstops) fun hb => absurd hb hbeat
    · cases hs
  | stopSettles e =>
    simp only [MailLiveSync.step] at hs
    split at hs
    · rename_i entry he
      split_ifs at hs with hc
      obtain rfl := Option.some.inj hs
      have hstops := h.stops e entry he
      rw [hc] at hstops
      refine h.setEntry he rfl (by simp [hc]) (by simp [HostedEntry.unstopped])
        (by simpa using hstops) fun hb => ?_
      rcases h.heartbeat e entry he hb with hs | hs <;> rw [hc] at hs <;> cases hs
    · cases hs

end Inv

/-! ## The root -/

theorem oneLifecycle_of_hostsFree {s : Sys} (h : Reach step HostsFree .init s) :
    s.OneLifecycle :=
  (h.invariant Inv.init fun _ _ _ hi hok hstep => hi.step hok hstep).oneLifecycle

/-- Decides `HostsFree` for the steps that create no lifecycle. -/
def hostsNothing (s : Sys) : Act → Bool
  | .next p =>
    match s.passes p with
    | some ⟨_, _, _, .hosting (_ :: _)⟩ => false
    | _ => true
  | .replace _ => false
  | _ => true

theorem hostsFree_of_hostsNothing {s : Sys} {a : Act} (h : hostsNothing s a = true) :
    HostsFree s a := by
  cases a with
  | next p =>
    intro pass account accounts hp hphase
    obtain ⟨origin, active, failedTenants, phase⟩ := pass
    obtain rfl : phase = .hosting (account :: accounts) := hphase
    simp [hostsNothing, hp] at h
  | replace p => cases h
  | _ => trivial

section

def imapAccount : Account := ⟨7, 1, .imap⟩

/-- The lifecycle that the initial pass has hosted is stopped with the root. -/
def hostedAndStopped : List Act :=
  [.startSettles 0 true, .stop 0, .goOn 0, .callStop 0, .stopSettles 0, .goOn 0, .goOn 0]

def firstHost : List Act := [.start, .discover 0 [imapAccount] [], .next 0]

theorem reach_firstHost : ∃ s, runActs step .init firstHost = some s ∧
    Reach step HostsFree .init s := by
  have hrun : runChecked step hostsNothing .init [.start, .discover 0 [imapAccount] []] = some _ :=
    rfl
  have hdiscovered := Reach.of_runChecked (fun _ _ => hostsFree_of_hostsNothing) hrun
  exact ⟨_, rfl, hdiscovered.tail (a := .next 0)
    (fun _ _ _ _ _ _ => ⟨rfl, nofun, rfl, nofun⟩) rfl⟩

theorem oneLifecycle_hostedAndStopped :
    ∃ s, runActs step .init (firstHost ++ hostedAndStopped) = some s ∧ s.OneLifecycle ∧
      s.quiet = true := by
  obtain ⟨s₁, hs₁, hreach⟩ := reach_firstHost
  obtain ⟨s, hs⟩ := Option.isSome_iff_exists.mp
    (show ((runActs step .init firstHost).bind
      (runChecked step hostsNothing · hostedAndStopped)).isSome = true by decide +kernel)
  have hquiet : s.quiet = true :=
    eq_of_map_eq (f := fun s => s.quiet) (b := true) hs (by decide +kernel)
  rw [hs₁] at hs
  refine ⟨s, ?_, oneLifecycle_of_hostsFree
    (hreach.trans (.of_runChecked (fun _ _ => hostsFree_of_hostsNothing) hs)), hquiet⟩
  rw [runActs_append, hs₁]
  exact runActs_of_runChecked hs

/-- The account's mode changes; a pass awaits the stop of its lifecycle, and another one finds none
hosted. -/
def overlappingPasses : List Act :=
  [.reconcileOnce, .discover 0 [imapAccount] [], .next 0, .reconcileOnce,
    .discover 1 [{ imapAccount with syncMode := .gmail_api }] [], .next 1, .reconcileOnce,
    .discover 2 [{ imapAccount with syncMode := .gmail_api }] [], .next 2]

theorem overlappingPasses_not_oneLifecycle :
    ∃ s, Reach step (fun _ _ => True) .init s ∧ ¬ s.OneLifecycle := by
  obtain ⟨s, hs⟩ := Option.isSome_iff_exists.mp
    (show (runActs step .init overlappingPasses).isSome = true by decide +kernel)
  refine ⟨s, .of_runActs hs, fun h => ?_⟩
  have h₀ : s.entries 0 = some ⟨7, 1, .imap, .absent, none, some .waiting, 0⟩ :=
    eq_of_map_eq (f := fun s => s.entries 0)
      (b := some ⟨7, 1, .imap, .absent, none, some .waiting, 0⟩) hs (by decide +kernel)
  have h₁ : s.entries 1 = some ⟨7, 1, .gmail_api, .absent, none, none, 0⟩ :=
    eq_of_map_eq (f := fun s => s.entries 1)
      (b := some ⟨7, 1, .gmail_api, .absent, none, none, 0⟩) hs (by decide +kernel)
  have := h.one 0 1 _ _ h₀ h₁ rfl rfl rfl
  omega

end

end MailLiveSync

end Semprec
