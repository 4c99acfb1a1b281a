import Semprec.GatewayDisconnect

/-!
# A lost client aborts the call

Where the stream route's listener hears the close, a client that is lost has its signal aborted from
then on; what the response had been handed at the close is all it is handed while the call runs,
and all that a call ended by the signal leaves it with.
-/

namespace Semprec

namespace GatewayDisconnect

open AiGateway (Status)

/-- The provider has not been called. -/
def Phase.Early (phase : Phase) : Prop := phase = .received ∨ phase = .reserving

structure Inv (s : Sys) : Prop where
  early : s.phase.Early → s.handed = false ∧ s.timedOut = false ∧ s.endedByAbort = false ∧
    s.res.writableEnded = false ∧ s.res.writableFinished = false ∧
    (s.res.destroyed = true → s.lostAt ≠ none)
  /-- The listener of the stream route is there only when the call has been made. -/
  stream : s.route = .piMessages → (s.listening = true → s.handed = true) ∧
    (s.handed = true → s.res.headersSent = true) ∧ (s.lostAt ≠ none → ¬s.phase.Early)
  answer : s.route ≠ .piMessages → s.handed = true ∨ s.phase = .reserving →
    s.listening = true ∧ (s.lostAt ≠ none → s.abort = true)
  writing : ∀ terminal, s.phase = .writing terminal → s.route = .piMessages
  called : ¬s.phase.Early → s.phase ≠ .answered → s.handed = true ∧ s.row = some .reserved
  abort : s.abort = true → s.lostAt ≠ none
  gone : s.lostAt ≠ none → s.res.destroyed = true
  lost : s.phase ≠ .answered → s.lostAt = none ∨ s.lostAt = some s.res.output
  ended : s.endedByAbort = true → s.abort = true ∧ s.handed = true ∧
    ((∃ err, s.phase = .failing err) ∨ s.phase = .answered)
  signal : s.lostAt ≠ none → s.handed = true → s.abort = true ∨ s.timedOut = true
  failed : s.endedByAbort = true → s.phase = .answered → s.row = some .failed
  quiet : s.endedByAbort = true → s.lostAt = some s.res.output

variable {s s' : Sys}

theorem Inv.init (route : Route) : Inv (Sys.init route) := by
  constructor <;> simp [Sys.init, Phase.Early]

theorem Inv.guarded_charge (h : Inv s) : s.Guarded := by
  refine ⟨fun hlost hhanded => ?_, h.failed, h.quiet⟩
  simpa [Sys.signalAborted] using h.signal hlost hhanded

theorem Inv.of_open (h : Inv s) (hopen : s.res.destroyed = false) :
    s.lostAt = none ∧ s.abort = false ∧ s.endedByAbort = false := by
  have hlost : s.lostAt = none := by
    by_contra hne
    have hdestroyed := h.gone hne
    simp [hopen] at hdestroyed
  have habort : s.abort = false := by
    by_contra hne
    exact h.abort (by simpa using hne) hlost
  refine ⟨hlost, habort, ?_⟩
  by_contra hne
  have hended := (h.ended (by simpa using hne)).1
  simp [habort] at hended

theorem Inv.at_work (h : Inv s)
    (hphase : s.phase = .invoking ∨ ∃ terminal, s.phase = .writing terminal) :
    s.endedByAbort = false := by
  by_contra hne
  have hended := (h.ended (by simpa using hne)).2.2
  rcases hphase with hphase | ⟨_, hphase⟩ <;> simp [hphase] at hended

/-! ## Closing -/

theorem close_eq (s : Sys) : s.close = { s with
    abort := s.abort || (s.listening && !s.res.writableFinished)
    res := { s.res with destroyed := true }
    lostAt := if s.res.writableFinished then none else some s.res.output } := by
  unfold Sys.close Sys.onClose
  rcases s.listening.eq_false_or_eq_true with hl | hl <;>
    rcases s.res.writableFinished.eq_false_or_eq_true with hf | hf <;> simp [hl, hf]

theorem Inv.close (h : Inv s) (hok : CloseHeard s .close = true) (hopen : s.res.destroyed = false) :
    Inv s.close := by
  obtain ⟨-, habort, hended⟩ := h.of_open hopen
  rw [close_eq]
  simp only [CloseHeard, Bool.or_eq_true, decide_eq_true_eq, Bool.and_eq_true,
    Bool.not_eq_true'] at hok
  refine { h with
    early := fun hearly => ?_
    stream := fun hroute => ⟨(h.stream hroute).1, (h.stream hroute).2.1, fun hlost hearly => ?_⟩
    answer := fun hroute hon => ⟨(h.answer hroute hon).1, fun hlost => ?_⟩
    abort := fun haborted => ?_
    gone := fun _ => rfl
    lost := fun _ => ?_
    ended := fun he => by simp [hended] at he
    signal := fun hlost hhanded => ?_
    failed := fun he => by simp [hended] at he
    quiet := fun he => by simp [hended] at he }
  · obtain ⟨hhanded, htimeout, he, hend, hfinished, -⟩ := h.early hearly
    exact ⟨hhanded, htimeout, he, hend, hfinished, fun _ => by simp [hfinished]⟩
  · obtain ⟨hhanded, htimeout, -, -, hfinished, -⟩ := h.early hearly
    rcases hok with (((hne | hlistening) | hfin) | htimed) | ⟨hanswered, -⟩
    · exact hne hroute
    · simpa [hhanded] using (h.stream hroute).1 hlistening
    · simp [hfinished] at hfin
    · simp [htimeout] at htimed
    · simp [Phase.Early, hanswered] at hearly
  · have hfinished : s.res.writableFinished = false := by simpa using hlost
    simp [(h.answer hroute hon).1, hfinished]
  · have hfinished : s.res.writableFinished = false := by
      simp only [habort, Bool.false_or, Bool.and_eq_true, Bool.not_eq_true'] at haborted
      exact haborted.2
    simp [hfinished]
  · by_cases hfinished : s.res.writableFinished = true
    · exact .inl (if_pos hfinished)
    · exact .inr (if_neg hfinished)
  · have hfinished : s.res.writableFinished = false := by simpa using hlost
    rcases hok with (((hne | hlistening) | hfin) | htimed) | ⟨-, hnot⟩
    · exact .inl (by simp [(h.answer hne (.inl hhanded)).1, hfinished])
    · exact .inl (by simp [hlistening, hfinished])
    · exact absurd hfin (by simp [hfinished])
    · exact .inr htimed
    · exact absurd hnot (by simp [show s.handed = true from hhanded])

/-! ## Before the call -/

theorem Inv.reserve (h : Inv s) (hs : step s .reserve = some s') : Inv s' := by
  simp only [step] at hs
  split_ifs at hs with hphase hroute
  all_goals
    obtain rfl := Option.some.inj hs
    have hearly : s.phase.Early := .inl hphase
    obtain ⟨hhanded, -, hended, -, -, hdestroyed⟩ := h.early hearly
  · exact { h with
      early := fun _ => h.early hearly
      stream := fun hroute => ⟨(h.stream hroute).1, (h.stream hroute).2.1,
        fun hlost => absurd hearly ((h.stream hroute).2.2 hlost)⟩
      answer := fun hne => absurd hroute hne
      writing := fun _ hwriting => by cases hwriting
      called := fun hlate => absurd (.inr rfl) hlate
      lost := fun _ => h.lost (by simp [hphase])
      ended := fun he => by simp [hended] at he
      failed := fun he => by simp [hended] at he }
  · -- the listener is attached, and a connection that is gone already aborts the call
    exact { h with
      early := fun _ => h.early hearly
      stream := fun hpi => absurd hpi hroute
      answer := fun _ _ => ⟨rfl, h.gone⟩
      writing := fun _ hwriting => by cases hwriting
      called := fun hlate => absurd (.inr rfl) hlate
      abort := hdestroyed
      lost := fun _ => h.lost (by simp [hphase])
      ended := fun he => by simp [Sys.abortOnDisconnect, hended] at he
      signal := fun _ hh => by simp [Sys.abortOnDisconnect, hhanded] at hh
      failed := fun he => by simp [Sys.abortOnDisconnect, hended] at he }

theorem Inv.invoke (h : Inv s) (hs : step s .invoke = some s') : Inv s' := by
  simp only [step] at hs
  split_ifs at hs with hphase hroute
  all_goals
    obtain rfl := Option.some.inj hs
    have hearly : s.phase.Early := .inr hphase
    have hended := (h.early hearly).2.2.1
  · have hlost : s.lostAt = none := by
      by_contra hne
      exact (h.stream hroute).2.2 hne hearly
    exact { h with
      early := fun he => by simp [Phase.Early] at he
      stream := fun _ => ⟨fun _ => rfl, fun _ => by
        simp [ServerResponse.headersSent, ServerResponse.write], fun _ => by simp [Phase.Early]⟩
      answer := fun hne => absurd hroute hne
      writing := fun _ hwriting => by cases hwriting
      called := fun _ _ => ⟨rfl, rfl⟩
      lost := fun _ => .inl hlost
      ended := fun he => by simp [hended] at he
      signal := fun hne => absurd hlost hne
      failed := fun he => by simp [hended] at he
      quiet := fun he => by simp [hended] at he }
  · have hanswer := h.answer hroute (.inr hphase)
    exact { h with
      early := fun he => by simp [Phase.Early] at he
      stream := fun hpi => absurd hpi hroute
      answer := fun _ _ => hanswer
      writing := fun _ hwriting => by cases hwriting
      called := fun _ _ => ⟨rfl, rfl⟩
      lost := fun _ => h.lost (by simp [hphase])
      ended := fun he => by simp [hended] at he
      signal := fun hne _ => .inl (hanswer.2 hne)
      failed := fun he => by simp [hended] at he }

/-! ## The stream -/

/-- The provider is at work, so it has been called. -/
theorem working
    (hphase : s.phase = .invoking ∨ ∃ terminal, s.phase = .writing terminal) :
    ¬s.phase.Early ∧ s.phase ≠ .answered := by
  rcases hphase with hphase | ⟨_, hphase⟩ <;> simp [hphase, Phase.Early]

/-- An event has been written: the last one ends the response and takes the listener off. -/
theorem Inv.afterEvent (h : Inv s) (hroute : s.route = .piMessages)
    (hphase : s.phase = .invoking ∨ ∃ terminal, s.phase = .writing terminal)
    (terminal : Option Terminal) : Inv (s.afterEvent terminal) := by
  have hended := h.at_work hphase
  obtain ⟨hlate, hopen⟩ := working hphase
  obtain ⟨hlistening, hsent, -⟩ := h.stream hroute
  rcases terminal with _ | _ | _
  · exact { h with
      early := fun he => by simp [Sys.afterEvent, Phase.Early] at he
      stream := fun _ => ⟨hlistening, hsent, fun _ => by simp [Sys.afterEvent, Phase.Early]⟩
      answer := fun hne => absurd hroute hne
      writing := fun _ _ => hroute
      called := fun _ _ => h.called hlate hopen
      lost := fun _ => h.lost hopen
      ended := fun he => by simp [Sys.afterEvent, hended] at he
      failed := fun he => by simp [Sys.afterEvent, hended] at he }
  all_goals
    exact { h with
      early := fun he => by simp [Sys.afterEvent, Phase.Early] at he
      stream := fun _ => ⟨(fun hl => by cases hl), hsent, fun _ => by
        simp [Sys.afterEvent, Phase.Early]⟩
      answer := fun hne => absurd hroute hne
      writing := fun _ _ => hroute
      called := fun _ _ => h.called hlate hopen
      lost := fun _ => h.lost hopen
      ended := fun he => by simp [Sys.afterEvent, hended] at he
      failed := fun he => by simp [Sys.afterEvent, hended] at he }

theorem Inv.write (h : Inv s) (hroute : s.route = .piMessages) (hphase : s.phase = .invoking)
    (hopen : s.res.destroyed = false) : Inv { s with res := s.res.write .event } := by
  obtain ⟨hlost, -, hended⟩ := h.of_open hopen
  exact { h with
    early := fun he => by simp [hphase, Phase.Early] at he
    stream := fun _ => ⟨(h.stream hroute).1, fun _ => by
      simp [ServerResponse.headersSent, ServerResponse.write], (h.stream hroute).2.2⟩
    lost := fun _ => .inl hlost
    quiet := fun he => by simp [hended] at he }

theorem Inv.wait (h : Inv s) (hroute : s.route = .piMessages) (hphase : s.phase = .invoking)
    (terminal : Option Terminal) : Inv { s with phase := .writing terminal } := by
  have hended := h.at_work (.inl hphase)
  obtain ⟨hlate, hopen⟩ := working (.inl hphase)
  obtain ⟨hlistening, hsent, -⟩ := h.stream hroute
  exact { h with
    early := fun he => by simp [Phase.Early] at he
    stream := fun _ => ⟨hlistening, hsent, fun _ => by simp [Phase.Early]⟩
    answer := fun hne => absurd hroute hne
    writing := fun _ _ => hroute
    called := fun _ _ => h.called hlate hopen
    lost := fun _ => h.lost hopen
    ended := fun he => by simp [hended] at he
    failed := fun he => by simp [hended] at he }

/-- An event that is not the end of an aborted call. -/
theorem Inv.writeEvent (h : Inv s) (hroute : s.route = .piMessages) (hphase : s.phase = .invoking)
    (terminal : Option Terminal) (full : Bool) : Inv (s.writeEvent terminal full) := by
  rw [Sys.writeEvent]
  by_cases hopen : s.res.isOpen = true
  · have hwritten : Inv { s with res := s.res.write .event } :=
      h.write hroute hphase (by simpa using (Bool.and_eq_true_iff.mp hopen).1)
    rw [if_pos hopen]
    split_ifs
    · exact hwritten.wait hroute hphase terminal
    · exact hwritten.afterEvent hroute (.inl hphase) terminal
  · rw [if_neg hopen]
    exact h.afterEvent hroute (.inl hphase) terminal

/-! ## The end of the call -/

theorem Inv.succeed (h : Inv s) (hroute : s.route ≠ .piMessages) (hphase : s.phase = .invoking)
    (valid : Bool) : Inv { s with phase := .settling valid } := by
  have hended := h.at_work (.inl hphase)
  obtain ⟨hlate, hopen⟩ := working (.inl hphase)
  have hcalled := h.called hlate hopen
  exact { h with
    early := fun he => by simp [Phase.Early] at he
    stream := fun hpi => absurd hpi hroute
    answer := fun _ _ => h.answer hroute (.inl hcalled.1)
    writing := fun _ hwriting => by cases hwriting
    called := fun _ _ => hcalled
    lost := fun _ => h.lost hopen
    ended := fun he => by simp [hended] at he
    failed := fun he => by simp [hended] at he }

theorem Inv.reject (h : Inv s) (hphase : s.phase = .invoking) {byAbort : Bool}
    (hby : byAbort = true → s.abort = true) {listening ended : Bool}
    (hlistening : listening = (s.listening && decide (s.route ≠ .piMessages)))
    (err : InvokeError) : Inv { s with
      phase := .failing err, endedByAbort := byAbort, listening
      res := { s.res with writableEnded := ended } } := by
  obtain ⟨hlate, hopen⟩ := working (.inl hphase)
  have hcalled := h.called hlate hopen
  refine { h with
    early := fun he => by simp [Phase.Early] at he
    stream := fun hpi => ⟨(fun hl => by
      simp [hlistening, show s.route = .piMessages from hpi] at hl), (h.stream hpi).2.1,
      fun _ => by simp [Phase.Early]⟩
    answer := fun hne _ => ?_
    writing := fun _ hwriting => by cases hwriting
    called := fun _ _ => hcalled
    lost := fun _ => h.lost hopen
    ended := fun he => ⟨hby he, hcalled.1, .inl ⟨err, rfl⟩⟩
    failed := fun _ hanswered => by cases hanswered
    quiet := fun he => (h.lost hopen).resolve_left (h.abort (hby he)) }
  obtain ⟨hl, hlost⟩ := h.answer hne (.inl hcalled.1)
  exact ⟨by simp [hlistening, hl, hne], hlost⟩

theorem Inv.abortedEvent (h : Inv s) (hroute : s.route = .piMessages) (hphase : s.phase = .invoking)
    (habort : s.abort = true) (full : Bool) :
    Inv ({ s with endedByAbort := true }.writeEvent (some .error) full) := by
  have hgone := h.gone (h.abort habort)
  rw [Sys.writeEvent, if_neg (by simp [ServerResponse.isOpen, hgone])]
  exact h.reject hphase (fun _ => habort) (by simp [hroute]) .providerCall

/-! ## The answer -/

/-- An answer to a call that the signal has ended says nothing. -/
structure Answers (s : Sys) (res : ServerResponse) : Prop where
  destroyed : res.destroyed = s.res.destroyed
  sent : s.res.headersSent = true → res.headersSent = true
  quiet : s.endedByAbort = true → res.output = s.res.output

theorem Inv.answered (h : Inv s) {res : ServerResponse} (hres : Answers s res)
    {row : Option Status} (hrow : s.endedByAbort = true → row = some .failed) :
    Inv { s with res, row, phase := .answered } :=
  { h with
    early := fun he => by simp [Phase.Early] at he
    stream := fun hroute => ⟨(h.stream hroute).1, fun hhanded =>
      hres.sent ((h.stream hroute).2.1 hhanded), fun _ => by simp [Phase.Early]⟩
    answer := fun hne hon => h.answer hne (hon.imp_right fun hreserving => by cases hreserving)
    writing := fun _ hwriting => by cases hwriting
    called := fun _ hne => absurd rfl hne
    gone := fun hlost => hres.destroyed.trans (h.gone hlost)
    lost := fun hne => absurd rfl hne
    ended := fun he => ⟨(h.ended he).1, (h.ended he).2.1, .inr rfl⟩
    failed := fun he _ => hrow he
    quiet := fun he => (h.quiet he).trans (congrArg some (hres.quiet he).symm) }

theorem answers_self (s : Sys) : Answers s s.res := ⟨rfl, id, fun _ => rfl⟩

theorem answers_end (s : Sys) : Answers s s.res.end_ := ⟨rfl, id, fun _ => rfl⟩

theorem answers_sendJson (hended : s.endedByAbort = false) (status : ℕ) :
    Answers s (s.res.sendJson status) :=
  ⟨rfl, fun _ => by simp [ServerResponse.sendJson, ServerResponse.end_, ServerResponse.write,
    ServerResponse.headersSent], fun he => by simp [hended] at he⟩

/-- Before the call nothing has been ended by the signal, so whatever is answered will do. -/
theorem answerReservationError_eq (hended : s.endedByAbort = false) (err : ReservationError) :
    ∃ res, Answers s res ∧ s.answerReservationError err = { s with res } := by
  have hjson : ∀ status, ∃ res, Answers s res ∧ s.sendJson status = { s with res } :=
    fun status => ⟨_, answers_sendJson hended status, rfl⟩
  have herror : ∃ res, Answers s res ∧ s.answerError err = { s with res } := by
    rcases err with _ | status | _ <;> exact hjson _
  unfold Sys.answerReservationError
  split_ifs
  · exact hjson _
  · exact ⟨_, answers_end s, rfl⟩
  · exact ⟨_, answers_self s, rfl⟩
  · exact herror
  · exact ⟨_, answers_self s, rfl⟩
  · exact hjson _
  · exact herror

/-- A call that the signal has ended is not answered: on the stream route the head has been sent. -/
theorem Inv.answerInvokeError_eq (h : Inv s) (hhanded : s.handed = true) (err : InvokeError) :
    ∃ res, Answers s res ∧ s.answerInvokeError err = { s with res } := by
  unfold Sys.answerInvokeError
  by_cases hroute : s.route = .piMessages
  · rw [if_pos hroute, if_pos ((h.stream hroute).2.1 hhanded)]
    split_ifs
    · exact ⟨_, answers_end s, rfl⟩
    · exact ⟨_, answers_self s, rfl⟩
  · rw [if_neg hroute]
    by_cases habort : s.abort = true
    · exact ⟨_, answers_self s, by rw [if_pos habort]⟩
    · have hended : s.endedByAbort = false := by
        by_contra hne
        exact habort (h.ended (by simpa using hne)).1
      rw [if_neg habort]
      split_ifs <;> exact ⟨_, answers_sendJson hended _, rfl⟩

theorem answerResult_eq (hended : s.endedByAbort = false) (valid : Bool) :
    ∃ res, Answers s res ∧ s.answerResult valid = { s with res } := by
  unfold Sys.answerResult
  split_ifs
  · exact ⟨_, answers_self s, rfl⟩
  · exact ⟨_, answers_sendJson hended _, rfl⟩
  · exact ⟨_, answers_sendJson hended _, rfl⟩

/-! ## Runs -/

theorem Inv.ended_false (h : Inv s) (hphase : s.phase ≠ .answered)
    (hfailing : ∀ err, s.phase ≠ .failing err) : s.endedByAbort = false := by
  by_contra hne
  rcases (h.ended (by simpa using hne)).2.2 with ⟨err, herr⟩ | hanswered
  · exact hfailing err herr
  · exact hphase hanswered

theorem Inv.step (h : Inv s) {a : Act} (hok : CloseHeard s a = true)
    (hs : GatewayDisconnect.step s a = some s') : Inv s' := by
  rcases a with _ | _ | status | _ | err | _ | _ | ⟨terminal, full, byAbort⟩ | _ | valid |
    ⟨err, byAbort⟩ | settled | updated
  case close =>
    simp only [GatewayDisconnect.step] at hs
    split_ifs at hs with hopen
    obtain rfl := Option.some.inj hs
    exact h.close hok (by simpa using hopen)
  case finish =>
    simp only [GatewayDisconnect.step] at hs
    split_ifs at hs with hopen
    obtain rfl := Option.some.inj hs
    refine { h with early := fun hearly => ?_, stream := h.stream }
    simp [(h.early hearly).2.2.2.1] at hopen
  case refuse =>
    simp only [GatewayDisconnect.step] at hs
    split_ifs at hs with hphase
    obtain rfl := Option.some.inj hs
    have hended := (h.early (.inl hphase)).2.2.1
    exact h.answered (answers_sendJson hended status) (by simp [hended])
  case reserve => exact h.reserve hs
  case reservationFails =>
    simp only [GatewayDisconnect.step] at hs
    split_ifs at hs with hphase
    obtain rfl := Option.some.inj hs
    have hended := (h.early (.inr hphase)).2.2.1
    obtain ⟨res, hres, heq⟩ := answerReservationError_eq hended err
    rw [heq]
    exact h.answered hres (by simp [hended])
  case invoke => exact h.invoke hs
  case timeout =>
    simp only [GatewayDisconnect.step] at hs
    split_ifs at hs with hon
    obtain rfl := Option.some.inj hs
    refine { h with early := fun hearly => ?_, signal := fun _ _ => .inr rfl }
    simp [(h.early hearly).1] at hon
  case event =>
    simp only [GatewayDisconnect.step] at hs
    split_ifs at hs with hon
    obtain rfl := Option.some.inj hs
    obtain ⟨hroute, hphase, hby⟩ := hon
    rcases byAbort
    · have hsame : { s with endedByAbort := false } = s := by rw [← h.at_work (.inl hphase)]
      rw [hsame]
      exact h.writeEvent hroute hphase terminal full
    · obtain ⟨habort, rfl⟩ := hby rfl
      exact h.abortedEvent hroute hphase habort full
  case settleWrite =>
    simp only [GatewayDisconnect.step] at hs
    split at hs
    case h_2 => exact absurd hs nofun
    case h_1 terminal hphase =>
      obtain rfl := Option.some.inj hs
      exact h.afterEvent (h.writing terminal hphase) (.inr ⟨terminal, hphase⟩) terminal
  case providerReturns =>
    simp only [GatewayDisconnect.step] at hs
    split_ifs at hs with hon
    obtain rfl := Option.some.inj hs
    exact h.succeed hon.1 hon.2 valid
  case providerRejects =>
    simp only [GatewayDisconnect.step] at hs
    split_ifs at hs with hon
    obtain rfl := Option.some.inj hs
    exact h.reject hon.1 hon.2 rfl err
  case settle =>
    simp only [GatewayDisconnect.step] at hs
    split at hs
    case h_2 => exact absurd hs nofun
    case h_1 valid hphase =>
      obtain rfl := Option.some.inj hs
      have hended : s.endedByAbort = false := h.ended_false (by simp [hphase]) (by simp [hphase])
      obtain ⟨res, hres, heq⟩ := answerResult_eq hended valid
      rw [heq]
      exact h.answered hres (by simp [hended])
  case fail =>
    simp only [GatewayDisconnect.step] at hs
    split at hs
    case h_2 => exact absurd hs nofun
    case h_1 err hphase =>
      obtain rfl := Option.some.inj hs
      obtain ⟨hhanded, hrow⟩ := h.called (by simp [hphase, Phase.Early]) (by simp [hphase])
      obtain ⟨res, hres, heq⟩ := h.answerInvokeError_eq hhanded err
      obtain rfl : updated = true := hok
      rw [heq]
      exact h.answered hres (by simp [hrow])

/-- The signal of a lost client's call is aborted in every run whose closes are heard. -/
theorem guarded_of_reach {route : Route}
    (h : Reach GatewayDisconnect.step (fun s a => CloseHeard s a = true) (Sys.init route) s) :
    s.Guarded :=
  (h.invariant (I := Inv) (Inv.init route) fun _ _ _ hi hok hs => hi.step hok hs).guarded_charge

def betweenEvents : List Act :=
  [.reserve, .invoke, .event none false false, .close, .event (some .error) false true, .fail true]

theorem betweenEvents_guarded :
    ∃ s, runActs GatewayDisconnect.step (Sys.init .piMessages) betweenEvents = some s ∧
      s.endedByAbort = true ∧ s.row = some .failed ∧ s.Guarded := by
  rcases hs : runChecked GatewayDisconnect.step CloseHeard (Sys.init .piMessages) betweenEvents
    with _ | s
  · exact absurd hs (by decide +kernel)
  · have hended : s.endedByAbort = true :=
      eq_of_map_eq hs (f := fun s => s.endedByAbort) (by decide +kernel)
    have hrow : s.row = some .failed := eq_of_map_eq hs (f := fun s => s.row) (by decide +kernel)
    exact ⟨s, runActs_of_runChecked hs, hended, hrow,
      guarded_of_reach (.of_runChecked (fun _ _ h => h) hs)⟩

/-- Closed while the budget is being reserved, a stream has been started that nothing stops. -/
theorem reservation_unguarded : ¬∀ route s,
    Reach GatewayDisconnect.step (fun _ _ => True) (Sys.init route) s → s.Guarded := by
  intro hall
  rcases hs : runActs GatewayDisconnect.step (Sys.init .piMessages) [.reserve, .close, .invoke]
    with _ | s
  · exact absurd hs (by decide +kernel)
  · have hlost : s.lostAt = some [] := eq_of_map_eq hs (f := fun s => s.lostAt) (by decide +kernel)
    have hhanded : s.handed = true := eq_of_map_eq hs (f := fun s => s.handed) (by decide +kernel)
    have hsignal : s.signalAborted = false :=
      eq_of_map_eq hs (f := fun s => s.signalAborted) (by decide +kernel)
    have hguarded := (hall .piMessages s (.of_runActs hs)).signal (by simp [hlost]) hhanded
    simp [hsignal] at hguarded

end GatewayDisconnect

end Semprec
