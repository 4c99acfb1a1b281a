import Mathlib.Data.List.Chain
import Mathlib.Data.List.Forall2
import Mathlib.Data.List.Induction
import Semprec.TranscriptMerge

/-!
# What a merged transcript says

The segments of a merged transcript are what its chunks keep, in order of time: consecutive texts of
one speaker are joined (`Spoken`), a clock that only goes forward gives them their times
(`MergedOk`), and each has the speaker of a turn that is nearest to it (`Attributed`).
-/

namespace Semprec

namespace Transcription

/-! ### Speakers -/

/-- The speaker is that of a turn with the largest overlap, of a turn with the smallest gap where
none overlaps, and the fallback speaker where there are no turns. -/
def Attributed (turns : List DiarizationTurn) (segment : TimedText) (speaker : String) : Prop :=
  turns = [] ∧ speaker = FALLBACK_SPEAKER ∨ ∃ turn ∈ turns, turn.speaker = speaker ∧
    ((0 < overlapSeconds segment turn ∧
      ∀ other ∈ turns, overlapSeconds segment other ≤ overlapSeconds segment turn) ∨
    (∀ other ∈ turns, overlapSeconds segment other = 0) ∧
      ∀ other ∈ turns, gapSeconds segment turn ≤ gapSeconds segment other)

section fold

variable {α : Type*} {f : α → ℚ}

/-- A scan for the largest positive value. -/
theorem foldl_largest : ∀ l : List α,
    let best := l.foldl (fun (best : Option α × ℚ) x => if f x > best.2 then (some x, f x) else best)
      (none, 0)
    (best = (none, 0) ∧ ∀ y ∈ l, f y ≤ 0) ∨
      ∃ x ∈ l, best = (some x, f x) ∧ 0 < f x ∧ ∀ y ∈ l, f y ≤ f x := by
  intro l
  induction l using List.reverseRecOn with
  | nil => exact .inl ⟨rfl, nofun⟩
  | append_singleton l z ih =>
    simp only [List.foldl_append, List.foldl_cons, List.foldl_nil, List.mem_append,
      List.mem_singleton]
    rcases ih with ⟨hbest, hle⟩ | ⟨x, hx, hbest, hpos, hle⟩ <;> rw [hbest]
    · by_cases hz : f z > 0
      · refine .inr ⟨z, .inr rfl, if_pos hz, hz, ?_⟩
        rintro y (hy | rfl)
        · exact (hle y hy).trans hz.le
        · exact le_rfl
      · refine .inl ⟨if_neg hz, ?_⟩
        rintro y (hy | rfl)
        · exact hle y hy
        · exact not_lt.mp hz
    · by_cases hz : f z > f x
      · refine .inr ⟨z, .inr rfl, if_pos hz, hpos.trans hz, ?_⟩
        rintro y (hy | rfl)
        · exact (hle y hy).trans hz.le
        · exact le_rfl
      · refine .inr ⟨x, .inl hx, if_neg hz, hpos, ?_⟩
        rintro y (hy | rfl)
        · exact hle y hy
        · exact not_lt.mp hz

theorem foldl_smallest : ∀ l : List α,
    let best := l.foldl (fun (best : Option (α × ℚ)) x =>
      if best.all (f x < ·.2) then some (x, f x) else best) none
    (best = none ∧ l = []) ∨ ∃ x ∈ l, best = some (x, f x) ∧ ∀ y ∈ l, f x ≤ f y := by
  intro l
  induction l using List.reverseRecOn with
  | nil => exact .inl ⟨rfl, rfl⟩
  | append_singleton l z ih =>
    simp only [List.foldl_append, List.foldl_cons, List.foldl_nil, List.mem_append,
      List.mem_singleton]
    rcases ih with ⟨hbest, rfl⟩ | ⟨x, hx, hbest, hle⟩ <;> rw [hbest]
    · exact .inr ⟨z, .inr rfl, rfl, by simp⟩
    · by_cases hz : f z < f x
      · refine .inr ⟨z, .inr rfl, by simp [hz], ?_⟩
        rintro y (hy | rfl)
        · exact hz.le.trans (hle y hy)
        · exact le_rfl
      · refine .inr ⟨x, .inl hx, by simp [hz], ?_⟩
        rintro y (hy | rfl)
        · exact hle y hy
        · exact not_lt.mp hz

end fold

theorem overlapSeconds_nonneg (segment : TimedText) (turn : DiarizationTurn) :
    0 ≤ overlapSeconds segment turn :=
  le_max_left _ _

theorem attributed_assignSpeaker (segment : TimedText) (turns : List DiarizationTurn) :
    Attributed turns segment (assignSpeaker segment turns) := by
  unfold assignSpeaker
  rcases foldl_largest (f := overlapSeconds segment) turns with ⟨hbest, hle⟩ |
    ⟨turn, hmem, hbest, hpos, hle⟩ <;> simp only [hbest]
  · have hzero : ∀ other ∈ turns, overlapSeconds segment other = 0 := fun other hother =>
      le_antisymm (hle other hother) (overlapSeconds_nonneg segment other)
    rcases foldl_smallest (f := gapSeconds segment) turns with ⟨hbest, rfl⟩ |
      ⟨turn, hmem, hbest, hle⟩ <;> simp only [hbest]
    · exact .inl ⟨rfl, rfl⟩
    · exact .inr ⟨turn, hmem, rfl, .inr ⟨hzero, hle⟩⟩
  · exact .inr ⟨turn, hmem, rfl, .inl ⟨hpos, hle⟩⟩

theorem Attributed.perm {turns turns' : List DiarizationTurn} {segment : TimedText}
    {speaker : String} (h : turns.Perm turns') (ha : Attributed turns segment speaker) :
    Attributed turns' segment speaker := by
  have hnil : turns = [] ↔ turns' = [] := by
    rw [← List.length_eq_zero_iff, ← List.length_eq_zero_iff, h.length_eq]
  unfold Attributed at ha ⊢
  simpa only [h.mem_iff, hnil] using ha

/-! ### The pass over the kept texts -/

def spaced : List String → String
  | [] => ""
  | text :: texts => texts.foldl (· ++ " " ++ ·) text

theorem spaced_append_singleton {texts : List String} (h : texts ≠ []) (text : String) :
    spaced (texts ++ [text]) = spaced texts ++ " " ++ text := by
  rcases texts with _ | ⟨t, ts⟩
  · exact absurd rfl h
  · simp [spaced]

structure Spoken (turns : List DiarizationTurn) (texts : List TimedText)
    (segment : TranscriptSegment) : Prop where
  ne_nil : texts ≠ []
  text : segment.text = spaced (texts.map TimedText.text)
  speaker : ∀ x ∈ texts, Attributed turns x segment.speaker

def Follows (a b : TranscriptSegment) : Prop :=
  a.endsAt ≤ b.startsAt ∧
    (a.speaker ≠ b.speaker ∨ SEGMENT_PAUSE_BREAK_SECONDS < b.startsAt - a.endsAt)

structure MergedOk (turns : List DiarizationTurn) (kept : List TimedText)
    (merged : List TranscriptSegment × ℚ) : Prop where
  spoken : ∃ groups : List (List TimedText), groups.flatten = kept ∧
    List.Forall₂ (Spoken turns) groups merged.1
  follows : merged.1.IsChain Follows
  times : ∀ s ∈ merged.1, s.startsAt ≤ s.endsAt
  clock : ∀ last ∈ merged.1.getLast?, last.endsAt = merged.2

variable {turns : List DiarizationTurn} {kept : List TimedText}
  {merged : List TranscriptSegment × ℚ} {segment : TimedText}

theorem MergedOk.push (h : MergedOk turns kept merged) {s : TranscriptSegment}
    (hspoken : Spoken turns [segment] s) (htimes : s.startsAt ≤ s.endsAt)
    (hfollows : ∀ last ∈ merged.1.getLast?, Follows last s) :
    MergedOk turns (kept ++ [segment]) (merged.1 ++ [s], s.endsAt) where
  spoken := by
    obtain ⟨groups, hflat, hgroups⟩ := h.spoken
    exact ⟨groups ++ [[segment]], by simp [hflat], List.rel_append hgroups (.cons hspoken .nil)⟩
  follows := List.isChain_append.mpr ⟨h.follows, .singleton s, fun x hx y hy => by
    obtain rfl : s = y := by simpa using hy
    exact hfollows x hx⟩
  times x hx := by
    rcases List.mem_append.mp hx with hx | hx
    · exact h.times x hx
    · obtain rfl := List.mem_singleton.mp hx
      exact htimes
  clock last hlast := by
    obtain rfl : s = last := by simpa using hlast
    rfl

theorem MergedOk.extend {init : List TranscriptSegment} {last : TranscriptSegment} {clock : ℚ}
    (h : MergedOk turns kept (init ++ [last], clock))
    (hspeaker : Attributed turns segment last.speaker) {endsAt : ℚ} (hle : last.endsAt ≤ endsAt) :
    MergedOk turns (kept ++ [segment])
      (init ++ [{ last with text := last.text ++ " " ++ segment.text, endsAt }], endsAt) where
  spoken := by
    obtain ⟨groups, hflat, hgroups⟩ := h.spoken
    have hinit := List.forall₂_take_append groups init [last] hgroups
    have hrest := List.forall₂_drop_append groups init [last] hgroups
    obtain ⟨group, rest, hgroup, hnil, hdrop⟩ := List.forall₂_cons_right_iff.mp hrest
    obtain rfl := List.forall₂_nil_right_iff.mp hnil
    refine ⟨groups.take init.length ++ [group ++ [segment]], ?_,
      List.rel_append hinit (.cons ?_ .nil)⟩
    · have hsplit : (groups.take init.length ++ [group]).flatten = kept := by
        rw [← hdrop, List.take_append_drop, hflat]
      simp [← hsplit]
    · refine ⟨by simp, ?_, fun x hx => ?_⟩
      · rw [List.map_append, List.map_singleton,
          spaced_append_singleton (by simpa using hgroup.ne_nil), hgroup.text]
      · rcases List.mem_append.mp hx with hx | hx
        · exact hgroup.speaker x hx
        · obtain rfl := List.mem_singleton.mp hx
          exact hspeaker
  follows := by
    obtain ⟨hinit, _, hlast⟩ := List.isChain_append.mp h.follows
    refine List.isChain_append.mpr ⟨hinit, .singleton _, fun x hx y hy => ?_⟩
    obtain rfl := by simpa using hy
    exact hlast x hx last (by simp)
  times x hx := by
    rcases List.mem_append.mp hx with hx | hx
    · exact h.times x (List.mem_append_left _ hx)
    · obtain rfl := List.mem_singleton.mp hx
      exact (h.times last (by simp)).trans hle
  clock x hx := by
    obtain rfl := by simpa using hx
    rfl

theorem MergedOk.round {sortedTurns : List DiarizationTurn} (h : MergedOk turns kept merged)
    (hperm : sortedTurns.Perm turns) (segment : TimedText) :
    MergedOk turns (kept ++ [segment]) (mergeSegment sortedTurns merged segment) := by
  obtain ⟨out, clock⟩ := merged
  have hspeaker := (attributed_assignSpeaker segment sortedTurns).perm hperm
  have hspoken : ∀ {startsAt endsAt : ℚ}, Spoken turns [segment]
      ⟨assignSpeaker segment sortedTurns, segment.text, startsAt, endsAt⟩ := fun {_ _} =>
    ⟨by simp, rfl, fun x hx => List.mem_singleton.mp hx ▸ hspeaker⟩
  have hstart : clock ≤ max segment.start clock := le_max_right _ _
  have hstop : max segment.start clock ≤ max segment.stop (max segment.start clock) :=
    le_max_right _ _
  unfold mergeSegment
  rcases hlast : out.getLast? with _ | last <;> simp only
  · exact h.push hspoken hstop fun x hx => by simp [hlast] at hx
  · have hclock : last.endsAt = clock := h.clock last hlast
    split_ifs with hjoin
    · obtain ⟨init, rfl⟩ := List.getLast?_eq_some_iff.mp hlast
      rw [List.dropLast_concat]
      exact h.extend (hjoin.1 ▸ hspeaker) (hclock ▸ hstart.trans hstop)
    · refine h.push hspoken hstop fun x hx => ?_
      obtain rfl : last = x := Option.some.inj (hlast.symm.trans hx)
      refine ⟨hclock ▸ hstart, ?_⟩
      by_cases hsame : last.speaker = assignSpeaker segment sortedTurns
      · exact .inr (not_le.mp fun hle => hjoin ⟨hsame, hle⟩)
      · exact .inl hsame

theorem mergedOk_foldl {sortedTurns : List DiarizationTurn} (hperm : sortedTurns.Perm turns)
    (kept : List TimedText) :
    MergedOk turns kept (kept.foldl (mergeSegment sortedTurns) ([], 0)) := by
  induction kept using List.reverseRecOn with
  | nil => exact ⟨⟨[], rfl, .nil⟩, .nil, nofun, nofun⟩
  | append_singleton kept segment ih =>
    rw [List.foldl_append, List.foldl_cons, List.foldl_nil]
    exact ih.round hperm segment

end Transcription

end Semprec
