import Mathlib.Data.List.Lex
import Mathlib.Data.List.Sort
import Mathlib.Data.Rat.Floor
import Semprec.PropertyTypeMigration

/-!
# Merging a transcript

The recording is transcribed in chunks that overlap, and its speakers are told apart over the whole
of it.  `mergeTranscriptSegments` drops what two neighbouring chunks both heard, gives each segment
of text its speaker, and joins what one speaker said without a pause.  Times are exact rational seconds
here, where the code computes with doubles.
-/

namespace Semprec

namespace Transcription

/-! ### Chunks -/

def ASR_CHUNK_SECONDS : ℚ := 20 * 60
def ASR_CHUNK_OVERLAP_SECONDS : ℚ := 30

structure AsrChunkBoundary where
  start : ℚ
  stop : ℚ
  deriving DecidableEq

/-- The rounds of the loop that are left, at most `n`. -/
def chunkBoundariesFrom (totalDurationSeconds : ℚ) : ℕ → ℚ → List AsrChunkBoundary
  | 0, _ => []
  | n + 1, start =>
    if start < totalDurationSeconds then
      let stop := min (start + ASR_CHUNK_SECONDS) totalDurationSeconds
      ⟨start, stop⟩ :: if stop ≥ totalDurationSeconds then []
        else chunkBoundariesFrom totalDurationSeconds n (stop - ASR_CHUNK_OVERLAP_SECONDS)
    else []

/-- A round that is not the last one moves the start by a chunk less its overlap, so there are no
more rounds than that (`chunkBoundariesFrom_covers`). -/
def computeAsrChunkBoundaries (totalDurationSeconds : ℚ) : List AsrChunkBoundary :=
  if totalDurationSeconds ≤ 0 then []
  else chunkBoundariesFrom totalDurationSeconds
    (⌈totalDurationSeconds / (ASR_CHUNK_SECONDS - ASR_CHUNK_OVERLAP_SECONDS)⌉.toNat) 0

/-! ### Segments -/

structure DiarizationTurn where
  speaker : String
  start : ℚ
  stop : ℚ
  deriving DecidableEq

structure TranscriptionSegment where
  start : ℚ
  stop : ℚ
  text : String
  deriving DecidableEq

structure TranscriptSegment where
  speaker : String
  text : String
  startsAt : ℚ
  endsAt : ℚ
  deriving DecidableEq

structure AsrChunkInput where
  boundary : AsrChunkBoundary
  segments : List TranscriptionSegment

def SEGMENT_PAUSE_BREAK_SECONDS : ℚ := 3 / 2

def FALLBACK_SPEAKER : String := "SPEAKER_00"

structure TimedText where
  start : ℚ
  stop : ℚ
  text : String

/-- `Math.round` takes a half up. -/
def roundTime (seconds : ℚ) : ℚ := ⌊seconds * 1000 + 1 / 2⌋ / 1000

def trim (text : String) : String :=
  String.ofList (((text.toList.dropWhile PropertyTypeMigration.isWhiteSpace).reverse.dropWhile
    PropertyTypeMigration.isWhiteSpace).reverse)

/-- What one chunk keeps between the middles of the bands it shares with its neighbours. -/
def ownSegments (previous : Option AsrChunkInput) (chunk : AsrChunkInput)
    (next : Option AsrChunkInput) : List TimedText :=
  let lowerCut := previous.map fun p => (chunk.boundary.start + p.boundary.stop) / 2
  let upperCut := next.map fun n => (n.boundary.start + chunk.boundary.stop) / 2
  chunk.segments.filterMap fun segment =>
    let start := roundTime (chunk.boundary.start + segment.start)
    let stop := roundTime (chunk.boundary.start + max segment.stop segment.start)
    let midpoint := (start + stop) / 2
    if lowerCut.any (midpoint < ·) || upperCut.any (midpoint ≥ ·) then none
    else
      let text := trim segment.text
      if text.length = 0 then none else some ⟨start, stop, text⟩

/-- The order of `kept.sort`. -/
def TimedText.before (a b : TimedText) : Prop :=
  a.start < b.start ∨ a.start = b.start ∧ a.stop ≤ b.stop

instance (a b : TimedText) : Decidable (a.before b) :=
  inferInstanceAs (Decidable (_ ∨ _))

def dedupeChunkOverlaps (chunks : List AsrChunkInput) : List TimedText :=
  (chunks.zipIdx.flatMap fun (chunk, index) =>
    ownSegments (if index = 0 then none else chunks[index - 1]?) chunk chunks[index + 1]?)
  |>.insertionSort TimedText.before

def overlapSeconds (segment : TimedText) (turn : DiarizationTurn) : ℚ :=
  max 0 (min segment.stop turn.stop - max segment.start turn.start)

def gapSeconds (segment : TimedText) (turn : DiarizationTurn) : ℚ :=
  if segment.stop < turn.start then turn.start - segment.stop
  else if turn.stop < segment.start then segment.start - turn.stop
  else 0

def assignSpeaker (segment : TimedText) (sortedTurns : List DiarizationTurn) : String :=
  let overlapping := sortedTurns.foldl (fun (best : Option DiarizationTurn × ℚ) turn =>
    let overlap := overlapSeconds segment turn
    if overlap > best.2 then (some turn, overlap) else best) (none, 0)
  match overlapping.1 with
  | some best => best.speaker
  | none =>
    let nearest := sortedTurns.foldl (fun (best : Option (DiarizationTurn × ℚ)) turn =>
      let gap := gapSeconds segment turn
      if best.all (gap < ·.2) then some (turn, gap) else best) none
    (nearest.map (·.1.speaker)).getD FALLBACK_SPEAKER

def mergeSegment (sortedTurns : List DiarizationTurn) (merged : List TranscriptSegment × ℚ)
    (segment : TimedText) : List TranscriptSegment × ℚ :=
  let speaker := assignSpeaker segment sortedTurns
  let startsAt := max segment.start merged.2
  let endsAt := max segment.stop startsAt
  match merged.1.getLast? with
  | some last =>
    if last.speaker = speaker ∧ startsAt - last.endsAt ≤ SEGMENT_PAUSE_BREAK_SECONDS then
      (merged.1.dropLast ++ [{ last with text := last.text ++ " " ++ segment.text, endsAt }],
        endsAt)
    else (merged.1 ++ [⟨speaker, segment.text, startsAt, endsAt⟩], endsAt)
  | none => (merged.1 ++ [⟨speaker, segment.text, startsAt, endsAt⟩], endsAt)

def charUnits (c : Char) : List ℕ :=
  if c.toNat < 0x10000 then [c.toNat]
  else [0xD800 + (c.toNat - 0x10000) / 0x400, 0xDC00 + (c.toNat - 0x10000) % 0x400]

def codeUnits (text : String) : List ℕ := text.toList.flatMap charUnits

/-- The order in which turns win a tie. -/
def DiarizationTurn.before (a b : DiarizationTurn) : Prop :=
  a.start < b.start ∨ a.start = b.start ∧
    (a.stop < b.stop ∨ a.stop = b.stop ∧ codeUnits a.speaker ≤ codeUnits b.speaker)

instance (a b : DiarizationTurn) : Decidable (a.before b) :=
  inferInstanceAs (Decidable (_ ∨ _))

def mergeTranscriptSegments (turns : List DiarizationTurn) (chunks : List AsrChunkInput) :
    List TranscriptSegment :=
  let sortedTurns := turns.insertionSort DiarizationTurn.before
  ((dedupeChunkOverlaps chunks).foldl (mergeSegment sortedTurns) ([], 0)).1

/-! ### What they leave -/

/-- Given as many rounds as the recording needs, the chunks reach its end. -/
theorem chunkBoundariesFrom_covers {total : ℚ} : ∀ {n : ℕ} {start : ℚ}, start < total →
    total - start ≤ n * (ASR_CHUNK_SECONDS - ASR_CHUNK_OVERLAP_SECONDS) →
    (chunkBoundariesFrom total n start).getLast?.map AsrChunkBoundary.stop = some total
  | 0, start, hlt, hle => by
    simp only [Nat.cast_zero, zero_mul] at hle
    linarith
  | n + 1, start, hlt, hle => by
    simp only [chunkBoundariesFrom, if_pos hlt]
    split_ifs with hstop
    · simp only [List.getLast?_singleton, Option.map_some]
      exact congrArg some (le_antisymm (min_le_right _ _) hstop)
    · have hmin : start + ASR_CHUNK_SECONDS < total := by
        simpa using hstop
      rw [min_eq_left hmin.le]
      have hnext : (chunkBoundariesFrom total n
          (start + ASR_CHUNK_SECONDS - ASR_CHUNK_OVERLAP_SECONDS)).getLast?.map
            AsrChunkBoundary.stop = some total := by
        refine chunkBoundariesFrom_covers ?_ ?_
        · have : 0 < ASR_CHUNK_OVERLAP_SECONDS := by norm_num [ASR_CHUNK_OVERLAP_SECONDS]
          linarith
        · push_cast at hle
          linarith
      rcases hrest : chunkBoundariesFrom total n
        (start + ASR_CHUNK_SECONDS - ASR_CHUNK_OVERLAP_SECONDS) with _ | ⟨b, rest⟩
      · simp [hrest] at hnext
      · rwa [List.getLast?_cons_cons, ← hrest]

theorem computeAsrChunkBoundaries_covers {total : ℚ} (h : 0 < total) :
    (computeAsrChunkBoundaries total).getLast?.map AsrChunkBoundary.stop = some total := by
  unfold computeAsrChunkBoundaries
  rw [if_neg (not_le.mpr h)]
  refine chunkBoundariesFrom_covers h ?_
  have hstride : 0 < ASR_CHUNK_SECONDS - ASR_CHUNK_OVERLAP_SECONDS := by
    norm_num [ASR_CHUNK_SECONDS, ASR_CHUNK_OVERLAP_SECONDS]
  rw [sub_zero, ← div_le_iff₀ hstride]
  exact (Int.le_ceil _).trans (by exact_mod_cast Int.self_le_toNat _)

example : computeAsrChunkBoundaries 1300 = [⟨0, 1200⟩, ⟨1170, 1300⟩] := by decide +kernel

end Transcription

end Semprec
