import Semprec.Proofs.TranscriptMerge

/-!
# Chunks that overlap

Every utterance shorter than the overlap is kept from exactly one of the chunks that report it
(`chunks_keep_one_copy`).  Whether a chunk keeps its copy is decided by the middle of that copy; it
comes out as if it were decided by the middle of the whole utterance (`lower_iff`, `upper_iff`), and
the cuts divide the recording.
-/

namespace Semprec

namespace Transcription

/-! ### Boundaries -/

theorem stride_eq : ASR_CHUNK_SECONDS - ASR_CHUNK_OVERLAP_SECONDS = 1170 := by
  norm_num [ASR_CHUNK_SECONDS, ASR_CHUNK_OVERLAP_SECONDS]

variable {total start : ℚ} {n : ℕ}

/-- The rounds that the loop takes suffice: more of them change nothing. -/
theorem chunkBoundariesFrom_add (hle : total - start ≤ n * 1170) (m : ℕ) :
    chunkBoundariesFrom total (n + m) start = chunkBoundariesFrom total n start := by
  induction n generalizing start with
  | zero =>
    have hstart : ¬start < total := by
      simp only [Nat.cast_zero, zero_mul] at hle
      linarith
    rcases m with _ | m <;> simp [chunkBoundariesFrom, hstart]
  | succ n ih =>
    rw [Nat.succ_add]
    simp only [chunkBoundariesFrom]
    by_cases hstart : start < total
    · rw [if_pos hstart, if_pos hstart]
      by_cases hstop : min (start + ASR_CHUNK_SECONDS) total ≥ total
      · rw [if_pos hstop, if_pos hstop]
      · rw [if_neg hstop, if_neg hstop, ih]
        have hmin : start + ASR_CHUNK_SECONDS < total := by simpa using hstop
        have hstride := stride_eq
        rw [min_eq_left hmin.le]
        push_cast at hle
        linarith
    · rw [if_neg hstart, if_neg hstart]

theorem getElem?_chunkBoundariesFrom {k : ℕ} {b : AsrChunkBoundary} (hlt : start < total)
    (hle : total - start ≤ n * 1170) (hb : (chunkBoundariesFrom total n start)[k]? = some b) :
    b.start = start + 1170 * k ∧ b.stop = min (b.start + 1200) total ∧ b.start < total ∧
      ((chunkBoundariesFrom total n start)[k + 1]?.isSome ↔ b.start + 1200 < total) := by
  induction n generalizing start k with
  | zero => simp [chunkBoundariesFrom] at hb
  | succ n ih =>
    have hsize : ASR_CHUNK_SECONDS = 1200 := by norm_num [ASR_CHUNK_SECONDS]
    have hoverlap : ASR_CHUNK_OVERLAP_SECONDS = 30 := by norm_num [ASR_CHUNK_OVERLAP_SECONDS]
    simp only [chunkBoundariesFrom, if_pos hlt, hsize, hoverlap] at hb ⊢
    push_cast at hle
    by_cases hstop : min (start + 1200) total ≥ total
    · rw [if_pos hstop] at hb ⊢
      have hlast : ¬start + 1200 < total := by simpa using hstop
      rcases k with _ | k
      · obtain rfl : _ = b := by simpa using hb
        simp [hlt, hlast]
      · simp at hb
    · rw [if_neg hstop] at hb ⊢
      have hmore : start + 1200 < total := by simpa using hstop
      rw [min_eq_left hmore.le] at hb ⊢
      have hnext : start + 1200 - 30 < total := by linarith
      rcases k with _ | k
      · obtain rfl : _ = b := by simpa using hb
        refine ⟨by simp, (min_eq_left hmore.le).symm, hlt, ?_⟩
        rcases n with _ | n
        · push_cast at hle
          linarith
        · simp [chunkBoundariesFrom, hnext, hmore]
      · obtain ⟨hstart, hrest⟩ := ih hnext (by linarith) (by simpa using hb)
        refine ⟨?_, by simpa using hrest⟩
        rw [hstart]
        push_cast
        ring

/-- The loop runs until the whole recording is covered. -/
theorem computeAsrChunkBoundaries_eq (hpos : 0 < total) :
    ∃ n : ℕ, total - 0 ≤ n * 1170 ∧ computeAsrChunkBoundaries total =
      chunkBoundariesFrom total n 0 := by
  refine ⟨⌈total / 1170⌉.toNat, ?_, ?_⟩
  · have hceil : total / 1170 ≤ (⌈total / 1170⌉.toNat : ℚ) := by
      refine (Int.le_ceil _).trans ?_
      exact_mod_cast Int.self_le_toNat _
    linarith
  · rw [computeAsrChunkBoundaries, if_neg hpos.not_ge, stride_eq]

theorem getElem?_boundaries {k : ℕ} {b : AsrChunkBoundary} (hpos : 0 < total)
    (hb : (computeAsrChunkBoundaries total)[k]? = some b) :
    b.start = 1170 * k ∧ b.stop = min (b.start + 1200) total ∧ b.start < total ∧
      ((computeAsrChunkBoundaries total)[k + 1]?.isSome ↔ b.start + 1200 < total) := by
  obtain ⟨n, hn, heq⟩ := computeAsrChunkBoundaries_eq hpos
  rw [heq] at hb ⊢
  simpa only [zero_add] using getElem?_chunkBoundariesFrom hpos hn hb

theorem head?_boundaries (hpos : 0 < total) :
    ∃ b, (computeAsrChunkBoundaries total)[0]? = some b := by
  obtain ⟨n, hn, heq⟩ := computeAsrChunkBoundaries_eq hpos
  rcases n with _ | n
  · simp only [Nat.cast_zero, zero_mul] at hn
    linarith
  · rw [heq]
    simp [chunkBoundariesFrom, hpos]

/-- A chunk is as long as the size or the recording allows, and shares the overlap with the next. -/
theorem boundaries_follow {k : ℕ} {a b : AsrChunkBoundary} (hpos : 0 < total)
    (ha : (computeAsrChunkBoundaries total)[k]? = some a)
    (hb : (computeAsrChunkBoundaries total)[k + 1]? = some b) :
    a.stop = a.start + 1200 ∧ b.start = a.start + 1170 := by
  obtain ⟨hstart, hstop, _, hnext⟩ := getElem?_boundaries hpos ha
  have hmore := hnext.mp (by rw [hb]; rfl)
  refine ⟨by rw [hstop, min_eq_left hmore.le], ?_⟩
  rw [(getElem?_boundaries hpos hb).1, hstart]
  push_cast
  ring

/-! ### Rounded times -/

theorem le_roundTime {x : ℚ} {z : ℤ} : (z : ℚ) ≤ roundTime x ↔ z - 1 / 2000 ≤ x := by
  have hfloor : (1000 * z : ℤ) ≤ ⌊x * 1000 + 1 / 2⌋ ↔ ((1000 * z : ℤ) : ℚ) ≤ x * 1000 + 1 / 2 :=
    Int.le_floor
  have hcast : (1000 * z : ℤ) ≤ ⌊x * 1000 + 1 / 2⌋ ↔
      (1000 * z : ℚ) ≤ (⌊x * 1000 + 1 / 2⌋ : ℤ) := by
    exact_mod_cast Iff.rfl
  push_cast at hfloor
  rw [roundTime, le_div_iff₀ (by norm_num : (0 : ℚ) < 1000), mul_comm, ← hcast, hfloor]
  constructor <;> intro h <;> linarith

theorem roundTime_mono {x y : ℚ} (h : x ≤ y) : roundTime x ≤ roundTime y := by
  have hfloor : (⌊x * 1000 + 1 / 2⌋ : ℚ) ≤ ⌊y * 1000 + 1 / 2⌋ := by
    exact_mod_cast Int.floor_mono (by linarith)
  unfold roundTime
  linarith

theorem roundTime_intCast (z : ℤ) : roundTime z = z := by
  have hfloor : ⌊(z : ℚ) * 1000 + 1 / 2⌋ = z * 1000 := by
    rw [Int.floor_eq_iff]
    push_cast
    constructor <;> linarith
  rw [roundTime, hfloor]
  push_cast
  ring

theorem roundTime_le {x : ℚ} {z : ℤ} (h : x ≤ z) : roundTime x ≤ z :=
  (roundTime_mono h).trans_eq (roundTime_intCast z)

theorem le_roundTime_of_le {x : ℚ} {z : ℤ} (h : (z : ℚ) ≤ x) : (z : ℚ) ≤ roundTime x :=
  le_roundTime.mpr (by linarith)

/-! ### Utterances -/

/-- What is said once, and how each chunk that hears it writes it down. -/
structure Utterance where
  start : ℚ
  stop : ℚ
  text : ℕ → String

structure Utterance.Fits (total : ℚ) (u : Utterance) : Prop where
  start_nonneg : 0 ≤ u.start
  start_le : u.start ≤ u.stop
  stop_le : u.stop ≤ total
  short : u.stop - u.start < ASR_CHUNK_OVERLAP_SECONDS
  text : ∀ k, (trim (u.text k)).length ≠ 0

def Utterance.clip (k : ℕ) (b : AsrChunkBoundary) (u : Utterance) : Option TranscriptionSegment :=
  if max u.start b.start ≤ min u.stop b.stop then
    some ⟨max u.start b.start - b.start, min u.stop b.stop - b.start, u.text k⟩
  else none

def Utterance.copy (k : ℕ) (b : AsrChunkBoundary) (u : Utterance) : TimedText :=
  ⟨roundTime (max u.start b.start), roundTime (min u.stop b.stop), trim (u.text k)⟩

def Utterance.middle (u : Utterance) : ℚ :=
  (roundTime u.start + roundTime u.stop) / 2

def Utterance.copyMiddle (b : AsrChunkBoundary) (u : Utterance) : ℚ :=
  (roundTime (max u.start b.start) + roundTime (min u.stop b.stop)) / 2

section middle

variable {u : Utterance} {b : AsrChunkBoundary} {k : ℕ}

/-- What is cut off at the end does not decide on which side of the lower cut the copy lies. -/
theorem lower_iff (hu : u.Fits total) (hstart : b.start = 1170 * k)
    (hstop : b.stop = min (b.start + 1200) total) :
    b.start + 15 ≤ u.copyMiddle b ↔ b.start + 15 ≤ u.middle := by
  have hlt := hu.short
  norm_num only [ASR_CHUNK_OVERLAP_SECONDS] at hlt
  obtain ⟨z, hz⟩ : ∃ z : ℤ, b.start = z := ⟨1170 * k, by rw [hstart]; push_cast; rfl⟩
  have hle := hu.start_le
  have htotal := hu.stop_le
  rw [Utterance.copyMiddle, Utterance.middle]
  rcases le_or_gt u.stop b.stop with hend | hend
  · rw [min_eq_left hend]
    rcases le_or_gt b.start u.start with hbegin | hbegin
    · rw [max_eq_left hbegin]
    · have hA : roundTime u.start ≤ z := roundTime_le (by linarith)
      rw [max_eq_right hbegin.le, hz, roundTime_intCast]
      constructor
      · intro h
        -- The copy ends after the overlap, so the utterance starts within the rounding of the cut.
        have hB : ((z + 30 : ℤ) : ℚ) ≤ roundTime u.stop := by
          push_cast
          linarith
        have hA' : (z : ℚ) ≤ roundTime u.start := by
          refine le_roundTime.mpr ?_
          have := le_roundTime.mp hB
          push_cast at this
          linarith
        linarith
      · intro h
        linarith
  · have hfull : b.stop = b.start + 1200 := by
      rw [hstop] at hend ⊢
      rcases min_cases (b.start + 1200) total with ⟨h, _⟩ | ⟨h, _⟩ <;> rw [h] at hend ⊢
      exact absurd hend (by linarith)
    rw [min_eq_right hend.le, hfull, max_eq_left (by linarith)]
    have hA : ((z + 15 : ℤ) : ℚ) ≤ roundTime u.start := le_roundTime_of_le (by push_cast; linarith)
    have hB : ((z + 15 : ℤ) : ℚ) ≤ roundTime u.stop := le_roundTime_of_le (by push_cast; linarith)
    have hE : ((z + 15 : ℤ) : ℚ) ≤ roundTime (b.start + 1200) :=
      le_roundTime_of_le (by push_cast; linarith)
    push_cast at hA hB hE
    constructor <;> intro <;> linarith

theorem upper_iff (hu : u.Fits total) (hstart : b.start = 1170 * k)
    (hstop : b.stop = b.start + 1200) :
    b.start + 1185 ≤ u.copyMiddle b ↔ b.start + 1185 ≤ u.middle := by
  have hlt := hu.short
  norm_num only [ASR_CHUNK_OVERLAP_SECONDS] at hlt
  obtain ⟨z, hz⟩ : ∃ z : ℤ, b.start = z := ⟨1170 * k, by rw [hstart]; push_cast; rfl⟩
  have hle := hu.start_le
  rw [Utterance.copyMiddle, Utterance.middle]
  rcases le_or_gt b.start u.start with hbegin | hbegin
  · rw [max_eq_left hbegin]
    rcases le_or_gt u.stop b.stop with hend | hend
    · rw [min_eq_left hend]
    · have hA : ((z + 1170 : ℤ) : ℚ) ≤ roundTime u.start :=
        le_roundTime_of_le (by push_cast; linarith)
      have hB : ((z + 1200 : ℤ) : ℚ) ≤ roundTime u.stop :=
        le_roundTime_of_le (by push_cast; linarith)
      have hE : ((z + 1200 : ℤ) : ℚ) ≤ roundTime b.stop :=
        le_roundTime_of_le (by push_cast; linarith)
      rw [min_eq_right hend.le]
      push_cast at hA hB hE
      constructor <;> intro <;> linarith
  · have hA : roundTime u.start ≤ z := roundTime_le (by linarith)
    have hB : roundTime u.stop ≤ ((z + 30 : ℤ) : ℚ) := roundTime_le (by push_cast; linarith)
    rw [max_eq_right hbegin.le, min_eq_left (by linarith), hz, roundTime_intCast]
    push_cast at hB
    constructor <;> intro <;> linarith

end middle

/-! ### Who keeps an utterance -/

/-- The cuts divide the recording: chunk `k` of `n` has what lies between its two. -/
def InCell (n k : ℕ) (x : ℚ) : Prop :=
  (k = 0 ∨ (1170 * k + 15 : ℚ) ≤ x) ∧ (k + 1 = n ∨ x < 1170 * k + 1185)

theorem exists_inCell {n : ℕ} (hn : 0 < n) (x : ℚ) : ∃ k < n, InCell n k x := by
  refine ⟨min (n - 1) ⌊(x - 15) / 1170⌋₊, by omega, ?_, ?_⟩
  · rcases Nat.eq_zero_or_pos (min (n - 1) ⌊(x - 15) / 1170⌋₊) with hzero | hpos
    · exact .inl hzero
    · have hfloor : 0 < ⌊(x - 15) / 1170⌋₊ := by omega
      have hx : (⌊(x - 15) / 1170⌋₊ : ℚ) ≤ (x - 15) / 1170 :=
        Nat.floor_le (zero_le_one.trans (Nat.floor_pos.mp hfloor))
      have hmin : ((min (n - 1) ⌊(x - 15) / 1170⌋₊ : ℕ) : ℚ) ≤ ⌊(x - 15) / 1170⌋₊ := by
        exact_mod_cast min_le_right _ _
      rw [le_div_iff₀ (by norm_num)] at hx
      exact .inr (by linarith)
  · rcases le_or_gt (n - 1) ⌊(x - 15) / 1170⌋₊ with hle | hlt
    · exact .inl (by omega)
    · have hx := Nat.lt_floor_add_one ((x - 15) / 1170)
      rw [div_lt_iff₀ (by norm_num)] at hx
      rw [min_eq_right hlt.le]
      exact .inr (by linarith)

theorem InCell.unique {j k : ℕ} {x : ℚ} (hj : j < n) (hk : k < n) (hcellj : InCell n j x)
    (hcellk : InCell n k x) : j = k := by
  have key : ∀ {i l : ℕ}, l < n → InCell n i x → InCell n l x → ¬i < l := by
    intro i l hl hi hcell hlt
    have hcast : ((i + 1 : ℕ) : ℚ) ≤ l := by exact_mod_cast hlt
    push_cast at hcast
    rcases hcell.1 with h | h
    · omega
    · rcases hi.2 with h' | h'
      · omega
      · linarith
  have := key hk hcellj hcellk
  have := key hj hcellk hcellj
  omega

structure Reports (total : ℚ) (us : List Utterance) (chunks : List AsrChunkInput) : Prop where
  boundaries : chunks.map AsrChunkInput.boundary = computeAsrChunkBoundaries total
  segments : ∀ (k : ℕ) (chunk : AsrChunkInput), chunks[k]? = some chunk →
    chunk.segments.Perm (us.filterMap (Utterance.clip k chunk.boundary))

section reports

variable {us : List Utterance} {chunks : List AsrChunkInput} {chunk : AsrChunkInput} {k : ℕ}

theorem Reports.boundary (h : Reports total us chunks) (hk : chunks[k]? = some chunk) :
    (computeAsrChunkBoundaries total)[k]? = some chunk.boundary := by
  rw [← h.boundaries, List.getElem?_map, hk]
  rfl

theorem Reports.next_isSome (h : Reports total us chunks) :
    (computeAsrChunkBoundaries total)[k + 1]?.isSome ↔ k + 1 < chunks.length := by
  simp [← h.boundaries]

/-- The middle between two neighbours, seen from the one that comes second. -/
theorem Reports.lowerCut (h : Reports total us chunks) (hpos : 0 < total)
    (hk : chunks[k]? = some chunk) (x : ℚ) :
    ((if k = 0 then none else chunks[k - 1]?).map fun p : AsrChunkInput =>
      (chunk.boundary.start + p.boundary.stop) / 2).any (x < ·) = true ↔
      k ≠ 0 ∧ x < chunk.boundary.start + 15 := by
  rcases k with _ | k
  · simp
  · have hlt : k + 1 < chunks.length := (List.getElem?_eq_some_iff.mp hk).1
    obtain ⟨p, hp⟩ : ∃ p, chunks[k]? = some p := ⟨_, List.getElem?_eq_getElem (by omega)⟩
    obtain ⟨hstop, hstart⟩ := boundaries_follow hpos (h.boundary hp) (h.boundary hk)
    have hcut : (chunk.boundary.start + p.boundary.stop) / 2 = chunk.boundary.start + 15 := by
      rw [hstop, hstart]
      ring
    simp [hp, hcut]

/-- The middle between two neighbours, seen from the one that comes first. -/
theorem Reports.upperCut (h : Reports total us chunks) (hpos : 0 < total)
    (hk : chunks[k]? = some chunk) (x : ℚ) :
    (chunks[k + 1]?.map fun n : AsrChunkInput =>
      (n.boundary.start + chunk.boundary.stop) / 2).any (x ≥ ·) = true ↔
      k + 1 < chunks.length ∧ chunk.boundary.start + 1185 ≤ x := by
  rcases hnext : chunks[k + 1]? with _ | n
  · simp [List.getElem?_eq_none_iff.mp hnext]
  · have hlt : k + 1 < chunks.length := (List.getElem?_eq_some_iff.mp hnext).1
    obtain ⟨hstop, hstart⟩ := boundaries_follow hpos (h.boundary hk) (h.boundary hnext)
    have hcut : (n.boundary.start + chunk.boundary.stop) / 2 = chunk.boundary.start + 1185 := by
      rw [hstop, hstart]
      ring
    simp [hcut, hlt]

theorem InCell.heard {u : Utterance} {b : AsrChunkBoundary} (hu : u.Fits total)
    (hstart : b.start = 1170 * k) (hstop : b.stop = min (b.start + 1200) total)
    (hlt : b.start < total) (hlast : k + 1 = n → total ≤ b.start + 1200)
    (hcell : InCell n k u.middle) : max u.start b.start ≤ min u.stop b.stop := by
  obtain ⟨z, hz⟩ : ∃ z : ℤ, b.start = z := ⟨1170 * k, by rw [hstart]; push_cast; rfl⟩
  have hle := hu.start_le
  have htotal := hu.stop_le
  have hmono := roundTime_mono hle
  have hbegin : b.start ≤ u.stop := by
    rcases hcell.1 with rfl | hcell
    · rw [hstart]
      simpa using hu.start_nonneg.trans hle
    · by_contra! hend
      have hB : roundTime u.stop ≤ z := roundTime_le (by linarith)
      rw [Utterance.middle] at hcell
      linarith
  have hend : u.start ≤ b.start + 1200 := by
    rcases hcell.2 with heq | hcell
    · linarith [hlast heq]
    · by_contra! hafter
      have hA : ((z + 1200 : ℤ) : ℚ) ≤ roundTime u.start :=
        le_roundTime_of_le (by push_cast; linarith)
      push_cast at hA
      rw [Utterance.middle] at hcell
      linarith
  rw [hstop]
  refine max_le (le_min hle (le_min hend (by linarith))) (le_min hbegin (le_min ?_ hlt.le))
  linarith

theorem Reports.ownSegments_perm (h : Reports total us chunks) (hpos : 0 < total)
    (hus : ∀ u ∈ us, u.Fits total) (hk : chunks[k]? = some chunk) :
    (ownSegments (if k = 0 then none else chunks[k - 1]?) chunk chunks[k + 1]?).Perm
      (us.filterMap fun u => open Classical in
        if InCell chunks.length k u.middle then some (u.copy k chunk.boundary) else none) := by
  obtain ⟨hstart, hstop, hlt, hnext⟩ := getElem?_boundaries hpos (h.boundary hk)
  rw [h.next_isSome] at hnext
  refine ((h.segments k chunk hk).filterMap _).trans (List.Perm.of_eq ?_)
  rw [List.filterMap_filterMap]
  refine List.filterMap_congr fun u hu => ?_
  have hlower := lower_iff (hus u hu) hstart hstop
  have hupper : k + 1 < chunks.length →
      (chunk.boundary.start + 1185 ≤ u.copyMiddle chunk.boundary ↔
        chunk.boundary.start + 1185 ≤ u.middle) := fun hmore =>
    upper_iff (hus u hu) hstart (by rw [hstop, min_eq_left (hnext.mp hmore).le])
  have hklt : k < chunks.length := (List.getElem?_eq_some_iff.mp hk).1
  have hcell : InCell chunks.length k u.middle ↔
      ¬(k ≠ 0 ∧ u.copyMiddle chunk.boundary < chunk.boundary.start + 15) ∧
        ¬(k + 1 < chunks.length ∧
          chunk.boundary.start + 1185 ≤ u.copyMiddle chunk.boundary) := by
    rw [not_and, not_and, not_lt, hlower, InCell, ← hstart]
    refine and_congr (by tauto) ⟨?_, fun hall => ?_⟩
    · rintro (heq | hbelow) hmore
      · omega
      · rw [hupper hmore, not_le]
        exact hbelow
    · rcases Nat.lt_or_ge (k + 1) chunks.length with hmore | hlast
      · exact .inr (not_le.mp ((hupper hmore).not.mp (hall hmore)))
      · exact .inl (by omega)
  rw [Utterance.clip]
  by_cases hheard : max u.start chunk.boundary.start ≤ min u.stop chunk.boundary.stop
  · rw [if_pos hheard, Option.bind_some]
    simp only [add_sub_cancel, max_eq_left (sub_le_sub_right hheard _), Bool.or_eq_true,
      h.lowerCut hpos hk, h.upperCut hpos hk, (hus u hu).text k, if_false, hcell, ← not_or]
    rw [ite_not]
    rfl
  · have hnot : ¬InCell chunks.length k u.middle := fun hin =>
      hheard (hin.heard (hus u hu) hstart hstop hlt fun heq =>
        not_lt.mp (hnext.not.mp (by omega)))
    rw [if_neg hheard, if_neg hnot, Option.bind_none]

end reports

/-! ### One copy of each -/

section lists

variable {α β : Type*}

theorem flatMap_filterMap_perm (l : List α) (us : List β) {γ : Type*} (f : α → β → Option γ) :
    (l.flatMap fun a => us.filterMap (f a)).Perm (us.flatMap fun u => l.filterMap (f · u)) := by
  induction us with
  | nil => simp
  | cons u us ih =>
    have hsplit : (l.flatMap fun a => (u :: us).filterMap (f a)) =
        l.flatMap fun a => (f a u).toList ++ us.filterMap (f a) := by
      congr 1
      funext a
      rcases h : f a u <;> simp [h]
    have hfirst : (l.flatMap fun a => (f a u).toList) = l.filterMap (f · u) := by
      rw [List.filterMap_eq_flatMap_toList]
    rw [hsplit, List.flatMap_cons, ← hfirst]
    exact (List.flatMap_append_perm _ _ _).symm.trans (ih.append_left _)

/-- Where each has one. -/
theorem flatMap_eq_of_singleton {R : α → β → Prop} {f : α → List β} :
    ∀ {us : List α}, (∀ u ∈ us, ∃ x, f u = [x] ∧ R u x) →
      ∃ kept, us.flatMap f = kept ∧ List.Forall₂ R us kept
  | [], _ => ⟨[], rfl, .nil⟩
  | u :: us, h => by
    obtain ⟨x, hx, hR⟩ := h u (by simp)
    obtain ⟨kept, hkept, hall⟩ := flatMap_eq_of_singleton fun v hv =>
      h v (List.mem_cons_of_mem u hv)
    exact ⟨x :: kept, by simp [hx, hkept], .cons hR hall⟩

theorem filterMap_zipIdx_owner {l : List α} {k : ℕ} {a : α} (hk : l[k]? = some a)
    (f : α × ℕ → Option β) (hf : ∀ p ∈ l.zipIdx, p.2 ≠ k → f p = none) :
    l.zipIdx.filterMap f = (f (a, k)).toList := by
  have hsplit := List.take_append_drop k l.zipIdx
  have hlen : k < l.zipIdx.length := by simpa using (List.getElem?_eq_some_iff.mp hk).1
  have hget : l.zipIdx[k] = (a, k) := by
    rw [List.getElem_zipIdx, (List.getElem?_eq_some_iff.mp hk).2, zero_add]
  have hnone : ∀ m : List (α × ℕ), (∀ p ∈ m, p ∈ l.zipIdx ∧ p.2 ≠ k) → m.filterMap f = [] :=
    fun m hm => List.filterMap_eq_nil_iff.mpr fun p hp => hf p (hm p hp).1 (hm p hp).2
  rw [← hsplit, List.filterMap_append, List.drop_eq_getElem_cons hlen, hget, List.filterMap_cons,
    hnone (l.zipIdx.take k), hnone (l.zipIdx.drop (k + 1))]
  · rcases f (a, k) <;> rfl
  · intro p hp
    obtain ⟨i, hi, rfl⟩ := List.mem_iff_getElem.mp hp
    refine ⟨List.mem_of_mem_drop hp, ?_⟩
    simp only [List.getElem_drop, List.getElem_zipIdx]
    omega
  · intro p hp
    obtain ⟨i, hi, rfl⟩ := List.mem_iff_getElem.mp hp
    have hik : i < k := (List.length_take ▸ hi).trans_le (min_le_left _ _)
    refine ⟨List.mem_of_mem_take hp, ?_⟩
    simp only [List.getElem_take, List.getElem_zipIdx]
    omega

end lists

def CopyOf (total : ℚ) (u : Utterance) (x : TimedText) : Prop :=
  ∃ k, ∃ b, (computeAsrChunkBoundaries total)[k]? = some b ∧
    max u.start b.start ≤ min u.stop b.stop ∧ x = u.copy k b

theorem Reports.dedupe {us : List Utterance} {chunks : List AsrChunkInput}
    (h : Reports total us chunks) (hpos : 0 < total) (hus : ∀ u ∈ us, u.Fits total) :
    ∃ kept, List.Forall₂ (CopyOf total) us kept ∧ (dedupeChunkOverlaps chunks).Perm kept := by
  classical
  have hlen : 0 < chunks.length := by
    obtain ⟨b, hb⟩ := head?_boundaries hpos
    rw [← h.boundaries] at hb
    simpa using (List.getElem?_eq_some_iff.mp hb).1
  let f : AsrChunkInput × ℕ → Utterance → Option TimedText := fun p u =>
    if InCell chunks.length p.2 u.middle then some (u.copy p.2 p.1.boundary) else none
  have hchunks : (chunks.zipIdx.flatMap fun p =>
      ownSegments (if p.2 = 0 then none else chunks[p.2 - 1]?) p.1 chunks[p.2 + 1]?).Perm
      (chunks.zipIdx.flatMap fun p => us.filterMap (f p)) := by
    refine List.Perm.flatMap_left _ fun p hmem => ?_
    exact h.ownSegments_perm hpos hus (List.mem_zipIdx_iff_getElem?.mp hmem)
  have hone : ∀ u ∈ us, ∃ x, chunks.zipIdx.filterMap (f · u) = [x] ∧ CopyOf total u x := by
    intro u hu
    obtain ⟨k, hk, hcell⟩ := exists_inCell hlen u.middle
    have hget : chunks[k]? = some chunks[k] := List.getElem?_eq_getElem hk
    obtain ⟨hstart, hstop, hlt, hnext⟩ := getElem?_boundaries hpos (h.boundary hget)
    rw [h.next_isSome] at hnext
    have hheard := hcell.heard (hus u hu) hstart hstop hlt fun heq =>
      not_lt.mp (hnext.not.mp (by omega))
    refine ⟨u.copy k chunks[k].boundary, ?_, k, _, h.boundary hget, hheard, rfl⟩
    rw [filterMap_zipIdx_owner hget]
    · simp [f, hcell]
    · intro p hp hne
      have hp2 : p.2 < chunks.length := by
        simpa using List.snd_lt_of_mem_zipIdx hp
      exact if_neg fun hin => hne (hin.unique hp2 hk hcell)
  obtain ⟨kept, hkept, hall⟩ := flatMap_eq_of_singleton hone
  refine ⟨kept, hall, (List.perm_insertionSort _ _).trans (hchunks.trans ?_)⟩
  rw [← hkept]
  exact flatMap_filterMap_perm _ _ f

/-- The chunks cover a recording, and of whatever is said in it the merged transcript has one copy,
wherever the edges of the chunks and the cuts between them lie. -/
theorem chunks_keep_one_copy (hpos : 0 < total) :
    (∃ n, ∀ m, chunkBoundariesFrom total (n + m) 0 = computeAsrChunkBoundaries total) ∧
    (computeAsrChunkBoundaries total).head?.map AsrChunkBoundary.start = some 0 ∧
    (computeAsrChunkBoundaries total).getLast?.map AsrChunkBoundary.stop = some total ∧
    (∀ b ∈ computeAsrChunkBoundaries total, b.stop - b.start ≤ ASR_CHUNK_SECONDS) ∧
    (computeAsrChunkBoundaries total).IsChain
      (fun a b => a.stop - b.start = ASR_CHUNK_OVERLAP_SECONDS) ∧
    ∀ us turns chunks, (∀ u ∈ us, u.Fits total) → Reports total us chunks →
      ∃ kept groups, List.Forall₂ (CopyOf total) us kept ∧
        (groups : List (List TimedText)).flatten.Perm kept ∧
        List.Forall₂ (Spoken turns) groups (mergeTranscriptSegments turns chunks) := by
  have hsize : ASR_CHUNK_SECONDS = 1200 := by norm_num [ASR_CHUNK_SECONDS]
  have hoverlap : ASR_CHUNK_OVERLAP_SECONDS = 30 := by norm_num [ASR_CHUNK_OVERLAP_SECONDS]
  refine ⟨?_, ?_, computeAsrChunkBoundaries_covers hpos, fun b hb => ?_, ?_, ?_⟩
  · obtain ⟨n, hn, heq⟩ := computeAsrChunkBoundaries_eq hpos
    exact ⟨n, fun m => by rw [heq, chunkBoundariesFrom_add hn]⟩
  · obtain ⟨b, hb⟩ := head?_boundaries hpos
    rw [List.head?_eq_getElem?, hb, Option.map_some, (getElem?_boundaries hpos hb).1]
    simp
  · obtain ⟨k, hk⟩ := List.mem_iff_getElem?.mp hb
    have hstop : b.stop ≤ b.start + 1200 :=
      (getElem?_boundaries hpos hk).2.1.trans_le (min_le_left _ _)
    rw [hsize]
    linarith
  · rw [List.isChain_iff_getElem]
    intro k hk
    obtain ⟨hstop, hstart⟩ := boundaries_follow hpos
      (List.getElem?_eq_getElem (by omega)) (List.getElem?_eq_getElem hk)
    rw [hstop, hstart, hoverlap]
    ring
  · intro us turns chunks hus h
    obtain ⟨kept, hall, hperm⟩ := h.dedupe hpos hus
    have hmerged : MergedOk turns _ _ :=
      mergedOk_foldl (List.perm_insertionSort DiarizationTurn.before turns)
        (dedupeChunkOverlaps chunks)
    obtain ⟨groups, hflat, hspoken⟩ := hmerged.spoken
    exact ⟨kept, groups, hall, hflat ▸ hperm, hspoken⟩

def acrossTheCut : Utterance := ⟨1184, 1186, fun _ => "ahoj"⟩

theorem acrossTheCut_copies : 0 < (1300 : ℚ) ∧
    mergeTranscriptSegments [] [⟨⟨0, 1200⟩, [⟨1184, 1186, "ahoj"⟩]⟩,
      ⟨⟨1170, 1300⟩, [⟨14, 16, "ahoj"⟩]⟩] = [⟨"SPEAKER_00", "ahoj", 1184, 1186⟩] ∧
    ∃ kept groups, List.Forall₂ (CopyOf 1300) [acrossTheCut] kept ∧
      (groups : List (List TimedText)).flatten.Perm kept ∧
      List.Forall₂ (Spoken []) groups (mergeTranscriptSegments []
        [⟨⟨0, 1200⟩, [⟨1184, 1186, "ahoj"⟩]⟩, ⟨⟨1170, 1300⟩, [⟨14, 16, "ahoj"⟩]⟩]) := by
  have hpos : 0 < (1300 : ℚ) := by norm_num
  refine ⟨hpos, by decide +kernel,
    (chunks_keep_one_copy hpos).2.2.2.2.2 _ _ _ ?_ ⟨by decide +kernel, ?_⟩⟩
  · intro u hu
    obtain rfl := List.mem_singleton.mp hu
    refine ⟨?_, ?_, ?_, ?_, fun k => ?_⟩ <;>
      norm_num [acrossTheCut, ASR_CHUNK_OVERLAP_SECONDS]
    decide +kernel
  · rintro (_ | _ | k) chunk hk
    · obtain rfl : _ = chunk := by simpa using hk
      exact .of_eq (by decide +kernel)
    · obtain rfl : _ = chunk := by simpa using hk
      exact .of_eq (by decide +kernel)
    · simp at hk

end Transcription

end Semprec
