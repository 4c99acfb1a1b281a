import Mathlib.Data.List.Forall2
import Mathlib.Data.List.TakeWhile
import Semprec.MailAdapters
import Semprec.Proofs.MailAttachments

/-!
# When a pass gets past every message

`Part.outcomes` is what each adapter's way to open a part comes to.  The rows that a pass writes are
counted for each item (`records_messages`): a part over the cap that is stored is one row too many.
-/

namespace Semprec

namespace MailAdapters

open MailAttachments

variable {codecs : Codecs} {sha256 : Bytes → String} {s s' s'' : MailAttachments.Store}

/-! ## One part -/

/-- How the ingest ends for what an `openStream` gives. -/
def outcome : Except MailError Source → Except Unit (Option Bytes)
  | .error .attachmentCapExceeded => .ok none
  | .error .other => .error ()
  | .ok ⟨content, none⟩ => .ok (some content)
  | .ok ⟨_, some .attachmentCapExceeded⟩ => .ok none
  | .ok ⟨_, some .other⟩ => .error ()

theorem outcome_of_other {source : Source} (h : source.error = some .other) :
    outcome (.ok source) = .error () := by
  obtain ⟨content, error⟩ := source
  obtain rfl : error = some .other := h
  rfl

theorem outcome_of_capExceeded {source : Source}
    (h : source.error = some .attachmentCapExceeded) : outcome (.ok source) = .ok none := by
  obtain ⟨content, error⟩ := source
  obtain rfl : error = some .attachmentCapExceeded := h
  rfl

theorem ends_eq_outcome (attachment : ClassifiedAttachment) :
    ends (attachment, .none) = outcome attachment.openStream := by
  obtain ⟨extractable, openStream⟩ := attachment
  rcases openStream with (_ | _) | ⟨content, _ | _ | _⟩ <;> rcases extractable with _ | _ <;> rfl

theorem limiter_within {received : ℕ} {chunks : List Bytes}
    (h : received + chunks.flatten.length ≤ MAX_ATTACHMENT_BYTES) :
    limiter received chunks = ⟨chunks.flatten, none⟩ := by
  induction chunks generalizing received with
  | nil => rfl
  | cons chunk chunks ih =>
    simp only [List.flatten_cons, List.length_append] at h
    rw [limiter, if_neg (by omega), ih (by omega), List.flatten_cons]

theorem limiter_over {received : ℕ} {chunks : List Bytes} (hle : received ≤ MAX_ATTACHMENT_BYTES)
    (h : MAX_ATTACHMENT_BYTES < received + chunks.flatten.length) :
    (limiter received chunks).error = some .other := by
  induction chunks generalizing received with
  | nil => simp at h; omega
  | cons chunk chunks ih =>
    simp only [List.flatten_cons, List.length_append] at h
    rw [limiter]
    split_ifs with hover
    · rfl
    · exact ih (by omega) (by omega)

structure Ranged (bytes : Bytes) (offset : ℕ) (source : Source) : Prop where
  beyond : MAX_ATTACHMENT_BYTES < bytes.length → source.error = some .attachmentCapExceeded
  stuck : bytes.length < MAX_ATTACHMENT_BYTES →
    (bytes.length - offset) % IMAP_PARTIAL_FETCH_BYTES = 0 → source.error = some .other
  rest : bytes.length = MAX_ATTACHMENT_BYTES ∨ bytes.length < MAX_ATTACHMENT_BYTES ∧
    (bytes.length - offset) % IMAP_PARTIAL_FETCH_BYTES ≠ 0 → source = ⟨bytes.drop offset, none⟩

theorem length_fetchOne (bytes : Bytes) (start maxLength : ℕ) :
    (fetchOne bytes start maxLength).length = min maxLength (bytes.length - start) := by
  simp [fetchOne]

theorem fetchOne_append_drop (bytes : Bytes) (start maxLength : ℕ) :
    fetchOne bytes start maxLength ++ bytes.drop (start + maxLength) = bytes.drop start := by
  rw [fetchOne, ← List.drop_drop, List.take_append_drop]

/-- At the cap a single byte is asked for. -/
theorem ranged_probe (bytes : Bytes) (rounds : ℕ) (hle : MAX_ATTACHMENT_BYTES ≤ bytes.length) :
    Ranged bytes MAX_ATTACHMENT_BYTES
      (fetchAttachmentRanges bytes (rounds + 1) MAX_ATTACHMENT_BYTES true) := by
  have hlength := length_fetchOne bytes MAX_ATTACHMENT_BYTES 1
  rw [fetchAttachmentRanges, if_pos (by simp)]
  simp only [if_true]
  split_ifs with hempty hlong
  · exact ⟨fun h => by omega, fun h => by omega, fun _ => by
      rw [List.drop_eq_nil_of_le (by omega)]⟩
  · omega
  · exact ⟨fun _ => rfl, fun h => by omega, fun h => by omega⟩

theorem ranged (bytes : Bytes) : ∀ (rounds offset : ℕ), MAX_ATTACHMENT_BYTES < rounds + offset →
    offset ≤ bytes.length → offset ≤ MAX_ATTACHMENT_BYTES →
    Ranged bytes offset
      (fetchAttachmentRanges bytes rounds offset (offset = MAX_ATTACHMENT_BYTES))
  | 0, offset, hrounds, _, hcap => by omega
  | rounds + 1, offset, hrounds, hle, hcap => by
    rcases Nat.lt_or_eq_of_le hcap with hlt | rfl
    · have hblock : IMAP_PARTIAL_FETCH_BYTES = 65536 := rfl
      set maxLength := min IMAP_PARTIAL_FETCH_BYTES (MAX_ATTACHMENT_BYTES - offset) with hmax
      have hlength := length_fetchOne bytes offset maxLength
      rw [fetchAttachmentRanges, if_pos (by simp [hlt])]
      simp only [hlt.ne, decide_false, Bool.false_eq_true, if_false, ← hmax]
      have hnext : (fetchOne bytes offset maxLength).length ≠ 0 →
          nextAttachmentOffset offset (fetchOne bytes offset maxLength).length =
            .ok (offset + (fetchOne bytes offset maxLength).length) := fun hne => by
        rw [nextAttachmentOffset, if_neg hne, if_neg (by omega)]
      split_ifs with hempty hlong hshort
      · refine ⟨fun h => by omega, fun _ _ => rfl, fun h => ?_⟩
        have hzero : bytes.length - offset = 0 := by omega
        simp only [hzero, Nat.zero_mod, ne_eq, not_true_eq_false, and_false, or_false] at h
        omega
      · omega
      · rw [hnext hempty]
        refine ⟨fun h => by omega, fun h hmod => ?_, fun _ => ?_⟩
        · rw [Nat.mod_eq_of_lt (by omega)] at hmod
          omega
        · simp only [fetchOne]
          rw [List.take_of_length_le (by simp; omega)]
      · -- a full range: the next one begins where it ends
        have hfull : (fetchOne bytes offset maxLength).length = maxLength := by omega
        rw [hnext hempty, hfull]
        have ih := ranged bytes rounds (offset + maxLength) (by omega) (by omega) (by omega)
        have hmod : bytes.length < MAX_ATTACHMENT_BYTES →
            (bytes.length - offset) % IMAP_PARTIAL_FETCH_BYTES =
              (bytes.length - (offset + maxLength)) % IMAP_PARTIAL_FETCH_BYTES := by
          intro hunder
          have hwhole : maxLength = IMAP_PARTIAL_FETCH_BYTES := by omega
          have hsub : bytes.length - offset =
              bytes.length - (offset + maxLength) + IMAP_PARTIAL_FETCH_BYTES := by omega
          rw [hsub, Nat.add_mod_right]
        refine ⟨ih.beyond, fun h hstuck => ih.stuck h ((hmod h).symm.trans hstuck), fun h => ?_⟩
        simp only
        rw [ih.rest (h.imp_right fun ⟨hunder, hne⟩ => ⟨hunder, hmod hunder ▸ hne⟩)]
        simp only [fetchOne_append_drop]
    · rw [decide_eq_true rfl]
      exact ranged_probe bytes rounds hle

/-- The download as far as it gets, and the ranges from there. -/
theorem streamAttachment_eq (part : ImapPart) : ∀ (chunks : List Bytes) (offset : ℕ),
    offset + chunks.flatten.length ≤ MAX_ATTACHMENT_BYTES →
    streamAttachment part offset chunks =
      let taken := (chunks.takeWhile fun chunk => chunk ≠ []).flatten
      if part.fails = false ∧ ∀ chunk ∈ chunks, chunk ≠ [] then ⟨taken, none⟩
      else
        let next := offset + taken.length
        let rest := fetchAttachmentRanges part.bytes (MAX_ATTACHMENT_BYTES + 1 - next) next
          (next = MAX_ATTACHMENT_BYTES)
        ⟨taken ++ rest.content, rest.error⟩
  | [], offset, _ => by
    rcases hfails : part.fails <;> simp [streamAttachment, hfails]
  | [] :: chunks, offset, _ => by
    simp [streamAttachment, nextAttachmentOffset]
  | (byte :: bytes) :: chunks, offset, hle => by
    simp only [List.flatten_cons, List.length_append] at hle
    have hnext : nextAttachmentOffset offset (byte :: bytes).length =
        .ok (offset + (byte :: bytes).length) := by
      rw [nextAttachmentOffset, if_neg (by simp), if_neg (by omega)]
    rw [streamAttachment, hnext]
    simp only
    rw [streamAttachment_eq part chunks _ (by omega)]
    have htaken : ((byte :: bytes) :: chunks).takeWhile (fun chunk => chunk ≠ []) =
        (byte :: bytes) :: chunks.takeWhile fun chunk => chunk ≠ [] := by simp
    simp only [htaken, List.flatten_cons, List.length_append, List.forall_mem_cons, ne_eq,
      reduceCtorEq, not_false_eq_true, true_and, ← Nat.add_assoc]
    split_ifs <;> simp [List.append_assoc]

theorem ImapPart.taken_prefix (part : ImapPart) :
    (part.chunks.takeWhile fun chunk => chunk ≠ []).flatten <+:
      part.bytes.take MAX_ATTACHMENT_BYTES := by
  refine List.IsPrefix.trans ?_ part.yielded
  obtain ⟨rest, hrest⟩ := List.takeWhile_prefix (l := part.chunks) fun chunk => decide (chunk ≠ [])
  exact ⟨rest.flatten, by rw [← List.flatten_append, hrest]⟩

/-- What has been read is the beginning of the part. -/
theorem ImapPart.taken_eq (part : ImapPart) :
    (part.chunks.takeWhile fun chunk => chunk ≠ []).flatten = part.bytes.take part.offset :=
  List.prefix_iff_eq_take.mp (part.taken_prefix.trans (List.take_prefix _ _))

theorem ImapPart.offset_le (part : ImapPart) :
    part.offset ≤ MAX_ATTACHMENT_BYTES ∧ part.offset ≤ part.bytes.length := by
  have hle := part.taken_prefix.length_le
  rw [List.length_take] at hle
  exact ⟨Nat.le_trans hle (Nat.min_le_left _ _), Nat.le_trans hle (Nat.min_le_right _ _)⟩

theorem ImapPart.yielded_le (part : ImapPart) :
    0 + part.chunks.flatten.length ≤ MAX_ATTACHMENT_BYTES := by
  have hle := part.yielded.length_le
  rw [List.length_take] at hle
  omega

theorem ImapPart.stream_of_completes (part : ImapPart) (h : part.Completes) :
    streamAttachment part 0 part.chunks = ⟨part.bytes.take MAX_ATTACHMENT_BYTES, none⟩ := by
  have htake : part.chunks.takeWhile (fun chunk => chunk ≠ []) = part.chunks :=
    List.takeWhile_eq_self_iff.mpr (by simpa using h.2)
  unfold ImapPart.Completes at h
  rw [streamAttachment_eq part part.chunks 0 part.yielded_le]
  simp only
  rw [if_pos h, htake, part.complete h.1]

theorem ImapPart.stream_of_breaks (part : ImapPart) (h : ¬part.Completes) :
    streamAttachment part 0 part.chunks =
      let rest := fetchAttachmentRanges part.bytes (MAX_ATTACHMENT_BYTES + 1 - part.offset)
        part.offset (part.offset = MAX_ATTACHMENT_BYTES)
      ⟨part.bytes.take part.offset ++ rest.content, rest.error⟩ := by
  unfold ImapPart.Completes at h
  rw [streamAttachment_eq part part.chunks 0 part.yielded_le, ← part.taken_eq]
  simp only [Nat.zero_add]
  rw [if_neg h]
  rfl

theorem ImapPart.ranged_offset (part : ImapPart) : Ranged part.bytes part.offset
    (fetchAttachmentRanges part.bytes (MAX_ATTACHMENT_BYTES + 1 - part.offset) part.offset
      (part.offset = MAX_ATTACHMENT_BYTES)) := by
  obtain ⟨hcap, hbytes⟩ := part.offset_le
  exact ranged part.bytes _ part.offset (by omega) hbytes hcap

/-- The ranges cannot tell the end of a part from a server that sends nothing. -/
theorem ImapPart.stream_stuck (part : ImapPart) (h : ¬part.Completes)
    (hlt : part.bytes.length < MAX_ATTACHMENT_BYTES)
    (hmod : (part.bytes.length - part.offset) % IMAP_PARTIAL_FETCH_BYTES = 0) :
    (streamAttachment part 0 part.chunks).error = some .other := by
  rw [part.stream_of_breaks h]
  exact part.ranged_offset.stuck hlt hmod

theorem ImapPart.stream_rest (part : ImapPart) (h : ¬part.Completes)
    (hrest : part.bytes.length = MAX_ATTACHMENT_BYTES ∨ part.bytes.length < MAX_ATTACHMENT_BYTES ∧
      (part.bytes.length - part.offset) % IMAP_PARTIAL_FETCH_BYTES ≠ 0) :
    streamAttachment part 0 part.chunks = ⟨part.bytes, none⟩ := by
  rw [part.stream_of_breaks h, part.ranged_offset.rest hrest]
  simp

/-- A download that runs to its end is exact for the parts within the cap.  One that breaks off is
exact but for a part under the cap whose rest is nothing, or a number of full ranges. -/
theorem ImapPart.exact_iff (part : ImapPart) : part.Exact ↔
    (part.Completes ∧ part.bytes.length ≤ MAX_ATTACHMENT_BYTES) ∨
    (¬part.Completes ∧ (MAX_ATTACHMENT_BYTES ≤ part.bytes.length ∨
      (part.bytes.length - part.offset) % IMAP_PARTIAL_FETCH_BYTES ≠ 0)) := by
  unfold ImapPart.Exact
  by_cases hcompletes : part.Completes
  · rw [part.stream_of_completes hcompletes]
    split_ifs with hle
    · simp [hcompletes, hle, List.take_of_length_le hle]
    · simp [hcompletes, hle]
  · rcases Nat.lt_trichotomy part.bytes.length MAX_ATTACHMENT_BYTES with hlt | heq | hgt
    · rw [if_pos hlt.le]
      by_cases hmod : (part.bytes.length - part.offset) % IMAP_PARTIAL_FETCH_BYTES = 0
      · have hstuck := part.stream_stuck hcompletes hlt hmod
        refine iff_of_false (fun h => by rw [h] at hstuck; exact nomatch hstuck) ?_
        rintro (⟨h, -⟩ | ⟨-, hle | hne⟩)
        · exact hcompletes h
        · exact Nat.not_lt.mpr hle hlt
        · exact hne hmod
      · exact iff_of_true (part.stream_rest hcompletes (.inr ⟨hlt, hmod⟩))
          (.inr ⟨hcompletes, .inr hmod⟩)
    · rw [if_pos heq.le]
      exact iff_of_true (part.stream_rest hcompletes (.inl heq)) (.inr ⟨hcompletes, .inl heq.ge⟩)
    · rw [if_neg (Nat.not_le.mpr hgt), part.stream_of_breaks hcompletes]
      exact iff_of_true (part.ranged_offset.beyond hgt) (.inr ⟨hcompletes, .inl hgt.le⟩)

/-- The download breaks off after its last byte. -/
theorem exact_fails_at_end : ¬∀ part : ImapPart, part.Exact := by
  intro hall
  let part : ImapPart := ⟨[1, 2, 3], [[1, 2, 3]], true, ⟨[], rfl⟩, nofun⟩
  have hbreaks : ¬part.Completes := by decide
  have hlt : part.bytes.length < MAX_ATTACHMENT_BYTES := by decide
  have hstuck := part.stream_stuck hbreaks hlt (by decide)
  have hexact := hall part
  rw [ImapPart.Exact, if_pos hlt.le] at hexact
  rw [hexact] at hstuck
  exact nomatch hstuck

theorem filter_of_le {content : Bytes} (h : content.length ≤ MAX_ATTACHMENT_BYTES) :
    (some content).filter (fun content => content.length ≤ MAX_ATTACHMENT_BYTES) =
      some content := by
  simp only [Option.filter_some, decide_eq_true h, if_true]

theorem filter_of_lt {content : Bytes} (h : MAX_ATTACHMENT_BYTES < content.length) :
    (some content).filter (fun content => content.length ≤ MAX_ATTACHMENT_BYTES) = none := by
  simp only [Option.filter_some, decide_eq_false (Nat.not_le.mpr h), Bool.false_eq_true, if_false]

theorem decoded_outcomes (size : ℕ) (content : Bytes) :
    let source : Except MailError Source :=
      if MAX_ATTACHMENT_BYTES < size then .error .other else .ok ⟨content, none⟩
    let meets := size ≤ MAX_ATTACHMENT_BYTES ∧ content.length ≤ MAX_ATTACHMENT_BYTES
    (meets ∧ outcome source = .ok ((some content).filter fun content =>
      content.length ≤ MAX_ATTACHMENT_BYTES)) ∨ (¬meets ∧ outcome source = .error ()) ∨
    (¬meets ∧ ((some content).filter fun content => content.length ≤ MAX_ATTACHMENT_BYTES) = none ∧
      ∃ stored, outcome source = .ok (some stored)) := by
  simp only
  split_ifs with hsize
  · exact .inr (.inl ⟨fun h => by omega, rfl⟩)
  · by_cases hle : content.length ≤ MAX_ATTACHMENT_BYTES
    · exact .inl ⟨⟨by omega, hle⟩, by rw [filter_of_le hle]; rfl⟩
    · exact .inr (.inr ⟨fun h => hle h.2, filter_of_lt (by omega), _, rfl⟩)

theorem Part.outcomes (part : Part) :
    (part.Meets codecs ∧ outcome (part.openStream codecs) = .ok ((part.content codecs).filter
      fun content => content.length ≤ MAX_ATTACHMENT_BYTES)) ∨
    (¬part.Meets codecs ∧ outcome (part.openStream codecs) = .error ()) ∨
    (¬part.Meets codecs ∧ ((part.content codecs).filter fun content =>
        content.length ≤ MAX_ATTACHMENT_BYTES) = none ∧
      ∃ stored, outcome (part.openStream codecs) = .ok (some stored)) := by
  rcases part with ⟨body, attachments⟩ | value | part
  · simp only [Part.Meets, Part.openStream, Part.content, openGmailStream]
    rcases truthy (body.bind GmailBody.data) with _ | data
    · rcases truthy (body.bind GmailBody.attachmentId) with _ | attachmentId
      · exact .inr (.inl ⟨id, rfl⟩)
      · simp only
        rcases attachments attachmentId with _ | _ | ⟨size, data⟩
        · exact .inr (.inl ⟨id, rfl⟩)
        · exact .inr (.inl ⟨id, rfl⟩)
        · exact decoded_outcomes size (codecs.decodeBase64Url data)
    · exact decoded_outcomes _ (codecs.decodeBase64Url data)
  · rcases value with _ | _ | chunks
    · exact .inr (.inl ⟨id, rfl⟩)
    · exact .inr (.inl ⟨id, rfl⟩)
    · simp only [Part.Meets, Part.openStream, Part.content, fetchAttachmentStream]
      by_cases hle : chunks.flatten.length ≤ MAX_ATTACHMENT_BYTES
      · rw [limiter_within (by omega)]
        exact .inl ⟨hle, by rw [filter_of_le hle]; rfl⟩
      · refine .inr (.inl ⟨hle, ?_⟩)
        exact outcome_of_other (limiter_over (Nat.zero_le _) (by omega))
  · simp only [Part.Meets, Part.openStream, Part.content]
    by_cases hcompletes : part.Completes
    · rw [if_pos hcompletes, part.stream_of_completes hcompletes]
      by_cases hle : part.bytes.length ≤ MAX_ATTACHMENT_BYTES
      · exact .inl ⟨hle, by rw [filter_of_le hle, List.take_of_length_le hle]; rfl⟩
      · exact .inr (.inr ⟨hle, filter_of_lt (by omega), _, rfl⟩)
    · rw [if_neg hcompletes]
      rcases Nat.lt_trichotomy part.bytes.length MAX_ATTACHMENT_BYTES with hlt | heq | hgt
      · by_cases hmod : (part.bytes.length - part.offset) % IMAP_PARTIAL_FETCH_BYTES = 0
        · exact .inr (.inl ⟨fun h => h.elim (by omega) (absurd hmod),
            outcome_of_other (part.stream_stuck hcompletes hlt hmod)⟩)
        · rw [part.stream_rest hcompletes (.inr ⟨hlt, hmod⟩), filter_of_le hlt.le]
          exact .inl ⟨.inr hmod, rfl⟩
      · rw [part.stream_rest hcompletes (.inl heq), filter_of_le heq.le]
        exact .inl ⟨.inl heq.ge, rfl⟩
      · rw [filter_of_lt hgt, part.stream_of_breaks hcompletes]
        exact .inl ⟨.inl hgt.le, outcome_of_capExceeded (part.ranged_offset.beyond hgt)⟩

/-! ## The rows of one message -/

structure Recorded (sha256 : Bytes → String) (itemId : ℕ) (contents : List Bytes)
    (s s' : MailAttachments.Store) : Prop where
  rows : ∃ rows, s'.mailAttachments = s.mailAttachments ++ rows ∧
    (∀ row ∈ rows, row.messageItemId = itemId) ∧
    List.Forall₂ (HasContent sha256 s'.blobs) rows contents
  blobs : ∀ blob ∈ s.blobs, blob ∈ s'.blobs
  emails : s'.emails = s.emails
  nextId : s.nextId ≤ s'.nextId

theorem HasContent.mono {blobs blobs' : List BlobRow} {row : MailAttachmentRow} {content : Bytes}
    (h : HasContent sha256 blobs row content) (hblobs : ∀ blob ∈ blobs, blob ∈ blobs') :
    HasContent sha256 blobs' row content := by
  obtain ⟨hsize, blob, hblob, hrest⟩ := h
  exact ⟨hsize, blob, hblobs blob hblob, hrest⟩

theorem recorded_of_same (itemId : ℕ) (hblobs : s'.blobs = s.blobs)
    (hrows : s'.mailAttachments = s.mailAttachments) (hemails : s'.emails = s.emails)
    (hnext : s.nextId ≤ s'.nextId) : Recorded sha256 itemId [] s s' :=
  ⟨⟨[], by simp [hrows], nofun, .nil⟩, fun _ h => hblobs ▸ h, hemails, hnext⟩

theorem Recorded.trans {itemId : ℕ} {contents contents' : List Bytes}
    (h : Recorded sha256 itemId contents s s') (h' : Recorded sha256 itemId contents' s' s'') :
    Recorded sha256 itemId (contents ++ contents') s s'' := by
  obtain ⟨rows, hrows, hids, hcontents⟩ := h.rows
  obtain ⟨rows', hrows', hids', hcontents'⟩ := h'.rows
  refine ⟨⟨rows ++ rows', by rw [hrows', hrows, List.append_assoc], fun row hrow => ?_, ?_⟩,
    fun blob hblob => h'.blobs blob (h.blobs blob hblob), h'.emails.trans h.emails,
    Nat.le_trans h.nextId h'.nextId⟩
  · exact (List.mem_append.mp hrow).elim (hids row) (hids' row)
  · exact List.rel_append (hcontents.imp fun _ _ hrow => hrow.mono h'.blobs) hcontents'

theorem recorded_ingest (itemId : ℕ) (content : Bytes) (s : MailAttachments.Store) :
    Recorded sha256 itemId [content] s (s.ingest sha256 itemId content) := by
  unfold MailAttachments.Store.ingest
  rcases hfind : getBlobByContentHash s (sha256 content) with _ | row
  · exact ⟨⟨_, rfl, by simp, .cons ⟨rfl, _, List.mem_append_right _ (List.mem_singleton_self _),
      rfl, rfl⟩ .nil⟩, fun _ => List.mem_append_left _, rfl, Nat.le_succ _⟩
  · have hmem : row ∈ s.blobs := List.mem_of_find?_eq_some hfind
    have hhash : row.contentHash = sha256 content := by simpa using List.find?_some hfind
    exact ⟨⟨_, rfl, by simp, .cons ⟨rfl, row, hmem, rfl, hhash⟩ .nil⟩, fun _ => id, rfl,
      Nat.le_succ _⟩

theorem recorded_attachments (itemId : ℕ) : ∀ (attachments : List (ClassifiedAttachment × Faults))
    (s : MailAttachments.Store), (∀ attachment ∈ attachments, ends attachment ≠ .error ()) →
    ∃ s', (ingestAttachments sha256 itemId attachments).run s = (.ok (), s') ∧
      Recorded sha256 itemId (attachments.filterMap stored) s s'
  | [], s, _ => ⟨s, rfl, recorded_of_same itemId rfl rfl rfl le_rfl⟩
  | attachment :: attachments, s, hends => by
    have hfirst : ∃ s₁, (ingestAttachment sha256 itemId attachment).run s = (.ok (), s₁) ∧
        Recorded sha256 itemId (stored attachment).toList s s₁ := by
      rcases run_ingestAttachment itemId attachment s with
        ⟨content, hstored, h⟩ | ⟨hskipped, s₁, h, hs₁⟩ | ⟨herror, -⟩
      · refine ⟨_, h, ?_⟩
        simp only [stored, hstored]
        exact recorded_ingest itemId content s
      · refine ⟨s₁, h, ?_⟩
        simp only [stored, hskipped]
        rcases hs₁ with rfl | rfl
        · exact recorded_of_same itemId rfl rfl rfl (Nat.le_succ _)
        · exact recorded_of_same itemId rfl rfl rfl (Nat.le_succ _)
      · exact absurd herror (hends attachment List.mem_cons_self)
    obtain ⟨s₁, h₁, hrecorded₁⟩ := hfirst
    obtain ⟨s₂, h₂, hrecorded₂⟩ := recorded_attachments itemId attachments s₁
      fun a ha => hends a (List.mem_cons_of_mem _ ha)
    refine ⟨s₂, ?_, ?_⟩
    · rw [ingestAttachments, List.forM_cons, Tx.run_bind, h₁]
      exact h₂
    · have hlist : (attachment :: attachments).filterMap stored =
          (stored attachment).toList ++ attachments.filterMap stored := by
        rw [List.filterMap_cons]
        rcases stored attachment <;> rfl
      exact hlist ▸ hrecorded₁.trans hrecorded₂

theorem recorded_message {message : FetchedMessage} (hnew : message.messageId ∉ known s)
    (hsucceeds : message.Succeeds) :
    ∃ s', (ingestEmailMessage sha256 message).run s = (.ok (), s') ∧
      Recorded sha256 s.nextId message.stored (s.addEmail message.messageId) s' := by
  obtain ⟨hbefore, hafter, hends⟩ := hsucceeds
  obtain ⟨s', h, hrecorded⟩ :=
    recorded_attachments s.nextId message.attachments (s.addEmail message.messageId) hends
  refine ⟨s', ?_, hrecorded⟩
  rw [run_ingestEmailMessage_eq hnew hbefore, Tx.run_bind, h, hafter]
  rfl

/-! ## The rows of a pass -/

/-- What is there stays, and what is added is for new items. -/
structure Kept (s s' : MailAttachments.Store) : Prop where
  emails : ∃ more, s'.emails = s.emails ++ more ∧ ∀ email ∈ more, email.2 ∉ known s
  rows : ∃ rows, s'.mailAttachments = s.mailAttachments ++ rows ∧
    ∀ row ∈ rows, s.nextId ≤ row.messageItemId
  blobs : ∀ blob ∈ s.blobs, blob ∈ s'.blobs
  nextId : s.nextId ≤ s'.nextId

theorem Kept.refl (s : MailAttachments.Store) : Kept s s :=
  ⟨⟨[], by simp⟩, ⟨[], by simp⟩, fun _ => id, le_rfl⟩

theorem Kept.trans (h : Kept s s') (h' : Kept s' s'') : Kept s s'' := by
  obtain ⟨more, hmore, hnew⟩ := h.emails
  obtain ⟨more', hmore', hnew'⟩ := h'.emails
  obtain ⟨rows, hrows, hids⟩ := h.rows
  obtain ⟨rows', hrows', hids'⟩ := h'.rows
  refine ⟨⟨more ++ more', by rw [hmore', hmore, List.append_assoc], fun email hemail => ?_⟩,
    ⟨rows ++ rows', by rw [hrows', hrows, List.append_assoc], fun row hrow => ?_⟩,
    fun blob hblob => h'.blobs blob (h.blobs blob hblob), Nat.le_trans h.nextId h'.nextId⟩
  · rcases List.mem_append.mp hemail with hold | hlater
    · exact hnew email hold
    · refine fun hknown => hnew' email hlater ?_
      rw [known, hmore, List.map_append]
      exact List.mem_append_left _ hknown
  · exact (List.mem_append.mp hrow).elim (hids row)
      fun hlater => Nat.le_trans h.nextId (hids' row hlater)

/-- The rows of an item are those it had when the next message was begun. -/
theorem Records.kept {itemId : ℕ} {contents : List Bytes} (h : Records sha256 s itemId contents)
    (hkept : Kept s s') (hlt : itemId < s.nextId) : Records sha256 s' itemId contents := by
  obtain ⟨rows, hrows, hids⟩ := hkept.rows
  have hnone : rows.filter (fun row => decide (row.messageItemId = itemId)) = [] := by
    rw [List.filter_eq_nil_iff]
    intro row hrow
    have hle := hids row hrow
    simp only [decide_eq_true_eq]
    omega
  rw [Records, hrows, List.filter_append, hnone, List.append_nil]
  exact h.imp fun _ _ hrow => hrow.mono hkept.blobs

/-- The state after one message: its item, with what has been stored for it. -/
theorem records_message {message : FetchedMessage} {contents : List Bytes} (hnumbered : Numbered s)
    (h : Recorded sha256 s.nextId contents (s.addEmail message.messageId) s')
    (hnew : message.messageId ∉ known s) :
    Kept s s' ∧ Numbered s' ∧ s.nextId < s'.nextId ∧
      known s' = known s ++ [message.messageId] ∧ Records sha256 s' s.nextId contents := by
  obtain ⟨rows, hrows, hids, hcontents⟩ := h.rows
  have hlt : s.nextId < s'.nextId := h.nextId
  refine ⟨⟨⟨_, h.emails, by simpa using hnew⟩, ⟨rows, hrows, fun row hrow => (hids row hrow).ge⟩,
    h.blobs, hlt.le⟩, fun row hrow => ?_, hlt, by simp [known, h.emails], ?_⟩
  · rw [hrows] at hrow
    rcases List.mem_append.mp hrow with hold | hadded
    · exact Nat.lt_trans (hnumbered row hold) hlt
    · exact (hids row hadded).trans_lt hlt
  · have hold : s.mailAttachments.filter (fun row => decide (row.messageItemId = s.nextId)) = [] := by
      rw [List.filter_eq_nil_iff]
      intro row hrow
      have hless := hnumbered row hrow
      simp only [decide_eq_true_eq]
      omega
    have hall : rows.filter (fun row => decide (row.messageItemId = s.nextId)) = rows := by
      rw [List.filter_eq_self]
      exact fun row hrow => decide_eq_true (hids row hrow)
    rw [Records, hrows, List.filter_append, hold, hall]
    exact hcontents

theorem records_messages : ∀ (messages : List FetchedMessage) (s : MailAttachments.Store),
    (∀ message ∈ ingested (known s) messages, message.Succeeds) → Numbered s →
    ∃ s', (forM messages (ingestEmailMessage sha256)).run s = (.ok (), s') ∧ Kept s s' ∧
      ∀ message ∈ ingested (known s) messages, message.messageId ∈ known s' ∧
        ∀ itemId, (itemId, message.messageId) ∈ s'.emails →
          Records sha256 s' itemId message.stored
  | [], s, _, _ => ⟨s, rfl, .refl s, by simp [ingested]⟩
  | message :: messages, s, hsucceed, hnumbered => by
    rw [List.forM_cons]
    by_cases hknown : message.messageId ∈ known s
    · rw [ingested, if_pos hknown] at hsucceed ⊢
      rw [Tx.run_bind, run_ingestEmailMessage_known s hknown]
      exact records_messages messages s hsucceed hnumbered
    · rw [ingested, if_neg hknown] at hsucceed ⊢
      simp only [List.forall_mem_cons] at hsucceed ⊢
      obtain ⟨s₁, h₁, hrecorded⟩ := @recorded_message sha256 s message hknown hsucceed.1
      obtain ⟨hkept₁, hnumbered₁, hlt, hids, hrecords⟩ := records_message hnumbered hrecorded hknown
      rw [← hids] at hsucceed
      obtain ⟨s₂, h₂, hkept₂, hlater⟩ := records_messages messages s₁ hsucceed.2 hnumbered₁
      obtain ⟨more, hmore, hothers⟩ := hkept₂.emails
      have hmem : message.messageId ∈ known s₁ := by simp [hids]
      refine ⟨s₂, by rw [Tx.run_bind, h₁]; exact h₂, hkept₁.trans hkept₂, ⟨?_, ?_⟩, hids ▸ hlater⟩
      · rw [known, hmore, List.map_append]
        exact List.mem_append_left _ hmem
      · -- the item is the one that has just been made
        intro itemId hitem
        rw [hmore, hrecorded.emails] at hitem
        rcases List.mem_append.mp hitem with hitem | hitem
        · rcases List.mem_append.mp hitem with hold | hnew
          · exact absurd (List.mem_map_of_mem (f := Prod.snd) hold) hknown
          · obtain rfl : itemId = s.nextId := by simpa using hnew
            exact hrecords.kept hkept₂ hlt
        · exact absurd hmem (hothers _ hitem)

/-! ## The pass -/

theorem ingested_fetched : ∀ (known : List String) (messages : List ProviderMessage),
    ingested known (messages.map (ProviderMessage.fetched codecs)) =
      (fresh known messages).map (ProviderMessage.fetched codecs)
  | _, [] => rfl
  | known, message :: messages => by
    rw [List.map_cons, ingested, fresh]
    have hid : (message.fetched codecs).messageId = message.messageId := rfl
    rw [hid]
    split_ifs
    · exact ingested_fetched known messages
    · rw [List.map_cons, ingested_fetched (known ++ [message.messageId]) messages]

def Part.stored (codecs : Codecs) (part : Part) : Option Bytes :=
  (outcome (part.openStream codecs)).toOption.join

theorem fetched_stored (message : ProviderMessage) : (message.fetched codecs).stored =
    (message.candidates codecs).filterMap fun a => a.part.stored codecs := by
  simp only [FetchedMessage.stored, ProviderMessage.fetched, List.filterMap_map]
  refine List.filterMap_congr fun a _ => ?_
  simp only [Function.comp_apply, ends_eq_outcome]
  rfl

theorem fetched_succeeds_iff (message : ProviderMessage) : (message.fetched codecs).Succeeds ↔
    ∀ a ∈ message.candidates codecs, outcome (a.part.openStream codecs) ≠ .error () := by
  simp only [FetchedMessage.Succeeds, ProviderMessage.fetched, true_and, List.forall_mem_map,
    ends_eq_outcome]
  rfl

theorem stored_of_meets {part : Part} (h : part.Meets codecs) : part.stored codecs =
    (part.content codecs).filter fun content => content.length ≤ MAX_ATTACHMENT_BYTES := by
  rcases @Part.outcomes codecs part with ⟨-, houtcome⟩ | ⟨hnot, -⟩ | ⟨hnot, -⟩
  · rw [Part.stored, houtcome]
    rfl
  · exact absurd h hnot
  · exact absurd h hnot

theorem stored_of_not_meets {part : Part} (h : ¬part.Meets codecs)
    (hok : outcome (part.openStream codecs) ≠ .error ()) : (part.stored codecs).isSome = true ∧
      ((part.content codecs).filter fun content => content.length ≤ MAX_ATTACHMENT_BYTES) =
        none := by
  rcases @Part.outcomes codecs part with ⟨hmeets, -⟩ | ⟨-, herror⟩ | ⟨-, hnone, stored, hstored⟩
  · exact absurd hmeets h
  · exact absurd herror hok
  · exact ⟨by rw [Part.stored, hstored]; rfl, hnone⟩

theorem meets_of_length : ∀ candidates : List Candidate,
    (∀ a ∈ candidates, outcome (a.part.openStream codecs) ≠ .error ()) →
    (candidates.filterMap fun a => (a.part.content codecs).filter fun content =>
        content.length ≤ MAX_ATTACHMENT_BYTES).length ≤
      (candidates.filterMap fun a => a.part.stored codecs).length ∧
    ((candidates.filterMap fun a => a.part.stored codecs).length =
        (candidates.filterMap fun a => (a.part.content codecs).filter fun content =>
          content.length ≤ MAX_ATTACHMENT_BYTES).length →
      ∀ a ∈ candidates, a.part.Meets codecs)
  | [], _ => ⟨le_rfl, nofun⟩
  | a :: candidates, hok => by
    obtain ⟨hle, hmeets⟩ := meets_of_length candidates fun b hb => hok b (List.mem_cons_of_mem _ hb)
    rw [List.filterMap_cons, List.filterMap_cons, List.forall_mem_cons]
    by_cases ha : a.part.Meets codecs
    · rw [stored_of_meets ha]
      rcases (a.part.content codecs).filter _ with _ | content
      · exact ⟨hle, fun heq => ⟨ha, hmeets heq⟩⟩
      · simp only [List.length_cons]
        exact ⟨by omega, fun heq => ⟨ha, hmeets (by omega)⟩⟩
    · obtain ⟨hsome, hnone⟩ := stored_of_not_meets ha (hok a List.mem_cons_self)
      obtain ⟨stored, hstored⟩ := Option.isSome_iff_exists.mp hsome
      rw [hstored, hnone]
      simp only [List.length_cons]
      exact ⟨by omega, fun heq => by omega⟩

theorem run_reconcileAccount {messages : List FetchedMessage} (newCursor : ℕ)
    (h : (forM messages (ingestEmailMessage sha256)).run s = (.ok (), s')) :
    (reconcileAccount sha256 messages newCursor).run s =
      (.ok (), { s' with cursor := newCursor }) := by
  rw [reconcileAccount, Tx.run_bind, h]
  rfl

/-- A pass gets past its messages with what it is to have of them exactly when each attachment that
the adapters keep is one that its adapter takes for what it is. -/
theorem advances_iff (codecs : Codecs) (sha256 : Bytes → String) (messages : List ProviderMessage)
    (newCursor : ℕ) (before : MailAttachments.Store) (hnumbered : Numbered before) :
    Advances codecs sha256 messages newCursor before ↔
      ∀ message ∈ fresh (known before) messages, ∀ a ∈ message.candidates codecs,
        a.part.Meets codecs := by
  let s₀ : MailAttachments.Store := { before with writtenKeys := [] }
  have hfresh : ingested (known s₀) (messages.map (ProviderMessage.fetched codecs)) = _ :=
    ingested_fetched (known before) messages
  by_cases hall : ∀ message ∈ ingested (known s₀) (messages.map (ProviderMessage.fetched codecs)),
      message.Succeeds
  · obtain ⟨s, h, -, hrecords⟩ := @records_messages sha256 _ s₀ hall hnumbered
    rw [hfresh] at hall hrecords
    simp only [List.forall_mem_map, fetched_succeeds_iff, fetched_stored] at hall hrecords
    have hrun := run_reconcileAccount newCursor h
    constructor
    · rintro ⟨s', hrun', -, hadvances⟩ message hmessage
      obtain rfl : _ = s' := (Prod.mk.inj (hrun.symm.trans hrun')).2
      obtain ⟨hknown, hexact⟩ := hadvances message hmessage
      obtain ⟨email, hemail, hid⟩ := List.mem_map.mp hknown
      have hitem : (email.1, message.messageId) ∈ s.emails := hid ▸ hemail
      have hstored := ((hrecords message hmessage).2 email.1 hitem).length_eq
      have hwithin := (hexact email.1 hitem).length_eq
      exact (meets_of_length _ (hall message hmessage)).2 (hstored.symm.trans hwithin)
    · intro hmeets
      refine ⟨_, hrun, rfl, fun message hmessage => ?_⟩
      obtain ⟨hknown, hexact⟩ := hrecords message hmessage
      refine ⟨hknown, fun itemId hitem => ?_⟩
      have hstored : message.withinCap codecs =
          (message.candidates codecs).filterMap fun a => a.part.stored codecs :=
        List.filterMap_congr fun a ha => (stored_of_meets (hmeets message hmessage a ha)).symm
      rw [hstored]
      exact hexact itemId hitem
  · obtain ⟨e, s, h, -⟩ := (@run_messages sha256 _ s₀).2 hall
    refine iff_of_false ?_ fun hmeets => hall ?_
    · rintro ⟨s', hrun, -⟩
      rw [reconcileAccount, Tx.run_bind, h] at hrun
      cases (Prod.mk.inj hrun).1
    · rw [hfresh]
      simp only [List.forall_mem_map, fetched_succeeds_iff]
      intro message hmessage a ha herror
      rcases @Part.outcomes codecs a.part with ⟨-, houtcome⟩ | ⟨hnot, -⟩ | ⟨hnot, -⟩
      · cases houtcome.symm.trans herror
      · exact hnot (hmeets message hmessage a ha)
      · exact hnot (hmeets message hmessage a ha)

/-! ## A message of each provider, and one that blocks -/

def plainCodecs : Codecs where
  decodeBase64Url data := data.toList.map fun c => UInt8.ofNat c.toNat
  utf8 bytes := String.ofList (bytes.map fun b => Char.ofNat b.toNat)
  normalizedGoogleShareUrls _ := []

def gmailMessage : ProviderMessage :=
  .gmail "<1@gmail>" (.node ⟨"multipart/mixed", none, [], none⟩
    [.node ⟨"text/plain", none, [], some ⟨some 2, some "hi", none⟩⟩ [],
      .node ⟨"application/pdf", some "a.pdf", [], some ⟨some 3, none, some "a"⟩⟩ []])
    fun _ => .found 3 "abc"

def graphMessage : ProviderMessage :=
  .graph "<2@graph>" [⟨.fileAttachment, some "image/png", false, none, .body [[1, 2], [3]]⟩] none

/-- The download breaks off after a byte, and the ranges bring the rest. -/
def imapMessage : ProviderMessage :=
  .imap "<3@imap>" (some (.node ⟨"application/zip", none, none,
    ⟨[1, 2, 3], [[1]], true, ⟨[2, 3], rfl⟩, nofun⟩⟩ [])) none

theorem emptyStore_numbered : Numbered emptyStore := fun _ h => nomatch h

theorem mails_advance : Advances plainCodecs (fun bytes => toString bytes)
    [gmailMessage, graphMessage, imapMessage] 7 emptyStore := by
  refine (advances_iff _ _ _ _ _ emptyStore_numbered).mpr ?_
  have hfresh : fresh (known emptyStore) [gmailMessage, graphMessage, imapMessage] =
      [gmailMessage, graphMessage, imapMessage] := rfl
  rw [hfresh]
  simp only [List.forall_mem_cons, List.not_mem_nil, false_imp_iff, implies_true, and_true]
  refine ⟨?_, ?_, ?_⟩
  · have hparts : gmailMessage.candidates plainCodecs = [⟨"application/pdf", none, .attachment,
        .gmail (some ⟨some 3, none, some "a"⟩) fun _ => .found 3 "abc"⟩] := rfl
    rw [hparts, List.forall_mem_singleton]
    have hmeets : 3 ≤ MAX_ATTACHMENT_BYTES ∧
        (plainCodecs.decodeBase64Url "abc").length ≤ MAX_ATTACHMENT_BYTES := by decide
    exact hmeets
  · have hparts : graphMessage.candidates plainCodecs = [⟨"image/png", none, .attachment,
        .graph (.body [[1, 2], [3]])⟩] := rfl
    rw [hparts, List.forall_mem_singleton]
    have hmeets : [[1, 2], [3]].flatten.length ≤ MAX_ATTACHMENT_BYTES := by decide
    exact hmeets
  · have hparts : (imapMessage.candidates plainCodecs) = [⟨"application/zip", none, .attachment,
        .imap ⟨[1, 2, 3], [[1]], true, ⟨[2, 3], rfl⟩, nofun⟩⟩] := rfl
    rw [hparts, List.forall_mem_singleton, Part.Meets]
    decide

/-- Gmail has no bytes and no id for a part of no length, and the pass throws whenever it is run. -/
theorem emptyPart_blocks : ¬∀ (codecs : Codecs) (sha256 : Bytes → String)
    (messages : List ProviderMessage) (newCursor : ℕ) (before : MailAttachments.Store),
      Numbered before → Advances codecs sha256 messages newCursor before := by
  intro hall
  obtain ⟨s, hrun, -⟩ := hall plainCodecs (fun bytes => toString bytes)
    [.gmail "<1@gmail>" (.node ⟨"application/octet-stream", some "empty.bin", [],
      some ⟨some 0, none, none⟩⟩ []) fun _ => .notFound] 7 emptyStore emptyStore_numbered
  have hthrows : ((reconcileAccount (fun bytes => toString bytes) [ProviderMessage.fetched plainCodecs
    (.gmail "<1@gmail>" (.node ⟨"application/octet-stream", some "empty.bin", [],
      some ⟨some 0, none, none⟩⟩ []) fun _ => .notFound)] 7).run
        { emptyStore with writtenKeys := [] }).1 = .error .other := rfl
  rw [List.map_singleton] at hrun
  rw [hrun] at hthrows
  exact nomatch hthrows

end MailAdapters

end Semprec
