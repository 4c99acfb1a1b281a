import Mathlib.Data.List.Basic
import Mathlib.Data.Nat.Basic
import Semprec.MailAttachments

/-!
# Bytes and rows

What a pass has done when it ends with an error is seen in the keys it has written to
(`Touched`); what it has done so far when it succeeds is seen in the rows too (`Grown`).
-/

namespace Semprec

namespace MailAttachments

variable {sha256 : Bytes → String} {s s' s'' : Store}

/-! ## One attachment -/

structure Touched (s s' : Store) : Prop where
  written : ∀ key ∈ s'.writtenKeys, key ∈ s.writtenKeys ∨ s.nextId ≤ key ∧ key < s'.nextId
  keeps : ∀ key ∈ s.writtenKeys, key ∈ s'.writtenKeys
  files : ∀ key, key ∉ s'.writtenKeys → s'.files key = s.files key
  nextId : s.nextId ≤ s'.nextId

theorem Touched.refl (s : Store) : Touched s s :=
  ⟨fun _ => .inl, fun _ => id, fun _ _ => rfl, le_rfl⟩

theorem Touched.trans (h : Touched s s') (h' : Touched s' s'') : Touched s s'' where
  written key hkey := by
    rcases h'.written key hkey with hold | hnew
    · exact (h.written key hold).imp_right fun hlt =>
        ⟨hlt.1, Nat.lt_of_lt_of_le hlt.2 h'.nextId⟩
    · exact .inr ⟨Nat.le_trans h.nextId hnew.1, hnew.2⟩
  keeps key hkey := h'.keeps key (h.keeps key hkey)
  files key hkey := (h'.files key hkey).trans (h.files key fun hold => hkey (h'.keeps key hold))
  nextId := Nat.le_trans h.nextId h'.nextId

def Store.ingest (sha256 : Bytes → String) (messageItemId : ℕ) (content : Bytes) (s : Store) : Store :=
  let written : Store :=
    { s with nextId := s.nextId + 1, writtenKeys := s.nextId :: s.writtenKeys }
  match getBlobByContentHash s (sha256 content) with
  | some row => { written.putFile s.nextId (if row.storageKey = s.nextId then some content else none) with
      mailAttachments := s.mailAttachments ++ [⟨messageItemId, row.id, content.length⟩] }
  | none => { written.putFile s.nextId (some content) with
      blobs := s.blobs ++ [⟨s.nextId, s.nextId, sha256 content, content.length⟩]
      mailAttachments := s.mailAttachments ++ [⟨messageItemId, s.nextId, content.length⟩] }

def Store.skipWritten (s : Store) : Store :=
  { s.putFile s.nextId none with
    nextId := s.nextId + 1, writtenKeys := s.nextId :: s.writtenKeys }

/-- A key has been drawn, and its file alone may have changed. -/
theorem touched_of_key {content : Option Bytes} (hnext : s'.nextId = s.nextId + 1)
    (hwritten : s'.writtenKeys = s.nextId :: s.writtenKeys)
    (hfiles : s'.files = Function.update s.files s.nextId content) : Touched s s' where
  written key hkey := by
    rw [hwritten] at hkey
    rcases List.mem_cons.mp hkey with rfl | hkey
    · exact .inr ⟨Nat.le_refl _, by omega⟩
    · exact .inl hkey
  keeps key hkey := hwritten ▸ List.mem_cons_of_mem _ hkey
  files key hkey := by
    rw [hwritten, List.mem_cons, not_or] at hkey
    rw [hfiles, Function.update_of_ne hkey.1]
  nextId := by omega

theorem touched_of_draw (hnext : s'.nextId = s.nextId + 1) (hwritten : s'.writtenKeys = s.writtenKeys)
    (hfiles : s'.files = s.files) : Touched s s' where
  written key hkey := .inl (hwritten ▸ hkey)
  keeps key hkey := hwritten ▸ hkey
  files key _ := by rw [hfiles]
  nextId := by omega

theorem run_ingestAttachment (messageItemId : ℕ) (attachment : ClassifiedAttachment × Faults)
    (s : Store) : (∃ content, ends attachment = .ok (some content) ∧
      (ingestAttachment sha256 messageItemId attachment).run s =
        (.ok (), s.ingest sha256 messageItemId content)) ∨
    (ends attachment = .ok none ∧ ∃ s', (ingestAttachment sha256 messageItemId attachment).run s =
      (.ok (), s') ∧ (s' = { s with nextId := s.nextId + 1 } ∨ s' = s.skipWritten)) ∨
    (ends attachment = .error () ∧ ∃ e s', (ingestAttachment sha256 messageItemId attachment).run s =
      (.error e, s') ∧ Touched s s') := by
  obtain ⟨⟨extractable, openStream⟩, ⟨mkdir, disk, findOrCreateBlob, reference⟩⟩ := attachment
  simp only [ingestAttachment, ingestAttachmentBody, randomUUID, Tx.run_bind, Tx.run_catchError,
    Tx.run_write, Tx.run_query, ends]
  rcases hsource : (⟨extractable, openStream⟩ : ClassifiedAttachment).source with err | source
  · rcases err with _ | _
    · exact .inr (.inl ⟨rfl, _, rfl, .inl rfl⟩)
    · exact .inr (.inr ⟨rfl, _, _, rfl, touched_of_draw rfl rfl rfl⟩)
  · simp only [writeStream, Tx.run_bind, Tx.run_write, Except.bind]
    rcases mkdir with _ | _
    · rcases disk with _ | _
      · obtain ⟨content, error⟩ := source
        rcases error with _ | _ | _
        · rcases findOrCreateBlob with _ | _
          · rcases reference with _ | _
            · refine .inl ⟨content, rfl, ?_⟩
              simp only [MailAttachments.findOrCreateBlob, Store.ingest, getBlobByContentHash]
              rcases hfind : s.blobs.find? (fun row => row.contentHash = sha256 content) with _ | row
              · simp [Tx.run_bind, hfind, Store.putFile]
              · by_cases hkey : row.storageKey = s.nextId <;>
                  simp [Tx.run_bind, hfind, hkey, Store.putFile, Store.delete]
            · rcases hfind : s.blobs.find? (fun row => row.contentHash = sha256 content) with _ | row
              · refine .inr (.inr ⟨rfl, .other, { s.putFile s.nextId (some content) with
                  nextId := s.nextId + 1, writtenKeys := s.nextId :: s.writtenKeys
                  blobs := s.blobs ++ [⟨s.nextId, s.nextId, sha256 content, content.length⟩] },
                  ?_, touched_of_key rfl rfl rfl⟩)
                simp [Tx.run_bind, MailAttachments.findOrCreateBlob, getBlobByContentHash, hfind,
                  Store.putFile]
              · refine .inr (.inr ⟨rfl, .other, { s.putFile s.nextId
                  (if row.storageKey = s.nextId then some content else none) with
                  nextId := s.nextId + 1, writtenKeys := s.nextId :: s.writtenKeys },
                  ?_, touched_of_key rfl rfl rfl⟩)
                by_cases hkey : row.storageKey = s.nextId <;>
                  simp [Tx.run_bind, MailAttachments.findOrCreateBlob, getBlobByContentHash, hfind,
                    hkey, Store.putFile, Store.delete]
          · exact .inr (.inr ⟨by simp, .other, _, rfl, touched_of_key rfl rfl rfl⟩)
        · refine .inr (.inl ⟨rfl, _, rfl, .inr ?_⟩)
          simp [Store.skipWritten, Store.putFile, Store.delete]
        · refine .inr (.inr ⟨rfl, _, _, rfl, touched_of_key rfl rfl (Function.update_idem _ _ _)⟩)
      · exact .inr (.inr ⟨rfl, _, _, rfl, touched_of_key rfl rfl (Function.update_idem _ _ _)⟩)
    · exact .inr (.inr ⟨rfl, _, _, rfl, touched_of_key rfl rfl (Function.update_eq_self _ _).symm⟩)

/-! ## What a pass has stored -/

structure Inner (sha256 : Bytes → String) (s : Store) : Prop where
  bytes : ∀ row ∈ s.blobs, s.HasBytes sha256 row
  fresh : ∀ row ∈ s.blobs, row.storageKey < s.nextId
  drawn : ∀ key ∈ s.writtenKeys, key < s.nextId
  noOrphans : ∀ key ∈ s.writtenKeys, (∃ row ∈ s.blobs, row.storageKey = key) ∨ s.files key = none

/-- From one store to the next contents have been stored: a row is new if none of its content was
there, and the pass has written to its key. -/
structure Grown (sha256 : Bytes → String) (contents : List Bytes) (s s' : Store) : Prop where
  touched : Touched s s'
  keeps : ∀ row ∈ s.blobs, row ∈ s'.blobs
  rows : ∀ row ∈ s'.blobs, row ∈ s.blobs ∨ row.storageKey ∈ s'.writtenKeys ∧
    (∀ old ∈ s.blobs, old.contentHash ≠ row.contentHash) ∧
    ∃ content ∈ contents, row.contentHash = sha256 content
  hashed : ∀ content ∈ contents, ∃ row ∈ s'.blobs, row.contentHash = sha256 content
  inner : Inner sha256 s → Inner sha256 s'

theorem Grown.refl (s : Store) : Grown sha256 [] s s :=
  ⟨.refl s, fun _ => id, fun _ => .inl, nofun, id⟩

theorem Grown.trans {contents contents' : List Bytes} (h : Grown sha256 contents s s')
    (h' : Grown sha256 contents' s' s'') : Grown sha256 (contents ++ contents') s s'' where
  touched := h.touched.trans h'.touched
  keeps row hrow := h'.keeps row (h.keeps row hrow)
  rows row hrow := by
    rcases h'.rows row hrow with hold | ⟨hkey, hnone, content, hcontent, heq⟩
    · rcases h.rows row hold with hold | ⟨hkey, hnone, content, hcontent, heq⟩
      · exact .inl hold
      · exact .inr ⟨h'.touched.keeps _ hkey, hnone, content, List.mem_append_left _ hcontent, heq⟩
    · exact .inr ⟨hkey, fun old hold => hnone old (h.keeps old hold), content,
        List.mem_append_right _ hcontent, heq⟩
  hashed content hcontent := by
    rcases List.mem_append.mp hcontent with hcontent | hcontent
    · obtain ⟨row, hrow, heq⟩ := h.hashed content hcontent
      exact ⟨row, h'.keeps row hrow, heq⟩
    · exact h'.hashed content hcontent
  inner hi := h'.inner (h.inner hi)

/-- Nothing of the storage and no row has changed. -/
theorem grown_of_same (hblobs : s'.blobs = s.blobs) (hfiles : s'.files = s.files)
    (hwritten : s'.writtenKeys = s.writtenKeys) (hnext : s.nextId ≤ s'.nextId) :
    Grown sha256 [] s s' where
  touched := ⟨fun _ hkey => .inl (hwritten ▸ hkey), fun _ hkey => hwritten ▸ hkey,
    fun key _ => by rw [hfiles], hnext⟩
  keeps row hrow := hblobs ▸ hrow
  rows row hrow := .inl (hblobs ▸ hrow)
  hashed := nofun
  inner hi := by
    constructor
    · rw [hblobs]
      intro row hrow
      obtain ⟨content, hcontent, hrest⟩ := hi.bytes row hrow
      exact ⟨content, by rw [hfiles, hcontent], hrest⟩
    · rw [hblobs]
      exact fun row hrow => Nat.lt_of_lt_of_le (hi.fresh row hrow) hnext
    · rw [hwritten]
      exact fun key hkey => Nat.lt_of_lt_of_le (hi.drawn key hkey) hnext
    · rw [hwritten, hblobs, hfiles]
      exact hi.noOrphans

theorem Inner.hasBytes_update {row : BlobRow} (h : s.HasBytes sha256 row) {key : ℕ}
    (hne : row.storageKey ≠ key) (content : Option Bytes) :
    ∃ bytes, Function.update s.files key content row.storageKey = some bytes ∧
      bytes.length = row.byteSize ∧ sha256 bytes = row.contentHash := by
  obtain ⟨bytes, hbytes, hrest⟩ := h
  exact ⟨bytes, by rw [Function.update_of_ne hne, hbytes], hrest⟩

theorem grown_skipWritten (s : Store) : Grown sha256 [] s s.skipWritten where
  touched := touched_of_key rfl rfl rfl
  keeps _ := id
  rows _ := .inl
  hashed := nofun
  inner hi := by
    constructor
    · exact fun row hrow => Inner.hasBytes_update (hi.bytes row hrow)
        (Nat.ne_of_lt (hi.fresh row hrow)) none
    · exact fun row hrow => Nat.lt_succ_of_lt (hi.fresh row hrow)
    · intro key hkey
      rcases List.mem_cons.mp hkey with rfl | hkey
      · exact Nat.lt_succ_self _
      · exact Nat.lt_succ_of_lt (hi.drawn key hkey)
    · intro key hkey
      by_cases heq : key = s.nextId
      · rw [heq]
        exact .inr (Function.update_self _ _ _)
      · have hold : key ∈ s.writtenKeys := (List.mem_cons.mp hkey).resolve_left heq
        exact (hi.noOrphans key hold).imp_right fun hnone =>
          (Function.update_of_ne heq _ _).trans hnone

theorem grown_ingest (messageItemId : ℕ) (content : Bytes) (s : Store) :
    Grown sha256 [content] s (s.ingest sha256 messageItemId content) := by
  rcases hfind : getBlobByContentHash s (sha256 content) with _ | row <;>
    simp only [Store.ingest, hfind]
  · have hnone : ∀ old ∈ s.blobs, old.contentHash ≠ sha256 content := by
      simpa [getBlobByContentHash] using hfind
    refine ⟨touched_of_key rfl rfl rfl, fun row => List.mem_append_left _, fun row hrow => ?_,
      fun c hc => ?_, fun hi => ?_⟩
    · rcases List.mem_append.mp hrow with hold | hnew
      · exact .inl hold
      · obtain rfl := List.mem_singleton.mp hnew
        exact .inr ⟨List.mem_cons_self, hnone, content, List.mem_singleton_self _, rfl⟩
    · obtain rfl := List.mem_singleton.mp hc
      exact ⟨_, List.mem_append_right _ (List.mem_singleton_self _), rfl⟩
    · constructor
      · intro row hrow
        rcases List.mem_append.mp hrow with hold | hnew
        · exact Inner.hasBytes_update (hi.bytes row hold) (Nat.ne_of_lt (hi.fresh row hold)) _
        · obtain rfl := List.mem_singleton.mp hnew
          exact ⟨content, Function.update_self _ _ _, rfl, rfl⟩
      · intro row hrow
        rcases List.mem_append.mp hrow with hold | hnew
        · exact Nat.lt_succ_of_lt (hi.fresh row hold)
        · obtain rfl := List.mem_singleton.mp hnew
          exact Nat.lt_succ_self _
      · exact ((grown_skipWritten s).inner hi).drawn
      · intro key hkey
        rcases List.mem_cons.mp hkey with rfl | hold
        · exact .inl ⟨_, List.mem_append_right _ (List.mem_singleton_self _), rfl⟩
        · have hne : key ≠ s.nextId := Nat.ne_of_lt (hi.drawn key hold)
          rcases hi.noOrphans key hold with ⟨row, hrow, heq⟩ | hnofile
          · exact .inl ⟨row, List.mem_append_left _ hrow, heq⟩
          · exact .inr ((Function.update_of_ne hne _ _).trans hnofile)
  · have hmem : row ∈ s.blobs := List.mem_of_find?_eq_some hfind
    have hhash : row.contentHash = sha256 content := by simpa using List.find?_some hfind
    refine ⟨touched_of_key rfl rfl rfl, fun _ => id, fun _ => .inl, fun c hc => ?_, fun hi => ?_⟩
    · obtain rfl := List.mem_singleton.mp hc
      exact ⟨row, hmem, hhash⟩
    · rw [if_neg (Nat.ne_of_lt (hi.fresh row hmem))]
      have hskip : Grown sha256 [] s.skipWritten { s.skipWritten with
          mailAttachments := s.mailAttachments ++ [⟨messageItemId, row.id, content.length⟩] } :=
        grown_of_same rfl rfl rfl (Nat.le_refl _)
      exact hskip.inner ((grown_skipWritten s).inner hi)

/-! ## A pass -/

abbrev stored (attachment : ClassifiedAttachment × Faults) : Option Bytes :=
  (ends attachment).toOption.join

structure Stores (sha256 : Bytes → String) (contents : Store → List Bytes) (fails : Store → Prop)
    (x : Tx Store MailError Unit) : Prop where
  grown : ∀ s, ¬fails s → ∃ s', x.run s = (.ok (), s') ∧ Grown sha256 (contents s) s s' ∧
    s'.emails = s.emails
  error : ∀ s, fails s → ∃ e s', x.run s = (.error e, s') ∧ Touched s s'

theorem stores_ingestAttachment (messageItemId : ℕ) (attachment : ClassifiedAttachment × Faults) :
    Stores sha256 (fun _ => (stored attachment).toList) (fun _ => ends attachment = .error ())
      (ingestAttachment sha256 messageItemId attachment) where
  grown s hok := by
    rcases run_ingestAttachment messageItemId attachment s with
      ⟨content, hends, h⟩ | ⟨hends, s₁, h, hs₁⟩ | ⟨hends, -⟩
    · refine ⟨_, h, ?_⟩
      simp only [stored, hends]
      refine ⟨grown_ingest messageItemId content s, ?_⟩
      simp only [Store.ingest]
      split <;> rfl
    · refine ⟨s₁, h, ?_⟩
      simp only [stored, hends]
      rcases hs₁ with rfl | rfl
      · exact ⟨grown_of_same rfl rfl rfl (Nat.le_succ _), rfl⟩
      · exact ⟨grown_skipWritten s, rfl⟩
    · exact absurd hends hok
  error s hfails := by
    rcases run_ingestAttachment messageItemId attachment s with
      ⟨content, hends, -⟩ | ⟨hends, -⟩ | ⟨-, h⟩
    · exact absurd (hends.symm.trans hfails) nofun
    · exact absurd (hends.symm.trans hfails) nofun
    · exact h

theorem stores_ingestAttachments (messageItemId : ℕ)
    (attachments : List (ClassifiedAttachment × Faults)) :
    Stores sha256 (fun _ => attachments.filterMap stored)
      (fun _ => ∃ attachment ∈ attachments, ends attachment = .error ())
      (ingestAttachments sha256 messageItemId attachments) := by
  induction attachments with
  | nil => exact ⟨fun s _ => ⟨s, rfl, .refl s, rfl⟩, fun s hfails => by simp at hfails⟩
  | cons attachment attachments ih =>
    have hfirst : Stores sha256 (fun _ => (stored attachment).toList) _ _ :=
      stores_ingestAttachment messageItemId attachment
    have hcons : ingestAttachments sha256 messageItemId (attachment :: attachments) =
        ingestAttachment sha256 messageItemId attachment >>= fun _ =>
          ingestAttachments sha256 messageItemId attachments := List.forM_cons ..
    have happend : (attachment :: attachments).filterMap stored =
        (stored attachment).toList ++ attachments.filterMap stored := by
      rcases h : stored attachment <;> simp [h]
    rw [hcons]
    constructor
    · intro s hok
      simp only [List.mem_cons, exists_eq_or_imp, not_or] at hok
      obtain ⟨s₁, h₁, hgrown₁, hemails₁⟩ := hfirst.grown s hok.1
      obtain ⟨s₂, h₂, hgrown₂, hemails₂⟩ := ih.grown s₁ hok.2
      refine ⟨s₂, by rw [Tx.run_bind, h₁]; exact h₂, ?_, hemails₂.trans hemails₁⟩
      rw [happend]
      exact hgrown₁.trans hgrown₂
    · intro s hfails
      simp only [List.mem_cons, exists_eq_or_imp] at hfails
      by_cases hends : ends attachment = .error ()
      · obtain ⟨e, s₁, h₁, htouched⟩ := hfirst.error s hends
        exact ⟨e, s₁, by rw [Tx.run_bind, h₁], htouched⟩
      · obtain ⟨s₁, h₁, hgrown₁, -⟩ := hfirst.grown s hends
        obtain ⟨e, s₂, h₂, htouched⟩ := ih.error s₁ (hfails.resolve_left hends)
        exact ⟨e, s₂, by rw [Tx.run_bind, h₁]; exact h₂, hgrown₁.touched.trans htouched⟩

theorem run_ingestEmailMessage_known {message : FetchedMessage} (s : Store)
    (h : message.messageId ∈ known s) :
    (ingestEmailMessage sha256 message).run s = (.ok (), s) := by
  have hany : (s.emails.any fun email => email.2 = message.messageId) = true := by
    obtain ⟨email, hemail, heq⟩ := List.mem_map.mp h
    exact List.any_eq_true.mpr ⟨email, hemail, by simpa using heq⟩
  simp [ingestEmailMessage, Tx.run_gets_bind, hany]

abbrev Store.addEmail (s : Store) (messageId : String) : Store :=
  { s with nextId := s.nextId + 1, emails := s.emails ++ [(s.nextId, messageId)] }

theorem known_any {message : FetchedMessage} {s : Store} (hnew : message.messageId ∉ known s) :
    (s.emails.any fun email => email.2 = message.messageId) = false := by
  rw [List.any_eq_false]
  exact fun email hemail heq => hnew (List.mem_map.mpr ⟨email, hemail, by simpa using heq⟩)

theorem run_ingestEmailMessage_eq {message : FetchedMessage} {s : Store}
    (hnew : message.messageId ∉ known s) (hbefore : message.failsBefore = false) :
    (ingestEmailMessage sha256 message).run s =
      (ingestAttachments sha256 s.nextId message.attachments >>= fun _ =>
        if message.failsAfter then Tx.throw .other else pure ()).run
          (s.addEmail message.messageId) := by
  simp [ingestEmailMessage, known_any hnew, hbefore, randomUUID, Tx.run_bind]

theorem run_ingestEmailMessage_new {message : FetchedMessage} (s : Store)
    (hnew : message.messageId ∉ known s) :
    (message.Succeeds → ∃ s', (ingestEmailMessage sha256 message).run s = (.ok (), s') ∧
      Grown sha256 message.stored s s' ∧ known s' = known s ++ [message.messageId]) ∧
    (¬message.Succeeds → ∃ e s', (ingestEmailMessage sha256 message).run s = (.error e, s') ∧
      Touched s s') := by
  rcases hbefore : message.failsBefore
  · let s₁ : Store := s.addEmail message.messageId
    have hdrawn : Grown sha256 [] s s₁ := grown_of_same rfl rfl rfl (Nat.le_succ _)
    have hstores : Stores sha256 (fun _ => message.stored) _ _ :=
      stores_ingestAttachments s.nextId message.attachments
    rw [run_ingestEmailMessage_eq hnew hbefore]
    by_cases hends : ∃ attachment ∈ message.attachments, ends attachment = .error ()
    · obtain ⟨e, s₂, h₂, htouched⟩ := hstores.error s₁ hends
      refine ⟨fun hsucceeds => ?_, fun _ => ⟨e, s₂, by rw [Tx.run_bind, h₂],
        hdrawn.touched.trans htouched⟩⟩
      obtain ⟨attachment, hmem, heq⟩ := hends
      exact absurd heq (hsucceeds.2.2 attachment hmem)
    · obtain ⟨s₂, h₂, hgrown, hemails⟩ := hstores.grown s₁ hends
      have hgrown := hdrawn.trans hgrown
      rw [Tx.run_bind, h₂]
      rcases hafter : message.failsAfter
      · refine ⟨fun _ => ⟨s₂, rfl, hgrown, by simp [known, hemails, s₁]⟩, fun hnot => ?_⟩
        exact absurd ⟨hbefore, hafter, fun a ha he => hends ⟨a, ha, he⟩⟩ hnot
      · refine ⟨fun hsucceeds => ?_, fun _ => ⟨.other, s₂, rfl, hgrown.touched⟩⟩
        exact absurd hsucceeds.2.1 (by simp [hafter])
  · refine ⟨fun hsucceeds => absurd hsucceeds.1 (by simp [hbefore]), fun _ => ⟨.other, s, ?_, .refl s⟩⟩
    simp [ingestEmailMessage, Tx.run_gets_bind, known_any hnew, hbefore]

theorem run_messages : ∀ (messages : List FetchedMessage) (s : Store),
    ((∀ message ∈ ingested (known s) messages, message.Succeeds) →
      ∃ s', (forM messages (ingestEmailMessage sha256)).run s = (.ok (), s') ∧
        Grown sha256 ((ingested (known s) messages).flatMap FetchedMessage.stored) s s') ∧
    (¬(∀ message ∈ ingested (known s) messages, message.Succeeds) →
      ∃ e s', (forM messages (ingestEmailMessage sha256)).run s = (.error e, s') ∧ Touched s s')
  | [], s => ⟨fun _ => ⟨s, rfl, .refl s⟩, fun hnot => by simp [ingested] at hnot⟩
  | message :: messages, s => by
    rw [List.forM_cons, Tx.run_bind]
    by_cases hknown : message.messageId ∈ known s
    · rw [run_ingestEmailMessage_known s hknown, ingested, if_pos hknown]
      exact run_messages messages s
    · obtain ⟨hok, herror⟩ := @run_ingestEmailMessage_new sha256 message s hknown
      rw [ingested, if_neg hknown]
      by_cases hsucceeds : message.Succeeds
      · obtain ⟨s₁, h₁, hgrown₁, hids⟩ := hok hsucceeds
        obtain ⟨hok₂, herror₂⟩ := run_messages messages s₁
        rw [hids] at hok₂ herror₂
        rw [h₁]
        simp only [List.mem_cons, forall_eq_or_imp, hsucceeds, true_and, List.flatMap_cons]
        refine ⟨fun hall => ?_, fun hnot => ?_⟩
        · obtain ⟨s₂, h₂, hgrown₂⟩ := hok₂ hall
          exact ⟨s₂, h₂, hgrown₁.trans hgrown₂⟩
        · obtain ⟨e, s₂, h₂, htouched⟩ := herror₂ hnot
          exact ⟨e, s₂, h₂, hgrown₁.touched.trans htouched⟩
      · obtain ⟨e, s₁, h₁, htouched⟩ := herror hsucceeds
        rw [h₁]
        exact ⟨fun hall => absurd (hall message List.mem_cons_self) hsucceeds,
          fun _ => ⟨e, s₁, rfl, htouched⟩⟩

/-! ## The clean-up -/

theorem foldl_delete_files (keys : List ℕ) (s : Store) (key : ℕ) :
    (keys.foldl Store.delete s).files key = if key ∈ keys then none else s.files key := by
  induction keys generalizing s with
  | nil => simp
  | cons k keys ih =>
    rw [List.foldl_cons, ih]
    by_cases hmem : key ∈ keys
    · simp [hmem]
    · by_cases heq : key = k
      · simp [heq, Store.delete, Store.putFile]
      · simp [hmem, heq, Store.delete, Store.putFile]

theorem foldl_delete_rest (keys : List ℕ) (s : Store) :
    (keys.foldl Store.delete s).blobs = s.blobs ∧
      (keys.foldl Store.delete s).writtenKeys = s.writtenKeys := by
  induction keys generalizing s with
  | nil => exact ⟨rfl, rfl⟩
  | cons k keys ih => exact ih (s.delete k)

theorem cleanUp_files (s : Store) (key : ℕ) :
    s.cleanUp.files key = if key ∈ s.writtenKeys then none else s.files key :=
  foldl_delete_files s.writtenKeys s key

theorem cleanUp_blobs (s : Store) : s.cleanUp.blobs = s.blobs :=
  (foldl_delete_rest s.writtenKeys s).1

theorem cleanUp_writtenKeys (s : Store) : s.cleanUp.writtenKeys = s.writtenKeys :=
  (foldl_delete_rest s.writtenKeys s).2

theorem Touched.hasBytes_cleanUp {before : Store} (hsound : before.Sound sha256)
    (h : Touched { before with writtenKeys := [] } s) {row : BlobRow} (hrow : row ∈ before.blobs)
    {t : Store} (hfiles : t.files = s.files) (hwritten : t.writtenKeys = s.writtenKeys) :
    t.cleanUp.HasBytes sha256 row := by
  have hkey : row.storageKey ∉ s.writtenKeys := fun hmem => by
    have hfresh := hsound.fresh row hrow
    rcases h.written _ hmem with hnil | ⟨hle, -⟩
    · exact absurd hnil List.not_mem_nil
    · exact absurd hfresh (Nat.not_lt.mpr hle)
  obtain ⟨content, hcontent, hrest⟩ := hsound.bytes row hrow
  refine ⟨content, ?_, hrest⟩
  rw [cleanUp_files, hwritten, if_neg hkey, hfiles, h.files _ hkey]
  exact hcontent

theorem cleanUp_noOrphans (s : Store) : ∀ key ∈ s.cleanUp.writtenKeys, s.cleanUp.files key = none := by
  intro key hkey
  rw [cleanUp_writtenKeys] at hkey
  rw [cleanUp_files, if_pos hkey]

/-- A pass that is rolled back leaves nothing. -/
theorem agrees_rollback {before : Store} (hsound : before.Sound sha256)
    (h : Touched { before with writtenKeys := [] } s) :
    (s.rollback before).cleanUp.Agrees sha256 where
  bytes row hrow := by
    rw [cleanUp_blobs] at hrow
    exact h.hasBytes_cleanUp hsound hrow rfl rfl
  noOrphans key hkey _ := cleanUp_noOrphans _ key hkey

theorem agrees_lost_iff {before : Store} {contents : List Bytes} (hsound : before.Sound sha256)
    (h : Grown sha256 contents { before with writtenKeys := [] } s) : s.cleanUp.Agrees sha256 ↔
      ¬∃ content ∈ contents, ∀ row ∈ before.blobs, row.contentHash ≠ sha256 content := by
  constructor
  · rintro hagrees ⟨content, hcontent, hnew⟩
    obtain ⟨row, hrow, heq⟩ := h.hashed content hcontent
    rcases h.rows row hrow with hold | ⟨hkey, -⟩
    · exact hnew row hold heq
    · obtain ⟨bytes, hbytes, -⟩ := hagrees.bytes row (by rwa [cleanUp_blobs])
      rw [cleanUp_files, if_pos hkey] at hbytes
      exact absurd hbytes nofun
  · intro hnone
    refine ⟨fun row hrow => ?_, fun key hkey _ => cleanUp_noOrphans s key hkey⟩
    rw [cleanUp_blobs] at hrow
    rcases h.rows row hrow with hold | ⟨-, hfresh, content, hcontent, heq⟩
    · exact h.touched.hasBytes_cleanUp hsound hold rfl rfl
    · exact absurd ⟨content, hcontent, fun old hold => heq ▸ hfresh old hold⟩ hnone

/-- The rows and the files agree after every pass but one whose commit took effect unnoticed. -/
theorem agrees_iff (messages : List FetchedMessage) (newCursor : ℕ) (commit : CommitOutcome)
    (before : Store) (hsound : before.Sound sha256) :
    (handleSyncMailAccountTask sha256 messages newCursor commit before).2.Agrees sha256 ↔
      ¬LosesBytes sha256 messages commit before := by
  let s₀ : Store := { before with writtenKeys := [] }
  have hinner : Inner sha256 s₀ := ⟨hsound.bytes, hsound.fresh, nofun, nofun⟩
  obtain ⟨hok, herror⟩ := @run_messages sha256 messages s₀
  rw [handleSyncMailAccountTask, reconcileAccount, Tx.run_bind]
  by_cases hall : ∀ message ∈ ingested (known s₀) messages, message.Succeeds
  · obtain ⟨s, h, hgrown⟩ := hok hall
    have hpass : Grown sha256 _ s₀ { s with cursor := newCursor } :=
      hgrown.trans (grown_of_same rfl rfl rfl (Nat.le_refl _))
    simp only [s₀] at h
    rw [h]
    rcases commit with _ | _ | _
    · have hin := hpass.inner hinner
      refine iff_of_true ⟨hin.bytes, fun key hkey hno => ?_⟩ fun hloses => nomatch hloses.1
      refine (hin.noOrphans key hkey).resolve_left ?_
      rintro ⟨row, hrow, heq⟩
      exact hno row hrow heq
    · exact iff_of_true (agrees_rollback hsound hpass.touched) fun hloses => nomatch hloses.1
    · refine (agrees_lost_iff hsound hpass).trans (not_congr ?_)
      simp only [List.append_nil, List.mem_flatMap]
      constructor
      · rintro ⟨content, ⟨message, hmem, hcontent⟩, hnew⟩
        exact ⟨rfl, hall, message, hmem, content, hcontent, hnew⟩
      · rintro ⟨-, -, message, hmem, content, hcontent, hnew⟩
        exact ⟨content, ⟨message, hmem, hcontent⟩, hnew⟩
  · obtain ⟨e, s, h, htouched⟩ := herror hall
    simp only [s₀] at h
    rw [h]
    exact iff_of_true (agrees_rollback hsound htouched) fun hloses => hall hloses.2.1

def invoice : FetchedMessage :=
  ⟨"<1@mail>", [(⟨false, .ok ⟨[1, 2], none⟩⟩, .none)], false, false⟩

def emptyStore : Store := ⟨[], [], [], 0, fun _ => none, [], 0⟩

theorem emptyStore_sound (sha256 : Bytes → String) : emptyStore.Sound sha256 := ⟨nofun, nofun⟩

/-- An earlier message has a row and its bytes. -/
def oneFile : Store :=
  ⟨[⟨1, 1, "[1, 2]", 2⟩], [⟨7, 1, 2⟩], [(7, "<0@mail>")], 3,
    fun key => if key = 1 then some [1, 2] else none, [], 2⟩

theorem oneFile_sound : oneFile.Sound fun bytes => toString bytes where
  bytes row hrow := by
    obtain rfl := List.mem_singleton.mp hrow
    exact ⟨[1, 2], rfl, rfl, by decide +kernel⟩
  fresh row hrow := by
    obtain rfl := List.mem_singleton.mp hrow
    decide

/-- The answer to the commit is lost, but the message brought nothing new. -/
theorem invoice_agrees : (handleSyncMailAccountTask (fun bytes => toString bytes) [invoice] 4
    .lost oneFile).2.Agrees (fun bytes => toString bytes) := by
  refine (agrees_iff [invoice] 4 .lost oneFile oneFile_sound).mpr ?_
  rintro ⟨-, -, message, hmessage, content, hcontent, hnew⟩
  have hingested : ingested (known oneFile) [invoice] = [invoice] := by
    simp [ingested, known, oneFile, invoice]
  rw [hingested] at hmessage
  obtain rfl := List.mem_singleton.mp hmessage
  have hstored : invoice.stored = [[1, 2]] := by decide +kernel
  rw [hstored] at hcontent
  obtain rfl := List.mem_singleton.mp hcontent
  exact hnew _ (List.mem_singleton_self _) (by decide +kernel)

/-- The commit took effect, and the pass has removed the bytes of the row it made. -/
theorem invoice_lost : ¬∀ (sha256 : Bytes → String) (messages : List FetchedMessage) (newCursor : ℕ)
    (commit : CommitOutcome) (before : Store), before.Sound sha256 →
      (handleSyncMailAccountTask sha256 messages newCursor commit before).2.Agrees sha256 := by
  intro hall
  have hagrees := hall (fun bytes => toString bytes) [invoice] 1 .lost emptyStore (emptyStore_sound _)
  have hrow : (⟨1, 1, "[1, 2]", 2⟩ : BlobRow) ∈ (handleSyncMailAccountTask
      (fun bytes => toString bytes) [invoice] 1 .lost emptyStore).2.blobs := by decide +kernel
  have hfile : (handleSyncMailAccountTask (fun bytes => toString bytes) [invoice] 1 .lost
      emptyStore).2.files 1 = none := by decide +kernel
  obtain ⟨content, hcontent, -⟩ := hagrees.bytes _ hrow
  exact absurd (hfile.symm.trans hcontent) nofun

end MailAttachments

end Semprec
