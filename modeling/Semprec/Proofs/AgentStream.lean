import Semprec.AgentStream

/-!
# Agent deltas in transit

A payload is read as the message it was published for.  A chunk is small enough whatever its delta,
since the base64 text of a chunk and the uuids stand unescaped in the JSON text, a byte each; and
the chunks of a delta, however they arrive, are its base64 text in pieces.
-/

namespace Semprec

namespace AgentStream

open JsonText (Value escapeChar quote stringify)
open TenantPool (matchesUuidPattern isHexDigit)

variable {ν : Type}

/-! ## Bytes -/

section bytes

theorem decodeUtf8_utf8 (text : List Char) : decodeUtf8 (utf8 text) = some text := by
  have hencode : (utf8 text).toByteArray = text.utf8Encode := rfl
  rw [decodeUtf8, hencode, List.utf8Decode?_utf8Encode]
  rfl

theorem decodeDelta_encodeDelta (numbers : JsNumbers ν) (delta : Value ν) :
    decodeDelta numbers (encodeDelta numbers delta) = some delta := by
  rw [decodeDelta, encodeDelta, Base64.decode_encode, Option.bind_some, decodeUtf8_utf8,
    Option.bind_some, JsonText.parse_stringify]

@[simp]
theorem byteLength_nil : byteLength [] = 0 := rfl

@[simp]
theorem byteLength_cons (c : Char) (text : List Char) :
    byteLength (c :: text) = c.utf8Size + byteLength text := by
  simp [byteLength, utf8]

@[simp]
theorem byteLength_append (s t : List Char) :
    byteLength (s ++ t) = byteLength s + byteLength t := by
  simp [byteLength, utf8]

/-- A character that stands unescaped in a JSON text, as one byte. -/
def Plain (c : Char) : Prop := escapeChar c = [c] ∧ c.utf8Size = 1

theorem plain_of_bounds {c : Char} (hlow : 32 ≤ c.toNat) (hhigh : c.toNat < 127)
    (hquote : c.toNat ≠ 34) (hslash : c.toNat ≠ 92) : Plain c := by
  have hne : ∀ d : Char, c.toNat ≠ d.toNat → c ≠ d := fun d h hd => h (hd ▸ rfl)
  refine ⟨?_, Char.utf8Size_eq_one_iff.mpr ?_⟩
  · unfold escapeChar
    rw [if_neg (not_or.mpr ⟨hne '"' hquote, hne '\\' hslash⟩), if_neg (by omega), if_neg (by omega),
      if_neg (hne '\n' (by change c.toNat ≠ 10; omega)),
      if_neg (hne '\r' (by change c.toNat ≠ 13; omega)),
      if_neg (hne '\t' (by change c.toNat ≠ 9; omega)), if_neg (by omega)]
  · exact UInt32.le_iff_toNat_le.mpr (Nat.le_of_lt hhigh)

theorem byteLength_of_plain {s : List Char} (h : ∀ c ∈ s, Plain c) :
    byteLength s = s.length := by
  induction s with
  | nil => rfl
  | cons c s ih =>
    rw [byteLength_cons, (h c List.mem_cons_self).2,
      ih fun d hd => h d (List.mem_cons_of_mem c hd), List.length_cons, Nat.add_comm]

theorem byteLength_quote {s : List Char} (h : ∀ c ∈ s, Plain c) :
    byteLength (quote s) = s.length + 2 := by
  have hescape : s.flatMap escapeChar = s := by
    induction s with
    | nil => rfl
    | cons c s ih =>
      rw [List.flatMap_cons, (h c List.mem_cons_self).1,
        ih fun d hd => h d (List.mem_cons_of_mem c hd)]
      rfl
  have hmark : ('"').utf8Size = 1 := rfl
  rw [quote, byteLength_cons, byteLength_append, hescape, byteLength_of_plain h, byteLength_cons,
    byteLength_nil, hmark]
  omega

theorem plain_of_isDigit {c : Char} (h : c.isDigit = true) : Plain c := by
  simp only [Char.isDigit, Bool.and_eq_true, decide_eq_true_eq, UInt32.le_iff_toNat_le] at h
  have hlow : 48 ≤ c.toNat := h.1
  have hhigh : c.toNat ≤ 57 := h.2
  exact plain_of_bounds (by omega) (by omega) (by omega) (by omega)

theorem plain_of_isHexDigit {c : Char} (h : isHexDigit c = true) : Plain c := by
  simp only [isHexDigit, Bool.or_eq_true, Bool.and_eq_true, decide_eq_true_eq] at h
  rcases h with (h | ⟨hlow, hhigh⟩) | ⟨hlow, hhigh⟩
  · exact plain_of_isDigit h
  · have hlow : 97 ≤ c.toNat := UInt32.le_iff_toNat_le.mp hlow
    have hhigh : c.toNat ≤ 102 := UInt32.le_iff_toNat_le.mp hhigh
    exact plain_of_bounds (by omega) (by omega) (by omega) (by omega)
  · have hlow : 65 ≤ c.toNat := UInt32.le_iff_toNat_le.mp hlow
    have hhigh : c.toNat ≤ 70 := UInt32.le_iff_toNat_le.mp hhigh
    exact plain_of_bounds (by omega) (by omega) (by omega) (by omega)

theorem Uuid.length (u : Uuid) : u.text.toList.length = 36 := by
  have h := u.valid
  simp only [matchesUuidPattern, Bool.and_eq_true, decide_eq_true_eq] at h
  exact h.1

theorem Uuid.plain (u : Uuid) : ∀ c ∈ u.text.toList, Plain c := by
  intro c hc
  have h := u.valid
  simp only [matchesUuidPattern, Bool.and_eq_true, List.all_eq_true] at h
  obtain ⟨i, hi, rfl⟩ := List.getElem_of_mem hc
  have hi := h.2 (u.text.toList[i], i) (List.mk_mem_zipIdx_iff_getElem?.mpr (by simp [hi]))
  simp only at hi
  split_ifs at hi with hdash
  · rw [of_decide_eq_true hi]
    exact ⟨by decide, rfl⟩
  · exact plain_of_isHexDigit hi

theorem plain_digit : ∀ n < 64, Plain (Base64.digit n) := by
  unfold Plain
  decide

theorem plain_encodeDelta (numbers : JsNumbers ν) (delta : Value ν) :
    ∀ c ∈ encodeDelta numbers delta, Plain c := by
  intro c hc
  rcases Base64.eq_of_mem_encode _ c hc with rfl | ⟨n, hn, rfl⟩
  · exact ⟨by decide, rfl⟩
  · exact plain_digit n hn

theorem byteLength_uuid (u : Uuid) : byteLength (quote u.text.toList) = 38 := by
  rw [byteLength_quote u.plain, u.length]

theorem byteLength_number (numbers : JsNumbers ν) {n : ℕ} (hn : n ≤ 2 ^ 53) :
    byteLength (numbers.text (numbers.ofNat n)) ≤ 16 := by
  rw [numbers.text_ofNat n hn, byteLength_of_plain fun c hc =>
    plain_of_isDigit (Nat.isDigit_of_mem_toDigits (by decide) (by decide) hc)]
  exact (Nat.length_toDigits_le_iff (by decide) (by decide)).mpr (Nat.lt_of_le_of_lt hn (by decide))

end bytes

/-! ## Sizes -/

section sizes
variable (numbers : JsNumbers ν)

theorem byteLength_publishEnveloped (tenantId : Uuid) (json : List Char) :
    byteLength (publishEnveloped (some tenantId) json) = byteLength json + 67 := by
  have htenant : byteLength (quote "tenantId".toList) = 10 := by decide
  have hmessage : byteLength (quote "message".toList) = 9 := by decide
  have hone : ∀ c ∈ ['{', '}', ' ', ':', ','], c.utf8Size = 1 := by simp [Char.utf8Size_eq_one_iff]
  simp only [publishEnveloped, byteLength_cons, byteLength_append, byteLength_nil, byteLength_uuid,
    htenant, hmessage, hone '{' (by simp), hone '}' (by simp), hone ' ' (by simp),
    hone ':' (by simp), hone ',' (by simp)]
  -- The sizes are closed terms, which `omega` would compare by computing them.
  clear htenant hmessage
  omega

/-- A chunk of at most `agentStreamChunkBytes` plain characters is small enough. -/
theorem serializedBytes_piece (agentRunId id : Uuid) {delta : String} {index total : ℕ}
    (hplain : ∀ c ∈ delta.toList, Plain c) (hdelta : delta.toList.length ≤ agentStreamChunkBytes)
    (hindex : index ≤ 2 ^ 53) (htotal : total ≤ 2 ^ 53) :
    serializedBytes numbers (.piece agentRunId.text delta ⟨id.text, index, total⟩) <
      maxAgentStreamNotifyBytes := by
  have hone : ∀ c ∈ ['{', '}', ',', ':'], c.utf8Size = 1 := by simp [Char.utf8Size_eq_one_iff]
  have hkeys : byteLength (quote "type".toList) = 6 ∧
      byteLength (quote "agent_run_delta".toList) = 17 ∧
      byteLength (quote "agentRunId".toList) = 12 ∧ byteLength (quote "delta".toList) = 7 ∧
      byteLength (quote "chunk".toList) = 7 ∧ byteLength (quote "id".toList) = 4 ∧
      byteLength (quote "index".toList) = 7 ∧ byteLength (quote "total".toList) = 7 ∧
      byteLength (quote "encoding".toList) = 10 ∧ byteLength (quote "base64json".toList) = 12 := by
    decide +kernel
  obtain ⟨k1, k2, k3, k4, k5, k6, k7, k8, k9, k10⟩ := hkeys
  have hindexText := byteLength_number numbers hindex
  have htotalText := byteLength_number numbers htotal
  simp only [serializedBytes, AgentStreamMessage.json, AgentStreamMessage.toValue,
    AgentDeltaChunk.toValue, JsonText.stringify, JsonText.fieldsText, byteLength_cons,
    byteLength_append, byteLength_nil, byteLength_uuid, byteLength_quote hplain, k1, k2, k3, k4, k5,
    k6, k7, k8, k9, k10, hone '{' (by simp), hone '}' (by simp), hone ':' (by simp),
    hone ',' (by simp), maxAgentStreamNotifyBytes]
  rw [agentStreamChunkBytes] at hdelta
  omega

end sizes

/-! ## Parsing -/

section parsing
variable (numbers : JsNumbers ν)

theorem parseAgentStreamMessage_whole (agentRunId : Uuid) (delta : Value ν) :
    parseAgentStreamMessage numbers
      ((AgentStreamMessage.whole agentRunId.text delta).toValue numbers) =
        some (.whole agentRunId.text delta) := by
  simp [parseAgentStreamMessage, AgentStreamMessage.toValue, List.lookup_cons, isText, agentRunId.valid]

theorem parseChunk_toValue (id : Uuid) {index total : ℕ} (hindex : index < total)
    (htotal : total ≤ 2 ^ 53) :
    parseChunk numbers [("id", .str id.text), ("index", .num (numbers.ofNat index)),
      ("total", .num (numbers.ofNat total)), ("encoding", .str "base64json")] =
        some ⟨id.text, index, total⟩ := by
  have hpos : 0 < total := by omega
  simp [parseChunk, List.lookup_cons, isText, numbers.toInteger_ofNat index (by omega),
    numbers.toInteger_ofNat total htotal, hindex, hpos]

theorem parseAgentStreamMessage_piece (agentRunId id : Uuid) (delta : String) {index total : ℕ}
    (hindex : index < total) (htotal : total ≤ 2 ^ 53) :
    parseAgentStreamMessage numbers
      ((AgentStreamMessage.piece agentRunId.text delta ⟨id.text, index, total⟩).toValue numbers) =
        some (.piece agentRunId.text delta ⟨id.text, index, total⟩) := by
  simp [parseAgentStreamMessage, AgentStreamMessage.toValue, AgentDeltaChunk.toValue, List.lookup_cons,
    isText, agentRunId.valid, parseChunk_toValue numbers id hindex htotal]

theorem parse_publishEnveloped (tenantId : Uuid) (message : Value ν) :
    JsonText.parse numbers.toNumberFormat (publishEnveloped (some tenantId)
      (stringify numbers.toNumberFormat message)) =
        some (.obj [("tenantId", .str tenantId.text), ("message", message)]) := by
  have hspace : ∀ c ∈ [' '], JsonText.isSpace c = true := by simp [JsonText.isSpace]
  let json := stringify numbers.toNumberFormat message
  let tail := ',' :: ([' '] ++ (quote "message".toList ++ ([' '] ++ ':' :: ([' '] ++
    (json ++ ['}'])))))
  let text := quote "tenantId".toList ++ ([' '] ++ ':' :: ([' '] ++ (quote tenantId.text.toList ++
    tail)))
  have hlong : ∀ q₁ q₂ q₃ : List Char, json.length + 2 ≤ (q₁ ++ ([' '] ++ ':' :: ([' '] ++ (q₂ ++
      ',' :: ([' '] ++ (q₃ ++ ([' '] ++ ':' :: ([' '] ++ (json ++ ['}']))))))))).length := by
    intro q₁ q₂ q₃
    simp only [List.length_append, List.length_cons, List.length_nil]
    omega
  obtain ⟨fuel, hfuel, hjson⟩ : ∃ fuel, text.length = fuel + 2 ∧ json.length ≤ fuel := by
    obtain ⟨n, hn⟩ := Nat.exists_eq_add_of_le
      (hlong (quote "tenantId".toList) (quote tenantId.text.toList) (quote "message".toList))
    exact ⟨json.length + n, hn.trans (Nat.add_right_comm _ _ _), Nat.le_add_right _ _⟩
  have htenant : JsonText.parseField numbers.toNumberFormat (fuel + 3) text =
      some (("tenantId", .str tenantId.text), tail) :=
    JsonText.parseField_quote hspace hspace "tenantId" (JsonText.parseValue_str _ _ _)
  have hread : JsonText.parseField numbers.toNumberFormat (fuel + 2)
      (' ' :: (quote "message".toList ++ ([' '] ++ ':' :: ([' '] ++ (json ++ ['}']))))) =
        some (("message", message), ['}']) := by
    refine (JsonText.parseField_space hspace _ _).trans
      (JsonText.parseField_quote hspace hspace "message" ?_)
    exact JsonText.reads_stringify message (Nat.le_succ_of_le hjson) _
      (JsonText.EndsNumber.cons (by decide))
  have hfields : JsonText.parseFields numbers.toNumberFormat (fuel + 3) tail =
      some ([("message", message)], []) := by
    simp only [tail, JsonText.parseFields, JsonText.skipSpace_cons (c := ',') (by decide)]
    rw [List.singleton_append, hread]
    rfl
  change JsonText.parse numbers.toNumberFormat ('{' :: text) = _
  rw [JsonText.parse, List.length_cons, hfuel, JsonText.parseValue,
    JsonText.skipSpace_cons (by decide)]
  have hhead : JsonText.skipSpace text = text := rfl
  have hquote : text.head? = some '"' := rfl
  simp only [Char.reduceEq, ↓reduceIte, hhead, hquote, Option.some.injEq, htenant, hfields,
    Option.bind_some, Option.map_some]
  rfl

theorem onNotification_publishEnveloped (tenantId : Uuid) {message : AgentStreamMessage ν}
    (hparse : parseAgentStreamMessage numbers (message.toValue numbers) = some message) :
    onNotification numbers (publishEnveloped (some tenantId) (message.json numbers)) =
      some ⟨tenantId.text, message⟩ := by
  rw [onNotification, AgentStreamMessage.json, parse_publishEnveloped, Option.bind_some]
  simp [parseAgentStreamEnvelope, List.lookup_cons, tenantId.valid, hparse]

end parsing

/-! ## Publishing -/

section publishing
variable {numbers : JsNumbers ν}

theorem publishChunks_ok (tenantId : Option Uuid) {chunk : ℕ → AgentStreamMessage ν} :
    ∀ {indices : List ℕ},
      (∀ i ∈ indices, serializedBytes numbers (chunk i) < maxAgentStreamNotifyBytes) →
      publishChunks numbers tenantId chunk indices =
        (indices.map fun i => publishEnveloped tenantId ((chunk i).json numbers), none)
  | [], _ => rfl
  | i :: indices, h => by
    rw [publishChunks, if_neg (by have := h i List.mem_cons_self; omega),
      publishChunks_ok tenantId fun j hj => h j (List.mem_cons_of_mem i hj)]
    rfl

theorem publishAgentRunDelta_whole {tenantId : Option Uuid} {agentRunId id : String}
    {delta : Value ν}
    (h : serializedBytes numbers (.whole agentRunId delta) < maxAgentStreamNotifyBytes) :
    publishAgentRunDelta numbers tenantId agentRunId id (some delta) =
      ([publishEnveloped tenantId ((AgentStreamMessage.whole agentRunId delta).json numbers)],
        none) := by
  rw [publishAgentRunDelta, Option.getD_some, if_pos h]

theorem byteLength_payload (tenantId : Uuid) {message : AgentStreamMessage ν}
    (h : serializedBytes numbers message < maxAgentStreamNotifyBytes) :
    byteLength (publishEnveloped (some tenantId) (message.json numbers)) < notifyPayloadLimit := by
  rw [serializedBytes, maxAgentStreamNotifyBytes] at h
  rw [byteLength_publishEnveloped, notifyPayloadLimit]
  omega

end publishing

/-! ## Delivery -/

section delivery
variable (numbers : JsNumbers ν)

def arrivals (payloads : List (List Char)) (order : List ℕ) : List (AgentStreamMessage ν) :=
  order.filterMap fun i => payloads[i]?.bind fun payload =>
    (onNotification numbers payload).map RealtimeEnvelope.message

def DeliveredWhole (tenantId agentRunId : Uuid) (delta : Value ν) (payloads : List (List Char)) :
    Prop :=
  ∃ payload, payloads = [payload] ∧
    onNotification numbers payload = some ⟨tenantId.text, .whole agentRunId.text delta⟩

/-- Each payload is read as a chunk, and the chunks that arrive, in whatever order and however
often, make the delta once none is missing and nothing before that. -/
def DeliveredInPieces (tenantId agentRunId id : Uuid) (delta : Value ν)
    (payloads : List (List Char)) : Prop :=
  (∀ (i : ℕ) (hi : i < payloads.length), ∃ text, onNotification numbers payloads[i] =
    some ⟨tenantId.text, .piece agentRunId.text text ⟨id.text, i, payloads.length⟩⟩) ∧
  ∀ order : List ℕ, reassemble numbers id.text (arrivals numbers payloads order) =
    if ∀ i < payloads.length, i ∈ order then some delta else none

end delivery

section chunks
variable {numbers : JsNumbers ν} {delta : Value ν}

variable (numbers delta) in
def chunkTotal : ℕ := Fragments.count agentStreamChunkBytes (encodeDelta numbers delta).length

variable (numbers delta) in
def chunkAt (agentRunId id : Uuid) (i : ℕ) : AgentStreamMessage ν :=
  deltaChunk agentRunId.text id.text (encodeDelta numbers delta) (chunkTotal numbers delta) i

variable (numbers delta) in
def chunkPayloads (tenantId agentRunId id : Uuid) : List (List Char) :=
  (List.range (chunkTotal numbers delta)).map fun i =>
    publishEnveloped (some tenantId) ((chunkAt numbers delta agentRunId id i).json numbers)

theorem chunkTotal_pos (numbers : JsNumbers ν) (delta : Value ν) :
    0 < chunkTotal numbers delta := by
  obtain ⟨c, text, htext, -⟩ := JsonText.head_stringify numbers.toNumberFormat delta
  refine Fragments.count_pos (by decide) (List.length_pos_of_ne_nil (Base64.encode_ne_nil ?_))
  rw [htext, utf8, List.flatMap_cons]
  exact List.append_ne_nil_of_left_ne_nil String.utf8EncodeChar_ne_nil _

theorem chunkTotal_le (h : ¬ maxStringLength < (encodeDelta numbers delta).length) :
    chunkTotal numbers delta ≤ 2 ^ 53 :=
  (Fragments.count_le (by decide)).trans ((Nat.le_of_not_lt h).trans (Nat.sub_le _ _))

theorem serializedBytes_chunkAt (agentRunId id : Uuid) {i : ℕ} (hi : i < chunkTotal numbers delta)
    (htotal : chunkTotal numbers delta ≤ 2 ^ 53) :
    serializedBytes numbers (chunkAt numbers delta agentRunId id i) <
      maxAgentStreamNotifyBytes := by
  refine serializedBytes_piece numbers agentRunId id ?_ ?_ (hi.le.trans htotal) htotal
  · rw [String.toList_ofList]
    exact fun c hc => plain_encodeDelta numbers delta c (Fragments.mem_of_mem_fragment hc)
  · rw [String.toList_ofList]
    exact Fragments.length_fragment_le _ _ _

theorem publishAgentRunDelta_chunks (tenantId agentRunId id : Uuid)
    (hwhole : ¬ serializedBytes numbers (.whole agentRunId.text delta) < maxAgentStreamNotifyBytes)
    (hlength : ¬ maxStringLength < (encodeDelta numbers delta).length) :
    publishAgentRunDelta numbers (some tenantId) agentRunId.text id.text (some delta) =
      (chunkPayloads numbers delta tenantId agentRunId id, none) := by
  simp only [publishAgentRunDelta, Option.getD_some, if_neg hwhole, if_neg hlength]
  exact publishChunks_ok (some tenantId) fun i hi =>
    serializedBytes_chunkAt agentRunId id (List.mem_range.mp hi) (chunkTotal_le hlength)

theorem onNotification_chunkAt (tenantId agentRunId id : Uuid) {i : ℕ}
    (hi : i < chunkTotal numbers delta) (htotal : chunkTotal numbers delta ≤ 2 ^ 53) :
    onNotification numbers
      (publishEnveloped (some tenantId) ((chunkAt numbers delta agentRunId id i).json numbers)) =
        some ⟨tenantId.text, chunkAt numbers delta agentRunId id i⟩ :=
  onNotification_publishEnveloped numbers tenantId
    (parseAgentStreamMessage_piece numbers agentRunId id _ hi htotal)

theorem arrivals_chunkPayloads (tenantId agentRunId id : Uuid)
    (htotal : chunkTotal numbers delta ≤ 2 ^ 53) (order : List ℕ) :
    arrivals numbers (chunkPayloads numbers delta tenantId agentRunId id) order =
      order.filterMap fun i =>
        if i < chunkTotal numbers delta then some (chunkAt numbers delta agentRunId id i)
        else none := by
  refine List.filterMap_congr fun i _ => ?_
  split_ifs with hi
  · simp [chunkPayloads, hi, onNotification_chunkAt tenantId agentRunId id hi htotal]
  · simp [chunkPayloads, hi]

theorem reassemble_chunks (agentRunId id : Uuid) (order : List ℕ) :
    reassemble numbers id.text (order.filterMap fun i =>
      if i < chunkTotal numbers delta then some (chunkAt numbers delta agentRunId id i)
      else none) = if ∀ i < chunkTotal numbers delta, i ∈ order then some delta else none := by
  let total := chunkTotal numbers delta
  have htotal : 0 < total := chunkTotal_pos numbers delta
  let text := fun i =>
    String.ofList (Fragments.fragment agentStreamChunkBytes i (encodeDelta numbers delta))
  let pieces := order.filterMap fun i =>
    if i < total then some (AgentDeltaChunk.mk id.text i total, text i) else none
  have htaken : (order.filterMap fun i =>
      if i < total then some (chunkAt numbers delta agentRunId id i) else none).filterMap
        (AgentStreamMessage.pieceOf id.text) = pieces := by
    rw [List.filterMap_filterMap]
    refine List.filterMap_congr fun i _ => ?_
    split_ifs <;> simp [chunkAt, deltaChunk, AgentStreamMessage.pieceOf, text, total]
  have hindexed : pieces.map (fun p => (p.1.index, p.2)) =
      order.filterMap fun i => if i < total then some (i, text i) else none := by
    rw [List.map_filterMap]
    refine List.filterMap_congr fun i _ => ?_
    split_ifs <;> rfl
  have htexts : ((List.range total).map text).flatMap String.toList =
      encodeDelta numbers delta := by
    rw [List.flatMap_map]
    simp only [text, String.toList_ofList]
    exact Fragments.flatMap_fragments (by decide) (encodeDelta numbers delta)
  rw [reassemble, htaken]
  rcases hfirst : pieces.head? with _ | first
  · have hnone : pieces = [] := List.head?_eq_none_iff.mp hfirst
    have hmissing : 0 ∉ order := fun h => by
      have hmem : (AgentDeltaChunk.mk id.text 0 total, text 0) ∈ pieces :=
        List.mem_filterMap.mpr ⟨0, h, if_pos htotal⟩
      simp [hnone] at hmem
    rw [if_neg fun hall => hmissing (hall 0 htotal)]
    rfl
  · have hfirst : first.1.total = total := by
      obtain ⟨i, -, hi⟩ := List.mem_filterMap.mp (List.mem_of_mem_head? hfirst)
      split_ifs at hi
      cases hi
      rfl
    rw [Option.bind_some, hfirst, hindexed, Fragments.gather_filterMap]
    split_ifs
    · rw [Option.bind_some, htexts, decodeDelta_encodeDelta]
    · rfl

theorem deliveredInPieces (tenantId agentRunId id : Uuid)
    (htotal : chunkTotal numbers delta ≤ 2 ^ 53) :
    DeliveredInPieces numbers tenantId agentRunId id delta
      (chunkPayloads numbers delta tenantId agentRunId id) := by
  have hcount : (chunkPayloads numbers delta tenantId agentRunId id).length =
      chunkTotal numbers delta := by
    rw [chunkPayloads, List.length_map, List.length_range]
  refine ⟨fun i hi => ?_, fun order => ?_⟩
  · rw [hcount] at hi
    simp only [chunkPayloads, List.getElem_map, List.getElem_range, List.length_map,
      List.length_range, onNotification_chunkAt tenantId agentRunId id hi htotal]
    exact ⟨_, rfl⟩
  · rw [arrivals_chunkPayloads tenantId agentRunId id htotal, reassemble_chunks, hcount]

/-- A delta whose message is small enough is sent whole, and any other in chunks; unless its base64
text is longer than a string can be, every payload fits, and the delta arrives. -/
theorem publishAgentRunDelta_delivered (numbers : JsNumbers ν) (tenantId agentRunId id : Uuid)
    (delta : Value ν) :
    (maxStringLength < (encodeDelta numbers delta).length ∧
      publishAgentRunDelta numbers (some tenantId) agentRunId.text id.text (some delta) =
        ([], some .invalidStringLength)) ∨
    ∃ payloads, publishAgentRunDelta numbers (some tenantId) agentRunId.text id.text (some delta) =
        (payloads, none) ∧
      (∀ payload ∈ payloads, byteLength payload < notifyPayloadLimit) ∧
      if serializedBytes numbers (.whole agentRunId.text delta) < maxAgentStreamNotifyBytes then
        DeliveredWhole numbers tenantId agentRunId delta payloads
      else DeliveredInPieces numbers tenantId agentRunId id delta payloads := by
  by_cases hwhole :
    serializedBytes numbers (.whole agentRunId.text delta) < maxAgentStreamNotifyBytes
  · refine Or.inr ⟨_, publishAgentRunDelta_whole hwhole, ?_, ?_⟩
    · simpa using byteLength_payload tenantId hwhole
    · rw [if_pos hwhole]
      exact ⟨_, rfl, onNotification_publishEnveloped numbers tenantId
        (parseAgentStreamMessage_whole numbers agentRunId delta)⟩
  by_cases hlength : maxStringLength < (encodeDelta numbers delta).length
  · refine Or.inl ⟨hlength, ?_⟩
    simp only [publishAgentRunDelta, Option.getD_some, if_neg hwhole, if_pos hlength]
  · have htotal := chunkTotal_le hlength
    refine Or.inr ⟨_, publishAgentRunDelta_chunks tenantId agentRunId id hwhole hlength, ?_, ?_⟩
    · intro payload hpayload
      obtain ⟨i, hi, rfl⟩ := List.mem_map.mp hpayload
      exact byteLength_payload tenantId
        (serializedBytes_chunkAt agentRunId id (List.mem_range.mp hi) htotal)
    · rw [if_neg hwhole]
      exact deliveredInPieces tenantId agentRunId id htotal

end chunks

/-! ## A delta that is sent whole -/

section whole

def natNumbers : JsNumbers ℕ where
  text n := Nat.toDigits 10 n
  read text := some (Nat.ofDigitChars 10 text 0)
  text_ne_nil := JsonText.digits_ne_nil
  isNumberChar_text := JsonText.isNumberChar_digits
  read_text := JsonText.read_digits
  ofNat n := n
  toInteger n := some n
  text_ofNat _ _ := rfl
  toInteger_ofNat _ _ := rfl

def zeroUuid : Uuid := ⟨"00000000-0000-0000-0000-000000000000", by decide +kernel⟩

def ParsesAsChunk (numbers : JsNumbers ν) (payload : List Char) : Prop :=
  ∃ tenantId agentRunId text chunk,
    onNotification numbers payload = some ⟨tenantId, .piece agentRunId text chunk⟩

theorem null_sentWhole : ¬ ∀ (tenantId agentRunId id : Uuid) (delta : Value ℕ),
    ∀ payload ∈ (publishAgentRunDelta natNumbers (some tenantId) agentRunId.text id.text
      (some delta)).1, ParsesAsChunk natNumbers payload := by
  intro hall
  have hsmall : serializedBytes natNumbers (.whole zeroUuid.text .null) <
      maxAgentStreamNotifyBytes := by decide +kernel
  have hpayload := hall zeroUuid zeroUuid zeroUuid .null
  rw [publishAgentRunDelta_whole hsmall] at hpayload
  obtain ⟨t, r, text, chunk, hchunk⟩ := hpayload _ List.mem_cons_self
  rw [onNotification_publishEnveloped natNumbers zeroUuid
    (parseAgentStreamMessage_whole natNumbers zeroUuid .null)] at hchunk
  cases hchunk

end whole

end AgentStream

end Semprec
