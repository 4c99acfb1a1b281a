import Semprec.OutboundAddressPolicy
import Mathlib.Tactic.Ring

/-!
# The outbound address policy lets nothing denied through

The groups that `ipv6Groups` reads off the canonical text are those of the address
(`ipv6Groups_eq`), so the prefix that it compares as a text is that of the number
(`embeddedIpv4_eq`), and the block list is asked about the number that counts.
-/

namespace Semprec

namespace OutboundAddressPolicy

open IpAddress

variable {address : List Char} {gs : List ℕ} {n : ℕ}

/-! ## The groups -/

theorem parseInt16_hexText (n : ℕ) : parseInt16 (hexText n) = n := by
  have hall : (hexText n).takeWhile (fun c => (hexDigit c).isSome) = hexText n :=
    List.takeWhile_eq_self_iff.mpr fun c hc => Option.isSome_iff_exists.mpr
      (hexDigit_of_mem_hexText hc)
  rw [parseInt16, hall, hexValue_hexText, Option.getD_some]

theorem map_parseInt16 (gs : List ℕ) : (gs.map hexText).map parseInt16 = gs := by
  rw [List.map_map]
  exact (List.map_congr_left fun n _ => parseInt16_hexText n).trans (List.map_id gs)

theorem ipv6Groups_eq (h : parseIpv6 address = some gs) : ipv6Groups address = gs := by
  have hcanonical : canonicalHostname address = serializeIpv6 gs := by
    rw [canonicalHostname, h]
    rfl
  unfold ipv6Groups
  rw [hcanonical]
  rcases splitDouble_serializeIpv6 gs with hsplit | ⟨before, length, after, hgs, hsplit⟩
  · simp only [hsplit, pieces_joinColons, map_parseInt16]
  · have htail : (splitDouble (joinColons after)).1 = joinColons after := by
      have hafter := splitDouble_joinColons after [] rfl
      rw [List.append_nil] at hafter
      rw [hafter]
    have hlen := (parseIpv6_some h).1
    rw [hgs] at hlen
    simp only [List.length_append, List.length_replicate] at hlen
    have hzeros : 8 - before.length - after.length = length := by omega
    have hzero : parseInt16 ['0'] = 0 := by decide
    rw [hsplit]
    simp only [htail, List.map_append, List.map_replicate, pieces_joinColons, map_parseInt16,
      List.length_map, hzeros, hzero]
    exact hgs.symm

/-! ## The embedded IPv4 address -/

theorem joinNumbers_inj {a b : List ℕ} (ha : a ≠ []) (hb : b ≠ [])
    (h : joinNumbers ':' a = joinNumbers ':' b) : a = b := by
  have hsplit : ∀ {l : List ℕ}, l ≠ [] →
      (joinNumbers ':' l).splitOn ':' = l.map (Nat.toDigits 10) := fun hl =>
    List.splitOn_intercalate ':' (fun text htext hmem => by
      obtain ⟨n, -, rfl⟩ := List.mem_map.mp htext
      have hdigit := Nat.isDigit_of_mem_toDigits (by decide) (by decide) hmem
      exact absurd hdigit (by decide)) (by simpa using hl)
  have hmap := hsplit ha
  rw [h, hsplit hb] at hmap
  have hinj : Function.Injective (Nat.toDigits 10) := fun m n hmn => by
    rw [← Nat.ofDigitChars_ten_toDigits (n := m), hmn, Nat.ofDigitChars_ten_toDigits]
  exact (List.map_injective_iff.mpr hinj hmap).symm

theorem octet_toDigits : ∀ n < 256, octet (Nat.toDigits 10 n) = some n := by
  decide +kernel

theorem ipv4Value_joinNumbers {a b c d : ℕ} (ha : a < 256) (hb : b < 256) (hc : c < 256)
    (hd : d < 256) : ipv4Value (joinNumbers '.' [a, b, c, d]) =
      some (((a * 256 + b) * 256 + c) * 256 + d) := by
  have hsplit : (joinNumbers '.' [a, b, c, d]).splitOn '.' =
      [a, b, c, d].map (Nat.toDigits 10) :=
    List.splitOn_intercalate '.' (fun text htext hmem => by
      obtain ⟨n, -, rfl⟩ := List.mem_map.mp htext
      have hdigit := Nat.isDigit_of_mem_toDigits (by decide) (by decide) hmem
      exact absurd hdigit (by decide)) (by simp)
  simp only [ipv4Value, hsplit, List.map_cons, List.map_nil, octet_toDigits _ ha,
    octet_toDigits _ hb, octet_toDigits _ hc, octet_toDigits _ hd]

/-- The two last groups, taken apart into octets. -/
theorem ipv4Value_halves {g i : ℕ} (hg : g < 65536) (hi : i < 65536) :
    ipv4Value (joinNumbers '.' [g >>> 8, g &&& 0xff, i >>> 8, i &&& 0xff]) =
      some (g * 65536 + i) := by
  have hmask : ∀ x : ℕ, x &&& 0xff = x % 256 := fun x => Nat.and_two_pow_sub_one_eq_mod x 8
  simp only [hmask, Nat.shiftRight_eq_div_pow]
  rw [ipv4Value_joinNumbers (by omega) (by omega) (by omega) (by omega), Option.some.injEq]
  omega

theorem eight_groups : ∀ {gs : List ℕ}, gs.length = 8 →
    ∃ a b c d e f g h, gs = [a, b, c, d, e, f, g, h]
  | [a, b, c, d, e, f, g, h], _ => ⟨a, b, c, d, e, f, g, h, rfl⟩

theorem ipv6Value_eight (a b c d e f : ℕ) {g i : ℕ} (hg : g < 65536) (hi : i < 65536) :
    ipv6Value [a, b, c, d, e, f, g, i] / 2 ^ 32 =
        ((((a * 65536 + b) * 65536 + c) * 65536 + d) * 65536 + e) * 65536 + f ∧
      ipv6Value [a, b, c, d, e, f, g, i] % 2 ^ 32 = g * 65536 + i := by
  simp only [ipv6Value, List.foldl]
  omega

theorem embeddedIpv4_eq (h : parseIpv6 address = some gs) :
    match embedded (ipv6Value gs) with
    | none => embeddedIpv4 address = none
    | some v => ∃ text, embeddedIpv4 address = some text ∧ ipv4Value text = some v := by
  obtain ⟨hlen, hlt⟩ := parseIpv6_some h
  obtain ⟨a, b, c, d, e, f, g, i, rfl⟩ := eight_groups hlen
  simp only [List.forall_mem_cons, List.not_mem_nil, false_implies, implies_true, and_true] at hlt
  obtain ⟨ha, hb, hc, hd, he, hf, hg, hi⟩ := hlt
  obtain ⟨hhigh, hlow⟩ := ipv6Value_eight a b c d e f hg hi
  have htext : ∀ ps : List ℕ, ps ≠ [] →
      (joinNumbers ':' [a, b, c, d, e, f] = joinNumbers ':' ps ↔ [a, b, c, d, e, f] = ps) :=
    fun ps hps => ⟨joinNumbers_inj (by simp) hps, fun h => by rw [h]⟩
  have hmapped : joinNumbers ':' [a, b, c, d, e, f] = "0:0:0:0:0:65535".toList ↔
      ipv6Value [a, b, c, d, e, f, g, i] / 2 ^ 32 = 0xffff := by
    have hconst : "0:0:0:0:0:65535".toList = joinNumbers ':' [0, 0, 0, 0, 0, 65535] := by
      rfl
    rw [hconst, htext _ (by simp), hhigh]
    simp only [List.cons.injEq, and_true]
    omega
  have hnat64 : joinNumbers ':' [a, b, c, d, e, f] = "100:65435:0:0:0:0".toList ↔
      ipv6Value [a, b, c, d, e, f, g, i] / 2 ^ 32 = 0x64ff9b * 2 ^ 64 := by
    have hconst : "100:65435:0:0:0:0".toList = joinNumbers ':' [100, 65435, 0, 0, 0, 0] := by
      rfl
    rw [hconst, htext _ (by simp), hhigh]
    simp only [List.cons.injEq, and_true]
    omega
  have hembedded : embeddedIpv4 address =
      if joinNumbers ':' [a, b, c, d, e, f] ≠ "0:0:0:0:0:65535".toList ∧
        joinNumbers ':' [a, b, c, d, e, f] ≠ "100:65435:0:0:0:0".toList then none
      else some (joinNumbers '.' [g >>> 8, g &&& 0xff, i >>> 8, i &&& 0xff]) := by
    simp only [embeddedIpv4, ipv6Groups_eq h]
    rfl
  by_cases hp : ipv6Value [a, b, c, d, e, f, g, i] / 2 ^ 32 = 0xffff ∨
      ipv6Value [a, b, c, d, e, f, g, i] / 2 ^ 32 = 0x64ff9b * 2 ^ 64
  · have hsome : embedded (ipv6Value [a, b, c, d, e, f, g, i]) = some (g * 65536 + i) := by
      rw [embedded, if_pos hp, hlow]
    rw [hsome, hembedded, if_neg]
    · exact ⟨_, rfl, ipv4Value_halves hg hi⟩
    · rintro ⟨hne, hne'⟩
      exact hp.elim (fun h => hne (hmapped.mpr h)) fun h => hne' (hnat64.mpr h)
  · have hnone : embedded (ipv6Value [a, b, c, d, e, f, g, i]) = none := by
      rw [embedded, if_neg hp]
    rw [hnone, hembedded, if_pos]
    exact ⟨fun h => hp (.inl (hmapped.mp h)), fun h => hp (.inr (hnat64.mp h))⟩

/-! ## The ranges -/

section ranges

variable {subnets : List (String × ℕ)} {family family' : Family}

/-- Where the ranges begin, and how many addresses they hold. -/
def bounds (subnets : List (String × ℕ)) (family : Family) : List (ℕ × ℕ) :=
  subnets.filterMap fun subnet => (addressNumber family subnet.1.toList).map fun base =>
    (base, 2 ^ (family.width - subnet.2))

theorem inRange_iff : InRange subnets family n ↔
    ∃ bound ∈ bounds subnets family, bound.1 ≤ n ∧ n < bound.1 + bound.2 := by
  simp only [InRange, bounds, List.mem_filterMap, Option.map_eq_some_iff]
  constructor
  · rintro ⟨subnet, hmem, base, hbase, hn⟩
    exact ⟨_, ⟨subnet, hmem, base, hbase, rfl⟩, hn⟩
  · rintro ⟨bound, ⟨subnet, hmem, base, hbase, rfl⟩, hn⟩
    exact ⟨subnet, hmem, base, hbase, hn⟩

/-- A range begins at a multiple of its size. -/
def Aligned (subnets : List (String × ℕ)) (family : Family) : Prop :=
  ∀ bound ∈ bounds subnets family, bound.1 % bound.2 = 0

instance : Decidable (Aligned subnets family) := by
  unfold Aligned
  infer_instance

theorem aligned_denied : Aligned DENIED_IPV4_SUBNETS .ipv4 ∧ Aligned DENIED_IPV6_SUBNETS .ipv6 := by
  decide

theorem div_eq_iff_of_aligned {base size : ℕ} (hsize : 0 < size) (h : base % size = 0) :
    n / size = base / size ↔ base ≤ n ∧ n < base + size := by
  have hbase : size * (base / size) = base := Nat.mul_div_cancel' (Nat.dvd_of_mod_eq_zero h)
  rw [Nat.div_eq_iff hsize, Nat.mul_comm, hbase]
  omega

theorem mem_addSubnets {rule : Subnet} : rule ∈ addSubnets subnets family ↔
    ∃ subnet ∈ subnets, ∃ base, addressNumber family subnet.1.toList = some base ∧
      ⟨family, base, subnet.2⟩ = rule := by
  simp only [addSubnets, List.mem_filterMap, Option.map_eq_some_iff]

theorem any_contains (h : Aligned subnets family) :
    (addSubnets subnets family).any (fun rule => rule.contains family n) = true ↔
      InRange subnets family n := by
  have hcontains : ∀ subnet ∈ subnets, ∀ base, addressNumber family subnet.1.toList = some base →
      (Subnet.contains ⟨family, base, subnet.2⟩ family n = true ↔
        base ≤ n ∧ n < base + 2 ^ (family.width - subnet.2)) := by
    intro subnet hmem base hbase
    have haligned := h (base, 2 ^ (family.width - subnet.2))
      (List.mem_filterMap.mpr ⟨subnet, hmem, by rw [hbase]; rfl⟩)
    simp only [Subnet.contains, decide_true, Bool.true_and, decide_eq_true_eq]
    exact div_eq_iff_of_aligned (Nat.two_pow_pos _) haligned
  simp only [List.any_eq_true, mem_addSubnets]
  constructor
  · rintro ⟨rule, ⟨subnet, hmem, base, hbase, rfl⟩, hc⟩
    exact ⟨subnet, hmem, base, hbase, (hcontains subnet hmem base hbase).mp hc⟩
  · rintro ⟨subnet, hmem, base, hbase, hn⟩
    exact ⟨_, ⟨subnet, hmem, base, hbase, rfl⟩, (hcontains subnet hmem base hbase).mpr hn⟩

theorem any_contains_other (hne : family ≠ family') :
    (addSubnets subnets family).any (fun rule => rule.contains family' n) = false := by
  simp only [List.any_eq_false, mem_addSubnets]
  rintro rule ⟨subnet, -, base, -, rfl⟩
  simp [Subnet.contains, hne]

theorem any_denied_ipv4 : deniedAddresses.any (fun rule => rule.contains .ipv4 n) = true ↔
    InRange DENIED_IPV4_SUBNETS .ipv4 n := by
  rw [deniedAddresses, List.any_append, any_contains_other (by decide : Family.ipv6 ≠ .ipv4),
    Bool.or_false, any_contains aligned_denied.1]

theorem any_denied_ipv6 : deniedAddresses.any (fun rule => rule.contains .ipv6 n) = true ↔
    InRange DENIED_IPV6_SUBNETS .ipv6 n := by
  rw [deniedAddresses, List.any_append, any_contains_other (by decide : Family.ipv4 ≠ .ipv6),
    Bool.false_or, any_contains aligned_denied.2]

theorem bounds_denied_ipv6 : bounds DENIED_IPV6_SUBNETS .ipv6 =
    [(0, 1), (1, 1), (0xfc00 * 2 ^ 112, 2 ^ 121), (0xfe80 * 2 ^ 112, 2 ^ 118),
      (0xff00 * 2 ^ 112, 2 ^ 120), (0x20010db8 * 2 ^ 96, 2 ^ 96), (0x100 * 2 ^ 112, 2 ^ 64)] := by
  decide

theorem not_inRange_of_embedded {v : ℕ} (h : embedded n = some v) :
    ¬ InRange DENIED_IPV6_SUBNETS .ipv6 n := by
  rw [inRange_iff, bounds_denied_ipv6]
  unfold embedded at h
  split_ifs at h with hp
  simp only [List.mem_cons, List.not_mem_nil, or_false, exists_eq_or_imp, exists_eq_left]
  omega

end ranges

/-! ## Public addresses -/

section addresses

theorem check_ipv4 (h : ipv4Value address = some n) :
    check deniedAddresses address .ipv4 = true ↔ Denied (.ipv4, n) := by
  have hmapped : embedded (0xffff * 2 ^ 32 + n) = some n := by
    have hlt := ipv4Value_lt h
    have hhigh : (0xffff * 2 ^ 32 + n) / 2 ^ 32 = 0xffff := by omega
    have hlow : (0xffff * 2 ^ 32 + n) % 2 ^ 32 = n := by omega
    rw [embedded, if_pos (.inl hhigh), hlow]
  have hother := not_inRange_of_embedded hmapped
  simp only [check, addressNumber, h, Option.any_some, forms, List.any_cons, List.any_nil,
    Bool.or_false, Bool.or_eq_true, any_denied_ipv4, any_denied_ipv6, hother, or_false]
  rfl

theorem check_ipv6 (h : parseIpv6 address = some gs) (he : embedded (ipv6Value gs) = none) :
    check deniedAddresses address .ipv6 = true ↔ Denied (.ipv6, ipv6Value gs) := by
  have hmapped : ¬ ipv6Value gs / 2 ^ 32 = 0xffff := fun h => by
    rw [embedded, if_pos (.inl h)] at he
    cases he
  simp only [check, addressNumber, h, Option.map_some, Option.any_some, forms, if_neg hmapped,
    List.any_cons, List.any_nil, Bool.or_false, any_denied_ipv6, Denied, he]
  simp

theorem ne_of_mem_bareAddress {c : Char} (h : c ∈ bareAddress address) : c ≠ '%' := by
  unfold bareAddress at h
  simpa using List.mem_takeWhile_imp h

theorem bareAddress_idem (address : List Char) :
    bareAddress (bareAddress address) = bareAddress address :=
  List.takeWhile_eq_self_iff.mpr fun _ hc => by simpa using ne_of_mem_bareAddress hc

theorem isIP_bareAddress (address : List Char) : isIP (bareAddress address) =
    if (ipv4Value (bareAddress address)).isSome then 4
    else if (parseIpv6 (bareAddress address)).isSome then 6 else 0 := by
  have hzone : (bareAddress address).dropWhile (· ≠ '%') = [] :=
    List.dropWhile_eq_nil_iff.mpr fun _ hc => by simpa using ne_of_mem_bareAddress hc
  rw [isIP, bareAddress_idem, hzone]

theorem isPublicAddress_iff (text : String) : isPublicAddress text = true ↔
    ∃ a, addressOf text = some a ∧ ¬ Denied a := by
  unfold isPublicAddress classify addressOf
  simp only [isIP_bareAddress]
  rcases h4 : ipv4Value (bareAddress text.toList) with _ | n
  · rcases h6 : parseIpv6 (bareAddress text.toList) with _ | gs
    · simp
    · have hembedded := embeddedIpv4_eq h6
      rcases he : embedded (ipv6Value gs) with _ | v
      · rw [he] at hembedded
        simp only [Option.isSome_none, Option.isSome_some, hembedded]
        simp [check_ipv6 h6 he, ← Bool.not_eq_true]
      · rw [he] at hembedded
        obtain ⟨embeddedText, htext, hv⟩ := hembedded
        have hdenied : Denied (.ipv6, ipv6Value gs) ↔ Denied (.ipv4, v) := by
          simp [Denied, he, not_inRange_of_embedded he]
        simp only [Option.isSome_none, Option.isSome_some, htext]
        simp [hdenied, check_ipv4 hv, ← Bool.not_eq_true]
  · simp [check_ipv4 h4, ← Bool.not_eq_true]

end addresses

/-! ## Requests -/

section requests

variable {policy : Policy} {dns : Dns} {all : Bool} {host : String} {targets : List String}

theorem createPolicyLookup_ok {entries : List LookupAddress}
    (h : createPolicyLookup policy dns all host = .ok entries) :
    ∃ addresses, dns host = .ok addresses ∧ (∀ entry ∈ entries, entry ∈ addresses) ∧
      ∀ entry ∈ addresses, policy.allowsResolvedAddress entry.address = true := by
  unfold createPolicyLookup at h
  split at h
  · cases h
  · cases h
  · next first addresses hdns =>
    split_ifs at h with hallowed hall
    · cases h
      exact ⟨_, hdns, fun _ hentry => hentry, List.all_eq_true.mp hallowed⟩
    · cases h
      refine ⟨_, hdns, fun entry hentry => ?_, List.all_eq_true.mp hallowed⟩
      exact List.mem_singleton.mp hentry ▸ List.mem_cons_self

theorem createPolicyLookup_refused (h : Refused policy dns host) :
    createPolicyLookup policy dns all host = .error (.notAllowed host) := by
  obtain ⟨-, addresses, hdns, entry, hentry, hdenied⟩ := h
  unfold createPolicyLookup
  rw [hdns]
  rcases addresses with _ | ⟨first, addresses⟩
  · rfl
  · refine if_neg fun hall => ?_
    have hallowed := List.all_eq_true.mp hall entry hentry
    rw [hdenied] at hallowed
    cases hallowed

theorem socketTargets_allowed (hliteral : isIP host.toList ≠ 0 → policy.allowsIpLiteral host = true)
    (h : socketTargets (createPolicyLookup policy dns all) host = .ok targets) :
    ∀ address ∈ targets, Allows policy dns host address := by
  unfold socketTargets at h
  intro address hmem
  unfold Allows
  split_ifs at h ⊢ with hip
  · cases h
    exact ⟨List.mem_singleton.mp hmem, hliteral hip⟩
  · rcases hlookup : createPolicyLookup policy dns all host with e | entries
    · rw [hlookup] at h
      cases h
    · rw [hlookup] at h
      cases h
      obtain ⟨addresses, hdns, hsub, hallowed⟩ := createPolicyLookup_ok hlookup
      obtain ⟨entry, hentry, rfl⟩ := List.mem_map.mp hmem
      exact ⟨hallowed entry (hsub entry hentry), addresses, hdns,
        List.mem_map_of_mem (hsub entry hentry)⟩

theorem socketTargets_refused (h : Refused policy dns host) :
    socketTargets (createPolicyLookup policy dns all) host = .error (.notAllowed host) := by
  rw [socketTargets, if_neg (not_not.mpr h.1), createPolicyLookup_refused h]
  rfl

/-! ### Brackets -/

theorem splitOn_cons {c separator : Char} (h : c ≠ separator) (cs : List Char) :
    ∃ piece pieces, (c :: cs).splitOn separator = (c :: piece) :: pieces := by
  rw [List.splitOn_cons_eq_if_modifyHead, if_neg (by simpa using h)]
  obtain ⟨piece, pieces, hsplit⟩ := List.exists_cons_of_ne_nil (List.splitOn_ne_nil separator cs)
  exact ⟨piece, pieces, by rw [hsplit]; rfl⟩

theorem group_bracket (cs : List Char) : group ('[' :: cs) = none := by
  have hvalue : hexValue 0 ('[' :: cs) = none := rfl
  simp [group, hvalue]

theorem ipv4Value_bracket (cs : List Char) : ipv4Value ('[' :: cs) = none := by
  obtain ⟨piece, pieces, hsplit⟩ := splitOn_cons (by decide : '[' ≠ '.') cs
  have hoctet : octet ('[' :: piece) = none := by
    have hvalue : decimalValue 0 ('[' :: piece) = none := rfl
    simp [octet, hvalue]
  rw [ipv4Value, hsplit, List.map_cons, hoctet]

theorem pieces_bracket (cs : List Char) :
    ∃ piece more, pieces ('[' :: cs) = ('[' :: piece) :: more := by
  rw [pieces, if_neg (by simp)]
  exact splitOn_cons (by decide) cs

theorem groups_bracket (cs : List Char) (more : List (List Char)) :
    groups (('[' :: cs) :: more) = none := by
  cases more with
  | nil => simp [groups, group_bracket, ipv4Value_bracket]
  | cons piece more => simp [groups, group_bracket]

theorem parseIpv6_bracket (cs : List Char) : parseIpv6 ('[' :: cs) = none := by
  rw [parseIpv6, splitDouble_cons (by decide)]
  rcases (splitDouble cs).2 with _ | tail
  · obtain ⟨piece, more, hpieces⟩ := pieces_bracket cs
    simp only [hpieces, groups_bracket]
    rfl
  · obtain ⟨piece, more, hpieces⟩ := pieces_bracket (splitDouble cs).1
    simp only [hpieces, List.mapM_cons, group_bracket]
    rfl

theorem isIP_bracket (cs : List Char) : isIP ('[' :: cs) = 0 := by
  have hbare : bareAddress ('[' :: cs) = '[' :: bareAddress cs := rfl
  rw [isIP, ipv4Value_bracket, hbare, parseIpv6_bracket]
  rfl

theorem stripBrackets_of_isIP (h : isIP host.toList ≠ 0) : stripBrackets host = host := by
  refine if_neg fun ⟨hhead, _⟩ => h ?_
  obtain ⟨cs, hcs⟩ := List.head?_eq_some_iff.mp hhead
  rw [hcs, isIP_bracket]

theorem fetch_ok {undiciFetch : UndiciFetch} {url : Url} {redirects : List Url}
    (h : assertRequestTargetAllowed url policy = .ok ()) :
    fetch undiciFetch policy dns all url redirects =
      undiciFetch .error (createPolicyLookup policy dns all) url redirects := by
  rw [fetch, h]

theorem assertRequestTargetAllowed_ok {url : Url}
    (h : assertRequestTargetAllowed url policy = .ok ()) : url.protocol ∈ policy.protocols ∧
      (isIP (stripBrackets url.hostname).toList ≠ 0 →
        policy.allowsIpLiteral (stripBrackets url.hostname) = true) := by
  unfold assertRequestTargetAllowed at h
  simp only at h
  split_ifs at h with hprotocol hliteral
  refine ⟨hprotocol, fun hip => ?_⟩
  rw [← Bool.not_eq_false]
  exact fun hdenied => hliteral ⟨hip, hdenied⟩

theorem createConnection_ok {options : RequestOptions}
    (h : createConnection policy dns all options = .ok targets) :
    socketTargets (createPolicyLookup policy dns all) (socketHost options) = .ok targets ∧
      (isIP (socketHost options).toList ≠ 0 →
        policy.allowsIpLiteral (socketHost options) = true) := by
  unfold createConnection at h
  simp only at h
  split_ifs at h with hliteral
  refine ⟨h, fun hip => ?_⟩
  by_cases hempty : options.host.getD "" = ""
  · rw [socketHost, if_pos hempty] at hip
    exact absurd (by decide +kernel) hip
  · rw [socketHost, if_neg hempty] at hip ⊢
    have hhost : options.host.getD (options.hostname.getD "") = options.host.getD "" := by
      rcases hhost : options.host with _ | host
      · rw [hhost] at hempty
        exact absurd rfl hempty
      · rfl
    rw [hhost, stripBrackets_of_isIP hip] at hliteral
    rw [← Bool.not_eq_false]
    exact fun hdenied => hliteral ⟨hip, hdenied⟩

theorem airtight {undiciFetch : UndiciFetch} (h : Undici undiciFetch) (policy : Policy) (dns : Dns)
    (all : Bool) : Airtight undiciFetch policy dns all where
  fetched url redirects address hmem := by
    rcases hassert : assertRequestTargetAllowed url policy with e | _
    · rw [fetch, hassert] at hmem
      cases hmem
    · obtain ⟨hprotocol, hliteral⟩ := assertRequestTargetAllowed_ok hassert
      rw [fetch_ok hassert, h.redirected] at hmem
      obtain ⟨targets, htargets, hmem⟩ := h.connects _ _ _ address hmem
      exact ⟨hprotocol, socketTargets_allowed hliteral htargets address hmem⟩
  fetchRefused url redirects hrefused := by
    rcases hassert : assertRequestTargetAllowed url policy with e | _
    · rw [fetch, hassert]
      unfold assertRequestTargetAllowed at hassert
      simp only at hassert
      split_ifs at hassert
      · cases hassert
        rfl
      · cases hassert
        rfl
    · rw [fetch_ok hassert, h.failed _ _ _ _ _ (socketTargets_refused hrefused)]
  connected options targets hconnected := by
    obtain ⟨htargets, hliteral⟩ := createConnection_ok hconnected
    exact socketTargets_allowed hliteral htargets
  connectRefused options hrefused := by
    unfold createConnection
    simp only
    split_ifs
    · exact ⟨_, rfl⟩
    · exact ⟨_, socketTargets_refused hrefused⟩

end requests

/-- Whatever its text, an address is public exactly when its number is; and a client connects only
to what its policy allows. -/
theorem outboundAddressPolicy_airtight (undiciFetch : UndiciFetch) (h : Undici undiciFetch) :
    (∀ text, isPublicAddress text = true ↔ ∃ a, addressOf text = some a ∧ ¬ Denied a) ∧
      ∀ policy dns all, Airtight undiciFetch policy dns all :=
  ⟨isPublicAddress_iff, airtight h⟩

/-- A `fetch` that connects for each of its requests, the first and those that it is redirected to. -/
def fetchEach : UndiciFetch
  | _, lookup, url, [] =>
    match socketTargets lookup (stripBrackets url.hostname) with
    | .error e => ([], .error e)
    | .ok targets => (targets, .ok ())
  | redirect, lookup, url, next :: redirects =>
    match socketTargets lookup (stripBrackets url.hostname) with
    | .error e => ([], .error e)
    | .ok targets =>
      match redirect with
      | .error => (targets, .error .redirect)
      | .follow =>
        let (more, result) := fetchEach redirect lookup next redirects
        (targets ++ more, result)

theorem undici_fetchEach : Undici fetchEach where
  connects redirect lookup url address hmem := by
    unfold fetchEach at hmem
    rcases htargets : socketTargets lookup (stripBrackets url.hostname) with e | targets
    · rw [htargets] at hmem
      cases hmem
    · rw [htargets] at hmem
      exact ⟨targets, rfl, hmem⟩
  redirected lookup url redirects := by
    cases redirects with
    | nil => rfl
    | cons next redirects =>
      unfold fetchEach
      rcases socketTargets lookup (stripBrackets url.hostname) with e | targets <;> rfl
  failed redirect lookup url redirects e he := by
    unfold fetchEach
    cases redirects with
    | nil => simp only [he]
    | cons next redirects => simp only [he]

/-- A name with a public and a private address. -/
def mixedDns : Dns := fun _ => .ok [⟨"93.184.216.34", 4⟩, ⟨"10.0.0.1", 4⟩]

theorem airtight_mixed : Airtight fetchEach PUBLIC_ONLY_POLICY mixedDns true ∧
    fetch fetchEach PUBLIC_ONLY_POLICY mixedDns true ⟨"https:", "mixed.example"⟩ [] =
      ([], .error (.notAllowed "mixed.example")) := by
  have hairtight := (outboundAddressPolicy_airtight fetchEach undici_fetchEach).2 PUBLIC_ONLY_POLICY
    mixedDns true
  have hrefused : Refused PUBLIC_ONLY_POLICY mixedDns "mixed.example" :=
    ⟨by decide +kernel, _, rfl, ⟨"10.0.0.1", 4⟩, by simp, by decide +kernel⟩
  exact ⟨hairtight, hairtight.fetchRefused ⟨"https:", "mixed.example"⟩ [] hrefused⟩

end OutboundAddressPolicy

end Semprec
