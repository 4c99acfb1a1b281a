import Mathlib.Algebra.Group.Nat.Defs
import Mathlib.Data.List.Basic
import Mathlib.Data.List.TakeWhile

/-!
# IP addresses and their texts

An IPv4 address is a number below `2^32`, an IPv6 address eight groups of 16 bits.  The texts are
those of `inet_pton`: four decimal octets without leading zeros; up to eight groups of one to four
hexadecimal digits, the last two of which may be an IPv4 address, with `::` once for at least one
group of zeros.
-/

namespace Semprec

namespace IpAddress

/-! ## Digits -/

/-- `0` to `9`, `a` to `f` and `A` to `F`. -/
@[grind =] def hexDigit (c : Char) : Option ℕ :=
  let n := c.toNat
  if 48 ≤ n ∧ n ≤ 57 then some (n - 48)
  else if 97 ≤ n ∧ n ≤ 102 then some (n - 87)
  else if 65 ≤ n ∧ n ≤ 70 then some (n - 55)
  else none

def hexValue (acc : ℕ) : List Char → Option ℕ
  | [] => some acc
  | c :: cs => (hexDigit c).bind fun d => hexValue (acc * 16 + d) cs

def decimalValue (acc : ℕ) : List Char → Option ℕ
  | [] => some acc
  | c :: cs => if c.isDigit then decimalValue (acc * 10 + (c.toNat - '0'.toNat)) cs else none

/-! ## Texts -/

def octet (text : List Char) : Option ℕ :=
  if text = [] ∨ (1 < text.length ∧ text.head? = some '0') then none
  else (decimalValue 0 text).filter (· < 256)

def ipv4Value (text : List Char) : Option ℕ :=
  match (text.splitOn '.').map octet with
  | [some a, some b, some c, some d] => some (((a * 256 + b) * 256 + c) * 256 + d)
  | _ => none

def group (text : List Char) : Option ℕ :=
  if 1 ≤ text.length ∧ text.length ≤ 4 then hexValue 0 text else none

def groups : List (List Char) → Option (List ℕ)
  | [] => some []
  | [last] =>
    match group last with
    | some g => some [g]
    | none => (ipv4Value last).map fun v => [v / 65536, v % 65536]
  | piece :: pieces => (group piece).bind fun g => (groups pieces).map (g :: ·)

/-- What stands before the first `::`, and what after it. -/
def splitDouble : List Char → List Char × Option (List Char)
  | [] => ([], none)
  | ':' :: ':' :: rest => ([], some rest)
  | c :: rest => ((c :: (splitDouble rest).1), (splitDouble rest).2)

@[grind =]
def pieces (text : List Char) : List (List Char) := if text = [] then [] else text.splitOn ':'

def parseIpv6 (text : List Char) : Option (List ℕ) :=
  match splitDouble text with
  | (_, none) => (groups (pieces text)).filter fun gs => gs.length = 8
  | (head, some tail) =>
    ((pieces head).mapM group).bind fun hs => (groups (pieces tail)).bind fun ts =>
      if hs.length + ts.length ≤ 7 then
        some (hs ++ List.replicate (8 - hs.length - ts.length) 0 ++ ts)
      else none

def ipv6Value (groups : List ℕ) : ℕ := groups.foldl (fun acc g => acc * 65536 + g) 0

/-! ## The canonical text -/

def hexText (n : ℕ) : List Char := Nat.toDigits 16 n

def zeroRun (groups : List ℕ) : ℕ := (groups.takeWhile (· = 0)).length

def longestZeros (start : ℕ) : List ℕ → Option (ℕ × ℕ)
  | [] => none
  | g :: gs =>
    let here := zeroRun (g :: gs)
    match longestZeros (start + 1) gs with
    | some (later, length) => if length ≤ here then some (start, here) else some (later, length)
    | none => if 2 ≤ here then some (start, here) else none

def joinColons (groups : List ℕ) : List Char := [':'].intercalate (groups.map hexText)

/-- The text a URL has for a host that is an IPv6 address. -/
@[grind =] def serializeIpv6 (gs : List ℕ) : List Char :=
  match longestZeros 0 gs with
  | none => joinColons gs
  | some (start, length) =>
    joinColons (gs.take start) ++ [':', ':'] ++ joinColons (gs.drop (start + length))

/-! ## Digits read back -/

section digits

theorem hexDigit_digitChar : ∀ d < 16, hexDigit (Nat.digitChar d) = some d := by
  decide

theorem hexValue_append {cs ds : List Char} : ∀ {acc : ℕ},
    hexValue acc (cs ++ ds) = (hexValue acc cs).bind fun v => hexValue v ds := by
  induction cs with
  | nil => intro acc; rfl
  | cons c cs ih =>
    intro acc
    simp only [List.cons_append, hexValue, Option.bind_assoc, ih]

theorem hexValue_hexText (n : ℕ) : hexValue 0 (hexText n) = some n := by
  unfold hexText
  induction n using Nat.strong_induction_on with
  | _ n ih =>
    by_cases hn : n < 16
    · rw [Nat.toDigits_of_lt_base hn, hexValue, hexDigit_digitChar n hn]
      simp [hexValue]
    · rw [Nat.toDigits_of_base_le (by decide) (by omega), hexValue_append, ih (n / 16) (by omega),
        Option.bind_some, hexValue, hexDigit_digitChar _ (by omega)]
      simp only [Option.bind_some, hexValue, Option.some.injEq]
      omega

theorem hexDigit_lt {c : Char} {d : ℕ} (h : hexDigit c = some d) : d < 16 := by
  unfold hexDigit at h
  simp only at h
  split_ifs at h <;> cases h <;> omega

theorem hexValue_lt {cs : List Char} : ∀ {acc v : ℕ}, hexValue acc cs = some v →
    v < (acc + 1) * 16 ^ cs.length := by
  induction cs with
  | nil =>
    intro acc v h
    cases h
    simp
  | cons c cs ih =>
    intro acc v h
    obtain ⟨d, hd, h⟩ := Option.bind_eq_some_iff.mp h
    have hdigit := hexDigit_lt hd
    calc v < (acc * 16 + d + 1) * 16 ^ cs.length := ih h
      _ ≤ ((acc + 1) * 16) * 16 ^ cs.length := Nat.mul_le_mul_right _ (by omega)
      _ = (acc + 1) * 16 ^ (c :: cs).length := by
        rw [List.length_cons, Nat.pow_succ', Nat.mul_assoc]

theorem hexDigit_of_mem_hexText {n : ℕ} {c : Char} (h : c ∈ hexText n) :
    ∃ d, hexDigit c = some d := by
  unfold hexText at h
  induction n using Nat.strong_induction_on with
  | _ n ih =>
    by_cases hn : n < 16
    · rw [Nat.toDigits_of_lt_base hn, List.mem_singleton] at h
      exact ⟨n, h ▸ hexDigit_digitChar n hn⟩
    · rw [Nat.toDigits_of_base_le (by decide) (by omega), List.mem_append,
        List.mem_singleton] at h
      rcases h with h | h
      · exact ih (n / 16) (by omega) h
      · exact ⟨n % 16, h ▸ hexDigit_digitChar _ (by omega)⟩

theorem hexText_ne_nil (n : ℕ) : hexText n ≠ [] := Nat.toDigits_ne_nil

theorem colon_notMem_hexText (n : ℕ) : ':' ∉ hexText n := fun h => by
  obtain ⟨d, hd⟩ := hexDigit_of_mem_hexText h
  cases hd

end digits

/-! ## The canonical text read back -/

section canonical

variable {piece rest : List Char} {gs : List ℕ}

theorem splitDouble_cons {c : Char} (h : c ≠ ':') :
    splitDouble (c :: rest) = (c :: (splitDouble rest).1, (splitDouble rest).2) := by
  rw [splitDouble.eq_def]
  split
  · contradiction
  · next heq => exact absurd (List.cons.inj heq).1 h
  · next heq =>
    obtain ⟨rfl, rfl⟩ := List.cons.inj heq
    rfl

/-- A piece without a colon stays whole. -/
theorem splitDouble_append (h : ':' ∉ piece) : splitDouble (piece ++ rest) =
    (piece ++ (splitDouble rest).1, (splitDouble rest).2) := by
  induction piece with
  | nil => rfl
  | cons c piece ih =>
    have hc : c ≠ ':' := fun hc => h (hc ▸ List.mem_cons_self)
    rw [List.cons_append, splitDouble_cons hc, ih fun hmem => h (List.mem_cons_of_mem c hmem)]
    rfl

/-- A colon before something else is not the first of two. -/
theorem splitDouble_colon {c : Char} (h : c ≠ ':') : splitDouble (':' :: c :: rest) =
    (':' :: (splitDouble (c :: rest)).1, (splitDouble (c :: rest)).2) := by
  rw [splitDouble.eq_def]
  split
  · contradiction
  · next heq =>
    cases heq
    exact absurd rfl h
  · next heq =>
    cases heq
    rfl

theorem joinColons_singleton (g : ℕ) : joinColons [g] = hexText g := by
  simp [joinColons]

theorem joinColons_cons (g g' : ℕ) (gs : List ℕ) :
    joinColons (g :: g' :: gs) = hexText g ++ ':' :: joinColons (g' :: gs) := by
  simp [joinColons, List.intercalate_cons_cons]

theorem head_joinColons (g : ℕ) (gs : List ℕ) :
    ∃ c cs, joinColons (g :: gs) = c :: cs ∧ c ≠ ':' := by
  obtain ⟨c, cs, hc⟩ := List.exists_cons_of_ne_nil (hexText_ne_nil g)
  have hne : c ≠ ':' := fun h => colon_notMem_hexText g (by rw [hc, h]; exact List.mem_cons_self)
  cases gs with
  | nil => exact ⟨c, cs, (joinColons_singleton g).trans hc, hne⟩
  | cons g' gs =>
    rw [joinColons_cons, hc]
    exact ⟨c, _, rfl, hne⟩

theorem splitDouble_joinColons (gs : List ℕ) (rest : List Char) (h : (splitDouble rest).1 = []) :
    splitDouble (joinColons gs ++ rest) = (joinColons gs, (splitDouble rest).2) := by
  induction gs with
  | nil => exact Prod.ext h rfl
  | cons g gs ih =>
    cases gs with
    | nil =>
      rw [joinColons_singleton, splitDouble_append (colon_notMem_hexText g), h, List.append_nil]
    | cons g' gs =>
      obtain ⟨c, cs, hcs, hc⟩ := head_joinColons g' gs
      rw [joinColons_cons, List.append_assoc, splitDouble_append (colon_notMem_hexText g)]
      rw [hcs] at ih ⊢
      simp only [List.cons_append] at ih ⊢
      rw [splitDouble_colon hc, ih]

theorem pieces_joinColons : pieces (joinColons gs) = gs.map hexText := by
  cases gs with
  | nil => rfl
  | cons g gs =>
    obtain ⟨c, cs, hcs, -⟩ := head_joinColons g gs
    have hne : joinColons (g :: gs) ≠ [] := by simp [hcs]
    rw [pieces, if_neg hne]
    refine List.splitOn_intercalate ':' (fun text htext => ?_) (by simp)
    obtain ⟨n, -, rfl⟩ := List.mem_map.mp htext
    exact colon_notMem_hexText n

theorem replicate_zeroRun (gs : List ℕ) :
    List.replicate (zeroRun gs) 0 ++ gs.dropWhile (· = 0) = gs := by
  have hzero : gs.takeWhile (· = 0) = List.replicate (zeroRun gs) 0 :=
    List.eq_replicate_of_mem fun g hg => by simpa using List.mem_takeWhile_imp hg
  rw [← hzero, List.takeWhile_append_dropWhile]

theorem longestZeros_some {start first length : ℕ}
    (h : longestZeros start gs = some (first, length)) :
    ∃ before after, first = start + before.length ∧
      gs = before ++ List.replicate length 0 ++ after := by
  induction gs generalizing start with
  | nil => cases h
  | cons g gs ih =>
    have hrun := (replicate_zeroRun (g :: gs)).symm
    rw [longestZeros] at h
    rcases hlater : longestZeros (start + 1) gs with _ | ⟨later, length'⟩
    · rw [hlater] at h
      simp only at h
      split_ifs at h
      cases h
      exact ⟨[], _, rfl, hrun⟩
    · rw [hlater] at h
      simp only at h
      split_ifs at h
      · cases h
        exact ⟨[], _, rfl, hrun⟩
      · cases h
        obtain ⟨before, after, hfirst, hgs⟩ := ih hlater
        refine ⟨g :: before, after, ?_, by rw [hgs]; rfl⟩
        rw [hfirst, List.length_cons]
        omega

/-- What `::` takes apart in the canonical text are the groups before and after zeros. -/
theorem splitDouble_serializeIpv6 (gs : List ℕ) :
    splitDouble (serializeIpv6 gs) = (joinColons gs, none) ∨
    ∃ before length after, gs = before ++ List.replicate length 0 ++ after ∧
      splitDouble (serializeIpv6 gs) = (joinColons before, some (joinColons after)) := by
  unfold serializeIpv6
  rcases hz : longestZeros 0 gs with _ | ⟨first, length⟩
  · left
    have h := splitDouble_joinColons gs [] rfl
    rwa [List.append_nil] at h
  · right
    obtain ⟨before, after, hfirst, hgs⟩ := longestZeros_some hz
    rw [Nat.zero_add] at hfirst
    refine ⟨before, length, after, hgs, ?_⟩
    have htake : gs.take first = before := by
      rw [hgs, hfirst, List.append_assoc, List.take_left']
      rfl
    have hdrop : gs.drop (first + length) = after := by
      rw [hgs, hfirst, List.drop_left']
      simp
    simp only [htake, hdrop, List.append_assoc]
    exact splitDouble_joinColons _ _ rfl

end canonical

/-! ## What a text can be -/

section parse

theorem group_lt {text : List Char} {g : ℕ} (h : group text = some g) : g < 65536 := by
  unfold group at h
  split_ifs at h with hlen
  have hlt := hexValue_lt h
  calc g < (0 + 1) * 16 ^ text.length := hlt
    _ ≤ (0 + 1) * 16 ^ 4 := Nat.mul_le_mul_left _ (Nat.pow_le_pow_right (by decide) hlen.2)
    _ = 65536 := by decide

theorem octet_lt {text : List Char} {n : ℕ} (h : octet text = some n) : n < 256 := by
  unfold octet at h
  split_ifs at h
  simpa using (Option.filter_eq_some_iff.mp h).2

theorem ipv4Value_lt {text : List Char} {v : ℕ} (h : ipv4Value text = some v) : v < 2 ^ 32 := by
  unfold ipv4Value at h
  split at h
  · next a b c d heq =>
    have hlt : ∀ n, some n ∈ (text.splitOn '.').map octet → n < 256 := by
      intro n hn
      obtain ⟨piece, -, hpiece⟩ := List.mem_map.mp hn
      exact octet_lt hpiece
    rw [heq] at hlt
    have ha := hlt a (by simp)
    have hb := hlt b (by simp)
    have hc := hlt c (by simp)
    have hd := hlt d (by simp)
    cases h
    omega
  · cases h

theorem groups_lt {ps : List (List Char)} : ∀ {gs : List ℕ}, groups ps = some gs →
    ∀ g ∈ gs, g < 65536 := by
  fun_induction groups ps with
  | case1 => simp
  | case2 last g hg =>
    intro gs h
    cases h
    simpa using group_lt hg
  | case3 last hg =>
    intro gs h
    obtain ⟨v, hv, rfl⟩ := Option.map_eq_some_iff.mp h
    have hlt := ipv4Value_lt hv
    simp only [List.mem_cons, List.not_mem_nil, or_false]
    rintro g (rfl | rfl) <;> omega
  | case4 piece ps _ ih =>
    intro gs h
    obtain ⟨g, hg, h⟩ := Option.bind_eq_some_iff.mp h
    obtain ⟨gs', hgs, rfl⟩ := Option.map_eq_some_iff.mp h
    exact List.forall_mem_cons.mpr ⟨group_lt hg, ih hgs⟩

theorem mapM_group_lt {ps : List (List Char)} : ∀ {gs : List ℕ}, ps.mapM group = some gs →
    ∀ g ∈ gs, g < 65536 := by
  induction ps with
  | nil =>
    intro gs h
    cases h
    simp
  | cons piece ps ih =>
    intro gs h
    rw [List.mapM_cons] at h
    obtain ⟨g, hg, h⟩ := Option.bind_eq_some_iff.mp h
    obtain ⟨gs', hgs, h⟩ := Option.bind_eq_some_iff.mp h
    cases h
    exact List.forall_mem_cons.mpr ⟨group_lt hg, ih hgs⟩

theorem parseIpv6_some {text : List Char} {gs : List ℕ} (h : parseIpv6 text = some gs) :
    gs.length = 8 ∧ ∀ g ∈ gs, g < 65536 := by
  unfold parseIpv6 at h
  split at h
  · obtain ⟨hgs, hlen⟩ := Option.filter_eq_some_iff.mp h
    exact ⟨by simpa using hlen, groups_lt hgs⟩
  · obtain ⟨hs, hhs, h⟩ := Option.bind_eq_some_iff.mp h
    obtain ⟨ts, hts, h⟩ := Option.bind_eq_some_iff.mp h
    split_ifs at h with hlen
    cases h
    refine ⟨?_, fun g hg => ?_⟩
    · simp only [List.length_append, List.length_replicate]
      omega
    · simp only [List.mem_append, List.mem_replicate] at hg
      rcases hg with (hg | ⟨-, rfl⟩) | hg
      · exact mapM_group_lt hhs g hg
      · decide
      · exact groups_lt hts g hg

end parse

end IpAddress

end Semprec
