/-
# Package `net`: prefixes and their text

`IP.String`, the text `address/length` of a prefix, and which addresses a prefix contains. The
text of a four-byte prefix parses back to it (`parseCIDR_prefixText`). Prefixes of one length
whose addresses are aligned are equal or have no address in common (`disjoint_of_aligned`).
-/

import Mathlib.Algebra.Order.Ring.Nat
import Wireflow.Go.Net

namespace Go.Net

open List Nat

/-! ## Text of an address -/

/-- The eight groups of a sixteen-byte address. -/
def groups (a : BitVec 128) : List ℕ :=
  (List.range 8).map fun i => a.toNat / 2 ^ (16 * (7 - i)) % 2 ^ 16

/-- `appendHex`: a group without leading zeros. -/
def hexText (x : ℕ) : List Char :=
  (if 0x1000 ≤ x then [hexDigit (x / 2 ^ 12 % 16)] else []) ++
    (if 0x100 ≤ x then [hexDigit (x / 2 ^ 8 % 16)] else []) ++
    (if 0x10 ≤ x then [hexDigit (x / 2 ^ 4 % 16)] else []) ++ [hexDigit (x % 16)]

/-- Start and length of the first longest run of at least two zero groups. -/
def zeroRun (gs : List ℕ) : Option (ℕ × ℕ) :=
  (List.range 8).foldl (fun best i =>
    let run := ((gs.drop i).takeWhile (· == 0)).length
    if 2 ≤ run ∧ (best.map Prod.snd).getD 0 < run then some (i, run) else best) none

/-- Groups with colons in between. -/
def colonText (gs : List ℕ) : List Char := [':'].intercalate (gs.map hexText)

/-- `netip.Addr.String` of a sixteen-byte address. -/
def ipv6Text (a : BitVec 128) : List Char :=
  match zeroRun (groups a) with
  | none => colonText (groups a)
  | some (start, run) =>
      colonText ((groups a).take start) ++ [':', ':'] ++ colonText ((groups a).drop (start + run))

/-- `IP.String`: dotted whenever the address has a four-byte form. -/
def IP.string (ip : IP) : String :=
  match ip.to4, ip with
  | some a, _ => ipv4String a
  | none, .v6 a => String.ofList (ipv6Text a)
  | none, .v4 a => ipv4String a

/-- `%d` of an `int`. -/
def intText : ℤ → String
  | .ofNat n => Nat.repr n
  | .negSucc n => "-" ++ Nat.repr (n + 1)

/-- `fmt.Sprintf("%s/%d", ip.String(), length)`. -/
def prefixText (ip : IP) (length : ℤ) : String := ip.string ++ "/" ++ intText length

/-! ## The text determines the address -/

theorem ipv4String_injective : Function.Injective ipv4String := fun a b h => by
  have := congrArg parseIP h
  rw [parseIP_ipv4String, parseIP_ipv4String] at this
  exact IP.v4.inj (Option.some.inj this)

/-- Characters of a dotted address. -/
theorem ipv4String_chars (a : IPv4) {c : Char} (hc : c ∈ (ipv4String a).toList) :
    c ≠ '/' ∧ c ≠ ':' := by
  have hdigits : ∀ n : Fin 256, ((Nat.toDigits 10 n.val).all fun c => decide (c ≠ '/' ∧ c ≠ ':'))
      = true := by
    decide +kernel
  have hrepr : ∀ n : ℕ, c ∈ (Nat.repr (n % 256)).toList → c ≠ '/' ∧ c ≠ ':' := by
    intro n hmem
    rw [Nat.toList_repr] at hmem
    simpa using all_eq_true.mp (hdigits ⟨n % 256, Nat.mod_lt n (by decide)⟩) c hmem
  rw [toList_ipv4String] at hc
  simp only [mem_append, mem_cons] at hc
  rcases hc with h | rfl | h | rfl | h | rfl | h
  · exact hrepr _ h
  · decide
  · exact hrepr _ h
  · decide
  · exact hrepr _ h
  · decide
  · exact hrepr _ h

theorem slash_notMem_hexText (x : ℕ) : '/' ∉ hexText x := by
  have hdigit : ∀ n : ℕ, '/' ≠ hexDigit (n % 16) := fun n =>
    (by decide +kernel : ∀ m : Fin 16, '/' ≠ hexDigit m) ⟨n % 16, mod_lt n (by decide)⟩
  unfold hexText
  all_goals simp [hdigit]

theorem slash_notMem_colonText (gs : List ℕ) : '/' ∉ colonText gs := by
  unfold colonText
  induction gs with
  | nil => simp [intercalate]
  | cons g gs ih =>
    cases gs with
    | nil => simpa [intercalate] using slash_notMem_hexText g
    | cons g' gs =>
      simp only [map_cons, intercalate_cons_cons] at ih ⊢
      simp only [mem_append, not_or]
      exact ⟨⟨slash_notMem_hexText g, by decide⟩, ih⟩

theorem slash_notMem_ipv6Text (a : BitVec 128) : '/' ∉ ipv6Text a := by
  unfold ipv6Text
  split
  · exact slash_notMem_colonText _
  · simp only [mem_append, not_or]
    exact ⟨⟨slash_notMem_colonText _, by decide⟩, slash_notMem_colonText _⟩

theorem colon_mem_ipv6Text (a : BitVec 128) : ':' ∈ ipv6Text a := by
  unfold ipv6Text
  split
  · -- there are eight groups, so there is a colon between the first two
    simp [groups, colonText, range_succ, intercalate_cons_cons]
  · simp

/-- Characters of the text of an address. -/
theorem slash_notMem_string (ip : IP) : '/' ∉ ip.string.toList := by
  intro hmem
  unfold IP.string at hmem
  split at hmem
  · exact (ipv4String_chars _ hmem).1 rfl
  · rw [String.toList_ofList] at hmem
    exact slash_notMem_ipv6Text _ hmem
  · exact (ipv4String_chars _ hmem).1 rfl

theorem takeWhile_of_notMem {sep : Char} {cs : List Char} (h : sep ∉ cs) (rest : List Char) :
    (cs ++ sep :: rest).takeWhile (· ≠ sep) = cs := by
  induction cs with
  | nil => simp
  | cons c cs ih =>
    rw [mem_cons, not_or] at h
    rw [cons_append, takeWhile_cons, ih h.2]
    simp [Ne.symm h.1]

/-- The text of an address determines its four-byte form. -/
theorem to4_of_string {ip ip' : IP} (h : ip.string = ip'.string) : ip.to4 = ip'.to4 := by
  have hdotted : ∀ (a : IPv4) (b : BitVec 128), ipv4String a ≠ String.ofList (ipv6Text b) := by
    intro a b heq
    have hmem : ':' ∈ (ipv4String a).toList := by
      rw [heq, String.toList_ofList]
      exact colon_mem_ipv6Text b
    exact (ipv4String_chars a hmem).2 rfl
  have hshape : ∀ ip : IP, (∃ a, ip.to4 = some a ∧ ip.string = ipv4String a) ∨
      ∃ b, ip.to4 = none ∧ ip.string = String.ofList (ipv6Text b) := by
    intro ip
    cases ip with
    | v4 a => exact .inl ⟨a, rfl, rfl⟩
    | v6 b =>
      cases hb : (IP.v6 b).to4 with
      | some a => exact .inl ⟨a, rfl, by simp only [IP.string, hb]⟩
      | none => exact .inr ⟨b, rfl, by simp only [IP.string, hb]⟩
  rcases hshape ip with ⟨a, ha, htext⟩ | ⟨b, hb, htext⟩
  · rcases hshape ip' with ⟨a', ha', htext'⟩ | ⟨b', -, htext'⟩
    · rw [htext, htext'] at h
      rw [ha, ha', ipv4String_injective h]
    · rw [htext, htext'] at h
      exact absurd h (hdotted a b')
  · rcases hshape ip' with ⟨a', -, htext'⟩ | ⟨b', hb', htext'⟩
    · rw [htext, htext'] at h
      exact absurd h.symm (hdotted a' b)
    · rw [hb, hb']

theorem to4_of_prefixText {ip ip' : IP} {n n' : ℤ} (h : prefixText ip n = prefixText ip' n') :
    ip.to4 = ip'.to4 := by
  have hchars := congrArg (fun s => s.toList.takeWhile (· ≠ '/')) h
  have hslash : "/".toList = ['/'] := rfl
  simp only [prefixText, String.toList_append, hslash, append_assoc, singleton_append,
    takeWhile_of_notMem (slash_notMem_string _)] at hchars
  exact to4_of_string (String.toList_injective hchars)

/-! ## Parsing the text of a prefix -/

theorem decimal_repr (n : ℕ) : decimal? (Nat.repr n).toList = some n := by
  have hdigit : ∀ m : Fin 10, decimalDigit? (Nat.digitChar m) = some m.val := by decide
  rw [Nat.toList_repr]
  induction n using Nat.strong_induction_on with
  | _ n ih =>
    rw [Nat.toDigits_eq_if (by decide)]
    split_ifs with hlt
    · simp [decimal?, hdigit ⟨n, hlt⟩]
    · have hlast := hdigit ⟨n % 10, Nat.mod_lt n (by decide)⟩
      have hfirst := ih (n / 10) (by omega)
      rw [decimal?] at hfirst ⊢
      simp [foldl_append, hfirst, hlast]
      omega

theorem intText_chars (n : ℤ) : '/' ∉ (intText n).toList ∧ (intText n).toList ≠ [] := by
  have hdigits : ∀ m : ℕ, '/' ∉ toDigits 10 m := fun m hmem =>
    absurd (isDigit_of_mem_toDigits (by decide) (by decide) hmem) (by decide)
  cases n with
  | ofNat m => simp [intText, hdigits]
  | negSucc m => simp [intText, String.toList_append, hdigits]

theorem decimal_negative (m : ℕ) : decimal? (intText (.negSucc m)).toList = none := by
  have hnone : ∀ cs : List Char, cs.foldl (fun acc c => acc.bind fun n =>
      (decimalDigit? c).map (n * 10 + ·)) (none : Option ℕ) = none := by
    intro cs
    induction cs with
    | nil => rfl
    | cons c cs ih => exact ih
  have htext : (intText (.negSucc m)).toList = '-' :: (Nat.repr (m + 1)).toList := by
    rw [intText, String.toList_append]
    rfl
  rw [htext]
  exact hnone _

/-- **Round trip.** The text of a four-byte prefix parses to it; with another length it does not
parse. -/
theorem parseCIDR_prefixText_cases (a : IPv4) (n : ℤ) :
    (∃ m : ℕ, n = m ∧ m ≤ 32 ∧
      parseCIDR (prefixText (.v4 a) n) = .ok ⟨(IP.v4 a).mask m, m, 32⟩) ∨
    ((n < 0 ∨ 32 < n) ∧ ∃ text, parseCIDR (prefixText (.v4 a) n) = .error text) := by
  obtain ⟨hslash, hne⟩ := intText_chars n
  have hsplit : splitOn '/' (prefixText (.v4 a) n).toList =
      [(ipv4String a).toList, (intText n).toList] := by
    have htext : (prefixText (.v4 a) n).toList =
        (ipv4String a).toList ++ '/' :: (intText n).toList := by
      simp [prefixText, IP.string, IP.to4, String.toList_append]
    rw [htext, splitOn_append fun h => (ipv4String_chars a h).1 rfl, splitOn_of_notMem hslash]
  have haddr : parseAddr (String.ofList (ipv4String a).toList) = some (.v4 a) := by
    rw [String.ofList_toList]
    exact parseIP_ipv4String a
  unfold parseCIDR
  simp only [hsplit, haddr]
  cases hdigits : (intText n).toList with
  | nil => exact absurd hdigits hne
  | cons c cs =>
    cases n with
    | negSucc m =>
      have hvalue := decimal_negative m
      rw [hdigits] at hvalue
      simp only [hvalue]
      exact .inr ⟨.inl (Int.negSucc_lt_zero m), _, rfl⟩
    | ofNat m =>
      have hvalue := decimal_repr m
      rw [show (Nat.repr m).toList = c :: cs from hdigits] at hvalue
      simp only [hvalue]
      by_cases hm : m ≤ 32
      · exact .inl ⟨m, rfl, hm, if_pos hm⟩
      · exact .inr ⟨.inr (by simp; omega), _, if_neg hm⟩

theorem parseCIDR_prefixText (a : IPv4) {m : ℕ} (hm : m ≤ 32) :
    parseCIDR (prefixText (.v4 a) m) = .ok ⟨(IP.v4 a).mask m, m, 32⟩ := by
  rcases parseCIDR_prefixText_cases a m with ⟨m', heq, -, hparse⟩ | ⟨hout, -⟩
  · cases heq
    exact hparse
  · omega

/-- A prefix that parses as one of four-byte addresses is masked. -/
theorem parseCIDR_four {s : String} {n : IPNet} (h : parseCIDR s = .ok n) (hbits : n.bits = 32) :
    n.ones ≤ 32 ∧ ∃ a : IPv4, n.base = (IP.v4 a).mask n.ones := by
  have hfour : ∀ (ip : IP) (ones : ℕ), ones ≤ ip.bitLen → ip.bitLen = 32 →
      ones ≤ 32 ∧ ∃ a : IPv4, ip.mask ones = (IP.v4 a).mask ones := by
    intro ip ones hones hlen
    cases ip with
    | v4 a => exact ⟨hones, a, rfl⟩
    | v6 a => cases hlen
  unfold parseCIDR at h
  split at h
  · split at h
    · split at h
      · split_ifs at h with hones
        cases h
        exact hfour _ _ hones hbits
      · cases h
    · cases h
  · cases h

/-! ## Containment -/

variable {ones : ℕ}

/-- The addresses of a four-byte prefix. -/
theorem contains_four {base : IPv4} {ip : IP} :
    IPNet.contains ⟨.v4 base, ones, 32⟩ ip = true ↔
      ∃ a, ip.to4 = some a ∧ a.toNat / 2 ^ (32 - ones) = base.toNat / 2 ^ (32 - ones) := by
  unfold IPNet.contains
  have hbase : (IP.v4 base).to4 = some base := rfl
  cases hip : ip.to4 with
  | none | some a => simp [hbase]

/-- Masking clears the bits that containment does not look at. -/
theorem toNat_mask (a : IPv4) (ones : ℕ) :
    (BitVec.ofNat 32 (a.toNat / 2 ^ (32 - ones) * 2 ^ (32 - ones))).toNat =
      a.toNat / 2 ^ (32 - ones) * 2 ^ (32 - ones) := by
  apply mod_eq_of_lt
  exact lt_of_le_of_lt (div_mul_le_self _ _) a.isLt

theorem contains_mask_four {a : IPv4} {ip : IP} :
    IPNet.contains ⟨(IP.v4 a).mask ones, ones, 32⟩ ip = true ↔
      ∃ b, ip.to4 = some b ∧ b.toNat / 2 ^ (32 - ones) = a.toNat / 2 ^ (32 - ones) := by
  rw [IP.mask, contains_four, toNat_mask, Nat.mul_div_cancel _ (Nat.two_pow_pos _)]

/-- The address is the first of its prefix. -/
def Aligned (a : IPv4) (ones : ℕ) : Prop := a.toNat % 2 ^ (32 - ones) = 0

/-- Two prefixes of one length overlap only if they are equal. -/
theorem eq_of_aligned {a b x : IPv4} (ha : Aligned a ones) (hb : Aligned b ones)
    (hxa : x.toNat / 2 ^ (32 - ones) = a.toNat / 2 ^ (32 - ones))
    (hxb : x.toNat / 2 ^ (32 - ones) = b.toNat / 2 ^ (32 - ones)) : a = b := by
  apply BitVec.eq_of_toNat_eq
  have hdiva := div_add_mod a.toNat (2 ^ (32 - ones))
  have hdivb := div_add_mod b.toNat (2 ^ (32 - ones))
  rw [ha, ← hxa] at hdiva
  rw [hb, ← hxb] at hdivb
  omega

/-- A longer prefix lies inside a shorter one as soon as its address does. -/
theorem div_of_longer {a b x : IPv4} {p m : ℕ} (hpm : p ≤ m) (hm : m ≤ 32)
    (ha : a.toNat / 2 ^ (32 - p) = b.toNat / 2 ^ (32 - p))
    (hx : x.toNat / 2 ^ (32 - m) = a.toNat / 2 ^ (32 - m)) :
    x.toNat / 2 ^ (32 - p) = b.toNat / 2 ^ (32 - p) := by
  have hpow : 2 ^ (32 - p) = 2 ^ (32 - m) * 2 ^ (m - p) := by
    rw [← pow_add]
    congr 1
    omega
  rw [← ha, hpow, ← Nat.div_div_eq_div_mul, ← Nat.div_div_eq_div_mul, hx]

/-- The addresses of a prefix end before the addresses do. -/
theorem mask_add_le (a : IPv4) {m : ℕ} (hm : m ≤ 32) :
    a.toNat / 2 ^ (32 - m) * 2 ^ (32 - m) + 2 ^ (32 - m) ≤ 2 ^ 32 := by
  have hall : 2 ^ 32 = 2 ^ m * 2 ^ (32 - m) := by
    rw [← pow_add]
    congr 1
    omega
  rw [← Nat.succ_mul, hall]
  apply Nat.mul_le_mul_right
  rw [Nat.succ_le_iff, Nat.div_lt_iff_lt_mul (Nat.two_pow_pos _), ← hall]
  exact a.isLt

/-- And only a longer one does. -/
theorem ones_le_of_inside {a b : IPv4} {p m : ℕ} (hp : p ≤ 32) (h : ∀ c : IPv4,
    c.toNat / 2 ^ (32 - m) = a.toNat / 2 ^ (32 - m) →
      c.toNat / 2 ^ (32 - p) = b.toNat / 2 ^ (32 - p)) : p ≤ m := by
  by_contra hshort
  have hsmall : 2 ^ (32 - p) < 2 ^ (32 - m) := Nat.pow_lt_pow_right (by decide) (by omega)
  -- the first address of the prefix, and the one that many addresses later
  have hfirst := toNat_mask a m
  have hroom := mask_add_le a (m := m) (by omega)
  have hnext : (BitVec.ofNat 32 (a.toNat / 2 ^ (32 - m) * 2 ^ (32 - m) + 2 ^ (32 - p))).toNat =
      a.toNat / 2 ^ (32 - m) * 2 ^ (32 - m) + 2 ^ (32 - p) := by
    exact Nat.mod_eq_of_lt (by omega)
  have hin := h (BitVec.ofNat 32 (a.toNat / 2 ^ (32 - m) * 2 ^ (32 - m)))
  have hout := h (BitVec.ofNat 32 (a.toNat / 2 ^ (32 - m) * 2 ^ (32 - m) + 2 ^ (32 - p)))
  rw [hfirst, Nat.mul_div_cancel _ (Nat.two_pow_pos _)] at hin
  rw [hnext, Nat.add_div_right _ (Nat.two_pow_pos _), Nat.mul_comm,
    Nat.mul_add_div (Nat.two_pow_pos _), Nat.div_eq_of_lt hsmall, Nat.mul_comm, hin rfl] at hout
  exact absurd (hout rfl) (Nat.succ_ne_self _)

/-- Adding the size of a prefix keeps the alignment, also past the last address. -/
theorem Aligned.add {a : IPv4} (h : Aligned a ones) :
    Aligned (a + BitVec.ofNat 32 (2 ^ (32 - ones))) ones := by
  unfold Aligned at h ⊢
  have hdvd : 2 ^ (32 - ones) ∣ 2 ^ 32 := pow_dvd_pow 2 (by omega)
  rw [BitVec.toNat_add, BitVec.toNat_ofNat, mod_mod_of_dvd _ hdvd, add_mod, h, zero_add,
    mod_mod, mod_mod_of_dvd _ hdvd]
  exact mod_self _

end Go.Net
