/-
# Package `net`: addresses and their text

An address is either four bytes or sixteen. A sixteen-byte address inside
`::ffff:0:0/96` stands for the four-byte address in its last bytes, and `to4`
treats both forms alike.

`parseAddr` follows the grammar of `netip.ParseAddr` for addresses without a
zone: four dotted decimal octets without leading zeros, or colon-separated
groups of up to four hexadecimal digits with at most one `::` and an optional
dotted tail. The main result is that the text of a four-byte address parses back
to it (`parseIP_ipv4String`), so the text determines the address.
-/

import Wireflow.Go.Strings

namespace Go.Net

open List

/-- A four-byte address. -/
abbrev IPv4 := BitVec 32

/-- `net.IP`, never empty. -/
inductive IP
  | v4 (addr : IPv4)
  | v6 (addr : BitVec 128)
  deriving DecidableEq, Repr

/-- `IP.To4`: the four-byte form, if the address has one. -/
def IP.to4 : IP → Option IPv4
  | .v4 a => some a
  | .v6 a => if a.toNat / 2 ^ 32 = 0xFFFF then some (BitVec.ofNat 32 a.toNat) else none

/-! ## Text of a four-byte address -/

/-- The bytes of a four-byte address, most significant first. -/
def octets (a : IPv4) : List ℕ :=
  [a.toNat / 2 ^ 24 % 256, a.toNat / 2 ^ 16 % 256, a.toNat / 2 ^ 8 % 256, a.toNat % 256]

/-- The address with the given bytes. -/
def ofOctets : List ℕ → Option IPv4
  | [a, b, c, d] => some (BitVec.ofNat 32 (a * 2 ^ 24 + b * 2 ^ 16 + c * 2 ^ 8 + d))
  | _ => none

theorem ofOctets_octets (a : IPv4) : ofOctets (octets a) = some a := by
  have hsum : a.toNat / 2 ^ 24 % 256 * 2 ^ 24 + a.toNat / 2 ^ 16 % 256 * 2 ^ 16 +
      a.toNat / 2 ^ 8 % 256 * 2 ^ 8 + a.toNat % 256 = a.toNat := by omega
  rw [octets, ofOctets, hsum, BitVec.ofNat_toNat, BitVec.setWidth_eq]

/-- `IP.String` of a four-byte address. -/
def ipv4String (a : IPv4) : String :=
  Nat.repr (a.toNat / 2 ^ 24 % 256) ++ "." ++ Nat.repr (a.toNat / 2 ^ 16 % 256) ++ "." ++
    Nat.repr (a.toNat / 2 ^ 8 % 256) ++ "." ++ Nat.repr (a.toNat % 256)

/-- One lower-case hexadecimal digit. -/
def hexDigit (n : ℕ) : Char := Char.ofNat (if n < 10 then 48 + n else 87 + n)

/-- `hex.EncodeToString` on a list of bytes. -/
def encodeHex (bytes : List ℕ) : String :=
  String.ofList (bytes.flatMap fun b => [hexDigit (b / 16), hexDigit (b % 16)])

/-! ## Parsing -/

/-- The value of a decimal digit. -/
def decimalDigit? (c : Char) : Option ℕ :=
  if '0' ≤ c ∧ c ≤ '9' then some (c.toNat - 48) else none

/-- The value of a hexadecimal digit. -/
def hexDigit? (c : Char) : Option ℕ :=
  if '0' ≤ c ∧ c ≤ '9' then some (c.toNat - 48)
  else if 'a' ≤ c ∧ c ≤ 'f' then some (c.toNat - 87)
  else if 'A' ≤ c ∧ c ≤ 'F' then some (c.toNat - 55)
  else none

/-- A run of decimal digits, and nothing else. -/
def decimal? (cs : List Char) : Option ℕ :=
  cs.foldl (fun acc c => acc.bind fun n => (decimalDigit? c).map (n * 10 + ·)) (some 0)

/-- One field of a dotted address: one to three digits, no leading zero, at most 255. -/
def parseOctet (cs : List Char) : Option ℕ :=
  match cs with
  | [] => none
  | '0' :: _ :: _ => none
  | _ => (decimal? cs).bind fun n => if n ≤ 255 then some n else none

/-- Cut a list of characters at every separator. -/
def splitOn (sep : Char) : List Char → List (List Char)
  | [] => [[]]
  | c :: cs =>
      if c = sep then [] :: splitOn sep cs
      else
        match splitOn sep cs with
        | [] => [[c]]
        | field :: fields => (c :: field) :: fields

/-- Four dotted octets. -/
def parseIPv4 (cs : List Char) : Option IPv4 :=
  ((splitOn '.' cs).mapM parseOctet).bind ofOctets

/-- The leading hexadecimal digits of a group, and the rest. -/
def hexGroup (cs : List Char) : List Char × List Char :=
  cs.span fun c => (hexDigit? c).isSome

def hexValue (digits : List Char) : ℕ :=
  digits.foldl (fun acc c => acc * 16 + (hexDigit? c).getD 0) 0

/-- The groups of a sixteen-byte address read so far, and where `::` stood. -/
structure Groups where
  read : List ℕ
  ellipsis : Option ℕ

/-- Colon-separated groups. `fuel` bounds the number of groups still admitted. -/
def parseGroups : ℕ → List Char → Groups → Option (Groups × List Char)
  | 0, cs, g => some (g, cs)
  | fuel + 1, cs, g =>
      let (digits, rest) := hexGroup cs
      if digits = [] ∨ 4 < digits.length then none
      else
        match rest with
        | '.' :: _ =>
            -- a dotted tail takes the place of the last two groups
            if (g.ellipsis = none ∧ g.read.length ≠ 6) ∨ 6 < g.read.length then none
            else (parseIPv4 cs).map fun a =>
              ({ g with read := g.read ++ [a.toNat / 2 ^ 16, a.toNat % 2 ^ 16] }, [])
        | [] => some ({ g with read := g.read ++ [hexValue digits] }, [])
        | ':' :: ':' :: more =>
            if g.ellipsis.isSome then none
            else
              let g' : Groups :=
                { read := g.read ++ [hexValue digits], ellipsis := some (g.read.length + 1) }
              if more = [] then some (g', []) else parseGroups fuel more g'
        | ':' :: more =>
            if more = [] then none
            else parseGroups fuel more { g with read := g.read ++ [hexValue digits] }
        | _ => none

/-- Fill the place of `::` with zeros; it has to stand for at least one group. -/
def expand (g : Groups) : Option (List ℕ) :=
  match g.ellipsis with
  | none => if g.read.length = 8 then some g.read else none
  | some i =>
      if g.read.length < 8 then
        some (g.read.take i ++ List.replicate (8 - g.read.length) 0 ++ g.read.drop i)
      else none

def ofGroups (groups : List ℕ) : BitVec 128 :=
  BitVec.ofNat 128 (groups.foldl (fun acc n => acc * 2 ^ 16 + n) 0)

def parseIPv6 (cs : List Char) : Option (BitVec 128) :=
  match cs with
  | [':', ':'] => some 0
  | ':' :: ':' :: rest => finish (parseGroups 8 rest ⟨[], some 0⟩)
  | _ => finish (parseGroups 8 cs ⟨[], none⟩)
where
  /-- All of the text has to be used. -/
  finish : Option (Groups × List Char) → Option (BitVec 128)
    | some (g, []) => (expand g).map ofGroups
    | _ => none

/-- `netip.ParseAddr` for an address without a zone: the first of `.` and `:`
decides between the two forms. -/
def parseAddr (s : String) : Option IP :=
  match s.toList.find? fun c => c = '.' ∨ c = ':' ∨ c = '%' with
  | some '.' => (parseIPv4 s.toList).map .v4
  | some ':' => (parseIPv6 s.toList).map .v6
  | _ => none

/-- `net.ParseIP`. -/
def parseIP (s : String) : Option IP := parseAddr s

/-- `net.IPNet`: a base address and a prefix length out of `bits`. -/
structure IPNet where
  base : IP
  ones : ℕ
  bits : ℕ
  deriving DecidableEq, Repr

/-- `IP.Mask` with a prefix mask of the address's own width. -/
def IP.mask : IP → ℕ → IP
  | .v4 a, ones => .v4 (BitVec.ofNat 32 (a.toNat / 2 ^ (32 - ones) * 2 ^ (32 - ones)))
  | .v6 a, ones => .v6 (BitVec.ofNat 128 (a.toNat / 2 ^ (128 - ones) * 2 ^ (128 - ones)))

def IP.bitLen : IP → ℕ
  | .v4 _ => 32
  | .v6 _ => 128

/-- `net.ParseCIDR`, whose error text is the only other thing callers see. -/
def parseCIDR (s : String) : Except String IPNet :=
  let invalid := "invalid CIDR address: " ++ s
  match splitOn '/' s.toList with
  | addr :: rest@(_ :: _) =>
      match parseAddr (String.ofList addr), rest with
      | some ip, [mask] =>
          match mask, decimal? mask with
          | _ :: _, some ones =>
              if ones ≤ ip.bitLen then .ok ⟨ip.mask ones, ones, ip.bitLen⟩ else .error invalid
          | _, _ => .error invalid
      | _, _ => .error invalid
  | _ => .error invalid

/-- `IPNet.Contains`. -/
def IPNet.contains (n : IPNet) (ip : IP) : Bool :=
  match n.base.to4, ip.to4 with
  | some base, some a =>
      a.toNat / 2 ^ (n.bits - n.ones) == base.toNat / 2 ^ (n.bits - n.ones)
  | none, none =>
      match n.base, ip with
      | .v6 base, .v6 a => a.toNat / 2 ^ (128 - n.ones) == base.toNat / 2 ^ (128 - n.ones)
      | _, _ => false
  | _, _ => false

/-- The addresses of a subnet have no gaps. -/
theorem IPNet.contains_between {n : IPNet} {a b c : IPv4} (ha : n.contains (.v4 a) = true)
    (hc : n.contains (.v4 c) = true) (hab : a.toNat ≤ b.toNat) (hbc : b.toNat ≤ c.toNat) :
    n.contains (.v4 b) = true := by
  have hto4 : ∀ d : IPv4, (IP.v4 d).to4 = some d := fun _ => rfl
  unfold IPNet.contains at ha hc ⊢
  rw [hto4] at ha hc ⊢
  cases hbase : n.base.to4 with
  | none => simp [hbase] at ha
  | some base =>
    simp only [hbase, beq_iff_eq] at ha hc ⊢
    apply le_antisymm
    · rw [← hc]
      exact Nat.div_le_div_right hbc
    · rw [← ha]
      exact Nat.div_le_div_right hab

/-! ## The text of an address determines it -/

theorem splitOn_of_notMem {sep : Char} {cs : List Char} (h : sep ∉ cs) :
    splitOn sep cs = [cs] := by
  induction cs with
  | nil => rfl
  | cons c cs ih =>
    rw [mem_cons, not_or] at h
    rw [splitOn, if_neg (Ne.symm h.1), ih h.2]

theorem splitOn_append {sep : Char} {cs rest : List Char} (h : sep ∉ cs) :
    splitOn sep (cs ++ sep :: rest) = cs :: splitOn sep rest := by
  induction cs with
  | nil => rw [nil_append, splitOn, if_pos rfl]
  | cons c cs ih =>
    rw [mem_cons, not_or] at h
    rw [cons_append, splitOn, if_neg (Ne.symm h.1), ih h.2]

/-- What one octet looks like: parsing reads it back and it holds digits only. -/
theorem octet_text : ∀ n : Fin 256, parseOctet (Nat.toDigits 10 n) = some n.val ∧
    (Nat.toDigits 10 n.val).all (fun c => decide (c ≠ '.' ∧ c ≠ ':' ∧ c ≠ '%')) = true := by
  decide +kernel

theorem parseOctet_repr {n : ℕ} (h : n < 256) : parseOctet (Nat.repr n).toList = some n := by
  rw [Nat.toList_repr]
  exact (octet_text ⟨n, h⟩).1

theorem notMem_repr {n : ℕ} (h : n < 256) {c : Char} (hc : c ∈ (Nat.repr n).toList) :
    c ≠ '.' ∧ c ≠ ':' ∧ c ≠ '%' := by
  rw [Nat.toList_repr] at hc
  have := all_eq_true.mp (octet_text ⟨n, h⟩).2 c hc
  simpa using this

theorem toList_ipv4String (a : IPv4) :
    (ipv4String a).toList = (Nat.repr (a.toNat / 2 ^ 24 % 256)).toList ++ '.' ::
      ((Nat.repr (a.toNat / 2 ^ 16 % 256)).toList ++ '.' ::
        ((Nat.repr (a.toNat / 2 ^ 8 % 256)).toList ++ '.' ::
          (Nat.repr (a.toNat % 256)).toList)) := by
  simp [ipv4String, String.toList_append]

theorem splitOn_ipv4String (a : IPv4) :
    splitOn '.' (ipv4String a).toList = (octets a).map fun n => (Nat.repr n).toList := by
  have hdot : ∀ n : ℕ, '.' ∉ (Nat.repr (n % 256)).toList := fun n h =>
    (notMem_repr (Nat.mod_lt n (by decide)) h).1 rfl
  rw [toList_ipv4String, splitOn_append (hdot _), splitOn_append (hdot _),
    splitOn_append (hdot _), splitOn_of_notMem (hdot _)]
  rfl

theorem parseIPv4_ipv4String (a : IPv4) : parseIPv4 (ipv4String a).toList = some a := by
  have hoctet : ∀ n : ℕ, parseOctet (Nat.repr (n % 256)).toList = some (n % 256) := fun n =>
    parseOctet_repr (Nat.mod_lt n (by decide))
  rw [parseIPv4, splitOn_ipv4String]
  have hmap : ((octets a).map fun n => (Nat.repr n).toList).mapM parseOctet =
      some (octets a) := by
    simp only [octets, map_cons, map_nil, mapM_cons, mapM_nil, hoctet]
    rfl
  rw [hmap, Option.bind_some, ofOctets_octets]

/-- **Round trip.** Parsing the text of a four-byte address gives the address. -/
theorem parseIP_ipv4String (a : IPv4) : parseIP (ipv4String a) = some (.v4 a) := by
  have hfirst : (ipv4String a).toList.find? (fun c => c = '.' ∨ c = ':' ∨ c = '%') = some '.' := by
    rw [toList_ipv4String, find?_append]
    have hnone : (Nat.repr (a.toNat / 2 ^ 24 % 256)).toList.find?
        (fun c => decide (c = '.' ∨ c = ':' ∨ c = '%')) = none := by
      rw [find?_eq_none]
      intro c hc
      simpa using notMem_repr (Nat.mod_lt _ (by decide)) hc
    rw [hnone]
    rfl
  rw [parseIP, parseAddr, hfirst, parseIPv4_ipv4String]
  rfl

end Go.Net
