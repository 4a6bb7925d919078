/-
# Package `crypto/sha256`

`sum256` on a list of bytes. Words are natural numbers below `2 ^ 32`.

A digest of a concrete text has to be computable by the kernel, which reduces by
name: a word that is used several times would be recomputed at each use. `force`
reduces a number to a numeral before it is passed on, and changes nothing else
(`force_eq`).
-/

import Wireflow.Go.Net

namespace Go.Sha256

/-- Evaluate a number, then continue with it. -/
def force {α : Type} (n : ℕ) (k : ℕ → α) : α :=
  match n with
  | 0 => k 0
  | m + 1 => k (m + 1)

@[simp] theorem force_eq {α : Type} (n : ℕ) (k : ℕ → α) : force n k = k n := by
  cases n <;> rfl

/-! ## Words -/

def rotr (x n : ℕ) : ℕ := (x >>> n ||| x <<< (32 - n)) % 2 ^ 32

def bigSigma0 (x : ℕ) : ℕ := rotr x 2 ^^^ rotr x 13 ^^^ rotr x 22
def bigSigma1 (x : ℕ) : ℕ := rotr x 6 ^^^ rotr x 11 ^^^ rotr x 25
def smallSigma0 (x : ℕ) : ℕ := rotr x 7 ^^^ rotr x 18 ^^^ x >>> 3
def smallSigma1 (x : ℕ) : ℕ := rotr x 17 ^^^ rotr x 19 ^^^ x >>> 10
def ch (e f g : ℕ) : ℕ := (e &&& f) ^^^ ((2 ^ 32 - 1 - e) &&& g)
def maj (a b c : ℕ) : ℕ := (a &&& b) ^^^ (a &&& c) ^^^ (b &&& c)

/-- The round constants. -/
def constants : List ℕ :=
  [0x428a2f98, 0x71374491, 0xb5c0fbcf, 0xe9b5dba5, 0x3956c25b, 0x59f111f1, 0x923f82a4, 0xab1c5ed5,
   0xd807aa98, 0x12835b01, 0x243185be, 0x550c7dc3, 0x72be5d74, 0x80deb1fe, 0x9bdc06a7, 0xc19bf174,
   0xe49b69c1, 0xefbe4786, 0x0fc19dc6, 0x240ca1cc, 0x2de92c6f, 0x4a7484aa, 0x5cb0a9dc, 0x76f988da,
   0x983e5152, 0xa831c66d, 0xb00327c8, 0xbf597fc7, 0xc6e00bf3, 0xd5a79147, 0x06ca6351, 0x14292967,
   0x27b70a85, 0x2e1b2138, 0x4d2c6dfc, 0x53380d13, 0x650a7354, 0x766a0abb, 0x81c2c92e, 0x92722c85,
   0xa2bfe8a1, 0xa81a664b, 0xc24b8b70, 0xc76c51a3, 0xd192e819, 0xd6990624, 0xf40e3585, 0x106aa070,
   0x19a4c116, 0x1e376c08, 0x2748774c, 0x34b0bcb5, 0x391c0cb3, 0x4ed8aa4a, 0x5b9cca4f, 0x682e6ff3,
   0x748f82ee, 0x78a5636f, 0x84c87814, 0x8cc70208, 0x90befffa, 0xa4506ceb, 0xbef9a3f7, 0xc67178f2]

/-- The eight words carried from block to block. -/
structure State where
  a : ℕ
  b : ℕ
  c : ℕ
  d : ℕ
  e : ℕ
  f : ℕ
  g : ℕ
  h : ℕ

def initial : State :=
  ⟨0x6a09e667, 0xbb67ae85, 0x3c6ef372, 0xa54ff53a, 0x510e527f, 0x9b05688c, 0x1f83d9ab, 0x5be0cd19⟩

/-! ## One block -/

/-- The message schedule from a window of sixteen words, extended `n` times. -/
def schedule : ℕ → List ℕ → List ℕ
  | 0, window => window
  | n + 1, window =>
      match window with
      | [w0, w1, w2, w3, w4, w5, w6, w7, w8, w9, w10, w11, w12, w13, w14, w15] =>
          force ((smallSigma1 w14 + w9 + smallSigma0 w1 + w0) % 2 ^ 32) fun w16 =>
            w0 :: schedule n
              [w1, w2, w3, w4, w5, w6, w7, w8, w9, w10, w11, w12, w13, w14, w15, w16]
      | _ => window

/-- The rounds of one block, over constants and schedule side by side. -/
def rounds : List ℕ → List ℕ → State → State
  | k :: ks, w :: ws, ⟨a, b, c, d, e, f, g, h⟩ =>
      force ((h + bigSigma1 e + ch e f g + k + w) % 2 ^ 32) fun t =>
        force ((t + bigSigma0 a + maj a b c) % 2 ^ 32) fun a' =>
          force ((d + t) % 2 ^ 32) fun e' => rounds ks ws ⟨a', a, b, c, e', e, f, g⟩
  | _, _, s => s

/-- Absorb one block of sixteen words. -/
def compress (s : State) (block : List ℕ) : State :=
  let s' := rounds constants (schedule 48 block) s
  force ((s.a + s'.a) % 2 ^ 32) fun a => force ((s.b + s'.b) % 2 ^ 32) fun b =>
    force ((s.c + s'.c) % 2 ^ 32) fun c => force ((s.d + s'.d) % 2 ^ 32) fun d =>
      force ((s.e + s'.e) % 2 ^ 32) fun e => force ((s.f + s'.f) % 2 ^ 32) fun f =>
        force ((s.g + s'.g) % 2 ^ 32) fun g => force ((s.h + s'.h) % 2 ^ 32) fun h =>
          ⟨a, b, c, d, e, f, g, h⟩

/-! ## A whole message -/

/-- The low `n` bytes of a number, most significant first. -/
def bytesOf (value : ℕ) (n : ℕ) : List ℕ :=
  (List.range n).reverse.map fun i => value / 256 ^ i % 256

/-- The message, a one bit, zeros, and the length in bits. -/
def pad (message : List ℕ) : List ℕ :=
  message ++ 0x80 :: List.replicate ((119 - message.length % 64) % 64) 0 ++
    bytesOf (8 * message.length) 8

/-- Bytes to big-endian words. -/
def words : List ℕ → List ℕ
  | a :: b :: c :: d :: rest => force (a * 2 ^ 24 + b * 2 ^ 16 + c * 2 ^ 8 + d) (· :: words rest)
  | _ => []

/-- Absorb `n` blocks. -/
def absorb : ℕ → List ℕ → State → State
  | 0, _, s => s
  | n + 1, ws, s =>
      match compress s (ws.take 16) with
      | ⟨a, b, c, d, e, f, g, h⟩ => absorb n (ws.drop 16) ⟨a, b, c, d, e, f, g, h⟩

/-- `sha256.Sum256`. -/
def sum256 (message : List ℕ) : List ℕ :=
  let ws := words (pad message)
  let s := absorb (ws.length / 16) ws initial
  [s.a, s.b, s.c, s.d, s.e, s.f, s.g, s.h].flatMap fun w => bytesOf w 4

/-! ## Text -/

/-- The UTF-8 encoding of a character. -/
def utf8 (c : Char) : List ℕ :=
  let v := c.toNat
  if v < 0x80 then [v]
  else if v < 0x800 then [0xc0 + v / 64, 0x80 + v % 64]
  else if v < 0x10000 then [0xe0 + v / 4096, 0x80 + v / 64 % 64, 0x80 + v % 64]
  else [0xf0 + v / 262144, 0x80 + v / 4096 % 64, 0x80 + v / 64 % 64, 0x80 + v % 64]

/-- `hex.EncodeToString` of the digest of a text. -/
def hexDigest (text : List Char) : String := Net.encodeHex (sum256 (text.flatMap utf8))

end Go.Sha256
