/-
# Package `encoding/json`: values and their text

`marshal` writes a value as `json.Marshal` does: no white space, object fields
in the order given, strings with the HTML-safe escapes. The writer takes the text
that follows as an argument, so a nested value is written in front of whatever
closes its container.

The text determines the value (`write_nil_injective`). The argument is the one for
prefix-free codes: the first character tells the constructor, a string ends at
the first bare quote, and a number ends at the first character that is not a
digit (`write_injective`).
-/

import Mathlib.Data.List.TakeWhile
import Wireflow.Go.Net

namespace Go

open List

/-- A JSON value. Numbers are integers: no modelled message carries a fraction. -/
inductive Json
  | null
  | bool (b : Bool)
  | num (n : Int)
  | str (s : String)
  | arr (elems : List Json)
  | obj (fields : List (String × Json))

namespace Json

/-! ## Writing -/

/-- Characters `json.Marshal` writes as `\u` and four hexadecimal digits. -/
def needsUnicodeEscape (c : Char) : Bool :=
  c.toNat < 0x20 || c == '<' || c == '>' || c == '&' || c.toNat == 0x2028 || c.toNat == 0x2029

/-- One character of a string. -/
def escape (c : Char) : List Char :=
  if c = '"' then ['\\', '"']
  else if c = '\\' then ['\\', '\\']
  else if c = '\x08' then ['\\', 'b']
  else if c = '\x0c' then ['\\', 'f']
  else if c = '\n' then ['\\', 'n']
  else if c = '\r' then ['\\', 'r']
  else if c = '\t' then ['\\', 't']
  else if needsUnicodeEscape c then
    ['\\', 'u', Net.hexDigit (c.toNat / 4096 % 16), Net.hexDigit (c.toNat / 256 % 16),
      Net.hexDigit (c.toNat / 16 % 16), Net.hexDigit (c.toNat % 16)]
  else [c]

/-- A quoted string, followed by `rest`. -/
def quote (s : String) (rest : List Char) : List Char :=
  '"' :: (s.toList.flatMap escape ++ '"' :: rest)

/-- An integer in decimal. -/
def decimal : Int → List Char
  | .ofNat n => Nat.toDigits 10 n
  | .negSucc n => '-' :: Nat.toDigits 10 (n + 1)

mutual

/-- A value, followed by `rest`. -/
def write : Json → List Char → List Char
  | null, rest => 'n' :: 'u' :: 'l' :: 'l' :: rest
  | bool true, rest => 't' :: 'r' :: 'u' :: 'e' :: rest
  | bool false, rest => 'f' :: 'a' :: 'l' :: 's' :: 'e' :: rest
  | num n, rest => decimal n ++ rest
  | str s, rest => quote s rest
  | arr [], rest => '[' :: ']' :: rest
  | arr (a :: elems), rest => '[' :: write a (writeElems elems rest)
  | obj [], rest => '{' :: '}' :: rest
  | obj ((key, a) :: fields), rest => '{' :: quote key (':' :: write a (writeFields fields rest))

/-- The remaining elements of an array and its closing bracket. -/
def writeElems : List Json → List Char → List Char
  | [], rest => ']' :: rest
  | a :: elems, rest => ',' :: write a (writeElems elems rest)

/-- The remaining fields of an object and its closing brace. -/
def writeFields : List (String × Json) → List Char → List Char
  | [], rest => '}' :: rest
  | (key, a) :: fields, rest => ',' :: quote key (':' :: write a (writeFields fields rest))

end

/-- `json.Marshal`. -/
def marshal (a : Json) : String := String.ofList (write a [])

example : marshal (obj [("a", arr [num (-12), str "<\n"]), ("b", null)]) =
    "\x7b\"a\":[-12,\"\\u003c\\n\"],\"b\":null\x7d" := by decide

/-! ## Reading back a string -/

/-- The value of four hexadecimal digits. -/
def hexChar (a b c d : Char) : Char :=
  Char.ofNat ([a, b, c, d].foldl (fun acc x => acc * 16 + (Net.hexDigit? x).getD 0) 0)

/-- What follows a backslash. -/
def unescapeTail : List Char → Option (Char × List Char)
  | 'u' :: a :: b :: c :: d :: rest => some (hexChar a b c d, rest)
  | 'b' :: rest => some ('\x08', rest)
  | 'f' :: rest => some ('\x0c', rest)
  | 'n' :: rest => some ('\n', rest)
  | 'r' :: rest => some ('\r', rest)
  | 't' :: rest => some ('\t', rest)
  | c :: rest => some (c, rest)
  | [] => none

/-- Read one character of a string. -/
def unescape : List Char → Option (Char × List Char)
  | [] => none
  | c :: rest => if c = '\\' then unescapeTail rest else some (c, rest)

theorem hexDigit?_hexDigit : ∀ n : Fin 16, Net.hexDigit? (Net.hexDigit n) = some n.val := by
  decide +kernel

variable {c : Char}

theorem hexChar_toNat (h : c.toNat < 2 ^ 16) :
    hexChar (Net.hexDigit (c.toNat / 4096 % 16)) (Net.hexDigit (c.toNat / 256 % 16))
      (Net.hexDigit (c.toNat / 16 % 16)) (Net.hexDigit (c.toNat % 16)) = c := by
  have hdigit : ∀ n : ℕ, Net.hexDigit? (Net.hexDigit (n % 16)) = some (n % 16) := fun n =>
    hexDigit?_hexDigit ⟨n % 16, Nat.mod_lt n (by decide)⟩
  have hval : (((0 * 16 + c.toNat / 4096 % 16) * 16 + c.toNat / 256 % 16) * 16 +
      c.toNat / 16 % 16) * 16 + c.toNat % 16 = c.toNat := by omega
  simp only [hexChar, foldl_cons, foldl_nil, hdigit, Option.getD_some, hval]
  exact Char.ofNat_toNat c

theorem toNat_lt_of_needsUnicodeEscape (h : needsUnicodeEscape c = true) :
    c.toNat < 2 ^ 16 := by
  simp only [needsUnicodeEscape, Bool.or_eq_true, decide_eq_true_eq, beq_iff_eq] at h
  rcases h with ((((h | rfl) | rfl) | rfl) | h) | h
  · omega
  · decide
  · decide
  · decide
  · omega
  · omega

/-- Reading undoes writing, one character at a time. -/
theorem unescape_escape (c : Char) (rest : List Char) :
    unescape (escape c ++ rest) = some (c, rest) := by
  unfold escape
  split_ifs with h0 h1 h2 h3 h4 h5 h6 h7
  iterate 7 · subst_vars; rfl
  · simp [unescape, unescapeTail, hexChar_toNat (toNat_lt_of_needsUnicodeEscape h7)]
  · rw [singleton_append, unescape, if_neg h1]

variable {x y : List Char}

theorem escape_append_inj {c d : Char} (h : escape c ++ x = escape d ++ y) :
    c = d ∧ x = y := by
  have := congrArg unescape h
  rwa [unescape_escape, unescape_escape, Option.some_inj, Prod.mk.injEq] at this

/-- No escape starts with a quote, so the first bare quote closes the string. -/
theorem escape_append_ne_quote (c : Char) (x y : List Char) : escape c ++ x ≠ '"' :: y := by
  unfold escape
  split_ifs with h0
  case neg => simp [h0]
  all_goals simp

theorem flatMap_escape_inj : ∀ {s t : List Char} {x y : List Char},
    s.flatMap escape ++ '"' :: x = t.flatMap escape ++ '"' :: y → s = t ∧ x = y
  | [], [], _, _, h => ⟨rfl, (cons.inj h).2⟩
  | [], d :: t, _, _, h => by
      rw [flatMap_cons, append_assoc] at h
      exact absurd h.symm (escape_append_ne_quote d _ _)
  | c :: s, [], _, _, h => by
      rw [flatMap_cons, append_assoc] at h
      exact absurd h (escape_append_ne_quote c _ _)
  | c :: s, d :: t, _, _, h => by
      simp only [flatMap_cons, append_assoc] at h
      obtain ⟨rfl, hrest⟩ := escape_append_inj h
      obtain ⟨rfl, rfl⟩ := flatMap_escape_inj hrest
      exact ⟨rfl, rfl⟩

theorem quote_inj {s t : String} (h : quote s x = quote t y) :
    s = t ∧ x = y := by
  obtain ⟨hst, hxy⟩ := flatMap_escape_inj (cons.inj h).2
  exact ⟨String.toList_injective hst, hxy⟩

/-! ## Reading back a number -/

/-- The text does not continue a number. -/
def EndsNumber (rest : List Char) : Prop := ∀ c ∈ rest.head?, c.isDigit = false

theorem takeWhile_digits {digits rest : List Char} (hdigits : ∀ c ∈ digits, c.isDigit = true)
    (hrest : EndsNumber rest) : (digits ++ rest).takeWhile Char.isDigit = digits := by
  rw [takeWhile_append_of_pos hdigits]
  cases rest with
  | nil => simp
  | cons c rest => simp [hrest c rfl]

theorem toDigits_append_inj {m n : ℕ} (hx : EndsNumber x) (hy : EndsNumber y)
    (h : Nat.toDigits 10 m ++ x = Nat.toDigits 10 n ++ y) : m = n ∧ x = y := by
  have hdigit : ∀ k, ∀ c ∈ Nat.toDigits 10 k, c.isDigit = true := fun _ _ hc =>
    Nat.isDigit_of_mem_toDigits (by decide) (by decide) hc
  have hsame := congrArg (takeWhile Char.isDigit) h
  rw [takeWhile_digits (hdigit m) hx, takeWhile_digits (hdigit n) hy] at hsame
  rw [hsame] at h
  refine ⟨?_, append_cancel_left h⟩
  rw [← Nat.ofDigitChars_toDigits (b := 10) (n := m) (by decide) (by decide), hsame,
    Nat.ofDigitChars_toDigits (by decide) (by decide)]

/-- A natural number starts with a digit. -/
theorem exists_toDigits_eq (n : ℕ) :
    ∃ c cs, Nat.toDigits 10 n = c :: cs ∧ c.isDigit = true := by
  obtain ⟨c, cs, heq⟩ := exists_cons_of_ne_nil Nat.toDigits_ne_nil
  refine ⟨c, cs, heq, Nat.isDigit_of_mem_toDigits (b := 10) (n := n) (by decide) (by decide) ?_⟩
  rw [heq]
  exact mem_cons_self

theorem toDigits_append_ne_minus (n : ℕ) (x y : List Char) :
    Nat.toDigits 10 n ++ x ≠ '-' :: y := by
  obtain ⟨c, cs, heq, hc⟩ := exists_toDigits_eq n
  rw [heq, cons_append]
  rintro h
  rw [(cons.inj h).1] at hc
  exact absurd hc (by decide)

theorem decimal_append_inj {m n : Int} (hx : EndsNumber x) (hy : EndsNumber y)
    (h : decimal m ++ x = decimal n ++ y) : m = n ∧ x = y := by
  cases m with
  | ofNat m =>
    cases n with
    | ofNat n =>
      obtain ⟨rfl, hxy⟩ := toDigits_append_inj hx hy h
      exact ⟨rfl, hxy⟩
    | negSucc n => exact absurd h (toDigits_append_ne_minus m x _)
  | negSucc m =>
    cases n with
    | ofNat n => exact absurd h.symm (toDigits_append_ne_minus n y _)
    | negSucc n =>
      obtain ⟨hmn, hxy⟩ := toDigits_append_inj hx hy (cons.inj h).2
      exact ⟨by rw [Nat.succ.inj hmn], hxy⟩

/-! ## The text determines the value -/

/-- Which constructor a value is built with. -/
def shape : Json → ℕ
  | null => 0
  | bool true => 1
  | bool false => 2
  | str _ => 3
  | arr _ => 4
  | obj _ => 5
  | num _ => 6

/-- The same, read off the first character of the text. A closing bracket starts
no value. -/
def shapeOf (c : Char) : ℕ :=
  if c = 'n' then 0 else if c = 't' then 1 else if c = 'f' then 2 else if c = '"' then 3
  else if c = '[' then 4 else if c = '{' then 5 else if c = ']' then 7 else 6

theorem shapeOf_digit (h : c.isDigit = true) : shapeOf c = 6 := by
  unfold shapeOf
  split_ifs
  iterate 7 · subst_vars; exact absurd h (by decide)
  rfl

theorem exists_write_eq (a : Json) (rest : List Char) :
    ∃ c cs, write a rest = c :: cs ∧ shapeOf c = shape a := by
  match a with
  | null | bool true | bool false | arr [] | arr (_ :: _) | obj [] | obj ((_, _) :: _) =>
      exact ⟨_, _, by rw [write], rfl⟩
  | str s => exact ⟨_, _, by rw [write, quote], rfl⟩
  | num (.ofNat n) =>
      obtain ⟨c, cs, heq, hc⟩ := exists_toDigits_eq n
      exact ⟨c, cs ++ rest, by rw [write, decimal, heq, cons_append], shapeOf_digit hc⟩
  | num (.negSucc n) => exact ⟨_, _, by rw [write, decimal, cons_append], rfl⟩

theorem shape_eq_of_write_eq {a b : Json} (h : write a x = write b y) :
    shape a = shape b := by
  obtain ⟨c, cs, hc, ha⟩ := exists_write_eq a x
  obtain ⟨d, ds, hd, hb⟩ := exists_write_eq b y
  rw [hc, hd] at h
  rw [← ha, ← hb, (cons.inj h).1]

theorem write_ne_bracket (a : Json) (x y : List Char) : write a x ≠ ']' :: y := by
  intro h
  obtain ⟨c, cs, hc, ha⟩ := exists_write_eq a x
  rw [hc] at h
  rw [(cons.inj h).1] at ha
  cases a with
  | bool b => cases b <;> cases ha
  | _ => cases ha

theorem endsNumber_writeElems (elems : List Json) (rest : List Char) :
    EndsNumber (writeElems elems rest) := by
  cases elems <;> simp only [writeElems, EndsNumber, head?_cons, Option.mem_some_iff] <;>
    rintro c rfl <;> rfl

theorem endsNumber_writeFields (fields : List (String × Json)) (rest : List Char) :
    EndsNumber (writeFields fields rest) := by
  cases fields <;> simp only [writeFields, EndsNumber, head?_cons, Option.mem_some_iff] <;>
    rintro c rfl <;> rfl

mutual

/-- A value and the text after it are both determined by the whole. The induction
is on the first value, through the elements and fields it contains. -/
theorem write_injective : ∀ (a b : Json) {x y : List Char}, EndsNumber x → EndsNumber y →
    write a x = write b y → a = b ∧ x = y := by
  intro a b x y hx hy h
  have hshape := shape_eq_of_write_eq h
  match a, b, hshape with
  | null, null, _ | bool true, bool true, _ | bool false, bool false, _
  | arr [], arr [], _ | obj [], obj [], _ => simpa [write] using h
  | num m, num n, _ =>
      obtain ⟨rfl, hxy⟩ := decimal_append_inj hx hy h
      exact ⟨rfl, hxy⟩
  | str s, str t, _ =>
      obtain ⟨rfl, hxy⟩ := quote_inj h
      exact ⟨rfl, hxy⟩
  | arr [], arr (b :: elems), _ =>
      exact absurd (cons.inj h).2.symm (write_ne_bracket b _ _)
  | arr (a :: elems), arr [], _ =>
      exact absurd (cons.inj h).2 (write_ne_bracket a _ _)
  | arr (a :: elems), arr (b :: elems'), _ =>
      obtain ⟨hsame, hxy⟩ := writeElems_injective (a :: elems) (b :: elems')
        (by rw [writeElems, writeElems, (cons.inj h).2])
      exact ⟨congrArg arr hsame, hxy⟩
  | obj [], obj ((_, _) :: _), _ | obj ((_, _) :: _), obj [], _ => simp [write, quote] at h
  | obj ((key, a) :: fields), obj ((key', b) :: fields'), _ =>
      obtain ⟨hsame, hxy⟩ := writeFields_injective ((key, a) :: fields) ((key', b) :: fields')
        (by rw [writeFields, writeFields, (cons.inj h).2])
      exact ⟨congrArg obj hsame, hxy⟩

theorem writeElems_injective : ∀ (l l' : List Json) {x y : List Char},
    writeElems l x = writeElems l' y → l = l' ∧ x = y
  | [], [], _, _, h => by simpa [writeElems] using h
  | [], b :: l', _, _, h => by simp [writeElems] at h
  | a :: l, [], _, _, h => by simp [writeElems] at h
  | a :: l, b :: l', _, _, h => by
      rw [writeElems, writeElems] at h
      obtain ⟨rfl, hrest⟩ := write_injective a b (endsNumber_writeElems _ _)
        (endsNumber_writeElems _ _) (cons.inj h).2
      obtain ⟨rfl, hxy⟩ := writeElems_injective l l' hrest
      exact ⟨rfl, hxy⟩

theorem writeFields_injective : ∀ (l l' : List (String × Json)) {x y : List Char},
    writeFields l x = writeFields l' y → l = l' ∧ x = y
  | [], [], _, _, h => by simpa [writeFields] using h
  | [], (key, b) :: l', _, _, h => by simp [writeFields] at h
  | (key, a) :: l, [], _, _, h => by simp [writeFields] at h
  | (key, a) :: l, (key', b) :: l', _, _, h => by
      rw [writeFields, writeFields] at h
      obtain ⟨rfl, hvalue⟩ := quote_inj (cons.inj h).2
      obtain ⟨rfl, hrest⟩ := write_injective a b (endsNumber_writeFields _ _)
        (endsNumber_writeFields _ _) (cons.inj hvalue).2
      obtain ⟨rfl, hxy⟩ := writeFields_injective l l' hrest
      exact ⟨rfl, hxy⟩

end

theorem write_nil_injective {a b : Json} (h : write a [] = write b []) : a = b :=
  (write_injective a b (fun _ hc => by cases hc) (fun _ hc => by cases hc) h).1

end Json

end Go
