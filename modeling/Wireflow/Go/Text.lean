/-
# Lines, settings and hexadecimal text

What a reader of a line-oriented protocol uses: the lines of a text, as `bufio.Scanner` finds
them, `strings.Cut` at a separator, and numbers in hexadecimal. Lines that hold no line break of
their own are read back as they were written, up to a carriage return at their end; and whatever
the text was, no line that is read holds a line break.
-/

import Wireflow.Go.Net

namespace Go

namespace Text

open Go.Net

/-! ## Lines -/

/-- A line without the carriage return at its end. -/
def dropCR (line : List Char) : List Char :=
  if line.getLast? = some '\r' then line.dropLast else line

/-- `bufio.ScanLines`. What follows the last line break is a line unless it is empty. -/
def scanLines (text : List Char) : List (List Char) :=
  let fields := splitOn '\n' text
  (if fields.getLast? = some [] then fields.dropLast else fields).map dropCR

theorem dropCR_ne {line : List Char} (h : line.getLast? = some '\r') : dropCR line ≠ line := by
  rw [dropCR, if_pos h]
  intro hsame
  have hlength := congrArg List.length hsame
  have hne : line ≠ [] := by
    rintro rfl
    cases h
  have := List.length_pos_of_ne_nil hne
  rw [List.length_dropLast] at hlength
  omega

/-- Only the last part of a line matters, if there is one. -/
theorem dropCR_append (start : List Char) {rest : List Char} (h : rest ≠ []) :
    dropCR (start ++ rest) = start ++ dropCR rest := by
  have hlast : (start ++ rest).getLast? = rest.getLast? := by
    rw [List.getLast?_append, Option.or_of_isSome]
    rwa [List.getLast?_isSome]
  rw [dropCR, dropCR, hlast]
  split_ifs
  · rw [List.dropLast_append_of_ne_nil h]
  · rfl

theorem dropCR_subset (line : List Char) : dropCR line ⊆ line := by
  unfold dropCR
  split_ifs
  · exact List.dropLast_subset line
  · exact fun _ hc => hc

variable {sep : Char}

theorem notMem_splitOn (text : List Char) :
    ∀ field ∈ splitOn sep text, sep ∉ field := by
  induction text with
  | nil => simp [splitOn]
  | cons c text ih =>
    rw [splitOn]
    split_ifs with hc
    · intro field hfield
      rcases List.mem_cons.mp hfield with rfl | hfield
      · exact List.not_mem_nil
      · exact ih field hfield
    · split
      · simpa using Ne.symm hc
      · rename_i first fields heq
        rw [heq] at ih
        intro field hfield
        rcases List.mem_cons.mp hfield with rfl | hfield
        · rw [List.mem_cons, not_or]
          exact ⟨Ne.symm hc, ih first List.mem_cons_self⟩
        · exact ih field (List.mem_cons_of_mem _ hfield)

theorem notMem_scanLines {text line : List Char} (h : line ∈ scanLines text) : '\n' ∉ line := by
  obtain ⟨field, hfield, rfl⟩ := List.mem_map.mp h
  have hsplit : field ∈ splitOn '\n' text := by
    split_ifs at hfield
    · exact List.dropLast_subset _ hfield
    · exact hfield
  exact fun hc => notMem_splitOn text field hsplit (dropCR_subset field hc)

theorem splitOn_lines {lines : List (List Char)} (h : ∀ line ∈ lines, '\n' ∉ line) :
    splitOn '\n' (lines.flatMap (· ++ ['\n'])) = lines ++ [[]] := by
  induction lines with
  | nil => rfl
  | cons line lines ih =>
    rw [List.forall_mem_cons] at h
    rw [List.flatMap_cons, List.append_assoc, List.singleton_append, splitOn_append h.1, ih h.2,
      List.cons_append]

theorem scanLines_lines {lines : List (List Char)} (h : ∀ line ∈ lines, '\n' ∉ line) :
    scanLines (lines.flatMap (· ++ ['\n'])) = lines.map dropCR := by
  rw [scanLines, splitOn_lines h]
  simp

/-! ## Settings -/

/-- `strings.Cut` at a separator of one character. -/
def cut (sep : Char) (text : List Char) : Option (List Char × List Char) :=
  if sep ∈ text then
    some (text.takeWhile (· ≠ sep), (text.dropWhile (· ≠ sep)).tail)
  else none

theorem cut_append {key : List Char} (h : sep ∉ key) (value : List Char) :
    cut sep (key ++ sep :: value) = some (key, value) := by
  have htake : ∀ c ∈ key, decide (c ≠ sep) = true := fun c hc =>
    decide_eq_true fun heq => h (heq ▸ hc)
  rw [cut, if_pos (by simp), List.takeWhile_append_of_pos htake,
    List.dropWhile_append_of_pos htake]
  simp

/-- The value of a setting holds nothing that its line does not. -/
theorem value_subset_of_cut {text key value : List Char} (h : cut sep text = some (key, value)) :
    value ⊆ text := by
  unfold cut at h
  split_ifs at h
  obtain ⟨-, rfl⟩ := Prod.mk.inj (Option.some.inj h)
  exact fun _ hc => (List.dropWhile_suffix _).subset (List.mem_of_mem_tail hc)

theorem exists_of_mem_mapM {α β : Type} {f : α → Option β} {l : List α} {l' : List β}
    (h : l.mapM f = some l') {b : β} (hb : b ∈ l') : ∃ a ∈ l, f a = some b := by
  induction l generalizing l' with
  | nil =>
    cases h
    cases hb
  | cons a l ih =>
    rw [List.mapM_cons] at h
    obtain ⟨first, hfirst, h⟩ := Option.bind_eq_some_iff.mp h
    obtain ⟨rest, hrest, h⟩ := Option.bind_eq_some_iff.mp h
    cases h
    rcases List.mem_cons.mp hb with rfl | hb
    · exact ⟨a, List.mem_cons_self, hfirst⟩
    · obtain ⟨a', ha', hf⟩ := ih hrest hb
      exact ⟨a', List.mem_cons_of_mem _ ha', hf⟩

/-! ## Hexadecimal text -/

/-- The bytes that a text in hexadecimal stands for. -/
def decodeHex : List Char → Option (List ℕ)
  | [] => some []
  | [_] => none
  | a :: b :: rest => do
      let high ← hexDigit? a
      let low ← hexDigit? b
      let bytes ← decodeHex rest
      pure ((16 * high + low) :: bytes)

theorem hexDigit_value : ∀ n : Fin 16, hexDigit? (hexDigit n) = some n.val := by decide

theorem decodeHex_encodeHex {bytes : List ℕ} (h : ∀ b ∈ bytes, b < 256) :
    decodeHex (encodeHex bytes).toList = some bytes := by
  rw [encodeHex, String.toList_ofList]
  induction bytes with
  | nil => rfl
  | cons b bytes ih =>
    rw [List.forall_mem_cons] at h
    have hhigh := hexDigit_value ⟨b / 16, by omega⟩
    have hlow := hexDigit_value ⟨b % 16, by omega⟩
    rw [List.flatMap_cons, List.cons_append, List.cons_append, List.nil_append, decodeHex, hhigh,
      hlow, ih h.2]
    simp only [bind, Option.bind, pure, Option.some.injEq, List.cons.injEq, and_true]
    omega

theorem hexDigit_plain : ∀ n : Fin 16, hexDigit n ≠ '\n' ∧ hexDigit n ≠ '\r' := by decide

/-- No byte is written as a line break or a carriage return. -/
theorem encodeHex_plain {bytes : List ℕ} (h : ∀ b ∈ bytes, b < 256) {c : Char}
    (hc : c ∈ (encodeHex bytes).toList) : c ≠ '\n' ∧ c ≠ '\r' := by
  rw [encodeHex, String.toList_ofList, List.mem_flatMap] at hc
  obtain ⟨b, hb, hc⟩ := hc
  have hlt := h b hb
  simp only [List.mem_cons, List.not_mem_nil, or_false] at hc
  rcases hc with rfl | rfl
  · exact hexDigit_plain ⟨b / 16, by omega⟩
  · exact hexDigit_plain ⟨b % 16, by omega⟩

/-- The number that bytes stand for, most significant first. -/
def ofBytes (bytes : List ℕ) : ℕ := bytes.foldl (fun n b => n * 256 + b) 0

/-- The low bytes of a number, most significant first. -/
def toBytes (value : ℕ) : ℕ → List ℕ
  | 0 => []
  | n + 1 => toBytes (value / 256) n ++ [value % 256]

theorem length_toBytes (value n : ℕ) : (toBytes value n).length = n := by
  induction n generalizing value with
  | zero => rfl
  | succ n ih => rw [toBytes, List.length_append, ih, List.length_singleton]

theorem lt_of_mem_toBytes {value n b : ℕ} (h : b ∈ toBytes value n) : b < 256 := by
  induction n generalizing value with
  | zero => cases h
  | succ n ih =>
    rcases List.mem_append.mp h with h | h
    · exact ih h
    · rw [List.mem_singleton.mp h]
      omega

theorem ofBytes_toBytes {value n : ℕ} (h : value < 256 ^ n) :
    ofBytes (toBytes value n) = value := by
  induction n generalizing value with
  | zero => simp_all [toBytes, ofBytes]
  | succ n ih =>
    have hdiv : value / 256 < 256 ^ n := by
      exact Nat.div_lt_of_lt_mul (by rwa [Nat.mul_comm])
    have hfold : ofBytes (toBytes value (n + 1)) = ofBytes (toBytes (value / 256) n) * 256
        + value % 256 := by
      rw [toBytes, ofBytes, List.foldl_append]
      rfl
    rw [hfold, ih hdiv]
    omega

end Text

end Go
