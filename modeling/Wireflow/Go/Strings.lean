/-
# The parts of package `strings` the controllers use

Strings are sequences of Unicode scalars. All functions work on the list of
characters of a string, which is also how their lemmas are stated.
-/

import Mathlib.Data.List.Infix
import Mathlib.Data.List.Sort
import Mathlib.Data.String.Basic

namespace Go

namespace Strings

variable (s : String)

/-- `strings.HasPrefix`. -/
def hasPrefix (pre : String) : Bool := pre.toList.isPrefixOf s.toList

/-- `strings.TrimPrefix`. -/
def trimStart (pre : String) : String :=
  if hasPrefix s pre then String.ofList (s.toList.drop pre.toList.length) else s

theorem trimStart_append (pre s : String) : trimStart (pre ++ s) pre = s := by
  simp [trimStart, hasPrefix, String.toList_append]

/-- `strings.TrimSuffix`. -/
def trimSuffix (suffix : String) : String :=
  if suffix.toList.isSuffixOf s.toList then
    String.ofList (s.toList.take (s.toList.length - suffix.toList.length))
  else s

/-- `strings.ToLower`, where only ASCII letters have a case. -/
def toLower : String := String.ofList (s.toList.map Char.toLower)

/-- `strings.ToUpper`, where only ASCII letters have a case. -/
def toUpper : String := String.ofList (s.toList.map Char.toUpper)

/-- `strings.Contains`. -/
def contains (sub : String) : Bool := s.toList.tails.any fun t => sub.toList.isPrefixOf t

theorem contains_of_infix {s sub : String} (h : sub.toList <:+: s.toList) :
    contains s sub = true := by
  obtain ⟨front, back, h⟩ := h
  apply List.any_eq_true.mpr
  refine ⟨sub.toList ++ back, ?_, ?_⟩
  · rw [List.mem_tails, ← h, List.append_assoc]
    exact List.suffix_append _ _
  · rw [List.isPrefixOf_iff_prefix]
    exact List.prefix_append _ _

/-- `strings.TrimRight` for a one-character cutset. -/
def trimRightChar (c : Char) : String :=
  String.ofList (s.toList.reverse.dropWhile (· == c)).reverse

/-- `strings.Contains` for a one-character pattern. -/
def containsChar (c : Char) : Bool := s.toList.contains c

/-- `strings.Split(s, c)[0]` for a one-character separator. -/
def beforeChar (c : Char) : String := String.ofList (s.toList.takeWhile (· != c))

/-- `unicode.IsSpace`. -/
def isSpace (c : Char) : Bool :=
  c.toNat ∈ [0x09, 0x0A, 0x0B, 0x0C, 0x0D, 0x20, 0x85, 0xA0, 0x1680, 0x2000, 0x2001, 0x2002,
    0x2003, 0x2004, 0x2005, 0x2006, 0x2007, 0x2008, 0x2009, 0x200A, 0x2028, 0x2029, 0x202F,
    0x205F, 0x3000]

/-- `strings.TrimSpace`. -/
def trimSpace : String :=
  String.ofList ((s.toList.dropWhile isSpace).reverse.dropWhile isSpace).reverse

/-- What is left does not end in white space. -/
theorem isSpace_of_getLast?_trimSpace {s : String} {c : Char}
    (h : (trimSpace s).toList.getLast? = some c) : isSpace c = false := by
  rw [trimSpace, String.toList_ofList, List.getLast?_reverse] at h
  have hhead := List.head?_dropWhile_not isSpace (s.toList.dropWhile isSpace).reverse
  rw [h] at hhead
  simpa using hhead

/-- `strings.TrimSpace(s) == ""`: nothing but white space. -/
def isBlank : Bool := s.toList.all isSpace

/-- `strings.EqualFold` against an upper-case ASCII word none of whose letters
folds with a character outside ASCII. -/
def equalFold (word : String) : Bool := s.toList.map Char.toUpper == word.toList

/-- `strings.Join(parts, ",")`. -/
def joinComma (parts : List String) : String := String.intercalate "," parts

/-- The elements of a list in ascending order, as `sort.Strings` leaves them. -/
def sortStrings (l : List String) : List String := l.insertionSort (· ≤ ·)

theorem mem_sortStrings {l : List String} {a : String} : a ∈ sortStrings l ↔ a ∈ l :=
  (List.perm_insertionSort _ l).mem_iff

end Strings

end Go
