import Mathlib.Data.List.TakeWhile

/-!
The part of Qt's text classes that the program uses. A `QString` is modelled by its
Unicode scalar values, so unpaired surrogates are outside the model.
-/

namespace TextMaster

abbrev QString := List Char

def toStdString (text : QString) : List UInt8 := text.flatMap String.utf8EncodeChar

/-- `QChar::isSpace`: tab to carriage return, next line and the Unicode separators. -/
def isSpace (char : Char) : Bool :=
  let code := char.toNat
  (9 ≤ code && code ≤ 13) || code == 0x20 || code == 0x85 || code == 0xA0 ||
    code == 0x1680 || (0x2000 ≤ code && code ≤ 0x200A) || code == 0x2028 ||
    code == 0x2029 || code == 0x202F || code == 0x205F || code == 0x3000

def trimmed (text : QString) : QString :=
  ((text.dropWhile isSpace).reverse.dropWhile isSpace).reverse

def number (value : Nat) : QString := (toString value).toList

/-- The UTF-16 code units that `QString::left` counts. -/
def utf16 (text : QString) : List UInt16 :=
  text.flatMap fun char =>
    let code := char.toNat
    if code < 0x10000 then [code.toUInt16]
    else [(0xD800 + (code - 0x10000) / 0x400).toUInt16,
      (0xDC00 + (code - 0x10000) % 0x400).toUInt16]

def decimalValue (digits : List Char) : Nat :=
  digits.foldl (fun value digit => 10 * value + (digit.toNat - 48)) 0

/-- Zero for a text that is not a decimal number of 64 bits with an optional sign. -/
def toLongLong (text : QString) : Int :=
  let signed : Int × List Char := match trimmed text with
    | '-' :: digits => (-1, digits)
    | '+' :: digits => (1, digits)
    | digits => (1, digits)
  let value := signed.1 * decimalValue signed.2
  if signed.2 ≠ [] ∧ signed.2.all Char.isDigit ∧ -9223372036854775808 ≤ value ∧
    value ≤ 9223372036854775807 then value else 0

theorem length_le_toStdString (text : QString) : text.length ≤ (toStdString text).length := by
  induction text with
  | nil => simp
  | cons char rest ih =>
      have positive : 0 < (String.utf8EncodeChar char).length := by
        rw [String.length_utf8EncodeChar]
        exact Char.utf8Size_pos char
      simp only [toStdString, List.flatMap_cons, List.length_append, List.length_cons]
      simp only [toStdString] at ih
      omega

theorem trimmed_eq_nil (text : QString) :
    trimmed text = [] ↔ ∀ char ∈ text, isSpace char = true := by
  simp only [trimmed, List.reverse_eq_nil_iff, List.dropWhile_eq_nil_iff, List.mem_reverse]
  constructor
  · intro inner char member
    by_contra visible
    have split := List.takeWhile_append_dropWhile (p := isSpace) (l := text)
    rw [← split, List.mem_append] at member
    rcases member with early | late
    · exact visible (List.mem_takeWhile_imp early)
    · exact visible (inner char late)
  · intro all char member
    exact all char ((List.dropWhile_sublist _).subset member)

theorem trimmed_sublist (text : QString) : (trimmed text).Sublist text := by
  have inner : (text.dropWhile isSpace).Sublist text := List.dropWhile_sublist isSpace
  have outer : ((text.dropWhile isSpace).reverse.dropWhile isSpace).Sublist
      (text.dropWhile isSpace).reverse := List.dropWhile_sublist isSpace
  have turned := outer.reverse
  rw [List.reverse_reverse] at turned
  exact turned.trans inner

theorem trimmed_of_visible {text : QString} (visible : ∀ char ∈ text, isSpace char = false) :
    trimmed text = text := by
  have kept : ∀ part : QString, (∀ char ∈ part, isSpace char = false) →
      part.dropWhile isSpace = part := by
    intro part visible
    cases part with
    | nil => rfl
    | cons char rest => rw [List.dropWhile_cons_of_neg (by simp [visible char (by simp)])]
  rw [trimmed, kept text visible, kept text.reverse (by simpa using visible), List.reverse_reverse]

theorem splitOn_second (text : QString) :
    (text.splitOn '\n')[1]? = none ↔ '\n' ∉ text := by
  constructor
  · intro missing member
    obtain ⟨before, after, rfl⟩ := List.append_of_mem member
    have first := List.length_pos_iff.mpr (List.splitOn_ne_nil '\n' before)
    have second := List.length_pos_iff.mpr (List.splitOn_ne_nil '\n' after)
    rw [List.splitOn_append_cons_self, List.getElem?_eq_none_iff, List.length_append] at missing
    omega
  · intro absent
    rw [List.splitOn_eq_singleton absent]
    rfl

end TextMaster
