import Mathlib.Data.List.Infix
import Mathlib.Data.List.TakeWhile

/-!
The string operations of Python that `nlp_processor.py` uses. A string is the list of its Unicode
scalar values, so lone surrogates are outside the model.
-/

namespace TextMaster.NlpProcessor

abbrev PyString := List Char

/-- `str.isspace` of one character, which is also the class `\s` of a pattern. -/
def isspace (char : Char) : Bool :=
  let code := char.toNat
  (9 ≤ code && code ≤ 13) || (0x1C ≤ code && code ≤ 0x20) || code == 0x85 || code == 0xA0 ||
    code == 0x1680 || (0x2000 ≤ code && code ≤ 0x200A) || code == 0x2028 ||
    code == 0x2029 || code == 0x202F || code == 0x205F || code == 0x3000

/-- The zeros of the decimal digits of Unicode 14, each followed by the digits one to nine. -/
def decimalZeros : List Nat :=
  [0x30, 0x660, 0x6F0, 0x7C0, 0x966, 0x9E6, 0xA66, 0xAE6, 0xB66, 0xBE6, 0xC66, 0xCE6, 0xD66,
    0xDE6, 0xE50, 0xED0, 0xF20, 0x1040, 0x1090, 0x17E0, 0x1810, 0x1946, 0x19D0, 0x1A80, 0x1A90,
    0x1B50, 0x1BB0, 0x1C40, 0x1C50, 0xA620, 0xA8D0, 0xA900, 0xA9D0, 0xA9F0, 0xAA50, 0xABF0,
    0xFF10, 0x104A0, 0x10D30, 0x11066, 0x110F0, 0x11136, 0x111D0, 0x112F0, 0x11450, 0x114D0,
    0x11650, 0x116C0, 0x11730, 0x118E0, 0x11950, 0x11C50, 0x11D50, 0x11DA0, 0x16A60, 0x16AC0,
    0x16B50, 0x1D7CE, 0x1D7D8, 0x1D7E2, 0x1D7EC, 0x1D7F6, 0x1E140, 0x1E2F0, 0x1E950, 0x1FBF0]

/-- `str.isdecimal` of one character, which is also the class `\d` of a pattern. -/
def isdecimal (char : Char) : Bool :=
  decimalZeros.any fun least => least ≤ char.toNat && char.toNat ≤ least + 9

def strip (text : PyString) : PyString :=
  ((text.dropWhile isspace).reverse.dropWhile isspace).reverse

/-- `str.split` without an argument; `word` holds the characters of an unfinished word. -/
def splitFrom (word : PyString) : PyString → List PyString
  | [] => if word = [] then [] else [word]
  | char :: rest =>
    if isspace char then
      if word = [] then splitFrom [] rest else word :: splitFrom [] rest
    else splitFrom (word ++ [char]) rest

def split (text : PyString) : List PyString := splitFrom [] text

def contains (text part : PyString) : Bool := decide (part <:+: text)

def sliceTo {Item : Type} (stop : Int) (items : List Item) : List Item :=
  if 0 ≤ stop then items.take stop.toNat else items.take (items.length - (-stop).toNat)

theorem contains_iff {text part : PyString} : contains text part = true ↔ part <:+: text :=
  decide_eq_true_iff

@[simp] theorem sliceTo_natCast {Item : Type} (count : Nat) (items : List Item) :
    sliceTo count items = items.take count := by
  rw [sliceTo, if_pos (Int.natCast_nonneg count), Int.toNat_natCast]

theorem head?_dropWhile_eq_some {Item : Type} {test : Item → Bool} {items : List Item}
    {item : Item} :
    (items.dropWhile test).head? = some item ↔ test item = false ∧
      ∃ before after, items = before ++ item :: after ∧ ∀ other ∈ before, test other = true := by
  rw [← List.find?_not_eq_head?_dropWhile, List.find?_eq_some_iff_append]
  simp

theorem strip_ends_iff {text : PyString} {char : Char} (visible : isspace char = false) :
    (strip text).getLast? = some char ↔
      ∃ before after, text = before ++ char :: after ∧ ∀ other ∈ after, isspace other = true := by
  have split : ∀ before after, (text.dropWhile isspace = before ++ char :: after) →
      text = text.takeWhile isspace ++ before ++ char :: after := by
    intro before after same
    rw [List.append_assoc, ← same, List.takeWhile_append_dropWhile]
  rw [strip, List.getLast?_reverse, head?_dropWhile_eq_some, and_iff_right visible]
  constructor
  · rintro ⟨after, before, same, blank⟩
    rw [List.reverse_eq_iff, List.reverse_append, List.reverse_cons, List.append_assoc] at same
    exact ⟨_, after.reverse, split _ _ same, by simpa using blank⟩
  · rintro ⟨before, after, rfl, blank⟩
    refine ⟨after.reverse, (before.dropWhile isspace).reverse, ?_, by simpa using blank⟩
    rw [List.dropWhile_append, List.dropWhile_cons_of_neg (by simp [visible])]
    split
    · rename_i empty
      rw [List.isEmpty_iff] at empty
      simp [empty]
    · simp

end TextMaster.NlpProcessor
