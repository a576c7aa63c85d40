import Mathlib.Data.List.Chain
import Mathlib.Data.List.DropRight
import TextMaster.CleanText

/-!
What `clean_text` makes of a text: one tidy line, in which a mark at the start is spelled out.
-/

namespace TextMaster.NlpProcessor

/-- The start of a list item and what the substitutions make of it. -/
inductive Mark : PyString → PyString → Prop where
  | bullet (marker : Char) : isMarker marker = true → Mark [marker] ['•', ' ']
  | number (digits : PyString) : digits ≠ [] → (∀ char ∈ digits, isdecimal char = true) →
      Mark (digits ++ ['.']) (digits ++ ['.', ' '])

def bulleted : PyString → PyString
  | '-' :: rest => '•' :: rest
  | text => text

section Characters

theorem not_isspace_of_isdecimal {char : Char} (decimal : isdecimal char = true) :
    isspace char = false := by
  have table : ∀ least ∈ decimalZeros, ∀ offset < 10,
      isspace (Char.ofNat (least + offset)) = false := by decide +kernel
  obtain ⟨least, member, range⟩ := List.any_eq_true.mp decimal
  simp only [Bool.and_eq_true, decide_eq_true_eq] at range
  have visible := table least member (char.toNat - least) (by omega)
  rwa [Nat.add_sub_cancel' range.1, Char.ofNat_toNat] at visible

theorem isMarker_iff {char : Char} : isMarker char = true ↔ char = '-' ∨ char = '•' := by
  simp [isMarker]

theorem not_isspace_of_isMarker {char : Char} (marker : isMarker char = true) :
    isspace char = false := by
  rcases isMarker_iff.mp marker with rfl | rfl <;> decide

theorem not_isMarker_of_isdecimal {char : Char} (decimal : isdecimal char = true) :
    isMarker char = false := by
  by_contra marker
  rcases isMarker_iff.mp (by simpa using marker) with rfl | rfl
  · exact absurd decimal (by decide)
  · exact absurd decimal (by decide)

variable {word out : PyString}

theorem Mark.visible (mark : Mark word out) : ∀ char ∈ word, isspace char = false := by
  cases mark with
  | bullet marker counts =>
      intro char member
      rw [List.mem_singleton.mp member]
      exact not_isspace_of_isMarker counts
  | number digits nonempty decimal =>
      intro char member
      rcases List.mem_append.mp member with digit | dot
      · exact not_isspace_of_isdecimal (decimal char digit)
      · rw [List.mem_singleton.mp dot]
        decide

theorem Mark.ne_nil (mark : Mark word out) : word ≠ [] := by
  cases mark with
  | bullet marker counts => simp
  | number digits nonempty decimal => simp

theorem bulleted_other {text : PyString}
    (other : ∀ char, text.head? = some char → isMarker char = false) : bulleted text = text := by
  unfold bulleted
  split
  · exact absurd (other '-' rfl) (by decide)
  · rfl

theorem Mark.again (mark : Mark word out) :
    ∃ spelled, out = spelled ++ [' '] ∧ Mark spelled out ∧
      ∀ rest, bulleted (word ++ rest) = spelled ++ rest := by
  cases mark with
  | bullet marker counts =>
      refine ⟨['•'], rfl, .bullet '•' (by decide), ?_⟩
      intro rest
      rcases isMarker_iff.mp counts with rfl | rfl <;> rfl
  | number digits nonempty decimal =>
      refine ⟨digits ++ ['.'], by simp, .number digits nonempty decimal, ?_⟩
      intro rest
      apply bulleted_other
      intro char found
      cases digits with
      | nil => exact absurd rfl nonempty
      | cons digit more =>
          obtain rfl : digit = char := by simpa using found
          exact not_isMarker_of_isdecimal (decimal digit List.mem_cons_self)

end Characters

section Collapse

theorem collapseFrom_append {char : Char} (visible : isspace char = false) (early late : PyString)
    (inMatch : Bool) :
    collapseFrom inMatch (early ++ char :: late) =
      collapseFrom inMatch early ++ char :: collapseFrom false late := by
  induction early generalizing inMatch with
  | nil => simp [collapseFrom, visible]
  | cons head rest ih =>
      rw [List.cons_append, collapseFrom, collapseFrom]
      split
      · split
        · exact ih true
        · rw [ih true, List.cons_append]
      · rw [ih false, List.cons_append]

structure SingleSpaced (text : PyString) : Prop where
  blank : ∀ char ∈ text, isspace char = true → char = ' '
  single : text.IsChain fun first second => ¬ (isspace first = true ∧ isspace second = true)
  first : ∀ char, text.head? = some char → isspace char = false

structure Tidy (text : PyString) : Prop extends SingleSpaced text where
  last : ∀ char, text.getLast? = some char → isspace char = false

theorem collapseFrom_blank (text : PyString) (inMatch : Bool) :
    ∀ char ∈ collapseFrom inMatch text, isspace char = true → char = ' ' := by
  induction text generalizing inMatch with
  | nil => simp [collapseFrom]
  | cons head rest ih =>
      rw [collapseFrom]
      split
      · split
        · exact ih true
        · intro char member space
          rcases List.mem_cons.mp member with same | later
          · exact same
          · exact ih true char later space
      · rename_i visible
        intro char member space
        rcases List.mem_cons.mp member with rfl | later
        · exact absurd space visible
        · exact ih false char later space

theorem collapseFrom_single (text : PyString) (inMatch : Bool) :
    (collapseFrom inMatch text).IsChain
        (fun first second => ¬ (isspace first = true ∧ isspace second = true)) ∧
      (inMatch = true → ∀ char, (collapseFrom inMatch text).head? = some char →
        isspace char = false) := by
  induction text generalizing inMatch with
  | nil => simp [collapseFrom]
  | cons head rest ih =>
      rw [collapseFrom]
      split
      · split
        · rename_i inside
          exact ⟨(ih true).1, fun _ => (ih true).2 rfl⟩
        · rename_i outside
          refine ⟨?_, fun inside => absurd inside outside⟩
          rw [List.isChain_cons]
          refine ⟨?_, (ih true).1⟩
          intro next found both
          rw [(ih true).2 rfl next found] at both
          exact absurd both.2 (by decide)
      · rename_i visible
        refine ⟨?_, ?_⟩
        · rw [List.isChain_cons]
          exact ⟨fun next _ both => visible both.1, (ih false).1⟩
        · rintro - char ⟨⟩
          simpa using visible

theorem collapseFrom_fixed {text : PyString}
    (blank : ∀ char ∈ text, isspace char = true → char = ' ')
    (single : text.IsChain fun first second => ¬ (isspace first = true ∧ isspace second = true))
    {inMatch : Bool} (first : inMatch = true → ∀ char, text.head? = some char →
      isspace char = false) : collapseFrom inMatch text = text := by
  induction text generalizing inMatch with
  | nil => rfl
  | cons head rest ih =>
      rw [List.isChain_cons] at single
      have later : ∀ char ∈ rest, isspace char = true → char = ' ' :=
        fun char member => blank char (List.mem_cons_of_mem _ member)
      rw [collapseFrom]
      split
      · rename_i space
        split
        · rename_i inside
          rw [first inside head rfl] at space
          contradiction
        · rw [ih later single.2 fun _ char found => by
            simpa [space] using single.1 char found, blank head List.mem_cons_self space]
      · rw [ih later single.2 fun impossible => by contradiction]

end Collapse

section Strip

theorem strip_eq (text : PyString) : strip text = (text.dropWhile isspace).rdropWhile isspace := rfl

theorem dropWhile_visible {text : PyString}
    (first : ∀ char, text.head? = some char → isspace char = false) :
    text.dropWhile isspace = text := by
  cases text with
  | nil => rfl
  | cons head rest => rw [List.dropWhile_cons_of_neg (by simp [first head rfl])]

theorem head_visible {word : PyString} (visible : ∀ char ∈ word, isspace char = false)
    (nonempty : word ≠ []) (after : PyString) :
    ∀ char, (word ++ after).head? = some char → isspace char = false := by
  cases word with
  | nil => exact absurd rfl nonempty
  | cons head rest =>
      rintro char ⟨⟩
      exact visible head List.mem_cons_self

theorem takeWhile_visible {text : PyString}
    (first : ∀ char, text.head? = some char → isspace char = false) :
    text.takeWhile isspace = [] := by
  cases text with
  | nil => rfl
  | cons head rest => rw [List.takeWhile_cons_of_neg (by simp [first head rfl])]

theorem dropWhile_first {text : PyString} {char : Char}
    (found : (text.dropWhile isspace).head? = some char) : isspace char = false := by
  have visible := List.head?_dropWhile_not isspace text
  rwa [found] at visible

theorem strip_first {text : PyString} {char : Char} (found : (strip text).head? = some char) :
    isspace char = false := by
  obtain ⟨late, whole⟩ := List.rdropWhile_prefix isspace (text.dropWhile isspace)
  rw [← strip_eq] at whole
  have dropped : (text.dropWhile isspace).head? = some char := by
    rw [← whole, List.head?_append, found]
    rfl
  exact dropWhile_first dropped

theorem strip_last {text : PyString} {char : Char} (found : (strip text).getLast? = some char) :
    isspace char = false := by
  have nonempty : strip text ≠ [] := by
    intro empty
    simp [empty] at found
  have visible := List.rdropWhile_last_not isspace (text.dropWhile isspace) nonempty
  rw [List.getLast?_eq_some_getLast nonempty, Option.some.injEq] at found
  rw [← found]
  exact Bool.eq_false_iff.mpr visible

theorem strip_visible {text : PyString}
    (first : ∀ char, text.head? = some char → isspace char = false)
    (last : ∀ char, text.getLast? = some char → isspace char = false) : strip text = text := by
  rw [strip_eq, dropWhile_visible first, List.rdropWhile_eq_self_iff]
  intro nonempty
  simp [last _ (List.getLast?_eq_some_getLast nonempty)]

def tidied (text : PyString) : PyString := collapseFrom false (strip text)

theorem tidied_tidy (text : PyString) : Tidy (tidied text) := by
  refine ⟨⟨collapseFrom_blank _ false, (collapseFrom_single _ false).1, ?_⟩, ?_⟩
  · intro char found
    rw [tidied] at found
    cases stripped : strip text with
    | nil => simp [stripped, collapseFrom] at found
    | cons head rest =>
        have visible : isspace head = false := strip_first (by rw [stripped]; rfl)
        rw [stripped, ← List.nil_append (head :: rest), collapseFrom_append visible] at found
        simp only [collapseFrom, List.nil_append, List.head?_cons, Option.some.injEq] at found
        rwa [← found]
  · intro char found
    rw [tidied] at found
    rcases List.eq_nil_or_concat (strip text) with empty | ⟨early, last, stripped⟩
    · simp [empty, collapseFrom] at found
    · have visible : isspace last = false := strip_last (by
        rw [stripped, List.concat_eq_append, List.getLast?_concat])
      rw [stripped, List.concat_eq_append, collapseFrom_append visible] at found
      simp only [collapseFrom, List.getLast?_append, List.getLast?_singleton, Option.some_or,
        Option.some.injEq] at found
      rwa [← found]

theorem Tidy.tidied_eq {text : PyString} (tidy : Tidy text) : tidied text = text := by
  rw [tidied, strip_visible tidy.first tidy.last]
  exact collapseFrom_fixed tidy.blank tidy.single fun impossible => by contradiction

end Strip

section Substitution

variable {pattern : PyString → Option LineMatch}

theorem within_cons {char : Char} {rest : PyString} (within : '\n' ∉ char :: rest) :
    (char == '\n') = false ∧ '\n' ∉ rest := by
  constructor
  · rw [beq_eq_false_iff_ne]
    rintro rfl
    exact within List.mem_cons_self
  · exact fun member => within (List.mem_cons_of_mem _ member)

theorem subLines_within {text : PyString} (within : '\n' ∉ text) (fuel : Nat) :
    subLines pattern fuel false text = text := by
  induction fuel generalizing text with
  | zero => rfl
  | succ fuel ih =>
      cases text with
      | nil => rfl
      | cons char rest =>
          obtain ⟨same, later⟩ := within_cons within
          simp [subLines, same, ih later]

theorem sub_of_some {text : PyString} {found : LineMatch} (within : '\n' ∉ text)
    (hit : pattern text = some found) (whole : found.matched ++ found.rest = text)
    (nonempty : text ≠ []) : sub pattern text = found.replacement ++ found.rest := by
  cases text with
  | nil => exact absurd rfl nonempty
  | cons char rest =>
      have inside : (found.matched.getLast? == some '\n') = false := by
        rw [beq_eq_false_iff_ne]
        intro ends
        apply within
        rw [← whole]
        exact List.mem_append_left _ (List.mem_of_getLast? ends)
      have behind : '\n' ∉ found.rest := by
        rw [← whole] at within
        exact fun member => within (List.mem_append_right _ member)
      simp [sub, subLines, hit, inside, subLines_within behind]

theorem sub_of_none {text : PyString} (within : '\n' ∉ text) (fails : pattern text = none) :
    sub pattern text = text := by
  cases text with
  | nil => rfl
  | cons char rest =>
      obtain ⟨same, later⟩ := within_cons within
      simp [sub, subLines, fails, same, subLines_within later]

theorem SingleSpaced.one_line {text : PyString} (spaced : SingleSpaced text) : '\n' ∉ text :=
  fun member => absurd (spaced.blank '\n' member (by decide)) (by decide)

end Substitution

section Marks

variable {text word out after : PyString}

theorem bulletLine_marker {marker : Char} (counts : isMarker marker = true) (after : PyString) :
    bulletLine (marker :: after) =
      some ⟨['•', ' '], marker :: after.takeWhile isspace, after.dropWhile isspace⟩ := by
  have visible := not_isspace_of_isMarker counts
  simp [bulletLine, visible, counts]

theorem bulletLine_none {first : Char} (visible : isspace first = false)
    (other : isMarker first = false) (rest : PyString) : bulletLine (first :: rest) = none := by
  simp [bulletLine, visible, other]

theorem numberLine_digits {digits : PyString} (nonempty : digits ≠ [])
    (decimal : ∀ char ∈ digits, isdecimal char = true) (after : PyString) :
    numberLine (digits ++ '.' :: after) =
      some ⟨digits ++ ['.', ' '], digits ++ '.' :: after.takeWhile isspace,
        after.dropWhile isspace⟩ := by
  have first := head_visible (fun char member => not_isspace_of_isdecimal (decimal char member))
    nonempty ('.' :: after)
  have dot : isdecimal '.' = false := by decide
  have taken : (digits ++ '.' :: after).takeWhile isdecimal = digits := by
    rw [List.takeWhile_append_of_pos decimal, List.takeWhile_cons_of_neg (by simp [dot]),
      List.append_nil]
  have dropped : (digits ++ '.' :: after).dropWhile isdecimal = '.' :: after := by
    rw [List.dropWhile_append_of_pos decimal, List.dropWhile_cons_of_neg (by simp [dot])]
  simp only [numberLine, dropWhile_visible first, takeWhile_visible first, taken, dropped,
    if_neg nonempty, List.nil_append]

theorem numberLine_none
    (first : ∀ char, text.head? = some char → isspace char = false)
    (plain : ∀ digits after, digits ≠ [] → (∀ char ∈ digits, isdecimal char = true) →
      text ≠ digits ++ '.' :: after) : numberLine text = none := by
  simp only [numberLine, dropWhile_visible first]
  split
  · rename_i after dropped
    split
    · rfl
    · rename_i nonempty
      have whole := List.takeWhile_append_dropWhile (p := isdecimal) (l := text)
      rw [dropped] at whole
      exact absurd whole.symm (plain _ after nonempty fun char member =>
        List.mem_takeWhile_imp member)
  · rfl

theorem numberLine_other {first : Char} (visible : isspace first = false)
    (other : isdecimal first = false) (rest : PyString) : numberLine (first :: rest) = none := by
  apply numberLine_none
  · rintro char ⟨⟩
    exact visible
  · intro digits after nonempty decimal same
    cases digits with
    | nil => exact nonempty rfl
    | cons digit more =>
        obtain ⟨rfl, _⟩ := List.cons.inj same
        rw [decimal first List.mem_cons_self] at other
        contradiction

theorem cleanText_eq (text : PyString) :
    cleanText text = sub numberLine (sub bulletLine (tidied text)) := rfl

theorem cleanText_of_mark (mark : Mark word out) (starts : tidied text = word ++ after) :
    cleanText text = out ++ after.dropWhile isspace := by
  have within := (tidied_tidy text).one_line
  rw [cleanText_eq]
  rw [starts] at within ⊢
  have behind : '\n' ∉ after.dropWhile isspace := fun member =>
    within (List.mem_append_right _ ((List.dropWhile_sublist _).subset member))
  cases mark with
  | bullet marker counts =>
      rw [List.singleton_append] at within ⊢
      rw [sub_of_some within (bulletLine_marker counts after) (by
        rw [List.cons_append, List.takeWhile_append_dropWhile]) (List.cons_ne_nil _ _)]
      apply sub_of_none
      · simpa using behind
      · exact numberLine_other (by decide) (by decide) _
  | number digits nonempty decimal =>
      rw [List.append_assoc, List.singleton_append] at within ⊢
      have kept : sub bulletLine (digits ++ '.' :: after) = digits ++ '.' :: after := by
        apply sub_of_none within
        cases digits with
        | nil => exact absurd rfl nonempty
        | cons digit more =>
            have head := decimal digit List.mem_cons_self
            exact bulletLine_none (not_isspace_of_isdecimal head) (not_isMarker_of_isdecimal head) _
      rw [kept, sub_of_some within (numberLine_digits nonempty decimal after) (by
        simp [List.takeWhile_append_dropWhile]) (by simp)]

theorem first_not_isMarker (plain : ∀ word out, Mark word out → ¬ word <+: tidied text) :
    ∀ char, (tidied text).head? = some char → isMarker char = false := by
  intro char found
  obtain ⟨rest, start⟩ := List.head?_eq_some_iff.mp found
  by_contra marker
  apply plain [char] _ (.bullet char (by simpa using marker))
  rw [start]
  exact List.prefix_append [char] rest

theorem cleanText_of_plain (plain : ∀ word out, Mark word out → ¬ word <+: tidied text) :
    cleanText text = tidied text := by
  have tidy := tidied_tidy text
  have bullets : bulletLine (tidied text) = none := by
    cases start : tidied text with
    | nil => rfl
    | cons first rest =>
        have head : (tidied text).head? = some first := by rw [start]; rfl
        exact bulletLine_none (tidy.first first head) (first_not_isMarker plain first head) rest
  rw [cleanText_eq, sub_of_none tidy.one_line bullets]
  apply sub_of_none tidy.one_line
  apply numberLine_none tidy.first
  intro digits after nonempty decimal same
  apply plain _ _ (.number digits nonempty decimal)
  rw [same]
  exact ⟨after, by simp⟩

end Marks

section Normaliser

def content (text : PyString) : PyString := text.filter fun char => !isspace char

variable {text word out after spelled rest : PyString}

theorem content_append (early late : PyString) :
    content (early ++ late) = content early ++ content late := List.filter_append ..

theorem content_visible (visible : ∀ char ∈ word, isspace char = false) : content word = word := by
  rw [content, List.filter_eq_self]
  intro char member
  rw [visible char member]
  rfl

theorem content_dropWhile (text : PyString) : content (text.dropWhile isspace) = content text := by
  induction text with
  | nil => rfl
  | cons head rest ih =>
      by_cases space : isspace head = true
      · rw [List.dropWhile_cons_of_pos space, ih, content, content,
          List.filter_cons_of_neg (by simp [space])]
      · rw [List.dropWhile_cons_of_neg space]

theorem content_strip (text : PyString) : content (strip text) = content text := by
  have reversed := content_dropWhile (text.dropWhile isspace).reverse
  rw [content, content, List.filter_reverse] at reversed
  rw [content, strip, List.filter_reverse, reversed, List.reverse_reverse]
  exact content_dropWhile text

theorem content_collapseFrom (text : PyString) (inMatch : Bool) :
    content (collapseFrom inMatch text) = content text := by
  induction text generalizing inMatch with
  | nil => rfl
  | cons head rest ih =>
      have counted : content (head :: rest) = content [head] ++ content rest :=
        content_append [head] rest
      rw [collapseFrom, counted]
      split
      · rename_i space
        have skipped : content [head] = [] := by simp [content, space]
        rw [skipped, List.nil_append]
        split
        · exact ih true
        · rw [← ih true]
          rfl
      · rw [← ih false]
        exact content_append [head] (collapseFrom false rest)

theorem content_tidied (text : PyString) : content (tidied text) = content text := by
  rw [tidied, content_collapseFrom, content_strip]

theorem Tidy.dropWhile (tidy : Tidy (word ++ after)) : Tidy (after.dropWhile isspace) := by
  have suffix : after.dropWhile isspace <:+ word ++ after :=
    (List.dropWhile_suffix isspace).trans (List.suffix_append word after)
  refine ⟨⟨fun char member => tidy.blank char (suffix.subset member), tidy.single.suffix suffix,
    fun char => dropWhile_first⟩, ?_⟩
  intro char found
  obtain ⟨early, whole⟩ := suffix
  apply tidy.last
  rw [← whole, List.getLast?_append, found]
  rfl

theorem tidy_of_visible (visible : ∀ char ∈ word, isspace char = false) : Tidy word := by
  constructor
  · constructor
    · intro char member space
      rw [visible char member] at space
      contradiction
    · apply List.Pairwise.isChain
      apply List.pairwise_of_forall_mem_list
      intro first member second _ both
      rw [visible first member] at both
      exact absurd both.1 (by decide)
    · exact fun char found => visible char (List.mem_of_head? found)
  · exact fun char found => visible char (List.mem_of_getLast? found)

theorem spelled_singleSpaced (mark : Mark spelled out) (tidy : Tidy rest) :
    SingleSpaced (spelled ++ ' ' :: rest) := by
  have word := tidy_of_visible mark.visible
  constructor
  · intro char member space
    rcases List.mem_append.mp member with early | late
    · exact word.blank char early space
    · rcases List.mem_cons.mp late with same | behind
      · exact same
      · exact tidy.blank char behind space
  · apply word.single.append
    · rw [List.isChain_cons]
      refine ⟨fun next found both => ?_, tidy.single⟩
      rw [tidy.first next found] at both
      exact absurd both.2 (by decide)
    · intro last found _ _ both
      rw [word.last last found] at both
      exact absurd both.1 (by decide)
  · exact head_visible mark.visible mark.ne_nil _

theorem tidied_spelled (mark : Mark spelled out) (tidy : Tidy rest) :
    ∃ tail, tidied (spelled ++ ' ' :: rest) = spelled ++ tail ∧ tail.dropWhile isspace = rest := by
  have spaced := spelled_singleSpaced mark tidy
  rcases List.eq_nil_or_concat rest with rfl | ⟨early, last, same⟩
  · have word := tidy_of_visible mark.visible
    have stripped : strip (spelled ++ [' ']) = strip spelled := by
      rw [strip_eq, strip_eq, dropWhile_visible spaced.first, dropWhile_visible word.first,
        List.rdropWhile_concat_pos _ _ _ (by decide)]
    refine ⟨[], ?_, rfl⟩
    rw [tidied, stripped, ← tidied, word.tidied_eq, List.append_nil]
  · have whole : Tidy (spelled ++ ' ' :: rest) := by
      refine ⟨spaced, ?_⟩
      intro char found
      apply tidy.last
      rw [same, List.concat_eq_append] at found ⊢
      rw [← List.cons_append, ← List.append_assoc, List.getLast?_concat] at found
      rwa [List.getLast?_concat]
    refine ⟨' ' :: rest, whole.tidied_eq, ?_⟩
    rw [List.dropWhile_cons_of_pos (by decide), dropWhile_visible tidy.first]

theorem cleanText_cases (text : PyString) :
    (∃ word out spelled after, Mark word out ∧ Mark spelled out ∧ out = spelled ++ [' '] ∧
        (∀ rest, bulleted (word ++ rest) = spelled ++ rest) ∧ tidied text = word ++ after ∧
        cleanText text = spelled ++ ' ' :: after.dropWhile isspace) ∨
      (∀ word out, Mark word out → ¬ word <+: tidied text) ∧ cleanText text = tidied text := by
  by_cases plain : ∀ word out, Mark word out → ¬ word <+: tidied text
  · exact Or.inr ⟨plain, cleanText_of_plain plain⟩
  · push Not at plain
    obtain ⟨word, out, mark, after, starts⟩ := plain
    obtain ⟨spelled, same, again, turned⟩ := mark.again
    refine Or.inl ⟨word, out, spelled, after, mark, again, same, turned, starts.symm, ?_⟩
    rw [cleanText_of_mark mark starts.symm, same, List.append_assoc, List.singleton_append]

theorem cleanText_singleSpaced (text : PyString) : SingleSpaced (cleanText text) := by
  have tidy := tidied_tidy text
  rcases cleanText_cases text with ⟨_, _, _, _, _, again, _, _, starts, same⟩ | ⟨_, same⟩
  · rw [starts] at tidy
    rw [same]
    exact spelled_singleSpaced again tidy.dropWhile
  · rw [same]
    exact tidy.toSingleSpaced

theorem cleanText_idempotent (text : PyString) : cleanText (cleanText text) = cleanText text := by
  have tidy := tidied_tidy text
  rcases cleanText_cases text with ⟨_, out, spelled, after, _, again, ends, _, starts, same⟩ |
    ⟨plain, same⟩
  · rw [starts] at tidy
    obtain ⟨tail, whole, behind⟩ := tidied_spelled again tidy.dropWhile
    rw [← same] at whole
    rw [cleanText_of_mark again whole, behind, same, ends, List.append_assoc,
      List.singleton_append]
  · rw [same]
    have fixed := tidy.tidied_eq
    rw [← fixed] at plain
    rw [cleanText_of_plain plain, fixed]

theorem cleanText_content (text : PyString) :
    content (cleanText text) = bulleted (content text) := by
  rw [← content_tidied text]
  rcases cleanText_cases text with
    ⟨word, _, spelled, after, mark, again, _, turned, starts, same⟩ | ⟨plain, same⟩
  · have blank : content (' ' :: after.dropWhile isspace) = content after := by
      rw [← content_dropWhile after]
      rfl
    rw [same, starts, content_append, content_append, content_visible again.visible,
      content_visible mark.visible, turned, blank]
  · rw [same]
    symm
    apply bulleted_other
    have tidy := tidied_tidy text
    cases start : tidied text with
    | nil => simp [content]
    | cons first rest =>
        have head : (tidied text).head? = some first := by rw [start]; rfl
        intro char found
        obtain rfl : first = char := by
          simpa [content, List.filter_cons, tidy.first first head] using found
        exact first_not_isMarker plain first head

theorem clean_text_normalises (text : PyString) :
    cleanText (cleanText text) = cleanText text ∧ SingleSpaced (cleanText text) ∧
      content (cleanText text) = bulleted (content text) :=
  ⟨cleanText_idempotent text, cleanText_singleSpaced text, cleanText_content text⟩

end Normaliser

end TextMaster.NlpProcessor
