import TextMaster.PromptBatch

/-!
The word count shown under the input box and the word limit that `validateInputText` enforces:
two scanners, compared piece by piece between the whitespace of the text.
-/

namespace TextMaster

def sumOver {Item : Type} (count : Item → Nat) : List Item → Nat
  | [] => 0
  | item :: rest => count item + sumOver count rest

theorem sumOver_congr {Item : Type} {first second : Item → Nat} {items : List Item}
    (agree : ∀ item ∈ items, first item = second item) :
    sumOver first items = sumOver second items := by
  induction items with
  | nil => rfl
  | cons item rest ih =>
      rw [sumOver, sumOver, agree item (by simp),
        ih fun other member => agree other (by simp [member])]

theorem sumOver_filter {Item : Type} {keep : Item → Bool} {count : Item → Nat}
    (absent : ∀ item, keep item = false → count item = 0) (items : List Item) :
    sumOver count (items.filter keep) = sumOver count items := by
  induction items with
  | nil => rfl
  | cons item rest ih =>
      by_cases kept : keep item = true
      · rw [List.filter_cons_of_pos kept, sumOver, sumOver, ih]
      · rw [List.filter_cons_of_neg kept, sumOver, ih, absent item (by simpa using kept)]
        omega

/-- The parts that `QString::split` keeps with `Qt::SkipEmptyParts`. -/
def pieces (text : QString) : List QString :=
  (text.splitOnP isPatternSpace).filter fun part => !part.isEmpty

def hasWord (part : QString) : Bool := part.any isWordChar

def wordlessPieces (text : QString) : Nat :=
  sumOver (fun part => if hasWord part then 0 else 1) (pieces text)

def furtherWords (text : QString) : Nat :=
  sumOver (fun part => regexWords part - 1) (pieces text)

section Scan

variable {inClass separator : Char → Bool}

theorem countRuns_of_mem {char : Char} (member : inClass char = true) (text : QString)
    (inside : Bool) : countRuns inClass inside (char :: text) =
      (if inside then 0 else 1) + countRuns inClass true text := by
  rw [countRuns, if_pos member]

theorem countRuns_of_not_mem {char : Char} (outside : inClass char = false) (text : QString)
    (inside : Bool) : countRuns inClass inside (char :: text) = countRuns inClass false text := by
  rw [countRuns, if_neg (by simp [outside])]

theorem countRuns_splitOnP (apart : ∀ char, separator char = true → inClass char = false)
    (text : QString) (inside : Bool) :
    ∃ first rest, text.splitOnP separator = first :: rest ∧
      countRuns inClass inside text =
        countRuns inClass inside first + sumOver (countRuns inClass false) rest := by
  induction text generalizing inside with
  | nil => exact ⟨[], [], List.splitOnP_nil, rfl⟩
  | cons char text ih =>
      by_cases separates : separator char = true
      · obtain ⟨first, rest, split, counted⟩ := ih false
        refine ⟨[], first :: rest, ?_, ?_⟩
        · rw [List.splitOnP_cons_eq_if_modifyHead, if_pos separates, split]
        · have nothing : countRuns inClass inside [] = 0 := by rw [countRuns]
          rw [countRuns_of_not_mem (apart char separates), counted, sumOver, nothing]
          omega
      · have split : (char :: text).splitOnP separator =
            (text.splitOnP separator).modifyHead (char :: ·) := by
          rw [List.splitOnP_cons_eq_if_modifyHead, if_neg separates]
        by_cases member : inClass char = true
        · obtain ⟨first, rest, before, counted⟩ := ih true
          refine ⟨char :: first, rest, by rw [split, before, List.modifyHead_cons], ?_⟩
          rw [countRuns_of_mem member, countRuns_of_mem member, counted]
          omega
        · have outside : inClass char = false := by simpa using member
          obtain ⟨first, rest, before, counted⟩ := ih false
          refine ⟨char :: first, rest, by rw [split, before, List.modifyHead_cons], ?_⟩
          rw [countRuns_of_not_mem outside, countRuns_of_not_mem outside, counted]

theorem countRuns_pieces (apart : ∀ char, isPatternSpace char = true → inClass char = false)
    (text : QString) :
    countRuns inClass false text = sumOver (countRuns inClass false) (pieces text) := by
  obtain ⟨first, rest, split, counted⟩ := countRuns_splitOnP apart text false
  rw [pieces, sumOver_filter, split, counted, sumOver]
  intro part empty
  rw [show part = [] by simpa using empty, countRuns]

theorem splitOnP_outside {text part : QString} (member : part ∈ text.splitOnP separator) :
    ∀ char ∈ part, separator char = false := by
  induction text generalizing part with
  | nil =>
      rw [List.splitOnP_nil, List.mem_singleton] at member
      simp [member]
  | cons char text ih =>
      rw [List.splitOnP_cons_eq_if_modifyHead] at member
      split at member
      · rcases List.mem_cons.mp member with rfl | later
        · simp
        · exact ih later
      · rename_i keeps
        obtain ⟨first, rest, split⟩ :=
          List.exists_cons_of_ne_nil (List.splitOnP_ne_nil separator text)
        rw [split, List.modifyHead_cons] at member
        rcases List.mem_cons.mp member with rfl | later
        · intro other inPart
          rcases List.mem_cons.mp inPart with rfl | behind
          · simpa using keeps
          · exact ih (by simp [split]) other behind
        · exact ih (by simp [split, later])

theorem countRuns_inside {text : QString} (all : ∀ char ∈ text, inClass char = true) :
    countRuns inClass true text = 0 := by
  induction text with
  | nil => rfl
  | cons char rest ih =>
      rw [countRuns_of_mem (all char (by simp)), if_pos rfl,
        ih fun other member => all other (by simp [member])]

theorem countRuns_whole {text : QString} (nonempty : text ≠ [])
    (all : ∀ char ∈ text, inClass char = true) : countRuns inClass false text = 1 := by
  cases text with
  | nil => exact absurd rfl nonempty
  | cons char rest =>
      rw [countRuns_of_mem (all char (by simp)), if_neg (by simp),
        countRuns_inside fun other member => all other (by simp [member])]

theorem countRuns_eq_zero_iff {text : QString} :
    countRuns inClass false text = 0 ↔ text.any inClass = false := by
  induction text with
  | nil => simp [countRuns]
  | cons char rest ih =>
      by_cases member : inClass char = true
      · simp [countRuns, member]
      · simp [countRuns, member, ih]

end Scan

theorem splitWords_eq_length (text : QString) : splitWords text = (pieces text).length := by
  rw [splitWords, countRuns_pieces (by simp) text]
  have single : ∀ part ∈ pieces text,
      countRuns (fun char => !isPatternSpace char) false part = 1 := by
    intro part member
    obtain ⟨split, nonempty⟩ := List.mem_filter.mp member
    apply countRuns_whole (by simpa using nonempty)
    intro char inPart
    simp [splitOnP_outside split char inPart]
  rw [sumOver_congr single]
  clear single
  induction pieces text with
  | nil => rfl
  | cons part rest ih => rw [sumOver, ih, List.length_cons, Nat.add_comm]

theorem isWordChar_of_isPatternSpace (char : Char) (space : isPatternSpace char = true) :
    isWordChar char = false := by
  have coded := Char.ofNat_toNat char
  simp only [isPatternSpace, Bool.or_eq_true, Bool.and_eq_true, decide_eq_true_eq,
    beq_iff_eq] at space
  rcases space with ⟨low, high⟩ | rfl
  · generalize char.toNat = code at coded low high
    subst coded
    obtain rfl | rfl | rfl | rfl | rfl :
        code = 9 ∨ code = 10 ∨ code = 11 ∨ code = 12 ∨ code = 13 := by omega
    all_goals decide
  · decide

/-- A piece without a word character adds to the count that is shown, a further word of a piece
to the count that is limited. -/
theorem regexWords_add_wordless (text : QString) :
    regexWords text + wordlessPieces text = splitWords text + furtherWords text := by
  rw [splitWords_eq_length, regexWords, countRuns_pieces isWordChar_of_isPatternSpace,
    wordlessPieces, furtherWords]
  induction pieces text with
  | nil => rfl
  | cons part rest ih =>
      rw [sumOver, sumOver, sumOver, List.length_cons]
      cases words : regexWords part with
      | zero =>
          have none : hasWord part = false := countRuns_eq_zero_iff.mp words
          have counted : countRuns isWordChar false part = 0 := words
          rw [none, if_neg (by simp)]
          omega
      | succ count =>
          have some : hasWord part = true := by
            by_contra none
            have zero := countRuns_eq_zero_iff.mpr (by simpa [hasWord] using none)
            rw [regexWords] at words
            omega
          have counted : countRuns isWordChar false part = count + 1 := words
          rw [some, if_pos rfl]
          omega

section Window

variable {DateTime : Type}

def HomePage.ShowsCount (page : HomePage) (count : Nat) : Prop :=
  page.onTextChanged.wordCountLabel = "Words: ".toList ++ number count ++ "/1000".toList

theorem number_injective : Function.Injective number := by
  intro one other same
  have digits : Nat.toDigits 10 one = Nat.toDigits 10 other := by
    simpa only [number, Nat.toString_eq_repr, Nat.toList_repr] using same
  have read := congrArg (Nat.ofDigitChars 10 · 0) digits
  simpa only [Nat.ofDigitChars_toDigits (by decide : 1 < 10) (Nat.le_refl 10)] using read

theorem showsCount_iff {page : HomePage} {count : Nat} :
    page.ShowsCount count ↔ count = splitWords page.textInput := by
  rw [HomePage.ShowsCount, HomePage.onTextChanged]
  simp only [List.append_cancel_right_eq, List.append_cancel_left_eq]
  exact ⟨fun same => (number_injective same).symm, fun same => same ▸ rfl⟩

def LimitsAgree (window : MainWindow DateTime) : Prop :=
  ∃ count, window.homePage.ShowsCount count ∧
    (window.validateInputText = true ↔ window.homePage.textInput ≠ [] ∧ count ≤ 1000)

theorem limitsAgree_iff {window : MainWindow DateTime} :
    LimitsAgree window ↔ (window.validateInputText = true ↔
      window.homePage.textInput ≠ [] ∧ splitWords window.homePage.textInput ≤ 1000) := by
  simp only [LimitsAgree, showsCount_iff, exists_eq_left]

/-- Up to the limit the further words do not take the text across it, and above the limit the
pieces without a word do not bring it back. -/
def StaysOnSide (text : QString) : Prop :=
  ((pieces text).length ≤ 1000 →
    (pieces text).length + furtherWords text ≤ 1000 + wordlessPieces text) ∧
  (1000 < (pieces text).length →
    1000 + wordlessPieces text < (pieces text).length + furtherWords text)

theorem validateInputText_iff (window : MainWindow DateTime) :
    window.validateInputText = true ↔
      window.homePage.textInput ≠ [] ∧ regexWords window.homePage.textInput ≤ 1000 := by
  unfold MainWindow.validateInputText
  split
  · rename_i empty
    simp [List.isEmpty_iff.mp empty]
  · rename_i filled
    rw [List.isEmpty_iff] at filled
    split
    · rename_i long
      simp [filled, long]
    · rename_i short
      simp [filled, Nat.le_of_not_lt short]

theorem limits_agree_iff (window : MainWindow DateTime) :
    LimitsAgree window ↔ StaysOnSide window.homePage.textInput := by
  have balance := regexWords_add_wordless window.homePage.textInput
  have shown := splitWords_eq_length window.homePage.textInput
  rw [limitsAgree_iff, validateInputText_iff, StaysOnSide]
  by_cases empty : window.homePage.textInput = []
  · have none : pieces ([] : QString) = [] := by simp [pieces, List.splitOnP_nil]
    simp [empty, none, furtherWords, sumOver]
  · simp only [ne_eq, empty, not_false_eq_true, true_and]
    constructor
    · intro agree
      constructor <;> intro side <;> omega
    · rintro ⟨below, above⟩
      by_cases side : (pieces window.homePage.textInput).length ≤ 1000
      · have limited := below side
        omega
      · have exceeded := above (by omega)
        omega

def repeatedGroup (group : QString) (count : Nat) : QString :=
  (List.replicate count group).flatten

theorem repeatedGroup_ne_nil {char : Char} {group : QString} {count : Nat}
    (positive : 0 < count) : repeatedGroup (char :: group) count ≠ [] := by
  cases count with
  | zero => omega
  | succ count => simp [repeatedGroup, List.replicate_succ]

theorem mem_repeatedGroup {char : Char} {group : QString} {count : Nat}
    (member : char ∈ repeatedGroup group count) : char ∈ group := by
  obtain ⟨other, repeated, inGroup⟩ := List.mem_flatten.mp member
  rwa [List.eq_of_mem_replicate repeated] at inGroup

theorem regexWords_hyphens (count : Nat) :
    regexWords (repeatedGroup ['a', '-'] count) = count := by
  induction count with
  | zero => rfl
  | succ count ih =>
      rw [repeatedGroup, List.replicate_succ, List.flatten_cons]
      change 1 + regexWords (repeatedGroup ['a', '-'] count) = count + 1
      rw [ih, Nat.add_comm]

theorem splitWords_hyphens {count : Nat} (positive : 0 < count) :
    splitWords (repeatedGroup ['a', '-'] count) = 1 := by
  apply countRuns_whole (repeatedGroup_ne_nil positive)
  intro char member
  rcases List.mem_pair.mp (mem_repeatedGroup member) with rfl | rfl
  · decide
  · decide

theorem regexWords_marks (count : Nat) : regexWords (repeatedGroup ['!', ' '] count) = 0 := by
  apply countRuns_outside
  intro char member
  rcases List.mem_pair.mp (mem_repeatedGroup member) with rfl | rfl
  · decide
  · decide

theorem splitWords_marks (count : Nat) : splitWords (repeatedGroup ['!', ' '] count) = count := by
  induction count with
  | zero => rfl
  | succ count ih =>
      rw [repeatedGroup, List.replicate_succ, List.flatten_cons]
      change 1 + splitWords (repeatedGroup ['!', ' '] count) = count + 1
      rw [ih, Nat.add_comm]

theorem limits_disagree :
    ¬ LimitsAgree (textWindow (repeatedGroup ['a', '-'] 1001)) ∧
      ¬ LimitsAgree (textWindow (repeatedGroup ['!', ' '] 1001)) := by
  have shown : ∀ text, (textWindow text).homePage.textInput = text := fun _ => rfl
  constructor
  · rw [limitsAgree_iff, validateInputText_iff, shown, regexWords_hyphens,
      splitWords_hyphens (by omega)]
    intro agree
    have accepted := agree.mpr ⟨repeatedGroup_ne_nil (by omega), by omega⟩
    omega
  · rw [limitsAgree_iff, validateInputText_iff, shown, regexWords_marks, splitWords_marks]
    intro agree
    have displayed := agree.mp ⟨repeatedGroup_ne_nil (by omega), by omega⟩
    omega

end Window

end TextMaster
