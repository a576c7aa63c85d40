import TextMaster.ProcessTextCore

/-!
`HomePage`: the input box with its word counter, and the choice of an analysis, which is kept
both in `currentAnalysisType` and in the check marks of four buttons. The scan for words that
`MainWindow::validateInputText` makes stands beside the counter.
-/

namespace TextMaster

/-- The number of maximal runs of characters in the class, behind a character that is `inside`
the class or not. -/
def countRuns (inClass : Char → Bool) : Bool → QString → Nat
  | _, [] => 0
  | inside, char :: rest =>
    if inClass char then (if inside then 0 else 1) + countRuns inClass true rest
    else countRuns inClass false rest

/-- The class `\w` of a regular expression without Unicode properties. -/
def isWordChar (char : Char) : Bool := char.isAlphanum || char == '_'

/-- The class `\s` of a regular expression without Unicode properties. -/
def isPatternSpace (char : Char) : Bool :=
  (9 ≤ char.toNat && char.toNat ≤ 13) || char == ' '

/-- The matches of `\b\w+\b`. -/
def regexWords (text : QString) : Nat := countRuns isWordChar false text

/-- The non-empty parts of the text between the matches of `\s+`. -/
def splitWords (text : QString) : Nat := countRuns (fun char => !isPatternSpace char) false text

/-- `currentAnalysisType` is `none` for the empty string. -/
structure HomePage where
  textInput : QString
  wordCountLabel : QString
  currentAnalysisType : Option AnalysisType
  checked : AnalysisType → Bool

namespace HomePage

def setChecked (button : AnalysisType) (value : Bool) (page : HomePage) : HomePage :=
  { page with checked := fun other => if other = button then value else page.checked other }

def construct : HomePage :=
  setChecked .studyGuide true
    { textInput := []
      wordCountLabel := "Words: 0/1000".toList
      currentAnalysisType := some .studyGuide
      checked := fun _ => false }

def onTextChanged (page : HomePage) : HomePage :=
  { page with
    wordCountLabel := "Words: ".toList ++ number (splitWords page.textInput) ++ "/1000".toList }

def setInputText (text : QString) (page : HomePage) : HomePage :=
  onTextChanged { page with textInput := text }

def onAnalyzeClicked (page : HomePage) : HomePage :=
  match page.currentAnalysisType with
  | none => setChecked .studyGuide true { page with currentAnalysisType := some .studyGuide }
  | some _ => page

def select (analysisType : AnalysisType) (page : HomePage) : HomePage :=
  setChecked .enumerations (analysisType = .enumerations)
    (setChecked .flashcards (analysisType = .flashcards)
      (setChecked .quiz (analysisType = .quiz)
        (setChecked .studyGuide (analysisType = .studyGuide)
          { page with currentAnalysisType := some analysisType })))

def onStudyGuideClicked : HomePage → HomePage := select .studyGuide
def onQuizClicked : HomePage → HomePage := select .quiz
def onFlashcardsClicked : HomePage → HomePage := select .flashcards
def onEnumerationsClicked : HomePage → HomePage := select .enumerations

/-- A click toggles the check mark of a checkable button before its handler runs. -/
def click (button : AnalysisType) (page : HomePage) : HomePage :=
  let toggled := page.setChecked button (!page.checked button)
  match button with
  | .studyGuide => onStudyGuideClicked toggled
  | .quiz => onQuizClicked toggled
  | .flashcards => onFlashcardsClicked toggled
  | .enumerations => onEnumerationsClicked toggled

end HomePage

end TextMaster
