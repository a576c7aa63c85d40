import TextMaster.Text

/-!
`QuizPage`: the questions of a quiz, the widgets that show one at a time, and what the user can do
with them. An access behind the end of the list has no result.
-/

namespace TextMaster

/-- The widgets are kept by what they show. `feedbackStyle` is the style sheet of the feedback. -/
structure QuizPage where
  questionLabel : QString
  answerInput : QString
  inputEnabled : Bool
  submitEnabled : Bool
  feedbackText : QString
  feedbackStyle : QString
  feedbackVisible : Bool
  scoreLabel : QString
  quizQuestions : List (QString × QString)
  currentIndex : Nat
  score : Nat
  totalQuestions : Nat
  deriving DecidableEq, Repr

inductive QuizEvent where
  | setQuestions (questions : List (QString × QString))
  | clearQuestions
  | typeAnswer (text : QString)
  | clickSubmit

/-- `compare` with `Qt::CaseInsensitive` gives zero; `foldCase` is Qt's table of case folding. -/
def sameIgnoringCase (foldCase : Char → Char) (left right : QString) : Bool :=
  left.map foldCase == right.map foldCase

namespace QuizPage

def scoreText (score total : Nat) : QString :=
  "Score: ".toList ++ number score ++ "/".toList ++ number total

def construct : QuizPage where
  questionLabel := []
  answerInput := []
  inputEnabled := true
  submitEnabled := true
  feedbackText := []
  feedbackStyle := []
  feedbackVisible := false
  scoreLabel := "Score: 0/0".toList
  quizQuestions := []
  currentIndex := 0
  score := 0
  totalQuestions := 0

def updateScore (page : QuizPage) : QuizPage :=
  { page with scoreLabel := scoreText page.score page.totalQuestions }

def showQuestion (text : QString) (page : QuizPage) : QuizPage :=
  { page with
    questionLabel := text
    answerInput := []
    feedbackText := []
    feedbackVisible := false }

def updateQuestionDisplay (page : QuizPage) : Option QuizPage :=
  if page.quizQuestions.isEmpty then some (page.showQuestion "No questions available".toList)
  else page.quizQuestions[page.currentIndex]?.map fun question => page.showQuestion question.1

def setQuestions (questions : List (QString × QString)) (page : QuizPage) : Option QuizPage :=
  (updateQuestionDisplay { page with
    quizQuestions := questions
    currentIndex := 0
    score := 0
    totalQuestions := questions.length }).map updateScore

def clearQuestions (page : QuizPage) : QuizPage :=
  updateScore { page with
    quizQuestions := []
    currentIndex := 0
    score := 0
    totalQuestions := 0
    questionLabel := []
    answerInput := []
    feedbackText := []
    feedbackVisible := false }

def judge (foldCase : Char → Char) (correctAnswer : QString) (page : QuizPage) : QuizPage :=
  let answer := trimmed page.answerInput
  let judged :=
    if sameIgnoringCase foldCase answer correctAnswer then { page with
      score := page.score + 1
      feedbackText := "Correct!".toList
      feedbackStyle := "color: green;".toList }
    else { page with
      feedbackText := "Incorrect. The correct answer is: ".toList ++ correctAnswer
      feedbackStyle := "color: red;".toList }
  updateScore { judged with feedbackVisible := true }

def advance (page : QuizPage) : Option QuizPage :=
  if page.currentIndex < page.quizQuestions.length - 1 then
    updateQuestionDisplay { page with currentIndex := page.currentIndex + 1 }
  else some { page with submitEnabled := false, inputEnabled := false }

def onSubmitClicked (foldCase : Char → Char) (page : QuizPage) : Option QuizPage :=
  if page.quizQuestions.isEmpty then some page
  else page.quizQuestions[page.currentIndex]?.bind fun question =>
    (page.judge foldCase question.2).advance

/-- Typing and clicks act on enabled widgets only. -/
def step (foldCase : Char → Char) (page : QuizPage) : QuizEvent → Option QuizPage
  | .setQuestions questions => page.setQuestions questions
  | .clearQuestions => some page.clearQuestions
  | .typeAnswer text =>
    some (if page.inputEnabled then { page with answerInput := text } else page)
  | .clickSubmit => if page.submitEnabled then page.onSubmitClicked foldCase else some page

end QuizPage

end TextMaster
