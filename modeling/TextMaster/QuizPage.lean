import TextMaster.QuizPageCore
import TextMaster.Transition

/-!
Runs of `QuizPage`. The submissions since the last `setQuestions` or `clearQuestions` are noted
beside the run, and the page is compared with them.
-/

namespace TextMaster

structure Submission where
  index : Nat
  answer : QString
  asked : QString × QString
  deriving DecidableEq, Repr

def Submission.correct (foldCase : Char → Char) (submission : Submission) : Bool :=
  sameIgnoringCase foldCase (trimmed submission.answer) submission.asked.2

namespace QuizPage

/-- What a click on Submit has judged; a disabled button and an empty list judge nothing. -/
def submission (page : QuizPage) : Option Submission :=
  if page.submitEnabled then
    page.quizQuestions[page.currentIndex]?.map fun asked =>
      ⟨page.currentIndex, page.answerInput, asked⟩
  else none

def noteSubmission (log : List Submission) (page : QuizPage) : QuizEvent → List Submission
  | .setQuestions _ | .clearQuestions => []
  | .typeAnswer _ => log
  | .clickSubmit => log ++ page.submission.toList

def submissions (foldCase : Char → Char) : QuizPage → List QuizEvent → List Submission :=
  Transition.record (step foldCase) noteSubmission []

section Judge

variable (foldCase : Char → Char) (correctAnswer : QString) (page : QuizPage)

@[simp] theorem judge_quizQuestions :
    (page.judge foldCase correctAnswer).quizQuestions = page.quizQuestions := by
  simp only [judge, updateScore]
  split <;> rfl

@[simp] theorem judge_currentIndex :
    (page.judge foldCase correctAnswer).currentIndex = page.currentIndex := by
  simp only [judge, updateScore]
  split <;> rfl

@[simp] theorem judge_totalQuestions :
    (page.judge foldCase correctAnswer).totalQuestions = page.totalQuestions := by
  simp only [judge, updateScore]
  split <;> rfl

@[simp] theorem judge_questionLabel :
    (page.judge foldCase correctAnswer).questionLabel = page.questionLabel := by
  simp only [judge, updateScore]
  split <;> rfl

@[simp] theorem judge_enabled :
    (page.judge foldCase correctAnswer).submitEnabled = page.submitEnabled ∧
      (page.judge foldCase correctAnswer).inputEnabled = page.inputEnabled := by
  simp only [judge, updateScore]
  split <;> exact ⟨rfl, rfl⟩

@[simp] theorem judge_score : (page.judge foldCase correctAnswer).score = page.score +
    if sameIgnoringCase foldCase (trimmed page.answerInput) correctAnswer then 1 else 0 := by
  simp only [judge, updateScore]
  split <;> rfl

@[simp] theorem judge_scoreLabel : (page.judge foldCase correctAnswer).scoreLabel =
    scoreText (page.judge foldCase correctAnswer).score page.totalQuestions := by
  simp only [judge, updateScore]
  split <;> rfl

end Judge

inductive SubmitStep (foldCase : Char → Char) (page : QuizPage) : QuizPage → Prop where
  | ignored : page.submission = none → SubmitStep foldCase page page
  | next (asked question : QString × QString) : page.submitEnabled = true →
      page.quizQuestions[page.currentIndex]? = some asked →
      page.quizQuestions[page.currentIndex + 1]? = some question →
      SubmitStep foldCase page
        (showQuestion question.1
          { page.judge foldCase asked.2 with currentIndex := page.currentIndex + 1 })
  | last (asked : QString × QString) : page.submitEnabled = true →
      page.quizQuestions[page.currentIndex]? = some asked →
      page.currentIndex + 1 = page.quizQuestions.length →
      SubmitStep foldCase page
        { page.judge foldCase asked.2 with submitEnabled := false, inputEnabled := false }

variable {foldCase : Char → Char} {page next : QuizPage}

theorem submission_of_asked {asked : QString × QString} (enabled : page.submitEnabled = true)
    (found : page.quizQuestions[page.currentIndex]? = some asked) :
    page.submission = some ⟨page.currentIndex, page.answerInput, asked⟩ := by
  simp [submission, enabled, found]

theorem setQuestions_eq (questions : List (QString × QString)) (page : QuizPage) :
    page.setQuestions questions = some { page with
      quizQuestions := questions
      currentIndex := 0
      score := 0
      totalQuestions := questions.length
      questionLabel := (questions.head?.map Prod.fst).getD "No questions available".toList
      answerInput := []
      feedbackText := []
      feedbackVisible := false
      scoreLabel := scoreText 0 questions.length } := by
  cases questions <;> rfl

theorem advance_cases (advanced : page.advance = some next) :
    (∃ question, page.quizQuestions[page.currentIndex + 1]? = some question ∧
      next = showQuestion question.1 { page with currentIndex := page.currentIndex + 1 }) ∨
    (page.quizQuestions.length ≤ page.currentIndex + 1 ∧
      next = { page with submitEnabled := false, inputEnabled := false }) := by
  simp only [advance] at advanced
  split at advanced
  · simp only [updateQuestionDisplay] at advanced
    split at advanced
    · simp_all
    · obtain ⟨question, following, rfl⟩ := Option.map_eq_some_iff.mp advanced
      exact Or.inl ⟨question, following, rfl⟩
  · cases advanced
    exact Or.inr ⟨by omega, rfl⟩

theorem advance_total (page : QuizPage) : ∃ next, page.advance = some next := by
  simp only [advance]
  split
  · have following : page.currentIndex + 1 < page.quizQuestions.length := by omega
    have nonempty : ¬ page.quizQuestions.isEmpty = true := by
      intro empty
      rw [List.isEmpty_iff.mp empty] at following
      exact absurd following (Nat.not_lt_zero _)
    simp only [updateQuestionDisplay, if_neg nonempty, List.getElem?_eq_getElem following,
      Option.map_some]
    exact ⟨_, rfl⟩
  · exact ⟨_, rfl⟩

theorem clickSubmit_step (taken : page.step foldCase .clickSubmit = some next) :
    SubmitStep foldCase page next := by
  simp only [step] at taken
  split at taken
  · rename_i enabled
    simp only [onSubmitClicked] at taken
    split at taken
    · rename_i empty
      cases taken
      have none : page.quizQuestions = [] := by simpa using empty
      exact .ignored (by simp [submission, none])
    · obtain ⟨asked, found, advanced⟩ := Option.bind_eq_some_iff.mp taken
      obtain ⟨bound, _⟩ := List.getElem?_eq_some_iff.mp found
      rcases advance_cases advanced with ⟨question, following, rfl⟩ | ⟨ended, rfl⟩
      · rw [judge_quizQuestions, judge_currentIndex] at following
        rw [judge_currentIndex]
        exact .next asked question enabled found following
      · rw [judge_quizQuestions, judge_currentIndex] at ended
        exact .last asked enabled found (by omega)
  · rename_i disabled
    cases taken
    exact .ignored (by simp [submission, disabled])

theorem clickSubmit_total (foldCase : Char → Char) (page : QuizPage)
    (valid : page.quizQuestions ≠ [] → page.currentIndex < page.quizQuestions.length) :
    ∃ next, page.step foldCase .clickSubmit = some next := by
  simp only [step]
  split
  · simp only [onSubmitClicked]
    split
    · exact ⟨_, rfl⟩
    · rename_i nonempty
      have bound := valid (by simpa using nonempty)
      rw [List.getElem?_eq_getElem bound, Option.bind_some]
      exact advance_total _
  · exact ⟨_, rfl⟩

/-- The page against the submissions of the current list: they judge its questions once each and
in order, and the score and its label count the right ones among them. -/
structure Scored (foldCase : Char → Char) (page : QuizPage) (log : List Submission) : Prop where
  order : log.map Submission.index = List.range log.length
  asked : ∀ submission ∈ log, page.quizQuestions[submission.index]? = some submission.asked
  score : page.score = log.countP (Submission.correct foldCase)
  total : page.totalQuestions = page.quizQuestions.length
  label : page.scoreLabel = scoreText page.score page.totalQuestions
  within : log.length ≤ page.quizQuestions.length
  shown : page.quizQuestions ≠ [] → ∃ question,
    page.quizQuestions[page.currentIndex]? = some question ∧ page.questionLabel = question.1
  judged : page.submitEnabled = true → page.quizQuestions ≠ [] → log.length = page.currentIndex

variable {log : List Submission}

theorem Scored.valid (scored : Scored foldCase page log) (nonempty : page.quizQuestions ≠ []) :
    page.currentIndex < page.quizQuestions.length := by
  obtain ⟨question, found, _⟩ := scored.shown nonempty
  exact (List.getElem?_eq_some_iff.mp found).1

theorem scored_construct (foldCase : Char → Char) : Scored foldCase construct [] :=
  ⟨rfl, nofun, rfl, rfl, by decide, Nat.le_refl 0, fun nonempty => absurd rfl nonempty,
    fun _ nonempty => absurd rfl nonempty⟩

theorem Scored.submitted (scored : Scored foldCase page log) {asked : QString × QString}
    (enabled : page.submitEnabled = true)
    (found : page.quizQuestions[page.currentIndex]? = some asked) :
    let submission : Submission := ⟨page.currentIndex, page.answerInput, asked⟩
    (log ++ [submission]).map Submission.index = List.range (log ++ [submission]).length ∧
      (∀ other ∈ log ++ [submission], page.quizQuestions[other.index]? = some other.asked) ∧
      (page.judge foldCase asked.2).score =
        (log ++ [submission]).countP (Submission.correct foldCase) ∧
      (log ++ [submission]).length = page.currentIndex + 1 := by
  intro submission
  have bound := (List.getElem?_eq_some_iff.mp found).1
  have nonempty : page.quizQuestions ≠ [] := List.ne_nil_of_length_pos (by omega)
  have count := scored.judged enabled nonempty
  refine ⟨?_, ?_, ?_, ?_⟩
  · rw [List.map_append, scored.order, List.length_append, List.length_singleton,
      List.range_succ, count]
    rfl
  · intro other member
    rcases List.mem_append.mp member with before | last
    · exact scored.asked other before
    · rw [List.mem_singleton.mp last]
      exact found
  · rw [judge_score, scored.score, List.countP_append, List.countP_singleton]
    rfl
  · rw [List.length_append, List.length_singleton, count]

theorem step_scored (page : QuizPage) (log : List Submission) (event : QuizEvent)
    (next : QuizPage) (scored : Scored foldCase page log)
    (taken : page.step foldCase event = some next) :
    Scored foldCase next (noteSubmission log page event) := by
  cases event with
  | setQuestions questions =>
      simp only [step, setQuestions_eq, Option.some.injEq] at taken
      subst next
      refine ⟨rfl, by simp [noteSubmission], rfl, rfl, rfl, Nat.zero_le _, ?_, fun _ _ => rfl⟩
      intro nonempty
      obtain ⟨first, rest, rfl⟩ := List.exists_cons_of_ne_nil nonempty
      exact ⟨first, rfl, rfl⟩
  | clearQuestions =>
      cases taken
      exact ⟨rfl, by simp [noteSubmission], rfl, rfl, rfl, Nat.le_refl 0,
        fun nonempty => absurd rfl nonempty, fun _ nonempty => absurd rfl nonempty⟩
  | typeAnswer text =>
      cases taken
      obtain ⟨order, asked, score, total, label, within, shown, judged⟩ := scored
      split <;> exact ⟨order, asked, score, total, label, within, shown, judged⟩
  | clickSubmit =>
      cases clickSubmit_step taken with
      | ignored none =>
          rw [noteSubmission, none, Option.toList_none, List.append_nil]
          exact scored
      | next asked question enabled found following =>
          obtain ⟨order, sameAsked, score, count⟩ := scored.submitted enabled found
          have bound := (List.getElem?_eq_some_iff.mp following).1
          rw [noteSubmission, submission_of_asked enabled found, Option.toList_some]
          refine ⟨order, ?_, score, ?_, ?_, ?_, ?_, fun _ _ => count⟩
          · simpa [showQuestion] using sameAsked
          · simpa [showQuestion] using scored.total
          · simp [showQuestion]
          · simp only [showQuestion, judge_quizQuestions]
            omega
          · exact fun _ => ⟨question, by simpa [showQuestion] using following, rfl⟩
      | last asked enabled found ended =>
          obtain ⟨order, sameAsked, score, count⟩ := scored.submitted enabled found
          have nonempty : page.quizQuestions ≠ [] := List.ne_nil_of_length_pos (by omega)
          rw [noteSubmission, submission_of_asked enabled found, Option.toList_some]
          refine ⟨order, ?_, score, ?_, ?_, ?_, ?_,
            fun enabled => absurd enabled Bool.false_ne_true⟩
          · simpa using sameAsked
          · simpa using scored.total
          · simp
          · simp only [judge_quizQuestions]
            omega
          · simpa using fun _ => scored.shown nonempty

theorem step_total {foldCase : Char → Char} {page : QuizPage} (event : QuizEvent)
    (valid : page.quizQuestions ≠ [] → page.currentIndex < page.quizQuestions.length) :
    ∃ next, page.step foldCase event = some next := by
  cases event with
  | setQuestions questions => exact ⟨_, setQuestions_eq questions page⟩
  | clickSubmit => exact clickSubmit_total foldCase page valid
  | _ => exact ⟨_, rfl⟩

def given (questions : List (QString × QString)) : QuizEvent → List (QString × QString)
  | .setQuestions others => others
  | .clearQuestions => []
  | .typeAnswer _ | .clickSubmit => questions

theorem step_given {event : QuizEvent} (taken : page.step foldCase event = some next) :
    next.quizQuestions = given page.quizQuestions event := by
  cases event with
  | setQuestions questions =>
      simp only [step, setQuestions_eq, Option.some.injEq] at taken
      subst next
      rfl
  | clearQuestions =>
      cases taken
      rfl
  | typeAnswer text =>
      cases taken
      split <;> rfl
  | clickSubmit =>
      cases clickSubmit_step taken with
      | ignored none => rfl
      | next asked question enabled found following => simp [showQuestion, given]
      | last asked enabled found ended => simp [given]

theorem run_given {events : List QuizEvent}
    (reached : Transition.run (step foldCase) page events = some next) :
    next.quizQuestions = events.foldl given page.quizQuestions := by
  induction events generalizing page with
  | nil =>
      cases reached
      rfl
  | cons event rest ih =>
      obtain ⟨middle, taken, later⟩ := (Transition.run_cons _ _ _ _ _).mp reached
      rw [ih later, step_given taken, List.foldl_cons]

/-- No run of the page stops at an access out of range, and the score counts the right answers
among the accepted submissions, of which there is at most one for each question of the list that
was given last. -/
theorem quiz_scored (foldCase : Char → Char) (events : List QuizEvent) :
    ∃ page, Transition.run (step foldCase) construct events = some page ∧
      page.quizQuestions = events.foldl given [] ∧
      Scored foldCase page (submissions foldCase construct events) ∧
      page.score ≤ (submissions foldCase construct events).length ∧
      (submissions foldCase construct events).length ≤ page.totalQuestions ∧
      (page.quizQuestions ≠ [] → page.currentIndex < page.quizQuestions.length) := by
  have enabled : ∀ page event, (∃ log, Scored foldCase page log) →
      ∃ next, step foldCase page event = some next :=
    fun page event ⟨_, scored⟩ => step_total event scored.valid
  have preserved : ∀ page event next, (∃ log, Scored foldCase page log) →
      step foldCase page event = some next → ∃ log, Scored foldCase next log :=
    fun page event next ⟨log, scored⟩ taken => ⟨_, step_scored page log event next scored taken⟩
  obtain ⟨page, reached⟩ := Transition.run_total enabled preserved
    ⟨[], scored_construct foldCase⟩ events
  have scored : Scored foldCase page (submissions foldCase construct events) :=
    Transition.record_preserves step_scored (scored_construct foldCase) reached
  refine ⟨page, reached, run_given reached, scored, ?_, ?_, scored.valid⟩
  · rw [scored.score]
    exact List.countP_le_length
  · rw [scored.total]
    exact scored.within

def view (page : QuizPage) : QuizPage := { page with feedbackStyle := [], quizQuestions := [] }

def play (answers : List QString) : List QuizEvent :=
  answers.flatMap fun answer => [.typeAnswer answer, .clickSubmit]

def Playable (foldCase : Char → Char) (page : QuizPage) (questions : List (QString × QString)) :
    Prop :=
  ∀ answers : List QString, answers.length = questions.length → ∃ final,
    Transition.run (step foldCase) page (.setQuestions questions :: play answers) = some final ∧
      (submissions foldCase page (.setQuestions questions :: play answers)).map
        Submission.answer = answers

def StartsFresh (foldCase : Char → Char) (page : QuizPage) : Prop :=
  (∀ questions, (page.setQuestions questions).map view =
    (construct.setQuestions questions).map view) ∧
  ∀ questions, questions ≠ [] → Playable foldCase page questions

def Finishes (page : QuizPage) (event : QuizEvent) : Prop :=
  event = .clickSubmit ∧ page.submission ≠ none ∧
    page.currentIndex + 1 = page.quizQuestions.length

theorem step_enabled {event : QuizEvent} (together : page.inputEnabled = page.submitEnabled)
    (taken : page.step foldCase event = some next) :
    next.inputEnabled = next.submitEnabled ∧
      (next.submitEnabled = true ↔ page.submitEnabled = true ∧ ¬ Finishes page event) := by
  cases event with
  | setQuestions questions =>
      simp only [step, setQuestions_eq, Option.some.injEq] at taken
      subst next
      exact ⟨together, by simp [Finishes]⟩
  | clearQuestions =>
      cases taken
      exact ⟨together, by simp [Finishes, clearQuestions, updateScore]⟩
  | typeAnswer text =>
      cases taken
      split <;> exact ⟨together, by simp [Finishes]⟩
  | clickSubmit =>
      cases clickSubmit_step taken with
      | ignored none => exact ⟨together, by simp [Finishes, none]⟩
      | next asked question enabled found following =>
          have bound := (List.getElem?_eq_some_iff.mp following).1
          have more : page.currentIndex + 1 ≠ page.quizQuestions.length := by omega
          refine ⟨?_, ?_⟩
          · simpa [showQuestion] using together
          · simp [showQuestion, enabled, Finishes, more]
      | last asked enabled found ended =>
          exact ⟨rfl, by simp [Finishes, submission_of_asked enabled found, ended]⟩

theorem enabled_iff_unfinished {events : List QuizEvent}
    (together : page.inputEnabled = page.submitEnabled)
    (reached : Transition.run (step foldCase) page events = some next) :
    next.inputEnabled = next.submitEnabled ∧
      (next.submitEnabled = true ↔ page.submitEnabled = true ∧
        Transition.Along (step foldCase) (fun page event => ¬ Finishes page event) page events) := by
  induction events generalizing page with
  | nil =>
      cases reached
      exact ⟨together, by simp [Transition.Along]⟩
  | cons event rest ih =>
      obtain ⟨middle, taken, later⟩ := (Transition.run_cons _ _ _ _ _).mp reached
      obtain ⟨middleTogether, first⟩ := step_enabled together taken
      obtain ⟨nextTogether, behind⟩ := ih middleTogether later
      refine ⟨nextTogether, ?_⟩
      rw [behind, first, and_assoc]
      simp only [Transition.Along, taken, Option.some.injEq, forall_eq']

theorem setQuestions_view_iff (together : page.inputEnabled = page.submitEnabled) :
    (∀ questions, (page.setQuestions questions).map view =
      (construct.setQuestions questions).map view) ↔ page.submitEnabled = true := by
  constructor
  · intro same
    have empty := same []
    simp only [setQuestions_eq, Option.map_some, Option.some.injEq] at empty
    exact congrArg QuizPage.submitEnabled empty
  · intro enabled questions
    simp only [setQuestions_eq, Option.map_some, view, together, enabled, construct]

theorem answer_once (foldCase : Char → Char) (answer : QString) {page : QuizPage}
    (inputs : page.inputEnabled = true) (submits : page.submitEnabled = true)
    (bound : page.currentIndex < page.quizQuestions.length) :
    ∃ typed next judged, page.step foldCase (.typeAnswer answer) = some typed ∧
      typed.step foldCase .clickSubmit = some next ∧
      typed.submission = some judged ∧ judged.answer = answer ∧
      (page.currentIndex + 1 = page.quizQuestions.length ∨
        next.inputEnabled = true ∧ next.submitEnabled = true ∧
          next.currentIndex = page.currentIndex + 1 ∧ next.quizQuestions = page.quizQuestions) := by
  have typed : page.step foldCase (.typeAnswer answer) =
      some { page with answerInput := answer } := by
    simp [step, inputs]
  have noted : submission { page with answerInput := answer } =
      some ⟨page.currentIndex, answer, page.quizQuestions[page.currentIndex]⟩ := by
    simp [submission, submits, bound]
  obtain ⟨next, clicked⟩ := clickSubmit_total foldCase { page with answerInput := answer }
    (fun _ => bound)
  refine ⟨_, next, _, typed, clicked, noted, rfl, ?_⟩
  cases clickSubmit_step clicked with
  | ignored none =>
      rw [noted] at none
      contradiction
  | next asked question enabled found following =>
      exact Or.inr ⟨by simpa [showQuestion] using inputs, by simpa [showQuestion] using submits,
        rfl, by simp [showQuestion]⟩
  | last asked enabled found ended => exact Or.inl ended

theorem play_enabled (foldCase : Char → Char) (answers : List QString) {page : QuizPage}
    (log : List Submission) (inputs : page.inputEnabled = true)
    (submits : page.submitEnabled = true)
    (remaining : page.currentIndex + answers.length = page.quizQuestions.length) :
    ∃ final, Transition.run (step foldCase) page (play answers) = some final ∧
      (Transition.record (step foldCase) noteSubmission log page (play answers)).map
        Submission.answer = log.map Submission.answer ++ answers := by
  induction answers generalizing page log with
  | nil => exact ⟨page, rfl, by simp [play, Transition.record]⟩
  | cons answer rest ih =>
      rw [List.length_cons] at remaining
      obtain ⟨typed, next, judged, taken, clicked, noted, sameAnswer, ready⟩ :=
        answer_once foldCase answer inputs submits (by omega)
      have later : ∃ final, Transition.run (step foldCase) next (play rest) = some final ∧
          (Transition.record (step foldCase) noteSubmission (log ++ [judged]) next
            (play rest)).map Submission.answer =
              (log ++ [judged]).map Submission.answer ++ rest := by
        rcases ready with last | ⟨inputsNext, submitsNext, index, questions⟩
        · have none : rest = [] := List.eq_nil_of_length_eq_zero (by omega)
          subst rest
          exact ⟨next, rfl, by simp [play, Transition.record]⟩
        · apply ih _ inputsNext submitsNext
          rw [index, questions]
          omega
      obtain ⟨final, ran, answered⟩ := later
      refine ⟨final, ?_, ?_⟩
      · exact (Transition.run_cons _ _ _ _ _).mpr
          ⟨typed, taken, (Transition.run_cons _ _ _ _ _).mpr ⟨next, clicked, ran⟩⟩
      · change (Transition.record (step foldCase) noteSubmission log page
          (.typeAnswer answer :: .clickSubmit :: play rest)).map Submission.answer = _
        simp only [Transition.record, taken, clicked, noteSubmission, noted, Option.toList_some]
        simpa [sameAnswer] using answered

theorem play_disabled (answers : List QString) {page : QuizPage}
    (inputs : page.inputEnabled = false) (submits : page.submitEnabled = false)
    (log : List Submission) :
    Transition.record (step foldCase) noteSubmission log page (play answers) = log := by
  induction answers with
  | nil => rfl
  | cons answer rest ih =>
      have typed : page.step foldCase (.typeAnswer answer) = some page := by simp [step, inputs]
      have clicked : page.step foldCase .clickSubmit = some page := by simp [step, submits]
      have noted : page.submission = none := by simp [submission, submits]
      change Transition.record (step foldCase) noteSubmission log page
        (.typeAnswer answer :: .clickSubmit :: play rest) = log
      simp only [Transition.record, typed, clicked, noteSubmission, noted, Option.toList_none,
        List.append_nil]
      exact ih

theorem playable_iff {questions : List (QString × QString)} (nonempty : questions ≠ [])
    (together : page.inputEnabled = page.submitEnabled) :
    Playable foldCase page questions ↔ page.submitEnabled = true := by
  obtain ⟨opened, taken, inputs, submits, index, list⟩ : ∃ opened,
      page.step foldCase (.setQuestions questions) = some opened ∧
        opened.inputEnabled = page.inputEnabled ∧ opened.submitEnabled = page.submitEnabled ∧
        opened.currentIndex = 0 ∧ opened.quizQuestions = questions :=
    ⟨_, setQuestions_eq questions page, rfl, rfl, rfl, rfl⟩
  simp only [Playable, submissions, Transition.record, taken, noteSubmission]
  constructor
  · intro playable
    by_contra disabled
    rw [Bool.not_eq_true] at disabled
    obtain ⟨_, _, answered⟩ := playable (questions.map Prod.fst) (by simp)
    rw [play_disabled _ (inputs.trans (together.trans disabled)) (submits.trans disabled)]
      at answered
    exact nonempty (List.map_eq_nil_iff.mp answered.symm)
  · intro enabled answers sizes
    obtain ⟨final, ran, answered⟩ := play_enabled foldCase answers []
      (inputs.trans (together.trans enabled)) (submits.trans enabled)
      (by rw [index, list, sizes, Nat.zero_add])
    exact ⟨final, (Transition.run_cons _ _ _ _ _).mpr ⟨opened, taken, ran⟩, answered⟩

/-- A new quiz starts afresh exactly if no quiz has been played to its end on the page before:
`setQuestions` does not enable Submit and the input box again. -/
theorem starts_fresh_iff (foldCase : Char → Char) (events : List QuizEvent) (page : QuizPage)
    (reached : Transition.run (step foldCase) construct events = some page) :
    StartsFresh foldCase page ↔
      Transition.Along (step foldCase) (fun page event => ¬ Finishes page event) construct
        events := by
  obtain ⟨together, enabled⟩ := enabled_iff_unfinished rfl reached
  have fresh : StartsFresh foldCase page ↔ page.submitEnabled = true := by
    rw [StartsFresh, setQuestions_view_iff together]
    exact ⟨And.left, fun enabled => ⟨enabled, fun questions nonempty =>
      (playable_iff nonempty together).mpr enabled⟩⟩
  rw [fresh, enabled]
  exact and_iff_right rfl

theorem second_quiz_starts_fresh : ∃ page,
    Transition.run (step Char.toLower) construct
        [.setQuestions [(['q'], ['A']), (['r'], ['b'])], .typeAnswer ['a'], .clickSubmit,
          .clearQuestions] = some page ∧
      (StartsFresh Char.toLower page ↔
        Transition.Along (step Char.toLower) (fun page event => ¬ Finishes page event) construct
          [.setQuestions [(['q'], ['A']), (['r'], ['b'])], .typeAnswer ['a'], .clickSubmit,
            .clearQuestions]) := by
  obtain ⟨page, ran⟩ : ∃ page, Transition.run (step Char.toLower) construct
      [.setQuestions [(['q'], ['A']), (['r'], ['b'])], .typeAnswer ['a'], .clickSubmit,
        .clearQuestions] = some page := ⟨_, rfl⟩
  exact ⟨page, ran, starts_fresh_iff Char.toLower _ page ran⟩

theorem finished_quiz_blocks : ∃ page,
    Transition.run (step Char.toLower) construct
        [.setQuestions [(['q'], ['a'])], .typeAnswer ['a'], .clickSubmit] = some page ∧
      (page.setQuestions [(['r'], ['b'])]).map view ≠
        (construct.setQuestions [(['r'], ['b'])]).map view := by
  refine ⟨_, rfl, ?_⟩
  intro same
  have flags := congrArg (Option.map QuizPage.submitEnabled) same
  exact absurd flags (by decide)

end QuizPage

end TextMaster
