import Mathlib.Data.List.Forall2
import TextMaster.QuizPage

/-!
Answers on `QuizPage`: how long the verdict on an answer stays in view, and what a player who
gives the stored answers scores.
-/

namespace TextMaster

namespace QuizPage

variable {foldCase : Char → Char} {page next : QuizPage}

section Verdict

def verdict (foldCase : Char → Char) (submission : Submission) : QString :=
  if submission.correct foldCase then "Correct!".toList
  else "Incorrect. The correct answer is: ".toList ++ submission.asked.2

def VerdictShown (foldCase : Char → Char) (observed : QuizPage × List Submission) : Prop :=
  ∀ last, observed.2.getLast? = some last →
    observed.1.feedbackVisible = true ∧ observed.1.feedbackText = verdict foldCase last

def AnswersLast (observed : QuizPage × List Submission) (event : QuizEvent) : Prop :=
  event = .clickSubmit → observed.1.submission ≠ none →
    observed.1.currentIndex + 1 = observed.1.quizQuestions.length

theorem judge_feedback (foldCase : Char → Char) (asked : QString × QString) (page : QuizPage) :
    (page.judge foldCase asked.2).feedbackVisible = true ∧
      (page.judge foldCase asked.2).feedbackText =
        verdict foldCase ⟨page.currentIndex, page.answerInput, asked⟩ := by
  by_cases right : sameIgnoringCase foldCase (trimmed page.answerInput) asked.2 = true
  · simp [judge, updateScore, verdict, Submission.correct, right]
  · simp [judge, updateScore, verdict, Submission.correct, right]

theorem verdictShown_of_none (foldCase : Char → Char) (page : QuizPage) :
    VerdictShown foldCase (page, []) := by
  intro last found
  cases found

theorem step_verdictShown_iff (foldCase : Char → Char) (observed : QuizPage × List Submission)
    (event : QuizEvent) (after : QuizPage × List Submission)
    (shown : VerdictShown foldCase observed)
    (taken : Transition.noting (step foldCase) noteSubmission observed event = some after) :
    VerdictShown foldCase after ↔ AnswersLast observed event := by
  obtain ⟨page, log⟩ := observed
  obtain ⟨next, stepped, rfl⟩ := Option.map_eq_some_iff.mp taken
  change page.step foldCase event = some next at stepped
  cases event with
  | setQuestions questions =>
      exact iff_of_true (verdictShown_of_none foldCase next) (fun click => by cases click)
  | clearQuestions =>
      exact iff_of_true (verdictShown_of_none foldCase next) (fun click => by cases click)
  | typeAnswer text =>
      cases stepped
      refine iff_of_true ?_ (fun click => by cases click)
      intro last found
      have kept := shown last found
      split <;> exact kept
  | clickSubmit =>
      cases clickSubmit_step stepped with
      | ignored none =>
          refine iff_of_true ?_ (fun _ accepted => absurd none accepted)
          rw [noteSubmission, none, Option.toList_none, List.append_nil]
          exact shown
      | next asked question enabled found following =>
          have noted := submission_of_asked enabled found
          have bound := (List.getElem?_eq_some_iff.mp following).1
          refine iff_of_false ?_ ?_
          · intro kept
            -- the next question has hidden the feedback
            have visible := (kept ⟨page.currentIndex, page.answerInput, asked⟩
              (by simp [noteSubmission, noted])).1
            exact absurd visible (by simp [showQuestion])
          · intro answers
            have ended : page.currentIndex + 1 = page.quizQuestions.length :=
              answers rfl (by simp [noted])
            omega
      | last asked enabled found ended =>
          have noted := submission_of_asked enabled found
          refine iff_of_true ?_ (fun _ _ => ended)
          intro last same
          rw [noteSubmission, noted, Option.toList_some, List.getLast?_concat,
            Option.some.injEq] at same
          subst last
          exact judge_feedback foldCase asked page

/-- The verdict stays in view over a whole run exactly if every accepted answer of it is to the
last question of its list: any other question hides the feedback as it comes up. -/
theorem verdict_shown_iff (foldCase : Char → Char) (events : List QuizEvent) :
    Transition.Always (Transition.noting (step foldCase) noteSubmission) (VerdictShown foldCase)
        (construct, []) events ↔
      Transition.Along (Transition.noting (step foldCase) noteSubmission) AnswersLast
        (construct, []) events :=
  Transition.always_iff_along (step_verdictShown_iff foldCase)
    (verdictShown_of_none foldCase construct) events

theorem first_verdict_hidden :
    ¬ Transition.Always (Transition.noting (step Char.toLower) noteSubmission)
      (VerdictShown Char.toLower) (construct, [])
      [.setQuestions [(['q'], ['a']), (['r'], ['b'])], .typeAnswer ['a'], .clickSubmit] := by
  intro always
  have shown := always
    [.setQuestions [(['q'], ['a']), (['r'], ['b'])], .typeAnswer ['a'], .clickSubmit] [] _ rfl rfl
  exact absurd (shown ⟨0, ['a'], (['q'], ['a'])⟩ rfl).1 (by decide)

end Verdict

section PerfectPlayer

def isLineBreak (char : Char) : Bool :=
  char == '\n' || char == '\r' || char.toNat == 0x2028 || char.toNat == 0x2029

/-- The texts that a line edit takes as they are. -/
structure FitsField (text : QString) : Prop where
  line : ∀ char ∈ text, isLineBreak char = false
  short : (utf16 text).length ≤ 32767

def Restates (stored typed : QString) : Prop :=
  (trimmed typed).map Char.toLower = (trimmed stored).map Char.toLower

def PerfectPlayer (foldCase : Char → Char) (questions : List (QString × QString)) : Prop :=
  ∀ answers : List QString,
    List.Forall₂ (fun question answer => FitsField answer ∧ Restates question.2 answer) questions
      answers →
    ∃ final, Transition.run (step foldCase) construct (.setQuestions questions :: play answers) =
      some final ∧ final.score = final.totalQuestions

def FoldsAscii (foldCase : Char → Char) : Prop := ∀ char, foldCase char.toLower = foldCase char

theorem click_keeps_questions (taken : page.step foldCase .clickSubmit = some next) :
    next.quizQuestions = page.quizQuestions := by
  cases clickSubmit_step taken with
  | ignored none => rfl
  | next asked question enabled found following => simp [showQuestion]
  | last asked enabled found ended => simp

theorem play_keeps_questions {answers : List QString}
    (ran : Transition.run (step foldCase) page (play answers) = some next) :
    next.quizQuestions = page.quizQuestions := by
  induction answers generalizing page with
  | nil =>
      cases ran
      rfl
  | cons answer rest ih =>
      obtain ⟨typed, taken, later⟩ := (Transition.run_cons _ _ _ _ _).mp ran
      obtain ⟨clicked, click, behind⟩ := (Transition.run_cons _ _ _ _ _).mp later
      cases taken
      rw [ih behind, click_keeps_questions click]
      split <;> rfl

theorem Scored.asked_at {log : List Submission} (scored : Scored foldCase page log) {i : Nat}
    {submission : Submission} (found : log[i]? = some submission) :
    page.quizQuestions[i]? = some submission.asked := by
  have bound := (List.getElem?_eq_some_iff.mp found).1
  have index : submission.index = i := by
    have place := congrArg (·[i]?) scored.order
    simp only [List.getElem?_map, found, Option.map_some, List.getElem?_range bound,
      Option.some.injEq] at place
    exact place
  rw [← scored.asked submission (List.mem_of_getElem? found), index]

theorem played_score (foldCase : Char → Char) {questions : List (QString × QString)}
    (nonempty : questions ≠ []) {answers : List QString}
    (sizes : answers.length = questions.length) :
    ∃ final, Transition.run (step foldCase) construct (.setQuestions questions :: play answers) =
        some final ∧
      (final.score = final.totalQuestions ↔
        ∀ (i : Nat) (question : QString × QString) (answer : QString),
          questions[i]? = some question → answers[i]? = some answer →
            sameIgnoringCase foldCase (trimmed answer) question.2 = true) := by
  have playable : Playable foldCase construct questions := (playable_iff nonempty rfl).mpr rfl
  obtain ⟨final, ran, answered⟩ := playable answers sizes
  refine ⟨final, ran, ?_⟩
  have scored := Transition.record_preserves step_scored (scored_construct foldCase) ran
  have kept : final.quizQuestions = questions := by
    obtain ⟨opened, taken, played⟩ := (Transition.run_cons _ _ _ _ _).mp ran
    simp only [step, setQuestions_eq, Option.some.injEq] at taken
    rw [play_keeps_questions played, ← taken]
  change Scored foldCase final
    (submissions foldCase construct (.setQuestions questions :: play answers)) at scored
  generalize submissions foldCase construct (.setQuestions questions :: play answers) = log
    at scored answered
  have count : log.length = questions.length := by
    rw [← sizes, ← answered, List.length_map]
  have entry : ∀ (i : Nat) (submission : Submission), log[i]? = some submission →
      questions[i]? = some submission.asked ∧ answers[i]? = some submission.answer := by
    intro i submission found
    constructor
    · rw [← kept, scored.asked_at found]
    · rw [← answered, List.getElem?_map, found, Option.map_some]
  rw [scored.score, scored.total, kept, ← count, List.countP_eq_length]
  constructor
  · intro right i question answer asked given
    have bound := (List.getElem?_eq_some_iff.mp asked).1
    obtain ⟨submission, found⟩ : ∃ submission, log[i]? = some submission :=
      ⟨_, List.getElem?_eq_getElem (by omega)⟩
    obtain ⟨sameAsked, sameGiven⟩ := entry i submission found
    rw [asked, Option.some.injEq] at sameAsked
    rw [given, Option.some.injEq] at sameGiven
    rw [sameAsked, sameGiven]
    exact right submission (List.mem_of_getElem? found)
  · intro right submission member
    obtain ⟨i, found⟩ := List.mem_iff_getElem?.mp member
    obtain ⟨asked, given⟩ := entry i submission found
    exact right i _ _ asked given

theorem sameIgnoringCase_trimmed_iff (foldCase : Char → Char) (stored : QString) :
    sameIgnoringCase foldCase (trimmed stored) stored = true ↔ trimmed stored = stored := by
  constructor
  · intro same
    have lengths := congrArg List.length (beq_iff_eq.mp same)
    rw [List.length_map, List.length_map] at lengths
    exact (trimmed_sublist stored).eq_of_length lengths
  · intro bare
    rw [bare]
    exact beq_self_eq_true _

theorem sameIgnoringCase_of_restates (folds : FoldsAscii foldCase) {stored typed : QString}
    (bare : trimmed stored = stored) (restates : Restates stored typed) :
    sameIgnoringCase foldCase (trimmed typed) stored = true := by
  have lowered : ∀ text : QString, text.map foldCase = (text.map Char.toLower).map foldCase := by
    intro text
    rw [List.map_map]
    exact List.map_congr_left fun char _ => (folds char).symm
  rw [sameIgnoringCase, beq_iff_eq, lowered, lowered stored, restates, bare]

/-- Every perfect player gets the full score exactly if no stored answer has whitespace around
it: the typed answer is trimmed and the stored one is not. -/
theorem perfect_score_iff (folds : FoldsAscii foldCase) {questions : List (QString × QString)}
    (nonempty : questions ≠ [])
    (fits : ∀ question ∈ questions, FitsField question.1 ∧ FitsField question.2) :
    PerfectPlayer foldCase questions ↔ ∀ question ∈ questions, trimmed question.2 = question.2 := by
  constructor
  · intro perfect question member
    obtain ⟨final, ran, full⟩ := perfect (questions.map Prod.snd) (by
      rw [List.forall₂_map_right_iff, List.forall₂_same]
      exact fun question member => ⟨(fits question member).2, rfl⟩)
    have sizes : (questions.map Prod.snd).length = questions.length := List.length_map _
    obtain ⟨other, same, iff⟩ := played_score foldCase nonempty sizes
    rw [ran, Option.some.injEq] at same
    subst other
    obtain ⟨i, found⟩ := List.mem_iff_getElem?.mp member
    have right := iff.mp full i question question.2 found (by rw [List.getElem?_map, found]; rfl)
    exact (sameIgnoringCase_trimmed_iff foldCase question.2).mp right
  · intro bare answers given
    obtain ⟨final, ran, iff⟩ := played_score foldCase nonempty given.length_eq.symm
    refine ⟨final, ran, iff.mpr ?_⟩
    intro i question answer asked typed
    have restates := (List.forall₂_iff_get.mp given).2
    obtain ⟨bound, rfl⟩ := List.getElem?_eq_some_iff.mp asked
    obtain ⟨below, rfl⟩ := List.getElem?_eq_some_iff.mp typed
    exact sameIgnoringCase_of_restates folds (bare _ (List.getElem_mem bound))
      (restates i bound below).2

theorem toLower_foldsAscii : FoldsAscii Char.toLower := by
  intro char
  by_cases upper : 65 ≤ char.toNat ∧ char.toNat ≤ 90
  · have letters : ∀ offset < 26, (Char.ofNat (65 + offset)).toLower.toLower =
        (Char.ofNat (65 + offset)).toLower := by decide
    have same := letters (char.toNat - 65) (by omega)
    rwa [Nat.add_sub_cancel' upper.1, Char.ofNat_toNat] at same
  · have same : char.toLower = char := dif_neg upper
    rw [same, same]

theorem fitsField_of_visible {text : QString} (short : (utf16 text).length ≤ 32767)
    (visible : text.all (fun char => !isLineBreak char) = true) : FitsField text := by
  refine ⟨?_, short⟩
  intro char member
  simpa using List.all_eq_true.mp visible char member

theorem letters_perfect_score_iff :
    PerfectPlayer Char.toLower [(['q'], ['A', 'b']), (['r'], ['c', ' ', 'd'])] ↔
      ∀ question ∈ [(['q'], ['A', 'b']), (['r'], ['c', ' ', 'd'])],
        trimmed question.2 = question.2 := by
  refine perfect_score_iff toLower_foldsAscii (List.cons_ne_nil _ _) ?_
  intro question member
  simp only [List.mem_cons, List.not_mem_nil, or_false] at member
  rcases member with rfl | rfl
  · exact ⟨fitsField_of_visible (by decide) (by decide), fitsField_of_visible (by decide) (by decide)⟩
  · exact ⟨fitsField_of_visible (by decide) (by decide), fitsField_of_visible (by decide) (by decide)⟩

theorem blank_before_answer_unanswerable :
    FitsField [' ', 'a'] ∧ ¬ PerfectPlayer Char.toLower [(['q'], [' ', 'a'])] := by
  have field : FitsField [' ', 'a'] := fitsField_of_visible (by decide) (by decide)
  refine ⟨field, ?_⟩
  intro perfect
  obtain ⟨final, ran, full⟩ := perfect [[' ', 'a']] (.cons ⟨field, rfl⟩ .nil)
  cases ran
  exact absurd full (by decide)

end PerfectPlayer

end QuizPage

end TextMaster
