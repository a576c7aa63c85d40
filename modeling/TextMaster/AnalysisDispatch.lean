import TextMaster.Session

/-!
The choice of an analysis on the home page, and the prompt of the request that LET'S GO starts.
-/

namespace TextMaster

def HomePage.Agrees (page : HomePage) : Prop :=
  ∃ selected, page.currentAnalysisType = some selected ∧
    ∀ button, page.checked button = true ↔ button = selected

namespace HomePage

theorem construct_agrees : construct.Agrees := by
  refine ⟨.studyGuide, rfl, ?_⟩
  intro button
  cases button <;> decide

theorem click_agrees (page : HomePage) (button : AnalysisType) : (page.click button).Agrees := by
  refine ⟨button, by cases button <;> rfl, ?_⟩
  intro other
  cases button <;> cases other <;>
    simp [click, onStudyGuideClicked, onQuizClicked, onFlashcardsClicked, onEnumerationsClicked,
      select, setChecked]

theorem onAnalyzeClicked_of_agrees {page : HomePage} (agrees : page.Agrees) :
    page.onAnalyzeClicked = page := by
  obtain ⟨selected, named, _⟩ := agrees
  simp only [onAnalyzeClicked, named]

end HomePage

section Prompts

theorem mark_append {start rest : QString} {char : Char} (found : start[9]? = some char) :
    (start ++ rest)[9]? = some char := by
  obtain ⟨long, _⟩ := List.getElem?_eq_some_iff.mp found
  rw [List.getElem?_append_left long, found]

theorem studyGuideTemplate_mark : studyGuideTemplate[9]? = some 's' := by
  unfold studyGuideTemplate
  repeat rw [String.toList_append]
  repeat apply mark_append
  decide +kernel

theorem formatPrompt_mark (analysisType : AnalysisType) (input : QString) :
    (formatPrompt analysisType input)[9]? = some (match analysisType with
      | .studyGuide => 's'
      | .quiz => 'q'
      | .flashcards => 'a'
      | .enumerations => 'l') := by
  cases analysisType with
  | studyGuide => exact mark_append studyGuideTemplate_mark
  | quiz => exact mark_append (mark_append (by decide +kernel))
  | flashcards => exact mark_append (mark_append (by decide +kernel))
  | enumerations => exact mark_append (mark_append (by decide +kernel))

theorem formatPrompt_injective {first second : AnalysisType} {input : QString}
    (same : formatPrompt first input = formatPrompt second input) : first = second := by
  have marks := congrArg (fun prompt : QString => prompt[9]?) same
  simp only [formatPrompt_mark, Option.some.injEq] at marks
  clear same
  revert marks
  cases first <;> cases second <;> decide

end Prompts

section Dispatch

variable {DateTime : Type} {qt : Qt DateTime} {threads : Nat}

/-- The request of a click on LET'S GO has the prompt of the selected analysis for the text in
the input box. -/
def Dispatches (qt : Qt DateTime) (threads : Nat) (session : Session DateTime) : Prop :=
  session.Accepts → ∀ next, session.step qt threads .analyze = some next →
    ∃ run selected, next.runs = session.runs ++ [run] ∧
      session.window.homePage.currentAnalysisType = some selected ∧
      run.prompt = formatPrompt selected session.window.homePage.textInput

theorem user_agrees {window : MainWindow DateTime} (agrees : window.homePage.Agrees)
    (action : UserAction) : (window.user action).homePage.Agrees := by
  cases action with
  | choose button => exact HomePage.click_agrees window.homePage button
  | historyRow index =>
      simp only [MainWindow.user, MainWindow.onHistoryItemClicked]
      split <;> exact agrees
  | download fileName writable =>
      simp only [MainWindow.user, MainWindow.onDownloadClicked]
      split
      · exact agrees
      · split <;> exact agrees
  | closeBox =>
      simp only [MainWindow.user, MainWindow.dismissError]
      split <;> exact agrees
  | _ => exact agrees

theorem step_agrees (session : Session DateTime) (event : SessionEvent DateTime)
    (next : Session DateTime) (agrees : session.window.homePage.Agrees)
    (taken : session.step qt threads event = some next) : next.window.homePage.Agrees := by
  cases event with
  | user action =>
      cases taken
      exact user_agrees agrees action
  | analyze =>
      have clicked : session.clicked.homePage.Agrees := by
        rw [Session.clicked, HomePage.onAnalyzeClicked_of_agrees agrees]
        exact agrees
      rcases step_analyze taken with ⟨_, rfl⟩ | ⟨_, rfl⟩ <;> exact clicked
  | start =>
      obtain ⟨_, _, _, _, _, rfl⟩ := step_start taken
      exact agrees
  | emitError id message =>
      obtain ⟨_, _, _, rfl⟩ := step_emitError taken
      exact agrees
  | finish id result =>
      obtain ⟨_, _, _, rfl⟩ := step_finish taken
      exact agrees
  | deliver now saved =>
      rcases step_deliver taken with ⟨_, _, _, rfl⟩ | ⟨_, _, _, result, _, _, _, rfl⟩
      · exact agrees
      · rw [(MainWindow.studyGuideFinished_frame qt result _ _ session.window).1]
        exact agrees

theorem dispatches_iff {session : Session DateTime} (agrees : session.window.homePage.Agrees) :
    Dispatches qt threads session ↔ (session.Accepts →
      session.window.homePage.currentAnalysisType = some .studyGuide) := by
  have clicked : session.clicked.homePage = session.window.homePage :=
    HomePage.onAnalyzeClicked_of_agrees agrees
  have started {next : Session DateTime} (accepts : session.Accepts)
      (taken : session.step qt threads .analyze = some next) : next.runs = session.runs ++
        [⟨.studyGuide, session.window.homePage.textInput, .queued⟩] := by
    rcases step_analyze taken with ⟨_, rfl⟩ | ⟨rejects, _⟩
    · rw [clicked]
    · exact absurd accepts rejects
  constructor
  · intro dispatches accepts
    obtain ⟨run, selected, runs, named, prompt⟩ := dispatches accepts _ rfl
    have same := (started accepts rfl).symm.trans runs
    simp only [List.append_cancel_left_eq, List.cons.injEq, and_true] at same
    rw [← same] at prompt
    rw [named, ← formatPrompt_injective prompt]
  · intro chosen accepts next taken
    exact ⟨_, .studyGuide, started accepts taken, chosen accepts, rfl⟩

/-- In every reachable state the four buttons agree with `currentAnalysisType`, and LET'S GO
starts the selected analysis exactly if that is the study guide or the text is not accepted. -/
theorem buttons_agree_and_dispatch_iff (qt : Qt DateTime) (threads : Nat)
    (file : Option (List UInt8)) (opened : Bool) (status : QString)
    (events : List (SessionEvent DateTime)) (session : Session DateTime)
    (reached : Transition.run (Session.step qt threads) (.construct qt file opened status)
      events = some session) :
    session.window.homePage.Agrees ∧
      (Dispatches qt threads session ↔ (session.Accepts →
        session.window.homePage.currentAnalysisType = some .studyGuide)) := by
  have initially : (Session.construct qt file opened status).window.homePage.Agrees := by
    rw [Session.construct, (MainWindow.construct_frame qt file opened status).2.1]
    exact HomePage.construct_agrees
  have preserved : ∀ (before : Session DateTime) event (after : Session DateTime),
      before.window.homePage.Agrees → before.step qt threads event = some after →
        after.window.homePage.Agrees := step_agrees
  have agrees := Transition.run_preserves preserved initially reached
  exact ⟨agrees, dispatches_iff agrees⟩

theorem chosen_quiz_agrees : ∃ session,
    Transition.run (Session.step minuteQt 2) (.construct minuteQt none true [])
      [.user (.edit ['a']), .user (.choose .quiz)] = some session ∧
      session.window.homePage.Agrees ∧
      (Dispatches minuteQt 2 session ↔ (session.Accepts →
        session.window.homePage.currentAnalysisType = some .studyGuide)) := by
  have reached : ∃ session, Transition.run (Session.step minuteQt 2)
      (.construct minuteQt none true []) [.user (.edit ['a']), .user (.choose .quiz)] =
        some session := ⟨_, rfl⟩
  obtain ⟨session, ran⟩ := reached
  exact ⟨session, ran, buttons_agree_and_dispatch_iff minuteQt 2 none true [] _ session ran⟩

theorem chosen_quiz_not_dispatched : ∃ session,
    Transition.run (Session.step minuteQt 2) (.construct minuteQt none true [])
      [.user (.edit ['a']), .user (.choose .quiz)] = some session ∧
      ¬ Dispatches minuteQt 2 session := by
  refine ⟨_, rfl, ?_⟩
  intro dispatches
  obtain ⟨run, selected, runs, named, prompt⟩ := dispatches (by decide) _ rfl
  cases named
  have started : run = ⟨.studyGuide, ['a'], .queued⟩ := by
    cases runs
    rfl
  rw [started] at prompt
  exact absurd (formatPrompt_injective prompt) (by decide)

end Dispatch

end TextMaster
