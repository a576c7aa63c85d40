import TextMaster.HistoryFile
import TextMaster.Transition

/-!
The results page against the two text widgets behind it: completions fill the page's own widget,
history rows fill the window's, and Download and Copy read the window's.
-/

namespace TextMaster

inductive Opened where
  | never
  | byRow (index : Nat)
  | byCompletion (result : QString)

structure View (DateTime : Type) where
  window : MainWindow DateTime
  opened : Opened

inductive ViewEvent (DateTime : Type) where
  | completion (result : QString) (now : DateTime) (saved : SaveOutcome)
  | historyRow (index : Nat)
  | download (fileName : QString) (writable : Bool)
  | copy

namespace View

variable {DateTime : Type} (qt : Qt DateTime)

def step (view : View DateTime) : ViewEvent DateTime → Option (View DateTime)
  | .completion result now saved =>
    some ⟨view.window.studyGuideFinished qt result now saved,
      if result.isEmpty then view.opened else .byCompletion result⟩
  | .historyRow index =>
    some ⟨view.window.onHistoryItemClicked index,
      if index < view.window.processingHistory.length then .byRow index else view.opened⟩
  | .download fileName writable => some { view with
      window := view.window.onDownloadClicked fileName writable }
  | .copy => some { view with window := view.window.onCopyClicked }

def ShowsOpened (view : View DateTime) : Prop :=
  match view.opened with
  | .never => True
  | .byRow index => ∃ item, view.window.processingHistory[index]? = some item ∧
      view.window.resultsPage = item.result
  | .byCompletion result => view.window.resultsPage = result

def ExportsShown (window : MainWindow DateTime) : Prop :=
  window.onCopyClicked.clipboard = window.resultsPage ∧
    ∀ fileName, fileName ≠ [] →
      (window.onDownloadClicked fileName true).savedFiles.head? =
        some (fileName, window.resultsPage)

def Faithful (view : View DateTime) : Prop :=
  view.window.currentPage = .results → view.ShowsOpened ∧ ExportsShown view.window

/-- A completion finds its result in the window's own widget already, and a row is clicked whose
result the page shows already. -/
def Agrees (view : View DateTime) : ViewEvent DateTime → Prop
  | .completion result _ _ => result = [] ∨ view.window.resultsText = result
  | .historyRow index => ∀ item, view.window.processingHistory[index]? = some item →
      view.window.resultsPage = item.result
  | .download _ _ => True
  | .copy => True

end View

section Faithfulness

open View

variable {DateTime : Type} {qt : Qt DateTime}

theorem exportsShown_iff (window : MainWindow DateTime) :
    ExportsShown window ↔ window.resultsText = window.resultsPage := by
  constructor
  · rintro ⟨copied, _⟩
    exact copied
  · intro same
    refine ⟨same, ?_⟩
    intro fileName chosen
    simp [MainWindow.onDownloadClicked, MainWindow.showMessage, chosen, same]

theorem faithful_congr {window next : MainWindow DateTime} {opened : Opened}
    (page : next.currentPage = window.currentPage)
    (shown : next.resultsPage = window.resultsPage)
    (text : next.resultsText = window.resultsText)
    (history : next.processingHistory = window.processingHistory) :
    Faithful ⟨next, opened⟩ ↔ Faithful ⟨window, opened⟩ := by
  simp only [Faithful, ShowsOpened, exportsShown_iff, page, shown, text, history]

theorem completion_faithful {view : View DateTime} (faithful : view.Faithful) (result : QString)
    (now : DateTime) (saved : SaveOutcome) {next : View DateTime}
    (taken : view.step qt (.completion result now saved) = some next) :
    next.Faithful ↔ view.Agrees (.completion result now saved) := by
  cases taken
  by_cases empty : result = []
  · subst result
    have same : Faithful ⟨view.window.studyGuideFinished qt [] now saved, view.opened⟩ ↔
        view.Faithful := faithful_congr rfl rfl rfl rfl
    exact ⟨fun _ => Or.inl rfl, fun _ => same.mpr faithful⟩
  · have filled : result.isEmpty = false := by simpa using empty
    simp only [Faithful, ShowsOpened, exportsShown_iff, Agrees, empty, false_or,
      MainWindow.studyGuideFinished, MainWindow.recordResult, filled]
    constructor
    · intro nextFaithful
      exact (nextFaithful rfl).2
    · intro same _
      exact ⟨rfl, same⟩

theorem historyRow_faithful {view : View DateTime} (faithful : view.Faithful) (index : Nat)
    {next : View DateTime} (taken : view.step qt (.historyRow index) = some next) :
    next.Faithful ↔ view.Agrees (.historyRow index) := by
  cases taken
  cases found : view.window.processingHistory[index]? with
  | none =>
      have outside : ¬ index < view.window.processingHistory.length := by
        simpa using found
      simp only [MainWindow.onHistoryItemClicked, found, if_neg outside, Agrees]
      exact ⟨fun _ _ impossible => by contradiction, fun _ => faithful⟩
  | some item =>
      obtain ⟨inside, _⟩ := List.getElem?_eq_some_iff.mp found
      simp only [MainWindow.onHistoryItemClicked, found, if_pos inside, Agrees, Faithful,
        ShowsOpened, exportsShown_iff, MainWindow.showResultsPage, Option.some.injEq]
      constructor
      · rintro nextFaithful other rfl
        exact (nextFaithful trivial).2.symm
      · intro shown _
        exact ⟨⟨item, rfl, shown item rfl⟩, (shown item rfl).symm⟩

theorem step_faithful (view : View DateTime) (event : ViewEvent DateTime) (next : View DateTime)
    (faithful : view.Faithful) (taken : view.step qt event = some next) :
    next.Faithful ↔ view.Agrees event := by
  cases event with
  | completion result now saved => exact completion_faithful faithful result now saved taken
  | historyRow index => exact historyRow_faithful faithful index taken
  | download fileName writable =>
      cases taken
      have same : Faithful ⟨view.window.onDownloadClicked fileName writable, view.opened⟩ ↔
          view.Faithful := by
        simp only [MainWindow.onDownloadClicked]
        split
        · exact Iff.rfl
        · split
          · exact faithful_congr rfl rfl rfl rfl
          · exact Iff.rfl
      exact ⟨fun _ => trivial, fun _ => same.mpr faithful⟩
  | copy =>
      cases taken
      have same : Faithful ⟨view.window.onCopyClicked, view.opened⟩ ↔ view.Faithful :=
        faithful_congr rfl rfl rfl rfl
      exact ⟨fun _ => trivial, fun _ => same.mpr faithful⟩

/-- From a new window on, the shown, downloaded and copied texts agree throughout a run exactly
when each completion and each row click finds them in agreement beforehand. -/
theorem shown_is_exported_iff (qt : Qt DateTime) (file : Option (List UInt8)) (opened : Bool)
    (status : QString) (events : List (ViewEvent DateTime)) :
    Transition.Always (step qt) Faithful ⟨.construct qt file opened status, .never⟩ events ↔
      Transition.Along (step qt) Agrees ⟨.construct qt file opened status, .never⟩ events := by
  apply Transition.always_iff_along step_faithful
  intro shown
  rw [(MainWindow.construct_frame qt file opened status).1] at shown
  contradiction

theorem first_result_not_copied :
    ¬ Transition.Always (step minuteQt) Faithful ⟨.construct minuteQt none true [], .never⟩
      [.completion ['a', 'b', 'c'] (some 1) .completed] := by
  intro always
  have final := always [.completion ['a', 'b', 'c'] (some 1) .completed] [] _ rfl rfl rfl
  exact absurd final.2.1 (by decide)

end Faithfulness

end TextMaster
