import TextMaster.Session

/-!
Which pages of the window the user can reach. A signal that no slot is connected to has no
effect here, whatever the label of its button says.
-/

namespace TextMaster

/-- What the user does with a widget of a page, of the menu bar or of a message box. The inner
widgets of a page change that page only. -/
inductive WidgetAction where
  | textInput (text : QString)
  | importButton
  | letsGoButton
  | analysisButton (button : AnalysisType)
  | historyRow (index : Nat)
  | backButton (page : Page)
  | innerWidget (page : Page)
  | importAction (content : QString)
  | downloadAction (fileName : QString) (writable : Bool)
  | copyAction
  | aboutAction
  | closeBox

namespace WidgetAction

def page : WidgetAction → Option Page
  | .textInput _ | .importButton | .letsGoButton | .analysisButton _ => some .home
  | .historyRow _ => some .history
  | .backButton page | .innerWidget page => some page
  | _ => none

/-- What the slots connected to the widget's signals do, by `setupMenuBar`, `createHistoryPage`
and `connectSignals`. -/
def event {DateTime : Type} : WidgetAction → Option (SessionEvent DateTime)
  | .textInput text => some (.user (.edit text))
  | .importButton => none -- importFileClicked
  | .letsGoButton => some .analyze
  | .analysisButton button => some (.user (.choose button))
  | .historyRow index => some (.user (.historyRow index))
  | .backButton .history => some (.user .leaveHistory)
  | .backButton _ => none -- backToHome
  | .innerWidget _ => none -- answerSubmitted of the quiz page
  | .importAction content => some (.user (.importFile content))
  | .downloadAction fileName writable => some (.user (.download fileName writable))
  | .copyAction => some (.user .copy)
  | .aboutAction => none -- onAboutAction only shows a message box
  | .closeBox => some (.user .closeBox)

end WidgetAction

inductive NavigationEvent (DateTime : Type) where
  | user (action : WidgetAction)
  | background (event : SessionEvent DateTime)

def SessionEvent.isBackground {DateTime : Type} : SessionEvent DateTime → Bool
  | .start | .emitError _ _ | .finish _ _ | .deliver _ _ => true
  | .user _ | .analyze => false

def SessionEvent.turnsPage {DateTime : Type} : SessionEvent DateTime → Bool
  | .deliver _ _ | .user (.historyRow _) | .user .leaveHistory => true
  | _ => false

section Navigation

variable {DateTime : Type} (qt : Qt DateTime) (threads : Nat)

namespace Session

def offers (session : Session DateTime) : WidgetAction → Bool
  | .closeBox => !session.window.criticalBoxes.isEmpty
  | .backButton .home => false
  | action => session.window.criticalBoxes.isEmpty &&
      action.page.all (· = session.window.currentPage)

def act (session : Session DateTime) (action : WidgetAction) : Option (Session DateTime) :=
  if session.offers action then
    match action.event with
    | none => some session
    | some event => session.step qt threads event
  else none

def navigate (session : Session DateTime) : NavigationEvent DateTime → Option (Session DateTime)
  | .user action => session.act qt threads action
  | .background event => if event.isBackground then session.step qt threads event else none

def LeadsTo (page : Page) (session : Session DateTime) : Prop :=
  ∃ actions final, Transition.run (act qt threads) session actions = some final ∧
    final.window.currentPage = page

def NoTrap (session : Session DateTime) : Prop :=
  session.LeadsTo qt threads .home ∧ session.LeadsTo qt threads .history

end Session

variable {qt threads} {session next : Session DateTime}

theorem step_keeps_page {event : SessionEvent DateTime} (quiet : event.turnsPage = false)
    (taken : session.step qt threads event = some next) :
    next.window.currentPage = session.window.currentPage := by
  cases event with
  | user action =>
      cases taken
      cases action with
      | historyRow index => contradiction
      | leaveHistory => contradiction
      | download fileName writable =>
          simp only [MainWindow.user, MainWindow.onDownloadClicked]
          split
          · rfl
          · split <;> rfl
      | closeBox =>
          simp only [MainWindow.user, MainWindow.dismissError]
          split <;> rfl
      | _ => rfl
  | analyze => rcases step_analyze taken with ⟨_, rfl⟩ | ⟨_, rfl⟩ <;> rfl
  | start =>
      obtain ⟨_, _, _, _, _, rfl⟩ := step_start taken
      rfl
  | emitError id message =>
      obtain ⟨_, _, _, rfl⟩ := step_emitError taken
      rfl
  | finish id result =>
      obtain ⟨_, _, _, rfl⟩ := step_finish taken
      rfl
  | deliver now saved => contradiction

theorem deliver_page {now : DateTime} {saved : SaveOutcome}
    (taken : session.step qt threads (.deliver now saved) = some next) :
    next.window.currentPage = session.window.currentPage ∨
      next.window.currentPage = .results := by
  rcases step_deliver taken with ⟨_, _, _, rfl⟩ | ⟨_, _, _, result, _, _, _, rfl⟩
  · exact Or.inl rfl
  · simp only [MainWindow.studyGuideFinished, MainWindow.recordResult]
    split
    · exact Or.inl rfl
    · exact Or.inr rfl

theorem act_eq_some {action : WidgetAction} (taken : session.act qt threads action = some next) :
    session.offers action = true ∧
      (next = session ∨ ∃ event, action.event = some event ∧
        session.step qt threads event = some next) := by
  simp only [Session.act] at taken
  split at taken
  · rename_i offered
    refine ⟨offered, ?_⟩
    cases sent : (action.event : Option (SessionEvent DateTime)) with
    | none =>
        simp only [sent, Option.some.injEq] at taken
        exact Or.inl taken.symm
    | some event =>
        simp only [sent] at taken
        exact Or.inr ⟨event, rfl, taken⟩
  · contradiction

theorem offers_page {action : WidgetAction} {page : Page}
    (offered : session.offers action = true) (placed : action.page = some page) :
    session.window.currentPage = page := by
  cases action with
  | closeBox => simp [WidgetAction.page] at placed
  | backButton other =>
      cases other with
      | home => contradiction
      | _ => simp_all [Session.offers]
  | _ => simp_all [Session.offers]

theorem turnsPage_page {action : WidgetAction} {event : SessionEvent DateTime}
    (sent : action.event = some event) (turns : event.turnsPage = true) :
    action.page = some .history := by
  cases action with
  | historyRow index => rfl
  | backButton page =>
      cases page with
      | history => rfl
      | _ => contradiction
  | _ =>
      cases sent
      try contradiction

theorem act_keeps_page {action : WidgetAction} (taken : session.act qt threads action = some next)
    (elsewhere : session.window.currentPage ≠ .history) :
    next.window.currentPage = session.window.currentPage := by
  obtain ⟨offered, rfl | ⟨event, sent, stepped⟩⟩ := act_eq_some taken
  · rfl
  · cases turns : event.turnsPage with
    | false => exact step_keeps_page turns stepped
    | true => exact absurd (offers_page offered (turnsPage_page sent turns)) elsewhere

theorem leadsTo_history_iff :
    session.LeadsTo qt threads .history ↔ session.window.currentPage = .history := by
  constructor
  · rintro ⟨actions, final, ran, shown⟩
    by_contra elsewhere
    have preserved : ∀ (state : Session DateTime) action next,
        state.window.currentPage ≠ .history → state.act qt threads action = some next →
          next.window.currentPage ≠ .history :=
      fun state action next away taken => (act_keeps_page taken away).trans_ne away
    exact Transition.run_preserves preserved elsewhere ran shown
  · exact fun here => ⟨[], session, rfl, here⟩

theorem boxes_close (qt : Qt DateTime) (threads : Nat) (session : Session DateTime) :
    ∃ actions final, Transition.run (Session.act qt threads) session actions = some final ∧
      final.window.criticalBoxes = [] ∧
      final.window.currentPage = session.window.currentPage := by
  generalize boxesEq : session.window.criticalBoxes = boxes
  induction boxes generalizing session with
  | nil => exact ⟨[], session, rfl, boxesEq, rfl⟩
  | cons error rest ih =>
      have closed : session.act qt threads .closeBox =
          some { session with window := session.window.dismissError } := by
        simp [Session.act, Session.offers, boxesEq, WidgetAction.event, Session.step,
          MainWindow.user]
      obtain ⟨actions, final, ran, none, same⟩ :=
        ih { session with window := session.window.dismissError }
          (by simp [MainWindow.dismissError, boxesEq, MainWindow.showMessage])
      refine ⟨.closeBox :: actions, final, ?_, none, ?_⟩
      · exact (Transition.run_cons _ _ _ _ _).mpr ⟨_, closed, ran⟩
      · rw [same]
        simp [MainWindow.dismissError, boxesEq, MainWindow.showMessage]

theorem leadsTo_home_iff :
    session.LeadsTo qt threads .home ↔
      session.window.currentPage = .home ∨ session.window.currentPage = .history := by
  constructor
  · rintro ⟨actions, final, ran, shown⟩
    by_contra elsewhere
    simp only [not_or] at elsewhere
    have preserved : ∀ (state : Session DateTime) action next,
        state.window.currentPage ≠ .home ∧ state.window.currentPage ≠ .history →
          state.act qt threads action = some next →
            next.window.currentPage ≠ .home ∧ next.window.currentPage ≠ .history :=
      fun state action next away taken => by rwa [act_keeps_page taken away.2]
    exact (Transition.run_preserves preserved elsewhere ran).1 shown
  · rintro (here | listed)
    · exact ⟨[], session, rfl, here⟩
    · obtain ⟨actions, closed, ran, none, same⟩ := boxes_close qt threads session
      have back : closed.act qt threads (.backButton .history) =
          some { closed with window := closed.window.showHomePage } := by
        simp [Session.act, Session.offers, none, WidgetAction.page, same, listed,
          WidgetAction.event, Session.step, MainWindow.user]
      refine ⟨actions ++ [.backButton .history],
        { closed with window := closed.window.showHomePage }, ?_, rfl⟩
      exact (Transition.run_append _ _ _ _ _).mpr
        ⟨closed, ran, (Transition.run_single _ _ _ _).mpr back⟩

theorem navigate_reaches (session : Session DateTime) (event : NavigationEvent DateTime)
    (next : Session DateTime)
    (shown : session.window.currentPage = .home ∨ session.window.currentPage = .results)
    (taken : session.navigate qt threads event = some next) :
    next.window.currentPage = .home ∨ next.window.currentPage = .results := by
  cases event with
  | user action =>
      have elsewhere : session.window.currentPage ≠ .history := by
        rcases shown with home | results
        · simp [home]
        · simp [results]
      rwa [act_keeps_page taken elsewhere]
  | background event =>
      simp only [Session.navigate] at taken
      split at taken
      · rename_i behind
        cases event with
        | deliver now saved =>
            rcases deliver_page taken with same | results
            · rwa [same]
            · exact Or.inr results
        | user action => contradiction
        | analyze => contradiction
        | _ => rwa [step_keeps_page rfl taken]
      · contradiction

/-- Whatever has happened, the history page cannot be reached, and the home page only if it is
still the one shown: `showHistoryPage` and the `backToHome` signals are connected to nothing. -/
theorem reached_page_is_trap (qt : Qt DateTime) (threads : Nat) (file : Option (List UInt8))
    (opened : Bool) (status : QString) (events : List (NavigationEvent DateTime))
    (session : Session DateTime)
    (reached : Transition.run (Session.navigate qt threads) (.construct qt file opened status)
      events = some session) :
    (session.LeadsTo qt threads .home ↔ session.window.currentPage = .home) ∧
      ¬ session.LeadsTo qt threads .history ∧ ¬ session.NoTrap qt threads := by
  have initially : (Session.construct qt file opened status).window.currentPage = .home :=
    (MainWindow.construct_frame qt file opened status).1
  have shown := Transition.run_preserves navigate_reaches (Or.inl initially) reached
  have away : session.window.currentPage ≠ .history := by
    rcases shown with home | results
    · simp [home]
    · simp [results]
  have noHistory : ¬ session.LeadsTo qt threads .history := fun leads =>
    away (leadsTo_history_iff.mp leads)
  refine ⟨?_, noHistory, fun free => noHistory free.2⟩
  rw [leadsTo_home_iff]
  exact or_iff_left away

theorem answered_page_is_trap : ∃ session,
    Transition.run (Session.navigate minuteQt 1) (.construct minuteQt none true [])
      [.user (.textInput ['a']), .user .letsGoButton, .background .start,
        .background (.finish 0 ['b']), .background (.deliver (some 1) .completed),
        .user (.backButton .results)] = some session ∧
      (session.LeadsTo minuteQt 1 .home ↔ session.window.currentPage = .home) ∧
      ¬ session.LeadsTo minuteQt 1 .history ∧ ¬ session.NoTrap minuteQt 1 := by
  obtain ⟨session, ran⟩ : ∃ session,
      Transition.run (Session.navigate minuteQt 1) (.construct minuteQt none true [])
        [.user (.textInput ['a']), .user .letsGoButton, .background .start,
          .background (.finish 0 ['b']), .background (.deliver (some 1) .completed),
          .user (.backButton .results)] = some session := ⟨_, rfl⟩
  exact ⟨session, ran, reached_page_is_trap minuteQt 1 none true [] _ session ran⟩

theorem answer_traps : ∃ session,
    Transition.run (Session.navigate minuteQt 1) (.construct minuteQt none true [])
      [.user (.textInput ['a']), .user .letsGoButton, .background .start,
        .background (.finish 0 ['b']), .background (.deliver (some 1) .completed)] =
          some session ∧
      ¬ session.LeadsTo minuteQt 1 .home ∧ ¬ session.LeadsTo minuteQt 1 .history := by
  obtain ⟨session, ran, page⟩ : ∃ session,
      Transition.run (Session.navigate minuteQt 1) (.construct minuteQt none true [])
        [.user (.textInput ['a']), .user .letsGoButton, .background .start,
          .background (.finish 0 ['b']), .background (.deliver (some 1) .completed)] =
            some session ∧
        session.window.currentPage = .results := ⟨_, rfl, rfl⟩
  refine ⟨session, ran, ?_, ?_⟩
  · simp [leadsTo_home_iff, page]
  · simp [leadsTo_history_iff, page]

end Navigation

end TextMaster
