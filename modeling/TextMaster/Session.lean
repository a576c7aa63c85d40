import TextMaster.SessionCore
import TextMaster.HistoryFile
import TextMaster.Transition

/-!
What each step of a session does, and how many requests use the processor at a time.
-/

namespace TextMaster

section Steps

variable {DateTime : Type} {qt : Qt DateTime} {threads : Nat} {session next : Session DateTime}

theorem Session.advance_eq_some {id : Nat} {allowed : Phase → Bool} {phase : Phase} :
    session.advance id allowed phase = some next ↔
      ∃ run, session.runs[id]? = some run ∧ allowed run.phase = true ∧
        next = { session with runs := session.runs.set id { run with phase := phase } } := by
  unfold Session.advance
  cases found : session.runs[id]? with
  | none => simp
  | some run =>
      by_cases permitted : allowed run.phase = true
      · simp only [if_pos permitted, Option.some.injEq]
        constructor
        · rintro rfl
          exact ⟨run, rfl, permitted, rfl⟩
        · rintro ⟨_, rfl, _, same⟩
          exact same.symm
      · simp [permitted]

theorem step_start (taken : session.step qt threads .start = some next) :
    ∃ id run, session.runs[id]? = some run ∧ run.phase = .queued ∧ session.executing < threads ∧
      next = { session with runs := session.runs.set id { run with phase := .running } } := by
  simp only [Session.step, Session.startRun] at taken
  split at taken
  · rename_i free
    obtain ⟨id, _, moved⟩ := Option.bind_eq_some_iff.mp taken
    obtain ⟨run, found, queued, same⟩ := Session.advance_eq_some.mp moved
    exact ⟨id, run, found, by simpa using queued, free, same⟩
  · contradiction

theorem step_emitError {id : Nat} {message : QString}
    (taken : session.step qt threads (.emitError id message) = some next) :
    ∃ run, session.runs[id]? = some run ∧ run.phase = .running ∧
      next = { session with
        runs := session.runs.set id { run with phase := .erring }
        posted := session.posted ++ [.error message] } := by
  simp only [Session.step, Option.map_eq_some_iff] at taken
  obtain ⟨moved, advanced, rfl⟩ := taken
  obtain ⟨run, found, running, rfl⟩ := Session.advance_eq_some.mp advanced
  exact ⟨run, found, by simpa using running, rfl⟩

theorem step_finish {id : Nat} {result : QString}
    (taken : session.step qt threads (.finish id result) = some next) :
    ∃ run, session.runs[id]? = some run ∧
      (run.phase = .running ∨ (run.phase = .erring ∧ result = [])) ∧
      next = { session with
        runs := session.runs.set id { run with phase := .done result }
        posted := if session.watched = some id then session.posted ++ [.finished id]
          else session.posted } := by
  simp only [Session.step, Option.map_eq_some_iff] at taken
  obtain ⟨moved, advanced, rfl⟩ := taken
  obtain ⟨run, found, active, rfl⟩ := Session.advance_eq_some.mp advanced
  refine ⟨run, found, by simpa using active, ?_⟩
  simp only [Session.postFinished]
  split <;> rfl

theorem step_deliver {now : DateTime} {saved : SaveOutcome}
    (taken : session.step qt threads (.deliver now saved) = some next) :
    (∃ message rest, session.posted = .error message :: rest ∧
      next = { session with window := session.window.handleLLMError message, posted := rest }) ∨
    (∃ id rest run result, session.posted = .finished id :: rest ∧
      session.runs[id]? = some run ∧ run.phase = .done result ∧
      next = { session with
        window := session.window.studyGuideFinished qt result now saved
        watched := none
        posted := rest
        delivered := id :: session.delivered }) := by
  simp only [Session.step, Session.deliver] at taken
  split at taken
  · contradiction
  · rename_i message rest posted
    exact Or.inl ⟨message, rest, posted, by simpa using taken.symm⟩
  · rename_i id rest posted
    split at taken
    · rename_i analysisType input result found
      exact Or.inr ⟨id, rest, _, result, posted, found, rfl, by simpa using taken.symm⟩
    · contradiction

theorem step_analyze (taken : session.step qt threads .analyze = some next) :
    (session.Accepts ∧ next = { session with
      window := session.clicked.acceptInput
      runs := session.runs ++ [⟨.studyGuide, session.clicked.homePage.textInput, .queued⟩]
      watched := some session.runs.length
      posted := session.posted.filter Posted.isError
      replaced := session.replaced ++ session.watched.toList }) ∨
    (¬ session.Accepts ∧ next = { session with window := session.clicked }) := by
  simp only [Session.step, Option.some.injEq] at taken
  subst next
  unfold Session.onAnalyzeTextClicked
  split
  · rename_i accepts
    exact Or.inl ⟨accepts, rfl⟩
  · rename_i rejects
    exact Or.inr ⟨rejects, rfl⟩

end Steps

section Frames

variable {DateTime : Type}

theorem user_frame (window : MainWindow DateTime) (action : UserAction) :
    (window.user action).isProcessing = window.isProcessing ∧
      (window.user action).overrideCursors = window.overrideCursors ∧
      (window.user action).currentInputText = window.currentInputText ∧
      (window.user action).processingHistory = window.processingHistory ∧
      (window.user action).historyFile = window.historyFile ∧
      (window.user action).historyList = window.historyList := by
  cases action with
  | historyRow index =>
      simp only [MainWindow.user, MainWindow.onHistoryItemClicked]
      split <;> exact ⟨rfl, rfl, rfl, rfl, rfl, rfl⟩
  | download fileName writable =>
      simp only [MainWindow.user, MainWindow.onDownloadClicked]
      split
      · exact ⟨rfl, rfl, rfl, rfl, rfl, rfl⟩
      · split <;> exact ⟨rfl, rfl, rfl, rfl, rfl, rfl⟩
  | closeBox =>
      simp only [MainWindow.user, MainWindow.dismissError]
      split <;> exact ⟨rfl, rfl, rfl, rfl, rfl, rfl⟩
  | _ => exact ⟨rfl, rfl, rfl, rfl, rfl, rfl⟩

end Frames

section Counts

variable {DateTime : Type} {qt : Qt DateTime} {threads : Nat} {session next : Session DateTime}

theorem countP_set_of_found {Item : Type} {items : List Item} {id : Nat} {old new : Item}
    (holds : Item → Bool) (found : items[id]? = some old) :
    (items.set id new).countP holds + (if holds old then 1 else 0) =
      items.countP holds + (if holds new then 1 else 0) := by
  obtain ⟨bound, same⟩ := List.getElem?_eq_some_iff.mp found
  have counted := List.countP_set (p := holds) (a := new) bound
  have present := List.boole_getElem_le_countP (p := holds) bound
  rw [same] at counted present
  omega

theorem moved_counts (next : Session DateTime) {id : Nat} {run : Run} (phase : Phase)
    (found : session.runs[id]? = some run)
    (moved : next.runs = session.runs.set id { run with phase := phase }) :
    next.executing + (if run.executing then 1 else 0) =
        session.executing + (if { run with phase := phase }.executing then 1 else 0) ∧
      next.unfinished + (if run.unfinished then 1 else 0) =
        session.unfinished + (if { run with phase := phase }.unfinished then 1 else 0) := by
  simp only [Session.executing, Session.unfinished, moved]
  exact ⟨countP_set_of_found Run.executing found, countP_set_of_found Run.unfinished found⟩

theorem step_counts {event : SessionEvent DateTime}
    (taken : session.step qt threads event = some next) :
    (next.executing = session.executing ∧ next.unfinished = session.unfinished) ∨
    (event = .analyze ∧ session.Accepts ∧ next.executing = session.executing ∧
      next.unfinished = session.unfinished + 1) ∨
    (event = .start ∧ session.executing < threads ∧
      next.executing = session.executing + 1 ∧ next.unfinished = session.unfinished) ∨
    (next.executing + 1 = session.executing ∧ next.unfinished + 1 = session.unfinished) := by
  cases event with
  | user action =>
      cases taken
      exact Or.inl ⟨rfl, rfl⟩
  | analyze =>
      rcases step_analyze taken with ⟨accepts, rfl⟩ | ⟨_, rfl⟩
      · refine Or.inr (Or.inl ⟨rfl, accepts, ?_, ?_⟩)
        · simp [Session.executing, Run.executing]
        · simp [Session.unfinished, Run.unfinished]
      · exact Or.inl ⟨rfl, rfl⟩
  | start =>
      obtain ⟨id, run, found, queued, free, same⟩ := step_start taken
      have counts := moved_counts next .running found (by rw [same])
      simp only [Run.unfinished, Run.executing, queued] at counts
      exact Or.inr (Or.inr (Or.inl ⟨rfl, free, by simpa using counts.1, by simpa using counts.2⟩))
  | emitError id message =>
      obtain ⟨run, found, running, same⟩ := step_emitError taken
      have counts := moved_counts next .erring found (by rw [same])
      simp only [Run.unfinished, Run.executing, running] at counts
      exact Or.inl ⟨by simpa using counts.1, by simpa using counts.2⟩
  | finish id result =>
      obtain ⟨run, found, active, same⟩ := step_finish taken
      have counts := moved_counts next (.done result) found (by rw [same])
      have executing : run.executing = true := by
        rcases active with running | ⟨erring, _⟩
        · simp [Run.executing, running]
        · simp [Run.executing, erring]
      simp only [Run.unfinished, executing] at counts
      refine Or.inr (Or.inr (Or.inr ⟨?_, ?_⟩))
      · simpa [Run.executing] using counts.1
      · simpa [Run.executing] using counts.2
  | deliver now saved =>
      rcases step_deliver taken with ⟨_, _, _, rfl⟩ | ⟨_, _, _, _, _, _, _, rfl⟩
      · exact Or.inl ⟨rfl, rfl⟩
      · exact Or.inl ⟨rfl, rfl⟩

theorem executing_le_unfinished (session : Session DateTime) :
    session.executing ≤ session.unfinished := by
  apply List.countP_mono_left
  intro run _ executing
  simp [Run.unfinished, executing]

end Counts

section Exclusion

variable {DateTime : Type} {qt : Qt DateTime} {threads : Nat}

def Exclusive (session : Session DateTime) : Prop := session.executing ≤ 1

instance (session : Session DateTime) : Decidable (Exclusive session) :=
  inferInstanceAs (Decidable (_ ≤ _))

def ClicksAlone (threads : Nat) (session : Session DateTime) (event : SessionEvent DateTime) :
    Prop :=
  event = .analyze → session.Accepts → threads ≤ 1 ∨ session.unfinished = 0

structure OneAtATime (threads : Nat) (session : Session DateTime) : Prop where
  pooled : session.executing ≤ threads
  alone : threads ≤ 1 ∨ session.unfinished ≤ 1

theorem OneAtATime.exclusive {session : Session DateTime} (holds : OneAtATime threads session) :
    Exclusive session := by
  have started := executing_le_unfinished session
  have pooled := holds.pooled
  unfold Exclusive
  rcases holds.alone with single | alone <;> omega

theorem step_oneAtATime (session : Session DateTime) (event : SessionEvent DateTime)
    (next : Session DateTime) (holds : OneAtATime threads session)
    (alone : ClicksAlone threads session event)
    (taken : session.step qt threads event = some next) : OneAtATime threads next := by
  obtain ⟨pooled, few⟩ := holds
  rcases step_counts taken with ⟨executing, unfinished⟩ |
    ⟨rfl, accepts, executing, unfinished⟩ | ⟨_, free, executing, unfinished⟩ |
    ⟨executing, unfinished⟩
  · exact ⟨by omega, by omega⟩
  · have before := alone rfl accepts
    exact ⟨by omega, by omega⟩
  · exact ⟨by omega, by omega⟩
  · exact ⟨by omega, by omega⟩

theorem start_enabled (qt : Qt DateTime) (threads : Nat) (session : Session DateTime)
    (free : session.executing < threads) (waiting : session.executing < session.unfinished) :
    ∃ next, session.step qt threads .start = some next ∧
      next.executing = session.executing + 1 ∧ next.unfinished = session.unfinished := by
  have queued : ∃ run ∈ session.runs, decide (run.phase = .queued) = true := by
    by_contra none
    have same : session.unfinished ≤ session.executing := by
      apply List.countP_mono_left
      intro run member unfinished
      have moving : ¬ run.phase = .queued := fun waits => none ⟨run, member, by simpa using waits⟩
      simpa [Run.unfinished, moving] using unfinished
    omega
  have located := List.findIdx?_eq_some_of_exists queued
  obtain ⟨bound, first, _⟩ := List.findIdx?_eq_some_iff_getElem.mp located
  have taken : ∃ next, session.step qt threads .start = some next := by
    simp only [Session.step, Session.startRun, if_pos free, located, Option.bind_some,
      Session.advance, List.getElem?_eq_getElem bound, if_pos first]
    exact ⟨_, rfl⟩
  obtain ⟨next, taken⟩ := taken
  obtain ⟨id, run, found, phase, _, same⟩ := step_start taken
  have counts := moved_counts next .running found (by rw [same])
  simp only [Run.unfinished, Run.executing, phase] at counts
  exact ⟨next, taken, by simpa using counts.1, by simpa using counts.2⟩

theorem run_to_overlap (qt : Qt DateTime) (threads : Nat) (session : Session DateTime)
    (several : 1 < threads)
    (waiting : 1 < session.unfinished) :
    ∃ rest final, Transition.run (Session.step qt threads) session rest = some final ∧
      ¬ Exclusive final := by
  by_cases overlap : 1 < session.executing
  · exact ⟨[], session, rfl, Nat.not_le_of_lt overlap⟩
  · obtain ⟨second, taken, executing, unfinished⟩ :=
      start_enabled qt threads session (by omega) (by omega)
    by_cases overlapNow : 1 < second.executing
    · exact ⟨[.start], second, (Transition.run_single _ _ _ _).mpr taken,
        Nat.not_le_of_lt overlapNow⟩
    · obtain ⟨third, takenNext, executingNext, _⟩ :=
        start_enabled qt threads second (by omega) (by omega)
      refine ⟨[.start, .start], third, ?_, ?_⟩
      · exact (Transition.run_cons _ _ _ _ _).mpr
          ⟨second, taken, (Transition.run_single _ _ _ _).mpr takenNext⟩
      · unfold Exclusive
        omega

/-- While every accepted click finds no unfinished request, at most one request executes; any
other accepted click can be continued to two executing requests. -/
theorem exclusive_while_clicks_alone (qt : Qt DateTime) (threads : Nat) :
    (∀ (file : Option (List UInt8)) (opened : Bool) (status : QString)
      (events : List (SessionEvent DateTime)),
      Transition.Along (Session.step qt threads) (ClicksAlone threads)
          (.construct qt file opened status) events →
        Transition.Always (Session.step qt threads) Exclusive
          (.construct qt file opened status) events) ∧
    ∀ session : Session DateTime, ¬ ClicksAlone threads session .analyze →
      ∃ rest final, Transition.run (Session.step qt threads) session (.analyze :: rest) =
        some final ∧ ¬ Exclusive final := by
  constructor
  · intro file opened status events alone
    exact alone.always step_oneAtATime (fun _ => OneAtATime.exclusive)
      ⟨Nat.zero_le _, Or.inr (Nat.zero_le _)⟩
  · intro session crowded
    simp only [ClicksAlone, forall_const, not_forall, not_or] at crowded
    obtain ⟨accepts, several, unfinished⟩ := crowded
    have taken : session.step qt threads .analyze = some session.onAnalyzeTextClicked := rfl
    have grown : session.onAnalyzeTextClicked.unfinished = session.unfinished + 1 := by
      rcases step_analyze taken with ⟨_, same⟩ | ⟨rejects, _⟩
      · rw [same]
        simp [Session.unfinished, Run.unfinished]
      · exact absurd accepts rejects
    obtain ⟨rest, final, ran, overlap⟩ :=
      run_to_overlap qt threads session.onAnalyzeTextClicked (by omega) (by omega)
    exact ⟨rest, final, (Transition.run_cons _ _ _ _ _).mpr ⟨_, taken, ran⟩, overlap⟩

theorem one_click_exclusive :
    Transition.Always (Session.step minuteQt 2) Exclusive (.construct minuteQt none true [])
        [.user (.edit ['a']), .analyze, .start, .finish 0 ['b'], .analyze] ∧
      ∃ session, Transition.run (Session.step minuteQt 2) (.construct minuteQt none true [])
          [.user (.edit ['a']), .analyze] = some session ∧
        ∃ rest final, Transition.run (Session.step minuteQt 2) session (.analyze :: rest) =
          some final ∧ ¬ Exclusive final := by
  refine ⟨?_, _, rfl, (exclusive_while_clicks_alone minuteQt 2).2 _ ?_⟩
  · apply (exclusive_while_clicks_alone minuteQt 2).1
    refine .cons rfl nofun ?_
    refine .cons rfl (fun _ _ => Or.inr rfl) ?_
    refine .cons rfl nofun (.cons rfl nofun ?_)
    exact .cons rfl (fun _ _ => Or.inr rfl) trivial
  · intro alone
    rcases alone rfl (by decide) with single | finished
    · contradiction
    · exact absurd finished (by decide)

theorem two_clicks_overlap : ∃ final,
    Transition.run (Session.step minuteQt 2) (.construct minuteQt none true [])
      [.user (.edit ['a']), .analyze, .analyze, .start, .start] = some final ∧
    ¬ Exclusive final := by
  refine ⟨_, rfl, ?_⟩
  decide

end Exclusion

end TextMaster
