import TextMaster.RequestRecord
import TextMaster.AnalysisDispatch

/-!
A request in the session is what `processText` makes of it: the steps that a pool thread takes
for it, and the whole course of a single request from the click to the last signal.
-/

namespace TextMaster

section Reports

variable {Context : Type} (llama : Llama Context) (fromStdString : List UInt8 → QString)

theorem processText_reports (impl : Impl Context) (prompt : QString) :
    (processText llama fromStdString impl prompt).errors = [] ∨
      ∃ message, (processText llama fromStdString impl prompt).errors = [message] ∧
        (processText llama fromStdString impl prompt).outcome = .returned [] := by
  simp only [processText]
  split
  · split
    · exact Or.inr ⟨_, rfl, rfl⟩
    · split
      · exact Or.inr ⟨_, rfl, rfl⟩
      · split
        · exact Or.inl rfl
        · exact Or.inr ⟨_, rfl, rfl⟩
        · exact Or.inl rfl
        · simp only [finishResponse]
          split
          · exact Or.inl rfl
          · exact Or.inr ⟨_, rfl, rfl⟩
          · exact Or.inl rfl
  · exact Or.inr ⟨_, rfl, rfl⟩

def Processed.steps {DateTime : Type} (id : Nat) (processed : Processed Context) :
    List (SessionEvent DateTime) :=
  processed.errors.map (.emitError id) ++ match processed.outcome with
    | .returned result => [.finish id result]
    | .aborted => []

end Reports

section Simulation

variable {DateTime Context : Type} (qt : Qt DateTime) (threads : Nat)
  {session : Session DateTime} {id : Nat} {run : Run} {result : QString}

theorem finish_active (found : session.runs[id]? = some run)
    (active : run.phase = .running ∨ run.phase = .erring ∧ result = []) :
    ∃ next, session.step qt threads (.finish id result) = some next ∧
      next.window = session.window ∧
      next.runs[id]? = some { run with phase := .done result } ∧
      next.posted = session.posted ++
        if session.watched = some id then [.finished id] else [] := by
  obtain ⟨bound, _⟩ := List.getElem?_eq_some_iff.mp found
  have taken : session.step qt threads (.finish id result) = some (Session.postFinished id
      { session with runs := session.runs.set id { run with phase := .done result } }) := by
    simp [Session.step, Session.advance, found, active]
  refine ⟨_, taken, ?_⟩
  by_cases watched : session.watched = some id
  · simp [Session.postFinished, watched, bound]
  · simp [Session.postFinished, watched, bound]

theorem emitError_running (found : session.runs[id]? = some run) (running : run.phase = .running)
    (message : QString) :
    ∃ next, session.step qt threads (.emitError id message) = some next ∧
      next.window = session.window ∧ next.watched = session.watched ∧
      next.runs[id]? = some { run with phase := .erring } ∧
      next.posted = session.posted ++ [.error message] := by
  obtain ⟨bound, _⟩ := List.getElem?_eq_some_iff.mp found
  have taken : session.step qt threads (.emitError id message) = some { session with
      runs := session.runs.set id { run with phase := .erring }
      posted := session.posted ++ [.error message] } := by
    simp [Session.step, Session.advance, found, running]
  exact ⟨_, taken, rfl, rfl, by simp [bound], rfl⟩

theorem run_steps (llama : Llama Context) (fromStdString : List UInt8 → QString)
    (impl : Impl Context) (found : session.runs[id]? = some run) (running : run.phase = .running)
    (returned : (processText llama fromStdString impl run.prompt).outcome = .returned result) :
    let processed := processText llama fromStdString impl run.prompt
    ∃ next, Transition.run (Session.step qt threads) session (processed.steps id) = some next ∧
      next.window = session.window ∧
      next.runs[id]? = some { run with phase := .done result } ∧
      next.posted = session.posted ++ processed.errors.map .error ++
        if session.watched = some id then [.finished id] else [] := by
  simp only [Processed.steps, returned]
  rcases processText_reports llama fromStdString impl run.prompt with
    silent | ⟨message, reported, null⟩
  · obtain ⟨next, taken, window, done, posted⟩ :=
      finish_active qt threads found (Or.inl running)
    rw [silent, List.map_nil, List.map_nil, List.nil_append, List.append_nil]
    exact ⟨next, (Transition.run_single _ _ _ _).mpr taken, window, done, posted⟩
  · rw [returned, Outcome.returned.injEq] at null
    subst result
    obtain ⟨erring, reportedNow, window, watched, foundErring, posted⟩ :=
      emitError_running qt threads found running message
    obtain ⟨next, taken, windowNext, done, postedNext⟩ :=
      finish_active qt threads foundErring (Or.inr ⟨rfl, rfl⟩)
    rw [posted, watched] at postedNext
    rw [reported, List.map_singleton, List.map_singleton, List.singleton_append]
    exact ⟨next, (Transition.run_cons _ _ _ _ _).mpr ⟨erring, reportedNow,
      (Transition.run_single _ _ _ _).mpr taken⟩, windowNext.trans window, done, postedNext⟩

theorem start_last {early : List Run} (pool : 0 < threads)
    (finished : early.countP Run.unfinished = 0) (runs : session.runs = early ++ [run])
    (queued : run.phase = .queued) :
    ∃ next, session.step qt threads .start = some next ∧ next.window = session.window ∧
      next.watched = session.watched ∧ next.posted = session.posted ∧
      next.runs[early.length]? = some { run with phase := .running } := by
  have ended : ∀ run ∈ early, decide (run.phase = .queued) = false ∧ run.executing = false := by
    intro run member
    have settled := List.countP_eq_zero.mp finished run member
    simpa only [Run.unfinished, Bool.or_eq_true, not_or, Bool.not_eq_true] using settled
  have none : early.findIdx? (fun run => run.phase = .queued) = none :=
    List.findIdx?_eq_none_iff.mpr fun run member => (ended run member).1
  have idle : session.executing = 0 := by
    have early : early.countP Run.executing = 0 := by
      rw [List.countP_eq_zero]
      intro run member
      simp [(ended run member).2]
    rw [Session.executing, runs, List.countP_append, early]
    simp [Run.executing, queued]
  have located : session.runs.findIdx? (fun run => run.phase = .queued) =
      some early.length := by
    rw [runs, List.findIdx?_append, none]
    simp [queued]
  have last : session.runs[early.length]? = some run := by simp [runs]
  have taken : session.step qt threads .start = some { session with
      runs := session.runs.set early.length { run with phase := .running } } := by
    simp [Session.step, Session.startRun, idle, pool, located, Session.advance, last, queued]
  exact ⟨_, taken, rfl, rfl, rfl, by simp [runs]⟩

theorem deliver_posted {errors : List QString} (now : DateTime) (saved : SaveOutcome)
    (posted : session.posted = errors.map .error ++ [.finished id])
    (found : session.runs[id]? = some run) (done : run.phase = .done result) :
    ∃ final, Transition.run (Session.step qt threads) session
        (List.replicate (errors.length + 1) (.deliver now saved)) = some final ∧
      final.window = (errors.foldl (fun reached error => reached.handleLLMError error)
        session.window).studyGuideFinished qt result now saved ∧ final.posted = [] := by
  induction errors generalizing session with
  | nil =>
      rw [List.map_nil, List.nil_append] at posted
      obtain ⟨analysisType, input, phase⟩ := run
      cases done
      have taken : session.step qt threads (.deliver now saved) = some { session with
          window := session.window.studyGuideFinished qt result now saved
          watched := none
          posted := []
          delivered := id :: session.delivered } := by
        simp only [Session.step, Session.deliver, posted, found]
      exact ⟨_, (Transition.run_single _ _ _ _).mpr taken, rfl, rfl⟩
  | cons error rest ih =>
      rw [List.map_cons, List.cons_append] at posted
      have taken : session.step qt threads (.deliver now saved) = some { session with
          window := session.window.handleLLMError error
          posted := rest.map .error ++ [.finished id] } := by
        simp only [Session.step, Session.deliver, posted]
      obtain ⟨final, ran, window, left⟩ := ih (rfl : ({ session with
        window := session.window.handleLLMError error
        posted := rest.map .error ++ [.finished id] } : Session DateTime).posted = _) found
      refine ⟨final, ?_, window, left⟩
      rw [List.length_cons, List.replicate_succ, Transition.run_cons]
      exact ⟨_, taken, ran⟩

theorem analyze_accepted (agrees : session.window.homePage.Agrees) (quiet : session.posted = [])
    (accepted : session.window.validateInputText = true) :
    ∃ next, session.step qt threads .analyze = some next ∧
      next.window = session.window.acceptInput ∧ next.watched = some session.runs.length ∧
      next.posted = [] ∧ next.runs = session.runs ++
        [⟨.studyGuide, session.window.homePage.textInput, .queued⟩] := by
  have clicked : session.clicked = session.window := by
    rw [Session.clicked, HomePage.onAnalyzeClicked_of_agrees agrees]
  have taken : session.step qt threads .analyze = some session.onAnalyzeTextClicked := rfl
  refine ⟨_, taken, ?_⟩
  obtain ⟨_, same⟩ | ⟨rejects, _⟩ := step_analyze taken
  · simp [same, clicked, quiet]
  · rw [Session.Accepts, clicked] at rejects
    exact absurd accepted rejects

/-- In a session at rest the course of one request, from the click to its last signal, leads to
the window that `MainWindow.request` computes. -/
theorem request_simulated (llama : Llama Context) (fromStdString : List UInt8 → QString)
    (impl : Impl Context) (pool : 0 < threads) (now : DateTime) (saved : SaveOutcome)
    (agrees : session.window.homePage.Agrees) (finished : session.unfinished = 0)
    (quiet : session.posted = []) {next : MainWindow DateTime}
    (handled : session.window.request qt llama fromStdString impl now saved = some next) :
    let processed := generateStudyGuide llama fromStdString impl session.window.homePage.textInput
    ∃ final, Transition.run (Session.step qt threads) session
        (.analyze :: .start :: (processed.steps session.runs.length ++
          List.replicate (processed.errors.length + 1) (.deliver now saved))) = some final ∧
      final.window = next ∧ final.posted = [] := by
  obtain ⟨accepted, result, returned, rfl⟩ :=
    (MainWindow.request_eq_some qt llama fromStdString impl).mp handled
  obtain ⟨clicked, analyzed, window, watched, empty, runs⟩ :=
    analyze_accepted qt threads agrees quiet accepted
  obtain ⟨running, started, sameWindow, sameWatched, samePosted, found⟩ :=
    start_last qt threads pool finished runs rfl
  obtain ⟨ended, stepped, endedWindow, done, posted⟩ :=
    run_steps qt threads llama fromStdString impl found rfl returned
  rw [samePosted, empty, sameWatched, watched, if_pos rfl, List.nil_append] at posted
  obtain ⟨final, delivered, finalWindow, left⟩ :=
    deliver_posted qt threads now saved posted done rfl
  rw [endedWindow, sameWindow, window] at finalWindow
  refine ⟨final, ?_, finalWindow, left⟩
  refine (Transition.run_cons _ _ _ _ _).mpr ⟨clicked, analyzed, ?_⟩
  refine (Transition.run_cons _ _ _ _ _).mpr ⟨running, started, ?_⟩
  exact (Transition.run_append _ _ _ _ _).mpr ⟨ended, stepped, delivered⟩

end Simulation

end TextMaster
