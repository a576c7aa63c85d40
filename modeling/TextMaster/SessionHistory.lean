import TextMaster.Session
import Mathlib.Data.List.Induction

/-!
Which requests end in the history. Every request is delivered, still watched or replaced; the
history gains the texts of the delivered ones, so what is lost are the texts of the replaced.
-/

namespace TextMaster

def Run.answer (run : Run) : Option (QString × QString) :=
  match run.phase with
  | .done result => if result = [] then none else some (run.input, result)
  | _ => none

def Run.isDone (run : Run) : Bool :=
  match run.phase with
  | .done _ => true
  | _ => false

section Accounting

variable {DateTime : Type} {qt : Qt DateTime} {threads : Nat}

namespace Session

def answer (session : Session DateTime) (id : Nat) : Option (QString × QString) :=
  session.runs[id]?.bind Run.answer

def isDone (session : Session DateTime) (id : Nat) : Bool := session.runs[id]?.any Run.isDone

def inputOf (session : Session DateTime) (id : Nat) : Option QString :=
  session.runs[id]?.map Run.input

def due (session : Session DateTime) : List Posted :=
  match session.watched with
  | none => []
  | some id => if session.isDone id then [.finished id] else []

def finishedSignals (session : Session DateTime) : List Posted :=
  session.posted.filter fun signal => !signal.isError

end Session

def ProcessingHistoryItem.text (item : ProcessingHistoryItem DateTime) : QString × QString :=
  (item.inputText, item.result)

structure Accounted (loaded : List (ProcessingHistoryItem DateTime))
    (session : Session DateTime) : Prop where
  partition : (session.delivered ++ session.replaced ++ session.watched.toList).Perm
    (List.range session.runs.length)
  recorded : ∃ entries, session.window.processingHistory = entries ++ loaded ∧
    entries.map ProcessingHistoryItem.text = session.delivered.filterMap session.answer
  ended : ∀ id ∈ session.delivered, session.isDone id = true
  input : ∀ id, session.watched = some id →
    session.inputOf id = some session.window.currentInputText
  signals : session.finishedSignals = session.due

theorem filterMap_range_getElem? {Item Result : Type} (items : List Item)
    (result : Item → Option Result) :
    (List.range items.length).filterMap (fun index => items[index]?.bind result) =
      items.filterMap result := by
  induction items using List.reverseRecOn with
  | nil => rfl
  | append_singleton early last ih =>
      have same : (List.range early.length).filterMap
          (fun index => (early ++ [last])[index]?.bind result) =
            (List.range early.length).filterMap (fun index => early[index]?.bind result) := by
        apply List.filterMap_congr
        intro index member
        rw [List.getElem?_append_left (List.mem_range.mp member)]
      rw [List.length_append, List.length_singleton, List.range_succ, List.filterMap_append,
        same, ih]
      simp [List.filterMap_cons]

section Moves

variable {session next : Session DateTime} {id : Nat} {run : Run} {phase : Phase}

theorem answer_moved (found : session.runs[id]? = some run) (active : run.isDone = false)
    (moved : next.runs = session.runs.set id { run with phase := phase })
    {other : Nat} (done : session.isDone other = true) :
    next.answer other = session.answer other ∧ next.isDone other = true := by
  have apart : id ≠ other := by
    rintro rfl
    simp [Session.isDone, found, active] at done
  simp only [Session.answer, Session.isDone, moved, List.getElem?_set_ne apart]
  exact ⟨trivial, done⟩

theorem inputOf_moved (found : session.runs[id]? = some run)
    (moved : next.runs = session.runs.set id { run with phase := phase }) (other : Nat) :
    next.inputOf other = session.inputOf other := by
  obtain ⟨bound, here⟩ := List.getElem?_eq_some_iff.mp found
  by_cases same : id = other
  · subst other
    simp [Session.inputOf, moved, bound, here]
  · simp only [Session.inputOf, moved, List.getElem?_set_ne same]

theorem isDone_moved (found : session.runs[id]? = some run)
    (moved : next.runs = session.runs.set id { run with phase := phase }) (other : Nat) :
    next.isDone other =
      if other = id then ({ run with phase := phase } : Run).isDone else session.isDone other := by
  obtain ⟨bound, _⟩ := List.getElem?_eq_some_iff.mp found
  by_cases same : other = id
  · subst other
    simp [Session.isDone, moved, bound]
  · have apart : id ≠ other := fun equal => same equal.symm
    simp only [Session.isDone, moved, List.getElem?_set_ne apart, if_neg same]

end Moves

theorem studyGuideFinished_history (qt : Qt DateTime) (result : QString) (now : DateTime)
    (saved : SaveOutcome) (window : MainWindow DateTime) :
    (window.studyGuideFinished qt result now saved).processingHistory =
      (if result = [] then [] else [⟨window.currentInputText, result, now⟩]) ++
        window.processingHistory := by
  by_cases empty : result = []
  · subst result
    rfl
  · have filled : result.isEmpty = false := by simpa using empty
    simp only [MainWindow.studyGuideFinished, MainWindow.recordResult, filled, if_neg empty]
    rfl

variable {loaded : List (ProcessingHistoryItem DateTime)}

theorem Accounted.congr {session next : Session DateTime} (accounted : Accounted loaded session)
    (runs : next.runs = session.runs) (watched : next.watched = session.watched)
    (delivered : next.delivered = session.delivered)
    (replaced : next.replaced = session.replaced)
    (history : next.window.processingHistory = session.window.processingHistory)
    (input : next.window.currentInputText = session.window.currentInputText)
    (signals : next.finishedSignals = session.finishedSignals) : Accounted loaded next := by
  have answers : next.answer = session.answer := by
    funext id
    rw [Session.answer, Session.answer, runs]
  have dones : next.isDone = session.isDone := by
    funext id
    rw [Session.isDone, Session.isDone, runs]
  have inputsSame : next.inputOf = session.inputOf := by
    funext id
    rw [Session.inputOf, Session.inputOf, runs]
  obtain ⟨partition, recorded, ended, inputs, due⟩ := accounted
  refine ⟨?_, ?_, ?_, ?_, ?_⟩
  · simpa only [runs, watched, delivered, replaced] using partition
  · simpa only [history, delivered, answers] using recorded
  · simpa only [delivered, dones] using ended
  · simpa only [watched, inputsSame, input] using inputs
  · rw [signals, due, Session.due, Session.due, watched, dones]

theorem Accounted.moved {session next : Session DateTime} (accounted : Accounted loaded session)
    {id : Nat} {run : Run} {phase : Phase} (found : session.runs[id]? = some run)
    (active : run.isDone = false)
    (moved : next.runs = session.runs.set id { run with phase := phase })
    (watched : next.watched = session.watched) (delivered : next.delivered = session.delivered)
    (replaced : next.replaced = session.replaced) (window : next.window = session.window)
    (signals : next.finishedSignals = session.finishedSignals ++
      if session.watched = some id ∧ ({ run with phase := phase } : Run).isDone = true
      then [.finished id] else []) : Accounted loaded next := by
  obtain ⟨partition, ⟨entries, grown, texts⟩, ended, inputs, due⟩ := accounted
  refine ⟨?_, ⟨entries, by rw [window, grown], ?_⟩, ?_, ?_, ?_⟩
  · simpa only [moved, List.length_set, watched, delivered, replaced] using partition
  · rw [texts, delivered]
    apply List.filterMap_congr
    intro other member
    exact (answer_moved found active moved (ended other member)).1.symm
  · rw [delivered]
    intro other member
    exact (answer_moved found active moved (ended other member)).2
  · intro other isWatched
    rw [watched] at isWatched
    rw [inputOf_moved found moved, window]
    exact inputs other isWatched
  · rw [signals, due]
    unfold Session.due
    rw [watched]
    cases current : session.watched with
    | none => simp
    | some other =>
        simp only [isDone_moved found moved, Option.some.injEq]
        by_cases same : other = id
        · subst other
          have notDone : session.isDone id = false := by simp [Session.isDone, found, active]
          simp [notDone]
        · simp [same]

theorem Accounted.accepted {session next : Session DateTime}
    (accounted : Accounted loaded session) {input : QString}
    (runs : next.runs = session.runs ++ [⟨.studyGuide, input, .queued⟩])
    (watched : next.watched = some session.runs.length)
    (posted : next.posted = session.posted.filter Posted.isError)
    (delivered : next.delivered = session.delivered)
    (replaced : next.replaced = session.replaced ++ session.watched.toList)
    (history : next.window.processingHistory = session.window.processingHistory)
    (current : next.window.currentInputText = input) : Accounted loaded next := by
  obtain ⟨partition, ⟨entries, grown, texts⟩, ended, _, _⟩ := accounted
  have early {id : Nat} (done : session.isDone id = true) :
      next.runs[id]? = session.runs[id]? := by
    have bound : id < session.runs.length := by
      by_contra outside
      simp [Session.isDone, List.getElem?_eq_none (Nat.le_of_not_lt outside)] at done
    rw [runs, List.getElem?_append_left bound]
  have last : next.runs[session.runs.length]? = some ⟨.studyGuide, input, .queued⟩ := by
    simp [runs]
  refine ⟨?_, ⟨entries, by rw [history, grown], ?_⟩, ?_, ?_, ?_⟩
  · have extended := partition.append_right [session.runs.length]
    simpa [runs, watched, delivered, replaced, List.range_succ, List.append_assoc] using extended
  · rw [texts, delivered]
    apply List.filterMap_congr
    intro id member
    rw [Session.answer, Session.answer, early (ended id member)]
  · rw [delivered]
    intro id member
    rw [Session.isDone, early (ended id member)]
    exact ended id member
  · intro id isWatched
    rw [watched, Option.some.injEq] at isWatched
    subst id
    simp [Session.inputOf, last, current]
  · have notDone : next.isDone session.runs.length = false := by
      simp [Session.isDone, last, Run.isDone]
    simp only [Session.finishedSignals, posted, Session.due, watched, notDone, List.filter_filter]
    simp

theorem watched_of_finished {session : Session DateTime}
    (due : session.finishedSignals = session.due) {id : Nat} {rest : List Posted}
    (posted : session.posted = .finished id :: rest) :
    session.watched = some id ∧ (rest.filter fun signal => !signal.isError) = [] := by
  simp only [Session.finishedSignals, posted, Session.due] at due
  cases current : session.watched with
  | none => simp [current, Posted.isError] at due
  | some other =>
      simp only [current] at due
      split at due
      · simp only [Posted.isError, Bool.not_false, List.filter_cons_of_pos,
          List.cons.injEq, Posted.finished.injEq] at due
        exact ⟨by rw [due.1], due.2⟩
      · simp [Posted.isError] at due

theorem Accounted.delivered {session next : Session DateTime}
    (accounted : Accounted loaded session) {id : Nat} {rest : List Posted} {run : Run}
    {result : QString} (posted : session.posted = .finished id :: rest)
    (found : session.runs[id]? = some run) (done : run.phase = .done result) (now : DateTime)
    (saved : SaveOutcome) (runs : next.runs = session.runs) (watched : next.watched = none)
    (left : next.posted = rest) (delivered : next.delivered = id :: session.delivered)
    (replaced : next.replaced = session.replaced)
    (window : next.window = session.window.studyGuideFinished qt result now saved) :
    Accounted loaded next := by
  obtain ⟨partition, ⟨entries, grown, texts⟩, ended, inputs, due⟩ := accounted
  obtain ⟨isWatched, quiet⟩ := watched_of_finished due posted
  have answers : next.answer = session.answer := by
    funext other
    rw [Session.answer, Session.answer, runs]
  have sameInput : run.input = session.window.currentInputText := by
    simpa [Session.inputOf, found] using inputs id isWatched
  have history := studyGuideFinished_history qt result now saved session.window
  refine ⟨?_, ⟨(if result = [] then [] else
      [⟨session.window.currentInputText, result, now⟩]) ++ entries, ?_, ?_⟩, ?_, ?_, ?_⟩
  · have moved : (id :: (session.delivered ++ session.replaced)).Perm
        (session.delivered ++ session.replaced ++ session.watched.toList) := by
      rw [isWatched]
      exact (List.perm_append_singleton id _).symm
    simpa [runs, watched, delivered, replaced] using moved.trans partition
  · rw [window, history, grown, List.append_assoc]
  · rw [delivered, answers, List.filterMap_cons, ← texts]
    have text : session.answer id =
        if result = [] then none else some (session.window.currentInputText, result) := by
      simp [Session.answer, found, Run.answer, done, sameInput]
    rw [text]
    by_cases empty : result = []
    · simp [empty]
    · simp [empty, ProcessingHistoryItem.text]
  · rw [delivered]
    intro other member
    have same : next.isDone other = session.isDone other := by
      rw [Session.isDone, Session.isDone, runs]
    rw [same]
    rcases List.mem_cons.mp member with rfl | before
    · simp [Session.isDone, found, Run.isDone, done]
    · exact ended other before
  · intro other impossible
    rw [watched] at impossible
    contradiction
  · simp [Session.finishedSignals, left, quiet, Session.due, watched]

theorem step_accounted (session : Session DateTime) (event : SessionEvent DateTime)
    (next : Session DateTime) (accounted : Accounted loaded session)
    (taken : session.step qt threads event = some next) : Accounted loaded next := by
  cases event with
  | user action =>
      cases taken
      obtain ⟨_, _, input, history, _⟩ := user_frame session.window action
      exact accounted.congr rfl rfl rfl rfl history input rfl
  | analyze =>
      rcases step_analyze taken with ⟨_, rfl⟩ | ⟨_, rfl⟩
      · exact accounted.accepted rfl rfl rfl rfl rfl rfl rfl
      · exact accounted.congr rfl rfl rfl rfl rfl rfl rfl
  | start =>
      obtain ⟨id, run, found, queued, _, rfl⟩ := step_start taken
      exact accounted.moved found (by simp [Run.isDone, queued]) rfl rfl rfl rfl rfl
        (by simp [Session.finishedSignals, Run.isDone])
  | emitError id message =>
      obtain ⟨run, found, running, rfl⟩ := step_emitError taken
      exact accounted.moved found (by simp [Run.isDone, running]) rfl rfl rfl rfl rfl
        (by simp [Session.finishedSignals, Run.isDone, Posted.isError])
  | finish id result =>
      obtain ⟨run, found, active, rfl⟩ := step_finish taken
      have notDone : run.isDone = false := by
        rcases active with running | ⟨erring, _⟩
        · simp [Run.isDone, running]
        · simp [Run.isDone, erring]
      refine accounted.moved found notDone rfl rfl rfl rfl rfl ?_
      by_cases watched : session.watched = some id
      · simp [Session.finishedSignals, Run.isDone, Posted.isError, watched]
      · simp [Session.finishedSignals, watched]
  | deliver now saved =>
      rcases step_deliver taken with ⟨message, rest, posted, rfl⟩ |
        ⟨id, rest, run, result, posted, found, done, rfl⟩
      · exact accounted.congr rfl rfl rfl rfl rfl rfl
          (by simp [Session.finishedSignals, posted, Posted.isError])
      · exact accounted.delivered posted found done now saved rfl rfl rfl rfl rfl rfl

theorem accounted_construct (qt : Qt DateTime) (file : Option (List UInt8)) (opened : Bool)
    (status : QString) :
    Accounted (Session.construct qt file opened status).window.processingHistory
      (Session.construct qt file opened status) :=
  ⟨List.Perm.refl _, ⟨[], rfl, rfl⟩, nofun, nofun, rfl⟩

end Accounting

section Completeness

variable {DateTime : Type} {qt : Qt DateTime} {threads : Nat}

def Session.Quiet (session : Session DateTime) : Prop :=
  session.unfinished = 0 ∧ session.posted = []

/-- Each text that a request has returned is one new entry, and there is no other new entry. -/
def Complete (loaded : List (ProcessingHistoryItem DateTime)) (session : Session DateTime) :
    Prop :=
  ∃ entries, session.window.processingHistory = entries ++ loaded ∧
    (entries.map ProcessingHistoryItem.text).Perm (session.runs.filterMap Run.answer)

def ReplacedEmpty (session : Session DateTime) : Prop :=
  ∀ id ∈ session.replaced, ∀ run, session.runs[id]? = some run → run.phase = .done []

theorem quiet_phase {session : Session DateTime} (quiet : session.Quiet) {id : Nat} {run : Run}
    (found : session.runs[id]? = some run) : ∃ result, run.phase = .done result := by
  have finished := List.countP_eq_zero.mp quiet.1 run (List.mem_of_getElem? found)
  cases phase : run.phase with
  | done result => exact ⟨result, rfl⟩
  | _ => simp [Run.unfinished, Run.executing, phase] at finished

theorem quiet_watched {loaded : List (ProcessingHistoryItem DateTime)}
    {session : Session DateTime} (accounted : Accounted loaded session)
    (quiet : session.Quiet) : session.watched = none := by
  cases watched : session.watched with
  | none => rfl
  | some id =>
      have input := accounted.input id watched
      simp only [Session.inputOf, Option.map_eq_some_iff] at input
      obtain ⟨run, found, _⟩ := input
      obtain ⟨result, done⟩ := quiet_phase quiet found
      have due := accounted.signals
      simp [Session.finishedSignals, quiet.2, Session.due, watched, Session.isDone, found,
        Run.isDone, done] at due

theorem replacedEmpty_iff {session : Session DateTime} (quiet : session.Quiet) :
    ReplacedEmpty session ↔ session.replaced.filterMap session.answer = [] := by
  rw [List.filterMap_eq_nil_iff]
  constructor
  · intro empty id member
    cases found : session.runs[id]? with
    | none => simp [Session.answer, found]
    | some run => simp [Session.answer, found, Run.answer, empty id member run found]
  · intro none id member run found
    obtain ⟨result, done⟩ := quiet_phase quiet found
    have noAnswer := none id member
    simp only [Session.answer, found, Option.bind_some, Run.answer, done] at noAnswer
    by_cases empty : result = []
    · rw [done, empty]
    · simp [empty] at noAnswer

/-- A run that ends at rest has recorded every text exactly if the requests that the watcher was
taken from have returned none. -/
theorem complete_iff_replacedEmpty (qt : Qt DateTime) (threads : Nat)
    (file : Option (List UInt8)) (opened : Bool) (status : QString)
    (events : List (SessionEvent DateTime)) (final : Session DateTime)
    (reached : Transition.run (Session.step qt threads) (.construct qt file opened status)
      events = some final) (quiet : final.Quiet) :
    Complete (Session.construct qt file opened status).window.processingHistory final ↔
      ReplacedEmpty final := by
  have accounted := Transition.run_preserves step_accounted (accounted_construct _ _ _ _) reached
  obtain ⟨entries, grown, texts⟩ := accounted.recorded
  have watched := quiet_watched accounted quiet
  have answers : (final.runs.filterMap Run.answer).Perm
      (entries.map ProcessingHistoryItem.text ++ final.replaced.filterMap final.answer) := by
    have partition := accounted.partition
    rw [watched, Option.toList_none, List.append_nil] at partition
    rw [texts, ← List.filterMap_append, ← filterMap_range_getElem? final.runs Run.answer]
    exact (partition.filterMap final.answer).symm
  rw [replacedEmpty_iff quiet]
  constructor
  · rintro ⟨others, same, complete⟩
    rw [grown] at same
    have sameEntries : entries = others := List.append_cancel_right same
    subst others
    have sizes := (complete.trans answers).length_eq
    rw [List.length_append] at sizes
    exact List.length_eq_zero_iff.mp (by omega)
  · intro none
    rw [none, List.append_nil] at answers
    exact ⟨entries, grown, answers.symm⟩

theorem overlapping_requests_complete : ∃ final,
    Transition.run (Session.step minuteQt 2) (.construct minuteQt none true [])
      [.user (.edit ['a']), .analyze, .user (.edit ['b']), .analyze, .start, .start,
        .finish 0 [], .finish 1 ['d'], .deliver (some 1) .completed] = some final ∧
      final.replaced = [0] ∧ ReplacedEmpty final ∧
      (Complete (Session.construct minuteQt none true []).window.processingHistory final ↔
        ReplacedEmpty final) := by
  have reached : ∃ final, Transition.run (Session.step minuteQt 2)
      (.construct minuteQt none true [])
      [.user (.edit ['a']), .analyze, .user (.edit ['b']), .analyze, .start, .start,
        .finish 0 [], .finish 1 ['d'], .deliver (some 1) .completed] = some final ∧
      final.replaced = [0] ∧ final.answer 0 = none ∧ final.Quiet :=
    ⟨_, rfl, rfl, rfl, rfl, rfl⟩
  obtain ⟨final, ran, replaced, silent, quiet⟩ := reached
  have empty : ReplacedEmpty final := by
    rw [replacedEmpty_iff quiet, replaced, List.filterMap_cons_none silent, List.filterMap_nil]
  exact ⟨final, ran, replaced, empty,
    complete_iff_replacedEmpty minuteQt 2 none true [] _ final ran quiet⟩

theorem two_clicks_lose_result : ∃ final,
    Transition.run (Session.step minuteQt 2) (.construct minuteQt none true [])
      [.user (.edit ['a']), .analyze, .user (.edit ['b']), .analyze, .start, .start,
        .finish 0 ['c'], .finish 1 ['d'], .deliver (some 1) .completed] = some final ∧
      final.Quiet ∧
      ¬ Complete (Session.construct minuteQt none true []).window.processingHistory final := by
  refine ⟨_, rfl, ⟨rfl, rfl⟩, ?_⟩
  rintro ⟨entries, same, complete⟩
  have recorded : 1 = entries.length + 0 := (congrArg List.length same).trans List.length_append
  have returned : entries.length = 2 := (List.length_map _).symm.trans complete.length_eq
  omega

end Completeness

end TextMaster
