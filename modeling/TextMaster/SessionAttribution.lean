import TextMaster.SessionHistory
import Mathlib.Data.List.Forall2
import Mathlib.Data.List.Nodup

/-!
Which request each new entry of the history comes from. What is compared with the entries is
noted while the session runs: the texts at the accepted clicks and the order of the deliveries.
-/

namespace TextMaster

section Attribution

variable {DateTime : Type} (qt : Qt DateTime) (threads : Nat)

namespace Session

def starts (session : Session DateTime) : SessionEvent DateTime → Option QString
  | .analyze => if session.Accepts then some session.window.homePage.textInput else none
  | _ => none

def delivers (session : Session DateTime) : SessionEvent DateTime → Option Nat
  | .deliver _ _ =>
    match session.posted with
    | .finished id :: _ => some id
    | _ => none
  | _ => none

def startedTexts : Session DateTime → List (SessionEvent DateTime) → List QString :=
  Transition.record (step qt threads)
    (fun texts session event => texts ++ (session.starts event).toList) []

def newestDelivered : Session DateTime → List (SessionEvent DateTime) → List Nat :=
  Transition.record (step qt threads)
    (fun ids session event => (session.delivers event).toList ++ ids) []

def returned (session : Session DateTime) (id : Nat) : Option QString :=
  session.runs[id]?.bind fun run =>
    match run.phase with
    | .done result => some result
    | _ => none

theorem answer_eq_some {session : Session DateTime} {id : Nat} {input result : QString} :
    session.answer id = some (input, result) ↔
      session.inputOf id = some input ∧ session.returned id = some result ∧ result ≠ [] := by
  unfold answer inputOf returned
  cases session.runs[id]? with
  | none => simp
  | some run =>
      obtain ⟨analysisType, text, phase⟩ := run
      cases phase with
      | done answer =>
          by_cases empty : answer = []
          · subst answer
            simp [Run.answer]
          · simp only [Option.bind_some, Run.answer, if_neg empty, Option.map_some,
              Option.some.injEq, Prod.mk.injEq]
            constructor
            · rintro ⟨rfl, rfl⟩
              exact ⟨rfl, rfl, empty⟩
            · rintro ⟨rfl, rfl, _⟩
              exact ⟨rfl, rfl⟩
      | _ => simp [Run.answer]

end Session

variable {qt threads}

theorem step_delivered (session : Session DateTime) (ids : List Nat)
    (event : SessionEvent DateTime) (next : Session DateTime) (same : session.delivered = ids)
    (taken : session.step qt threads event = some next) :
    next.delivered = (session.delivers event).toList ++ ids := by
  subst ids
  cases event with
  | user action =>
      cases taken
      rfl
  | analyze => rcases step_analyze taken with ⟨_, rfl⟩ | ⟨_, rfl⟩ <;> rfl
  | start =>
      obtain ⟨_, _, _, _, _, rfl⟩ := step_start taken
      rfl
  | emitError id message =>
      obtain ⟨_, _, _, rfl⟩ := step_emitError taken
      rfl
  | finish id result =>
      obtain ⟨_, _, _, rfl⟩ := step_finish taken
      rfl
  | deliver now saved =>
      rcases step_deliver taken with ⟨message, rest, posted, rfl⟩ |
        ⟨id, rest, run, result, posted, found, done, rfl⟩
      · simp [Session.delivers, posted]
      · simp [Session.delivers, posted]

theorem step_inputs (session : Session DateTime) (texts : List QString)
    (event : SessionEvent DateTime) (next : Session DateTime)
    (same : session.runs.map Run.input = texts)
    (taken : session.step qt threads event = some next) :
    next.runs.map Run.input = texts ++ (session.starts event).toList := by
  subst texts
  have moved : ∀ {id : Nat} {run : Run} (phase : Phase), session.runs[id]? = some run →
      (session.runs.set id { run with phase := phase }).map Run.input =
        session.runs.map Run.input := by
    intro id run phase found
    obtain ⟨bound, here⟩ := List.getElem?_eq_some_iff.mp found
    have within : id < (session.runs.map Run.input).length := by simpa using bound
    have unchanged : run.input = (session.runs.map Run.input)[id] := by
      rw [List.getElem_map, here]
    rw [List.map_set, unchanged, List.set_getElem_self]
  cases event with
  | user action =>
      cases taken
      exact (List.append_nil _).symm
  | analyze =>
      rcases step_analyze taken with ⟨accepts, rfl⟩ | ⟨rejects, rfl⟩
      · have kept : session.clicked.homePage.textInput = session.window.homePage.textInput := by
          simp only [Session.clicked, HomePage.onAnalyzeClicked]
          split <;> rfl
        simp [Session.starts, accepts, kept]
      · simp [Session.starts, rejects]
  | start =>
      obtain ⟨_, _, found, _, _, rfl⟩ := step_start taken
      exact (moved .running found).trans (List.append_nil _).symm
  | emitError id message =>
      obtain ⟨_, found, _, rfl⟩ := step_emitError taken
      exact (moved .erring found).trans (List.append_nil _).symm
  | finish id result =>
      obtain ⟨_, found, _, rfl⟩ := step_finish taken
      exact (moved (.done result) found).trans (List.append_nil _).symm
  | deliver now saved =>
      rcases step_deliver taken with ⟨_, _, _, rfl⟩ | ⟨_, _, _, _, _, _, _, rfl⟩
      · exact (List.append_nil _).symm
      · exact (List.append_nil _).symm

theorem forall₂_of_map_eq_filterMap {Key Item Value : Type} {value : Item → Value}
    {find : Key → Option Value} {items : List Item} {keys : List Key}
    (same : items.map value = keys.filterMap find) :
    List.Forall₂ (fun item key => find key = some (value item)) items
      (keys.filter fun key => (find key).isSome) := by
  induction keys generalizing items with
  | nil =>
      rw [List.map_eq_nil_iff.mp same]
      exact .nil
  | cons key rest ih =>
      cases found : find key with
      | none =>
          simp only [List.filterMap_cons, found] at same
          simpa [found] using ih same
      | some first =>
          simp only [List.filterMap_cons, found] at same
          obtain ⟨item, others, rfl, rfl, later⟩ := List.map_eq_cons_iff.mp same
          simp only [List.filter_cons, found, Option.isSome_some, if_true]
          exact .cons found (ih later)

/-- The new entries of a run belong one by one to the requests that have been delivered with a
text, the newest delivery first: each holds the text its request was started with and the string
it returned. -/
theorem entries_attributed (qt : Qt DateTime) (threads : Nat) (file : Option (List UInt8))
    (opened : Bool) (status : QString) (events : List (SessionEvent DateTime))
    (final : Session DateTime)
    (reached : Transition.run (Session.step qt threads) (.construct qt file opened status)
      events = some final) :
    let start := Session.construct qt file opened status
    let delivered := Session.newestDelivered qt threads start events
    delivered.Nodup ∧
      ∃ entries, final.window.processingHistory = entries ++ start.window.processingHistory ∧
        List.Forall₂ (fun entry id =>
            (Session.startedTexts qt threads start events)[id]? = some entry.inputText ∧
              final.returned id = some entry.result)
          entries (delivered.filter fun id => (final.answer id).isSome) := by
  intro start delivered
  have accounted := Transition.run_preserves step_accounted (accounted_construct _ _ _ _) reached
  have order : final.delivered = delivered :=
    Transition.record_preserves step_delivered rfl reached
  have texts : final.runs.map Run.input = Session.startedTexts qt threads start events :=
    Transition.record_preserves step_inputs rfl reached
  constructor
  · have once := accounted.partition.nodup_iff.mpr List.nodup_range
    rw [List.append_assoc, order] at once
    exact List.Nodup.of_append_left once
  · obtain ⟨entries, grown, recorded⟩ := accounted.recorded
    refine ⟨entries, grown, ?_⟩
    rw [order] at recorded
    refine List.Forall₂.imp ?_ (forall₂_of_map_eq_filterMap recorded)
    intro entry id found
    obtain ⟨input, result, _⟩ := Session.answer_eq_some.mp found
    rw [← texts, List.getElem?_map]
    exact ⟨input, result⟩

theorem overlapping_entries_attributed : ∃ final,
    Transition.run (Session.step minuteQt 2) (.construct minuteQt none true [])
      [.user (.edit ['a']), .analyze, .user (.edit ['b']), .analyze, .start, .start,
        .finish 1 ['d'], .finish 0 ['c'], .deliver (some 1) .completed, .analyze,
        .user (.edit ['x']), .start, .finish 2 ['e'], .deliver (some 2) .completed] = some final ∧
      ∃ entries, final.window.processingHistory = entries ++ [] ∧
        List.Forall₂ (fun entry id =>
            [['a'], ['b'], ['b']][id]? = some entry.inputText ∧
              final.returned id = some entry.result) entries [2, 1] := by
  obtain ⟨final, ran, answers⟩ : ∃ final,
      Transition.run (Session.step minuteQt 2) (.construct minuteQt none true [])
        [.user (.edit ['a']), .analyze, .user (.edit ['b']), .analyze, .start, .start,
          .finish 1 ['d'], .finish 0 ['c'], .deliver (some 1) .completed, .analyze,
          .user (.edit ['x']), .start, .finish 2 ['e'], .deliver (some 2) .completed] =
            some final ∧
        [2, 1].filter (fun id => (final.answer id).isSome) = [2, 1] := ⟨_, rfl, rfl⟩
  obtain ⟨_, entries, grown, attributed⟩ :=
    entries_attributed minuteQt 2 none true [] _ final ran
  refine ⟨final, ran, entries, grown, ?_⟩
  rw [← answers]
  exact attributed

end Attribution

end TextMaster
