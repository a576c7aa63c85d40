import Mathlib.Data.List.Basic

/-!
Finite runs of a partial labelled step function, the runs whose steps all meet a
condition, and the induction rules that carry an invariant along them.
-/

namespace Transition

variable {State Event : Type} (step : State → Event → Option State)

def run : State → List Event → Option State
  | state, [] => some state
  | state, event :: rest => (step state event).bind fun next => run next rest

@[simp] theorem run_nil (state : State) : run step state [] = some state := rfl

theorem run_cons (state final : State) (event : Event) (rest : List Event) :
    run step state (event :: rest) = some final ↔
      ∃ next, step state event = some next ∧ run step next rest = some final := by
  simp [run, Option.bind_eq_some_iff]

theorem run_append (state final : State) (first second : List Event) :
    run step state (first ++ second) = some final ↔
      ∃ middle, run step state first = some middle ∧ run step middle second = some final := by
  induction first generalizing state with
  | nil => simp
  | cons event rest ih =>
      rw [List.cons_append, run_cons]
      constructor
      · rintro ⟨next, taken, later⟩
        obtain ⟨middle, reached, finished⟩ := (ih next).mp later
        exact ⟨middle, (run_cons step _ _ _ _).mpr ⟨next, taken, reached⟩, finished⟩
      · rintro ⟨middle, reached, finished⟩
        obtain ⟨next, taken, later⟩ := (run_cons step _ _ _ _).mp reached
        exact ⟨next, taken, (ih next).mpr ⟨middle, later, finished⟩⟩

theorem run_single (state final : State) (event : Event) :
    run step state [event] = some final ↔ step state event = some final := by
  simp [run_cons]

/-- Every step that the run takes meets the condition in the state it is taken from. -/
def Along (condition : State → Event → Prop) : State → List Event → Prop
  | _, [] => True
  | state, event :: rest => ∀ next, step state event = some next →
      condition state event ∧ Along condition next rest

def Always (property : State → Prop) (start : State) (events : List Event) : Prop :=
  ∀ before after reached, events = before ++ after →
    run step start before = some reached → property reached

/-- What an observer has noted after the run, who updates notes at every step that is taken. -/
def record {Notes : Type} (update : Notes → State → Event → Notes) :
    Notes → State → List Event → Notes
  | notes, _, [] => notes
  | notes, state, event :: rest =>
    match step state event with
    | none => notes
    | some next => record update (update notes state event) next rest

/-- What the steps of a run put out, the first that cannot be taken included. -/
def outputs {Output : Type} (output : State → Event → Output) : State → List Event → List Output
  | _, [] => []
  | state, event :: rest => output state event ::
    match step state event with
    | none => []
    | some next => outputs output next rest

def noting {Notes : Type} (update : Notes → State → Event → Notes) (observed : State × Notes)
    (event : Event) : Option (State × Notes) :=
  (step observed.1 event).map fun next => (next, update observed.2 observed.1 event)

variable {step} {property invariant : State → Prop} {condition : State → Event → Prop}

theorem Along.of_forall (holds : ∀ state event, condition state event) (start : State)
    (events : List Event) : Along step condition start events := by
  induction events generalizing start with
  | nil => trivial
  | cons event rest ih => exact fun next _ => ⟨holds start event, ih next⟩

theorem Along.cons {start next : State} {event : Event} {rest : List Event}
    (taken : step start event = some next) (meets : condition start event)
    (later : Along step condition next rest) : Along step condition start (event :: rest) := by
  intro other same
  rw [taken, Option.some.injEq] at same
  subst other
  exact ⟨meets, later⟩

theorem Along.append_left {start : State} {first second : List Event}
    (along : Along step condition start (first ++ second)) :
    Along step condition start first := by
  induction first generalizing start with
  | nil => trivial
  | cons event rest ih =>
      intro next taken
      exact ⟨(along next taken).1, ih (along next taken).2⟩

/-- The run lemma: what every step under the condition preserves, the whole run preserves. -/
theorem Along.preserves
    (preserved : ∀ state event next, invariant state → condition state event →
      step state event = some next → invariant next)
    {start final : State} {events : List Event}
    (along : Along step condition start events) (initially : invariant start)
    (reached : run step start events = some final) : invariant final := by
  induction events generalizing start with
  | nil =>
      simp only [run_nil, Option.some.injEq] at reached
      exact reached ▸ initially
  | cons event rest ih =>
      obtain ⟨next, taken, later⟩ := (run_cons step _ _ _ _).mp reached
      have here := along next taken
      exact ih here.2 (preserved _ _ _ initially here.1 taken) later

theorem run_preserves
    (preserved : ∀ state event next, invariant state → step state event = some next →
      invariant next)
    {start final : State} {events : List Event} (initially : invariant start)
    (reached : run step start events = some final) : invariant final := by
  have along : Along step (fun _ _ => True) start events :=
    Along.of_forall (fun _ _ => trivial) start events
  exact along.preserves
    (fun state event next holds _ taken => preserved state event next holds taken)
    initially reached

theorem run_total (enabled : ∀ state event, invariant state → ∃ next, step state event = some next)
    (preserved : ∀ state event next, invariant state → step state event = some next →
      invariant next)
    {start : State} (initially : invariant start) (events : List Event) :
    ∃ final, run step start events = some final := by
  induction events generalizing start with
  | nil => exact ⟨start, rfl⟩
  | cons event rest ih =>
      obtain ⟨next, taken⟩ := enabled start event initially
      obtain ⟨final, later⟩ := ih (preserved start event next initially taken)
      exact ⟨final, (run_cons step _ _ _ _).mpr ⟨next, taken, later⟩⟩

theorem run_countP {measure : State → Nat} {counted : Event → Bool}
    (raised : ∀ state event next, step state event = some next →
      measure next = measure state + if counted event then 1 else 0)
    {start final : State} {events : List Event} (reached : run step start events = some final) :
    measure final = measure start + events.countP counted := by
  induction events generalizing start with
  | nil =>
      simp only [run_nil, Option.some.injEq] at reached
      simp [reached]
  | cons event rest ih =>
      obtain ⟨next, taken, later⟩ := (run_cons step _ _ _ _).mp reached
      rw [ih later, raised _ _ _ taken, List.countP_cons]
      omega

theorem Along.always
    (preserved : ∀ state event next, invariant state → condition state event →
      step state event = some next → invariant next)
    (implies : ∀ state, invariant state → property state)
    {start : State} {events : List Event}
    (along : Along step condition start events) (initially : invariant start) :
    Always step property start events := by
  rintro before after reached rfl taken
  exact implies reached (Along.preserves preserved along.append_left initially taken)

theorem Always.head {start : State} {events : List Event}
    (always : Always step property start events) : property start :=
  always [] events start rfl rfl

theorem Always.tail {start next : State} {event : Event} {rest : List Event}
    (always : Always step property start (event :: rest))
    (taken : step start event = some next) : Always step property next rest := by
  rintro before after reached rfl later
  exact always (event :: before) after reached rfl
    ((run_cons step _ _ _ _).mpr ⟨next, taken, later⟩)

/-- Where a step keeps the property exactly under the condition, the property holds along
a run exactly when the run meets the condition at every step. -/
theorem always_iff_along
    (exactly : ∀ state event next, property state → step state event = some next →
      (property next ↔ condition state event))
    {start : State} (initially : property start) (events : List Event) :
    Always step property start events ↔ Along step condition start events := by
  constructor
  · intro always
    induction events generalizing start with
    | nil => trivial
    | cons event rest ih =>
        intro next taken
        have later := always.tail taken
        exact ⟨(exactly _ _ _ initially taken).mp later.head, ih later.head later⟩
  · intro along
    have preserved : ∀ state event next, property state → condition state event →
        step state event = some next → property next :=
      fun _ _ _ holds meets taken => (exactly _ _ _ holds taken).mpr meets
    exact along.always preserved (fun _ holds => holds) initially

theorem outputs_cons {Output : Type} (output : State → Event → Output) {start next : State}
    {event : Event} (taken : step start event = some next) (rest : List Event) :
    outputs step output start (event :: rest) =
      output start event :: outputs step output next rest := by
  rw [outputs, taken]

theorem record_append {Notes : Type} (update : Notes → State → Event → Notes) (notes : Notes)
    {start middle : State} {first : List Event} (second : List Event)
    (reached : run step start first = some middle) :
    record step update notes start (first ++ second) =
      record step update (record step update notes start first) middle second := by
  induction first generalizing start notes with
  | nil =>
      rw [run_nil, Option.some.injEq] at reached
      rw [List.nil_append, record, reached]
  | cons event rest ih =>
      obtain ⟨next, taken, later⟩ := (run_cons step _ _ _ _).mp reached
      simp only [List.cons_append, record, taken]
      exact ih _ later

theorem run_project {Fine : Type} {fineStep : Fine → Event → Option Fine} {project : Fine → State}
    (projects : ∀ state event next, fineStep state event = some next →
      step (project state) event = some (project next))
    {start final : Fine} {events : List Event} (reached : run fineStep start events = some final) :
    run step (project start) events = some (project final) := by
  induction events generalizing start with
  | nil =>
      rw [run_nil, Option.some.injEq] at reached
      rw [run_nil, reached]
  | cons event rest ih =>
      obtain ⟨next, taken, later⟩ := (run_cons fineStep _ _ _ _).mp reached
      exact (run_cons step _ _ _ _).mpr ⟨_, projects _ _ _ taken, ih later⟩

theorem Along.record_preserves {Notes : Type} {update : Notes → State → Event → Notes}
    {relation : State → Notes → Prop}
    (preserved : ∀ state notes event next, relation state notes → condition state event →
      step state event = some next → relation next (update notes state event))
    {start final : State} {notes : Notes} {events : List Event}
    (along : Along step condition start events) (initially : relation start notes)
    (reached : run step start events = some final) :
    relation final (record step update notes start events) := by
  induction events generalizing start notes with
  | nil =>
      simp only [run_nil, Option.some.injEq] at reached
      exact reached ▸ initially
  | cons event rest ih =>
      obtain ⟨next, taken, later⟩ := (run_cons step _ _ _ _).mp reached
      have here := along next taken
      simp only [record, taken]
      exact ih here.2 (preserved _ _ _ _ initially here.1 taken) later

theorem record_preserves {Notes : Type} {update : Notes → State → Event → Notes}
    {relation : State → Notes → Prop}
    (preserved : ∀ state notes event next, relation state notes → step state event = some next →
      relation next (update notes state event))
    {start final : State} {notes : Notes} {events : List Event} (initially : relation start notes)
    (reached : run step start events = some final) :
    relation final (record step update notes start events) := by
  have along : Along step (fun _ _ => True) start events :=
    Along.of_forall (fun _ _ => trivial) start events
  exact along.record_preserves (fun state notes event next holds _ taken =>
    preserved state notes event next holds taken) initially reached

end Transition
