import TextMaster.Session

/-!
The application up to the end of the process: closing the window destroys it together with the
processor, whose `cleanup` frees context and model, while the thread pool goes on.
-/

namespace TextMaster

/-- `freedInUse` records that `cleanup` has freed context and model under a request that had
started, and `lateDecodes` counts the decode steps taken after they were freed. -/
structure Application (DateTime : Type) where
  session : Session DateTime
  closed : Bool
  freedInUse : Bool
  lateDecodes : Nat

inductive ApplicationEvent (DateTime : Type) where
  | session (event : SessionEvent DateTime)
  | decode (id : Nat)
  | close

def SessionEvent.ofPool {DateTime : Type} : SessionEvent DateTime → Bool
  | .start => true
  | .emitError _ _ => true
  | .finish _ _ => true
  | _ => false

namespace Application

variable {DateTime : Type} (qt : Qt DateTime) (threads : Nat) (initialized : Bool)

/-- `initialized` tells whether there are a context and a model, so that requests reach
`llama_decode` and `cleanup` has something to free. -/
def step (application : Application DateTime) :
    ApplicationEvent DateTime → Option (Application DateTime)
  | .session event =>
    if application.closed && !event.ofPool then none
    else (application.session.step qt threads event).map fun session =>
      { application with session := session }
  | .decode id =>
    match application.session.runs[id]? with
    | some ⟨_, _, .running⟩ =>
      if initialized then
        some { application with
          lateDecodes := application.lateDecodes + if application.closed then 1 else 0 }
      else none
    | _ => none
  | .close =>
    if application.closed then none
    else some { application with
      closed := true
      freedInUse := initialized && 0 < application.session.executing }

def construct (historyFile : Option (List UInt8)) (opened : Bool) (status : QString) :
    Application DateTime :=
  ⟨.construct qt historyFile opened status, false, false, 0⟩

end Application

section Lifetime

variable {DateTime : Type} {qt : Qt DateTime} {threads : Nat} {initialized : Bool}

structure OutlivesUsers (application : Application DateTime) : Prop where
  freed : application.freedInUse = false
  decoded : application.lateDecodes = 0

def ClosesAtRest (initialized : Bool) (application : Application DateTime)
    (event : ApplicationEvent DateTime) : Prop :=
  event = .close → initialized = false ∨ application.session.unfinished = 0

structure SafelyClosed (initialized : Bool) (application : Application DateTime) : Prop where
  safe : OutlivesUsers application
  atRest : application.closed = true → initialized = false ∨ application.session.unfinished = 0

theorem pool_unfinished {session next : Session DateTime} {event : SessionEvent DateTime}
    (ofPool : event.ofPool = true) (taken : session.step qt threads event = some next) :
    next.unfinished ≤ session.unfinished := by
  rcases step_counts taken with ⟨_, unfinished⟩ | ⟨rfl, _⟩ | ⟨_, _, _, unfinished⟩ |
    ⟨_, unfinished⟩
  · omega
  · contradiction
  · omega
  · omega

theorem running_unfinished {session : Session DateTime} {id : Nat} {run : Run}
    (found : session.runs[id]? = some run) (running : run.phase = .running) :
    0 < session.unfinished := by
  apply List.countP_pos_iff.mpr
  exact ⟨run, List.mem_of_getElem? found, by simp [Run.unfinished, Run.executing, running]⟩

theorem step_safelyClosed (application : Application DateTime)
    (event : ApplicationEvent DateTime) (next : Application DateTime)
    (closed : SafelyClosed initialized application)
    (rest : ClosesAtRest initialized application event)
    (taken : application.step qt threads initialized event = some next) :
    SafelyClosed initialized next := by
  obtain ⟨⟨freed, decoded⟩, atRest⟩ := closed
  cases event with
  | session event =>
      simp only [Application.step] at taken
      split at taken
      · contradiction
      · rename_i open_
        simp only [Option.map_eq_some_iff] at taken
        obtain ⟨session, moved, rfl⟩ := taken
        refine ⟨⟨freed, decoded⟩, ?_⟩
        intro isClosed
        have ofPool : event.ofPool = true := by
          simpa [show application.closed = true from isClosed] using open_
        have fewer := pool_unfinished ofPool moved
        rcases atRest isClosed with uninitialized | finished
        · exact Or.inl uninitialized
        · exact Or.inr (Nat.le_zero.mp (finished ▸ fewer))
  | decode id =>
      simp only [Application.step] at taken
      split at taken
      · rename_i analysisType input found
        split at taken
        · rename_i loaded
          cases taken
          have positive := running_unfinished found rfl
          cases isClosed : application.closed with
          | false => exact ⟨⟨freed, by simpa using decoded⟩, nofun⟩
          | true =>
              rcases atRest isClosed with uninitialized | finished
              · rw [uninitialized] at loaded
                contradiction
              · omega
        · contradiction
      · contradiction
  | close =>
      simp only [Application.step] at taken
      split at taken
      · contradiction
      · cases taken
        have before := rest rfl
        have started := executing_le_unfinished application.session
        refine ⟨⟨?_, decoded⟩, fun _ => before⟩
        rcases before with uninitialized | finished
        · simp [uninitialized]
        · simp [show application.session.executing = 0 by omega]

theorem queued_decodes_late (qt : Qt DateTime) (application : Application DateTime)
    (pool : 0 < threads) (isClosed : application.closed = true)
    (idle : application.session.executing = 0) (waiting : 0 < application.session.unfinished) :
    ∃ rest final, Transition.run (Application.step qt threads true) application rest =
      some final ∧ ¬ OutlivesUsers final := by
  obtain ⟨session, taken, _⟩ :=
    start_enabled qt threads application.session (by omega) (by omega)
  obtain ⟨id, run, found, _, _, moved⟩ := step_start taken
  have running : session.runs[id]? = some { run with phase := .running } := by
    obtain ⟨bound, _⟩ := List.getElem?_eq_some_iff.mp found
    simp [moved, bound]
  have started : Application.step qt threads true application (.session .start) =
      some { application with session := session } := by
    simp [Application.step, SessionEvent.ofPool, taken]
  have decoded : Application.step qt threads true { application with session := session }
      (.decode id) = some { application with
        session := session
        lateDecodes := application.lateDecodes + 1 } := by
    simp [Application.step, running, isClosed]
  refine ⟨[.session .start, .decode id], _, (Transition.run_cons _ _ _ _ _).mpr ⟨_, started,
    (Transition.run_single _ _ _ _).mpr decoded⟩, ?_⟩
  intro outlives
  have none := outlives.decoded
  simp at none

/-- While the window is closed only at rest, the context outlives its users; a close over an
unfinished request of a loaded model can be continued to a state where it does not. -/
theorem context_outlives_users (qt : Qt DateTime) (threads : Nat) (initialized : Bool) :
    (∀ (file : Option (List UInt8)) (opened : Bool) (status : QString)
      (events : List (ApplicationEvent DateTime)),
      Transition.Along (Application.step qt threads initialized) (ClosesAtRest initialized)
          (.construct qt file opened status) events →
        Transition.Always (Application.step qt threads initialized) OutlivesUsers
          (.construct qt file opened status) events) ∧
    ∀ application : Application DateTime, 0 < threads → application.closed = false →
      ¬ ClosesAtRest initialized application .close →
      ∃ rest final, Transition.run (Application.step qt threads initialized) application
        (.close :: rest) = some final ∧ ¬ OutlivesUsers final := by
  constructor
  · intro file opened status events rest
    exact rest.always step_safelyClosed (fun _ closed => closed.safe) ⟨⟨rfl, rfl⟩, nofun⟩
  · intro application pool isOpen unfinished
    simp only [ClosesAtRest, forall_const, not_or, Bool.not_eq_false] at unfinished
    obtain ⟨rfl, unfinished⟩ := unfinished
    have closed : Application.step qt threads true application .close = some { application with
        closed := true
        freedInUse := decide (0 < application.session.executing) } := by
      simp [Application.step, isOpen]
    by_cases executing : application.session.executing = 0
    · obtain ⟨rest, final, ran, late⟩ := queued_decodes_late qt { application with
        closed := true
        freedInUse := decide (0 < application.session.executing) } pool rfl executing
          (Nat.pos_of_ne_zero unfinished)
      exact ⟨rest, final, (Transition.run_cons _ _ _ _ _).mpr ⟨_, closed, ran⟩, late⟩
    · refine ⟨[], _, (Transition.run_single _ _ _ _).mpr closed, ?_⟩
      intro outlives
      have freed := outlives.freed
      simp at freed
      exact executing freed

theorem closed_after_request :
    Transition.Always (Application.step minuteQt 2 true) OutlivesUsers
        (.construct minuteQt none true [])
        [.session (.user (.edit ['a'])), .session .analyze, .session .start, .decode 0,
          .session (.finish 0 ['b']), .close] ∧
      ∃ application, Transition.run (Application.step minuteQt 2 true)
          (.construct minuteQt none true [])
          [.session (.user (.edit ['a'])), .session .analyze] = some application ∧
        ∃ rest final, Transition.run (Application.step minuteQt 2 true) application
          (.close :: rest) = some final ∧ ¬ OutlivesUsers final := by
  refine ⟨?_, _, rfl, (context_outlives_users minuteQt 2 true).2 _ (by decide) rfl ?_⟩
  · apply (context_outlives_users minuteQt 2 true).1
    refine .cons rfl nofun (.cons rfl nofun (.cons rfl nofun ?_))
    refine .cons rfl nofun (.cons rfl nofun ?_)
    exact .cons rfl (fun _ => Or.inr rfl) trivial
  · intro rest
    rcases rest rfl with loaded | finished
    · contradiction
    · exact absurd finished (by decide)

theorem decode_after_close : ∃ final,
    Transition.run (Application.step minuteQt 2 true) (.construct minuteQt none true [])
      [.session (.user (.edit ['a'])), .session .analyze, .session .start, .close, .decode 0] =
        some final ∧
      final.freedInUse = true ∧ final.lateDecodes = 1 ∧ ¬ OutlivesUsers final := by
  refine ⟨_, rfl, rfl, rfl, ?_⟩
  intro outlives
  exact absurd outlives.decoded (by decide)

end Lifetime

end TextMaster
