import TextMaster.Session

/-!
The busy flag and the stack of wait cursors, which a click, an error and a finished signal all
change, over the runs in which a click is accepted only while the flag is off.
-/

namespace TextMaster

section Balance

variable {DateTime : Type} {qt : Qt DateTime} {threads : Nat}

def Session.Pending (session : Session DateTime) (id : Nat) : Prop :=
  ∃ run, session.runs[id]? = some run ∧ run.pending = true

structure Balanced (session : Session DateTime) : Prop where
  busy : (∃ id, session.Pending id) →
    session.window.isProcessing = true ∧ 0 < session.window.overrideCursors
  atRest : session.unfinished = 0 → session.posted = [] →
    session.window.isProcessing = false ∧ session.window.overrideCursors = 0

def ClicksIdle (session : Session DateTime) (event : SessionEvent DateTime) : Prop :=
  event = .analyze → session.Accepts → session.window.isProcessing = false

def NoErrors (posted : List Posted) : Prop := ∀ signal ∈ posted, signal.isError = false

/-- The watched request is the only pending one. While the window is busy either that request is
pending, or the first posted signal will end the busy state; errors are posted only there. -/
structure BusyState (session : Session DateTime) : Prop where
  watched : ∀ id, session.Pending id → session.watched = some id
  busy : session.window.isProcessing = true → session.window.overrideCursors = 1 ∧
    ((session.posted = [] ∧ ∃ id, session.Pending id) ∨
      ((∀ id, ¬ session.Pending id) ∧
        ∃ signal rest, session.posted = signal :: rest ∧ NoErrors rest))
  idle : session.window.isProcessing = false → session.window.overrideCursors = 0 ∧
    (∀ id, ¬ session.Pending id) ∧ NoErrors session.posted

theorem pending_unfinished {session : Session DateTime} {id : Nat}
    (pending : session.Pending id) : 0 < session.unfinished := by
  obtain ⟨run, found, pending⟩ := pending
  obtain ⟨bound, rfl⟩ := List.getElem?_eq_some_iff.mp found
  apply List.countP_pos_iff.mpr
  refine ⟨_, List.getElem_mem bound, ?_⟩
  simp only [Run.pending, Bool.or_eq_true, decide_eq_true_eq] at pending
  rcases pending with queued | running
  · simp [Run.unfinished, queued]
  · simp [Run.unfinished, Run.executing, running]

theorem BusyState.balanced {session : Session DateTime} (state : BusyState session) :
    Balanced session := by
  constructor
  · rintro ⟨id, pending⟩
    cases flag : session.window.isProcessing with
    | false => exact absurd pending ((state.idle flag).2.1 id)
    | true => exact ⟨rfl, by rw [(state.busy flag).1]; decide⟩
  · intro finished delivered
    cases flag : session.window.isProcessing with
    | false => exact ⟨rfl, (state.idle flag).1⟩
    | true =>
        rcases (state.busy flag).2 with ⟨_, id, pending⟩ | ⟨_, signal, rest, posted, _⟩
        · have positive := pending_unfinished pending
          omega
        · rw [delivered] at posted
          contradiction

theorem pending_set {session : Session DateTime} {id other : Nat} {old new : Run}
    (found : session.runs[id]? = some old) :
    (∃ run, (session.runs.set id new)[other]? = some run ∧ run.pending = true) ↔
      (other = id ∧ new.pending = true) ∨ (other ≠ id ∧ session.Pending other) := by
  obtain ⟨bound, _⟩ := List.getElem?_eq_some_iff.mp found
  by_cases same : other = id
  · subst other
    simp [bound]
  · have apart : id ≠ other := fun equal => same equal.symm
    simp [same, apart, Session.Pending]

theorem pending_moved {session next : Session DateTime} {id : Nat} {old new : Run}
    (found : session.runs[id]? = some old) (moved : next.runs = session.runs.set id new)
    (same : new.pending = old.pending) (other : Nat) :
    next.Pending other ↔ session.Pending other := by
  unfold Session.Pending
  rw [moved, pending_set found]
  by_cases here : other = id
  · subst other
    simp [found, same]
  · simp [here, Session.Pending]

theorem pending_ended {session next : Session DateTime} {id : Nat} {old new : Run}
    (watched : ∀ id, session.Pending id → session.watched = some id)
    (found : session.runs[id]? = some old) (wasPending : old.pending = true)
    (moved : next.runs = session.runs.set id new) (ended : new.pending = false) :
    ∀ other, ¬ next.Pending other := by
  intro other pending
  have only := watched id ⟨old, found, wasPending⟩
  unfold Session.Pending at pending
  rw [moved, pending_set found] at pending
  rcases pending with ⟨_, still⟩ | ⟨apart, pending⟩
  · rw [ended] at still
    contradiction
  · have also := watched other pending
    rw [only, Option.some.injEq] at also
    exact apart also.symm

theorem BusyState.congr {session next : Session DateTime} (state : BusyState session)
    (pending : ∀ id, next.Pending id ↔ session.Pending id)
    (flag : next.window.isProcessing = session.window.isProcessing)
    (cursors : next.window.overrideCursors = session.window.overrideCursors)
    (watched : next.watched = session.watched) (posted : next.posted = session.posted) :
    BusyState next := by
  refine ⟨?_, ?_, ?_⟩
  · simpa only [pending, watched] using state.watched
  · simpa only [pending, flag, cursors, posted] using state.busy
  · simpa only [pending, flag, cursors, posted] using state.idle

theorem BusyState.head {session : Session DateTime} (state : BusyState session)
    {signal : Posted} {rest : List Posted} (posted : session.posted = signal :: rest) :
    session.window.overrideCursors ≤ 1 ∧ (∀ id, ¬ session.Pending id) ∧ NoErrors rest := by
  cases flag : session.window.isProcessing with
  | false =>
      obtain ⟨cursors, none, noErrors⟩ := state.idle flag
      rw [posted] at noErrors
      exact ⟨by omega, none, fun other member => noErrors other (List.mem_cons_of_mem _ member)⟩
  | true =>
      obtain ⟨cursors, ⟨empty, _⟩ | ⟨none, first, later, same, noErrors⟩⟩ := state.busy flag
      · rw [posted] at empty
        contradiction
      · rw [posted] at same
        cases same
        exact ⟨by omega, none, noErrors⟩

theorem BusyState.delivered {session next : Session DateTime} (state : BusyState session)
    {signal : Posted} {rest : List Posted} (posted : session.posted = signal :: rest)
    (runs : next.runs = session.runs) (left : next.posted = rest)
    (flag : next.window.isProcessing = false)
    (cursors : next.window.overrideCursors = session.window.overrideCursors - 1) :
    BusyState next := by
  obtain ⟨few, none, noErrors⟩ := state.head posted
  have noneNow : ∀ id, ¬ next.Pending id := by
    simpa only [Session.Pending, runs] using none
  refine ⟨fun id pending => absurd pending (noneNow id), ?_, ?_⟩
  · intro busy
    rw [flag] at busy
    contradiction
  · intro _
    exact ⟨by omega, noneNow, by rw [left]; exact noErrors⟩

theorem BusyState.ended {session next : Session DateTime} (state : BusyState session)
    {id : Nat} {old new : Run} {signal : Posted} (found : session.runs[id]? = some old)
    (wasPending : old.pending = true) (moved : next.runs = session.runs.set id new)
    (ended : new.pending = false) (window : next.window = session.window)
    (posted : next.posted = session.posted ++ [signal]) : BusyState next := by
  have pending : session.Pending id := ⟨old, found, wasPending⟩
  have none := pending_ended state.watched found wasPending moved ended
  refine ⟨fun other still => absurd still (none other), ?_, ?_⟩
  · intro busy
    rw [window] at busy ⊢
    obtain ⟨cursors, ⟨empty, _⟩ | ⟨noPending, _⟩⟩ := state.busy busy
    · refine ⟨cursors, Or.inr ⟨none, signal, [], by rw [posted, empty, List.nil_append], ?_⟩⟩
      intro other member
      contradiction
    · exact absurd pending (noPending id)
  · intro idle
    rw [window] at idle
    exact absurd pending ((state.idle idle).2.1 id)

theorem BusyState.late {session next : Session DateTime} (state : BusyState session)
    {id : Nat} {old new : Run} {signal : Posted} (found : session.runs[id]? = some old)
    (notPending : old.pending = false) (watched : session.watched = some id)
    (moved : next.runs = session.runs.set id new) (ended : new.pending = false)
    (window : next.window = session.window) (quiet : signal.isError = false)
    (posted : next.posted = session.posted ++ [signal]) : BusyState next := by
  have same := pending_moved found moved (ended.trans notPending.symm)
  have none : ∀ other, ¬ session.Pending other := by
    intro other pending
    have only := state.watched other pending
    rw [watched, Option.some.injEq] at only
    subst only
    obtain ⟨run, here, pendingHere⟩ := pending
    rw [found, Option.some.injEq] at here
    rw [← here, notPending] at pendingHere
    contradiction
  have append {signals : List Posted} (noErrors : NoErrors signals) :
      NoErrors (signals ++ [signal]) := by
    intro other member
    rcases List.mem_append.mp member with early | last
    · exact noErrors other early
    · rw [List.mem_singleton.mp last]
      exact quiet
  refine ⟨fun other pending => absurd ((same other).mp pending) (none other), ?_, ?_⟩
  · intro busy
    rw [window] at busy ⊢
    obtain ⟨cursors, ⟨_, other, pending⟩ | ⟨_, first, rest, signals, noErrors⟩⟩ :=
      state.busy busy
    · exact absurd pending (none other)
    · refine ⟨cursors, Or.inr ⟨fun other pending => none other ((same other).mp pending), first,
        rest ++ [signal], ?_, append noErrors⟩⟩
      rw [posted, signals, List.cons_append]
  · intro idle
    rw [window] at idle ⊢
    obtain ⟨cursors, _, noErrors⟩ := state.idle idle
    refine ⟨cursors, fun other pending => none other ((same other).mp pending), ?_⟩
    rw [posted]
    exact append noErrors

theorem BusyState.accepted {session next : Session DateTime} (state : BusyState session)
    (idle : session.window.isProcessing = false) {input : QString}
    (runs : next.runs = session.runs ++ [⟨.studyGuide, input, .queued⟩])
    (watched : next.watched = some session.runs.length)
    (posted : next.posted = session.posted.filter Posted.isError)
    (flag : next.window.isProcessing = true)
    (cursors : next.window.overrideCursors = session.window.overrideCursors + 1) :
    BusyState next := by
  obtain ⟨noCursor, noPending, noErrors⟩ := state.idle idle
  have pending : ∀ id, next.Pending id → id = session.runs.length := by
    rintro id ⟨run, found, pending⟩
    rw [runs] at found
    by_cases early : id < session.runs.length
    · rw [List.getElem?_append_left early] at found
      exact absurd ⟨run, found, pending⟩ (noPending id)
    · obtain ⟨bound, _⟩ := List.getElem?_eq_some_iff.mp found
      simp only [List.length_append, List.length_singleton] at bound
      omega
  have waits : next.Pending session.runs.length :=
    ⟨⟨.studyGuide, input, .queued⟩, by simp [runs], rfl⟩
  refine ⟨fun id isPending => by rw [watched, pending id isPending], ?_, ?_⟩
  · intro _
    refine ⟨by omega, Or.inl ⟨?_, _, waits⟩⟩
    rw [posted, List.filter_eq_nil_iff]
    intro signal member
    rw [noErrors signal member]
    decide
  · intro busy
    rw [flag] at busy
    contradiction

theorem step_busyState (session : Session DateTime) (event : SessionEvent DateTime)
    (next : Session DateTime) (state : BusyState session) (clicks : ClicksIdle session event)
    (taken : session.step qt threads event = some next) : BusyState next := by
  cases event with
  | user action =>
      cases taken
      obtain ⟨flag, cursors, _⟩ := user_frame session.window action
      exact state.congr (fun _ => Iff.rfl) flag cursors rfl rfl
  | analyze =>
      rcases step_analyze taken with ⟨accepts, rfl⟩ | ⟨_, rfl⟩
      · exact state.accepted (clicks rfl accepts) rfl rfl rfl rfl rfl
      · exact state.congr (fun _ => Iff.rfl) rfl rfl rfl rfl
  | start =>
      obtain ⟨id, run, found, queued, _, rfl⟩ := step_start taken
      exact state.congr (pending_moved found rfl (by simp [Run.pending, queued])) rfl rfl rfl rfl
  | emitError id message =>
      obtain ⟨run, found, running, rfl⟩ := step_emitError taken
      exact state.ended found (by simp [Run.pending, running]) rfl (by simp [Run.pending]) rfl rfl
  | finish id result =>
      obtain ⟨run, found, active, rfl⟩ := step_finish taken
      have ended : ({ run with phase := .done result } : Run).pending = false := by
        simp [Run.pending]
      rcases active with running | ⟨erring, _⟩
      · have pending : run.pending = true := by simp [Run.pending, running]
        have watched := state.watched id ⟨run, found, pending⟩
        exact state.ended found pending rfl ended rfl (if_pos watched)
      · have notPending : run.pending = false := by simp [Run.pending, erring]
        by_cases watched : session.watched = some id
        · exact state.late found notPending watched rfl ended rfl rfl (if_pos watched)
        · exact state.congr (pending_moved found rfl (ended.trans notPending.symm)) rfl rfl rfl
            (if_neg watched)
  | deliver now saved =>
      rcases step_deliver taken with ⟨message, rest, posted, rfl⟩ |
        ⟨id, rest, run, result, posted, _, _, rfl⟩
      · exact state.delivered posted rfl rfl rfl rfl
      · obtain ⟨_, flag, cursors⟩ :=
          MainWindow.studyGuideFinished_frame qt result now saved session.window
        exact state.delivered posted rfl rfl flag cursors

/-- While a click is accepted only by a window that is not busy, the busy flag and the wait
cursors are balanced in every state. -/
theorem balanced_while_clicks_idle (qt : Qt DateTime) (threads : Nat)
    (file : Option (List UInt8)) (opened : Bool) (status : QString)
    (events : List (SessionEvent DateTime))
    (idle : Transition.Along (Session.step qt threads) ClicksIdle
      (.construct qt file opened status) events) :
    Transition.Always (Session.step qt threads) Balanced
      (.construct qt file opened status) events := by
  obtain ⟨_, _, flag, cursors, _⟩ := MainWindow.construct_frame qt file opened status
  have none : ∀ id, ¬ (Session.construct qt file opened status).Pending id := by
    rintro id ⟨run, found, _⟩
    simp [Session.construct] at found
  refine idle.always step_busyState (fun _ => BusyState.balanced)
    ⟨fun id pending => absurd pending (none id), ?_, ?_⟩
  · intro busy
    rw [Session.construct, flag] at busy
    contradiction
  · intro _
    exact ⟨cursors, none, fun signal member => by contradiction⟩

theorem one_request_balanced :
    Transition.Always (Session.step minuteQt 2) Balanced (.construct minuteQt none true [])
      [.user (.edit ['a']), .analyze, .start, .finish 0 ['b'], .deliver (some 1) .completed] := by
  apply balanced_while_clicks_idle
  refine .cons rfl nofun ?_
  refine .cons rfl (fun _ _ => rfl) ?_
  exact .cons rfl nofun (.cons rfl nofun (.cons rfl nofun trivial))

theorem two_clicks_unbalanced : ∃ final,
    Transition.run (Session.step minuteQt 2) (.construct minuteQt none true [])
      [.user (.edit ['a']), .analyze, .analyze, .start, .start, .finish 0 ['b'], .finish 1 ['c'],
        .deliver (some 1) .completed] = some final ∧
    ¬ Balanced final := by
  refine ⟨_, rfl, ?_⟩
  intro balanced
  exact absurd (balanced.atRest rfl rfl).2 (by decide)

end Balance

end TextMaster
