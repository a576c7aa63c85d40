import TextMaster.RequestRefinement
import TextMaster.SessionAttribution

/-!
The session on a real processor: its pool threads report and return what `processText` makes of
their requests on the one context. When each accepted click comes at rest, the history holds the
answers of the cell-based processor to the texts that were clicked, none lost and none twice.
-/

namespace TextMaster

open KvCache

def Run.request (run : Run) : Request := ⟨run.analysisType, run.input⟩

structure ServedSession (DateTime : Type) where
  session : Session DateTime
  context : LlamaContext

section Step

variable {DateTime : Type} (qt : Qt DateTime) (threads : Nat) (server : Server)

namespace ServedSession

/-- The context after an event of the session, where the processor lets a request report and return
this. A call takes effect on the context when it returns, so that calls must not overlap. -/
def contextAfter (served : ServedSession DateTime) : SessionEvent DateTime → Option LlamaContext
  | .emitError id message =>
    match served.session.runs[id]? with
    | none => none
    | some run =>
      if (server.serve served.context run.request).errors = [message] then some served.context
      else none
  | .finish id result =>
    match served.session.runs[id]? with
    | none => none
    | some run =>
      let processed := server.serve served.context run.request
      if processed.outcome = .returned result ∧ (processed.errors = [] ↔ run.phase = .running) then
        processed.impl.context
      else none
  | _ => some served.context

def step (served : ServedSession DateTime) (event : SessionEvent DateTime) :
    Option (ServedSession DateTime) :=
  (served.contextAfter server event).bind fun context =>
    (served.session.step qt threads event).map fun session => ⟨session, context⟩

/-- A click that is accepted finds the requests ended and their signals delivered. -/
def Patient (served : ServedSession DateTime) (event : SessionEvent DateTime) : Prop :=
  event = .analyze → served.session.Accepts → served.session.Quiet

def construct (file : Option (List UInt8)) (opened : Bool) (status : QString) :
    ServedSession DateTime :=
  ⟨.construct qt file opened status, server.started⟩

/-- The call of the abstract processor that returns in an event, with the failures that its decodes
meet on the context. -/
def completed (served : ServedSession DateTime) : SessionEvent DateTime → List Call
  | .finish id _ =>
    match served.session.runs[id]? with
    | none => []
    | some run => [server.call served.context run.request]
  | _ => []

def calls : ServedSession DateTime → List (SessionEvent DateTime) → List Call :=
  Transition.record (step qt threads server)
    (fun calls served event => calls ++ served.completed server event) []

end ServedSession

end Step

namespace Processor

variable (processor : Processor) (logits : List Cell → Nat → Binary32)

def answer (cells : List Cell) (call : Call) : Option (QString × QString) :=
  match (processor.generateFor logits cells call).outcome with
  | .returned result => if result = [] then none else some (call.input, result)
  | .aborted => none

def answers (calls : List Call) : List (QString × QString) :=
  Transition.record (processor.callStep logits)
    (fun answers cells call => answers ++ (processor.answer logits cells call).toList) [] [] calls

end Processor

section Patience

variable {DateTime : Type} {qt : Qt DateTime} {threads : Nat} {server : Server}
  {served next : ServedSession DateTime} {session : Session DateTime}
  {loaded : List (ProcessingHistoryItem DateTime)}

theorem step_eq_some {event : SessionEvent DateTime} :
    served.step qt threads server event = some next ↔
      served.contextAfter server event = some next.context ∧
        served.session.step qt threads event = some next.session := by
  obtain ⟨after, context⟩ := next
  simp only [ServedSession.step, Option.bind_eq_some_iff, Option.map_eq_some_iff,
    ServedSession.mk.injEq]
  constructor
  · rintro ⟨_, found, _, taken, rfl, rfl⟩
    exact ⟨found, taken⟩
  · rintro ⟨found, taken⟩
    exact ⟨_, found, _, taken, rfl, rfl⟩

/-- The requests are delivered in the order of their clicks, and at most the last is not yet. -/
def Session.Ordered (session : Session DateTime) : Prop :=
  session.delivered.reverse ++ session.watched.toList = List.range session.runs.length

theorem Session.Ordered.last (ordered : session.Ordered) (accounted : Accounted loaded session)
    {id : Nat} {run : Run} (found : session.runs[id]? = some run) (active : run.isDone = false) :
    ∃ early, session.runs = early ++ [run] ∧ id = early.length ∧
      ∀ other ∈ early, other.isDone = true := by
  obtain ⟨inside, here⟩ := List.getElem?_eq_some_iff.mp found
  have undelivered : id ∉ session.delivered := by
    intro delivered
    have ended := accounted.ended id delivered
    rw [Session.isDone, found, Option.any_some, active] at ended
    contradiction
  have placed : id ∈ session.delivered.reverse ++ session.watched.toList :=
    ordered ▸ List.mem_range.mpr inside
  have watched : session.watched = some id := by
    rcases List.mem_append.mp placed with early | last
    · exact absurd (List.mem_reverse.mp early) undelivered
    · exact Option.mem_toList.mp last
  obtain ⟨count, size⟩ := Nat.exists_eq_succ_of_ne_zero (Nat.ne_of_gt (Nat.zero_lt_of_lt inside))
  have split := ordered
  rw [Session.Ordered, watched, size, List.range_succ] at split
  obtain ⟨before, same⟩ := List.append_inj' split rfl
  obtain rfl : id = count := List.singleton_inj.mp same
  refine ⟨session.runs.take id, ?_, ?_, ?_⟩
  · rw [← here, List.take_concat_get' _ _ inside, List.take_of_length_le (Nat.le_of_eq size)]
  · rw [List.length_take]
    omega
  · intro other member
    obtain ⟨index, below, rfl⟩ := List.mem_take_iff_getElem.mp member
    have delivered : index ∈ session.delivered.reverse := before ▸ List.mem_range.mpr (by omega)
    have ended := accounted.ended index (List.mem_reverse.mp delivered)
    rwa [Session.isDone, List.getElem?_eq_getElem (by omega), Option.any_some] at ended

theorem step_ordered {event : SessionEvent DateTime} {next : Session DateTime}
    (ordered : session.Ordered) (accounted : Accounted loaded session)
    (patient : event = .analyze → session.Accepts → session.Quiet)
    (taken : session.step qt threads event = some next) : next.Ordered := by
  cases event with
  | user action =>
      cases taken
      exact ordered
  | analyze =>
      rcases step_analyze taken with ⟨accepts, rfl⟩ | ⟨_, rfl⟩
      · have unwatched := quiet_watched accounted (patient rfl accepts)
        rw [Session.Ordered, unwatched, Option.toList_none, List.append_nil] at ordered
        simp [Session.Ordered, ordered, List.range_succ]
      · exact ordered
  | start =>
      obtain ⟨id, run, _, _, _, rfl⟩ := step_start taken
      simpa [Session.Ordered] using ordered
  | emitError id message =>
      obtain ⟨run, _, _, rfl⟩ := step_emitError taken
      simpa [Session.Ordered] using ordered
  | finish id result =>
      obtain ⟨run, _, _, rfl⟩ := step_finish taken
      simpa [Session.Ordered] using ordered
  | deliver now saved =>
      rcases step_deliver taken with ⟨message, rest, _, rfl⟩ |
        ⟨id, rest, run, result, posted, _, _, rfl⟩
      · exact ordered
      · rw [Session.Ordered, (watched_of_finished accounted.signals posted).1] at ordered
        simpa [Session.Ordered] using ordered

structure ServedSession.Synced (server : Server) (served : ServedSession DateTime)
    (calls : List Call) (cells : List Cell) : Prop where
  ran : Transition.run (server.processor.callStep server.logits) [] calls = some cells
  holds : served.context.cache.Holds cells
  sized : served.context.cache.size = server.nCtx
  requests : calls.map Call.request =
    (served.session.runs.filter Run.isDone).map Run.request
  answers : server.processor.answers server.logits calls =
    (served.session.runs.filter Run.isDone).filterMap Run.answer

theorem ServedSession.Synced.congr {calls : List Call} {cells : List Cell}
    (synced : served.Synced server calls cells) (context : next.context = served.context)
    (done : next.session.runs.filter Run.isDone = served.session.runs.filter Run.isDone) :
    next.Synced server calls cells := by
  refine ⟨synced.ran, ?_, ?_, ?_, ?_⟩
  · rw [context]
    exact synced.holds
  · rw [context]
    exact synced.sized
  · rw [done]
    exact synced.requests
  · rw [done]
    exact synced.answers

theorem filter_moved {runs : List Run} {id : Nat} {run : Run} (found : runs[id]? = some run)
    (active : run.isDone = false) {phase : Phase}
    (still : ({ run with phase := phase } : Run).isDone = false) :
    (runs.set id { run with phase := phase }).filter Run.isDone = runs.filter Run.isDone := by
  obtain ⟨inside, here⟩ := List.getElem?_eq_some_iff.mp found
  have split : runs = runs.take id ++ run :: runs.drop (id + 1) := by
    rw [← here, List.cons_getElem_drop_succ, List.take_append_drop]
  rw [List.set_eq_take_append_cons_drop, if_pos inside]
  conv => rhs; rw [split]
  simp [List.filter_append, active, still]

theorem step_keeps_done {event : SessionEvent DateTime}
    (still : ∀ id result, event ≠ .finish id result)
    (taken : served.step qt threads server event = some next) :
    next.context = served.context ∧
      next.session.runs.filter Run.isDone = served.session.runs.filter Run.isDone := by
  obtain ⟨allowed, taken⟩ := step_eq_some.mp taken
  generalize next.session = after at taken ⊢
  cases event with
  | user action =>
      cases taken
      exact ⟨(Option.some.inj allowed).symm, rfl⟩
  | analyze =>
      refine ⟨(Option.some.inj allowed).symm, ?_⟩
      rcases step_analyze taken with ⟨_, rfl⟩ | ⟨_, rfl⟩
      · simp [Run.isDone]
      · rfl
  | start =>
      obtain ⟨id, run, found, queued, _, rfl⟩ := step_start taken
      exact ⟨(Option.some.inj allowed).symm, filter_moved found (by simp [Run.isDone, queued]) rfl⟩
  | emitError id message =>
      obtain ⟨run, found, running, rfl⟩ := step_emitError taken
      refine ⟨?_, filter_moved found (by simp [Run.isDone, running]) rfl⟩
      simp only [ServedSession.contextAfter, found] at allowed
      split at allowed
      · exact (Option.some.inj allowed).symm
      · contradiction
  | finish id result => exact absurd rfl (still id result)
  | deliver now saved =>
      refine ⟨(Option.some.inj allowed).symm, ?_⟩
      rcases step_deliver taken with ⟨_, _, _, rfl⟩ | ⟨_, _, _, _, _, _, _, rfl⟩ <;> rfl

theorem finish_context {id : Nat} {run : Run} {result : QString}
    (found : served.session.runs[id]? = some run)
    (allowed : served.contextAfter server (.finish id result : SessionEvent DateTime) =
      some next.context) :
    (server.serve served.context run.request).outcome = .returned result ∧
      server.serveStep served.context run.request = some next.context := by
  simp only [ServedSession.contextAfter, found] at allowed
  split at allowed
  · rename_i returned
    refine ⟨returned.1, ?_⟩
    simp only [Server.serveStep, returned.1]
    exact allowed
  · contradiction

theorem answers_append {processor : Processor} {logits : List Cell → Nat → Binary32}
    {calls : List Call} {cells after : List Cell} {call : Call}
    (ran : Transition.run (processor.callStep logits) [] calls = some cells)
    (called : processor.callStep logits cells call = some after) :
    processor.answers logits (calls ++ [call]) =
      processor.answers logits calls ++ (processor.answer logits cells call).toList := by
  rw [Processor.answers, Transition.record_append _ _ _ ran]
  simp only [Transition.record, called]
  rfl

theorem ServedSession.Synced.finish (positive : 0 < server.nUbatch) {calls : List Call}
    {cells : List Cell} (synced : served.Synced server calls cells) {early : List Run} {run : Run}
    {result : QString} (split : served.session.runs = early ++ [run])
    (ended : ∀ other ∈ early, other.isDone = true) (active : run.isDone = false)
    (returned : (server.serve served.context run.request).outcome = .returned result)
    (taken : server.serveStep served.context run.request = some next.context)
    (runs : next.session.runs = early ++ [{ run with phase := .done result }]) :
    ∃ after, next.Synced server (calls ++ [server.call served.context run.request]) after := by
  obtain ⟨after, called, holds, sized⟩ :=
    serveStep_refines positive synced.holds synced.sized taken
  have before : served.session.runs.filter Run.isDone = early := by
    rw [split, List.filter_append, List.filter_eq_self.mpr ended]
    simp [active]
  have behind : next.session.runs.filter Run.isDone =
      early ++ [{ run with phase := .done result }] := by
    rw [runs, List.filter_append, List.filter_eq_self.mpr ended]
    simp [Run.isDone]
  have outcome := (serve_refines positive synced.holds synced.sized run.request).outcome
  rw [returned] at outcome
  have answer : server.processor.answer server.logits cells
      (server.call served.context run.request) =
        Run.answer { run with phase := .done result } := by
    simp only [Processor.answer, ← outcome, Run.answer]
    rfl
  refine ⟨after, ?_, holds, sized, ?_, ?_⟩
  · exact (Transition.run_append _ _ _ _ _).mpr
      ⟨cells, synced.ran, (Transition.run_single _ _ _ _).mpr called⟩
  · rw [List.map_append, synced.requests, before, behind, List.map_append]
    rfl
  · rw [answers_append synced.ran called, synced.answers, before, behind, List.filterMap_append,
      answer]
    cases answered : Run.answer { run with phase := .done result } <;>
      simp [answered]

theorem step_studyGuides {event : SessionEvent DateTime} {next : Session DateTime}
    (guides : ∀ run ∈ session.runs, run.analysisType = .studyGuide)
    (taken : session.step qt threads event = some next) :
    ∀ run ∈ next.runs, run.analysisType = .studyGuide := by
  have moved : ∀ {id : Nat} {run : Run} (phase : Phase), session.runs[id]? = some run →
      ∀ other ∈ session.runs.set id { run with phase := phase },
        other.analysisType = .studyGuide := by
    intro id run phase found other member
    rcases List.mem_or_eq_of_mem_set member with old | rfl
    · exact guides other old
    · exact guides run (List.mem_of_getElem? found)
  cases event with
  | user action =>
      cases taken
      exact guides
  | analyze =>
      rcases step_analyze taken with ⟨_, rfl⟩ | ⟨_, rfl⟩
      · intro run member
        rcases List.mem_append.mp member with old | new
        · exact guides run old
        · rw [List.mem_singleton.mp new]
      · exact guides
  | start =>
      obtain ⟨id, run, found, _, _, rfl⟩ := step_start taken
      exact moved .running found
  | emitError id message =>
      obtain ⟨run, found, _, rfl⟩ := step_emitError taken
      exact moved .erring found
  | finish id result =>
      obtain ⟨run, found, _, rfl⟩ := step_finish taken
      exact moved (.done result) found
  | deliver now saved =>
      rcases step_deliver taken with ⟨_, _, _, rfl⟩ | ⟨_, _, _, _, _, _, _, rfl⟩ <;> exact guides

structure ServedSession.Orderly (server : Server) (loaded : List (ProcessingHistoryItem DateTime))
    (served : ServedSession DateTime) (calls : List Call) : Prop where
  accounted : Accounted loaded served.session
  ordered : served.session.Ordered
  guides : ∀ run ∈ served.session.runs, run.analysisType = .studyGuide
  synced : ∃ cells, served.Synced server calls cells

theorem step_orderly (positive : 0 < server.nUbatch) (served : ServedSession DateTime)
    (calls : List Call) (event : SessionEvent DateTime) (next : ServedSession DateTime)
    (orderly : served.Orderly server loaded calls) (patient : served.Patient event)
    (taken : served.step qt threads server event = some next) :
    next.Orderly server loaded (calls ++ served.completed server event) := by
  obtain ⟨accounted, ordered, guides, cells, synced⟩ := orderly
  obtain ⟨allowed, moved⟩ := step_eq_some.mp taken
  refine ⟨step_accounted _ _ _ accounted moved, step_ordered ordered accounted patient moved,
    step_studyGuides guides moved, ?_⟩
  cases event with
  | finish id result =>
      obtain ⟨run, found, active, same⟩ := step_finish moved
      have unfinished : run.isDone = false := by
        rcases active with running | ⟨erring, _⟩
        · simp [Run.isDone, running]
        · simp [Run.isDone, erring]
      obtain ⟨early, split, rfl, ended⟩ := ordered.last accounted found unfinished
      obtain ⟨returned, left⟩ := finish_context found allowed
      simp only [ServedSession.completed, found]
      exact synced.finish positive split ended unfinished returned left
        (by rw [same]; simp [split])
  | _ =>
      obtain ⟨context, done⟩ := step_keeps_done (by simp) taken
      simp only [ServedSession.completed, List.append_nil]
      exact ⟨cells, synced.congr context done⟩

/-- In every run whose accepted clicks come at rest, and which ends at rest, the new entries of the
history are, oldest first, the texts that the cell-based processor returns for the texts that were
clicked, called one after another on an empty cache; and the cache holds what they have left. -/
theorem patient_history (positive : 0 < server.nUbatch) (padded : 0 < server.padding)
    {file : Option (List UInt8)} {opened : Bool} {status : QString}
    {events : List (SessionEvent DateTime)} {final : ServedSession DateTime}
    (patient : Transition.Along (ServedSession.step qt threads server) ServedSession.Patient
      (.construct qt server file opened status) events)
    (reached : Transition.run (ServedSession.step qt threads server)
      (.construct qt server file opened status) events = some final)
    (quiet : final.session.Quiet) :
    let calls := ServedSession.calls qt threads server (.construct qt server file opened status)
      events
    ∃ cells entries,
      calls.map Call.request =
        (Session.startedTexts qt threads (.construct qt file opened status) events).map
          (⟨.studyGuide, ·⟩) ∧
      Transition.run (server.processor.callStep server.logits) [] calls = some cells ∧
      final.context.cache.Holds cells ∧
      final.session.window.processingHistory =
        entries ++ (Session.construct qt file opened status).window.processingHistory ∧
      entries.reverse.map ProcessingHistoryItem.text =
        server.processor.answers server.logits calls := by
  intro calls
  have initially : (ServedSession.construct qt server file opened status).Orderly server
      (Session.construct qt file opened status).window.processingHistory [] :=
    ⟨accounted_construct qt file opened status, rfl, nofun, [], rfl,
      construct_holds server.nCtx server.nBatch padded, rfl, rfl, rfl⟩
  have kept : final.Orderly server _ calls :=
    patient.record_preserves (fun _ _ _ _ => step_orderly positive _ _ _ _) initially reached
  obtain ⟨accounted, ordered, guides, cells, synced⟩ := kept
  have ran : Transition.run (Session.step qt threads) (.construct qt file opened status) events =
      some final.session :=
    Transition.run_project (fun _ _ _ taken => (step_eq_some.mp taken).2) reached
  have texts : final.session.runs.map Run.input =
      Session.startedTexts qt threads (.construct qt file opened status) events :=
    Transition.record_preserves step_inputs rfl ran
  have done : final.session.runs.filter Run.isDone = final.session.runs := by
    rw [List.filter_eq_self]
    intro run member
    obtain ⟨id, found⟩ := List.mem_iff_getElem?.mp member
    obtain ⟨result, phase⟩ := quiet_phase quiet found
    rw [Run.isDone, phase]
  obtain ⟨entries, grown, recorded⟩ := accounted.recorded
  refine ⟨cells, entries, ?_, synced.ran, synced.holds, grown, ?_⟩
  · rw [synced.requests, done, ← texts, List.map_map]
    exact List.map_congr_left fun run member => by
      rw [Run.request, guides run member, Function.comp_apply]
  · rw [Session.Ordered, quiet_watched accounted quiet, Option.toList_none, List.append_nil]
      at ordered
    rw [List.map_reverse, recorded, ← List.filterMap_reverse, ordered, synced.answers, done]
    exact filterMap_range_getElem? final.session.runs Run.answer

theorem wordServer_serve (request : Request) : ∃ result left,
    (wordServer.serve wordServer.started request).outcome = .returned result ∧
      (wordServer.serve wordServer.started request).errors = [] ∧
      (wordServer.serve wordServer.started request).impl.context = some left := by
  have tokens : ∀ prompt, promptTokens wordServer.vocab prompt = some [1] := by
    intro prompt
    simp [promptTokens, llamaTokenize, wordServer]
  have alike : wordServer.serve wordServer.started request =
      wordServer.serve wordServer.started ⟨.quiz, []⟩ := by
    simp only [Server.serve, generateFor_eq, processText, tokens]
  obtain ⟨left, kept⟩ := Option.isSome_iff_exists.mp
    (show (wordServer.serve wordServer.started ⟨.quiz, []⟩).impl.context.isSome by decide +kernel)
  rw [alike]
  exact ⟨failureText, left, by decide +kernel, by decide +kernel, kept⟩

theorem patient_history_word : ∃ result final,
    Transition.run (ServedSession.step minuteQt 2 wordServer)
      (.construct minuteQt wordServer none true [])
      [.user (.edit ['a']), .analyze, .start, .finish 0 result,
        .deliver (some 1) .completed] = some final ∧
    let calls := ServedSession.calls minuteQt 2 wordServer
      (.construct minuteQt wordServer none true [])
      [.user (.edit ['a']), .analyze, .start, .finish 0 result, .deliver (some 1) .completed]
    ∃ cells entries,
      calls.map Call.request = [['a']].map (⟨.studyGuide, ·⟩) ∧
      Transition.run (wordServer.processor.callStep wordServer.logits) [] calls = some cells ∧
      final.context.cache.Holds cells ∧
      final.session.window.processingHistory = entries ++ [] ∧
      entries.reverse.map ProcessingHistoryItem.text =
        wordServer.processor.answers wordServer.logits calls := by
  obtain ⟨result, left, outcome, silent, leftSame⟩ := wordServer_serve ⟨.studyGuide, ['a']⟩
  obtain ⟨started, ran, context, found, course⟩ : ∃ started : ServedSession Moment,
      Transition.run (ServedSession.step minuteQt 2 wordServer)
        (.construct minuteQt wordServer none true [])
        [.user (.edit ['a']), .analyze, .start] = some started ∧
      started.context = wordServer.started ∧
      started.session.runs[0]? = some ⟨.studyGuide, ['a'], .running⟩ ∧
      ∀ result, ∃ done, started.session.step minuteQt 2 (.finish 0 result) = some done ∧
        ∃ last, done.step minuteQt 2 (.deliver (some 1) .completed) = some last ∧ last.Quiet :=
    ⟨_, rfl, rfl, rfl, fun _ => ⟨_, rfl, _, rfl, rfl, rfl⟩⟩
  obtain ⟨done, returned, last, delivered, quiet⟩ := course result
  have finishes : started.step minuteQt 2 wordServer (.finish 0 result) = some ⟨done, left⟩ := by
    refine step_eq_some.mpr ⟨?_, returned⟩
    simp only [ServedSession.contextAfter, found, context, Run.request]
    rw [if_pos ⟨outcome, by simp [silent]⟩, leftSame]
  have delivers : ServedSession.step minuteQt 2 wordServer ⟨done, left⟩
      (.deliver (some 1) .completed) = some ⟨last, left⟩ :=
    step_eq_some.mpr ⟨rfl, delivered⟩
  have whole : Transition.run (ServedSession.step minuteQt 2 wordServer)
      (.construct minuteQt wordServer none true [])
      [.user (.edit ['a']), .analyze, .start, .finish 0 result,
        .deliver (some 1) .completed] = some ⟨last, left⟩ := by
    have rest : Transition.run (ServedSession.step minuteQt 2 wordServer) started
        [.finish 0 result, .deliver (some 1) .completed] = some ⟨last, left⟩ :=
      (Transition.run_cons _ _ _ _ _).mpr
        ⟨_, finishes, (Transition.run_single _ _ _ _).mpr delivers⟩
    have both := (Transition.run_append _ _ _ _ _).mpr ⟨started, ran, rest⟩
    simpa only [List.cons_append, List.nil_append] using both
  have patient : Transition.Along (ServedSession.step minuteQt 2 wordServer)
      ServedSession.Patient (.construct minuteQt wordServer none true [])
      [.user (.edit ['a']), .analyze, .start, .finish 0 result,
        .deliver (some 1) .completed] := by
    intro edited taken
    refine ⟨nofun, fun _ _ => ⟨fun _ _ => ?_, fun _ _ => ⟨nofun, fun _ _ => ⟨nofun,
      fun _ _ => ⟨nofun, trivial⟩⟩⟩⟩⟩
    cases taken
    exact ⟨rfl, rfl⟩
  have texts : Session.startedTexts minuteQt 2 (.construct minuteQt none true [])
      [.user (.edit ['a']), .analyze, .start, .finish 0 result,
        .deliver (some 1) .completed] = [['a']] := rfl
  have history := patient_history (by decide) (by decide) patient whole quiet
  rw [texts] at history
  exact ⟨_, _, whole, history⟩

end Patience

end TextMaster
