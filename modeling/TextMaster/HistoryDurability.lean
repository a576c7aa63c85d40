import TextMaster.HistoryFile
import TextMaster.Transition

/-!
How long a saved history item stays in the history file, over sessions that load the file when
they start and write all of it anew for each item they add.
-/

namespace TextMaster

inductive HistoryEvent (DateTime : Type) where
  | session (opened : Bool) (status : QString)
  | add (input result : QString) (now : DateTime) (saved : SaveOutcome)

/-- `covered` records that the list in memory holds what the file held when it was last opened:
the load of this session was able to open it, or the session has opened it for a save. -/
structure HistoryState (DateTime : Type) where
  window : MainWindow DateTime
  covered : Bool

namespace HistoryState

variable {DateTime : Type} (qt : Qt DateTime)

def begin (file : Option (List UInt8)) (opened : Bool) (status : QString) :
    HistoryState DateTime :=
  ⟨.construct qt file opened status, opened || file.isNone⟩

def step (state : HistoryState DateTime) :
    HistoryEvent DateTime → Option (HistoryState DateTime)
  | .session opened status => some (begin qt state.window.historyFile opened status)
  | .add input result now saved =>
    some ⟨state.window.addToHistory qt input result now saved,
      state.covered || saved != .openFailed⟩

def readFile (file : Option (List UInt8)) : List (ProcessingHistoryItem DateTime) :=
  match file with
  | none => []
  | some data => qt.readHistory data

/-- No save is cut off once it has opened the file, and none opens it that would write a list
without what an unreadable file held. -/
def Harmless (state : HistoryState DateTime) : HistoryEvent DateTime → Prop
  | .session _ _ => True
  | .add _ _ _ .openFailed => True
  | .add _ _ _ .completed => state.covered = true
  | .add _ _ _ (.cut _) => False

structure Kept (item : ProcessingHistoryItem DateTime) (state : HistoryState DateTime) : Prop where
  inFile : qt.stored item ∈ readFile qt state.window.historyFile
  inMemory : state.covered = true →
    ∃ other ∈ state.window.processingHistory, qt.stored other = qt.stored item

end HistoryState

open HistoryState

section Durability

variable {DateTime : Type} {qt : Qt DateTime}

theorem mem_readFile_of_saved (lawful : qt.Lawful)
    {history : List (ProcessingHistoryItem DateTime)} {item other : ProcessingHistoryItem DateTime}
    (member : other ∈ history) (same : qt.stored other = qt.stored item) :
    qt.stored item ∈ readFile qt (some (qt.historyData history)) := by
  rw [readFile, Qt.readHistory_historyData lawful, ← same]
  exact List.mem_map_of_mem member

theorem begin_kept (lawful : qt.Lawful) {item : ProcessingHistoryItem DateTime}
    {file : Option (List UInt8)} (opened : Bool) (status : QString)
    (inFile : qt.stored item ∈ readFile qt file) : Kept qt item (begin qt file opened status) := by
  obtain ⟨_, _, _, _, sameFile⟩ := MainWindow.construct_frame qt file opened status
  refine ⟨by simpa only [begin, sameFile] using inFile, ?_⟩
  intro covered
  cases file with
  | none => simp [readFile] at inFile
  | some data =>
      cases opened with
      | false => simp [begin] at covered
      | true => exact ⟨qt.stored item, inFile, Qt.stored_stored lawful item⟩

theorem step_kept (lawful : qt.Lawful) {item : ProcessingHistoryItem DateTime}
    (state : HistoryState DateTime) (event : HistoryEvent DateTime)
    (next : HistoryState DateTime) (kept : Kept qt item state) (harmless : Harmless state event)
    (taken : step qt state event = some next) : Kept qt item next := by
  obtain ⟨inFile, inMemory⟩ := kept
  cases event with
  | session opened status =>
      cases taken
      exact begin_kept lawful opened status inFile
  | add input result now saved =>
      cases taken
      cases saved with
      | openFailed =>
          refine ⟨inFile, ?_⟩
          intro covered
          obtain ⟨other, member, same⟩ := inMemory (by simpa using covered)
          exact ⟨other, List.mem_cons_of_mem _ member, same⟩
      | completed =>
          obtain ⟨other, member, same⟩ := inMemory harmless
          have added : other ∈ ⟨input, result, now⟩ :: state.window.processingHistory :=
            List.mem_cons_of_mem _ member
          exact ⟨mem_readFile_of_saved lawful added same, fun _ => ⟨other, added, same⟩⟩
      | cut written => exact absurd harmless id

theorem saved_kept (lawful : qt.Lawful) {before state : HistoryState DateTime}
    {input result : QString} {now : DateTime}
    (saved : step qt before (.add input result now .completed) = some state)
    {item : ProcessingHistoryItem DateTime} (member : item ∈ state.window.processingHistory) :
    Kept qt item state := by
  cases saved
  exact ⟨mem_readFile_of_saved lawful member rfl, fun _ => ⟨item, member, rfl⟩⟩

/-- An item of a completed save is in the history file as long as every later save is harmless. -/
theorem history_durable (qt : Qt DateTime) (lawful : qt.Lawful) (file : Option (List UInt8))
    (opened : Bool) (status : QString) (earlier later : List (HistoryEvent DateTime))
    (input result : QString) (now : DateTime) (state : HistoryState DateTime)
    (saved : Transition.run (step qt) (begin qt file opened status)
      (earlier ++ [.add input result now .completed]) = some state)
    (harmless : Transition.Along (step qt) Harmless state later) :
    Transition.Always (step qt)
      (fun reached => ∀ item ∈ state.window.processingHistory,
        qt.stored item ∈ readFile qt reached.window.historyFile) state later := by
  obtain ⟨before, _, last⟩ := (Transition.run_append _ _ _ _ _).mp saved
  rw [Transition.run_single] at last
  rintro first rest reached rfl taken item member
  exact (Transition.Along.preserves (step_kept lawful) harmless.append_left
    (saved_kept lawful last member) taken).inFile

theorem history_durable_restart : ∃ state,
    Transition.run (step minuteQt) (begin minuteQt none true [])
        [.add ['a'] ['b'] (some 1) .completed] = some state ∧
      Transition.Always (step minuteQt)
        (fun reached => ∀ item ∈ state.window.processingHistory,
          minuteQt.stored item ∈ readFile minuteQt reached.window.historyFile)
        state [.session true [], .add ['c'] ['d'] (some 2) .completed] := by
  refine ⟨_, rfl, history_durable minuteQt minuteQt_lawful none true [] [] _ ['a'] ['b'] (some 1)
    _ rfl ?_⟩
  exact .cons rfl trivial (.cons rfl rfl trivial)

theorem minuteQt_readHistory_nil : minuteQt.readHistory [] = [] := by
  have nothing : JsonText.read [] = none := by
    have text := JsonText.fromUtf8_toUtf8 []
    rw [JsonText.read, show ([] : List UInt8) = JsonText.toUtf8 [] from rfl, text]
    rfl
  simp [Qt.readHistory, minuteQt, nothing]

theorem history_lost : ∃ state,
    Transition.run (step minuteQt) (begin minuteQt none true [])
        [.add ['a'] ['b'] (some 1) .completed] = some state ∧
      ∃ item ∈ state.window.processingHistory,
        (∃ final, Transition.run (step minuteQt) state [.add ['c'] ['d'] (some 2) (.cut 0)] =
            some final ∧
          minuteQt.stored item ∉ readFile minuteQt final.window.historyFile) ∧
        ∃ final, Transition.run (step minuteQt) state
            [.session false [], .add ['c'] ['d'] (some 2) .completed] = some final ∧
          minuteQt.stored item ∉ readFile minuteQt final.window.historyFile := by
  refine ⟨_, rfl, ⟨['a'], ['b'], some 1⟩, List.mem_singleton_self _, ⟨_, rfl, ?_⟩, _, rfl, ?_⟩
  · change _ ∉ minuteQt.readHistory []
    rw [minuteQt_readHistory_nil]
    exact List.not_mem_nil
  · change _ ∉ minuteQt.readHistory (minuteQt.historyData [⟨['c'], ['d'], some 2⟩])
    rw [Qt.readHistory_historyData minuteQt_lawful]
    intro member
    have same := congrArg ProcessingHistoryItem.inputText (List.mem_singleton.mp member)
    exact absurd same (by decide)

end Durability

end TextMaster
