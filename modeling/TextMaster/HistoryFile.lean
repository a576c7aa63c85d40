import TextMaster.JsonText
import TextMaster.MainWindowCore

/-!
The history file: what `loadHistory` reads from the data that `saveHistory` writes, under the
laws of Qt's JSON and date-time functions, and functions that obey these laws.
-/

namespace TextMaster

namespace Qt

variable {DateTime : Type} {qt : Qt DateTime}

/-- The documented behaviour that the history file rests on: JSON text of an array of records
parses to that array, and an ISO date-time formats back to the text it was parsed from. -/
structure Lawful (qt : Qt DateTime) : Prop where
  json : ∀ rows : List (QString × QString × QString),
    qt.fromJson (qt.toJson (rows.map fun row => jsonRecord row.1 row.2.1 row.2.2)) =
      rows.map fun row => jsonRecord row.1 row.2.1 row.2.2
  iso : ∀ time, qt.toIso (qt.fromIso (qt.toIso time)) = qt.toIso time

/-- The item that is read where this one was written: ISO text drops the milliseconds. -/
def stored (qt : Qt DateTime) (item : ProcessingHistoryItem DateTime) :
    ProcessingHistoryItem DateTime :=
  { item with timestamp := qt.fromIso (qt.toIso item.timestamp) }

theorem stored_stored (lawful : qt.Lawful) (item : ProcessingHistoryItem DateTime) :
    qt.stored (qt.stored item) = qt.stored item := by
  simp only [stored, lawful.iso]

theorem readHistory_historyData (lawful : qt.Lawful)
    (history : List (ProcessingHistoryItem DateTime)) :
    qt.readHistory (qt.historyData history) = history.map qt.stored := by
  have rows : history.map qt.toRecord =
      (history.map fun item => (item.inputText, item.result, qt.toIso item.timestamp)).map
        fun row => jsonRecord row.1 row.2.1 row.2.2 := by
    simp [toRecord]
  rw [readHistory, historyData, rows, lawful.json, ← rows, List.map_map]
  rfl

end Qt

section Minute

abbrev Moment := Option (Fin 60)

def Moment.digits (second : Fin 60) : QString :=
  [Char.ofNat (48 + second / 10), Char.ofNat (48 + second % 10)]

def Moment.toIso : Moment → QString
  | none => []
  | some second => "2024-01-01T12:00:".toList ++ digits second

def Moment.fromIso (text : QString) : Moment :=
  (List.finRange 60).find? fun second => Moment.toIso (some second) = text

def flatRow (value : JsonValue) : JsonText.Row :=
  value.toObject.map fun entry => (entry.1, entry.2.toString)

def rowValue (row : JsonText.Row) : JsonValue :=
  .object (row.map fun entry => (entry.1, .string entry.2))

def minuteQt : Qt Moment where
  toJson values := JsonText.write (values.map flatRow)
  fromJson bytes := ((JsonText.read bytes).getD []).map rowValue
  display
    | none => []
    | some second => "2024-01-01 12:00:".toList ++ Moment.digits second
  toIso := Moment.toIso
  fromIso := Moment.fromIso

theorem Moment.toIso_fromIso (time : Moment) :
    Moment.toIso (Moment.fromIso (Moment.toIso time)) = Moment.toIso time := by
  cases found : Moment.fromIso (Moment.toIso time) with
  | some second => simpa using List.find?_some found
  | none =>
      cases time with
      | none => rfl
      | some second =>
          have missing := List.find?_eq_none.mp found second (List.mem_finRange second)
          simp at missing

theorem minuteQt_lawful : minuteQt.Lawful := by
  constructor
  · intro rows
    simp only [minuteQt, JsonText.read_write, Option.getD_some, List.map_map]
    rfl
  · exact Moment.toIso_fromIso

end Minute

end TextMaster
