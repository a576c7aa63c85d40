import TextMaster.Session

/-!
What saving the history and loading it again changes: the sub-second part of the timestamps, and
nothing that the list of rows shows.
-/

namespace TextMaster

section RoundTrip

variable {Second Fraction : Type}

/-- The functions of Qt on date-times that have a sub-second part; `none` is an invalid one. ISO
text and rows leave that part out, and ISO text is otherwise read back as it was. -/
structure Qt.WholeSeconds (qt : Qt (Option (Second × Fraction))) (zero : Fraction) : Prop where
  json : ∀ rows : List (QString × QString × QString),
    qt.fromJson (qt.toJson (rows.map fun row => jsonRecord row.1 row.2.1 row.2.2)) =
      rows.map fun row => jsonRecord row.1 row.2.1 row.2.2
  isoDrops : ∀ second fraction,
    qt.toIso (some (second, fraction)) = qt.toIso (some (second, zero))
  isoRead : ∀ second, qt.fromIso (qt.toIso (some (second, zero))) = some (second, zero)
  isoInvalid : qt.toIso none = []
  readInvalid : qt.fromIso [] = none
  displayDrops : ∀ second fraction,
    qt.display (some (second, fraction)) = qt.display (some (second, zero))

def wholeSeconds (zero : Fraction) (time : Option (Second × Fraction)) :
    Option (Second × Fraction) :=
  time.map fun parts => (parts.1, zero)

def ProcessingHistoryItem.wholeSeconds (zero : Fraction)
    (item : ProcessingHistoryItem (Option (Second × Fraction))) :
    ProcessingHistoryItem (Option (Second × Fraction)) :=
  { item with timestamp := TextMaster.wholeSeconds zero item.timestamp }

variable {qt : Qt (Option (Second × Fraction))} {zero : Fraction}

namespace Qt.WholeSeconds

theorem iso_round_trip (laws : qt.WholeSeconds zero) (time : Option (Second × Fraction)) :
    qt.fromIso (qt.toIso time) = wholeSeconds zero time := by
  cases time with
  | none => rw [laws.isoInvalid, laws.readInvalid]; rfl
  | some parts => rw [laws.isoDrops, laws.isoRead]; rfl

theorem display_wholeSeconds (laws : qt.WholeSeconds zero) (time : Option (Second × Fraction)) :
    qt.display (wholeSeconds zero time) = qt.display time := by
  cases time with
  | none => rfl
  | some parts => exact (laws.displayDrops parts.1 parts.2).symm

theorem lawful (laws : qt.WholeSeconds zero) : qt.Lawful := by
  refine ⟨laws.json, ?_⟩
  intro time
  rw [laws.iso_round_trip]
  cases time with
  | none => rfl
  | some parts => exact (laws.isoDrops parts.1 parts.2).symm

theorem readHistory_historyData (laws : qt.WholeSeconds zero)
    (history : List (ProcessingHistoryItem (Option (Second × Fraction)))) :
    qt.readHistory (qt.historyData history) =
      history.map (ProcessingHistoryItem.wholeSeconds zero) := by
  rw [Qt.readHistory_historyData laws.lawful]
  apply List.map_congr_left
  intro item _
  rw [Qt.stored, laws.iso_round_trip]
  rfl

theorem displayText_wholeSeconds (laws : qt.WholeSeconds zero)
    (item : ProcessingHistoryItem (Option (Second × Fraction))) :
    qt.displayText (item.wholeSeconds zero) = qt.displayText item := by
  simp only [displayText, ProcessingHistoryItem.wholeSeconds, laws.display_wholeSeconds]

end Qt.WholeSeconds

/-- The text that the row of an item is meant to have: its date, a line feed, and the first hundred
UTF-16 units of its input before three dots. -/
def rowText {DateTime : Type} (qt : Qt DateTime) (item : ProcessingHistoryItem DateTime) :
    List UInt16 :=
  utf16 (qt.display item.timestamp) ++ [0x0A] ++ (utf16 item.inputText).take 100 ++
    [0x2E, 0x2E, 0x2E]

structure RowsShown {DateTime : Type} (qt : Qt DateTime) (window : MainWindow DateTime) :
    Prop where
  size : window.historyList.length = window.processingHistory.length
  text : ∀ (i : Nat) item, window.processingHistory[i]? = some item →
    window.historyList[i]? = some (rowText qt item)

theorem displayText_eq_rowText {DateTime : Type} (qt : Qt DateTime)
    (item : ProcessingHistoryItem DateTime) : qt.displayText item = rowText qt item := by
  have feed : utf16 (qt.display item.timestamp ++ ['\n']) =
      utf16 (qt.display item.timestamp) ++ [0x0A] := List.flatMap_append
  have dots : utf16 "...".toList = [0x2E, 0x2E, 0x2E] := rfl
  rw [Qt.displayText, rowText, feed, dots]

theorem rowsShown_iff {DateTime : Type} {qt : Qt DateTime} {window : MainWindow DateTime} :
    RowsShown qt window ↔ window.historyList = window.processingHistory.map qt.displayText := by
  constructor
  · rintro ⟨size, text⟩
    apply List.ext_getElem?
    intro i
    rw [List.getElem?_map]
    cases here : window.processingHistory[i]? with
    | none =>
        rw [List.getElem?_eq_none_iff] at here
        exact List.getElem?_eq_none (size ▸ here)
    | some item => rw [text i item here, Option.map_some, displayText_eq_rowText]
  · intro same
    refine ⟨by rw [same, List.length_map], ?_⟩
    intro i item here
    rw [same, List.getElem?_map, here, Option.map_some, displayText_eq_rowText]

theorem loadHistory_saveHistory (laws : qt.WholeSeconds zero)
    (window other : MainWindow (Option (Second × Fraction))) (shown : RowsShown qt window) :
    let loaded := { other with
      historyFile := (window.saveHistory qt .completed).historyFile }.loadHistory qt true
    loaded.processingHistory =
        window.processingHistory.map (ProcessingHistoryItem.wholeSeconds zero) ∧
      loaded.historyList = window.historyList ∧ RowsShown qt loaded := by
  intro loaded
  rw [rowsShown_iff] at shown
  have items : loaded.processingHistory =
      window.processingHistory.map (ProcessingHistoryItem.wholeSeconds zero) :=
    laws.readHistory_historyData window.processingHistory
  have rows : loaded.historyList = loaded.processingHistory.map qt.displayText := rfl
  refine ⟨items, ?_, rowsShown_iff.mpr rows⟩
  rw [rows, items, shown, List.map_map]
  apply List.map_congr_left
  intro item _
  exact laws.displayText_wholeSeconds item

end RoundTrip

section Rows

variable {DateTime : Type} {qt : Qt DateTime} {threads : Nat}

theorem loadHistory_rows (qt : Qt DateTime) (data : List UInt8)
    (window : MainWindow DateTime) :
    RowsShown qt ({ window with historyFile := some data }.loadHistory qt true) :=
  rowsShown_iff.mpr rfl

theorem RowsShown.of_same {window next : MainWindow DateTime} (shown : RowsShown qt window)
    (list : next.historyList = window.historyList)
    (history : next.processingHistory = window.processingHistory) : RowsShown qt next := by
  rwa [rowsShown_iff, list, history, ← rowsShown_iff]

theorem studyGuideFinished_rows {window : MainWindow DateTime} (shown : RowsShown qt window)
    (result : QString) (now : DateTime) (saved : SaveOutcome) :
    RowsShown qt (window.studyGuideFinished qt result now saved) := by
  simp only [MainWindow.studyGuideFinished, MainWindow.recordResult]
  split
  · exact shown.of_same rfl rfl
  · exact rowsShown_iff.mpr rfl

theorem construct_rows (qt : Qt DateTime) (file : Option (List UInt8)) (opened : Bool)
    (status : QString) : RowsShown qt (.construct qt file opened status) := by
  cases file <;> cases opened <;> exact rowsShown_iff.mpr rfl

theorem step_rows (session : Session DateTime) (event : SessionEvent DateTime)
    (next : Session DateTime) (shown : RowsShown qt session.window)
    (taken : session.step qt threads event = some next) : RowsShown qt next.window := by
  cases event with
  | user action =>
      cases taken
      obtain ⟨_, _, _, history, _, list⟩ := user_frame session.window action
      exact shown.of_same list history
  | analyze => rcases step_analyze taken with ⟨_, rfl⟩ | ⟨_, rfl⟩ <;> exact shown.of_same rfl rfl
  | start =>
      obtain ⟨_, _, _, _, _, rfl⟩ := step_start taken
      exact shown
  | emitError id message =>
      obtain ⟨_, _, _, rfl⟩ := step_emitError taken
      exact shown
  | finish id result =>
      obtain ⟨_, _, _, rfl⟩ := step_finish taken
      exact shown
  | deliver now saved =>
      rcases step_deliver taken with ⟨_, _, _, rfl⟩ | ⟨_, _, _, result, _, _, _, rfl⟩
      · exact shown.of_same rfl rfl
      · exact studyGuideFinished_rows shown result now saved

end Rows

/-- Saving and loading keeps every list of items and the rows shown for it, up to sub-seconds; so
does a save behind a load of any file; and in every state of a session row `i` shows item `i`. -/
theorem history_round_trip {Second Fraction : Type} (qt : Qt (Option (Second × Fraction)))
    (zero : Fraction) (laws : qt.WholeSeconds zero) :
    (∀ (history : List (ProcessingHistoryItem (Option (Second × Fraction))))
      (window other : MainWindow (Option (Second × Fraction))),
      let shown := { window with processingHistory := history }.refreshHistoryList qt
      let loaded := { other with
        historyFile := (shown.saveHistory qt .completed).historyFile }.loadHistory qt true
      loaded.processingHistory = history.map (ProcessingHistoryItem.wholeSeconds zero) ∧
        loaded.historyList = shown.historyList ∧ RowsShown qt loaded) ∧
    (∀ (content : List UInt8) (window other : MainWindow (Option (Second × Fraction))),
      let once := { window with historyFile := some content }.loadHistory qt true
      let twice := { other with
        historyFile := (once.saveHistory qt .completed).historyFile }.loadHistory qt true
      twice.processingHistory =
          once.processingHistory.map (ProcessingHistoryItem.wholeSeconds zero) ∧
        twice.historyList = once.historyList ∧ RowsShown qt twice) ∧
    ∀ (threads : Nat) (file : Option (List UInt8)) (opened : Bool) (status : QString)
      (events : List (SessionEvent (Option (Second × Fraction)))) session,
      Transition.run (Session.step qt threads) (.construct qt file opened status) events =
          some session →
        RowsShown qt session.window := by
  refine ⟨?_, ?_, ?_⟩
  · intro history window other
    exact loadHistory_saveHistory laws _ other (rowsShown_iff.mpr rfl)
  · intro content window other
    exact loadHistory_saveHistory laws _ other (loadHistory_rows qt content window)
  · intro threads file opened status events session reached
    exact Transition.run_preserves step_rows (construct_rows qt file opened status) reached

section Millisecond

abbrev FineMoment := Option (Fin 60 × Fin 1000)

def millisecondQt : Qt FineMoment where
  toJson := minuteQt.toJson
  fromJson := minuteQt.fromJson
  display time := minuteQt.display (time.map Prod.fst)
  toIso time := minuteQt.toIso (time.map Prod.fst)
  fromIso text := (minuteQt.fromIso text).map fun second => (second, 0)

theorem digits_injective {first second : Fin 60}
    (same : Moment.digits first = Moment.digits second) : first = second := by
  have numbers : ∀ value < 58, (Char.ofNat value).toNat = value := by decide
  simp only [Moment.digits, List.cons.injEq, and_true] at same
  obtain ⟨tens, units⟩ := same
  have sameTens := congrArg Char.toNat tens
  have sameUnits := congrArg Char.toNat units
  rw [numbers _ (by omega), numbers _ (by omega)] at sameTens
  rw [numbers _ (by omega), numbers _ (by omega)] at sameUnits
  omega

theorem fromIso_toIso (second : Fin 60) :
    Moment.fromIso (Moment.toIso (some second)) = some second := by
  cases found : Moment.fromIso (Moment.toIso (some second)) with
  | none =>
      have missing := List.find?_eq_none.mp found second (List.mem_finRange second)
      simp at missing
  | some other =>
      have same : Moment.toIso (some other) = Moment.toIso (some second) := by
        simpa using List.find?_some found
      rw [digits_injective (List.append_cancel_left same)]

theorem millisecondQt_laws : millisecondQt.WholeSeconds 0 where
  json := minuteQt_lawful.json
  isoDrops _ _ := rfl
  isoRead second := congrArg (Option.map fun read => (read, 0)) (fromIso_toIso second)
  isoInvalid := rfl
  readInvalid := by
    have unread : Moment.fromIso [] = none := by decide
    simp [millisecondQt, minuteQt, unread]
  displayDrops _ _ := rfl

theorem half_second_round_trip :
    let history : List (ProcessingHistoryItem FineMoment) := [⟨['a'], ['b'], some (7, 500)⟩]
    let fresh : MainWindow FineMoment := .construct millisecondQt none true []
    let shown := { fresh with processingHistory := history }.refreshHistoryList millisecondQt
    let loaded := { fresh with
      historyFile := (shown.saveHistory millisecondQt .completed).historyFile }.loadHistory
        millisecondQt true
    loaded.processingHistory = [⟨['a'], ['b'], some (7, 0)⟩] ∧
      loaded.historyList = shown.historyList := by
  intro history fresh shown loaded
  obtain ⟨items, rows, _⟩ := (history_round_trip millisecondQt 0 millisecondQt_laws).1
    history fresh fresh
  exact ⟨items, rows⟩

end Millisecond

end TextMaster
