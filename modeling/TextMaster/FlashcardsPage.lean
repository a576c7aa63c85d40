import TextMaster.FlashcardsPageCore
import TextMaster.Transition

/-!
Runs of `FlashcardsPage`: what the widgets show after any of them, and that the moves go around
the list as around a ring.
-/

namespace TextMaster

namespace FlashcardEvent

def deals : FlashcardEvent → Bool
  | .setFlashcards _ | .clearFlashcards => true
  | _ => false

def offset : FlashcardEvent → Option Int
  | .prevCard | .onPrevClicked => some (-1)
  | .nextCard | .onNextClicked => some 1
  | _ => none

def travel : List FlashcardEvent → Int
  | [] => 0
  | event :: rest => event.offset.getD 0 + travel rest

theorem travel_replicate {forth : FlashcardEvent} (forwards : forth.offset = some 1)
    (count : Nat) : travel (List.replicate count forth) = count := by
  induction count with
  | zero => rfl
  | succ count ih =>
      rw [List.replicate_succ, travel, ih, forwards, Option.getD_some]
      omega

end FlashcardEvent

namespace FlashcardsPage

variable {page next : FlashcardsPage}

theorem size_pos (nonempty : page.flashcards ≠ []) : 0 < page.size := by
  have positive := List.length_pos_iff.mpr nonempty
  simp only [size]
  omega

structure InRange (page : FlashcardsPage) : Prop where
  lower : 0 ≤ page.currentIndex
  upper : page.flashcards ≠ [] → page.currentIndex < page.size
  empty : page.flashcards = [] → page.currentIndex = 0

structure Displayed (page : FlashcardsPage) : Prop where
  inRange : page.InRange
  labels : ∀ card, page.current = some card →
    page.termLabel = card.1 ∧ page.definitionLabel = card.2
  previous : page.prevEnabled = decide (0 < page.currentIndex)
  following : page.nextEnabled = decide (page.currentIndex < page.size - 1)

theorem current_of_inRange (inRange : page.InRange) (nonempty : page.flashcards ≠ []) :
    ∃ card, page.current = some card := by
  obtain ⟨lower, upper, _⟩ := inRange
  have below := upper nonempty
  have bound : page.currentIndex.toNat < page.flashcards.length := by
    simp only [size] at below
    omega
  rw [current, if_neg (by omega), List.getElem?_eq_getElem bound]
  exact ⟨_, rfl⟩

theorem updateCardDisplay_shows (inRange : page.InRange) :
    ∃ shown, page.updateCardDisplay = some shown ∧ shown.Displayed ∧
      shown.definitionVisible = false ∧ shown.flashcards = page.flashcards ∧
      shown.currentIndex = page.currentIndex ∧ shown.revealText = page.revealText := by
  unfold updateCardDisplay
  by_cases empty : page.flashcards = []
  · have start := inRange.empty empty
    rw [if_pos (by simp [empty])]
    refine ⟨_, rfl, ⟨⟨inRange.lower, inRange.upper, inRange.empty⟩, ?_, ?_, ?_⟩,
      rfl, rfl, rfl, rfl⟩
    · intro card found
      simp [current, empty] at found
    · simp [start]
    · simp [start, size, empty]
  · obtain ⟨card, found⟩ := current_of_inRange inRange empty
    rw [if_neg (by simpa using empty), found]
    refine ⟨_, rfl, ⟨⟨inRange.lower, inRange.upper, inRange.empty⟩, ?_, rfl, rfl⟩,
      rfl, rfl, rfl, rfl⟩
    intro other same
    have again : page.current = some other := same
    rw [found, Option.some.injEq] at again
    subst other
    exact ⟨rfl, rfl⟩

theorem moveTo_shows {index : Int} (nonempty : page.flashcards ≠ []) (nonneg : 0 ≤ index) :
    ∃ shown, page.moveTo index = some shown ∧ shown.Displayed ∧
      shown.definitionVisible = false ∧ shown.flashcards = page.flashcards ∧
      shown.currentIndex = index % page.size ∧ shown.revealText = page.revealText := by
  have positive := size_pos nonempty
  have turned : index.tmod page.size = index % page.size := Int.tmod_eq_emod_of_nonneg nonneg
  have inRange : InRange { page with currentIndex := index.tmod page.size } := by
    refine ⟨?_, fun _ => ?_, fun empty => absurd empty nonempty⟩
    · rw [turned]
      exact Int.emod_nonneg index (by omega)
    · rw [turned]
      exact Int.emod_lt_of_pos index positive
  obtain ⟨shown, taken, displayed, hidden, cards, place, reveal⟩ := updateCardDisplay_shows inRange
  refine ⟨shown, ?_, displayed, hidden, cards, place.trans turned, reveal⟩
  rw [moveTo, if_neg (by simpa using nonempty)]
  exact taken

theorem moveTo_empty (empty : page.flashcards = []) (index : Int) :
    page.moveTo index = some page := by
  simp [moveTo, empty]

theorem move_shows {event : FlashcardEvent} {offset : Int} (moves : event.offset = some offset)
    (inRange : page.InRange) (nonempty : page.flashcards ≠ []) :
    ∃ shown, page.step event = some shown ∧ shown.Displayed ∧
      shown.definitionVisible = false ∧ shown.flashcards = page.flashcards ∧
      shown.currentIndex = (page.currentIndex + offset) % page.size ∧
      shown.revealText = page.revealText := by
  have positive := size_pos nonempty
  have lower := inRange.lower
  have backwards : (page.currentIndex - 1 + page.size) % page.size =
      (page.currentIndex + -1) % page.size := by
    rw [Int.add_emod_right]
    rfl
  cases event with
  | prevCard =>
      cases moves
      rw [← backwards]
      exact moveTo_shows nonempty (by omega)
  | onPrevClicked =>
      cases moves
      rw [← backwards]
      exact moveTo_shows nonempty (by omega)
  | nextCard =>
      cases moves
      exact moveTo_shows nonempty (by omega)
  | onNextClicked =>
      cases moves
      exact moveTo_shows nonempty (by omega)
  | _ => contradiction

theorem move_empty {event : FlashcardEvent} {offset : Int} (moves : event.offset = some offset)
    (empty : page.flashcards = []) : page.step event = some page := by
  cases event with
  | prevCard => exact moveTo_empty empty _
  | onPrevClicked => exact moveTo_empty empty _
  | nextCard => exact moveTo_empty empty _
  | onNextClicked => exact moveTo_empty empty _
  | _ => contradiction

theorem deal_shows {event : FlashcardEvent} (deals : event.deals = true) (page : FlashcardsPage) :
    ∃ shown, page.step event = some shown ∧ shown.Displayed ∧ shown.definitionVisible = false := by
  cases event with
  | setFlashcards cards =>
      have inRange : InRange { page with flashcards := cards, currentIndex := 0 } :=
        ⟨Int.le_refl 0, size_pos, fun _ => rfl⟩
      obtain ⟨shown, taken, displayed, hidden, _⟩ := updateCardDisplay_shows inRange
      exact ⟨shown, taken, displayed, hidden⟩
  | clearFlashcards =>
      refine ⟨_, rfl, ⟨⟨Int.le_refl 0, size_pos, fun _ => rfl⟩, ?_, rfl, rfl⟩, rfl⟩
      intro card found
      simp [current, clearFlashcards] at found
  | _ => contradiction

theorem toggle_displayed (onScreen : Bool) (displayed : page.Displayed) :
    (page.toggleDefinition onScreen).Displayed := by
  obtain ⟨⟨lower, upper, empty⟩, labels, previous, following⟩ := displayed
  exact ⟨⟨lower, upper, empty⟩, labels, previous, following⟩

theorem step_shows (event : FlashcardEvent) (inRange : page.InRange) :
    ∃ next, page.step event = some next ∧ next.InRange ∧
      (event.deals = true ∨ page.Displayed → next.Displayed) := by
  cases kind : event.deals with
  | true =>
      obtain ⟨shown, taken, displayed, _⟩ := deal_shows kind page
      exact ⟨shown, taken, displayed.inRange, fun _ => displayed⟩
  | false =>
      cases moves : event.offset with
      | some offset =>
          by_cases empty : page.flashcards = []
          · exact ⟨page, move_empty moves empty, inRange, by simp⟩
          · obtain ⟨shown, taken, displayed, _⟩ := move_shows moves inRange empty
            exact ⟨shown, taken, displayed.inRange, fun _ => displayed⟩
      | none =>
          cases event with
          | revealDefinition onScreen =>
              exact ⟨_, rfl, ⟨inRange.lower, inRange.upper, inRange.empty⟩,
                fun dealt => toggle_displayed onScreen (dealt.resolve_left nofun)⟩
          | onRevealClicked onScreen =>
              exact ⟨_, rfl, ⟨inRange.lower, inRange.upper, inRange.empty⟩,
                fun dealt => toggle_displayed onScreen (dealt.resolve_left nofun)⟩
          | _ => contradiction

theorem step_inRange (page : FlashcardsPage) (event : FlashcardEvent) (next : FlashcardsPage)
    (inRange : page.InRange) (taken : page.step event = some next) : next.InRange := by
  obtain ⟨shown, same, kept, _⟩ := step_shows event inRange
  rw [taken, Option.some.injEq] at same
  exact same ▸ kept

theorem construct_inRange : InRange construct := ⟨Int.le_refl 0, size_pos, fun _ => rfl⟩

theorem run_displayed {start : FlashcardsPage} {events : List FlashcardEvent}
    (inRange : start.InRange)
    (dealt : start.Displayed ∨ ∃ event ∈ events, event.deals = true)
    (reached : Transition.run step start events = some page) : page.Displayed := by
  induction events generalizing start with
  | nil =>
      cases reached
      simpa using dealt
  | cons event rest ih =>
      obtain ⟨next, taken, later⟩ := (Transition.run_cons _ _ _ _ _).mp reached
      obtain ⟨shown, same, kept, displayed⟩ := step_shows event inRange
      rw [taken, Option.some.injEq] at same
      subst shown
      refine ih kept ?_ later
      rcases dealt with before | ⟨other, member, deals⟩
      · exact Or.inl (displayed (Or.inr before))
      · rcases List.mem_cons.mp member with rfl | behind
        · exact Or.inl (displayed (Or.inl deals))
        · exact Or.inr ⟨other, behind, deals⟩

theorem moves_add_up (moves : List FlashcardEvent) (inRange : page.InRange)
    (nonempty : page.flashcards ≠ []) (all : ∀ move ∈ moves, move.offset ≠ none) :
    ∃ final, Transition.run step page moves = some final ∧ final.InRange ∧
      (moves ≠ [] → final.Displayed ∧ final.definitionVisible = false) ∧
      final.flashcards = page.flashcards ∧ final.revealText = page.revealText ∧
      final.currentIndex =
        (page.currentIndex + FlashcardEvent.travel moves) % page.size := by
  induction moves generalizing page with
  | nil =>
      refine ⟨page, rfl, inRange, by simp, rfl, rfl, ?_⟩
      rw [FlashcardEvent.travel, Int.add_zero]
      exact (Int.emod_eq_of_lt inRange.lower (inRange.upper nonempty)).symm
  | cons move rest ih =>
      obtain ⟨offset, moves⟩ := Option.ne_none_iff_exists'.mp (all move (by simp))
      obtain ⟨shown, taken, displayed, hidden, cards, place, reveal⟩ :=
        move_shows moves inRange nonempty
      obtain ⟨final, ran, kept, last, sameCards, sameReveal, finalPlace⟩ :=
        ih displayed.inRange (by rwa [cards]) (fun other member => all other (by simp [member]))
      refine ⟨final, (Transition.run_cons _ _ _ _ _).mpr ⟨shown, taken, ran⟩, kept, ?_,
        sameCards.trans cards, sameReveal.trans reveal, ?_⟩
      · intro _
        cases rest with
        | nil =>
            cases ran
            exact ⟨displayed, hidden⟩
        | cons other others => exact last (by simp)
      · have sameSize : shown.size = page.size := by simp only [size, cards]
        rw [finalPlace, place, sameSize, FlashcardEvent.travel, moves, Option.getD_some,
          Int.emod_add_emod, Int.add_assoc]

theorem Displayed.ext_of {other : FlashcardsPage} (displayed : page.Displayed)
    (otherDisplayed : other.Displayed) (nonempty : page.flashcards ≠ [])
    (cards : other.flashcards = page.flashcards)
    (place : other.currentIndex = page.currentIndex)
    (visible : other.definitionVisible = page.definitionVisible)
    (reveal : other.revealText = page.revealText) : other = page := by
  obtain ⟨card, found⟩ := current_of_inRange displayed.inRange nonempty
  have otherFound : other.current = some card := by
    rw [← found, current, current, cards, place]
  have labels := displayed.labels card found
  have otherLabels := otherDisplayed.labels card otherFound
  have previous := otherDisplayed.previous.trans
    ((congrArg (fun index => decide (0 < index)) place).trans displayed.previous.symm)
  have following : other.nextEnabled = page.nextEnabled := by
    rw [otherDisplayed.following, displayed.following, place, size, size, cards]
  cases page
  cases other
  simp_all

theorem wrap {index count : Int} (lower : 0 ≤ index) (upper : index < 2 * count) :
    index % count = if index < count then index else index - count := by
  split
  · rename_i below
    exact Int.emod_eq_of_lt lower below
  · rw [← Int.sub_emod_right]
    exact Int.emod_eq_of_lt (by omega) (by omega)

theorem ring_visits {index count : Int} (lower : 0 ≤ index) (upper : index < count) :
    (∀ target, 0 ≤ target → target < count →
      ∃! steps : Nat, (steps : Int) < count ∧ (index + steps) % count = target) ∧
    (index + count) % count = index := by
  refine ⟨?_, by rw [Int.add_emod_right, Int.emod_eq_of_lt lower upper]⟩
  intro target above below
  have unique : ∀ steps : Nat, (steps : Int) < count → ((index + steps) % count = target ↔
      (steps : Int) = if index ≤ target then target - index else target - index + count) := by
    intro steps few
    rw [wrap (by omega) (by omega)]
    split <;> split <;> omega
  refine ⟨(if index ≤ target then target - index else target - index + count).toNat, ?_, ?_⟩
  · have few : (((if index ≤ target then target - index
        else target - index + count).toNat : Nat) : Int) < count := by
      split <;> omega
    refine ⟨few, (unique _ few).mpr ?_⟩
    split <;> omega
  · rintro steps ⟨few, arrives⟩
    have same := (unique steps few).mp arrives
    omega

structure Ring (page : FlashcardsPage) : Prop where
  steps : ∀ forth : FlashcardEvent, forth.offset = some 1 → ∀ count : Nat, ∃ final,
    Transition.run step page (List.replicate count forth) = some final ∧
      final.flashcards = page.flashcards ∧
      final.currentIndex = (page.currentIndex + count) % page.size
  inverse : ∀ forth back : FlashcardEvent, forth.offset = some 1 → back.offset = some (-1) →
    Transition.run step page [forth, back] = some { page with definitionVisible := false } ∧
      Transition.run step page [back, forth] = some { page with definitionVisible := false }
  visits : ∀ target, 0 ≤ target → target < page.size →
    ∃! count : Nat, (count : Int) < page.size ∧
      (page.currentIndex + count) % page.size = target
  returns : (page.currentIndex + page.size) % page.size = page.currentIndex

theorem there_and_back {first second : FlashcardEvent} (displayed : page.Displayed)
    (nonempty : page.flashcards ≠ []) {offset : Int} (away : first.offset = some offset)
    (back : second.offset = some (-offset)) :
    Transition.run step page [first, second] =
      some { page with definitionVisible := false } := by
  obtain ⟨final, ran, _, shown, cards, reveal, place⟩ :=
    moves_add_up [first, second] displayed.inRange nonempty (by simp [away, back])
  obtain ⟨finalDisplayed, hidden⟩ := shown (by simp)
  have covered : Displayed { page with definitionVisible := false } := by
    obtain ⟨⟨lower, upper, empty⟩, labels, previous, following⟩ := displayed
    exact ⟨⟨lower, upper, empty⟩, labels, previous, following⟩
  have same : final.currentIndex = page.currentIndex := by
    rw [place]
    simp only [FlashcardEvent.travel, away, back, Option.getD_some]
    rw [show offset + (-offset + 0) = 0 by omega, Int.add_zero]
    exact Int.emod_eq_of_lt displayed.inRange.lower (displayed.inRange.upper nonempty)
  rw [ran]
  exact congrArg some (covered.ext_of finalDisplayed nonempty cards same hidden reveal)

theorem Displayed.ring (displayed : page.Displayed) (nonempty : page.flashcards ≠ []) :
    page.Ring := by
  obtain ⟨visits, returns⟩ :=
    ring_visits displayed.inRange.lower (displayed.inRange.upper nonempty)
  refine ⟨?_, ?_, visits, returns⟩
  · intro forth forwards count
    obtain ⟨final, ran, _, _, cards, _, place⟩ :=
      moves_add_up (List.replicate count forth) displayed.inRange nonempty (by simp [forwards])
    exact ⟨final, ran, cards, by rw [place, FlashcardEvent.travel_replicate forwards]⟩
  · intro forth back forwards backwards
    exact ⟨there_and_back displayed nonempty forwards backwards,
      there_and_back displayed nonempty backwards forwards⟩

/-- After any run that has set or cleared the list the page shows its card and the moves go around
the list; the definition is hidden by every set, clear and move of a card. -/
theorem flashcards_go_around :
    (∀ events, ∃ page, Transition.run step construct events = some page ∧ page.InRange ∧
      ((∃ event ∈ events, event.deals = true) →
        page.Displayed ∧ (page.flashcards ≠ [] → page.Ring))) ∧
    ∀ events event before page, Transition.run step construct events = some before →
      before.step event = some page →
        (event.deals = true ∨ event.offset ≠ none ∧ before.flashcards ≠ [] →
          page.definitionVisible = false) ∧
        (event.offset ≠ none → before.flashcards = [] → page = before) := by
  constructor
  · intro events
    have total : ∀ page event, InRange page → ∃ next, step page event = some next := by
      intro page event inRange
      obtain ⟨next, taken, _⟩ := step_shows event inRange
      exact ⟨next, taken⟩
    obtain ⟨page, reached⟩ :=
      Transition.run_total total step_inRange construct_inRange events
    refine ⟨page, reached, Transition.run_preserves step_inRange construct_inRange reached, ?_⟩
    intro dealt
    have displayed := run_displayed construct_inRange (Or.inr dealt) reached
    exact ⟨displayed, displayed.ring⟩
  · intro events event before page reached taken
    have inRange := Transition.run_preserves step_inRange construct_inRange reached
    constructor
    · rintro (deals | ⟨moves, nonempty⟩)
      · obtain ⟨shown, same, _, hidden⟩ := deal_shows deals before
        rw [taken, Option.some.injEq] at same
        exact same ▸ hidden
      · obtain ⟨offset, moved⟩ := Option.ne_none_iff_exists'.mp moves
        obtain ⟨shown, same, _, hidden, _⟩ := move_shows moved inRange nonempty
        rw [taken, Option.some.injEq] at same
        exact same ▸ hidden
    · intro moves empty
      obtain ⟨offset, moved⟩ := Option.ne_none_iff_exists'.mp moves
      have same := move_empty moved empty
      rw [taken, Option.some.injEq] at same
      exact same

theorem two_cards_go_around : ∃ page,
    Transition.run step construct
        [.onRevealClicked true, .setFlashcards [(['a'], ['b']), (['c'], ['d'])], .prevCard] =
          some page ∧ page.Displayed ∧ page.Ring := by
  obtain ⟨page, reached, _, shown⟩ := flashcards_go_around.1
    [.onRevealClicked true, .setFlashcards [(['a'], ['b']), (['c'], ['d'])], .prevCard]
  obtain ⟨displayed, ring⟩ := shown ⟨.setFlashcards [(['a'], ['b']), (['c'], ['d'])], by simp, rfl⟩
  have cards : page.flashcards = [(['a'], ['b']), (['c'], ['d'])] := by
    cases reached
    rfl
  exact ⟨page, reached, displayed, ring (by simp [cards])⟩

/-- A move on an empty list does nothing, so a definition that was revealed there stays. -/
theorem empty_move_shows_definition : ∃ page,
    Transition.run step construct [.clearFlashcards, .onRevealClicked true, .nextCard] =
      some page ∧ page.definitionVisible = true :=
  ⟨_, rfl, rfl⟩

end FlashcardsPage

end TextMaster
