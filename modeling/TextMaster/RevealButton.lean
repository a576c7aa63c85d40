import TextMaster.FlashcardsPage

/-!
The caption of the reveal button against the definition, over runs of `FlashcardsPage` on the
screen.
-/

namespace TextMaster

namespace FlashcardEvent

def reveals : FlashcardEvent → Option Bool
  | .revealDefinition onScreen | .onRevealClicked onScreen => some onScreen
  | _ => none

end FlashcardEvent

namespace FlashcardsPage

variable {page next : FlashcardsPage} {event : FlashcardEvent}

def onScreenStep (page : FlashcardsPage) (event : FlashcardEvent) : Option FlashcardsPage :=
  if event.reveals = some false then none else page.step event

def noteReveal (revealed : Bool) (_ : FlashcardsPage) (event : FlashcardEvent) : Bool :=
  revealed || event.reveals.isSome

/-- Every set and clear hides the definition, and so does a move that finds a card. -/
def hides (page : FlashcardsPage) (event : FlashcardEvent) : Bool :=
  event.deals || (event.offset.isSome && !page.flashcards.isEmpty)

def Truthful (observed : FlashcardsPage × Bool) : Prop :=
  observed.2 = true → (observed.1.revealText = "Hide Definition".toList ↔
    observed.1.definitionVisible = true)

def HidesNothing (observed : FlashcardsPage × Bool) (event : FlashcardEvent) : Prop :=
  observed.2 = true → observed.1.definitionVisible = true → observed.1.hides event = false

theorem updateCardDisplay_hides (taken : page.updateCardDisplay = some next) :
    next.definitionVisible = false ∧ next.revealText = page.revealText := by
  simp only [updateCardDisplay] at taken
  split at taken
  · cases taken
    exact ⟨rfl, rfl⟩
  · obtain ⟨card, _, rfl⟩ := Option.map_eq_some_iff.mp taken
    exact ⟨rfl, rfl⟩

theorem moveTo_hides {index : Int} (taken : page.moveTo index = some next) :
    next.revealText = page.revealText ∧
      next.definitionVisible = (page.flashcards.isEmpty && page.definitionVisible) := by
  simp only [moveTo] at taken
  split at taken
  · rename_i empty
    cases taken
    exact ⟨rfl, by rw [empty, Bool.true_and]⟩
  · rename_i nonempty
    obtain ⟨hidden, same⟩ := updateCardDisplay_hides taken
    exact ⟨same, by simp [hidden, nonempty]⟩

theorem step_hides (taken : page.step event = some next) (other : event.reveals = none) :
    next.revealText = page.revealText ∧
      next.definitionVisible = (!page.hides event && page.definitionVisible) := by
  cases event with
  | setFlashcards cards =>
      obtain ⟨hidden, same⟩ := updateCardDisplay_hides taken
      exact ⟨same, by simp [hidden, hides, FlashcardEvent.deals]⟩
  | clearFlashcards =>
      cases taken
      exact ⟨rfl, by simp [clearFlashcards, hides, FlashcardEvent.deals]⟩
  | revealDefinition onScreen => cases other
  | onRevealClicked onScreen => cases other
  | _ =>
      obtain ⟨same, hidden⟩ := moveTo_hides taken
      exact ⟨same, by simp [hidden, hides, FlashcardEvent.deals, FlashcardEvent.offset]⟩

theorem step_truthful_iff (observed : FlashcardsPage × Bool) (event : FlashcardEvent)
    (after : FlashcardsPage × Bool) (truthful : Truthful observed)
    (taken : Transition.noting onScreenStep noteReveal observed event = some after) :
    Truthful after ↔ HidesNothing observed event := by
  obtain ⟨page, revealed⟩ := observed
  obtain ⟨next, stepped, rfl⟩ := Option.map_eq_some_iff.mp taken
  simp only [onScreenStep] at stepped
  split at stepped
  · contradiction
  rename_i shown
  cases kind : event.reveals with
  | none =>
      obtain ⟨same, visible⟩ := step_hides stepped kind
      simp only [Truthful, noteReveal, kind, Option.isSome_none, Bool.or_false, same, visible,
        HidesNothing] at truthful ⊢
      cases revealed with
      | false => simp
      | true =>
          rw [truthful rfl]
          cases page.definitionVisible <;> cases page.hides event <;> decide
  | some onScreen =>
      have present : onScreen = true := by
        cases onScreen with
        | false => exact absurd kind shown
        | true => rfl
      subst present
      refine iff_of_true ?_ ?_
      · have toggled : next = page.toggleDefinition true := by
          cases event with
          | revealDefinition _ =>
              cases kind
              exact (Option.some.inj stepped).symm
          | onRevealClicked _ =>
              cases kind
              exact (Option.some.inj stepped).symm
          | _ => cases kind
        rw [toggled]
        intro _
        simp only [toggleDefinition, Bool.true_and]
        cases page.definitionVisible <;> decide
      · intro _ _
        cases event with
        | revealDefinition _ => rfl
        | onRevealClicked _ => rfl
        | _ => cases kind

/-- The caption is right from the first reveal on, over a whole run, exactly if nothing but a
reveal hides a definition on display: set, clear and the moves leave the caption as it is. -/
theorem caption_truthful_iff (events : List FlashcardEvent) :
    Transition.Always (Transition.noting onScreenStep noteReveal) Truthful (construct, false)
        events ↔
      Transition.Along (Transition.noting onScreenStep noteReveal) HidesNothing
        (construct, false) events := by
  have initially : Truthful (construct, false) := by
    intro revealed
    cases revealed
  exact Transition.always_iff_along step_truthful_iff initially events

theorem move_keeps_caption :
    ¬ Transition.Always (Transition.noting onScreenStep noteReveal) Truthful (construct, false)
      [.setFlashcards [(['t'], ['d']), (['u'], ['e'])], .onRevealClicked true, .onNextClicked] := by
  intro always
  have last := always
    [.setFlashcards [(['t'], ['d']), (['u'], ['e'])], .onRevealClicked true, .onNextClicked] [] _
    rfl rfl
  exact absurd ((last rfl).mp (by decide)) (by decide)

end FlashcardsPage

end TextMaster
