import Mathlib.Data.Int.Order.Basic
import TextMaster.Text

/-!
`FlashcardsPage`: a list of cards, the index of the card on display, and the widgets that show it.
Slots and functions of the same body share it under their two names.
-/

namespace TextMaster

/-- `definitionVisible` is the label's own flag, which `isVisible` shows only on a shown page. -/
structure FlashcardsPage where
  termLabel : QString
  definitionLabel : QString
  definitionVisible : Bool
  revealText : QString
  prevEnabled : Bool
  nextEnabled : Bool
  flashcards : List (QString × QString)
  currentIndex : Int
  deriving DecidableEq, Repr

/-- A reveal comes with whether the page is on the screen. -/
inductive FlashcardEvent where
  | setFlashcards (cards : List (QString × QString))
  | clearFlashcards
  | prevCard
  | onPrevClicked
  | nextCard
  | onNextClicked
  | revealDefinition (onScreen : Bool)
  | onRevealClicked (onScreen : Bool)
  deriving DecidableEq

namespace FlashcardsPage

def construct : FlashcardsPage where
  termLabel := []
  definitionLabel := []
  definitionVisible := false
  revealText := "Reveal".toList
  prevEnabled := true
  nextEnabled := true
  flashcards := []
  currentIndex := 0

def size (page : FlashcardsPage) : Int := page.flashcards.length

def current (page : FlashcardsPage) : Option (QString × QString) :=
  if page.currentIndex < 0 then none else page.flashcards[page.currentIndex.toNat]?

def updateCardDisplay (page : FlashcardsPage) : Option FlashcardsPage :=
  if page.flashcards.isEmpty then some { page with
    termLabel := "No flashcards available".toList
    definitionLabel := []
    definitionVisible := false
    prevEnabled := false
    nextEnabled := false }
  else page.current.map fun card => { page with
    termLabel := card.1
    definitionLabel := card.2
    definitionVisible := false
    prevEnabled := decide (0 < page.currentIndex)
    nextEnabled := decide (page.currentIndex < page.size - 1) }

def setFlashcards (cards : List (QString × QString)) (page : FlashcardsPage) :
    Option FlashcardsPage :=
  updateCardDisplay { page with flashcards := cards, currentIndex := 0 }

def clearFlashcards (page : FlashcardsPage) : FlashcardsPage :=
  { page with
    flashcards := []
    currentIndex := 0
    termLabel := []
    definitionLabel := []
    definitionVisible := false
    prevEnabled := false
    nextEnabled := false }

/-- The body of the four moves. The operator `%` of the source truncates. -/
def moveTo (index : Int) (page : FlashcardsPage) : Option FlashcardsPage :=
  if page.flashcards.isEmpty then some page
  else updateCardDisplay { page with currentIndex := index.tmod page.size }

def prevCard (page : FlashcardsPage) : Option FlashcardsPage :=
  page.moveTo (page.currentIndex - 1 + page.size)

def onPrevClicked (page : FlashcardsPage) : Option FlashcardsPage :=
  page.moveTo (page.currentIndex - 1 + page.size)

def nextCard (page : FlashcardsPage) : Option FlashcardsPage :=
  page.moveTo (page.currentIndex + 1)

def onNextClicked (page : FlashcardsPage) : Option FlashcardsPage :=
  page.moveTo (page.currentIndex + 1)

/-- The body of the two reveals: the label's flag becomes the opposite of `isVisible`. -/
def toggleDefinition (onScreen : Bool) (page : FlashcardsPage) : FlashcardsPage :=
  let visible := !(onScreen && page.definitionVisible)
  { page with
    definitionVisible := visible
    revealText := if onScreen && visible then "Hide Definition".toList
      else "Show Definition".toList }

def revealDefinition : Bool → FlashcardsPage → FlashcardsPage := toggleDefinition

def onRevealClicked : Bool → FlashcardsPage → FlashcardsPage := toggleDefinition

def step (page : FlashcardsPage) : FlashcardEvent → Option FlashcardsPage
  | .setFlashcards cards => page.setFlashcards cards
  | .clearFlashcards => some page.clearFlashcards
  | .prevCard => page.prevCard
  | .onPrevClicked => page.onPrevClicked
  | .nextCard => page.nextCard
  | .onNextClicked => page.onNextClicked
  | .revealDefinition onScreen => some (page.revealDefinition onScreen)
  | .onRevealClicked onScreen => some (page.onRevealClicked onScreen)

end FlashcardsPage

end TextMaster
