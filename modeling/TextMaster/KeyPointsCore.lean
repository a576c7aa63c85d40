import TextMaster.CleanText
import TextMaster.StableSort

/-!
`extract_key_points` on a parsed document. The set `points` is kept in insertion order without
repetition; the order in which Python iterates over it is a parameter.
-/

namespace TextMaster.NlpProcessor

structure Entity where
  label : String
  text : PyString

structure DocToken where
  pos : String
  isStop : Bool

/-- A sentence of spaCy; two spans of one document are equal if they begin and end together. -/
structure Sentence where
  span : Nat × Nat
  text : PyString
  ents : List Entity
  tokens : List DocToken

structure Doc where
  ents : List Entity
  sents : List Sentence

def acceptedLabels : List String := ["PERSON", "ORG", "GPE", "PRODUCT", "EVENT", "TECH"]

def keyTerms : List PyString :=
  ["key".toList, "main".toList, "important".toList, "significant".toList]

def Entity.accepted (ent : Entity) : Bool := acceptedLabels.contains ent.label

/-- The order in which `list` and `sorted` meet the elements of a set. -/
structure SetOrder where
  iterate : List PyString → List PyString
  perm : ∀ points, (iterate points).Perm points

def addPoint (points : List PyString) (point : PyString) : List PyString :=
  if point ∈ points then points else points ++ [point]

def addEntity (points : List PyString) (ent : Entity) : List PyString :=
  if ent.accepted then
    if 1 < (split (cleanText ent.text)).length then addPoint points (cleanText ent.text)
    else points
  else points

section Score

variable (lower : PyString → PyString) (doc : Doc)

/-- The score of a sentence; `lower` stands for `str.lower`. -/
def score (sent : Sentence) : Nat :=
  (sent.ents.filter Entity.accepted).length +
    (sent.tokens.filter fun token => token.pos == "VERB" && !token.isStop).length +
    (if 10 ≤ sent.tokens.length ∧ sent.tokens.length ≤ 30 then 2 else 0) +
    (if (doc.sents.head?.map Sentence.span) = some sent.span ∨
      (strip sent.text).getLast? = some ':' then 3 else 0) +
    (if keyTerms.any fun term => contains (lower sent.text) term then 2 else 0)

def sentenceScores : List (PyString × Nat) :=
  doc.sents.map fun sent => (cleanText sent.text, score lower doc sent)

def sortedSentences : List (PyString × Nat) :=
  StableSort.descending Prod.snd (sentenceScores lower doc)

def addSentence (points : List PyString) (sent : PyString) : List PyString :=
  if sent ≠ [] ∧ 3 < (split sent).length then
    if points.any fun point => contains point sent then points else addPoint points sent
  else points

def entityPoints : List PyString := doc.ents.foldl addEntity []

def collectPoints (topN : Int) : List PyString :=
  ((sliceTo topN (sortedSentences lower doc)).map Prod.fst).foldl addSentence (entityPoints doc)

def extractKeyPoints (order : SetOrder) (topN : Int) : List PyString :=
  StableSort.ascending List.length (order.iterate (collectPoints lower doc topN))

end Score

end TextMaster.NlpProcessor
