import TextMaster.ProcessText

/-!
The text that `processText` builds from its response tokens. A piece is read into eight bytes; for
a longer one `llama_token_to_piece` returns a negative length, which the loop takes for no piece.
-/

namespace TextMaster

/-- All bytes of the token's piece, and none for a control or unknown token. -/
def fullPiece (vocab : Vocab) (token : Token) : List UInt8 :=
  if vocab.special token then [] else vocab.piece token

def PieceFits (vocab : Vocab) (token : Token) : Prop :=
  vocab.special token = true ∨ (vocab.piece token).length ≤ pieceSize

instance (vocab : Vocab) (token : Token) : Decidable (PieceFits vocab token) :=
  inferInstanceAs (Decidable (_ ∨ _))

theorem pieceBytes_eq (vocab : Vocab) (token : Token) :
    pieceBytes vocab token = if PieceFits vocab token then fullPiece vocab token else [] := by
  by_cases special : vocab.special token = true
  · simp [pieceBytes, llamaTokenToPiece, PieceFits, fullPiece, special]
  · by_cases short : (vocab.piece token).length ≤ pieceSize
    · have fits : ¬ pieceSize < (vocab.piece token).length := by omega
      simp only [pieceBytes, llamaTokenToPiece, PieceFits, fullPiece, special, short, fits,
        Bool.false_eq_true, or_true, if_true, if_false]
      split
      · rfl
      · rename_i none
        exact (List.eq_nil_iff_length_eq_zero.mpr (by omega)).symm
    · have long : pieceSize < (vocab.piece token).length := by omega
      simp [pieceBytes, llamaTokenToPiece, PieceFits, special, short, long]

theorem pieceBytes_length_le (vocab : Vocab) (token : Token) :
    (pieceBytes vocab token).length ≤ (fullPiece vocab token).length := by
  rw [pieceBytes_eq]
  split <;> simp

theorem pieceBytes_eq_fullPiece_iff (vocab : Vocab) (token : Token) :
    pieceBytes vocab token = fullPiece vocab token ↔ PieceFits vocab token := by
  rw [pieceBytes_eq]
  constructor
  · intro same
    by_contra long
    rw [if_neg long] at same
    simp only [PieceFits, not_or, Bool.not_eq_true] at long
    rw [fullPiece, if_neg (by simp [long.1])] at same
    rw [← same] at long
    exact long.2 (Nat.zero_le _)
  · exact fun fits => if_pos fits

theorem flatMap_length_le {Item Part : Type} (short full : Item → List Part)
    (shorter : ∀ item, (short item).length ≤ (full item).length) (items : List Item) :
    (items.flatMap short).length ≤ (items.flatMap full).length := by
  induction items with
  | nil => exact Nat.le_refl 0
  | cons item rest ih =>
      simp only [List.flatMap_cons, List.length_append]
      exact Nat.add_le_add (shorter item) ih

theorem flatMap_eq_iff {Item Part : Type} (short full : Item → List Part)
    (shorter : ∀ item, (short item).length ≤ (full item).length) (items : List Item) :
    items.flatMap short = items.flatMap full ↔ ∀ item ∈ items, short item = full item := by
  constructor
  · intro same
    induction items with
    | nil => nofun
    | cons item rest ih =>
        rw [List.flatMap_cons, List.flatMap_cons] at same
        have total := flatMap_length_le short full shorter rest
        have sizes := congrArg List.length same
        simp only [List.length_append] at sizes
        have first := shorter item
        obtain ⟨here, later⟩ := List.append_inj same (by omega)
        intro other member
        rcases List.mem_cons.mp member with rfl | behind
        · exact here
        · exact ih later other behind
  · intro parts
    rw [List.flatMap_def, List.flatMap_def, List.map_congr_left parts]

theorem responseBytes_eq_fullPieces_iff (vocab : Vocab) (responseTokens : List Token) :
    responseBytes vocab responseTokens = responseTokens.flatMap (fullPiece vocab) ↔
      ∀ token ∈ responseTokens, PieceFits vocab token := by
  simp only [responseBytes, flatMap_eq_iff _ _ (pieceBytes_length_le vocab),
    pieceBytes_eq_fullPiece_iff]

theorem responseBytes_eq_fitting (vocab : Vocab) (responseTokens : List Token) :
    responseBytes vocab responseTokens =
      (responseTokens.filter fun token => PieceFits vocab token).flatMap (fullPiece vocab) := by
  induction responseTokens with
  | nil => rfl
  | cons token rest ih =>
      rw [responseBytes] at ih
      rw [responseBytes, List.flatMap_cons, ih, pieceBytes_eq]
      by_cases fits : PieceFits vocab token
      · rw [if_pos fits, List.filter_cons_of_pos (by simpa using fits), List.flatMap_cons]
      · rw [if_neg fits, List.filter_cons_of_neg (by simpa using fits), List.nil_append]

section LongPiece

def wordVocab : Vocab where
  nTokens := 3
  eos := 0
  special token := token == 0
  piece token := if token = 1 then [97, 32] else [97, 108, 103, 111, 114, 105, 116, 104, 109]
  tokenize _ := [1]

def wordLlama : Llama Nat where
  decode calls _ := .success (calls + 1)
  getLogitsIth calls _ :=
    some fun token => if (token + 1) % 3 = calls % 3 then .one else .negativeInfinity

theorem long_piece_lost :
    let processed := processText wordLlama fromLatin1 ⟨some 0, some ⟨some wordVocab⟩⟩ ['x']
    processed.responseTokens = [1, 2, 0] ∧ processed.outcome = .returned ['a'] ∧
      responseBytes wordVocab processed.responseTokens ≠
        processed.responseTokens.flatMap (fullPiece wordVocab) := by
  intro processed
  have generated : processed.responseTokens = [1, 2, 0] := rfl
  refine ⟨generated, rfl, ?_⟩
  rw [generated]
  decide

end LongPiece

end TextMaster
