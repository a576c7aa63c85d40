import Mathlib.Tactic.IntervalCases
import TextMaster.SpmSession

/-!
From the text to the first symbols of a session, and from its last symbols to the tokens: a session
tokenises a text as greedy merging of its characters does.
-/

namespace TextMaster

open GreedyMerge LazyMerge

namespace SpmSession

def characters : Nat → Nat → List UInt8 → Chain UInt8
  | 0, _, _ => []
  | _ + 1, _, [] => []
  | fuel + 1, index, byte :: rest =>
    let n := min (unicodeLenUtf8 byte) (rest.length + 1)
    (index, (byte :: rest).take n) :: characters fuel (index + 1) ((byte :: rest).drop n)

def greatest (head : Bigram) (rest : List Bigram) : Bigram :=
  rest.foldl (fun best other => if best.less other then other else best) head

def popFirst : Pop
  | [] => none
  | head :: rest => some (greatest head rest, (head :: rest).erase (greatest head rest))

def splitCharacters (text : List UInt8) : List (List UInt8) :=
  (characters text.length 0 text).map Prod.snd

/-- The token of a segment, or those of its bytes where it has none. -/
def segmentTokens (vocab : SpmVocab) (segment : List UInt8) : Option (List Nat) :=
  match vocab.textToToken segment with
  | some token => some [token]
  | none => segment.mapM vocab.byteToToken

def segmentsTokens (vocab : SpmVocab) (segments : List (List UInt8)) : Option (List Nat) :=
  (segments.mapM (segmentTokens vocab)).map List.flatten

section Start

variable {vocab : SpmVocab} {fuel index : Nat} {text : List UInt8}

theorem unicodeLenUtf8_bounds (byte : UInt8) : 1 ≤ unicodeLenUtf8 byte ∧ unicodeLenUtf8 byte ≤ 4 := by
  have high : byte.toNat / 16 < 16 := by
    have below := byte.toNat_lt
    omega
  unfold unicodeLenUtf8
  generalize byte.toNat / 16 = nibble at high
  interval_cases nibble <;> decide

theorem characters_nil (fuel index : Nat) : characters fuel index [] = [] := by
  cases fuel <;> rfl

theorem headPlace_characters (enough : text.length ≤ fuel) :
    headPlace (characters fuel index text) = if text = [] then -1 else (index : Int) := by
  cases text with
  | nil => rw [characters_nil, if_pos rfl]; rfl
  | cons byte rest =>
      cases fuel with
      | zero => simp at enough
      | succ fuel => rw [if_neg (List.cons_ne_nil _ _)]; rfl

theorem length_drop_character (byte : UInt8) (rest : List UInt8) (enough : rest.length ≤ fuel) :
    ((byte :: rest).drop (min (unicodeLenUtf8 byte) (rest.length + 1))).length ≤ fuel := by
  have positive := (unicodeLenUtf8_bounds byte).1
  rw [List.length_drop, List.length_cons]
  omega

theorem spelled_characters (enough : text.length ≤ fuel) :
    spelled (characters fuel index text) = text := by
  induction fuel generalizing index text with
  | zero =>
      rw [List.length_eq_zero_iff.mp (Nat.eq_zero_of_le_zero enough)]
      rfl
  | succ fuel ih =>
      cases text with
      | nil => rfl
      | cons byte rest =>
          have shorter := length_drop_character byte rest (Nat.le_of_succ_le_succ enough)
          rw [characters, spelled, List.map_cons, List.flatten_cons]
          calc (byte :: rest).take (min (unicodeLenUtf8 byte) (rest.length + 1)) ++
                spelled (characters fuel (index + 1)
                  ((byte :: rest).drop (min (unicodeLenUtf8 byte) (rest.length + 1))))
              = (byte :: rest).take (min (unicodeLenUtf8 byte) (rest.length + 1)) ++
                (byte :: rest).drop (min (unicodeLenUtf8 byte) (rest.length + 1)) := by
                rw [ih shorter]
            _ = byte :: rest := List.take_append_drop _ _

theorem length_splitSymbols (fuel index : Nat) (text : List UInt8) :
    (splitSymbols fuel index text).length = (characters fuel index text).length := by
  induction fuel generalizing index text with
  | zero => rfl
  | succ fuel ih =>
      cases text with
      | nil => rfl
      | cons byte rest =>
          rw [splitSymbols, characters, List.length_cons, List.length_cons]
          exact congrArg (· + 1) (ih _ _)

theorem splitSymbols_spec (enough : text.length ≤ fuel) {before after : Chain UInt8}
    {entry : Nat × List UInt8} (split : characters fuel index text = before ++ entry :: after) :
    entry.1 = index + before.length ∧ entry.2 ≠ [] ∧ entry.2.length ≤ 4 ∧
      (splitSymbols fuel index text)[before.length]? =
        some ⟨(entry.1 : Int) - 1, headPlace after, entry.2 ++ spelled after, entry.2.length⟩ := by
  induction fuel generalizing index text before with
  | zero => simp [characters] at split
  | succ fuel ih =>
      cases text with
      | nil => simp [characters] at split
      | cons byte rest =>
          obtain ⟨positive, small⟩ := unicodeLenUtf8_bounds byte
          have later := length_drop_character byte rest (Nat.le_of_succ_le_succ enough)
          rw [characters] at split
          cases before with
          | nil =>
              rw [List.nil_append, List.cons.injEq] at split
              obtain ⟨rfl, rfl⟩ := split
              refine ⟨rfl, ?_, ?_, ?_⟩
              · rw [ne_eq, List.take_eq_nil_iff]
                simp
                omega
              · rw [List.length_take]
                omega
              · rw [splitSymbols, headPlace_characters later, spelled_characters later,
                  List.length_nil, List.getElem?_cons_zero, List.take_append_drop]
                simp
          | cons head before =>
              rw [List.cons_append, List.cons.injEq] at split
              obtain ⟨place, filled, few, symbol⟩ := ih later split.2
              refine ⟨?_, filled, few, ?_⟩
              · rw [place, List.length_cons]
                omega
              · rw [splitSymbols, List.length_cons, List.getElem?_cons_succ]
                exact symbol

theorem places_characters (fuel index : Nat) (text : List UInt8) :
    (characters fuel index text).map Prod.fst =
      List.range' index (characters fuel index text).length := by
  induction fuel generalizing index text with
  | zero => rfl
  | succ fuel ih =>
      cases text with
      | nil => rfl
      | cons byte rest =>
          rw [characters, List.map_cons, List.length_cons, List.range'_succ, ih]

theorem lastPlace_of_places {chain before after : Chain UInt8} {entry : Nat × List UInt8}
    (placed : ∀ {before entry after}, chain = before ++ entry :: after → entry.1 = before.length)
    (split : chain = before ++ entry :: after) : lastPlace before = (entry.1 : Int) - 1 := by
  rw [placed split]
  rcases List.eq_nil_or_concat before with rfl | ⟨earlier, last, rfl⟩
  · rfl
  · rw [List.concat_eq_append] at split ⊢
    have whole : chain = earlier ++ last :: entry :: after := by simp [split]
    simp [lastPlace, placed whole]

theorem represents_start (text : List UInt8) :
    Represents (splitSymbols text.length 0 text) (characters text.length 0 text) := by
  have placed : ∀ {before entry after}, characters text.length 0 text = before ++ entry :: after →
      entry.1 = before.length := fun split => by
    rw [(splitSymbols_spec (Nat.le_refl _) split).1, Nat.zero_add]
  constructor
  · intro before entry after split
    obtain ⟨_, _, _, symbol⟩ := splitSymbols_spec (Nat.le_refl _) split
    rw [placed split, symbol, lastPlace_of_places placed split, placed split]
  · intro place symbol here absent
    have inside : place < (splitSymbols text.length 0 text).length :=
      (List.getElem?_eq_some_iff.mp here).1
    rw [length_splitSymbols] at inside
    refine absurd ?_ absent
    rw [places_characters, List.mem_range'_1]
    omega

theorem seed_offers {session : SpmSession} {chain before rest : Chain UInt8}
    {left : Nat × List UInt8} (numeric : vocab.Numeric)
    (placed : ∀ {before entry after}, chain = before ++ entry :: after → entry.1 = before.length)
    (represents : Represents session.symbols chain) (split : chain = before ++ left :: rest) :
    Added vocab session
      ((List.range' (before.length + 1) rest.length).foldl
        (fun session (i : Nat) => tryAddBigram vocab ((i : Int) - 1) i session) session)
      (firstOffers vocab.score (left :: rest)) := by
  induction rest generalizing session before left with
  | nil => exact Added.none vocab session
  | cons right rest ih =>
      have rightSplit : chain = (before ++ [left]) ++ right :: rest := by simp [split]
      have leftPlace : ((before.length + 1 : Nat) : Int) - 1 = left.1 := by
        rw [placed split]
        omega
      have rightPlace : ((before.length + 1 : Nat) : Int) = right.1 := by
        rw [placed rightSplit]
        simp
      have begun := tryAddBigram_neighbours represents split numeric
      rw [List.length_cons, List.range'_succ, List.foldl_cons, leftPlace, rightPlace]
      have still : Represents (tryAddBigram vocab left.1 right.1 session).symbols chain := by
        rw [begun.symbols]
        exact represents
      have ended := ih still rightSplit
      rw [List.length_append, List.length_singleton] at ended
      exact begun.trans ended

theorem added_start (numeric : vocab.Numeric) (text : List UInt8) :
    Added vocab ⟨splitSymbols text.length 0 text, [], []⟩ (start vocab text)
      (firstOffers vocab.score (characters text.length 0 text)) := by
  have placed : ∀ {before entry after}, characters text.length 0 text = before ++ entry :: after →
      entry.1 = before.length := fun split => by
    rw [(splitSymbols_spec (Nat.le_refl _) split).1, Nat.zero_add]
  have represents := represents_start text
  have sameLength := length_splitSymbols text.length 0 text
  rw [start, seed]
  simp only [sameLength]
  cases first : characters text.length 0 text with
  | nil => exact Added.none vocab _
  | cons head rest =>
      have whole : characters text.length 0 text = [] ++ head :: rest := first
      have fresh : Represents
          (⟨splitSymbols text.length 0 text, [], []⟩ : SpmSession).symbols
          (characters text.length 0 text) := represents
      exact seed_offers numeric placed fresh whole

theorem length_firstOffers_le (score : List UInt8 → Option Int) (chain : Chain UInt8) :
    (firstOffers score chain).length ≤ chain.length := by
  induction chain using firstOffers.induct with
  | case1 => exact Nat.le_refl 0
  | case2 entry => exact Nat.zero_le 1
  | case3 left right rest ih =>
      have one := length_offer_le score left right
      rw [firstOffers, List.length_append]
      simp only [List.length_cons] at ih ⊢
      omega

theorem tracks_start (numeric : vocab.Numeric) (text : List UInt8) :
    Tracks vocab (start vocab text) (characters text.length 0 text) ∧
      (start vocab text).workQueue.length ≤ (characters text.length 0 text).length := by
  have added := added_start numeric text
  have ascending : ((characters text.length 0 text).map Prod.fst).Pairwise (· < ·) := by
    rw [places_characters]
    exact List.pairwise_lt_range'
  have filled : ∀ entry ∈ characters text.length 0 text, entry.2 ≠ [] := by
    intro entry member
    obtain ⟨before, after, split⟩ := List.append_of_mem member
    exact (splitSymbols_spec (Nat.le_refl _) split).2.1
  have queue := added.queue
  rw [List.map_nil, List.nil_append] at queue
  refine ⟨⟨?_, ?_, added.proper (by simp), added.known (by simp), ?_⟩, ?_⟩
  · rw [added.symbols]
    exact represents_start text
  · rw [queue]
    exact covered_firstOffers ascending filled
  · rw [added.symbols, length_splitSymbols]
  · have lengths := congrArg List.length queue
    rw [List.length_map] at lengths
    rw [lengths]
    exact length_firstOffers_le _ _

end Start

section Output

variable {vocab : SpmVocab} {session : SpmSession} {pop second : Pop} {text : List UInt8}

theorem resegment_eq
    (known : ∀ entry ∈ session.revMerge, (vocab.textToToken entry.1).isSome = true)
    (fuel : Nat) (symbol : LlmSymbol) :
    resegment vocab session (fuel + 1) symbol =
      segmentTokens vocab (symbol.text.take symbol.n) := by
  simp only [resegment, segmentTokens]
  cases found : vocab.textToToken (symbol.text.take symbol.n) with
  | some token => rfl
  | none =>
      have never : session.revMerge.lookup (symbol.text.take symbol.n) = none := by
        rw [List.lookup_eq_none_iff]
        intro entry member
        rw [bne_iff_ne]
        intro same
        have token := known entry member
        rw [← same, found] at token
        contradiction
      simp [never]

theorem segmentsTokens_cons (segment : List UInt8) (segments : List (List UInt8)) :
    segmentsTokens vocab (segment :: segments) =
      (segmentTokens vocab segment).bind fun tokens =>
        (segmentsTokens vocab segments).bind fun rest => some (tokens ++ rest) := by
  unfold segmentsTokens
  rw [List.mapM_cons]
  cases segmentTokens vocab segment with
  | none => rfl
  | some tokens => cases segments.mapM (segmentTokens vocab) <;> simp

theorem output_eq {chain before after : Chain UInt8} {fuel : Nat}
    (tracks : Tracks vocab session chain) (split : chain = before ++ after)
    (enough : after.length < fuel) :
    output vocab session fuel (headPlace after) =
      segmentsTokens vocab (after.map Prod.snd) := by
  induction fuel generalizing before after with
  | zero => omega
  | succ fuel ih =>
      cases after with
      | nil => rfl
      | cons entry after =>
          have symbol := symbolAt_of_getElem? (tracks.represents.live split)
          have whole : chain = (before ++ [entry]) ++ after := by simp [split]
          rw [List.length_cons] at enough
          have later := ih whole (by omega)
          have head : headPlace (entry :: after) = entry.1 := rfl
          have segment : (entry.2 ++ spelled after).take entry.2.length = entry.2 :=
            List.take_left' rfl
          rw [output, head, if_neg (by omega)]
          simp only [symbol, resegment_eq tracks.known, segment, later]
          rw [List.map_cons, segmentsTokens_cons]
          rfl

theorem session_ends (numeric : vocab.Numeric) (lawful : Lawful pop) (text : List UInt8) :
    ∃ merged final,
      mergeLoop vocab pop (3 * (start vocab text).symbols.length + 1) (start vocab text) =
        some merged ∧
      Tracks vocab merged final ∧ Merges vocab.score (splitCharacters text) (final.map Prod.snd) ∧
      headPlace final = headPlace (characters text.length 0 text) := by
  obtain ⟨tracks, few⟩ := tracks_start numeric text
  have short := tracks.short
  have enough : (start vocab text).workQueue.length + 2 * (characters text.length 0 text).length <
      3 * (start vocab text).symbols.length + 1 := by omega
  exact mergeLoop_ends numeric lawful tracks enough

theorem tokenize_eq (numeric : vocab.Numeric) (lawful : Lawful pop) (nonempty : text ≠ []) :
    ∃ final, Merges vocab.score (splitCharacters text) final ∧
      tokenize vocab pop text = segmentsTokens vocab final := by
  obtain ⟨merged, final, ends, lastTracks, merges, head⟩ := session_ends numeric lawful text
  refine ⟨final.map Prod.snd, merges, ?_⟩
  have first : headPlace (characters text.length 0 text) = 0 := by
    rw [headPlace_characters (Nat.le_refl _), if_neg nonempty]
    rfl
  have whole : final = [] ++ final := rfl
  have output := output_eq lastTracks whole (Nat.lt_succ_of_le lastTracks.short)
  rw [head, first] at output
  simp only [tokenize, ends, Option.bind_eq_bind, Option.bind_some, output]

theorem not_less_trans {first middle last : Bigram} (firstProper : first.Proper)
    (middleProper : middle.Proper) (lastProper : last.Proper)
    (above : first.less middle = false) (further : middle.less last = false) :
    first.less last = false := by
  rw [← Bool.not_eq_true, less_candidate firstProper middleProper] at above
  rw [← Bool.not_eq_true, less_candidate middleProper lastProper] at further
  rw [← Bool.not_eq_true, less_candidate firstProper lastProper]
  unfold Candidate.Less at above further ⊢
  omega

theorem not_less_of_less {first last : Bigram} (firstProper : first.Proper)
    (lastProper : last.Proper) (less : first.less last = true) : last.less first = false := by
  rw [less_candidate firstProper lastProper] at less
  rw [← Bool.not_eq_true, less_candidate lastProper firstProper]
  unfold Candidate.Less at less ⊢
  omega

theorem not_less_self {bigram : Bigram} (proper : bigram.Proper) : bigram.less bigram = false := by
  rw [← Bool.not_eq_true, less_candidate proper proper]
  unfold Candidate.Less
  omega

theorem greatest_mem (head : Bigram) (rest : List Bigram) : greatest head rest ∈ head :: rest := by
  induction rest generalizing head with
  | nil => exact List.mem_cons_self
  | cons next rest ih =>
      rw [greatest, List.foldl_cons]
      rcases List.mem_cons.mp (ih (if head.less next then next else head)) with same | later
      · rw [greatest] at same
        rw [same]
        split
        · exact List.mem_cons_of_mem _ List.mem_cons_self
        · exact List.mem_cons_self
      · exact List.mem_cons_of_mem _ (List.mem_cons_of_mem _ later)

theorem greatest_top {head : Bigram} {rest : List Bigram}
    (proper : ∀ other ∈ head :: rest, other.Proper) :
    ∀ other ∈ head :: rest, (greatest head rest).less other = false := by
  induction rest generalizing head with
  | nil =>
      intro other member
      rw [List.mem_singleton.mp member]
      exact not_less_self (proper head List.mem_cons_self)
  | cons next rest ih =>
      have headProper := proper head List.mem_cons_self
      have nextProper := proper next (by simp)
      obtain ⟨winner, won, winnerProper, overHead, overNext⟩ : ∃ winner,
          (if head.less next then next else head) = winner ∧ winner.Proper ∧
            winner.less head = false ∧ winner.less next = false := by
        cases less : head.less next with
        | true => exact ⟨next, rfl, nextProper, not_less_of_less headProper nextProper less,
            not_less_self nextProper⟩
        | false => exact ⟨head, rfl, headProper, not_less_self headProper, less⟩
      have others : ∀ other ∈ winner :: rest, other.Proper := by
        intro other member
        rcases List.mem_cons.mp member with rfl | later
        · exact winnerProper
        · exact proper other (by simp [later])
      have top := ih others
      have best : greatest head (next :: rest) = greatest winner rest := by
        rw [greatest, List.foldl_cons, won, greatest]
      have bestProper := others _ (greatest_mem winner rest)
      have overWinner := top winner List.mem_cons_self
      intro other member
      rw [best]
      rcases List.mem_cons.mp member with rfl | behind
      · exact not_less_trans bestProper winnerProper headProper overWinner overHead
      · rcases List.mem_cons.mp behind with rfl | later
        · exact not_less_trans bestProper winnerProper nextProper overWinner overNext
        · exact top other (List.mem_cons_of_mem _ later)

theorem lawful_popFirst : Lawful popFirst := by
  constructor
  · rfl
  · intro queue nonempty
    cases queue with
    | nil => contradiction
    | cons head rest => exact ⟨_, _, rfl⟩
  · intro queue bigram rest popped
    cases queue with
    | nil => simp [popFirst] at popped
    | cons head others =>
        simp only [popFirst, Option.some.injEq, Prod.mk.injEq] at popped
        obtain ⟨rfl, rfl⟩ := popped
        exact List.perm_cons_erase (greatest_mem head others)
  · intro queue bigram rest proper popped other member
    cases queue with
    | nil => simp [popFirst] at popped
    | cons head others =>
        simp only [popFirst, Option.some.injEq, Prod.mk.injEq] at popped
        obtain ⟨rfl, rfl⟩ := popped
        exact greatest_top proper other (List.mem_of_mem_erase member)

theorem splitCharacters_flatten (text : List UInt8) : (splitCharacters text).flatten = text :=
  spelled_characters (Nat.le_refl _)

/-- Every queue comes to an end and leaves the segments of greedy merging, which spell the text. -/
theorem session_merges (numeric : vocab.Numeric) (nonempty : text ≠ []) :
    ∃ final, Merges vocab.score (splitCharacters text) final ∧ final.flatten = text ∧
      ∀ pop, Lawful pop →
        (∃ merged, mergeLoop vocab pop (3 * (start vocab text).symbols.length + 1)
          (start vocab text) = some merged) ∧
        tokenize vocab pop text = segmentsTokens vocab final := by
  obtain ⟨final, merges, _⟩ := tokenize_eq numeric lawful_popFirst nonempty
  refine ⟨final, merges, merges.flatten.trans (splitCharacters_flatten text), ?_⟩
  intro pop lawful
  obtain ⟨merged, _, ends, _⟩ := session_ends numeric lawful text
  obtain ⟨other, rival, session⟩ := tokenize_eq numeric lawful nonempty
  exact ⟨⟨merged, ends⟩, by rw [session, rival.unique merges]⟩

end Output

end SpmSession

def normalToken (text : List UInt8) (score : Binary32) : TokenData :=
  ⟨text, score, true, false, false, false, false, false, false⟩

def controlToken (text : List UInt8) : TokenData :=
  ⟨text, Binary32.one, false, false, true, false, false, false, false⟩

def pairSpm : SpmVocab where
  tokens := [controlToken [60, 115, 62], controlToken [60, 47, 115, 62],
    normalToken [97] Binary32.one, normalToken [98] Binary32.one,
    normalToken [97, 98] Binary32.one, normalToken [98, 97] Binary32.one]
  specialTokens := [1, 0]
  bos := 0
  eos := 1
  addBos := true
  addEos := false
  addSpacePrefix := false
  distinct := by decide
  nonempty := by decide
  special id := by
    rcases id with _ | _ | _ | _ | _ | _ | id <;>
      simp [controlToken, normalToken, TokenData.isSpecial]
  bosValid := by decide
  eosValid := by decide

theorem pairSpm_numeric : pairSpm.Numeric := by
  intro data member
  simp only [pairSpm, List.mem_cons, List.not_mem_nil, or_false] at member
  rcases member with rfl | rfl | rfl | rfl | rfl | rfl <;> decide

namespace SpmSession

theorem session_merges_left :
    (∃ final, Merges pairSpm.score (splitCharacters [97, 98, 97]) final ∧
      final.flatten = [97, 98, 97] ∧ ∀ pop, Lawful pop →
        (∃ merged, mergeLoop pairSpm pop (3 * (start pairSpm [97, 98, 97]).symbols.length + 1)
          (start pairSpm [97, 98, 97]) = some merged) ∧
        tokenize pairSpm pop [97, 98, 97] = segmentsTokens pairSpm final) ∧
      tokenize pairSpm popFirst [97, 98, 97] = some [4, 2] :=
  ⟨session_merges pairSpm_numeric (by decide), by decide⟩

end SpmSession

end TextMaster
