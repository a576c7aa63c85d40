import TextMaster.LazyMerge
import TextMaster.SpmTokenizerCore

/-!
A session of the SPM tokenizer merges greedily: its linked symbols are a row of segments, its queue
holds a candidate for every two neighbours that form a token, and what comes out does not depend on
how the queue breaks ties.
-/

namespace TextMaster

open GreedyMerge LazyMerge

/-- The order in which texts are merged: by the score of the token they form. -/
def SpmVocab.score (vocab : SpmVocab) (text : List UInt8) : Option Int :=
  (vocab.textToToken text).bind fun token => vocab.tokens[token]?.map fun data => data.score.key

/-- No score is a NaN, so that the comparator of the queue orders them. -/
def SpmVocab.Numeric (vocab : SpmVocab) : Prop :=
  ∀ data ∈ vocab.tokens, data.score.isNaN = false

def Bigram.candidate (bigram : Bigram) : Candidate Int :=
  ⟨bigram.left.toNat, bigram.right.toNat, bigram.score.key, bigram.size⟩

def Bigram.Proper (bigram : Bigram) : Prop :=
  0 ≤ bigram.left ∧ 0 ≤ bigram.right ∧ bigram.score.isNaN = false

/-- What `std::priority_queue` promises of its top where no score is a NaN. -/
structure Lawful (pop : Pop) : Prop where
  empty : pop [] = none
  answers : ∀ queue, queue ≠ [] → ∃ bigram rest, pop queue = some (bigram, rest)
  taken : ∀ queue bigram rest, pop queue = some (bigram, rest) → queue.Perm (bigram :: rest)
  top : ∀ queue bigram rest, (∀ other ∈ queue, other.Proper) → pop queue = some (bigram, rest) →
    ∀ other ∈ rest, bigram.less other = false

namespace SpmSession

def spelled (chain : Chain UInt8) : List UInt8 := (chain.map Prod.snd).flatten

def lastPlace (before : Chain UInt8) : Int := before.getLast?.elim (-1) fun entry => entry.1

def headPlace (after : Chain UInt8) : Int := after.head?.elim (-1) fun entry => entry.1

/-- The linked symbols spell the segments of the chain, and every other symbol is empty. -/
structure Represents (symbols : List LlmSymbol) (chain : Chain UInt8) : Prop where
  live : ∀ {before entry after}, chain = before ++ entry :: after →
    symbols[entry.1]? = some ⟨lastPlace before, headPlace after, entry.2 ++ spelled after,
      entry.2.length⟩
  dead : ∀ place symbol, symbols[place]? = some symbol → place ∉ chain.map Prod.fst →
    symbol.n = 0

variable {session : SpmSession} {chain before after : Chain UInt8} {entry left right : Nat × List UInt8}
  {place : Nat} {vocab : SpmVocab}

theorem symbolAt_of_getElem? {symbol : LlmSymbol} (here : session.symbols[place]? = some symbol) :
    session.symbolAt place = symbol := by
  rw [symbolAt, Int.toNat_natCast, List.getD_eq_getElem?_getD, here]
  rfl

theorem n_symbolAt (represents : Represents session.symbols chain)
    (ascending : (chain.map Prod.fst).Pairwise (· < ·)) (place : Nat) :
    (session.symbolAt place).n = width chain place := by
  by_cases present : place ∈ chain.map Prod.fst
  · obtain ⟨entry, member, rfl⟩ := List.mem_map.mp present
    obtain ⟨before, after, split⟩ := List.append_of_mem member
    rw [symbolAt_of_getElem? (represents.live split), width_of_mem ascending member]
  · rw [width_of_absent present]
    cases here : session.symbols[place]? with
    | none =>
        rw [symbolAt, Int.toNat_natCast, List.getD_eq_getElem?_getD, here]
        rfl
    | some symbol =>
        rw [symbolAt_of_getElem? here]
        exact represents.dead place symbol here present

theorem less_candidate {first second : Bigram} (firstProper : first.Proper)
    (secondProper : second.Proper) :
    first.less second = true ↔ first.candidate.Less second.candidate := by
  obtain ⟨firstLeft, _, firstNumber⟩ := firstProper
  obtain ⟨secondLeft, _, secondNumber⟩ := secondProper
  simp only [Bigram.less, Bool.or_eq_true, Bool.and_eq_true, Binary32.gt_iff, Binary32.eq,
    firstNumber, secondNumber, decide_eq_true_eq, Candidate.Less, Bigram.candidate]
  simp only [Bool.not_false, true_and]
  have places : second.left.toNat < first.left.toNat ↔ second.left < first.left := by omega
  rw [places]

section TryAdd

theorem score_eq_some {text : List UInt8} {value : Int} :
    vocab.score text = some value ↔ ∃ token data, vocab.textToToken text = some token ∧
      vocab.tokens[token]? = some data ∧ data.score.key = value := by
  simp only [SpmVocab.score, Option.bind_eq_some_iff, Option.map_eq_some_iff]
  constructor
  · rintro ⟨token, found, data, there, same⟩
    exact ⟨token, data, found, there, same⟩
  · rintro ⟨token, data, found, there, same⟩
    exact ⟨token, found, data, there, same⟩

structure Added (vocab : SpmVocab) (session added : SpmSession) (candidates : List (Candidate Int)) :
    Prop where
  symbols : added.symbols = session.symbols
  queue : added.workQueue.map Bigram.candidate =
    session.workQueue.map Bigram.candidate ++ candidates
  proper : (∀ bigram ∈ session.workQueue, bigram.Proper) →
    ∀ bigram ∈ added.workQueue, bigram.Proper
  known : (∀ entry ∈ session.revMerge, (vocab.textToToken entry.1).isSome = true) →
    ∀ entry ∈ added.revMerge, (vocab.textToToken entry.1).isSome = true

theorem Added.none (vocab : SpmVocab) (session : SpmSession) : Added vocab session session [] :=
  ⟨rfl, (List.append_nil _).symm, id, id⟩

theorem Added.trans {added last : SpmSession} {early late : List (Candidate Int)}
    (begun : Added vocab session added early) (ended : Added vocab added last late) :
    Added vocab session last (early ++ late) :=
  ⟨ended.symbols.trans begun.symbols, by rw [ended.queue, begun.queue, List.append_assoc],
    fun proper => ended.proper (begun.proper proper), fun known => ended.known (begun.known known)⟩

theorem tryAddBigram_neighbours (represents : Represents session.symbols chain)
    (split : chain = before ++ left :: right :: after) (numeric : vocab.Numeric) :
    Added vocab session (tryAddBigram vocab left.1 right.1 session)
      (offer vocab.score left right) := by
  have leftSym := symbolAt_of_getElem? (represents.live split)
  have rightSplit : chain = (before ++ [left]) ++ right :: after := by simp [split]
  have rightSym := symbolAt_of_getElem? (represents.live rightSplit)
  have noneLeft : ¬ ((left.1 : Int) = -1 ∨ (right.1 : Int) = -1) := by omega
  have text : (left.2 ++ spelled (right :: after)).take (left.2.length + right.2.length) =
      left.2 ++ right.2 := by
    rw [spelled, List.map_cons, List.flatten_cons, ← List.append_assoc,
      List.take_left' (by simp)]
  simp only [tryAddBigram, if_neg noneLeft, leftSym, rightSym, text]
  cases found : vocab.textToToken (left.2 ++ right.2) with
  | none =>
      have unscored : offer vocab.score left right = [] := by
        simp [offer, SpmVocab.score, found]
      rw [unscored]
      exact Added.none vocab session
  | some token =>
      simp only
      cases there : vocab.tokens[token]? with
      | none =>
          have unscored : offer vocab.score left right = [] := by
            simp [offer, SpmVocab.score, found, there]
          rw [unscored]
          exact Added.none vocab session
      | some data =>
          have scored : offer vocab.score left right =
              [⟨left.1, right.1, data.score.key, left.2.length + right.2.length⟩] := by
            simp [offer, SpmVocab.score, found, there]
          refine ⟨rfl, ?_, ?_, ?_⟩
          · simp [scored, Bigram.candidate]
          · intro proper bigram member
            rcases List.mem_append.mp member with old | new
            · exact proper bigram old
            · rw [List.mem_singleton] at new
              subst new
              exact ⟨Int.natCast_nonneg _, Int.natCast_nonneg _,
                numeric data (List.mem_of_getElem? there)⟩
          · intro known entry member
            rcases List.mem_cons.mp member with rfl | old
            · simp [found]
            · exact known entry old

theorem tryAddBigram_before (represents : Represents session.symbols chain)
    (split : chain = before ++ entry :: after) (numeric : vocab.Numeric) :
    Added vocab session (tryAddBigram vocab (lastPlace before) entry.1 session)
      (before.getLast?.elim [] fun left => offer vocab.score left entry) := by
  rcases List.eq_nil_or_concat before with rfl | ⟨earlier, last, rfl⟩
  · exact Added.none vocab session
  · rw [List.concat_eq_append] at split ⊢
    have nextTo : chain = earlier ++ last :: entry :: after := by simpa using split
    simpa [lastPlace] using tryAddBigram_neighbours represents nextTo numeric

theorem tryAddBigram_after (represents : Represents session.symbols chain)
    (split : chain = before ++ entry :: after) (numeric : vocab.Numeric) :
    Added vocab session (tryAddBigram vocab entry.1 (headPlace after) session)
      (after.head?.elim [] fun right => offer vocab.score entry right) := by
  cases after with
  | nil => simpa [headPlace, tryAddBigram] using Added.none vocab session
  | cons next later => exact tryAddBigram_neighbours represents split numeric

end TryAdd

section Merge

def relinked (symbols : List LlmSymbol) (left right : Nat) (leftSym rightSym : LlmSymbol) :
    List LlmSymbol :=
  let joined := (symbols.set left
    { leftSym with n := leftSym.n + rightSym.n, next := rightSym.next }).set right
      { rightSym with n := 0 }
  if 0 ≤ rightSym.next then
    joined.modify rightSym.next.toNat fun symbol => { symbol with prev := (left : Int) }
  else joined

theorem merge_eq (vocab : SpmVocab) {bigram : Bigram} {leftSym rightSym : LlmSymbol}
    (leftPlace : bigram.left = left.1) (rightPlace : bigram.right = right.1)
    (leftHere : session.symbolAt left.1 = leftSym)
    (rightHere : session.symbolAt right.1 = rightSym) :
    merge vocab bigram session =
      tryAddBigram vocab left.1 rightSym.next
        (tryAddBigram vocab leftSym.prev left.1
          ⟨relinked session.symbols left.1 right.1 leftSym rightSym, session.workQueue,
            session.revMerge⟩) := by
  simp only [merge, relinked, leftPlace, rightPlace, leftHere, rightHere, Int.toNat_natCast]

theorem getElem?_relinked {symbols : List LlmSymbol} {leftSym rightSym : LlmSymbol} {l r : Nat}
    (apart : l ≠ r) :
    (relinked symbols l r leftSym rightSym)[place]? =
      (if place = l then symbols[place]?.map fun _ =>
          { leftSym with n := leftSym.n + rightSym.n, next := rightSym.next }
        else if place = r then symbols[place]?.map fun _ => { rightSym with n := 0 }
        else symbols[place]?).map fun symbol =>
          if rightSym.next = place then { symbol with prev := (l : Int) } else symbol := by
  have sets : ((symbols.set l
      { leftSym with n := leftSym.n + rightSym.n, next := rightSym.next }).set r
        { rightSym with n := 0 })[place]? =
      if place = l then symbols[place]?.map fun _ =>
          { leftSym with n := leftSym.n + rightSym.n, next := rightSym.next }
        else if place = r then symbols[place]?.map fun _ => { rightSym with n := 0 }
        else symbols[place]? := by
    rw [List.getElem?_set', List.getElem?_set']
    by_cases atLeft : place = l
    · subst atLeft
      simp only [if_true, if_neg apart.symm]
      rfl
    · by_cases atRight : place = r
      · subst atRight
        simp only [if_neg apart, if_true, if_neg atLeft]
        rfl
      · simp [atLeft, atRight, Ne.symm atLeft, Ne.symm atRight]
  unfold relinked
  rw [← sets]
  by_cases linked : 0 ≤ rightSym.next
  · simp only [if_pos linked, List.getElem?_modify]
    have same : rightSym.next.toNat = place ↔ rightSym.next = place := by omega
    simp only [same, Option.map_eq_map]
  · have other : rightSym.next ≠ place := by omega
    simp only [if_neg linked, if_neg other, Option.map_id']

theorem headPlace_ne (other : ∀ entry ∈ after, entry.1 ≠ place) : headPlace after ≠ place := by
  cases after with
  | nil => simp [headPlace]
  | cons head tail =>
      have apart := other head List.mem_cons_self
      simp only [headPlace, List.head?_cons, Option.elim_some, ne_eq]
      omega

theorem dead_relinked (represents : Represents session.symbols (before ++ left :: right :: after))
    (apart : left.1 ≠ right.1) {leftSym rightSym symbol : LlmSymbol}
    (here : (relinked session.symbols left.1 right.1 leftSym rightSym)[place]? = some symbol)
    (absent : place ∉ (joined before left right after).map Prod.fst) : symbol.n = 0 := by
  rw [getElem?_relinked apart, Option.map_eq_some_iff] at here
  obtain ⟨former, found, rfl⟩ := here
  have unlinked : (if rightSym.next = (place : Int) then
      { former with prev := (left.1 : Int) } else former).n = former.n := by
    split <;> rfl
  simp only [unlinked]
  have atLeft : place ≠ left.1 := by
    rintro rfl
    exact absent (by simp [joined])
  rw [if_neg atLeft] at found
  by_cases atRight : place = right.1
  · rw [if_pos atRight, Option.map_eq_some_iff] at found
    obtain ⟨_, _, rfl⟩ := found
    rfl
  · rw [if_neg atRight] at found
    apply represents.dead place former found
    intro present
    simp only [List.map_append, List.map_cons, List.mem_append, List.mem_cons] at present
    rcases present with early | same | same | late
    · exact absent (by simp [joined, early])
    · exact atLeft same
    · exact atRight same
    · exact absent (by simp [joined, late])

theorem represents_relinked (represents : Represents session.symbols chain)
    (ascending : (chain.map Prod.fst).Pairwise (· < ·))
    (split : chain = before ++ left :: right :: after) :
    Represents (relinked session.symbols left.1 right.1 (session.symbolAt left.1)
      (session.symbolAt right.1)) (joined before left right after) := by
  subst split
  have rightSplit : before ++ left :: right :: after = (before ++ [left]) ++ right :: after := by simp
  have leftSym := symbolAt_of_getElem? (represents.live rfl)
  have rightSym := symbolAt_of_getElem? (represents.live rightSplit)
  have rightAscending := ascending
  rw [rightSplit] at rightAscending
  obtain ⟨before_lt, lt_after⟩ := place_of_split ascending
  obtain ⟨_, right_lt⟩ := place_of_split rightAscending
  have apart := lt_after right List.mem_cons_self
  have apart : left.1 ≠ right.1 := Nat.ne_of_lt apart
  rw [leftSym, rightSym]
  constructor
  · intro earlier entry later same
    rw [getElem?_relinked apart]
    rcases one_split same with ⟨between, rfl, rfl⟩ | ⟨rfl, rfl, rfl⟩ | ⟨between, rfl, rfl⟩
    · have less := before_lt entry (by simp)
      have rightLess := lt_after right List.mem_cons_self
      have notNext : headPlace after ≠ entry.1 := headPlace_ne fun other member => by
        have := lt_after other (List.mem_cons_of_mem _ member)
        omega
      have whole : (earlier ++ entry :: between) ++ left :: right :: after =
          earlier ++ entry :: (between ++ left :: right :: after) := by simp
      rw [if_neg (by omega), if_neg (by omega), represents.live whole]
      simp only [Option.map_some, if_neg notNext]
      cases between with
      | nil => simp [headPlace, spelled]
      | cons head tail => simp [headPlace, spelled]
    · have notNext : headPlace after ≠ (left.1 : Int) := headPlace_ne fun other member => by
        have := lt_after other (List.mem_cons_of_mem _ member)
        omega
      simp only [if_pos, represents.live rfl, Option.map_some, if_neg notNext]
      simp [spelled]
    · have whole : before ++ left :: right :: (between ++ entry :: later) =
          (before ++ left :: right :: between) ++ entry :: later := by simp
      have rightLess := right_lt entry (by simp)
      have leftLess := lt_after entry (by simp)
      rw [if_neg (by omega), if_neg (by omega), represents.live whole]
      cases between with
      | nil => simp [headPlace, lastPlace]
      | cons head tail =>
          have headLess : head.1 < entry.1 := by
            have tailSplit : before ++ left :: right :: (head :: tail ++ entry :: later) =
                (before ++ left :: right :: (head :: tail)) ++ entry :: later := by simp
            rw [tailSplit] at ascending
            exact (place_of_split ascending).1 head (by simp)
          have notNext : headPlace (head :: tail ++ entry :: later) ≠ (entry.1 : Int) := by
            simp [headPlace]
            omega
          simp only [Option.map_some, if_neg notNext]
          simp [lastPlace]
  · intro place symbol here absent
    exact dead_relinked represents apart here absent

structure Tracks (vocab : SpmVocab) (session : SpmSession) (chain : Chain UInt8) : Prop where
  represents : Represents session.symbols chain
  covered : Covered vocab.score chain (session.workQueue.map Bigram.candidate)
  proper : ∀ bigram ∈ session.workQueue, bigram.Proper
  known : ∀ entry ∈ session.revMerge, (vocab.textToToken entry.1).isSome = true
  short : chain.length ≤ session.symbols.length

theorem length_relinked (symbols : List LlmSymbol) (l r : Nat) (leftSym rightSym : LlmSymbol) :
    (relinked symbols l r leftSym rightSym).length = symbols.length := by
  unfold relinked
  split
  · simp
  · simp

theorem merge_added {bigram : Bigram} {rest : List Bigram} (tracks : Tracks vocab session chain)
    (numeric : vocab.Numeric) (taken : session.workQueue.Perm (bigram :: rest))
    (pair : Pair vocab.score chain before left right after bigram.candidate) :
    ∃ linked, linked.length = session.symbols.length ∧
      Represents linked (joined before left right after) ∧
      Added vocab ⟨linked, rest, session.revMerge⟩
        (SpmSession.merge vocab bigram { session with workQueue := rest })
        (offers vocab.score before (left.1, left.2 ++ right.2) after) := by
  have proper : bigram.Proper := tracks.proper bigram (taken.mem_iff.mpr List.mem_cons_self)
  have leftPlace : bigram.left = left.1 := by
    have same : bigram.left.toNat = left.1 := pair.leftPlace
    have nonneg := proper.1
    omega
  have rightPlace : bigram.right = right.1 := by
    have same : bigram.right.toNat = right.1 := pair.rightPlace
    have nonneg := proper.2.1
    omega
  have split := pair.split
  have rightSplit : chain = (before ++ [left]) ++ right :: after := by simp [split]
  have leftSym := symbolAt_of_getElem? (tracks.represents.live split)
  have rightSym := symbolAt_of_getElem? (tracks.represents.live rightSplit)
  have relinks := represents_relinked tracks.represents tracks.covered.ascending split
  have sameLeft : SpmSession.symbolAt { session with workQueue := rest } left.1 =
      ⟨lastPlace before, headPlace (right :: after), left.2 ++ spelled (right :: after),
        left.2.length⟩ := leftSym
  have sameRight : SpmSession.symbolAt { session with workQueue := rest } right.1 =
      ⟨lastPlace (before ++ [left]), headPlace after, right.2 ++ spelled after,
        right.2.length⟩ := rightSym
  have merged := merge_eq vocab leftPlace rightPlace sameLeft sameRight
  rw [leftSym, rightSym] at relinks
  have sameLength := length_relinked session.symbols left.1 right.1
    ⟨lastPlace before, headPlace (right :: after), left.2 ++ spelled (right :: after),
      left.2.length⟩
    ⟨lastPlace (before ++ [left]), headPlace after, right.2 ++ spelled after, right.2.length⟩
  generalize relinked session.symbols left.1 right.1 _ _ = linked at merged relinks sameLength
  refine ⟨linked, sameLength, relinks, ?_⟩
  have begun : Added vocab ⟨linked, rest, session.revMerge⟩ _ _ :=
    tryAddBigram_before relinks rfl numeric
  have still : Represents (tryAddBigram vocab (lastPlace before) left.1
      ⟨linked, rest, session.revMerge⟩).symbols (joined before left right after) := by
    rw [begun.symbols]
    exact relinks
  have added := begun.trans (tryAddBigram_after still rfl numeric)
  rwa [← merged] at added

theorem Tracks.merge {bigram : Bigram} {rest : List Bigram} (tracks : Tracks vocab session chain)
    (numeric : vocab.Numeric) (taken : session.workQueue.Perm (bigram :: rest))
    (pair : Pair vocab.score chain before left right after bigram.candidate) :
    Tracks vocab (SpmSession.merge vocab bigram { session with workQueue := rest })
      (joined before left right after) := by
  obtain ⟨linked, sameLength, relinks, added⟩ := merge_added tracks numeric taken pair
  constructor
  · rw [added.symbols]
    exact relinks
  · rw [added.queue]
    exact tracks.covered.merge (taken.map Bigram.candidate) pair
  · exact added.proper fun other member =>
      tracks.proper other (taken.mem_iff.mpr (List.mem_cons_of_mem _ member))
  · exact added.known tracks.known
  · have short := tracks.short
    rw [added.symbols, sameLength, joined]
    rw [pair.split] at short
    simp only [List.length_append, List.length_cons] at short ⊢
    omega

end Merge

section Loop

variable {pop : Pop}

theorem Tracks.skip {bigram : Bigram} {rest : List Bigram} (tracks : Tracks vocab session chain)
    (taken : session.workQueue.Perm (bigram :: rest))
    (overtaken : ¬ UpToDate chain bigram.candidate) :
    Tracks vocab { session with workQueue := rest } chain :=
  ⟨tracks.represents, tracks.covered.skip (taken.map Bigram.candidate) overtaken,
    fun other member => tracks.proper other (taken.mem_iff.mpr (List.mem_cons_of_mem _ member)),
    tracks.known, tracks.short⟩

theorem upToDate_iff {bigram : Bigram} (tracks : Tracks vocab session chain)
    (proper : bigram.Proper) :
    ¬ ((session.symbolAt bigram.left).n = 0 ∨ (session.symbolAt bigram.right).n = 0 ∨
        (session.symbolAt bigram.left).n + (session.symbolAt bigram.right).n ≠ bigram.size) ↔
      UpToDate chain bigram.candidate := by
  obtain ⟨left, leftNonneg⟩ := Int.eq_ofNat_of_zero_le proper.1
  obtain ⟨right, rightNonneg⟩ := Int.eq_ofNat_of_zero_le proper.2.1
  have ascending := tracks.covered.ascending
  unfold UpToDate Bigram.candidate
  simp only [leftNonneg, rightNonneg, n_symbolAt tracks.represents ascending, Int.toNat_natCast,
    not_or, ne_eq, not_not]

theorem exhausted_of_empty (tracks : Tracks vocab session chain) (empty : session.workQueue = []) :
    Exhausted vocab.score (chain.map Prod.snd) := by
  rintro earlier first second later value ⟨split, scored⟩
  obtain ⟨start, middle, rfl, rfl, fromLeft⟩ := List.map_eq_append_iff.mp split
  obtain ⟨left, others, rfl, rfl, fromRight⟩ := List.map_eq_cons_iff.mp fromLeft
  obtain ⟨right, tail, rfl, rfl, rfl⟩ := List.map_eq_cons_iff.mp fromRight
  have found : Pair vocab.score (start ++ left :: right :: tail) start left right tail
      ⟨left.1, right.1, value, left.2.length + right.2.length⟩ := ⟨rfl, rfl, rfl, rfl, scored⟩
  have member := tracks.covered.complete found
  rw [empty] at member
  simp at member

theorem length_offer_le (score : List UInt8 → Option Int) (left right : Nat × List UInt8) :
    (offer score left right).length ≤ 1 := by
  unfold offer
  split
  · exact Nat.zero_le 1
  · exact Nat.le_refl 1

theorem length_offers_le (score : List UInt8 → Option Int) (before after : Chain UInt8)
    (entry : Nat × List UInt8) : (offers score before entry after).length ≤ 2 := by
  have fromLeft : (before.getLast?.elim [] fun left => offer score left entry).length ≤ 1 := by
    cases before.getLast? with
    | none => exact Nat.zero_le 1
    | some left => exact length_offer_le score left entry
  have fromRight : (after.head?.elim [] fun right => offer score entry right).length ≤ 1 := by
    cases after.head? with
    | none => exact Nat.zero_le 1
    | some right => exact length_offer_le score entry right
  rw [offers, List.length_append]
  omega

theorem merge_queue_length {bigram : Bigram} {rest : List Bigram}
    (tracks : Tracks vocab session chain) (numeric : vocab.Numeric)
    (taken : session.workQueue.Perm (bigram :: rest))
    (pair : Pair vocab.score chain before left right after bigram.candidate) :
    (SpmSession.merge vocab bigram { session with workQueue := rest }).workQueue.length ≤
      rest.length + 2 := by
  obtain ⟨_, _, _, added⟩ := merge_added tracks numeric taken pair
  have lengths := congrArg List.length added.queue
  have few := length_offers_le vocab.score before after (left.1, left.2 ++ right.2)
  simp only [List.length_map, List.length_append] at lengths
  omega

/-- The loop ends, with an empty queue and the segments merged greedily. -/
theorem mergeLoop_ends (numeric : vocab.Numeric) (lawful : Lawful pop) {fuel : Nat}
    (tracks : Tracks vocab session chain)
    (enough : session.workQueue.length + 2 * chain.length < fuel) :
    ∃ merged final, mergeLoop vocab pop fuel session = some merged ∧ Tracks vocab merged final ∧
      Merges vocab.score (chain.map Prod.snd) (final.map Prod.snd) ∧
      headPlace final = headPlace chain := by
  induction fuel generalizing session chain with
  | zero => omega
  | succ fuel ih =>
      rw [mergeLoop]
      cases popped : pop session.workQueue with
      | none =>
          have empty : session.workQueue = [] := by
            by_contra nonempty
            obtain ⟨bigram, rest, answered⟩ := lawful.answers _ nonempty
            rw [popped] at answered
            contradiction
          exact ⟨session, chain, rfl, tracks, .done _ (exhausted_of_empty tracks empty), rfl⟩
      | some result =>
          obtain ⟨bigram, rest⟩ := result
          have taken := lawful.taken _ _ _ popped
          have shorter := taken.length_eq
          rw [List.length_cons] at shorter
          have proper := tracks.proper bigram (taken.mem_iff.mpr List.mem_cons_self)
          have fresh := upToDate_iff tracks proper
          simp only
          by_cases overtaken : (session.symbolAt bigram.left).n = 0 ∨
              (session.symbolAt bigram.right).n = 0 ∨
              (session.symbolAt bigram.left).n + (session.symbolAt bigram.right).n ≠ bigram.size
          · rw [if_pos overtaken]
            have skipped := tracks.skip taken fun upToDate => (fresh.mpr upToDate) overtaken
            exact ih skipped (by simp only; omega)
          · rw [if_neg overtaken]
            have upToDate := fresh.mp overtaken
            have member : bigram.candidate ∈ session.workQueue.map Bigram.candidate :=
              List.mem_map_of_mem (taken.mem_iff.mpr List.mem_cons_self)
            obtain ⟨before, left, right, after, pair⟩ :=
              tracks.covered.current_of_upToDate member upToDate
            have top : ∀ other ∈ rest.map Bigram.candidate, ¬ bigram.candidate.Less other := by
              intro other inside less
              obtain ⟨rival, rivalIn, rfl⟩ := List.mem_map.mp inside
              have rivalProper :=
                tracks.proper rival (taken.mem_iff.mpr (List.mem_cons_of_mem _ rivalIn))
              have above := (less_candidate proper rivalProper).mpr less
              rw [lawful.top _ _ _ tracks.proper popped rival rivalIn] at above
              contradiction
            have best := tracks.covered.best (taken.map Bigram.candidate) top pair
            have merged := tracks.merge numeric taken pair
            have queue := merge_queue_length tracks numeric taken pair
            have lengths := congrArg List.length pair.split
            have joinedLength : (joined before left right after).length + 1 = chain.length := by
              rw [lengths, joined]
              simp only [List.length_append, List.length_cons]
              omega
            obtain ⟨last, final, ends, lastTracks, merges, head⟩ := ih merged (by omega)
            refine ⟨last, final, ends, lastTracks, ?_, ?_⟩
            · refine .step _ _ _ _ _ _ _ best ?_
              simpa [joined] using merges
            · rw [head, pair.split, joined]
              cases before <;> rfl

end Loop

end SpmSession

end TextMaster
