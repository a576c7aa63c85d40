import Mathlib.Data.List.DropRight
import TextMaster.LlamaCore

/-!
The vendored SPM tokenizer behind `llama_tokenize`: a session that merges the characters of a text
into tokens, and the fragments, spaces and special tokens around it.
-/

namespace TextMaster

structure TokenData where
  text : List UInt8
  score : Binary32
  normal : Bool
  unknown : Bool
  control : Bool
  userDefined : Bool
  byte : Bool
  lstrip : Bool
  rstrip : Bool
  deriving DecidableEq, Repr

def TokenData.isSpecial (data : TokenData) : Bool :=
  data.control || data.userDefined || data.unknown

/-- `llama_vocab` of type SPM as a loaded model holds it; the loader asserts distinct texts and
replaces empty ones. -/
structure SpmVocab where
  tokens : List TokenData
  specialTokens : List Nat
  bos : Nat
  eos : Nat
  addBos : Bool
  addEos : Bool
  addSpacePrefix : Bool
  distinct : (tokens.map TokenData.text).Nodup
  nonempty : ∀ data ∈ tokens, data.text ≠ []
  special : ∀ id, id ∈ specialTokens ↔ ∃ data, tokens[id]? = some data ∧ data.isSpecial = true
  bosValid : bos < tokens.length
  eosValid : eos < tokens.length

namespace SpmVocab

variable (vocab : SpmVocab)

def textToToken (text : List UInt8) : Option Nat :=
  vocab.tokens.findIdx? fun data => data.text == text

def hexDigit (digit : Nat) : UInt8 := if digit < 10 then 48 + digit.toUInt8 else 55 + digit.toUInt8

def byteName (byte : UInt8) : List UInt8 :=
  [60, 48, 120, hexDigit (byte.toNat / 16), hexDigit (byte.toNat % 16), 62]

/-- `byte_to_token`; `none` stands for the exception that `at` throws. -/
def byteToToken (byte : UInt8) : Option Nat :=
  (vocab.textToToken (byteName byte)).or (vocab.textToToken [byte])

end SpmVocab

def unicodeLenUtf8 (byte : UInt8) : Nat :=
  [1, 1, 1, 1, 1, 1, 1, 1, 1, 1, 1, 1, 2, 2, 3, 4].getD (byte.toNat / 16) 1

/-- `llm_symbol`; `text` is the text from the symbol's start to the end of the whole. -/
structure LlmSymbol where
  prev : Int
  next : Int
  text : List UInt8
  n : Nat
  deriving DecidableEq, Repr

structure Bigram where
  left : Int
  right : Int
  score : Binary32
  size : Nat
  deriving DecidableEq, Repr

/-- The comparator of the queue, whose top is a bigram that is less than no other. -/
def Bigram.less (first second : Bigram) : Bool :=
  second.score.gt first.score || (first.score.eq second.score && second.left < first.left)

structure SpmSession where
  symbols : List LlmSymbol
  workQueue : List Bigram
  revMerge : List (List UInt8 × (Int × Int))
  deriving DecidableEq, Repr

/-- `std::priority_queue` takes out some greatest element; which one is left to the library. -/
abbrev Pop := List Bigram → Option (Bigram × List Bigram)

namespace SpmSession

variable (vocab : SpmVocab)

/-- The characters of a text, a last one that is cut short included. -/
def splitSymbols : Nat → Nat → List UInt8 → List LlmSymbol
  | 0, _, _ => []
  | _ + 1, _, [] => []
  | fuel + 1, index, byte :: rest =>
    let n := min (unicodeLenUtf8 byte) (rest.length + 1)
    let after := (byte :: rest).drop n
    ⟨index - 1, if after = [] then -1 else index + 1, byte :: rest, n⟩ ::
      splitSymbols fuel (index + 1) after

def symbolAt (session : SpmSession) (index : Int) : LlmSymbol :=
  session.symbols.getD index.toNat ⟨-1, -1, [], 0⟩

def tryAddBigram (left right : Int) (session : SpmSession) : SpmSession :=
  if left = -1 ∨ right = -1 then session
  else
    let leftSym := session.symbolAt left
    let text := leftSym.text.take (leftSym.n + (session.symbolAt right).n)
    match vocab.textToToken text with
    | none => session
    | some token =>
      match vocab.tokens[token]? with
      | none => session
      | some data => { session with
          workQueue := session.workQueue ++ [⟨left, right, data.score, text.length⟩]
          revMerge := (text, (left, right)) :: session.revMerge }

def seed (session : SpmSession) : SpmSession :=
  (List.range' 1 (session.symbols.length - 1)).foldl
    (fun session (i : Nat) => tryAddBigram vocab ((i : Int) - 1) i session) session

def start (text : List UInt8) : SpmSession :=
  seed vocab ⟨splitSymbols text.length 0 text, [], []⟩

def merge (bigram : Bigram) (session : SpmSession) : SpmSession :=
  let leftSym := session.symbolAt bigram.left
  let rightSym := session.symbolAt bigram.right
  let joined := (session.symbols.set bigram.left.toNat
      { leftSym with n := leftSym.n + rightSym.n, next := rightSym.next }).set
    bigram.right.toNat { rightSym with n := 0 }
  let linked := if 0 ≤ rightSym.next then
      joined.modify rightSym.next.toNat fun symbol => { symbol with prev := bigram.left }
    else joined
  tryAddBigram vocab bigram.left rightSym.next
    (tryAddBigram vocab leftSym.prev bigram.left { session with symbols := linked })

/-- The main loop; `none` while it still runs when the fuel ends. -/
def mergeLoop (pop : Pop) : Nat → SpmSession → Option SpmSession
  | 0, _ => none
  | fuel + 1, session =>
    match pop session.workQueue with
    | none => some session
    | some (bigram, rest) =>
      let popped := { session with workQueue := rest }
      let leftSym := session.symbolAt bigram.left
      let rightSym := session.symbolAt bigram.right
      -- one of the symbols has been merged since the bigram was added
      if leftSym.n = 0 ∨ rightSym.n = 0 ∨ leftSym.n + rightSym.n ≠ bigram.size then
        mergeLoop pop fuel popped
      else mergeLoop pop fuel (merge vocab bigram popped)

/-- `resegment`; `none` is an exception, or a recursion deeper than the fuel. -/
def resegment (session : SpmSession) : Nat → LlmSymbol → Option (List Nat)
  | 0, _ => none
  | fuel + 1, symbol =>
    let text := symbol.text.take symbol.n
    match vocab.textToToken text with
    | some token => some [token]
    | none =>
      match session.revMerge.lookup text with
      | none => text.mapM vocab.byteToToken
      | some (left, right) => do
        let first ← resegment session fuel (session.symbolAt left)
        let second ← resegment session fuel (session.symbolAt right)
        pure (first ++ second)

def output (session : SpmSession) : Nat → Int → Option (List Nat)
  | 0, _ => none
  | fuel + 1, index =>
    if index = -1 then some []
    else do
      let symbol := session.symbolAt index
      let tokens ← resegment vocab session (session.symbols.length + 1) symbol
      let rest ← output session fuel symbol.next
      pure (tokens ++ rest)

def tokenize (pop : Pop) (text : List UInt8) : Option (List Nat) := do
  let session := start vocab text
  let merged ← mergeLoop vocab pop (3 * session.symbols.length + 1) session
  output vocab merged (merged.symbols.length + 1) 0

end SpmSession

/-- `isspace` of the C locale. -/
def isSpaceByte (byte : UInt8) : Bool := byte == 32 || (9 ≤ byte && byte ≤ 13)

def findText (search : List UInt8) : List UInt8 → Option Nat
  | [] => none
  | byte :: rest =>
    if search.isPrefixOf (byte :: rest) then some 0 else (findText search rest).map (· + 1)

def replaceAll (search replace : List UInt8) : Nat → List UInt8 → List UInt8
  | 0, _ => []
  | _ + 1, [] => []
  | fuel + 1, byte :: rest =>
    if search.isPrefixOf (byte :: rest) then
      replace ++ replaceAll search replace fuel ((byte :: rest).drop search.length)
    else byte :: replaceAll search replace fuel rest

def spaceMark : List UInt8 := [0xe2, 0x96, 0x81]

def llamaEscapeWhitespace (text : List UInt8) : List UInt8 :=
  replaceAll [32] spaceMark text.length text

def llamaUnescapeWhitespace (word : List UInt8) : List UInt8 :=
  replaceAll spaceMark [32] word.length word

inductive Fragment where
  | token (id : Nat)
  | rawText (text : List UInt8)
  deriving DecidableEq, Repr

namespace Fragment

def ofText (text : List UInt8) : List Fragment := if text = [] then [] else [.rawText text]

end Fragment

def hexValue (byte : UInt8) : Option Nat :=
  if 48 ≤ byte && byte ≤ 57 then some (byte.toNat - 48)
  else if 65 ≤ byte && byte ≤ 70 then some (byte.toNat - 55)
  else if 97 ≤ byte && byte ≤ 102 then some (byte.toNat - 87)
  else none

def hexNumber : Nat → List UInt8 → Nat
  | number, [] => number
  | number, byte :: rest =>
    match hexValue byte with
    | none => number
    | some digit => hexNumber (16 * number + digit) rest

/-- `strtol` in base 16 of at most two characters, cast to a byte. -/
def strtolByte (text : List UInt8) : UInt8 :=
  match text.dropWhile isSpaceByte with
  | 45 :: digits => (-(hexNumber 0 digits : Int)).toInt8.toUInt8
  | 43 :: digits => (hexNumber 0 digits).toUInt8
  | digits => (hexNumber 0 digits).toUInt8

namespace TokenData

variable (data : TokenData)

def tokenToByte : UInt8 := strtolByte ((data.text.drop 3).take 2)

def piece : List UInt8 :=
  if data.isSpecial then data.text
  else if data.normal then llamaUnescapeWhitespace data.text
  else if data.byte then [data.tokenToByte]
  else []

def partitionText (id : Nat) : Nat → List UInt8 → List Fragment
  | 0, text => Fragment.ofText text
  | fuel + 1, text =>
    match findText data.text text with
    | none => Fragment.ofText text
    | some found =>
      let left := text.take found
      let right := text.drop (found + data.text.length)
      Fragment.ofText (if data.lstrip then left.rdropWhile isSpaceByte else left) ++
        .token id :: partitionText id fuel (if data.rstrip then right.dropWhile isSpaceByte else right)

def partitionFragment (id : Nat) : Fragment → List Fragment
  | .token other => [.token other]
  | .rawText text => data.partitionText id text.length text

end TokenData

namespace SpmVocab

variable (vocab : SpmVocab)

/-- `tokenizer_st_partition` with the special tokens in the order of their cache. -/
def tokenizerStPartition (parseSpecial : Bool) (buffer : List Fragment) : List Fragment :=
  vocab.specialTokens.foldl (fun buffer id =>
    match vocab.tokens[id]? with
    | none => buffer
    | some data =>
      if !parseSpecial && (data.control || data.unknown) then buffer
      else buffer.flatMap (data.partitionFragment id)) buffer

def fragmentTokens (pop : Pop) : Bool → List Fragment → Option (List Nat)
  | _, [] => some []
  | isPrevSpecial, .rawText text :: rest =>
    let prefixed := if vocab.addSpacePrefix && isPrevSpecial then 32 :: text else text
    (SpmSession.tokenize vocab pop (llamaEscapeWhitespace prefixed)).bind fun tokens =>
      (fragmentTokens pop false rest).map (tokens ++ ·)
  | _, .token id :: rest => (fragmentTokens pop true rest).map (id :: ·)

def tokenize (pop : Pop) (addSpecial parseSpecial : Bool) (text : List UInt8) :
    Option (List Nat) :=
  (vocab.fragmentTokens pop true
    (vocab.tokenizerStPartition parseSpecial (Fragment.ofText text))).map fun tokens =>
      (if addSpecial && vocab.addBos then [vocab.bos] else []) ++ tokens ++
        if addSpecial && vocab.addEos then [vocab.eos] else []

def toVocab (pop : Pop) : Vocab where
  nTokens := vocab.tokens.length
  eos := vocab.eos
  special token := vocab.tokens[token.toNat]?.elim false fun data => data.control || data.unknown
  piece token := vocab.tokens[token.toNat]?.elim [] TokenData.piece
  tokenize text := ((vocab.tokenize pop true false text).getD []).map fun (token : Nat) => (token : Token)

end SpmVocab

end TextMaster
