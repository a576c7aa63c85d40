import TextMaster.Binary32
import TextMaster.Text

/-!
The interface of the vendored llama.cpp that `LLMProcessor` calls. `Llama` leaves every
outcome of a decode open; `KvModel` is the cell-based decoder behind it.
-/

namespace TextMaster

abbrev Token := Int

/-- `llama_vocab`, with the cached piece of each token and whether the token carries one of
the attributes UNKNOWN and CONTROL. `tokenize` adds the special tokens and parses none. -/
structure Vocab where
  nTokens : Nat
  eos : Token
  special : Token → Bool
  piece : Token → List UInt8
  tokenize : List UInt8 → List Token

/-- `llama_vocab::tokenize`: minus the needed count when the buffer is too small. -/
def llamaTokenize (vocab : Vocab) (text : List UInt8) (nTokensMax : Nat) : Int × List Token :=
  let res := vocab.tokenize text
  if nTokensMax < res.length then (-(res.length : Int), []) else (res.length, res)

/-- `llama_vocab::impl::token_to_piece` with `lstrip = 0` and `special = false`: the returned
length and the bytes written to the buffer. -/
def llamaTokenToPiece (vocab : Vocab) (token : Token) (length : Nat) : Int × List UInt8 :=
  if vocab.special token then (0, [])
  else if length < (vocab.piece token).length then (-((vocab.piece token).length : Int), [])
  else ((vocab.piece token).length, vocab.piece token)

structure BatchToken where
  token : Token
  pos : Nat
  seqId : Nat
  logits : Bool
  deriving DecidableEq, Repr

/-- What a call of `llama_decode` does: it returns zero, returns an error code, throws, or
ends the process in a `GGML_ASSERT`. -/
inductive DecodeResult (Context : Type) where
  | success (context : Context)
  | failure (code : Int) (context : Context)
  | threw (what : QString) (context : Context)
  | aborted

structure Llama (Context : Type) where
  decode : Context → List BatchToken → DecodeResult Context
  getLogitsIth : Context → Nat → Option (Nat → Binary32)

inductive BatchCall where
  | init (batch : Nat)
  | decode (batch : Nat)
  | free (batch : Nat)
  deriving DecidableEq, Repr

structure Cell where
  pos : Nat
  token : Token
  deriving DecidableEq, Repr

/-- `outputs` holds, for each token of the last decoded batch that requested logits, the cells
its logits depend on, and nothing where this batch could not be decoded; `decodes` counts the
calls. -/
structure KvContext where
  cells : List Cell
  outputs : List (Option (List Cell))
  decodes : Nat
  deriving DecidableEq

structure KvModel where
  nTokens : Nat
  nCtx : Nat
  nBatch : Nat
  logits : List Cell → Nat → Binary32

def KvContext.withCells (cells : List Cell) : KvContext := ⟨cells, [], 0⟩

def visible (cells : List Cell) (pos : Nat) : List Cell :=
  cells.filter fun cell => cell.pos ≤ pos

def BatchToken.cell (entry : BatchToken) : Cell := ⟨entry.pos, entry.token⟩

def validToken (nTokens : Nat) (token : Token) : Bool := 0 ≤ token && token < nTokens

/-- `llama_context::decode`. The checks stand in the order of the source; `faults` is the
schedule of the calls that fail for a reason other than a full cache. -/
def KvModel.decode (model : KvModel) (faults : Nat → Bool) (context : KvContext)
    (batch : List BatchToken) : DecodeResult KvContext :=
  let counted := { context with decodes := context.decodes + 1 }
  if batch = [] then .failure (-1) counted
  else if batch.any (fun entry => !validToken model.nTokens entry.token) then
    .threw "invalid token".toList counted
  else if model.nBatch < batch.length then .aborted
  else if model.nCtx < context.cells.length + batch.length || faults context.decodes then
    .failure 1 { counted with outputs := [] }
  else
    let cells := context.cells ++ batch.map BatchToken.cell
    .success {
      cells := cells
      outputs := batch.map fun entry =>
        if entry.logits then some (visible cells entry.pos) else none
      decodes := context.decodes + 1
    }

def KvModel.llama (model : KvModel) (faults : Nat → Bool) : Llama KvContext where
  decode := model.decode faults
  getLogitsIth context index := (context.outputs[index]?).join.map model.logits

end TextMaster
