import Mathlib.Data.Finset.Insert
import TextMaster.LlamaCore

/-!
The key-value cache behind `llama_decode` as the vendored library keeps it: an array of cells, a
head from which a slot for the next tokens is searched, and a batch that is decoded in pieces.
-/

namespace TextMaster

/-- `kv_cell`; `token` is ghost data, the token whose key and value a cell in use holds. -/
structure KvCell where
  pos : Int
  seqId : Finset Int
  token : Token
  deriving DecidableEq

/-- `llama_kv_cache_unified`, without the data of shifts and defragmentation. -/
structure KvCache where
  head : Nat
  size : Nat
  used : Nat
  n : Nat
  cells : List KvCell
  pending : List (Nat × Nat)
  padding : Nat
  deriving DecidableEq

def KvCell.empty : KvCell := ⟨-1, ∅, 0⟩

def KvCell.fill (cell : KvCell) (entry : BatchToken) : KvCell :=
  ⟨entry.pos, insert (entry.seqId : Int) cell.seqId, entry.token⟩

/-- `GGML_PAD`, for a power of two. -/
def pad (value padding : Nat) : Nat := (value + padding - 1) / padding * padding

namespace KvCache

/-- The constructor, together with `set_full` from the constructor of the context. -/
def construct (size padding : Nat) : KvCache :=
  ⟨0, size, 0, size, List.replicate size .empty, [], padding⟩

def cellFree (cells : List KvCell) (index : Nat) : Bool :=
  match cells[index]? with
  | some cell => cell.pos < 0
  | none => false

def firstUsed (cells : List KvCell) (head count : Nat) : Option Nat :=
  (List.range count).find? fun i => !cellFree cells (head + i)

/-- The search loop of `find_slot` from a head on, with the number of cells tested so far; `none`
while it still runs when the fuel ends. -/
def searchSlot (cells : List KvCell) (size count : Nat) : Nat → Nat → Nat → Option (Bool × Nat)
  | 0, _, _ => none
  | fuel + 1, head, tested =>
    if size < head + count then searchSlot cells size count fuel 0 (tested + (size - head))
    else match firstUsed cells head count with
      | none => some (true, head)
      | some i =>
        if size ≤ tested + (i + 1) then some (false, head + (i + 1))
        else searchSlot cells size count fuel (head + (i + 1)) (tested + (i + 1))

def searchFuel (size : Nat) : Nat := 2 * size + 4

def fillCells (cells : List KvCell) : Nat → List BatchToken → List KvCell
  | _, [] => cells
  | index, entry :: rest => fillCells (cells.modify index (·.fill entry)) (index + 1) rest

def cellMax (cells : List KvCell) : Nat → Nat
  | 0 => 0
  | index + 1 =>
    match cells[index]? with
    | some cell => if 0 ≤ cell.pos ∧ cell.seqId ≠ ∅ then index + 1 else cellMax cells index
    | none => cellMax cells index

def findSlot (cache : KvCache) (ubatch : List BatchToken) : Bool × KvCache :=
  let start := if cache.used + 2 * ubatch.length < cache.head then 0 else cache.head
  if cache.size < ubatch.length then (false, { cache with head := start })
  else match searchSlot cache.cells cache.size ubatch.length (searchFuel cache.size) start 0 with
    | none => (false, cache)
    | some (false, head) => (false, { cache with head := head })
    | some (true, head) =>
      let cells := fillCells cache.cells head ubatch
      (true, { cache with
        head := head
        used := cache.used + ubatch.length
        n := min cache.size (max cache.padding (pad (cellMax cells cache.size) cache.padding))
        cells := cells
        pending := cache.pending ++ [(head, head + ubatch.length)] })

def releaseCell (cache : KvCache) (index : Nat) : KvCache :=
  match cache.cells[index]? with
  | none => cache
  | some cell => { cache with
      cells := cache.cells.set index .empty
      used := if 0 ≤ cell.pos then cache.used - 1 else cache.used }

def releaseRange (cache : KvCache) (range : Nat × Nat) : KvCache :=
  (List.range' range.1 (range.2 - range.1)).foldl releaseCell cache

/-- `restore`, which frees what the pending ranges cover and leaves the ranges pending. -/
def restore (cache : KvCache) : KvCache :=
  let released := cache.pending.foldl releaseRange cache
  let newHead := (cache.pending.map Prod.fst).foldl min cache.size
  if newHead ≠ cache.size ∧ newHead < cache.head then { released with head := newHead }
  else released

def commit (cache : KvCache) : KvCache := { cache with pending := [] }

end KvCache

structure SbatchSeq where
  offset : Nat
  length : Nat
  deriving DecidableEq, Repr

/-- `llama_sbatch` of a simple split, where `ids` is the identity. -/
structure Sbatch where
  batch : List BatchToken
  logitsAll : Bool
  nTokens : Nat
  seq : List SbatchSeq
  outIds : List Nat
  deriving DecidableEq, Repr

structure Ubatch where
  entries : List BatchToken
  output : List Bool
  deriving DecidableEq, Repr

namespace Sbatch

def init (batch : List BatchToken) (logitsAll : Bool) : Sbatch :=
  ⟨batch, logitsAll, batch.length, [⟨0, batch.length⟩], []⟩

def addSeqToUbatch (sbatch : Sbatch) (first : SbatchSeq) (rest : List SbatchSeq) (length : Nat) :
    Ubatch × Sbatch :=
  let entries := (sbatch.batch.drop first.offset).take length
  let output := entries.map fun entry => sbatch.logitsAll || entry.logits
  let ids := (List.range' first.offset length).zip output
  (⟨entries, output⟩, { sbatch with
    nTokens := sbatch.nTokens - length
    seq := ⟨first.offset + length, first.length - length⟩ :: rest
    outIds := sbatch.outIds ++ (ids.filter Prod.snd).map Prod.fst })

def splitSimple (sbatch : Sbatch) (nUbatch : Nat) : Ubatch × Sbatch :=
  let nUbatch := if sbatch.nTokens < nUbatch then sbatch.nTokens else nUbatch
  -- `reserve_ubatch` pops the sequences that have been used up
  match (sbatch.seq.reverse.dropWhile fun seq => seq.length == 0).reverse with
  | [] => (⟨[], []⟩, { sbatch with seq := [] })
  | first :: rest =>
    addSeqToUbatch { sbatch with seq := first :: rest } first rest
      (if first.length < nUbatch then first.length else nUbatch)

end Sbatch

inductive ComputeStatus where
  | success
  | aborted
  | allocFailed
  | failed
  deriving DecidableEq, Repr

def ComputeStatus.code : ComputeStatus → Int
  | .success => 0
  | .aborted => 2
  | .allocFailed => -2
  | .failed => -3

/-- What the machine makes of the calls of `llama_decode`, counted from a context's creation:
whether the output buffer can be reserved, and the status of each graph. -/
structure ComputeEnv where
  reserved : Nat → Bool
  status : Nat → Nat → ComputeStatus

structure DecodeParams where
  nTokens : Nat
  nBatch : Nat
  nUbatch : Nat
  logits : List Cell → Nat → Binary32

/-- `llama_context`: the rows of the output buffer stand for the cells each was computed from, and
`none` is a null pointer. -/
structure LlamaContext where
  cache : KvCache
  outputIds : List Int
  rows : Option (List (List Cell))
  decodes : Nat
  deriving DecidableEq

/-- The cells that the mask of `llm_graph_input_attn_kv_unified::set_input` leaves to a token. -/
def KvCache.attended (cache : KvCache) (entry : BatchToken) : List Cell :=
  ((cache.cells.take cache.n).filter fun cell =>
    (entry.seqId : Int) ∈ cell.seqId && cell.pos ≤ (entry.pos : Int)).map
      fun cell => ⟨cell.pos.toNat, cell.token⟩

def Ubatch.rows (ubatch : Ubatch) (cache : KvCache) : List (List Cell) :=
  ((ubatch.entries.zip ubatch.output).filter Prod.snd).map fun entry => cache.attended entry.1

structure Decoding where
  code : Int
  cache : KvCache
  sbatch : Sbatch
  rows : List (List Cell)

def decodeUbatches (nUbatch : Nat) (status : Nat → ComputeStatus) :
    Nat → Nat → Decoding → Decoding
  | 0, _, state => state
  | fuel + 1, index, state =>
    if state.sbatch.nTokens = 0 then state
    else
      let split := state.sbatch.splitSimple nUbatch
      let slot := state.cache.findSlot split.1.entries
      if slot.1 then
        let computed := { state with cache := slot.2, sbatch := split.2 }
        match status index with
        | .success => decodeUbatches nUbatch status fuel (index + 1)
            { computed with rows := state.rows ++ split.1.rows slot.2 }
        | status => { computed with code := status.code }
      else { state with code := 1, cache := slot.2, sbatch := split.2 }

def smallestId (outIds : List Nat) (first : Nat) (rest : List Nat) : Nat :=
  rest.foldl (fun least j => if outIds.getD j 0 < outIds.getD least 0 then j else least) first

def swapAt {Item : Type} (items : List Item) (i j : Nat) : List Item :=
  match items[i]?, items[j]? with
  | some first, some second => (items.set i second).set j first
  | _, _ => items

/-- The selection sort that puts the outputs into the order of the batch. -/
def sortOutputs (outputs : List Nat × List (List Cell)) : List Nat × List (List Cell) :=
  (List.range (outputs.1.length - 1)).foldl (fun sorted i =>
    let j := smallestId sorted.1 i (List.range' (i + 1) (sorted.1.length - (i + 1)))
    if j = i then sorted else (swapAt sorted.1 i j, swapAt sorted.2 i j)) outputs

def mapOutputs (outputIds : List Int) (outIds : List Nat) : List Int :=
  outIds.zipIdx.foldl (fun ids entry => ids.set entry.1 entry.2) outputIds

namespace LlamaContext

def construct (nCtx nBatch padding : Nat) : LlamaContext :=
  ⟨.construct nCtx padding, List.replicate nBatch (-1), some [], 0⟩

/-- `llama_context::decode` from the count of the outputs on. The guard restores the cache on every
way out but the last. -/
def decodeAccepted (params : DecodeParams) (env : ComputeEnv) (context : LlamaContext)
    (batch : List BatchToken) : DecodeResult LlamaContext :=
  let counted := { context with decodes := context.decodes + 1 }
  let nOutputsAll := batch.countP BatchToken.logits
  let reserved := env.reserved context.decodes
  if !reserved && 0 < nOutputsAll then
    .failure (-2) { counted with cache := context.cache.restore, rows := none }
  else
    let cleared := List.replicate params.nBatch (-1)
    let decoded := decodeUbatches params.nUbatch (env.status context.decodes) batch.length 0
      ⟨0, context.cache, .init batch (nOutputsAll == batch.length), []⟩
    let ended := { counted with
      cache := decoded.cache.restore
      outputIds := if reserved then cleared else context.outputIds
      rows := if reserved then some decoded.rows else none }
    if decoded.code ≠ 0 then .failure decoded.code ended
    else if decoded.sbatch.outIds.length ≠ nOutputsAll then .aborted
    else
      let inOrder := decoded.sbatch.outIds = List.range nOutputsAll
      let sorted := sortOutputs (decoded.sbatch.outIds, decoded.rows)
      .success { ended with
        cache := decoded.cache.commit
        outputIds := if inOrder then mapOutputs ended.outputIds decoded.sbatch.outIds
          else mapOutputs (ended.outputIds.map fun _ => -1) sorted.1
        rows := if inOrder then ended.rows else ended.rows.map fun _ => sorted.2 }

def decode (params : DecodeParams) (env : ComputeEnv) (context : LlamaContext)
    (batch : List BatchToken) : DecodeResult LlamaContext :=
  let counted := { context with decodes := context.decodes + 1 }
  if batch = [] then .failure (-1) counted
  else if batch.any (fun entry => !validToken params.nTokens entry.token) then
    .threw "invalid token".toList { counted with cache := context.cache.restore }
  else if params.nBatch < batch.length then .aborted
  else decodeAccepted params env context batch

def getLogitsIth (params : DecodeParams) (context : LlamaContext) (index : Nat) :
    Option (Nat → Binary32) :=
  match context.rows, context.outputIds[index]? with
  | some rows, some (.ofNat row) => rows[row]?.map params.logits
  | _, _ => none

def llama (params : DecodeParams) (env : ComputeEnv) : Llama LlamaContext where
  decode := decode params env
  getLogitsIth := getLogitsIth params

end LlamaContext

end TextMaster
