import TextMaster.KvCacheLayout

/-!
The loop of `llama_decode` over the pieces of a batch. It takes the batch apart without loss, puts
each piece behind the last, and either decodes them all or leaves the cells as they were.
-/

namespace TextMaster

def wanted (batch : List BatchToken) (offset : Nat) : List (BatchToken × Nat) :=
  (batch.zipIdx offset).filter fun entry => entry.1.logits

namespace Sbatch

def after (batch : List BatchToken) (logitsAll : Bool) (done : Nat) : Sbatch :=
  ⟨batch, logitsAll, batch.length - done, [⟨done, batch.length - done⟩],
    (wanted (batch.take done) 0).map Prod.snd⟩

theorem wanted_append (first second : List BatchToken) (offset : Nat) :
    wanted (first ++ second) offset =
      wanted first offset ++ wanted second (offset + first.length) := by
  simp [wanted, List.zipIdx_append, List.filter_append]

theorem selected_eq (entries : List BatchToken) (offset : Nat) :
    (((List.range' offset entries.length).zip (entries.map BatchToken.logits)).filter
      Prod.snd).map Prod.fst = (wanted entries offset).map Prod.snd := by
  induction entries generalizing offset with
  | nil => rfl
  | cons entry rest ih =>
      have later := ih (offset + 1)
      cases wants : entry.logits with
      | true => simpa [wanted, List.range'_succ, wants] using later
      | false => simpa [wanted, List.range'_succ, wants] using later

theorem addSeqToUbatch_eq {batch : List BatchToken} {logitsAll : Bool} {done length : Nat}
    (every : logitsAll = true → ∀ entry ∈ batch, entry.logits = true)
    (within : done + length ≤ batch.length) :
    (after batch logitsAll done).addSeqToUbatch ⟨done, batch.length - done⟩ [] length =
      (⟨(batch.drop done).take length, ((batch.drop done).take length).map BatchToken.logits⟩,
        after batch logitsAll (done + length)) := by
  have outputs : ((batch.drop done).take length).map (fun entry => logitsAll || entry.logits) =
      ((batch.drop done).take length).map BatchToken.logits := by
    apply List.map_congr_left
    intro entry member
    cases logitsAll with
    | true => simp [every rfl entry (List.mem_of_mem_drop (List.mem_of_mem_take member))]
    | false => rfl
  have counted : ((batch.drop done).take length).length = length := by
    rw [List.length_take, List.length_drop]
    omega
  have selected := selected_eq ((batch.drop done).take length) done
  rw [counted] at selected
  simp only [addSeqToUbatch, after, outputs, selected, List.take_add, wanted_append, List.map_append]
  simp only [List.length_take, Nat.min_eq_left (show done ≤ batch.length by omega), Nat.zero_add,
    Nat.sub_sub]

theorem splitSimple_eq {batch : List BatchToken} {logitsAll : Bool} {done : Nat} (nUbatch : Nat)
    (every : logitsAll = true → ∀ entry ∈ batch, entry.logits = true) (more : done < batch.length) :
    (after batch logitsAll done).splitSimple nUbatch =
      (⟨(batch.drop done).take nUbatch, ((batch.drop done).take nUbatch).map BatchToken.logits⟩,
        after batch logitsAll (min (done + nUbatch) batch.length)) := by
  have open_ : ((after batch logitsAll done).seq.reverse.dropWhile
      fun seq => seq.length == 0).reverse = [⟨done, batch.length - done⟩] := by
    have remains : batch.length - done ≠ 0 := by omega
    simp [after, remains]
  have smaller : ∀ first second : Nat,
      (if first < second then first else second) = min first second := by
    intro first second
    split <;> omega
  have within : done + min (batch.length - done) nUbatch ≤ batch.length := by omega
  have split := addSeqToUbatch_eq every within
  simp only [splitSimple, open_, smaller]
  have shorter : min (batch.length - done) (min (batch.length - done) nUbatch) =
      min (batch.length - done) nUbatch := by omega
  have taken : (batch.drop done).take (min (batch.length - done) nUbatch) =
      (batch.drop done).take nUbatch := by
    rw [List.take_eq_take_min (i := nUbatch), List.length_drop, Nat.min_comm]
  have reached : done + min (batch.length - done) nUbatch = min (done + nUbatch) batch.length := by
    omega
  rw [taken, reached] at split
  rw [← split, ← shorter]
  rfl

end Sbatch

theorem Ubatch.rows_eq (row : BatchToken → List Cell) (entries : List BatchToken) (offset : Nat) :
    ((entries.zip (entries.map BatchToken.logits)).filter Prod.snd).map (fun entry => row entry.1) =
      (wanted entries offset).map fun entry => row entry.1 := by
  induction entries generalizing offset with
  | nil => rfl
  | cons entry rest ih =>
      have later := ih (offset + 1)
      cases wants : entry.logits with
      | true => simpa [wanted, wants] using later
      | false => simpa [wanted, wants] using later

namespace KvCache

/-- A cache in which `more` has been placed behind `base` since it was `before`. -/
structure Underway (before : KvCache) (base more : List Cell) (cache : KvCache) : Prop where
  laid : Laid cache (base ++ more)
  since : Since before.cells cache
  sameSize : cache.size = before.size
  samePadding : cache.padding = before.padding
  started : more = [] ∨ ∃ range ∈ cache.pending, range.1 ≤ base.length

/-- Between two calls: the cells in use stand at the front, and what is still pending has been
taken back. -/
structure Holds (cache : KvCache) (cells : List Cell) : Prop where
  laid : Laid cache cells
  settled : Since cache.cells cache
  padded : 0 < cache.padding

section Underway

variable {before cache : KvCache} {base more : List Cell} {ubatch : List BatchToken}

theorem Holds.underway (holds : Holds cache base) : Underway cache base [] cache :=
  ⟨by simpa using holds.laid, holds.settled, rfl, rfl, Or.inl rfl⟩

theorem findSlot_padding (cache : KvCache) (ubatch : List BatchToken) :
    (cache.findSlot ubatch).2.padding = cache.padding := by
  simp only [KvCache.findSlot]
  split
  · rfl
  · cases searchSlot cache.cells cache.size ubatch.length (searchFuel cache.size)
        (if cache.used + 2 * ubatch.length < cache.head then 0 else cache.head) 0 with
    | none => rfl
    | some result =>
        obtain ⟨found, head⟩ := result
        cases found <;> rfl

theorem findSlot_pending (sound : cache.Sound) (nonempty : ubatch ≠ []) {range : Nat × Nat}
    (member : range ∈ cache.pending) : range ∈ (cache.findSlot ubatch).2.pending := by
  have step := findSlot_step sound nonempty
  generalize cache.findSlot ubatch = result at step ⊢
  cases step with
  | missed => exact member
  | placed => exact List.mem_append_left _ member

theorem Underway.findSlot (underway : Underway before base more cache) (nonempty : ubatch ≠ [])
    (first : ∀ entry ∈ ubatch, entry.seqId = 0) :
    ((base ++ more).length + ubatch.length ≤ before.size ∧ (cache.findSlot ubatch).1 = true ∧
      Underway before base (more ++ ubatch.map BatchToken.cell) (cache.findSlot ubatch).2) ∨
    (before.size < (base ++ more).length + ubatch.length ∧ (cache.findSlot ubatch).1 = false ∧
      Underway before base more (cache.findSlot ubatch).2) := by
  have sound := underway.laid.sound
  have since := underway.since.findSlot sound nonempty
  have size := (findSlot_size ubatch).trans underway.sameSize
  have padding := (findSlot_padding cache ubatch).trans underway.samePadding
  have kept : (∃ range ∈ cache.pending, range.1 ≤ base.length) →
      ∃ range ∈ (cache.findSlot ubatch).2.pending, range.1 ≤ base.length := by
    rintro ⟨range, member, early⟩
    exact ⟨range, findSlot_pending sound nonempty member, early⟩
  rw [← underway.sameSize]
  rcases underway.laid.findSlot nonempty first with
    ⟨fits, found, laid, _, pending⟩ | ⟨full, missed, laid⟩
  · refine Or.inl ⟨fits, found, ?_, since, size, padding, Or.inr ?_⟩
    · rwa [← List.append_assoc]
    · rcases underway.started with rfl | earlier
      · exact ⟨_, pending, by simp⟩
      · exact kept earlier
  · exact Or.inr ⟨full, missed, laid, since, size, padding, underway.started.imp_right kept⟩

theorem foldl_min_le {items : List Nat} {start item : Nat} (member : item ∈ items) :
    items.foldl min start ≤ item := by
  have below : ∀ (items : List Nat) (start : Nat), items.foldl min start ≤ start := by
    intro items
    induction items with
    | nil => exact fun start => Nat.le_refl start
    | cons first rest ih => exact fun start => Nat.le_trans (ih _) (Nat.min_le_left _ _)
  induction items generalizing start with
  | nil => simp at member
  | cons first rest ih =>
      rcases List.mem_cons.mp member with rfl | later
      · exact Nat.le_trans (below rest _) (Nat.min_le_right _ _)
      · exact ih later

theorem restore_head_le (sound : cache.Sound) {range : Nat × Nat}
    (member : range ∈ cache.pending) : cache.restore.head ≤ range.1 := by
  have least : (cache.pending.map Prod.fst).foldl min cache.size ≤ range.1 := by
    exact foldl_min_le (List.mem_map_of_mem member)
  have inside := sound.inside
  obtain ⟨_, head, _, _⟩ := released_frame cache cache.covered
  simp only [restore, released_eq]
  split
  · exact least
  · rename_i later
    rw [head]
    omega

theorem Underway.restore (holds : Holds before base) (underway : Underway before base more cache) :
    Holds cache.restore base := by
  have sound := underway.laid.sound
  obtain ⟨_, _, size, _, head, padding⟩ := restore_fields cache
  have sameLength : cache.cells.length = before.cells.length := by
    rw [sound.sized, underway.sameSize, holds.laid.sound.sized]
  have same := underway.since.restore_cells sameLength
  have sameSize := size.trans underway.sameSize
  refine ⟨⟨restore_sound sound, ?_, ?_, ?_⟩, ?_, ?_⟩
  · rw [sameSize]
    exact holds.laid.room
  · rw [same, sameSize]
    exact holds.laid.layout
  · rcases underway.started with rfl | ⟨range, member, early⟩
    · have among := underway.laid.among
      rw [List.append_nil] at among
      omega
    · exact Nat.le_trans (restore_head_le sound member) early
  · rw [same]
    exact underway.since.restore sameLength
  · rw [padding, underway.samePadding]
    exact holds.padded

theorem Underway.restore_size (underway : Underway before base more cache) :
    cache.restore.size = before.size :=
  (restore_fields cache).2.2.1.trans underway.sameSize

theorem Underway.commit (holds : Holds before base) (underway : Underway before base more cache) :
    Holds cache.commit (base ++ more) := by
  have laid := underway.laid
  refine ⟨⟨commit_sound laid.sound, laid.room, laid.layout, laid.among⟩, Since.commit cache, ?_⟩
  exact underway.samePadding ▸ holds.padded

end Underway

end KvCache

open KvCache

section Loop

variable {before cache : KvCache} {base : List Cell} {batch : List BatchToken} {logitsAll : Bool}
  {nUbatch : Nat} {status : Nat → ComputeStatus}

def outputRows (cells : List Cell) (entries : List BatchToken) : List (List Cell) :=
  (wanted entries 0).map fun entry => visible cells entry.1.pos

def Decoding.reached (base : List Cell) (batch : List BatchToken) (logitsAll : Bool) (done : Nat)
    (cache : KvCache) : Decoding :=
  ⟨0, cache, .after batch logitsAll done,
    outputRows (base ++ batch.map BatchToken.cell) (batch.take done)⟩

def Completes (capacity nUbatch : Nat) (status : Nat → ComputeStatus) (live remaining index : Nat) :
    Prop :=
  live + remaining ≤ capacity ∧ ∀ j, j * nUbatch < remaining → status (index + j) = .success

theorem visible_append_later {cells later : List Cell} {pos : Nat}
    (behind : ∀ cell ∈ later, pos < cell.pos) :
    visible cells pos = visible (cells ++ later) pos := by
  have none : visible later pos = [] := by
    rw [visible, List.filter_eq_nil_iff]
    intro cell member
    simpa using behind cell member
  rw [visible, visible, List.filter_append]
  exact ((congrArg (visible cells pos ++ ·) none).trans (List.append_nil _)).symm

theorem wanted_map_row (row : BatchToken → List Cell) (entries : List BatchToken)
    (first second : Nat) :
    ((wanted entries first).map fun entry => row entry.1) =
      (wanted entries second).map fun entry => row entry.1 := by
  rw [← Ubatch.rows_eq row entries first, Ubatch.rows_eq row entries second]

theorem rows_of_piece {piece later : List BatchToken} {live : List Cell}
    (laid : Laid cache (live ++ piece.map BatchToken.cell))
    (covers : (live ++ piece.map BatchToken.cell).length ≤ cache.n)
    (first : ∀ entry ∈ piece, entry.seqId = 0)
    (ordered : (piece ++ later).Pairwise fun one other => one.pos < other.pos) (offset : Nat) :
    Ubatch.rows ⟨piece, piece.map BatchToken.logits⟩ cache =
      (wanted piece offset).map fun entry =>
        visible (live ++ (piece ++ later).map BatchToken.cell) entry.1.pos := by
  rw [← Ubatch.rows_eq (fun entry => visible (live ++ (piece ++ later).map BatchToken.cell) entry.pos),
    Ubatch.rows]
  apply List.map_congr_left
  intro entry member
  have inside : entry.1 ∈ piece := (List.of_mem_zip (List.mem_of_mem_filter member)).1
  rw [laid.attended covers (first entry.1 inside), List.map_append, ← List.append_assoc]
  apply visible_append_later
  intro cell behind
  obtain ⟨other, there, rfl⟩ := List.mem_map.mp behind
  exact (List.pairwise_append.mp ordered).2.2 entry.1 inside other there

theorem outputRows_append {first second : List BatchToken} {cells : List Cell} {offset : Nat} :
    outputRows cells (first ++ second) = outputRows cells first ++
      (wanted second offset).map fun entry => visible cells entry.1.pos := by
  rw [outputRows, Sbatch.wanted_append, List.map_append,
    wanted_map_row (fun entry => visible cells entry.pos) second _ offset]
  rfl

theorem completes_step (capacity live nUbatch : Nat) {done total index : Nat} (more : done < total)
    (success : status index = .success) :
    Completes capacity nUbatch status (live + min (done + nUbatch) total)
        (total - min (done + nUbatch) total) (index + 1) ↔
      Completes capacity nUbatch status (live + done) (total - done) index := by
  have sameRoom : live + min (done + nUbatch) total + (total - min (done + nUbatch) total) =
      live + done + (total - done) := by omega
  unfold Completes
  rw [sameRoom]
  apply and_congr_right
  intro _
  constructor
  · intro later j within
    cases j with
    | zero => exact success
    | succ j =>
        have next := later j
        rw [Nat.succ_mul] at within
        rw [show index + (j + 1) = index + 1 + j by omega]
        exact next (by omega)
  · intro all j within
    have next := all (j + 1)
    rw [Nat.succ_mul] at next
    rw [show index + 1 + j = index + (j + 1) by omega]
    exact next (by omega)

inductive PieceStep (before : KvCache) (base : List Cell) (batch : List BatchToken)
    (logitsAll : Bool) (nUbatch : Nat) (status : Nat → ComputeStatus) (fuel index done : Nat) :
    Decoding → Prop where
  | decoded (cache : KvCache) : status index = .success →
      Underway before base ((batch.take (min (done + nUbatch) batch.length)).map BatchToken.cell)
        cache →
      PieceStep before base batch logitsAll nUbatch status fuel index done
        (decodeUbatches nUbatch status fuel (index + 1)
          (.reached base batch logitsAll (min (done + nUbatch) batch.length) cache))
  | failed (more : List Cell) (decoded : Decoding) : status index ≠ .success →
      Underway before base more decoded.cache → decoded.code ≠ 0 →
      PieceStep before base batch logitsAll nUbatch status fuel index done decoded
  | full (more : List Cell) (decoded : Decoding) :
      before.size < base.length + done + (batch.length - done) →
      Underway before base more decoded.cache → decoded.code ≠ 0 →
      PieceStep before base batch logitsAll nUbatch status fuel index done decoded

theorem decodeUbatches_succ (state : Decoding) {ubatch : Ubatch} {rest : Sbatch} {found : Bool}
    {next : KvCache} (fuel index : Nat) (more : state.sbatch.nTokens ≠ 0)
    (split : state.sbatch.splitSimple nUbatch = (ubatch, rest))
    (slot : state.cache.findSlot ubatch.entries = (found, next)) :
    decodeUbatches nUbatch status (fuel + 1) index state =
      if found then
        match status index with
        | .success => decodeUbatches nUbatch status fuel (index + 1)
            ⟨state.code, next, rest, state.rows ++ ubatch.rows next⟩
        | status => ⟨status.code, next, rest, state.rows⟩
      else ⟨1, next, rest, state.rows⟩ := by
  rw [decodeUbatches, if_neg more, split]
  cases found with
  | false => simp [slot]
  | true => cases status index <;> simp [slot]

theorem decodeUbatches_step (status : Nat → ComputeStatus) (fuel index : Nat)
    (holds : Holds before base) (positive : 0 < nUbatch)
    (every : logitsAll = true → ∀ entry ∈ batch, entry.logits = true)
    (first : ∀ entry ∈ batch, entry.seqId = 0)
    (ordered : batch.Pairwise fun one other => one.pos < other.pos) {done : Nat}
    (more : done < batch.length)
    (underway : Underway before base ((batch.take done).map BatchToken.cell) cache) :
    PieceStep before base batch logitsAll nUbatch status fuel index done
      (decodeUbatches nUbatch status (fuel + 1) index
        (.reached base batch logitsAll done cache)) := by
  have remains : batch.length - done ≠ 0 := by omega
  have taken : batch.take (min (done + nUbatch) batch.length) =
      batch.take done ++ (batch.drop done).take nUbatch := by
    rw [← List.take_eq_take_min, List.take_add]
  have whole : batch = batch.take done ++ ((batch.drop done).take nUbatch ++
      (batch.drop done).drop nUbatch) := by simp
  have pieceLength : ((batch.drop done).take nUbatch).length =
      min nUbatch (batch.length - done) := by simp
  have nonempty : (batch.drop done).take nUbatch ≠ [] := by
    rw [← List.length_pos_iff, pieceLength]
    omega
  have pieceFirst : ∀ entry ∈ (batch.drop done).take nUbatch, entry.seqId = 0 :=
    fun entry member => first entry (List.mem_of_mem_drop (List.mem_of_mem_take member))
  have live : (base ++ (batch.take done).map BatchToken.cell).length = base.length + done := by
    simp
    omega
  have split := Sbatch.splitSimple_eq nUbatch every more
  rcases underway.findSlot nonempty pieceFirst with ⟨fits, found, next⟩ | ⟨full, missed, next⟩
  · have slot : cache.findSlot ((batch.drop done).take nUbatch) =
        (true, (cache.findSlot ((batch.drop done).take nUbatch)).2) := Prod.ext found rfl
    rw [decodeUbatches_succ (.reached base batch logitsAll done cache) fuel index remains split slot,
      if_pos rfl]
    have covers : (base ++ ((batch.take done).map BatchToken.cell ++
        ((batch.drop done).take nUbatch).map BatchToken.cell)).length ≤
        (cache.findSlot ((batch.drop done).take nUbatch)).2.n :=
      next.laid.covered (underway.samePadding ▸ holds.padded) found underway.laid.sound nonempty
    by_cases success : status index = .success
    · simp only [success]
      have laid := next.laid
      rw [← List.append_assoc] at laid covers
      have later : ((batch.drop done).take nUbatch ++ (batch.drop done).drop nUbatch).Pairwise
          fun one other => one.pos < other.pos := by
        rw [List.take_append_drop]
        exact ordered.drop
      have rows := rows_of_piece laid covers pieceFirst later (0 + (batch.take done).length)
      rw [List.append_assoc, ← List.map_append, ← whole] at rows
      rw [rows, Decoding.reached, ← outputRows_append, ← taken]
      rw [← List.map_append, ← taken] at next
      exact .decoded _ success next
    · cases failed : status index with
      | success => contradiction
      | _ => exact .failed _ _ success next (by simp [ComputeStatus.code])
  · have slot : cache.findSlot ((batch.drop done).take nUbatch) =
        (false, (cache.findSlot ((batch.drop done).take nUbatch)).2) := Prod.ext missed rfl
    rw [decodeUbatches_succ (.reached base batch logitsAll done cache) fuel index remains split slot]
    refine .full _ _ ?_ next (by simp)
    rw [live, pieceLength] at full
    omega

theorem decodeUbatches_ends (logitsAll : Bool) (status : Nat → ComputeStatus)
    (holds : Holds before base) (positive : 0 < nUbatch)
    (every : logitsAll = true → ∀ entry ∈ batch, entry.logits = true)
    (first : ∀ entry ∈ batch, entry.seqId = 0)
    (ordered : batch.Pairwise fun one other => one.pos < other.pos) (fuel index done : Nat)
    (within : done ≤ batch.length) (enough : batch.length - done ≤ fuel)
    (underway : Underway before base ((batch.take done).map BatchToken.cell) cache) :
    let decoded := decodeUbatches nUbatch status fuel index
      (.reached base batch logitsAll done cache)
    (Completes before.size nUbatch status (base.length + done) (batch.length - done) index ∧
      ∃ last, Underway before base (batch.map BatchToken.cell) last ∧
        decoded = .reached base batch logitsAll batch.length last) ∨
    (¬ Completes before.size nUbatch status (base.length + done) (batch.length - done) index ∧
      decoded.code ≠ 0 ∧ Holds decoded.cache.restore base ∧
      decoded.cache.restore.size = before.size) := by
  have ends : ∀ cache fuel index, Underway before base (batch.map BatchToken.cell) cache →
      Completes before.size nUbatch status (base.length + batch.length)
        (batch.length - batch.length) index ∧
      decodeUbatches nUbatch status fuel index
        (.reached base batch logitsAll batch.length cache) =
        .reached base batch logitsAll batch.length cache := by
    intro cache fuel index underway
    have room := underway.laid.room
    rw [underway.sameSize, List.length_append, List.length_map] at room
    refine ⟨⟨by omega, by omega⟩, ?_⟩
    cases fuel with
    | zero => rfl
    | succ fuel => simp [decodeUbatches, Decoding.reached, Sbatch.after]
  induction fuel generalizing index done cache with
  | zero =>
      obtain rfl : done = batch.length := by omega
      rw [List.take_length] at underway
      obtain ⟨completes, same⟩ := ends cache 0 index underway
      exact Or.inl ⟨completes, cache, underway, same⟩
  | succ fuel ih =>
      by_cases finished : done = batch.length
      · subst finished
        rw [List.take_length] at underway
        obtain ⟨completes, same⟩ := ends cache (fuel + 1) index underway
        exact Or.inl ⟨completes, cache, underway, same⟩
      · have more : done < batch.length := by omega
        have step := decodeUbatches_step status fuel index holds positive every first ordered more
          underway
        generalize decodeUbatches nUbatch status (fuel + 1) index
          (.reached base batch logitsAll done cache) = decoded at step ⊢
        cases step with
        | decoded next success reached =>
            have same := completes_step before.size base.length nUbatch more success
            simp only [← same]
            exact ih (index + 1) _ (by omega) (by omega) reached
        | failed more _ fails reached code =>
            refine Or.inr ⟨?_, code, reached.restore holds, reached.restore_size⟩
            rintro ⟨_, all⟩
            exact fails (all 0 (by omega))
        | full more _ full reached code =>
            refine Or.inr ⟨?_, code, reached.restore holds, reached.restore_size⟩
            rintro ⟨fits, _⟩
            omega

end Loop

end TextMaster
