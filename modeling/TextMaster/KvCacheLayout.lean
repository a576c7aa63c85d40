import TextMaster.KvCacheBooks

/-!
The cache of a single sequence that is only ever extended: its cells in use stand at the front, in
the order in which they were decoded.
-/

namespace TextMaster

open SlotSearch

def KvCell.ofCell (cell : Cell) : KvCell := ⟨cell.pos, {0}, cell.token⟩

@[simp] theorem KvCell.inUse_ofCell (cell : Cell) : (ofCell cell).inUse = true := by
  simp [inUse, ofCell]

theorem KvCell.ofToken_eq {entry : BatchToken} (first : entry.seqId = 0) :
    ofToken entry = ofCell entry.cell := by
  simp [ofToken, ofCell, BatchToken.cell, first]

namespace KvCache

structure Laid (cache : KvCache) (cells : List Cell) : Prop where
  sound : cache.Sound
  room : cells.length ≤ cache.size
  layout : cache.cells =
    cells.map KvCell.ofCell ++ List.replicate (cache.size - cells.length) .empty
  among : cache.head ≤ cells.length

section Laid

variable {cache : KvCache} {cells base : List Cell} {ubatch : List BatchToken} {index : Nat}

theorem Laid.used_eq (laid : Laid cache cells) : cache.used = cells.length := by
  have every : (cells.map KvCell.ofCell).countP KvCell.inUse = cells.length := by
    rw [List.countP_map, List.countP_eq_length.mpr (by simp)]
  rw [laid.sound.counted, laid.layout, List.countP_append, every]
  simp [List.countP_replicate]

theorem Laid.cell_front (laid : Laid cache cells) (front : index < cells.length) :
    cache.cells[index]? = some (.ofCell cells[index]) := by
  rw [laid.layout, List.getElem?_append_left (by simpa using front)]
  simp [front]

theorem Laid.cell_behind (laid : Laid cache cells) (behind : cells.length ≤ index)
    (inside : index < cache.size) : cache.cells[index]? = some .empty := by
  rw [laid.layout, List.getElem?_append_right (by simpa using behind), List.length_map,
    List.getElem?_replicate_of_lt (by omega)]

theorem Laid.front (laid : Laid cache cells) :
    ∀ index < cache.size, cellFree cache.cells index = true ↔ cells.length ≤ index := by
  intro index inside
  rw [cellFree_eq_true]
  by_cases behind : cells.length ≤ index
  · simpa [behind] using ⟨_, laid.cell_behind behind inside, KvCell.inUse_empty⟩
  · simp [behind, laid.cell_front (Nat.lt_of_not_le behind)]

theorem Laid.searchStart (laid : Laid cache cells) (count : Nat) :
    cache.searchStart count = cache.head := by
  have among := laid.among
  rw [KvCache.searchStart, if_neg (by rw [laid.used_eq]; omega)]

theorem Laid.findSlot (laid : Laid cache cells) (nonempty : ubatch ≠ [])
    (first : ∀ entry ∈ ubatch, entry.seqId = 0) :
    (cells.length + ubatch.length ≤ cache.size ∧ (cache.findSlot ubatch).1 = true ∧
      Laid (cache.findSlot ubatch).2 (cells ++ ubatch.map BatchToken.cell) ∧
      (cache.findSlot ubatch).2.head = cells.length ∧
      (cells.length, cells.length + ubatch.length) ∈ (cache.findSlot ubatch).2.pending) ∨
    (cache.size < cells.length + ubatch.length ∧ (cache.findSlot ubatch).1 = false ∧
      Laid (cache.findSlot ubatch).2 cells) := by
  have positive := List.length_pos_iff.mpr nonempty
  have nextSound := findSlot_sound laid.sound nonempty
  have step := findSlot_step laid.sound nonempty
  have sized := laid.sound.sized
  generalize cache.findSlot ubatch = result at step nextSound ⊢
  cases step with
  | missed head none left =>
      have full : cache.size < cells.length + ubatch.length := by
        by_contra fits
        have fit := nextFit_of_front laid.front laid.among (Nat.le_of_not_lt fits) positive
        exact none _ fit.window
      refine Or.inr ⟨full, rfl, nextSound, laid.room, laid.layout, ?_⟩
      rcases left with rfl | ⟨last, inside, rfl, used⟩
      · rw [laid.searchStart]
        exact laid.among
      · by_contra beyond
        have behind : cells.length ≤ last := Nat.le_of_lt_succ (Nat.lt_of_not_le beyond)
        rw [(laid.front last inside).mpr behind] at used
        contradiction
  | placed slot next =>
      have fits : cells.length + ubatch.length ≤ cache.size := by
        by_contra full
        exact no_window_of_front laid.front (Nat.lt_of_not_le full) positive next.window
      rw [laid.searchStart] at next
      obtain rfl := next.unique (nextFit_of_front laid.front laid.among fits positive)
      refine Or.inl ⟨fits, rfl, ⟨nextSound, by simpa using fits, ?_, by simp⟩, rfl, by simp⟩
      have tokens : ubatch.map KvCell.ofToken = (ubatch.map BatchToken.cell).map .ofCell := by
        rw [List.map_map]
        exact List.map_congr_left fun entry member => KvCell.ofToken_eq (first entry member)
      simp only [fillCells_window laid.sound next.window, tokens]
      have rest : (cache.cells.drop (cells.length + ubatch.length)) =
          List.replicate (cache.size - (cells ++ ubatch.map BatchToken.cell).length) .empty := by
        rw [laid.layout, List.drop_append, List.drop_eq_nil_of_le (by simp), List.nil_append,
          List.drop_replicate, List.length_append, List.length_map, List.length_map]
        congr 1
        omega
      rw [rest, laid.layout, List.take_left' (by simp), List.map_append]

theorem le_pad (value : Nat) {padding : Nat} (positive : 0 < padding) : value ≤ pad value padding := by
  have split := Nat.div_add_mod (value + padding - 1) padding
  have remainder := Nat.mod_lt (value + padding - 1) positive
  rw [pad, Nat.mul_comm]
  omega

theorem lt_cellMax {cells : List KvCell} {size : Nat} {cell : KvCell} (inside : index < size)
    (here : cells[index]? = some cell) (used : cell.inUse = true) (tagged : cell.seqId ≠ ∅) :
    index < cellMax cells size := by
  induction size with
  | zero => omega
  | succ size ih =>
      rw [cellMax]
      by_cases last : index = size
      · subst last
        rw [here]
        simp only [KvCell.inUse, decide_eq_true_eq] at used
        simp [used, tagged]
      · have before := ih (by omega)
        cases cells[size]? with
        | none => exact before
        | some other =>
            simp only
            split
            · omega
            · exact before

theorem Laid.covered (laid : Laid (cache.findSlot ubatch).2 cells) (positive : 0 < cache.padding)
    (placed : (cache.findSlot ubatch).1 = true) (sound : cache.Sound) (nonempty : ubatch ≠ []) :
    cells.length ≤ (cache.findSlot ubatch).2.n := by
  have step := findSlot_step sound nonempty
  generalize cache.findSlot ubatch = result at step laid placed ⊢
  cases step with
  | missed => contradiction
  | placed slot next =>
      have room := laid.room
      simp only at room ⊢
      have padded := le_pad
        (cellMax (fillCells cache.cells slot ubatch) cache.size) positive
      have reaches : cells.length ≤ cellMax (fillCells cache.cells slot ubatch) cache.size := by
        rcases Nat.eq_zero_or_pos cells.length with none | some
        · omega
        · have front : cells.length - 1 < cells.length := by omega
          have inside : cells.length - 1 < cache.size := by omega
          have beyond := lt_cellMax inside (laid.cell_front front) (by simp)
            (by simp [KvCell.ofCell])
          simp only at beyond
          omega
      omega

theorem Laid.attended (laid : Laid cache cells) (covers : cells.length ≤ cache.n)
    {entry : BatchToken} (first : entry.seqId = 0) :
    cache.attended entry = visible cells entry.pos := by
  rw [KvCache.attended, laid.layout, List.take_append, List.take_of_length_le (by simpa using covers),
    List.filter_append, List.map_append, List.filter_map, List.map_map, first]
  have none : ((List.replicate (cache.size - cells.length) KvCell.empty).take
      (cache.n - (cells.map KvCell.ofCell).length)).filter (fun cell =>
        ((0 : Nat) : Int) ∈ cell.seqId && cell.pos ≤ (entry.pos : Int)) = [] := by
    rw [List.filter_eq_nil_iff]
    intro cell member
    rw [List.eq_of_mem_replicate (List.mem_of_mem_take member)]
    simp [KvCell.empty]
  rw [none, List.map_nil, List.append_nil]
  have back : ((fun cell : KvCell => (⟨cell.pos.toNat, cell.token⟩ : Cell)) ∘ KvCell.ofCell) = id := by
    funext cell
    simp [KvCell.ofCell]
  rw [back, List.map_id, visible]
  apply List.filter_congr
  intro cell _
  simp [KvCell.ofCell]

end Laid

end KvCache

end TextMaster
