import Mathlib.Data.List.Sort

/-!
Insertion sort by a numeric key: it is stable, and up to the order of equal keys it depends only
on the elements it sorts.
-/

namespace StableSort

variable {Item : Type}

section Stability

variable {relation : Item → Item → Prop} [DecidableRel relation] {test : Item → Bool}

theorem filter_orderedInsert
    (tied : ∀ first second, test first = true → test second = true → relation first second)
    (item : Item) (items : List Item) :
    (items.orderedInsert relation item).filter test = (item :: items).filter test := by
  induction items with
  | nil => rfl
  | cons head tail ih =>
      rw [List.orderedInsert_cons]
      split
      · rfl
      · rename_i behind
        rw [List.filter_cons, ih]
        by_cases counted : test item = true
        · have skipped : ¬ test head = true := fun both => behind (tied item head counted both)
          rw [List.filter_cons_of_pos counted, List.filter_cons_of_pos counted,
            List.filter_cons_of_neg skipped, if_neg skipped]
        · rw [List.filter_cons_of_neg counted, List.filter_cons_of_neg counted,
            List.filter_cons]

theorem filter_insertionSort
    (tied : ∀ first second, test first = true → test second = true → relation first second)
    (items : List Item) : (items.insertionSort relation).filter test = items.filter test := by
  induction items with
  | nil => rfl
  | cons head tail ih =>
      rw [List.insertionSort_cons, filter_orderedInsert tied, List.filter_cons, List.filter_cons,
        ih]

end Stability

variable (key : Item → Nat)

def ascending (items : List Item) : List Item :=
  items.insertionSort fun first second => key first ≤ key second

def descending (items : List Item) : List Item :=
  items.insertionSort fun first second => key second ≤ key first

theorem ascending_perm (items : List Item) : (ascending key items).Perm items :=
  List.perm_insertionSort _ items

theorem descending_perm (items : List Item) : (descending key items).Perm items :=
  List.perm_insertionSort _ items

theorem ascending_pairwise (items : List Item) :
    (ascending key items).Pairwise fun first second => key first ≤ key second := by
  have total : Std.Total fun first second => key first ≤ key second :=
    ⟨fun first second => Nat.le_total (key first) (key second)⟩
  have transitive : IsTrans Item fun first second => key first ≤ key second :=
    ⟨fun _ _ _ => Nat.le_trans⟩
  exact List.pairwise_insertionSort _ items

theorem descending_pairwise (items : List Item) :
    (descending key items).Pairwise fun first second => key second ≤ key first := by
  have total : Std.Total fun first second => key second ≤ key first :=
    ⟨fun first second => Nat.le_total (key second) (key first)⟩
  have transitive : IsTrans Item fun first second => key second ≤ key first :=
    ⟨fun _ _ _ before after => Nat.le_trans after before⟩
  exact List.pairwise_insertionSort _ items

theorem ascending_ties (items : List Item) (value : Nat) :
    (ascending key items).filter (fun item => key item = value) =
      items.filter fun item => key item = value := by
  apply filter_insertionSort
  intro first second left right
  rw [of_decide_eq_true left, of_decide_eq_true right]

theorem descending_ties (items : List Item) (value : Nat) :
    (descending key items).filter (fun item => key item = value) =
      items.filter fun item => key item = value := by
  apply filter_insertionSort
  intro first second left right
  rw [of_decide_eq_true left, of_decide_eq_true right]

/-- The `count` elements with the largest keys and the elements left out, both in the order of the
keys, and elements of one key in the order they came in. -/
structure Top (items kept left : List Item) (count : Nat) : Prop where
  whole : (kept ++ left).Perm items
  many : kept.length = min count items.length
  best : ∀ high ∈ kept, ∀ low ∈ left, key low ≤ key high
  ties : ∀ value, (kept ++ left).filter (fun item => key item = value) =
    items.filter fun item => key item = value

theorem descending_top (items : List Item) (count : Nat) :
    Top key items ((descending key items).take count) ((descending key items).drop count)
      count := by
  have sorted := descending_pairwise key items
  constructor
  · rw [List.take_append_drop]
    exact descending_perm key items
  · rw [List.length_take, (descending_perm key items).length_eq]
  · rw [← List.take_append_drop count (descending key items), List.pairwise_append] at sorted
    exact sorted.2.2
  · intro value
    rw [List.take_append_drop]
    exact descending_ties key items value

theorem descending_map {Source : Type} (source : Source → Item) (items : List Source) :
    (descending (fun item => key (source item)) items).map source =
      descending key (items.map source) :=
  List.map_insertionSort _ _ source items fun _ _ _ _ => Iff.rfl

theorem ascending_keys {first second : List Item} (same : first.Perm second) :
    (ascending key first).map key = (ascending key second).map key := by
  have sorted : ∀ items, ((ascending key items).map key).Pairwise (· ≤ ·) := by
    intro items
    rw [List.pairwise_map]
    exact ascending_pairwise key items
  have permuted : ((ascending key first).map key).Perm ((ascending key second).map key) :=
    (((ascending_perm key first).trans same).trans (ascending_perm key second).symm).map key
  exact permuted.eq_of_pairwise (fun _ _ _ _ => Nat.le_antisymm) (sorted first) (sorted second)

theorem ascending_eq_of_distinct {first second : List Item} (same : first.Perm second)
    (distinct : ∀ left ∈ first, ∀ right ∈ first, key left = key right → left = right) :
    ascending key first = ascending key second := by
  have permuted : (ascending key first).Perm (ascending key second) :=
    ((ascending_perm key first).trans same).trans (ascending_perm key second).symm
  refine permuted.eq_of_pairwise ?_ (ascending_pairwise key first) (ascending_pairwise key second)
  intro left right leftIn rightIn before after
  exact distinct left ((ascending_perm key first).mem_iff.mp leftIn) right
    (same.mem_iff.mpr ((ascending_perm key second).mem_iff.mp rightIn))
    (Nat.le_antisymm before after)

theorem eq_of_reverse_eq {items : List Item} (distinct : items.Nodup)
    (same : items.reverse = items) {left right : Item} (leftIn : left ∈ items)
    (rightIn : right ∈ items) : left = right := by
  cases items with
  | nil => simp at leftIn
  | cons head tail =>
      rcases List.eq_nil_or_concat tail with rfl | ⟨middle, last, rfl⟩
      · rw [List.mem_singleton.mp leftIn, List.mem_singleton.mp rightIn]
      · simp at same
        have first : last = head := same.1
        rw [first] at distinct
        simp at distinct

theorem distinct_of_ascending_reverse {items : List Item} (nodup : items.Nodup)
    (same : ascending key items = ascending key items.reverse) :
    ∀ left ∈ items, ∀ right ∈ items, key left = key right → left = right := by
  intro left leftIn right rightIn tied
  have forward := ascending_ties key items (key left)
  have backward := ascending_ties key items.reverse (key left)
  rw [← same, forward, List.filter_reverse] at backward
  apply eq_of_reverse_eq (nodup.filter _) backward.symm
  · simp [leftIn]
  · simp [rightIn, tied]

end StableSort
