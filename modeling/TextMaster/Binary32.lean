import Mathlib.Data.Int.Order.Basic

/-!
The comparison order of IEEE 754 binary32 values, read from their bit patterns. A NaN
compares false with everything and the two zeros are equal.
-/

structure Binary32 where
  bits : BitVec 32
  deriving DecidableEq, Repr

namespace Binary32

def magnitude (value : Binary32) : Nat := value.bits.toNat % 0x80000000

def isNaN (value : Binary32) : Bool := decide (0x7F800000 < value.magnitude)

/-- Sign and magnitude as one integer: on values that are not NaN its order is theirs. -/
def key (value : Binary32) : Int :=
  if value.bits.toNat < 0x80000000 then value.magnitude else -(value.magnitude : Int)

def gt (left right : Binary32) : Bool :=
  !left.isNaN && !right.isNaN && decide (right.key < left.key)

def eq (left right : Binary32) : Bool :=
  !left.isNaN && !right.isNaN && decide (left.key = right.key)

def negativeInfinity : Binary32 := ⟨0xFF800000⟩

def quietNaN : Binary32 := ⟨0x7FC00000⟩

def one : Binary32 := ⟨0x3F800000⟩

theorem gt_iff (left right : Binary32) :
    left.gt right = true ↔
      left.isNaN = false ∧ right.isNaN = false ∧ right.key < left.key := by
  simp [gt, and_assoc]

theorem gt_trans {left middle right : Binary32} (first : left.gt middle = true)
    (second : middle.gt right = true) : left.gt right = true := by
  rw [gt_iff] at *
  exact ⟨first.1, second.2.1, by omega⟩

theorem gt_of_not_gt_of_gt {left middle right : Binary32} (notAbove : left.gt middle = false)
    (below : right.gt middle = true) (number : left.isNaN = false) :
    right.gt left = true := by
  rw [gt_iff] at *
  have notLess : ¬ middle.key < left.key := fun less =>
    Bool.false_ne_true (notAbove.symm.trans ((gt_iff _ _).mpr ⟨number, below.2.1, less⟩))
  exact ⟨below.1, number, by omega⟩

theorem gt_self (value : Binary32) : value.gt value = false := by
  simp [gt]

theorem nan_gt {value other : Binary32} (isNaN : value.isNaN = true) :
    value.gt other = false := by
  simp [gt, isNaN]

end Binary32
