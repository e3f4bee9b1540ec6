import DiceOdds.Text

/-!
# Distributions over ranges of integers

A distribution gives a weight to every integer of a range that is not empty.  Weights are exact
integers, need not add up to anything in particular, and may be zero or negative; an integer outside
the range weighs nothing.  Two distributions are equal when they have the same range and the same
weights, so zeros at the ends of a range count.
-/

namespace DiceOdds

/-- `weights` starts with the weight of `start`. -/
structure Distribution where
  start : Int
  weights : List Int
  nonempty : weights ≠ []
  deriving DecidableEq

namespace Distribution

/-- Why an operation has no distribution for an answer. -/
inductive Obstacle
  /-- the range would be empty -/
  | noWeights
  /-- every number of dice in a pool has weight zero -/
  | noCounts
  deriving DecidableEq

def ofWeights (start : Int) (weights : List Int) : Except Obstacle Distribution :=
  if hnonempty : weights ≠ [] then .ok ⟨start, weights, hnonempty⟩ else .error .noWeights

/-- A single integer. -/
def point (value : Int) (weight : Int := 1) : Distribution :=
  ⟨value, [weight], List.cons_ne_nil _ _⟩

/-- The integers from 1 to `faces`, each of weight 1. -/
def uniform (faces : Int) : Except Obstacle Distribution :=
  ofWeights 1 (List.replicate faces.toNat 1)

/-! ### Views -/

/-- The number of integers in the range. -/
def size (distribution : Distribution) : Nat :=
  distribution.weights.length

def minimum (distribution : Distribution) : Int :=
  distribution.start

def maximum (distribution : Distribution) : Int :=
  distribution.start + distribution.size - 1

/-- The weight of any integer, zero outside of the range. -/
def weightAt (distribution : Distribution) (value : Int) : Int :=
  if value < distribution.start then 0
  else distribution.weights.getD (value - distribution.start).toNat 0

def totalWeight (distribution : Distribution) : Int :=
  distribution.weights.foldr (· + ·) 0

def maxWeight (distribution : Distribution) : Int :=
  distribution.weights.max distribution.nonempty

/-- The integers of the range in increasing order, each with its weight. -/
def outcomes (distribution : Distribution) : List (Int × Int) :=
  distribution.weights.mapIdx fun index weight => (distribution.start + index, weight)

theorem size_pos (distribution : Distribution) : 0 < distribution.size :=
  List.length_pos_iff.2 distribution.nonempty

theorem minimum_le_maximum (distribution : Distribution) :
    distribution.minimum ≤ distribution.maximum := by
  have := distribution.size_pos
  simp only [minimum, maximum]
  omega

/-! ### Tallies -/

/-- Adds `weight` to the bucket at `index`, if there is one. -/
def addToBucket (buckets : Array Int) (index weight : Int) : Array Int :=
  if index < 0 then buckets else buckets.modify index.toNat (· + weight)

@[simp]
theorem size_addToBucket (buckets : Array Int) (index weight : Int) :
    (addToBucket buckets index weight).size = buckets.size := by
  unfold addToBucket
  split <;> simp

def fillBuckets (low : Int) (buckets : Array Int) (entries : List (Int × Int)) : Array Int :=
  entries.foldl (fun buckets (value, weight) => addToBucket buckets (value - low) weight) buckets

@[simp]
theorem size_fillBuckets (low : Int) (buckets : Array Int) (entries : List (Int × Int)) :
    (fillBuckets low buckets entries).size = buckets.size := by
  induction entries generalizing buckets with
  | nil => rfl
  | cons entry entries ih => exact (ih _).trans (size_addToBucket _ _ _)

/-- One empty bucket for every integer from `low` to `high`. -/
def emptyBuckets (low high : Int) : Array Int :=
  Array.replicate ((high - low).toNat + 1) 0

/-- The distribution over the range from `low` to `high` in which an integer weighs as much as its
entries together.  An entry outside of the range is left out. -/
def tally (low high : Int) (entries : List (Int × Int)) : Distribution where
  start := low
  weights := (fillBuckets low (emptyBuckets low high) entries).toList
  nonempty := by
    intro hempty
    have hlength := congrArg List.length hempty
    simp [emptyBuckets] at hlength

@[simp]
theorem minimum_tally (low high : Int) (entries : List (Int × Int)) :
    (tally low high entries).minimum = low := rfl

@[simp]
theorem size_tally (low high : Int) (entries : List (Int × Int)) :
    (tally low high entries).size = (high - low).toNat + 1 := by
  simp [size, tally, emptyBuckets]

theorem maximum_tally {low high : Int} (hle : low ≤ high) (entries : List (Int × Int)) :
    (tally low high entries).maximum = high := by
  have hsize := size_tally low high entries
  have hstart : (tally low high entries).start = low := rfl
  simp only [maximum, hsize, hstart]
  omega

end Distribution

end DiceOdds
