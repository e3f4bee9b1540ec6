import DiceOdds.Distribution

/-!
# The algebra of distributions

The sum and the product of two distributions weigh every pair of their outcomes by the product of
its weights.  `merged` adds weights point by point, and `pool` mixes the sums of as many dice as the
outcomes of a count call for.
-/

namespace DiceOdds.Distribution

/-- Every pair of outcomes, combined, with the product of the two weights. -/
def pairs (combine : Int → Int → Int) (left right : Distribution) : List (Int × Int) :=
  left.outcomes.flatMap fun (leftValue, leftWeight) =>
    right.outcomes.map fun (rightValue, rightWeight) =>
      (combine leftValue rightValue, leftWeight * rightWeight)

/-- Fills buckets with all pairs, one outcome of the left side at a time. -/
def fillPairs (combine : Int → Int → Int) (low : Int) (right : List (Int × Int))
    (buckets : Array Int) (left : List (Int × Int)) : Array Int :=
  left.foldl (fun buckets (leftValue, leftWeight) =>
    right.foldl (fun buckets (rightValue, rightWeight) =>
      addToBucket buckets (combine leftValue rightValue - low) (leftWeight * rightWeight))
    buckets) buckets

theorem fillPairs_eq (combine : Int → Int → Int) (low : Int) (left right : Distribution)
    (buckets : Array Int) :
    fillPairs combine low right.outcomes buckets left.outcomes =
      fillBuckets low buckets (pairs combine left right) := by
  simp only [fillPairs, fillBuckets, pairs, List.foldl_flatMap, List.foldl_map]

/-- The distribution of `combine` over the range from `low` to `high`. -/
def combined (combine : Int → Int → Int) (low high : Int) (left right : Distribution) :
    Distribution where
  start := low
  weights :=
    (fillPairs combine low right.outcomes (emptyBuckets low high) left.outcomes).toList
  nonempty := by
    rw [fillPairs_eq]
    exact (tally low high (pairs combine left right)).nonempty

theorem combined_eq_tally (combine : Int → Int → Int) (low high : Int)
    (left right : Distribution) :
    combined combine low high left right = tally low high (pairs combine left right) := by
  simp only [combined, tally, fillPairs_eq]

def add (left right : Distribution) : Distribution :=
  combined (· + ·) (left.minimum + right.minimum) (left.maximum + right.maximum) left right

instance : Add Distribution := ⟨add⟩

@[simp]
theorem minimum_add (left right : Distribution) :
    (left + right).minimum = left.minimum + right.minimum := rfl

@[simp]
theorem maximum_add (left right : Distribution) :
    (left + right).maximum = left.maximum + right.maximum :=
  (congrArg maximum (combined_eq_tally (· + ·) _ _ left right)).trans
    (maximum_tally (Int.add_le_add left.minimum_le_maximum right.minimum_le_maximum) _)

/-- The weights of the sum, from the difference of the minima on.  This is the distribution of the
difference when the right side weighs nothing past its minimum. -/
def sub (left right : Distribution) : Distribution :=
  { left + right with start := left.start - right.start }

instance : Sub Distribution := ⟨sub⟩

/-- The range of a product reaches from the least to the greatest product of two ends. -/
def mul (left right : Distribution) : Distribution :=
  let first := left.minimum * right.minimum
  let second := left.minimum * right.maximum
  let third := left.maximum * right.minimum
  let fourth := left.maximum * right.maximum
  combined (· * ·) (min (min first second) (min third fourth))
    (max (max first second) (max third fourth)) left right

instance : Mul Distribution := ⟨mul⟩

def scaled (distribution : Distribution) (factor : Int) : Distribution where
  start := distribution.start
  weights := distribution.weights.map (· * factor)
  nonempty := by simpa using distribution.nonempty

@[simp]
theorem minimum_scaled (distribution : Distribution) (factor : Int) :
    (distribution.scaled factor).minimum = distribution.minimum := rfl

@[simp]
theorem maximum_scaled (distribution : Distribution) (factor : Int) :
    (distribution.scaled factor).maximum = distribution.maximum := by
  simp [maximum, size, scaled]

/-- The sum of the weights at every point of both ranges and of the gap between them. -/
def merged (left right : Distribution) : Distribution :=
  tally (min left.minimum right.minimum) (max left.maximum right.maximum)
    (left.outcomes ++ right.outcomes)

@[simp]
theorem minimum_merged (left right : Distribution) :
    (left.merged right).minimum = min left.minimum right.minimum := rfl

@[simp]
theorem maximum_merged (left right : Distribution) :
    (left.merged right).maximum = max left.maximum right.maximum :=
  maximum_tally (by have := left.minimum_le_maximum; omega) _

/-- `rolled` and so many dice more. -/
def rollMore (die rolled : Distribution) : Nat → Distribution
  | 0 => rolled
  | more + 1 => rollMore die (rolled + die) more

/-- The part that each count of a pool adds, where `rolled` is the sum of `count` dice.  A count
below zero rolls no dice, and a count of weight zero adds nothing. -/
def poolParts (die rolled : Distribution) (count : Nat) : List (Int × Int) → List Distribution
  | [] => []
  | (value, weight) :: rest =>
    if weight = 0 then poolParts die rolled count rest
    else
      let more := value.toNat - count
      let rolled := rollMore die rolled more
      rolled.scaled weight :: poolParts die rolled (count + more) rest

/-- The sum of independent dice whose number is distributed like `counts`. -/
def pool (counts die : Distribution) : Except Obstacle Distribution :=
  match poolParts die (point 0) 0 counts.outcomes with
  | [] => .error .noCounts
  | part :: parts => .ok (parts.foldl merged part)

end DiceOdds.Distribution
