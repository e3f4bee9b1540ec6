import DiceOdds.Proofs.Distribution.Ends

/-!
# Sums, products and mergers

Two distributions are the same if they have one law and one range.  The sum and the product combine
the laws of their sides, and either range is the smallest interval that holds what the operation
makes of the two ranges.  Neither operation turns around along one of its sides, so whatever holds
of it on integers holds of distributions, zeros at the ends of a range and inside of it included.
-/

namespace DiceOdds.Distribution

variable {left right result : Distribution} {interval : Set ℤ}

/-! ### Ranges -/

def range (distribution : Distribution) : Set ℤ :=
  Set.Icc distribution.minimum distribution.maximum

theorem minimum_mem_range (distribution : Distribution) :
    distribution.minimum ∈ distribution.range :=
  Set.left_mem_Icc.2 distribution.minimum_le_maximum

theorem maximum_mem_range (distribution : Distribution) :
    distribution.maximum ∈ distribution.range :=
  Set.right_mem_Icc.2 distribution.minimum_le_maximum

theorem eq_of_law_of_range (hlaw : left.law = right.law) (hrange : left.range = right.range) :
    left = right := by
  obtain ⟨hminimum, hmaximum⟩ := (Set.Icc_eq_Icc_iff left.minimum_le_maximum).1 hrange
  apply eq_of_weightAt hminimum hmaximum
  intro value
  rw [← law_apply, ← law_apply, hlaw]

/-- An interval holds a range as soon as it holds both ends. -/
theorem range_subset_iff (hinterval : interval.OrdConnected) (distribution : Distribution) :
    distribution.range ⊆ interval ↔
      distribution.minimum ∈ interval ∧ distribution.maximum ∈ interval := by
  constructor
  · intro hsubset
    exact ⟨hsubset distribution.minimum_mem_range, hsubset distribution.maximum_mem_range⟩
  · intro hends
    exact hinterval.out hends.1 hends.2

/-- Ranges that fit into the same intervals are the same. -/
theorem range_eq_of_subset_iff
    (hsubset : ∀ interval : Set ℤ, interval.OrdConnected →
      (left.range ⊆ interval ↔ right.range ⊆ interval)) : left.range = right.range :=
  Set.Subset.antisymm ((hsubset right.range Set.ordConnected_Icc).2 subset_rfl)
    ((hsubset left.range Set.ordConnected_Icc).1 subset_rfl)

theorem range_merged_subset_iff (hinterval : interval.OrdConnected) (left right : Distribution) :
    (left.merged right).range ⊆ interval ↔ left.range ⊆ interval ∧ right.range ⊆ interval := by
  constructor
  · intro hsubset
    have hleft : left.range ⊆ (left.merged right).range :=
      Set.Icc_subset_Icc (min_le_left _ _) (maximum_merged left right ▸ le_max_left _ _)
    have hright : right.range ⊆ (left.merged right).range :=
      Set.Icc_subset_Icc (min_le_right _ _) (maximum_merged left right ▸ le_max_right _ _)
    exact ⟨hleft.trans hsubset, hright.trans hsubset⟩
  · simp only [range_subset_iff hinterval, minimum_merged, maximum_merged]
    intro hends
    exact ⟨min_rec' (· ∈ interval) hends.1.1 hends.2.1,
      max_rec' (· ∈ interval) hends.1.2 hends.2.2⟩

@[simp]
theorem range_scaled (distribution : Distribution) (factor : ℤ) :
    (distribution.scaled factor).range = distribution.range := by
  rw [range, minimum_scaled, maximum_scaled, range]

theorem range_point (value weight : ℤ) : (point value weight).range = {value} := by
  have hmaximum : (point value weight).maximum = value := add_sub_cancel_right value 1
  rw [range, hmaximum]
  exact Set.Icc_self value

/-! ### Mergers -/

theorem merged_comm (left right : Distribution) : left.merged right = right.merged left := by
  apply eq_of_law_of_range
  · rw [law_merged, law_merged, add_comm]
  · apply range_eq_of_subset_iff
    intro interval hinterval
    rw [range_merged_subset_iff hinterval, range_merged_subset_iff hinterval, and_comm]

theorem merged_assoc (first second third : Distribution) :
    (first.merged second).merged third = first.merged (second.merged third) := by
  apply eq_of_law_of_range
  · simp only [law_merged, add_assoc]
  · apply range_eq_of_subset_iff
    intro interval hinterval
    simp only [range_merged_subset_iff hinterval, and_assoc]

theorem scaled_merged (left right : Distribution) (factor : ℤ) :
    (left.merged right).scaled factor = (left.scaled factor).merged (right.scaled factor) := by
  apply eq_of_law_of_range
  · simp only [law_scaled, law_merged, smul_add]
  · apply range_eq_of_subset_iff
    intro interval hinterval
    simp only [range_scaled, range_merged_subset_iff hinterval]

/-! ### Combinations -/

/-- `result` is `operation` on independent outcomes of the two sides, over the smallest range that
holds whatever the operation makes of integers of the two ranges. -/
structure Combines (operation : ℤ → ℤ → ℤ) (left right result : Distribution) : Prop where
  law_eq : result.law = Law.combine operation left.law right.law
  range_subset_iff {interval : Set ℤ} : interval.OrdConnected →
    (result.range ⊆ interval ↔
      ∀ leftValue ∈ left.range, ∀ rightValue ∈ right.range,
        operation leftValue rightValue ∈ interval)

theorem combines_add (left right : Distribution) : Combines (· + ·) left right (left + right) := by
  refine ⟨law_add left right, fun {interval} hinterval => ?_⟩
  constructor
  · intro hsubset leftValue hleft rightValue hright
    apply hsubset
    rw [range, minimum_add, maximum_add]
    exact ⟨add_le_add hleft.1 hright.1, add_le_add hleft.2 hright.2⟩
  · intro hvalues
    rw [range_subset_iff hinterval, minimum_add, maximum_add]
    exact ⟨hvalues _ left.minimum_mem_range _ right.minimum_mem_range,
      hvalues _ left.maximum_mem_range _ right.maximum_mem_range⟩

theorem combines_mul (left right : Distribution) : Combines (· * ·) left right (left * right) := by
  refine ⟨law_mul left right, fun {interval} hinterval => ?_⟩
  constructor
  · intro hsubset leftValue hleft rightValue hright
    exact hsubset (mul_mem_range hleft hright)
  · intro hvalues
    have hend {distribution : Distribution} {limit : ℤ}
        (hlimit : limit = distribution.minimum ∨ limit = distribution.maximum) :
        limit ∈ distribution.range := by
      obtain rfl | rfl := hlimit
      · exact distribution.minimum_mem_range
      · exact distribution.maximum_mem_range
    rw [range_subset_iff hinterval]
    apply ends_mul left right (motive := (· ∈ interval))
    intro leftEnd rightEnd hleft hright
    exact hvalues _ (hend hleft) _ (hend hright)

/-- Along its left side the operation only rises or only falls. -/
def OneWay (operation : ℤ → ℤ → ℤ) : Prop :=
  ∀ rightValue, Monotone (operation · rightValue) ∨ Antitone (operation · rightValue)

theorem oneWay_add : OneWay (· + ·) :=
  fun rightValue => .inl fun _ _ hle => add_le_add_left hle rightValue

theorem oneWay_mul : OneWay (· * ·) := by
  intro rightValue
  obtain hneg | hpos := le_total rightValue 0
  · exact .inr fun _ _ hle => mul_le_mul_of_nonpos_right hle hneg
  · exact .inl fun _ _ hle => mul_le_mul_of_nonneg_right hle hpos

/-- What an operation that goes one way takes into an interval is an interval too. -/
theorem OneWay.ordConnected {operation : ℤ → ℤ → ℤ} (honeWay : OneWay operation)
    (hinterval : interval.OrdConnected) (rightValue : ℤ) :
    (Set.preimage (operation · rightValue) interval).OrdConnected := by
  obtain hmonotone | hantitone := honeWay rightValue
  · exact hinterval.preimage_mono hmonotone
  · exact hinterval.preimage_anti hantitone

section

variable {operation : ℤ → ℤ → ℤ} {first second third combined outer : Distribution}

theorem Combines.unique (hcombines : Combines operation left right result)
    (hother : Combines operation left right combined) : result = combined := by
  apply eq_of_law_of_range
  · rw [hcombines.law_eq, hother.law_eq]
  · apply range_eq_of_subset_iff
    intro interval hinterval
    rw [hcombines.range_subset_iff hinterval, hother.range_subset_iff hinterval]

theorem Combines.symm (hcombines : Combines operation left right result)
    (hcomm : ∀ leftValue rightValue,
      operation leftValue rightValue = operation rightValue leftValue) :
    Combines operation right left result := by
  refine ⟨hcombines.law_eq.trans (Law.combine_comm hcomm _ _), fun hinterval => ?_⟩
  rw [hcombines.range_subset_iff hinterval]
  constructor
  · intro hvalues rightValue hright leftValue hleft
    exact hcomm leftValue rightValue ▸ hvalues leftValue hleft rightValue hright
  · intro hvalues leftValue hleft rightValue hright
    exact hcomm leftValue rightValue ▸ hvalues rightValue hright leftValue hleft

/-- A range of three fits into an interval if all triples lead into it. -/
theorem Combines.range_subset_iff_triples (hinner : Combines operation first second combined)
    (houter : Combines operation combined third outer) (honeWay : OneWay operation)
    (hinterval : interval.OrdConnected) :
    outer.range ⊆ interval ↔
      ∀ firstValue ∈ first.range, ∀ secondValue ∈ second.range, ∀ thirdValue ∈ third.range,
        operation (operation firstValue secondValue) thirdValue ∈ interval := by
  rw [houter.range_subset_iff hinterval]
  constructor
  · intro hvalues firstValue hfirst secondValue hsecond thirdValue hthird
    have hcombined : combined.range ⊆ Set.preimage (operation · thirdValue) interval :=
      fun value hvalue => hvalues value hvalue thirdValue hthird
    exact (hinner.range_subset_iff (honeWay.ordConnected hinterval thirdValue)).1 hcombined
      firstValue hfirst secondValue hsecond
  · intro hvalues value hvalue thirdValue hthird
    have hcombined : combined.range ⊆ Set.preimage (operation · thirdValue) interval := by
      rw [hinner.range_subset_iff (honeWay.ordConnected hinterval thirdValue)]
      exact fun firstValue hfirst secondValue hsecond =>
        hvalues firstValue hfirst secondValue hsecond thirdValue hthird
    exact hcombined hvalue

theorem Combines.assoc {inner other : Distribution} (honeWay : OneWay operation)
    (hcomm : ∀ leftValue rightValue,
      operation leftValue rightValue = operation rightValue leftValue)
    (hassoc : ∀ first second third,
      operation (operation first second) third = operation first (operation second third))
    (hcombined : Combines operation first second combined)
    (houter : Combines operation combined third outer)
    (hinner : Combines operation second third inner)
    (hother : Combines operation first inner other) : outer = other := by
  apply eq_of_law_of_range
  · calc outer.law
        = Law.combine operation (Law.combine operation first.law second.law) third.law := by
          rw [houter.law_eq, hcombined.law_eq]
      _ = Law.combine operation first.law (Law.combine operation second.law third.law) :=
          Law.combine_assoc hassoc _ _ _
      _ = other.law := by rw [hother.law_eq, hinner.law_eq]
  · apply range_eq_of_subset_iff
    intro interval hinterval
    have hturn (firstValue secondValue thirdValue : ℤ) :
        operation (operation secondValue thirdValue) firstValue =
          operation (operation firstValue secondValue) thirdValue := by
      rw [hassoc firstValue, hcomm firstValue]
    rw [hcombined.range_subset_iff_triples houter honeWay hinterval,
      hinner.range_subset_iff_triples (hother.symm hcomm) honeWay hinterval]
    constructor
    · intro hvalues secondValue hsecond thirdValue hthird firstValue hfirst
      rw [hturn]
      exact hvalues firstValue hfirst secondValue hsecond thirdValue hthird
    · intro hvalues firstValue hfirst secondValue hsecond thirdValue hthird
      rw [← hturn]
      exact hvalues secondValue hsecond thirdValue hthird firstValue hfirst

theorem combines_point {unit : ℤ} (hunit : ∀ value, operation unit value = value)
    (distribution : Distribution) :
    Combines operation (point unit) distribution distribution := by
  have hidentity : operation unit = id := funext hunit
  constructor
  · rw [law_point, Law.combine_single_left, one_smul, hidentity, Finsupp.mapDomain_id]
  · intro interval _
    simp only [range_point, Set.mem_singleton_iff, forall_eq, hunit]
    rfl

theorem Combines.merged {other : Distribution} (honeWay : OneWay operation)
    (hfirst : Combines operation first right result)
    (hsecond : Combines operation second right other) :
    Combines operation (first.merged second) right (result.merged other) := by
  refine ⟨?_, fun {interval} hinterval => ?_⟩
  · rw [law_merged, law_merged, hfirst.law_eq, hsecond.law_eq, LinearMap.map_add₂]
  · rw [range_merged_subset_iff hinterval, hfirst.range_subset_iff hinterval,
      hsecond.range_subset_iff hinterval]
    constructor
    · intro hvalues leftValue hleft rightValue hright
      have hsubset : (first.merged second).range ⊆
          Set.preimage (operation · rightValue) interval := by
        rw [range_merged_subset_iff (honeWay.ordConnected hinterval rightValue)]
        exact ⟨fun value hvalue => hvalues.1 value hvalue rightValue hright,
          fun value hvalue => hvalues.2 value hvalue rightValue hright⟩
      exact hsubset hleft
    · intro hvalues
      obtain ⟨hfirstSubset, hsecondSubset⟩ :=
        (range_merged_subset_iff Set.ordConnected_Icc first second).1 subset_rfl
      exact ⟨fun value hvalue => hvalues value (hfirstSubset hvalue),
        fun value hvalue => hvalues value (hsecondSubset hvalue)⟩

theorem Combines.scaled (hcombines : Combines operation left right result) (factor : ℤ) :
    Combines operation (left.scaled factor) right (result.scaled factor) := by
  refine ⟨?_, fun hinterval => ?_⟩
  · rw [law_scaled, law_scaled, hcombines.law_eq, LinearMap.map_smul₂]
  · rw [range_scaled, range_scaled, hcombines.range_subset_iff hinterval]

end

/-! ### The laws of an operation -/

/-- The operation commutes, needs no brackets, has a unit on both sides, distributes over mergers on
both sides, and a factor can be applied to a side as well as to the result. -/
structure CombinationLaws (operation : Distribution → Distribution → Distribution)
    (unit : Distribution) : Prop where
  comm : ∀ left right, operation left right = operation right left
  assoc : ∀ first second third,
    operation (operation first second) third = operation first (operation second third)
  unit_left : ∀ distribution, operation unit distribution = distribution
  unit_right : ∀ distribution, operation distribution unit = distribution
  merged_left : ∀ first second right,
    operation (first.merged second) right = (operation first right).merged (operation second right)
  merged_right : ∀ left first second,
    operation left (first.merged second) = (operation left first).merged (operation left second)
  scaled : ∀ left right factor,
    (operation left right).scaled factor = operation (left.scaled factor) right

theorem CombinationLaws.of_combines {operation : Distribution → Distribution → Distribution}
    {onIntegers : ℤ → ℤ → ℤ} {unit : ℤ} (honeWay : OneWay onIntegers)
    (hcombines : ∀ left right, Combines onIntegers left right (operation left right))
    (hcomm : ∀ left right, onIntegers left right = onIntegers right left)
    (hassoc : ∀ first second third,
      onIntegers (onIntegers first second) third = onIntegers first (onIntegers second third))
    (hunit : ∀ value, onIntegers unit value = value) :
    CombinationLaws operation (point unit) := by
  have hcommutes (left right : Distribution) : operation left right = operation right left :=
    (hcombines left right).unique ((hcombines right left).symm hcomm)
  have hunitLeft (distribution : Distribution) :
      operation (point unit) distribution = distribution :=
    (hcombines _ _).unique (combines_point hunit distribution)
  have hmerged (first second right : Distribution) : operation (first.merged second) right =
      (operation first right).merged (operation second right) :=
    (hcombines _ _).unique ((hcombines first right).merged honeWay (hcombines second right))
  constructor
  · exact hcommutes
  · intro first second third
    exact (hcombines first second).assoc honeWay hcomm hassoc (hcombines _ _)
      (hcombines second third) (hcombines _ _)
  · exact hunitLeft
  · intro distribution
    rw [hcommutes, hunitLeft]
  · exact hmerged
  · intro left first second
    rw [hcommutes, hmerged, hcommutes first, hcommutes second]
  · intro left right factor
    exact ((hcombines left right).scaled factor).unique (hcombines _ _)

/-- Sums with the unit zero, products with the unit one, and mergers, as equalities of
distributions with all their zeros. -/
theorem laws_of_add_mul_merged :
    CombinationLaws (· + ·) (point 0) ∧ CombinationLaws (· * ·) (point 1) ∧
    (∀ left right : Distribution, left.merged right = right.merged left) ∧
    (∀ first second third : Distribution,
      (first.merged second).merged third = first.merged (second.merged third)) ∧
    (∀ (left right : Distribution) (factor : ℤ),
      (left.merged right).scaled factor = (left.scaled factor).merged (right.scaled factor)) :=
  ⟨.of_combines oneWay_add combines_add add_comm add_assoc zero_add,
    .of_combines oneWay_mul combines_mul mul_comm mul_assoc one_mul,
    merged_comm, merged_assoc, scaled_merged⟩

end DiceOdds.Distribution
