import DiceOdds.Distribution.Algebra
import DiceOdds.Proofs.Law

/-!
# The law of a distribution

A distribution is a law together with a range that holds it.  Every operation tallies a list of
entries, none of which falls outside of the buckets made for it, so the law of its outcome is the
law of those entries: a sum for `merged`, and a combination for the sum and the product.
-/

namespace DiceOdds.Distribution

/-- How much every integer weighs, all its entries together. -/
noncomputable def entriesLaw (entries : List (ℤ × ℤ)) : Law ℤ :=
  (entries.map fun (value, weight) => Finsupp.single value weight).sum

noncomputable def law (distribution : Distribution) : Law ℤ :=
  entriesLaw distribution.outcomes

@[simp]
theorem entriesLaw_nil : entriesLaw [] = 0 := rfl

theorem entriesLaw_cons (entry : ℤ × ℤ) (entries : List (ℤ × ℤ)) :
    entriesLaw (entry :: entries) = Finsupp.single entry.1 entry.2 + entriesLaw entries :=
  List.sum_cons

theorem entriesLaw_append (left right : List (ℤ × ℤ)) :
    entriesLaw (left ++ right) = entriesLaw left + entriesLaw right := by
  rw [entriesLaw, List.map_append, List.sum_append]
  rfl

theorem entriesLaw_apply_of_notMem {entries : List (ℤ × ℤ)} {value : ℤ}
    (hvalue : ∀ entry ∈ entries, entry.1 ≠ value) : entriesLaw entries value = 0 := by
  induction entries with
  | nil => rfl
  | cons entry entries ih =>
      rw [entriesLaw_cons, Finsupp.add_apply, ih fun other hmem => hvalue other (by simp [hmem]),
        Finsupp.single_eq_of_ne (hvalue entry List.mem_cons_self).symm, add_zero]

/-- The law of consecutive integers reads their weights off the list. -/
theorem entriesLaw_mapIdx_apply (start : ℤ) (weights : List ℤ) (value : ℤ) :
    entriesLaw (weights.mapIdx fun index weight => (start + index, weight)) value =
      if value < start then 0 else weights.getD (value - start).toNat 0 := by
  induction weights generalizing start with
  | nil => simp
  | cons weight weights ih =>
      have hshift : (weights.mapIdx fun index weight => (start + (index + 1 : ℕ), weight)) =
          weights.mapIdx fun index weight => (start + 1 + index, weight) := by
        congr 1
        funext index weight
        push_cast
        ring_nf
      rw [List.mapIdx_cons, hshift, entriesLaw_cons, Finsupp.add_apply, ih (start + 1),
        Nat.cast_zero, add_zero]
      obtain hbelow | rfl | habove := lt_trichotomy value start
      · rw [Finsupp.single_eq_of_ne hbelow.ne, if_pos (by omega), if_pos hbelow, add_zero]
      · simp
      · have hindex : (value - start).toNat = (value - (start + 1)).toNat + 1 := by omega
        rw [Finsupp.single_eq_of_ne habove.ne', if_neg (by omega), if_neg (by omega), hindex,
          List.getD_cons_succ, zero_add]

theorem law_apply (distribution : Distribution) (value : ℤ) :
    distribution.law value = distribution.weightAt value :=
  entriesLaw_mapIdx_apply distribution.start distribution.weights value

theorem map_snd_outcomes (distribution : Distribution) :
    distribution.outcomes.map Prod.snd = distribution.weights := by
  apply List.ext_getElem
  · simp [outcomes]
  · intro index _ _
    simp [outcomes]

theorem weightAt_of_mem_outcomes {distribution : Distribution} {entry : ℤ × ℤ}
    (hmem : entry ∈ distribution.outcomes) : distribution.weightAt entry.1 = entry.2 := by
  obtain ⟨index, hindex, rfl⟩ := List.mem_mapIdx.1 hmem
  have hposition : (distribution.start + index - distribution.start).toNat = index := by omega
  rw [weightAt, if_neg (by omega), hposition, List.getD_eq_getElem?_getD,
    List.getElem?_eq_getElem hindex]
  rfl

theorem mem_range_of_mem_outcomes {distribution : Distribution} {entry : ℤ × ℤ}
    (hmem : entry ∈ distribution.outcomes) :
    distribution.minimum ≤ entry.1 ∧ entry.1 ≤ distribution.maximum := by
  obtain ⟨index, hindex, rfl⟩ := List.mem_mapIdx.1 hmem
  rw [minimum, maximum, size]
  constructor <;> dsimp only <;> omega

theorem weightAt_of_outside {distribution : Distribution} {value : ℤ}
    (hvalue : value < distribution.minimum ∨ distribution.maximum < value) :
    distribution.weightAt value = 0 := by
  rw [← law_apply, law]
  apply entriesLaw_apply_of_notMem
  intro entry hmem
  have := mem_range_of_mem_outcomes hmem
  omega

theorem mem_outcomes_of_weightAt_ne_zero {distribution : Distribution} {value : ℤ}
    (hvalue : distribution.weightAt value ≠ 0) :
    (value, distribution.weightAt value) ∈ distribution.outcomes := by
  by_contra hmem
  apply hvalue
  rw [← law_apply, law]
  apply entriesLaw_apply_of_notMem
  rintro entry hentry rfl
  rw [weightAt_of_mem_outcomes hentry] at hmem
  exact hmem hentry

/-! ### Tallies -/

theorem getD_addToBucket {buckets : Array ℤ} {bucket : ℕ} (hbucket : bucket < buckets.size)
    {index : ℤ} (hindex : 0 ≤ index) (weight : ℤ) :
    (addToBucket buckets index weight).getD bucket 0 =
      buckets.getD bucket 0 + if index = bucket then weight else 0 := by
  rw [addToBucket, if_neg (not_lt.2 hindex)]
  simp only [Array.getD_eq_getD_getElem?, Array.getElem?_modify]
  by_cases hsame : index = bucket
  · subst hsame
    simp [hbucket]
  · have hother : index.toNat ≠ bucket := by omega
    rw [if_neg hother, if_neg hsame, add_zero]

/-- Filling adds to every bucket the weights of its entries. -/
theorem getD_fillBuckets {low : ℤ} {entries : List (ℤ × ℤ)}
    (hlow : ∀ entry ∈ entries, low ≤ entry.1) {buckets : Array ℤ} {bucket : ℕ}
    (hbucket : bucket < buckets.size) :
    (fillBuckets low buckets entries).getD bucket 0 =
      buckets.getD bucket 0 + entriesLaw entries (low + bucket) := by
  induction entries generalizing buckets with
  | nil => simp [fillBuckets]
  | cons entry entries ih =>
      have hentry : low ≤ entry.1 := hlow entry List.mem_cons_self
      have hstep : fillBuckets low buckets (entry :: entries) =
          fillBuckets low (addToBucket buckets (entry.1 - low) entry.2) entries := rfl
      rw [hstep, ih (fun other hmem => hlow other (by simp [hmem])) (by simpa using hbucket),
        getD_addToBucket hbucket (by omega), entriesLaw_cons, Finsupp.add_apply,
        Finsupp.single_apply, add_assoc]
      simp only [sub_eq_iff_eq_add']

theorem weightAt_tally {low high value : ℤ} (hvalue : low ≤ value) (entries : List (ℤ × ℤ)) :
    (tally low high entries).weightAt value =
      (fillBuckets low (emptyBuckets low high) entries).getD (value - low).toNat 0 := by
  apply (if_neg (not_lt.2 hvalue)).trans
  change (fillBuckets low (emptyBuckets low high) entries).toList.getD (value - low).toNat 0 = _
  rw [List.getD_eq_getElem?_getD, Array.getElem?_toList, Array.getD_eq_getD_getElem?]

/-- A tally whose range holds all entries has their law. -/
theorem law_tally {low high : ℤ} {entries : List (ℤ × ℤ)}
    (hrange : ∀ entry ∈ entries, low ≤ entry.1 ∧ entry.1 ≤ high) :
    (tally low high entries).law = entriesLaw entries := by
  ext value
  rw [law_apply]
  by_cases houtside : value < low ∨ (tally low high entries).maximum < value
  · rw [weightAt_of_outside houtside, entriesLaw_apply_of_notMem]
    intro entry hmem
    have hentry := hrange entry hmem
    rw [maximum_tally (hentry.1.trans hentry.2)] at houtside
    omega
  · obtain ⟨hlow, hhigh⟩ := not_or.1 houtside
    have hvalue : low + ((value - low).toNat : ℤ) = value := by omega
    have hbucket : (value - low).toNat < (emptyBuckets low high).size := by
      rw [maximum, size_tally, ← minimum, minimum_tally] at hhigh
      rw [emptyBuckets, Array.size_replicate]
      omega
    have hempty : (emptyBuckets low high).getD (value - low).toNat 0 = 0 := by
      rw [emptyBuckets, Array.getD_eq_getD_getElem?, Array.getElem?_replicate]
      split <;> rfl
    rw [weightAt_tally (not_lt.1 hlow),
      getD_fillBuckets (fun entry hmem => (hrange entry hmem).1) hbucket, hvalue, hempty, zero_add]

/-! ### Operations -/

@[simp]
theorem law_point (value weight : ℤ) : (point value weight).law = Finsupp.single value weight := by
  change Finsupp.single (value + (0 : ℕ)) weight + 0 = _
  rw [Nat.cast_zero, add_zero, add_zero]

theorem exists_uniform {faces : ℤ} (hfaces : 1 ≤ faces) :
    ∃ die, uniform faces = .ok die ∧ die.minimum = 1 ∧ die.maximum = faces ∧
      die.law = Law.ofDie (fun _ => 1) faces := by
  have hnonempty : List.replicate faces.toNat (1 : ℤ) ≠ [] := by
    rw [Ne, List.replicate_eq_nil_iff]
    omega
  refine ⟨⟨1, List.replicate faces.toNat 1, hnonempty⟩, dif_pos hnonempty, rfl, ?_, ?_⟩
  · rw [maximum, size, List.length_replicate]
    dsimp only
    omega
  · ext value
    rw [law_apply, weightAt, Law.ofDie_apply, List.getD_eq_getElem?_getD, List.getElem?_replicate]
    dsimp only
    split_ifs <;> first | rfl | omega

theorem entriesLaw_pairs (operation : ℤ → ℤ → ℤ) (left right : Distribution) :
    entriesLaw (pairs operation left right) = Law.combine operation left.law right.law := by
  have hrow (entry : ℤ × ℤ) (entries : List (ℤ × ℤ)) :
      entriesLaw (entries.map fun other => (operation entry.1 other.1, entry.2 * other.2)) =
        Law.combine operation (Finsupp.single entry.1 entry.2) (entriesLaw entries) := by
    induction entries with
    | nil => rw [List.map_nil, entriesLaw_nil, map_zero]
    | cons other entries ih =>
        rw [List.map_cons, entriesLaw_cons, ih, entriesLaw_cons, map_add,
          Law.combine_single_single]
  rw [pairs, law]
  induction left.outcomes with
  | nil => rw [List.flatMap_nil, entriesLaw_nil, map_zero, LinearMap.zero_apply]
  | cons entry entries ih =>
      rw [List.flatMap_cons, entriesLaw_append, ih, entriesLaw_cons, map_add, LinearMap.add_apply]
      congr 1
      exact hrow entry right.outcomes

theorem mem_pairs {operation : ℤ → ℤ → ℤ} {left right : Distribution} {entry : ℤ × ℤ}
    (hmem : entry ∈ pairs operation left right) :
    ∃ leftValue rightValue, entry.1 = operation leftValue rightValue ∧
      (left.minimum ≤ leftValue ∧ leftValue ≤ left.maximum) ∧
      (right.minimum ≤ rightValue ∧ rightValue ≤ right.maximum) := by
  obtain ⟨leftEntry, hleft, hrow⟩ := List.mem_flatMap.1 hmem
  obtain ⟨rightEntry, hright, rfl⟩ := List.mem_map.1 hrow
  exact ⟨leftEntry.1, rightEntry.1, rfl, mem_range_of_mem_outcomes hleft,
    mem_range_of_mem_outcomes hright⟩

theorem law_combined {operation : ℤ → ℤ → ℤ} {low high : ℤ} {left right : Distribution}
    (hrange : ∀ leftValue rightValue,
      left.minimum ≤ leftValue → leftValue ≤ left.maximum →
      right.minimum ≤ rightValue → rightValue ≤ right.maximum →
      low ≤ operation leftValue rightValue ∧ operation leftValue rightValue ≤ high) :
    (combined operation low high left right).law = Law.combine operation left.law right.law := by
  rw [combined_eq_tally, ← entriesLaw_pairs, law_tally]
  intro entry hmem
  obtain ⟨leftValue, rightValue, hentry, hleft, hright⟩ := mem_pairs hmem
  rw [hentry]
  exact hrange leftValue rightValue hleft.1 hleft.2 hright.1 hright.2

theorem law_add (left right : Distribution) :
    (left + right).law = Law.combine (· + ·) left.law right.law := by
  apply law_combined
  intro leftValue rightValue hleftLow hleftHigh hrightLow hrightHigh
  exact ⟨add_le_add hleftLow hrightLow, add_le_add hleftHigh hrightHigh⟩

theorem mul_mem_ends {low high value factor : ℤ} (hlow : low ≤ value) (hhigh : value ≤ high) :
    min (low * factor) (high * factor) ≤ value * factor ∧
      value * factor ≤ max (low * factor) (high * factor) := by
  obtain hneg | hpos := le_total factor 0
  · have hatLow := mul_le_mul_of_nonpos_right hlow hneg
    have hatHigh := mul_le_mul_of_nonpos_right hhigh hneg
    omega
  · have hatLow := mul_le_mul_of_nonneg_right hlow hpos
    have hatHigh := mul_le_mul_of_nonneg_right hhigh hpos
    omega

theorem minimum_mul (left right : Distribution) :
    (left * right).minimum =
      min (min (left.minimum * right.minimum) (left.minimum * right.maximum))
        (min (left.maximum * right.minimum) (left.maximum * right.maximum)) :=
  rfl

theorem maximum_mul (left right : Distribution) :
    (left * right).maximum =
      max (max (left.minimum * right.minimum) (left.minimum * right.maximum))
        (max (left.maximum * right.minimum) (left.maximum * right.maximum)) := by
  apply (congrArg maximum (combined_eq_tally (· * ·) _ _ left right)).trans
  apply maximum_tally
  omega

/-- No product of two integers of the ranges falls outside of the range of the product. -/
theorem mul_mem_range {left right : Distribution} {leftValue rightValue : ℤ}
    (hleft : left.minimum ≤ leftValue ∧ leftValue ≤ left.maximum)
    (hright : right.minimum ≤ rightValue ∧ rightValue ≤ right.maximum) :
    (left * right).minimum ≤ leftValue * rightValue ∧
      leftValue * rightValue ≤ (left * right).maximum := by
  rw [minimum_mul, maximum_mul]
  -- along either side the product is monotone, so it peaks at a corner of the two ranges
  have hinner : _ ∧ leftValue * rightValue ≤ _ := mul_mem_ends hleft.1 hleft.2
  have hatLow := @mul_mem_ends _ _ _ left.minimum hright.1 hright.2
  have hatHigh := @mul_mem_ends _ _ _ left.maximum hright.1 hright.2
  simp only [mul_comm rightValue, mul_comm right.minimum, mul_comm right.maximum] at hatLow hatHigh
  omega

theorem law_mul (left right : Distribution) :
    (left * right).law = Law.combine (· * ·) left.law right.law := by
  apply law_combined
  intro leftValue rightValue hleftLow hleftHigh hrightLow hrightHigh
  have hrange := mul_mem_range ⟨hleftLow, hleftHigh⟩ ⟨hrightLow, hrightHigh⟩
  rwa [minimum_mul, maximum_mul] at hrange

theorem law_scaled (distribution : Distribution) (factor : ℤ) :
    (distribution.scaled factor).law = factor • distribution.law := by
  ext value
  rw [Finsupp.smul_apply, law_apply, law_apply, weightAt, weightAt, smul_eq_mul, mul_ite, mul_zero]
  apply if_congr Iff.rfl rfl
  change (distribution.weights.map (· * factor)).getD (value - distribution.start).toNat 0 = _
  rw [List.getD_eq_getElem?_getD, List.getElem?_map, List.getD_eq_getElem?_getD, mul_comm]
  cases distribution.weights[(value - distribution.start).toNat]? with
  | none => exact (zero_mul factor).symm
  | some weight => rfl

theorem law_merged (left right : Distribution) :
    (left.merged right).law = left.law + right.law := by
  rw [merged, law_tally, entriesLaw_append]
  · rfl
  · intro entry hmem
    obtain hmem | hmem := List.mem_append.1 hmem
    · have := mem_range_of_mem_outcomes hmem
      omega
    · have := mem_range_of_mem_outcomes hmem
      omega

theorem weightAt_sub (left right : Distribution) (value : ℤ) :
    (left - right).weightAt value = (left + right).weightAt (value + 2 * right.minimum) := by
  have hindex : value - (left.start - right.start) =
      value + 2 * right.start - (left.start + right.start) := by ring
  change (if value < left.start - right.start then 0
      else (left + right).weights.getD (value - (left.start - right.start)).toNat 0) =
    if value + 2 * right.start < left.start + right.start then 0
      else (left + right).weights.getD
        (value + 2 * right.start - (left.start + right.start)).toNat 0
  rw [hindex]
  apply if_congr _ rfl rfl
  omega

/-- A difference has its own law if the right side weighs nothing past its minimum. -/
theorem law_sub {right : Distribution} (hright : right.size = 1) (left : Distribution) :
    (left - right).law = Law.combine (· - ·) left.law right.law := by
  obtain ⟨start, weights, hnonempty⟩ := right
  obtain ⟨weight, rfl⟩ := List.length_eq_one_iff.1 hright
  have hpoint : law ⟨start, [weight], hnonempty⟩ = Finsupp.single start weight :=
    law_point start weight
  ext value
  have hsum : value + 2 * start = value + start + start := by ring
  have hdifference : value + start - start = value := add_sub_cancel_right value start
  rw [law_apply, weightAt_sub, ← law_apply, law_add, hpoint, Law.combine_single_right,
    Law.combine_single_right, Finsupp.smul_apply, Finsupp.smul_apply]
  congr 1
  calc Finsupp.mapDomain (· + start) left.law (value + 2 * start)
      = left.law (value + start) := by
        rw [hsum]
        exact Finsupp.mapDomain_apply (add_left_injective start) _ _
    _ = Finsupp.mapDomain (· - start) left.law (value + start - start) :=
        (Finsupp.mapDomain_apply (sub_left_injective) _ _).symm
    _ = Finsupp.mapDomain (· - start) left.law value := by rw [hdifference]

theorem totalWeight_eq_sum (distribution : Distribution) :
    distribution.totalWeight = distribution.weights.sum :=
  rfl

theorem total_law (distribution : Distribution) :
    Law.total distribution.law = distribution.totalWeight := by
  have hentries (entries : List (ℤ × ℤ)) :
      Law.total (entriesLaw entries) = (entries.map Prod.snd).sum := by
    induction entries with
    | nil => rfl
    | cons entry entries ih =>
        rw [entriesLaw_cons, map_add, ih, Law.total, Finsupp.linearCombination_single, smul_eq_mul,
          mul_one, List.map_cons, List.sum_cons]
  rw [law, hentries, map_snd_outcomes, totalWeight_eq_sum]

end DiceOdds.Distribution
