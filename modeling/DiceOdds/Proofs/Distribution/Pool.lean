import DiceOdds.Proofs.Distribution.Law

/-!
# The law of a pool

A pool goes through its counts in increasing order and only ever adds the dice that the next count
has more than the last one.  What it has rolled so far is therefore always as many dice as the last
count calls for.  Each part is what its count would roll from the start, and the parts together have
the law of the mixture.
-/

namespace DiceOdds.Distribution

variable {counts die rolled pooled : Distribution} {count : ℕ}
variable {entry : ℤ × ℤ} {entries : List (ℤ × ℤ)}

theorem rollMore_rollMore (die rolled : Distribution) (first second : ℕ) :
    rollMore die (rollMore die rolled first) second = rollMore die rolled (first + second) := by
  induction first generalizing rolled with
  | zero => rw [rollMore, Nat.zero_add]
  | succ first ih => rw [rollMore, ih, Nat.succ_add, rollMore]

theorem law_rollMore (die rolled : Distribution) (more : ℕ) :
    (rollMore die rolled more).law =
      Law.combine (· + ·) rolled.law (Law.power die.law more) := by
  induction more generalizing rolled with
  | zero => rw [rollMore, Law.power, Law.combine_comm add_comm, Law.combine_add_single_zero]
  | succ more ih => rw [rollMore, ih, law_add, Law.power, Law.combine_assoc add_assoc]

/-! ### Parts -/

/-- The outcomes that weigh anything. -/
def live (distribution : Distribution) : List (ℤ × ℤ) :=
  distribution.outcomes.filter (·.2 ≠ 0)

theorem mem_live_iff {distribution : Distribution} :
    entry ∈ distribution.live ↔ distribution.weightAt entry.1 = entry.2 ∧ entry.2 ≠ 0 := by
  rw [live, List.mem_filter, decide_eq_true_iff]
  constructor
  · rintro ⟨hmem, hne⟩
    exact ⟨weightAt_of_mem_outcomes hmem, hne⟩
  · rintro ⟨hweight, hne⟩
    rw [← hweight] at hne
    have hmem := mem_outcomes_of_weightAt_ne_zero hne
    rw [hweight] at hmem hne
    exact ⟨hmem, hne⟩

/-- The part of a pool that belongs to one of its counts, rolled from the start. -/
def poolPart (die : Distribution) (entry : ℤ × ℤ) : Distribution :=
  (rollMore die (point 0) entry.1.toNat).scaled entry.2

theorem law_poolPart (die : Distribution) (entry : ℤ × ℤ) :
    (poolPart die entry).law = entry.2 • Law.power die.law entry.1.toNat := by
  rw [poolPart, law_scaled, law_rollMore, law_point, Law.combine_add_single_zero]

theorem poolParts_cons_of_eq (hweight : entry.2 = 0) :
    poolParts die rolled count (entry :: entries) = poolParts die rolled count entries :=
  if_pos hweight

theorem poolParts_cons_of_ne (hweight : entry.2 ≠ 0) :
    poolParts die rolled count (entry :: entries) =
      (rollMore die rolled (entry.1.toNat - count)).scaled entry.2 ::
        poolParts die (rollMore die rolled (entry.1.toNat - count))
          (count + (entry.1.toNat - count)) entries :=
  if_neg hweight

/-- Going on from the last count leads to the same parts as rolling all dice of each count. -/
theorem poolParts_eq_map (hsorted : entries.Pairwise fun earlier later => earlier.1 ≤ later.1)
    (hcount : ∀ entry ∈ entries, count ≤ entry.1.toNat) :
    poolParts die (rollMore die (point 0) count) count entries =
      (entries.filter (·.2 ≠ 0)).map (poolPart die) := by
  induction entries generalizing count with
  | nil => rfl
  | cons entry entries ih =>
      obtain ⟨hfirst, hsorted⟩ := List.pairwise_cons.1 hsorted
      obtain ⟨hentry, hrest⟩ := List.forall_mem_cons.1 hcount
      by_cases hweight : entry.2 = 0
      · rw [poolParts_cons_of_eq hweight, ih hsorted hrest,
          List.filter_cons_of_neg (by simpa using hweight)]
      · have hvalue : count + (entry.1.toNat - count) = entry.1.toNat := Nat.add_sub_of_le hentry
        have hlater : ∀ other ∈ entries, entry.1.toNat ≤ other.1.toNat :=
          fun other hmem => Int.toNat_le_toNat (hfirst other hmem)
        rw [poolParts_cons_of_ne hweight, rollMore_rollMore, hvalue, ih hsorted hlater,
          List.filter_cons_of_pos (by simpa using hweight), List.map_cons, poolPart]

theorem pairwise_outcomes (distribution : Distribution) :
    distribution.outcomes.Pairwise fun earlier later => earlier.1 ≤ later.1 := by
  rw [List.pairwise_iff_getElem]
  intro earlier later _ _ hlt
  simp only [outcomes, List.getElem_mapIdx]
  omega

theorem poolParts_outcomes (counts die : Distribution) :
    poolParts die (point 0) 0 counts.outcomes = counts.live.map (poolPart die) :=
  poolParts_eq_map counts.pairwise_outcomes fun _ _ => Nat.zero_le _

/-! ### Pools -/

/-- A pool merges the parts of all counts that weigh anything, of which there must be one. -/
theorem pool_eq_ok_iff :
    pool counts die = .ok pooled ↔
      ∃ part parts, counts.live.map (poolPart die) = part :: parts ∧
        parts.foldl merged part = pooled := by
  rw [pool, poolParts_outcomes]
  cases counts.live.map (poolPart die) with
  | nil => exact ⟨nofun, nofun⟩
  | cons part parts => simp

theorem law_foldl_merged (part : Distribution) (parts : List Distribution) :
    (parts.foldl merged part).law = part.law + (parts.map law).sum := by
  induction parts generalizing part with
  | nil => rw [List.foldl_nil, List.map_nil, List.sum_nil, add_zero]
  | cons first parts ih =>
      rw [List.foldl_cons, ih, law_merged, List.map_cons, List.sum_cons, add_assoc]

theorem sum_law_poolPart (die : Distribution) (entries : List (ℤ × ℤ)) :
    (((entries.filter (·.2 ≠ 0)).map (poolPart die)).map law).sum =
      Law.pool die.law (entriesLaw entries) := by
  induction entries with
  | nil => exact (map_zero (Law.pool die.law)).symm
  | cons entry entries ih =>
      rw [entriesLaw_cons, map_add, Law.pool_single, ← ih]
      by_cases hweight : entry.2 = 0
      · rw [List.filter_cons_of_neg (by simpa using hweight), hweight, zero_smul, zero_add]
      · rw [List.filter_cons_of_pos (by simpa using hweight), List.map_cons, List.map_cons,
          List.sum_cons, law_poolPart]

/-- A pool has the law of the mixture. -/
theorem law_of_pool (hpool : pool counts die = .ok pooled) :
    pooled.law = Law.pool die.law counts.law := by
  obtain ⟨part, parts, hparts, rfl⟩ := pool_eq_ok_iff.1 hpool
  calc (parts.foldl merged part).law
      = part.law + (parts.map law).sum := law_foldl_merged part parts
    _ = ((counts.live.map (poolPart die)).map law).sum := by
        rw [hparts, List.map_cons, List.sum_cons]
    _ = Law.pool die.law counts.law := sum_law_poolPart die counts.outcomes

/-- A pool has a distribution as soon as some count weighs anything. -/
theorem exists_pool {value : ℤ} (hvalue : counts.weightAt value ≠ 0) (die : Distribution) :
    ∃ pooled, pool counts die = .ok pooled := by
  have hmem : (value, counts.weightAt value) ∈ counts.live := mem_live_iff.2 ⟨rfl, hvalue⟩
  obtain ⟨part, parts, hparts⟩ := List.exists_cons_of_ne_nil
    (List.ne_nil_of_mem (List.mem_map_of_mem (f := poolPart die) hmem))
  exact ⟨_, pool_eq_ok_iff.2 ⟨part, parts, hparts, rfl⟩⟩

end DiceOdds.Distribution
