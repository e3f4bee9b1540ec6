import DiceOdds.Expr.Roll
import DiceOdds.Proofs.Draws
import DiceOdds.Proofs.Law

/-!
# The law of a roll

A computation that draws at random has a law once every draw has a share: with a share of one for
every draw it counts the scripts that lead to a result, and with equal shares that add up to one it
tells the chance of a result.  The law of an expression is built from the laws of its parts.
-/

namespace DiceOdds

namespace Draws

variable {α β : Type} {R : Type*} [CommSemiring R]

/-- How much of each result there is when each draw from 1 to `faces` counts for `share faces`. -/
noncomputable def law (share : ℤ → R) : Draws α → α →₀ R
  | done result => Finsupp.single result 1
  | ask faces next => share faces • ∑ value ∈ Finset.Icc 1 faces, (next value).law share

theorem law_ask_apply (share : ℤ → R) (faces : ℤ) (next : ℤ → Draws α) (result : α) :
    (ask faces next).law share result =
      share faces * ∑ value ∈ Finset.Icc 1 faces, (next value).law share result := by
  rw [law, Finsupp.smul_apply, Finsupp.finsetSum_apply, smul_eq_mul]

theorem law_bind (share : ℤ → R) (draws : Draws α) (continuation : α → Draws β) :
    (draws.bind continuation).law share =
      Finsupp.linearCombination R (fun result => (continuation result).law share)
        (draws.law share) := by
  induction draws with
  | done result => rw [bind, law, Finsupp.linearCombination_single, one_smul]
  | ask faces next ih => simp only [bind, law, map_smul, map_sum, ih]

theorem law_map (share : ℤ → R) (draws : Draws α) (function : α → β) :
    (draws.bind fun result => .done (function result)).law share =
      Finsupp.lmapDomain R R function (draws.law share) := by
  rw [law_bind]
  congr 1
  apply Finsupp.lhom_ext
  intro result weight
  simp [law]

theorem cast_law {R : Type*} [CommRing R] (draws : Draws α) (result : α) :
    ((draws.law (fun _ => (1 : ℤ)) result : ℤ) : R) = draws.law (fun _ => (1 : R)) result := by
  induction draws with
  | done outcome =>
      by_cases hsame : outcome = result
      · rw [law, law, hsame, Finsupp.single_eq_same, Finsupp.single_eq_same, Int.cast_one]
      · rw [law, law, Finsupp.single_eq_of_ne' hsame, Finsupp.single_eq_of_ne' hsame,
          Int.cast_zero]
  | ask faces next ih => simp only [law_ask_apply, one_mul, Int.cast_sum, ih]

/-! ### Scripts -/

/-- The scripts that lead to a result: the computation uses up the whole script and no more, and
every draw lies in the range that it was asked from. -/
def scripts (draws : Draws α) (result : α) : Set (List ℤ) :=
  {script |
    (draws.run Source.scripted script).result = some result ∧
    (draws.run Source.scripted script).state = [] ∧
    List.Forall₂ (fun value faces => 1 ≤ value ∧ value ≤ faces) script
      (draws.run Source.scripted script).calls}

theorem scripts_done_self (result : α) : (done result).scripts result = {[]} := by
  ext script
  constructor
  · rintro ⟨-, hstate, -⟩
    exact hstate
  · rintro rfl
    exact ⟨rfl, rfl, .nil⟩

theorem scripts_done_of_ne {outcome result : α} (hne : outcome ≠ result) :
    (done outcome).scripts result = ∅ := by
  ext script
  constructor
  · rintro ⟨hresult, -, -⟩
    exact hne (Option.some.inj hresult)
  · exact nofun

theorem run_ask_cons (faces : ℤ) (next : ℤ → Draws α) (value : ℤ) (script : List ℤ) :
    (ask faces next).run Source.scripted (value :: script) =
      { (next value).run Source.scripted script with
        calls := faces :: ((next value).run Source.scripted script).calls } :=
  run_ask_of_some rfl next

theorem mem_scripts_ask {faces : ℤ} {next : ℤ → Draws α} {result : α} {script : List ℤ} :
    script ∈ (ask faces next).scripts result ↔
      ∃ value ∈ Finset.Icc 1 faces, ∃ more ∈ (next value).scripts result,
        value :: more = script := by
  constructor
  · rintro ⟨hresult, hstate, hrange⟩
    cases script with
    | nil => cases hresult
    | cons value more =>
        rw [run_ask_cons] at hresult hstate hrange
        obtain ⟨hvalue, hmore⟩ := List.forall₂_cons.1 hrange
        exact ⟨value, Finset.mem_Icc.2 hvalue, more, ⟨hresult, hstate, hmore⟩, rfl⟩
  · rintro ⟨value, hvalue, more, ⟨hresult, hstate, hrange⟩, rfl⟩
    rw [scripts, Set.mem_ofPred_eq, run_ask_cons]
    exact ⟨hresult, hstate, .cons (Finset.mem_Icc.1 hvalue) hrange⟩

/-- There are finitely many scripts, and the law of equal shares counts them. -/
theorem exists_finset_scripts (draws : Draws α) (result : α) :
    ∃ all : Finset (List ℤ), (all : Set (List ℤ)) = draws.scripts result ∧
      (all.card : ℤ) = draws.law (fun _ => (1 : ℤ)) result := by
  induction draws with
  | done outcome =>
      by_cases hsame : outcome = result
      · subst hsame
        refine ⟨{[]}, ?_, ?_⟩
        · rw [scripts_done_self, Finset.coe_singleton]
        · simp [law]
      · refine ⟨∅, ?_, ?_⟩
        · rw [scripts_done_of_ne hsame, Finset.coe_empty]
        · simp [law, hsame]
  | ask faces next ih =>
      choose all hall hcard using ih
      refine ⟨(Finset.Icc 1 faces).biUnion fun value => (all value).image (value :: ·), ?_, ?_⟩
      · ext script
        rw [mem_scripts_ask]
        simp only [Finset.mem_coe, Finset.mem_biUnion, Finset.mem_image, ← hall]
      · rw [Finset.card_biUnion]
        · simp only [law, one_smul, Finsupp.finsetSum_apply, ← hcard, Nat.cast_sum]
          apply Finset.sum_congr rfl
          intro value _
          rw [Finset.card_image_of_injective _ (List.cons_injective)]
        · intro first _ second _ hne
          rw [Function.onFun, Finset.disjoint_left]
          simp only [Finset.mem_image, not_exists, not_and]
          rintro _ ⟨_, _, rfl⟩ _ _ heq
          exact hne (List.cons.inj heq).1.symm

theorem scripts_finite (draws : Draws α) (result : α) : (draws.scripts result).Finite := by
  obtain ⟨all, hall, -⟩ := exists_finset_scripts draws result
  rw [← hall]
  exact all.finite_toSet

theorem ncard_scripts (draws : Draws α) (result : α) :
    ((draws.scripts result).ncard : ℤ) = draws.law (fun _ => (1 : ℤ)) result := by
  obtain ⟨all, hall, hcard⟩ := exists_finset_scripts draws result
  rw [← hall, Set.ncard_coe_finset, hcard]

/-! ### Positive shares -/

section Order

variable [PartialOrder R] [IsStrictOrderedRing R] {share : ℤ → R}

theorem law_nonneg (hshare : ∀ faces, 1 ≤ faces → 0 < share faces) (draws : Draws α) :
    0 ≤ draws.law share := by
  intro result
  induction draws with
  | done outcome => exact Finsupp.single_nonneg.2 zero_le_one result
  | ask faces next ih =>
      rw [law_ask_apply]
      by_cases hfaces : 1 ≤ faces
      · exact mul_nonneg (hshare faces hfaces).le (Finset.sum_nonneg fun value _ => ih value)
      · rw [Finset.Icc_eq_empty hfaces, Finset.sum_empty, mul_zero]
        rfl

/-- The law reaches just the results that some script leads to. -/
theorem law_ne_zero_iff (hshare : ∀ faces, 1 ≤ faces → 0 < share faces) (draws : Draws α)
    (result : α) : draws.law share result ≠ 0 ↔ (draws.scripts result).Nonempty := by
  induction draws with
  | done outcome =>
      by_cases hsame : outcome = result
      · subst hsame
        simp [law, scripts_done_self]
      · simp [law, scripts_done_of_ne hsame, hsame]
  | ask faces next ih =>
      rw [law_ask_apply]
      constructor
      · intro hne
        obtain ⟨value, hvalue, hlaw⟩ :=
          Finset.exists_ne_zero_of_sum_ne_zero (right_ne_zero_of_mul hne)
        obtain ⟨more, hmore⟩ := (ih value).1 hlaw
        exact ⟨value :: more, mem_scripts_ask.2 ⟨value, hvalue, more, hmore, rfl⟩⟩
      · rintro ⟨script, hscript⟩
        obtain ⟨value, hvalue, more, hmore, rfl⟩ := mem_scripts_ask.1 hscript
        have hfaces : 1 ≤ faces := (Finset.mem_Icc.1 hvalue).1.trans (Finset.mem_Icc.1 hvalue).2
        have hpositive : 0 < (next value).law share result :=
          (law_nonneg hshare (next value) result).lt_of_ne' ((ih value).2 ⟨more, hmore⟩)
        have hsum := Finset.sum_pos' (fun other _ => law_nonneg hshare (next other) result)
          ⟨value, hvalue, hpositive⟩
        exact (mul_pos (hshare faces hfaces) hsum).ne'

end Order

end Draws

namespace Expr

theorem roll_pool (count : Expr) (shape : Die) :
    (binary .mul count (die shape)).roll =
      count.roll.bind fun dice => rollDice shape.faces 0 dice.toNat :=
  rfl

theorem roll_plain {operator : Operator} {left right : Expr}
    (hplain : ∀ shape, operator = .mul → right = .die shape → False) :
    (binary operator left right).roll =
      left.roll.bind fun leftValue => right.roll.bind fun rightValue =>
        .done (operator.apply leftValue rightValue) := by
  rw [roll]
  · rfl
  · exact hplain

open Law

variable {R : Type*} [CommSemiring R] (share : ℤ → R)

theorem law_rollDice (faces sum : ℤ) (count : ℕ) :
    (rollDice faces sum count).law share =
      combine (· + ·) (Finsupp.single sum 1) (power (ofDie share faces) count) := by
  induction count generalizing sum with
  | zero => rw [rollDice, Draws.law, power, combine_single_single, add_zero, one_mul]
  | succ count ih =>
      rw [rollDice, Draws.law, power, ← combine_assoc add_assoc, combine_single_ofDie]
      simp only [ih, map_smul, map_sum, LinearMap.smul_apply, LinearMap.sum_apply]

/-- How much of each result a roll gives. -/
noncomputable def law (expr : Expr) : Law R :=
  expr.roll.law share

theorem law_number (value : ℤ) : (number value).law share = Finsupp.single value 1 :=
  rfl

theorem law_die (shape : Die) : (die shape).law share = ofDie share shape.faces :=
  rfl

theorem law_pool (count : Expr) (shape : Die) :
    (binary .mul count (die shape)).law share =
      pool (ofDie share shape.faces) (count.law share) := by
  rw [law, roll_pool, Draws.law_bind, pool]
  simp only [law_rollDice, combine_add_single_zero]
  rfl

theorem law_binary {operator : Operator} {left right : Expr}
    (hplain : ∀ shape, operator = .mul → right = .die shape → False) :
    (binary operator left right).law share =
      combine operator.apply (left.law share) (right.law share) := by
  rw [law, roll_plain hplain, Draws.law_bind, combine, Finsupp.linearCombination_apply,
    Finsupp.linearCombination_apply, LinearMap.finsupp_sum_apply]
  apply Finsupp.sum_congr
  intro leftValue _
  rw [Draws.law_map]
  rfl

end Expr

end DiceOdds
