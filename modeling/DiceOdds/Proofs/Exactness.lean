import DiceOdds.Proofs.Accepted
import DiceOdds.Proofs.Chances

/-!
# Where weights give the exact chances

The odds of a tree give all its scripts the same weight, but a script of many draws is less likely
than one of few.  A pool whose number of dice varies has scripts of different lengths, and the odds
favor the long ones.  Everything else keeps the ways to reach a result in proportion to its chance.
-/

namespace DiceOdds

open Law

namespace Expr

/-- The tree and all trees in it. -/
def parts : Expr → List Expr
  | number value => [number value]
  | die shape => [die shape]
  | binary operator left right => binary operator left right :: (left.parts ++ right.parts)

/-- As the count of a pool, the tree always calls for as many dice. -/
def Fixed (count : Expr) : Prop :=
  ∀ first ∈ count.results, ∀ second ∈ count.results, first.toNat = second.toNat

def Vanishes (expr : Expr) : Prop :=
  ∀ value ∈ expr.results, value = 0

/-- No product has a negative factor.  A pool may have a negative count. -/
def NonnegFactors : Expr → Prop
  | number _ => True
  | die _ => True
  | binary .mul count (die _) => count.NonnegFactors
  | binary .mul left right =>
      (left.NonnegFactors ∧ ∀ value ∈ left.results, 0 ≤ value) ∧
        (right.NonnegFactors ∧ ∀ value ∈ right.results, 0 ≤ value)
  | binary _ left right => left.NonnegFactors ∧ right.NonnegFactors

/-- Every pool has a fixed number of dice or dice with a single face. -/
def Steady : Expr → Prop
  | number _ => True
  | die _ => True
  | binary .mul count (die shape) => count.Steady ∧ (count.Fixed ∨ shape.faces = 1)
  | binary _ left right => left.Steady ∧ right.Steady

/-- As `Steady`, but what happens inside of a fixed count or next to a factor that is always zero is
of no importance. -/
def Fair : Expr → Prop
  | number _ => True
  | die _ => True
  | binary .mul count (die shape) => count.Fixed ∨ (count.Fair ∧ shape.faces = 1)
  | binary .mul left right => left.Vanishes ∨ right.Vanishes ∨ (left.Fair ∧ right.Fair)
  | binary _ left right => left.Fair ∧ right.Fair

variable {expr left right count : Expr} {shape : Die} {operator : Operator}

/-- A number calls for that many dice. -/
theorem fixed_number (value : ℤ) : (number value).Fixed := by
  have hvalue {result : ℤ} (hresult : result ∈ (number value).results) : result = value := by
    rw [← chances_ne_zero_iff, chances, law_number] at hresult
    exact (Finsupp.single_apply_ne_zero.1 hresult).1
  intro first hfirst second hsecond
  rw [hvalue hfirst, hvalue hsecond]

theorem fair_mul_iff (hplain : ∀ shape, right = .die shape → False) :
    (binary .mul left right).Fair ↔
      left.Vanishes ∨ right.Vanishes ∨ (left.Fair ∧ right.Fair) := by
  rw [Fair]
  exact hplain

theorem nonnegFactors_mul_iff (hplain : ∀ shape, right = .die shape → False) :
    (binary .mul left right).NonnegFactors ↔
      (left.NonnegFactors ∧ ∀ value ∈ left.results, 0 ≤ value) ∧
        (right.NonnegFactors ∧ ∀ value ∈ right.results, 0 ≤ value) := by
  rw [NonnegFactors]
  exact hplain

theorem NonnegFactors.sides (hplain : ∀ shape, operator = .mul → right = .die shape → False)
    (hfactors : (binary operator left right).NonnegFactors) :
    left.NonnegFactors ∧ right.NonnegFactors := by
  cases operator with
  | add => exact hfactors
  | sub => exact hfactors
  | mul =>
      obtain ⟨hleft, hright⟩ :=
        (nonnegFactors_mul_iff fun shape hshape => hplain shape rfl hshape).1 hfactors
      exact ⟨hleft.1, hright.1⟩

/-! ### Fair trees are exact -/

theorem ways_eq_zero_of_vanishes (hvanishes : expr.Vanishes) (value : ℤ)
    (hvalue : expr.ways value ≠ 0) : value = 0 :=
  hvanishes value (ways_ne_zero_iff.1 hvalue)

theorem chances_eq_zero_of_vanishes (hvanishes : expr.Vanishes) (value : ℤ)
    (hvalue : expr.chances value ≠ 0) : value = 0 :=
  hvanishes value (chances_ne_zero_iff.1 hvalue)

/-- A fixed number of dice gives every script of the pool as many draws. -/
theorem proportional_of_fixed (hfaced : count.Faced) (hfaces : 1 ≤ shape.faces)
    (hfixed : count.Fixed) :
    Proportional (binary .mul count (die shape)).ways (binary .mul count (die shape)).chances := by
  obtain ⟨first, hfirst⟩ := exists_mem_results hfaced
  have hways (value : ℤ) (hvalue : count.ways value ≠ 0) : value.toNat = first.toNat :=
    hfixed value (ways_ne_zero_iff.1 hvalue) first hfirst
  have hchances (value : ℤ) (hvalue : count.chances value ≠ 0) : value.toNat = first.toNat :=
    hfixed value (chances_ne_zero_iff.1 hvalue) first hfirst
  have hpool :=
    calc (binary .mul count (die shape)).ways
        = total count.ways • power (die shape).ways first.toNat := by
          rw [ways_pool, pool_of_fixed hways]
      _ = (total count.ways * shape.faces ^ first.toNat) •
            power (die shape).chances first.toNat := by
          rw [ways_die hfaces, power_smul, smul_smul]
      _ = (total count.ways * shape.faces ^ first.toNat) •
            (binary .mul count (die shape)).chances := by
          rw [chances_pool, pool_of_fixed hchances, total_chances hfaced, one_smul]
  exact ⟨_, hpool⟩

theorem proportional_of_one_face (hfaces : shape.faces = 1)
    (hcount : Proportional count.ways count.chances) :
    Proportional (binary .mul count (die shape)).ways (binary .mul count (die shape)).chances := by
  obtain ⟨factor, hfactor⟩ := hcount
  have hdie : (die shape).ways = (die shape).chances := by
    rw [ways_die hfaces.ge, hfaces, Int.cast_one, one_smul]
  have hpool :=
    calc (binary .mul count (die shape)).ways
        = pool (die shape).chances (factor • count.chances) := by rw [ways_pool, hdie, hfactor]
      _ = factor • (binary .mul count (die shape)).chances := by rw [chances_pool, map_smul]
  exact ⟨factor, hpool⟩

/-- A factor that is always zero leaves a single result. -/
theorem proportional_of_vanishes (hplain : ∀ shape, right = .die shape → False)
    (hleft : left.Faced) (hright : right.Faced) (hvanishes : left.Vanishes ∨ right.Vanishes) :
    Proportional (binary .mul left right).ways (binary .mul left right).chances := by
  have hzero {first second : Law ℚ}
      (hsides : (∀ value, first value ≠ 0 → value = 0) ∨ ∀ value, second value ≠ 0 → value = 0) :
      combine (· * ·) first second = Finsupp.single 0 (total first * total second) := by
    obtain hfirst | hsecond := hsides
    · exact combine_mul_of_zero hfirst
    · rw [combine_comm mul_comm, combine_mul_of_zero hsecond, mul_comm]
  have hways : (binary .mul left right).ways =
      Finsupp.single 0 (total left.ways * total right.ways) := by
    rw [ways_binary fun shape _ => hplain shape]
    exact hzero (hvanishes.imp ways_eq_zero_of_vanishes ways_eq_zero_of_vanishes)
  have hchances : (binary .mul left right).chances = Finsupp.single 0 1 := by
    rw [chances_binary fun shape _ => hplain shape]
    apply (hzero (hvanishes.imp chances_eq_zero_of_vanishes chances_eq_zero_of_vanishes)).trans
    rw [total_chances hleft, total_chances hright, mul_one]
  refine ⟨total left.ways * total right.ways, ?_⟩
  rw [hways, hchances, Finsupp.smul_single, smul_eq_mul, mul_one]

theorem proportional_of_fair (hfree : expr.SubFree) (hfaced : expr.Faced) (hfair : expr.Fair) :
    Proportional expr.ways expr.chances := by
  induction expr using poolInduction with
  | number value => exact ⟨1, (one_smul ℚ _).symm⟩
  | die shape => exact ⟨shape.faces, ways_die hfaced⟩
  | pool count shape ih =>
      obtain hfixed | ⟨hcount, hfaces⟩ := hfair
      · exact proportional_of_fixed hfaced.1 hfaced.2 hfixed
      · exact proportional_of_one_face hfaces (ih hfree.2.1 hfaced.1 hcount)
  | plain operator left right hplain ihLeft ihRight =>
      have hsides (hfair : left.Fair ∧ right.Fair) :
          Proportional (binary operator left right).ways (binary operator left right).chances := by
        rw [ways_binary hplain, chances_binary hplain]
        exact (ihLeft hfree.2.1 hfaced.1 hfair.1).combine _ (ihRight hfree.2.2 hfaced.2 hfair.2)
      cases operator with
      | add => exact hsides hfair
      | sub => exact absurd rfl hfree.1
      | mul =>
          have hright (shape : Die) (hshape : right = .die shape) : False :=
            hplain shape rfl hshape
          obtain hvanishes | hvanishes | hfair := (fair_mul_iff hright).1 hfair
          · exact proportional_of_vanishes hright hfaced.1 hfaced.2 (.inl hvanishes)
          · exact proportional_of_vanishes hright hfaced.1 hfaced.2 (.inr hvanishes)
          · exact hsides hfair

/-! ### Trees without negative factors -/

theorem nonneg_of_chances_die_ne_zero {value : ℤ} (hvalue : (die shape).chances value ≠ 0) :
    0 ≤ value := by
  rw [chances_die_apply] at hvalue
  exact zero_le_one.trans (ite_ne_right_iff.1 hvalue).1.1

theorem nonneg_of_writable (hwritable : expr.Writable) (hfree : expr.SubFree) {value : ℤ}
    (hvalue : value ∈ expr.results) : 0 ≤ value := by
  rw [← chances_ne_zero_iff] at hvalue
  induction expr using poolInduction generalizing value with
  | number number =>
      rw [chances, law_number] at hvalue
      exact (Finsupp.single_apply_ne_zero.1 hvalue).1 ▸ hwritable
  | die shape => exact nonneg_of_chances_die_ne_zero hvalue
  | pool count shape ih =>
      rw [chances_pool] at hvalue
      obtain ⟨rolls, -, hvalue⟩ := exists_of_pool_ne_zero hvalue
      exact nonneg_of_power_ne_zero (fun side hside => nonneg_of_chances_die_ne_zero hside) hvalue
  | plain operator left right hplain ihLeft ihRight =>
      rw [chances_binary hplain] at hvalue
      obtain ⟨leftValue, rightValue, hleft, hright, rfl⟩ := exists_of_combine_ne_zero hvalue
      have hleft := ihLeft hwritable.1 hfree.2.1 hleft
      have hright := ihRight hwritable.2 hfree.2.2 hright
      cases operator with
      | add => exact add_nonneg hleft hright
      | sub => exact absurd rfl hfree.1
      | mul => exact mul_nonneg hleft hright

/-- A tree that was read from a text has no negative factors. -/
theorem nonnegFactors_of_writable (hwritable : expr.Writable) (hfree : expr.SubFree) :
    expr.NonnegFactors := by
  induction expr using poolInduction with
  | number value => trivial
  | die shape => trivial
  | pool count shape ih => exact ih hwritable.1 hfree.2.1
  | plain operator left right hplain ihLeft ihRight =>
      have hleft := ihLeft hwritable.1 hfree.2.1
      have hright := ihRight hwritable.2 hfree.2.2
      cases operator with
      | add => exact ⟨hleft, hright⟩
      | sub => exact absurd rfl hfree.1
      | mul =>
          rw [nonnegFactors_mul_iff fun shape hshape => hplain shape rfl hshape]
          exact ⟨⟨hleft, fun _ => nonneg_of_writable hwritable.1 hfree.2.1⟩,
            hright, fun _ => nonneg_of_writable hwritable.2 hfree.2.2⟩

/-! ### The ratio at the greatest result -/

theorem fixed_of_top_nonpos {top : ℤ} {ratio : ℚ}
    (hdominated : Dominated count.ways count.chances top ratio) (htop : top ≤ 0) :
    count.Fixed := by
  have hzero {value : ℤ} (hvalue : value ∈ count.results) : value.toNat = 0 := by
    have := hdominated.le_top value (ways_ne_zero_iff.2 hvalue)
    omega
  intro first hfirst second hsecond
  rw [hzero hfirst, hzero hsecond]

theorem vanishes_of_top_nonpos {top : ℤ} {ratio : ℚ}
    (hdominated : Dominated expr.ways expr.chances top ratio) (htop : top ≤ 0)
    (hnonneg : ∀ value ∈ expr.results, 0 ≤ value) : expr.Vanishes := by
  intro value hvalue
  have hle := hdominated.le_top value (ways_ne_zero_iff.2 hvalue)
  exact le_antisymm (hle.trans htop) (hnonneg value hvalue)

theorem exists_dominated_of_proportional (hfaced : expr.Faced)
    (hproportional : Proportional expr.ways expr.chances) :
    ∃ top ratio, Dominated expr.ways expr.chances top ratio := by
  obtain ⟨top, hdominated⟩ := Dominated.of_proportional hproportional (total_ways_pos hfaced)
    expr.chances_nonneg (total_chances hfaced)
  exact ⟨top, _, hdominated⟩

/-- The greatest product takes the most draws if no factor is negative. -/
theorem vanishes_or_dominated_mul {top top' : ℤ} {ratio ratio' : ℚ}
    (hleft : Dominated left.ways left.chances top ratio)
    (hright : Dominated right.ways right.chances top' ratio')
    (hplain : ∀ shape, right = .die shape → False)
    (hfactors : (binary .mul left right).NonnegFactors) :
    (left.Vanishes ∨ right.Vanishes) ∨
      Dominated (binary .mul left right).ways (binary .mul left right).chances (top * top')
        (ratio * ratio') := by
  obtain ⟨⟨-, hleftNonneg⟩, -, hrightNonneg⟩ := (nonnegFactors_mul_iff hplain).1 hfactors
  obtain htop | htop := le_or_gt top 0
  · exact .inl (.inl (vanishes_of_top_nonpos hleft htop hleftNonneg))
  obtain htop' | htop' := le_or_gt top' 0
  · exact .inl (.inr (vanishes_of_top_nonpos hright htop' hrightNonneg))
  rw [ways_binary fun shape _ => hplain shape, chances_binary fun shape _ => hplain shape]
  exact .inr (hleft.mul hright htop htop'
    (fun value hvalue => hleftNonneg value (chances_ne_zero_iff.1 hvalue))
    (fun value hvalue => hrightNonneg value (chances_ne_zero_iff.1 hvalue)))

/-- Without negative factors the greatest result takes the most draws. -/
theorem exists_dominated (hfree : expr.SubFree) (hfaced : expr.Faced)
    (hfactors : expr.NonnegFactors) :
    ∃ top ratio, Dominated expr.ways expr.chances top ratio := by
  induction expr using poolInduction with
  | number value =>
      exact exists_dominated_of_proportional hfaced (proportional_of_fair hfree hfaced trivial)
  | die shape =>
      exact exists_dominated_of_proportional hfaced (proportional_of_fair hfree hfaced trivial)
  | pool count shape ih =>
      obtain ⟨top, ratio, hcount⟩ := ih hfree.2.1 hfaced.1 hfactors
      obtain htop | htop := le_or_gt top 0
      · exact exists_dominated_of_proportional hfaced
          (proportional_of_fixed hfaced.1 hfaced.2 (fixed_of_top_nonpos hcount htop))
      · have hfaces : (1 : ℚ) ≤ shape.faces := Int.cast_one_le_of_pos hfaced.2
        rw [ways_pool, chances_pool, ways_die hfaced.2, pool_smul]
        exact ⟨_, _, (hcount.inflate hfaces).pool htop (hasTop_die hfaced.2)
          (zero_lt_one.trans_le hfaced.2) (total_chances_die hfaced.2)⟩
  | plain operator left right hplain ihLeft ihRight =>
      obtain ⟨hleftFactors, hrightFactors⟩ := hfactors.sides hplain
      obtain ⟨top, ratio, hleft⟩ := ihLeft hfree.2.1 hfaced.1 hleftFactors
      obtain ⟨top', ratio', hright⟩ := ihRight hfree.2.2 hfaced.2 hrightFactors
      cases operator with
      | add =>
          rw [ways_binary hplain, chances_binary hplain]
          exact ⟨_, _, hleft.add hright⟩
      | sub => exact absurd rfl hfree.1
      | mul =>
          have hnoDie (shape : Die) (hshape : right = .die shape) : False :=
            hplain shape rfl hshape
          obtain hvanishes | hproduct := vanishes_or_dominated_mul hleft hright hnoDie hfactors
          · exact exists_dominated_of_proportional hfaced
              (proportional_of_vanishes hnoDie hfaced.1 hfaced.2 hvanishes)
          · exact ⟨_, _, hproduct⟩

/-! ### Exact trees are fair -/

/-- More dice make a pool less likely to roll its greatest result, unless they all show one. -/
theorem fixed_or_one_face {top : ℤ} {ratio : ℚ}
    (hdominated : Dominated count.ways count.chances top ratio) (hfaces : 1 ≤ shape.faces)
    (hproportional : Proportional (binary .mul count (die shape)).ways
      (binary .mul count (die shape)).chances) :
    count.Fixed ∨ (Proportional count.ways count.chances ∧ shape.faces = 1) := by
  obtain htop | htop := le_or_gt top 0
  · exact .inl (fixed_of_top_nonpos hdominated htop)
  have hfactor : (1 : ℚ) ≤ shape.faces := Int.cast_one_le_of_pos hfaces
  rw [ways_pool, chances_pool, ways_die hfaces] at hproportional
  obtain ⟨hcount, hpower⟩ := hdominated.proportional_of_pool htop (hasTop_die hfaces)
    (zero_lt_one.trans_le hfaces) (total_chances_die hfaces) hfactor hproportional
  obtain hone | hmore := hfaces.eq_or_lt
  · exact .inr ⟨hcount, hone.symm⟩
  · have hmore : (1 : ℚ) < shape.faces := by exact_mod_cast hmore
    have htoNat {value : ℤ} (hvalue : value ∈ count.results) : value.toNat = top.toNat :=
      (pow_right_strictMono₀ hmore).injective (hpower value (ways_ne_zero_iff.2 hvalue))
    exact .inl fun first hfirst second hsecond => (htoNat hfirst).trans (htoNat hsecond).symm

theorem fair_of_proportional (hfree : expr.SubFree) (hfaced : expr.Faced)
    (hfactors : expr.NonnegFactors) (hproportional : Proportional expr.ways expr.chances) :
    expr.Fair := by
  induction expr using poolInduction with
  | number value => trivial
  | die shape => trivial
  | pool count shape ih =>
      obtain ⟨top, ratio, hcount⟩ := exists_dominated hfree.2.1 hfaced.1 hfactors
      exact (fixed_or_one_face hcount hfaced.2 hproportional).imp_right fun hrest =>
        ⟨ih hfree.2.1 hfaced.1 hfactors hrest.1, hrest.2⟩
  | plain operator left right hplain ihLeft ihRight =>
      obtain ⟨hleftFactors, hrightFactors⟩ := hfactors.sides hplain
      obtain ⟨top, ratio, hleft⟩ := exists_dominated hfree.2.1 hfaced.1 hleftFactors
      obtain ⟨top', ratio', hright⟩ := exists_dominated hfree.2.2 hfaced.2 hrightFactors
      have hsides {greatest : ℤ}
          (hbinary : Dominated (binary operator left right).ways
            (binary operator left right).chances greatest (ratio * ratio')) :
          left.Fair ∧ right.Fair := by
        rw [ways_binary hplain, chances_binary hplain] at hbinary hproportional
        obtain ⟨hleftProportional, hrightProportional⟩ :=
          hleft.proportional_of_combine hright hbinary hproportional
        exact ⟨ihLeft hfree.2.1 hfaced.1 hleftFactors hleftProportional,
          ihRight hfree.2.2 hfaced.2 hrightFactors hrightProportional⟩
      cases operator with
      | add =>
          have hsum := hleft.add hright
          exact hsides (by rw [ways_binary hplain, chances_binary hplain]; exact hsum)
      | sub => exact absurd rfl hfree.1
      | mul =>
          have hnoDie (shape : Die) (hshape : right = .die shape) : False :=
            hplain shape rfl hshape
          rw [fair_mul_iff hnoDie, ← or_assoc]
          exact (vanishes_or_dominated_mul hleft hright hnoDie hfactors).imp_right hsides

/-! ### Exactness throughout -/

theorem mem_parts_self (expr : Expr) : expr ∈ expr.parts := by
  cases expr with
  | number value => exact List.mem_cons_self
  | die shape => exact List.mem_cons_self
  | binary operator left right => exact List.mem_cons_self

theorem forall_mem_parts_binary {motive : Expr → Prop} :
    (∀ part ∈ (binary operator left right).parts, motive part) ↔
      motive (binary operator left right) ∧
        (∀ part ∈ left.parts, motive part) ∧ ∀ part ∈ right.parts, motive part := by
  rw [parts, List.forall_mem_cons, List.forall_mem_append]

theorem steady_binary_iff (hplain : ∀ shape, operator = .mul → right = .die shape → False) :
    (binary operator left right).Steady ↔ left.Steady ∧ right.Steady := by
  rw [Steady]
  exact hplain

theorem Steady.fair (hsteady : expr.Steady) : expr.Fair := by
  induction expr using poolInduction with
  | number value => trivial
  | die shape => trivial
  | pool count shape ih => exact hsteady.2.imp_right fun hfaces => ⟨ih hsteady.1, hfaces⟩
  | plain operator left right hplain ihLeft ihRight =>
      obtain ⟨hleft, hright⟩ := (steady_binary_iff hplain).1 hsteady
      cases operator with
      | add => exact ⟨ihLeft hleft, ihRight hright⟩
      | sub => exact ⟨ihLeft hleft, ihRight hright⟩
      | mul =>
          rw [fair_mul_iff fun shape hshape => hplain shape rfl hshape]
          exact .inr (.inr ⟨ihLeft hleft, ihRight hright⟩)

theorem exact_of_fair (hfree : expr.SubFree) (hfaced : expr.Faced) (hfair : expr.Fair) :
    expr.Exact :=
  (exact_iff_proportional hfaced hfree.subtractsPoints).2 (proportional_of_fair hfree hfaced hfair)

theorem exact_of_steady (hfree : expr.SubFree) (hfaced : expr.Faced) (hsteady : expr.Steady) :
    ∀ part ∈ expr.parts, part.Exact := by
  induction expr using poolInduction with
  | number value => exact List.forall_mem_singleton.2 (exact_of_fair hfree hfaced trivial)
  | die shape => exact List.forall_mem_singleton.2 (exact_of_fair hfree hfaced trivial)
  | pool count shape ih =>
      rw [forall_mem_parts_binary]
      exact ⟨exact_of_fair hfree hfaced hsteady.fair, ih hfree.2.1 hfaced.1 hsteady.1,
        List.forall_mem_singleton.2 (exact_of_fair trivial hfaced.2 trivial)⟩
  | plain operator left right hplain ihLeft ihRight =>
      obtain ⟨hleft, hright⟩ := (steady_binary_iff hplain).1 hsteady
      rw [forall_mem_parts_binary]
      exact ⟨exact_of_fair hfree hfaced hsteady.fair, ihLeft hfree.2.1 hfaced.1 hleft,
        ihRight hfree.2.2 hfaced.2 hright⟩

theorem steady_of_exact (hfree : expr.SubFree) (hfaced : expr.Faced)
    (hexact : ∀ part ∈ expr.parts, part.Exact) : expr.Steady := by
  induction expr using poolInduction with
  | number value => trivial
  | die shape => trivial
  | pool count shape ih =>
      obtain ⟨hpool, hcount, -⟩ := forall_mem_parts_binary.1 hexact
      have hproportional := (exact_iff_proportional hfaced hfree.subtractsPoints).1 hpool
      have hcountProportional := (exact_iff_proportional hfaced.1 hfree.2.1.subtractsPoints).1
        (hcount count count.mem_parts_self)
      obtain ⟨top, ratio, hdominated⟩ :=
        exists_dominated_of_proportional hfaced.1 hcountProportional
      exact ⟨ih hfree.2.1 hfaced.1 hcount,
        (fixed_or_one_face hdominated hfaced.2 hproportional).imp_right And.right⟩
  | plain operator left right hplain ihLeft ihRight =>
      obtain ⟨-, hleft, hright⟩ := forall_mem_parts_binary.1 hexact
      exact (steady_binary_iff hplain).2
        ⟨ihLeft hfree.2.1 hfaced.1 hleft, ihRight hfree.2.2 hfaced.2 hright⟩

theorem fair_of_exact (hfree : expr.SubFree) (hfaced : expr.Faced)
    (hfactors : expr.NonnegFactors) (hexact : expr.Exact) : expr.Fair :=
  fair_of_proportional hfree hfaced hfactors
    ((exact_iff_proportional hfaced hfree.subtractsPoints).1 hexact)

/-- What is read from a text has no negative factors, so without subtraction its weights are exact
if and only if it is fair. -/
theorem exact_iff_fair_of_parse {text : Text} (hparse : parse text = .ok expr)
    (hfree : expr.SubFree) : expr.Exact ↔ expr.Fair := by
  have hwritable := Grammar.writable_of_parse hparse
  have hfactors := nonnegFactors_of_writable hwritable hfree
  exact ⟨fair_of_exact hfree hwritable.faced hfactors, exact_of_fair hfree hwritable.faced⟩

/-- Weights are exact throughout a tree if and only if each of its pools has a fixed number of dice
or dice with one face.  Parts that are not exact never make up for each other if no factor is
negative, so that the weights of the tree itself are exact if and only if it is fair. -/
theorem exact_iff_pools_fixed (expr : Expr) (hfree : expr.SubFree) (hfaced : expr.Faced) :
    ((∀ part ∈ expr.parts, part.Exact) ↔ expr.Steady) ∧
      (expr.Fair → expr.Exact) ∧ (expr.NonnegFactors → (expr.Exact ↔ expr.Fair)) := by
  have hfair := exact_of_fair hfree hfaced
  constructor
  · exact ⟨steady_of_exact hfree hfaced, exact_of_steady hfree hfaced⟩
  · exact ⟨hfair, fun hfactors => ⟨fair_of_exact hfree hfaced hfactors, hfair⟩⟩

/-- `2d6 + (d2)d1`: two dice, and one die or two with a single face. -/
def sumOfSteadyPools : Expr :=
  binary .add (binary .mul (number 2) (die { faces := 6 }))
    (binary .mul (die { faces := 2 }) (die { faces := 1 }))

theorem exact_sumOfSteadyPools :
    sumOfSteadyPools.SubFree ∧ sumOfSteadyPools.Faced ∧
      (∀ part ∈ sumOfSteadyPools.parts, part.Exact) := by
  have hfree : sumOfSteadyPools.SubFree :=
    ⟨by decide, ⟨by decide, trivial, trivial⟩, by decide, trivial, trivial⟩
  have hfaced : sumOfSteadyPools.Faced :=
    ⟨⟨trivial, show (1 : ℤ) ≤ 6 by decide⟩, one_le_two, le_refl (1 : ℤ)⟩
  have hsteady : sumOfSteadyPools.Steady :=
    ⟨⟨trivial, .inl (fixed_number 2)⟩, trivial, .inr rfl⟩
  exact ⟨hfree, hfaced, (exact_iff_pools_fixed sumOfSteadyPools hfree hfaced).1.2 hsteady⟩

/-- One die or two: a one takes one die, which comes up in half of all cases, and then shows a one
in half of them.  It has one script out of six. -/
theorem not_exact_nestedPool :
    nestedPool.SubFree ∧ nestedPool.Faced ∧ ¬ nestedPool.Exact := by
  have hchance : nestedPool.chances 1 = 1 / 4 := by
    have hsides : Finset.Icc (1 : ℤ) 2 = {1, 2} := rfl
    have htwo : Int.toNat 2 = 2 := rfl
    have hroll : nestedPool.roll = .ask 2 fun count => rollDice 2 0 count.toNat := rfl
    rw [chances, law, hroll]
    norm_num [rollDice, Draws.law_ask_apply, hsides, htwo, Draws.law, Finsupp.single_apply]
  have hodds : nestedPool.odds = .ok ⟨1, [1, 2, 2, 1], List.cons_ne_nil _ _⟩ := by
    decide
  refine ⟨⟨by decide, trivial, trivial⟩, ⟨one_le_two, one_le_two⟩, ?_⟩
  rintro ⟨odds, hother, hexact⟩
  obtain rfl := Except.ok.inj (hodds.symm.trans hother)
  have hone := hexact 1
  rw [hchance] at hone
  norm_num [Distribution.weightAt, Distribution.totalWeight] at hone

end Expr

end DiceOdds
