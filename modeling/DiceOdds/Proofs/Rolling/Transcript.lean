import DiceOdds.Proofs.Agreement

/-!
# What a roll reads

The calls of a roll and their answers make up a transcript.  Which call comes next depends on the
answers so far and on nothing else, so the answers in a transcript settle the roll: what comes after
them in a script is left unread, and a script that ends before them leaves the next call without an
answer.
-/

namespace DiceOdds

/-- The faces that each draw was asked for, with what was drawn. -/
abbrev Transcript :=
  List (ℤ × ℤ)

namespace Draws

variable {α β : Type} {draws : Draws α} {asked : Transcript} {result : α}

/-- The computation makes the calls of the transcript and, answered as there, gives the result. -/
inductive Yields : Draws α → Transcript → α → Prop
  | done (result : α) : Yields (.done result) [] result
  | ask {next : ℤ → Draws α} {more : Transcript} {result : α} (faces value : ℤ) :
      Yields (next value) more result → Yields (.ask faces next) ((faces, value) :: more) result

/-- The script goes on where the transcript ends. -/
theorem Yields.run_append (hyields : Yields draws asked result) (rest : List ℤ) :
    draws.run Source.scripted (asked.map Prod.snd ++ rest) =
      ⟨some result, asked.map Prod.fst, rest⟩ := by
  induction hyields with
  | done result => rfl
  | ask faces value _ ih =>
      rw [List.map_cons, List.cons_append, run_ask_cons, ih]
      rfl

/-- The script ends before the transcript, and the call after its last draw is the last call. -/
theorem Yields.run_take (hyields : Yields draws asked result) {cut : ℕ}
    (hcut : cut < asked.length) :
    draws.run Source.scripted ((asked.map Prod.snd).take cut) =
      ⟨none, (asked.map Prod.fst).take (cut + 1), []⟩ := by
  induction hyields generalizing cut with
  | done result => cases hcut
  | ask faces value _ ih =>
      cases cut with
      | zero => exact run_ask_of_none rfl _
      | succ cut =>
          rw [List.map_cons, List.take_succ_cons, run_ask_cons, ih (Nat.lt_of_succ_lt_succ hcut)]
          rfl

/-- A script answers all calls of some transcript, or it is a beginning of the answers. -/
theorem exists_yields (draws : Draws α) (script : List ℤ) :
    ∃ asked result, Yields draws asked result ∧
      (asked.map Prod.snd <+: script ∨
        script <+: asked.map Prod.snd ∧ script.length < asked.length) := by
  induction draws generalizing script with
  | done result => exact ⟨[], result, .done result, .inl List.nil_prefix⟩
  | ask faces next ih =>
      cases script with
      | nil =>
          -- any answer will do for a call that the script does not answer
          obtain ⟨more, result, hmore, -⟩ := ih 0 []
          exact ⟨_, result, .ask faces 0 hmore, .inr ⟨List.nil_prefix, Nat.zero_lt_succ _⟩⟩
      | cons value script =>
          obtain ⟨more, result, hmore, hbegins⟩ := ih value script
          refine ⟨_, result, .ask faces value hmore, ?_⟩
          rw [List.map_cons, List.length_cons, List.length_cons, List.prefix_cons_inj,
            List.prefix_cons_inj, Nat.succ_lt_succ_iff]
          exact hbegins

/-- One computation after another makes the calls of both. -/
theorem Yields.of_bind {continuation : α → Draws β} {result : β}
    (hyields : Yields (draws.bind continuation) asked result) :
    ∃ first middle second, asked = first ++ second ∧ Yields draws first middle ∧
      Yields (continuation middle) second result := by
  induction draws generalizing asked with
  | done middle => exact ⟨[], middle, asked, rfl, .done middle, hyields⟩
  | ask faces next ih =>
      cases hyields with
      | ask faces value hmore =>
          obtain ⟨first, middle, second, rfl, hfirst, hsecond⟩ := ih value hmore
          exact ⟨_, middle, second, rfl, .ask faces value hfirst, hsecond⟩

end Draws

namespace Expr

open Draws

variable {asked : Transcript} {result : ℤ}

/-- What is asked for when a tree is rolled, and what comes of it.  A left side is rolled before its
right side, and a pool rolls its count before its dice. -/
inductive Rolls : Expr → Transcript → ℤ → Prop
  | number (value : ℤ) : Rolls (.number value) [] value
  | die (shape : Die) (value : ℤ) : Rolls (.die shape) [(shape.faces, value)] value
  | pool {count : Expr} {asked : Transcript} {dice : ℤ} (shape : Die) (values : List ℤ) :
      Rolls count asked dice → values.length = dice.toNat →
      Rolls (.binary .mul count (.die shape)) (asked ++ values.map (shape.faces, ·)) values.sum
  | operation {operator : Operator} {left right : Expr} {first second : Transcript}
      {leftValue rightValue : ℤ}
      (hplain : ∀ shape, operator = .mul → right = .die shape → False) :
      Rolls left first leftValue → Rolls right second rightValue →
      Rolls (.binary operator left right) (first ++ second) (operator.apply leftValue rightValue)

/-- So many dice ask for their faces so many times. -/
theorem exists_values_of_rollDice {faces sum : ℤ} {count : ℕ}
    (hyields : Yields (rollDice faces sum count) asked result) :
    ∃ values : List ℤ, values.length = count ∧ values.map (faces, ·) = asked ∧
      sum + values.sum = result := by
  induction count generalizing sum asked with
  | zero =>
      cases hyields with
      | done => exact ⟨[], rfl, rfl, add_zero _⟩
  | succ count ih =>
      cases hyields with
      | ask faces value hmore =>
          obtain ⟨values, hlength, rfl, rfl⟩ := ih hmore
          refine ⟨value :: values, congrArg (· + 1) hlength, rfl, ?_⟩
          rw [List.sum_cons, add_assoc]

theorem rolls_of_yields {expr : Expr} (hyields : Yields expr.roll asked result) :
    Rolls expr asked result := by
  induction expr using poolInduction generalizing asked result with
  | number value =>
      cases hyields with
      | done => exact .number _
  | die shape =>
      cases hyields with
      | ask faces value hmore =>
          cases hmore with
          | done => exact .die shape _
  | pool count shape ih =>
      rw [roll_pool] at hyields
      obtain ⟨first, dice, second, rfl, hcount, hdice⟩ := hyields.of_bind
      obtain ⟨values, hlength, rfl, rfl⟩ := exists_values_of_rollDice hdice
      rw [zero_add]
      exact .pool shape values (ih hcount) hlength
  | plain operator left right hplain ihLeft ihRight =>
      rw [roll_plain hplain] at hyields
      obtain ⟨first, leftValue, rest, rfl, hleft, hrest⟩ := hyields.of_bind
      obtain ⟨second, rightValue, last, rfl, hright, hlast⟩ := hrest.of_bind
      cases hlast with
      | done =>
          rw [List.append_nil]
          exact .operation hplain (ihLeft hleft) (ihRight hright)

/-- A roll is decided by the draws that it reads, which follow the tree.  Either the script answers
all of its calls.  Then every script with the same first draws gives the same result after the same
calls and is left unread from there on, and a script that is cut short before that leaves the call
after its last draw without an answer.  Or the script itself is too short. -/
theorem roll_decided_by_draws (expr : Expr) (script : List ℤ) :
    (∃ asked result, Rolls expr asked result ∧ asked.length ≤ script.length ∧
      script.take asked.length = asked.map Prod.snd ∧
      (∀ other, other.take asked.length = script.take asked.length →
        expr.roll.run Source.scripted other =
          ⟨some result, asked.map Prod.fst, other.drop asked.length⟩) ∧
      ∀ cut < asked.length, expr.roll.run Source.scripted (script.take cut) =
        ⟨none, (asked.map Prod.fst).take (cut + 1), []⟩) ∨
    ∃ calls, calls.length = script.length + 1 ∧
      expr.roll.run Source.scripted script = ⟨none, calls, []⟩ ∧
      ∃ asked result, Rolls expr asked result ∧
        calls <+: asked.map Prod.fst ∧ script <+: asked.map Prod.snd := by
  obtain ⟨asked, result, hyields, hread | ⟨hread, hlt⟩⟩ := exists_yields expr.roll script
  · left
    have htake : script.take asked.length = asked.map Prod.snd := by
      have htake := List.prefix_iff_eq_take.1 hread
      rwa [List.length_map, eq_comm] at htake
    have hle : asked.length ≤ script.length := by
      have hle := hread.length_le
      rwa [List.length_map] at hle
    refine ⟨asked, result, rolls_of_yields hyields, hle, htake, ?_, ?_⟩
    · intro other hother
      have hrun := hyields.run_append (other.drop asked.length)
      rwa [← htake, ← hother, List.take_append_drop] at hrun
    · intro cut hcut
      have hrun := hyields.run_take hcut
      rwa [← htake, List.take_take, Nat.min_eq_left hcut.le] at hrun
  · right
    have hrun := hyields.run_take hlt
    rw [← List.prefix_iff_eq_take.1 hread] at hrun
    refine ⟨_, ?_, hrun, asked, result, rolls_of_yields hyields, List.take_prefix _ _, hread⟩
    rw [List.length_take, List.length_map, Nat.min_eq_left hlt]

/-- A two for the count, a one and a two for the dice, and the seven is left. -/
example : nestedPool.roll.run Source.scripted [2, 1, 2, 7] = ⟨some 3, [2, 2, 2], [7]⟩ := by
  rfl

end Expr

end DiceOdds
