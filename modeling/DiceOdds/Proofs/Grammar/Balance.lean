import DiceOdds.Proofs.Grammar.Assembly
import DiceOdds.Proofs.Grammar.Explicit

/-!
# No stray token in a balanced stream

Assembly leaves a group at whatever token comes next, so a group by itself does not tell whether it
was closed.  The stream as a whole does.  A closing bracket is neither a value nor an operator, so
some group is left at each of them, and every group that is left was opened.  If a stream has as
many closing brackets as opening ones, groups are therefore left at closing brackets only, and the
stream is the explicit form of itself.
-/

namespace DiceOdds.Grammar

open Assembly Token

/-! ### The way through a stream -/

/-- How many groups are open. -/
def groups : List Pending → Nat
  | [] => 0
  | .group _ :: outer => groups outer + 1
  | .operand _ _ _ :: outer => groups outer

/-- Settling goes on with the operator that comes next, or completes the innermost group, or has
the whole expression when no group is open. -/
def Settles (next : Option Operator) (opened : Nat) : Settled → Prop
  | .leftSide _ _ operator pending => next = some operator ∧ groups pending = opened
  | .group _ _ pending => groups pending + 1 = opened
  | .whole _ => opened = 0

theorem settles_settle (next : Option Operator) (floor : Nat) (value : Expr)
    (pending : List Pending) :
    Settles next (groups pending) (settle next floor value pending) := by
  fun_induction settle next floor value pending with
  | case1 floor value operator hnext => exact ⟨(Option.filter_eq_some_iff.1 hnext).1, rfl⟩
  | case2 floor value hnext => rfl
  | case3 floor value top outer operator hnext =>
      exact ⟨(Option.filter_eq_some_iff.1 hnext).1, rfl⟩
  | case4 floor value outer outerFloor left operator hnext _ ih => exact ih
  | case5 floor value outer outerFloor hnext => rfl

/-- The way of assembly through tokens to their end, before a value or after one, where of all that
is pending only the number of open groups is kept.  After a value a group is left at a token that is
an `exit`. -/
inductive Walk (exit : Token → Prop) : (afterValue : Bool) → (opened : Nat) → List Token → Prop
  | done : Walk exit true 0 []
  | value {opened : Nat} {token : Token} {rest : List Token} :
      token.kind.startsValue = true → token.kind.endsValue = true →
      Walk exit true opened rest → Walk exit false opened (token :: rest)
  | enter {opened : Nat} {rest : List Token} (index : Int) :
      Walk exit false (opened + 1) rest → Walk exit false opened (⟨index, .opening⟩ :: rest)
  | operator {opened : Nat} {rest : List Token} (index : Int) (operator : Operator) :
      Walk exit false opened rest → Walk exit true opened (⟨index, .operator operator⟩ :: rest)
  | leave {opened : Nat} {token : Token} {rest : List Token} :
      exit token → Walk exit true opened rest → Walk exit true (opened + 1) (token :: rest)

/-- Assembly gets to the end with any token for an exit. -/
theorem walk_of_ok (tokens : List Token) (expr : Expr) :
    (∀ floor pending, operand floor pending tokens = .ok expr →
      Walk (fun _ => True) false (groups pending) tokens) ∧
    (∀ floor value pending, continuation floor value pending tokens = .ok expr →
      Walk (fun _ => True) true (groups pending) tokens) := by
  -- every step takes one token, and what is pending changes by one group at most
  induction tokens with
  | nil =>
      refine ⟨nofun, fun floor value pending hok => ?_⟩
      have hsettles := settles_settle none floor value pending
      rw [continuation] at hok
      split at hok
      · next hsettle =>
          rw [hsettle] at hsettles
          have hgroups : groups pending = 0 := hsettles
          rw [hgroups]
          exact .done
      · cases hok
  | cons token rest ih =>
      obtain ⟨ihOperand, ihContinuation⟩ := ih
      constructor
      · intro floor pending hok
        obtain ⟨index, kind⟩ := token
        cases kind with
        | number | die => exact .value rfl rfl (ihContinuation _ _ _ hok)
        | opening => exact .enter index (ihOperand _ _ hok)
        | operator | closing => cases hok
      · intro floor value pending hok
        have hsettles := settles_settle token.kind.operator? floor value pending
        rw [continuation] at hok
        split at hok
        · next hsettle =>
            rw [hsettle] at hsettles
            obtain ⟨hnext, hgroups⟩ := hsettles
            have hwalk := ihOperand _ _ hok
            rw [groups, hgroups] at hwalk
            obtain ⟨index, kind⟩ := token
            cases kind with
            | operator operator => exact .operator index operator hwalk
            | number | die | opening | closing => cases hnext
        · next hsettle =>
            rw [hsettle] at hsettles
            have hgroups : groups _ + 1 = groups pending := hsettles
            rw [← hgroups]
            exact .leave trivial (ihContinuation _ _ _ hok)
        · cases hok

/-! ### Counting brackets -/

variable {exit : Token → Prop} {afterValue : Bool} {opened : Nat} {token : Token}
variable {tokens rest : List Token}

def openings (tokens : List Token) : Nat :=
  tokens.countP (·.kind = .opening)

def closings (tokens : List Token) : Nat :=
  tokens.countP (·.kind = .closing)

theorem openings_cons (token : Token) (rest : List Token) :
    openings (token :: rest) = openings rest + if token.kind = .opening then 1 else 0 := by
  simp [openings, List.countP_cons]

theorem closings_cons (token : Token) (rest : List Token) :
    closings (token :: rest) = closings rest + if token.kind = .closing then 1 else 0 := by
  simp [closings, List.countP_cons]

theorem counts_of_value (hstarts : token.kind.startsValue = true)
    (hends : token.kind.endsValue = true) (rest : List Token) :
    openings (token :: rest) = openings rest ∧ closings (token :: rest) = closings rest := by
  obtain ⟨index, kind⟩ := token
  cases kind with
  | number | die => simp [openings_cons, closings_cons]
  | operator | closing => cases hstarts
  | opening => cases hends

/-- As many brackets are closed as opened, with so many open before the tokens. -/
def Balanced (opened : Nat) (tokens : List Token) : Prop :=
  closings tokens = openings tokens + opened

theorem balanced_cons_value_iff (hstarts : token.kind.startsValue = true)
    (hends : token.kind.endsValue = true) :
    Balanced opened (token :: rest) ↔ Balanced opened rest := by
  obtain ⟨hopenings, hclosings⟩ := counts_of_value hstarts hends rest
  rw [Balanced, Balanced, hopenings, hclosings]

theorem balanced_cons_operator_iff (index : Int) (operator : Operator) :
    Balanced opened (⟨index, .operator operator⟩ :: rest) ↔ Balanced opened rest := by
  simp [Balanced, openings_cons, closings_cons]

theorem balanced_cons_opening_iff (index : Int) :
    Balanced opened (⟨index, .opening⟩ :: rest) ↔ Balanced (opened + 1) rest := by
  simp only [Balanced, openings_cons, closings_cons, reduceCtorEq, if_true, if_false]
  omega

/-- Some group is left at every closing bracket. -/
theorem Walk.closings_le (hwalk : Walk exit afterValue opened tokens) :
    closings tokens ≤ openings tokens + opened := by
  induction hwalk with
  | done => exact Nat.zero_le _
  | @value opened token rest hstarts hends _ ih =>
      obtain ⟨hopenings, hclosings⟩ := counts_of_value hstarts hends rest
      omega
  | enter | operator | leave =>
      rw [openings_cons, closings_cons]
      grind

theorem Walk.closing_of_balanced (hwalk : Walk exit true opened rest)
    (hbalanced : Balanced (opened + 1) (token :: rest)) :
    token.kind = .closing ∧ Balanced opened rest := by
  have hle := hwalk.closings_le
  rw [Balanced, openings_cons, closings_cons] at hbalanced
  rw [Balanced]
  grind

/-- If a group were left at any other token, some closing bracket would have no group to leave. -/
theorem Walk.leaves_closings (hwalk : Walk exit afterValue opened tokens)
    (hbalanced : Balanced opened tokens) : Walk (·.kind = .closing) afterValue opened tokens := by
  induction hwalk with
  | done => exact .done
  | value hstarts hends _ ih =>
      exact .value hstarts hends (ih ((balanced_cons_value_iff hstarts hends).1 hbalanced))
  | enter index _ ih => exact .enter index (ih ((balanced_cons_opening_iff index).1 hbalanced))
  | operator index operator _ ih =>
      exact .operator index operator (ih ((balanced_cons_operator_iff index operator).1 hbalanced))
  | leave _ hwalk ih =>
      obtain ⟨hclosing, hrest⟩ := hwalk.closing_of_balanced hbalanced
      exact .leave hclosing (ih hrest)

/-! ### Explicit streams -/

/-- Where every group is left at a closing bracket there is nothing to write out. -/
theorem Walk.explicitAfter_eq (hwalk : Walk (·.kind = .closing) afterValue opened tokens)
    {left : Token} (hleft : left.kind.endsValue = afterValue) :
    explicitAfter left tokens = .ok tokens := by
  induction hwalk generalizing left with
  | done =>
      obtain ⟨index, kind⟩ := left
      cases kind with
      | number | die | closing => rfl
      | operator | opening => cases hleft
  | value hstarts hends _ ih =>
      exact explicitAfter_cons (between_of_startsValue hleft hstarts) (ih hends)
  | enter index _ ih => exact explicitAfter_cons (between_of_startsValue hleft rfl) (ih rfl)
  | operator index operator _ ih =>
      exact explicitAfter_cons (between_of_endsValue hleft rfl) (ih rfl)
  | @leave _ token _ hclosing _ ih =>
      obtain ⟨index, kind⟩ := token
      obtain rfl : kind = .closing := hclosing
      exact explicitAfter_cons (between_of_endsValue hleft rfl) (ih rfl)

theorem Walk.unmatchedAfter?_eq_none (hwalk : Walk (·.kind = .closing) afterValue opened tokens)
    {indices : List Int} (hlength : indices.length = opened) :
    unmatchedAfter? indices tokens = none := by
  induction hwalk generalizing indices with
  | done =>
      rw [List.length_eq_zero_iff.1 hlength]
      rfl
  | @value _ token _ hstarts hends _ ih =>
      obtain ⟨index, kind⟩ := token
      cases kind with
      | number | die => exact ih hlength
      | operator | closing => cases hstarts
      | opening => cases hends
  | enter index _ ih => exact ih (congrArg (· + 1) hlength)
  | operator index operator _ ih => exact ih hlength
  | @leave _ token _ hclosing _ ih =>
      obtain ⟨index, kind⟩ := token
      obtain rfl : kind = .closing := hclosing
      cases indices with
      | nil => cases hlength
      | cons innermost outer => exact ih (Nat.succ.inj hlength)

theorem Walk.explicit_eq (hwalk : Walk (·.kind = .closing) false 0 tokens) :
    Token.explicit tokens = .ok tokens := by
  have hunmatched : unmatched? tokens = none := hwalk.unmatchedAfter?_eq_none rfl
  rw [Token.explicit, hunmatched]
  exact hwalk.explicitAfter_eq rfl

theorem explicit_of_assemble {expr : Expr} (hbalanced : Balanced 0 tokens)
    (hok : Expr.assemble tokens = .ok expr) : Token.explicit tokens = .ok tokens := by
  have hwalk := (walk_of_ok tokens expr).1 0 [] hok
  exact (hwalk.leaves_closings hbalanced).explicit_eq

theorem exists_assemble_of_explicit (hexplicit : Token.explicit tokens = .ok tokens) :
    ∃ expr, Expr.assemble tokens = .ok expr := by
  obtain ⟨expr, hderives⟩ := exists_derives_of_explicit hexplicit
  obtain ⟨spelled, hspelled, hexpr⟩ := explicit_eq_ok_of_derives hderives
  obtain rfl := Except.ok.inj (hexplicit.symm.trans hspelled)
  exact ⟨expr, assemble_eq_ok_of_derives hexpr⟩

/-- A token that is no value is found in the stream, and it is an operator or a closing bracket. -/
theorem mem_of_notAValue (tokens : List Token) (token : Token) :
    (∀ floor pending, operand floor pending tokens = .error (.notAValue token) →
      token ∈ tokens ∧ token.kind.startsValue = false) ∧
    (∀ floor value pending, continuation floor value pending tokens = .error (.notAValue token) →
      token ∈ tokens ∧ token.kind.startsValue = false) := by
  induction tokens with
  | nil =>
      refine ⟨nofun, fun floor value pending herror => ?_⟩
      rw [continuation] at herror
      split at herror <;> cases herror
  | cons head rest ih =>
      obtain ⟨ihOperand, ihContinuation⟩ := ih
      constructor
      · intro floor pending herror
        obtain ⟨index, kind⟩ := head
        cases kind with
        | number | die =>
            exact (ihContinuation _ _ _ herror).imp_left (List.mem_cons_of_mem _)
        | opening => exact (ihOperand _ _ herror).imp_left (List.mem_cons_of_mem _)
        | operator | closing =>
            cases herror
            exact ⟨List.mem_cons_self, rfl⟩
      · intro floor value pending herror
        rw [continuation] at herror
        split at herror
        · exact (ihOperand _ _ herror).imp_left (List.mem_cons_of_mem _)
        · exact (ihContinuation _ _ _ herror).imp_left (List.mem_cons_of_mem _)
        · cases herror

/-- Tokens with as many closing brackets as opening ones, whether or not they match, assemble
exactly if they are the explicit form of themselves.  All other such tokens run out, or hold a token
that is no value where a value must be, or do not end with the expression. -/
theorem balanced_assembles_iff_explicit {tokens : List Token}
    (hbalanced : closings tokens = openings tokens) :
    ((∃ expr, Expr.assemble tokens = .ok expr) ↔ Token.explicit tokens = .ok tokens) ∧
    (Token.explicit tokens ≠ .ok tokens →
      Expr.assemble tokens = .error .ranOut ∨
      (∃ token ∈ tokens, token.kind.startsValue = false ∧
        Expr.assemble tokens = .error (.notAValue token)) ∨
      Expr.assemble tokens = .error .trailing) := by
  refine ⟨⟨fun ⟨expr, hok⟩ => explicit_of_assemble hbalanced hok, exists_assemble_of_explicit⟩, ?_⟩
  intro hexplicit
  cases hassemble : Expr.assemble tokens with
  | ok expr => exact absurd (explicit_of_assemble hbalanced hassemble) hexplicit
  | error obstacle =>
      cases obstacle with
      | ranOut => exact .inl rfl
      | trailing => exact .inr (.inr rfl)
      | notAValue token =>
          obtain ⟨hmem, hstarts⟩ := (mem_of_notAValue tokens token).1 0 [] hassemble
          exact .inr (.inl ⟨token, hmem, hstarts, rfl⟩)

/-- `(1 2)`, where the group is left at the 2 and its bracket is left over. -/
def strayNumber : List Token :=
  [⟨0, .opening⟩, ⟨1, .number 1⟩, ⟨3, .number 2⟩, ⟨4, .closing⟩]

theorem strayNumber_refused :
    closings strayNumber = openings strayNumber ∧
      Token.explicit strayNumber ≠ .ok strayNumber ∧
      ∀ expr, Expr.assemble strayNumber ≠ .ok expr := by
  have hbalanced : closings strayNumber = openings strayNumber := by decide
  have hexplicit : Token.explicit strayNumber ≠ .ok strayNumber := nofun
  refine ⟨hbalanced, hexplicit, fun expr hok => hexplicit ?_⟩
  exact (balanced_assembles_iff_explicit hbalanced).1.1 ⟨expr, hok⟩

end DiceOdds.Grammar
