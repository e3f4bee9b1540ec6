import DiceOdds.Proofs.Grammar.Projection
import DiceOdds.Proofs.Grammar.Refusal
import Mathlib.Data.List.Induction

/-!
# The look ahead is exact

The look ahead knows nothing of values: it counts brackets and takes the first operator that stands
in no group.  In an explicit stream this is the operator directly after the next value.  A group is
passed over because its brackets match, and what comes after a value is an operator, the end of the
group around it or the end of the stream.
-/

namespace DiceOdds.Grammar

open Assembly Token

variable {tokens front content value rest : List Token} {token : Token}
variable {afterValue : Bool} {opened : Nat}

/-! ### Values in a stream -/

/-- A number, a die, or an opening bracket with everything up to the closing bracket that matches
it. -/
inductive Value : List Token → Prop
  | single {token : Token} : token.kind.startsValue = true → token.kind.endsValue = true →
      Value [token]
  | group {content : List Token} (first last : Int) : Matched content →
      Value (⟨first, .opening⟩ :: content ++ [⟨last, .closing⟩])

/-- The value that starts at the one index has its last token at the other. -/
def ValueAt (tokens : List Token) (start stop : Nat) : Prop :=
  ∃ value rest, Value value ∧ tokens.drop start = value ++ rest ∧
    stop + 1 = start + value.length

/-- Where more is closed than was opened, a closing bracket comes after matching brackets. -/
theorem exists_matched_of_not_contained (hstray : ¬ Contained tokens) :
    ∃ content index rest, tokens = content ++ ⟨index, .closing⟩ :: rest ∧ Matched content := by
  induction tokens using List.reverseRecOn with
  | nil => exact absurd contained_nil hstray
  | append_singleton front token ih =>
      by_cases hfront : Contained front
      · obtain ⟨index, kind⟩ := token
        by_cases hclosing : kind = .closing
        · subst hclosing
          have hle : openings front ≤ closings front := by
            refine Nat.le_of_not_lt fun hlt => hstray (hfront.concat ?_)
            rw [closings_append, openings_append]
            exact hlt
          exact ⟨front, index, [], rfl, hfront, Nat.le_antisymm hfront.closings_le hle⟩
        · exact absurd (hfront.append (contained_singleton hclosing)) hstray
      · obtain ⟨content, index, rest, rfl, hmatched⟩ := ih hfront
        refine ⟨content, index, rest ++ [token], ?_, hmatched⟩
        rw [List.append_assoc, List.cons_append]

/-- No value is the beginning of another. -/
theorem Value.eq_of_append {other otherRest : List Token} (hvalue : Value value)
    (hother : Value other) (hsame : value ++ rest = other ++ otherRest) : value = other := by
  cases hvalue with
  | single _ hends =>
      cases hother with
      | single => rw [(List.cons.inj hsame).1]
      | group first last _ =>
          rw [(List.cons.inj hsame).1] at hends
          cases hends
  | @group content first last hcontent =>
      cases hother with
      | single _ hends =>
          rw [← (List.cons.inj hsame).1] at hends
          cases hends
      | @group inner start stop hinner =>
          simp only [List.cons_append, List.append_assoc, List.nil_append] at hsame
          obtain ⟨hopening, hsame⟩ := List.cons.inj hsame
          obtain ⟨rfl, hclosing⟩ | ⟨middle, rfl, -⟩ | ⟨middle, rfl, -⟩ :=
            eq_or_before_or_after hsame
          · rw [hopening, hclosing]
          · exact absurd hinner.1 (not_contained_of_stray (hcontent.stray last))
          · exact absurd hcontent.1 (not_contained_of_stray (hinner.stray stop))

theorem Value.length_pos (hvalue : Value value) : 0 < value.length := by
  cases hvalue with
  | single | group => exact Nat.zero_lt_succ _

/-- Where brackets match, every token that starts a value has a value after it. -/
theorem Matched.exists_value (hmatched : Matched (front ++ token :: rest))
    (hstarts : token.kind.startsValue = true) :
    ∃ value more, Value value ∧ token :: rest = value ++ more := by
  obtain ⟨index, kind⟩ := token
  cases kind with
  | number | die => exact ⟨_, rest, .single rfl rfl, rfl⟩
  | operator | closing => cases hstarts
  | opening =>
      obtain ⟨content, last, more, rfl, hcontent⟩ :=
        exists_matched_of_not_contained (hmatched.closes rfl)
      refine ⟨_, more, .group index last hcontent, ?_⟩
      rw [List.append_assoc, List.cons_append]
      rfl

/-! ### Passing over a value -/

/-- Inside of a group a token changes the depth and nothing else. -/
theorem nextOperatorAt?_succ_cons {depth inner : Nat}
    (hdepth : inner + closings [token] = depth + openings [token]) (rest : List Token) :
    nextOperatorAt? (depth + 1) (token :: rest) = nextOperatorAt? (inner + 1) rest := by
  obtain ⟨index, kind⟩ := token
  cases kind with
  | number | die | operator | opening =>
      obtain rfl := hdepth
      rfl
  | closing =>
      obtain rfl := hdepth.symm
      rfl

/-- What closes no more than it opens is passed over inside of a group, however deep it goes. -/
theorem Contained.nextOperatorAt?_append (hcontained : Contained content) {depth inner : Nat}
    (hdepth : inner + closings content = depth + openings content) (rest : List Token) :
    nextOperatorAt? (depth + 1) (content ++ rest) = nextOperatorAt? (inner + 1) rest := by
  induction content using List.reverseRecOn generalizing inner rest with
  | nil =>
      obtain rfl := hdepth
      rfl
  | append_singleton front token ih =>
      obtain ⟨opened, hopened⟩ := Nat.exists_eq_add_of_le hcontained.of_append.closings_le
      have hfront : nextOperatorAt? (depth + 1) (front ++ token :: rest) =
          nextOperatorAt? (depth + opened + 1) (token :: rest) :=
        ih hcontained.of_append (by omega) (token :: rest)
      rw [closings_append, openings_append] at hdepth
      rw [List.append_assoc, List.singleton_append, hfront]
      exact nextOperatorAt?_succ_cons (by omega) rest

/-- The look ahead goes on after the value as if nothing had been before. -/
theorem Value.operatorAfterValue?_append (hvalue : Value value) (rest : List Token) :
    operatorAfterValue? (value ++ rest) = nextOperatorAt? 0 rest := by
  cases hvalue with
  | @single token hstarts hends =>
      obtain ⟨index, kind⟩ := token
      cases kind with
      | number | die => rfl
      | operator | closing => cases hstarts
      | opening => cases hends
  | @group content first last hcontent =>
      have hpassed : nextOperatorAt? 1 (content ++ ⟨last, .closing⟩ :: rest) =
          nextOperatorAt? 1 (⟨last, .closing⟩ :: rest) :=
        hcontent.1.nextOperatorAt?_append (congrArg (0 + ·) hcontent.2) _
      rw [List.append_assoc]
      exact hpassed

/-! ### After a value -/

/-- The way through a stream goes on from any place in it. -/
theorem Walk.of_append (hwalk : Walk (·.kind = .closing) afterValue opened (front ++ rest)) :
    ∃ after remaining, Walk (·.kind = .closing) after remaining rest ∧
      remaining + closings front = opened + openings front := by
  induction front generalizing afterValue opened with
  | nil => exact ⟨_, _, hwalk, rfl⟩
  | cons token front ih =>
      cases hwalk with
      | value hstarts hends hmore =>
          obtain ⟨after, remaining, hrest, hcount⟩ := ih hmore
          obtain ⟨hopenings, hclosings⟩ := counts_of_value hstarts hends front
          rw [← hopenings, ← hclosings] at hcount
          exact ⟨after, remaining, hrest, hcount⟩
      | enter index hmore =>
          obtain ⟨after, remaining, hrest, hcount⟩ := ih hmore
          refine ⟨after, remaining, hrest, ?_⟩
          simp only [closings_cons, openings_cons, reduceCtorEq, if_true, if_false]
          omega
      | operator index operator hmore =>
          obtain ⟨after, remaining, hrest, hcount⟩ := ih hmore
          refine ⟨after, remaining, hrest, ?_⟩
          simp only [closings_cons, openings_cons, reduceCtorEq, if_false]
          exact hcount
      | leave hclosing hmore =>
          obtain ⟨after, remaining, hrest, hcount⟩ := ih hmore
          refine ⟨after, remaining, hrest, ?_⟩
          simp only [closings_cons, openings_cons, hclosing, reduceCtorEq, if_true, if_false]
          omega

theorem Walk.before_of_startsValue
    (hwalk : Walk (·.kind = .closing) afterValue opened (token :: rest))
    (hstarts : token.kind.startsValue = true) : afterValue = false := by
  cases hwalk with
  | value | enter => rfl
  | operator => cases hstarts
  | leave hclosing =>
      rw [hclosing] at hstarts
      cases hstarts

/-- A value leads from before it to after it. -/
theorem Walk.after_value (hwalk : Walk (·.kind = .closing) false opened (value ++ rest))
    (hvalue : Value value) : Walk (·.kind = .closing) true opened rest := by
  cases hvalue with
  | single _ hends =>
      cases hwalk with
      | value _ _ hrest => exact hrest
      | enter => cases hends
  | @group content first last hcontent =>
      rw [List.append_assoc] at hwalk
      cases hwalk with
      | value _ hends => cases hends
      | enter _ hmore =>
          obtain ⟨after, remaining, hclosing, hcount⟩ := hmore.of_append
          rw [hcontent.2, Nat.add_right_cancel_iff] at hcount
          subst hcount
          cases hclosing with
          | value hstarts => cases hstarts
          | leave _ hrest => exact hrest

/-- After a value the first operator outside of any group, if there is one before the end of this
group, comes at once. -/
theorem Walk.nextOperatorAt?_zero (hwalk : Walk (·.kind = .closing) true opened rest) :
    nextOperatorAt? 0 rest = leadingOperator? rest := by
  cases hwalk with
  | done | operator => rfl
  | @leave _ token _ hclosing =>
      obtain ⟨index, kind⟩ := token
      obtain rfl : kind = .closing := hclosing
      rfl

/-- In an explicit stream every token that starts a value starts one value.  The look ahead from
there finds the operator directly after that value, and nothing if no operator is there. -/
theorem look_ahead_is_exact {tokens : List Token}
    (hexplicit : Token.explicit tokens = .ok tokens) (start : Nat) (token : Token)
    (htoken : tokens[start]? = some token) (hstarts : token.kind.startsValue = true) :
    ∃ stop, ValueAt tokens start stop ∧
      (∀ other, ValueAt tokens start other → other = stop) ∧
      operatorAfterValue? (tokens.drop start) = tokens[stop + 1]?.bind (·.kind.operator?) := by
  obtain ⟨hlt, rfl⟩ := List.getElem?_eq_some_iff.1 htoken
  have hdrop := List.drop_eq_getElem_cons hlt
  have hwalk := (gapless_of_explicit hexplicit).walk_whole
  have hmatched : Matched tokens := unmatched?_eq_none_iff.1 (hwalk.unmatchedAfter?_eq_none rfl)
  rw [← List.take_append_drop start tokens, hdrop] at hwalk hmatched
  obtain ⟨value, rest, hvalue, hrest⟩ := hmatched.exists_value hstarts
  -- the way through the stream comes to this place before a value, so it leaves the value after one
  obtain ⟨before, opened, hbefore, -⟩ := hwalk.of_append
  obtain rfl := hbefore.before_of_startsValue hstarts
  rw [hrest] at hbefore hdrop
  have hlength : 0 < value.length := hvalue.length_pos
  refine ⟨start + value.length - 1, ⟨value, rest, hvalue, hdrop, by omega⟩, ?_, ?_⟩
  · rintro other ⟨otherValue, otherRest, hother, hotherDrop, hstop⟩
    obtain rfl := hvalue.eq_of_append hother (hdrop.symm.trans hotherDrop)
    omega
  · have hnext : tokens[start + value.length - 1 + 1]? = rest.head? := by
      rw [Nat.sub_add_cancel (by omega), ← List.getElem?_drop, hdrop, List.getElem?_append_right,
        Nat.sub_self, List.head?_eq_getElem?]
      exact Nat.le_refl _
    rw [hdrop, hvalue.operatorAfterValue?_append, (hbefore.after_value hvalue).nextOperatorAt?_zero,
      hnext, leadingOperator?]

/-- `2*((d6+1)*3)-4` -/
def nestedGroups : List Token :=
  [⟨0, .number 2⟩, ⟨1, .operator .mul⟩, ⟨2, .opening⟩, ⟨3, .opening⟩, ⟨4, .die 6⟩,
    ⟨6, .operator .add⟩, ⟨7, .number 1⟩, ⟨8, .closing⟩, ⟨9, .operator .mul⟩, ⟨10, .number 3⟩,
    ⟨11, .closing⟩, ⟨12, .operator .sub⟩, ⟨13, .number 4⟩]

/-- The outer group is passed over up to the subtraction, with all the operators inside of it.  No
operator comes after the three, which ends the group. -/
theorem look_ahead_nestedGroups :
    Token.explicit nestedGroups = .ok nestedGroups ∧ ValueAt nestedGroups 2 10 ∧
      operatorAfterValue? (nestedGroups.drop 2) = some .sub ∧
      operatorAfterValue? (nestedGroups.drop 9) = none := by
  have hexplicit : Token.explicit nestedGroups = .ok nestedGroups := rfl
  have hcontent : Matched ((nestedGroups.drop 3).take 7) := unmatched?_eq_none_iff.1 rfl
  have hgroup : ValueAt nestedGroups 2 10 :=
    ⟨_, nestedGroups.drop 11, .group 2 11 hcontent, rfl, rfl⟩
  have hthree : ValueAt nestedGroups 9 9 :=
    ⟨[⟨10, .number 3⟩], nestedGroups.drop 10, .single rfl rfl, rfl, rfl⟩
  obtain ⟨stop, -, hstop, hsub⟩ := look_ahead_is_exact hexplicit 2 ⟨2, .opening⟩ rfl rfl
  obtain ⟨last, -, hlast, hnone⟩ := look_ahead_is_exact hexplicit 9 ⟨10, .number 3⟩ rfl rfl
  obtain rfl := hstop 10 hgroup
  obtain rfl := hlast 9 hthree
  exact ⟨hexplicit, hgroup, hsub, hnone⟩

end DiceOdds.Grammar
