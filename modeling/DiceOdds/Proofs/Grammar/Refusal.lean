import DiceOdds.Proofs.Grammar.Balance

/-!
# Why a stream is refused

Brackets are looked at first.  If they do not match, the culprit is the first closing bracket that
closes more than was opened or, without any, the last opening bracket that is never closed.  If they
match, the culprit is in the first pair of neighbours between which no value can stand; the stream
counts as a group of its own, so its ends have neighbours too.
-/

namespace DiceOdds.Grammar

open Token

variable {tokens first second content : List Token} {token : Token}

/-! ### Matching brackets -/

theorem openings_append (left right : List Token) :
    openings (left ++ right) = openings left + openings right :=
  List.countP_append

theorem closings_append (left right : List Token) :
    closings (left ++ right) = closings left + closings right :=
  List.countP_append

/-- No beginning of the tokens closes more brackets than it opens. -/
def Contained (tokens : List Token) : Prop :=
  ∀ front rest, tokens = front ++ rest → closings front ≤ openings front

/-- All that is opened is closed, and nothing else. -/
def Matched (tokens : List Token) : Prop :=
  Contained tokens ∧ closings tokens = openings tokens

/-- Up to the closing bracket with this index, and no earlier, more is closed than opened. -/
def FirstStray (tokens : List Token) (index : Int) : Prop :=
  ∃ front rest, tokens = front ++ ⟨index, .closing⟩ :: rest ∧ Contained front ∧
    openings (front ++ [⟨index, .closing⟩]) < closings (front ++ [⟨index, .closing⟩])

/-- What follows the opening bracket with this index never closes it, which cannot be said of any
later opening bracket. -/
def LastUnclosed (tokens : List Token) (index : Int) : Prop :=
  ∃ front rest, tokens = front ++ ⟨index, .opening⟩ :: rest ∧ Contained rest ∧
    ∀ inner later after, rest = inner ++ ⟨later, .opening⟩ :: after → ¬ Contained after

theorem Contained.closings_le (hcontained : Contained tokens) :
    closings tokens ≤ openings tokens :=
  hcontained tokens [] (List.append_nil tokens).symm

theorem Contained.of_append (hcontained : Contained (first ++ second)) : Contained first := by
  rintro front rest rfl
  exact hcontained front (rest ++ second) (List.append_assoc front rest second)

theorem Contained.append (hfirst : Contained first) (hsecond : Contained second) :
    Contained (first ++ second) := by
  intro front rest hsplit
  obtain ⟨middle, rfl, hmiddle⟩ | ⟨middle, hmiddle, -⟩ := List.append_eq_append_iff.1 hsplit
  · rw [closings_append, openings_append]
    exact Nat.add_le_add hfirst.closings_le (hsecond middle rest hmiddle)
  · exact hfirst front middle hmiddle

theorem contained_nil : Contained [] := by
  intro front rest hsplit
  rw [(List.nil_eq_append_iff.1 hsplit).1]
  exact Nat.le_refl 0

theorem Contained.concat (hcontained : Contained tokens)
    (hle : closings (tokens ++ [token]) ≤ openings (tokens ++ [token])) :
    Contained (tokens ++ [token]) := by
  intro front rest hsplit
  obtain hall | hinner := List.prefix_concat_iff.1 ⟨rest, hsplit.symm⟩
  · rw [hall]
    exact hle
  · obtain ⟨middle, hmiddle⟩ := hinner
    exact hcontained front middle hmiddle.symm

theorem contained_singleton (htoken : token.kind ≠ .closing) : Contained [token] := by
  apply contained_nil.concat
  simp [closings, htoken]

theorem contained_opening (index : Int) : Contained [⟨index, .opening⟩] :=
  contained_singleton nofun

theorem matched_nil : Matched [] :=
  ⟨contained_nil, rfl⟩

theorem matched_singleton (hopening : token.kind ≠ .opening) (hclosing : token.kind ≠ .closing) :
    Matched [token] := by
  refine ⟨contained_singleton hclosing, ?_⟩
  simp [closings, openings, hopening, hclosing]

theorem Matched.append (hfirst : Matched first) (hsecond : Matched second) :
    Matched (first ++ second) := by
  refine ⟨hfirst.1.append hsecond.1, ?_⟩
  rw [closings_append, openings_append, hfirst.2, hsecond.2]

theorem Matched.bracketed (hcontent : Matched content) (start stop : Int) :
    Matched (⟨start, .opening⟩ :: content ++ [⟨stop, .closing⟩]) := by
  have hopening : Contained (⟨start, .opening⟩ :: content) :=
    (contained_opening start).append hcontent.1
  have hcount : closings (⟨start, .opening⟩ :: content ++ [⟨stop, .closing⟩]) =
      openings (⟨start, .opening⟩ :: content ++ [⟨stop, .closing⟩]) := by
    have hsame := hcontent.2
    rw [closings_append, openings_append, closings_cons, openings_cons, hsame]
    simp [closings, openings]
  exact ⟨hopening.concat (Nat.le_of_eq hcount), hcount⟩

/-- After matching brackets the next closing bracket is one too many. -/
theorem Matched.stray (hcontent : Matched content) (index : Int) :
    openings (content ++ [⟨index, .closing⟩]) < closings (content ++ [⟨index, .closing⟩]) := by
  rw [openings_append, closings_append, hcontent.2]
  exact Nat.lt_succ_self _

/-! ### What is open -/

/-- The tokens leave these brackets open, the innermost first, with only matching brackets between
them. -/
inductive LeavesOpen : List Int → List Token → Prop
  | nil {content : List Token} : Matched content → LeavesOpen [] content
  | group {opened : List Int} {outer content : List Token} (index : Int) :
      LeavesOpen opened outer → Matched content →
      LeavesOpen (index :: opened) (outer ++ ⟨index, .opening⟩ :: content)

theorem LeavesOpen.append {opened : List Int} (hopen : LeavesOpen opened first)
    (hsecond : Matched second) : LeavesOpen opened (first ++ second) := by
  cases hopen with
  | nil hfirst => exact .nil (hfirst.append hsecond)
  | group index houter hcontent =>
      rw [List.append_assoc, List.cons_append]
      exact .group index houter (hcontent.append hsecond)

theorem LeavesOpen.closing {opened : List Int} {index : Int}
    (hopen : LeavesOpen (index :: opened) first) (stop : Int) :
    LeavesOpen opened (first ++ [⟨stop, .closing⟩]) := by
  cases hopen with
  | group index houter hcontent =>
      rw [List.append_assoc]
      exact houter.append (hcontent.bracketed index stop)

theorem LeavesOpen.contained {opened : List Int} (hopen : LeavesOpen opened tokens) :
    Contained tokens := by
  induction hopen with
  | nil hcontent => exact hcontent.1
  | group index _ hcontent ih =>
      exact ih.append ((contained_opening index).append hcontent.1)

/-- Where brackets match, every opening bracket is closed by what follows it. -/
theorem Matched.closes (hmatched : Matched tokens) {front after : List Token} {index : Int}
    (hsplit : tokens = front ++ ⟨index, .opening⟩ :: after) : ¬ Contained after := by
  intro hafter
  subst hsplit
  have hfront := hmatched.1.of_append.closings_le
  have hcount := hmatched.2
  rw [closings_append, openings_append, closings_cons, openings_cons] at hcount
  simp only [reduceCtorEq, if_true, if_false] at hcount
  have := hafter.closings_le
  omega

theorem LeavesOpen.lastUnclosed {opened : List Int} {index : Int}
    (hopen : LeavesOpen (index :: opened) tokens) : LastUnclosed tokens index := by
  cases hopen with
  | group index _ hcontent =>
      refine ⟨_, _, rfl, hcontent.1, ?_⟩
      intro inner later after hsplit
      exact hcontent.closes hsplit

/-! ### The culprit among brackets -/

/-- The bracket that does not match: the first stray closing bracket or, without any, the last
unclosed opening bracket. -/
def Mismatch (tokens : List Token) (index : Int) : Prop :=
  FirstStray tokens index ∨ (¬ ∃ stray, FirstStray tokens stray) ∧ LastUnclosed tokens index

theorem Contained.not_firstStray (hcontained : Contained tokens) :
    ¬ ∃ stray, FirstStray tokens stray := by
  rintro ⟨stray, front, rest, rfl, -, hmore⟩
  have hle := hcontained (front ++ [⟨stray, .closing⟩]) rest (List.append_cons _ _ _)
  omega

/-- A walk over the rest of the tokens finds the mismatch of all of them. -/
theorem LeavesOpen.spec {opened : List Int} {read rest : List Token}
    (hopen : LeavesOpen opened read) :
    (∀ index, unmatchedAfter? opened rest = some index → Mismatch (read ++ rest) index) ∧
      (unmatchedAfter? opened rest = none → Matched (read ++ rest)) := by
  induction rest generalizing opened read with
  | nil =>
      rw [List.append_nil]
      cases opened with
      | nil =>
          refine ⟨nofun, fun _ => ?_⟩
          cases hopen with
          | nil hmatched => exact hmatched
      | cons innermost outer =>
          refine ⟨?_, nofun⟩
          rintro index ⟨⟩
          exact .inr ⟨hopen.contained.not_firstStray, hopen.lastUnclosed⟩
  | cons token rest ih =>
      obtain ⟨index, kind⟩ := token
      rw [List.append_cons]
      cases kind with
      | number | die | operator => exact ih (hopen.append (matched_singleton nofun nofun))
      | opening => exact ih (.group index hopen matched_nil)
      | closing =>
          cases opened with
          | cons innermost outer => exact ih (hopen.closing index)
          | nil =>
              refine ⟨?_, nofun⟩
              rintro stray ⟨⟩
              cases hopen with
              | nil hmatched =>
                  exact .inl ⟨read, rest, (List.append_cons _ _ _).symm, hmatched.1,
                    hmatched.stray index⟩

/-- Of two places in a list, they are one or either comes first. -/
theorem eq_or_before_or_after {α : Type} {front rest front' rest' : List α} {entry entry' : α}
    (hsplit : front ++ entry :: rest = front' ++ entry' :: rest') :
    front = front' ∧ entry = entry' ∨
      (∃ middle, front' = front ++ entry :: middle ∧ rest = middle ++ entry' :: rest') ∨
      ∃ middle, front = front' ++ entry' :: middle ∧ rest' = middle ++ entry :: rest := by
  obtain ⟨middle, hfront, hrest⟩ | ⟨middle, hfront, hrest⟩ := List.append_eq_append_iff.1 hsplit
  · cases middle with
    | nil => exact .inl ⟨by rw [hfront, List.append_nil], (List.cons.inj hrest).1⟩
    | cons first middle =>
        obtain ⟨rfl, hmiddle⟩ := List.cons.inj hrest
        exact .inr (.inl ⟨middle, hfront, hmiddle⟩)
  · cases middle with
    | nil => exact .inl ⟨by rw [hfront, List.append_nil], (List.cons.inj hrest).1.symm⟩
    | cons first middle =>
        obtain ⟨rfl, hmiddle⟩ := List.cons.inj hrest
        exact .inr (.inr ⟨middle, hfront, hmiddle⟩)

/-- Nothing before the first stray bracket is stray. -/
theorem not_contained_of_stray {front middle : List Token} {index : Int}
    (hmore : openings (front ++ [⟨index, .closing⟩]) < closings (front ++ [⟨index, .closing⟩])) :
    ¬ Contained (front ++ ⟨index, .closing⟩ :: middle) := by
  intro hcontained
  rw [List.append_cons] at hcontained
  have hle := hcontained.of_append.closings_le
  omega

theorem FirstStray.unique {index other : Int} (hfirst : FirstStray tokens index)
    (hother : FirstStray tokens other) : index = other := by
  obtain ⟨front, rest, rfl, hfront, hmore⟩ := hfirst
  obtain ⟨front', rest', hsplit, hfront', hmore'⟩ := hother
  obtain ⟨-, hsame⟩ | ⟨middle, rfl, -⟩ | ⟨middle, rfl, -⟩ := eq_or_before_or_after hsplit
  · exact congrArg Token.index hsame
  · exact absurd hfront' (not_contained_of_stray hmore)
  · exact absurd hfront (not_contained_of_stray hmore')

theorem LastUnclosed.unique {index other : Int} (hlast : LastUnclosed tokens index)
    (hother : LastUnclosed tokens other) : index = other := by
  obtain ⟨front, rest, rfl, hrest, hlater⟩ := hlast
  obtain ⟨front', rest', hsplit, hrest', hlater'⟩ := hother
  obtain ⟨-, hsame⟩ | ⟨middle, -, hmiddle⟩ | ⟨middle, -, hmiddle⟩ := eq_or_before_or_after hsplit
  · exact congrArg Token.index hsame
  · exact absurd hrest' (hlater middle other rest' hmiddle)
  · exact absurd hrest (hlater' middle index rest hmiddle)

theorem Mismatch.unique {index other : Int} (hmismatch : Mismatch tokens index)
    (hother : Mismatch tokens other) : index = other := by
  obtain hfirst | ⟨hnone, hlast⟩ := hmismatch
  · obtain hfirst' | ⟨hnone', -⟩ := hother
    · exact hfirst.unique hfirst'
    · exact absurd ⟨index, hfirst⟩ hnone'
  · obtain hfirst' | ⟨-, hlast'⟩ := hother
    · exact absurd ⟨other, hfirst'⟩ hnone
    · exact hlast.unique hlast'

theorem Matched.not_mismatch (hmatched : Matched tokens) (index : Int) :
    ¬ Mismatch tokens index := by
  rintro (hfirst | ⟨-, front, rest, hsplit, hrest, -⟩)
  · exact hmatched.1.not_firstStray ⟨index, hfirst⟩
  · exact hmatched.closes hsplit hrest

theorem mismatch_or_matched (tokens : List Token) :
    (∃ index, unmatched? tokens = some index ∧ Mismatch tokens index) ∨
      unmatched? tokens = none ∧ Matched tokens := by
  have hspec := @LeavesOpen.spec [] [] tokens (.nil matched_nil)
  cases hunmatched : unmatched? tokens with
  | some index => exact .inl ⟨index, rfl, hspec.1 index hunmatched⟩
  | none => exact .inr ⟨rfl, hspec.2 hunmatched⟩

theorem unmatched?_eq_some_iff {index : Int} :
    unmatched? tokens = some index ↔ Mismatch tokens index := by
  obtain ⟨found, hfound, hmismatch⟩ | ⟨hnone, hmatched⟩ := mismatch_or_matched tokens
  · rw [hfound, Option.some.injEq]
    constructor
    · rintro rfl
      exact hmismatch
    · exact hmismatch.unique
  · rw [hnone]
    exact ⟨nofun, fun hmismatch => absurd hmismatch (hmatched.not_mismatch index)⟩

theorem unmatched?_eq_none_iff : unmatched? tokens = none ↔ Matched tokens := by
  obtain ⟨found, hfound, hmismatch⟩ | ⟨hnone, hmatched⟩ := mismatch_or_matched tokens
  · rw [hfound]
    exact ⟨nofun, fun hmatched => absurd hmismatch (hmatched.not_mismatch found)⟩
  · exact ⟨fun _ => hmatched, fun _ => hnone⟩

/-! ### Neighbours -/

/-- Every token with the one after it.  The stream counts as a group of its own, which opens at
index 0 before the first token and closes at the last. -/
def neighbours (tokens : List Token) : List (Token × Token) :=
  (⟨0, .opening⟩ :: tokens).zip
    (tokens ++ [⟨(tokens.getLast?.map Token.index).getD 0, .closing⟩])

/-- The fault of neighbours between which no value can stand. -/
def objection? : Token × Token → Option Fault
  | (⟨start, .opening⟩, ⟨_, .closing⟩) => some ⟨.emptyExpression, start⟩
  | (⟨index, .operator _⟩, ⟨_, .closing⟩) => some ⟨.illegalExpression, index⟩
  | (⟨_, .operator _⟩, ⟨index, .operator _⟩) => some ⟨.illegalExpression, index⟩
  | (⟨_, .opening⟩, ⟨index, .operator .mul⟩) => some ⟨.illegalExpression, index⟩
  | _ => none

theorem ending_eq_error_iff {left : Token} {fault : Fault} (stop : Int) :
    ending left = .error fault ↔ objection? (left, ⟨stop, .closing⟩) = some fault := by
  obtain ⟨index, kind⟩ := left
  cases kind <;> simp [ending, objection?]

theorem between_eq_error_iff {left right : Token} {fault : Fault} :
    between left right = .error fault ↔ objection? (left, right) = some fault := by
  obtain ⟨leftIndex, leftKind⟩ := left
  obtain ⟨rightIndex, rightKind⟩ := right
  cases leftKind with
  | number | die | closing =>
      cases rightKind <;> simp [between, objection?, Kind.endsValue, Kind.startsValue]
  | operator => cases rightKind <;> simp [between, ending, objection?, Kind.endsValue]
  | opening =>
      cases rightKind with
      | operator sign => cases sign <;> simp [between, objection?, Kind.endsValue]
      | number | die | opening | closing => simp [between, ending, objection?, Kind.endsValue]

theorem objection?_eq_none_of_between {left right : Token} {gap : List Token}
    (hgap : between left right = .ok gap) : objection? (left, right) = none := by
  cases hobjection : objection? (left, right) with
  | none => rfl
  | some fault =>
      rw [between_eq_error_iff.2 hobjection] at hgap
      cases hgap

/-- Writing out stops at the first objection. -/
theorem explicitAfter_eq_error_iff {left : Token} {rest : List Token} {fault : Fault}
    (stop : Int) :
    explicitAfter left rest = .error fault ↔
      ((left :: rest).zip (rest ++ [⟨stop, .closing⟩])).findSome? objection? = some fault := by
  induction rest generalizing left with
  | nil =>
      rw [explicitAfter, ending_eq_error_iff stop]
      simp
  | cons right rest ih =>
      rw [explicitAfter, List.cons_append, List.zip_cons_cons, List.findSome?_cons]
      cases hgap : between left right with
      | error found =>
          rw [between_eq_error_iff.1 hgap]
          change Except.error found = .error fault ↔ _
          rw [Except.error.injEq, Option.some.injEq]
      | ok gap =>
          rw [objection?_eq_none_of_between hgap, ← ih]
          cases hmore : explicitAfter right rest with
          | error found => rfl
          | ok more => constructor <;> intro hfault <;> cases hfault

/-- Objections are only heard where brackets match. -/
theorem explicit_eq_error_iff {fault : Fault} :
    Token.explicit tokens = .error fault ↔
      (∃ index, Mismatch tokens index ∧ fault = ⟨.unmatchedParen, index⟩) ∨
        Matched tokens ∧ (neighbours tokens).findSome? objection? = some fault := by
  rw [Token.explicit]
  cases hunmatched : unmatched? tokens with
  | some found =>
      have hnotMatched : ¬ Matched tokens := by
        rw [← unmatched?_eq_none_iff, hunmatched]
        exact Option.some_ne_none found
      simp only [← unmatched?_eq_some_iff, hunmatched, hnotMatched, false_and, or_false,
        Option.some.injEq, exists_eq_left', Except.error.injEq, eq_comm]
  | none =>
      have hmatched : Matched tokens := unmatched?_eq_none_iff.1 hunmatched
      simp only [← unmatched?_eq_some_iff, hunmatched, hmatched, true_and, reduceCtorEq, false_and,
        exists_false, false_or]
      exact explicitAfter_eq_error_iff _

theorem cause_ne_of_objection? {pair : Token × Token} {fault : Fault}
    (hobjection : objection? pair = some fault) : fault.cause ≠ .unmatchedParen := by
  unfold objection? at hobjection
  split at hobjection <;> cases hobjection <;> nofun

theorem explicit_eq_unmatchedParen_iff {index : Int} :
    Token.explicit tokens = .error ⟨.unmatchedParen, index⟩ ↔ Mismatch tokens index := by
  rw [explicit_eq_error_iff]
  constructor
  · rintro (⟨found, hfound, ⟨⟩⟩ | ⟨-, hobjection⟩)
    · exact hfound
    · obtain ⟨pair, -, hpair⟩ := List.exists_of_findSome?_eq_some hobjection
      exact absurd rfl (cause_ne_of_objection? hpair)
  · intro hmismatch
    exact .inl ⟨index, hmismatch, rfl⟩

/-- A stream is refused for a bracket exactly if its brackets do not match, and the bracket is the
first stray closing one or, without any, the last opening one that is never closed.  If they match,
the stream is refused exactly if some neighbours are objected to, for the fault of the first such
pair. -/
theorem explicit_refuses_first_culprit (tokens : List Token) :
    (∀ index, Token.explicit tokens = .error ⟨.unmatchedParen, index⟩ ↔
      FirstStray tokens index ∨
        (¬ ∃ stray, FirstStray tokens stray) ∧ LastUnclosed tokens index) ∧
    ((∃ index, Token.explicit tokens = .error ⟨.unmatchedParen, index⟩) ↔ ¬ Matched tokens) ∧
    (Matched tokens → ∀ fault, Token.explicit tokens = .error fault ↔
      ∃ before pair after, neighbours tokens = before ++ pair :: after ∧
        objection? pair = some fault ∧ ∀ earlier ∈ before, objection? earlier = none) ∧
    (Matched tokens → ((∃ fault, Token.explicit tokens = .error fault) ↔
      ∃ pair ∈ neighbours tokens, (objection? pair).isSome = true)) := by
  have hobjections (hmatched : Matched tokens) (fault : Fault) :
      Token.explicit tokens = .error fault ↔
        (neighbours tokens).findSome? objection? = some fault := by
    rw [explicit_eq_error_iff]
    constructor
    · rintro (⟨index, hindex, -⟩ | ⟨-, hobjection⟩)
      · exact absurd hindex (hmatched.not_mismatch index)
      · exact hobjection
    · intro hobjection
      exact .inr ⟨hmatched, hobjection⟩
  refine ⟨fun index => explicit_eq_unmatchedParen_iff, ?_, fun hmatched fault => ?_,
    fun hmatched => ?_⟩
  · simp only [explicit_eq_unmatchedParen_iff]
    obtain ⟨index, -, hmismatch⟩ | ⟨-, hmatched⟩ := mismatch_or_matched tokens
    · exact ⟨fun _ hmatched => hmatched.not_mismatch index hmismatch, fun _ => ⟨index, hmismatch⟩⟩
    · exact ⟨fun ⟨index, hmismatch⟩ _ => hmatched.not_mismatch index hmismatch,
        fun hnot => absurd hmatched hnot⟩
  · rw [hobjections hmatched, List.findSome?_eq_some_iff]
  · rw [← List.findSome?_isSome_iff, Option.isSome_iff_exists]
    simp only [hobjections hmatched]

/-- `1+()*`: the empty group comes before the operator at the end. -/
def emptyGroup : List Token :=
  [⟨0, .number 1⟩, ⟨1, .operator .add⟩, ⟨2, .opening⟩, ⟨3, .closing⟩, ⟨4, .operator .mul⟩]

theorem explicit_refuses_emptyGroup :
    Matched emptyGroup ∧ Token.explicit emptyGroup = .error ⟨.emptyExpression, 2⟩ ∧
      ∃ pair ∈ neighbours emptyGroup, (objection? pair).isSome = true := by
  have hmatched : Matched emptyGroup := unmatched?_eq_none_iff.1 rfl
  obtain ⟨-, -, hculprit, hrefused⟩ := explicit_refuses_first_culprit emptyGroup
  have hfault : Token.explicit emptyGroup = .error ⟨.emptyExpression, 2⟩ := by
    rw [hculprit hmatched]
    exact ⟨(neighbours emptyGroup).take 3, (⟨2, .opening⟩, ⟨3, .closing⟩),
      (neighbours emptyGroup).drop 4, by decide, by decide, by decide⟩
  exact ⟨hmatched, hfault, (hrefused hmatched).1 ⟨_, hfault⟩⟩

/-- `(1+` and `1*)(` are refused for a bracket, whatever the operators do. -/
example :
    Token.explicit [⟨0, .opening⟩, ⟨1, .number 1⟩, ⟨2, .operator .add⟩] =
        .error ⟨.unmatchedParen, 0⟩ ∧
      Token.explicit [⟨0, .number 1⟩, ⟨1, .operator .mul⟩, ⟨2, .closing⟩, ⟨3, .opening⟩] =
        .error ⟨.unmatchedParen, 2⟩ :=
  ⟨rfl, rfl⟩

end DiceOdds.Grammar
