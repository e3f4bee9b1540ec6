import DiceOdds.Expr.Parse
import DiceOdds.Proofs.Grammar.Refusal
import DiceOdds.Proofs.Scan.Faults

/-!
# A fault points at its culprit

The index of a fault is that of a character of the text, and the character is of the kind that the
cause tells.  Only a text of nothing but blanks has no character to point at.  What is wrong with
the characters is reported first, whatever is wrong with the tokens before it.
-/

namespace DiceOdds

namespace Token

variable {index : Int} {run : Run} {text : Text} {tokens : List Token} {token : Token}

/-! ### Where a token stands -/

/-- A token of this kind is a single character. -/
def Kind.IsMark : Kind → Prop
  | number _ | die _ => False
  | operator _ | opening | closing => True

theorem not_isMark_of_finish (hfinish : run.finish = .ok tokens) :
    ∀ token ∈ tokens, ¬ token.kind.IsMark := by
  cases run with
  | idle => cases hfinish; exact nofun
  | number start value =>
      cases hfinish
      simp [Kind.IsMark]
  | die start faces =>
    cases faces with
    | zero => cases hfinish
    | succ faces =>
        cases hfinish
        simp [Kind.IsMark]

/-- The token is the character at its index in the text, which starts at `index`. -/
def StandsIn (index : Int) (text : Text) (token : Token) : Prop :=
  ∃ position : Nat, token.index = index + position ∧
    ∃ point, text[position]? = some point ∧ point.symbol = .mark token.kind

theorem StandsIn.cons (hstands : StandsIn (index + 1) text token) (point : CodePoint) :
    StandsIn index (point :: text) token := by
  obtain ⟨position, hindex, hpoint⟩ := hstands
  exact ⟨position + 1, by omega, hpoint⟩

theorem standsIn_of_scanFrom (hscan : scanFrom index run text = .ok tokens)
    (hmem : token ∈ tokens) (hmark : token.kind.IsMark) : StandsIn index text token := by
  induction text generalizing index run tokens with
  | nil => exact absurd hmark (not_isMark_of_finish hscan token hmem)
  | cons point rest ih =>
      obtain ⟨value, -, hmore⟩ | ⟨finished, own, next, more, hfinish, hrestart, hmore, rfl⟩ :=
        scanFrom_cons_eq_ok_iff.1 hscan
      · exact (ih hmore hmem).cons point
      · simp only [List.mem_append] at hmem
        obtain hmem | hmem | hmem := hmem
        · exact absurd hmark (not_isMark_of_finish hfinish token hmem)
        · obtain ⟨hindex, hsymbol⟩ := symbol_of_restart? hrestart token hmem
          exact ⟨0, by omega, point, rfl, hsymbol⟩
        · exact (ih hmore hmem).cons point

theorem Run.finish_eq_nil_iff : run.finish = .ok [] ↔ run = .idle := by
  cases run with
  | idle => simp [finish]
  | number => simp [finish]
  | die start faces => cases faces <;> simp [finish]

/-- Only blanks leave no token. -/
theorem blank_of_scanFrom (hscan : scanFrom index run text = .ok []) :
    run = .idle ∧ ∀ point ∈ text, point.symbol = .blank := by
  induction text generalizing index run with
  | nil => exact ⟨Run.finish_eq_nil_iff.1 hscan, nofun⟩
  | cons first rest ih =>
      obtain ⟨value, -, hmore⟩ | ⟨finished, own, next, more, hfinish, hrestart, hmore, hnil⟩ :=
        scanFrom_cons_eq_ok_iff.1 hscan
      · cases run <;> cases (ih hmore).1
      · simp only [List.append_eq_nil_iff] at hnil
        obtain ⟨rfl, rfl, rfl⟩ := hnil
        obtain ⟨rfl, hrest⟩ := ih hmore
        refine ⟨Run.finish_eq_nil_iff.1 hfinish, List.forall_mem_cons.2 ⟨?_, hrest⟩⟩
        cases hsymbol : first.symbol with
        | blank => rfl
        | digit | foreign | dieMark | mark => rw [hsymbol] at hrestart; cases hrestart

end Token

namespace Grammar

variable {tokens : List Token} {fault : Fault}

/-! ### The token to blame -/

/-- A token of this kind can be the culprit for this cause. -/
inductive Offends : Token.Kind → Fault.Cause → Prop
  | operator (sign : Operator) : Offends (.operator sign) .illegalExpression
  | opening : Offends .opening .unmatchedParen
  | closing : Offends .closing .unmatchedParen
  | group : Offends .opening .emptyExpression

theorem Offends.isMark {kind : Token.Kind} {cause : Fault.Cause} (hoffends : Offends kind cause) :
    kind.IsMark := by
  cases hoffends <;> trivial

theorem Mismatch.offends {index : Int} (hmismatch : Mismatch tokens index) :
    ∃ token ∈ tokens, index = token.index ∧ Offends token.kind .unmatchedParen := by
  obtain ⟨front, rest, rfl, -⟩ | ⟨-, front, rest, rfl, -⟩ := hmismatch
  · exact ⟨⟨index, .closing⟩, by simp, rfl, .closing⟩
  · exact ⟨⟨index, .opening⟩, by simp, rfl, .opening⟩

/-- At the end of a group the left one of two neighbours is to blame, and else the right one. -/
theorem offends_of_objection? {left right : Token}
    (hobjection : objection? (left, right) = some fault) :
    right.kind = .closing ∧ fault.index = left.index ∧ Offends left.kind fault.cause ∨
      right.kind ≠ .closing ∧ fault.index = right.index ∧ Offends right.kind fault.cause := by
  unfold objection? at hobjection
  split at hobjection
  · next heq =>
      cases heq
      cases hobjection
      exact .inl ⟨rfl, rfl, .group⟩
  · next heq =>
      cases heq
      cases hobjection
      exact .inl ⟨rfl, rfl, .operator _⟩
  · next heq =>
      cases heq
      cases hobjection
      exact .inr ⟨nofun, rfl, .operator _⟩
  · next heq =>
      cases heq
      cases hobjection
      exact .inr ⟨nofun, rfl, .operator _⟩
  · cases hobjection

/-- Where brackets match, the first token closes nothing. -/
theorem Matched.head_ne_closing {first : Token} {rest : List Token}
    (hmatched : Matched (first :: rest)) : first.kind ≠ .closing := by
  intro hclosing
  have hle := hmatched.1 [first] rest rfl
  rw [closings_cons, openings_cons] at hle
  simp [hclosing, openings, closings] at hle

/-- Either neighbour of a pair may be an end of the stream, but not both if there is a token. -/
theorem mem_of_mem_neighbours {first left right : Token} {rest : List Token}
    (hmem : (left, right) ∈ neighbours (first :: rest)) :
    (right = first ∨ left ∈ first :: rest) ∧ (right ∈ first :: rest ∨ right.kind = .closing) := by
  constructor
  · rw [neighbours, List.cons_append, List.zip_cons_cons, List.mem_cons] at hmem
    obtain hpair | hmem := hmem
    · exact .inl (Prod.mk.inj hpair).2
    · exact .inr (List.of_mem_zip hmem).1
  · have hright := (List.of_mem_zip hmem).2
    rw [List.mem_append, List.mem_singleton] at hright
    exact hright.imp_right (congrArg Token.kind)

/-- The stream is refused for one of its tokens, unless it has none. -/
theorem offends_of_explicit (hrefused : Token.explicit tokens = .error fault) :
    tokens = [] ∧ fault = ⟨.emptyExpression, 0⟩ ∨
      ∃ token ∈ tokens, fault.index = token.index ∧ Offends token.kind fault.cause := by
  obtain ⟨index, hmismatch, rfl⟩ | ⟨hmatched, hobjection⟩ := explicit_eq_error_iff.1 hrefused
  · exact .inr hmismatch.offends
  · obtain ⟨⟨left, right⟩, hmem, hpair⟩ := List.exists_of_findSome?_eq_some hobjection
    cases tokens with
    | nil =>
        cases hobjection
        exact .inl ⟨rfl, rfl⟩
    | cons first rest =>
        obtain ⟨hleft, hright⟩ := mem_of_mem_neighbours hmem
        obtain ⟨hclosing, hculprit⟩ | ⟨hclosing, hculprit⟩ := offends_of_objection? hpair
        · have hfirst : right ≠ first := by
            rintro rfl
            exact hmatched.head_ne_closing hclosing
          exact .inr ⟨left, hleft.resolve_left hfirst, hculprit⟩
        · exact .inr ⟨right, hright.resolve_right hclosing, hculprit⟩

end Grammar

/-- The character at this position is what the cause complains about. -/
inductive Culprit (text : Text) (position : Nat) : Fault.Cause → Prop
  | lexical {cause : Fault.Cause} (hfault : LexicalFault text position cause) :
      Culprit text position cause
  | sign {sign : CodePoint} (hat : text[position]? = some sign) (hsign : sign ∈ Text.signs) :
      Culprit text position .illegalExpression
  | bracket {bracket : CodePoint} (hat : text[position]? = some bracket)
      (hbracket : bracket ∈ Text.openingBrackets ++ Text.closingBrackets) :
      Culprit text position .unmatchedParen
  | group {bracket : CodePoint} (hat : text[position]? = some bracket)
      (hbracket : bracket ∈ Text.openingBrackets) : Culprit text position .emptyExpression

variable {text : Text} {position : Nat} {cause : Fault.Cause}

/-- The character of a token to blame is to blame. -/
theorem Culprit.of_offends {kind : Token.Kind} (hoffends : Grammar.Offends kind cause)
    {point : CodePoint} (hat : text[position]? = some point) (hsymbol : point.symbol = .mark kind) :
    Culprit text position cause := by
  have hmem : point ∈ (Symbol.mark kind).characters :=
    (CodePoint.symbol_eq_iff (by simp)).1 hsymbol
  cases hoffends with
  | operator operator =>
      have hsigns : ∀ operator : Operator, .scalar operator.sign ∈ Text.signs := by
        rintro (_ | _ | _) <;> decide
      rw [Symbol.characters, List.mem_singleton] at hmem
      exact .sign hat (hmem ▸ hsigns operator)
  | opening => exact .bracket hat (List.mem_append_left _ hmem)
  | closing => exact .bracket hat (List.mem_append_right _ hmem)
  | group => exact .group hat hmem

theorem LexicalFault.lt_length (hfault : LexicalFault text position cause) :
    position < text.length := by
  cases hfault with
  | foreign hat | die hat => exact (List.getElem?_eq_some_iff.1 hat).1

theorem Culprit.lt_length (hculprit : Culprit text position cause) : position < text.length := by
  cases hculprit with
  | lexical hfault => exact hfault.lt_length
  | sign hat | bracket hat | group hat => exact (List.getElem?_eq_some_iff.1 hat).1

/-- A fault is found in the characters or in the tokens, and never by assembly. -/
theorem Expr.parse_eq_fault_iff {fault : Fault} :
    Expr.parse text = .error (.fault fault) ↔
      Token.scan text = .error fault ∨
        ∃ tokens, Token.scan text = .ok tokens ∧ Token.explicit tokens = .error fault := by
  rw [Expr.parse]
  cases Token.scan text with
  | error found => simp [Except.mapError, bind, Except.bind]
  | ok tokens =>
      simp only [Except.mapError, bind, Except.bind, Expr.ofTokens, reduceCtorEq, false_or,
        Except.ok.injEq, exists_eq_left']
      cases Token.explicit tokens with
      | error found => simp
      | ok spelled =>
          simp only [reduceCtorEq, iff_false]
          cases Expr.assemble spelled <;> simp

/-- The index of a fault is that of the character to blame, unless the text has nothing but blanks.
A text with a lexical fault is refused for the leftmost, whatever is wrong with the tokens before
it. -/
theorem Expr.parse_blames_culprit (text : Text) :
    (∀ fault, Expr.parse text = .error (.fault fault) →
      (fault = ⟨.emptyExpression, 0⟩ ∧ ∀ point ∈ text, point ∈ Text.blanks) ∨
        ∃ position : Nat, position < text.length ∧ fault.index = position ∧
          Culprit text position fault.cause) ∧
    ((∃ position cause, LexicalFault text position cause) →
      ∃ position cause, FirstLexicalFault text position cause ∧
        Expr.parse text = .error (.fault ⟨cause, position⟩)) := by
  constructor
  · rintro fault hrefused
    obtain hscan | ⟨tokens, hscan, hexplicit⟩ := Expr.parse_eq_fault_iff.1 hrefused
    · obtain ⟨position, hfirst, hindex⟩ := Token.scan_eq_error_iff.1 hscan
      have hculprit := Culprit.lexical hfirst.fault
      exact .inr ⟨position, hculprit.lt_length, hindex, hculprit⟩
    · obtain ⟨rfl, hempty⟩ | ⟨token, hmem, hindex, hoffends⟩ :=
        Grammar.offends_of_explicit hexplicit
      · obtain ⟨-, hblank⟩ := Token.blank_of_scanFrom hscan
        refine .inl ⟨hempty, fun point hmem => ?_⟩
        exact (CodePoint.symbol_eq_iff (by simp)).1 (hblank point hmem)
      · obtain ⟨position, hstart, point, hat, hsymbol⟩ :=
          Token.standsIn_of_scanFrom hscan hmem hoffends.isMark
        have hculprit := Culprit.of_offends hoffends hat hsymbol
        exact .inr ⟨position, hculprit.lt_length, by omega, hculprit⟩
  · rintro ⟨position, cause, hfault⟩
    obtain ⟨first, other, hfirst⟩ := hfault.exists_first
    have hscan : Token.scan text = .error ⟨other, first⟩ :=
      Token.scan_eq_error_iff.2 ⟨first, hfirst, rfl⟩
    exact ⟨first, other, hfirst, Expr.parse_eq_fault_iff.2 (.inl hscan)⟩

/-- In `+)(d0` the die is to blame: neither the bracket nor the sign is looked at. -/
example : Expr.parse (.ofString "+)(d0") = .error (.fault ⟨.badDie, 3⟩) :=
  rfl

end DiceOdds
