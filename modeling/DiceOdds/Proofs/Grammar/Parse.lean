import DiceOdds.Expr.Parse
import DiceOdds.Proofs.Grammar.Assembly
import DiceOdds.Proofs.Grammar.Explicit

/-!
# Parsing follows the grammar

A text is parsed to a tree exactly when its tokens denote that tree, and no stream of tokens denotes
two.  A text that is refused has a fault: what the grammar derives assembles, and what can be
written out is derived, so assembly is never handed tokens that it cannot use.
-/

namespace DiceOdds.Grammar

theorem ofTokens_eq_ok_of_derives {tokens : List Token} {expr : Expr}
    (hderives : Derives .short .sum tokens expr) : Expr.ofTokens tokens = .ok expr := by
  obtain ⟨spelled, hexplicit, hspelled⟩ := explicit_eq_ok_of_derives hderives
  rw [Expr.ofTokens, hexplicit]
  exact congrArg (Except.mapError Expr.ParseError.obstacle) (assemble_eq_ok_of_derives hspelled)

/-- Tokens denote a tree, or they have a fault. -/
theorem exists_derives_or_fault (tokens : List Token) :
    (∃ expr, Derives .short .sum tokens expr) ∨
      ∃ fault, Expr.ofTokens tokens = .error (.fault fault) := by
  cases hexplicit : Token.explicit tokens with
  | ok spelled => exact .inl (exists_derives_of_explicit hexplicit)
  | error fault =>
      have hfault : Expr.ofTokens tokens = .error (.fault fault) := by
        rw [Expr.ofTokens, hexplicit]
        rfl
      exact .inr ⟨fault, hfault⟩

theorem ofTokens_eq_ok_iff {tokens : List Token} {expr : Expr} :
    Expr.ofTokens tokens = .ok expr ↔ Derives .short .sum tokens expr := by
  constructor
  · intro hok
    obtain ⟨derived, hderives⟩ | ⟨fault, hfault⟩ := exists_derives_or_fault tokens
    · have hsame := (ofTokens_eq_ok_of_derives hderives).symm.trans hok
      cases hsame
      exact hderives
    · rw [hfault] at hok
      cases hok
  · exact ofTokens_eq_ok_of_derives

theorem derives_unique {tokens : List Token} {left right : Expr}
    (hleft : Derives .short .sum tokens left) (hright : Derives .short .sum tokens right) :
    left = right := by
  have hsame := (ofTokens_eq_ok_of_derives hleft).symm.trans (ofTokens_eq_ok_of_derives hright)
  cases hsame
  rfl

theorem parse_eq_ok_iff {text : Text} {expr : Expr} :
    Expr.parse text = .ok expr ↔
      ∃ tokens, Token.scan text = .ok tokens ∧ Derives .short .sum tokens expr := by
  rw [Expr.parse]
  cases hscan : Token.scan text with
  | error fault => exact ⟨nofun, nofun⟩
  | ok tokens =>
      apply ofTokens_eq_ok_iff.trans
      constructor
      · exact fun hderives => ⟨tokens, rfl, hderives⟩
      · rintro ⟨_, ⟨⟩, hderives⟩
        exact hderives

theorem parse_eq_error {text : Text} {error : Expr.ParseError}
    (hrefused : Expr.parse text = .error error) : ∃ fault, error = .fault fault := by
  rw [Expr.parse] at hrefused
  cases hscan : Token.scan text with
  | error fault =>
      rw [hscan] at hrefused
      cases hrefused
      exact ⟨fault, rfl⟩
  | ok tokens =>
      rw [hscan] at hrefused
      replace hrefused : Expr.ofTokens tokens = .error error := hrefused
      obtain ⟨expr, hderives⟩ | ⟨fault, hfault⟩ := exists_derives_or_fault tokens
      · rw [ofTokens_eq_ok_of_derives hderives] at hrefused
        cases hrefused
      · rw [hfault] at hrefused
        cases hrefused
        exact ⟨fault, rfl⟩

/-- Parsing decides the grammar: it returns the one tree that the tokens of a text denote, and a
text without one has a fault.  None of the obstacles of assembly is ever met. -/
theorem parse_decides_grammar :
    (∀ text expr, Expr.parse text = .ok expr ↔
      ∃ tokens, Token.scan text = .ok tokens ∧ Derives .short .sum tokens expr) ∧
    (∀ tokens left right, Derives .short .sum tokens left → Derives .short .sum tokens right →
      left = right) ∧
    (∀ text, (∀ expr, Expr.parse text ≠ .ok expr) →
      ∃ fault, Expr.parse text = .error (.fault fault)) := by
  refine ⟨fun _ _ => parse_eq_ok_iff, fun _ _ _ => derives_unique, fun text hrefused => ?_⟩
  cases hparse : Expr.parse text with
  | ok expr => exact absurd hparse (hrefused expr)
  | error error =>
      obtain ⟨fault, rfl⟩ := parse_eq_error hparse
      exact ⟨fault, rfl⟩

end DiceOdds.Grammar
