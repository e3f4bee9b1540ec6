import DiceOdds.Proofs.Blame
import DiceOdds.Proofs.Grammar.Parse
import DiceOdds.Proofs.Reindex
import DiceOdds.Proofs.Scan.Spelling

/-!
# Spelling does not matter

Indices take no part in matching brackets, in writing out and in the grammar, so all three give the
same at other indices.  The tokens of a text are those of any other spelling at other indices.  Both
can be seen as the same numbered tokens, and what is found there is found in both texts.
-/

namespace DiceOdds

namespace Token

/-! ### Writing out at other indices -/

theorem ending_reindex (place : Int → Int) (left : Token) :
    ending (left.reindex place) = reindexed place (ending left) := by
  obtain ⟨index, kind⟩ := left
  cases kind <;> rfl

theorem between_reindex (place : Int → Int) (left right : Token) :
    between (left.reindex place) (right.reindex place) = reindexed place (between left right) := by
  have hending := ending_reindex place left
  obtain ⟨rightIndex, rightKind⟩ := right
  cases hends : left.kind.endsValue with
  | true => cases rightKind <;> simp [between, reindex, hends, reindexed, Kind.startsValue]
  | false =>
    cases rightKind with
    | number | die | opening => simp [between, reindex, hends, reindexed]
    | closing => simpa [between, reindex, hends] using hending
    | operator operator =>
      simp only [between, reindex, hends]
      by_cases hsign : left.kind = .opening ∧ operator ≠ .mul
      · simp [hsign, reindexed, reindex]
      · simp [hsign, reindexed, Fault.reindex]

theorem unmatchedAfter?_reindex (place : Int → Int) (opened : List Int) (tokens : List Token) :
    unmatchedAfter? (opened.map place) (tokens.map (reindex place)) =
      (unmatchedAfter? opened tokens).map place := by
  induction tokens generalizing opened with
  | nil => exact List.head?_map
  | cons token rest ih =>
    obtain ⟨index, kind⟩ := token
    cases kind with
    | number | die | operator => exact ih opened
    | opening => exact ih (index :: opened)
    | closing =>
      cases opened with
      | nil => rfl
      | cons innermost outer => exact ih outer

theorem explicitAfter_reindex (place : Int → Int) (left : Token) (tokens : List Token) :
    explicitAfter (left.reindex place) (tokens.map (reindex place)) =
      reindexed place (explicitAfter left tokens) := by
  induction tokens generalizing left with
  | nil => exact ending_reindex place left
  | cons right rest ih =>
      rw [List.map_cons, explicitAfter, between_reindex, ih, explicitAfter]
      exact (reindexed_bind _ _ [right]).symm

/-- Writing out moves along with the indices, as long as the start of the stream stays. -/
theorem explicit_reindex {place : Int → Int} (hstart : place 0 = 0) (tokens : List Token) :
    Token.explicit (tokens.map (reindex place)) = reindexed place (Token.explicit tokens) := by
  have hunmatched : unmatched? (tokens.map (reindex place)) = (unmatched? tokens).map place :=
    unmatchedAfter?_reindex place [] tokens
  rw [Token.explicit, hunmatched, Token.explicit]
  cases unmatched? tokens with
  | some index => rfl
  | none =>
      have hafter := explicitAfter_reindex place ⟨0, .opening⟩ tokens
      rw [reindex, hstart] at hafter
      exact hafter

end Token

namespace Grammar

theorem Derives.reindex {style : Style} {part : Part} {tokens : List Token} {expr : Expr}
    (hderives : Derives style part tokens expr) (place : Int → Int) :
    Derives style part (tokens.map (Token.reindex place)) expr := by
  induction hderives with
  | number index value => exact .number (place index) value
  | die index faces => exact .die (place index) faces
  | group start stop _ ih =>
      rw [List.map_append]
      exact .group (place start) (place stop) ih
  | factor _ ih => exact .factor ih
  | times index _ _ ihLeft ihRight =>
      rw [List.map_append]
      exact .times (place index) ihLeft ihRight
  | beside hshort _ _ ihLeft ihRight =>
      rw [List.map_append]
      exact .beside hshort ihLeft ihRight
  | term _ ih => exact .term ih
  | signed hshort hsign index _ ih => exact .signed hshort hsign (place index) ih
  | operation hsign index _ _ ihLeft ihRight =>
      rw [List.map_append]
      exact .operation hsign (place index) ihLeft ihRight

end Grammar

/-! ### Numbered tokens -/

namespace Token

/-- Tokens of these kinds that are numbered from 1 on.  Number 0 is left to the start of the
stream. -/
def numbered (kinds : List Kind) : List Token :=
  kinds.mapIdx fun number kind => ⟨number + 1, kind⟩

/-- The index of the token with this number. -/
def indexAt (tokens : List Token) (number : Int) : Int :=
  (((⟨0, .opening⟩ :: tokens)[number.toNat]?).map Token.index).getD 0

theorem indexAt_succ {tokens : List Token} {number : Nat} {token : Token}
    (hat : tokens[number]? = some token) : indexAt tokens (number + 1) = token.index := by
  have hnumber : (number + 1 : Int).toNat = number + 1 := by omega
  rw [indexAt, hnumber, List.getElem?_cons_succ, hat]
  rfl

theorem map_reindex_numbered (tokens : List Token) :
    (numbered (tokens.map Token.kind)).map (reindex (indexAt tokens)) = tokens := by
  apply List.ext_getElem (by simp [numbered])
  intro number _ hlt
  have hindex := indexAt_succ (List.getElem?_eq_getElem hlt)
  simp [numbered, reindex, hindex]

theorem exists_number_of_mem {tokens : List Token} {token : Token}
    (hmem : token ∈ numbered (tokens.map Token.kind)) :
    ∃ number : Nat, number < tokens.length ∧ token.index = number + 1 := by
  obtain ⟨number, hlt, rfl⟩ := List.mem_mapIdx.1 hmem
  rw [List.length_map] at hlt
  exact ⟨number, hlt, rfl⟩

theorem explicit_eq_reindexed (tokens : List Token) :
    Token.explicit tokens =
      reindexed (indexAt tokens) (Token.explicit (numbered (tokens.map Token.kind))) := by
  have hstart : indexAt tokens 0 = 0 := rfl
  have hmoved := explicit_reindex hstart (numbered (tokens.map Token.kind))
  rwa [map_reindex_numbered] at hmoved

end Token

/-! ### Two spellings -/

open Token

/-- Readings of two texts that come to the same tree, or to faults with one cause that blame the
tokens with the same number.  A stream without tokens has nothing to blame. -/
inductive Corresponds (leftTokens rightTokens : List Token) :
    Except Expr.ParseError Expr → Except Expr.ParseError Expr → Prop
  | tree (expr : Expr) : Corresponds leftTokens rightTokens (.ok expr) (.ok expr)
  | fault {number : Nat} {left right : Token} (cause : Fault.Cause)
      (hleft : leftTokens[number]? = some left) (hright : rightTokens[number]? = some right) :
      Corresponds leftTokens rightTokens (.error (.fault ⟨cause, left.index⟩))
        (.error (.fault ⟨cause, right.index⟩))
  | empty (hleft : leftTokens = []) (hright : rightTokens = []) :
      Corresponds leftTokens rightTokens (.error (.fault ⟨.emptyExpression, 0⟩))
        (.error (.fault ⟨.emptyExpression, 0⟩))

theorem parse_of_scan {text : Text} {tokens : List Token} (hscan : scan text = .ok tokens) :
    Expr.parse text = Expr.ofTokens tokens := by
  rw [Expr.parse, hscan]
  rfl

theorem ofTokens_of_refused {tokens : List Token} {fault : Fault}
    (hrefused : Token.explicit tokens = .error fault) :
    Expr.ofTokens tokens = .error (.fault fault) := by
  rw [Expr.ofTokens, hrefused]
  rfl

theorem ofTokens_corresponds {leftTokens rightTokens : List Token}
    (hkinds : leftTokens.map Token.kind = rightTokens.map Token.kind) :
    Corresponds leftTokens rightTokens (Expr.ofTokens leftTokens) (Expr.ofTokens rightTokens) := by
  have hleft := explicit_eq_reindexed leftTokens
  have hright := explicit_eq_reindexed rightTokens
  have hleftMoved := map_reindex_numbered leftTokens
  have hrightMoved := map_reindex_numbered rightTokens
  rw [← hkinds] at hright hrightMoved
  cases hnumbered : Token.explicit (numbered (leftTokens.map Token.kind)) with
  | ok spelled =>
      obtain ⟨expr, hderives⟩ := Grammar.exists_derives_of_explicit hnumbered
      have hleftDerives := hderives.reindex (indexAt leftTokens)
      have hrightDerives := hderives.reindex (indexAt rightTokens)
      rw [hleftMoved] at hleftDerives
      rw [hrightMoved] at hrightDerives
      rw [Grammar.ofTokens_eq_ok_of_derives hleftDerives,
        Grammar.ofTokens_eq_ok_of_derives hrightDerives]
      exact .tree expr
  | error fault =>
      rw [hnumbered] at hleft hright
      rw [ofTokens_of_refused hleft, ofTokens_of_refused hright]
      obtain ⟨hempty, rfl⟩ | ⟨token, hmem, hindex, -⟩ := Grammar.offends_of_explicit hnumbered
      · rw [hempty] at hleftMoved hrightMoved
        obtain rfl : leftTokens = [] := hleftMoved.symm
        obtain rfl : rightTokens = [] := hrightMoved.symm
        exact .empty rfl rfl
      · obtain ⟨number, hlt, hnumber⟩ := exists_number_of_mem hmem
        have hlength : leftTokens.length = rightTokens.length := by
          simpa using congrArg List.length hkinds
        have hleftAt := List.getElem?_eq_getElem hlt
        have hrightAt := List.getElem?_eq_getElem (hlength ▸ hlt)
        have hcorresponds := Corresponds.fault fault.cause hleftAt hrightAt
        rw [← indexAt_succ hleftAt, ← indexAt_succ hrightAt, ← hnumber, ← hindex] at hcorresponds
        exact hcorresponds

/-- Spelling does not matter.  Texts with tokens of the same kinds are spellings of the same, which
differ in blanks, shapes of brackets and leading zeros only.  Both are read as one tree, or both are
refused for one cause and for tokens with the same number, or neither has a token at all. -/
theorem respelled_texts_correspond {left right : Text} {leftTokens rightTokens : List Token}
    (hleft : scan left = .ok leftTokens) (hright : scan right = .ok rightTokens)
    (hkinds : leftTokens.map Token.kind = rightTokens.map Token.kind) :
    (∃ kinds, Spelling left kinds ∧ Spelling right kinds) ∧
      Corresponds leftTokens rightTokens (Expr.parse left) (Expr.parse right) := by
  constructor
  · exact ⟨_, spelling_of_scan hleft, hkinds ▸ spelling_of_scan hright⟩
  · rw [parse_of_scan hleft, parse_of_scan hright]
    exact ofTokens_corresponds hkinds

def trailingTimes : List Token :=
  [⟨0, .number 2⟩, ⟨1, .opening⟩, ⟨2, .number 3⟩, ⟨3, .closing⟩, ⟨4, .operator .mul⟩]

def trailingTimesSpaced : List Token :=
  [⟨0, .number 2⟩, ⟨3, .opening⟩, ⟨4, .number 3⟩, ⟨5, .closing⟩, ⟨7, .operator .mul⟩]

/-- Both texts are refused for the fifth of their tokens. -/
theorem respelled_trailingTimes :
    scan (.ofString "2(3]*") = .ok trailingTimes ∧
      scan (.ofString "02 [3\x7d *") = .ok trailingTimesSpaced ∧
      trailingTimes.map Token.kind = trailingTimesSpaced.map Token.kind ∧
      Corresponds trailingTimes trailingTimesSpaced
        (.error (.fault ⟨.illegalExpression, 4⟩)) (.error (.fault ⟨.illegalExpression, 7⟩)) := by
  have hleft : scan (.ofString "2(3]*") = .ok trailingTimes := by decide
  have hright : scan (.ofString "02 [3\x7d *") = .ok trailingTimesSpaced := by decide
  exact ⟨hleft, hright, rfl, (respelled_texts_correspond hleft hright rfl).2⟩

end DiceOdds
