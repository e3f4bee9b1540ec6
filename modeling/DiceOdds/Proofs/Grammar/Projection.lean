import DiceOdds.Proofs.Grammar.Balance

/-!
# Writing out loses nothing

The explicit form of a stream holds every token of the stream in its place and, before some of them,
a token that short notation leaves out.  What is supplied depends on two neighbours only, and once
it is written nothing is missing any more: the streams that are their own explicit form are those in
which an operator stands between every two values, inside of brackets and outside.
-/

namespace DiceOdds.Grammar

open Token

/-! ### What is supplied -/

/-- Short notation leaves out `supplied` directly before `token`, where `before` is the token before
that, if there is one: a multiplication between two values, and a zero before the sign that starts
the stream or a group. -/
inductive Missing : (before : Option Token) → (token supplied : Token) → Prop
  | product {left token : Token} (hleft : left.kind.endsValue = true)
      (htoken : token.kind.startsValue = true) :
      Missing (some left) token ⟨token.index, .operator .mul⟩
  | zero {before : Option Token} {sign : Operator}
      (hbefore : ∀ left ∈ before, left.kind = .opening) (hsign : sign ≠ .mul) (index : Int) :
      Missing before ⟨index, .operator sign⟩ ⟨index, .number 0⟩

/-- The stream in which every token stands after what is supplied before it. -/
def writeOut (entries : List (Option Token × Token)) : List Token :=
  entries.flatMap fun (supplied, token) => supplied.toList ++ [token]

variable {before : Option Token} {left token inserted : Token} {tokens spelled gap : List Token}

def NeedsProduct (left token : Token) : Prop :=
  left.kind.endsValue = true ∧ token.kind.startsValue = true

def NeedsZero (left token : Token) : Prop :=
  left.kind = .opening ∧ ∃ sign, sign ≠ .mul ∧ token.kind = .operator sign

theorem NeedsProduct.not_needsZero (hproduct : NeedsProduct left token) :
    ¬ NeedsZero left token := by
  rintro ⟨hopening, -⟩
  have hends := hproduct.1
  rw [hopening] at hends
  cases hends

/-- The start of the stream counts as that of a group. -/
theorem missing_iff :
    Missing before token inserted ↔
      NeedsProduct (before.getD ⟨0, .opening⟩) token ∧ inserted = ⟨token.index, .operator .mul⟩ ∨
      NeedsZero (before.getD ⟨0, .opening⟩) token ∧ inserted = ⟨token.index, .number 0⟩ := by
  constructor
  · rintro (⟨hleft, htoken⟩ | ⟨hbefore, hsign, index⟩)
    · exact .inl ⟨⟨hleft, htoken⟩, rfl⟩
    · refine .inr ⟨⟨?_, _, hsign, rfl⟩, rfl⟩
      cases before with
      | none => rfl
      | some left => exact hbefore left rfl
  · rintro (⟨⟨hleft, htoken⟩, rfl⟩ | ⟨⟨hleft, sign, hsign, hkind⟩, rfl⟩)
    · cases before with
      | none => cases hleft
      | some left => exact .product hleft htoken
    · obtain ⟨index, kind⟩ := token
      obtain rfl : kind = .operator sign := hkind
      refine .zero ?_ hsign index
      rintro left rfl
      exact hleft

theorem eq_nil_of_ending (hends : ending left = .ok gap) : gap = [] := by
  rw [ending] at hends
  split at hends <;> cases hends
  rfl

/-- Neighbours that can stand side by side get what they need between them. -/
theorem between_cases (hgap : between left token = .ok gap) :
    NeedsProduct left token ∧ gap = [⟨token.index, .operator .mul⟩] ∨
    NeedsZero left token ∧ gap = [⟨token.index, .number 0⟩] ∨
    ¬ NeedsProduct left token ∧ ¬ NeedsZero left token ∧ gap = [] := by
  rw [between] at hgap
  split at hgap
  · next hends =>
      split at hgap
      · next hstarts =>
          cases hgap
          exact .inl ⟨⟨hends, hstarts⟩, rfl⟩
      · next hstarts =>
          cases hgap
          refine .inr (.inr ⟨fun hproduct => hstarts hproduct.2, ?_, rfl⟩)
          rintro ⟨hopening, -⟩
          rw [hopening] at hends
          cases hends
  · next hends =>
      refine .inr ?_
      split at hgap
      · next hkind =>
          refine .inr ⟨fun hproduct => hends hproduct.1, ?_, eq_nil_of_ending hgap⟩
          rintro ⟨-, sign, -, hsign⟩
          cases hkind.symm.trans hsign
      · next operator hkind =>
          split at hgap
          · next hsign =>
              cases hgap
              exact .inl ⟨⟨hsign.1, operator, hsign.2, hkind⟩, rfl⟩
          · cases hgap
      · next hoperator =>
          cases hgap
          refine .inr ⟨fun hproduct => hends hproduct.1, ?_, rfl⟩
          rintro ⟨-, sign, -, hsign⟩
          exact hoperator sign hsign

/-- Between neighbours nothing is written out but the token that is missing there. -/
theorem exists_supplied (hgap : between (before.getD ⟨0, .opening⟩) token = .ok gap) :
    ∃ supplied : Option Token, supplied.toList = gap ∧
      ∀ inserted, supplied = some inserted ↔ Missing before token inserted := by
  simp only [missing_iff]
  obtain ⟨hproduct, rfl⟩ | ⟨hzero, rfl⟩ | ⟨hproduct, hzero, rfl⟩ := between_cases hgap
  · refine ⟨some ⟨token.index, .operator .mul⟩, rfl, fun inserted => ?_⟩
    simp [hproduct, hproduct.not_needsZero, eq_comm]
  · have hnot : ¬ NeedsProduct (before.getD ⟨0, .opening⟩) token :=
      fun hproduct => hproduct.not_needsZero hzero
    refine ⟨some ⟨token.index, .number 0⟩, rfl, fun inserted => ?_⟩
    simp [hzero, hnot, eq_comm]
  · refine ⟨none, rfl, fun inserted => ?_⟩
    simp [hproduct, hzero]

/-- The explicit form is what is left of the stream together with what is missing before its tokens,
where `before` is the token before the stream, if there is one. -/
theorem exists_entries_of_explicitAfter
    (hexplicit : explicitAfter (before.getD ⟨0, .opening⟩) tokens = .ok spelled) :
    ∃ entries : List (Option Token × Token),
      entries.map Prod.snd = tokens ∧ writeOut entries = spelled ∧
      ∀ front supplied token rest, entries = front ++ (supplied, token) :: rest →
        ∀ inserted, supplied = some inserted ↔
          Missing ((front.getLast?.map Prod.snd).or before) token inserted := by
  induction tokens generalizing before spelled with
  | nil =>
      refine ⟨[], rfl, (eq_nil_of_ending hexplicit).symm, ?_⟩
      intro front supplied token rest hsplit
      cases front <;> cases hsplit
  | cons token tokens ih =>
      obtain ⟨⟨gap, hgap⟩, more, hmore⟩ := explicitAfter_cons_eq_ok hexplicit
      rw [explicitAfter_cons hgap hmore] at hexplicit
      obtain rfl := Except.ok.inj hexplicit
      obtain ⟨supplied, rfl, hsupplied⟩ := exists_supplied hgap
      obtain ⟨entries, hkept, hwritten, hentries⟩ := @ih (some token) more hmore
      refine ⟨(supplied, token) :: entries, ?_, ?_, ?_⟩
      · rw [List.map_cons, hkept]
      · rw [← hwritten, writeOut, List.flatMap_cons, List.append_assoc, writeOut]
        rfl
      · intro front other next rest hsplit
        cases front with
        | nil =>
            obtain ⟨rfl, rfl⟩ := Prod.mk.inj (List.cons.inj hsplit).1
            exact hsupplied
        | cons first front =>
            obtain ⟨rfl, htail⟩ := List.cons.inj hsplit
            have hlast : (((supplied, token) :: front).getLast?.map Prod.snd).or before =
                (front.getLast?.map Prod.snd).or (some token) := by
              rw [List.getLast?_cons]
              cases front.getLast? <;> rfl
            rw [hlast]
            exact hentries front other next rest htail

/-! ### Streams without gaps -/

inductive Extent
  | chain
  | value

/-- A chain is made of values with an operator between every two neighbours, and a value is a
number, a die or a chain in brackets. -/
inductive Gapless : Extent → List Token → Prop
  | number (index value : Int) : Gapless .value [⟨index, .number value⟩]
  | die (index faces : Int) : Gapless .value [⟨index, .die faces⟩]
  | group {tokens : List Token} (start stop : Int) :
      Gapless .chain tokens → Gapless .value (⟨start, .opening⟩ :: tokens ++ [⟨stop, .closing⟩])
  | single {tokens : List Token} : Gapless .value tokens → Gapless .chain tokens
  | longer {left right : List Token} (index : Int) (operator : Operator) :
      Gapless .chain left → Gapless .value right →
      Gapless .chain (left ++ ⟨index, .operator operator⟩ :: right)

/-- Two chains with an operator between them are a chain. -/
theorem Gapless.append {left right : List Token} (hleft : Gapless .chain left)
    (hright : Gapless .chain right) (index : Int) (operator : Operator) :
    Gapless .chain (left ++ ⟨index, .operator operator⟩ :: right) := by
  generalize hchain : Extent.chain = extent at hright
  induction hright with
  | number | die | group => cases hchain
  | single hvalue => exact .longer index operator hleft hvalue
  | longer last sign _ hvalue ih =>
      rw [← List.cons_append, ← List.append_assoc]
      exact .longer last sign (ih hchain) hvalue

/-- Without precedence, sums and terms are both chains. -/
def Part.extent : Part → Extent
  | .sum => .chain
  | .term => .chain
  | .factor => .value

theorem gapless_of_derives {part : Part} {expr : Expr}
    (hderives : Derives .explicit part tokens expr) : Gapless part.extent tokens := by
  induction hderives with
  | number index value => exact .number index value
  | die index faces => exact .die index faces
  | group start stop _ ih => exact .group start stop ih
  | factor _ ih => exact .single ih
  | times index _ _ ihLeft ihRight => exact .longer index .mul ihLeft ihRight
  | beside hshort | signed hshort => cases hshort
  | term _ ih => exact ih
  | @operation _ _ _ _ sign _ index _ _ ihLeft ihRight => exact ihLeft.append ihRight index sign

/-- A part without gaps leads from before a value to after one. -/
theorem Gapless.walk {extent : Extent} (hgapless : Gapless extent tokens) {opened : Nat}
    {rest : List Token} (hrest : Walk (·.kind = .closing) true opened rest) :
    Walk (·.kind = .closing) false opened (tokens ++ rest) := by
  induction hgapless generalizing opened rest with
  | number | die => exact .value rfl rfl hrest
  | group start stop _ ih =>
      rw [List.cons_append, List.cons_append, List.append_assoc]
      exact .enter start (ih (.leave rfl hrest))
  | single _ ih => exact ih hrest
  | longer index operator _ _ ihLeft ihRight =>
      rw [List.append_assoc]
      exact ihLeft (.operator index operator (ihRight hrest))

theorem Gapless.walk_whole (hgapless : Gapless .chain tokens) :
    Walk (·.kind = .closing) false 0 tokens := by
  have hwalk := hgapless.walk .done
  rwa [List.append_nil] at hwalk

theorem Gapless.explicit_eq (hgapless : Gapless .chain tokens) :
    Token.explicit tokens = .ok tokens :=
  hgapless.walk_whole.explicit_eq

/-- Whatever is written out has no gaps. -/
theorem gapless_of_explicit (hexplicit : Token.explicit tokens = .ok spelled) :
    Gapless .chain spelled := by
  obtain ⟨expr, hderives⟩ := exists_derives_of_explicit hexplicit
  obtain ⟨written, hwritten, hexpr⟩ := explicit_eq_ok_of_derives hderives
  obtain rfl := Except.ok.inj (hexplicit.symm.trans hwritten)
  exact gapless_of_derives hexpr

theorem explicitAfter_of_explicit (hexplicit : Token.explicit tokens = .ok spelled) :
    explicitAfter ⟨0, .opening⟩ tokens = .ok spelled := by
  rw [Token.explicit] at hexplicit
  split at hexplicit
  · cases hexplicit
  · exact hexplicit

/-- The explicit form of a stream is the stream with exactly the missing tokens supplied, so that
leaving them out again gives the stream back.  It is the explicit form of itself, as are all streams
without gaps and no others. -/
theorem explicit_is_projection :
    (∀ tokens spelled, Token.explicit tokens = .ok spelled →
      (∃ entries : List (Option Token × Token),
        entries.map Prod.snd = tokens ∧ writeOut entries = spelled ∧
        ∀ front supplied token rest, entries = front ++ (supplied, token) :: rest →
          ∀ inserted, supplied = some inserted ↔
            Missing (front.getLast?.map Prod.snd) token inserted) ∧
      Token.explicit spelled = .ok spelled) ∧
    (∀ tokens, Token.explicit tokens = .ok tokens ↔ Gapless .chain tokens) := by
  constructor
  · intro tokens spelled hexplicit
    have hafter : explicitAfter ((none : Option Token).getD ⟨0, .opening⟩) tokens = .ok spelled :=
      explicitAfter_of_explicit hexplicit
    obtain ⟨entries, hkept, hwritten, hmissing⟩ := exists_entries_of_explicitAfter hafter
    simp only [Option.or_none] at hmissing
    exact ⟨⟨entries, hkept, hwritten, hmissing⟩, (gapless_of_explicit hexplicit).explicit_eq⟩
  · intro tokens
    exact ⟨gapless_of_explicit, Gapless.explicit_eq⟩

/-- `2(-d6)` -/
def negativeFactor : List Token :=
  [⟨0, .number 2⟩, ⟨1, .opening⟩, ⟨2, .operator .sub⟩, ⟨3, .die 6⟩, ⟨5, .closing⟩]

/-- `2*(0-d6)`, with the indices of `2(-d6)` -/
def negativeFactorWritten : List Token :=
  [⟨0, .number 2⟩, ⟨1, .operator .mul⟩, ⟨1, .opening⟩, ⟨2, .number 0⟩, ⟨2, .operator .sub⟩,
    ⟨3, .die 6⟩, ⟨5, .closing⟩]

/-- A multiplication and a zero are supplied, and nothing is supplied to them. -/
theorem explicit_negativeFactor :
    Token.explicit negativeFactor = .ok negativeFactorWritten ∧
      (∃ entries, entries.map Prod.snd = negativeFactor ∧
        writeOut entries = negativeFactorWritten) ∧
      Token.explicit negativeFactorWritten = .ok negativeFactorWritten ∧
      Gapless .chain negativeFactorWritten ∧ ¬ Gapless .chain negativeFactor := by
  have hexplicit : Token.explicit negativeFactor = .ok negativeFactorWritten := rfl
  have hgaps : Token.explicit negativeFactor ≠ .ok negativeFactor := nofun
  obtain ⟨⟨entries, hkept, hwritten, -⟩, hself⟩ := explicit_is_projection.1 _ _ hexplicit
  have hgapless := explicit_is_projection.2
  exact ⟨hexplicit, ⟨entries, hkept, hwritten⟩, hself, (hgapless _).1 hself,
    fun hchain => hgaps ((hgapless _).2 hchain)⟩

end DiceOdds.Grammar
