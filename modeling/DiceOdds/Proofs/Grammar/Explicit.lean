import DiceOdds.Proofs.Grammar
import DiceOdds.Token.Explicit

/-!
# Short notation and its explicit form

Writing out a stream that the grammar derives in short notation gives a stream that the grammar
derives in explicit notation, for the same tree.  Conversely a stream that can be written out is
derived: balanced brackets and permitted neighbours are all that the grammar asks for.
-/

namespace DiceOdds.Grammar

open Token

/-! ### Neighbours -/

theorem between_of_startsValue {left right : Token} (hleft : left.kind.endsValue = false)
    (hright : right.kind.startsValue = true) : between left right = .ok [] := by
  obtain ⟨index, kind⟩ := right
  cases kind with
  | number | die | opening => simp [between, hleft]
  | operator | closing => cases hright

theorem between_of_endsValue_of_startsValue {left right : Token}
    (hleft : left.kind.endsValue = true) (hright : right.kind.startsValue = true) :
    between left right = .ok [⟨right.index, .operator .mul⟩] := by
  simp only [between, hleft, hright, if_true]

theorem between_of_endsValue {left right : Token} (hleft : left.kind.endsValue = true)
    (hright : right.kind.startsValue = false) : between left right = .ok [] := by
  simp [between, hleft, hright]

theorem between_opening_sign {left : Token} (hleft : left.kind = .opening) {sign : Operator}
    (hsign : sign ≠ .mul) (index : Int) :
    between left ⟨index, .operator sign⟩ = .ok [⟨index, .number 0⟩] := by
  simp [between, hleft, Kind.endsValue, hsign]

theorem explicitAfter_cons {left right : Token} {gap rest more : List Token}
    (hgap : between left right = .ok gap) (hmore : explicitAfter right rest = .ok more) :
    explicitAfter left (right :: rest) = .ok (gap ++ right :: more) := by
  rw [explicitAfter, hgap, hmore]
  rfl

theorem explicitAfter_cons_eq_ok {left right : Token} {rest spelled : List Token}
    (hok : explicitAfter left (right :: rest) = .ok spelled) :
    (∃ gap, between left right = .ok gap) ∧ ∃ more, explicitAfter right rest = .ok more := by
  rw [explicitAfter] at hok
  cases hgap : between left right with
  | error fault => rw [hgap] at hok; cases hok
  | ok gap =>
      cases hmore : explicitAfter right rest with
      | error fault => rw [hgap, hmore] at hok; cases hok
      | ok more => exact ⟨⟨gap, rfl⟩, more, rfl⟩

/-! ### Writing out a derived stream -/

/-- A derived part leaves every bracket around it as it is. -/
theorem unmatchedAfter?_append_of_derives {style : Style} {part : Part} {tokens : List Token}
    {expr : Expr} (hderives : Derives style part tokens expr) (opened : List Int)
    (rest : List Token) :
    unmatchedAfter? opened (tokens ++ rest) = unmatchedAfter? opened rest := by
  induction hderives generalizing opened rest with
  | number | die => rfl
  | group start stop _ ih =>
      simp only [List.cons_append, List.append_assoc, unmatchedAfter?, ih, List.nil_append]
  | factor _ ih | term _ ih => exact ih opened rest
  | times index _ _ ihLeft ihRight | operation _ index _ _ ihLeft ihRight =>
      simp only [List.append_assoc, List.cons_append, ihLeft, unmatchedAfter?, ihRight]
  | beside _ _ _ ihLeft ihRight => simp only [List.append_assoc, ihLeft, ihRight]
  | signed _ _ index _ ih => simp only [List.cons_append, unmatchedAfter?, ih]

theorem exists_cons_of_derives_factor {style : Style} {tokens : List Token} {expr : Expr}
    (hderives : Derives style .factor tokens expr) :
    ∃ head tail, tokens = head :: tail ∧ head.kind.startsValue = true := by
  cases hderives with
  | number | die => exact ⟨_, [], rfl, rfl⟩
  | group start stop => exact ⟨⟨start, .opening⟩, _, rfl, rfl⟩

/-- What stands before a part: no value, and the start of a group if the part may have a sign. -/
def Precedes (left : Token) : Part → Prop
  | .sum => left.kind = .opening
  | _ => left.kind.endsValue = false

theorem Precedes.endsValue {left : Token} {part : Part} (hleft : Precedes left part) :
    left.kind.endsValue = false := by
  cases part with
  | sum => rw [show left.kind = .opening from hleft]; rfl
  | term | factor => exact hleft

/-- `spelled` is what writing out makes of `tokens` wherever they stand, and `last`, the end of a
value, is what the tokens after them follow. -/
def WritesOut (part : Part) (tokens spelled : List Token) (last : Token) : Prop :=
  last.kind.endsValue = true ∧ ∀ left rest more, Precedes left part →
    explicitAfter last rest = .ok more →
      explicitAfter left (tokens ++ rest) = .ok (spelled ++ more)

/-- After a value a factor is written out with a multiplication before it. -/
theorem WritesOut.beside {style : Style} {tokens spelled : List Token} {last : Token} {expr : Expr}
    (hwrites : WritesOut .factor tokens spelled last)
    (hderives : Derives style .factor tokens expr) :
    ∃ index, ∀ left rest more, left.kind.endsValue = true →
      explicitAfter last rest = .ok more →
        explicitAfter left (tokens ++ rest) = .ok (⟨index, .operator .mul⟩ :: spelled ++ more) := by
  obtain ⟨head, tail, rfl, hhead⟩ := exists_cons_of_derives_factor hderives
  refine ⟨head.index, fun left rest more hleft hmore => ?_⟩
  have hplain := hwrites.2 ⟨0, .opening⟩ rest more rfl hmore
  rw [List.cons_append] at hplain ⊢
  obtain ⟨-, written, hwritten⟩ := explicitAfter_cons_eq_ok hplain
  rw [explicitAfter_cons (between_of_startsValue rfl hhead) hwritten] at hplain
  rw [explicitAfter_cons (between_of_endsValue_of_startsValue hleft hhead) hwritten]
  exact congrArg (Except.map (⟨head.index, .operator .mul⟩ :: ·)) hplain

theorem WritesOut.operator {part added : Part} {left right leftSpelled rightSpelled : List Token}
    {leftLast last : Token} {operator : Operator} {index : Int}
    (hleft : WritesOut part left leftSpelled leftLast)
    (hright : WritesOut added right rightSpelled last)
    (hprecedes : Precedes ⟨index, .operator operator⟩ added) :
    WritesOut part (left ++ ⟨index, .operator operator⟩ :: right)
      (leftSpelled ++ ⟨index, .operator operator⟩ :: rightSpelled) last := by
  constructor
  · exact hright.1
  · intro before rest more hbefore hmore
    have hafter := hright.2 ⟨index, .operator operator⟩ rest more hprecedes hmore
    have hoperator := explicitAfter_cons (between_of_endsValue hleft.1 rfl) hafter
    simpa using hleft.2 before _ _ hbefore hoperator

/-- A derived part is written out as an explicit part with the same tree. -/
theorem exists_writesOut {part : Part} {tokens : List Token} {expr : Expr}
    (hderives : Derives .short part tokens expr) :
    ∃ spelled last, Derives .explicit part spelled expr ∧ WritesOut part tokens spelled last := by
  induction hderives with
  | number index value =>
      refine ⟨_, ⟨index, .number value⟩, .number index value, rfl, fun left rest more hleft => ?_⟩
      exact explicitAfter_cons (between_of_startsValue hleft rfl)
  | die index faces =>
      refine ⟨_, ⟨index, .die faces⟩, .die index faces, rfl, fun left rest more hleft => ?_⟩
      exact explicitAfter_cons (between_of_startsValue hleft rfl)
  | group start stop _ ih =>
      obtain ⟨spelled, last, hspelled, hlast, hwrites⟩ := ih
      refine ⟨_, ⟨stop, .closing⟩, .group start stop hspelled, rfl, ?_⟩
      intro left rest more hleft hmore
      have hstop := explicitAfter_cons (between_of_endsValue hlast rfl) hmore
      have hinner := hwrites ⟨start, .opening⟩ _ _ rfl hstop
      simpa using explicitAfter_cons (between_of_startsValue hleft rfl) hinner
  | factor _ ih =>
      obtain ⟨spelled, last, hspelled, hwrites⟩ := ih
      exact ⟨spelled, last, .factor hspelled, hwrites⟩
  | times index _ _ ihLeft ihRight =>
      obtain ⟨leftSpelled, leftLast, hleftSpelled, hleftWrites⟩ := ihLeft
      obtain ⟨rightSpelled, last, hrightSpelled, hrightWrites⟩ := ihRight
      exact ⟨_, last, .times index hleftSpelled hrightSpelled,
        hleftWrites.operator hrightWrites rfl⟩
  | beside _ _ hright ihLeft ihRight =>
      obtain ⟨leftSpelled, leftLast, hleftSpelled, hleftLast, hleftWrites⟩ := ihLeft
      obtain ⟨rightSpelled, last, hrightSpelled, hrightWrites⟩ := ihRight
      obtain ⟨index, hbeside⟩ := hrightWrites.beside hright
      refine ⟨_, last, .times index hleftSpelled hrightSpelled, hrightWrites.1, ?_⟩
      intro left rest more hleft hmore
      simpa using hleftWrites left _ _ hleft (hbeside leftLast rest more hleftLast hmore)
  | term _ ih =>
      obtain ⟨spelled, last, hspelled, hlast, hwrites⟩ := ih
      refine ⟨spelled, last, .term hspelled, hlast, fun left rest more hleft => ?_⟩
      exact hwrites left rest more (Precedes.endsValue hleft)
  | @signed _ _ sign _ hsign index _ ih =>
      obtain ⟨spelled, last, hspelled, hlast, hwrites⟩ := ih
      have hzero : Derives .explicit .sum [⟨index, .number 0⟩] (.number 0) :=
        .term (.factor (.number index 0))
      refine ⟨_, last, .operation hsign index hzero hspelled, hlast, ?_⟩
      intro left rest more hleft hmore
      have hterm := hwrites ⟨index, .operator sign⟩ rest more rfl hmore
      exact explicitAfter_cons (between_opening_sign hleft hsign index) hterm
  | @operation _ _ _ _ sign hsign index _ _ ihLeft ihRight =>
      obtain ⟨leftSpelled, leftLast, hleftSpelled, hleftWrites⟩ := ihLeft
      obtain ⟨rightSpelled, last, hrightSpelled, hrightWrites⟩ := ihRight
      exact ⟨_, last, .operation hsign index hleftSpelled hrightSpelled,
        hleftWrites.operator hrightWrites rfl⟩

/-- A stream that denotes a tree has an explicit form that denotes it too. -/
theorem explicit_eq_ok_of_derives {tokens : List Token} {expr : Expr}
    (hderives : Derives .short .sum tokens expr) :
    ∃ spelled, Token.explicit tokens = .ok spelled ∧ Derives .explicit .sum spelled expr := by
  obtain ⟨spelled, last, hspelled, hlast, hwrites⟩ := exists_writesOut hderives
  have hunmatched : unmatched? tokens = none := by
    have happend := unmatchedAfter?_append_of_derives hderives [] []
    rwa [List.append_nil] at happend
  have hending : explicitAfter last [] = .ok [] := by
    obtain ⟨index, kind⟩ := last
    cases kind with
    | number | die | closing => rfl
    | operator | opening => cases hlast
  have hafter := hwrites ⟨0, .opening⟩ [] [] rfl hending
  rw [List.append_nil, List.append_nil] at hafter
  have hexplicit : Token.explicit tokens = .ok spelled := by
    rw [Token.explicit, hunmatched]
    exact hafter
  exact ⟨spelled, hexplicit, hspelled⟩

/-! ### Everything that can be written out is derived -/

def Derivable (part : Part) (tokens : List Token) : Prop :=
  ∃ expr, Derives .short part tokens expr

/-- What can be added to every term can be added to every sum. -/
theorem Derivable.append {tokens added : List Token} (hsum : Derivable .sum tokens)
    (hadded : ∀ left, Derivable .term left → Derivable .term (left ++ added)) :
    Derivable .sum (tokens ++ added) := by
  obtain ⟨expr, hderives⟩ := hsum
  cases hderives with
  | term hterm =>
      obtain ⟨extended, hextended⟩ := hadded _ ⟨_, hterm⟩
      exact ⟨extended, .term hextended⟩
  | signed hshort hsign index hterm =>
      obtain ⟨extended, hextended⟩ := hadded _ ⟨_, hterm⟩
      exact ⟨_, .signed hshort hsign index hextended⟩
  | operation hsign index hleft hterm =>
      obtain ⟨extended, hextended⟩ := hadded _ ⟨_, hterm⟩
      rw [List.append_assoc, List.cons_append]
      exact ⟨_, .operation hsign index hleft hextended⟩

/-- Content of a group that any factor turns into a sum. -/
def AwaitsFactor (content : List Token) : Prop :=
  ∀ factor, Derivable .factor factor → Derivable .sum (content ++ factor)

theorem awaitsFactor_nil : AwaitsFactor [] := by
  rintro factor ⟨expr, hfactor⟩
  exact ⟨expr, .term (.factor hfactor)⟩

theorem awaitsFactor_sign {sign : Operator} (hsign : sign ≠ .mul) (index : Int) :
    AwaitsFactor [⟨index, .operator sign⟩] := by
  rintro factor ⟨expr, hfactor⟩
  exact ⟨_, .signed rfl hsign index (.factor hfactor)⟩

theorem Derivable.awaitsFactor {content : List Token} (hsum : Derivable .sum content) :
    AwaitsFactor content := by
  rintro factor ⟨expr, hfactor⟩
  apply hsum.append
  rintro left ⟨leftExpr, hleft⟩
  exact ⟨_, .beside rfl hleft hfactor⟩

theorem Derivable.awaitsFactor_operator {content : List Token} (hsum : Derivable .sum content)
    (operator : Operator) (index : Int) :
    AwaitsFactor (content ++ [⟨index, .operator operator⟩]) := by
  rintro factor ⟨expr, hfactor⟩
  rw [List.append_assoc, List.singleton_append]
  by_cases hsign : operator = .mul
  · subst hsign
    apply hsum.append
    rintro left ⟨leftExpr, hleft⟩
    exact ⟨_, .times index hleft hfactor⟩
  · obtain ⟨leftExpr, hleft⟩ := hsum
    exact ⟨_, .operation hsign index hleft (.factor hfactor)⟩

/-- The tokens up to the start of the innermost group, where `opened` holds the indices of the
brackets that are open.  Each group around it awaits a factor. -/
inductive Around : List Int → List Token → Prop
  | nil : Around [] []
  | group {opened : List Int} {outer content : List Token} (index : Int) :
      Around opened outer → AwaitsFactor content →
      Around (index :: opened) (outer ++ content ++ [⟨index, .opening⟩])

/-- The content of a group up to its latest token. -/
def Content (latest : Token) (content : List Token) : Prop :=
  if latest.kind.endsValue then Derivable .sum content
  else AwaitsFactor content ∧ (latest.kind = .opening → content = [])

theorem Content.awaitsFactor {latest : Token} {content : List Token}
    (hcontent : Content latest content) : AwaitsFactor content := by
  rw [Content] at hcontent
  split at hcontent
  · exact hcontent.awaitsFactor
  · exact hcontent.1

theorem Content.factor {latest : Token} {content factor : List Token}
    (hcontent : Content latest content) (hfactor : Derivable .factor factor) {next : Token}
    (hnext : next.kind.endsValue = true) : Content next (content ++ factor) := by
  rw [Content, if_pos hnext]
  exact hcontent.awaitsFactor factor hfactor

theorem Content.operator {latest : Token} {content gap : List Token} {operator : Operator}
    {index : Int} (hcontent : Content latest content)
    (hgap : between latest ⟨index, .operator operator⟩ = .ok gap) :
    Content ⟨index, .operator operator⟩ (content ++ [⟨index, .operator operator⟩]) := by
  refine ⟨?_, nofun⟩
  rw [Content] at hcontent
  split at hcontent
  · exact hcontent.awaitsFactor_operator operator index
  · rename_i hlatest
    by_cases hsigned : latest.kind = .opening ∧ operator ≠ .mul
    · rw [hcontent.2 hsigned.1]
      exact awaitsFactor_sign hsigned.2 index
    · simp [between, hlatest, hsigned] at hgap

/-- A group ends after a value only. -/
theorem Content.derivable {latest : Token} {content spelled : List Token}
    (hcontent : Content latest content) (hends : ending latest = .ok spelled) :
    Derivable .sum content := by
  obtain ⟨index, kind⟩ := latest
  cases kind with
  | number | die | closing => exact hcontent
  | operator | opening => cases hends

theorem ending_of_between_closing {latest : Token} {gap : List Token} {index : Int}
    (hgap : between latest ⟨index, .closing⟩ = .ok gap) : ending latest = .ok [] := by
  obtain ⟨index, kind⟩ := latest
  cases kind with
  | number | die | closing => rfl
  | operator | opening => cases hgap

/-- Balanced brackets and permitted neighbours complete any content to a sum. -/
theorem derivable_of_explicitAfter {latest : Token} {opened : List Int}
    {outer content rest spelled : List Token} (haround : Around opened outer)
    (hcontent : Content latest content) (hunmatched : unmatchedAfter? opened rest = none)
    (hexplicit : explicitAfter latest rest = .ok spelled) :
    Derivable .sum (outer ++ content ++ rest) := by
  induction rest generalizing latest opened outer content spelled with
  | nil =>
      cases haround with
      | nil => simpa using hcontent.derivable hexplicit
      | group => cases hunmatched
  | cons next rest ih =>
      obtain ⟨⟨gap, hgap⟩, more, hmore⟩ := explicitAfter_cons_eq_ok hexplicit
      obtain ⟨index, kind⟩ := next
      cases kind with
      | number value =>
          have hnext : Content ⟨index, .number value⟩ _ :=
            hcontent.factor ⟨_, .number index value⟩ rfl
          simpa using ih haround hnext hunmatched hmore
      | die faces =>
          have hnext : Content ⟨index, .die faces⟩ _ :=
            hcontent.factor ⟨_, .die index faces⟩ rfl
          simpa using ih haround hnext hunmatched hmore
      | operator operator =>
          simpa using ih haround (hcontent.operator hgap) hunmatched hmore
      | opening =>
          have hnext : Content ⟨index, .opening⟩ [] := ⟨awaitsFactor_nil, fun _ => rfl⟩
          simpa using ih (haround.group index hcontent.awaitsFactor) hnext hunmatched hmore
      | closing =>
          obtain ⟨expr, hderives⟩ := hcontent.derivable (ending_of_between_closing hgap)
          cases haround with
          | nil => cases hunmatched
          | @group opened outer awaiting start haround hawaits =>
              have hnext : Content ⟨index, .closing⟩ _ :=
                hawaits _ ⟨expr, .group start index hderives⟩
              simpa using ih haround hnext hunmatched hmore

/-- Only streams that denote a tree have an explicit form. -/
theorem exists_derives_of_explicit {tokens spelled : List Token}
    (hexplicit : Token.explicit tokens = .ok spelled) :
    ∃ expr, Derives .short .sum tokens expr := by
  rw [Token.explicit] at hexplicit
  split at hexplicit
  · cases hexplicit
  · rename_i hunmatched
    have hcontent : Content ⟨0, .opening⟩ [] := ⟨awaitsFactor_nil, fun _ => rfl⟩
    exact derivable_of_explicitAfter .nil hcontent hunmatched hexplicit

end DiceOdds.Grammar
