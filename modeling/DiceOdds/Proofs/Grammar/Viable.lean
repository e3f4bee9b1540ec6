import DiceOdds.Proofs.Grammar.Parse
import DiceOdds.Proofs.Grammar.Refusal

/-!
# Refusal at the earliest hopeless token

What stands before the first pair of neighbours that is objected to can still be completed: a value
is added if none ends it, and then every group is closed.  From the pair on it cannot, because the
tokens that come after two neighbours leave them neighbours.
-/

namespace DiceOdds.Grammar

open Token

variable {tokens front : List Token} {place : Nat} {fault : Fault}

/-- The stream has an explicit form, and that form assembles to a tree. -/
def Accepted (tokens : List Token) : Prop :=
  ∃ spelled expr, Token.explicit tokens = .ok spelled ∧ Expr.assemble spelled = .ok expr

/-- Tokens with which an accepted stream can start. -/
def Viable (front : List Token) : Prop :=
  ∃ rest, Accepted (front ++ rest)

/-- The neighbours at this place are the first that are objected to, for this fault.  Those at place
0 are the start of the stream and its first token. -/
def RefusedAt (tokens : List Token) (place : Nat) (fault : Fault) : Prop :=
  ∃ before pair after, neighbours tokens = before ++ pair :: after ∧ before.length = place ∧
    objection? pair = some fault ∧ ∀ earlier ∈ before, objection? earlier = none

/-! ### Accepted streams -/

/-- An explicit form never fails to assemble. -/
theorem accepted_of_explicit {spelled : List Token}
    (hexplicit : Token.explicit tokens = .ok spelled) : Accepted tokens := by
  obtain ⟨expr, hderives⟩ := exists_derives_of_explicit hexplicit
  obtain ⟨written, hwritten, hexpr⟩ := explicit_eq_ok_of_derives hderives
  exact ⟨written, expr, hwritten, assemble_eq_ok_of_derives hexpr⟩

theorem Matched.explicit_eq_error_iff (hmatched : Matched tokens) :
    Token.explicit tokens = .error fault ↔
      (neighbours tokens).findSome? objection? = some fault := by
  rw [Grammar.explicit_eq_error_iff]
  constructor
  · rintro (⟨index, hmismatch, -⟩ | ⟨-, hobjection⟩)
    · exact absurd hmismatch (hmatched.not_mismatch index)
    · exact hobjection
  · intro hobjection
    exact .inr ⟨hmatched, hobjection⟩

theorem Matched.explicit_eq_error_iff_refusedAt (hmatched : Matched tokens) :
    Token.explicit tokens = .error fault ↔ ∃ place, RefusedAt tokens place fault := by
  rw [hmatched.explicit_eq_error_iff, List.findSome?_eq_some_iff]
  constructor
  · rintro ⟨before, pair, after, hsplit, hpair, hearlier⟩
    exact ⟨before.length, before, pair, after, hsplit, rfl, hpair, hearlier⟩
  · rintro ⟨place, before, pair, after, hsplit, -, hpair, hearlier⟩
    exact ⟨before, pair, after, hsplit, hpair, hearlier⟩

theorem Matched.accepted (hmatched : Matched tokens)
    (hnone : ∀ pair ∈ neighbours tokens, objection? pair = none) : Accepted tokens := by
  cases hexplicit : Token.explicit tokens with
  | ok spelled => exact accepted_of_explicit hexplicit
  | error fault =>
      have hobjection := hmatched.explicit_eq_error_iff.1 hexplicit
      rw [List.findSome?_eq_none_iff.2 hnone] at hobjection
      cases hobjection

/-- An objection is fatal whether or not the brackets match. -/
theorem explicit_ne_ok_of_objection {pair : Token × Token} (hpair : pair ∈ neighbours tokens)
    (hobjection : objection? pair = some fault) (spelled : List Token) :
    Token.explicit tokens ≠ .ok spelled := by
  intro hexplicit
  obtain ⟨index, -, hmismatch⟩ | ⟨-, hmatched⟩ := mismatch_or_matched tokens
  · rw [explicit_eq_unmatchedParen_iff.2 hmismatch] at hexplicit
    cases hexplicit
  · cases hfirst : (neighbours tokens).findSome? objection? with
    | none =>
        rw [List.findSome?_eq_none_iff.1 hfirst pair hpair] at hobjection
        cases hobjection
    | some first =>
        rw [hmatched.explicit_eq_error_iff.2 hfirst] at hexplicit
        cases hexplicit

/-! ### Where a stream goes on -/

/-- The token that the rest of the stream comes after. -/
def latest (front : List Token) : Token :=
  front.getLastD ⟨0, .opening⟩

theorem zip_succ_append (left : Token) (front rest following : List Token) :
    (left :: (front ++ rest)).zip (front ++ following) =
      (left :: front).zip front ++ (front.getLastD left :: rest).zip following := by
  induction front generalizing left with
  | nil => simp
  | cons next front ih =>
      rw [List.cons_append, List.cons_append, List.zip_cons_cons, ih, List.zip_cons_cons,
        List.getLastD_cons, List.cons_append]

/-- Neighbours in the front of a stream stay neighbours whatever comes after them. -/
theorem neighbours_append (front rest : List Token) :
    ∃ stop, neighbours (front ++ rest) = (⟨0, .opening⟩ :: front).zip front ++
      (latest front :: rest).zip (rest ++ [⟨stop, .closing⟩]) := by
  rw [neighbours, List.append_assoc]
  exact ⟨_, zip_succ_append _ front rest _⟩

theorem mem_neighbours_append (front : List Token) (right : Token) (rest : List Token) :
    (latest front, right) ∈ neighbours (front ++ right :: rest) := by
  obtain ⟨stop, hneighbours⟩ := neighbours_append front (right :: rest)
  rw [hneighbours, List.cons_append, List.zip_cons_cons]
  exact List.mem_append_right _ List.mem_cons_self

theorem length_neighbours (tokens : List Token) :
    (neighbours tokens).length = tokens.length + 1 := by
  simp [neighbours]

/-- A refusal at some place is about the tokens up to there and the one after them. -/
theorem RefusedAt.split (hrefused : RefusedAt tokens place fault) :
    place ≤ tokens.length ∧
      (∀ pair ∈ (⟨0, .opening⟩ :: tokens.take place).zip (tokens.take place),
        objection? pair = none) ∧
      ∀ right rest, tokens.drop place = right :: rest →
        objection? (latest (tokens.take place), right) = some fault := by
  obtain ⟨before, pair, after, hsplit, hlength, hobjection, hearlier⟩ := hrefused
  have hle : place ≤ tokens.length := by
    have hall := congrArg List.length hsplit
    rw [length_neighbours, List.length_append, List.length_cons] at hall
    omega
  obtain ⟨stop, hneighbours⟩ := neighbours_append (tokens.take place) (tokens.drop place)
  rw [List.take_append_drop, hsplit] at hneighbours
  obtain ⟨hbefore, hafter⟩ := List.append_inj hneighbours (by simp [hlength, hle])
  refine ⟨hle, hbefore ▸ hearlier, fun right rest hdrop => ?_⟩
  rw [hdrop] at hafter
  rw [← (List.cons.inj hafter).1]
  exact hobjection

/-! ### Completions -/

theorem objection?_eq_none_of_endsValue {left : Token} (hleft : left.kind.endsValue = true)
    (right : Token) : objection? (left, right) = none := by
  obtain ⟨index, kind⟩ := left
  cases kind with
  | number | die | closing => rfl
  | operator | opening => cases hleft

theorem objection?_eq_none_of_startsValue (left : Token) {right : Token}
    (hright : right.kind.startsValue = true) : objection? (left, right) = none := by
  obtain ⟨leftIndex, leftKind⟩ := left
  obtain ⟨rightIndex, rightKind⟩ := right
  cases rightKind with
  | number | die | opening => cases leftKind <;> rfl
  | operator | closing => cases hright

/-- A value if none ends the front, and the end of every group that is still open. -/
def completion (front : List Token) : List Token :=
  (if (latest front).kind.endsValue then [] else [⟨0, .number 0⟩]) ++
    List.replicate (openings front - closings front) ⟨0, .closing⟩

theorem Contained.closed {count : Nat} (hcontained : Contained tokens)
    (hcount : closings tokens + count = openings tokens) :
    Matched (tokens ++ List.replicate count ⟨0, .closing⟩) := by
  induction count generalizing tokens with
  | zero =>
      rw [List.replicate_zero, List.append_nil]
      exact ⟨hcontained, hcount⟩
  | succ count ih =>
      have hopenings : openings (tokens ++ [⟨0, .closing⟩]) = openings tokens := by simp [openings]
      have hclosings : closings (tokens ++ [⟨0, .closing⟩]) = closings tokens + 1 := by
        simp [closings]
      rw [List.replicate_succ, List.append_cons]
      exact ih (hcontained.concat (by omega)) (by omega)

theorem Contained.matched_completion (hcontained : Contained front) :
    Matched (front ++ completion front) := by
  have hle := hcontained.closings_le
  rw [completion, ← List.append_assoc]
  split
  · rw [List.append_nil]
    exact hcontained.closed (by omega)
  · have hvalue : Matched [⟨0, .number 0⟩] := matched_singleton nofun nofun
    apply (hcontained.append hvalue.1).closed
    rw [closings_append, openings_append, hvalue.2]
    omega

/-- After a value, the rest of a completion consists of ends of groups. -/
theorem objection?_closings {left : Token} (hleft : left.kind.endsValue = true) (count : Nat)
    (rights : List Token) :
    ∀ pair ∈ (left :: List.replicate count ⟨0, .closing⟩).zip rights, objection? pair = none := by
  rintro ⟨before, after⟩ hpair
  apply objection?_eq_none_of_endsValue
  obtain rfl | hmem := List.mem_cons.1 (List.of_mem_zip hpair).1
  · exact hleft
  · rw [List.eq_of_mem_replicate hmem]
    rfl

theorem objection?_completion (rights : List Token) :
    ∀ pair ∈ (latest front :: completion front).zip (completion front ++ rights),
      objection? pair = none := by
  rw [completion]
  split
  · next hends => exact objection?_closings hends _ _
  · rw [List.singleton_append, List.cons_append, List.zip_cons_cons, List.forall_mem_cons]
    exact ⟨objection?_eq_none_of_startsValue _ rfl, objection?_closings rfl _ _⟩

/-- Groups that are not left more often than entered, and neighbours that are not objected to, can
be completed. -/
theorem Contained.viable (hcontained : Contained front)
    (hnone : ∀ pair ∈ (⟨0, .opening⟩ :: front).zip front, objection? pair = none) :
    Viable front := by
  refine ⟨completion front, hcontained.matched_completion.accepted ?_⟩
  obtain ⟨stop, hneighbours⟩ := neighbours_append front (completion front)
  intro pair hpair
  rw [hneighbours] at hpair
  obtain hfront | hadded := List.mem_append.1 hpair
  · exact hnone pair hfront
  · exact objection?_completion _ pair hadded

/-! ### The earliest hopeless token -/

/-- A stream with matching brackets is refused where it becomes hopeless.  The tokens before that
place can be completed to an accepted stream.  If there is a token at that place, no stream that
starts with them and with it has an explicit form, balanced or not.  If there is none, the stream
itself can be completed. -/
theorem refused_at_earliest_hopeless {tokens : List Token} (hmatched : Matched tokens) :
    (∀ fault, Token.explicit tokens = .error fault ↔ ∃ place, RefusedAt tokens place fault) ∧
    ∀ place fault, RefusedAt tokens place fault →
      place ≤ tokens.length ∧ Viable (tokens.take place) ∧
      (place < tokens.length → ∀ rest spelled,
        Token.explicit (tokens.take (place + 1) ++ rest) ≠ .ok spelled) ∧
      (place = tokens.length → Viable tokens) := by
  constructor
  · exact fun fault => hmatched.explicit_eq_error_iff_refusedAt
  · intro place fault hrefused
    obtain ⟨hle, hnone, hright⟩ := hrefused.split
    have hcontained : Contained (tokens.take place) := by
      have hall := hmatched.1
      rw [← List.take_append_drop place tokens] at hall
      exact hall.of_append
    have hviable := hcontained.viable hnone
    refine ⟨hle, hviable, fun hlt rest spelled => ?_, fun heq => ?_⟩
    · rw [List.take_succ_eq_append_getElem hlt, List.append_assoc, List.singleton_append]
      have hobjection := hright _ _ (List.drop_eq_getElem_cons hlt)
      exact explicit_ne_ok_of_objection (mem_neighbours_append _ _ rest) hobjection spelled
    · rwa [heq, List.take_length] at hviable

/-- `(1+*2)`, which is hopeless from the multiplication on. -/
def doubledOperator : List Token :=
  [⟨0, .opening⟩, ⟨1, .number 1⟩, ⟨2, .operator .add⟩, ⟨3, .operator .mul⟩, ⟨4, .number 2⟩,
    ⟨5, .closing⟩]

theorem doubledOperator_hopeless :
    Matched doubledOperator ∧ RefusedAt doubledOperator 3 ⟨.illegalExpression, 3⟩ ∧
      Viable (doubledOperator.take 3) ∧
      ∀ rest spelled, Token.explicit (doubledOperator.take 4 ++ rest) ≠ .ok spelled := by
  have hmatched : Matched doubledOperator := unmatched?_eq_none_iff.1 rfl
  have hrefused : RefusedAt doubledOperator 3 ⟨.illegalExpression, 3⟩ :=
    ⟨(neighbours doubledOperator).take 3, _, _, rfl, rfl, rfl, by decide⟩
  obtain ⟨-, hviable, hhopeless, -⟩ :=
    (refused_at_earliest_hopeless hmatched).2 3 ⟨.illegalExpression, 3⟩ hrefused
  exact ⟨hmatched, hrefused, hviable, hhopeless (by decide)⟩

end DiceOdds.Grammar
