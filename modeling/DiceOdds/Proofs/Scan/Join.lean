import DiceOdds.Proofs.Reindex
import DiceOdds.Proofs.Scan.Faults

/-!
# Scanning joined fragments

A blank ends every run of digits and starts none.  Text that is put together from fragments with a
blank between every two of them therefore scans fragment by fragment: to the tokens of all
fragments, or to the fault of the first that has one.
-/

namespace DiceOdds

namespace Token

variable {place : Int → Int} {index : Int} {run : Run} {text : Text}

/-! ### Scanning from another index -/

def Run.reindex (place : Int → Int) : Run → Run
  | idle => idle
  | number start value => number (place start) value
  | die start faces => die (place start) faces

theorem Run.finish_reindex : (run.reindex place).finish = reindexed place run.finish := by
  cases run with
  | idle | number => rfl
  | die start faces => cases faces <;> rfl

theorem Run.push_reindex (digit : Nat) :
    (run.reindex place).push (place index) digit = (run.push index digit).reindex place := by
  cases run <;> rfl

theorem restart?_reindex (place : Int → Int) (index : Int) (symbol : Symbol) :
    symbol.restart? (place index) =
      (symbol.restart? index).map fun (own, next) =>
        (own.map (Token.reindex place), next.reindex place) := by
  cases symbol <;> rfl

/-- Where neighbouring characters stay neighbours, a scan finds the same at other indices. -/
theorem scanFrom_reindex (hplace : ∀ index, place (index + 1) = place index + 1) (index : Int)
    (run : Run) (text : Text) :
    scanFrom (place index) (run.reindex place) text =
      reindexed place (scanFrom index run text) := by
  induction text generalizing index run with
  | nil => exact Run.finish_reindex
  | cons point rest ih =>
      obtain ⟨value, hsymbol⟩ | hsymbol | ⟨own, next, hrestart⟩ :=
        point.symbol.digit_or_foreign_or_restart index
      · simp only [scanFrom, hsymbol]
        rw [Run.push_reindex, ← hplace, ih]
      · simp only [scanFrom, hsymbol]
        rw [Run.finish_reindex]
        cases run.finish <;> rfl
      · have hmoved := restart?_reindex place index point.symbol
        rw [hrestart] at hmoved
        rw [scanFrom_cons_of_restart? hrestart, scanFrom_cons_of_restart? hmoved,
          reindexed_bind, Run.finish_reindex, ← hplace, ih]

/-- The index after a start. -/
def shift (start : Nat) (index : Int) : Int :=
  start + index

theorem shift_zero : shift 0 = id := by
  funext index
  exact Int.zero_add index

theorem shift_comp (outer inner : Nat) : shift outer ∘ shift inner = shift (outer + inner) := by
  funext index
  simp only [shift, Function.comp_apply, Int.natCast_add, Int.add_assoc]

/-- A text that starts later scans to what it scans to by itself, with later indices. -/
theorem scanFrom_idle (start : Nat) (text : Text) :
    scanFrom start .idle text = reindexed (shift start) (scan text) := by
  have hshift (index : Int) : shift start (index + 1) = shift start index + 1 :=
    (Int.add_assoc start index 1).symm
  exact scanFrom_reindex hshift 0 .idle text

/-! ### Scanning across a blank -/

theorem scanFrom_append_blank {blank : CodePoint} (hblank : blank.symbol = .blank)
    (index : Int) (run : Run) (piece rest : Text) :
    scanFrom index run (piece ++ blank :: rest) = do
      let before ← scanFrom index run piece
      let after ← scanFrom (index + (piece.length + 1 : Nat)) .idle rest
      return before ++ after := by
  induction piece generalizing index run with
  | nil =>
      rw [List.nil_append, scanFrom, scanFrom, hblank]
      rfl
  | cons point piece ih =>
      have hnext : index + ((point :: piece).length + 1 : Nat) =
          index + 1 + (piece.length + 1 : Nat) := by
        rw [List.length_cons]
        omega
      rw [List.cons_append, hnext]
      obtain ⟨value, hsymbol⟩ | hsymbol | ⟨own, next, hrestart⟩ :=
        point.symbol.digit_or_foreign_or_restart index
      · rw [scanFrom, scanFrom, hsymbol]
        exact ih (index + 1) (run.push index value)
      · rw [scanFrom, scanFrom, hsymbol]
        cases run.finish <;> rfl
      · rw [scanFrom_cons_of_restart? hrestart, scanFrom_cons_of_restart? hrestart, ih]
        simp only [bind_assoc, pure_bind, List.append_assoc]

theorem scan_append_blank {blank : CodePoint} (hblank : blank ∈ Text.blanks)
    (fragment text : Text) :
    scan (fragment ++ blank :: text) = do
      let before ← scan fragment
      let after ← reindexed (shift (fragment.length + 1)) (scan text)
      return before ++ after := by
  have hsymbol : blank.symbol = .blank := (CodePoint.symbol_eq_iff (by simp)).2 hblank
  rw [scan, scanFrom_append_blank hsymbol, Int.zero_add, scanFrom_idle]
  rfl

end Token

/-! ### Joined fragments -/

namespace Text

/-- The text is made of the fragments, with a blank between every two neighbours. -/
inductive Interspersed : List Text → Text → Prop
  | none : Interspersed [] []
  | one (fragment : Text) : Interspersed [fragment] fragment
  | more {blank : CodePoint} {next text : Text} {fragments : List Text} (fragment : Text)
      (hblank : blank ∈ blanks) (hrest : Interspersed (next :: fragments) text) :
      Interspersed (fragment :: next :: fragments) (fragment ++ blank :: text)

theorem interspersed_intercalate {blank : CodePoint} (hblank : blank ∈ blanks)
    (fragments : List Text) : Interspersed fragments ([blank].intercalate fragments) := by
  induction fragments with
  | nil => exact .none
  | cons fragment fragments ih =>
    cases fragments with
    | nil => simpa using Interspersed.one fragment
    | cons next fragments => simpa using ih.more fragment hblank

/-- Where the next fragment starts after these fragments, each of them followed by a blank. -/
def startAfter : List Text → Nat
  | [] => 0
  | fragment :: front => fragment.length + 1 + startAfter front

end Text

namespace Token

open Text

variable {fragments : List Text} {text : Text}

/-- The tokens of a text that starts later. -/
def shifted (start : Nat) (tokens : List Token) : List Token :=
  tokens.map (reindex (shift start))

theorem shifted_zero (tokens : List Token) : shifted 0 tokens = tokens := by
  rw [shifted, shift_zero]
  exact List.map_id tokens

theorem shifted_shifted (outer inner : Nat) (tokens : List Token) :
    shifted outer (shifted inner tokens) = shifted (outer + inner) tokens := by
  rw [shifted, shifted, List.map_map, shifted, ← shift_comp]
  rfl

theorem shifted_flatten (start : Nat) (lists : List (List Token)) :
    shifted start lists.flatten = (lists.map (shifted start)).flatten :=
  List.map_flatten

/-- The tokens of all fragments, each list moved to where its fragment starts. -/
def gathered (fragments : List Text) (scanned : List (List Token)) : List Token :=
  (scanned.mapIdx fun number tokens => shifted (startAfter (fragments.take number)) tokens).flatten

theorem gathered_cons (fragment : Text) (fragments : List Text) (tokens : List Token)
    (scanned : List (List Token)) :
    gathered (fragment :: fragments) (tokens :: scanned) =
      tokens ++ shifted (fragment.length + 1) (gathered fragments scanned) := by
  have hlater (number : Nat) (tokens : List Token) :
      shifted (startAfter ((fragment :: fragments).take (number + 1))) tokens =
        shifted (fragment.length + 1) (shifted (startAfter (fragments.take number)) tokens) := by
    rw [shifted_shifted, List.take_succ_cons, startAfter]
  have hmoved :
      (scanned.mapIdx fun number tokens =>
        shifted (startAfter ((fragment :: fragments).take (number + 1))) tokens) =
      (scanned.mapIdx fun number tokens =>
        shifted (startAfter (fragments.take number)) tokens).map
          (shifted (fragment.length + 1)) := by
    apply List.ext_getElem (by simp)
    intro number _ _
    simp only [List.getElem_mapIdx, List.getElem_map, hlater]
  rw [gathered, List.mapIdx_cons, List.flatten_cons, hmoved, gathered, shifted_flatten]
  exact congrArg (· ++ _) (shifted_zero tokens)

theorem scan_of_interspersed (hjoined : Interspersed fragments text)
    {scanned : List (List Token)} (hscanned : fragments.map scan = scanned.map .ok) :
    scan text = .ok (gathered fragments scanned) := by
  induction hjoined generalizing scanned with
  | none =>
      obtain rfl : scanned = [] := List.map_eq_nil_iff.1 hscanned.symm
      rfl
  | one fragment =>
      obtain ⟨tokens, rest, rfl, hfragment, hrest⟩ := List.map_eq_cons_iff.1 hscanned.symm
      obtain rfl : rest = [] := List.map_eq_nil_iff.1 hrest
      rw [gathered_cons, ← hfragment]
      exact congrArg Except.ok (List.append_nil tokens).symm
  | more fragment hblank _ ih =>
      obtain ⟨tokens, rest, rfl, hfragment, hrest⟩ := List.map_eq_cons_iff.1 hscanned.symm
      rw [scan_append_blank hblank, ← hfragment, ih hrest.symm, gathered_cons]
      rfl

theorem scan_of_first_faulty (hjoined : Interspersed fragments text) {front rest : List Text}
    {fragment : Text} {fault : Fault} (hsplit : fragments = front ++ fragment :: rest)
    (hfront : ∀ earlier ∈ front, ∃ tokens, scan earlier = .ok tokens)
    (hfault : scan fragment = .error fault) :
    scan text = .error (fault.reindex (shift (startAfter front))) := by
  induction hjoined generalizing front with
  | none => cases front <;> cases hsplit
  | one only =>
    cases front with
    | cons first front => simp at hsplit
    | nil =>
        obtain rfl : only = fragment := (List.cons.inj hsplit).1
        rw [hfault, startAfter, shift_zero]
        rfl
  | more first hblank _ ih =>
    cases front with
    | nil =>
        obtain rfl : first = fragment := (List.cons.inj hsplit).1
        rw [scan_append_blank hblank, hfault, startAfter, shift_zero]
        rfl
    | cons earlier front =>
        obtain ⟨rfl, hrest⟩ : earlier = first ∧ _ := (List.cons.inj hsplit).imp_left Eq.symm
        obtain ⟨⟨tokens, htokens⟩, hlater⟩ := List.forall_mem_cons.1 hfront
        have hshift := shift_comp (earlier.length + 1) (startAfter front)
        rw [scan_append_blank hblank, htokens, ih hrest hlater, startAfter, ← hshift]
        rfl

theorem exists_scanned_or_first_faulty (fragments : List Text) :
    (∃ scanned : List (List Token), fragments.map scan = scanned.map .ok) ∨
      ∃ front fragment rest fault, fragments = front ++ fragment :: rest ∧
        (∀ earlier ∈ front, ∃ tokens, scan earlier = .ok tokens) ∧
        scan fragment = .error fault := by
  induction fragments with
  | nil => exact .inl ⟨[], rfl⟩
  | cons first fragments ih =>
    cases hfirst : scan first with
    | error fault => exact .inr ⟨[], first, fragments, fault, rfl, by simp, hfirst⟩
    | ok tokens =>
      obtain ⟨scanned, hscanned⟩ | ⟨front, fragment, rest, fault, hsplit, hfront, hfault⟩ := ih
      · refine .inl ⟨tokens :: scanned, ?_⟩
        rw [List.map_cons, hfirst, hscanned, List.map_cons]
      · have hscans : ∀ earlier ∈ first :: front, ∃ tokens, scan earlier = .ok tokens :=
          List.forall_mem_cons.2 ⟨⟨tokens, hfirst⟩, hfront⟩
        exact .inr ⟨first :: front, fragment, rest, fault, by rw [hsplit]; rfl, hscans, hfault⟩

/-- Scanning commutes with joining on blanks.  If every fragment scans, the text scans to the tokens
of all fragments, each list with the start of its fragment added to the indices.  If not, there is a
first fragment with a fault, and the text has that fault, with the start of the fragment added to
its index.  Joining with one blank throughout is a special case. -/
theorem scan_commutes_with_joining :
    (∀ blank ∈ blanks, ∀ fragments, Interspersed fragments ([blank].intercalate fragments)) ∧
    (∀ fragments : List Text,
      (∃ scanned : List (List Token), fragments.map scan = scanned.map .ok) ∨
        ∃ front fragment rest fault, fragments = front ++ fragment :: rest ∧
          (∀ earlier ∈ front, ∃ tokens, scan earlier = .ok tokens) ∧
          scan fragment = .error fault) ∧
    ∀ fragments text, Interspersed fragments text →
      (∀ scanned : List (List Token), fragments.map scan = scanned.map .ok →
        scan text = .ok (scanned.mapIdx fun number tokens =>
          shifted (startAfter (fragments.take number)) tokens).flatten) ∧
      ∀ front fragment rest fault, fragments = front ++ fragment :: rest →
        (∀ earlier ∈ front, ∃ tokens, scan earlier = .ok tokens) →
        scan fragment = .error fault →
          scan text = .error ⟨fault.cause, startAfter front + fault.index⟩ := by
  refine ⟨fun _ hblank => interspersed_intercalate hblank, exists_scanned_or_first_faulty, ?_⟩
  intro fragments text hjoined
  constructor
  · intro scanned hscanned
    exact scan_of_interspersed hjoined hscanned
  · intro front fragment rest fault hsplit hfront hfault
    exact scan_of_first_faulty hjoined hsplit hfront hfault

/-- Digits at the end of a fragment are not continued by the next, and a die without a face is not
given one. -/
theorem scan_joined_digits :
    scan (.ofString "1\t2d3\t") = .ok [⟨0, .number 1⟩, ⟨2, .number 2⟩, ⟨3, .die 3⟩] ∧
      scan (.ofString "2 d 6$") = .error ⟨.badDie, 2⟩ := by
  obtain ⟨hjoins, -, hscans⟩ := scan_commutes_with_joining
  constructor
  · have hjoined := hjoins (.scalar '\t') (by decide) [.ofString "1", .ofString "2d3", []]
    exact (hscans _ _ hjoined).1 [[⟨0, .number 1⟩], [⟨0, .number 2⟩, ⟨1, .die 3⟩], []] rfl
  · have hjoined := hjoins (.scalar ' ') (by decide) [.ofString "2", .ofString "d", .ofString "6$"]
    have hnumber : ∀ earlier ∈ [Text.ofString "2"], ∃ tokens, scan earlier = .ok tokens :=
      List.forall_mem_singleton.2 ⟨[⟨0, .number 2⟩], rfl⟩
    exact (hscans _ _ hjoined).2 [.ofString "2"] (.ofString "d") [.ofString "6$"] ⟨.badDie, 0⟩ rfl
      hnumber rfl

end Token

end DiceOdds
