import DiceOdds.Proofs.Scan.Faults
import Mathlib.Data.List.Forall2

/-!
# Tokens take all that they can

A scan cuts a text into the spans of its tokens and into blanks.  A number takes all digits that
stand in a row, a die takes its mark and all digits after it, and any other token is one character.
Nothing of the text is read twice and nothing but blanks is left out.
-/

namespace DiceOdds

namespace Text

/-- The digits that stand in a row from this position on. -/
def digitsFrom (text : Text) (position : Nat) : Text :=
  (text.drop position).takeWhile (· ∈ digits)

/-- The number that decimal digits spell. -/
def decimal (run : Text) : Nat :=
  Nat.ofDigitChars 10 (run.map CodePoint.toChar) 0

/-- The position after the digits that stand in a row from this one on. -/
def afterDigits (text : Text) (position : Nat) : Nat :=
  position + (text.digitsFrom position).length

end Text

namespace Token

open Text

variable {text : Text} {position start stop : Nat} {kind : Kind}
variable {tokens : List Token} {spans : List (Nat × Nat)}

/-! ### Spans -/

/-- A token of this kind stands in the text from `start` up to `stop`. -/
inductive Spans (text : Text) (start : Nat) : Kind → Nat → Prop
  | number (hrun : text.digitsFrom start ≠ []) :
      Spans text start (.number (decimal (text.digitsFrom start))) (text.afterDigits start)
  | die (hat : text[start]? = some (.scalar 'd')) :
      Spans text start (.die (decimal (text.digitsFrom (start + 1)))) (text.afterDigits (start + 1))
  | mark {kind : Kind} {point : CodePoint} (hat : text[start]? = some point)
      (hpoint : point ∈ (Symbol.mark kind).characters) : Spans text start kind (start + 1)

theorem Spans.lt (hspans : Spans text start kind stop) : start < stop := by
  cases hspans with
  | number hrun => exact Nat.lt_add_of_pos_right (List.length_pos_iff.2 hrun)
  | die => exact Nat.lt_of_lt_of_le start.lt_succ_self (Nat.le_add_right _ _)
  | mark => exact start.lt_succ_self

/-- The text from `position` on is cut into the spans of tokens and into blanks. -/
inductive Munches (text : Text) : Nat → List Token → List (Nat × Nat) → Prop
  | done {position : Nat} (hend : text.length ≤ position) : Munches text position [] []
  | blank {position : Nat} {tokens : List Token} {spans : List (Nat × Nat)} {point : CodePoint}
      (hat : text[position]? = some point) (hpoint : point ∈ blanks)
      (hrest : Munches text (position + 1) tokens spans) : Munches text position tokens spans
  | token {position stop : Nat} {kind : Kind} {tokens : List Token} {spans : List (Nat × Nat)}
      (hspans : Spans text position kind stop) (hrest : Munches text stop tokens spans) :
      Munches text position (⟨position, kind⟩ :: tokens) ((position, stop) :: spans)

theorem Munches.forall₂ (hmunches : Munches text position tokens spans) :
    List.Forall₂ (fun token span => token.index = span.1 ∧ Spans text span.1 token.kind span.2)
      tokens spans := by
  induction hmunches with
  | done => exact .nil
  | blank _ _ _ ih => exact ih
  | token hspans _ ih => exact .cons ⟨rfl, hspans⟩ ih

theorem Munches.le_start (hmunches : Munches text position tokens spans) :
    ∀ span ∈ spans, position ≤ span.1 := by
  induction hmunches with
  | done => exact nofun
  | blank _ _ _ ih => exact fun span hmem => Nat.le_of_succ_le (ih span hmem)
  | token hspans _ ih =>
      refine List.forall_mem_cons.2 ⟨Nat.le_refl _, fun span hmem => ?_⟩
      exact Nat.le_trans (Nat.le_of_lt hspans.lt) (ih span hmem)

theorem Munches.pairwise (hmunches : Munches text position tokens spans) :
    spans.Pairwise fun earlier later => earlier.2 ≤ later.1 := by
  induction hmunches with
  | done => exact .nil
  | blank _ _ _ ih => exact ih
  | token _ hrest ih => exact .cons hrest.le_start ih

/-- Nothing but blanks is left out. -/
theorem Munches.mem_blanks (hmunches : Munches text position tokens spans) {other : Nat}
    {point : CodePoint} (hother : position ≤ other) (hat : text[other]? = some point)
    (houtside : ∀ span ∈ spans, ¬ (span.1 ≤ other ∧ other < span.2)) : point ∈ blanks := by
  induction hmunches with
  | done hend =>
      rw [List.getElem?_eq_none (Nat.le_trans hend hother)] at hat
      cases hat
  | @blank position _ _ blank hblank hpoint _ ih =>
      obtain hlater | rfl := Nat.lt_or_eq_of_le hother
      · exact ih hlater houtside
      · obtain rfl := Option.some.inj (hat.symm.trans hblank)
        exact hpoint
  | token _ _ ih =>
      obtain ⟨hspan, hrest⟩ := List.forall_mem_cons.1 houtside
      exact ih (Nat.not_lt.1 fun hbefore => hspan ⟨hother, hbefore⟩) hrest

theorem Munches.le_index (hmunches : Munches text position tokens spans) :
    ∀ token ∈ tokens, (position : Int) ≤ token.index := by
  induction hmunches with
  | done => exact nofun
  | blank _ _ _ ih =>
      intro token hmem
      have hlater := ih token hmem
      omega
  | token hspans _ ih =>
      refine List.forall_mem_cons.2 ⟨Int.le_refl _, fun token hmem => ?_⟩
      exact Int.le_trans (Int.ofNat_le.2 (Nat.le_of_lt hspans.lt)) (ih token hmem)

theorem Munches.pairwise_index (hmunches : Munches text position tokens spans) :
    (tokens.map Token.index).Pairwise (· < ·) := by
  induction hmunches with
  | done => exact .nil
  | blank _ _ _ ih => exact ih
  | token hspans hrest ih =>
      refine .cons ?_ ih
      rw [List.forall_mem_map]
      intro token hmem
      exact Int.lt_of_lt_of_le (Int.ofNat_lt.2 hspans.lt) (hrest.le_index token hmem)

/-! ### Runs of digits -/

theorem drop_afterDigits (text : Text) (position : Nat) :
    text.drop (text.afterDigits position) = (text.drop position).dropWhile (· ∈ digits) := by
  have hsplit : text.drop position =
      text.digitsFrom position ++ (text.drop position).dropWhile (· ∈ digits) :=
    List.takeWhile_append_dropWhile.symm
  rw [afterDigits, ← List.drop_drop]
  nth_rewrite 1 [hsplit]
  exact List.drop_left

theorem drop_eq_digitsFrom_append (text : Text) (position : Nat) :
    text.drop position = text.digitsFrom position ++ text.drop (text.afterDigits position) := by
  rw [drop_afterDigits]
  exact List.takeWhile_append_dropWhile.symm

theorem endsRun_drop_afterDigits (text : Text) (position : Nat) :
    EndsRun (text.drop (text.afterDigits position)) := by
  have hhead := List.head?_dropWhile_not (· ∈ digits) (text.drop position)
  rw [drop_afterDigits]
  intro point hpoint value hsymbol
  rw [hpoint] at hhead
  exact absurd (CodePoint.mem_digits_iff.2 ⟨value, hsymbol⟩) (by simpa using hhead)

/-- Digits are characters. -/
theorem map_toChar_digitsFrom (text : Text) (position : Nat) :
    ((text.digitsFrom position).map CodePoint.toChar).map CodePoint.scalar =
        text.digitsFrom position ∧
      ∀ digit ∈ (text.digitsFrom position).map CodePoint.toChar, digit.isDigit = true := by
  have hdigits : ∀ point ∈ digits,
      CodePoint.scalar point.toChar = point ∧ point.toChar.isDigit = true := by decide
  have hrun : ∀ point ∈ text.digitsFrom position, point ∈ digits :=
    fun point hmem => by simpa using List.all_eq_true.1 List.all_takeWhile point hmem
  constructor
  · rw [List.map_map]
    exact (List.map_congr_left fun point hmem => (hdigits point (hrun point hmem)).1).trans
      (List.map_id _)
  · rw [List.forall_mem_map]
    exact fun point hmem => (hdigits point (hrun point hmem)).2

/-- What ends a run leaves its token before those of the text that ends it. -/
theorem exists_finish_of_scanFrom {index : Int} {run : Run} {rest : Text} (hends : EndsRun rest)
    (hscan : scanFrom index run rest = .ok tokens) :
    ∃ finished more, run.finish = .ok finished ∧ scanFrom index .idle rest = .ok more ∧
      tokens = finished ++ more := by
  cases rest with
  | nil => exact ⟨tokens, [], hscan, rfl, (List.append_nil tokens).symm⟩
  | cons point rest =>
      obtain ⟨value, hsymbol, -⟩ | ⟨finished, own, next, more, hfinish, hrestart, hmore, rfl⟩ :=
        scanFrom_cons_eq_ok_iff.1 hscan
      · exact absurd hsymbol (hends point rfl value)
      · have hidle : scanFrom index .idle (point :: rest) = .ok (own ++ more) :=
          scanFrom_cons_eq_ok_iff.2 (.inr ⟨[], own, next, more, rfl, hrestart, hmore, rfl⟩)
        exact ⟨finished, own ++ more, hfinish, hidle, rfl⟩

/-- A run reads all digits that stand in a row, and no more. -/
theorem exists_of_scanFrom_run (run : Nat → Run)
    (hpush : ∀ index digit value, (run value).push index digit = run (value * 10 + digit))
    (hscan : scanFrom position (run 0) (text.drop position) = .ok tokens) :
    ∃ finished more, (run (decimal (text.digitsFrom position))).finish = .ok finished ∧
      scanFrom (text.afterDigits position) .idle (text.drop (text.afterDigits position)) =
        .ok more ∧
      tokens = finished ++ more := by
  obtain ⟨hscalars, hisDigit⟩ := map_toChar_digitsFrom text position
  rw [drop_eq_digitsFrom_append, ← hscalars, scanFrom_digits hpush hisDigit, List.length_map,
    ← Int.natCast_add, ← afterDigits] at hscan
  exact exists_finish_of_scanFrom (endsRun_drop_afterDigits text position) hscan

/-! ### One token at a time -/

variable {point : CodePoint}

theorem drop_eq_cons (hat : text[position]? = some point) :
    text.drop position = point :: text.drop (position + 1) := by
  obtain ⟨hlt, rfl⟩ := List.getElem?_eq_some_iff.1 hat
  exact List.drop_eq_getElem_cons hlt

theorem exists_of_restart? {own : List Token} {next : Run} (hat : text[position]? = some point)
    (hrestart : point.symbol.restart? position = some (own, next))
    (hscan : scanFrom position .idle (text.drop position) = .ok tokens) :
    ∃ more, scanFrom (position + 1 : Nat) next (text.drop (position + 1)) = .ok more ∧
      tokens = own ++ more := by
  rw [drop_eq_cons hat, scanFrom_cons_eq_ok_iff, hrestart] at hscan
  obtain ⟨value, hdigit, -⟩ | ⟨_, _, _, more, ⟨⟩, ⟨⟩, hmore, rfl⟩ := hscan
  · exact absurd hdigit (Symbol.ne_digit_of_restart? hrestart value)
  · exact ⟨more, hmore, rfl⟩

/-- A digit starts a number. -/
theorem exists_number_of_digit {value : Nat} (hat : text[position]? = some point)
    (hdigit : point.symbol = .digit value)
    (hscan : scanFrom position .idle (text.drop position) = .ok tokens) :
    ∃ number more, Spans text position (.number number) (text.afterDigits position) ∧
      scanFrom (text.afterDigits position) .idle (text.drop (text.afterDigits position)) =
        .ok more ∧
      tokens = ⟨position, .number number⟩ :: more := by
  have hrun : scanFrom position (.number position 0) (text.drop position) = .ok tokens := by
    rw [drop_eq_cons hat, scanFrom, hdigit] at hscan ⊢
    simpa only [Run.push, Nat.zero_mul, Nat.zero_add] using hscan
  obtain ⟨finished, more, hfinish, hmore, rfl⟩ :=
    exists_of_scanFrom_run (.number position) (fun _ _ _ => rfl) hrun
  cases hfinish
  have hmem : point ∈ digits := CodePoint.mem_digits_iff.2 ⟨value, hdigit⟩
  have hnonempty : text.digitsFrom position ≠ [] := by
    rw [digitsFrom, drop_eq_cons hat, List.takeWhile_cons_of_pos (by simpa using hmem)]
    exact List.cons_ne_nil _ _
  exact ⟨_, more, .number hnonempty, hmore, rfl⟩

/-- A die mark starts a die, which has a face. -/
theorem exists_die_of_dieMark (hat : text[position]? = some point) (hdie : point.symbol = .dieMark)
    (hscan : scanFrom position .idle (text.drop position) = .ok tokens) :
    ∃ faces more, Spans text position (.die faces) (text.afterDigits (position + 1)) ∧
      scanFrom (text.afterDigits (position + 1)) .idle
        (text.drop (text.afterDigits (position + 1))) = .ok more ∧
      tokens = ⟨position, .die faces⟩ :: more := by
  have hpoint : point = .scalar 'd' :=
    List.mem_singleton.1 ((CodePoint.symbol_eq_iff (by simp)).1 hdie)
  subst hpoint
  obtain ⟨rest, hrun, rfl⟩ := exists_of_restart? hat (by rw [hdie]; rfl) hscan
  obtain ⟨finished, more, hfinish, hmore, rfl⟩ :=
    exists_of_scanFrom_run (.die position) (fun _ _ _ => rfl) hrun
  have hspans := Spans.die hat
  cases hfaces : decimal (text.digitsFrom (position + 1)) with
  | zero =>
      rw [hfaces] at hfinish
      cases hfinish
  | succ faces =>
      rw [hfaces] at hfinish hspans
      cases hfinish
      exact ⟨_, more, hspans, hmore, rfl⟩

/-- Every scan that succeeds cuts the text into the spans of its tokens and into blanks. -/
theorem exists_munches (hscan : scanFrom position .idle (text.drop position) = .ok tokens) :
    ∃ spans, Munches text position tokens spans := by
  -- every token and every blank shortens what is left of the text
  induction hleft : text.length - position using Nat.strongRecOn generalizing position tokens with
  | ind left ih =>
    cases hat : text[position]? with
    | none =>
        have hend : text.length ≤ position := List.getElem?_eq_none_iff.1 hat
        rw [List.drop_eq_nil_of_le hend] at hscan
        cases hscan
        exact ⟨[], .done hend⟩
    | some point =>
      have hlt : position < text.length := (List.getElem?_eq_some_iff.1 hat).1
      have hlater {stop : Nat} {more : List Token} (hstop : position < stop)
          (hmore : scanFrom stop .idle (text.drop stop) = .ok more) :
          ∃ spans, Munches text stop more spans := ih _ (by omega) hmore rfl
      cases hsymbol : point.symbol with
      | digit value =>
          obtain ⟨number, more, hspans, hmore, rfl⟩ := exists_number_of_digit hat hsymbol hscan
          obtain ⟨spans, hmunches⟩ := hlater hspans.lt hmore
          exact ⟨_, .token hspans hmunches⟩
      | dieMark =>
          obtain ⟨faces, more, hspans, hmore, rfl⟩ := exists_die_of_dieMark hat hsymbol hscan
          obtain ⟨spans, hmunches⟩ := hlater hspans.lt hmore
          exact ⟨_, .token hspans hmunches⟩
      | blank =>
          obtain ⟨more, hmore, rfl⟩ := exists_of_restart? hat (by rw [hsymbol]; rfl) hscan
          obtain ⟨spans, hmunches⟩ := hlater position.lt_succ_self hmore
          have hpoint : point ∈ blanks := (CodePoint.symbol_eq_iff (by simp)).1 hsymbol
          exact ⟨_, .blank hat hpoint hmunches⟩
      | mark kind =>
          obtain ⟨more, hmore, rfl⟩ := exists_of_restart? hat (by rw [hsymbol]; rfl) hscan
          obtain ⟨spans, hmunches⟩ := hlater position.lt_succ_self hmore
          have hpoint : point ∈ (Symbol.mark kind).characters :=
            (CodePoint.symbol_eq_iff (by simp)).1 hsymbol
          exact ⟨_, .token (.mark hat hpoint) hmunches⟩
      | foreign =>
          rw [drop_eq_cons hat, scanFrom, hsymbol] at hscan
          cases hscan

/-! ### Texts that scan -/

theorem exists_scan_eq_ok_iff_not_lexicalFault :
    (∃ tokens, scan text = .ok tokens) ↔ ∀ position cause, ¬ LexicalFault text position cause := by
  constructor
  · rintro ⟨tokens, hscan⟩ position cause hfault
    obtain ⟨first, other, hfirst⟩ := hfault.exists_first
    have herror : scan text = .error ⟨other, first⟩ := scan_eq_error_iff.2 ⟨first, hfirst, rfl⟩
    rw [hscan] at herror
    cases herror
  · intro hfaultless
    cases hscan : scan text with
    | ok tokens => exact ⟨tokens, rfl⟩
    | error fault =>
        obtain ⟨position, hfirst, -⟩ := scan_eq_error_iff.1 hscan
        exact absurd hfirst.fault (hfaultless position fault.cause)

theorem not_barren_drop_iff :
    ¬ Barren (text.drop position) ↔ ∃ digit ∈ text.digitsFrom position, digit ≠ .scalar '0' := by
  rw [Barren, ← digitsFrom]
  simp only [Classical.not_forall, exists_prop, ne_eq]

theorem exists_scan_eq_ok_iff :
    (∃ tokens, scan text = .ok tokens) ↔
      (∀ point ∈ text, point ∈ alphabet) ∧
        ∀ position, text[position]? = some (.scalar 'd') →
          ∃ digit ∈ text.digitsFrom (position + 1), digit ≠ .scalar '0' := by
  rw [exists_scan_eq_ok_iff_not_lexicalFault]
  constructor
  · intro hfaultless
    constructor
    · intro point hmem
      obtain ⟨position, hat⟩ := List.mem_iff_getElem?.1 hmem
      exact Decidable.byContradiction fun hforeign =>
        hfaultless position _ (.foreign hat hforeign)
    · intro position hat
      exact not_barren_drop_iff.1 fun hbarren => hfaultless position _ (.die hat hbarren)
  · rintro ⟨hcharacters, hdice⟩ position cause (⟨hat, hforeign⟩ | ⟨hat, hbarren⟩)
    · exact hforeign (hcharacters _ (List.mem_of_getElem? hat))
    · exact not_barren_drop_iff.2 (hdice position hat) hbarren

/-- A text scans exactly if it has no characters but those of expressions and every die has a face.
The tokens are then read from left to right.  Each takes as many digits as there are in a row, or is
a single character, and nothing but blanks lies outside of their spans. -/
theorem scan_is_maximal_munch :
    (∀ text, (∃ tokens, scan text = .ok tokens) ↔
      (∀ point ∈ text, point ∈ alphabet) ∧
        ∀ position, text[position]? = some (.scalar 'd') →
          ∃ digit ∈ text.digitsFrom (position + 1), digit ≠ .scalar '0') ∧
    (∀ text tokens, scan text = .ok tokens →
      (tokens.map Token.index).Pairwise (· < ·) ∧
        ∃ spans : List (Nat × Nat),
          List.Forall₂ (fun token span => token.index = span.1 ∧
            Spans text span.1 token.kind span.2) tokens spans ∧
          (spans.Pairwise fun earlier later => earlier.2 ≤ later.1) ∧
          ∀ position point, text[position]? = some point →
            (∀ span ∈ spans, ¬ (span.1 ≤ position ∧ position < span.2)) → point ∈ blanks) := by
  refine ⟨fun _ => exists_scan_eq_ok_iff, fun text tokens hscan => ?_⟩
  have hstart : scanFrom (0 : Nat) .idle (text.drop 0) = .ok tokens := hscan
  obtain ⟨spans, hmunches⟩ := exists_munches hstart
  exact ⟨hmunches.pairwise_index, spans, hmunches.forall₂, hmunches.pairwise,
    fun position point hat => hmunches.mem_blanks position.zero_le hat⟩

/-- Leading zeros, a blank and a die right after a number. -/
def zerosAndNeighbours : Text :=
  .ofString "d06 12d3"

def tokensOfZerosAndNeighbours : List Token :=
  [⟨0, .die 6⟩, ⟨4, .number 12⟩, ⟨6, .die 3⟩]

theorem scan_zerosAndNeighbours :
    scan zerosAndNeighbours = .ok tokensOfZerosAndNeighbours ∧
      (∃ spans : List (Nat × Nat),
        List.Forall₂ (fun token span => token.index = span.1 ∧
          Spans zerosAndNeighbours span.1 token.kind span.2) tokensOfZerosAndNeighbours spans ∧
        ∀ position point, zerosAndNeighbours[position]? = some point →
          (∀ span ∈ spans, ¬ (span.1 ≤ position ∧ position < span.2)) → point ∈ blanks) ∧
      ¬ ∃ tokens, scan (.ofString "12d00+3") = .ok tokens := by
  obtain ⟨hscans, hspans⟩ := scan_is_maximal_munch
  have hscan : scan zerosAndNeighbours = .ok tokensOfZerosAndNeighbours := by decide
  obtain ⟨-, spans, hforall, -, hblanks⟩ := hspans _ _ hscan
  refine ⟨hscan, ⟨spans, hforall, hblanks⟩, fun hfaceless => ?_⟩
  obtain ⟨-, hdice⟩ := (hscans _).1 hfaceless
  have hzeros : ∀ digit ∈ Text.digitsFrom (.ofString "12d00+3") 3, digit = .scalar '0' := by decide
  obtain ⟨digit, hmem, hne⟩ := hdice 2 rfl
  exact hne (hzeros digit hmem)

end Token

end DiceOdds
