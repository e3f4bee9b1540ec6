import DiceOdds.Proofs.Text
import DiceOdds.Token.Scan

/-!
# Scanning piece by piece

A piece of text scans to tokens of its own wherever a character follows that cannot extend its last
run of digits.  The pieces of dice notation are marks, blanks, numerals and dice; whatever is put
together from them scans to the tokens of its parts.
-/

namespace DiceOdds

/-- What a character that is no digit leaves after the run that it ends: its own token, if it is
one, and the run that it starts. -/
def Symbol.restart? (index : Int) : Symbol → Option (List Token × Token.Run)
  | dieMark => some ([], .die index 0)
  | blank => some ([], .idle)
  | mark kind => some ([⟨index, kind⟩], .idle)
  | digit _ | foreign => none

/-- A character extends a run, or is foreign, or ends the run and goes on from there. -/
theorem Symbol.digit_or_foreign_or_restart (index : Int) (symbol : Symbol) :
    (∃ value, symbol = .digit value) ∨ symbol = .foreign ∨
      ∃ own next, symbol.restart? index = some (own, next) := by
  cases symbol with
  | digit value => exact .inl ⟨value, rfl⟩
  | foreign => exact .inr (.inl rfl)
  | dieMark | blank | mark => exact .inr (.inr ⟨_, _, rfl⟩)

theorem Symbol.ne_digit_of_restart? {index : Int} {symbol : Symbol}
    {started : List Token × Token.Run} (hrestart : symbol.restart? index = some started)
    (value : Nat) : symbol ≠ .digit value := by
  rintro rfl
  cases hrestart

theorem CodePoint.symbol_of_digit? {point : CodePoint} {value : Nat}
    (hdigit : point.digit? = some value) : point.symbol = .digit value := by
  cases point with
  | surrogate => cases hdigit
  | scalar character => simp only [symbol, Symbol.ofChar, hdigit]

namespace Token

/-- What ends a run is a token of its own only as a mark. -/
theorem symbol_of_restart? {index : Int} {point : CodePoint} {own : List Token} {next : Run}
    (hrestart : point.symbol.restart? index = some (own, next)) :
    ∀ token ∈ own, token.index = index ∧ point.symbol = .mark token.kind := by
  cases hsymbol : point.symbol with
  | digit | foreign => rw [hsymbol] at hrestart; cases hrestart
  | dieMark | blank => rw [hsymbol] at hrestart; cases hrestart; exact nofun
  | mark kind => rw [hsymbol] at hrestart; cases hrestart; simp

theorem scanFrom_cons_of_restart? {index : Int} {point : CodePoint} {own : List Token} {next : Run}
    (hrestart : point.symbol.restart? index = some (own, next)) (run : Run) (rest : Text) :
    scanFrom index run (point :: rest) = (do
      let finished ← run.finish
      let more ← scanFrom (index + 1) next rest
      return finished ++ (own ++ more)) := by
  rw [scanFrom]
  cases hsymbol : point.symbol with
  | digit | foreign => rw [hsymbol] at hrestart; cases hrestart
  | dieMark | blank | mark => rw [hsymbol] at hrestart; cases hrestart; rfl

/-- One step of a scan that succeeds: a digit extends the run, and anything else ends it. -/
theorem scanFrom_cons_eq_ok_iff {index : Int} {run : Run} {point : CodePoint} {rest : Text}
    {tokens : List Token} :
    scanFrom index run (point :: rest) = .ok tokens ↔
      (∃ value, point.symbol = .digit value ∧
        scanFrom (index + 1) (run.push index value) rest = .ok tokens) ∨
      ∃ finished own next more, run.finish = .ok finished ∧
        point.symbol.restart? index = some (own, next) ∧
        scanFrom (index + 1) next rest = .ok more ∧ finished ++ (own ++ more) = tokens := by
  obtain ⟨value, hsymbol⟩ | hsymbol | ⟨own, next, hrestart⟩ :=
    point.symbol.digit_or_foreign_or_restart index
  · simp [scanFrom, hsymbol, Symbol.restart?]
  · rw [scanFrom, hsymbol]
    cases run.finish <;> simp [bind, Except.bind, Symbol.restart?]
  · rw [scanFrom_cons_of_restart? hrestart, hrestart]
    constructor
    · intro hok
      cases hfinish : run.finish with
      | error fault => rw [hfinish] at hok; cases hok
      | ok finished =>
          cases hmore : scanFrom (index + 1) next rest with
          | error fault => rw [hfinish, hmore] at hok; cases hok
          | ok more =>
              rw [hfinish, hmore] at hok
              cases hok
              exact .inr ⟨finished, own, next, more, rfl, rfl, hmore, rfl⟩
    · rintro (⟨value, hsymbol, -⟩ | ⟨finished, _, _, more, hfinish, ⟨⟩, hmore, rfl⟩)
      · exact absurd hsymbol (Symbol.ne_digit_of_restart? hrestart value)
      · rw [hfinish, hmore]
        rfl

/-- The text does not go on with a digit. -/
def EndsRun (text : Text) : Prop :=
  ∀ point ∈ text.head?, ∀ value, point.symbol ≠ .digit value

/-- The piece of text that starts at `index` scans to `tokens`, whatever comes after it, as long as
that ends a run of digits. -/
def Scans (index : Int) (piece : Text) (tokens : List Token) : Prop :=
  ∀ rest more, EndsRun rest → scanFrom (index + piece.length) .idle rest = .ok more →
    scanFrom index .idle (piece ++ rest) = .ok (tokens ++ more)

theorem endsRun_nil : EndsRun [] := by
  simp [EndsRun]

theorem endsRun_cons {point : CodePoint} (hpoint : (point.symbol.restart? 0).isSome = true)
    (rest : Text) : EndsRun (point :: rest) := by
  rintro _ ⟨⟩ value hsymbol
  rw [hsymbol] at hpoint
  cases hpoint

theorem endsRun_append {piece rest : Text} (hpiece : EndsRun piece) (hrest : EndsRun rest) :
    EndsRun (piece ++ rest) := by
  cases piece with
  | nil => exact hrest
  | cons point piece => exact hpiece

theorem Scans.append {index : Int} {left right : Text} {leftTokens rightTokens : List Token}
    (hleft : Scans index left leftTokens) (hends : EndsRun right)
    (hright : Scans (index + left.length) right rightTokens) :
    Scans index (left ++ right) (leftTokens ++ rightTokens) := by
  intro rest more hrest hmore
  rw [List.append_assoc, List.append_assoc]
  refine hleft _ _ (endsRun_append hends hrest) (hright rest more hrest ?_)
  rw [List.length_append, Int.natCast_add, ← Int.add_assoc] at hmore
  exact hmore

theorem Scans.scan {piece : Text} {tokens : List Token} (hscans : Scans 0 piece tokens) :
    scan piece = .ok tokens := by
  have hall := hscans [] [] endsRun_nil rfl
  rwa [List.append_nil, List.append_nil] at hall

theorem scans_nil (index : Int) : Scans index [] [] := by
  intro rest more _ hmore
  simpa using hmore

/-- A mark or a blank needs nothing of the text after it. -/
theorem Scans.cons {index : Int} {point : CodePoint} {own : List Token}
    (hrestart : point.symbol.restart? index = some (own, .idle)) {piece : Text}
    {tokens : List Token} (hpiece : Scans (index + 1) piece tokens) :
    Scans index (point :: piece) (own ++ tokens) := by
  intro rest more hrest hmore
  rw [List.length_cons, Int.natCast_succ, Int.add_comm _ 1, ← Int.add_assoc] at hmore
  have htail := hpiece rest more hrest hmore
  rw [List.append_assoc]
  exact scanFrom_cons_eq_ok_iff.2
    (.inr ⟨[], own, .idle, tokens ++ more, rfl, hrestart, htail, rfl⟩)

theorem Scans.mark {index : Int} {point : CodePoint} {kind : Kind}
    (hpoint : point.symbol = .mark kind) {piece : Text} {tokens : List Token}
    (hpiece : Scans (index + 1) piece tokens) :
    Scans index (point :: piece) (⟨index, kind⟩ :: tokens) :=
  have hrestart : point.symbol.restart? index = some ([⟨index, kind⟩], .idle) := by
    rw [hpoint, Symbol.restart?]
  hpiece.cons hrestart

theorem Scans.blank {index : Int} {point : CodePoint} (hpoint : point.symbol = .blank)
    {piece : Text} {tokens : List Token} (hpiece : Scans (index + 1) piece tokens) :
    Scans index (point :: piece) tokens :=
  have hrestart : point.symbol.restart? index = some ([], .idle) := by
    rw [hpoint, Symbol.restart?]
  hpiece.cons hrestart

/-! ### Runs of digits -/

theorem symbol_of_isDigit {digit : Char} (hdigit : digit.isDigit = true) :
    (CodePoint.scalar digit).symbol = .digit (digit.toNat - '0'.toNat) :=
  CodePoint.symbol_of_digit? (CodePoint.digit?_of_isDigit hdigit)

/-- A run that is told its digits one by one has read the number that they spell. -/
theorem scanFrom_digits {run : Nat → Run}
    (hpush : ∀ index digit value, (run value).push index digit = run (value * 10 + digit))
    {digits : List Char} (hdigits : ∀ digit ∈ digits, digit.isDigit = true) (index : Int)
    (value : Nat) (rest : Text) :
    scanFrom index (run value) (digits.map CodePoint.scalar ++ rest) =
      scanFrom (index + digits.length) (run (Nat.ofDigitChars 10 digits value)) rest := by
  induction digits generalizing index value with
  | nil => simp
  | cons digit digits ih =>
      rw [List.map_cons, List.cons_append, scanFrom, symbol_of_isDigit (hdigits digit (by simp))]
      simp only
      rw [hpush, ih (fun digit hmem => hdigits digit (List.mem_cons_of_mem _ hmem)),
        Nat.ofDigitChars_cons, Nat.mul_comm, List.length_cons]
      congr 1
      omega

/-- A finished run leaves its token before those of the text that ends it. -/
theorem scanFrom_of_finish {run : Run} {tokens : List Token} (hfinish : run.finish = .ok tokens)
    {index : Int} {rest : Text} {more : List Token} (hends : EndsRun rest)
    (hmore : scanFrom index .idle rest = .ok more) :
    scanFrom index run rest = .ok (tokens ++ more) := by
  cases rest with
  | nil =>
      cases hmore
      rw [scanFrom, hfinish, List.append_nil]
  | cons point rest =>
      obtain ⟨value, hsymbol, -⟩ | hstep := scanFrom_cons_eq_ok_iff.1 hmore
      · exact absurd hsymbol (hends point rfl value)
      · obtain ⟨_, own, next, after, ⟨⟩, hrestart, hafter, rfl⟩ := hstep
        exact scanFrom_cons_eq_ok_iff.2
          (.inr ⟨tokens, own, next, after, hfinish, hrestart, hafter, rfl⟩)

/-! ### Numerals -/

/-- A numeral is read digit by digit from its first. -/
theorem scanFrom_idle_digits {digits : List Char} (hnonempty : digits ≠ [])
    (hdigits : ∀ digit ∈ digits, digit.isDigit = true) (index : Int) (rest : Text) :
    scanFrom index .idle (digits.map CodePoint.scalar ++ rest) =
      scanFrom index (.number index 0) (digits.map CodePoint.scalar ++ rest) := by
  cases digits with
  | nil => exact absurd rfl hnonempty
  | cons digit digits =>
      have hsymbol := symbol_of_isDigit (hdigits digit List.mem_cons_self)
      rw [List.map_cons, List.cons_append, scanFrom, scanFrom, hsymbol]
      simp only [Run.push, Nat.zero_mul, Nat.zero_add]

/-- Digits in a row are one number. -/
theorem scans_digits {digits : List Char} (hnonempty : digits ≠ [])
    (hdigits : ∀ digit ∈ digits, digit.isDigit = true) (index : Int) :
    Scans index (digits.map CodePoint.scalar)
      [⟨index, .number (Nat.ofDigitChars 10 digits 0)⟩] := by
  intro rest more hends hmore
  rw [scanFrom_idle_digits hnonempty hdigits, scanFrom_digits (fun _ _ _ => rfl) hdigits]
  rw [List.length_map] at hmore
  exact scanFrom_of_finish rfl hends hmore

theorem Run.finish_die_of_pos {faces : Nat} (hfaces : 0 < faces) (start : Int) :
    (die start faces).finish = .ok [⟨start, .die faces⟩] := by
  cases faces with
  | zero => cases hfaces
  | succ faces => rfl

/-- A mark and digits in a row are one die, if it has a face. -/
theorem scans_dieMark_digits {digits : List Char}
    (hdigits : ∀ digit ∈ digits, digit.isDigit = true)
    (hfaces : 0 < Nat.ofDigitChars 10 digits 0) (index : Int) :
    Scans index (.scalar 'd' :: digits.map CodePoint.scalar)
      [⟨index, .die (Nat.ofDigitChars 10 digits 0)⟩] := by
  intro rest more hends hmore
  rw [List.length_cons, List.length_map, Int.natCast_succ, Int.add_comm _ 1,
    ← Int.add_assoc] at hmore
  have hread : scanFrom (index + 1) (.die index 0) (digits.map CodePoint.scalar ++ rest) =
      .ok ([⟨index, .die (Nat.ofDigitChars 10 digits 0)⟩] ++ more) := by
    rw [scanFrom_digits (fun _ _ _ => rfl) hdigits]
    exact scanFrom_of_finish (Run.finish_die_of_pos hfaces index) hends hmore
  exact scanFrom_cons_eq_ok_iff.2 (.inr ⟨[], [], .die index 0, _, rfl, rfl, hread, rfl⟩)

theorem scans_number {value : Int} (hvalue : 0 ≤ value) (index : Int) :
    Scans index (Text.ofInt value) [⟨index, .number value⟩] := by
  have hscans := scans_digits Nat.toDigits_ne_nil
    (Text.isDigit_of_mem_toDigits_ten value.toNat) index
  rwa [Nat.ofDigitChars_ten_toDigits, Int.toNat_of_nonneg hvalue, ← Text.numeral,
    ← Text.ofInt_of_nonneg hvalue] at hscans

theorem scans_die {faces : Int} (hfaces : 1 ≤ faces) (index : Int) :
    Scans index (.scalar 'd' :: Text.ofInt faces) [⟨index, .die faces⟩] := by
  have hnonneg : 0 ≤ faces := by omega
  have hpos : 0 < Nat.ofDigitChars 10 (Nat.toDigits 10 faces.toNat) 0 := by
    rw [Nat.ofDigitChars_ten_toDigits]
    omega
  have hscans := scans_dieMark_digits (Text.isDigit_of_mem_toDigits_ten faces.toNat) hpos index
  rwa [Nat.ofDigitChars_ten_toDigits, Int.toNat_of_nonneg hnonneg, ← Text.numeral,
    ← Text.ofInt_of_nonneg hnonneg] at hscans

/-! ### The values of tokens -/

/-- What every number and every die of a text satisfies. -/
def Kind.Readable : Kind → Prop
  | .number value => 0 ≤ value
  | .die faces => 1 ≤ faces
  | _ => True

theorem readable_of_finish {run : Run} {tokens : List Token} (hfinish : run.finish = .ok tokens) :
    ∀ token ∈ tokens, token.kind.Readable := by
  cases run with
  | idle => cases hfinish; exact nofun
  | number start value =>
      cases hfinish
      simp [Kind.Readable]
  | die start faces =>
      cases faces with
      | zero => cases hfinish
      | succ faces =>
          cases hfinish
          simp only [List.mem_singleton, forall_eq, Kind.Readable]
          omega

theorem readable_of_symbol {point : CodePoint} {kind : Kind} (hsymbol : point.symbol = .mark kind) :
    kind.Readable := by
  cases point with
  | surrogate => cases hsymbol
  | scalar character =>
      simp only [CodePoint.symbol, Symbol.ofChar] at hsymbol
      split at hsymbol
      · cases hsymbol
      · split at hsymbol <;> cases hsymbol <;> trivial

theorem readable_of_scanFrom {index : Int} {run : Run} {text : Text} {tokens : List Token}
    (hscan : scanFrom index run text = .ok tokens) : ∀ token ∈ tokens, token.kind.Readable := by
  induction text generalizing index run tokens with
  | nil => exact readable_of_finish hscan
  | cons point text ih =>
      obtain ⟨value, -, hmore⟩ | ⟨finished, own, next, more, hfinish, hrestart, hmore, rfl⟩ :=
        scanFrom_cons_eq_ok_iff.1 hscan
      · exact ih hmore
      · intro token hmem
        simp only [List.mem_append] at hmem
        obtain hmem | hmem | hmem := hmem
        · exact readable_of_finish hfinish token hmem
        · exact readable_of_symbol (symbol_of_restart? hrestart token hmem).2
        · exact ih hmore token hmem

end Token

end DiceOdds
