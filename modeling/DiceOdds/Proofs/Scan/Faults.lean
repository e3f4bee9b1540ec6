import DiceOdds.Proofs.Scan
import DiceOdds.Proofs.Text

/-!
# What a scan stumbles over

Two things are wrong with a text whatever stands around them: a character that no expression uses,
and a die without a face.  A scan fails exactly if the text has such a fault, and it reports the
leftmost.
-/

namespace DiceOdds

/-! ### The characters of an expression -/

namespace Text

def digits : Text := .ofString "0123456789"

def blanks : Text := .ofString " \t\n"

def signs : Text := .ofString "+-*"

def openingBrackets : Text := .ofString "([\x7b"

def closingBrackets : Text := .ofString ")]\x7d"

/-- Every character that an expression may use. -/
def alphabet : Text :=
  digits ++ .scalar 'd' :: blanks ++ signs ++ openingBrackets ++ closingBrackets

end Text

/-- The characters that mean a symbol. -/
def Symbol.characters : Symbol → Text
  | digit value => if value < 10 then [.scalar (Nat.digitChar value)] else []
  | dieMark => [.scalar 'd']
  | blank => Text.blanks
  | mark (.operator operator) => [.scalar operator.sign]
  | mark .opening => Text.openingBrackets
  | mark .closing => Text.closingBrackets
  | mark (.number _) | mark (.die _) | foreign => []

namespace CodePoint

variable {point : CodePoint}

theorem digit?_eq_some_iff {value : Nat} :
    point.digit? = some value ↔ value < 10 ∧ point = .scalar (Nat.digitChar value) := by
  constructor
  · intro hdigit
    cases point with
    | surrogate => cases hdigit
    | scalar character =>
        rw [digit?, Option.ite_none_right_eq_some, Option.some.injEq] at hdigit
        obtain ⟨⟨hlower, hupper⟩, hvalue⟩ := hdigit
        replace hlower : 48 ≤ character.toNat := hlower
        replace hupper : character.toNat ≤ 57 := hupper
        replace hvalue : character.toNat - 48 = value := hvalue
        have hsmall : value < 10 := by omega
        refine ⟨hsmall, congrArg scalar (Char.toNat_inj.1 ?_)⟩
        rw [Nat.toNat_digitChar_of_lt_ten hsmall]
        omega
  · rintro ⟨hsmall, rfl⟩
    have hdigit : (Nat.digitChar value).isDigit = true := by simpa using hsmall
    rw [digit?_of_isDigit hdigit, Nat.toNat_digitChar_of_lt_ten hsmall]
    exact congrArg some (Nat.add_sub_cancel_left 48 value)

theorem mem_characters_digit_iff {value : Nat} :
    point ∈ (Symbol.digit value).characters ↔
      value < 10 ∧ point = .scalar (Nat.digitChar value) := by
  rw [Symbol.characters, List.mem_ite_nil_right, List.mem_singleton]

theorem foreign_or_mem_characters (point : CodePoint) :
    point.symbol = .foreign ∨ point ∈ point.symbol.characters := by
  cases point with
  | surrogate => exact .inl rfl
  | scalar character =>
      rw [symbol]
      unfold Symbol.ofChar
      split
      · next value hdigit =>
          exact .inr (mem_characters_digit_iff.2 (digit?_eq_some_iff.1 hdigit))
      · split <;> first | exact .inl rfl | exact .inr (by decide)

theorem symbol_of_mem_characters {symbol : Symbol} (hmem : point ∈ symbol.characters) :
    point.symbol = symbol := by
  cases symbol with
  | digit value => exact symbol_of_digit? (digit?_eq_some_iff.2 (mem_characters_digit_iff.1 hmem))
  | dieMark => revert point; decide
  | blank => revert point; decide
  | foreign => cases hmem
  | mark kind =>
    cases kind with
    | number | die => cases hmem
    | operator sign => cases sign <;> revert point <;> decide
    | opening => revert point; decide
    | closing => revert point; decide

theorem symbol_eq_iff {symbol : Symbol} (hsymbol : symbol ≠ .foreign) :
    point.symbol = symbol ↔ point ∈ symbol.characters := by
  constructor
  · rintro rfl
    exact (foreign_or_mem_characters point).resolve_left hsymbol
  · exact symbol_of_mem_characters

theorem symbol_eq_digit_iff {value : Nat} :
    point.symbol = .digit value ↔ value < 10 ∧ point = .scalar (Nat.digitChar value) := by
  rw [symbol_eq_iff (by simp), mem_characters_digit_iff]

theorem mem_digits_iff : point ∈ Text.digits ↔ ∃ value, point.symbol = .digit value := by
  have hdigits : Text.digits = (List.range 10).map (.scalar ∘ Nat.digitChar) := rfl
  simp only [hdigits, symbol_eq_digit_iff, List.mem_map, List.mem_range, Function.comp_apply,
    eq_comm]

theorem characters_subset_alphabet (symbol : Symbol) : symbol.characters ⊆ Text.alphabet := by
  cases symbol with
  | digit value =>
      have hdigits : ∀ value < 10, scalar (Nat.digitChar value) ∈ Text.alphabet := by decide
      intro point hmem
      obtain ⟨hsmall, rfl⟩ := mem_characters_digit_iff.1 hmem
      exact hdigits value hsmall
  | dieMark | blank => decide
  | foreign => exact List.nil_subset _
  | mark kind =>
    cases kind with
    | number | die => exact List.nil_subset _
    | operator sign => cases sign <;> decide
    | opening | closing => decide

theorem mem_alphabet_iff : point ∈ Text.alphabet ↔ point.symbol ≠ .foreign := by
  constructor
  · revert point
    decide
  · intro hforeign
    exact characters_subset_alphabet _ ((foreign_or_mem_characters point).resolve_left hforeign)

end CodePoint

/-! ### Faults of a text -/

/-- A die before this text has no face: the digits that the text starts with are zeros, if there are
any. -/
def Barren (text : Text) : Prop :=
  ∀ digit ∈ text.takeWhile (· ∈ Text.digits), digit = .scalar '0'

/-- What is wrong at this position of the text, whatever stands around it. -/
inductive LexicalFault (text : Text) (position : Nat) : Fault.Cause → Prop
  | foreign {character : CodePoint} (hat : text[position]? = some character)
      (hforeign : character ∉ Text.alphabet) :
      LexicalFault text position (.unexpectedToken character)
  | die (hat : text[position]? = some (.scalar 'd')) (hbarren : Barren (text.drop (position + 1))) :
      LexicalFault text position .badDie

structure FirstLexicalFault (text : Text) (position : Nat) (cause : Fault.Cause) : Prop where
  fault : LexicalFault text position cause
  first : ∀ earlier < position, ∀ other, ¬ LexicalFault text earlier other

section Faults

variable {point : CodePoint} {text rest : Text} {position : Nat} {cause : Fault.Cause}

theorem not_lexicalFault_nil : ¬ LexicalFault [] position cause := by
  rintro (⟨⟨⟩, -⟩ | ⟨⟨⟩, -⟩)

theorem lexicalFault_cons_succ_iff :
    LexicalFault (point :: rest) (position + 1) cause ↔ LexicalFault rest position cause := by
  constructor
  · rintro (⟨hat, hforeign⟩ | ⟨hat, hbarren⟩)
    · exact .foreign hat hforeign
    · exact .die hat hbarren
  · rintro (⟨hat, hforeign⟩ | ⟨hat, hbarren⟩)
    · exact .foreign hat hforeign
    · exact .die hat hbarren

theorem LexicalFault.firstLexicalFault (hfault : LexicalFault text 0 cause) :
    FirstLexicalFault text 0 cause :=
  ⟨hfault, nofun⟩

/-- Where the first position has no fault, the leftmost fault is that of the rest. -/
theorem firstLexicalFault_cons_iff (hnone : ∀ other, ¬ LexicalFault (point :: rest) 0 other) :
    FirstLexicalFault (point :: rest) position cause ↔
      ∃ before, position = before + 1 ∧ FirstLexicalFault rest before cause := by
  constructor
  · rintro ⟨hfault, hfirst⟩
    cases position with
    | zero => exact absurd hfault (hnone cause)
    | succ before =>
        refine ⟨before, rfl, lexicalFault_cons_succ_iff.1 hfault, ?_⟩
        intro earlier hearlier other hother
        exact hfirst (earlier + 1) (Nat.succ_lt_succ hearlier) other
          (lexicalFault_cons_succ_iff.2 hother)
  · rintro ⟨before, rfl, hfault, hfirst⟩
    refine ⟨lexicalFault_cons_succ_iff.2 hfault, ?_⟩
    intro earlier hearlier other hother
    cases earlier with
    | zero => exact hnone other hother
    | succ earlier =>
        exact hfirst earlier (Nat.lt_of_succ_lt_succ hearlier) other
          (lexicalFault_cons_succ_iff.1 hother)

theorem LexicalFault.exists_first (hfault : LexicalFault text position cause) :
    ∃ first other, FirstLexicalFault text first other := by
  induction position using Nat.strongRecOn generalizing cause with
  | ind position ih =>
      by_cases hearlier : ∃ earlier < position, ∃ other, LexicalFault text earlier other
      · obtain ⟨earlier, hbefore, other, hother⟩ := hearlier
        exact ih earlier hbefore hother
      · refine ⟨position, cause, hfault, ?_⟩
        intro earlier hbefore other hother
        exact hearlier ⟨earlier, hbefore, other, hother⟩

/-- A position has one fault at most. -/
theorem LexicalFault.cause_eq {other : Fault.Cause} (hfault : LexicalFault text position cause)
    (hother : LexicalFault text position other) : cause = other := by
  have hmark : CodePoint.scalar 'd' ∈ Text.alphabet := by decide
  cases hfault with
  | foreign hat hforeign =>
    cases hother with
    | foreign hat' => rw [Option.some.inj (hat.symm.trans hat')]
    | die hat' =>
        rw [Option.some.inj (hat.symm.trans hat')] at hforeign
        exact absurd hmark hforeign
  | die hat =>
    cases hother with
    | foreign hat' hforeign =>
        rw [Option.some.inj (hat'.symm.trans hat)] at hforeign
        exact absurd hmark hforeign
    | die => rfl

theorem lexicalFault_zero_iff :
    LexicalFault (point :: rest) 0 cause ↔
      point.symbol = .foreign ∧ cause = .unexpectedToken point ∨
        (point.symbol = .dieMark ∧ Barren rest) ∧ cause = .badDie := by
  have hdie : point.symbol = .dieMark ↔ point = .scalar 'd' := by
    rw [CodePoint.symbol_eq_iff (by simp), Symbol.characters, List.mem_singleton]
  have hforeign : point.symbol = .foreign ↔ point ∉ Text.alphabet := by
    rw [CodePoint.mem_alphabet_iff, Decidable.not_not]
  rw [hdie, hforeign]
  constructor
  · rintro (⟨⟨⟩, hforeign⟩ | ⟨⟨⟩, hbarren⟩)
    · exact .inl ⟨hforeign, rfl⟩
    · exact .inr ⟨⟨rfl, hbarren⟩, rfl⟩
  · rintro (⟨hforeign, rfl⟩ | ⟨⟨rfl, hbarren⟩, rfl⟩)
    · exact .foreign rfl hforeign
    · exact .die rfl hbarren

theorem barren_cons_iff {value : Nat} (hdigit : point.symbol = .digit value) :
    Barren (point :: rest) ↔ value = 0 ∧ Barren rest := by
  have hmem : point ∈ Text.digits := CodePoint.mem_digits_iff.2 ⟨value, hdigit⟩
  have hzero : point = .scalar '0' ↔ value = 0 := by
    rw [(CodePoint.symbol_eq_digit_iff.1 hdigit).2, CodePoint.scalar.injEq, Nat.digitChar_eq_zero]
  rw [Barren, List.takeWhile_cons_of_pos (by simpa using hmem), List.forall_mem_cons, hzero, Barren]

theorem barren_of_endsRun (hends : Token.EndsRun text) : Barren text := by
  cases text with
  | nil => exact nofun
  | cons point rest =>
      have hnodigit : point ∉ Text.digits := by
        rw [CodePoint.mem_digits_iff]
        rintro ⟨value, hsymbol⟩
        exact hends point rfl value hsymbol
      rw [Barren, List.takeWhile_cons_of_neg (by simpa using hnodigit)]
      exact nofun

end Faults

namespace Token

variable {index : Int} {run : Run} {point : CodePoint} {text rest : Text} {fault : Fault}

/-! ### What a scan reports -/

/-- The fault is the leftmost of a text that starts at `index`. -/
def ReportsFirst (index : Int) (text : Text) (fault : Fault) : Prop :=
  ∃ position : Nat, FirstLexicalFault text position fault.cause ∧ fault.index = index + position

theorem reportsFirst_cons_iff (hnone : ∀ other, ¬ LexicalFault (point :: rest) 0 other) :
    ReportsFirst index (point :: rest) fault ↔ ReportsFirst (index + 1) rest fault := by
  simp only [ReportsFirst, firstLexicalFault_cons_iff hnone]
  constructor
  · rintro ⟨_, ⟨before, rfl, hfirst⟩, hindex⟩
    exact ⟨before, hfirst, by omega⟩
  · rintro ⟨before, hfirst, hindex⟩
    exact ⟨before + 1, ⟨before, rfl, hfirst⟩, by omega⟩

theorem reportsFirst_cons_of_fault {cause : Fault.Cause}
    (hfault : LexicalFault (point :: rest) 0 cause) :
    ReportsFirst index (point :: rest) fault ↔ fault = ⟨cause, index⟩ := by
  constructor
  · rintro ⟨position, ⟨hother, hfirst⟩, hindex⟩
    cases position with
    | succ before => exact absurd hfault (hfirst 0 (Nat.succ_pos before) cause)
    | zero =>
        obtain ⟨found, start⟩ := fault
        obtain rfl : found = cause := hother.cause_eq hfault
        obtain rfl : start = index := by simpa using hindex
        rfl
  · rintro rfl
    exact ⟨0, hfault.firstLexicalFault, by simp⟩

/-- The run is a die that gets no face from the text after it. -/
def Starves (run : Run) (text : Text) (fault : Fault) : Prop :=
  run.finish = .error fault ∧ Barren text

/-- An open run that starves is to blame before anything in the text after it. -/
def Blames (index : Int) (run : Run) (text : Text) (fault : Fault) : Prop :=
  Starves run text fault ∨ (¬ ∃ other, Starves run text other) ∧ ReportsFirst index text fault

theorem Run.finish_die_eq_error_iff {start : Int} {faces : Nat} :
    (die start faces).finish = .error fault ↔ faces = 0 ∧ fault = ⟨.badDie, start⟩ := by
  cases faces with
  | zero => simp [finish, eq_comm]
  | succ faces => simp [finish]

theorem Run.finish_push_eq_error_iff {value : Nat} :
    (run.push index value).finish = .error fault ↔ run.finish = .error fault ∧ value = 0 := by
  cases run with
  | idle | number => simp [push, finish]
  | die start faces =>
      rw [push, finish_die_eq_error_iff, finish_die_eq_error_iff, and_right_comm]
      refine and_congr_left fun _ => ?_
      omega

/-- A digit belongs to the run, whichever it is. -/
theorem starves_digit_iff {value : Nat} (hdigit : point.symbol = .digit value) :
    Starves (run.push index value) rest fault ↔ Starves run (point :: rest) fault := by
  rw [Starves, Starves, Run.finish_push_eq_error_iff, barren_cons_iff hdigit, and_assoc]

theorem blames_digit_iff {value : Nat} (hdigit : point.symbol = .digit value) :
    Blames (index + 1) (run.push index value) rest fault ↔
      Blames index run (point :: rest) fault := by
  have hnone : ∀ other, ¬ LexicalFault (point :: rest) 0 other := by
    simp [lexicalFault_zero_iff, hdigit]
  simp only [Blames, starves_digit_iff hdigit, reportsFirst_cons_iff hnone]

theorem starves_of_endsRun (hends : EndsRun text) :
    Starves run text fault ↔ run.finish = .error fault :=
  and_iff_left (barren_of_endsRun hends)

/-- A run that ends here is to blame before the text, if it starves. -/
theorem blames_of_endsRun (hends : EndsRun text) :
    Blames index run text fault ↔
      run.finish = .error fault ∨
        (¬ ∃ other, run.finish = .error other) ∧ ReportsFirst index text fault := by
  simp only [Blames, starves_of_endsRun hends]

theorem blames_idle_iff : Blames index .idle text fault ↔ ReportsFirst index text fault := by
  simp [Blames, Starves, Run.finish]

theorem not_reportsFirst_nil : ¬ ReportsFirst index [] fault :=
  fun ⟨_, hfirst, _⟩ => not_lexicalFault_nil hfirst.fault

/-- After a die mark, a die that starves is the fault at the mark. -/
theorem blames_die_iff (hsymbol : point.symbol = .dieMark) :
    Blames (index + 1) (.die index 0) rest fault ↔ ReportsFirst index (point :: rest) fault := by
  by_cases hbarren : Barren rest
  · have hfault : LexicalFault (point :: rest) 0 .badDie :=
      lexicalFault_zero_iff.2 (.inr ⟨⟨hsymbol, hbarren⟩, rfl⟩)
    rw [reportsFirst_cons_of_fault hfault, Blames]
    simp [Starves, Run.finish_die_eq_error_iff, hbarren]
  · have hnone : ∀ other, ¬ LexicalFault (point :: rest) 0 other := by
      simp [lexicalFault_zero_iff, hsymbol, hbarren]
    rw [reportsFirst_cons_iff hnone, Blames]
    simp [Starves, hbarren]

theorem blames_restart_iff {own : List Token} {next : Run}
    (hrestart : point.symbol.restart? index = some (own, next)) :
    Blames (index + 1) next rest fault ↔ ReportsFirst index (point :: rest) fault := by
  cases hsymbol : point.symbol with
  | digit | foreign => rw [hsymbol] at hrestart; cases hrestart
  | dieMark =>
      rw [hsymbol] at hrestart
      cases hrestart
      exact blames_die_iff hsymbol
  | blank | mark =>
      rw [hsymbol] at hrestart
      cases hrestart
      have hnone : ∀ other, ¬ LexicalFault (point :: rest) 0 other := by
        simp [lexicalFault_zero_iff, hsymbol]
      rw [blames_idle_iff, reportsFirst_cons_iff hnone]

theorem scanFrom_cons_eq_error_iff {own : List Token} {next : Run}
    (hrestart : point.symbol.restart? index = some (own, next)) :
    scanFrom index run (point :: rest) = .error fault ↔
      run.finish = .error fault ∨
        (¬ ∃ other, run.finish = .error other) ∧
          scanFrom (index + 1) next rest = .error fault := by
  rw [scanFrom_cons_of_restart? hrestart]
  cases run.finish with
  | error found => simp [bind, Except.bind]
  | ok finished =>
      cases scanFrom (index + 1) next rest with
      | error found => simp [bind, Except.bind]
      | ok more => simp [bind, Except.bind, pure, Except.pure]

/-- The scan of a text after an open run fails for what is to blame. -/
theorem scanFrom_eq_error_iff :
    scanFrom index run text = .error fault ↔ Blames index run text fault := by
  induction text generalizing index run with
  | nil =>
      rw [scanFrom, blames_of_endsRun endsRun_nil]
      simp [not_reportsFirst_nil]
  | cons point rest ih =>
      have hends (hnodigit : ∀ value, point.symbol ≠ .digit value) : EndsRun (point :: rest) := by
        rintro _ ⟨⟩
        exact hnodigit
      obtain ⟨value, hsymbol⟩ | hsymbol | ⟨own, next, hrestart⟩ :=
        point.symbol.digit_or_foreign_or_restart index
      · rw [scanFrom, hsymbol]
        exact ih.trans (blames_digit_iff hsymbol)
      · have hfault : LexicalFault (point :: rest) 0 (.unexpectedToken point) :=
          lexicalFault_zero_iff.2 (.inl ⟨hsymbol, rfl⟩)
        rw [blames_of_endsRun (hends (by simp [hsymbol])), reportsFirst_cons_of_fault hfault,
          scanFrom, hsymbol]
        cases run.finish <;> simp [bind, Except.bind, eq_comm]
      · have hnodigit := Symbol.ne_digit_of_restart? hrestart
        rw [blames_of_endsRun (hends hnodigit), ← blames_restart_iff hrestart, ← ih]
        exact scanFrom_cons_eq_error_iff hrestart

/-- A text fails to scan exactly if it has a fault, and for the leftmost. -/
theorem scan_eq_error_iff {cause : Fault.Cause} :
    scan text = .error ⟨cause, index⟩ ↔
      ∃ position : Nat, FirstLexicalFault text position cause ∧ index = position := by
  rw [scan, scanFrom_eq_error_iff, blames_idle_iff]
  simp [ReportsFirst]

end Token

end DiceOdds
