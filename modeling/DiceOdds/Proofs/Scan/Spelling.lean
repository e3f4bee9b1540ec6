import DiceOdds.Proofs.Scan.Munch
import Mathlib.Data.List.Induction

/-!
# What tokens leave open

Without their indices, the tokens of a text say everything about it except where its blanks are,
which shapes its brackets have and how many zeros its numerals start with.
-/

namespace DiceOdds

namespace Text

/-- A number with so many zeros before it. -/
def padded (zeros value : Nat) : Text :=
  List.replicate zeros (.scalar '0') ++ numeral value

theorem padded_eq_map (zeros value : Nat) :
    padded zeros value =
      (List.replicate zeros '0' ++ Nat.toDigits 10 value).map CodePoint.scalar := by
  rw [List.map_append, List.map_replicate, padded, numeral]

theorem ofDigitChars_padded (zeros value : Nat) :
    Nat.ofDigitChars 10 (List.replicate zeros '0' ++ Nat.toDigits 10 value) 0 = value := by
  induction zeros with
  | zero => exact Nat.ofDigitChars_ten_toDigits
  | succ zeros ih => exact ih

theorem isDigit_of_mem_padded (zeros value : Nat) :
    ∀ digit ∈ List.replicate zeros '0' ++ Nat.toDigits 10 value, digit.isDigit = true := by
  intro digit hmem
  obtain hzero | hdigit := List.mem_append.1 hmem
  · rw [List.eq_of_mem_replicate hzero]
    rfl
  · exact isDigit_of_mem_toDigits_ten value digit hdigit

theorem digitChar_of_isDigit {digit : Char} (hdigit : digit.isDigit = true) :
    digit.toNat - '0'.toNat < 10 ∧ Nat.digitChar (digit.toNat - '0'.toNat) = digit := by
  obtain ⟨hsmall, hpoint⟩ :=
    CodePoint.digit?_eq_some_iff.1 (CodePoint.digit?_of_isDigit hdigit)
  exact ⟨hsmall, (CodePoint.scalar.inj hpoint).symm⟩

/-- Digits spell their number, after some zeros. -/
theorem exists_zeros {digits : List Char} (hnonempty : digits ≠ [])
    (hdigits : ∀ digit ∈ digits, digit.isDigit = true) :
    ∃ zeros, digits =
      List.replicate zeros '0' ++ Nat.toDigits 10 (Nat.ofDigitChars 10 digits 0) := by
  induction digits using List.reverseRecOn with
  | nil => exact absurd rfl hnonempty
  | append_singleton digits last ih =>
    obtain ⟨hsmall, hchar⟩ := digitChar_of_isDigit (hdigits last (by simp))
    have hlast : Nat.toDigits 10 (last.toNat - '0'.toNat) = [last] := by
      rw [Nat.toDigits_of_lt_base hsmall, hchar]
    rw [Nat.ofDigitChars_append, Nat.ofDigitChars_cons, Nat.ofDigitChars_nil]
    by_cases hempty : digits = []
    · exact ⟨0, by simpa [hempty] using hlast.symm⟩
    · obtain ⟨zeros, hzeros⟩ := ih hempty fun digit hmem =>
        hdigits digit (List.mem_append_left _ hmem)
      -- a number above zero goes on with its last digit, and zero is one more leading zero
      obtain hzero | hpos := Nat.eq_zero_or_pos (Nat.ofDigitChars 10 digits 0)
      · rw [hzero, Nat.toDigits_zero, ← List.replicate_succ'] at hzeros
        exact ⟨zeros + 1, by rw [hzero, Nat.mul_zero, Nat.zero_add, hlast, ← hzeros]⟩
      · have hall := Nat.toDigits_append_toDigits (by decide) hpos hsmall
        exact ⟨zeros, by rw [← hall, hlast, ← List.append_assoc, ← hzeros]⟩

theorem exists_digitsFrom_eq_padded {text : Text} {position : Nat}
    (hrun : text.digitsFrom position ≠ []) :
    ∃ zeros, text.digitsFrom position = padded zeros (decimal (text.digitsFrom position)) := by
  obtain ⟨hscalars, hisDigit⟩ := Token.map_toChar_digitsFrom text position
  obtain ⟨zeros, hzeros⟩ := exists_zeros (by simpa using hrun) hisDigit
  refine ⟨zeros, ?_⟩
  rw [padded_eq_map, decimal, ← hzeros, hscalars]

end Text

namespace Token

open Text

variable {text rest : Text} {kinds : List Kind}

/-- The text spells tokens of these kinds, in this order. -/
inductive Spelling : Text → List Kind → Prop
  | done : Spelling [] []
  | blank {point : CodePoint} {rest : Text} {kinds : List Kind} (hpoint : point ∈ blanks)
      (hrest : Spelling rest kinds) : Spelling (point :: rest) kinds
  | mark {point : CodePoint} {kind : Kind} {rest : Text} {kinds : List Kind}
      (hpoint : point ∈ (Symbol.mark kind).characters) (hrest : Spelling rest kinds) :
      Spelling (point :: rest) (kind :: kinds)
  | number {rest : Text} {kinds : List Kind} (zeros value : Nat) (hends : EndsRun rest)
      (hrest : Spelling rest kinds) :
      Spelling (padded zeros value ++ rest) (.number value :: kinds)
  | die {rest : Text} {kinds : List Kind} (zeros : Nat) {faces : Nat} (hfaces : 0 < faces)
      (hends : EndsRun rest) (hrest : Spelling rest kinds) :
      Spelling (.scalar 'd' :: padded zeros faces ++ rest) (.die faces :: kinds)

/-! ### Texts are spelled -/

theorem Munches.spelling {position : Nat} {tokens : List Token} {spans : List (Nat × Nat)}
    (hmunches : Munches text position tokens spans)
    (hreadable : ∀ token ∈ tokens, token.kind.Readable) :
    Spelling (text.drop position) (tokens.map Token.kind) := by
  induction hmunches with
  | done hend =>
      rw [List.drop_eq_nil_of_le hend]
      exact .done
  | blank hat hpoint _ ih =>
      rw [drop_eq_cons hat]
      exact .blank hpoint (ih hreadable)
  | @token position stop kind tokens spans hspans _ ih =>
    obtain ⟨hkind, hrest⟩ := List.forall_mem_cons.1 hreadable
    cases hspans with
    | number hrun =>
        obtain ⟨zeros, hzeros⟩ := exists_digitsFrom_eq_padded hrun
        have hspelling := Spelling.number zeros (decimal (text.digitsFrom position))
          (endsRun_drop_afterDigits text position) (ih hrest)
        rwa [← hzeros, ← drop_eq_digitsFrom_append] at hspelling
    | die hat =>
        have hfaces : 0 < decimal (text.digitsFrom (position + 1)) := Int.ofNat_lt.1 hkind
        have hrun : text.digitsFrom (position + 1) ≠ [] := by
          intro hnil
          rw [hnil] at hfaces
          exact absurd hfaces (Nat.lt_irrefl 0)
        obtain ⟨zeros, hzeros⟩ := exists_digitsFrom_eq_padded hrun
        have hspelling := Spelling.die zeros hfaces
          (endsRun_drop_afterDigits text (position + 1)) (ih hrest)
        rwa [List.cons_append, ← hzeros, ← drop_eq_digitsFrom_append, ← drop_eq_cons hat]
          at hspelling
    | mark hat hpoint =>
        rw [drop_eq_cons hat]
        exact .mark hpoint (ih hrest)

/-! ### Spellings scan -/

theorem Spelling.exists_scans (hspelling : Spelling text kinds) (index : Int) :
    ∃ tokens, Scans index text tokens ∧ tokens.map Token.kind = kinds := by
  induction hspelling generalizing index with
  | done => exact ⟨[], scans_nil index, rfl⟩
  | @blank point _ _ hpoint _ ih =>
      have hsymbol : point.symbol = .blank := (CodePoint.symbol_eq_iff (by simp)).2 hpoint
      obtain ⟨tokens, hscans, hkinds⟩ := ih (index + 1)
      exact ⟨tokens, hscans.blank hsymbol, hkinds⟩
  | @mark point kind _ _ hpoint _ ih =>
      have hsymbol : point.symbol = .mark kind := (CodePoint.symbol_eq_iff (by simp)).2 hpoint
      obtain ⟨tokens, hscans, hkinds⟩ := ih (index + 1)
      exact ⟨_, hscans.mark hsymbol, congrArg (kind :: ·) hkinds⟩
  | number zeros value hends _ ih =>
      obtain ⟨tokens, hscans, hkinds⟩ := ih (index + (padded zeros value).length)
      have hnonempty : List.replicate zeros '0' ++ Nat.toDigits 10 value ≠ [] := by simp
      have hnumber := scans_digits hnonempty (isDigit_of_mem_padded zeros value) index
      rw [ofDigitChars_padded, ← padded_eq_map] at hnumber
      exact ⟨_, hnumber.append hends hscans, congrArg (_ :: ·) hkinds⟩
  | @die _ _ zeros faces hfaces hends _ ih =>
      obtain ⟨tokens, hscans, hkinds⟩ :=
        ih (index + (CodePoint.scalar 'd' :: padded zeros faces).length)
      rw [← ofDigitChars_padded zeros faces] at hfaces
      have hdie := scans_dieMark_digits (isDigit_of_mem_padded zeros faces) hfaces index
      rw [ofDigitChars_padded, ← padded_eq_map] at hdie
      exact ⟨_, hdie.append hends hscans, congrArg (_ :: ·) hkinds⟩

theorem spelling_of_scan {tokens : List Token} (hscan : scan text = .ok tokens) :
    Spelling text (tokens.map Token.kind) := by
  have hstart : scanFrom (0 : Nat) .idle (text.drop 0) = .ok tokens := hscan
  obtain ⟨spans, hmunches⟩ := exists_munches hstart
  exact hmunches.spelling (readable_of_scanFrom hscan)

/-- The texts that scan to tokens of given kinds are the spellings of these kinds: no others, and
all of them. -/
theorem exists_scan_iff_spelling :
    (∃ tokens, scan text = .ok tokens ∧ tokens.map Token.kind = kinds) ↔ Spelling text kinds := by
  constructor
  · rintro ⟨tokens, hscan, rfl⟩
    exact spelling_of_scan hscan
  · intro hspelling
    obtain ⟨tokens, hscans, hkinds⟩ := hspelling.exists_scans 0
    exact ⟨tokens, hscans.scan, hkinds⟩

end Token

end DiceOdds
