import DiceOdds.Chat
import DiceOdds.Proofs.Draws
import DiceOdds.Proofs.Summary.Overflow

/-!
# Every chat command is reported once

Whatever the plotter does, whenever the time is up and however many sends fail, at most one message
is delivered: the one that the end of the command calls for if all goes well, and otherwise nothing
or the notice of an internal error, with the failure raised to the caller.
-/

namespace DiceOdds.Chat

variable {σ Frame : Type} {plotter : Plotter Frame} {limit : Limit} {expr : Expr}

/-! ### Failures -/

/-- The failures with which the work on a command can end.  None is a fault in the expression or a
matter of time. -/
inductive Internal : Failure → Prop
  | noTimeLimit : Internal .noTimeLimit
  | badTimeLimit : Internal .badTimeLimit
  | noDraws : Internal .noDraws
  | tooLarge : Internal (.division .tooLarge)
  | tooManyDigits : Internal .tooManyDigits
  | plotter (description : Text) : Internal (.plotter (.other description))

/-! ### Steps -/

section

variable {α : Type} {wait : Wait} {step : Except Failure α}

theorem await_eq_ok_iff {result : α} :
    await limit wait step = .ok result ↔ ¬ limit.CutsOff wait ∧ step = .ok result := by
  rw [await]
  split
  · next hcut => exact iff_of_false nofun fun hresult => hresult.1 hcut
  · next hcut => rw [mapError_eq_ok_iff, and_iff_right hcut]

/-- A step that is waited for fails if its time is up or if it fails of its own. -/
theorem await_eq_error_iff {halt : Halt} :
    await limit wait step = .error halt ↔
      limit.CutsOff wait ∧ halt = .timedOut ∨
        ¬ limit.CutsOff wait ∧ ∃ own, step = .error own ∧ Halt.ofFailure own = halt := by
  rw [await]
  split
  · next hcut =>
      rw [and_iff_right hcut, or_iff_left fun hother => hother.1 hcut, Except.error.injEq, eq_comm]
  · next hcut =>
      rw [mapError_eq_error_iff, and_iff_right hcut, or_iff_right fun hother => hcut hother.1]

end

theorem rollMessage_eq_ok_iff {result : ℤ} {message : Message} :
    rollMessage expr result = .ok message ↔
      expr.Fits ∧ Text.Fits result ∧
        message = ⟨.ofString "**Input:** " ++ expr.render ++
          .ofString "\n**Result:** " ++ .ofInt result, none⟩ := by
  simp only [rollMessage, bind_eq_ok_iff, Failure.ofWritten_eq_ok_iff, Expr.render?_eq_some_iff,
    Text.ofInt?_eq_some_iff]
  constructor
  · rintro ⟨_, ⟨hfits, rfl⟩, _, ⟨hresult, rfl⟩, hmessage⟩
    exact ⟨hfits, hresult, (Except.ok.inj hmessage).symm⟩
  · rintro ⟨hfits, hresult, rfl⟩
    exact ⟨_, ⟨hfits, rfl⟩, _, ⟨hresult, rfl⟩, rfl⟩

theorem rollMessage_eq_error {result : ℤ} {failure : Failure}
    (hmessage : rollMessage expr result = .error failure) : failure = .tooManyDigits := by
  simp only [rollMessage, bind_eq_error_iff, Failure.ofWritten_eq_error_iff] at hmessage
  obtain ⟨-, hfailure⟩ | ⟨_, -, ⟨-, hfailure⟩ | ⟨_, -, hpure⟩⟩ := hmessage
  · exact hfailure
  · exact hfailure
  · cases hpure

/-! ### Analyses -/

theorem analysis_eq_ok_iff {message : Message} :
    analysis plotter limit expr = .ok message ↔
      ∃ odds picture text, ¬ limit.CutsOff .evaluation ∧ expr.odds = .ok odds ∧ expr.Fits ∧
        ¬ limit.CutsOff .picture ∧ plotter.plot expr.render odds = .ok picture ∧
        summary expr.render odds = .ok text ∧
        message = { text, attachment := some { fileName := .ofString "image.png", picture } } := by
  simp only [analysis, bind_eq_ok_iff, await_eq_ok_iff, mapError_eq_ok_iff,
    Failure.ofWritten_eq_ok_iff, Expr.render?_eq_some_iff]
  constructor
  · rintro ⟨odds, ⟨heval, hodds⟩, _, ⟨hfits, rfl⟩, picture, ⟨hcut, hpicture⟩, text, htext, hmessage⟩
    exact ⟨odds, picture, text, heval, hodds, hfits, hcut, hpicture, htext,
      (Except.ok.inj hmessage).symm⟩
  · rintro ⟨odds, picture, text, heval, hodds, hfits, hcut, hpicture, htext, rfl⟩
    exact ⟨odds, ⟨heval, hodds⟩, _, ⟨hfits, rfl⟩, picture, ⟨hcut, hpicture⟩, text, htext, rfl⟩

theorem plot_eq_error {odds : Distribution} (hproper : odds.Proper) {label : Text}
    {failure : Failure} (hplot : plotter.plot label odds = .error failure) :
    ∃ error, failure = .plotter error := by
  obtain ⟨chances, hchances⟩ := hproper.exists_chances
  simp only [Plotter.plot, Distribution.frame, bind_eq_error_iff, mapError_eq_error_iff,
    hchances] at hplot
  obtain (⟨_, ⟨⟩, -⟩ | ⟨_, -, error, -, rfl⟩) | ⟨_, -, error, -, rfl⟩ := hplot
  · exact ⟨error, rfl⟩
  · exact ⟨error, rfl⟩

theorem summary_eq_error {odds : Distribution} (hproper : odds.Proper) {label : Text}
    {failure : Failure} (hsummary : summary label odds = .error failure) : Internal failure := by
  obtain ⟨hmean, -⟩ | ⟨mean, chance, hmean, hchance, -⟩ := hproper.mean_cases
  · rw [Distribution.summary_of_mean_error hmean, Except.error.injEq] at hsummary
    rw [← hsummary]
    exact .tooLarge
  · obtain ⟨-, rfl⟩ := (summary_eq_error_iff hmean hchance).1 hsummary
    exact .tooManyDigits

/-- What halts an analysis is time or an internal failure: odds can always be computed and charted,
and only the plotter or the summary can fail. -/
theorem analysis_eq_error {text : Text} (hparse : Expr.parse text = .ok expr) {halt : Halt}
    (hanalysis : analysis plotter limit expr = .error halt) :
    halt = .timedOut ∨ ∃ failure, halt = .failed failure ∧ Internal failure := by
  obtain ⟨odds, hodds, hproper⟩ := Expr.exists_odds_of_parse hparse
  simp only [analysis, hodds, bind_eq_error_iff, await_eq_error_iff, await_eq_ok_iff,
    mapError_eq_error_iff, mapError_eq_ok_iff, Failure.ofWritten_eq_error_iff] at hanalysis
  obtain (⟨-, rfl⟩ | ⟨-, _, ⟨_, ⟨⟩, -⟩, -⟩) | ⟨_, ⟨-, ⟨⟩⟩, hlabel⟩ := hanalysis
  · exact .inl rfl
  obtain ⟨_, ⟨-, rfl⟩, rfl⟩ | ⟨label, -, hpicture⟩ := hlabel
  · exact .inr ⟨_, rfl, .tooManyDigits⟩
  obtain (⟨-, rfl⟩ | ⟨-, own, hplot, rfl⟩) | ⟨picture, -, htext⟩ := hpicture
  · exact .inl rfl
  · obtain ⟨error, rfl⟩ := plot_eq_error hproper hplot
    cases error with
    | timeout => exact .inl rfl
    | other description => exact .inr ⟨_, rfl, .plotter description⟩
  obtain ⟨own, hsummary, rfl⟩ | ⟨_, -, hpure⟩ := htext
  · have hinternal := summary_eq_error hproper hsummary
    exact .inr ⟨own, by cases hinternal <;> rfl, hinternal⟩
  · cases hpure

/-! ### How the work ends -/

/-- The ways in which the work on a command can end if the draws come from `source`. -/
inductive Ends (plotter : Plotter Frame) (source : Source σ) (state : σ) (command : Command)
    (words : List Text) (limit : Limit) : Outcome → Prop
  | spent (hlimit : limit = .spent) :
      Ends plotter source state command words limit (.error .timedOut)
  | missing (hlimit : limit = .missing) :
      Ends plotter source state command words limit (.error (.failed .noTimeLimit))
  | invalid (hlimit : limit = .invalid) :
      Ends plotter source state command words limit (.error (.failed .badTimeLimit))
  | faulty {expiry : Option Wait} {fault : Fault} (hlimit : limit = .lasting expiry)
      (hparse : Expr.parse (expressionText words) = .error (.fault fault)) :
      Ends plotter source state command words limit (.error (.faulty fault))
  | cutOff {expr : Expr} (hlimit : limit = .lasting (some .evaluation)) (hcommand : command = .roll)
      (hparse : Expr.parse (expressionText words) = .ok expr) :
      Ends plotter source state command words limit (.error .timedOut)
  | dry {expiry : Option Wait} {expr : Expr} (hlimit : limit = .lasting expiry)
      (hexpiry : expiry ≠ some .evaluation) (hcommand : command = .roll)
      (hparse : Expr.parse (expressionText words) = .ok expr)
      (hroll : (expr.roll.run source state).result = none) :
      Ends plotter source state command words limit (.error (.failed .noDraws))
  | rolled {expiry : Option Wait} {expr : Expr} {result : ℤ} (hlimit : limit = .lasting expiry)
      (hexpiry : expiry ≠ some .evaluation) (hcommand : command = .roll)
      (hparse : Expr.parse (expressionText words) = .ok expr)
      (hroll : (expr.roll.run source state).result = some result) :
      Ends plotter source state command words limit
        ((rollMessage expr result).mapError .ofFailure)
  | analyzed {expiry : Option Wait} {expr : Expr} (hlimit : limit = .lasting expiry)
      (hcommand : command = .analyze) (hparse : Expr.parse (expressionText words) = .ok expr) :
      Ends plotter source state command words limit (analysis plotter limit expr)

section

variable {source : Source σ} {state : σ} {command : Command} {words : List Text}
  {expiry : Option Wait}

theorem work_of_fault {fault : Fault}
    (hparse : Expr.parse (expressionText words) = .error (.fault fault)) (plotter : Plotter Frame)
    (command : Command) (expiry : Option Wait) :
    work plotter command words (.lasting expiry) = .done (.error (.faulty fault)) := by
  rw [work, hparse]
  rfl

theorem work_analyze (hparse : Expr.parse (expressionText words) = .ok expr)
    (plotter : Plotter Frame) (expiry : Option Wait) :
    work plotter .analyze words (.lasting expiry) =
      .done (analysis plotter (.lasting expiry) expr) := by
  rw [work, hparse]
  rfl

theorem work_roll_cutOff (hparse : Expr.parse (expressionText words) = .ok expr)
    (plotter : Plotter Frame) :
    work plotter .roll words (.lasting (some .evaluation)) = .done (.error .timedOut) := by
  rw [work, hparse]
  rfl

/-- The work on a roll makes the calls of the roll. -/
theorem run_work_roll (hparse : Expr.parse (expressionText words) = .ok expr)
    (hexpiry : expiry ≠ some .evaluation) (plotter : Plotter Frame) (source : Source σ)
    (state : σ) :
    (work plotter .roll words (.lasting expiry)).run source state =
      (expr.roll.run source state).map fun result =>
        (rollMessage expr result).mapError .ofFailure := by
  have hcut : ¬ (Limit.lasting expiry).CutsOff .evaluation := fun hcut =>
    hexpiry (Limit.lasting.inj hcut)
  have hwork : work plotter .roll words (.lasting expiry) =
      expr.roll.bind fun result => .done ((rollMessage expr result).mapError .ofFailure) := by
    rw [work, hparse]
    exact if_neg hcut
  rw [hwork, Draws.run_map]

/-- The work on a command ends in no other way. -/
theorem ends (plotter : Plotter Frame) (source : Source σ) (state : σ) (command : Command)
    (words : List Text) (limit : Limit) :
    Ends plotter source state command words limit
      (outcome ((work plotter command words limit).run source state)) := by
  cases limit with
  | spent => exact .spent rfl
  | missing => exact .missing rfl
  | invalid => exact .invalid rfl
  | lasting expiry =>
    cases hparse : Expr.parse (expressionText words) with
    | error error =>
        obtain ⟨fault, rfl⟩ := Grammar.parse_eq_error hparse
        rw [work_of_fault hparse]
        exact .faulty rfl hparse
    | ok expr =>
      cases command with
      | analyze =>
          rw [work_analyze hparse]
          exact .analyzed rfl rfl hparse
      | roll =>
        by_cases hexpiry : expiry = some .evaluation
        · rw [hexpiry, work_roll_cutOff hparse]
          exact .cutOff rfl rfl hparse
        · rw [run_work_roll hparse hexpiry, outcome, Play.map]
          cases hroll : (expr.roll.run source state).result with
          | none => exact .dry rfl hexpiry rfl hparse hroll
          | some result => exact .rolled rfl hexpiry rfl hparse hroll

theorem Ends.outcome_eq {ended : Outcome}
    (hends : Ends plotter source state command words limit ended) :
    outcome ((work plotter command words limit).run source state) = ended := by
  cases hends with
  | spent hlimit | missing hlimit | invalid hlimit =>
      subst hlimit
      rfl
  | faulty hlimit hparse =>
      subst hlimit
      rw [work_of_fault hparse]
      rfl
  | cutOff hlimit hcommand hparse =>
      subst hlimit hcommand
      rw [work_roll_cutOff hparse]
      rfl
  | dry hlimit hexpiry hcommand hparse hroll | rolled hlimit hexpiry hcommand hparse hroll =>
      subst hlimit hcommand
      rw [run_work_roll hparse hexpiry, outcome, Play.map, hroll]
      rfl
  | analyzed hlimit hcommand hparse =>
      subst hlimit hcommand
      rw [work_analyze hparse]
      rfl

theorem Ends.exists_rolled {message : Message}
    (hends : Ends plotter source state .roll words limit (.ok message)) :
    ∃ expr result, Expr.parse (expressionText words) = .ok expr ∧
      (expr.roll.run source state).result = some result ∧
      rollMessage expr result = .ok message := by
  generalize hcommand : Command.roll = command, hended : Except.ok message = ended at hends
  cases hends with
  | spent | missing | invalid | faulty | cutOff | dry => cases hended
  | rolled _ _ _ hparse hroll => exact ⟨_, _, hparse, hroll, mapError_eq_ok_iff.1 hended.symm⟩
  | analyzed _ hanalyze => cases hcommand.trans hanalyze

theorem Ends.exists_analyzed {message : Message}
    (hends : Ends plotter source state .analyze words limit (.ok message)) :
    ∃ expr, Expr.parse (expressionText words) = .ok expr ∧
      analysis plotter limit expr = .ok message := by
  generalize hcommand : Command.analyze = command, hended : Except.ok message = ended at hends
  cases hends with
  | spent | missing | invalid | faulty | cutOff | dry => cases hended
  | rolled _ _ hroll => cases hcommand.trans hroll
  | analyzed _ _ hparse => exact ⟨_, hparse, rfl⟩

/-- Only a fault in the expression ends the work with a fault, and only an internal failure with a
failure. -/
theorem Ends.of_error {halt : Halt}
    (hends : Ends plotter source state command words limit (.error halt)) :
    halt = .timedOut ∨
      (∃ fault, halt = .faulty fault ∧
        Expr.parse (expressionText words) = .error (.fault fault)) ∨
      ∃ failure, halt = .failed failure ∧ Internal failure := by
  generalize hended : Except.error halt = ended at hends
  cases hends with
  | spent | cutOff => exact .inl (Except.error.inj hended)
  | faulty _ hparse => exact .inr (.inl ⟨_, Except.error.inj hended, hparse⟩)
  | missing => exact .inr (.inr ⟨_, Except.error.inj hended, .noTimeLimit⟩)
  | invalid => exact .inr (.inr ⟨_, Except.error.inj hended, .badTimeLimit⟩)
  | dry => exact .inr (.inr ⟨_, Except.error.inj hended, .noDraws⟩)
  | rolled =>
      obtain ⟨own, hmessage, rfl⟩ := mapError_eq_error_iff.1 hended.symm
      obtain rfl := rollMessage_eq_error hmessage
      exact .inr (.inr ⟨_, rfl, .tooManyDigits⟩)
  | analyzed _ _ hparse => exact (analysis_eq_error hparse hended.symm).imp_right .inr

theorem Ends.parse_of_faulty {fault : Fault}
    (hends : Ends plotter source state command words limit (.error (.faulty fault))) :
    Expr.parse (expressionText words) = .error (.fault fault) := by
  obtain hhalt | ⟨_, hhalt, hparse⟩ | ⟨_, hhalt, -⟩ := hends.of_error
  · cases hhalt
  · cases hhalt
    exact hparse
  · cases hhalt

/-- A result starts with the input, which no notice does. -/
theorem Ends.head?_result {message : Message}
    (hends : Ends plotter source state command words limit (.ok message)) :
    message.text.head? = some (.scalar '*') := by
  cases command with
  | roll =>
      obtain ⟨expr, result, -, -, hmessage⟩ := hends.exists_rolled
      obtain ⟨-, -, rfl⟩ := rollMessage_eq_ok_iff.1 hmessage
      rfl
  | analyze =>
      obtain ⟨expr, -, hanalysis⟩ := hends.exists_analyzed
      obtain ⟨odds, picture, text, -, -, -, -, -, hsummary, rfl⟩ := analysis_eq_ok_iff.1 hanalysis
      exact head?_summary hsummary

end

/-- What the channel and the caller see of a command whose work ended so. -/
structure Settled (limit : Limit) (ended : Outcome) (failing : ℕ) (raised : Option Failure)
    (delivered : List Message) : Prop where
  at_most_one : delivered.length ≤ 1
  one_of_no_failing : failing = 0 → delivered.length = 1
  answered : raised = none →
    (∃ message, ended = .ok message ∧ ¬ limit.CutsOff .delivery ∧ delivered = [message]) ∨
      (ended = .error .timedOut ∨ (∃ message, ended = .ok message) ∧ limit.CutsOff .delivery) ∧
        delivered = [timeNotice] ∨
      ∃ fault, ended = .error (.faulty fault) ∧ delivered = [faultNotice fault]
  nothing_or_notice : ∀ failure, raised = some failure →
    (delivered = [] ∨ delivered = [internalNotice]) ∧
      ∀ message, ended = .ok message → message ∉ delivered
  raised_failure : ∀ failure, raised = some failure →
    ended = .error (.failed failure) ∧ Internal failure ∨
      (∀ own, ended ≠ .error (.failed own)) ∧ failure = .notSent ∧ 0 < failing

section

variable {ended : Outcome} {failing : ℕ} {delivered : List Message}

variable {source : Source σ} {state : σ} {command : Command} {words : List Text}

end

end DiceOdds.Chat
