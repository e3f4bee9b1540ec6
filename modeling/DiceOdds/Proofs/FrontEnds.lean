import DiceOdds.Proofs.Chat
import DiceOdds.Proofs.Fault
import DiceOdds.Proofs.Request

/-!
# Requests and chat commands agree

A request and the chat command that stands for it say the same about an expression, make the same
calls and find the same fault, as long as the chat command can write what it tells.  The one thing
that a chat command does not tell in full are the weights: its summary fixes their range, but leaves
open which weights in that range they are.
-/

namespace DiceOdds

/-- The chat command for the same task. -/
def Request.Command.inChat : Request.Command → Chat.Command
  | calculate => .roll
  | analyze => .analyze

variable {σ Frame : Type} {plotter : Plotter Frame} {source : Source σ} {state : σ}
  {message expression : Text} {command : Request.Command} {words : List Text}

namespace Chat

/-- All that a command with all the time it takes delivers is the text, if no send fails. -/
def Sends (plotter : Plotter Frame) (source : Source σ) (state : σ) (command : Command)
    (words : List Text) (text : Text) : Prop :=
  (report .unlimited { failing := 0 }
    (outcome ((work plotter command words .unlimited).run source state))).2.delivered.map
      Message.text = [text]

/-- The odds that a command analyzes have a mean that is too large. -/
def TooLarge (plotter : Plotter Frame) (source : Source σ) (state : σ) (words : List Text) : Prop :=
  outcome ((work plotter .analyze words .unlimited).run source state) =
    .error (.failed (.division .tooLarge))

/-- The message of an end if nothing is cut off and no send fails. -/
def answer : Outcome → Message
  | .ok message => message
  | .error .timedOut => timeNotice
  | .error (.faulty fault) => faultNotice fault
  | .error (.failed _) => internalNotice

theorem report_unlimited (ended : Outcome) :
    (report .unlimited { failing := 0 } ended).2.delivered = [answer ended] := by
  cases ended with
  | ok message => rfl
  | error halt => cases halt <;> rfl

section

variable {command : Command} {text : Text}

theorem sends_iff :
    Sends plotter source state command words text ↔
      ∃ ended, Ends plotter source state command words .unlimited ended ∧
        (answer ended).text = text := by
  constructor
  · intro hsends
    rw [Sends, report_unlimited] at hsends
    exact ⟨_, ends plotter source state command words .unlimited, (List.cons.inj hsends).1⟩
  · rintro ⟨ended, hends, rfl⟩
    rw [Sends, report_unlimited, hends.outcome_eq]
    rfl

/-- No notice starts like a result. -/
theorem exists_result_of_sends (hsends : Sends plotter source state command words text)
    (hhead : text.head? = some (.scalar '*')) :
    ∃ message, Ends plotter source state command words .unlimited (.ok message) ∧
      message.text = text := by
  obtain ⟨ended, hends, rfl⟩ := sends_iff.1 hsends
  cases ended with
  | ok message => exact ⟨message, hends, rfl⟩
  | error halt => cases halt <;> cases hhead

/-- Only the notice of a fault starts like it. -/
theorem parse_of_sends_fault {fault : Fault}
    (hsends : Sends plotter source state command words
      (.ofString "Error in input: " ++ fault.message)) :
    Expr.parse (expressionText words) = .error (.fault fault) := by
  obtain ⟨ended, hends, htext⟩ := sends_iff.1 hsends
  cases ended with
  | ok message => cases hends.head?_result.symm.trans (congrArg List.head? htext)
  | error halt =>
    cases halt with
    | timedOut | failed => cases congrArg List.head? htext
    | faulty own =>
        rw [← Fault.message_injective (List.append_cancel_left htext)]
        exact hends.parse_of_faulty

/-- A proper distribution has a chart. -/
theorem exists_plot {odds : Distribution} (hproper : odds.Proper) (hframes : plotter.MakesFrames)
    (hpictures : plotter.MakesPictures) (label : Text) :
    ∃ picture, plotter.plot label odds = .ok picture := by
  obtain ⟨data, hdata⟩ := hproper.exists_frame hframes
  obtain ⟨picture, hpicture⟩ := hpictures { data, title := label }
  exact ⟨picture, bind_eq_ok_iff.2 ⟨data, hdata, mapError_eq_ok_iff.2 hpicture⟩⟩

theorem not_cutsOff_unlimited (wait : Wait) : ¬ Limit.unlimited.CutsOff wait := by
  intro hcut
  cases hcut

/-- With odds, a label and a picture, the summary alone can keep an analysis from its result. -/
theorem analysis_of_summary_error {expr : Expr} {odds : Distribution} {picture : Picture}
    {failure : Failure} (hodds : expr.odds = .ok odds) (hfits : expr.Fits)
    (hpicture : plotter.plot expr.render odds = .ok picture)
    (hsummary : summary expr.render odds = .error failure) :
    analysis plotter .unlimited expr = .error (.ofFailure failure) := by
  have hevaluated : await .unlimited .evaluation (expr.odds.mapError .odds) = .ok odds :=
    await_eq_ok_iff.2 ⟨not_cutsOff_unlimited _, mapError_eq_ok_iff.2 hodds⟩
  have hcharted : await .unlimited .picture (plotter.plot expr.render odds) = .ok picture :=
    await_eq_ok_iff.2 ⟨not_cutsOff_unlimited _, hpicture⟩
  rw [analysis, hevaluated, Expr.render?_of_fits hfits]
  change await .unlimited .picture (plotter.plot expr.render odds) >>= _ = _
  rw [hcharted]
  change (summary expr.render odds).mapError Halt.ofFailure >>= _ = _
  rw [hsummary]
  rfl

/-- With odds, a label, a picture and a summary, an analysis ends with its result. -/
theorem exists_ends_of_summary {expr : Expr} {odds : Distribution} {picture : Picture}
    (hparse : Expr.parse (expressionText words) = .ok expr) (hodds : expr.odds = .ok odds)
    (hfits : expr.Fits) (hpicture : plotter.plot expr.render odds = .ok picture)
    (hsummary : summary expr.render odds = .ok text) (source : Source σ) (state : σ) :
    ∃ message, Ends plotter source state .analyze words .unlimited (.ok message) ∧
      message.text = text := by
  have hanalysis : analysis plotter .unlimited expr = .ok _ :=
    analysis_eq_ok_iff.2 ⟨odds, picture, text, not_cutsOff_unlimited _, hodds, hfits,
      not_cutsOff_unlimited _, hpicture, hsummary, rfl⟩
  refine ⟨{ text, attachment := some { fileName := .ofString "image.png", picture } }, ?_, rfl⟩
  rw [← hanalysis]
  exact .analyzed rfl rfl hparse

end

end Chat

namespace Request

open Chat

/-- The summary of a distribution under the expression as it is printed. -/
def SummaryUnder (expression : Text) (odds : Distribution) (text : Text) : Prop :=
  ∃ expr label, Expr.parse expression = .ok expr ∧ expr.render? = some label ∧
    summary label odds = .ok text

/-- The numbers that a chat command tells and a response leaves out can be written, and so can the
index of a fault. -/
structure Legible (command : Command) (expression : Text) : Prop where
  fault : ∀ fault, Expr.parse expression = .error (.fault fault) → Text.Fits fault.index
  numerals : ∀ expr, Expr.parse expression = .ok expr → expr.Fits
  maximum : ∀ expr odds, command = .analyze → Expr.parse expression = .ok expr →
    expr.odds = .ok odds → Text.Fits odds.maximum

theorem calls_eq (hasks : Asks message command expression)
    (hwords : expressionText words = expression) (plotter : Plotter Frame) :
    ((respond message).run source state).calls =
      ((work plotter command.inChat words .unlimited).run source state).calls := by
  subst hwords
  rw [Limit.unlimited]
  cases hparse : Expr.parse (expressionText words) with
  | error error =>
      obtain ⟨fault, rfl⟩ := Grammar.parse_eq_error hparse
      rw [respond_faulty hasks hparse, work_of_fault hparse]
      rfl
  | ok expr =>
    cases command with
    | calculate =>
        rw [run_respond_rolled hasks hparse, Command.inChat,
          run_work_roll hparse (Option.some_ne_none _).symm]
        rfl
    | analyze =>
        obtain ⟨odds, hodds, -⟩ := Expr.exists_odds_of_parse hparse
        rw [respond_analyzed hasks hparse hodds, Command.inChat, work_analyze hparse]
        rfl

/-! ### Rolls -/

theorem answers_rolled_iff (hasks : Asks message .calculate expression) {result : ℤ} :
    Answers source state message (.rolled result) ↔
      ∃ expr, Expr.parse expression = .ok expr ∧
        (expr.roll.run source state).result = some result ∧ Text.Fits result := by
  have hfits : (Reply.rolled result).Fits ↔ Text.Fits result := List.forall_mem_singleton
  rw [answers_iff, hfits]
  constructor
  · rintro ⟨_ | _ | ⟨hother, hparse, hroll⟩, hresult⟩
    obtain ⟨-, rfl⟩ := hasks.unique hother
    exact ⟨_, hparse, hroll, hresult⟩
  · rintro ⟨expr, hparse, hroll, hresult⟩
    exact ⟨.rolled hasks hparse hroll, hresult⟩

theorem rolled_iff_sends (hasks : Asks message .calculate expression)
    (hwords : expressionText words = expression) (hlegible : Legible .calculate expression)
    (result : ℤ) :
    Answers source state message (.rolled result) ↔
      ∃ expr, Expr.parse expression = .ok expr ∧
        Sends plotter source state .roll words (.ofString "**Input:** " ++ expr.render ++
          .ofString "\n**Result:** " ++ .ofInt result) := by
  subst hwords
  rw [answers_rolled_iff hasks]
  refine exists_congr fun expr => and_congr_right fun hparse => ?_
  constructor
  · rintro ⟨hroll, hresult⟩
    have hmessage := rollMessage_eq_ok_iff.2 ⟨hlegible.numerals expr hparse, hresult, rfl⟩
    refine sends_iff.2 ⟨_, .rolled rfl (Option.some_ne_none _).symm rfl hparse hroll, ?_⟩
    rw [hmessage]
    rfl
  · intro hsends
    obtain ⟨message, hends, htext⟩ := exists_result_of_sends hsends rfl
    obtain ⟨other, found, hother, hroll, hmessage⟩ := hends.exists_rolled
    obtain rfl := Except.ok.inj (hparse.symm.trans hother)
    obtain ⟨-, hresult, rfl⟩ := rollMessage_eq_ok_iff.1 hmessage
    obtain rfl := Text.ofInt_injective (List.append_cancel_left htext)
    exact ⟨hroll, hresult⟩

/-! ### Odds -/

theorem answers_analyzed_iff (hasks : Asks message .analyze expression) {odds : Distribution} :
    Answers source state message (.analyzed odds) ↔
      ∃ expr, Expr.parse expression = .ok expr ∧ expr.odds = .ok odds ∧
        (Reply.analyzed odds).Fits := by
  rw [answers_iff]
  constructor
  · rintro ⟨_ | _ | _ | ⟨hother, hparse, hodds⟩, hfits⟩
    obtain ⟨-, rfl⟩ := hasks.unique hother
    exact ⟨_, hparse, hodds, hfits⟩
  · rintro ⟨expr, hparse, hodds, hfits⟩
    exact ⟨.analyzed hasks hparse hodds, hfits⟩

/-- A weight is a part of the total weight, so it is no longer than that. -/
theorem fits_analyzed_iff {odds : Distribution} (hproper : odds.Proper) :
    (Reply.analyzed odds).Fits ↔ Text.Fits odds.minimum ∧ Text.Fits odds.totalWeight := by
  have hpart {weight : ℤ} (hmem : weight ∈ odds.weights) (htotal : Text.Fits odds.totalWeight) :
      Text.Fits weight := by
    obtain ⟨hnonneg, hle⟩ := hproper.le_totalWeight hmem
    exact .between (show Text.Fits 0 by decide) htotal hnonneg hle
  simp only [Reply.Fits, Reply.numerals, List.forall_mem_cons, List.forall_mem_append]
  constructor
  · rintro ⟨hstart, -, -, htotal, -⟩
    exact ⟨hstart, htotal⟩
  · rintro ⟨hstart, htotal⟩
    exact ⟨hstart, fun weight hmem => hpart hmem htotal, hpart (List.max_mem odds.nonempty) htotal,
      htotal, List.forall_mem_nil _⟩

/-- Legible odds are answered by a request if and only if their summary can be written. -/
theorem summaryFits_iff_fits_analyzed {odds : Distribution} (hproper : odds.Proper)
    (hmaximum : Text.Fits odds.maximum) : odds.SummaryFits ↔ (Reply.analyzed odds).Fits := by
  rw [Distribution.summaryFits_iff, fits_analyzed_iff hproper, and_iff_right hmaximum]

theorem sends_of_analyzed (hasks : Asks message .analyze expression)
    (hwords : expressionText words = expression) (hframes : plotter.MakesFrames)
    (hpictures : plotter.MakesPictures) (hlegible : Legible .analyze expression)
    {odds : Distribution} (hanswers : Answers source state message (.analyzed odds))
    (hlarge : ¬ TooLarge plotter source state words) :
    ∃ text, SummaryUnder expression odds text ∧
      Sends plotter source state .analyze words text := by
  subst hwords
  obtain ⟨expr, hparse, hodds, hanswered⟩ := (answers_analyzed_iff hasks).1 hanswers
  have hproper := Expr.proper_of_parse hparse hodds
  have hexpr := hlegible.numerals expr hparse
  have hfits := (summaryFits_iff_fits_analyzed hproper
    (hlegible.maximum expr odds rfl hparse hodds)).2 hanswered
  obtain ⟨picture, hpicture⟩ := exists_plot hproper hframes hpictures expr.render
  obtain ⟨hmean, -⟩ | ⟨mean, chance, hmean, hchance, -⟩ := hproper.mean_cases
  · have hsummary := Distribution.summary_of_mean_error hmean expr.render
    have hfailed := analysis_of_summary_error hodds hexpr hpicture hsummary
    have hends : Ends plotter source state .analyze words .unlimited _ := .analyzed rfl rfl hparse
    exact absurd (hends.outcome_eq.trans hfailed) hlarge
  · obtain ⟨text, hsummary⟩ : ∃ text, summary expr.render odds = .ok text :=
      ⟨_, summary_eq_ok_iff.2 ⟨mean, chance, hmean, hchance, hfits, rfl⟩⟩
    obtain ⟨shown, hends, htext⟩ :=
      exists_ends_of_summary hparse hodds hexpr hpicture hsummary source state
    exact ⟨text, ⟨expr, _, hparse, Expr.render?_of_fits hexpr, hsummary⟩,
      sends_iff.2 ⟨_, hends, htext⟩⟩

/-- A summary that is sent belongs to the odds of the expression, whatever distribution it was
compared with. -/
theorem analyzed_of_sends (hasks : Asks message .analyze expression)
    (hwords : expressionText words = expression) {odds : Distribution} {text : Text}
    (hsummary : SummaryUnder expression odds text)
    (hsends : Sends plotter source state .analyze words text) :
    ¬ TooLarge plotter source state words ∧
      ∃ found, Answers source state message (.analyzed found) ∧
        SummaryUnder expression found text ∧
        found.start = odds.start ∧ found.size = odds.size := by
  subst hwords
  obtain ⟨expr, label, hparse, hlabel, hsummary⟩ := hsummary
  obtain ⟨_, rfl⟩ := Expr.render?_eq_some_iff.1 hlabel
  obtain ⟨message, hends, rfl⟩ := exists_result_of_sends hsends (head?_summary hsummary)
  obtain ⟨other, hother, hanalysis⟩ := hends.exists_analyzed
  obtain rfl := Except.ok.inj (hparse.symm.trans hother)
  obtain ⟨found, picture, text, -, hodds, -, -, -, hfound, rfl⟩ := analysis_eq_ok_iff.1 hanalysis
  have hproper := Expr.proper_of_parse hparse hodds
  obtain ⟨_, _, -, -, hfits, -⟩ := summary_eq_ok_iff.1 hfound
  have hanswered : (Reply.analyzed found).Fits :=
    (summaryFits_iff_fits_analyzed hproper hfits.2.1).1 hfits
  refine ⟨?_, found, (answers_analyzed_iff hasks).2 ⟨expr, hparse, hodds, hanswered⟩,
    ⟨expr, _, hparse, hlabel, hfound⟩, range_eq_of_summary hfound hsummary⟩
  rw [TooLarge, hends.outcome_eq]
  exact nofun

/-! ### Faults -/

theorem answers_faulty_iff (hasks : Asks message command expression) {fault : Fault} :
    Answers source state message (.faulty command fault) ↔
      Expr.parse expression = .error (.fault fault) ∧ Text.Fits fault.index := by
  have hfits : (Reply.faulty command fault).Fits ↔ Text.Fits fault.index :=
    List.forall_mem_singleton
  rw [answers_iff, hfits]
  constructor
  · rintro ⟨_ | ⟨hother, hparse⟩ | _ | _, hindex⟩
    obtain ⟨-, rfl⟩ := hasks.unique hother
    exact ⟨hparse, hindex⟩
  · rintro ⟨hparse, hindex⟩
    exact ⟨.faulty hasks hparse, hindex⟩

theorem faulty_iff_sends (hasks : Asks message command expression)
    (hwords : expressionText words = expression) (hlegible : Legible command expression)
    (fault : Fault) :
    Answers source state message (.faulty command fault) ↔
      Sends plotter source state command.inChat words
        (.ofString "Error in input: " ++ fault.message) := by
  subst hwords
  rw [answers_faulty_iff hasks]
  constructor
  · rintro ⟨hparse, -⟩
    exact sends_iff.2 ⟨_, .faulty rfl hparse, rfl⟩
  · intro hsends
    have hparse := parse_of_sends_fault hsends
    exact ⟨hparse, hlegible.fault fault hparse⟩

/-! ### Agreement -/

/-- If the plotter does its work and what is told can be written, a request and its chat command
make the same calls and agree on rolls and on faults.  Odds that are answered are summed up in the
chat, and a summary there is that of the odds that are answered, which have the range that it
tells. -/
theorem front_ends_agree (hasks : Asks message command expression)
    (hwords : expressionText words = expression) (hframes : plotter.MakesFrames)
    (hpictures : plotter.MakesPictures) (hlegible : Legible command expression)
    (source : Source σ) (state : σ) :
    ((respond message).run source state).calls =
        ((work plotter command.inChat words .unlimited).run source state).calls ∧
      (command = .calculate → ∀ result,
        Answers source state message (.rolled result) ↔
          ∃ expr, Expr.parse expression = .ok expr ∧
            Sends plotter source state .roll words (.ofString "**Input:** " ++ expr.render ++
              .ofString "\n**Result:** " ++ .ofInt result)) ∧
      (command = .analyze → ∀ odds,
        (Answers source state message (.analyzed odds) → ¬ TooLarge plotter source state words →
          ∃ text, SummaryUnder expression odds text ∧
            Sends plotter source state .analyze words text) ∧
        ∀ text, SummaryUnder expression odds text →
          Sends plotter source state .analyze words text →
            ¬ TooLarge plotter source state words ∧
              ∃ found, Answers source state message (.analyzed found) ∧
                SummaryUnder expression found text ∧
                found.start = odds.start ∧ found.size = odds.size) ∧
      ∀ fault, Answers source state message (.faulty command fault) ↔
        Sends plotter source state command.inChat words
          (.ofString "Error in input: " ++ fault.message) := by
  refine ⟨calls_eq hasks hwords plotter, ?_, ?_, faulty_iff_sends hasks hwords hlegible⟩
  · rintro rfl result
    exact rolled_iff_sends hasks hwords hlegible result
  · rintro rfl odds
    exact ⟨sends_of_analyzed hasks hwords hframes hpictures hlegible,
      fun text => analyzed_of_sends hasks hwords⟩

/-! ### Two distributions with one summary -/

def twoDice : Expr :=
  .binary .mul (.number 2) (.die { faces := 3 })

def twoDiceOdds : Distribution :=
  ⟨2, [1, 2, 3, 2, 1], List.cons_ne_nil _ _⟩

/-- Other weights with the range, the mode, the greatest weight, the total weight and the mean of
the odds of two dice. -/
def twoDiceRival : Distribution :=
  ⟨2, [2, 1, 3, 1, 2], List.cons_ne_nil _ _⟩

theorem parse_twoDice : Expr.parse (.ofString "2 d3") = .ok twoDice := by
  decide

theorem odds_twoDice : twoDice.odds = .ok twoDiceOdds := by
  decide

theorem legible_twoDice : Legible .analyze (.ofString "2 d3") where
  fault fault hparse := by cases parse_twoDice.symm.trans hparse
  numerals expr hparse := by
    obtain rfl := Except.ok.inj (parse_twoDice.symm.trans hparse)
    unfold Expr.Fits
    decide
  maximum expr odds _ hparse hodds := by
    obtain rfl := Except.ok.inj (parse_twoDice.symm.trans hparse)
    obtain rfl := Except.ok.inj (odds_twoDice.symm.trans hodds)
    decide

theorem exists_summary_twoDice :
    ∃ text, summary twoDice.render twoDiceOdds = .ok text := by
  have hok : (summary twoDice.render twoDiceOdds).isOk = true := by
    decide +kernel
  cases hsummary : summary twoDice.render twoDiceOdds with
  | ok text => exact ⟨text, rfl⟩
  | error error =>
      rw [hsummary] at hok
      cases hok

theorem summary_twoDiceRival (label : Text) :
    summary label twoDiceOdds = summary label twoDiceRival := by
  apply summary_congr <;> decide

theorem answers_twoDice (source : Source σ) (state : σ) :
    Answers source state (written .analyze (.ofString "2 d3")) (.analyzed twoDiceOdds) := by
  have hfits : (Reply.analyzed twoDiceOdds).Fits := by
    unfold Reply.Fits
    decide
  exact (answers_analyzed_iff (asks_written .analyze (Text.joined_ofString "2 d3"))).2
    ⟨twoDice, parse_twoDice, odds_twoDice, hfits⟩

theorem not_tooLarge_twoDice (source : Source σ) (state : σ) :
    ¬ TooLarge Plotter.bare source state [.ofString "2", .ofString "d3"] := by
  obtain ⟨text, hsummary⟩ := exists_summary_twoDice
  obtain ⟨picture, hpicture⟩ := exists_plot (Expr.proper_of_parse parse_twoDice odds_twoDice)
    Plotter.bare_makesFrames Plotter.bare_makesPictures twoDice.render
  have hparse : Expr.parse (expressionText [.ofString "2", .ofString "d3"]) = .ok twoDice :=
    parse_twoDice
  obtain ⟨message, hends, -⟩ := exists_ends_of_summary hparse odds_twoDice
    (legible_twoDice.numerals _ parse_twoDice) hpicture hsummary source state
  rw [TooLarge, hends.outcome_eq]
  exact nofun

theorem front_ends_agree_twoDice :
    Asks (written .analyze (.ofString "2 d3")) .analyze (.ofString "2 d3") ∧
      expressionText [.ofString "2", .ofString "d3"] = .ofString "2 d3" ∧
      Plotter.bare.MakesFrames ∧ Plotter.bare.MakesPictures ∧
      Legible .analyze (.ofString "2 d3") ∧
      ∃ text, SummaryUnder (.ofString "2 d3") twoDiceOdds text ∧
        Sends Plotter.bare Source.scripted [] .analyze [.ofString "2", .ofString "d3"] text := by
  have hasks := asks_written .analyze (Text.joined_ofString "2 d3")
  have hwords : expressionText [.ofString "2", .ofString "d3"] = .ofString "2 d3" := rfl
  obtain ⟨-, -, hodds, -⟩ := front_ends_agree hasks hwords Plotter.bare_makesFrames
    Plotter.bare_makesPictures legible_twoDice Source.scripted []
  exact ⟨hasks, hwords, Plotter.bare_makesFrames, Plotter.bare_makesPictures, legible_twoDice,
    (hodds rfl twoDiceOdds).1 (answers_twoDice _ _) (not_tooLarge_twoDice _ _)⟩

/-- The chat sends the summary of weights that no request answers. -/
theorem rival_summary_sent_not_answered :
    Asks (written .analyze (.ofString "2 d3")) .analyze (.ofString "2 d3") ∧
      expressionText [.ofString "2", .ofString "d3"] = .ofString "2 d3" ∧
      ¬ (Answers Source.scripted [] (written .analyze (.ofString "2 d3"))
            (.analyzed twoDiceRival) ∧
          ¬ TooLarge Plotter.bare Source.scripted [] [.ofString "2", .ofString "d3"] ↔
        ∃ text, SummaryUnder (.ofString "2 d3") twoDiceRival text ∧
          Sends Plotter.bare Source.scripted [] .analyze [.ofString "2", .ofString "d3"]
            text) := by
  have hasks := asks_written .analyze (Text.joined_ofString "2 d3")
  have hwords : expressionText [.ofString "2", .ofString "d3"] = .ofString "2 d3" := rfl
  have hanswers := answers_twoDice Source.scripted []
  have hlarge := not_tooLarge_twoDice Source.scripted []
  obtain ⟨text, ⟨expr, label, hparse, hlabel, hsummary⟩, hsends⟩ := sends_of_analyzed hasks hwords
    Plotter.bare_makesFrames Plotter.bare_makesPictures legible_twoDice hanswers hlarge
  refine ⟨hasks, hwords, fun hagree => ?_⟩
  rw [summary_twoDiceRival] at hsummary
  obtain ⟨hrival, -⟩ := hagree.2 ⟨text, ⟨expr, label, hparse, hlabel, hsummary⟩, hsends⟩
  obtain ⟨found, hfound, hodds, -⟩ := (answers_analyzed_iff hasks).1 hrival
  obtain rfl := Except.ok.inj (parse_twoDice.symm.trans hfound)
  cases odds_twoDice.symm.trans hodds

end Request

end DiceOdds
