import DiceOdds.Startup
import Mathlib.Data.List.Induction

/-!
# Settings over many starts

The settings in force are never reset, yet a key that has a default never keeps a value from an
earlier document, because every document comes with all of the defaults.  A key without a default
keeps its value until some document names it again.  A start without a document changes nothing.
The log, in contrast, is never changed again once it is set up.
-/

namespace DiceOdds.Host

variable {Key Value : Type} (host : Host Key Value)

/-- What is held by those documents that are there. -/
def given (documents : List (Option Text)) : List (Table Key Value) :=
  documents.filterMap (Option.map host.decode)

theorem given_concat_none (documents : List (Option Text)) :
    host.given (documents ++ [none]) = host.given documents := by
  rw [given, List.filterMap_append]
  exact List.append_nil _

theorem given_concat_some (documents : List (Option Text)) (document : Text) :
    host.given (documents ++ [some document]) = host.given documents ++ [host.decode document] :=
  List.filterMap_append

variable [DecidableEq Key] (log : Log Value) (settings : Table Key Value)

/-- The log and the settings that the starts with these documents leave. -/
def stateAfter (documents : List (Option Text)) : Log Value × Table Key Value :=
  ((host.reports log settings documents).getLast?.map fun report =>
    (report.log, report.settings)).getD (log, settings)

def logAfter (documents : List (Option Text)) : Log Value :=
  (host.stateAfter log settings documents).1

def settingsAfter (documents : List (Option Text)) : Table Key Value :=
  (host.stateAfter log settings documents).2

/-! ### One start -/

theorem settings_startWith : (host.startWith log settings).settings = settings := by
  rw [startWith]
  split
  · rfl
  · split
    · rfl
    · split <;> rfl

theorem get?_settings_start (document : Text) (key : Key) :
    (host.start log settings (some document)).settings.get? key =
      ((host.decode document).get? key).or ((host.defaults.get? key).or (settings.get? key)) := by
  have hstart : host.start log settings (some document) =
      host.startWith log (settings.update (host.defaults.update (host.decode document))) := rfl
  rw [hstart, settings_startWith, Table.get?_update, Table.get?_update, Option.or_assoc]

/-- A log that is set up stays as it is. -/
theorem log_start_of_isSetUp {log : Log Value} (hlog : log.isSetUp = true)
    (document : Option Text) : (host.start log settings document).log = log := by
  cases document with
  | none => rfl
  | some document =>
      have hsetUp (chosen : Value) : host.setUp log chosen = (.ok (), log) := if_pos hlog
      have hstart : host.start log settings (some document) =
          host.startWith log (settings.update (host.defaults.update (host.decode document))) := rfl
      rw [hstart, startWith]
      split
      · rfl
      · simp only [hsetUp]
        split <;> rfl

/-! ### Many starts -/

theorem stateAfter_cons (document : Option Text) (documents : List (Option Text)) :
    host.stateAfter log settings (document :: documents) =
      host.stateAfter (host.start log settings document).log
        (host.start log settings document).settings documents := by
  rw [stateAfter, reports, List.getLast?_cons, stateAfter]
  cases (host.reports (host.start log settings document).log
    (host.start log settings document).settings documents).getLast? <;> rfl

theorem reports_append (earlier later : List (Option Text)) :
    host.reports log settings (earlier ++ later) =
      host.reports log settings earlier ++
        host.reports (host.logAfter log settings earlier)
          (host.settingsAfter log settings earlier) later := by
  induction earlier generalizing log settings with
  | nil => rfl
  | cons document earlier ih =>
      rw [logAfter, settingsAfter, stateAfter_cons]
      exact congrArg (host.start log settings document :: ·) (ih _ _)

theorem length_reports (documents : List (Option Text)) :
    (host.reports log settings documents).length = documents.length := by
  induction documents generalizing log settings with
  | nil => rfl
  | cons document documents ih => exact congrArg (· + 1) (ih _ _)

theorem stateAfter_concat (documents : List (Option Text)) (document : Option Text) :
    host.stateAfter log settings (documents ++ [document]) =
      ((host.start (host.logAfter log settings documents)
          (host.settingsAfter log settings documents) document).log,
        (host.start (host.logAfter log settings documents)
          (host.settingsAfter log settings documents) document).settings) := by
  rw [stateAfter, reports_append, reports, List.getLast?_append]
  rfl

theorem settingsAfter_concat_none (documents : List (Option Text)) :
    host.settingsAfter log settings (documents ++ [none]) =
      host.settingsAfter log settings documents := by
  rw [settingsAfter, stateAfter_concat]
  rfl

theorem get?_settingsAfter_concat_some (documents : List (Option Text)) (document : Text)
    (key : Key) :
    (host.settingsAfter log settings (documents ++ [some document])).get? key =
      ((host.decode document).get? key).or
        ((host.defaults.get? key).or ((host.settingsAfter log settings documents).get? key)) := by
  rw [settingsAfter, stateAfter_concat]
  exact host.get?_settings_start _ _ document key

theorem getElem?_reports (earlier : List (Option Text)) (document : Option Text)
    (later : List (Option Text)) :
    (host.reports log settings (earlier ++ document :: later))[earlier.length]? =
      some (host.start (host.logAfter log settings earlier)
        (host.settingsAfter log settings earlier) document) := by
  have hlength := length_reports host log settings earlier
  rw [reports_append, List.getElem?_append_right (Nat.le_of_eq hlength), hlength, Nat.sub_self,
    reports, List.getElem?_cons_zero]

/-- A key with a default has what the latest document gives it, or else the default. -/
theorem get?_settingsAfter_of_default {key : Key} {standard : Value}
    (hdefault : host.defaults.get? key = some standard) (documents : List (Option Text)) :
    (host.settingsAfter log .empty documents).get? key =
      (host.given documents).getLast?.map fun latest => (latest.get? key).getD standard := by
  induction documents using List.reverseRecOn with
  | nil => rfl
  | append_singleton documents document ih =>
      cases document with
      | none =>
          rw [given_concat_none, settingsAfter_concat_none]
          exact ih
      | some document =>
          rw [given_concat_some, List.getLast?_concat, get?_settingsAfter_concat_some, hdefault,
            Option.map_some]
          cases (host.decode document).get? key <;> rfl

/-- A key without a default has what the latest document that names it gives it. -/
theorem get?_settingsAfter_of_no_default {key : Key} (hdefault : host.defaults.get? key = none)
    (documents : List (Option Text)) :
    (host.settingsAfter log .empty documents).get? key =
      ((host.given documents).filterMap (·.get? key)).getLast? := by
  induction documents using List.reverseRecOn with
  | nil => rfl
  | append_singleton documents document ih =>
      cases document with
      | none =>
          rw [given_concat_none, settingsAfter_concat_none]
          exact ih
      | some document =>
          rw [given_concat_some, List.filterMap_append, List.getLast?_append, ← ih,
            get?_settingsAfter_concat_some, hdefault, Option.none_or, List.filterMap_cons]
          cases (host.decode document).get? key <;> rfl

theorem settingsAfter_of_no_document {documents : List (Option Text)}
    (hnone : ∀ document ∈ documents, document = none) :
    host.settingsAfter log settings documents = settings := by
  induction documents using List.reverseRecOn with
  | nil => rfl
  | append_singleton documents document ih =>
      obtain ⟨hrest, rfl⟩ : (∀ document ∈ documents, document = none) ∧ document = none :=
        ⟨fun other hmem => hnone other (List.mem_append_left _ hmem),
          hnone document List.mem_concat_self⟩
      rw [settingsAfter_concat_none]
      exact ih hrest

/-- Once the log is set up, no later start changes it. -/
theorem logAfter_of_isSetUp {log : Log Value} (hlog : log.isSetUp = true)
    (documents : List (Option Text)) : host.logAfter log settings documents = log := by
  induction documents using List.reverseRecOn with
  | nil => rfl
  | append_singleton documents document ih =>
      rw [logAfter, stateAfter_concat, ih]
      exact host.log_start_of_isSetUp _ hlog document

/-- After any starts, a key with a default has what the latest document gives it, or else its
default, and any other key has what the latest document that names it gives it.  A start without a
document returns 1, starts no client and leaves the settings as they were.  Without any document
there are no settings. -/
theorem settings_after_starts {Key Value : Type} [DecidableEq Key] (host : Host Key Value)
    (log : Log Value) (documents : List (Option Text)) :
    (∀ key standard, host.defaults.get? key = some standard →
      (host.settingsAfter log .empty documents).get? key =
        (host.given documents).getLast?.map fun latest => (latest.get? key).getD standard) ∧
    (∀ key, host.defaults.get? key = none →
      (host.settingsAfter log .empty documents).get? key =
        ((host.given documents).filterMap (·.get? key)).getLast?) ∧
    (∀ earlier later, documents = earlier ++ none :: later →
      ∃ report, (host.reports log .empty documents)[earlier.length]? = some report ∧
        report.outcome.status? = some 1 ∧ (∀ token, report.outcome ≠ .started token) ∧
        report.settings = host.settingsAfter log .empty earlier) ∧
    ((∀ document ∈ documents, document = none) →
      host.settingsAfter log .empty documents = .empty) := by
  refine ⟨fun key standard hdefault => ?_, fun key hdefault => ?_, ?_, fun hnone => ?_⟩
  · exact host.get?_settingsAfter_of_default log hdefault documents
  · exact host.get?_settingsAfter_of_no_default log hdefault documents
  · rintro earlier later rfl
    exact ⟨_, host.getElem?_reports log .empty earlier none later, rfl, nofun, rfl⟩
  · exact host.settingsAfter_of_no_document log .empty hnone

theorem defaults_host : Startup.host.defaults =
    ⟨[(.ofString "log_level", .text (.ofString "INFO")), (.ofString "timeout", .integer 10),
      (.ofString "prefix", .text (.ofString "!")), (.ofString "token", .text [])]⟩ := by
  decide +kernel

def forgottenPrefix : List (Option Text) :=
  [some (.ofString "prefix: $\ncolour: red"), none, some (.ofString "timeout: 5"), none]

/-- The prefix of the first document is gone, although the second does not name it.  Its colour,
which has no default, is still there. -/
theorem settings_after_forgottenPrefix :
    Startup.host.defaults.get? (.ofString "prefix") = some (.text (.ofString "!")) ∧
      Startup.host.defaults.get? (.ofString "colour") = none ∧
      (Startup.host.settingsAfter Startup.log .empty forgottenPrefix).get? (.ofString "prefix") =
        some (.text (.ofString "!")) ∧
      (Startup.host.settingsAfter Startup.log .empty forgottenPrefix).get? (.ofString "colour") =
        some (.text (.ofString "red")) := by
  have hgiven : Startup.host.given forgottenPrefix =
      [⟨[(.ofString "colour", .text (.ofString "red")),
          (.ofString "prefix", .text (.ofString "$"))]⟩,
        ⟨[(.ofString "timeout", .integer 5)]⟩] := by
    decide +kernel
  have hmark : Startup.host.defaults.get? (.ofString "prefix") =
      some (.text (.ofString "!")) := by
    rw [defaults_host]
    decide
  have hcolour : Startup.host.defaults.get? (.ofString "colour") = none := by
    rw [defaults_host]
    decide
  obtain ⟨hdefault, hother, -, -⟩ := settings_after_starts Startup.host Startup.log forgottenPrefix
  rw [hgiven] at hdefault hother
  exact ⟨hmark, hcolour, (hdefault _ _ hmark).trans (by decide),
    (hother _ hcolour).trans (by decide)⟩

end DiceOdds.Host
