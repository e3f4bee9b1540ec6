import DiceOdds.Chat.Limit
import DiceOdds.Settings.Document
import DiceOdds.Text.Quoted

/-!
# Starting up

The program reads its settings from a document each time it starts.  Without a document it writes
the default one, asks for it to be edited and stops.  With one, the entries of the document over the
defaults are added to the settings in force, which are kept from one start to the next.  The log is
set up by the first start that gets so far and stays as it is from then on.

How a document is read and which levels the log has is up to a `Host`.  The program has a host of
its own, whose documents hold one entry a line.
-/

namespace DiceOdds

def Settings.defaultDocument : Text :=
  ["# Discord bot token.",
    "token: \"\"",
    "# Prefix for bot commands.",
    "prefix: \"!\"",
    "# Seconds a single !roll or !analyze may take before it is abandoned.",
    "timeout: 10",
    "# One of DEBUG, INFO, WARNING, ERROR.",
    "log_level: INFO"].flatMap fun line => Text.ofString line ++ [.scalar '\n']

/-- What a start relies on. -/
structure Host (Key Value : Type) where
  /-- the settings that a document holds, none if it is empty -/
  decode : Text → Table Key Value
  /-- the key with this name -/
  key : String → Key
  /-- the level of the log that a value chooses, if it chooses one, or the value if it is refused -/
  level : Value → Except Value (Option Value)

namespace Host

variable {Key Value : Type} [DecidableEq Key]

def defaults (host : Host Key Value) : Table Key Value :=
  host.decode Settings.defaultDocument

/-- The settings that a document gives, and the document that is there afterwards. -/
def load (host : Host Key Value) : Option Text → Option (Table Key Value) × Text
  | none => (none, Settings.defaultDocument)
  | some document => (some (host.defaults.update (host.decode document)), document)

/-- The log of the process. -/
structure Log (Value : Type) where
  level : Value
  isSetUp : Bool := false
  deriving DecidableEq

/-- Sets up the log, unless it is set up already.  It counts as set up even if the level is
refused. -/
def setUp (host : Host Key Value) (log : Log Value) (chosen : Value) :
    Except Value Unit × Log Value :=
  if log.isSetUp then (.ok (), log)
  else
    match host.level chosen with
    | .error refused => (.error refused, { log with isSetUp := true })
    | .ok level => (.ok (), { level := level.getD log.level, isSetUp := true })

inductive Outcome (Value : Type)
  /-- there was no document -/
  | noDocument
  /-- the client was started with this token -/
  | started (token : Value)
  /-- the log has no such level -/
  | refusedLevel (level : Value)
  /-- the settings lack the key with this name -/
  | lacking (name : String)
  deriving DecidableEq

structure Report (Key Value : Type) where
  outcome : Outcome Value
  log : Log Value
  settings : Table Key Value

/-- Starts with these settings in force. -/
def startWith (host : Host Key Value) (log : Log Value) (settings : Table Key Value) :
    Report Key Value :=
  match settings.get? (host.key "log_level") with
  | none => { outcome := .lacking "log_level", log, settings }
  | some chosen =>
    match host.setUp log chosen with
    | (.error refused, log) => { outcome := .refusedLevel refused, log, settings }
    | (.ok (), log) =>
      match settings.get? (host.key "token") with
      | none => { outcome := .lacking "token", log, settings }
      | some token => { outcome := .started token, log, settings }

def start (host : Host Key Value) (log : Log Value) (settings : Table Key Value)
    (document : Option Text) : Report Key Value :=
  match (host.load document).1 with
  | none => { outcome := .noDocument, log, settings }
  | some loaded => host.startWith log (settings.update loaded)

/-- Starts once for each document, each time with the log and the settings that the last start
left. -/
def reports (host : Host Key Value) (log : Log Value) (settings : Table Key Value) :
    List (Option Text) → List (Report Key Value)
  | [] => []
  | document :: rest =>
    let report := host.start log settings document
    report :: host.reports report.log report.settings rest

/-- What is printed when the settings document is missing. -/
def notice : Text :=
  .ofString ("settings.yaml not detected! A default one has been provided. " ++
    "Please edit that file and re-run this program.\n")

def Outcome.printed : Outcome Value → Text
  | noDocument => notice
  | _ => []

/-- The exit status, unless the start failed. -/
def Outcome.status? : Outcome Value → Option Nat
  | noDocument => some 1
  | started _ => some 0
  | refusedLevel _ => none
  | lacking _ => none

end Host

namespace Startup

/-- The levels of the log that have a name. -/
def levels : List (Text × Int) :=
  [("CRITICAL", 50), ("FATAL", 50), ("ERROR", 40), ("WARN", 30), ("WARNING", 30), ("INFO", 20),
    ("DEBUG", 10), ("NOTSET", 0)].map fun (name, level) => (Text.ofString name, level)

/-- The level that a setting chooses.  Integers and truth values stand for themselves; a name that
no level has is refused. -/
def level : Settings.Value → Except Settings.Value (Option Settings.Value)
  | .text name =>
      match levels.lookup name with
      | some level => .ok (some (.integer level))
      | none => .error (.text name)
  | .nothing => .ok none
  | .decimal mantissa exponent => .error (.decimal mantissa exponent)
  | .integer level => .ok (some (.integer level))
  | .flag level => .ok (some (.flag level))

/-- The host of the program. -/
def host : Host Text Settings.Value where
  decode := Settings.ofDocument
  key := .ofString
  level := level

/-- The log before anything is set up. -/
def log : Host.Log Settings.Value where
  level := .integer 30

abbrev Report := Host.Report Text Settings.Value

def load (document : Option Text) : Option Settings × Text :=
  host.load document

/-- The first start of a process. -/
def start (settings : Settings) (document : Option Text) : Report :=
  host.start log settings document

def unknownLevelMessage (name : Text) : Text :=
  .ofString "Unknown level: " ++ name.quoted

/-- What introduces a command on the channel. -/
def commandPrefix (settings : Settings) : Settings.Value :=
  (settings.get? (.ofString "prefix")).getD (.text (.ofString "!"))

/-- The time that a command may take.  If it has a limit, the limit expires during the given wait or
not at all. -/
def timeLimit (settings : Settings) (expiry : Option Chat.Wait) : Chat.Limit :=
  match settings.get? (.ofString "timeout") with
  | none => .missing
  | some .nothing => .unlimited
  | some (.integer seconds) | some (.decimal seconds _) =>
      if seconds ≤ 0 then .spent else .lasting expiry
  | some (.flag seconds) => if seconds then .lasting expiry else .spent
  | some (.text _) => .invalid

end Startup

end DiceOdds
