import DiceOdds.Chat
import DiceOdds.Startup

/-!
# The program

Reads the settings document of the current directory and then answers the commands that are typed
in, one a line, until the input ends.  The terminal stands for the channel: it never fails to show a
message, and of an attachment it shows nothing, so its plotter is bare.
-/

namespace DiceOdds

def settingsFile : String :=
  "settings.yaml"

def readDocument : IO (Option Text) := do
  try
    return some (.ofString (← IO.FS.readFile settingsFile))
  catch _ =>
    return none

def answerLine (settings : Settings) (mark : Text) (line : String) : IO Unit := do
  match Chat.Command.ofLine? mark (.ofString line.trimAscii.toString) with
  | none => return
  | some (command, words) =>
    let seed ← IO.rand 0 (UInt64.size - 1)
    let limit := Startup.timeLimit settings none
    let play := (Chat.work .bare command [words] limit).run .congruential (.ofNat seed)
    let (_, channel) := Chat.report limit { failing := 0 } (Chat.outcome play)
    for message in channel.delivered do
      IO.println message.text.toString

partial def answerLines (settings : Settings) (mark : Text) (input : IO.FS.Stream) : IO Unit := do
  let line ← input.getLine
  unless line.isEmpty do
    answerLine settings mark line
    answerLines settings mark input

def run : IO UInt32 := do
  let document ← readDocument
  let report := Startup.start .empty document
  if document.isNone then
    IO.FS.writeFile settingsFile (Text.toString (Startup.load document).2)
  IO.print (Text.toString report.outcome.printed)
  match report.outcome with
  | .noDocument => return 1
  | .refusedLevel level =>
      if let .text name := level then
        IO.eprintln (Text.toString (Startup.unknownLevelMessage name))
      return 1
  | .lacking name =>
      IO.eprintln name
      return 1
  | .started _ =>
      if let .text mark := Startup.commandPrefix report.settings then
        answerLines report.settings mark (← IO.getStdin)
      return 0

end DiceOdds

def main : IO UInt32 :=
  DiceOdds.run
