import DiceOdds.Main
import DiceOdds.Request
import DiceOdds.Proofs.Grammar
import DiceOdds.Proofs.Grammar.Assembly
import DiceOdds.Proofs.Grammar.Explicit
import DiceOdds.Proofs.Grammar.Parse
import DiceOdds.Proofs.Grammar.Balance
import DiceOdds.Proofs.Grammar.Refusal
import DiceOdds.Proofs.Scan
import DiceOdds.Proofs.Scan.Faults
import DiceOdds.Proofs.Render
import DiceOdds.Proofs.Law
import DiceOdds.Proofs.Law.Order
import DiceOdds.Proofs.Law.Top
import DiceOdds.Proofs.Law.Proportion
import DiceOdds.Proofs.Rolling
import DiceOdds.Proofs.Rolling.Transcript
import DiceOdds.Proofs.Distribution.Law
import DiceOdds.Proofs.Distribution.Pool
import DiceOdds.Proofs.Distribution.Proper
import DiceOdds.Proofs.Distribution.Ends
import DiceOdds.Proofs.Distribution.Pairs
import DiceOdds.Proofs.Distribution.Difference
import DiceOdds.Proofs.Distribution.Algebra
import DiceOdds.Proofs.Distribution.Mixture
import DiceOdds.Proofs.Text
import DiceOdds.Proofs.Agreement
import DiceOdds.Proofs.Counts
import DiceOdds.Proofs.Chances
import DiceOdds.Proofs.Exactness
import DiceOdds.Proofs.Accepted
import DiceOdds.Proofs.Json.Strings
import DiceOdds.Proofs.Json.Numbers
import DiceOdds.Proofs.Draws
import DiceOdds.Proofs.Json.Ascii
import DiceOdds.Proofs.Json.RoundTrip
import DiceOdds.Proofs.Request
import DiceOdds.Proofs.Chat
import DiceOdds.Proofs.Fault
import DiceOdds.Proofs.FrontEnds
import DiceOdds.Proofs.Blame
import DiceOdds.Proofs.Grammar.Projection
import DiceOdds.Proofs.Binary64
import DiceOdds.Proofs.Summary.Overflow
import DiceOdds.Proofs.Law.EqualDice
import DiceOdds.Proofs.EqualDice
import DiceOdds.Proofs.Scan.Munch
import DiceOdds.Proofs.Reindex
import DiceOdds.Proofs.Scan.Join
import DiceOdds.Proofs.Scan.Spelling
import DiceOdds.Proofs.Respelling
import DiceOdds.Proofs.Grammar.Viable
import DiceOdds.Proofs.Render.Brackets
import DiceOdds.Proofs.Grammar.LookAhead
import DiceOdds.Proofs.Startup
