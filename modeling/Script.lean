import Script.Main
import Script.Proofs.Console.Entering
import Script.Proofs.Diagnostic.Pointing
import Script.Proofs.Evaluation.Privacy
import Script.Proofs.Session.Idling
import Script.Proofs.Session.InternalErrors
import Script.Proofs.Session.Layout
import Script.Proofs.Session.Locating
import Script.Proofs.Console.Waiting
import Script.Proofs.Console.Numbering
import Script.Proofs.Grammar.Joining
import Script.Proofs.Token.Joining
import Script.Proofs.Session.Printing
import Script.Proofs.Session.Joining
import Script.Proofs.Session.History
import Script.Proofs.Program.Files
import Script.Proofs.Evaluation.Counting
import Script.Proofs.Grammar.Balance
import Script.Proofs.Text.Retyping
import Script.Proofs.Token.Retyping
import Script.Proofs.Console.Typing
import Script.Proofs.Grammar.Ending
import Script.Proofs.Grammar.Recovery
import Script.Proofs.Token.Trimming
import Script.Proofs.Console.Releasing
import Script.Proofs.Diagnostic.Below
import Script.Proofs.Token.Separating
import Script.Proofs.Token.Literals
import Script.Proofs.Token.Mending
import Script.Proofs.Token.Culprits
import Script.Proofs.Diagnostic.Blaming
import Script.Proofs.Diagnostic.Guarding
import Script.Proofs.Number.Exact
import Script.Proofs.Number.Reading
import Script.Proofs.Session.Rendering
import Script.Proofs.Evaluation.Resolving
import Script.Proofs.Session.Returning
import Script.Proofs.Number.Rounding
import Script.Proofs.Number.Words
import Script.Proofs.Token.Numerals
import Script.Proofs.Session.Passing
