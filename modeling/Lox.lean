import Lox.Eval.Reported
import Lox.Main
import Lox.Proofs.Cells.Sessions
import Lox.Proofs.CommandLine.Trees
import Lox.Proofs.Cursor.Programs
import Lox.Proofs.Dynamic.Sessions
import Lox.Proofs.Forms.Trees
import Lox.Proofs.Frames.Forest
import Lox.Proofs.Grammar.Recovery
import Lox.Proofs.Halting.Sessions
import Lox.Proofs.Limit.Sessions
import Lox.Proofs.Lines.Sessions
import Lox.Proofs.Loops.Desugaring
import Lox.Proofs.Number.Rereading
import Lox.Proofs.Renaming.Sessions
import Lox.Proofs.Run.Returns
import Lox.Proofs.Scoping.Addresses
import Lox.Proofs.Session.Ledgers
import Lox.Proofs.Session.Position
