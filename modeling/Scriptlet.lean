import Scriptlet.Main
import Scriptlet.Proofs.Grammar.FirstFault
import Scriptlet.Proofs.Lexeme.Rendering
import Scriptlet.Proofs.Lexeme.Tiling
import Scriptlet.Proofs.Run.Calls
import Scriptlet.Proofs.Run.Preservation
import Scriptlet.Proofs.Run.Refinement
import Scriptlet.Proofs.Run.Safety
import Scriptlet.Proofs.Run.Truncation
import Scriptlet.Proofs.Typing.Exact
import Scriptlet.Proofs.Lexeme.Lines
import Scriptlet.Proofs.Run.Idle
import Scriptlet.Proofs.Run.Unscoped
import Scriptlet.Proofs.Lexeme.LongestMatch
import Scriptlet.Proofs.Lexeme.ErrorLines
import Scriptlet.Proofs.Lexeme.Joining
import Scriptlet.Proofs.Grammar.Limit
import Scriptlet.Proofs.Run.Balance
import Scriptlet.Proofs.Run.Integers
import Scriptlet.Proofs.Run.Store
import Scriptlet.Proofs.Typing.Visits
import Scriptlet.Proofs.Typing.Additions
import Scriptlet.Proofs.Grammar.NodeLines
import Scriptlet.Proofs.Run.FaultLines
import Scriptlet.Proofs.Scope.Arena
import Scriptlet.Proofs.Lexeme.StringLiteral
import Scriptlet.Proofs.Grammar.Shape
