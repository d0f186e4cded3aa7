import Scriptlet.Main
import Scriptlet.Program.Render
import Scriptlet.Proofs.Grammar.Reply
import Scriptlet.Proofs.Lexeme
import Scriptlet.Proofs.Numeral
import Scriptlet.Proofs.Grammar.Derivation
import Scriptlet.Proofs.Grammar.Soundness
import Scriptlet.Proofs.Grammar.Completeness
import Scriptlet.Proofs.Grammar.Acceptance
import Scriptlet.Proofs.Source
import Scriptlet.Proofs.Source.Lines
import Scriptlet.Proofs.Grammar.Depth
import Scriptlet.Proofs.Evaluation
import Scriptlet.Proofs.Grammar.Lines
import Scriptlet.Proofs.Session
import Scriptlet.Proofs.Evaluation.CallLimit
import Scriptlet.Proofs.Heap
import Scriptlet.Proofs.Evaluation.Events
import Scriptlet.Proofs.Evaluation.Resolution
import Scriptlet.Proofs.Evaluation.Names
import Scriptlet.Proofs.Source.Spelling
import Scriptlet.Proofs.Grammar.WellFormed
import Scriptlet.Proofs.Grammar.Neighbours
import Scriptlet.Proofs.Program.Render
import Scriptlet.Proofs.Grammar.Locality
import Scriptlet.Proofs.Grammar.Expectation
import Scriptlet.Proofs.Source.Partition
import Scriptlet.Proofs.Source.Fault
import Scriptlet.Proofs.Evaluation.Recursion
import Scriptlet.Proofs.Evaluation.Termination
import Scriptlet.Proofs.Heap.Chain
import Scriptlet.Proofs.Heap.Assignment
import Scriptlet.Proofs.Program.Nesting
import Scriptlet.Proofs.Evaluation.Provenance
import Scriptlet.Proofs.Evaluation.Nesting
import Scriptlet.Proofs.Source.LineFeed
import Scriptlet.Proofs.Grammar.Readers
import Scriptlet.Proofs.Grammar.Refusal
import Scriptlet.Proofs.Transcript
import Scriptlet.Proofs.Program.Renaming
import Scriptlet.Proofs.Heap.Renaming
import Scriptlet.Proofs.Evaluation.Renaming
import Scriptlet.Proofs.Evaluation.Interference
import Scriptlet.Proofs.Evaluation.Parameter
import Scriptlet.Proofs.Grammar.Cutoff
import Scriptlet.Proofs.Grammar.BlankLines
import Scriptlet.Proofs.Notation
import Scriptlet.Proofs.Lexeme.Numeral
import Scriptlet.Proofs.Source.Spaced
import Scriptlet.Proofs.Number.Binary64
import Scriptlet.Proofs.Grammar.Literals
import Scriptlet.Proofs.Evaluation.Causes
import Scriptlet.Proofs.Evaluation.OpenCalls
import Scriptlet.Proofs.Grammar.Descent.Balance
import Scriptlet.Proofs.Grammar.Descent.Progress
import Scriptlet.Proofs.Source.Progress
import Scriptlet.Proofs.Session.Numbers
import Scriptlet.Proofs.Evaluation.Blocks
import Scriptlet.Proofs.Evaluation.Reach
