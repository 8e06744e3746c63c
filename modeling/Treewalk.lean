import Treewalk.Main
import Treewalk.Syntax.Agreement
import Treewalk.Proofs.Grammar.Result
import Treewalk.Proofs.Grammar.Rules
import Treewalk.Proofs.Grammar.Frame
import Treewalk.Proofs.Grammar.Induction
import Treewalk.Proofs.Grammar.Derivation
import Treewalk.Proofs.Grammar.Soundness
import Treewalk.Proofs.Grammar.ExpressionSoundness
import Treewalk.Proofs.Grammar.StatementSoundness
import Treewalk.Proofs.Grammar.ExpressionCompleteness
import Treewalk.Proofs.Grammar.StatementCompleteness
import Treewalk.Proofs.Grammar.Acceptance
import Treewalk.Proofs.Source.Shape
import Treewalk.Proofs.Source.Cut
import Treewalk.Proofs.Source.Splitting
import Treewalk.Proofs.Source.Scanning
import Treewalk.Proofs.Evaluation.Semantics
import Treewalk.Proofs.Evaluation.Fuel
import Treewalk.Proofs.Evaluation.Frame
import Treewalk.Proofs.Evaluation.Primitives
import Treewalk.Proofs.Evaluation.Completeness
import Treewalk.Proofs.Evaluation.Adequacy
import Treewalk.Proofs.Grammar.Renumbering
import Treewalk.Proofs.Evaluation.Likeness
import Treewalk.Proofs.Evaluation.Simulation
import Treewalk.Proofs.Source.Seam
import Treewalk.Proofs.Evaluation.Sequence
import Treewalk.Proofs.Session.Loading
import Treewalk.Proofs.Session.Joining
import Treewalk.Proofs.Evaluation.Bindings
import Treewalk.Proofs.Evaluation.Comparison
import Treewalk.Proofs.Evaluation.Twins
import Treewalk.Proofs.Evaluation.Fragment
import Treewalk.Proofs.Evaluation.Isolation
import Treewalk.Proofs.Evaluation.Store
import Treewalk.Proofs.Evaluation.Linked
import Treewalk.Proofs.Evaluation.Refinement
import Treewalk.Proofs.Evaluation.Separation
import Treewalk.Proofs.Evaluation.Extent
import Treewalk.Proofs.Grammar.Branches
import Treewalk.Proofs.Session.History
import Treewalk.Proofs.Syntax.Sites
import Treewalk.Proofs.Evaluation.Visits
import Treewalk.Proofs.Session.Lexical
import Treewalk.Proofs.Evaluation.Guard
import Treewalk.Proofs.Evaluation.Termination
import Treewalk.Proofs.Session.Restoration
import Treewalk.Proofs.Session.LoopFree
import Treewalk.Proofs.Grammar.Walk
import Treewalk.Proofs.Grammar.Tracking
import Treewalk.Proofs.Grammar.ExpressionTracking
import Treewalk.Proofs.Grammar.StatementTracking
import Treewalk.Proofs.Grammar.Totality
import Treewalk.Proofs.Syntax.Height
import Treewalk.Proofs.Grammar.Levels
import Treewalk.Proofs.Evaluation.Depth
import Treewalk.Proofs.Session.Towers
import Treewalk.Proofs.Session.Depth
import Treewalk.Proofs.Session.Twins
import Treewalk.Proofs.Session.Refusal
import Treewalk.Proofs.Session.Prompting
import Treewalk.Proofs.Session.Unheard
import Treewalk.Proofs.Evaluation.Failures
import Treewalk.Proofs.Evaluation.Bounded
import Treewalk.Proofs.Session.Truncation
import Treewalk.Proofs.Grammar.Correspondence
import Treewalk.Proofs.Grammar.Parallel
import Treewalk.Proofs.Syntax.Spelled
import Treewalk.Proofs.Grammar.Spelling
import Treewalk.Proofs.Syntax.Proper
import Treewalk.Proofs.Evaluation.Origins
import Treewalk.Proofs.Session.Proper
import Treewalk.Proofs.Source.Layout
import Treewalk.Proofs.Grammar.Alike
import Treewalk.Proofs.Session.Layout
import Treewalk.Proofs.Grammar.Locality
import Treewalk.Proofs.Grammar.Recovery
import Treewalk.Proofs.Grammar.Segments
import Treewalk.Proofs.Evaluation.Transparency
import Treewalk.Proofs.Grammar.Loops
import Treewalk.Proofs.Evaluation.Loops
import Treewalk.Proofs.Grammar.Unended
import Treewalk.Proofs.Session.Diagnostics
import Treewalk.Proofs.Source.LastLine
import Treewalk.Proofs.Session.LastLine
import Treewalk.Proofs.Number.Size
import Treewalk.Proofs.Number.Rounding
import Treewalk.Proofs.Number.Nearest
import Treewalk.Proofs.Number.Shortest
import Treewalk.Proofs.Syntax.Agreement
import Treewalk.Proofs.Source.Numerals
import Treewalk.Proofs.Source.Printing
import Treewalk.Proofs.Syntax.Outline
import Treewalk.Proofs.Syntax.Marked
import Treewalk.Proofs.Syntax.Decoding
import Treewalk.Proofs.Session.Legibility
import Treewalk.Proofs.Evaluation.Chains
import Treewalk.Proofs.Grammar.Trace
import Treewalk.Proofs.Grammar.Nesting
