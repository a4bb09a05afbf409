import SourceLikeness.Main
import SourceLikeness.Proofs.Blocks.Survival
import SourceLikeness.Proofs.Boundary.Tokenizer
import SourceLikeness.Proofs.Braces.Braced
import SourceLikeness.Proofs.Braces.Symbols
import SourceLikeness.Proofs.Cases.Labels
import SourceLikeness.Proofs.Cases.Redaction
import SourceLikeness.Proofs.Checked.Tokenizer
import SourceLikeness.Proofs.Choice.Symbols
import SourceLikeness.Proofs.Comment.Inert
import SourceLikeness.Proofs.Config.Usable
import SourceLikeness.Proofs.Detector.SharedRuns
import SourceLikeness.Proofs.Expression.Joints
import SourceLikeness.Proofs.Expression.Steps
import SourceLikeness.Proofs.Expression.Symbols
import SourceLikeness.Proofs.Keywords.Tokenizer
import SourceLikeness.Proofs.Literal.Inert
import SourceLikeness.Proofs.Nesting.Markers
import SourceLikeness.Proofs.Ngram.Profile
import SourceLikeness.Proofs.Pattern.Retry
import SourceLikeness.Proofs.Renaming.Invariance
import SourceLikeness.Proofs.Silence.Basic
import SourceLikeness.Proofs.Silence.Directives
import SourceLikeness.Proofs.Tiling.Copy
import SourceLikeness.Proofs.Tiling.Progress
import SourceLikeness.Proofs.Tiling.Threshold
import SourceLikeness.Proofs.Tokenizer.Invariants
import SourceLikeness.Proofs.Tokenizer.Locate
import SourceLikeness.Proofs.Tree.Comments
import SourceLikeness.Proofs.Tree.Kept
import SourceLikeness.Proofs.Tree.Leaves
import SourceLikeness.Proofs.Tree.Policies
import SourceLikeness.Proofs.Tree.Related
import SourceLikeness.Proofs.Tree.Symmetry
import SourceLikeness.Proofs.WorkingCopy.Operation
