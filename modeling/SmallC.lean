import SmallC.CommandLine.Workspace
import SmallC.Proofs.Interner
import SmallC.Main
import SmallC.Proofs.Lowering.Agreement
import SmallC.Proofs.Emission.Body
import SmallC.Proofs.Lowering.Unobserved
import SmallC.Proofs.Report
import SmallC.Proofs.Renaming
import SmallC.Proofs.Reordering
import SmallC.Proofs.Semantic.Consumed
import SmallC.Proofs.Semantic.Warnings
import SmallC.Proofs.Lowering.Additive
import SmallC.Proofs.Lowering.Written
import SmallC.Proofs.Emission.StackParameter
import SmallC.Proofs.Token.Lookahead
import SmallC.Proofs.Token.Respacing
import SmallC.Proofs.Lowering.Literal
import SmallC.Proofs.Emission.Comments
import SmallC.Proofs.Lowering.Size
import SmallC.Proofs.Parentheses
import SmallC.Proofs.Parse.Progress
import SmallC.Proofs.Lowering.Stack
import SmallC.Proofs.Semantic.Shared
