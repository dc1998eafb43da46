import Lowering.CommandLine.Machine
import Lowering.Main
import Lowering.Proofs.Reruns
import Lowering.Proofs.Definitions
import Lowering.Proofs.SessionAnswers
import Lowering.Proofs.LooseForms
import Lowering.Proofs.TreeForms
import Lowering.Proofs.ProgramForms
import Lowering.Proofs.Extensions
import Lowering.Proofs.Sites
import Lowering.Proofs.Representations
import Lowering.Proofs.StatementLayout
import Lowering.Proofs.BreakingPoints
import Lowering.Proofs.FileScope
import Lowering.Proofs.Grouping
import Lowering.Proofs.Counters
import Lowering.Proofs.CurrentObject
import Lowering.Proofs.BareCreations
import Lowering.Proofs.OwnerIndex
import Lowering.Proofs.CompilerCommands
import Lowering.Proofs.Disks
import Lowering.Proofs.CommandLineRuns
import Lowering.Proofs.ExecutablePaths
import Lowering.Proofs.BuildSources
import Lowering.Proofs.TruncatedPrograms
