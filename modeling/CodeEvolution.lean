import CodeEvolution.Main
import CodeEvolution.Proofs.Alignment.RenamedVariable
import CodeEvolution.Proofs.Alignment.SelfAlignment
import CodeEvolution.Proofs.Alignment.Transposition
import CodeEvolution.Proofs.Body.Conservation
import CodeEvolution.Proofs.Body.TryTables
import CodeEvolution.Proofs.Delta.Mirror
import CodeEvolution.Proofs.Delta.StableChoice
import CodeEvolution.Proofs.Detection.Pool
import CodeEvolution.Proofs.Lowering.Commenting
import CodeEvolution.Proofs.Lowering.Formatting
import CodeEvolution.Proofs.Model.InitializerMembers
import CodeEvolution.Proofs.Model.LocalScoping
import CodeEvolution.Proofs.Model.Subtypes
import CodeEvolution.Proofs.Refactoring.ClassChanges
import CodeEvolution.Proofs.Refactoring.Parameters
import CodeEvolution.Proofs.Refactoring.RenamedOperation
import CodeEvolution.Proofs.Text.EditScripts
