import ApiSchema.LogFormat
import ApiSchema.Proofs.Binding.TableCalls
import ApiSchema.Proofs.Checking.AmbientState
import ApiSchema.Proofs.Checking.FrozenTypes
import ApiSchema.Proofs.Checking.InternalErrors
import ApiSchema.Proofs.Checking.MergedNamespaces
import ApiSchema.Proofs.Checking.Naming
import ApiSchema.Proofs.Checking.Termination
import ApiSchema.Proofs.Checking.UsingStatements
import ApiSchema.Proofs.Config.RoundTrip
import ApiSchema.Proofs.Decorating.FirstFailure
import ApiSchema.Proofs.Diagnostic.Sorting
import ApiSchema.Proofs.Diagnostic.Templates
import ApiSchema.Proofs.Hygiene.DecoratedTypes
import ApiSchema.Proofs.Memoization.Literals
import ApiSchema.Proofs.Models.BaseCycles
import ApiSchema.Proofs.Models.CompleteCopies
import ApiSchema.Proofs.Models.Intersections
import ApiSchema.Proofs.Models.FlatUnions
