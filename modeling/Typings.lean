import Typings.Json.Writer
import Typings.Main
import Typings.Source.Build
import Typings.Proofs.Closed
import Typings.Proofs.VariableScope
import Typings.Proofs.ImplementedProperties
import Typings.Proofs.TypeArguments
import Typings.Proofs.TaggedUnions
import Typings.Proofs.PullCycles
import Typings.Proofs.Discriminants
import Typings.Proofs.DeclarationOrder
import Typings.Proofs.FinalOrder
import Typings.Proofs.MethodNames
import Typings.Proofs.AddressParameters
import Typings.Proofs.RevivalCalls
import Typings.Proofs.Emission.TypeReading
import Typings.Proofs.NameConflicts
import Typings.Proofs.ServiceGroups
import Typings.Proofs.AddedServices
import Typings.Proofs.EnumRepresentation
import Typings.Proofs.DateRepresentation
import Typings.Proofs.CommutingRewrites
import Typings.Proofs.RepeatedMapping
import Typings.Proofs.ResolverOrder
import Typings.Proofs.PathSegments
import Typings.Proofs.Emission.AddressTemplate
import Typings.Proofs.Emission.Blocks
import Typings.Proofs.UnnestedOptionals
