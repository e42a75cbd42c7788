import ClientGen.Main
import ClientGen.Proofs.Change.Operations
import ClientGen.Proofs.TypeScript.TypesFile
import ClientGen.Proofs.Schema.Declared
import ClientGen.Proofs.Project.Check
import ClientGen.Proofs.Files.Growth
import ClientGen.Proofs.Change.Types
import ClientGen.Proofs.Project.LineEnds
import ClientGen.Proofs.TypeScript.ExportedFunctions
import ClientGen.Proofs.TypeScript.Nesting
import ClientGen.Proofs.TypeScript.FunctionsFile
import ClientGen.Proofs.Api.ClosedGroups
import ClientGen.Proofs.Api.Conversion
import ClientGen.Proofs.Api.Dangling
import ClientGen.Proofs.Project.Removed
import ClientGen.Proofs.Project.Again
import ClientGen.Proofs.Schema.Meaning
import ClientGen.Proofs.Api.Filing
import ClientGen.Proofs.TypeScript.Enclosure
import ClientGen.Proofs.Api.Parameters
import ClientGen.Proofs.Project.Extent
import ClientGen.Proofs.Project.Ownership
import ClientGen.Proofs.Project.AliasHistory
import ClientGen.Proofs.Api.ExportedNames
import ClientGen.Proofs.Change.Enumerations
import ClientGen.Proofs.TypeScript.PropertyNames
import ClientGen.Proofs.Project.Outside
import ClientGen.Proofs.Schema.Outline
import ClientGen.Proofs.Api.SharedNames
import ClientGen.Proofs.Api.ImportedNames
import ClientGen.Proofs.TypeScript.Template
import ClientGen.Proofs.Api.BoundNames
import ClientGen.Proofs.Api.Lookups
import ClientGen.Proofs.Schema.Exclusion
import ClientGen.Proofs.Api.NamedEnvelopes
import ClientGen.Proofs.Api.Trimmed
import ClientGen.Proofs.Project.Halfway
import ClientGen.Proofs.Naming.Prefixes
import ClientGen.Proofs.Naming.ParameterSyntax
import ClientGen.Proofs.TypeScript.MemberLayout
import ClientGen.Proofs.Project.InitialSettings
import ClientGen.Proofs.TypeScript.Formatting
import ClientGen.Proofs.TypeScript.Brackets
import ClientGen.Proofs.TypeScript.LiteralUnions
