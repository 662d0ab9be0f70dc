import ProtocolBindings.Bindings
import ProtocolBindings.Code.EmissionOrder
import ProtocolBindings.Code.Entry
import ProtocolBindings.Code.Fragment
import ProtocolBindings.Code.Listing
import ProtocolBindings.Code.Member
import ProtocolBindings.CommandLine
import ProtocolBindings.Distinct
import ProtocolBindings.Draft
import ProtocolBindings.Gap
import ProtocolBindings.Json.Numeral
import ProtocolBindings.Json.Printer
import ProtocolBindings.Json.Reader
import ProtocolBindings.Json.Record
import ProtocolBindings.Json.Shape
import ProtocolBindings.Json.Value
import ProtocolBindings.Main
import ProtocolBindings.Options
import ProtocolBindings.Path
import ProtocolBindings.Proofs.AccessorSurface
import ProtocolBindings.Proofs.Agreement
import ProtocolBindings.Proofs.AliasChains
import ProtocolBindings.Proofs.BlockComments
import ProtocolBindings.Proofs.Blocks
import ProtocolBindings.Proofs.Bookkeeping
import ProtocolBindings.Proofs.BuiltinNames
import ProtocolBindings.Proofs.ClassScopes
import ProtocolBindings.Proofs.ClassText
import ProtocolBindings.Proofs.Classifiable
import ProtocolBindings.Proofs.Classification
import ProtocolBindings.Proofs.CompleteBindings
import ProtocolBindings.Proofs.CompleteClasses
import ProtocolBindings.Proofs.Condensing
import ProtocolBindings.Proofs.Containment
import ProtocolBindings.Proofs.Conversions
import ProtocolBindings.Proofs.DeclarationOrder
import ProtocolBindings.Proofs.Declarations
import ProtocolBindings.Proofs.DeclaredBeforeUse
import ProtocolBindings.Proofs.Decoding
import ProtocolBindings.Proofs.Definitions
import ProtocolBindings.Proofs.Dependencies
import ProtocolBindings.Proofs.DependencyCycle
import ProtocolBindings.Proofs.Depictions
import ProtocolBindings.Proofs.Diagnoses
import ProtocolBindings.Proofs.Drafts
import ProtocolBindings.Proofs.EarlyFaults
import ProtocolBindings.Proofs.Emission
import ProtocolBindings.Proofs.EmissionOrder
import ProtocolBindings.Proofs.Extension
import ProtocolBindings.Proofs.Faults
import ProtocolBindings.Proofs.FirstFaults
import ProtocolBindings.Proofs.Flattening
import ProtocolBindings.Proofs.FragmentLines
import ProtocolBindings.Proofs.Indentation
import ProtocolBindings.Proofs.Inheritance
import ProtocolBindings.Proofs.InlineDefinitions
import ProtocolBindings.Proofs.JsonLiterals
import ProtocolBindings.Proofs.LateChecks
import ProtocolBindings.Proofs.LineComments
import ProtocolBindings.Proofs.ListingText
import ProtocolBindings.Proofs.MemberNames
import ProtocolBindings.Proofs.NamesUsed
import ProtocolBindings.Proofs.NestedNames
import ProtocolBindings.Proofs.NodeKeys
import ProtocolBindings.Proofs.NullMarkers
import ProtocolBindings.Proofs.Outlines
import ProtocolBindings.Proofs.Places
import ProtocolBindings.Proofs.Precedence
import ProtocolBindings.Proofs.Publication
import ProtocolBindings.Proofs.QuotedText
import ProtocolBindings.Proofs.Registration
import ProtocolBindings.Proofs.Rendering
import ProtocolBindings.Proofs.Representations
import ProtocolBindings.Proofs.Resolution
import ProtocolBindings.Proofs.RoundTrip
import ProtocolBindings.Proofs.Shapes
import ProtocolBindings.Proofs.SingleFile
import ProtocolBindings.Proofs.StandIns
import ProtocolBindings.Proofs.UnionDrafts
import ProtocolBindings.Proofs.UnionFaults
import ProtocolBindings.Proofs.Unwrapping
import ProtocolBindings.Proofs.Verification
import ProtocolBindings.Proofs.Walks
import ProtocolBindings.Proofs.WireStrings
import ProtocolBindings.Schema.Basic
import ProtocolBindings.Schema.Codec
import ProtocolBindings.Schema.Error
import ProtocolBindings.Schema.Inheritance
import ProtocolBindings.Schema.Verify
import ProtocolBindings.Synthesis.Alias
import ProtocolBindings.Synthesis.Enumeration
import ProtocolBindings.Synthesis.Structure
import ProtocolBindings.Synthesis.Union
import ProtocolBindings.Text.Blank
import ProtocolBindings.Text.CaseTable
import ProtocolBindings.Text.Casing
import ProtocolBindings.Text.Comment
import ProtocolBindings.Text.Identifier
import ProtocolBindings.Text.Lines
import ProtocolBindings.Text.Quoted
import ProtocolBindings.Types.CppType
import ProtocolBindings.Types.Expression
import ProtocolBindings.Types.ValueKind
import ProtocolBindings.Workspace.Command
import ProtocolBindings.Workspace.Disk
import ProtocolBindings.Workspace.FileTree
