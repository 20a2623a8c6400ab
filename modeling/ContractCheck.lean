import ContractCheck.Main
import ContractCheck.Proofs.Table
import ContractCheck.Proofs.Lists
import ContractCheck.Proofs.Exceptions.Chains
import ContractCheck.Proofs.Hierarchy.Methods
import ContractCheck.Proofs.Exceptions.Calls
import ContractCheck.Proofs.Exceptions.Exploration
import ContractCheck.Proofs.Exceptions.Provenance
import ContractCheck.Proofs.Exceptions.Coverage
import ContractCheck.Proofs.Registry.Indexed
import ContractCheck.Proofs.Hierarchy.Ancestors
import ContractCheck.Proofs.Hierarchy.Resolution
import ContractCheck.Proofs.Hierarchy.Subtype
import ContractCheck.Proofs.Hierarchy.Transitivity
import ContractCheck.Proofs.Hierarchy.OwnMethods
import ContractCheck.Proofs.Hierarchy.Contracts
import ContractCheck.Proofs.Rules.Exceptions
import ContractCheck.Proofs.Exceptions.Names
import ContractCheck.Proofs.Session.Memory
import ContractCheck.Proofs.Session.Overrides
import ContractCheck.Proofs.Session.Substitution
import ContractCheck.Proofs.Session.Reports
import ContractCheck.Proofs.Hierarchy.NormalForm
import ContractCheck.Proofs.Registry.Order
import ContractCheck.Proofs.Hierarchy.Alike
import ContractCheck.Proofs.Rules.Alike
import ContractCheck.Proofs.Session.Agreement
import ContractCheck.Proofs.Session.Recall
import ContractCheck.Proofs.Session.Queries
import ContractCheck.Proofs.Session.Order
import ContractCheck.Proofs.Session.Keys
import ContractCheck.Proofs.Session.Transparency
import ContractCheck.Proofs.Session.Staleness
import ContractCheck.Proofs.Hierarchy.Lookup
import ContractCheck.Proofs.Exceptions.Contexts
import ContractCheck.Proofs.Registry.Runs
import ContractCheck.Proofs.Rules.Segregation
import ContractCheck.Proofs.Session.Attempts
import ContractCheck.Proofs.Session.FatInterfaces
import ContractCheck.Proofs.Text.Spacing
import ContractCheck.Proofs.TypeExpr.Nesting
import ContractCheck.Proofs.TypeExpr.RoundTrip
import ContractCheck.Proofs.Hierarchy.TraitCycles
import ContractCheck.Proofs.Session.TraitCycles
import ContractCheck.Proofs.Docblock
import ContractCheck.Proofs.Exceptions.Announcements
import ContractCheck.Proofs.Rules.Variance
import ContractCheck.Proofs.Session.Variance
import ContractCheck.Proofs.Hierarchy.Distance
import ContractCheck.Proofs.Hierarchy.NearestMethod
import ContractCheck.Proofs.Run.Scan
import ContractCheck.Proofs.Run.Stages
import ContractCheck.Proofs.Run.Counts
import ContractCheck.Proofs.Run.PlainNames
import ContractCheck.Proofs.Run.Verdicts
import ContractCheck.Proofs.Exceptions.NewObjects
import ContractCheck.Proofs.Exceptions.TraitScopes
import ContractCheck.Proofs.Files.Paths
import ContractCheck.Proofs.Files.Selection
import ContractCheck.Proofs.Rules.Repetition
import ContractCheck.Proofs.Text.Cutting
import ContractCheck.Proofs.Text.Keyword
import ContractCheck.Proofs.Text.Dedupe
import ContractCheck.Proofs.Text.Utf8
import ContractCheck.Proofs.Settings.Loading
import ContractCheck.Proofs.Docblock.Search
import ContractCheck.Proofs.Docblock.Lines
import ContractCheck.Proofs.Imports.Writing
import ContractCheck.Proofs.Imports.Entries
import ContractCheck.Proofs.Imports.Reading
import ContractCheck.Proofs.Imports.Kinds
import ContractCheck.Proofs.Syntax.Positions
import ContractCheck.Proofs.Syntax.Walk
import ContractCheck.Proofs.Syntax.Rows
import ContractCheck.Proofs.Syntax.Faults
import ContractCheck.Proofs.Declaration.Regions
import ContractCheck.Proofs.Declaration.Blocks
import ContractCheck.Proofs.Declaration.Classes
import ContractCheck.Proofs.Text.Breaks
import ContractCheck.Proofs.Session.LetterCase
import ContractCheck.Proofs.Rules.Stubs
