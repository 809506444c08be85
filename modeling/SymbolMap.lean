import SymbolMap.Access
import SymbolMap.Descriptor.Basic
import SymbolMap.Descriptor.Reader
import SymbolMap.Descriptor.Renaming
import SymbolMap.Failure
import SymbolMap.Mappings.Basic
import SymbolMap.Mappings.Chaining
import SymbolMap.Mappings.DescriptorMove
import SymbolMap.Mappings.Index
import SymbolMap.Mappings.MappedClass
import SymbolMap.Mappings.Projection
import SymbolMap.Mappings.Reversal
import SymbolMap.Name
import SymbolMap.Naming.Basic
import SymbolMap.Naming.Checked
import SymbolMap.Program.Ancestry
import SymbolMap.Program.Basic
import SymbolMap.Program.Loop
import SymbolMap.Proofs.Descriptor.ClassNames
import SymbolMap.Proofs.Descriptor.Functor
import SymbolMap.Proofs.Descriptor.Grammar
import SymbolMap.Proofs.Descriptor.RoundTrip
import SymbolMap.Proofs.Descriptor.Shape
import SymbolMap.Proofs.Mappings.Chaining
import SymbolMap.Proofs.Mappings.DescriptorMove
import SymbolMap.Proofs.Mappings.Fitting
import SymbolMap.Proofs.Mappings.Identities
import SymbolMap.Proofs.Mappings.Indices
import SymbolMap.Proofs.Mappings.OrderedLocals
import SymbolMap.Proofs.Mappings.PairTables
import SymbolMap.Proofs.Mappings.Parts
import SymbolMap.Proofs.Mappings.Projection
import SymbolMap.Proofs.Mappings.Repetition
import SymbolMap.Proofs.Mappings.ReversedProjection
import SymbolMap.Proofs.Mappings.TransformedValidity
import SymbolMap.Proofs.Mappings.Validity
import SymbolMap.Proofs.Outcomes
import SymbolMap.Proofs.Program.Acyclic
import SymbolMap.Proofs.Program.Additions
import SymbolMap.Proofs.Program.Classes
import SymbolMap.Proofs.Program.FinishOrder
import SymbolMap.Proofs.Program.Merged
import SymbolMap.Proofs.Program.Renamed
import SymbolMap.Proofs.Program.StackSearch
import SymbolMap.Proofs.Program.ThereAndBack
import SymbolMap.Proofs.Renamer.BetweenNamespaces
import SymbolMap.Proofs.Renamer.Bijection
import SymbolMap.Proofs.Renamer.Building
import SymbolMap.Proofs.Renamer.Chained
import SymbolMap.Proofs.Renamer.FreeSearch
import SymbolMap.Proofs.Renamer.GivenNames
import SymbolMap.Proofs.Renamer.Inheritance
import SymbolMap.Proofs.Renamer.Inverse
import SymbolMap.Proofs.Renamer.LocalNames
import SymbolMap.Proofs.Renamer.MappedNames
import SymbolMap.Proofs.Renamer.MemberDescriptors
import SymbolMap.Proofs.Renamer.MemberTables
import SymbolMap.Proofs.Renamer.MostVisible
import SymbolMap.Proofs.Renamer.MovedMembers
import SymbolMap.Proofs.Renamer.OpenClasses
import SymbolMap.Proofs.Renamer.OwnMembers
import SymbolMap.Proofs.Renamer.ProjectedMembers
import SymbolMap.Proofs.Renamer.Readiness
import SymbolMap.Proofs.Renamer.Reduction
import SymbolMap.Proofs.Renamer.Registration
import SymbolMap.Proofs.Renamer.Reversal
import SymbolMap.Proofs.Renamer.Search
import SymbolMap.Proofs.Renamer.SearchDepth
import SymbolMap.Proofs.Renamer.SuperTypeOrder
import SymbolMap.Proofs.Renamer.TranslatedNames
import SymbolMap.Proofs.Renamer.Translation
import SymbolMap.Proofs.Renamer.TranslationBack
import SymbolMap.Proofs.Renamer.TranslationShape
import SymbolMap.Proofs.Renamer.TranslationsAgree
import SymbolMap.Proofs.Renamer.ValidNames
import SymbolMap.Renamer.Basic
import SymbolMap.Renamer.Building
import SymbolMap.Renamer.Candidates
import SymbolMap.Renamer.Description
import SymbolMap.Renamer.Programs
import SymbolMap.Renamer.Resolution
import SymbolMap.Renames
import SymbolMap.SortedList
import SymbolMap.Symbol.Basic
import SymbolMap.Symbol.Checked
import SymbolMap.Table
import SymbolMap.Text.Hidden
import SymbolMap.Text.Quoted
