import DomTemplate.Main
import DomTemplate.Watch
import DomTemplate.Files.World
import DomTemplate.Proofs.Transparent
import DomTemplate.Proofs.Step
import DomTemplate.Proofs.Operations
import DomTemplate.Proofs.OnePass
import DomTemplate.Proofs.Dom
import DomTemplate.Proofs.Naming
import DomTemplate.Proofs.Rebuild
import DomTemplate.Proofs.Balance
import DomTemplate.Proofs.Cutting
import DomTemplate.Proofs.Rewriting
import DomTemplate.Proofs.TagLead
import DomTemplate.Proofs.Marks
import DomTemplate.Proofs.References
import DomTemplate.Proofs.Tokens
import DomTemplate.Proofs.Reading
import DomTemplate.Proofs.Failures
import DomTemplate.Proofs.Translation
import DomTemplate.Proofs.Shape
import DomTemplate.Proofs.ElementRefs
import DomTemplate.Proofs.Replacement
import DomTemplate.Proofs.Literals
import DomTemplate.Proofs.Occurrence
import DomTemplate.Proofs.ScriptText
import DomTemplate.Proofs.ScriptPage
import DomTemplate.Proofs.ScriptEnd
import DomTemplate.Proofs.CommentOpener
import DomTemplate.Proofs.Printing
import DomTemplate.Proofs.PrintedTags
import DomTemplate.Proofs.RoundTrip
import DomTemplate.Proofs.Skeleton
import DomTemplate.Proofs.TokenEnds
import DomTemplate.Proofs.RawBraces
import DomTemplate.Proofs.Pieces
import DomTemplate.Proofs.Places
import DomTemplate.Proofs.CodeOrder
import DomTemplate.Proofs.Paths
import DomTemplate.Proofs.FileTrees
import DomTemplate.Proofs.GeneratedFiles
import DomTemplate.Proofs.Discovered
import DomTemplate.Proofs.WriteAll
import DomTemplate.Proofs.Following
import DomTemplate.Proofs.Replacing
import DomTemplate.Proofs.Isolation
import DomTemplate.Proofs.Watching
import DomTemplate.Proofs.Layout
import DomTemplate.Proofs.MountId
import DomTemplate.Proofs.SameProgram
import DomTemplate.Proofs.AttributeLists
import DomTemplate.Proofs.Accumulating
import DomTemplate.Proofs.TextPolicies
import DomTemplate.Proofs.TagStates
import DomTemplate.Proofs.DynamicTags
import DomTemplate.Proofs.Blanks
import DomTemplate.Proofs.TextRuns
import DomTemplate.Proofs.Padding
import DomTemplate.Proofs.Segments
import DomTemplate.Proofs.Reserved
import DomTemplate.Proofs.KeptText
import DomTemplate.Proofs.AttributeKinds
import DomTemplate.Proofs.ReferenceNames
import DomTemplate.Proofs.QuotedTexts
import DomTemplate.Proofs.Dumps
import DomTemplate.Proofs.ErrorPlaces
import DomTemplate.Proofs.Carets
import DomTemplate.Proofs.Patterns
import DomTemplate.Proofs.NestedCode
import DomTemplate.Proofs.OpenScopes
