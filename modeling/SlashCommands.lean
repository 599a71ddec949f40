import SlashCommands.Access
import SlashCommands.Argument
import SlashCommands.ArgumentType
import SlashCommands.Builder
import SlashCommands.Check
import SlashCommands.Cli
import SlashCommands.Data.SortedMap
import SlashCommands.Delivery
import SlashCommands.Demo
import SlashCommands.Demo.Replay
import SlashCommands.Document
import SlashCommands.Document.File
import SlashCommands.Document.Toml
import SlashCommands.Document.Toml.Quoted
import SlashCommands.Document.Toml.Scalar
import SlashCommands.Document.Toml.Table
import SlashCommands.Document.Yaml
import SlashCommands.Document.Yaml.Block
import SlashCommands.Document.Yaml.Flow
import SlashCommands.Document.Yaml.Glyph
import SlashCommands.Document.Yaml.Meaning
import SlashCommands.Document.Yaml.Token
import SlashCommands.Documentation
import SlashCommands.Draft
import SlashCommands.Exchange
import SlashCommands.Failure
import SlashCommands.Fault
import SlashCommands.Grammar.Bounds
import SlashCommands.Grammar.Declaration
import SlashCommands.Grammar.Token
import SlashCommands.Invocation
import SlashCommands.Invocation.Wire
import SlashCommands.Json
import SlashCommands.Json.Kind
import SlashCommands.Json.Printer
import SlashCommands.Json.Reader
import SlashCommands.Literal
import SlashCommands.Log
import SlashCommands.Machine
import SlashCommands.Main
import SlashCommands.Numeric.Binary64
import SlashCommands.Numeric.Decimal
import SlashCommands.Numeric.Shortest
import SlashCommands.Path
import SlashCommands.Payload
import SlashCommands.Payload.Wire
import SlashCommands.Platform.ChannelKind
import SlashCommands.Platform.Locale
import SlashCommands.Platform.OptionKind
import SlashCommands.Platform.Permission
import SlashCommands.Program
import SlashCommands.Reference
import SlashCommands.Registry
import SlashCommands.Registry.Registrar
import SlashCommands.Registry.Sync
import SlashCommands.Requirement
import SlashCommands.Router
import SlashCommands.Routes
import SlashCommands.Script
import SlashCommands.Scripted
import SlashCommands.Session
import SlashCommands.Settings
import SlashCommands.Spec
import SlashCommands.Text.Blank
import SlashCommands.Text.CodePoints
import SlashCommands.Text.EditDistance
import SlashCommands.Text.LetterCase
import SlashCommands.Text.Letters
import SlashCommands.Text.Printable
import SlashCommands.Text.Quoted
import SlashCommands.Tree
import SlashCommands.Proofs.Checked
import SlashCommands.Proofs.SoundTree
import SlashCommands.Proofs.SortedEntries
import SlashCommands.Proofs.DraftEdits
import SlashCommands.Proofs.Declared
import SlashCommands.Proofs.SoundDraft
import SlashCommands.Proofs.SoundWording
import SlashCommands.Proofs.SealedCommand
import SlashCommands.Proofs.RegistryIndex
import SlashCommands.Proofs.Placement
import SlashCommands.Proofs.Startup
import SlashCommands.Proofs.Registration
import SlashCommands.Proofs.Gates
import SlashCommands.Proofs.Rejections
import SlashCommands.Proofs.TokenGrammar
import SlashCommands.Proofs.ReplyJoin
import SlashCommands.Proofs.SharedExchange
import SlashCommands.Proofs.Effort
import SlashCommands.Proofs.Reachable
import SlashCommands.Proofs.SoundMachine
import SlashCommands.Proofs.HandlerRun
import SlashCommands.Proofs.FailureNotice
import SlashCommands.Proofs.PendingEvents
import SlashCommands.Proofs.PromptHandler
import SlashCommands.Proofs.DismissedEvents
import SlashCommands.Proofs.AcceptedInvocation
import SlashCommands.Proofs.NearestDouble
import SlashCommands.Proofs.NumeralText
import SlashCommands.Proofs.BoundScan
import SlashCommands.Proofs.BoundText
import SlashCommands.Proofs.ChoiceText
import SlashCommands.Proofs.BracketText
import SlashCommands.Proofs.ArgumentText
import SlashCommands.Proofs.DeclarationText
import SlashCommands.Proofs.SyncPlan
import SlashCommands.Proofs.SyncReport
import SlashCommands.Proofs.SingleAddition
import SlashCommands.Proofs.TreeArguments
import SlashCommands.Proofs.TypedLiterals
import SlashCommands.Proofs.PayloadShape
import SlashCommands.Proofs.PayloadFaithful
import SlashCommands.Proofs.JsonRecord
import SlashCommands.Proofs.PayloadRoundTrip
import SlashCommands.Proofs.BuilderRun
import SlashCommands.Proofs.FirstFault
import SlashCommands.Proofs.CollectedParts
import SlashCommands.Proofs.DocumentationOrder
import SlashCommands.Proofs.RouteSeats
import SlashCommands.Proofs.RoutedEntry
import SlashCommands.Proofs.HandlerRouting
import SlashCommands.Proofs.RegistryHistory
import SlashCommands.Proofs.Interleaving
import SlashCommands.Proofs.AloneRun
import SlashCommands.Proofs.Foretold
import SlashCommands.Proofs.TimedCourse
import SlashCommands.Proofs.DeliveryStages
import SlashCommands.Proofs.Listening
import SlashCommands.Proofs.BoundOrder
import SlashCommands.Proofs.ReferenceWords
import SlashCommands.Proofs.ReachableDraft
import SlashCommands.Proofs.DeclaredEntities
import SlashCommands.Proofs.TreeViews
import SlashCommands.Proofs.AnnotationWords
import SlashCommands.Proofs.TypedReferences
import SlashCommands.Proofs.ScanAppend
import SlashCommands.Proofs.TermScan
import SlashCommands.Proofs.TightestBounds
import SlashCommands.Proofs.TermArguments
import SlashCommands.Proofs.SpellableArguments
import SlashCommands.Proofs.WordPlaces
import SlashCommands.Proofs.TreeShape
import SlashCommands.Proofs.PiecewiseDeclaration
import SlashCommands.Proofs.RewordedTree
import SlashCommands.Proofs.DocumentedCommand
import SlashCommands.Proofs.GuildReferences
import SlashCommands.Proofs.CallbackSlots
import SlashCommands.Proofs.CallbackOrder
import SlashCommands.Proofs.CompletionAnswers
import SlashCommands.Proofs.NoticeClock
import SlashCommands.Proofs.HandlerTimeline
import SlashCommands.Proofs.TimedHandler
import SlashCommands.Proofs.TimeLimit
import SlashCommands.Proofs.PermissionNames
import SlashCommands.Proofs.InvocationRoundTrip
import SlashCommands.Proofs.RequiredPermissions
import SlashCommands.Proofs.FailedCheck
import SlashCommands.Proofs.EditLookups
import SlashCommands.Proofs.SealingFaults
import SlashCommands.Proofs.KeptArguments
import SlashCommands.Proofs.TypedChoices
