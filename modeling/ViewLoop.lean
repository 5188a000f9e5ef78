import ViewLoop.Identity
import ViewLoop.Node
import ViewLoop.Text.Quoted
import ViewLoop.Decimal.Shortest
import ViewLoop.Value
import ViewLoop.Response
import ViewLoop.Document
import ViewLoop.Markup
import ViewLoop.Snapshot
import ViewLoop.Patch
import ViewLoop.Alignment
import ViewLoop.Difference
import ViewLoop.Command
import ViewLoop.Effect
import ViewLoop.Mailbox
import ViewLoop.Registry
import ViewLoop.Url.Percent
import ViewLoop.Url.Punycode
import ViewLoop.Url.DomainName
import ViewLoop.Url.Basic
import ViewLoop.Url.Parse
import ViewLoop.Surface.Arena
import ViewLoop.Surface
import ViewLoop.Settings
import ViewLoop.Warning
import ViewLoop.Delivery
import ViewLoop.LoopError
import ViewLoop.Scene
import ViewLoop.Program
import ViewLoop.Session.Basic
import ViewLoop.Session.Cycle
import ViewLoop.Session.Loop
import ViewLoop.Apps.Pages
import ViewLoop.Apps.SignIn
import ViewLoop.Main
import ViewLoop.Proofs.Subtrees
import ViewLoop.Proofs.Context
import ViewLoop.Proofs.Likeness
import ViewLoop.Proofs.Editing
import ViewLoop.Proofs.Labels
import ViewLoop.Proofs.Records
import ViewLoop.Proofs.ArenaTree
import ViewLoop.Proofs.Shown
import ViewLoop.Proofs.SurfaceEdit
import ViewLoop.Proofs.Reachable
import ViewLoop.Proofs.Marks
import ViewLoop.Proofs.Course
import ViewLoop.Proofs.Matching
import ViewLoop.Proofs.Retention
import ViewLoop.Proofs.Merging
import ViewLoop.Proofs.RemovalPasses
import ViewLoop.Proofs.ReplacementPass
import ViewLoop.Proofs.AttributePass
import ViewLoop.Proofs.UpdatePass
import ViewLoop.Proofs.RoundTrip
import ViewLoop.Proofs.HeadChanges
import ViewLoop.Proofs.AlignedAttributes
import ViewLoop.Proofs.Aligned
import ViewLoop.Proofs.HandlerTable
import ViewLoop.Proofs.SceneCourse
import ViewLoop.Proofs.Heeding
import ViewLoop.Proofs.Commands
import ViewLoop.Proofs.Rendering
import ViewLoop.Proofs.Bounds
import ViewLoop.Proofs.Ledger
import ViewLoop.Proofs.Running
import ViewLoop.Proofs.Events
import ViewLoop.Proofs.Instants
import ViewLoop.Proofs.Representation
import ViewLoop.Proofs.Operations
import ViewLoop.Proofs.Staying
import ViewLoop.Proofs.Carried
import ViewLoop.Proofs.Upheld
import ViewLoop.Proofs.WellFormedTrees
import ViewLoop.Proofs.Arising
import ViewLoop.Proofs.Recognition
import ViewLoop.Proofs.Agreement
import ViewLoop.Proofs.Roles
import ViewLoop.Proofs.History
import ViewLoop.Proofs.Surroundings
import ViewLoop.Proofs.Routine
import ViewLoop.Proofs.Traffic
import ViewLoop.Proofs.Quiescence
import ViewLoop.Proofs.Desertion
import ViewLoop.Proofs.FirstAttributes
import ViewLoop.Proofs.TrimmedTrees
import ViewLoop.Proofs.TrimmedDifference
import ViewLoop.Proofs.TrimmedCourse
import ViewLoop.Proofs.RepeatedAttributes
import ViewLoop.Proofs.ChildPatches
import ViewLoop.Proofs.Silence
import ViewLoop.Proofs.Rerendering
import ViewLoop.Proofs.Survival
import ViewLoop.Proofs.HeadOrder
import ViewLoop.Proofs.Sequencing
import ViewLoop.Proofs.Commitment
import ViewLoop.Proofs.Tokens
import ViewLoop.Proofs.HeadKeys
import ViewLoop.Proofs.Relabelling
import ViewLoop.Proofs.MarkupReading
import ViewLoop.Proofs.QuotedText
import ViewLoop.Proofs.SnapshotLines
import ViewLoop.Proofs.Faithfulness
import ViewLoop.Proofs.LiveAttributes
import ViewLoop.Proofs.Registration
