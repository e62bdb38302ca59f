import CellReview.Text.Line
import CellReview.Digest.Sha256
import CellReview.Number.Shortest
import CellReview.Json.Text
import CellReview.Json.Reader
import CellReview.Json.Tagged
import CellReview.Diff.Alignment
import CellReview.Diff.Unified
import CellReview.Diff.Patch
import CellReview.Chat.Conversation
import CellReview.Chat.Fence
import CellReview.Chat.Prompt
import CellReview.Settings.Config
import CellReview.Storage.Disk
import CellReview.Toml.Document
import CellReview.Settings.Layers
import CellReview.Observe.Event
import CellReview.Review.Host
import CellReview.Review.Notebook
import CellReview.Completion.Client
import CellReview.Completion.Script
import CellReview.Observe.Observer
import CellReview.Report.Trouble
import CellReview.Review.Bench
import CellReview.Console.Arguments
import CellReview.Console.Input
import CellReview.Console.Dialogue
import CellReview.Console.Program
import CellReview.Main
import CellReview.Proofs.Review.Effects
import CellReview.Proofs.Review.History
import CellReview.Proofs.Review.LastRequest
import CellReview.Proofs.Review.Chain
import CellReview.Proofs.Chat.Turns
import CellReview.Proofs.Review.Landing
import CellReview.Proofs.Diff.Subsequence
import CellReview.Proofs.Diff.Table
import CellReview.Proofs.Diff.Listing
import CellReview.Proofs.Diff.Minimal
import CellReview.Proofs.Diff.Earliest
import CellReview.Proofs.Review.Display
import CellReview.Proofs.Review.Stripes
import CellReview.Proofs.Chat.Fence
import CellReview.Chat.Change
import CellReview.Proofs.Chat.Addresses
import CellReview.Proofs.Digest.Fingerprint
import CellReview.Proofs.Review.Acceptance
import CellReview.Proofs.Review.Prompts
import CellReview.Review.Online
import CellReview.Proofs.Text.Blank
import CellReview.Proofs.Completion.Answers
import CellReview.Proofs.Review.Commands
import CellReview.Proofs.Review.Failures
import CellReview.Proofs.Review.Replay
import CellReview.Proofs.Settings.Layers
import CellReview.Proofs.Review.Openness
import CellReview.Proofs.Review.Exclusive
import CellReview.Proofs.Number.Decimal
import CellReview.Proofs.Json.Written
import CellReview.Proofs.Review.Survives
import CellReview.Proofs.Console.Output
import CellReview.Proofs.Storage.Tree
import CellReview.Proofs.Storage.Walk
import CellReview.Proofs.Console.CellFile
import CellReview.Proofs.Console.Course
import CellReview.Proofs.Console.Restored
import CellReview.Proofs.Review.Disposed
import CellReview.Proofs.Json.Reread
import CellReview.Proofs.Json.Typed
import CellReview.Proofs.Time.Calendar
import CellReview.Proofs.Time.Instant
import CellReview.Proofs.Observe.SessionId
import CellReview.Proofs.Observe.Log
import CellReview.Proofs.Settings.Masked
import CellReview.Proofs.Console.Hidden
import CellReview.Proofs.Review.Recut
import CellReview.Proofs.Review.Editing
import CellReview.Proofs.Json.Legible
import CellReview.Proofs.Json.Indented
import CellReview.Proofs.Storage.Made
import CellReview.Proofs.Settings.Saved
import CellReview.Proofs.Console.Left
import CellReview.Proofs.Diff.Stripped
import CellReview.Proofs.Text.Words
import CellReview.Proofs.Text.ByteOrder
import CellReview.Proofs.Review.Keymap
import CellReview.Proofs.Console.Grammar
import CellReview.Proofs.Number.Bounds
import CellReview.Proofs.Number.Shortest
import CellReview.Proofs.Json.Single
import CellReview.Proofs.Json.Wide
import CellReview.Proofs.Settings.Reload
import CellReview.Proofs.Diff.Guarded
import CellReview.Proofs.Settings.Paths
import CellReview.Proofs.Console.Logged
