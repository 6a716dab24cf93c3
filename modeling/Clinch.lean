import Clinch.Rust
import Clinch.SumTree.Model
import Clinch.SumTree.Shape
import Clinch.SumTree.Cursor
import Clinch.SumTree.Capacity
import Clinch.SumTree.Built
import Clinch.BiMap
import Clinch.Grid.DisplayedOutput
import Clinch.Grid.RowTranslation
import Clinch.BTreeMap
import Clinch.FlatStorage.Index
import Clinch.FlatStorage.Layout
import Clinch.FlatStorage.Lookup
import Clinch.Utf8
import Clinch.Grid.Cell
import Clinch.Grid.Row
import Clinch.FlatStorage.AttributeMap
import Clinch.FlatStorage.Content
import Clinch.FlatStorage.Storage
import Clinch.FlatStorage.RowIterator
import Clinch.FlatStorage.CellType
import Clinch.FlatStorage.Written
import Clinch.FlatStorage.Kept
import Clinch.FlatStorage.Paired
import Clinch.FlatStorage.Agreement
import Clinch.HashMap
import Clinch.Whitespace
import Clinch.RemoteControl.Pairing
import Clinch.RemoteControl.Effect
import Clinch.RemoteControl.Run
import Clinch.RemoteControl.Sound
import Clinch.SumTree.Position
import Clinch.SumTree.Skip
import Clinch.SumTree.Move
import Clinch.SumTree.Seek
import Clinch.SumTree.Exact
import Clinch.SumTree.Filter
import Clinch.SumTree.Slices
import Clinch.BatchUpdate
import Clinch.SumTree.Edit
import Clinch.BufferText.Point
import Clinch.BufferText.Summary
import Clinch.BufferText.Text
import Clinch.BufferText.Chars
import Clinch.BufferText.Locate
import Clinch.BufferText.Queries
import Clinch.BufferText.Slices
import Clinch.BigEndian
import Clinch.RemoteControl.BinaryFrame
import Clinch.RemoteControl.Client
import Clinch.RemoteControl.OneSocket
import Clinch.RemoteControl.Protocol
import Clinch.RemoteControl.WorkspaceAdapter
import Clinch.RemoteControl.Envelope
import Clinch.RemoteControl.Outcome
import Clinch.RemoteControl.Leases
import Clinch.RemoteControl.Frame
import Clinch.RemoteControl.Topology
import Clinch.RemoteControl.Revision
import Clinch.RemoteControl.Sessions
import Clinch.RemoteControl.Upload
import Clinch.RemoteControl.Connection
import Clinch.RemoteControl.UploadSafe
import Clinch.RemoteControl.Retry
import Clinch.SyncQueue.Item
import Clinch.SyncQueue.Queue
import Clinch.SyncQueue.Cascade
import Clinch.SyncQueue.Dequeue
import Clinch.SyncQueue.Enqueue
import Clinch.SyncQueue.Answer
import Clinch.SyncQueue.Run
import Clinch.SyncQueue.Loading
import Clinch.SyncQueue.Delivery
import Clinch.SyncQueue.Progress
import Clinch.SyncQueue.Waiting
import Clinch.SyncQueue.Alive
import Clinch.PaneGroup.Tree
import Clinch.PaneGroup.Leaves
import Clinch.PaneGroup.Run
import Clinch.PaneGroup.Neighbours
import Clinch.PaneGroup.Layout
import Clinch.FileTree.Store
import Clinch.FileTree.Tree
import Clinch.FileTree.Remove
import Clinch.FileTree.Rename
import Clinch.FileTree.InsertEntry
import Clinch.FileTree.Run
import Clinch.FileTree.Mutations
import Clinch.FileTree.Mirror
import Clinch.Merkle.Node
import Clinch.Merkle.Canonical
import Clinch.Merkle.Create
import Clinch.Merkle.Lens
import Clinch.Merkle.Update
import Clinch.Merkle.Outcome
import Clinch.Merkle.Batch
import Clinch.MultiMap
import Clinch.Merkle.Metadata
import Clinch.Merkle.Placed
import Clinch.Merkle.Tracked
import Clinch.Merkle.Snapshot
import Clinch.Merkle.Index
import Clinch.Contiguous
import Clinch.TabGrouping.Workspace
import Clinch.TabGrouping.Selection
import Clinch.TabGrouping.WellFormed
import Clinch.TabGrouping.Menu
import Clinch.AgentRestore.Queue
import Clinch.AgentRestore.Change
import Clinch.AgentRestore.Invariant
import Clinch.AgentRestore.Run
import Clinch.AutoContinue.Pane
import Clinch.AutoContinue.Model
import Clinch.AutoContinue.Invariant
import Clinch.AutoContinue.Methods
import Clinch.AutoContinue.Run
import Clinch.Lines
import Clinch.DiffValidation.Match
import Clinch.DiffValidation.V4A
import Clinch.StableSort
import Clinch.RemoteControl.Registry
import Clinch.RemoteControl.Reconnect
import Clinch.Intervals
import Clinch.Editor.OverlappingRanges
import Clinch.Editor.SelectionModel
import Clinch.Brackets
import Clinch.Vim.MatchingBracket
import Clinch.Vim.Block
import Clinch.AutoCoordinate.Run
import Clinch.SimpleParser.ReadBack
import Clinch.AgentResume.Rewrite
import Clinch.ByteText
import Clinch.Chunker.Fragment
import Clinch.Chunker.Chunk
import Clinch.FlatStorage.ContentRun
import Clinch.FlatStorage.AttributeRun
import Clinch.Editor.FragmentId
import Clinch.Along
import Clinch.UndoClose.Stack
import Clinch.UndoClose.Run
import Clinch.Varint
import Clinch.RemoteServer.RequestId
import Clinch.RemoteServer.Protocol
import Clinch.RangeSearch
import Clinch.TableMap.Cell
import Clinch.TableMap.Table
import Clinch.FieldMask.Reflect
import Clinch.FieldMask.Apply
import Clinch.FieldMask.Path
import Clinch.FieldMask.Mask
import Clinch.Content.Text
import Clinch.Content.Cursor
import Clinch.Content.Slices
import Clinch.Grid.Finish
import Clinch.Grid.Transcript
