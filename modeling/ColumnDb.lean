import ColumnDb.Disk.Path
import ColumnDb.Disk.Basic
import ColumnDb.Bytes.LittleEndian
import ColumnDb.Float.Format
import ColumnDb.Value.Kind
import ColumnDb.Text.Utf8
import ColumnDb.Value.Basic
import ColumnDb.Slot.Error
import ColumnDb.Slot.Window
import ColumnDb.Slot.Basic
import ColumnDb.Slot.FreeChain
import ColumnDb.Slot.Allocator
import ColumnDb.Slot.BlockFile
import ColumnDb.Blob.File
import ColumnDb.Data.File
import ColumnDb.Blob.Text
import ColumnDb.Bytes.Hex
import ColumnDb.Tree.Basic
import ColumnDb.Tree.Shape
import ColumnDb.Order.Comparison
import ColumnDb.Tree.File
import ColumnDb.Schema.Column
import ColumnDb.Query.Condition
import ColumnDb.Text.Blank
import ColumnDb.Query.Parse
import ColumnDb.Collection.Error
import ColumnDb.Column.Store
import ColumnDb.Float.Shortest
import ColumnDb.Float.Text
import ColumnDb.Json.Basic
import ColumnDb.Json.Number
import ColumnDb.Json.Read
import ColumnDb.Json.Skip
import ColumnDb.Json.Schema
import ColumnDb.Collection.Metadata
import ColumnDb.Value.Convert
import ColumnDb.Config
import ColumnDb.Collection.Basic
import ColumnDb.Collection.Query
import ColumnDb.Cli
import ColumnDb.Collection.Declare
import ColumnDb.Collection.Write
import ColumnDb.Main
import ColumnDb.Slot.Inspect
import ColumnDb.Proofs.Disk
import ColumnDb.Proofs.Cell
import ColumnDb.Proofs.FreeChain
import ColumnDb.Proofs.Allocator
import ColumnDb.Proofs.BlockFile
import ColumnDb.Proofs.IdTree
import ColumnDb.Proofs.TreeHeap
import ColumnDb.Proofs.TreeRep
import ColumnDb.Proofs.TreeEdit
import ColumnDb.Proofs.TreeFlush
import ColumnDb.Proofs.ValueCodec
import ColumnDb.Proofs.ValueOrder
import ColumnDb.Proofs.BlobChain
import ColumnDb.Proofs.TreeSearch
import ColumnDb.Proofs.QueryJoin
import ColumnDb.Proofs.QueryEval
import ColumnDb.Proofs.TreeRows
import ColumnDb.Proofs.TreeModel
import ColumnDb.Proofs.TreeHeight
import ColumnDb.Proofs.TreeLinks
import ColumnDb.Proofs.ChunkFlush
import ColumnDb.Proofs.DataRows
import ColumnDb.Proofs.BlobStore
import ColumnDb.Proofs.Simulation
import ColumnDb.Proofs.BlobModel
import ColumnDb.Proofs.BlobFlush
import ColumnDb.Proofs.DataModel
import ColumnDb.Proofs.StoreFrame
import ColumnDb.Proofs.BlobIds
import ColumnDb.Proofs.TextRows
import ColumnDb.Proofs.TextModel
import ColumnDb.Proofs.ParseRender
import ColumnDb.Proofs.Refusals
import ColumnDb.Proofs.ParseGroup
import ColumnDb.Proofs.ParseShape
import ColumnDb.Proofs.SelectRows
import ColumnDb.Proofs.FileReopen
import ColumnDb.Proofs.ColumnFrame
import ColumnDb.Proofs.KeyRule
import ColumnDb.Proofs.CollectionModel
import ColumnDb.Proofs.Reopen
import ColumnDb.Proofs.ParsePosition
import ColumnDb.Proofs.SlotRoundTrip
import ColumnDb.Proofs.DirtyTracking
import ColumnDb.Proofs.ColumnModel
