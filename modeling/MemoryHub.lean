import MemoryHub.Http.TokenHistory
import MemoryHub.Http.Middleware
import MemoryHub.Http.Bootstrap
import MemoryHub.Http.AdminInterleaving
import MemoryHub.Lib.Decimal
import MemoryHub.Lib.Uuid
import MemoryHub.Memory.Indexer
import MemoryHub.Memory.IndexImage
import MemoryHub.Memory.IndexRefinement
import MemoryHub.Lib.UnixPath
import MemoryHub.Memory.Path
import MemoryHub.Llm.Embedder
import MemoryHub.Memory.Chunking
import MemoryHub.Memory.Storage
import MemoryHub.Memory.FileOp
import MemoryHub.Memory.StoreMap
import MemoryHub.Memory.FileOpFaults
import MemoryHub.Memory.FileOpInterleaving
import MemoryHub.Lib.Like
import MemoryHub.Memory.Search
import MemoryHub.Lib.Prog
import MemoryHub.Memory.SynthesisPath
import MemoryHub.Memory.Synthesizer
import MemoryHub.Memory.SynthesizerInterleaving
import MemoryHub.Memory.RawLocation
import MemoryHub.Memory.SummaryOrder
import MemoryHub.Memory.Disk
import MemoryHub.Memory.SummaryRun
import MemoryHub.Llm.LlmService
import MemoryHub.Mcp.Identity
import MemoryHub.Memory.Cycle
import MemoryHub.Memory.CycleIsolation
import MemoryHub.Memory.Cascade
import MemoryHub.Memory.CycleTriggers
import MemoryHub.Memory.DiskStorage
import MemoryHub.Lib.TopK
import MemoryHub.Memory.SearchRanking
import MemoryHub.Memory.SearchNearest
import MemoryHub.Memory.FileOpWrite
import MemoryHub.Lib.Transaction
import MemoryHub.Memory.InterruptedInsert
import MemoryHub.Memory.Replacement
import MemoryHub.Memory.SummaryIndex
import MemoryHub.Llm.Provider
import MemoryHub.Llm.SynthesisTask
import MemoryHub.Lib.SortByKey
import MemoryHub.Llm.OpenAi
import MemoryHub.Memory.KeySpace
import MemoryHub.Memory.SummaryNames
import MemoryHub.Mcp.Slug
import MemoryHub.Lib.PurePath
import MemoryHub.Plugins.Capture
import MemoryHub.Lib.Pool
import MemoryHub.Lib.Region
import MemoryHub.Memory.ActorCalls
import MemoryHub.Memory.IndexDimension
import MemoryHub.Memory.UserRegion
import MemoryHub.Http.Provenance
import MemoryHub.Lib.Linearize
import MemoryHub.Http.Linearizable
import MemoryHub.Mcp.Sessions
import MemoryHub.Llm.Dialogue
