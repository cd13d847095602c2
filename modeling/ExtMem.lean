import ExtMem.Threads.Views
import ExtMem.InterceptLayer
import ExtMem.Plain
import ExtMem.Transfers.Matched
import ExtMem.Refused
import ExtMem.Serial.FirstUse
import ExtMem.Serial.SwapSpace
import ExtMem.Serial.Whole
import ExtMem.Serial.Evict
import ExtMem.Serial.Fetch
import ExtMem.Serial.Swapin
import ExtMem.Serial.Prefetch
import ExtMem.Serial.Unmap
import ExtMem.Serial.Fault
import ExtMem.Serial.Batch
import ExtMem.Serial.Calls
import ExtMem.Serial.Start
import ExtMem.Serial.Conserved
import ExtMem.Serial.Remap
import ExtMem.Serial.Walk
import ExtMem.Serial.Released
import ExtMem.Serial.Returns
import ExtMem.Serial.OutOfMemory
import ExtMem.FifoLinks
import ExtMem.Serial.Examine
import ExtMem.Serial.Reclaim
import ExtMem.Serial.Progress
import ExtMem.Serial.FetchEnds
import ExtMem.Serial.SecondChance
import ExtMem.PageRank
import ExtMem.Serial.Window
import ExtMem.Threads.Amid
import ExtMem.Stream
import ExtMem.Serial.PrefetchWorker
import ExtMem.Serial.Counts
import ExtMem.Serial.Promotion
import ExtMem.Serial.Frames
import ExtMem.Serial.Tally
import ExtMem.Serial.Audit
import ExtMem.Serial.Live
import ExtMem.Serial.Statistics
import ExtMem.Serial.BatchReturns
import ExtMem.Serial.CleanBatch
import ExtMem.Serial.EvictionPaths
import ExtMem.Serial.Ahead
import ExtMem.Serial.Ranges
import ExtMem.Serial.Transparency
import ExtMem.Ownership.Growth
