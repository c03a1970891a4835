import Libms.Framework.Runs
import Libms.Framework.CInt
import Libms.Framework.PartialMap
import Libms.Framework.Rechunk
import Libms.Framework.Text
import Libms.Framework.Json
import Libms.Framework.JsonTexts
import Libms.Framework.Nearest
import Libms.Framework.Buckets
import Libms.Framework.PosixFile
import Libms.Framework.Ring
import Libms.Storage.MemStorage
import Libms.Storage.ReadWrite
import Libms.Storage.Eviction
import Libms.Storage.Refinement
import Libms.Storage.FileStorage
import Libms.Storage.Windows
import Libms.Storage.IntOffsets
import Libms.Storage.CompletedSize
import Libms.Storage.Calls
import Libms.Storage.CountedBytes
import Libms.Storage.Scan
import Libms.Storage.Released
import Libms.Storage.Resize
import Libms.Storage.Bitmap
import Libms.Storage.FarOffsets
import Libms.Pipe.HttpPipe
import Libms.Pipe.Reassembly
import Libms.Pipe.Offsets
import Libms.Pipe.Preserves
import Libms.Pipe.Closing
import Libms.Pipe.Lifecycle
import Libms.Task.MsTask
import Libms.Task.Dispatch
import Libms.Task.RemoveReader
import Libms.Task.HoldWindows
import Libms.Task.Filesize
import Libms.Task.RangedPipe
import Libms.Task.Callbacks
import Libms.Task.Readers
import Libms.Task.PipesApart
import Libms.Task.SizesAgree
import Libms.Task.Serving
import Libms.Task.Feeding
import Libms.Task.CacheBound
import Libms.Task.UsefulPipes
import Libms.Task.ClientOffsets
import Libms.Session.MsSession
import Libms.Session.Transfer
import Libms.Session.Sound
import Libms.Session.Stream
import Libms.Session.Quota
import Libms.Session.Accounting
import Libms.Session.OneResponse
import Libms.Session.HeadNumbers
import Libms.Session.Remaining
import Libms.Session.RangeHeader
import Libms.Session.Tracked
import Libms.Session.BodyReads
import Libms.Server.MsServer
import Libms.Server.Registry
import Libms.Server.Clients
import Libms.Server.ParseUri
import Libms.Server.PlayUrl
import Libms.Server.Preload
import Libms.Server.TaskList
import Libms.Server.TaskListJson
import Libms.Storage.Intact
import Libms.Pipe.Continues
import Libms.Task.Intact
import Libms.Session.Delivers
import Libms.Session.Awake
import Libms.Server.Proxy
import Libms.Server.Served
import Libms.Server.Carried
import Libms.Server.Delivery
import Libms.Server.Awake
import Libms.Pipe.Tied
import Libms.Task.OpenPipes
import Libms.Pipe.Follows
import Libms.Task.LinkedTask
import Libms.Task.LinkedQueue
import Libms.Server.StreamUrl
import Libms.Session.Finishes
import Libms.Task.Fetching
