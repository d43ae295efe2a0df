import MemSmr.Lib.Outcome
import MemSmr.Lib.Slots
import MemSmr.HashSet
import MemSmr.VectorRuns
import MemSmr.State
import MemSmr.Stl
import MemSmr.HddBuf
import MemSmr.Invariant
import MemSmr.Collect
import MemSmr.Append
import MemSmr.Buffer
import MemSmr.Ext2Meta
import MemSmr.Device
import MemSmr.ArrayDisk
import MemSmr.DeviceInv
import MemSmr.AppendCount
import MemSmr.Refinement
import MemSmr.Layout
import MemSmr.Detector
import MemSmr.Runs
import MemSmr.ReadYourWrites
import MemSmr.FullRun
import MemSmr.Tables
import MemSmr.Trace
import MemSmr.Steady
import MemSmr.DetectedLayout
import MemSmr.TrimSafety
import MemSmr.Lib.Codec
import MemSmr.Lib.ShortIo
import MemSmr.Image
import MemSmr.FlagDisk
import MemSmr.MetaFlags
import MemSmr.Reformat
import MemSmr.Requests
import MemSmr.Lib.Select
import MemSmr.ColdBufs
import MemSmr.Positions
import MemSmr.Groups
import MemSmr.Descriptors
import MemSmr.Phases
import MemSmr.OnDevice
import MemSmr.AnyOrder
import MemSmr.Amplification
import MemSmr.Storable
import MemSmr.MemDisk
import MemSmr.SaveLoad
import MemSmr.FailedLoad
import MemSmr.InodeTables
import MemSmr.Compatible
import MemSmr.Compaction
import MemSmr.SwapOut
import MemSmr.BitmapTrim
import MemSmr.ReadExt2
import MemSmr.FileBlocks
import MemSmr.IndirectEntries
import MemSmr.Transfers
import MemSmr.WholeFile
import MemSmr.Heat
import MemSmr.DescsRead
import MemSmr.InodeLookup
import MemSmr.Lib.Walk
import MemSmr.VisitDir
import MemSmr.DetectorFrame
import MemSmr.Occupancy
import MemSmr.Lib.Amortized
import MemSmr.Wear
import MemSmr.Frontier
import MemSmr.VectorSets
import MemSmr.Lifecycle
import MemSmr.Restart
import MemSmr.Sessions
import MemSmr.Lives
import MemSmr.LastWrites
import MemSmr.AwareRuns
import MemSmr.DirTree
import MemSmr.DeviceFiles
import MemSmr.DeviceTree
