import Esp32Ipc.Framework.Run
import Esp32Ipc.Framework.LinkedList
import Esp32Ipc.Framework.Census
import Esp32Ipc.Platform.Rtos
import Esp32Ipc.Platform.Ledger
import Esp32Ipc.Core.FramePool
import Esp32Ipc.Core.FramePoolView
import Esp32Ipc.Core.FramePoolCalls
import Esp32Ipc.Core.FramePoolLedger
import Esp32Ipc.Core.FramePoolTasks
import Esp32Ipc.Task.DetectorFeed
import Esp32Ipc.Task.DetectorOrder
import Esp32Ipc.Task.DetectorStart
import Esp32Ipc.Hal.VideoCapture
import Esp32Ipc.Hal.H264Encoder
import Esp32Ipc.Hal.Netif
import Esp32Ipc.Framework.Pacing
import Esp32Ipc.Framework.WrappedClock
import Esp32Ipc.Task.FrameGrid
import Esp32Ipc.Task.VideoTasks
import Esp32Ipc.Task.VideoBuffers
import Esp32Ipc.Task.EncoderSlots
import Esp32Ipc.Framework.Slots
import Esp32Ipc.Task.VideoTimeline
import Esp32Ipc.Framework.Spans
import Esp32Ipc.Framework.Canvas
import Esp32Ipc.Core.Osd
import Esp32Ipc.Core.OsdRaster
import Esp32Ipc.Core.OsdDirty
import Esp32Ipc.Core.OsdMarks
import Esp32Ipc.Core.OsdRows
import Esp32Ipc.Core.OsdCorners
import Esp32Ipc.Core.OsdFull
import Esp32Ipc.Task.Overlay
import Esp32Ipc.Framework.ByteMemory
import Esp32Ipc.Libpeer.Buffer
import Esp32Ipc.Libpeer.BufferRing
import Esp32Ipc.Libpeer.BufferOffsets
import Esp32Ipc.Libpeer.BufferAccess
import Esp32Ipc.Libpeer.BufferSpsc
import Esp32Ipc.Libpeer.BufferSpscOrder
import Esp32Ipc.Libpeer.AgentRecv
import Esp32Ipc.Libpeer.OfferRequests
import Esp32Ipc.Libpeer.RemoteCandidates
import Esp32Ipc.Libpeer.GatherCandidates
import Esp32Ipc.Libpeer.PendingOffer
import Esp32Ipc.Task.Webrtc
import Esp32Ipc.Core.G711
import Esp32Ipc.Platform.StreamBuffer
import Esp32Ipc.Task.Speaker
import Esp32Ipc.Task.SpeakerReports
import Esp32Ipc.Framework.Quantiser
import Esp32Ipc.Core.G711Curve
import Esp32Ipc.Task.Audio
import Esp32Ipc.Framework.CounterMode
import Esp32Ipc.Srtp.AesIcm
import Esp32Ipc.Framework.Segments
import Esp32Ipc.Detect.PackModel
import Esp32Ipc.Detect.PackTable
import Esp32Ipc.Detect.PackLoop
import Esp32Ipc.Detect.PackReader
import Esp32Ipc.Framework.RegexReplace
import Esp32Ipc.Framework.Assembler
import Esp32Ipc.Detect.EmbedAsm
import Esp32Ipc.Detect.EmbedObject
import Esp32Ipc.Framework.KeyedHash
import Esp32Ipc.Srtp.Hmac
import Esp32Ipc.Srtp.Handles
import Esp32Ipc.Task.KeyframeRequest
import Esp32Ipc.Framework.Drain
import Esp32Ipc.Task.PeerMedia
import Esp32Ipc.Task.MediaSystem
import Esp32Ipc.Framework.Critical
import Esp32Ipc.Task.DetectorBoxes
import Esp32Ipc.Framework.WriteBack
import Esp32Ipc.Core.OsdStores
import Esp32Ipc.Task.FrameMemory
import Esp32Ipc.Task.FeedMemory
