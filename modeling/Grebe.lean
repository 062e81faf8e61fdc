import Grebe.Lib.Lts
import Grebe.Lib.Fifo
import Grebe.Lib.Circular
import Grebe.RingBufferView
import Grebe.RingBufferSpsc
import Grebe.RingBuffer
import Grebe.InProcessQueue
import Grebe.InProcessQueueCalls
import Grebe.Lib.Pipeline
import Grebe.LinearRuntime
import Grebe.LinearRuntimeDelivery
import Grebe.DecimationThread
import Grebe.DecimationThreadStop
import Grebe.DecimationThreadProgress
import Grebe.DecimationEngine
import Grebe.Contracts
import Grebe.Frame
import Grebe.PipeTransport
import Grebe.TransportStages
import Grebe.Lib.Tiling
import Grebe.Decimator
import Grebe.Lib.TreeReduction
import Grebe.DecimatorBounds
import Grebe.LttbSelection
import Grebe.MinmaxShader
import Grebe.DecimationStage
import Grebe.DecimationCycle
import Grebe.DecimationRun
import Grebe.DecimationBarrier
import Grebe.DecimationFrames
import Grebe.DecimationHistory
import Grebe.DecimationDrains
import Grebe.UdpTransport
import Grebe.UdpReceive
import Grebe.UdpBatches
import Grebe.UdpProducer
import Grebe.UdpFailures
import Grebe.PayloadCopies
import Grebe.TransportSource
import Grebe.SgSender
import Grebe.SgSenderFrames
import Grebe.SgSenderIndices
import Grebe.SgDatagrams
import Grebe.Lib.Deferred
import Grebe.VisualizationStage
import Grebe.VisualizationLog
import Grebe.BufferManager
import Grebe.MainLoop
import Grebe.DrawsInFlight
import Grebe.Lib.Ledger
import Grebe.FrameOwnership
import Grebe.Lib.SlidingMin
import Grebe.Lib.BinarySearch
import Grebe.EnvelopeVerifier
import Grebe.WindowSet
import Grebe.EnvelopeHistory
import Grebe.Peaks
import Grebe.Lib.Interpolate
import Grebe.ProfileStats
import Grebe.LinearRuntimeStop
import Grebe.LinearRuntimeStart
import Grebe.LinearRuntimeWait
import Grebe.SgCommands
import Grebe.Lib.CStruct
import Grebe.GrbFile
import Grebe.Lib.Cycle
import Grebe.FilePlayback
import Grebe.SgOptions
import Grebe.SgBuffers
import Grebe.Viewer
import Grebe.ViewerReceive
import Grebe.ViewerCleanup
import Grebe.WaveformUtils
import Grebe.PeriodTiling
import Grebe.SyntheticSource
import Grebe.DataGenerator
import Grebe.ProfilePeriod
import Grebe.Lib.Boundaries
import Grebe.FrameBoundaries
import Grebe.ProfileEnvelope
import Grebe.Lib.RollingWindow
import Grebe.Benchmark
import Grebe.AppCommands
import Grebe.ProfileRun
import Grebe.ProfilePointers
import Grebe.ProcessHandle
import Grebe.EmbeddedProfile
import Grebe.Lib.Network
import Grebe.UdpLink
import Grebe.SgDrops
import Grebe.ViewerPipeline
import Grebe.EndToEnd
import Grebe.SgFeed
import Grebe.GeneratedFrames
import Grebe.PlayedFrames
import Grebe.ViewerOptions
import Grebe.IngestionThread
import Grebe.IngestionLink
import Grebe.Lib.Sharing
import Grebe.DecimationPipeline
import Grebe.ReturnedFrames
