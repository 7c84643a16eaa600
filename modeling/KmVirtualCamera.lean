import KmVirtualCamera.Core.LTS
import KmVirtualCamera.Core.Serial
import KmVirtualCamera.Core.OrdMap
import KmVirtualCamera.Core.ByteOrder
import KmVirtualCamera.Core.Ring
import KmVirtualCamera.Core.Spaced
import KmVirtualCamera.Core.Raster
import KmVirtualCamera.Core.Picture
import KmVirtualCamera.Core.SeenRing
import KmVirtualCamera.Core.Infix
import KmVirtualCamera.Core.Signed
import KmVirtualCamera.Core.Rounding
import KmVirtualCamera.Core.Single
import KmVirtualCamera.Core.Utf8
import KmVirtualCamera.Core.Checked
import KmVirtualCamera.Core.JsonText
import KmVirtualCamera.L1Encoding.H264
import KmVirtualCamera.L1Encoding.AnnexBGrammar
import KmVirtualCamera.L1Encoding.DcWire
import KmVirtualCamera.L1Encoding.RtpWire
import KmVirtualCamera.L1Encoding.RtpDatagram
import KmVirtualCamera.L1Encoding.TransportSequence
import KmVirtualCamera.L1Encoding.RtcpCompound
import KmVirtualCamera.L1Encoding.RtpPayload
import KmVirtualCamera.L1Encoding.TwccFeedback
import KmVirtualCamera.L1Encoding.Json
import KmVirtualCamera.L1Encoding.JsonLexical
import KmVirtualCamera.L1Encoding.JsonStrings
import KmVirtualCamera.L1Encoding.JsonNumbers
import KmVirtualCamera.L1Encoding.JsonValues
import KmVirtualCamera.L1Encoding.JsonQuote
import KmVirtualCamera.L1Encoding.JsonWrite
import KmVirtualCamera.L1Encoding.Nv12
import KmVirtualCamera.L1Encoding.SessionCodec
import KmVirtualCamera.L1Encoding.HttpHeaders
import KmVirtualCamera.L1Encoding.PipeFrame
import KmVirtualCamera.L1Encoding.PipeValidation
import KmVirtualCamera.L2Machine.DcVideo
import KmVirtualCamera.L2Machine.DcAssemble
import KmVirtualCamera.L2Machine.DcDrain
import KmVirtualCamera.L2Machine.DcTermination
import KmVirtualCamera.L2Machine.DcInvariant
import KmVirtualCamera.L2Machine.DcUnits
import KmVirtualCamera.L2Machine.DcAccounting
import KmVirtualCamera.L2Machine.DcTimely
import KmVirtualCamera.L2Machine.DcFeedback
import KmVirtualCamera.L2Machine.DcChain
import KmVirtualCamera.L2Machine.DcReassembly
import KmVirtualCamera.L2Machine.DcReorder
import KmVirtualCamera.L2Machine.DcIntegrity
import KmVirtualCamera.L2Machine.DcInterchange
import KmVirtualCamera.L2Machine.DcSequential
import KmVirtualCamera.L2Machine.RtpVideo
import KmVirtualCamera.L2Machine.RtpChain
import KmVirtualCamera.L2Machine.RtpLink
import KmVirtualCamera.L2Machine.RtpRules
import KmVirtualCamera.L2Machine.RtpOrder
import KmVirtualCamera.L2Machine.RtpSizes
import KmVirtualCamera.L2Machine.RtpIsolation
import KmVirtualCamera.L2Machine.RtpReassembly
import KmVirtualCamera.L2Machine.RtpIntegrity
import KmVirtualCamera.L2Machine.VideoQueue
import KmVirtualCamera.L2Machine.SharedFrame
import KmVirtualCamera.L2Machine.OpusRtp
import KmVirtualCamera.L2Machine.OpusJitter
import KmVirtualCamera.L2Machine.OpusTimeline
import KmVirtualCamera.L2Machine.AudioPcmQueue
import KmVirtualCamera.L2Machine.PcmChannels
import KmVirtualCamera.L2Machine.WasapiRing
import KmVirtualCamera.L2Machine.RtcpReception
import KmVirtualCamera.L2Machine.Remb
import KmVirtualCamera.L2Machine.BandwidthEstimator
import KmVirtualCamera.L2Machine.RationalPacer
import KmVirtualCamera.L2Machine.Letterbox
import KmVirtualCamera.L2Machine.Twcc
import KmVirtualCamera.L2Machine.TwccTimes
import KmVirtualCamera.L2Machine.TwccProgress
import KmVirtualCamera.L2Machine.TwccArrivals
import KmVirtualCamera.L3Protocol.Session
import KmVirtualCamera.L3Protocol.SessionInvariant
import KmVirtualCamera.L4App.ReceiverEngine
import KmVirtualCamera.L4App.MediaTime
import KmVirtualCamera.L4App.DcDownstream
import KmVirtualCamera.L4App.PaddingOnly
import KmVirtualCamera.L4App.RtpRecovery
import KmVirtualCamera.L4App.PathArbitration
import KmVirtualCamera.L4App.RtcpSession
import KmVirtualCamera.L4App.RtcpTraffic
import KmVirtualCamera.L4App.SignalingWorker
import KmVirtualCamera.L4App.SignalingRun
import KmVirtualCamera.L4App.AnswerBody
import KmVirtualCamera.L4App.SignalingPolling
import KmVirtualCamera.L4App.SignalingPhases
import KmVirtualCamera.L4App.SinkPublisher
import KmVirtualCamera.L4App.SinkTimers
import KmVirtualCamera.L4App.SinkAccounting
import KmVirtualCamera.L4App.WebCodecsSender
import KmVirtualCamera.L4App.SenderGating
import KmVirtualCamera.L4App.VideoToolbox
import KmVirtualCamera.L4App.PipeReader
import KmVirtualCamera.L4App.TurnFilter
import KmVirtualCamera.L4App.CreateSession
import KmVirtualCamera.L4App.SessionReading
import KmVirtualCamera.L4App.SessionContract
import KmVirtualCamera.L5Concurrency.Signaling
import KmVirtualCamera.L5Concurrency.SessionInterleave
import KmVirtualCamera.L5Concurrency.VideoChannel
import KmVirtualCamera.L5Concurrency.CallbackGate
import KmVirtualCamera.L5Concurrency.FramePipe
import KmVirtualCamera.L5Concurrency.FrameRelay
import KmVirtualCamera.L5Concurrency.RelayFreshness
import KmVirtualCamera.L5Concurrency.ProducerAuth
import KmVirtualCamera.L5Concurrency.RelaySchedule
import KmVirtualCamera.L5Concurrency.RelayTimer
import KmVirtualCamera.L5Concurrency.VideoPipeline
import KmVirtualCamera.L5Concurrency.LateFailure
import KmVirtualCamera.L5Concurrency.WindowsReceiver
import KmVirtualCamera.L5Concurrency.MediaStream
import KmVirtualCamera.L5Concurrency.UrlSession
import KmVirtualCamera.L5Concurrency.WinHttp
import KmVirtualCamera.L5Concurrency.UiPosts
import KmVirtualCamera.L5Concurrency.AudioOutput
import KmVirtualCamera.L5Concurrency.AudioBuffers
import KmVirtualCamera.L5Concurrency.AudioCommands
