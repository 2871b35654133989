import OpenCore.Avc.AnnexB
import OpenCore.Avc.BitSyntax
import OpenCore.Avc.Bitstream
import OpenCore.Avc.Ebsp
import OpenCore.Avc.MoreRbspData
import OpenCore.Avc.NalStream
import OpenCore.Avc.ParamSetFailure
import OpenCore.Avc.ParamSets
import OpenCore.Avc.PicOrder
import OpenCore.Avc.RefList
import OpenCore.Avc.RefListReorder
import OpenCore.Avc.SliceHeader
import OpenCore.Avc.SliceHeaderEnd
import OpenCore.Avc.SliceHeaderIdr
import OpenCore.Avc.Syntax
import OpenCore.GenData.Base64Codec
import OpenCore.GenData.BitStreamParser
import OpenCore.GenData.BoolArray
import OpenCore.GenData.BufFragGroup
import OpenCore.GenData.HashTable
import OpenCore.GenData.HashTableRun
import OpenCore.GenData.SortedList
import OpenCore.H223.AdaptationLayer
import OpenCore.H223.Demultiplexer
import OpenCore.H223.Level0
import OpenCore.H223.Level0Parse
import OpenCore.H223.Level1
import OpenCore.H223.Level2
import OpenCore.H223.Multiplexer
import OpenCore.H223.MuxDescriptorSlots
import OpenCore.H223.MuxSduLists
import OpenCore.H245.PerBitString
import OpenCore.H245.PerInteger
import OpenCore.H245.PerStream
import OpenCore.H324.Nsrp
import OpenCore.H324.NsrpLink
import OpenCore.H324.Srp
import OpenCore.H324.SrpUpperLayer
import OpenCore.HttpParcom.ChunkedBodyRun
import OpenCore.HttpParcom.HttpComposer
import OpenCore.HttpParcom.StringKeyValueStore
import OpenCore.HttpParcom.StringKeyValueStoreRun
import OpenCore.HttpParcom.VariableSizeMemPoolRun
import OpenCore.JitterBuffer.CircularArray
import OpenCore.JitterBuffer.CircularArrayCount
import OpenCore.JitterBuffer.CircularArrayOrder
import OpenCore.JitterBuffer.PeekTimestamp
import OpenCore.JitterBuffer.RtpInfoParams
import OpenCore.JitterBuffer.RtpPacket
import OpenCore.JitterBuffer.SsrcVote
import OpenCore.Lib.Bits
import OpenCore.Lib.Chain
import OpenCore.Lib.ExchangeSort
import OpenCore.Lib.Gather
import OpenCore.Lib.GrownArray
import OpenCore.Lib.HeapOrder
import OpenCore.Lib.LinkedRing
import OpenCore.Lib.MsbBits
import OpenCore.Lib.MultiMap
import OpenCore.Lib.PrefixCode
import OpenCore.Lib.Reading
import OpenCore.Lib.ReflectedCrc
import OpenCore.Lib.Ring
import OpenCore.Lib.Run
import OpenCore.Lib.RunLength
import OpenCore.Lib.Slots
import OpenCore.Lib.Splice
import OpenCore.Lib.Windows
import OpenCore.Lib.Word32
import OpenCore.Lib.ZeroBits
import OpenCore.M4vH263.DecBitstream
import OpenCore.M4vH263.EncBitstream
import OpenCore.MediaData.MediaClockConverter
import OpenCore.Mp4.ChunkOffsetAtom
import OpenCore.Mp4.CompositionOffsetAtom
import OpenCore.Mp4.DeltaCursor
import OpenCore.Mp4.SampleInChunk
import OpenCore.Mp4.SampleSizeAtom
import OpenCore.Mp4.SampleTimes
import OpenCore.Mp4.SampleToChunkAtom
import OpenCore.Mp4.SampleToChunkWalk
import OpenCore.Mp4.SampleToChunkWalkRun
import OpenCore.Mp4.SampleToChunkWindow
import OpenCore.Mp4.TableWindow
import OpenCore.Mp4.TimeToSampleAtom
import OpenCore.Omx.OmxQueue
import OpenCore.OsclBase.LinkedList
import OpenCore.OsclBase.LinkedListRun
import OpenCore.OsclBase.Queue
import OpenCore.OsclBase.StringUtils
import OpenCore.OsclBase.TagTree
import OpenCore.OsclBase.TimeValue
import OpenCore.OsclIo.FileCache
import OpenCore.OsclIo.FileCacheData
import OpenCore.OsclIo.FileCacheRun
import OpenCore.OsclIo.FixedCache
import OpenCore.OsclIo.FixedCacheUpdate
import OpenCore.OsclProc.ReadyQ
import OpenCore.OsclProc.ReadyQOrder
import OpenCore.OsclProc.ReadyQRun
import OpenCore.OsclProc.TimerQ
import OpenCore.OsclProc.TimerQRun
import OpenCore.OsclUtil.BinStream
import OpenCore.OsclUtil.BinStreamOutput
import OpenCore.OsclUtil.PriQueue
import OpenCore.OsclUtil.PriQueueHeap
import OpenCore.OsclUtil.PriQueueRun
import OpenCore.OsclUtil.StringUri
import OpenCore.OsclUtil.StringUtf8
import OpenCore.OsclUtil.Utf8Conv
import OpenCore.Pvmf.ClockUnits
import OpenCore.Pvmf.MediaClock
import OpenCore.Pvmf.MediaClockCallbacksRun
import OpenCore.Pvmf.MediaClockRun
import OpenCore.Rtp.RtcpBye
import OpenCore.Rtp.RtcpPacket
import OpenCore.Rtp.RtcpReports
import OpenCore.Rtp.RtcpSdes
import OpenCore.RtpPayload.H264Interleaved
import OpenCore.Sdp.DecodeBase64
import OpenCore.Tools.CrcBits
import OpenCore.Tools.CrcCheck
