import EmbassyImxrt.RingBuffer.Basic
import EmbassyImxrt.RingBuffer.Queue
import EmbassyImxrt.Buffered.Hardware
import EmbassyImxrt.Buffered.Driver
import EmbassyImxrt.Buffered.Interrupt
import EmbassyImxrt.Buffered.System
import EmbassyImxrt.Buffered.Trace
import EmbassyImxrt.Proofs.RxStream
import EmbassyImxrt.Proofs.TxStream
import EmbassyImxrt.Proofs.RxFaults
import EmbassyImxrt.Proofs.Wakeups
import EmbassyImxrt.Proofs.SerialRead
import EmbassyImxrt.Proofs.BwriteAll
import EmbassyImxrt.Proofs.Loopback
import EmbassyImxrt.Proofs.TwoSlices
import EmbassyImxrt.Crc.Engine
import EmbassyImxrt.Proofs.CrcFeedBytes
import EmbassyImxrt.Proofs.CrcStandards
import EmbassyImxrt.Uuid
