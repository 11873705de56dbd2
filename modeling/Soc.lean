import Soc.Basic
import Soc.Foundation.BitString
import Soc.Coding.BitOutputStream
import Soc.Coding.BitPacking
import Soc.Coding.ArithmeticCoder
import Soc.Coding.Rescaling
import Soc.Coding.ArithmeticEncoder
import Soc.Coding.ArithmeticDecoder
import Soc.Coding.UniqueDecoding
import Soc.Coding.AdaptiveModel
import Soc.Coding.EncTable
import Soc.Coding.Codings
import Soc.Coding.Lossless
import Soc.Foundation.Information
import Soc.Coding.Efficiency
import Soc.Foundation.ShiftRegister
import Soc.Protocol.Crc
import Soc.Protocol.Frame
import Soc.Protocol.FrameIo
import Soc.Foundation.Windows
import Soc.Foundation.Strings
import Soc.Protocol.Packing
import Soc.Protocol.FilePacking
import Soc.Protocol.Transfer
import Soc.Protocol.Codec
import Soc.Protocol.Answer
import Soc.Protocol.Loss
import Soc.Foundation.Runs
import Soc.Foundation.Unwinding
import Soc.Protocol.Slave
import Soc.Protocol.Outcome
import Soc.Protocol.Failure
import Soc.Protocol.Interference
import Soc.Protocol.Blocks
import Soc.Protocol.Progress
import Soc.Protocol.Bookkeeping
import Soc.Protocol.Slots
import Soc.Protocol.Freshness
import Soc.Protocol.Sizes
import Soc.Protocol.Exchange
import Soc.Protocol.Alignment
import Soc.Protocol.Detection
import Soc.Protocol.Retransmission
import Soc.Foundation.Loops
import Soc.Foundation.Copies
import Soc.Driver.Device
import Soc.Driver.Bursts
import Soc.Driver.RoundTrip
import Soc.Driver.Termination
import Soc.Driver.Timeouts
import Soc.Driver.Batches
import Soc.Driver.Ownership
import Soc.Driver.Mappings
import Soc.Driver.Containment
import Soc.Driver.Completion
import Soc.Driver.Flags
import Soc.Foundation.Clocked
import Soc.Hardware.Line
import Soc.Hardware.UartTx
import Soc.Hardware.UartRx
import Soc.Hardware.Link
import Soc.Foundation.Backlog
import Soc.Hardware.Echo
import Soc.Coding.Partition
import Soc.Coding.Buffer
import Soc.Coding.Registers
import Soc.Coding.Entropy
import Soc.Foundation.PolynomialDivision
import Soc.Protocol.CheckSum
import Soc.Foundation.Counters
import Soc.Protocol.Framing
import Soc.Protocol.Unpacking
import Soc.Protocol.Delivery
import Soc.Protocol.Dump
import Soc.Protocol.Files
import Soc.Foundation.Noted
import Soc.Protocol.Tables
import Soc.Protocol.FileMode
import Soc.Coding.Checks
import Soc.Coding.Turns
import Soc.Foundation.Contents
import Soc.Driver.Network
import Soc.Driver.Live
import Soc.Driver.Channels
import Soc.Driver.Pictures
import Soc.Driver.Subbands
import Soc.Driver.Streams
import Soc.Driver.Deployment
