import Minnow.Library.Run
import Minnow.Library.Region
import Minnow.Library.Circle
import Minnow.Library.Tiling
import Minnow.Library.OnesComplement
import Minnow.Library.Deque
import Minnow.Library.Expiry
import Minnow.Library.Fifo
import Minnow.Library.Chunks
import Minnow.Library.Weights
import Minnow.Machine
import Minnow.WrappingIntegers
import Minnow.ByteStream
import Minnow.ByteStreamRuns
import Minnow.Bitmap
import Minnow.BatchClear
import Minnow.BitmapRuns
import Minnow.Reassembler
import Minnow.Reassembly
import Minnow.ReassemblerRuns
import Minnow.ReassemblyOrder
import Minnow.ReassemblerSafety
import Minnow.EndOfStream
import Minnow.TCPMessages
import Minnow.TCPSender
import Minnow.SenderTimer
import Minnow.IgnoredAcks
import Minnow.Backoff
import Minnow.SenderRuns
import Minnow.SenderFIN
import Minnow.SenderQueues
import Minnow.SenderConservation
import Minnow.SenderRelease
import Minnow.SenderWindow
import Minnow.WindowFilling
import Minnow.TCPReceiver
import Minnow.ReceiverRuns
import Minnow.EndToEnd
import Minnow.NothingLost
import Minnow.Transfer
import Minnow.FlowControl
import Minnow.RoundTrip
import Minnow.Buffering
import Minnow.Reencoding
import Minnow.Acceptance
import Minnow.RoutingTable
import Minnow.InterfaceRuns
import Minnow.ArpCache
import Minnow.ArpHistory
import Minnow.ArpLearning
import Minnow.DatagramDelivery
import Minnow.RouterRuns
import Minnow.Forwarding
import Minnow.Internet
import Minnow.Stations
import Minnow.InternetRuns
import Minnow.InternetQueues
import Minnow.Journeys
import Minnow.InternetProgress
import Minnow.HopBudget
import Minnow.Resolution
import Minnow.InternetDelivery
