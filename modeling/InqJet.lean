import InqJet.HotPath.Agreement
import InqJet.HotPath.CallTree
import InqJet.HotPath.Fallback
import InqJet.HotPath.Pipeline
import InqJet.HotPath.Stream
import InqJet.HotPath.ReadBack
import InqJet.Lengths
import InqJet.Timestamps
import InqJet.Consumer.Writes
import InqJet.Consumer.Drain
import InqJet.Consumer.Flushed
import InqJet.Consumer.Stranded
import InqJet.Consumer.Wakeup
import InqJet.Consumer.Calls
import InqJet.Consumer.AtomicLog
import InqJet.Consumer.Quiet
import InqJet.Consumer.Progress
import InqJet.Consumer.Busy
import InqJet.Consumer.WaitFree
import InqJet.Consumer.CallsReturn
import InqJet.Logger.Unwinding
import InqJet.Logger.Reentrancy
import InqJet.Logger.LazyClear
import InqJet.Logger.OwnTexts
import InqJet.Logger.SetLevel
import InqJet.Logger.Startup
import InqJet.Logger.Backpressure
import InqJet.Builder
import InqJet.Color
