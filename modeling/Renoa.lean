import Renoa.Kernel.Abandonment
import Renoa.Kernel.CancellationWins
import Renoa.Kernel.CommandAdmission
import Renoa.Kernel.EventLog
import Renoa.Kernel.RequestReaders
import Renoa.Control.HostCalls
import Renoa.Control.LiveFeed
import Renoa.Control.MessageChains
import Renoa.Node.Cleanup
import Renoa.Node.LiveText
import Renoa.Node.MessageSize
import Renoa.Node.Scheduling
import Renoa.Loop.Closing
import Renoa.Loop.CommandFormat
import Renoa.Loop.Preview
import Renoa.Loop.Rendering
import Renoa.Loop.Selection
import Renoa.Local.FileTools
import Renoa.Schedule.Runs
