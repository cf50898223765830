import Alex.Link
import Alex.Resync
import Alex.Bounds
import Alex.Command
import Alex.Motors
import Alex.Moves
import Alex.Threads
import Alex.Service
import Alex.Delivery
import Alex.Corruption
import Alex.Power
import Alex.Stale
import Alex.Stops
import Alex.Acknowledge
import Alex.Response
import Alex.Writes
import Alex.Control
import Alex.ClientThreads
import Alex.Leak
import Alex.Listener
import Alex.Wrap
import Alex.Standing
import Alex.Odometry
import Alex.Range
import Alex.Clears
import Alex.Keyboard
import Alex.Lines
import Alex.Phantom
import Alex.Backlog
import Alex.Lib.Strings
import Alex.Message
import Alex.Lib.Interrupts
import Alex.Statements
import Alex.Ticks
import Alex.Lib.Channel
import Alex.System
import Alex.Orders
import Alex.Answers
import Alex.Session
import Alex.Progress
import Alex.Lib.Scanner
import Alex.Lib.Segments
import Alex.Lidar
import Alex.Scans
import Alex.ScanData
import Alex.Lib.Circle
import Alex.Capsules
import Alex.Express
import Alex.ExpressScans
import Alex.Lib.Exchange
import Alex.Ascend
import Alex.Transactions
import Alex.Calls
import Alex.Told
import Alex.Starting
import Alex.Replies
