import Line6.Lib.RingLog
import Line6.Lib.Window
import Line6.Lib.Utf8
import Line6.Lib.Ticks
import Line6.Lib.Trace
import Line6.Lib.Streak
import Line6.Lib.RefCount
import Line6.Lib.Announce
import Line6.Lib.Amid
import Line6.Lib.Turns
import Line6.Lib.Credit
import Line6.Lib.Binary
import Line6.Lib.Struct
import Line6.Lib.Refine
import Line6.Lib.Secluded
import Line6.Shm
import Line6.Plugin.Io
import Line6.Plugin.Cursor
import Line6.Plugin.Hostile
import Line6.Plugin.Resync
import Line6.Plugin.Timeline
import Line6.Plugin.Lifecycle
import Line6.Plugin.Name
import Line6.Plugin.Presence
import Line6.Plugin.NameCache
import Line6.Plugin.Property
import Line6.Plugin.Sweep
import Line6.Plugin.Buffer
import Line6.Plugin.Layout
import Line6.System
import Line6.System.Lock
import Line6.System.Producer
import Line6.System.Fidelity
import Line6.System.HotSwap
import Line6.System.Format
import Line6.System.Mutex
import Line6.System.Sessions
import Line6.Daemon.Push
import Line6.Daemon.Float
import Line6.Daemon.Usb
import Line6.Daemon.Framing
import Line6.Daemon.Engine
import Line6.Daemon.Teardown
import Line6.Daemon.Main
import Line6.Daemon.Instances
import Line6.Daemon.Exit
import Line6.Daemon.Loop
import Line6.System.Footprint
import Line6.System.DeviceList
import Line6.System.Clients
import Line6.System.Stream
import Line6.System.Image
import Line6.System.Serving
import Line6.System.Listening
import Line6.System.CommandLine
import Line6.Lib.Uphold
import Line6.System.Upkeep
import Line6.System.Watching
