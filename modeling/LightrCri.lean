import LightrCri.Fake.Status
import LightrCri.Fake.Start
import LightrCri.Fake.Quiescence
import LightrCri.Fake.Referential
import LightrCri.Fake.Orphan
import LightrCri.Fake.Stop
import LightrCri.Fake.Recovery
import LightrCri.Fake.Signal
import LightrCri.Attach.Broadcast
import LightrCri.Attach.Table
import LightrCri.Attach.Sessions
import LightrCri.Stream.Server
import LightrCri.Stream.Duplex
import LightrCri.Stream.Drain
import LightrCri.Stream.Release
import LightrCri.Spdy.InStep
import LightrCri.Spdy.Isolation
import LightrCri.Spdy.Routing
import LightrCri.Spdy.Fin
import LightrCri.Spdy.Detach
import LightrCri.Spdy.Refusal
import LightrCri.Attach.Log
import LightrCri.Attach.Terminal
import LightrCri.Spdy.ReadFrame
import LightrCri.Fake.Mirror
import LightrCri.Shell.Images
import LightrCri.Fake.ImageRace
import LightrCri.Fake.Stopped
import LightrCri.Fake.Commands
import LightrCri.Spdy.HeaderBlock
import LightrCri.Stream.Base64
import LightrCri.Net.ChainOrder
import LightrCri.Fake.Deadline
import LightrCri.Stream.ReadAny
import LightrCri.Stream.Slots
import LightrCri.Spdy.StdinEof
import LightrCri.Spdy.Teardown
import LightrCri.Stream.Stdin
import LightrCri.Fake.ExecAnswer
import LightrCri.Fake.ExecTree
import LightrCri.Fake.AtomicWrite
import LightrCri.Fake.Crash
import LightrCri.Attach.Calendar
import LightrCri.Fake.ProcStats
import LightrCri.Shell.Filters
import LightrCri.Fake.Probe
import LightrCri.Spdy.Writer
import LightrCri.Fake.Stats
import LightrCri.Fake.Netns
import LightrCri.Fake.Leftover
import LightrCri.Spdy.Resize
import LightrCri.Spdy.ZlibLoops
import LightrCri.Net.FirstIpv4
import LightrCri.Spdy.Verdict
import LightrCri.Fake.Balance
import LightrCri.Fake.Refinement
import LightrCri.Fake.Progress
import LightrCri.Shell.Streaming
import LightrCri.Spdy.Answers
import LightrCri.Fake.ExecJoin
import LightrCri.Fake.PodNetworks
import LightrCri.Fake.Reuse
import LightrCri.Fake.Times
