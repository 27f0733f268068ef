import EkBareMetal.Lib.Interact
import EkBareMetal.Lib.Memory
import EkBareMetal.Lib.Text
import EkBareMetal.Lib.Reentry
import EkBareMetal.Boot.Format
import EkBareMetal.Proofs.Format
import EkBareMetal.Proofs.Validity
import EkBareMetal.Boot.Verify
import EkBareMetal.Lib.Transition
import EkBareMetal.Proofs.Lifecycle
import EkBareMetal.Proofs.Reachable
import EkBareMetal.Boot.Store
import EkBareMetal.Boot.Reset
import EkBareMetal.Boot.Launch
import EkBareMetal.Boot.Select
import EkBareMetal.Proofs.Accounting
import EkBareMetal.Proofs.Reset
import EkBareMetal.Proofs.Select
import EkBareMetal.Proofs.Verify
import EkBareMetal.Proofs.Store
import EkBareMetal.Proofs.Selection
import EkBareMetal.Proofs.Stored
import EkBareMetal.Proofs.Strikes
import EkBareMetal.Proofs.PowerCut
import EkBareMetal.Proofs.Handler
import EkBareMetal.Proofs.Proposals
import EkBareMetal.Proofs.Uploads
import EkBareMetal.Proofs.Replacement
import EkBareMetal.Boot.Flash
import EkBareMetal.Boot.Receive
import EkBareMetal.Proofs.Flash
import EkBareMetal.Proofs.Backed
import EkBareMetal.Proofs.Calls
import EkBareMetal.Proofs.Receive
import EkBareMetal.Proofs.Update
import EkBareMetal.Proofs.Working
import EkBareMetal.Boot.Codec
import EkBareMetal.Proofs.Codec
import EkBareMetal.Ftp.Core
import EkBareMetal.Proofs.FtpEffects
import EkBareMetal.Proofs.FtpCommands
import EkBareMetal.Proofs.FtpCalls
import EkBareMetal.Proofs.FtpReplies
import EkBareMetal.Proofs.FtpPairing
import EkBareMetal.Proofs.FtpFile
import EkBareMetal.Boot.Watchdog
import EkBareMetal.Proofs.Watchdog
import EkBareMetal.Boot.RuntimeWatchdog
import EkBareMetal.Proofs.Progress
import EkBareMetal.Proofs.Quarantine
import EkBareMetal.Proofs.Erasure
import EkBareMetal.Proofs.Freshness
import EkBareMetal.Proofs.Download
import EkBareMetal.Boot.Diag
import EkBareMetal.Proofs.Diag
import EkBareMetal.Boot.Handoff
import EkBareMetal.Boot.Startup
import EkBareMetal.Boot.Snapshot
import EkBareMetal.Proofs.Admission
import EkBareMetal.Proofs.Streaming
import EkBareMetal.Boot.Service
import EkBareMetal.Tools.Workflow
import EkBareMetal.Tools.Package
import EkBareMetal.Proofs.Snapshot
import EkBareMetal.Proofs.Status
import EkBareMetal.Proofs.Advertised
import EkBareMetal.Proofs.Confirmation
import EkBareMetal.Proofs.Confirm
import EkBareMetal.Proofs.Package
import EkBareMetal.Ftp.Boot
import EkBareMetal.Proofs.FtpBoot
import EkBareMetal.Proofs.Phases
import EkBareMetal.Proofs.FtpMoves
import EkBareMetal.Proofs.FtpOpening
import EkBareMetal.Proofs.FtpDownload
import EkBareMetal.Proofs.FtpTransfer
import EkBareMetal.Lib.Alike
import EkBareMetal.Proofs.FtpTimes
import EkBareMetal.Proofs.FtpControl
import EkBareMetal.Lib.Raising
import EkBareMetal.Tools.Demo
import EkBareMetal.Lib.Moments
import EkBareMetal.Proofs.Startup
import EkBareMetal.Boot.HandoffTarget
import EkBareMetal.Proofs.HandoffTarget
import EkBareMetal.Proofs.HandoffAccepted
import EkBareMetal.Lib.Register
import EkBareMetal.Proofs.Burst
import EkBareMetal.Proofs.Manifest
import EkBareMetal.Proofs.Pages
import EkBareMetal.Ftp.RamObject
import EkBareMetal.Lib.Simulation
import EkBareMetal.Proofs.FtpLines
import EkBareMetal.Proofs.RamStore
import EkBareMetal.Boot.NetClock
import EkBareMetal.Proofs.Relock
import EkBareMetal.Lib.Frame
import EkBareMetal.Proofs.Elapsed
import EkBareMetal.Lib.Layout
import EkBareMetal.Lib.Yields
import EkBareMetal.Proofs.Signature
import EkBareMetal.Tools.Elf
import EkBareMetal.Proofs.Elf
import EkBareMetal.Lib.Beside
import EkBareMetal.Net.Ethernet
import EkBareMetal.Net.Mac
import EkBareMetal.Proofs.Framing
import EkBareMetal.Bsp.Sbrk
import EkBareMetal.Proofs.Sbrk
import EkBareMetal.Lib.Leaving
import EkBareMetal.Tools.Transport
import EkBareMetal.Proofs.Transport
import EkBareMetal.Lib.Halting
import EkBareMetal.Boot.Runtime
import EkBareMetal.Boot.ProtectedLaunch
import EkBareMetal.Proofs.Halting
import EkBareMetal.Proofs.ProtectedLaunch
import EkBareMetal.Proofs.FtpStream
import EkBareMetal.Proofs.Schedule
import EkBareMetal.Proofs.Crash
