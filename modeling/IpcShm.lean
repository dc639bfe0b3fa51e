import IpcShm.Program
import IpcShm.ByteMem
import IpcShm.Cyclic
import IpcShm.Holdings
import IpcShm.Types
import IpcShm.Queue
import IpcShm.Instance
import IpcShm.Transfer
import IpcShm.Window
import IpcShm.Interleaving
import IpcShm.QueueConcurrent
import IpcShm.HandshakeSteps
import IpcShm.Handshake
import IpcShm.Crash
import IpcShm.Ring
import IpcShm.Tiling
import IpcShm.Layout
import IpcShm.Placement
import IpcShm.InstanceLayout
import IpcShm.RxLoop
import IpcShm.DataPath
import IpcShm.Interference
import IpcShm.Descriptors
import IpcShm.Traffic
import IpcShm.SharedQueues
import IpcShm.InitMemory
import IpcShm.Peers
import IpcShm.PeerCalls
import IpcShm.PeerSystem
import IpcShm.Reception
import IpcShm.Fairness
import IpcShm.Polling
import IpcShm.InitBounds
import IpcShm.InitWindow
import IpcShm.ArgumentChecks
import IpcShm.RoundTrip
import IpcShm.BestFit
import IpcShm.UnmanagedSteps
import IpcShm.Notifications
import IpcShm.HostMemory
import IpcShm.HostInit
import IpcShm.Teardown
import IpcShm.PeerRuns
import IpcShm.Ownership
import IpcShm.Delivery
import IpcShm.QueueInit
import IpcShm.UioModule
import IpcShm.Paging
import IpcShm.UserMapping
import IpcShm.UioLibrary
import IpcShm.UserWindows
import IpcShm.KernelOs
import IpcShm.Interrupts
import IpcShm.Controller
import IpcShm.OsCalls
import IpcShm.Rollback
import IpcShm.Lifecycle
import IpcShm.UioDevices
import IpcShm.UioCommands
import IpcShm.IrqReception
import IpcShm.RemoteSide
import IpcShm.SoftIrq
import IpcShm.Wakeup
import IpcShm.Liveness
import IpcShm.UioWakeup
import IpcShm.Payload
import IpcShm.Restart
import IpcShm.Doorbells
import IpcShm.Platforms
