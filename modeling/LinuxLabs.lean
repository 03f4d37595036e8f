import LinuxLabs.ByteMemory
import LinuxLabs.EventRun
import LinuxLabs.LastWriter
import LinuxLabs.PointerChain
import LinuxLabs.ScatterGather
import LinuxLabs.IntrusiveList
import LinuxLabs.ResourceLedger
import LinuxLabs.BinderProtocol
import LinuxLabs.BinderIo
import LinuxLabs.BinderIoWrite
import LinuxLabs.BinderIoRead
import LinuxLabs.BinderIoBounds
import LinuxLabs.BinderIoSticky
import LinuxLabs.BinderIoRoundtrip
import LinuxLabs.BinderParse
import LinuxLabs.BinderDelivery
import LinuxLabs.BinderStream
import LinuxLabs.BinderParseBounds
import LinuxLabs.BinderCall
import LinuxLabs.BinderCallContract
import LinuxLabs.BinderReply
import LinuxLabs.BinderOpen
import LinuxLabs.BinderIoCapacity
import LinuxLabs.BinderIoNull
import LinuxLabs.BinderIoTable
import LinuxLabs.BinderIoWidth
import LinuxLabs.BinderIoWidthTable
import LinuxLabs.ServiceManager
import LinuxLabs.ServiceManagerWire
import LinuxLabs.ServiceManagerRegistry
import LinuxLabs.ServiceManagerAdd
import LinuxLabs.ServiceManagerLookup
import LinuxLabs.ServiceManagerIsolation
import LinuxLabs.ServerLoop
import LinuxLabs.BinderBuffers
import LinuxLabs.ServiceManagerRefs
import LinuxLabs.ServiceManagerHeap
import LinuxLabs.ServiceManagerDeath
import LinuxLabs.ServiceManagerListing
import LinuxLabs.ServiceClients
import LinuxLabs.ServiceEndToEnd
import LinuxLabs.HelloService
import LinuxLabs.HelloServiceBounds
import LinuxLabs.TestClient
import LinuxLabs.TestSystem
import LinuxLabs.GlobalVar
import LinuxLabs.GlobalVarWait
import LinuxLabs.GlobalVarBounds
import LinuxLabs.StudentStore
import LinuxLabs.StudentNames
import LinuxLabs.StudentHeap
import LinuxLabs.StudentClassify
import LinuxLabs.StudentMemory
import LinuxLabs.RamDisk
import LinuxLabs.RamDiskChecks
import LinuxLabs.RamDiskStore
import LinuxLabs.RamDiskDrivers
import LinuxLabs.RamDiskLifecycle
import LinuxLabs.EpollServer
import LinuxLabs.EpollClient
import LinuxLabs.EpollStreams
import LinuxLabs.CommandHash
import LinuxLabs.CommandHashCleanup
import LinuxLabs.CommandHashCalls
import LinuxLabs.TraceTimer
