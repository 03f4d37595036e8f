import LinuxLabs.ByteMemory

/-! The binder wire protocol of the 32-bit build: `binder_size_t`, `binder_uintptr_t`,
`size_t` and pointers are all four bytes wide. Structures are given by their field offsets
in memory, command words by the ioctl encoding of the kernel header. -/
namespace LinuxLabs.Binder
open ByteMemory

/-- The kernel's `_IOC` packing: two direction bits, fourteen size bits, type and number. -/
def ioc (dir type nr size : ℕ) : UInt32 := UInt32.ofNat (dir*2^30 + size*2^16 + type*2^8 + nr)

def io (type : Char) (nr : ℕ) : UInt32 := ioc 0 type.toNat nr 0
def ior (type : Char) (nr size : ℕ) : UInt32 := ioc 2 type.toNat nr size

def bPackChars (c1 c2 c3 c4 : ℕ) : UInt32 := UInt32.ofNat (c1*2^24 + c2*2^16 + c3*2^8 + c4)

def bTypeLarge : ℕ := 0x85
def binderTypeBinder : UInt32 := bPackChars 's'.toNat 'b'.toNat '*'.toNat bTypeLarge
def binderTypeHandle : UInt32 := bPackChars 's'.toNat 'h'.toNat '*'.toNat bTypeLarge

def flatBinderFlagAcceptsFds : UInt32 := 0x100

def tfOneWay : UInt32 := 0x01
def tfStatusCode : UInt32 := 0x08

def sizeofSizeT : ℕ := 4
def sizeofFlatBinderObject : ℕ := 16
def sizeofBinderTransactionData : ℕ := 40
def sizeofBinderPtrCookie : ℕ := 8
def sizeofBinderUintptr : ℕ := 4

def brTransaction : UInt32 := ior 'r' 2 sizeofBinderTransactionData
def brReply : UInt32 := ior 'r' 3 sizeofBinderTransactionData
def brDeadReply : UInt32 := io 'r' 5
def brTransactionComplete : UInt32 := io 'r' 6
def brIncrefs : UInt32 := ior 'r' 7 sizeofBinderPtrCookie
def brAcquire : UInt32 := ior 'r' 8 sizeofBinderPtrCookie
def brRelease : UInt32 := ior 'r' 9 sizeofBinderPtrCookie
def brDecrefs : UInt32 := ior 'r' 10 sizeofBinderPtrCookie
def brNoop : UInt32 := io 'r' 12
def brSpawnLooper : UInt32 := io 'r' 13
def brDeadBinder : UInt32 := ior 'r' 15 sizeofBinderUintptr
def brFailedReply : UInt32 := io 'r' 17

/-- The one magic handle. -/
def binderServiceManager : UInt32 := 0

def pingTransaction : UInt32 := bPackChars '_'.toNat 'P'.toNat 'N'.toNat 'G'.toNat
def svcMgrGetService : UInt32 := 1
def svcMgrCheckService : UInt32 := 2
def svcMgrAddService : UInt32 := 3
def svcMgrListServices : UInt32 := 4

structure BinderTransactionData where
  target : UInt32
  cookie : UInt32
  code : UInt32
  flags : UInt32
  senderPid : UInt32
  senderEuid : UInt32
  dataSize : UInt32
  offsetsSize : UInt32
  buffer : UInt32
  offsets : UInt32
  deriving DecidableEq, Repr

/-- The forty bytes of a `binder_transaction_data`, field after field. -/
def BinderTransactionData.load (m : Mem) (a : ℕ) : BinderTransactionData where
  target := load32 m a
  cookie := load32 m (a+4)
  code := load32 m (a+8)
  flags := load32 m (a+12)
  senderPid := load32 m (a+16)
  senderEuid := load32 m (a+20)
  dataSize := load32 m (a+24)
  offsetsSize := load32 m (a+28)
  buffer := load32 m (a+32)
  offsets := load32 m (a+36)

def BinderTransactionData.bytes (t : BinderTransactionData) : List UInt8 :=
  bytes32 t.target ++ bytes32 t.cookie ++ bytes32 t.code ++ bytes32 t.flags ++
    bytes32 t.senderPid ++ bytes32 t.senderEuid ++ bytes32 t.dataSize ++
    bytes32 t.offsetsSize ++ bytes32 t.buffer ++ bytes32 t.offsets

/-- A transaction as the driver takes it from a `BC_TRANSACTION` or `BC_REPLY`: the data
and the offset table are copied out of the sender's memory during the write. -/
structure OutgoingTxn where
  target : UInt32
  code : UInt32
  flags : UInt32
  data : List UInt8
  offsets : List UInt32
  deriving DecidableEq, Repr

/-- The commands this library writes to the driver. -/
inductive BinderCommand
  | transaction (txn : OutgoingTxn)
  | reply (txn : OutgoingTxn)
  | freeBuffer (buffer : UInt32)
  | acquire (target : UInt32)
  | release (target : UInt32)
  | requestDeathNotification (handle cookie : UInt32)
  | registerLooper
  | enterLooper
  deriving DecidableEq, Repr

end LinuxLabs.Binder
