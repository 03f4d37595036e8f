import LinuxLabs.BinderParse

/-! The service manager: the registry `svclist`, the death callback and the transaction
handler. Entries keep the address they were allocated at, since that is what a death cookie
names; the order of `svclist` is the order of the `next` chain. Log output is left out. -/
namespace LinuxLabs.ServiceManager
open ByteMemory Binder

def aidUser : ℕ := 100000
def aidIsolatedStart : ℕ := 99000
def aidIsolatedEnd : ℕ := 99999

def svcmgrHandle : UInt32 := binderServiceManager

/-- The functions a `binder_death` of this program can point to. -/
inductive DeathFunc
  | svcinfoDeath
  deriving DecidableEq, Repr

structure BinderDeath where
  func : DeathFunc
  ptr : UInt32
  deriving DecidableEq, Repr

/-- `name` holds `len + 1` units, the last one zero. -/
structure SvcInfo where
  addr : UInt32
  handle : UInt32
  death : BinderDeath
  allowIsolated : Bool
  len : ℕ
  name : List UInt16
  deriving DecidableEq, Repr

/-- The address of the `death` member, behind `next` and `handle`. -/
def SvcInfo.cookie (si : SvcInfo) : UInt32 := si.addr + 8

/-- The registry and what the allocator is going to answer; zero is a failed allocation. -/
structure SvcState where
  svclist : List SvcInfo
  mallocs : List UInt32
  deriving DecidableEq, Repr

/-- The next answer of the allocator. It never hands out an address that is still in use, and
entries are never freed. -/
def malloc (st : SvcState) : UInt32 × SvcState :=
  match st.mallocs with
  | [] => (0, st)
  | p :: ps => (if p ∈ st.svclist.map SvcInfo.addr then 0 else p, { st with mallocs := ps })

def str8Loop (m : Mem) (x : ℕ) : ℕ → List UInt8
  | 0 => []
  | max + 1 =>
    if load16 m x = 0 then [] else (load16 m x).toUInt8 :: str8Loop m (x + 2) max

def str8 (m : Mem) (x xLen : ℕ) : List UInt8 := str8Loop m x (min xLen 127)

def checkMacPermsFromGetcon (_spid : UInt32) (_perm : String) : Bool := true

def checkMacPermsFromLookup (_spid : UInt32) (_perm : String) (_name : List UInt8) : Bool := true

def svcCanRegister (m : Mem) (name nameLen : ℕ) (spid : UInt32) : Bool :=
  checkMacPermsFromLookup spid "add" (str8 m name nameLen)

def svcCanList (spid : UInt32) : Bool := checkMacPermsFromGetcon spid "list"

def svcCanFind (m : Mem) (name nameLen : ℕ) (spid : UInt32) : Bool :=
  checkMacPermsFromLookup spid "find" (str8 m name nameLen)

/-- The first entry of the same length whose units compare equal. -/
def findSvc (m : Mem) (s16 len : ℕ) (svclist : List SvcInfo) : Option SvcInfo :=
  svclist.find? fun si => decide (len = si.len) && decide (units m s16 len = si.name.take len)

/-- The store `si->handle = handle` through a pointer to an entry. -/
def setHandle (svclist : List SvcInfo) (addr handle : UInt32) : List SvcInfo :=
  svclist.map fun si => if si.addr = addr then { si with handle := handle } else si

def storeHandle (w : World SvcState) (addr handle : UInt32) : World SvcState :=
  { w with app := { w.app with svclist := setHandle w.app.svclist addr handle } }

/-- A pointer that is no entry is never passed; the model then leaves the state alone. -/
def svcinfoDeath (w : World SvcState) (ptr : UInt32) : World SvcState :=
  match w.app.svclist.find? (fun si => si.addr = ptr) with
  | none => w
  | some si => if si.handle ≠ 0 then storeHandle (binderRelease w si.handle) ptr 0 else w

/-- The call `death->func(bs, death->ptr)` through the cookie of a `BR_DEAD_BINDER`. -/
def deadBinder (cookie : UInt32) (w : World SvcState) : World SvcState :=
  match w.app.svclist.find? (fun si => si.cookie = cookie) with
  | none => w
  | some si =>
    match si.death.func with
    | .svcinfoDeath => svcinfoDeath w si.death.ptr

def svcmgrId : List UInt16 := "android.os.IServiceManager".toList.map fun c => UInt16.ofNat c.toNat

def isIsolated (uid : UInt32) : Prop :=
  aidIsolatedStart ≤ uid.toNat % aidUser ∧ uid.toNat % aidUser ≤ aidIsolatedEnd

instance (uid : UInt32) : Decidable (isIsolated uid) := inferInstanceAs (Decidable (_ ∧ _))

def doFindService (st : SvcState) (m : Mem) (s len : ℕ) (uid spid : UInt32) : UInt32 :=
  if !svcCanFind m s len spid then 0
  else
    match findSvc m s len st.svclist with
    | none => 0
    | some si =>
      if si.handle ≠ 0 then
        if !si.allowIsolated && decide (isIsolated uid) then 0 else si.handle
      else 0

/-- Registration. An existing entry only gets the new handle; a new one is put in front. -/
def doAddService (w : World SvcState) (m : Mem) (s len : ℕ) (handle : UInt32)
    (allowIsolated : Bool) (spid : UInt32) : Int32 × World SvcState :=
  if handle = 0 ∨ len = 0 ∨ 127 < len then (-1, w)
  else if !svcCanRegister m s len spid then (-1, w)
  else
    match findSvc m s len w.app.svclist with
    | some si =>
      let w := if si.handle ≠ 0 then svcinfoDeath w si.addr else w
      let w := storeHandle w si.addr handle
      (0, binderLinkToDeath (binderAcquire w handle) handle si.cookie)
    | none =>
      let (si, st) := malloc w.app
      let w := { w with app := st }
      if si = 0 then (-1, w)
      else
        let entry : SvcInfo :=
          { addr := si
            handle := handle
            death := ⟨.svcinfoDeath, si⟩
            allowIsolated := allowIsolated
            len := len
            name := (units m s (len + 1)).set len 0 }
        let w := { w with app := { w.app with svclist := entry :: w.app.svclist } }
        (0, binderLinkToDeath (binderAcquire w handle) handle entry.cookie)

/-- `while ((n-- > 0) && si) si = si->next`. -/
def nthSvc : ℕ → List SvcInfo → Option SvcInfo
  | 0, l => l.head?
  | _ + 1, [] => none
  | n + 1, _ :: l => nthSvc n l

def svcmgrHandler : BinderHandler SvcState := fun txn msg reply w =>
  if txn.target ≠ svcmgrHandle then (-1, reply, w)
  else if txn.code = pingTransaction then (0, reply, w)
  else
    let msg := (bioGetUint32 msg).2
    match bioGetString16 msg with
    | (none, _, _) => (-1, reply, w)
    | (some s, len, msg) =>
      if len ≠ svcmgrId.length ∨ units msg.mem s svcmgrId.length ≠ svcmgrId then (-1, reply, w)
      else if txn.code = svcMgrGetService ∨ txn.code = svcMgrCheckService then
        match bioGetString16 msg with
        | (none, _, _) => (-1, reply, w)
        | (some s, len, msg) =>
          let handle := doFindService w.app msg.mem s len txn.senderEuid txn.senderPid
          if handle = 0 then (0, bioPutUint32 reply 0, w) else (0, bioPutRef reply handle, w)
      else if txn.code = svcMgrAddService then
        match bioGetString16 msg with
        | (none, _, _) => (-1, reply, w)
        | (some s, len, msg) =>
          let (handle, msg) := bioGetRef msg
          let allowIsolated := decide ((bioGetUint32 msg).1 ≠ 0)
          let (status, w) := doAddService w msg.mem s len handle allowIsolated txn.senderPid
          if status ≠ 0 then (-1, reply, w) else (0, bioPutUint32 reply 0, w)
      else if txn.code = svcMgrListServices then
        let n := (bioGetUint32 msg).1
        if !svcCanList txn.senderPid then (-1, reply, w)
        else
          match nthSvc n.toNat w.app.svclist with
          | none => (-1, reply, w)
          | some si => (0, bioPutString16 reply (some si.name), w)
      else (-1, reply, w)

end LinuxLabs.ServiceManager
