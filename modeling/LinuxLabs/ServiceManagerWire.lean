import LinuxLabs.ServiceManager
import LinuxLabs.BinderIoRead

/-! What the service manager reads out of a message. The decoder calls of `svcmgr_handler` are
resolved once into fixed positions of the message: the interface header fills the first 64
bytes, a name follows at 64, an object behind the block of the name. -/
namespace LinuxLabs.ServiceManager
open ByteMemory Binder

/-- The message of a transaction, as memory and as the driver describes it. -/
structure Message where
  mem : Mem
  txn : BinderTransactionData

namespace Message

def size (msg : Message) : ℕ := msg.txn.dataSize.toNat

/-- The word at an offset of the data. -/
def word (msg : Message) (off : ℕ) : UInt32 := load32 msg.mem (msg.txn.buffer.toNat + off)

/-- The units at an offset of the data. -/
def unitsAt (msg : Message) (off n : ℕ) : List UInt16 :=
  units msg.mem (msg.txn.buffer.toNat + off) n

/-- The strict-mode word, the length 26 and the interface name with its terminator. -/
def HeaderOk (msg : Message) : Prop :=
  64 ≤ msg.size ∧ msg.word 4 = 26 ∧ msg.unitsAt 8 26 = svcmgrId

instance (msg : Message) : Decidable msg.HeaderOk := inferInstanceAs (Decidable (_ ∧ _ ∧ _))

def nameLen (msg : Message) : ℕ := (msg.word 64).toNat

/-- The length word of the name and its block are inside the data. -/
def NameFits (msg : Message) : Prop := 68 + stringBlock msg.nameLen ≤ msg.size

instance (msg : Message) : Decidable msg.NameFits := inferInstanceAs (Decidable (_ ≤ _))

def objOffset (msg : Message) : ℕ := 68 + stringBlock msg.nameLen

/-- A complete object behind the name, at an offset that the driver lists. -/
def ObjOk (msg : Message) : Prop :=
  (∃ n < msg.txn.offsetsSize.toNat / 4,
    (load32 msg.mem (msg.txn.offsets.toNat + 4*n)).toNat = msg.objOffset) ∧
    msg.objOffset + 16 ≤ msg.size

instance (msg : Message) : Decidable msg.ObjOk := inferInstanceAs (Decidable ((∃ n < _, _) ∧ _))

/-- The handle an ADD message carries, zero if its object does not name one. -/
def handle (msg : Message) : UInt32 :=
  if msg.ObjOk ∧ msg.word msg.objOffset = binderTypeHandle then msg.word (msg.objOffset + 8) else 0

/-- The word behind the object, if the message goes that far. -/
def allowIsolated (msg : Message) : Bool :=
  decide (msg.ObjOk ∧ msg.objOffset + 20 ≤ msg.size ∧ msg.word (msg.objOffset + 16) ≠ 0)

def index (msg : Message) : ℕ := if 68 ≤ msg.size then (msg.word 64).toNat else 0

/-- The address of the name in memory. -/
def nameAddr (msg : Message) : ℕ := msg.txn.buffer.toNat + 68

def reader (msg : Message) : Parcel := bioInitFromTxn msg.mem msg.txn

/-- The reader behind the interface header. -/
def body (msg : Message) : Parcel := ⟨msg.mem, msg.reader.io.advance 64 0⟩

theorem reader_dataAvail (msg : Message) : msg.reader.io.dataAvail = msg.size := rfl

theorem stringBlock_header : stringBlock 26 = 56 := by decide

/-- A header in order leaves the cursor behind it. -/
theorem header_ok {msg : Message} (h : msg.HeaderOk) :
    bioGetString16 (bioGetUint32 msg.reader).2 =
      (some (msg.txn.buffer.toNat + 8), 26, msg.body) := by
  have hs := h.1
  have hw : (msg.word 4).toNat = 26 := by rw [h.2.1]; rfl
  have hu := bioGetUint32_fits (p := msg.reader) (by rw [reader_dataAvail]; omega)
  have havail : (msg.reader.io.advance 4 0).dataAvail = msg.size - 4 := rfl
  rw [hu, bioGetString16_fits (p := ⟨msg.reader.mem, msg.reader.io.advance 4 0⟩) (n := 26)
    (by simp only [havail]; omega) hw (by simp only [havail, stringBlock_header]; omega)]
  simp only [advance_advance, stringBlock_header]
  rfl

/-- Any string the header check accepts comes from a header in order. -/
theorem header_of_accepted {msg : Message} {s len : ℕ} {p : Parcel}
    (h : bioGetString16 (bioGetUint32 msg.reader).2 = (some s, len, p))
    (hlen : len = svcmgrId.length) (hid : units p.mem s svcmgrId.length = svcmgrId) :
    msg.HeaderOk := by
  have h26 : svcmgrId.length = 26 := by decide
  rw [h26] at hlen hid
  by_cases h4 : msg.size < 4
  · rw [bioGetUint32_short h4, bioGetString16_short (by simp)] at h
    simp at h
  rw [bioGetUint32_fits (Nat.le_of_not_lt h4)] at h
  have havail : (msg.reader.io.advance 4 0).dataAvail = msg.size - 4 := rfl
  by_cases h8 : msg.size - 4 < 4
  · rw [bioGetString16_short h8] at h
    simp at h
  by_cases hb : msg.size - 4 < 4 + stringBlock (msg.word 4).toNat
  · rw [bioGetString16_long (Nat.le_of_not_lt h8) rfl hb] at h
    simp at h
  · rw [bioGetString16_fits (Nat.le_of_not_lt h8) rfl (Nat.le_of_not_lt hb)] at h
    simp only [Prod.mk.injEq, Option.some.injEq] at h
    obtain ⟨rfl, hl, rfl⟩ := h
    have hw : (msg.word 4).toNat = 26 := hl.trans hlen
    rw [hw, stringBlock_header] at hb
    exact ⟨by omega, UInt32.toNat_inj.mp hw, hid⟩

theorem body_dataAvail (msg : Message) : msg.body.io.dataAvail = msg.size - 64 := rfl

theorem name_fits {msg : Message} (hs : 64 ≤ msg.size) (h : msg.NameFits) :
    bioGetString16 msg.body = (some msg.nameAddr, msg.nameLen,
      ⟨msg.mem, msg.reader.io.advance msg.objOffset 0⟩) := by
  unfold NameFits at h
  rw [bioGetString16_fits (p := msg.body) (n := msg.nameLen) (by rw [body_dataAvail]; omega) rfl
    (by rw [body_dataAvail]; omega)]
  simp only [body, advance_advance, Prod.mk.injEq, Option.some.injEq, true_and]
  refine ⟨rfl, ?_⟩
  rw [← Nat.add_assoc]
  rfl

theorem name_long {msg : Message} (h : ¬ msg.NameFits) :
    ∃ len p, bioGetString16 msg.body = (none, len, p) := by
  by_cases h4 : msg.size - 64 < 4
  · exact ⟨_, _, bioGetString16_short h4⟩
  · unfold NameFits at h
    have h4' : 4 ≤ msg.body.io.dataAvail := Nat.le_of_not_lt h4
    have hb : msg.body.io.dataAvail < 4 + stringBlock msg.nameLen := by
      rw [body_dataAvail] at h4' ⊢
      omega
    exact ⟨_, _, bioGetString16_long h4' rfl hb⟩

/-- The object and the word behind it, read from behind the name. -/
theorem handle_get {msg : Message} (h : msg.NameFits) :
    let r := bioGetRef ⟨msg.mem, msg.reader.io.advance msg.objOffset 0⟩
    r.1 = msg.handle ∧ r.2.mem = msg.mem ∧
      decide ((bioGetUint32 r.2).1 ≠ 0) = msg.allowIsolated := by
  set p : Parcel := ⟨msg.mem, msg.reader.io.advance msg.objOffset 0⟩ with hp
  have havail : p.io.dataAvail = msg.size - msg.objOffset := rfl
  have hlisted : p.Listed ∧ 16 ≤ p.io.dataAvail ↔ msg.ObjOk := by
    have hoff : p.io.data - p.io.data0 = msg.objOffset := Nat.add_sub_cancel_left _ _
    simp only [Parcel.Listed, ObjOk, hoff, havail]
    apply and_congr Iff.rfl
    unfold NameFits at h
    unfold objOffset
    omega
  by_cases ho : msg.ObjOk
  · obtain ⟨hl, h16⟩ := hlisted.mpr ho
    rw [bioGetRef_fits hl h16]
    refine ⟨?_, rfl, ?_⟩
    · simp only [handle, ho, true_and]
      rfl
    · by_cases h20 : msg.objOffset + 20 ≤ msg.size
      · rw [bioGetUint32_fits (by simp only [BinderIo.advance, havail]; omega)]
        simp only [allowIsolated, ho, h20, true_and]
        rfl
      · rw [bioGetUint32_short (by simp only [BinderIo.advance, havail]; omega)]
        simp [allowIsolated, h20]
  · have hn := mt hlisted.mp ho
    rw [bioGetRef_fails hn]
    refine ⟨by simp [handle, ho], rfl, ?_⟩
    rw [bioGetUint32_short (by simp)]
    simp [allowIsolated, ho]

theorem index_get {msg : Message} : (bioGetUint32 msg.body).1.toNat = msg.index := by
  by_cases h : 68 ≤ msg.size
  · rw [bioGetUint32_fits (by rw [body_dataAvail]; omega)]
    simp only [index, h, if_true]
    rfl
  · rw [bioGetUint32_short (by rw [body_dataAvail]; omega)]
    simp [index, h]

end Message

/-- The requests the handler tells apart once a message is decoded. -/
inductive Request
  | reject
  | ping
  | find (s len : ℕ)
  | add (s len : ℕ) (handle : UInt32) (allowIsolated : Bool)
  | list (n : ℕ)
  deriving DecidableEq, Repr

def Message.request (msg : Message) : Request :=
  if msg.txn.target ≠ svcmgrHandle then .reject
  else if msg.txn.code = pingTransaction then .ping
  else if ¬ msg.HeaderOk then .reject
  else if msg.txn.code = svcMgrGetService ∨ msg.txn.code = svcMgrCheckService then
    if msg.NameFits then .find msg.nameAddr msg.nameLen else .reject
  else if msg.txn.code = svcMgrAddService then
    if msg.NameFits then .add msg.nameAddr msg.nameLen msg.handle msg.allowIsolated else .reject
  else if msg.txn.code = svcMgrListServices then .list msg.index
  else .reject

/-- What the handler does with a request. -/
def Request.perform (msg : Message) (reply : Parcel) (w : World SvcState) :
    Request → Int32 × Parcel × World SvcState
  | .reject => (-1, reply, w)
  | .ping => (0, reply, w)
  | .find s len =>
    let handle := doFindService w.app msg.mem s len msg.txn.senderEuid msg.txn.senderPid
    if handle = 0 then (0, bioPutUint32 reply 0, w) else (0, bioPutRef reply handle, w)
  | .add s len handle allowIsolated =>
    let out := doAddService w msg.mem s len handle allowIsolated msg.txn.senderPid
    if out.1 ≠ 0 then (-1, reply, out.2) else (0, bioPutUint32 reply 0, out.2)
  | .list n =>
    match nthSvc n w.app.svclist with
    | none => (-1, reply, w)
    | some si => (0, bioPutString16 reply (some si.name), w)

/-- The handler is the decoder followed by the performance of the request. -/
theorem svcmgrHandler_request (msg : Message) (reply : Parcel) (w : World SvcState) :
    svcmgrHandler msg.txn msg.reader reply w = msg.request.perform msg reply w := by
  by_cases ht : msg.txn.target = svcmgrHandle
  swap
  · simp [svcmgrHandler, Message.request, ht, Request.perform]
  by_cases hp : msg.txn.code = pingTransaction
  · simp [svcmgrHandler, Message.request, ht, hp, Request.perform]
  by_cases hh : msg.HeaderOk
  swap
  · -- a header that is not in order fails one of the two checks
    simp only [svcmgrHandler, Message.request, ht, hp, hh, Request.perform, ne_eq,
      not_true_eq_false, not_false_eq_true, if_true, if_false]
    cases hg : bioGetString16 (bioGetUint32 msg.reader).2 with
    | mk ptr rest =>
      obtain ⟨len, p⟩ := rest
      cases ptr with
      | none => rfl
      | some s =>
        have hbad : len ≠ svcmgrId.length ∨ units p.mem s svcmgrId.length ≠ svcmgrId := by
          by_contra hn
          rw [not_or, not_ne_iff, not_ne_iff] at hn
          exact hh (Message.header_of_accepted hg hn.1 hn.2)
        exact if_pos hbad
  have hs : 64 ≤ msg.size := hh.1
  have hid : ¬ (26 ≠ svcmgrId.length ∨ units msg.body.mem (msg.txn.buffer.toNat + 8)
      svcmgrId.length ≠ svcmgrId) := by
    have h26 : svcmgrId.length = 26 := by decide
    rw [h26, not_or, not_ne_iff, not_ne_iff]
    exact ⟨rfl, hh.2.2⟩
  simp only [svcmgrHandler, Message.request, ht, hp, hh, ne_eq, not_true_eq_false, if_false,
    Message.header_ok hh, hid]
  by_cases hf : msg.txn.code = svcMgrGetService ∨ msg.txn.code = svcMgrCheckService
  · rw [if_pos hf, if_pos hf]
    by_cases hn : msg.NameFits
    · simp only [Message.name_fits hs hn, hn, if_true, Request.perform]
    · obtain ⟨len, p, hg⟩ := Message.name_long hn
      simp only [hg, hn, if_false, Request.perform]
  by_cases ha : msg.txn.code = svcMgrAddService
  · rw [if_neg hf, if_neg hf, if_pos ha, if_pos ha]
    by_cases hn : msg.NameFits
    · obtain ⟨h1, h2, h3⟩ := Message.handle_get hn
      simp only [Message.name_fits hs hn, hn, if_true, h1, h2, h3, Request.perform]
    · obtain ⟨len, p, hg⟩ := Message.name_long hn
      simp only [hg, hn, if_false, Request.perform]
  by_cases hl : msg.txn.code = svcMgrListServices
  · rw [if_neg hf, if_neg hf, if_neg ha, if_neg ha, if_pos hl, if_pos hl]
    cases hn : nthSvc msg.index w.app.svclist <;>
      simp only [Request.perform, Message.index_get, svcCanList, checkMacPermsFromGetcon,
        Bool.not_true, Bool.false_eq_true, if_false, hn]
  · rw [if_neg hf, if_neg hf, if_neg ha, if_neg ha, if_neg hl, if_neg hl]
    rfl

/-- What a handler call does to the program, by the decoded request. -/
theorem svcmgrHandler_world (msg : Message) (reply : Parcel) (w : World SvcState) :
    (svcmgrHandler msg.txn msg.reader reply w).2.2 = match msg.request with
      | .add s len handle iso => (doAddService w msg.mem s len handle iso msg.txn.senderPid).2
      | _ => w := by
  rw [svcmgrHandler_request]
  cases msg.request with
  | reject => rfl
  | ping => rfl
  | find s len => simp only [Request.perform]; split_ifs <;> rfl
  | add s len handle iso => simp only [Request.perform]; split_ifs <;> rfl
  | list n => simp only [Request.perform]; split <;> rfl

/-- A request with the interface header and a name, in memory from address zero on. -/
def lookupMem (name : List UInt16) : Mem :=
  storeUnits (store32 (storeUnits (store32 (fun _ => 0) 4 26) 8 svcmgrId) 64
    (UInt32.ofNat name.length)) 68 name

def requestTxn (code uid : UInt32) (size offsets : ℕ) : BinderTransactionData :=
  { target := svcmgrHandle, cookie := 0, code := code, flags := 0, senderPid := 1
    senderEuid := uid, dataSize := UInt32.ofNat size, offsetsSize := UInt32.ofNat (4 * offsets)
    buffer := 0, offsets := 4096 }

/-- An ADD request: behind the name an object with its offset listed, and the flag word. -/
def addMessage (name : List UInt16) (handle iso : UInt32) : Message :=
  let off := 68 + stringBlock name.length
  ⟨store32 (store32 (fillObj (lookupMem name) off binderTypeHandle handle) (off + 16) iso) 4096
      (UInt32.ofNat off),
    requestTxn svcMgrAddService 1000 (off + 20) 1⟩

end LinuxLabs.ServiceManager
