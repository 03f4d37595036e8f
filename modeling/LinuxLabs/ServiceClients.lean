import LinuxLabs.BinderCall
import LinuxLabs.ServiceManagerAdd
import LinuxLabs.ServiceManagerLookup

/-! The stubs through which servers publish and clients look up names, end to end: encoder,
driver, handler, reply, decoder. Names are C strings; the manager sees them widened. -/
namespace LinuxLabs.ServiceManager
open ByteMemory Binder EventRun LastWriter

variable {σ : Type}

def svcMgrName : List UInt8 := "android.os.IServiceManager".toList.map fun c => UInt8.ofNat c.toNat

/-- What both stubs put first: the strict-mode word, the interface and the name. -/
def requestMsg (iodata : Mem) (name : List UInt8) : Parcel :=
  let msg := bioInit ⟨iodata, BinderIo.uninit⟩ 0 512 4
  let msg := bioPutUint32 msg 0
  let msg := bioPutString16X msg (some svcMgrName)
  bioPutString16X msg (some name)

def publishMsg (iodata : Mem) (name : List UInt8) (ptr : UInt32) : Parcel :=
  bioPutObj (requestMsg iodata name) ptr

def svcmgrPublish (iodata : Mem) (target : UInt32) (name : List UInt8) (ptr : UInt32)
    (death : UInt32 → World σ → World σ) (reads : List (Option ParseInput)) (w : World σ) :
    Option (Int32 × World σ) :=
  match binderCall (publishMsg iodata name ptr) ⟨iodata, BinderIo.uninit⟩ target svcMgrAddService
    death reads w with
  | none => none
  | some (res, reply, w) =>
    if res ≠ 0 then some (-1, w)
    else
      let (status, reply) := bioGetUint32 reply
      some (status.toInt32, (binderDone reply w).2)

def svcmgrLookup (iodata : Mem) (target : UInt32) (name : List UInt8)
    (death : UInt32 → World σ → World σ) (reads : List (Option ParseInput)) (w : World σ) :
    Option (UInt32 × World σ) :=
  match binderCall (requestMsg iodata name) ⟨iodata, BinderIo.uninit⟩ target svcMgrCheckService
    death reads w with
  | none => none
  | some (res, reply, w) =>
    if res ≠ 0 then some (0, w)
    else
      let (handle, reply) := bioGetRef reply
      let w := if handle ≠ 0 then binderAcquire w handle else w
      some (handle, (binderDone reply w).2)

/-- A C string as the manager sees it. -/
def wide (name : List UInt8) : List UInt16 := (name.take (strlen name)).map UInt8.toUInt16

/-- What is put for a name: a huge one only leaves the length word of a null string. -/
def namePut (name : List UInt8) : Put :=
  if strlen name < maxBioSize / 2 then .string16X (some (name.take (strlen name)))
  else .uint32 0xffffffff

lemma wide_length (name : List UInt8) : (wide name).length = strlen name := by
  rw [wide, List.length_map, (strlen_take name).2]

lemma namePut_run (p : Parcel) (name : List UInt8) :
    bioPutString16X p (some name) = (namePut name).run p := by
  obtain ⟨hzero, hlen⟩ := strlen_take name
  have hstr : strlen (name.take (strlen name)) = strlen name := by
    rw [strlen_eq_length hzero, hlen]
  unfold namePut
  split_ifs with h
  · simp only [Put.run, bioPutString16X, hstr, List.take_take, Nat.min_self]
  · simp only [Put.run, bioPutString16X]
    rw [putUnits_huge (Nat.le_of_not_lt h)]

lemma namePut_plain (name : List UInt8) : (namePut name).Plain := by
  obtain ⟨hzero, hlen⟩ := strlen_take name
  unfold namePut
  split_ifs with h
  · exact ⟨hzero, by rwa [hlen]⟩
  · trivial

/-- The length word of a name and the block behind it. -/
def nameSize (name : List UInt8) : ℕ :=
  if strlen name < maxBioSize / 2 then 4 + stringBlock (strlen name) else 4

lemma namePut_size (name : List UInt8) :
    (namePut name).size = nameSize name ∧ (namePut name).objs = 0 := by
  obtain ⟨hzero, hlen⟩ := strlen_take name
  unfold namePut nameSize
  split_ifs with h
  · refine ⟨?_, rfl⟩
    rw [Put.size, strlen_eq_length hzero, hlen, stringSize, if_neg (Nat.not_le.mpr h),
      stringBlock_of_short h]
  · exact ⟨rfl, rfl⟩

def requestPuts (name : List UInt8) : List Put :=
  [.uint32 0, .string16X (some svcMgrName), namePut name]

def requestStart (iodata : Mem) : Parcel := bioInit ⟨iodata, BinderIo.uninit⟩ 0 512 4

lemma requestStart_eq (iodata : Mem) :
    requestStart iodata = ⟨iodata, ⟨16, 0, 496, 4, 16, 0, 0⟩⟩ :=
  bioInit_fits ⟨iodata, BinderIo.uninit⟩ 0 512 4 (by decide) (by decide)

lemma requestMsg_puts (iodata : Mem) (name : List UInt8) :
    requestMsg iodata name = putAll (requestStart iodata) (requestPuts name) := by
  simp only [requestMsg, namePut_run]
  rfl

lemma requestPuts_plain (name : List UInt8) : ∀ v ∈ requestPuts name, v.Plain := by
  intro v hv
  simp only [requestPuts, List.mem_cons, List.not_mem_nil, or_false] at hv
  rcases hv with rfl | rfl | rfl
  · trivial
  · exact ⟨by decide, by decide⟩
  · exact namePut_plain name

lemma requestPuts_size (name : List UInt8) :
    putsSize (requestPuts name) = 64 + nameSize name ∧ putsObjs (requestPuts name) = 0 := by
  obtain ⟨hsize, hobjs⟩ := namePut_size name
  have hid : (Put.string16X (some svcMgrName)).size = 60 := by decide
  have hword : (Put.uint32 0).size = 4 := rfl
  constructor
  · simp only [putsSize, requestPuts, List.map_cons, List.map_nil, List.sum_cons, List.sum_nil,
      hsize, hid, hword]
    omega
  · simp only [putsObjs, requestPuts, List.map_cons, List.map_nil, List.sum_cons, List.sum_nil,
      hobjs]
    rfl

lemma nameSize_short {name : List UInt8} (h : strlen name ≤ 127) :
    nameSize name = 4 + nameBlock (strlen name) ∧ nameBlock (strlen name) ≤ 256 := by
  have hlt : strlen name < maxBioSize / 2 := h.trans_lt (by decide)
  rw [nameSize, if_pos hlt, stringBlock_name h]
  refine ⟨rfl, ?_⟩
  unfold nameBlock
  omega

lemma requestStart_clear (iodata : Mem) : ¬ (requestStart iodata).io.Overflowed := by
  rw [requestStart_eq]
  simp only [BinderIo.Overflowed]
  decide

lemma requestStart_layout (iodata : Mem) :
    (requestStart iodata).io.Layout ∧
      (requestStart iodata).io.data + (requestStart iodata).io.dataAvail < 2^32 := by
  rw [requestStart_eq]
  exact ⟨⟨rfl, ⟨0, rfl⟩, le_rfl⟩, by norm_num⟩

/-- A request in a buffer: the interface and the name, behind the strict-mode word. -/
structure Encoded (p : Parcel) (name : List UInt8) : Prop where
  start : p.io.data0 = 16
  room : 64 + nameSize name ≤ p.io.data - 16
  header : (Field.string svcmgrId).Holds p.mem (16 + 4)
  name : (namePut name).field.Holds p.mem (16 + 64)

/-- The request before an object is added to it. -/
theorem requestMsg_encoded {iodata : Mem} {name : List UInt8}
    (h : ¬ (requestMsg iodata name).io.Overflowed) :
    Encoded (requestMsg iodata name) name ∧
      (requestMsg iodata name).io = (requestStart iodata).io.advance (64 + nameSize name) 0 ∧
      64 + nameSize name ≤ 496 := by
  rw [requestMsg_puts] at h ⊢
  obtain ⟨hroom, hio⟩ := putAll_io h
  obtain ⟨hsize, hobjs⟩ := requestPuts_size name
  rw [hsize, hobjs] at hio hroom
  obtain ⟨hlay, hsmall⟩ := requestStart_layout iodata
  obtain ⟨hlaid, -⟩ := putAll_laid hlay hsmall (requestPuts_plain name) h
  have hmax := hroom.1
  rw [requestStart_eq] at hlaid hmax
  obtain ⟨-, -, -, hheader, -, -, hname, -⟩ := hlaid
  have hid : (Put.string16X (some svcMgrName)).field = .string svcmgrId := by decide
  rw [hid] at hheader
  refine ⟨⟨?_, ?_, hheader, hname⟩, hio, hmax⟩
  · rw [hio, requestStart_eq]
    rfl
  · rw [hio, requestStart_eq]
    simp only [BinderIo.advance]
    omega

/-- The receiver of an encoded request finds its header and its name. -/
theorem Encoded.received {p : Parcel} {name : List UInt8} (h : Encoded p name)
    {target code flags : UInt32} {msg : Message}
    (harr : Arrives (p.outgoing target code flags) msg.mem msg.txn)
    (hout : ∀ j, j < 64 + nameSize name → (p.outgoing target code flags).Outside j) :
    msg.HeaderOk ∧ (namePut name).field.Holds msg.mem (msg.txn.buffer.toNat + 64) := by
  have hroom := h.room
  have hd := h.start
  have hid : (Field.string svcmgrId).size = 60 := by decide
  have hnsize : (namePut name).field.Short ∧ (namePut name).field.size = nameSize name := by
    obtain ⟨-, hs, he⟩ := Put.image_holds (fun _ => 0) 0 (namePut_plain name)
    exact ⟨hs, he.trans (namePut_size name).1⟩
  have hheader := harr.holds (k := 4) (f := .string svcmgrId) (by rw [hd]; exact h.header)
    (by simp only [Field.Short]; decide) (by rw [hid, hd]; omega)
    (fun j _ hj => hout j (by rw [hid] at hj; omega))
  have hname := harr.holds (k := 64) (by rw [hd]; exact h.name) hnsize.1
    (by rw [hnsize.2, hd]; omega) (fun j _ hj => hout j (by rw [hnsize.2] at hj; omega))
  refine ⟨⟨?_, ?_, ?_⟩, hname⟩
  · have hs := harr.dataSize
    simp only [Parcel.outgoing, read_length, hd] at hs
    rw [Message.size, hs]
    omega
  · exact hheader.1
  · exact hheader.2

/-- The length word the manager reads: the length of the name, or that of a null string. -/
theorem received_nameLen {name : List UInt8} {msg : Message}
    (h : (namePut name).field.Holds msg.mem (msg.txn.buffer.toNat + 64)) :
    msg.nameLen = if strlen name < maxBioSize / 2 then strlen name else 2^32 - 1 := by
  have hlen := (strlen_take name).2
  unfold namePut at h
  split_ifs at h ⊢ with hs
  · have hlt : strlen name < 2^29 := hs
    have hw : msg.word 64 = UInt32.ofNat (strlen name) := by
      have hl := h.1
      rwa [Option.getD_some, List.length_map, hlen] at hl
    rw [Message.nameLen, hw, UInt32.toNat_ofNat']
    omega
  · have hw : msg.word 64 = 0xffffffff := h
    rw [Message.nameLen, hw]
    rfl

lemma received_name {name : List UInt8} {msg : Message}
    (h : (namePut name).field.Holds msg.mem (msg.txn.buffer.toNat + 64))
    (hs : strlen name < maxBioSize / 2) : msg.unitsAt 68 (strlen name) = wide name := by
  have hlen := (strlen_take name).2
  rw [namePut, if_pos hs] at h
  have hu := h.2
  rwa [Option.getD_some, List.length_map, hlen] at hu

lemma publishMsg_run (iodata : Mem) (name : List UInt8) (ptr : UInt32) :
    publishMsg iodata name ptr = (Put.obj ptr).run (requestMsg iodata name) := rfl

/-- The object behind the request, and its position in the table. -/
structure ObjectAt (p : Parcel) (k : ℕ) (ptr : UInt32) : Prop where
  entry : load32 p.mem 0 = UInt32.ofNat k
  type : load32 p.mem (16 + k) = binderTypeBinder
  value : load32 p.mem (16 + k + 8) = ptr

theorem publishMsg_encoded {iodata : Mem} {name : List UInt8} {ptr : UInt32}
    (h : ¬ (publishMsg iodata name ptr).io.Overflowed) :
    Encoded (publishMsg iodata name ptr) name ∧
      ObjectAt (publishMsg iodata name ptr) (64 + nameSize name) ptr ∧
      (publishMsg iodata name ptr).io = (requestStart iodata).io.advance (80 + nameSize name) 1 ∧
      80 + nameSize name ≤ 496 := by
  rw [publishMsg_run] at h ⊢
  obtain ⟨hclear, hroom⟩ := Put.run_clear_iff.mp h
  obtain ⟨henc, hio, hmax⟩ := requestMsg_encoded hclear
  have hlay : (requestMsg iodata name).io.Layout := by
    rw [hio, requestStart_eq]
    exact ⟨rfl, ⟨0, rfl⟩, by simp only [BinderIo.advance]; omega⟩
  have hfits := Put.run_fits hroom
  obtain ⟨hagree, -⟩ := Put.run_agree hlay hroom
  have hentry := Put.run_entry hlay hroom rfl
  have hoffs : (requestMsg iodata name).io.offs = 0 := by rw [hio, requestStart_eq]; rfl
  have hdata : (requestMsg iodata name).io.data = 16 + (64 + nameSize name) := by
    rw [hio, requestStart_eq]
    rfl
  have hio' : ((Put.obj ptr).run (requestMsg iodata name)).io =
      (requestStart iodata).io.advance (80 + nameSize name) 1 := by
    rw [hfits, hio, advance_advance]
    simp only [Put.size, Put.objs]
    congr 1
    omega
  rw [henc.start, hdata] at hagree
  rw [hoffs, hdata, henc.start, Nat.add_sub_cancel_left] at hentry
  have hobj := load_fillObj ((requestMsg iodata name).record 1) (16 + (64 + nameSize name))
    binderTypeBinder ptr
  have himg : ((Put.obj ptr).run (requestMsg iodata name)).mem =
      fillObj ((requestMsg iodata name).record 1) (16 + (64 + nameSize name)) binderTypeBinder
        ptr := by
    rw [hfits, hdata]
    rfl
  have hid : (Field.string svcmgrId).size = 60 := by decide
  obtain ⟨-, hshort, hnsize⟩ := Put.image_holds (fun _ => 0) 0 (namePut_plain name)
  rw [(namePut_size name).1] at hnsize
  refine ⟨⟨?_, ?_, ?_, ?_⟩, ⟨hentry, ?_, ?_⟩, hio', ?_⟩
  · rw [hio', requestStart_eq]
    rfl
  · rw [hio', requestStart_eq]
    simp only [BinderIo.advance]
    omega
  · exact henc.header.congr hagree (by decide) (by simp only [Field.Short]; decide)
      (by rw [hid]; omega)
  · exact henc.name.congr hagree (by decide) hshort (by rw [hnsize]; omega)
  · rw [himg]
    exact hobj.1
  · rw [himg]
    exact hobj.2
  · have hr := hroom.1
    rw [hio, requestStart_eq] at hr
    simp only [Put.size, BinderIo.advance] at hr
    omega

/-- Names of acceptable length never fill the buffer of a stub. -/
lemma requestMsg_clear (iodata : Mem) {name : List UInt8} (h : strlen name ≤ 127) :
    ¬ (requestMsg iodata name).io.Overflowed := by
  obtain ⟨hns, hblock⟩ := nameSize_short h
  obtain ⟨hsize, hobjs⟩ := requestPuts_size name
  rw [requestMsg_puts]
  apply putAll_room (requestStart_clear iodata)
  rw [requestStart_eq, hsize, hobjs]
  exact ⟨by simp only; omega, by simp only; omega⟩

lemma publishMsg_clear (iodata : Mem) {name : List UInt8} (ptr : UInt32) (h : strlen name ≤ 127) :
    ¬ (publishMsg iodata name ptr).io.Overflowed := by
  have hclear := requestMsg_clear iodata h
  obtain ⟨hns, hblock⟩ := nameSize_short h
  rw [publishMsg_run, Put.run_clear_iff]
  refine ⟨hclear, ?_⟩
  rw [(requestMsg_encoded hclear).2.1, requestStart_eq]
  exact ⟨by simp only [Put.size, BinderIo.advance]; omega,
    by simp only [Put.objs, BinderIo.advance]; omega⟩

variable {Proc Node : Type} {D : Driver Proc Node} {p : Proc}

/-- A published name as it leaves the stub, with one object, which stands for the node. -/
theorem publishMsg_outgoing {iodata : Mem} {name : List UInt8} {ptr : UInt32}
    (h : ¬ (publishMsg iodata name ptr).io.Overflowed) (D : Driver Proc Node) (p : Proc)
    (code flags : UInt32) :
    let out := (publishMsg iodata name ptr).outgoing 0 code flags
    out.offsets = [UInt32.ofNat (64 + nameSize name)] ∧ out.data.length = 80 + nameSize name ∧
      D.Denotes p (out.loadWord (64 + nameSize name)) (out.loadWord (64 + nameSize name + 8))
        (D.node p ptr) := by
  intro out
  obtain ⟨henc, hobj, hio, -⟩ := publishMsg_encoded h
  have hdata : (publishMsg iodata name ptr).io.data = 96 + nameSize name := by
    rw [hio, requestStart_eq]
    simp only [BinderIo.advance]
    omega
  have hoffs : (publishMsg iodata name ptr).io.offs = 4 ∧
      (publishMsg iodata name ptr).io.offs0 = 0 := by
    rw [hio, requestStart_eq]
    exact ⟨rfl, rfl⟩
  refine ⟨?_, ?_, .inl ?_⟩
  · simp only [out, Parcel.outgoing, hoffs]
    rw [← hobj.entry]
    rfl
  · simp only [out, Parcel.outgoing, read_length, hdata, henc.start]
    omega
  · rw [outgoing_loadWord (by rw [hdata, henc.start]; omega),
      outgoing_loadWord (by rw [hdata, henc.start]; omega), henc.start]
    exact ⟨hobj.type, by rw [← Nat.add_assoc, hobj.value]⟩

/-- A published name as the manager receives it: a complete ADD request for the handle under
which the manager knows the node, if the name has an acceptable length. -/
theorem publish_received {iodata : Mem} {name : List UInt8} {ptr code flags : UInt32}
    {msg : Message} (h : ¬ (publishMsg iodata name ptr).io.Overflowed)
    (hdel : D.Delivers p D.manager ((publishMsg iodata name ptr).outgoing 0 code flags) msg.mem
      msg.txn)
    (htarget : msg.txn.target = svcmgrHandle) (hcode : msg.txn.code = svcMgrAddService) :
    (1 ≤ strlen name ∧ strlen name ≤ 127 →
      IsAdd msg (wide name) (D.handle D.manager (D.node p ptr))) ∧
      ∀ name' handle, IsAdd msg name' handle → 1 ≤ strlen name ∧ strlen name ≤ 127 := by
  obtain ⟨henc, -, -, hmax⟩ := publishMsg_encoded h
  obtain ⟨hofs, hlen, hden⟩ := publishMsg_outgoing h D p code flags
  have hnat : (UInt32.ofNat (64 + nameSize name)).toNat = 64 + nameSize name := by
    rw [UInt32.toNat_ofNat']
    omega
  obtain ⟨hheader, hname⟩ := henc.received hdel.toArrives (by
    intro j hj
    simp only [OutgoingTxn.Outside, hofs, List.mem_singleton, forall_eq, hnat]
    omega)
  have hnlen := received_nameLen hname
  -- the object has become a handle of the manager
  have hwords := hdel.objects (UInt32.ofNat (64 + nameSize name)) (by rw [hofs]; simp)
    (D.node p ptr) (by rw [hnat]; exact hden)
  rw [hnat] at hwords
  have hsize : msg.size = 80 + nameSize name := hdel.dataSize.trans hlen
  have hlisted : load32 msg.mem msg.txn.offsets.toNat = UInt32.ofNat (64 + nameSize name) := by
    have ho := hdel.offsets
    rw [hofs] at ho
    simpa [words] using ho
  have hosize : msg.txn.offsetsSize.toNat = 4 := by
    have ho := hdel.offsetsSize
    rwa [hofs] at ho
  constructor
  · rintro ⟨h1, h127⟩
    have hlt : strlen name < maxBioSize / 2 := h127.trans_lt (by decide)
    obtain ⟨hns, -⟩ := nameSize_short h127
    have hk : 68 + nameBlock (strlen name) = 64 + nameSize name := by omega
    have hwl := wide_length name
    constructor
    case target => exact htarget
    case code => exact hcode
    case header => exact hheader
    case pos => rwa [hwl]
    case max => rwa [hwl]
    case len => rw [hnlen, if_pos hlt, hwl]
    case spelled => rw [hwl, received_name hname hlt]
    case object => rw [hwl, hk, hsize]; omega
    case listed =>
      refine ⟨0, by rw [hosize]; decide, ?_⟩
      rw [hwl, hk, Nat.mul_zero, Nat.add_zero, hlisted, hnat]
    case type => rw [hwl, hk]; exact hwords.1
    case ref => rw [hwl, hk]; exact hwords.2
    case ne => exact D.handle_ne _ _
  · intro name' handle hadd
    have hl := hadd.len
    have hpos := hadd.pos
    have hmax' := hadd.max
    rw [hnlen] at hl
    split_ifs at hl <;> omega

/-- A name that is asked for, as the manager receives it. -/
theorem lookup_received {iodata : Mem} {name : List UInt8} {code flags : UInt32} {msg : Message}
    (h : ¬ (requestMsg iodata name).io.Overflowed)
    (harr : Arrives ((requestMsg iodata name).outgoing 0 code flags) msg.mem msg.txn)
    (htarget : msg.txn.target = svcmgrHandle) (hcode : msg.txn.code = svcMgrCheckService) :
    if strlen name < maxBioSize / 2 then IsLookup msg (wide name)
    else msg.request = .find msg.nameAddr (2^32 - 1) := by
  obtain ⟨henc, hio, hmax⟩ := requestMsg_encoded h
  have hdata : (requestMsg iodata name).io.data = 80 + nameSize name := by
    rw [hio, requestStart_eq]
    simp only [BinderIo.advance]
    omega
  have hofs : ((requestMsg iodata name).outgoing 0 code flags).offsets = [] := by
    simp [Parcel.outgoing, hio, requestStart_eq, BinderIo.advance, words]
  obtain ⟨hheader, hname⟩ := henc.received harr (by simp [OutgoingTxn.Outside, hofs])
  have hnlen := received_nameLen hname
  have hsize : msg.size = 64 + nameSize name := by
    have hs := harr.dataSize
    simp only [Parcel.outgoing, read_length, hdata, henc.start] at hs
    rw [Message.size, hs]
    omega
  have hfits : msg.NameFits := by
    rw [Message.NameFits, hnlen, hsize, nameSize]
    split_ifs
    · omega
    · have hwrap : stringBlock (2^32 - 1) = 0 := by decide
      rw [hwrap]
  split_ifs with hs
  · rw [if_pos hs] at hnlen
    exact ⟨htarget, .inr hcode, hheader, by rw [hnlen, wide_length], hfits,
      by rw [wide_length, received_name hname hs]⟩
  · rw [if_neg hs] at hnlen
    rw [Message.request, if_neg (not_not.mpr htarget), hcode, if_neg (by decide),
      if_neg (not_not.mpr hheader), if_pos (by decide), if_pos hfits, hnlen]

end LinuxLabs.ServiceManager
