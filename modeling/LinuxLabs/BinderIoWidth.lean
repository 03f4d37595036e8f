import LinuxLabs.BinderIoRead

/-! The codec for every width of `size_t` and of `binder_size_t`. Sizes wrap in `size_t`; the
entries of the offset table and the last two fields of an object are as wide as `binder_size_t`. -/
namespace LinuxLabs.Binder
open ByteMemory

/-- `sizeof(size_t)`, and `sizeof(binder_size_t)` with or without `BINDER_IPC_32BIT`. -/
structure Width where
  sizeT : ℕ
  ipc : ℕ
  sizeT_eq : sizeT = 4 ∨ sizeT = 8
  ipc_eq : ipc = 4 ∨ ipc = 8

/-- The values put into a parcel; a pointer may have 64 bits. -/
inductive WidePut
  | uint32 (n : UInt32)
  | string16 (str : Option (List UInt16))
  | string16X (str : Option (List UInt8))
  | ref (handle : UInt32)
  | obj (ptr : UInt64)

namespace Width
variable (w : Width)

def wrap (n : ℕ) : ℕ := n % 2^(8 * w.sizeT)

/-- `(size + 3) & (~3)`, with `~3` widened to a `size_t`. -/
def align4 (size : ℕ) : ℕ := w.wrap (size + 3) &&& (2^(8 * w.sizeT) - 4)

/-- Type and flags, a union as wide as `binder` in it, and the cookie. -/
def sizeofFlatBinderObject : ℕ := 4 + 4 + w.ipc + w.ipc

def bioInit (p : Parcel) (data maxdata maxoffs : ℕ) : Parcel :=
  let n := w.wrap (maxoffs * w.sizeT)
  if maxdata < n then
    { p with io := { p.io with flags := bioFOverflow, dataAvail := 0, offsAvail := 0 } }
  else
    { p with io := {
        data := data + n
        data0 := data + n
        offs := data
        offs0 := data
        dataAvail := maxdata - n
        offsAvail := maxoffs
        flags := 0 } }

/-- From the fields of a transaction. -/
def bioInitFromTxn (m : Mem) (buffer offsets dataSize offsetsSize : ℕ) : Parcel where
  mem := m
  io := {
    data := buffer
    data0 := buffer
    offs := offsets
    offs0 := offsets
    dataAvail := dataSize
    offsAvail := offsetsSize / w.sizeT
    flags := bioFShared }

def bioAlloc (bio : BinderIo) (size : ℕ) : Option ℕ × BinderIo :=
  let size := w.align4 size
  if bio.dataAvail < size then (none, bio.overflow)
  else (some bio.data, { bio with data := bio.data + size, dataAvail := bio.dataAvail - size })

def bioAllocObj (p : Parcel) : Option ℕ × Parcel :=
  match w.bioAlloc p.io w.sizeofFlatBinderObject with
  | (none, bio) => (none, ⟨p.mem, bio.overflow⟩)
  | (some obj, bio) =>
    if bio.offsAvail ≠ 0 then
      (some obj, ⟨write p.mem bio.offs (bytesLE w.ipc (obj - bio.data0)),
        { bio with offsAvail := bio.offsAvail - 1, offs := bio.offs + w.ipc }⟩)
    else (none, ⟨p.mem, bio.overflow⟩)

def bioPutUint32 (p : Parcel) (n : UInt32) : Parcel :=
  match w.bioAlloc p.io 4 with
  | (none, bio) => ⟨p.mem, bio⟩
  | (some ptr, bio) => ⟨store32 p.mem ptr n, bio⟩

/-- `value` are the bytes stored in the union: a pointer, or a handle in its first four. -/
def fillObj (m : Mem) (obj : ℕ) (type : UInt32) (value : List UInt8) : Mem :=
  let m := store32 m (obj + 4) (0x7f ||| flatBinderFlagAcceptsFds)
  let m := store32 m obj type
  let m := write m (obj + 8) value
  write m (obj + 8 + w.ipc) (bytesLE w.ipc 0)

def bioPutObj (p : Parcel) (ptr : UInt64) : Parcel :=
  match w.bioAllocObj p with
  | (none, p) => p
  | (some obj, p) =>
    { p with mem := w.fillObj p.mem obj binderTypeBinder (bytesLE w.ipc ptr.toNat) }

def bioPutRef (p : Parcel) (handle : UInt32) : Parcel :=
  let alloc := if handle ≠ 0 then w.bioAllocObj p
    else ((w.bioAlloc p.io w.sizeofFlatBinderObject).1,
      ⟨p.mem, (w.bioAlloc p.io w.sizeofFlatBinderObject).2⟩)
  match alloc with
  | (none, p) => p
  | (some obj, p) => { p with mem := w.fillObj p.mem obj binderTypeHandle (bytes32 handle) }

def putUnits (p : Parcel) (len : ℕ) (units : List UInt16) : Parcel :=
  if maxBioSize / 2 ≤ len then w.bioPutUint32 p 0xffffffff
  else
    let p := w.bioPutUint32 p (UInt32.ofNat len)
    match w.bioAlloc p.io (w.wrap ((len + 1) * 2)) with
    | (none, bio) => ⟨p.mem, bio⟩
    | (some ptr, bio) => ⟨storeUnits p.mem ptr (units ++ [0]), bio⟩

def bioPutString16 (p : Parcel) (str : Option (List UInt16)) : Parcel :=
  match str with
  | none => w.bioPutUint32 p 0xffffffff
  | some str => w.putUnits p (strlen str) (str.take (strlen str))

def bioPutString16X (p : Parcel) (str : Option (List UInt8)) : Parcel :=
  match str with
  | none => w.bioPutUint32 p 0xffffffff
  | some str => w.putUnits p (strlen str) ((str.take (strlen str)).map UInt8.toUInt16)

def put (p : Parcel) : WidePut → Parcel
  | .uint32 n => w.bioPutUint32 p n
  | .string16 str => w.bioPutString16 p str
  | .string16X str => w.bioPutString16X p str
  | .ref handle => w.bioPutRef p handle
  | .obj ptr => w.bioPutObj p ptr

def bioGet (bio : BinderIo) (size : ℕ) : Option ℕ × BinderIo :=
  let size := w.align4 size
  if bio.dataAvail < size then (none, { bio.overflow with dataAvail := 0 })
  else (some bio.data, { bio with data := bio.data + size, dataAvail := bio.dataAvail - size })

def bioGetUint32 (p : Parcel) : UInt32 × Parcel :=
  match w.bioGet p.io 4 with
  | (none, bio) => (0, ⟨p.mem, bio⟩)
  | (some ptr, bio) => (load32 p.mem ptr, ⟨p.mem, bio⟩)

def bioGetString16 (p : Parcel) : Option ℕ × ℕ × Parcel :=
  let word := w.bioGetUint32 p
  let len := word.1.toNat
  let got := w.bioGet word.2.io (w.wrap ((len + 1) * 2))
  (got.1, len, ⟨p.mem, got.2⟩)

def bioGetObj (p : Parcel) : Option ℕ × Parcel :=
  let off := p.io.data - p.io.data0
  if (List.range p.io.offsAvail).any fun n =>
      loadLE p.mem (p.io.offs + w.ipc * n) w.ipc == off then
    ((w.bioGet p.io w.sizeofFlatBinderObject).1,
      ⟨p.mem, (w.bioGet p.io w.sizeofFlatBinderObject).2⟩)
  else (none, ⟨p.mem, { p.io.overflow with dataAvail := 0 }⟩)

def bioGetRef (p : Parcel) : UInt32 × Parcel :=
  match w.bioGetObj p with
  | (none, p) => (0, p)
  | (some obj, p) =>
    if load32 p.mem obj = binderTypeHandle then (load32 p.mem (obj + 8), p) else (0, p)

def get (p : Parcel) : Getter → Got × Parcel
  | .uint32 => (.uint32 (w.bioGetUint32 p).1, (w.bioGetUint32 p).2)
  | .string16 =>
    (.string16 (w.bioGetString16 p).1 (w.bioGetString16 p).2.1, (w.bioGetString16 p).2.2)
  | .ref => (.ref (w.bioGetRef p).1, (w.bioGetRef p).2)

/-- The 32-bit build. -/
def narrow : Width := ⟨4, 4, .inl rfl, .inl rfl⟩

/-- A 64-bit target with `BINDER_IPC_32BIT`, as `Android.mk` builds it, and one without. -/
def mixed : Width := ⟨8, 4, .inr rfl, .inl rfl⟩

def uniform : Width := ⟨8, 8, .inr rfl, .inr rfl⟩

/-- A value of the 32-bit build. -/
def wide : Put → WidePut
  | .uint32 n => .uint32 n
  | .string16 str => .string16 str
  | .string16X str => .string16X str
  | .ref handle => .ref handle
  | .obj ptr => .obj ptr.toUInt64

section Narrow

lemma narrow_fillObj (m : Mem) (obj : ℕ) (t v : UInt32) :
    narrow.fillObj m obj t (bytes32 v) = Binder.fillObj m obj t v := by
  have hzero : bytesLE narrow.ipc 0 = bytes32 0 := bytesLE_four 0
  rw [fillObj, hzero]
  rfl

lemma narrow_bioAllocObj (p : Parcel) : narrow.bioAllocObj p = Binder.bioAllocObj p := by
  have hbytes (v : ℕ) : bytesLE narrow.ipc v = bytes32 (UInt32.ofNat v) := bytesLE_four v
  simp only [bioAllocObj, hbytes]
  rfl

/-- With both widths at four bytes the codec is that of the 32-bit build. -/
theorem narrow_put (p : Parcel) (v : Put) : narrow.put p (wide v) = v.run p := by
  cases v with
  | uint32 n => rfl
  | string16 str => rfl
  | string16X str => rfl
  | ref handle =>
    simp only [wide, put, Put.run, bioPutRef, narrow_bioAllocObj, narrow_fillObj]
    rfl
  | obj ptr =>
    have hptr : bytesLE narrow.ipc ptr.toUInt64.toNat = bytes32 ptr := by
      rw [UInt32.toNat_toUInt64]
      exact (bytesLE_four ptr.toNat).trans (by rw [UInt32.ofNat_toNat])
    simp only [wide, put, Put.run, bioPutObj, narrow_bioAllocObj, hptr, narrow_fillObj]
    rfl

lemma narrow_bioGetObj (p : Parcel) : narrow.bioGetObj p = Binder.bioGetObj p := by
  have hload (a : ℕ) : loadLE p.mem a narrow.ipc = (load32 p.mem a).toNat := loadLE_four p.mem a
  simp only [bioGetObj, hload]
  rfl

theorem narrow_get (p : Parcel) (g : Getter) : narrow.get p g = g.run p := by
  cases g with
  | uint32 => rfl
  | string16 => rfl
  | ref =>
    simp only [get, Getter.run, bioGetRef, narrow_bioGetObj]
    rfl

theorem narrow_bioInit (p : Parcel) (data maxdata maxoffs : ℕ) :
    narrow.bioInit p data maxdata maxoffs = Binder.bioInit p data maxdata maxoffs := rfl

theorem narrow_bioInitFromTxn (m : Mem) (txn : BinderTransactionData) :
    narrow.bioInitFromTxn m txn.buffer.toNat txn.offsets.toNat txn.dataSize.toNat
      txn.offsetsSize.toNat = Binder.bioInitFromTxn m txn := rfl

end Narrow

end Width

end LinuxLabs.Binder
