import LinuxLabs.BinderProtocol

/-! The `binder_io` codec: cursors into a data block and an offset table. A `Parcel` is a
`binder_io` together with the memory its pointers point into. Sizes are `size_t` values of
the 32-bit build, so every size computation that can wrap is written with `wrap`. -/
namespace LinuxLabs.Binder
open ByteMemory

def maxBioSize : ℕ := 2^30

def bioFShared : UInt32 := 0x01
def bioFOverflow : UInt32 := 0x02
def bioFIoerror : UInt32 := 0x04

/-- Arithmetic in `size_t`. -/
def wrap (n : ℕ) : ℕ := n % 2^32

structure BinderIo where
  data : ℕ
  offs : ℕ
  dataAvail : ℕ
  offsAvail : ℕ
  data0 : ℕ
  offs0 : ℕ
  flags : UInt32
  deriving DecidableEq, Repr

structure Parcel where
  mem : Mem
  io : BinderIo

def BinderIo.overflow (io : BinderIo) : BinderIo := { io with flags := io.flags ||| bioFOverflow }

def BinderIo.Overflowed (io : BinderIo) : Prop := io.flags &&& bioFOverflow ≠ 0

instance (io : BinderIo) : Decidable io.Overflowed := inferInstanceAs (Decidable (_ ≠ _))

def bioInitFromTxn (m : Mem) (txn : BinderTransactionData) : Parcel where
  mem := m
  io := {
    data := txn.buffer.toNat
    data0 := txn.buffer.toNat
    offs := txn.offsets.toNat
    offs0 := txn.offsets.toNat
    dataAvail := txn.dataSize.toNat
    offsAvail := txn.offsetsSize.toNat / sizeofSizeT
    flags := bioFShared }

/-- The failing branch leaves the pointers of the caller's structure as they were. -/
def bioInit (p : Parcel) (data maxdata maxoffs : ℕ) : Parcel :=
  let n := wrap (maxoffs * sizeofSizeT)
  if maxdata < n then
    { p with io := { p.io with flags := bioFOverflow, dataAvail := 0, offsAvail := 0 } }
  else
    { p with io := {
        data := data + n
        data0 := data + n
        offs := data
        offs0 := data
        dataAvail := maxdata - n
        offsAvail := maxoffs
        flags := 0 } }

/-- `(size + 3) & (~3)`. -/
def align4 (size : ℕ) : ℕ := wrap (size + 3) &&& 0xfffffffc

def bioAlloc (bio : BinderIo) (size : ℕ) : Option ℕ × BinderIo :=
  let size := align4 size
  if bio.dataAvail < size then (none, bio.overflow)
  else (some bio.data, { bio with data := bio.data + size, dataAvail := bio.dataAvail - size })

def bioAllocObj (p : Parcel) : Option ℕ × Parcel :=
  match bioAlloc p.io sizeofFlatBinderObject with
  | (none, bio) => (none, ⟨p.mem, bio.overflow⟩)
  | (some obj, bio) =>
    if bio.offsAvail ≠ 0 then
      (some obj, ⟨store32 p.mem bio.offs (UInt32.ofNat (obj - bio.data0)),
        { bio with offsAvail := bio.offsAvail - 1, offs := bio.offs + 4 }⟩)
    else (none, ⟨p.mem, bio.overflow⟩)

def bioPutUint32 (p : Parcel) (n : UInt32) : Parcel :=
  match bioAlloc p.io 4 with
  | (none, bio) => ⟨p.mem, bio⟩
  | (some ptr, bio) => ⟨store32 p.mem ptr n, bio⟩

/-- The four stores with which an object is filled in: flags, type, value, cookie. -/
def fillObj (m : Mem) (obj : ℕ) (type value : UInt32) : Mem :=
  let m := store32 m (obj + 4) (0x7f ||| flatBinderFlagAcceptsFds)
  let m := store32 m obj type
  let m := store32 m (obj + 8) value
  store32 m (obj + 12) 0

def bioPutObj (p : Parcel) (ptr : UInt32) : Parcel :=
  match bioAllocObj p with
  | (none, p) => p
  | (some obj, p) => { p with mem := fillObj p.mem obj binderTypeBinder ptr }

/-- A null reference takes the space of an object but no entry of the offset table. -/
def bioPutRef (p : Parcel) (handle : UInt32) : Parcel :=
  let alloc := if handle ≠ 0 then bioAllocObj p
    else ((bioAlloc p.io sizeofFlatBinderObject).1,
      ⟨p.mem, (bioAlloc p.io sizeofFlatBinderObject).2⟩)
  match alloc with
  | (none, p) => p
  | (some obj, p) => { p with mem := fillObj p.mem obj binderTypeHandle handle }

/-- Length of a zero-terminated string; the end of the list counts as a terminator. -/
def strlen {α : Type*} [Zero α] [DecidableEq α] : List α → ℕ
  | [] => 0
  | c :: cs => if c = 0 then 0 else strlen cs + 1

/-- Both string encoders: a length word, then the units and a terminator. `units` are the
16-bit units the copy stores for a string of `len` characters. -/
def putUnits (p : Parcel) (len : ℕ) (units : List UInt16) : Parcel :=
  if maxBioSize / 2 ≤ len then bioPutUint32 p 0xffffffff
  else
    let p := bioPutUint32 p (UInt32.ofNat len)
    match bioAlloc p.io (wrap ((len + 1) * 2)) with
    | (none, bio) => ⟨p.mem, bio⟩
    | (some ptr, bio) => ⟨storeUnits p.mem ptr (units ++ [0]), bio⟩

def bioPutString16 (p : Parcel) (str : Option (List UInt16)) : Parcel :=
  match str with
  | none => bioPutUint32 p 0xffffffff
  | some str => putUnits p (strlen str) (str.take (strlen str))

/-- Bytes are widened from `unsigned char`. -/
def bioPutString16X (p : Parcel) (str : Option (List UInt8)) : Parcel :=
  match str with
  | none => bioPutUint32 p 0xffffffff
  | some str => putUnits p (strlen str) ((str.take (strlen str)).map UInt8.toUInt16)

def bioGet (bio : BinderIo) (size : ℕ) : Option ℕ × BinderIo :=
  let size := align4 size
  if bio.dataAvail < size then (none, { bio.overflow with dataAvail := 0 })
  else (some bio.data, { bio with data := bio.data + size, dataAvail := bio.dataAvail - size })

def bioGetUint32 (p : Parcel) : UInt32 × Parcel :=
  match bioGet p.io 4 with
  | (none, bio) => (0, ⟨p.mem, bio⟩)
  | (some ptr, bio) => (load32 p.mem ptr, ⟨p.mem, bio⟩)

/-- The string pointer and the length stored through `sz`. -/
def bioGetString16 (p : Parcel) : Option ℕ × ℕ × Parcel :=
  let word := bioGetUint32 p
  let len := word.1.toNat
  let got := bioGet word.2.io (wrap ((len + 1) * 2))
  (got.1, len, ⟨p.mem, got.2⟩)

/-- An object is readable only where the cursor stands at a recorded offset. -/
def bioGetObj (p : Parcel) : Option ℕ × Parcel :=
  let off := p.io.data - p.io.data0
  if (List.range p.io.offsAvail).any fun n => (load32 p.mem (p.io.offs + 4*n)).toNat == off then
    ((bioGet p.io sizeofFlatBinderObject).1, ⟨p.mem, (bioGet p.io sizeofFlatBinderObject).2⟩)
  else (none, ⟨p.mem, { p.io.overflow with dataAvail := 0 }⟩)

def bioGetRef (p : Parcel) : UInt32 × Parcel :=
  match bioGetObj p with
  | (none, p) => (0, p)
  | (some obj, p) =>
    if load32 p.mem obj = binderTypeHandle then (load32 p.mem (obj + 8), p) else (0, p)

theorem and_mask (x : ℕ) (h : x < 2^32) : x &&& 0xfffffffc = x / 4 * 4 := by
  have hm : (0xfffffffc : ℕ) = (2^30 - 1) <<< 2 := by decide
  have hx : x / 4 * 4 = (x >>> 2) <<< 2 := by
    simp [Nat.shiftRight_eq_div_pow, Nat.shiftLeft_eq]
  rw [hm, hx]
  apply Nat.eq_of_testBit_eq
  intro i
  simp only [Nat.testBit_and, Nat.testBit_shiftLeft, Nat.testBit_shiftRight,
    Nat.testBit_two_pow_sub_one]
  by_cases h2 : 2 ≤ i
  · have hi : 2 + (i - 2) = i := by omega
    by_cases h32 : i < 32
    · simp [h2, hi, show i - 2 < 30 by omega]
    · have hf : x.testBit i = false :=
        Nat.testBit_eq_false_of_lt (h.trans_le (Nat.pow_le_pow_right (by decide) (by omega)))
      simp [h2, hi, hf]
  · simp [h2]

theorem align4_eq (n : ℕ) : align4 n = (n + 3) % 2^32 / 4 * 4 :=
  and_mask _ (Nat.mod_lt _ (by decide))

theorem align4_of_lt {n : ℕ} (h : n + 3 < 2^32) : align4 n = (n + 3) / 4 * 4 := by
  rw [align4_eq, Nat.mod_eq_of_lt h]

@[simp] theorem align4_four : align4 4 = 4 := by decide

@[simp] theorem align4_object : align4 sizeofFlatBinderObject = 16 := by decide

theorem or_and_self (f g : UInt32) : (f ||| g) &&& g = g := by
  apply UInt32.toNat_inj.mp
  apply Nat.eq_of_testBit_eq
  intro i
  simp only [UInt32.toNat_and, UInt32.toNat_or, Nat.testBit_and, Nat.testBit_or]
  cases f.toNat.testBit i <;> cases g.toNat.testBit i <;> rfl

@[simp] theorem overflow_overflowed (io : BinderIo) : io.overflow.Overflowed := by
  simp only [BinderIo.Overflowed, BinderIo.overflow, or_and_self]
  decide

@[simp] theorem overflow_overflow (io : BinderIo) : io.overflow.overflow = io.overflow := by
  simp [BinderIo.overflow, UInt32.or_assoc]

theorem overflowed_congr {a b : BinderIo} (h : a.flags = b.flags) :
    a.Overflowed ↔ b.Overflowed := by simp [BinderIo.Overflowed, h]

theorem bioAlloc_fits {bio : BinderIo} {n : ℕ} (h : align4 n ≤ bio.dataAvail) :
    bioAlloc bio n = (some bio.data, { bio with
      data := bio.data + align4 n, dataAvail := bio.dataAvail - align4 n }) := by
  simp [bioAlloc, Nat.not_lt.mpr h]

theorem bioAlloc_full {bio : BinderIo} {n : ℕ} (h : bio.dataAvail < align4 n) :
    bioAlloc bio n = (none, bio.overflow) := by
  simp [bioAlloc, h]

theorem bioGet_fits {bio : BinderIo} {n : ℕ} (h : align4 n ≤ bio.dataAvail) :
    bioGet bio n = (some bio.data, { bio with
      data := bio.data + align4 n, dataAvail := bio.dataAvail - align4 n }) := by
  simp [bioGet, Nat.not_lt.mpr h]

theorem bioGet_short {bio : BinderIo} {n : ℕ} (h : bio.dataAvail < align4 n) :
    bioGet bio n = (none, { bio.overflow with dataAvail := 0 }) := by
  simp [bioGet, h]

end LinuxLabs.Binder
