import LinuxLabs.BinderIo

/-! The writing side of the codec. A `Put` is one call of the `bio_put_*` family; its
encoded size and the number of offset entries it records are known in advance, and a put
that has the room for both moves the cursors by exactly these amounts. -/
namespace LinuxLabs.Binder
open ByteMemory

inductive Put
  | uint32 (n : UInt32)
  | string16 (str : Option (List UInt16))
  | string16X (str : Option (List UInt8))
  | ref (handle : UInt32)
  | obj (ptr : UInt32)
  deriving DecidableEq, Repr

def Put.run (p : Parcel) : Put → Parcel
  | .uint32 n => bioPutUint32 p n
  | .string16 str => bioPutString16 p str
  | .string16X str => bioPutString16X p str
  | .ref handle => bioPutRef p handle
  | .obj ptr => bioPutObj p ptr

def putAll (p : Parcel) (puts : List Put) : Parcel := puts.foldl Put.run p

/-- Encoded size of a string of `len` characters: the guard against huge strings turns
them into the single length word of a null string. -/
def stringSize (len : ℕ) : ℕ := if maxBioSize / 2 ≤ len then 4 else 4 + align4 (2 * (len + 1))

def Put.size : Put → ℕ
  | .uint32 _ => 4
  | .string16 none => 4
  | .string16 (some str) => stringSize (strlen str)
  | .string16X none => 4
  | .string16X (some str) => stringSize (strlen str)
  | .ref _ => 16
  | .obj _ => 16

def Put.objs : Put → ℕ
  | .ref handle => if handle = 0 then 0 else 1
  | .obj _ => 1
  | _ => 0

/-- Move the cursors past `size` bytes of data and `objs` entries of the table. -/
def BinderIo.advance (io : BinderIo) (size objs : ℕ) : BinderIo :=
  { io with
    data := io.data + size
    dataAvail := io.dataAvail - size
    offs := io.offs + 4 * objs
    offsAvail := io.offsAvail - objs }

def BinderIo.Room (io : BinderIo) (size objs : ℕ) : Prop :=
  size ≤ io.dataAvail ∧ objs ≤ io.offsAvail

theorem advance_overflowed (io : BinderIo) (size objs : ℕ) :
    (io.advance size objs).Overflowed ↔ io.Overflowed := overflowed_congr rfl

theorem advance_advance {io : BinderIo} {s t o q : ℕ} :
    (io.advance s o).advance t q = io.advance (s + t) (o + q) := by
  simp only [BinderIo.advance, Nat.mul_add, Nat.add_assoc, Nat.sub_sub]

theorem bioPutUint32_fits {p : Parcel} {n : UInt32} (h : 4 ≤ p.io.dataAvail) :
    bioPutUint32 p n = ⟨store32 p.mem p.io.data n, p.io.advance 4 0⟩ := by
  simp only [bioPutUint32, bioAlloc_fits (n := 4) (by simpa using h)]
  simp [BinderIo.advance]

theorem bioPutUint32_full {p : Parcel} {n : UInt32} (h : p.io.dataAvail < 4) :
    bioPutUint32 p n = ⟨p.mem, p.io.overflow⟩ := by
  simp only [bioPutUint32, bioAlloc_full (n := 4) (by simpa using h)]

theorem wrap_of_lt {n : ℕ} (h : n < 2^32) : wrap n = n := Nat.mod_eq_of_lt h

theorem putUnits_huge {p : Parcel} {len : ℕ} {us : List UInt16} (h : maxBioSize / 2 ≤ len) :
    putUnits p len us = bioPutUint32 p 0xffffffff := by simp [putUnits, h]

theorem putUnits_fits {p : Parcel} {len : ℕ} {us : List UInt16} (hl : len < maxBioSize / 2)
    (h : stringSize len ≤ p.io.dataAvail) :
    putUnits p len us =
      ⟨storeUnits (store32 p.mem p.io.data (UInt32.ofNat len)) (p.io.data + 4) (us ++ [0]),
        p.io.advance (stringSize len) 0⟩ := by
  have hlt : len < 2^29 := hl
  have hw : wrap ((len + 1) * 2) = 2 * (len + 1) := by rw [wrap_of_lt (by omega)]; omega
  have hs : stringSize len = 4 + align4 (2 * (len + 1)) := by simp [stringSize, hl]
  rw [hs] at h ⊢
  simp only [putUnits, Nat.not_le.mpr hl, if_false, hw,
    bioPutUint32_fits (p := p) (n := UInt32.ofNat len) (by omega)]
  rw [bioAlloc_fits (by simp only [BinderIo.advance]; omega)]
  simp [BinderIo.advance, Nat.add_assoc, Nat.sub_sub]

theorem putUnits_full {p : Parcel} {len : ℕ} {us : List UInt16} (hl : len < maxBioSize / 2)
    (h : p.io.dataAvail < stringSize len) : (putUnits p len us).io.Overflowed := by
  have hlt : len < 2^29 := hl
  have hw : wrap ((len + 1) * 2) = 2 * (len + 1) := by rw [wrap_of_lt (by omega)]; omega
  have hs : stringSize len = 4 + align4 (2 * (len + 1)) := by simp [stringSize, hl]
  have ha : 4 ≤ align4 (2 * (len + 1)) := by rw [align4_of_lt (by omega)]; omega
  rw [hs] at h
  simp only [putUnits, Nat.not_le.mpr hl, if_false, hw]
  by_cases h4 : 4 ≤ p.io.dataAvail
  · rw [bioPutUint32_fits h4, bioAlloc_full (by simp only [BinderIo.advance]; omega)]
    exact overflow_overflowed _
  · rw [bioPutUint32_full (by omega), bioAlloc_full (by simp only [BinderIo.overflow]; omega)]
    exact overflow_overflowed _

theorem bioAllocObj_fits {p : Parcel} (h : p.io.Room 16 1) :
    bioAllocObj p = (some p.io.data,
      ⟨store32 p.mem p.io.offs (UInt32.ofNat (p.io.data - p.io.data0)), p.io.advance 16 1⟩) := by
  have hn : p.io.offsAvail ≠ 0 := by have := h.2; omega
  simp only [bioAllocObj, bioAlloc_fits (n := sizeofFlatBinderObject) (by simpa using h.1)]
  simp [hn, BinderIo.advance]

theorem bioAllocObj_full {p : Parcel} (h : ¬ p.io.Room 16 1) :
    ∃ io : BinderIo, bioAllocObj p = (none, ⟨p.mem, io.overflow⟩) := by
  by_cases h16 : 16 ≤ p.io.dataAvail
  · have h0 : p.io.offsAvail = 0 := by
      by_contra hn
      exact h ⟨h16, by omega⟩
    simp only [bioAllocObj, bioAlloc_fits (n := sizeofFlatBinderObject) (by simpa using h16)]
    exact ⟨_, by simp [h0]; rfl⟩
  · refine ⟨p.io.overflow, ?_⟩
    have hfull : p.io.dataAvail < align4 sizeofFlatBinderObject := by
      rw [align4_object]
      omega
    simp only [bioAllocObj, bioAlloc_full hfull]

theorem bioPutObj_fits {p : Parcel} {ptr : UInt32} (h : p.io.Room 16 1) :
    bioPutObj p ptr =
      ⟨fillObj (store32 p.mem p.io.offs (UInt32.ofNat (p.io.data - p.io.data0))) p.io.data
        binderTypeBinder ptr, p.io.advance 16 1⟩ := by
  simp only [bioPutObj, bioAllocObj_fits h]

theorem bioPutRef_fits {p : Parcel} {handle : UInt32} (hh : handle ≠ 0) (h : p.io.Room 16 1) :
    bioPutRef p handle =
      ⟨fillObj (store32 p.mem p.io.offs (UInt32.ofNat (p.io.data - p.io.data0))) p.io.data
        binderTypeHandle handle, p.io.advance 16 1⟩ := by
  simp [bioPutRef, hh, bioAllocObj_fits h]

theorem bioPutRef_null_fits {p : Parcel} (h : 16 ≤ p.io.dataAvail) :
    bioPutRef p 0 = ⟨fillObj p.mem p.io.data binderTypeHandle 0, p.io.advance 16 0⟩ := by
  simp only [bioPutRef, ne_eq, not_true_eq_false, if_false,
    bioAlloc_fits (n := sizeofFlatBinderObject) (by simpa using h)]
  simp [BinderIo.advance]

/-- What a put that fits stores at address `a`. -/
def stringImage (m : Mem) (a len : ℕ) (us : List UInt16) : Mem :=
  if maxBioSize / 2 ≤ len then store32 m a 0xffffffff
  else storeUnits (store32 m a (UInt32.ofNat len)) (a + 4) (us ++ [0])

def Put.image (m : Mem) (a : ℕ) : Put → Mem
  | .uint32 n => store32 m a n
  | .string16 none => store32 m a 0xffffffff
  | .string16 (some str) => stringImage m a (strlen str) (str.take (strlen str))
  | .string16X none => store32 m a 0xffffffff
  | .string16X (some str) =>
    stringImage m a (strlen str) ((str.take (strlen str)).map UInt8.toUInt16)
  | .ref handle => fillObj m a binderTypeHandle handle
  | .obj ptr => fillObj m a binderTypeBinder ptr

/-- The memory after the offset table has taken note of `objs` objects at the cursor. -/
def Parcel.record (p : Parcel) (objs : ℕ) : Mem :=
  if objs = 0 then p.mem
  else store32 p.mem p.io.offs (UInt32.ofNat (p.io.data - p.io.data0))

theorem putUnits_run (p : Parcel) (len : ℕ) (us : List UInt16) :
    (stringSize len ≤ p.io.dataAvail → putUnits p len us =
      ⟨stringImage p.mem p.io.data len us, p.io.advance (stringSize len) 0⟩) ∧
    (p.io.dataAvail < stringSize len → (putUnits p len us).io.Overflowed) := by
  by_cases hl : maxBioSize / 2 ≤ len
  · have hs : stringSize len = 4 := by simp [stringSize, hl]
    rw [putUnits_huge hl, hs]
    constructor
    · intro h
      simp [bioPutUint32_fits h, stringImage, hl]
    · intro h
      rw [bioPutUint32_full h]
      exact overflow_overflowed _
  · have hl' : len < maxBioSize / 2 := by omega
    constructor
    · intro h
      simp [putUnits_fits hl' h, stringImage, hl]
    · exact putUnits_full hl'

/-- A put with room for its bytes and its entry stores its image at the cursor and
advances the cursors by its own size. -/
theorem Put.run_fits {p : Parcel} {v : Put} (h : p.io.Room v.size v.objs) :
    v.run p = ⟨v.image (p.record v.objs) p.io.data, p.io.advance v.size v.objs⟩ := by
  cases v with
  | uint32 n => exact bioPutUint32_fits h.1
  | string16 str =>
    cases str with
    | none => exact bioPutUint32_fits h.1
    | some str => exact (putUnits_run p _ _).1 h.1
  | string16X str =>
    cases str with
    | none => exact bioPutUint32_fits h.1
    | some str => exact (putUnits_run p _ _).1 h.1
  | ref handle =>
    by_cases hh : handle = 0
    · subst hh
      simpa [Put.run, Put.objs, Put.size, Put.image, Parcel.record] using
        bioPutRef_null_fits (p := p) h.1
    · have hr : p.io.Room 16 1 := by simpa [Put.size, Put.objs, hh] using h
      simpa [Put.run, Put.objs, Put.size, Put.image, Parcel.record, hh] using bioPutRef_fits hh hr
  | obj ptr => exact bioPutObj_fits h

/-- A put without the room for its bytes or its entry raises the overflow flag. -/
theorem Put.run_overflowed {p : Parcel} {v : Put} (h : ¬ p.io.Room v.size v.objs) :
    (v.run p).io.Overflowed := by
  have hdata : v.objs = 0 → p.io.dataAvail < v.size := by
    intro h0
    by_contra hn
    exact h ⟨by omega, by omega⟩
  cases v with
  | uint32 n =>
    simp only [Put.run, bioPutUint32_full (p := p) (n := n) (hdata rfl)]
    exact overflow_overflowed _
  | string16 str =>
    cases str with
    | none =>
      simp only [Put.run, bioPutString16, bioPutUint32_full (p := p) (hdata rfl)]
      exact overflow_overflowed _
    | some str => exact (putUnits_run p _ _).2 (hdata rfl)
  | string16X str =>
    cases str with
    | none =>
      simp only [Put.run, bioPutString16X, bioPutUint32_full (p := p) (hdata rfl)]
      exact overflow_overflowed _
    | some str => exact (putUnits_run p _ _).2 (hdata rfl)
  | ref handle =>
    by_cases hh : handle = 0
    · subst hh
      have hlt : p.io.dataAvail < align4 sizeofFlatBinderObject := by
        simpa [Put.size] using hdata (by simp [Put.objs])
      simp only [Put.run, bioPutRef, ne_eq, not_true_eq_false, if_false, bioAlloc_full hlt]
      exact overflow_overflowed _
    · obtain ⟨io, he⟩ := bioAllocObj_full (p := p) (by simpa [Put.size, Put.objs, hh] using h)
      simp only [Put.run, bioPutRef, ne_eq, hh, not_false_eq_true, if_true, he]
      exact overflow_overflowed _
  | obj ptr =>
    obtain ⟨io, he⟩ := bioAllocObj_full (p := p) h
    simp only [Put.run, bioPutObj, he]
    exact overflow_overflowed _

/-- The overflow flag stays clear exactly when it was clear and the put fits. -/
theorem Put.run_clear_iff {p : Parcel} {v : Put} :
    ¬ (v.run p).io.Overflowed ↔ ¬ p.io.Overflowed ∧ p.io.Room v.size v.objs := by
  by_cases h : p.io.Room v.size v.objs
  · simp [Put.run_fits h, advance_overflowed, h]
  · simp [Put.run_overflowed h, h]

theorem putAll_clear {p : Parcel} {vs : List Put} (h : ¬ (putAll p vs).io.Overflowed) :
    ¬ p.io.Overflowed := by
  induction vs generalizing p with
  | nil => exact h
  | cons v vs ih => exact (Put.run_clear_iff.mp (ih h)).1

/-- An object is filled in within its sixteen bytes. -/
theorem fillObj_agree_off (m : Mem) (obj lo hi : ℕ) (t v : UInt32)
    (h : hi ≤ obj ∨ obj + 16 ≤ lo) : AgreeOn (fillObj m obj t v) m lo hi := by
  have h12 := store32_agree_off (store32 (store32 (store32 m (obj+4)
    (0x7f ||| flatBinderFlagAcceptsFds)) obj t) (obj+8) v) (obj+12) lo hi 0 (by omega)
  have h8 := store32_agree_off (store32 (store32 m (obj+4)
    (0x7f ||| flatBinderFlagAcceptsFds)) obj t) (obj+8) lo hi v (by omega)
  have h0 := store32_agree_off (store32 m (obj+4) (0x7f ||| flatBinderFlagAcceptsFds)) obj lo hi t
    (by omega)
  have h4 := store32_agree_off m (obj+4) lo hi (0x7f ||| flatBinderFlagAcceptsFds) (by omega)
  exact ((h12.trans h8).trans h0).trans h4

theorem load_fillObj (m : Mem) (obj : ℕ) (t v : UInt32) :
    load32 (fillObj m obj t v) obj = t ∧ load32 (fillObj m obj t v) (obj + 8) = v := by
  constructor
  · rw [fillObj, load32_store32_of_disjoint _ _ _ _ (by omega),
      load32_store32_of_disjoint _ _ _ _ (by omega), load32_store32]
  · rw [fillObj, load32_store32_of_disjoint _ _ _ _ (by omega), load32_store32]

theorem stringImage_agree_below (m : Mem) (a len lo hi : ℕ) (us : List UInt16) (h : hi ≤ a) :
    AgreeOn (stringImage m a len us) m lo hi := by
  unfold stringImage
  split_ifs
  · exact store32_agree_below m a lo hi _ h
  · exact (storeUnits_agree_below _ _ _ _ _ (by omega)).trans (store32_agree_below m a lo hi _ h)

/-- A put stores nothing below the cursor apart from its entry in the table. -/
theorem Put.image_agree_below (m : Mem) (a lo hi : ℕ) (v : Put) (h : hi ≤ a) :
    AgreeOn (v.image m a) m lo hi := by
  cases v with
  | uint32 n => exact store32_agree_below m a lo hi _ h
  | string16 str =>
    cases str with
    | none => exact store32_agree_below m a lo hi _ h
    | some str => exact stringImage_agree_below m a _ lo hi _ h
  | string16X str =>
    cases str with
    | none => exact store32_agree_below m a lo hi _ h
    | some str => exact stringImage_agree_below m a _ lo hi _ h
  | ref handle => exact fillObj_agree_off m a lo hi _ _ (.inl h)
  | obj ptr => exact fillObj_agree_off m a lo hi _ _ (.inl h)

/-- The table in front of the data and the data cursor, as `bio_init` sets them up and every
put keeps them: the free entries end where the data begins. -/
structure BinderIo.Layout (io : BinderIo) : Prop where
  table : io.offs + 4 * io.offsAvail = io.data0
  entries : ∃ k, io.offs = io.offs0 + 4 * k
  data : io.data0 ≤ io.data

theorem BinderIo.Layout.advance {io : BinderIo} {size objs : ℕ} (h : io.Layout)
    (hr : io.Room size objs) : (io.advance size objs).Layout := by
  obtain ⟨k, hk⟩ := h.entries
  have ht := h.table
  have hd := h.data
  have ho := hr.2
  refine ⟨?_, ⟨k + objs, ?_⟩, ?_⟩
  · simp only [BinderIo.advance]; omega
  · simp only [BinderIo.advance, hk]; omega
  · simp only [BinderIo.advance]; omega

theorem bioInit_clear {p : Parcel} {data maxdata maxoffs : ℕ} (hw : maxoffs * 4 < 2^32)
    (h : ¬ (bioInit p data maxdata maxoffs).io.Overflowed) : maxoffs * 4 ≤ maxdata := by
  by_contra hn
  have hlt : maxdata < wrap (maxoffs * sizeofSizeT) := by
    rw [wrap_of_lt (by simpa [sizeofSizeT] using hw)]; simpa [sizeofSizeT] using hn
  apply h
  simp only [bioInit, hlt, if_true, BinderIo.Overflowed]
  decide

theorem bioInit_fits (p : Parcel) (data maxdata maxoffs : ℕ) (hw : maxoffs * 4 < 2^32)
    (h : maxoffs * 4 ≤ maxdata) :
    bioInit p data maxdata maxoffs = ⟨p.mem, {
      data := data + maxoffs * 4
      data0 := data + maxoffs * 4
      offs := data
      offs0 := data
      dataAvail := maxdata - maxoffs * 4
      offsAvail := maxoffs
      flags := 0 }⟩ := by
  have hn : wrap (maxoffs * sizeofSizeT) = maxoffs * 4 := wrap_of_lt hw
  simp [bioInit, hn, Nat.not_lt.mpr h]

end LinuxLabs.Binder
