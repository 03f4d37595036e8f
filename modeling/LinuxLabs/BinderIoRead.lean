import LinuxLabs.BinderIoWrite

/-! The reading side of the codec. A message is arbitrary memory described by a transaction;
a reader is what any sequence of `bio_get_*` calls makes of it. -/
namespace LinuxLabs.Binder
open ByteMemory

inductive Getter
  | uint32
  | string16
  | ref
  deriving DecidableEq, Repr

/-- What one getter call hands to its caller; a string is a pointer and a length. -/
inductive Got
  | uint32 (n : UInt32)
  | string16 (ptr : Option ℕ) (len : ℕ)
  | ref (handle : UInt32)
  deriving DecidableEq, Repr

def Getter.run (p : Parcel) : Getter → Got × Parcel
  | .uint32 => (.uint32 (bioGetUint32 p).1, (bioGetUint32 p).2)
  | .string16 => (.string16 (bioGetString16 p).1 (bioGetString16 p).2.1, (bioGetString16 p).2.2)
  | .ref => (.ref (bioGetRef p).1, (bioGetRef p).2)

def getAll (p : Parcel) : List Getter → List Got × Parcel
  | [] => ([], p)
  | g :: gs =>
    let head := g.run p
    let tail := getAll head.2 gs
    (head.1 :: tail.1, tail.2)

theorem bioGetUint32_fits {p : Parcel} (h : 4 ≤ p.io.dataAvail) :
    bioGetUint32 p = (load32 p.mem p.io.data, ⟨p.mem, p.io.advance 4 0⟩) := by
  simp only [bioGetUint32, bioGet_fits (n := 4) (by simpa using h)]
  simp [BinderIo.advance]

theorem bioGetUint32_short {p : Parcel} (h : p.io.dataAvail < 4) :
    bioGetUint32 p = (0, ⟨p.mem, { p.io.overflow with dataAvail := 0 }⟩) := by
  simp only [bioGetUint32, bioGet_short (n := 4) (by simpa using h)]

/-- The size of the block a string of `len` units is read from, as the decoder computes it:
the product and the rounding both wrap. -/
def stringBlock (len : ℕ) : ℕ := align4 (wrap ((len + 1) * 2))

theorem stringBlock_eq {len : ℕ} (h : len < 2^31 - 2) :
    stringBlock len = (2 * len + 5) / 4 * 4 := by
  have hw : wrap ((len + 1) * 2) = (len + 1) * 2 := wrap_of_lt (by omega)
  rw [stringBlock, hw, align4_of_lt (by omega)]
  congr 2
  omega

theorem bioGetString16_fits {p : Parcel} {n : ℕ} (h4 : 4 ≤ p.io.dataAvail)
    (hl : (load32 p.mem p.io.data).toNat = n) (h : 4 + stringBlock n ≤ p.io.dataAvail) :
    bioGetString16 p =
      (some (p.io.data + 4), n, ⟨p.mem, p.io.advance (4 + stringBlock n) 0⟩) := by
  simp only [bioGetString16, bioGetUint32_fits h4, hl]
  rw [bioGet_fits (by simp only [BinderIo.advance]; unfold stringBlock at h; omega)]
  simp [BinderIo.advance, stringBlock, Nat.add_assoc, Nat.sub_sub]

theorem bioGetString16_long {p : Parcel} {n : ℕ} (h4 : 4 ≤ p.io.dataAvail)
    (hl : (load32 p.mem p.io.data).toNat = n) (h : p.io.dataAvail < 4 + stringBlock n) :
    bioGetString16 p =
      (none, n, ⟨p.mem, { (p.io.advance 4 0).overflow with dataAvail := 0 }⟩) := by
  simp only [bioGetString16, bioGetUint32_fits h4, hl]
  rw [bioGet_short (by simp only [BinderIo.advance]; unfold stringBlock at h; omega)]

theorem bioGetString16_short {p : Parcel} (h4 : p.io.dataAvail < 4) :
    bioGetString16 p = (none, 0, ⟨p.mem, { p.io.overflow with dataAvail := 0 }⟩) := by
  simp only [bioGetString16, bioGetUint32_short h4, UInt32.toNat_zero]
  rw [bioGet_short (by simp; decide)]
  simp [BinderIo.overflow, UInt32.or_assoc]

/-- The offset table of a reader mentions the position of the cursor. -/
def Parcel.Listed (p : Parcel) : Prop :=
  ∃ n < p.io.offsAvail, (load32 p.mem (p.io.offs + 4*n)).toNat = p.io.data - p.io.data0

instance (p : Parcel) : Decidable p.Listed :=
  inferInstanceAs (Decidable (∃ n < p.io.offsAvail, _ = _))

theorem bioGetObj_eq (p : Parcel) : bioGetObj p =
    if p.Listed then
      ((bioGet p.io sizeofFlatBinderObject).1, ⟨p.mem, (bioGet p.io sizeofFlatBinderObject).2⟩)
    else (none, ⟨p.mem, { p.io.overflow with dataAvail := 0 }⟩) := by
  have hl : ((List.range p.io.offsAvail).any fun n =>
      (load32 p.mem (p.io.offs + 4*n)).toNat == p.io.data - p.io.data0) = true ↔ p.Listed := by
    simp [Parcel.Listed]
  simp only [bioGetObj, hl]

theorem bioGetRef_fits {p : Parcel} (hl : p.Listed) (h : 16 ≤ p.io.dataAvail) :
    bioGetRef p = (if load32 p.mem p.io.data = binderTypeHandle then
      load32 p.mem (p.io.data + 8) else 0, ⟨p.mem, p.io.advance 16 0⟩) := by
  have h16 : align4 sizeofFlatBinderObject ≤ p.io.dataAvail := by simpa using h
  have hg := bioGet_fits h16
  simp only [bioGetRef, bioGetObj_eq, hl, if_true, hg]
  split_ifs <;> simp [BinderIo.advance]

theorem bioGetRef_fails {p : Parcel} (h : ¬ (p.Listed ∧ 16 ≤ p.io.dataAvail)) :
    bioGetRef p = (0, ⟨p.mem, { p.io.overflow with dataAvail := 0 }⟩) := by
  by_cases hl : p.Listed
  · have hlt : p.io.dataAvail < align4 sizeofFlatBinderObject := by
      by_contra hn
      exact h ⟨hl, by simpa using hn⟩
    simp only [bioGetRef, bioGetObj_eq, hl, if_true, bioGet_short hlt]
  · simp only [bioGetRef, bioGetObj_eq, hl, if_false]

@[simp] theorem Getter.run_mem (p : Parcel) (g : Getter) : (g.run p).2.mem = p.mem := by
  cases g with
  | uint32 => simp only [Getter.run, bioGetUint32]; split <;> rfl
  | string16 => rfl
  | ref =>
    by_cases h : p.Listed ∧ 16 ≤ p.io.dataAvail
    · simp [Getter.run, bioGetRef_fits h.1 h.2]
    · simp [Getter.run, bioGetRef_fails h]

/-- Where a reader can stand in the message `[lo, hi)`: what it has consumed and what it
believes to be left stay inside. -/
structure Parcel.Within (p : Parcel) (m : Mem) (lo hi : ℕ) : Prop where
  mem : p.mem = m
  start : lo ≤ p.io.data
  fits : p.io.data + p.io.dataAvail ≤ hi

theorem bioInitFromTxn_within (m : Mem) (txn : BinderTransactionData) :
    (bioInitFromTxn m txn).Within m txn.buffer.toNat (txn.buffer.toNat + txn.dataSize.toNat) :=
  ⟨rfl, le_rfl, le_rfl⟩

/-- Every getter moves the cursor by at most what is left, whatever size it computed. -/
theorem Getter.run_within {p : Parcel} {m : Mem} {lo hi : ℕ} (g : Getter)
    (h : p.Within m lo hi) : (g.run p).2.Within m lo hi := by
  have hm : (g.run p).2.mem = m := by rw [g.run_mem, h.mem]
  have hs := h.start
  have hf := h.fits
  refine ⟨hm, ?_, ?_⟩
  all_goals cases g with
  | uint32 =>
    by_cases h4 : 4 ≤ p.io.dataAvail
    · simp only [Getter.run, bioGetUint32_fits h4, BinderIo.advance]; omega
    · simp only [Getter.run, bioGetUint32_short (Nat.lt_of_not_le h4), BinderIo.overflow]; omega
  | string16 =>
    by_cases h4 : 4 ≤ p.io.dataAvail
    · by_cases hb : 4 + stringBlock (load32 p.mem p.io.data).toNat ≤ p.io.dataAvail
      · simp only [Getter.run, bioGetString16_fits h4 rfl hb, BinderIo.advance]; omega
      · simp only [Getter.run, bioGetString16_long h4 rfl (Nat.lt_of_not_le hb),
          BinderIo.overflow, BinderIo.advance]; omega
    · simp only [Getter.run, bioGetString16_short (Nat.lt_of_not_le h4), BinderIo.overflow]; omega
  | ref =>
    by_cases hr : p.Listed ∧ 16 ≤ p.io.dataAvail
    · have h16 := hr.2
      simp only [Getter.run, bioGetRef_fits hr.1 hr.2, BinderIo.advance]; omega
    · simp only [Getter.run, bioGetRef_fails hr, BinderIo.overflow]; omega

end LinuxLabs.Binder
