import LinuxLabs.BinderIoRead

/-! Where the strings handed out by the decoder lie. The block size `(len + 1) * 2`, rounded to
a multiple of four, is computed modulo `2^32` on a length taken from the message. -/
namespace LinuxLabs.Binder
open ByteMemory

/-- A string result of `len` units and its terminator lies in `[lo, hi)`. -/
def Got.Inside (lo hi : ℕ) : Got → Prop
  | .string16 (some ptr) len => lo ≤ ptr ∧ ptr + 2 * (len + 1) ≤ hi
  | _ => True

/-- Every string that a sequence of getter calls on the message hands out lies inside it. -/
def StringsInside (m : Mem) (txn : BinderTransactionData) (gs : List Getter) : Prop :=
  ∀ got ∈ (getAll (bioInitFromTxn m txn) gs).1,
    got.Inside txn.buffer.toNat (txn.buffer.toNat + txn.dataSize.toNat)

/-- The length word at the cursor is small enough for the size computation not to wrap, or
the block, wrapped or not, is refused for lack of data. -/
def Parcel.LengthInRange (p : Parcel) : Prop :=
  p.io.dataAvail < 4 ∨ (load32 p.mem p.io.data).toNat < 2^31 - 2 ∨
    p.io.dataAvail < 4 + stringBlock (load32 p.mem p.io.data).toNat

/-- The condition at every string read of a sequence of calls. -/
def Parcel.LengthsInRange (p : Parcel) : List Getter → Prop
  | [] => True
  | g :: gs => (g = .string16 → p.LengthInRange) ∧ (g.run p).2.LengthsInRange gs

/-- One string read from a cursor inside a message of a 32-bit size. -/
theorem bioGetString16_inside_iff {p : Parcel} {m : Mem} {lo hi : ℕ} (h : p.Within m lo hi)
    (hhi : hi < lo + 2^32) :
    (Got.string16 (bioGetString16 p).1 (bioGetString16 p).2.1).Inside lo hi ↔
      p.LengthInRange := by
  have hs := h.start
  have hf := h.fits
  by_cases h4 : p.io.dataAvail < 4
  · simp [bioGetString16_short h4, Got.Inside, Parcel.LengthInRange, h4]
  · by_cases hb : p.io.dataAvail < 4 + stringBlock (load32 p.mem p.io.data).toNat
    · simp [bioGetString16_long (Nat.le_of_not_lt h4) rfl hb, Got.Inside,
        Parcel.LengthInRange, hb]
    · rw [bioGetString16_fits (Nat.le_of_not_lt h4) rfl (Nat.le_of_not_lt hb)]
      simp only [Got.Inside, Parcel.LengthInRange, h4, hb, false_or, or_false]
      constructor
      · intro hin
        omega
      · intro hlen
        rw [stringBlock_eq hlen] at hb
        omega

theorem Getter.run_inside_iff {p : Parcel} {m : Mem} {lo hi : ℕ} (g : Getter)
    (h : p.Within m lo hi) (hhi : hi < lo + 2^32) :
    (g.run p).1.Inside lo hi ↔ (g = .string16 → p.LengthInRange) := by
  cases g with
  | uint32 => simp [Getter.run, Got.Inside]
  | string16 => simpa [Getter.run] using bioGetString16_inside_iff h hhi
  | ref => simp [Getter.run, Got.Inside]

theorem getAll_inside_iff {p : Parcel} {m : Mem} {lo hi : ℕ} (gs : List Getter)
    (h : p.Within m lo hi) (hhi : hi < lo + 2^32) :
    (∀ got ∈ (getAll p gs).1, got.Inside lo hi) ↔ p.LengthsInRange gs := by
  induction gs generalizing p with
  | nil => simp [getAll, Parcel.LengthsInRange]
  | cons g gs ih =>
    simp only [getAll, List.forall_mem_cons, Parcel.LengthsInRange, g.run_inside_iff h hhi,
      ih (g.run_within h)]

/-- The strings handed out along a sequence of calls all lie inside the message exactly when
every length word met on the way is below `0x7ffffffe` or its block is refused. -/
theorem stringsInside_iff (m : Mem) (txn : BinderTransactionData) (gs : List Getter) :
    StringsInside m txn gs ↔ (bioInitFromTxn m txn).LengthsInRange gs := by
  have hsize := txn.dataSize.toNat_lt
  exact getAll_inside_iff gs (bioInitFromTxn_within m txn) (by omega)

/-- A message of four bytes `ff`, the encoding of a null string. -/
def nullStringTxn : BinderTransactionData :=
  { target := 0, cookie := 0, code := 0, flags := 0, senderPid := 0, senderEuid := 0,
    dataSize := 4, offsetsSize := 0, buffer := 0x1000, offsets := 0x2000 }

/-- Its decoder hands out a string of `0xffffffff` units behind the end of the message. -/
theorem nullString_sticks_out : ¬ StringsInside (fun _ => 0xff) nullStringTxn [.string16] := by
  intro h
  have hgot := h (.string16 (some 0x1004) 0xffffffff) (by decide)
  exact absurd hgot.2 (by decide)

end LinuxLabs.Binder
