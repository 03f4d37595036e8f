import LinuxLabs.BinderIoRead

/-! Failure on the reading side of the codec. A getter either moves the cursor by whole words
within the data that is left, or gives up what is left and raises the flag; with nothing left
every later getter gives up too. -/
namespace LinuxLabs.Binder
open ByteMemory

/-- What a getter returns when it has nothing to return. -/
def Getter.nothing : Getter → Got
  | .uint32 => .uint32 0
  | .string16 => .string16 none 0
  | .ref => .ref 0

/-- Zero, or a null pointer whatever the length is. -/
def Got.Null : Got → Prop
  | .uint32 n => n = 0
  | .string16 ptr _ => ptr = none
  | .ref handle => handle = 0

lemma four_dvd_align4 (n : ℕ) : 4 ∣ align4 n := by
  rw [align4_eq]
  exact Nat.dvd_mul_left 4 _

/-- What a getter can do. A string can fail behind its length word. -/
inductive Getter.Moves (p : Parcel) (got : Got) : BinderIo → Prop
  | reads (n : ℕ) (words : 4 ∣ n) (some : 4 ≤ n) (left : n ≤ p.io.dataAvail) :
      Moves p got (p.io.advance n 0)
  | fails (n : ℕ) (words : 4 ∣ n) (left : n ≤ p.io.dataAvail) (null : got.Null) :
      Moves p got { (p.io.advance n 0).overflow with dataAvail := 0 }

theorem Getter.run_moves (p : Parcel) (g : Getter) : Getter.Moves p (g.run p).1 (g.run p).2.io := by
  cases g with
  | uint32 =>
    by_cases h4 : 4 ≤ p.io.dataAvail
    · simp only [Getter.run, bioGetUint32_fits h4]
      exact .reads 4 (by norm_num) le_rfl h4
    · simp only [Getter.run, bioGetUint32_short (Nat.lt_of_not_le h4)]
      exact .fails 0 (by norm_num) (Nat.zero_le _) rfl
  | string16 =>
    have hblock : 4 ∣ 4 + stringBlock (load32 p.mem p.io.data).toNat :=
      (Nat.dvd_add_right (dvd_refl 4)).mpr (four_dvd_align4 _)
    by_cases h4 : 4 ≤ p.io.dataAvail
    · by_cases hb : 4 + stringBlock (load32 p.mem p.io.data).toNat ≤ p.io.dataAvail
      · simp only [Getter.run, bioGetString16_fits h4 rfl hb]
        exact .reads _ hblock (Nat.le_add_right 4 _) hb
      · simp only [Getter.run, bioGetString16_long h4 rfl (Nat.lt_of_not_le hb)]
        exact .fails 4 (by norm_num) h4 rfl
    · simp only [Getter.run, bioGetString16_short (Nat.lt_of_not_le h4)]
      exact .fails 0 (by norm_num) (Nat.zero_le _) rfl
  | ref =>
    by_cases hr : p.Listed ∧ 16 ≤ p.io.dataAvail
    · simp only [Getter.run, bioGetRef_fits hr.1 hr.2]
      exact .reads 16 (by norm_num) (by norm_num) hr.2
    · simp only [Getter.run, bioGetRef_fails hr]
      exact .fails 0 (by norm_num) (Nat.zero_le _) rfl

/-- Where a reader of the message can stand. What is left is given up with the first failure. -/
structure Parcel.Reads (p : Parcel) (txn : BinderTransactionData) : Prop where
  base : p.io.data0 = txn.buffer.toNat
  start : p.io.data0 ≤ p.io.data
  fits : p.io.data - p.io.data0 + p.io.dataAvail ≤ txn.dataSize.toNat
  aligned : 4 ∣ p.io.data - p.io.data0
  spent : p.io.Overflowed → p.io.dataAvail = 0

lemma bioInitFromTxn_reads (m : Mem) (txn : BinderTransactionData) :
    (bioInitFromTxn m txn).Reads txn := by
  refine ⟨rfl, le_rfl, ?_, ?_, fun h => ?_⟩
  · simp [bioInitFromTxn]
  · simp [bioInitFromTxn]
  · simp only [BinderIo.Overflowed, bioInitFromTxn] at h
    exact absurd rfl h

lemma Parcel.Reads.run {p : Parcel} {txn : BinderTransactionData} (h : p.Reads txn) (g : Getter) :
    (g.run p).2.Reads txn ∧ p.io.data ≤ (g.run p).2.io.data := by
  obtain ⟨hbase, hstart, hfits, haligned, hspent⟩ := h
  have hmoves := g.run_moves p
  generalize (g.run p).1 = got at hmoves
  generalize (g.run p).2 = p' at hmoves ⊢
  obtain ⟨m', io'⟩ := p'
  have hsum {n : ℕ} (hn : 4 ∣ n) : 4 ∣ p.io.data + n - p.io.data0 := by
    rw [Nat.sub_add_comm hstart]
    exact (Nat.dvd_add_right haligned).mpr hn
  cases hmoves with
  | reads n words some left =>
    refine ⟨⟨hbase, ?_, ?_, hsum words, fun ho => ?_⟩, Nat.le_add_right _ _⟩
    · dsimp only
      omega
    · dsimp only
      omega
    · have h0 := hspent ho
      omega
  | fails n words left null =>
    refine ⟨⟨hbase, ?_, ?_, hsum words, fun _ => rfl⟩, Nat.le_add_right _ _⟩
    · simp only [BinderIo.advance, BinderIo.overflow]
      omega
    · simp only [BinderIo.advance, BinderIo.overflow]
      omega

/-- Behind a failure every getter gives up at the cursor. -/
lemma Parcel.Reads.stuck {p : Parcel} {txn : BinderTransactionData} (h : p.Reads txn)
    (ho : p.io.Overflowed) (g : Getter) :
    (g.run p).2.io.Overflowed ∧ (g.run p).2.io.data = p.io.data := by
  have h0 := h.spent ho
  have hmoves := g.run_moves p
  generalize (g.run p).1 = got at hmoves
  generalize (g.run p).2.io = io' at hmoves ⊢
  cases hmoves with
  | reads n words some left => omega
  | fails n words left null =>
    obtain rfl : n = 0 := by omega
    exact ⟨overflow_overflowed _, rfl⟩

/-- With nothing left a getter returns nothing and leaves nothing. -/
lemma Getter.run_exhausted {p : Parcel} (h : p.io.dataAvail = 0) (g : Getter) :
    (g.run p).1 = g.nothing ∧ (g.run p).2.io.dataAvail = 0 := by
  cases g with
  | uint32 =>
    simp only [Getter.run, bioGetUint32_short (p := p) (by omega)]
    exact ⟨rfl, trivial⟩
  | string16 =>
    simp only [Getter.run, bioGetString16_short (p := p) (by omega)]
    exact ⟨rfl, trivial⟩
  | ref =>
    simp only [Getter.run, bioGetRef_fails (p := p) (by omega)]
    exact ⟨rfl, trivial⟩

theorem getAll_exhausted {p : Parcel} (h : p.io.dataAvail = 0) (gs : List Getter) :
    (getAll p gs).1 = gs.map Getter.nothing := by
  induction gs generalizing p with
  | nil => rfl
  | cons g gs ih =>
    obtain ⟨hg, h'⟩ := g.run_exhausted h
    rw [getAll, hg, ih h', List.map_cons]

lemma getAll_append (p : Parcel) (gs hs : List Getter) :
    getAll p (gs ++ hs) =
      ((getAll p gs).1 ++ (getAll (getAll p gs).2 hs).1, (getAll (getAll p gs).2 hs).2) := by
  induction gs generalizing p with
  | nil => rfl
  | cons g gs ih => simp [getAll, ih]

lemma Parcel.Reads.all {p : Parcel} {txn : BinderTransactionData} (h : p.Reads txn)
    (gs : List Getter) : (getAll p gs).2.Reads txn ∧ p.io.data ≤ (getAll p gs).2.io.data := by
  induction gs generalizing p with
  | nil => exact ⟨h, le_rfl⟩
  | cons g gs ih =>
    obtain ⟨hrun, hle⟩ := h.run g
    obtain ⟨hall, hle'⟩ := ih hrun
    exact ⟨hall, hle.trans hle'⟩

/-- The flag is raised by a getter that returns nothing. -/
lemma Parcel.Reads.null {p : Parcel} {txn : BinderTransactionData} (h : p.Reads txn) (g : Getter)
    (ho : (g.run p).2.io.Overflowed) : (g.run p).1.Null := by
  have hspent := h.spent
  have hmoves := g.run_moves p
  generalize (g.run p).1 = got at hmoves ⊢
  generalize (g.run p).2.io = io' at hmoves ho
  cases hmoves with
  | reads n words some left =>
    have h0 := hspent ((advance_overflowed _ _ _).mp ho)
    omega
  | fails n words left null => exact null

/-- Over every message and every sequence of getter calls the cursor stays inside the message, at
whole words, and never moves back. A getter behind which the overflow flag is set has returned
zero or a null pointer, and from then on the cursor stands and the flag stays. -/
theorem getAll_sticky (m : Mem) (txn : BinderTransactionData) (gs : List Getter) :
    let after := fun pre => (getAll (bioInitFromTxn m txn) pre).2
    (∀ pre, pre <+: gs → (after pre).io.data0 ≤ (after pre).io.data ∧
      (after pre).io.data - (after pre).io.data0 + (after pre).io.dataAvail ≤ txn.dataSize.toNat ∧
      4 ∣ (after pre).io.data - (after pre).io.data0) ∧
    ∀ (pre : List Getter) (g : Getter), pre ++ [g] <+: gs →
      (after pre).io.data - (after pre).io.data0 ≤
        (after (pre ++ [g])).io.data - (after (pre ++ [g])).io.data0 ∧
      ((after (pre ++ [g])).io.Overflowed → (g.run (after pre)).1.Null) ∧
      ((after pre).io.Overflowed → (after (pre ++ [g])).io.Overflowed ∧
        (after (pre ++ [g])).io.data = (after pre).io.data) := by
  intro after
  have hreads (pre : List Getter) : (after pre).Reads txn :=
    ((bioInitFromTxn_reads m txn).all pre).1
  have hsnoc (pre : List Getter) (g : Getter) : after (pre ++ [g]) = (g.run (after pre)).2 := by
    simp only [after, getAll_append]
    rfl
  refine ⟨fun pre _ => ⟨(hreads pre).start, (hreads pre).fits, (hreads pre).aligned⟩,
    fun pre g _ => ⟨?_, fun ho => ?_, fun ho => ?_⟩⟩
  · have hle := ((hreads pre).run g).2
    rw [(hreads pre).base, (hreads (pre ++ [g])).base, hsnoc]
    omega
  · rw [hsnoc] at ho
    exact (hreads pre).null g ho
  · rw [hsnoc]
    exact (hreads pre).stuck ho g

end LinuxLabs.Binder
