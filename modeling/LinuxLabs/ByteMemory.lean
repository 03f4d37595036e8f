import Mathlib

/-! Byte-addressed memory with little-endian words. Addresses are natural numbers and
every cell is readable; which cells belong to which object is the business of the
programs that use the memory. -/
namespace LinuxLabs.ByteMemory

abbrev Mem := ℕ → UInt8

def load16 (m : Mem) (a : ℕ) : UInt16 := UInt16.ofNat ((m a).toNat + 256 * (m (a+1)).toNat)

def load32 (m : Mem) (a : ℕ) : UInt32 :=
  UInt32.ofNat ((m a).toNat + 256 * (m (a+1)).toNat + 65536 * (m (a+2)).toNat +
    16777216 * (m (a+3)).toNat)

def bytes16 (v : UInt16) : List UInt8 := [UInt8.ofNat v.toNat, UInt8.ofNat (v.toNat / 256)]

def bytes32 (v : UInt32) : List UInt8 :=
  [UInt8.ofNat v.toNat, UInt8.ofNat (v.toNat / 256), UInt8.ofNat (v.toNat / 65536),
    UInt8.ofNat (v.toNat / 16777216)]

/-- Overwrite the cells from `a` on by the given bytes. -/
def write (m : Mem) (a : ℕ) (bs : List UInt8) : Mem :=
  fun x => if a ≤ x then (bs[x - a]?).getD (m x) else m x

def store16 (m : Mem) (a : ℕ) (v : UInt16) : Mem := write m a (bytes16 v)

def store32 (m : Mem) (a : ℕ) (v : UInt32) : Mem := write m a (bytes32 v)

def read (m : Mem) (a n : ℕ) : List UInt8 := (List.range n).map fun i => m (a + i)

/-- The `n` consecutive 16-bit units from `a` on. -/
def units (m : Mem) (a n : ℕ) : List UInt16 := (List.range n).map fun i => load16 m (a + 2*i)

/-- The `n` consecutive 32-bit words from `a` on. -/
def words (m : Mem) (a n : ℕ) : List UInt32 := (List.range n).map fun i => load32 m (a + 4*i)

@[simp] theorem read_length (m : Mem) (a n : ℕ) : (read m a n).length = n := by simp [read]

@[simp] theorem units_length (m : Mem) (a n : ℕ) : (units m a n).length = n := by simp [units]

@[simp] theorem words_length (m : Mem) (a n : ℕ) : (words m a n).length = n := by simp [words]

@[simp] theorem bytes16_length (v : UInt16) : (bytes16 v).length = 2 := rfl

@[simp] theorem bytes32_length (v : UInt32) : (bytes32 v).length = 4 := rfl

/-- Two memories hold the same bytes in the half-open interval from `lo` to `hi`. -/
def AgreeOn (m m' : Mem) (lo hi : ℕ) : Prop := ∀ x, lo ≤ x → x < hi → m x = m' x

theorem AgreeOn.mono {m m' : Mem} {lo hi lo' hi' : ℕ} (h : AgreeOn m m' lo hi)
    (hl : lo ≤ lo') (hh : hi' ≤ hi) : AgreeOn m m' lo' hi' :=
  fun x hx hx' => h x (hl.trans hx) (hx'.trans_le hh)

theorem AgreeOn.trans {m m' m'' : Mem} {lo hi : ℕ} (h : AgreeOn m m' lo hi)
    (g : AgreeOn m' m'' lo hi) : AgreeOn m m'' lo hi :=
  fun x hx hx' => (h x hx hx').trans (g x hx hx')

theorem AgreeOn.symm {m m' : Mem} {lo hi : ℕ} (h : AgreeOn m m' lo hi) : AgreeOn m' m lo hi :=
  fun x hx hx' => (h x hx hx').symm

/-- The memory seen from address `a` on. -/
def shift (m : Mem) (a : ℕ) : Mem := fun x => m (a + x)

@[simp] theorem load32_shift (m : Mem) (a k : ℕ) : load32 (shift m a) k = load32 m (a + k) := rfl

@[simp] theorem units_shift (m : Mem) (a k n : ℕ) : units (shift m a) k n = units m (a + k) n := by
  simp only [units, Nat.add_assoc]
  rfl

theorem write_apply {m : Mem} {a x : ℕ} {bs : List UInt8} (hl : a ≤ x) (hx : x < a + bs.length) :
    write m a bs x = bs[x - a] := by
  have hi : x - a < bs.length := by omega
  simp [write, hl, List.getElem?_eq_getElem hi]

theorem write_agree_below (m : Mem) (a lo hi : ℕ) (bs : List UInt8) (h : hi ≤ a) :
    AgreeOn (write m a bs) m lo hi := by
  intro x _ hx
  have hn : ¬ a ≤ x := by omega
  simp [write, hn]

theorem write_agree_above (m : Mem) (a lo hi : ℕ) (bs : List UInt8) (h : a + bs.length ≤ lo) :
    AgreeOn (write m a bs) m lo hi := by
  intro x hx _
  have hn : bs[x - a]? = none := List.getElem?_eq_none (by omega)
  simp [write, hn]

theorem load16_congr {m m' : Mem} {a a' : ℕ} (h0 : m a = m' a') (h1 : m (a+1) = m' (a'+1)) :
    load16 m a = load16 m' a' := by simp [load16, h0, h1]

theorem AgreeOn.load16_eq {m m' : Mem} {lo hi a : ℕ} (h : AgreeOn m m' lo hi)
    (hl : lo ≤ a) (hh : a + 2 ≤ hi) : load16 m a = load16 m' a :=
  load16_congr (h _ hl (by omega)) (h _ (by omega) (by omega))

theorem AgreeOn.load32_eq {m m' : Mem} {lo hi a : ℕ} (h : AgreeOn m m' lo hi)
    (hl : lo ≤ a) (hh : a + 4 ≤ hi) : load32 m a = load32 m' a := by
  unfold load32
  rw [h a hl (by omega), h (a+1) (by omega) (by omega), h (a+2) (by omega) (by omega),
    h (a+3) (by omega) (by omega)]

theorem AgreeOn.units_eq {m m' : Mem} {lo hi a n : ℕ} (h : AgreeOn m m' lo hi)
    (hl : lo ≤ a) (hh : a + 2*n ≤ hi) : units m a n = units m' a n := by
  apply List.map_congr_left
  intro i hi'
  have hlt := List.mem_range.mp hi'
  exact h.load16_eq (by omega) (by omega)

theorem AgreeOn.read_eq {m m' : Mem} {lo hi a n : ℕ} (h : AgreeOn m m' lo hi)
    (hl : lo ≤ a) (hh : a + n ≤ hi) : read m a n = read m' a n := by
  apply List.map_congr_left
  intro i hi'
  have hlt := List.mem_range.mp hi'
  exact h _ (by omega) (by omega)

theorem AgreeOn.words_eq {m m' : Mem} {lo hi a n : ℕ} (h : AgreeOn m m' lo hi)
    (hl : lo ≤ a) (hh : a + 4*n ≤ hi) : words m a n = words m' a n := by
  apply List.map_congr_left
  intro i hi'
  have hlt := List.mem_range.mp hi'
  exact h.load32_eq (by omega) (by omega)

theorem words_snoc (m : Mem) (a n : ℕ) :
    words m a (n + 1) = words m a n ++ [load32 m (a + 4*n)] := by
  simp [words, List.range_succ]

theorem load16_of_bytes {m : Mem} {a : ℕ} {v : UInt16}
    (h0 : m a = UInt8.ofNat v.toNat) (h1 : m (a+1) = UInt8.ofNat (v.toNat / 256)) :
    load16 m a = v := by
  have hv := v.toNat_lt
  apply UInt16.toNat_inj.mp
  simp only [load16, h0, h1, UInt16.toNat_ofNat', UInt8.toNat_ofNat']
  omega

theorem load32_of_bytes {m : Mem} {a : ℕ} {v : UInt32}
    (h0 : m a = UInt8.ofNat v.toNat) (h1 : m (a+1) = UInt8.ofNat (v.toNat / 256))
    (h2 : m (a+2) = UInt8.ofNat (v.toNat / 65536))
    (h3 : m (a+3) = UInt8.ofNat (v.toNat / 16777216)) : load32 m a = v := by
  have hv := v.toNat_lt
  apply UInt32.toNat_inj.mp
  simp only [load32, h0, h1, h2, h3, UInt32.toNat_ofNat', UInt8.toNat_ofNat']
  omega

@[simp] theorem load16_store16 (m : Mem) (a : ℕ) (v : UInt16) :
    load16 (store16 m a v) a = v := by
  apply load16_of_bytes <;> simp [store16, write, bytes16]

@[simp] theorem load32_store32 (m : Mem) (a : ℕ) (v : UInt32) :
    load32 (store32 m a v) a = v := by
  apply load32_of_bytes <;> simp [store32, write, bytes32]

theorem store32_agree_below (m : Mem) (a lo hi : ℕ) (v : UInt32) (h : hi ≤ a) :
    AgreeOn (store32 m a v) m lo hi := write_agree_below m a lo hi _ h

theorem store32_agree_above (m : Mem) (a lo hi : ℕ) (v : UInt32) (h : a + 4 ≤ lo) :
    AgreeOn (store32 m a v) m lo hi := write_agree_above m a lo hi _ (by simpa using h)

theorem store32_agree_off (m : Mem) (a lo hi : ℕ) (v : UInt32) (h : hi ≤ a ∨ a + 4 ≤ lo) :
    AgreeOn (store32 m a v) m lo hi := by
  rcases h with h | h
  · exact store32_agree_below m a lo hi v h
  · exact store32_agree_above m a lo hi v h

theorem load32_store32_of_disjoint (m : Mem) (a b : ℕ) (v : UInt32)
    (h : b + 4 ≤ a ∨ a + 4 ≤ b) : load32 (store32 m a v) b = load32 m b :=
  (store32_agree_off m a b (b+4) v h).load32_eq le_rfl le_rfl

/-- Store the units one after the other, as a copying loop does. -/
def storeUnits (m : Mem) (a : ℕ) : List UInt16 → Mem
  | [] => m
  | u :: us => storeUnits (store16 m a u) (a + 2) us

theorem storeUnits_agree_below (m : Mem) (a lo hi : ℕ) (us : List UInt16) (h : hi ≤ a) :
    AgreeOn (storeUnits m a us) m lo hi := by
  induction us generalizing m a with
  | nil => exact fun _ _ _ => rfl
  | cons u us ih =>
    exact (ih (store16 m a u) (a + 2) (by omega)).trans (write_agree_below m a lo hi _ h)

theorem units_succ (m : Mem) (a n : ℕ) : units m a (n+1) = load16 m a :: units m (a+2) n := by
  simp [units, List.range_succ_eq_map, Nat.mul_add, Nat.add_assoc, Nat.add_comm 2,
    Function.comp_def]

@[simp] theorem units_storeUnits (m : Mem) (a : ℕ) (us : List UInt16) :
    units (storeUnits m a us) a us.length = us := by
  induction us generalizing m a with
  | nil => rfl
  | cons u us ih =>
    have hb := storeUnits_agree_below (store16 m a u) (a+2) a (a+2) us le_rfl
    rw [List.length_cons, units_succ, storeUnits, hb.load16_eq le_rfl le_rfl, load16_store16, ih]

theorem units_take {m : Mem} {a n k : ℕ} (h : k ≤ n) : (units m a n).take k = units m a k := by
  simp [units, ← List.map_take, List.take_range, Nat.min_eq_left h]

/-- The bytes `bs` stand in memory from `a` on. -/
def HoldsBytes (m : Mem) (a : ℕ) (bs : List UInt8) : Prop := read m a bs.length = bs

theorem read_add (m : Mem) (a n k : ℕ) : read m a (n + k) = read m a n ++ read m (a + n) k := by
  simp [read, List.range_add, Function.comp_def, Nat.add_assoc]

theorem holdsBytes_write (m : Mem) (a : ℕ) (bs : List UInt8) : HoldsBytes (write m a bs) a bs := by
  apply List.ext_getElem
  · simp
  · intro i hi hi'
    simp [read, write, List.getElem?_eq_getElem hi']

theorem holdsBytes_append {m : Mem} {a : ℕ} {bs cs : List UInt8} :
    HoldsBytes m a (bs ++ cs) ↔ HoldsBytes m a bs ∧ HoldsBytes m (a + bs.length) cs := by
  simp only [HoldsBytes, List.length_append, read_add]
  constructor
  · intro h
    exact List.append_inj h (by simp)
  · rintro ⟨hb, hc⟩
    rw [hb, hc]

theorem HoldsBytes.congr {m m' : Mem} {a lo hi : ℕ} {bs : List UInt8} (h : HoldsBytes m a bs)
    (hm : AgreeOn m' m lo hi) (hl : lo ≤ a) (hh : a + bs.length ≤ hi) : HoldsBytes m' a bs := by
  rw [HoldsBytes, hm.read_eq hl hh]
  exact h

theorem holdsBytes_storeUnits (m : Mem) (a : ℕ) (us : List UInt16) :
    HoldsBytes (storeUnits m a us) a (us.flatMap bytes16) := by
  induction us generalizing m a with
  | nil => rfl
  | cons u us ih =>
    have hkeep := storeUnits_agree_below (store16 m a u) (a + 2) a (a + 2) us le_rfl
    rw [List.flatMap_cons, holdsBytes_append]
    exact ⟨(holdsBytes_write m a (bytes16 u)).congr hkeep le_rfl le_rfl, ih _ _⟩

theorem HoldsBytes.load32_eq {m : Mem} {a : ℕ} {v : UInt32} (h : HoldsBytes m a (bytes32 v)) :
    load32 m a = v := by
  simp only [HoldsBytes, bytes32_length] at h
  simp only [read, List.range_succ_eq_map, List.range_zero, List.map_cons, List.map_nil,
    bytes32, List.cons.injEq] at h
  exact load32_of_bytes h.1 h.2.1 h.2.2.1 h.2.2.2.1

/-- A word stands in memory as the bytes it is loaded from. -/
theorem holdsBytes_load32 (m : Mem) (a : ℕ) : HoldsBytes m a (bytes32 (load32 m a)) := by
  have h0 := (m a).toNat_lt
  have h1 := (m (a+1)).toNat_lt
  have h2 := (m (a+2)).toNat_lt
  have h3 := (m (a+3)).toNat_lt
  have hword : (load32 m a).toNat = (m a).toNat + 256 * (m (a+1)).toNat +
      65536 * (m (a+2)).toNat + 16777216 * (m (a+3)).toNat := by
    simp only [load32, UInt32.toNat_ofNat']
    omega
  have hread : read m a 4 = [m a, m (a+1), m (a+2), m (a+3)] := rfl
  have hbyte {b : UInt8} {n : ℕ} (h : b.toNat = n % 256) : b = UInt8.ofNat n := by
    apply UInt8.toNat_inj.mp
    rw [h, UInt8.toNat_ofNat']
  rw [HoldsBytes, bytes32_length, hread, bytes32, hword, ← hbyte (b := m a) (by omega),
    ← hbyte (b := m (a+1)) (by omega), ← hbyte (b := m (a+2)) (by omega),
    ← hbyte (b := m (a+3)) (by omega)]

/-- The second memory differs from the first only where the stores go, each given by its start and
its length. -/
def Covers (rs : List (ℕ × ℕ)) (m m' : Mem) : Prop :=
  ∀ x, (∀ r ∈ rs, x < r.1 ∨ r.1 + r.2 ≤ x) → m' x = m x

section Covers
variable {rs qs : List (ℕ × ℕ)} {m m' m'' : Mem}

lemma covers_refl (m : Mem) : Covers [] m m := fun _ _ => rfl

lemma Covers.trans (h : Covers rs m m') (h' : Covers qs m' m'') : Covers (rs ++ qs) m m'' := by
  intro x hx
  rw [h' x fun r hr => hx r (by simp [hr]), h x fun r hr => hx r (by simp [hr])]

lemma covers_write (m : Mem) (a : ℕ) (bs : List UInt8) :
    Covers [(a, bs.length)] m (write m a bs) := by
  intro x hx
  rcases hx (a, bs.length) (by simp) with h | h
  · exact write_agree_below m a x (x + 1) bs h x le_rfl (Nat.lt_succ_self x)
  · exact write_agree_above m a x (x + 1) bs h x le_rfl (Nat.lt_succ_self x)

lemma covers_store32 (m : Mem) (a : ℕ) (v : UInt32) : Covers [(a, 4)] m (store32 m a v) :=
  covers_write m a (bytes32 v)

lemma covers_storeUnits (m : Mem) (a : ℕ) (us : List UInt16) :
    Covers [(a, 2 * us.length)] m (storeUnits m a us) := by
  induction us generalizing m a with
  | nil => exact fun _ _ => rfl
  | cons u us ih =>
    intro x hx
    have hout := hx (a, 2 * (u :: us).length) (by simp)
    simp only [List.length_cons] at hout
    rw [storeUnits, ih (store16 m a u) (a + 2) x (by simp; omega)]
    exact covers_write m a (bytes16 u) x (by simp; omega)

lemma Covers.agreeOn (h : Covers rs m m') {lo hi : ℕ} (hr : ∀ r ∈ rs, hi ≤ r.1 ∨ r.1 + r.2 ≤ lo) :
    AgreeOn m' m lo hi := by
  intro x hx hx'
  apply h x
  intro r hmem
  have hout := hr r hmem
  omega

end Covers

/-- A number in little-endian order, its lowest `n` bytes. -/
def bytesLE : ℕ → ℕ → List UInt8
  | 0, _ => []
  | n + 1, v => UInt8.ofNat v :: bytesLE n (v / 256)

/-- The number in the `n` bytes from `a` on. -/
def loadLE (m : Mem) (a : ℕ) : ℕ → ℕ
  | 0 => 0
  | n + 1 => (m a).toNat + 256 * loadLE m (a + 1) n

@[simp] theorem bytesLE_length (n v : ℕ) : (bytesLE n v).length = n := by
  induction n generalizing v with
  | zero => rfl
  | succ n ih => simp [bytesLE, ih]

theorem AgreeOn.loadLE_eq {m m' : Mem} {lo hi a n : ℕ} (h : AgreeOn m m' lo hi)
    (hl : lo ≤ a) (hh : a + n ≤ hi) : loadLE m a n = loadLE m' a n := by
  induction n generalizing a with
  | zero => rfl
  | succ n ih =>
    rw [loadLE, loadLE, h a hl (by omega), ih (by omega) (by omega)]

theorem HoldsBytes.loadLE_eq {m : Mem} {a n v : ℕ} (h : HoldsBytes m a (bytesLE n v)) :
    loadLE m a n = v % 256^n := by
  induction n generalizing a v with
  | zero => simp [loadLE, Nat.mod_one]
  | succ n ih =>
    have hsplit : bytesLE (n + 1) v = [UInt8.ofNat v] ++ bytesLE n (v / 256) := rfl
    rw [hsplit, holdsBytes_append] at h
    have hbyte : m a = UInt8.ofNat v := by simpa [HoldsBytes, read] using h.1
    have hrest : loadLE m (a + 1) n = v / 256 % 256^n := ih h.2
    have hmod : v % 256^(n + 1) = v % 256 + 256 * (v / 256 % 256^n) := by
      rw [Nat.pow_succ', Nat.mod_mul]
    rw [loadLE, hrest, hbyte, UInt8.toNat_ofNat', hmod]

theorem loadLE_write (m : Mem) (a n v : ℕ) : loadLE (write m a (bytesLE n v)) a n = v % 256^n :=
  (holdsBytes_write m a (bytesLE n v)).loadLE_eq

theorem bytesLE_four (v : ℕ) : bytesLE 4 v = bytes32 (UInt32.ofNat v) := by
  have hbyte {a b : ℕ} (h : a % 256 = b % 256) : UInt8.ofNat a = UInt8.ofNat b := by
    apply UInt8.toNat_inj.mp
    rw [UInt8.toNat_ofNat', UInt8.toNat_ofNat']
    exact h
  simp only [bytesLE, bytes32, UInt32.toNat_ofNat', List.cons.injEq, and_true]
  refine ⟨hbyte ?_, hbyte ?_, hbyte ?_, hbyte ?_⟩ <;> omega

theorem loadLE_four (m : Mem) (a : ℕ) : loadLE m a 4 = (load32 m a).toNat := by
  have h0 := (m a).toNat_lt
  have h1 := (m (a + 1)).toNat_lt
  have h2 := (m (a + 2)).toNat_lt
  have h3 := (m (a + 3)).toNat_lt
  simp only [loadLE, load32, UInt32.toNat_ofNat', Nat.add_assoc, Nat.reduceAdd]
  omega

end LinuxLabs.ByteMemory
