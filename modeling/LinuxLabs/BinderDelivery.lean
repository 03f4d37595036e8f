import LinuxLabs.BinderIoRoundtrip
import LinuxLabs.BinderParse

/-! What the driver makes of a transaction on its way to the receiver. Data and offsets arrive
as they were sent, apart from the objects at the listed offsets: these are rewritten into
handles of the receiving process. -/
namespace LinuxLabs.Binder
open ByteMemory

/-- Position `k` of the data lies in no object that the offsets mention. -/
def OutgoingTxn.Outside (out : OutgoingTxn) (k : ℕ) : Prop :=
  ∀ o ∈ out.offsets, k < o.toNat ∨ o.toNat + 16 ≤ k

instance (out : OutgoingTxn) (k : ℕ) : Decidable (out.Outside k) :=
  inferInstanceAs (Decidable (∀ o ∈ out.offsets, _))

/-- The receiver finds the data and the offsets in its own memory. -/
structure Arrives (out : OutgoingTxn) (m : Mem) (txn : BinderTransactionData) : Prop where
  dataSize : txn.dataSize.toNat = out.data.length
  offsetsSize : txn.offsetsSize.toNat = 4 * out.offsets.length
  offsets : words m txn.offsets.toNat out.offsets.length = out.offsets
  plain : ∀ k, (h : k < out.data.length) → out.Outside k → m (txn.buffer.toNat + k) = out.data[k]

/-- Outside of objects the receiver's data is the sender's. -/
theorem Arrives.agree {p : Parcel} {target code flags : UInt32} {m : Mem}
    {txn : BinderTransactionData} (h : Arrives (p.outgoing target code flags) m txn) {lo hi : ℕ}
    (hhi : hi ≤ p.io.data - p.io.data0)
    (hout : ∀ k, lo ≤ k → k < hi → (p.outgoing target code flags).Outside k) :
    AgreeOn (shift m txn.buffer.toNat) (shift p.mem p.io.data0) lo hi := by
  intro k hlo hk
  have hlt : k < (p.outgoing target code flags).data.length := by
    simp only [Parcel.outgoing, read_length]
    omega
  have hbyte := h.plain k hlt (hout k hlo hk)
  simpa [Parcel.outgoing, ByteMemory.read, shift] using hbyte

theorem Field.holds_shift (m : Mem) (a k : ℕ) (f : Field) :
    f.Holds (shift m a) k ↔ f.Holds m (a + k) := by
  cases f with
  | uint32 n => exact Iff.rfl
  | string str => simp only [Field.Holds, load32_shift, units_shift, Nat.add_assoc]
  | ref handle => exact Iff.rfl

/-- A field of the sender's data is a field of the receiver's. -/
theorem Arrives.holds {p : Parcel} {target code flags : UInt32} {m : Mem}
    {txn : BinderTransactionData} (h : Arrives (p.outgoing target code flags) m txn) {k : ℕ}
    {f : Field} (hf : f.Holds p.mem (p.io.data0 + k)) (hs : f.Short)
    (hsize : k + f.size ≤ p.io.data - p.io.data0)
    (hout : ∀ j, k ≤ j → j < k + f.size → (p.outgoing target code flags).Outside j) :
    f.Holds m (txn.buffer.toNat + k) := by
  rw [← Field.holds_shift] at hf ⊢
  exact hf.congr (h.agree hsize hout) le_rfl hs le_rfl

theorem Arrives.holdsBytes {out : OutgoingTxn} {m : Mem} {txn : BinderTransactionData}
    (h : Arrives out m txn) (hoffs : out.offsets = []) :
    HoldsBytes m txn.buffer.toNat out.data := by
  apply List.ext_getElem
  · simp
  · intro k hk hk'
    simp only [ByteMemory.read, List.getElem_map, List.getElem_range]
    exact h.plain k hk' (by simp [OutgoingTxn.Outside, hoffs])

/-- A transaction that consists of one word. -/
def OutgoingTxn.word (flags v : UInt32) : OutgoingTxn := ⟨0, 0, flags, bytes32 v, []⟩

theorem Arrives.word {flags v : UInt32} {m : Mem} {txn : BinderTransactionData}
    (h : Arrives (.word flags v) m txn) :
    load32 m txn.buffer.toNat = v ∧ txn.dataSize.toNat = 4 ∧ txn.offsetsSize.toNat = 0 :=
  ⟨(h.holdsBytes rfl).load32_eq, h.dataSize, h.offsetsSize⟩

/-- Data without objects arrives if its bytes do. -/
lemma arrives_of_holdsBytes {out : OutgoingTxn} {m : Mem} {txn : BinderTransactionData}
    (hoffs : out.offsets = []) (hsize : txn.dataSize.toNat = out.data.length)
    (hosize : txn.offsetsSize = 0) (h : HoldsBytes m txn.buffer.toNat out.data) :
    Arrives out m txn where
  dataSize := hsize
  offsetsSize := by simp [hoffs, hosize]
  offsets := by simp [hoffs, words]
  plain := by
    intro k hk _
    have hbyte := List.getElem_of_eq h (i := k) (by simpa using hk)
    simpa [ByteMemory.read] using hbyte

/-- Data without objects can arrive anywhere, here at address zero. -/
theorem arrives_plain {out : OutgoingTxn} (hoffs : out.offsets = [])
    (hlen : out.data.length < 2^32) :
    Arrives out (write (fun _ => 0) 0 out.data)
      ⟨0, 0, 0, 0, 0, 0, UInt32.ofNat out.data.length, 0, 0, 0⟩ :=
  arrives_of_holdsBytes hoffs (by simpa using hlen) rfl (holdsBytes_write _ _ _)

/-- The bytes of outgoing data, as the driver looks at them. -/
def OutgoingTxn.loadWord (out : OutgoingTxn) (k : ℕ) : UInt32 :=
  load32 (fun i => out.data.getD i 0) k

lemma outgoing_loadWord {p : Parcel} {target code flags : UInt32} {k : ℕ}
    (h : k + 4 ≤ p.io.data - p.io.data0) :
    (p.outgoing target code flags).loadWord k = load32 p.mem (p.io.data0 + k) := by
  have hagree : AgreeOn (fun i => (p.outgoing target code flags).data.getD i 0)
      (shift p.mem p.io.data0) 0 (p.io.data - p.io.data0) := by
    intro i _ hi
    simp [Parcel.outgoing, ByteMemory.read, shift, List.getD_eq_getElem?_getD,
      List.getElem?_range hi]
  exact hagree.load32_eq (Nat.zero_le k) h

/-- The driver's books: the user of every process, the node behind every local object and the
handle under which a process knows a node, never zero and one for each node. -/
structure Driver (Proc Node : Type) where
  manager : Proc
  uid : Proc → UInt32
  node : Proc → UInt32 → Node
  handle : Proc → Node → UInt32
  handle_ne : ∀ p n, handle p n ≠ 0
  handle_inj : ∀ p, Function.Injective (handle p)

/-- The node an object stands for when process `p` sends it. -/
def Driver.Denotes {Proc Node : Type} (D : Driver Proc Node) (p : Proc) (type value : UInt32)
    (n : Node) : Prop :=
  type = binderTypeBinder ∧ n = D.node p value ∨ type = binderTypeHandle ∧ value = D.handle p n

/-- Process `q` receives what process `p` sent: every listed object has become a handle of `q`
for the node it stood for. -/
structure Driver.Delivers {Proc Node : Type} (D : Driver Proc Node) (p q : Proc)
    (out : OutgoingTxn) (m : Mem) (txn : BinderTransactionData) : Prop
    extends Arrives out m txn where
  objects : ∀ o ∈ out.offsets, ∀ n,
    D.Denotes p (out.loadWord o.toNat) (out.loadWord (o.toNat + 8)) n →
      load32 m (txn.buffer.toNat + o.toNat) = binderTypeHandle ∧
        load32 m (txn.buffer.toNat + o.toNat + 8) = D.handle q n

/-- Data without objects is delivered as it arrives. -/
lemma Arrives.delivers {Proc Node : Type} {out : OutgoingTxn} {m : Mem}
    {txn : BinderTransactionData} (h : Arrives out m txn) (hoffs : out.offsets = [])
    (D : Driver Proc Node) (p q : Proc) : D.Delivers p q out m txn :=
  ⟨h, by simp [hoffs]⟩

lemma Driver.Denotes.unique {Proc Node : Type} {D : Driver Proc Node} {p : Proc}
    {type value : UInt32} {n n' : Node} (h : D.Denotes p type value n)
    (h' : D.Denotes p type value n') : n = n' := by
  have htypes : binderTypeBinder ≠ binderTypeHandle := by decide
  rcases h with ⟨ht, rfl⟩ | ⟨ht, hv⟩ <;> rcases h' with ⟨ht', hv'⟩ | ⟨ht', hv'⟩
  · exact hv'.symm
  · exact absurd (ht.symm.trans ht') htypes
  · exact absurd (ht'.symm.trans ht) htypes
  · exact D.handle_inj p (hv.symm.trans hv')

/-- Data with one object, rewritten in its place; here the data stands at address zero and the
offset behind it. -/
def OutgoingTxn.rewritten (out : OutgoingTxn) (o handle : UInt32) : Mem :=
  store32 (fillObj (write (fun _ => 0) 0 out.data) o.toNat binderTypeHandle handle) 4096 o

/-- Rewriting the object for the receiver is a delivery. -/
theorem Driver.delivers_object {Proc Node : Type} {D : Driver Proc Node} {p : Proc} (q : Proc)
    {out : OutgoingTxn} {o : UInt32} {n : Node} {txn : BinderTransactionData}
    (hofs : out.offsets = [o]) (hlen : out.data.length ≤ 4096) (ho : o.toNat + 16 ≤ out.data.length)
    (hn : D.Denotes p (out.loadWord o.toNat) (out.loadWord (o.toNat + 8)) n)
    (hbuf : txn.buffer = 0) (hoffs : txn.offsets = 4096)
    (hsize : txn.dataSize.toNat = out.data.length) (hosize : txn.offsetsSize = 4) :
    D.Delivers p q out (out.rewritten o (D.handle q n)) txn := by
  have hbelow := store32_agree_below
    (fillObj (write (fun _ => 0) 0 out.data) o.toNat binderTypeHandle (D.handle q n)) 4096 0 4096 o
    le_rfl
  have hobj := load_fillObj (write (fun _ => 0) 0 out.data) o.toNat binderTypeHandle (D.handle q n)
  refine ⟨⟨hsize, ?_, ?_, ?_⟩, ?_⟩
  · rw [hosize, hofs]
    rfl
  · rw [hoffs, hofs]
    simp [words, OutgoingTxn.rewritten]
  · intro k hk hout
    rw [hbuf, UInt32.toNat_zero, Nat.zero_add, OutgoingTxn.rewritten, hbelow k (Nat.zero_le k)
      (by omega)]
    have hkeep : fillObj (write (fun _ => 0) 0 out.data) o.toNat binderTypeHandle (D.handle q n) k =
        write (fun _ => 0) 0 out.data k := by
      have hoff := hout o (by simp [hofs])
      exact fillObj_agree_off _ o.toNat k (k + 1) _ _ (by omega) k le_rfl k.lt_succ_self
    rw [hkeep, write_apply (Nat.zero_le k) (by simpa using hk)]
    simp
  · intro o' ho' n' hn'
    obtain rfl : o' = o := by simpa [hofs] using ho'
    obtain rfl := hn.unique hn'
    rw [hbuf, UInt32.toNat_zero, Nat.zero_add, OutgoingTxn.rewritten,
      hbelow.load32_eq (Nat.zero_le _) (by omega), hbelow.load32_eq (Nat.zero_le _) (by omega)]
    exact ⟨hobj.1, hobj.2⟩

theorem emptyReply_eq (rdata : Mem) : emptyReply rdata = ⟨rdata, {
    data := 16, data0 := 16, offs := 0, offs0 := 0
    dataAvail := 240, offsAvail := 4, flags := 0 }⟩ :=
  bioInit_fits ⟨rdata, BinderIo.uninit⟩ 0 256 4 (by decide) (by decide)

theorem emptyReply_room (rdata : Mem) : (emptyReply rdata).io.Room 16 1 := by
  rw [emptyReply_eq]
  simp [BinderIo.Room]

end LinuxLabs.Binder
