import LinuxLabs.BinderIoRead

/-! Round trip of the codec. Puts lay fields out back to back, each at a multiple of its own
size behind the previous one; a reader that asks for the same kinds of fields in the same order
finds every one of them at its cursor. -/
namespace LinuxLabs.Binder
open ByteMemory

/-- A value as the reader sees it; byte strings have been widened. -/
inductive Field
  | uint32 (n : UInt32)
  | string (str : List UInt16)
  | ref (handle : UInt32)
  deriving DecidableEq, Repr

def Field.getter : Field → Getter
  | .uint32 _ => .uint32
  | .string _ => .string16
  | .ref _ => .ref

def Field.size : Field → ℕ
  | .uint32 _ => 4
  | .string str => 4 + stringBlock str.length
  | .ref _ => 16

def Field.Short : Field → Prop
  | .string str => str.length < maxBioSize / 2
  | _ => True

/-- The bytes at `a` are those of the field. -/
def Field.Holds (m : Mem) (a : ℕ) : Field → Prop
  | .uint32 n => load32 m a = n
  | .string str => load32 m a = UInt32.ofNat str.length ∧ units m (a + 4) str.length = str
  | .ref handle => load32 m a = binderTypeHandle ∧ load32 m (a + 8) = handle

def Field.IsRef : Field → Prop
  | .ref _ => True
  | _ => False

/-- Fields back to back from `a` on; `listed` says which addresses the offset table mentions. -/
def Laid (m : Mem) (listed : ℕ → Prop) (a : ℕ) : List Field → Prop
  | [] => True
  | f :: fs => f.Holds m a ∧ f.Short ∧ (f.IsRef → listed a) ∧ Laid m listed (a + f.size) fs

/-- The field a getter result stands for, read through its pointer; null strings have none. -/
def Got.field (m : Mem) : Got → Option Field
  | .uint32 n => some (.uint32 n)
  | .string16 ptr len => ptr.map fun a => .string (units m a len)
  | .ref handle => some (.ref handle)

def fieldsSize (fs : List Field) : ℕ := (fs.map Field.size).sum

@[simp] theorem fieldsSize_cons (f : Field) (fs : List Field) :
    fieldsSize (f :: fs) = f.size + fieldsSize fs := by simp [fieldsSize]

theorem stringBlock_of_short {len : ℕ} (h : len < maxBioSize / 2) :
    stringBlock len = align4 (2 * (len + 1)) := by
  have hl : len < 2^29 := h
  have hw : wrap ((len + 1) * 2) = 2 * (len + 1) := by rw [wrap_of_lt (by omega)]; omega
  rw [stringBlock, hw]

/-- A getter of the right kind reads the field at its cursor and moves past it. -/
theorem Field.get_holds {p : Parcel} {f : Field} (h : f.Holds p.mem p.io.data) (hs : f.Short)
    (hl : f.IsRef → p.Listed) (hroom : f.size ≤ p.io.dataAvail) :
    (f.getter.run p).1.field p.mem = some f ∧
      (f.getter.run p).2 = ⟨p.mem, p.io.advance f.size 0⟩ := by
  cases f with
  | uint32 n =>
    have hr := bioGetUint32_fits (p := p) hroom
    simp only [Field.Holds] at h
    simp [Field.getter, Getter.run, hr, h, Got.field, Field.size]
  | string str =>
    have hlen : str.length < 2^29 := hs
    have hw : (load32 p.mem p.io.data).toNat = str.length := by
      rw [h.1]; simp; omega
    simp only [Field.size] at hroom
    have hr := bioGetString16_fits (p := p) (by omega) hw hroom
    simp [Field.getter, Getter.run, hr, Got.field, Field.size, h.2]
  | ref handle =>
    have hr := bioGetRef_fits (hl trivial) hroom
    simp [Field.getter, Getter.run, hr, h.1, h.2, Got.field, Field.size]

/-- The offset table of a reader, as a predicate on addresses of the data block. -/
def Parcel.ListedAt (p : Parcel) (a : ℕ) : Prop :=
  ∃ n < p.io.offsAvail, (load32 p.mem (p.io.offs + 4*n)).toNat = a - p.io.data0

/-- Reading laid-out fields recovers them, consumes their bytes and raises no flag. -/
theorem getAll_laid {p : Parcel} {fs : List Field}
    (h : Laid p.mem p.ListedAt p.io.data fs)
    (hroom : fieldsSize fs ≤ p.io.dataAvail) :
    (getAll p (fs.map Field.getter)).1.map (Got.field p.mem) = fs.map some ∧
      (getAll p (fs.map Field.getter)).2 = ⟨p.mem, p.io.advance (fieldsSize fs) 0⟩ := by
  induction fs generalizing p with
  | nil => simp [getAll, fieldsSize, BinderIo.advance]
  | cons f fs ih =>
    obtain ⟨hf, hs, hl, hrest⟩ := h
    simp only [fieldsSize_cons] at hroom
    obtain ⟨hgot, hnext⟩ := Field.get_holds hf hs hl (by omega)
    have htail := ih (p := (f.getter.run p).2) (by rw [hnext]; exact hrest)
      (by rw [hnext]; simp only [BinderIo.advance]; omega)
    rw [hnext] at htail
    simp only [List.map_cons, getAll, hnext, hgot, htail.1, htail.2, advance_advance,
      fieldsSize_cons, Nat.add_zero, and_self]

theorem Laid.append_left {m : Mem} {listed : ℕ → Prop} {a : ℕ} {fs gs : List Field}
    (h : Laid m listed a (fs ++ gs)) : Laid m listed a fs := by
  induction fs generalizing a with
  | nil => trivial
  | cons f fs ih => exact ⟨h.1, h.2.1, h.2.2.1, ih h.2.2.2⟩

/-- The values of the round trip: non-null strings without zeros and below the size guard,
and non-zero handles. -/
def Put.Plain : Put → Prop
  | .uint32 _ => True
  | .string16 (some str) => 0 ∉ str ∧ str.length < maxBioSize / 2
  | .string16X (some str) => 0 ∉ str ∧ str.length < maxBioSize / 2
  | .ref handle => handle ≠ 0
  | _ => False

/-- What the matching getter is expected to return. -/
def Put.field : Put → Field
  | .uint32 n => .uint32 n
  | .string16 str => .string (str.getD [])
  | .string16X str => .string ((str.getD []).map UInt8.toUInt16)
  | .ref handle => .ref handle
  | .obj _ => .ref 0

theorem strlen_eq_length {α : Type*} [Zero α] [DecidableEq α] {s : List α} (h : 0 ∉ s) :
    strlen s = s.length := by
  induction s with
  | nil => rfl
  | cons c cs ih =>
    have hc : c ≠ 0 := fun he => h (by simp [he])
    have hcs : 0 ∉ cs := fun he => h (by simp [he])
    simp [strlen, hc, ih hcs]

lemma strlen_take {α : Type*} [Zero α] [DecidableEq α] (s : List α) :
    0 ∉ s.take (strlen s) ∧ (s.take (strlen s)).length = strlen s := by
  induction s with
  | nil => simp [strlen]
  | cons c cs ih =>
    by_cases hc : c = 0
    · simp [strlen, hc]
    · simp [strlen, hc, ih.1, ih.2, Ne.symm hc]

/-- The string image of `us`: its length word and its units. -/
theorem stringImage_holds (m : Mem) (a : ℕ) {us : List UInt16} (h : us.length < maxBioSize / 2) :
    (Field.string us).Holds (stringImage m a us.length us) a := by
  have hn : ¬ maxBioSize / 2 ≤ us.length := by omega
  simp only [stringImage, hn, if_false, Field.Holds]
  constructor
  · rw [(storeUnits_agree_below _ _ a (a+4) _ le_rfl).load32_eq le_rfl le_rfl, load32_store32]
  · have hu := units_storeUnits (store32 m a (UInt32.ofNat us.length)) (a + 4) (us ++ [0])
    have ht := congrArg (List.take us.length) hu
    simpa [units_take] using ht

/-- A plain put that fits leaves its field at the old cursor. -/
theorem Put.image_holds (m : Mem) (a : ℕ) {v : Put} (h : v.Plain) :
    v.field.Holds (v.image m a) a ∧ v.field.Short ∧ v.field.size = v.size := by
  cases v with
  | uint32 n => exact ⟨load32_store32 m a n, trivial, rfl⟩
  | string16 str =>
    cases str with
    | none => exact h.elim
    | some str =>
      have hlen := strlen_eq_length h.1
      have hn : ¬ maxBioSize / 2 ≤ str.length := Nat.not_le.mpr h.2
      refine ⟨?_, h.2, ?_⟩
      · simpa [Put.field, Put.image, hlen] using stringImage_holds m a h.2
      · simp [Put.field, Field.size, Put.size, hlen, stringSize, hn, stringBlock_of_short h.2]
  | string16X str =>
    cases str with
    | none => exact h.elim
    | some str =>
      have hlen := strlen_eq_length h.1
      have hn : ¬ maxBioSize / 2 ≤ str.length := Nat.not_le.mpr h.2
      refine ⟨?_, by simpa [Put.field, Field.Short] using h.2, ?_⟩
      · have hshort : (str.map UInt8.toUInt16).length < maxBioSize / 2 := by simpa using h.2
        have hi := stringImage_holds m a hshort
        simpa [Put.field, Put.image, hlen] using hi
      · simp [Put.field, Field.size, Put.size, hlen, stringSize, hn, stringBlock_of_short h.2]
  | ref handle => exact ⟨load_fillObj m a _ _, trivial, rfl⟩
  | obj ptr => exact h.elim

theorem Put.objs_of_isRef {v : Put} (h : v.Plain) (hr : v.field.IsRef) : v.objs = 1 := by
  cases v with
  | uint32 n => exact hr.elim
  | string16 str => exact hr.elim
  | string16X str => exact hr.elim
  | ref handle =>
    have hh : handle ≠ 0 := h
    simp [Put.objs, hh]
  | obj ptr => rfl

def putsSize (vs : List Put) : ℕ := (vs.map Put.size).sum
def putsObjs (vs : List Put) : ℕ := (vs.map Put.objs).sum

/-- Puts that leave the flag clear all fit, and together move the cursors by their sizes. -/
theorem putAll_io {p : Parcel} {vs : List Put} (h : ¬ (putAll p vs).io.Overflowed) :
    p.io.Room (putsSize vs) (putsObjs vs) ∧
      (putAll p vs).io = p.io.advance (putsSize vs) (putsObjs vs) := by
  induction vs generalizing p with
  | nil =>
    refine ⟨⟨Nat.zero_le _, Nat.zero_le _⟩, ?_⟩
    simp [putAll, putsSize, putsObjs, BinderIo.advance]
  | cons v vs ih =>
    have hr := (Put.run_clear_iff.mp (putAll_clear (p := v.run p) h)).2
    obtain ⟨hroom, hio⟩ := ih h
    have hio' : (putAll p (v :: vs)).io = (v.run p).io.advance (putsSize vs) (putsObjs vs) := hio
    rw [Put.run_fits hr] at hroom hio'
    rw [hio', advance_advance]
    simp only [BinderIo.Room, BinderIo.advance] at hr hroom
    refine ⟨⟨?_, ?_⟩, by simp [putsSize, putsObjs]⟩
    · simp only [putsSize, List.map_cons, List.sum_cons] at hroom ⊢; omega
    · simp only [putsObjs, List.map_cons, List.sum_cons] at hroom ⊢; omega

theorem putAll_room {p : Parcel} {vs : List Put} (h : ¬ p.io.Overflowed)
    (hr : p.io.Room (putsSize vs) (putsObjs vs)) : ¬ (putAll p vs).io.Overflowed := by
  induction vs generalizing p with
  | nil => exact h
  | cons v vs ih =>
    simp only [putsSize, putsObjs, List.map_cons, List.sum_cons, BinderIo.Room] at hr
    have hv : p.io.Room v.size v.objs := ⟨by omega, by omega⟩
    apply ih (p := v.run p)
    · exact Put.run_clear_iff.mpr ⟨h, hv⟩
    · rw [Put.run_fits hv]
      simp only [BinderIo.Room, BinderIo.advance, putsSize, putsObjs]
      omega

/-- Address `a` of a data block is in the part of the offset table written so far. -/
def Parcel.Recorded (p : Parcel) (a : ℕ) : Prop :=
  ∃ n, p.io.offs0 + 4*n < p.io.offs ∧
    (load32 p.mem (p.io.offs0 + 4*n)).toNat = a - p.io.data0

/-- One put keeps the data and the entries written before it. -/
theorem Put.run_agree {p : Parcel} {v : Put} (hlay : p.io.Layout)
    (hr : p.io.Room v.size v.objs) :
    AgreeOn (v.run p).mem p.mem p.io.data0 p.io.data ∧
      AgreeOn (v.run p).mem p.mem p.io.offs0 p.io.offs := by
  have ht := hlay.table
  have hd := hlay.data
  have ho := hr.2
  rw [Put.run_fits hr]
  have hrec : AgreeOn (p.record v.objs) p.mem p.io.data0 p.io.data ∧
      AgreeOn (p.record v.objs) p.mem p.io.offs0 p.io.offs := by
    unfold Parcel.record
    split_ifs with h0
    · exact ⟨fun _ _ _ => rfl, fun _ _ _ => rfl⟩
    · exact ⟨store32_agree_above _ _ _ _ _ (by omega), store32_agree_below _ _ _ _ _ le_rfl⟩
  exact ⟨(v.image_agree_below _ _ _ _ le_rfl).trans hrec.1,
    (v.image_agree_below _ _ _ _ (by omega)).trans hrec.2⟩

/-- An object put records the position of its object in the next entry of the table. -/
theorem Put.run_entry {p : Parcel} {v : Put} (hlay : p.io.Layout)
    (hr : p.io.Room v.size v.objs) (h1 : v.objs = 1) :
    load32 (v.run p).mem p.io.offs = UInt32.ofNat (p.io.data - p.io.data0) := by
  have ht := hlay.table
  have hd := hlay.data
  have ho := hr.2
  rw [Put.run_fits hr]
  have hi := v.image_agree_below (p.record v.objs) p.io.data p.io.offs (p.io.offs + 4) (by omega)
  rw [hi.load32_eq le_rfl le_rfl]
  simp [Parcel.record, h1]

theorem putAll_agree {p : Parcel} {vs : List Put} (hlay : p.io.Layout)
    (h : ¬ (putAll p vs).io.Overflowed) :
    AgreeOn (putAll p vs).mem p.mem p.io.data0 p.io.data ∧
      AgreeOn (putAll p vs).mem p.mem p.io.offs0 p.io.offs := by
  induction vs generalizing p with
  | nil => exact ⟨fun _ _ _ => rfl, fun _ _ _ => rfl⟩
  | cons v vs ih =>
    have hr := (Put.run_clear_iff.mp (putAll_clear (p := v.run p) h)).2
    have hstep := Put.run_agree hlay hr
    have hrun := Put.run_fits hr
    have htail := ih (p := v.run p) (by rw [hrun]; exact hlay.advance hr) h
    have hd0 : (v.run p).io.data0 = p.io.data0 := by rw [hrun]; rfl
    have ho0 : (v.run p).io.offs0 = p.io.offs0 := by rw [hrun]; rfl
    have hd : p.io.data ≤ (v.run p).io.data := by rw [hrun]; exact Nat.le_add_right _ _
    have ho : p.io.offs ≤ (v.run p).io.offs := by rw [hrun]; exact Nat.le_add_right _ _
    rw [hd0, ho0] at htail
    exact ⟨(htail.1.mono le_rfl hd).trans hstep.1, (htail.2.mono le_rfl ho).trans hstep.2⟩

theorem Field.Holds.congr {m m' : Mem} {lo hi a : ℕ} {f : Field} (h : f.Holds m a)
    (hm : AgreeOn m' m lo hi) (hl : lo ≤ a) (hs : f.Short) (hh : a + f.size ≤ hi) :
    f.Holds m' a := by
  cases f with
  | uint32 n =>
    simp only [Field.size] at hh
    exact (hm.load32_eq hl hh).trans h
  | string str =>
    have hlen : str.length < 2^29 := hs
    have hb : stringBlock str.length = (2 * str.length + 5) / 4 * 4 := stringBlock_eq (by omega)
    simp only [Field.size, hb] at hh
    exact ⟨(hm.load32_eq hl (by omega)).trans h.1, (hm.units_eq (by omega) (by omega)).trans h.2⟩
  | ref handle =>
    simp only [Field.size] at hh
    exact ⟨(hm.load32_eq hl (by omega)).trans h.1, (hm.load32_eq (by omega) (by omega)).trans h.2⟩

/-- Plain puts that leave the flag clear lay their fields out from the old cursor on, and the
table of the final buffer mentions every reference among them. -/
theorem putAll_laid {p : Parcel} {vs : List Put} (hlay : p.io.Layout)
    (hhi : p.io.data + p.io.dataAvail < 2^32) (hplain : ∀ v ∈ vs, v.Plain)
    (h : ¬ (putAll p vs).io.Overflowed) :
    Laid (putAll p vs).mem (putAll p vs).Recorded p.io.data (vs.map Put.field) ∧
      fieldsSize (vs.map Put.field) = putsSize vs := by
  induction vs generalizing p with
  | nil => exact ⟨trivial, rfl⟩
  | cons v vs ih =>
    have hr := (Put.run_clear_iff.mp (putAll_clear (p := v.run p) h)).2
    have hrun := Put.run_fits hr
    have hlay' : (v.run p).io.Layout := by rw [hrun]; exact hlay.advance hr
    have hsize := hr.1
    have hobjs := hr.2
    have hhi' : (v.run p).io.data + (v.run p).io.dataAvail < 2^32 := by
      rw [hrun]; simp only [BinderIo.advance]; omega
    obtain ⟨htail, hts⟩ := ih hlay' hhi' (fun u hu => hplain u (by simp [hu])) h
    have hv := hplain v (by simp)
    have hkeep := putAll_agree hlay' h
    have hd := hlay.data
    obtain ⟨hholds, hshort, hfs⟩ := Put.image_holds (p.record v.objs) p.io.data hv
    -- the field of the head survives the puts of the tail
    have hhead : v.field.Holds (putAll p (v :: vs)).mem p.io.data := by
      have hrun' : v.field.Holds (v.run p).mem p.io.data := by rw [hrun]; exact hholds
      refine hrun'.congr hkeep.1 ?_ hshort ?_
      · rw [hrun]; exact hd
      · rw [hrun, hfs]; exact le_rfl
    -- and so does its entry in the table
    have hrec : v.field.IsRef → (putAll p (v :: vs)).Recorded p.io.data := by
      intro href
      have h1 := Put.objs_of_isRef hv href
      obtain ⟨k, hk⟩ := hlay.entries
      have hio : (putAll p (v :: vs)).io = _ := (putAll_io h).2
      have hone : 1 ≤ putsObjs (v :: vs) := by simp [putsObjs, h1]
      have hent := Put.run_entry hlay hr h1
      refine ⟨k, ?_, ?_⟩
      · rw [hio]; simp only [BinderIo.advance]; omega
      · have hld := hkeep.2.load32_eq (a := p.io.offs)
          (by rw [hrun]; simp only [BinderIo.advance]; omega)
          (by rw [hrun]; simp only [BinderIo.advance]; omega)
        rw [hio]
        simp only [BinderIo.advance, ← hk]
        rw [show (putAll p (v :: vs)).mem = (putAll (v.run p) vs).mem from rfl, hld, hent]
        simp
        omega
    refine ⟨⟨hhead, hshort, hrec, ?_⟩, ?_⟩
    · have hnext : p.io.data + v.field.size = (v.run p).io.data := by rw [hrun, hfs]; rfl
      rw [hnext]
      exact htail
    · simp [hts, hfs, putsSize]

/-- The transaction that carries a written buffer: data and offsets up to the cursors. -/
def BinderIo.txn (io : BinderIo) : BinderTransactionData :=
  { target := 0, cookie := 0, code := 0, flags := 0, senderPid := 0, senderEuid := 0
    dataSize := UInt32.ofNat (io.data - io.data0)
    offsetsSize := UInt32.ofNat (io.offs - io.offs0)
    buffer := UInt32.ofNat io.data0
    offsets := UInt32.ofNat io.offs0 }

theorem BinderIo.txn_reader {io : BinderIo} (m : Mem) (hlay : io.Layout)
    (ho : io.offs0 ≤ io.data0) (hhi : io.data < 2^32) :
    bioInitFromTxn m io.txn = ⟨m, {
      data := io.data0
      data0 := io.data0
      offs := io.offs0
      offs0 := io.offs0
      dataAvail := io.data - io.data0
      offsAvail := (io.offs - io.offs0) / 4
      flags := bioFShared }⟩ := by
  have hd := hlay.data
  have ht := hlay.table
  have h1 : io.data0 % 2^32 = io.data0 := Nat.mod_eq_of_lt (by omega)
  have h2 : io.offs0 % 2^32 = io.offs0 := Nat.mod_eq_of_lt (by omega)
  have h3 : (io.data - io.data0) % 2^32 = io.data - io.data0 := Nat.mod_eq_of_lt (by omega)
  have h4 : (io.offs - io.offs0) % 2^32 = io.offs - io.offs0 := Nat.mod_eq_of_lt (by omega)
  simp only [bioInitFromTxn, BinderIo.txn, UInt32.toNat_ofNat', h1, h2, h3, h4, sizeofSizeT]

/-- The receiver of a buffer that was filled without overflow finds its fields at its cursor. -/
theorem putAll_received {p : Parcel} {vs : List Put} (hlay : p.io.Layout)
    (hd : p.io.data = p.io.data0) (ho : p.io.offs = p.io.offs0)
    (hhi : p.io.data + p.io.dataAvail < 2^32) (hplain : ∀ v ∈ vs, v.Plain)
    (hclear : ¬ (putAll p vs).io.Overflowed) :
    let w := putAll p vs
    let r := bioInitFromTxn w.mem w.io.txn
    r.mem = w.mem ∧ Laid r.mem r.ListedAt r.io.data (vs.map Put.field) ∧
      r.io.dataAvail = fieldsSize (vs.map Put.field) ∧ ¬ r.io.Overflowed := by
  intro w r
  obtain ⟨hroom, hio⟩ : _ ∧ w.io = _ := putAll_io hclear
  obtain ⟨hlaid, hsize⟩ := putAll_laid hlay hhi hplain hclear
  have hwlay : w.io.Layout := by rw [hio]; exact hlay.advance hroom
  have ht := hlay.table
  have hrs := hroom.1
  have hr : r = _ := BinderIo.txn_reader w.mem hwlay
    (by rw [hio]; simp only [BinderIo.advance]; omega)
    (by rw [hio]; simp only [BinderIo.advance]; omega)
  have hdata : w.io.data0 = p.io.data := by rw [hio, hd]; rfl
  -- the entries written by the puts are the entries the reader searches
  have hlist : r.ListedAt = w.Recorded := by
    funext a
    apply propext
    rw [hr]
    simp only [Parcel.ListedAt, Parcel.Recorded, hio, BinderIo.advance, ho]
    constructor
    · rintro ⟨n, hn, he⟩
      exact ⟨n, by omega, he⟩
    · rintro ⟨n, hn, he⟩
      exact ⟨n, by omega, he⟩
  refine ⟨by rw [hr], ?_, ?_, ?_⟩
  · rw [hlist, hr, hdata]
    exact hlaid
  · rw [hr, hsize, hio]
    simp only [BinderIo.advance]
    omega
  · rw [hr]
    simp only [BinderIo.Overflowed]
    decide

theorem fieldsSize_append (fs gs : List Field) :
    fieldsSize (fs ++ gs) = fieldsSize fs + fieldsSize gs := by simp [fieldsSize]

/-- Reading back what was written: a buffer of the address space, set up by `bio_init` and
filled without overflow, gives the matching getters exactly the values put, leaves no data
behind and raises the overflow flag at no point. -/
theorem putAll_roundtrip (p : Parcel) (base maxdata maxoffs : ℕ) (vs : List Put)
    (haddr : base + maxdata < 2^32) (hoffs : maxoffs * sizeofSizeT < 2^32)
    (hplain : ∀ v ∈ vs, v.Plain)
    (hclear : ¬ (putAll (bioInit p base maxdata maxoffs) vs).io.Overflowed) :
    let w := putAll (bioInit p base maxdata maxoffs) vs
    let r := bioInitFromTxn w.mem w.io.txn
    (getAll r (vs.map fun v => v.field.getter)).1.map (Got.field w.mem) =
        vs.map (fun v => some v.field) ∧
      (getAll r (vs.map fun v => v.field.getter)).2.io.dataAvail = 0 ∧
      ∀ k, ¬ (getAll r ((vs.take k).map fun v => v.field.getter)).2.io.Overflowed := by
  intro w r
  have hn : maxoffs * 4 ≤ maxdata := bioInit_clear hoffs (putAll_clear hclear)
  have hinit := bioInit_fits p base maxdata maxoffs hoffs hn
  have hlay : (bioInit p base maxdata maxoffs).io.Layout := by
    rw [hinit]
    exact ⟨by simp only; omega, ⟨0, rfl⟩, le_rfl⟩
  obtain ⟨hmem, hlaid, havail, hflags⟩ := putAll_received hlay (by rw [hinit]) (by rw [hinit])
    (by rw [hinit]; simp only; omega) hplain hclear
  have hget (us : List Put) :
      (us.map fun v => v.field.getter) = (us.map Put.field).map Field.getter := by simp
  have hall := getAll_laid hlaid havail.ge
  refine ⟨?_, ?_, ?_⟩
  · rw [hget, ← hmem, hall.1]
    simp
  · rw [hget, hall.2]
    simp only [BinderIo.advance]
    omega
  · intro k
    have hsplit : vs.map Put.field = (vs.take k).map Put.field ++ (vs.drop k).map Put.field := by
      rw [← List.map_append, List.take_append_drop]
    have hpre := Laid.append_left (hsplit ▸ hlaid)
    have hsum := fieldsSize_append ((vs.take k).map Put.field) ((vs.drop k).map Put.field)
    have hle : fieldsSize ((vs.take k).map Put.field) ≤ r.io.dataAvail := by
      rw [havail, hsplit]
      omega
    rw [hget, (getAll_laid hpre hle).2, advance_overflowed]
    exact hflags

/-- The hypotheses are met by a buffer of the size the stubs use, holding a word, both kinds of
string and a reference. -/
theorem putAll_roundtrip_stub :
    let w := putAll (bioInit ⟨fun _ => 0xaa, ⟨0, 0, 0, 0, 0, 0, 0⟩⟩ 0x1000 512 4)
      [.uint32 7, .string16 (some [104, 105]), .string16X (some [200]), .ref 5]
    (getAll (bioInitFromTxn w.mem w.io.txn) [.uint32, .string16, .string16, .ref]).1.map
        (Got.field w.mem) =
      [some (.uint32 7), some (.string [104, 105]), some (.string [200]), some (.ref 5)] :=
  (putAll_roundtrip ⟨fun _ => 0xaa, ⟨0, 0, 0, 0, 0, 0, 0⟩⟩ 0x1000 512 4
    [.uint32 7, .string16 (some [104, 105]), .string16X (some [200]), .ref 5]
    (by decide) (by decide) (by simp [Put.Plain, maxBioSize]) (by decide +kernel)).1

end LinuxLabs.Binder
