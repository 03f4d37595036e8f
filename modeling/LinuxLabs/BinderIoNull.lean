import LinuxLabs.BinderReply
import LinuxLabs.BinderIoSticky

/-! Null values on their way through a buffer. A null string is a length word without a block, and
a null reference an object without an entry in the table; the getters know neither form. The one
has the reader take a string for it, the other makes it give up the rest of the message. -/
namespace LinuxLabs.Binder
open ByteMemory

/-- The result of a string getter for a text, which is null or a list of units. -/
def TextReturns (m : Mem) (text : Option (List UInt16)) (ptr : Option ℕ) (len : ℕ) : Prop :=
  match text with
  | none => ptr = none
  | some us => len = us.length ∧ ptr.map (fun a => units m a len) = some us

/-- The units of a string up to its terminator. -/
def cText (str : Option (List UInt16)) : Option (List UInt16) := str.map fun s => s.take (strlen s)

/-- The same for bytes, which are widened. -/
def cTextX (str : Option (List UInt8)) : Option (List UInt16) :=
  str.map fun s => (s.take (strlen s)).map UInt8.toUInt16

/-- What the getter of a value is to return: the value, zero for a null reference and a null
pointer for a null string. -/
def Put.Returns (m : Mem) : Put → Got → Prop
  | .uint32 n, .uint32 k => k = n
  | .string16 str, .string16 ptr len => TextReturns m (cText str) ptr len
  | .string16X str, .string16 ptr len => TextReturns m (cTextX str) ptr len
  | .ref handle, .ref k => k = handle
  | _, _ => False

/-- The values in question: no local objects, and strings that a 32-bit address space can hold. -/
def Put.Readable : Put → Prop
  | .string16 (some str) => strlen str < 2^32 - 1
  | .string16X (some str) => strlen str < 2^32 - 1
  | .obj _ => False
  | _ => True

/-- A value that is neither null nor a string so long that it is stored as a null one. -/
def Put.Whole : Put → Prop
  | .uint32 _ => True
  | .string16 (some str) => strlen str < maxBioSize / 2
  | .string16X (some str) => strlen str < maxBioSize / 2
  | .ref handle => handle ≠ 0
  | _ => False

/-- A value for which nothing may be returned. -/
def Put.Zero : Put → Prop
  | .uint32 n => n = 0
  | .string16 str => str = none
  | .string16X str => str = none
  | .ref handle => handle = 0
  | .obj _ => False

/-- Whole values up to the first null reference, if there is one, and zeros behind it. -/
def Transparent : List Put → Prop
  | [] => True
  | v :: vs => if v = .ref 0 then ∀ u ∈ vs, u.Zero else v.Whole ∧ Transparent vs

def stringStored (len : ℕ) (us : List UInt16) : Field :=
  if maxBioSize / 2 ≤ len then .uint32 0xffffffff else .string us

/-- The field that stands in the buffer for a value. -/
def Put.stored : Put → Field
  | .uint32 n => .uint32 n
  | .string16 none => .uint32 0xffffffff
  | .string16 (some str) => stringStored (strlen str) (str.take (strlen str))
  | .string16X none => .uint32 0xffffffff
  | .string16X (some str) =>
    stringStored (strlen str) ((str.take (strlen str)).map UInt8.toUInt16)
  | .ref handle => .ref handle
  | .obj _ => .ref 0

lemma stringStored_size {len : ℕ} {us : List UInt16} (hus : us.length = len) :
    (stringStored len us).Short ∧ (stringStored len us).size = stringSize len := by
  subst hus
  unfold stringStored stringSize
  split_ifs with hl
  · exact ⟨trivial, rfl⟩
  · have hshort : us.length < maxBioSize / 2 := Nat.lt_of_not_le hl
    exact ⟨hshort, by rw [Field.size, stringBlock_of_short hshort]⟩

/-- The field takes the place that its value took in the buffer. -/
lemma Put.Readable.stored_size {v : Put} (h : v.Readable) :
    v.stored.Short ∧ v.stored.size = v.size := by
  cases v with
  | string16 str =>
    cases str with
    | none => exact ⟨trivial, rfl⟩
    | some str => exact stringStored_size (strlen_take str).2
  | string16X str =>
    cases str with
    | none => exact ⟨trivial, rfl⟩
    | some str => exact stringStored_size ((List.length_map _).trans (strlen_take str).2)
  | obj ptr => exact h.elim
  | _ => exact ⟨trivial, rfl⟩

lemma stringImage_stored (m : Mem) (a : ℕ) {len : ℕ} {us : List UInt16} (hus : us.length = len) :
    (stringStored len us).Holds (stringImage m a len us) a := by
  subst hus
  by_cases hl : maxBioSize / 2 ≤ us.length
  · simp only [stringStored, stringImage, if_pos hl]
    exact load32_store32 m a _
  · rw [stringStored, if_neg hl]
    exact stringImage_holds m a (Nat.lt_of_not_le hl)

lemma Put.Readable.image_stored {v : Put} (h : v.Readable) (m : Mem) (a : ℕ) :
    v.stored.Holds (v.image m a) a := by
  cases v with
  | uint32 n => exact load32_store32 m a n
  | string16 str =>
    cases str with
    | none => exact load32_store32 m a _
    | some str => exact stringImage_stored m a (strlen_take str).2
  | string16X str =>
    cases str with
    | none => exact load32_store32 m a _
    | some str => exact stringImage_stored m a ((List.length_map _).trans (strlen_take str).2)
  | ref handle => exact load_fillObj m a _ _
  | obj ptr => exact h.elim

/-- Every value of the list stands at its place, and the table mentions it exactly if it is an
object with an entry. -/
def Stored (m : Mem) (listed : ℕ → Prop) (a : ℕ) (vs : List Put) : Prop :=
  ∀ pre v post, vs = pre ++ v :: post → v.stored.Holds m (a + putsSize pre) ∧
    (listed (a + putsSize pre) ↔ v.objs = 1)

lemma putsSize_cons (v : Put) (vs : List Put) : putsSize (v :: vs) = v.size + putsSize vs := by
  simp [putsSize]

lemma Stored.head {m : Mem} {listed : ℕ → Prop} {a : ℕ} {v : Put} {vs : List Put}
    (h : Stored m listed a (v :: vs)) : v.stored.Holds m a ∧ (listed a ↔ v.objs = 1) :=
  h [] v vs rfl

lemma Stored.tail {m : Mem} {listed : ℕ → Prop} {a : ℕ} {v : Put} {vs : List Put}
    (h : Stored m listed a (v :: vs)) : Stored m listed (a + v.size) vs := by
  rintro pre u post rfl
  have hu := h (v :: pre) u post rfl
  rw [putsSize_cons, ← Nat.add_assoc] at hu
  exact hu

lemma textReturns_of_field {m : Mem} {us : List UInt16} {ptr : Option ℕ} {len : ℕ}
    (h : (Got.string16 ptr len).field m = some (.string us)) : TextReturns m (some us) ptr len := by
  obtain ⟨a, rfl, ha⟩ := Option.map_eq_some_iff.mp h
  have hus := Field.string.inj ha
  refine ⟨?_, by rw [Option.map_some, hus]⟩
  rw [← hus, units_length]

lemma stringStored_of_short {len : ℕ} {us : List UInt16} (h : len < maxBioSize / 2) :
    stringStored len us = .string us := if_neg (Nat.not_le.mpr h)

/-- A whole value at the cursor is read as it was put. -/
lemma Put.Whole.get {r : Parcel} {v : Put} (hv : v.Whole) (hholds : v.stored.Holds r.mem r.io.data)
    (hshort : v.stored.Short) (hsize : v.stored.size = v.size) (hlisted : v.objs = 1 → r.Listed)
    (hroom : v.size ≤ r.io.dataAvail) :
    v.Returns r.mem (v.field.getter.run r).1 ∧
      (v.field.getter.run r).2 = ⟨r.mem, r.io.advance v.size 0⟩ := by
  have hobjs : v.stored.IsRef → v.objs = 1 := by
    intro href
    cases v with
    | ref handle =>
      have hh : handle ≠ 0 := hv
      simp [Put.objs, hh]
    | uint32 n => exact href.elim
    | string16 str =>
      cases str with
      | none => exact hv.elim
      | some str =>
        rw [Put.stored, stringStored_of_short hv] at href
        exact href.elim
    | string16X str =>
      cases str with
      | none => exact hv.elim
      | some str =>
        rw [Put.stored, stringStored_of_short hv] at href
        exact href.elim
    | obj ptr => exact hv.elim
  obtain ⟨hgot, hnext⟩ := Field.get_holds hholds hshort (fun href => hlisted (hobjs href))
    (by rw [hsize]; exact hroom)
  rw [hsize] at hnext
  cases v with
  | uint32 n => exact ⟨Field.uint32.inj (Option.some.inj hgot), hnext⟩
  | string16 str =>
    cases str with
    | none => exact hv.elim
    | some str =>
      rw [Put.stored, stringStored_of_short hv] at hgot hnext
      exact ⟨textReturns_of_field hgot, hnext⟩
  | string16X str =>
    cases str with
    | none => exact hv.elim
    | some str =>
      rw [Put.stored, stringStored_of_short hv] at hgot hnext
      exact ⟨textReturns_of_field hgot, hnext⟩
  | ref handle => exact ⟨Field.ref.inj (Option.some.inj hgot), hnext⟩
  | obj ptr => exact hv.elim

/-- The length word of a null string is taken for a length, and the block it asks for wraps to
nothing. -/
lemma bioGetString16_null {r : Parcel} (hword : load32 r.mem r.io.data = 0xffffffff)
    (hroom : 4 ≤ r.io.dataAvail) :
    Getter.string16.run r =
      (.string16 (some (r.io.data + 4)) 0xffffffff, ⟨r.mem, r.io.advance 4 0⟩) := by
  have hlen : (load32 r.mem r.io.data).toNat = 0xffffffff := by rw [hword]; rfl
  have hblock : stringBlock 0xffffffff = 0 := by decide
  have hget := bioGetString16_fits hroom hlen (by rw [hblock]; exact hroom)
  rw [hblock] at hget
  rw [Getter.run, hget]

/-- A string that is stored as a null one is not read as it was put. -/
lemma Put.Readable.not_returns {r : Parcel} {v : Put} (hv : v.Readable) (hnot : ¬ v.Whole)
    (hne : v ≠ .ref 0) (hholds : v.stored.Holds r.mem r.io.data)
    (hroom : v.size ≤ r.io.dataAvail) : ¬ v.Returns r.mem (v.field.getter.run r).1 := by
  have hlong {len : ℕ} {us : List UInt16} (hus : us.length = len) (hlen : len < 2^32 - 1)
      (hl : ¬ len < maxBioSize / 2) (hsize : stringSize len ≤ r.io.dataAvail)
      (h : (stringStored len us).Holds r.mem r.io.data) :
      Getter.string16.run r =
          (.string16 (some (r.io.data + 4)) 0xffffffff, ⟨r.mem, r.io.advance 4 0⟩) ∧
        0xffffffff ≠ us.length := by
    have hl' : maxBioSize / 2 ≤ len := Nat.le_of_not_lt hl
    rw [stringStored, if_pos hl'] at h
    rw [stringSize, if_pos hl'] at hsize
    exact ⟨bioGetString16_null h hsize, by omega⟩
  cases v with
  | uint32 n => exact absurd trivial hnot
  | string16 str =>
    cases str with
    | none =>
      have hrun := bioGetString16_null hholds hroom
      simp only [Put.field, Field.getter, hrun]
      exact fun h => absurd h (by simp [cText, TextReturns, Put.Returns])
    | some str =>
      obtain ⟨hrun, hlen⟩ := hlong (strlen_take str).2 hv hnot hroom hholds
      simp only [Put.field, Field.getter, hrun]
      exact fun h => hlen h.1
  | string16X str =>
    cases str with
    | none =>
      have hrun := bioGetString16_null hholds hroom
      simp only [Put.field, Field.getter, hrun]
      exact fun h => absurd h (by simp [cTextX, TextReturns, Put.Returns])
    | some str =>
      obtain ⟨hrun, hlen⟩ := hlong ((List.length_map _).trans (strlen_take str).2) hv hnot hroom
        hholds
      simp only [Put.field, Field.getter, hrun]
      exact fun h => hlen h.1
  | ref handle =>
    have hh : handle = 0 := not_not.mp hnot
    exact absurd (by rw [hh]) hne
  | obj ptr => exact hv.elim

/-- With nothing left, only zeros come back. -/
lemma Put.returns_nothing_iff (m : Mem) (v : Put) :
    v.Returns m v.field.getter.nothing ↔ v.Zero := by
  cases v with
  | uint32 n => simp [Put.Returns, Put.field, Field.getter, Getter.nothing, Put.Zero, eq_comm]
  | string16 str =>
    cases str with
    | none => exact iff_of_true rfl rfl
    | some str =>
      simp [Put.Returns, Put.field, Field.getter, Getter.nothing, Put.Zero, cText, TextReturns]
  | string16X str =>
    cases str with
    | none => exact iff_of_true rfl rfl
    | some str =>
      simp [Put.Returns, Put.field, Field.getter, Getter.nothing, Put.Zero, cTextX, TextReturns]
  | ref handle => simp [Put.Returns, Put.field, Field.getter, Getter.nothing, Put.Zero, eq_comm]
  | obj ptr => simp [Put.Returns, Put.Zero]

lemma forall_returns_nothing_iff (m : Mem) (vs : List Put) :
    List.Forall₂ (Put.Returns m) vs ((vs.map fun v => v.field.getter).map Getter.nothing) ↔
      ∀ v ∈ vs, v.Zero := by
  induction vs with
  | nil => simp
  | cons v vs ih =>
    simp only [List.map_cons, List.forall₂_cons, List.forall_mem_cons, v.returns_nothing_iff, ih]

/-- Reading stored values returns them all exactly if they are transparent. Induction over the
values: a whole one leaves the reader at the next one, a null reference leaves it with nothing. -/
theorem getAll_returns_iff {r : Parcel} {vs : List Put} (hread : ∀ v ∈ vs, v.Readable)
    (hstored : Stored r.mem r.ListedAt r.io.data vs) (hroom : putsSize vs ≤ r.io.dataAvail) :
    List.Forall₂ (Put.Returns r.mem) vs (getAll r (vs.map fun v => v.field.getter)).1 ↔
      Transparent vs := by
  induction vs generalizing r with
  | nil => simp [getAll, Transparent]
  | cons v vs ih =>
    have hv := hread v (by simp)
    have htail := fun u hu => hread u (List.mem_cons_of_mem v hu)
    obtain ⟨hholds, hlisted⟩ := hstored.head
    rw [putsSize_cons] at hroom
    rw [List.map_cons, getAll, List.forall₂_cons, Transparent]
    split_ifs with hnull
    · subst hnull
      have hfails : Getter.ref.run r =
          (.ref 0, ⟨r.mem, { r.io.overflow with dataAvail := 0 }⟩) := by
        rw [Getter.run, bioGetRef_fails]
        exact fun h => absurd (hlisted.mp h.1) (by decide)
      have hhead : (Put.ref 0).Returns r.mem (.ref 0) := rfl
      change (Put.ref 0).Returns r.mem (Getter.ref.run r).1 ∧
        List.Forall₂ _ vs (getAll (Getter.ref.run r).2 _).1 ↔ _
      rw [hfails, getAll_exhausted rfl, forall_returns_nothing_iff]
      exact and_iff_right hhead
    · by_cases hw : v.Whole
      · obtain ⟨hshort, hsize⟩ := hv.stored_size
        obtain ⟨hret, hnext⟩ := hw.get hholds hshort hsize (fun h => hlisted.mpr h) (by omega)
        have hrest := ih (r := ⟨r.mem, r.io.advance v.size 0⟩) htail hstored.tail
          (by simp only [BinderIo.advance]; omega)
        rw [hnext, hrest, and_iff_right hret, and_iff_right hw]
      · have hbad := hv.not_returns hw hnull hholds (by omega)
        exact iff_of_false (fun h => hbad h.1) fun h => hw h.1

/-- Values that all fit stand in the finished buffer one behind the other. -/
lemma putAll_holds {p : Parcel} {vs : List Put} (hlay : p.io.Layout)
    (hclear : ¬ (putAll p vs).io.Overflowed) {pre post : List Put} {v : Put}
    (hvs : vs = pre ++ v :: post) (hv : v.Readable) :
    v.stored.Holds (putAll p vs).mem (p.io.data + putsSize pre) := by
  have hsplit : putAll p vs = putAll (v.run (putAll p pre)) post := by
    rw [hvs]
    exact List.foldl_append
  rw [hsplit] at hclear ⊢
  obtain ⟨hpre, hr⟩ := Put.run_clear_iff.mp (putAll_clear hclear)
  obtain ⟨hroom, hio⟩ := putAll_io hpre
  have hlay' : (putAll p pre).io.Layout := by
    rw [hio]
    exact hlay.advance hroom
  have hrun := Put.run_fits hr
  have hkeep := (putAll_agree (p := v.run (putAll p pre)) (by rw [hrun]; exact hlay'.advance hr)
    hclear).1
  obtain ⟨hshort, hsize⟩ := hv.stored_size
  have hdata : (putAll p pre).io.data = p.io.data + putsSize pre := by
    rw [hio]
    rfl
  have hnow : v.stored.Holds (v.run (putAll p pre)).mem (putAll p pre).io.data := by
    rw [hrun]
    exact hv.image_stored _ _
  rw [← hdata]
  refine hnow.congr hkeep ?_ hshort ?_
  · rw [hrun]
    exact hlay'.data
  · rw [hrun, hsize]
    exact le_rfl

lemma Put.size_pos (v : Put) : 0 < v.size := by
  have hstring (len : ℕ) : 0 < stringSize len := by
    unfold stringSize
    split_ifs <;> omega
  cases v with
  | string16 str =>
    cases str with
    | none => exact Nat.succ_pos 3
    | some str => exact hstring _
  | string16X str =>
    cases str with
    | none => exact Nat.succ_pos 3
    | some str => exact hstring _
  | _ => simp [Put.size]

lemma putOffsets_append (k : ℕ) (us vs : List Put) :
    putOffsets k (us ++ vs) = putOffsets k us ++ putOffsets (k + putsSize us) vs := by
  induction us generalizing k with
  | nil => simp [putOffsets, putsSize]
  | cons u us ih =>
    rw [List.cons_append, putOffsets, putOffsets, ih, putsSize_cons, List.append_assoc,
      Nat.add_assoc]

lemma putOffsets_bounds {k : ℕ} {vs : List Put} (hk : k + putsSize vs < 2^32) {x : UInt32}
    (hx : x ∈ putOffsets k vs) : k ≤ x.toNat ∧ x.toNat < k + putsSize vs := by
  induction vs generalizing k with
  | nil => simp [putOffsets] at hx
  | cons v vs ih =>
    have hpos := v.size_pos
    rw [putsSize_cons] at hk ⊢
    rw [putOffsets] at hx
    rcases List.mem_append.mp hx with hx | hx
    · have hk' : (UInt32.ofNat k).toNat = k := by
        rw [UInt32.toNat_ofNat', Nat.mod_eq_of_lt (by omega)]
      rw [List.eq_of_mem_replicate hx, hk']
      omega
    · have := ih (by omega) hx
      omega

/-- The table mentions the place of a value exactly if the value has made an entry. -/
lemma mem_putOffsets_iff {pre post : List Put} {v : Put}
    (hsize : putsSize (pre ++ v :: post) < 2^32) :
    (∃ x ∈ putOffsets 0 (pre ++ v :: post), x.toNat = putsSize pre) ↔ v.objs = 1 := by
  have hpos := v.size_pos
  have hsum : putsSize (pre ++ v :: post) = putsSize pre + (v.size + putsSize post) := by
    simp [putsSize]
  have hle := v.objs_le
  rw [hsum] at hsize
  rw [putOffsets_append, Nat.zero_add, putOffsets]
  constructor
  · rintro ⟨x, hx, hval⟩
    rcases List.mem_append.mp hx with hx | hx
    · have := (putOffsets_bounds (by omega) hx).2
      omega
    · rcases List.mem_append.mp hx with hx | hx
      · have := (List.mem_replicate.mp hx).1
        omega
      · have := (putOffsets_bounds (by omega) hx).1
        omega
  · intro h1
    refine ⟨UInt32.ofNat (putsSize pre), ?_, ?_⟩
    · apply List.mem_append_right
      apply List.mem_append_left
      rw [h1]
      exact List.mem_singleton_self _
    · rw [UInt32.toNat_ofNat', Nat.mod_eq_of_lt (by omega)]

/-- The receiver of a buffer that was filled without overflow finds the values stored. -/
theorem putAll_stored {p : Parcel} {vs : List Put} (hlay : p.io.Layout)
    (hd : p.io.data = p.io.data0) (ho : p.io.offs = p.io.offs0)
    (hhi : p.io.data + p.io.dataAvail < 2^32) (hread : ∀ v ∈ vs, v.Readable)
    (hclear : ¬ (putAll p vs).io.Overflowed) :
    let w := putAll p vs
    let r := bioInitFromTxn w.mem w.io.txn
    r.mem = w.mem ∧ Stored r.mem r.ListedAt r.io.data vs ∧ putsSize vs ≤ r.io.dataAvail := by
  intro w r
  obtain ⟨hroom, hio⟩ : _ ∧ w.io = _ := putAll_io hclear
  have hwlay : w.io.Layout := by
    rw [hio]
    exact hlay.advance hroom
  have ht := hlay.table
  have hrs := hroom.1
  have hr : r = _ := BinderIo.txn_reader w.mem hwlay
    (by rw [hio]; simp only [BinderIo.advance]; omega)
    (by rw [hio]; simp only [BinderIo.advance]; omega)
  have htable : words w.mem p.io.offs (putsObjs vs) = putOffsets (p.io.data - p.io.data0) vs :=
    putAll_offsets hlay hclear
  rw [hd, Nat.sub_self] at htable
  have hlisted (k : ℕ) : r.ListedAt (p.io.data + k) ↔
      ∃ x ∈ putOffsets 0 vs, x.toNat = k := by
    rw [← htable, hr]
    simp only [Parcel.ListedAt, hio, BinderIo.advance, words, List.mem_map, List.mem_range,
      exists_exists_and_eq_and, ho, hd]
    have hcount : (p.io.offs0 + 4 * putsObjs vs - p.io.offs0) / 4 = putsObjs vs := by omega
    rw [hcount]
    have hk : p.io.data0 + k - p.io.data0 = k := by omega
    rw [hk]
  have hdata : r.io.data = p.io.data := by
    rw [hr, hio, hd]
    rfl
  refine ⟨by rw [hr], ?_, ?_⟩
  · intro pre v post hvs
    rw [hdata]
    refine ⟨?_, ?_⟩
    · have hmem : r.mem = w.mem := by rw [hr]
      rw [hmem]
      exact putAll_holds hlay hclear hvs (hread v (by simp [hvs]))
    · rw [hlisted, hvs]
      exact mem_putOffsets_iff (by rw [← hvs]; omega)
  · rw [hr, hio]
    simp only [BinderIo.advance]
    omega

/-- When null values are transparent. For every buffer of the address space and every list of
words, strings and references that is written into it without overflow, null ones included, the
matching getters return every value as it was exactly if the list is made up of whole values up
to its first null reference and of nothing but zeros behind it. -/
theorem null_transparent_iff (p : Parcel) (base maxdata maxoffs : ℕ) (vs : List Put)
    (haddr : base + maxdata < 2^32) (hoffs : maxoffs * sizeofSizeT < 2^32)
    (hread : ∀ v ∈ vs, v.Readable)
    (hclear : ¬ (putAll (bioInit p base maxdata maxoffs) vs).io.Overflowed) :
    let w := putAll (bioInit p base maxdata maxoffs) vs
    let r := bioInitFromTxn w.mem w.io.txn
    List.Forall₂ (Put.Returns w.mem) vs (getAll r (vs.map fun v => v.field.getter)).1 ↔
      Transparent vs := by
  intro w r
  have hn : maxoffs * 4 ≤ maxdata := bioInit_clear hoffs (putAll_clear hclear)
  have hinit := bioInit_fits p base maxdata maxoffs hoffs hn
  have hlay : (bioInit p base maxdata maxoffs).io.Layout := by
    rw [hinit]
    exact ⟨by simp only; omega, ⟨0, rfl⟩, le_rfl⟩
  obtain ⟨hmem, hstored, hroom⟩ := putAll_stored hlay (by rw [hinit]) (by rw [hinit])
    (by rw [hinit]; simp only; omega) hread hclear
  have hiff := getAll_returns_iff hread hstored hroom
  rw [hmem] at hiff
  exact hiff

/-- The word behind a null reference is lost. -/
theorem null_hides_word :
    let w := putAll (bioInit ⟨fun _ => 0xaa, BinderIo.uninit⟩ 0x1000 512 4) [.ref 0, .uint32 7]
    let r := bioInitFromTxn w.mem w.io.txn
    ¬ w.io.Overflowed ∧ (getAll r [.ref, .uint32]).1 = [.ref 0, .uint32 0] ∧
      ¬ List.Forall₂ (Put.Returns w.mem) [.ref 0, .uint32 7] (getAll r [.ref, .uint32]).1 := by
  intro w r
  have hgot : (getAll r [.ref, .uint32]).1 = [.ref 0, .uint32 0] := by decide +kernel
  refine ⟨by decide +kernel, hgot, ?_⟩
  rw [hgot]
  simp [Put.Returns]

/-- A null reference at the end. -/
theorem null_transparent_last :
    let w := putAll (bioInit ⟨fun _ => 0xaa, BinderIo.uninit⟩ 0x1000 512 4)
      [.uint32 7, .string16 (some [104, 105]), .ref 5, .ref 0]
    List.Forall₂ (Put.Returns w.mem) [.uint32 7, .string16 (some [104, 105]), .ref 5, .ref 0]
      (getAll (bioInitFromTxn w.mem w.io.txn) [.uint32, .string16, .ref, .ref]).1 :=
  (null_transparent_iff ⟨fun _ => 0xaa, BinderIo.uninit⟩ 0x1000 512 4
    [.uint32 7, .string16 (some [104, 105]), .ref 5, .ref 0] (by decide) (by decide)
    (by simp [Put.Readable, strlen]) (by decide +kernel)).mpr
    (by simp [Transparent, Put.Whole, strlen, maxBioSize])

end LinuxLabs.Binder
