import LinuxLabs.EventRun
import LinuxLabs.BinderIoSticky
import LinuxLabs.BinderReply

/-! The offset table as a writer builds it, whether its puts overflow or not. Beside each put stand
the stores it makes, as start and length, and the data offset of the object it records. -/
namespace LinuxLabs.Binder
open ByteMemory EventRun

def bioPutUint32Stores (p : Parcel) : List (ℕ × ℕ) :=
  match bioAlloc p.io 4 with
  | (none, _) => []
  | (some ptr, _) => [(ptr, 4)]

def bioAllocObjStores (p : Parcel) : List (ℕ × ℕ) :=
  match bioAlloc p.io sizeofFlatBinderObject with
  | (none, _) => []
  | (some _, bio) => if bio.offsAvail ≠ 0 then [(bio.offs, 4)] else []

def fillObjStores (obj : ℕ) : List (ℕ × ℕ) := [(obj + 4, 4), (obj, 4), (obj + 8, 4), (obj + 12, 4)]

def bioPutObjStores (p : Parcel) : List (ℕ × ℕ) :=
  match bioAllocObj p with
  | (none, _) => bioAllocObjStores p
  | (some obj, _) => bioAllocObjStores p ++ fillObjStores obj

def bioPutRefStores (p : Parcel) (handle : UInt32) : List (ℕ × ℕ) :=
  if handle ≠ 0 then bioPutObjStores p
  else
    match bioAlloc p.io sizeofFlatBinderObject with
    | (none, _) => []
    | (some obj, _) => fillObjStores obj

def putUnitsStores (p : Parcel) (len : ℕ) (units : List UInt16) : List (ℕ × ℕ) :=
  if maxBioSize / 2 ≤ len then bioPutUint32Stores p
  else
    bioPutUint32Stores p ++
      match bioAlloc (bioPutUint32 p (UInt32.ofNat len)).io (wrap ((len + 1) * 2)) with
      | (none, _) => []
      | (some ptr, _) => [(ptr, 2 * (units ++ [0]).length)]

/-- The stores of a call, in the order in which its code makes them. -/
def Put.stores (p : Parcel) : Put → List (ℕ × ℕ)
  | .uint32 _ => bioPutUint32Stores p
  | .string16 none => bioPutUint32Stores p
  | .string16 (some str) => putUnitsStores p (strlen str) (str.take (strlen str))
  | .string16X none => bioPutUint32Stores p
  | .string16X (some str) =>
    putUnitsStores p (strlen str) ((str.take (strlen str)).map UInt8.toUInt16)
  | .ref handle => bioPutRefStores p handle
  | .obj _ => bioPutObjStores p

/-- The data offset of the object that a call has put into the table. -/
def bioAllocObjOffset (p : Parcel) : List ℕ :=
  match bioAllocObj p with
  | (none, _) => []
  | (some obj, _) => [obj - p.io.data0]

def Put.offsets (p : Parcel) : Put → List ℕ
  | .ref handle => if handle ≠ 0 then bioAllocObjOffset p else []
  | .obj _ => bioAllocObjOffset p
  | _ => []

/-- What a put leaves behind: where it stored, and the objects it recorded. -/
structure Noted where
  stores : List (ℕ × ℕ)
  offsets : List ℕ

def writer : Machine Parcel Put Noted := ⟨Put.run, fun p v => [⟨v.stores p, v.offsets p⟩]⟩

lemma covers_fillObj (m : Mem) (obj : ℕ) (t v : UInt32) :
    Covers (fillObjStores obj) m (fillObj m obj t v) :=
  (covers_store32 m (obj + 4) _).trans ((covers_store32 _ obj _).trans
    ((covers_store32 _ (obj + 8) _).trans (covers_store32 _ (obj + 12) _)))

/-- A call that records nothing: it takes some words of the data, stores in them only, and may raise
the flag. -/
def Consumes (p p' : Parcel) (rs : List (ℕ × ℕ)) : Prop :=
  ∃ n f, 4 ∣ n ∧ n ≤ p.io.dataAvail ∧ p'.io = { p.io.advance n 0 with flags := f } ∧
    (∀ r ∈ rs, p.io.data ≤ r.1 ∧ r.1 + r.2 ≤ p.io.data + n) ∧ Covers rs p.mem p'.mem

section Consumes
variable {p : Parcel}

lemma consumes_overflow (p : Parcel) : Consumes p ⟨p.mem, p.io.overflow⟩ [] :=
  ⟨0, _, dvd_zero 4, Nat.zero_le _, rfl, by simp, covers_refl _⟩

lemma Consumes.trans {p' p'' : Parcel} {rs qs : List (ℕ × ℕ)} (h : Consumes p p' rs)
    (h' : Consumes p' p'' qs) : Consumes p p'' (rs ++ qs) := by
  obtain ⟨n, f, hdvd, hle, hio, hrs, hmem⟩ := h
  obtain ⟨n', f', hdvd', hle', hio', hqs, hmem'⟩ := h'
  have hdata : p'.io.data = p.io.data + n := by rw [hio]; rfl
  have havail : p'.io.dataAvail = p.io.dataAvail - n := by rw [hio]; rfl
  refine ⟨n + n', f', dvd_add hdvd hdvd', by omega, ?_, ?_, hmem.trans hmem'⟩
  · rw [hio', hio]
    simp [BinderIo.advance, Nat.add_assoc, Nat.sub_sub]
  · intro r hr
    rcases List.mem_append.mp hr with hr | hr
    · have hin := hrs r hr
      omega
    · have hin := hqs r hr
      rw [hdata] at hin
      omega

/-- An allocation that succeeds, and stores inside the block. -/
lemma consumes_alloc {n : ℕ} {m : Mem} {rs : List (ℕ × ℕ)} (hfits : align4 n ≤ p.io.dataAvail)
    (hrs : ∀ r ∈ rs, p.io.data ≤ r.1 ∧ r.1 + r.2 ≤ p.io.data + align4 n)
    (hmem : Covers rs p.mem m) :
    Consumes p ⟨m, p.io.advance (align4 n) 0⟩ rs :=
  ⟨align4 n, p.io.flags, four_dvd_align4 n, hfits, rfl, hrs, hmem⟩

lemma bioPutUint32_consumes (p : Parcel) (n : UInt32) :
    Consumes p (bioPutUint32 p n) (bioPutUint32Stores p) := by
  unfold bioPutUint32Stores
  by_cases h : 4 ≤ p.io.dataAvail
  · rw [bioPutUint32_fits h, bioAlloc_fits (n := 4) (by simpa using h)]
    have halloc := consumes_alloc (n := 4) (by simpa using h) (by simp)
      (covers_store32 p.mem p.io.data n)
    simpa using halloc
  · rw [bioPutUint32_full (by omega), bioAlloc_full (n := 4) (by simp; omega)]
    exact consumes_overflow p

lemma putUnits_consumes (p : Parcel) {len : ℕ} {us : List UInt16} (hus : us.length = len) :
    Consumes p (putUnits p len us) (putUnitsStores p len us) := by
  unfold putUnits putUnitsStores
  split_ifs with hl
  · exact bioPutUint32_consumes p _
  · have hlt : len < 2^29 := Nat.lt_of_not_le hl
    have hw : wrap ((len + 1) * 2) = (len + 1) * 2 := wrap_of_lt (by omega)
    refine (bioPutUint32_consumes p (UInt32.ofNat len)).trans ?_
    set q := bioPutUint32 p (UInt32.ofNat len)
    dsimp only
    rw [hw]
    by_cases h : align4 ((len + 1) * 2) ≤ q.io.dataAvail
    · rw [bioAlloc_fits h]
      have halign : (len + 1) * 2 ≤ align4 ((len + 1) * 2) := by
        rw [align4_of_lt (by omega)]
        omega
      refine consumes_alloc h ?_ (covers_storeUnits q.mem q.io.data (us ++ [0]))
      simp only [List.mem_singleton, forall_eq, List.length_append, List.length_singleton, hus]
      omega
    · rw [bioAlloc_full (by omega)]
      exact consumes_overflow q

lemma fillObjStores_inside (obj : ℕ) :
    ∀ r ∈ fillObjStores obj, obj ≤ r.1 ∧ r.1 + r.2 ≤ obj + 16 := by
  simp only [fillObjStores, List.mem_cons, List.not_mem_nil, or_false]
  rintro r (rfl | rfl | rfl | rfl) <;> constructor <;> dsimp only <;> omega

lemma bioPutRef_null_consumes (p : Parcel) : Consumes p (bioPutRef p 0) (bioPutRefStores p 0) := by
  unfold bioPutRefStores
  by_cases h : 16 ≤ p.io.dataAvail
  · rw [bioPutRef_null_fits h, bioAlloc_fits (n := sizeofFlatBinderObject) (by simpa using h)]
    have halloc := consumes_alloc (n := sizeofFlatBinderObject) (by simpa using h)
      (by simpa using fillObjStores_inside p.io.data)
      (covers_fillObj p.mem p.io.data binderTypeHandle 0)
    simpa using halloc
  · have hfull : p.io.dataAvail < align4 sizeofFlatBinderObject := by
      rw [align4_object]
      omega
    simp only [bioPutRef, ne_eq, not_true_eq_false, if_false, bioAlloc_full hfull]
    exact consumes_overflow p

/-- An object that does not fit takes its bytes all the same if it is the table that is full. -/
lemma bioAllocObj_consumes (h : ¬ p.io.Room 16 1) :
    (bioAllocObj p).1 = none ∧ bioAllocObjStores p = [] ∧ Consumes p (bioAllocObj p).2 [] := by
  by_cases h16 : 16 ≤ p.io.dataAvail
  · have h0 : p.io.offsAvail = 0 := by
      by_contra hn
      exact h ⟨h16, by omega⟩
    have hfits : align4 sizeofFlatBinderObject ≤ p.io.dataAvail := by simpa using h16
    simp only [bioAllocObj, bioAllocObjStores, bioAlloc_fits hfits, h0, ne_eq, not_true_eq_false,
      if_false, true_and]
    refine ⟨16, p.io.flags ||| bioFOverflow, by decide, h16, ?_, by simp, covers_refl _⟩
    simp [BinderIo.overflow, BinderIo.advance, h0]
  · have hfull : p.io.dataAvail < align4 sizeofFlatBinderObject := by
      rw [align4_object]
      omega
    simp only [bioAllocObj, bioAllocObjStores, bioAlloc_full hfull, overflow_overflow]
    exact ⟨trivial, trivial, consumes_overflow p⟩

end Consumes

/-- An object recorded: its entry is stored in the table, and the object in the data. -/
structure Recorded (p p' : Parcel) (rs : List (ℕ × ℕ)) : Prop where
  room : p.io.Room 16 1
  io : p'.io = p.io.advance 16 1
  stores : rs = (p.io.offs, 4) :: fillObjStores p.io.data
  mem : ∃ t v, p'.mem =
    fillObj (store32 p.mem p.io.offs (UInt32.ofNat (p.io.data - p.io.data0))) p.io.data t v

section Recorded
variable {p p' : Parcel} {rs : List (ℕ × ℕ)}

lemma Recorded.covers (h : Recorded p p' rs) : Covers rs p.mem p'.mem := by
  obtain ⟨-, -, rfl, t, v, hmem⟩ := h
  rw [hmem]
  exact (covers_store32 p.mem p.io.offs _).trans (covers_fillObj _ p.io.data t v)

/-- The stores are one entry and inside of the object. -/
lemma Recorded.place (h : Recorded p p' rs) {r : ℕ × ℕ} (hr : r ∈ rs) :
    r = (p.io.offs, 4) ∨ (p.io.data ≤ r.1 ∧ r.1 + r.2 ≤ p.io.data + 16) := by
  rw [h.stores] at hr
  exact (List.mem_cons.mp hr).imp_right (fillObjStores_inside p.io.data r)

lemma Recorded.entry (h : Recorded p p' rs) (hle : p.io.offs + 4 ≤ p.io.data) :
    load32 p'.mem p.io.offs = UInt32.ofNat (p.io.data - p.io.data0) := by
  obtain ⟨-, -, -, t, v, hmem⟩ := h
  have hfill := fillObj_agree_off (store32 p.mem p.io.offs
    (UInt32.ofNat (p.io.data - p.io.data0))) p.io.data p.io.offs (p.io.offs + 4) t v (.inl hle)
  rw [hmem, hfill.load32_eq le_rfl le_rfl, load32_store32]

end Recorded

section Objects
variable {p : Parcel}

lemma bioPutObjStores_fits (h : p.io.Room 16 1) :
    bioPutObjStores p = (p.io.offs, 4) :: fillObjStores p.io.data := by
  have hn : p.io.offsAvail ≠ 0 := by
    have hone := h.2
    omega
  have hfits : align4 sizeofFlatBinderObject ≤ p.io.dataAvail := by simpa using h.1
  simp [bioPutObjStores, bioAllocObj_fits h, bioAllocObjStores, bioAlloc_fits hfits, hn]

lemma bioAllocObjOffset_fits (h : p.io.Room 16 1) :
    bioAllocObjOffset p = [p.io.data - p.io.data0] := by
  simp [bioAllocObjOffset, bioAllocObj_fits h]

/-- Without room the object is dropped by both calls that put one. -/
lemma bioAllocObj_dropped (h : ¬ p.io.Room 16 1) {f : Parcel → ℕ → Parcel} :
    bioAllocObjOffset p = [] ∧ Consumes p
      (match bioAllocObj p with
        | (none, p) => p
        | (some obj, p) => f p obj) (bioPutObjStores p) := by
  obtain ⟨hnone, hstores, hcons⟩ := bioAllocObj_consumes h
  have heq : bioAllocObj p = (none, (bioAllocObj p).2) := Prod.ext hnone rfl
  unfold bioAllocObjOffset bioPutObjStores
  rw [heq, hstores]
  exact ⟨rfl, hcons⟩

lemma bioPutObj_cases (p : Parcel) (ptr : UInt32) :
    (bioAllocObjOffset p = [] ∧ Consumes p (bioPutObj p ptr) (bioPutObjStores p)) ∨
      (bioAllocObjOffset p = [p.io.data - p.io.data0] ∧
        Recorded p (bioPutObj p ptr) (bioPutObjStores p)) := by
  by_cases h : p.io.Room 16 1
  · right
    refine ⟨bioAllocObjOffset_fits h, h, ?_, bioPutObjStores_fits h, binderTypeBinder, ptr, ?_⟩
    all_goals rw [bioPutObj_fits h]
  · exact .inl (bioAllocObj_dropped h)

lemma bioPutRef_cases (p : Parcel) {handle : UInt32} (hh : handle ≠ 0) :
    (bioAllocObjOffset p = [] ∧ Consumes p (bioPutRef p handle) (bioPutObjStores p)) ∨
      (bioAllocObjOffset p = [p.io.data - p.io.data0] ∧
        Recorded p (bioPutRef p handle) (bioPutObjStores p)) := by
  by_cases h : p.io.Room 16 1
  · right
    refine ⟨bioAllocObjOffset_fits h, h, ?_, bioPutObjStores_fits h, binderTypeHandle, handle, ?_⟩
    all_goals rw [bioPutRef_fits hh h]
  · left
    simp only [bioPutRef, ne_eq, hh, not_false_eq_true, if_true]
    exact bioAllocObj_dropped h

end Objects

/-- What a put can do. -/
theorem Put.run_cases (p : Parcel) (v : Put) :
    (v.offsets p = [] ∧ Consumes p (v.run p) (v.stores p)) ∨
      (v.offsets p = [p.io.data - p.io.data0] ∧ Recorded p (v.run p) (v.stores p)) := by
  cases v with
  | uint32 n => exact .inl ⟨rfl, bioPutUint32_consumes p n⟩
  | string16 str =>
    cases str with
    | none => exact .inl ⟨rfl, bioPutUint32_consumes p _⟩
    | some str => exact .inl ⟨rfl, putUnits_consumes p (strlen_take str).2⟩
  | string16X str =>
    cases str with
    | none => exact .inl ⟨rfl, bioPutUint32_consumes p _⟩
    | some str =>
      exact .inl ⟨rfl, putUnits_consumes p ((List.length_map _).trans (strlen_take str).2)⟩
  | ref handle =>
    by_cases hh : handle = 0
    · subst hh
      exact .inl ⟨by simp [Put.offsets], bioPutRef_null_consumes p⟩
    · have hcases := bioPutRef_cases p hh
      simpa [Put.offsets, Put.run, Put.stores, bioPutRefStores, hh] using hcases
  | obj ptr => exact bioPutObj_cases p ptr

/-- The table of a writer whose buffer begins at `base`, after puts that have recorded objects at
these offsets and made these stores. -/
structure Built (base maxdata maxoffs : ℕ) (m₀ : Mem) (p : Parcel) (offsets : List ℕ)
    (stores : List (ℕ × ℕ)) : Prop where
  offs0 : p.io.offs0 = base
  data0 : p.io.data0 = base + 4 * maxoffs
  offs : p.io.offs = base + 4 * offsets.length
  offsAvail : offsets.length + p.io.offsAvail = maxoffs
  data : p.io.data0 ≤ p.io.data
  dataAvail : p.io.data + p.io.dataAvail = base + maxdata
  aligned : 4 ∣ p.io.data - p.io.data0
  entries : words p.mem base offsets.length = offsets.map UInt32.ofNat
  multiples : ∀ o ∈ offsets, 4 ∣ o
  apart : offsets.Pairwise fun a b => a + sizeofFlatBinderObject ≤ b
  last : ∀ o ∈ offsets, o + sizeofFlatBinderObject ≤ p.io.data - p.io.data0
  stored : ∀ r ∈ stores,
    (base ≤ r.1 ∧ r.1 + r.2 ≤ p.io.offs) ∨ (p.io.data0 ≤ r.1 ∧ r.1 + r.2 ≤ p.io.data)
  covered : Covers stores m₀ p.mem

section Step
variable {base maxdata maxoffs : ℕ} {m₀ : Mem} {p p' : Parcel} {offsets : List ℕ}
  {stores rs : List (ℕ × ℕ)}

lemma Built.consumes (h : Built base maxdata maxoffs m₀ p offsets stores) (hp : Consumes p p' rs) :
    Built base maxdata maxoffs m₀ p' offsets (stores ++ rs) := by
  obtain ⟨n, f, hdvd, hle, hio, hrs, hmem⟩ := hp
  have hdata0 := h.data0
  have hoffs := h.offs
  have hentries := h.offsAvail
  have hdata := h.data
  have hend := h.dataAvail
  have hsub : p.io.data + n - p.io.data0 = p.io.data - p.io.data0 + n := by omega
  -- the table lies below the data
  have htable : AgreeOn p'.mem p.mem base p.io.data :=
    hmem.agreeOn fun r hr => .inl (hrs r hr).1
  have hwords : words p'.mem base offsets.length = offsets.map UInt32.ofNat := by
    rw [htable.words_eq le_rfl (by omega)]
    exact h.entries
  refine ⟨?_, ?_, ?_, ?_, ?_, ?_, ?_, hwords, h.multiples, h.apart, ?_, ?_, h.covered.trans hmem⟩
  all_goals simp only [hio, BinderIo.advance, Nat.mul_zero, Nat.add_zero, Nat.sub_zero]
  · exact h.offs0
  · exact hdata0
  · exact hoffs
  · exact hentries
  · omega
  · omega
  · rw [hsub]
    exact dvd_add h.aligned hdvd
  · intro o ho
    have hlast := h.last o ho
    omega
  · intro r hr
    rcases List.mem_append.mp hr with hr | hr
    · have hin := h.stored r hr
      omega
    · have hin := hrs r hr
      omega

lemma Built.recorded (h : Built base maxdata maxoffs m₀ p offsets stores) (hp : Recorded p p' rs) :
    Built base maxdata maxoffs m₀ p' (offsets ++ [p.io.data - p.io.data0]) (stores ++ rs) := by
  have hio := hp.io
  obtain ⟨hroom, hone⟩ := hp.room
  have hdata0 := h.data0
  have hoffs := h.offs
  have hentries := h.offsAvail
  have hdata := h.data
  have hend := h.dataAvail
  have hsub : p.io.data + 16 - p.io.data0 = p.io.data - p.io.data0 + 16 := by omega
  have hobject : sizeofFlatBinderObject = 16 := rfl
  have hbelow : AgreeOn p'.mem p.mem base p.io.offs := by
    refine hp.covers.agreeOn fun r hr => ?_
    rcases hp.place hr with rfl | hin
    · exact .inl le_rfl
    · left
      omega
  have hmultiples : ∀ o ∈ offsets ++ [p.io.data - p.io.data0], 4 ∣ o := by
    intro o ho
    rcases List.mem_append.mp ho with ho | ho
    · exact h.multiples o ho
    · rw [List.mem_singleton.mp ho]
      exact h.aligned
  refine ⟨?_, ?_, ?_, ?_, ?_, ?_, ?_, ?_, hmultiples, ?_, ?_, ?_, h.covered.trans hp.covers⟩
  all_goals simp only [hio, BinderIo.advance, List.length_append, List.length_singleton, hobject]
  · exact h.offs0
  · exact hdata0
  · omega
  · omega
  · omega
  · omega
  · rw [hsub]
    exact dvd_add h.aligned (by decide)
  · rw [words_snoc, hbelow.words_eq le_rfl (by omega), ← hoffs, hp.entry (by omega), h.entries,
      List.map_append]
    rfl
  · rw [List.pairwise_append]
    refine ⟨h.apart, List.pairwise_singleton _ _, fun a ha b hb => ?_⟩
    rw [List.mem_singleton.mp hb]
    exact h.last a ha
  · intro o ho
    rcases List.mem_append.mp ho with ho | ho
    · have hlast := h.last o ho
      omega
    · rw [List.mem_singleton.mp ho]
      omega
  · intro r hr
    rcases List.mem_append.mp hr with hr | hr
    · have hin := h.stored r hr
      omega
    · rcases hp.place hr with rfl | hin
      · left
        dsimp only
        omega
      · omega

/-- A put, whether it fits or not. -/
theorem Built.put (h : Built base maxdata maxoffs m₀ p offsets stores) (v : Put) :
    Built base maxdata maxoffs m₀ (v.run p) (offsets ++ v.offsets p) (stores ++ v.stores p) := by
  rcases v.run_cases p with ⟨hoffsets, hp⟩ | ⟨hoffsets, hp⟩
  · rw [hoffsets, List.append_nil]
    exact h.consumes hp
  · rw [hoffsets]
    exact h.recorded hp

end Step

/-- What the driver requires of a table with objects at these offsets, and where the cursors
stand. -/
structure TableSound (maxdata maxoffs : ℕ) (p : Parcel) (offsets : List ℕ) : Prop where
  length : p.io.offs = p.io.offs0 + 4 * offsets.length
  entries : (words p.mem p.io.offs0 offsets.length).map UInt32.toNat = offsets
  increasing : offsets.Pairwise (· < ·)
  multiples : ∀ o ∈ offsets, 4 ∣ o
  apart : offsets.Pairwise fun a b => a + sizeofFlatBinderObject ≤ b
  last : ∀ o ∈ offsets.getLast?, o + sizeofFlatBinderObject ≤ p.io.data - p.io.data0
  offsAvail : offsets.length + p.io.offsAvail = maxoffs
  dataAvail : p.io.data - p.io.data0 + p.io.dataAvail = maxdata - maxoffs * sizeofSizeT

/-- The stores of a put go to the free part of the table or to the data that the put allocates,
and to no byte of an earlier store. -/
structure StoresFresh (base maxdata maxoffs : ℕ) (p : Parcel) (v : Put)
    (earlier : List (ℕ × ℕ)) : Prop where
  table : base ≤ p.io.offs
  data : base + maxoffs * sizeofSizeT ≤ p.io.data
  allocated : (v.run p).io.data ≤ base + maxdata
  place : ∀ r ∈ v.stores p, (p.io.offs ≤ r.1 ∧ r.1 + r.2 ≤ base + maxoffs * sizeofSizeT) ∨
    (p.io.data ≤ r.1 ∧ r.1 + r.2 ≤ (v.run p).io.data)
  fresh : ∀ r ∈ v.stores p, ∀ r' ∈ earlier, r.1 + r.2 ≤ r'.1 ∨ r'.1 + r'.2 ≤ r.1

section Run
variable {base maxdata maxoffs : ℕ} {m₀ : Mem} {p : Parcel} {offsets : List ℕ}
  {stores : List (ℕ × ℕ)}

lemma Built.tableSound (h : Built base maxdata maxoffs m₀ p offsets stores)
    (hsize : maxdata < 2^32) : TableSound maxdata maxoffs p offsets := by
  have hdata0 := h.data0
  have hdata := h.data
  have hend := h.dataAvail
  have hfour : maxoffs * sizeofSizeT = 4 * maxoffs := Nat.mul_comm _ _
  refine ⟨h.offs0 ▸ h.offs, ?_, h.apart.imp fun hab => ?_, h.multiples, h.apart, ?_, h.offsAvail,
    ?_⟩
  · rw [h.offs0, h.entries, List.map_map]
    conv_rhs => rw [← List.map_id offsets]
    apply List.map_congr_left
    intro o ho
    have hlast := h.last o ho
    have hlt : o < UInt32.size := by
      unfold UInt32.size
      omega
    exact UInt32.toNat_ofNat_of_lt hlt
  · have hobject : sizeofFlatBinderObject = 16 := rfl
    omega
  · exact fun o ho => h.last o (List.mem_of_mem_getLast? ho)
  · omega

lemma Built.storesFresh (h : Built base maxdata maxoffs m₀ p offsets stores) (v : Put) :
    StoresFresh base maxdata maxoffs p v stores := by
  have hdata0 := h.data0
  have hoffs := h.offs
  have hentries := h.offsAvail
  have hdata := h.data
  have hend := h.dataAvail
  have hfour : maxoffs * sizeofSizeT = 4 * maxoffs := Nat.mul_comm _ _
  have hnext := (h.put v).dataAvail
  have hplace : ∀ r ∈ v.stores p, (p.io.offs ≤ r.1 ∧ r.1 + r.2 ≤ base + maxoffs * sizeofSizeT) ∨
      (p.io.data ≤ r.1 ∧ r.1 + r.2 ≤ (v.run p).io.data) := by
    intro r hr
    rcases v.run_cases p with ⟨-, n, f, -, hle, hio, hrs, -⟩ | ⟨-, hp⟩
    · right
      rw [hio]
      exact hrs r hr
    · have hone := hp.room.2
      rw [hp.io]
      rcases hp.place hr with rfl | hin
      · left
        dsimp only
        omega
      · exact .inr hin
  refine ⟨by omega, by omega, by omega, hplace, fun r hr r' hr' => ?_⟩
  have hnew := hplace r hr
  have hold := h.stored r' hr'
  omega

lemma built_init (p : Parcel) {base maxdata maxoffs : ℕ} (hsize : maxdata < 2^32)
    (hfit : maxoffs * sizeofSizeT ≤ maxdata) :
    Built base maxdata maxoffs p.mem (bioInit p base maxdata maxoffs) [] [] := by
  have hfour : sizeofSizeT = 4 := rfl
  rw [hfour] at hfit
  rw [bioInit_fits p base maxdata maxoffs (by omega) hfit]
  refine ⟨rfl, by dsimp only; omega, rfl, by simp, le_rfl, by dsimp only; omega, by simp, rfl, ?_,
    ?_, ?_, ?_, covers_refl _⟩
  all_goals simp

theorem run_built (p : Parcel) {base maxdata maxoffs : ℕ} (hsize : maxdata < 2^32)
    (hfit : maxoffs * sizeofSizeT ≤ maxdata) (vs : List Put) :
    let start := bioInit p base maxdata maxoffs
    Built base maxdata maxoffs p.mem (writer.run start vs)
      ((writer.history start vs).flatMap Noted.offsets)
      ((writer.history start vs).flatMap Noted.stores) := by
  intro start
  refine writer.run_history (R := fun q notes => Built base maxdata maxoffs p.mem q
    (notes.flatMap Noted.offsets) (notes.flatMap Noted.stores)) (fun q notes v hq => ?_)
    (h := []) (built_init p hsize hfit) vs
  rw [List.flatMap_append, List.flatMap_append]
  simpa [writer] using hq.put v

/-- After any puts, overflowing or not, the table has exactly the offsets of the objects that were
put into it; no put has stored outside of the buffer or over an earlier one, and what lies
outside the stores is as it was. -/
theorem offset_table_sound (p : Parcel) (base maxdata maxoffs : ℕ) (hsize : maxdata < 2^32)
    (hfit : maxoffs * sizeofSizeT ≤ maxdata) (vs : List Put) :
    let start := bioInit p base maxdata maxoffs
    TableSound maxdata maxoffs (writer.run start vs)
        ((writer.history start vs).flatMap Noted.offsets) ∧
      (∀ pre v, pre ++ [v] <+: vs → StoresFresh base maxdata maxoffs (writer.run start pre) v
        ((writer.history start pre).flatMap Noted.stores)) ∧
      Covers ((writer.history start vs).flatMap Noted.stores) p.mem (writer.run start vs).mem := by
  intro start
  have hbuilt : Built base maxdata maxoffs p.mem (writer.run start vs) _ _ :=
    run_built p hsize hfit vs
  refine ⟨hbuilt.tableSound hsize, fun pre v _ => ?_, hbuilt.covered⟩
  exact (run_built p hsize hfit pre).storesFresh v

/-- Two objects, with room for both in the data but only for one in the table. -/
def crowded : List Put := [.ref 7, .uint32 1, .obj 9, .string16 (some [97])]

def crowdedStart : Parcel := bioInit ⟨fun _ => 0, ⟨0, 0, 0, 0, 0, 0, 0⟩⟩ 0x1000 64 1

theorem offset_table_sound_crowded :
    64 < 2^32 ∧ 1 * sizeofSizeT ≤ 64 ∧
      (writer.history crowdedStart crowded).flatMap Noted.offsets = [0] ∧
      TableSound 64 1 (writer.run crowdedStart crowded) [0] := by
  have hoffsets : (writer.history crowdedStart crowded).flatMap Noted.offsets = [0] := by decide
  have hsound := (offset_table_sound ⟨fun _ => 0, ⟨0, 0, 0, 0, 0, 0, 0⟩⟩ 0x1000 64 1 (by decide)
    (by decide) crowded).1
  refine ⟨by decide, by decide, hoffsets, ?_⟩
  rw [← hoffsets]
  exact hsound

end Run

end LinuxLabs.Binder
