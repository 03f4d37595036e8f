import LinuxLabs.EventRun
import LinuxLabs.BinderIoWidth

/-! The offset table at every width. `bio_init` reserves `sizeof(size_t)` for an entry and the
reader counts entries of that size, but the entries are `binder_size_t` values. -/
namespace LinuxLabs.Binder
open ByteMemory EventRun

/-- The entries of the offset table that a value takes. -/
def WidePut.objs : WidePut → ℕ
  | .ref handle => if handle = 0 then 0 else 1
  | .obj _ => 1
  | _ => 0

/-- The data offset of a reference that is not null, and its handle. -/
def WidePut.refs (p : Parcel) : WidePut → List (ℕ × UInt32)
  | .ref handle => if handle = 0 then [] else [(p.io.data - p.io.data0, handle)]
  | _ => []

namespace Width
variable (w : Width)

def writer : Machine Parcel WidePut (ℕ × UInt32) := ⟨w.put, fun p v => v.refs p⟩

def reader : Machine Parcel Getter Got := ⟨fun p g => (w.get p g).2, fun p g => [(w.get p g).1]⟩

lemma align4_object : w.align4 w.sizeofFlatBinderObject = w.sizeofFlatBinderObject := by
  obtain ⟨s, i, rfl | rfl, rfl | rfl⟩ := w <;> decide

lemma align4_word : w.align4 4 = 4 := by
  obtain ⟨s, i, rfl | rfl, rfl | rfl⟩ := w <;> decide

lemma dvd_align4 (n : ℕ) : 4 ∣ w.align4 n := by
  have hmask : (2^(8 * w.sizeT) - 4) % 2^2 = 0 := by
    rcases w.sizeT_eq with h | h <;> rw [h] <;> decide
  apply Nat.dvd_of_mod_eq_zero
  show (_ &&& _) % 2^2 = 0
  rw [Nat.and_mod_two_pow, hmask, Nat.and_zero]

lemma dvd_object : 4 ∣ w.sizeofFlatBinderObject := by
  rw [← align4_object]
  exact w.dvd_align4 _

variable {w}

section Writing
variable {p : Parcel}

lemma bioAlloc_cases (bio : BinderIo) (n : ℕ) :
    w.bioAlloc bio n = (none, bio.overflow) ∨
      (w.align4 n ≤ bio.dataAvail ∧
        w.bioAlloc bio n = (some bio.data, bio.advance (w.align4 n) 0)) := by
  by_cases h : bio.dataAvail < w.align4 n
  · exact .inl (by simp [bioAlloc, h])
  · exact .inr ⟨Nat.le_of_not_lt h, by simp [bioAlloc, h, BinderIo.advance]⟩

/-- A call that takes some bytes of the data, stores from the cursor on only, and records
nothing. -/
structure Filled (p p' : Parcel) (size : ℕ) : Prop where
  aligned : 4 ∣ size
  room : size ≤ p.io.dataAvail
  io : p'.io = p.io.advance size 0
  mem : AgreeOn p'.mem p.mem 0 p.io.data

lemma Filled.trans {p' p'' : Parcel} {n k : ℕ} (h : Filled p p' n) (h' : Filled p' p'' k) :
    Filled p p'' (n + k) := by
  have hroom := h'.room
  have hmem := h'.mem
  have hfirst := h.room
  rw [h.io] at hroom hmem
  simp only [BinderIo.advance] at hroom hmem
  refine ⟨dvd_add h.aligned h'.aligned, by omega, ?_, (hmem.mono le_rfl (by omega)).trans h.mem⟩
  rw [h'.io, h.io, advance_advance]

lemma bioPutUint32_cases (p : Parcel) (n : UInt32) :
    (w.bioPutUint32 p n).io.Overflowed ∨ Filled p (w.bioPutUint32 p n) (w.align4 4) := by
  unfold bioPutUint32
  rcases bioAlloc_cases (w := w) p.io 4 with h | ⟨hle, h⟩
  · left
    rw [h]
    exact overflow_overflowed _
  · right
    rw [h]
    exact ⟨w.dvd_align4 4, hle, rfl, store32_agree_below p.mem p.io.data 0 p.io.data n le_rfl⟩

lemma putUnits_cases (p : Parcel) (len : ℕ) (us : List UInt16) :
    (w.putUnits p len us).io.Overflowed ∨ ∃ size, Filled p (w.putUnits p len us) size := by
  unfold putUnits
  split_ifs with hl
  · exact (bioPutUint32_cases p _).imp_right fun h => ⟨_, h⟩
  · dsimp only
    set q := w.bioPutUint32 p (UInt32.ofNat len) with hq
    have hword := bioPutUint32_cases (w := w) p (UInt32.ofNat len)
    rw [← hq] at hword
    rcases bioAlloc_cases (w := w) q.io (w.wrap ((len + 1) * 2)) with h | ⟨hle, h⟩
    · left
      rw [h]
      exact overflow_overflowed _
    · rw [h]
      refine hword.imp (fun hover => ?_) fun hfilled =>
        ⟨_, hfilled.trans ⟨w.dvd_align4 _, hle, rfl, ?_⟩⟩
      · exact (advance_overflowed _ _ _).mpr hover
      · exact storeUnits_agree_below q.mem q.io.data 0 q.io.data _ le_rfl

lemma fillObj_agree_below (m : Mem) (obj : ℕ) (t : UInt32) (value : List UInt8) :
    AgreeOn (w.fillObj m obj t value) m 0 obj := by
  have hflags := store32_agree_below m (obj + 4) 0 obj (0x7f ||| flatBinderFlagAcceptsFds)
    (by omega)
  have htype := store32_agree_below (store32 m (obj + 4) (0x7f ||| flatBinderFlagAcceptsFds)) obj 0
    obj t le_rfl
  refine AgreeOn.trans ?_ (htype.trans hflags)
  exact (write_agree_below _ _ 0 obj _ (by omega)).trans (write_agree_below _ _ 0 obj _ (by omega))

lemma load_fillObj (m : Mem) (obj : ℕ) (t handle : UInt32) :
    load32 (w.fillObj m obj t (bytes32 handle)) obj = t ∧
      load32 (w.fillObj m obj t (bytes32 handle)) (obj + 8) = handle := by
  have hipc : 4 ≤ w.ipc := by
    rcases w.ipc_eq with h | h <;> omega
  constructor
  · have hcookie := write_agree_below (store32 (store32 (store32 m (obj + 4)
      (0x7f ||| flatBinderFlagAcceptsFds)) obj t) (obj + 8) handle) (obj + 8 + w.ipc) obj (obj + 4)
      (bytesLE w.ipc 0) (by omega)
    exact (hcookie.load32_eq le_rfl le_rfl).trans
      ((load32_store32_of_disjoint _ _ _ _ (by omega)).trans (load32_store32 _ _ _))
  · have hcookie := write_agree_below (store32 (store32 (store32 m (obj + 4)
      (0x7f ||| flatBinderFlagAcceptsFds)) obj t) (obj + 8) handle) (obj + 8 + w.ipc) (obj + 8)
      (obj + 12) (bytesLE w.ipc 0) (by omega)
    exact (hcookie.load32_eq le_rfl le_rfl).trans (load32_store32 _ _ _)

/-- A call that records an object: its entry goes into the table, the object into the data. -/
structure Entered (w : Width) (p p' : Parcel) (v : WidePut) : Prop where
  room : w.sizeofFlatBinderObject ≤ p.io.dataAvail
  free : 1 ≤ p.io.offsAvail
  io : p'.io = { p.io with
    data := p.io.data + w.sizeofFlatBinderObject
    dataAvail := p.io.dataAvail - w.sizeofFlatBinderObject
    offs := p.io.offs + w.ipc
    offsAvail := p.io.offsAvail - 1 }
  mem : ∃ t value, p'.mem = w.fillObj
      (write p.mem p.io.offs (bytesLE w.ipc (p.io.data - p.io.data0))) p.io.data t value ∧
    ∀ handle, v = .ref handle → t = binderTypeHandle ∧ value = bytes32 handle

lemma bioAllocObj_cases (p : Parcel) :
    (∃ q : Parcel, w.bioAllocObj p = (none, q) ∧ q.io.Overflowed) ∨
      (w.sizeofFlatBinderObject ≤ p.io.dataAvail ∧ 1 ≤ p.io.offsAvail ∧
        w.bioAllocObj p = (some p.io.data,
          ⟨write p.mem p.io.offs (bytesLE w.ipc (p.io.data - p.io.data0)), { p.io with
            data := p.io.data + w.sizeofFlatBinderObject
            dataAvail := p.io.dataAvail - w.sizeofFlatBinderObject
            offs := p.io.offs + w.ipc
            offsAvail := p.io.offsAvail - 1 }⟩)) := by
  unfold bioAllocObj
  rcases bioAlloc_cases (w := w) p.io w.sizeofFlatBinderObject with h | ⟨hle, h⟩
  · rw [h]
    exact .inl ⟨_, rfl, overflow_overflowed _⟩
  · rw [align4_object] at hle
    rw [h, align4_object]
    by_cases h0 : p.io.offsAvail = 0
    · left
      refine ⟨⟨p.mem, (p.io.advance w.sizeofFlatBinderObject 0).overflow⟩, ?_,
        overflow_overflowed _⟩
      simp [BinderIo.advance, h0]
    · right
      refine ⟨hle, Nat.one_le_iff_ne_zero.mpr h0, ?_⟩
      simp [BinderIo.advance, h0]

/-- The object that a put fills in after it has been recorded. -/
lemma filledObj_cases (p : Parcel) {v : WidePut} {t : UInt32} {value : List UInt8}
    (hv : ∀ handle, v = .ref handle → t = binderTypeHandle ∧ value = bytes32 handle) :
    let p' := match w.bioAllocObj p with
      | (none, q) => q
      | (some obj, q) => { q with mem := w.fillObj q.mem obj t value }
    p'.io.Overflowed ∨ Entered w p p' v := by
  intro p'
  rcases bioAllocObj_cases (w := w) p with ⟨q, h, hover⟩ | ⟨hroom, hfree, h⟩
  · left
    simp only [p', h]
    exact hover
  · right
    simp only [p', h]
    exact ⟨hroom, hfree, rfl, t, value, rfl, hv⟩

/-- What a put can do. -/
theorem put_cases (p : Parcel) (v : WidePut) :
    (w.put p v).io.Overflowed ∨
      (v.objs = 0 ∧ v.refs p = [] ∧ ∃ size, Filled p (w.put p v) size) ∨
      (v.objs = 1 ∧ Entered w p (w.put p v) v) := by
  cases v with
  | uint32 n => exact (bioPutUint32_cases p n).imp_right fun h => .inl ⟨rfl, rfl, _, h⟩
  | string16 str =>
    cases str with
    | none => exact (bioPutUint32_cases p _).imp_right fun h => .inl ⟨rfl, rfl, _, h⟩
    | some str => exact (putUnits_cases p _ _).imp_right fun h => .inl ⟨rfl, rfl, h⟩
  | string16X str =>
    cases str with
    | none => exact (bioPutUint32_cases p _).imp_right fun h => .inl ⟨rfl, rfl, _, h⟩
    | some str => exact (putUnits_cases p _ _).imp_right fun h => .inl ⟨rfl, rfl, h⟩
  | ref handle =>
    by_cases hh : handle = 0
    · subst hh
      simp only [put, bioPutRef, ne_eq, not_true_eq_false, if_false]
      rcases bioAlloc_cases (w := w) p.io w.sizeofFlatBinderObject with h | ⟨hle, h⟩
      · left
        rw [h]
        exact overflow_overflowed _
      · right
        left
        rw [h]
        refine ⟨by simp [WidePut.objs], by simp [WidePut.refs], _, w.dvd_align4 _, hle, rfl, ?_⟩
        exact fillObj_agree_below p.mem p.io.data binderTypeHandle (bytes32 0)
    · simp only [put, bioPutRef, ne_eq, hh, not_false_eq_true, if_true]
      refine (filledObj_cases p ?_).imp_right fun h => .inr ⟨by simp [WidePut.objs, hh], h⟩
      rintro _ ⟨⟩
      exact ⟨rfl, rfl⟩
  | obj ptr =>
    refine (filledObj_cases p ?_).imp_right fun h => .inr ⟨rfl, h⟩
    rintro _ ⟨⟩

end Writing

/-- The parcel after puts that fit: `k` entries in the table and these references. As long as the
table ends below the data, the references are all there. -/
structure Laid (w : Width) (base n maxdata maxoffs : ℕ) (p : Parcel) (k : ℕ)
    (refs : List (ℕ × UInt32)) : Prop where
  offs0 : p.io.offs0 = base
  data0 : p.io.data0 = base + n
  offs : p.io.offs = base + w.ipc * k
  offsAvail : k + p.io.offsAvail = maxoffs
  data : p.io.data0 ≤ p.io.data
  aligned : 4 ∣ p.io.data - p.io.data0
  dataAvail : p.io.data + p.io.dataAvail = base + maxdata
  counted : refs.length ≤ k
  inside : ∀ ref ∈ refs, 4 ∣ ref.1 ∧ p.io.data0 + ref.1 + w.sizeofFlatBinderObject ≤ p.io.data
  held : w.ipc * k ≤ n → ∀ ref ∈ refs,
      (∃ j < k, loadLE p.mem (base + w.ipc * j) w.ipc = ref.1 % 256^w.ipc) ∧
      load32 p.mem (p.io.data0 + ref.1) = binderTypeHandle ∧
      load32 p.mem (p.io.data0 + ref.1 + 8) = ref.2

section Laid
variable {base n maxdata maxoffs k : ℕ} {p p' : Parcel} {refs : List (ℕ × UInt32)} {v : WidePut}

lemma object_le (w : Width) : 16 ≤ w.sizeofFlatBinderObject := by
  unfold sizeofFlatBinderObject
  rcases w.ipc_eq with h | h <;> omega

/-- The entry below the `k`-th lies below the cursor of the table. -/
lemma entry_le {j : ℕ} (hj : j < k) : w.ipc * j + w.ipc ≤ w.ipc * k := by
  have hmul := Nat.mul_le_mul_left w.ipc hj
  rwa [Nat.mul_succ] at hmul

lemma Laid.filled (h : Laid w base n maxdata maxoffs p k refs) {size : ℕ}
    (hp : Filled p p' size) : Laid w base n maxdata maxoffs p' k refs := by
  have hroom := hp.room
  have hend := h.dataAvail
  have hdata := h.data
  have hdata0 := h.data0
  have hobject := w.object_le
  have hmoved : p.io.data + size - p.io.data0 = p.io.data - p.io.data0 + size := by omega
  refine ⟨?_, ?_, ?_, ?_, ?_, ?_, ?_, h.counted, fun ref href => ?_, fun hfit ref href => ?_⟩
  all_goals simp only [hp.io, BinderIo.advance, Nat.mul_zero, Nat.add_zero, Nat.sub_zero]
  · exact h.offs0
  · exact h.data0
  · exact h.offs
  · exact h.offsAvail
  · omega
  · rw [hmoved]
    exact dvd_add h.aligned hp.aligned
  · omega
  · have hin := h.inside ref href
    exact ⟨hin.1, by omega⟩
  · have hin := h.inside ref href
    obtain ⟨⟨j, hj, hentry⟩, htype, hhandle⟩ := h.held hfit ref href
    have hle := entry_le (w := w) hj
    refine ⟨⟨j, hj, ?_⟩, ?_, ?_⟩
    · rw [hp.mem.loadLE_eq (Nat.zero_le _) (by omega), hentry]
    · rw [hp.mem.load32_eq (Nat.zero_le _) (by omega), htype]
    · rw [hp.mem.load32_eq (Nat.zero_le _) (by omega), hhandle]

/-- An entry is stored from the cursor of the table on, its object from that of the data on. -/
lemma Entered.agree (hp : Entered w p p' v) (hle : p.io.offs ≤ p.io.data) :
    AgreeOn p'.mem p.mem 0 p.io.offs := by
  obtain ⟨-, -, -, t, value, hmem, -⟩ := hp
  rw [hmem]
  exact ((fillObj_agree_below _ p.io.data t value).mono le_rfl hle).trans
    (write_agree_below _ _ _ _ _ le_rfl)

lemma Entered.agree_data (hp : Entered w p p' v) (hle : p.io.offs + w.ipc ≤ p.io.data0) :
    AgreeOn p'.mem p.mem p.io.data0 p.io.data := by
  obtain ⟨-, -, -, t, value, hmem, -⟩ := hp
  have hlen : (bytesLE w.ipc (p.io.data - p.io.data0)).length = w.ipc := bytesLE_length _ _
  rw [hmem]
  exact ((fillObj_agree_below _ p.io.data t value).mono (Nat.zero_le _) le_rfl).trans
    (write_agree_above _ _ _ _ _ (by omega))

/-- What a reference has stored: its entry, its type and its handle. -/
lemma Entered.stored {handle : UInt32} (hp : Entered w p p' (.ref handle))
    (hle : p.io.offs + w.ipc ≤ p.io.data) :
    loadLE p'.mem p.io.offs w.ipc = (p.io.data - p.io.data0) % 256^w.ipc ∧
      load32 p'.mem p.io.data = binderTypeHandle ∧ load32 p'.mem (p.io.data + 8) = handle := by
  obtain ⟨-, -, -, t, value, hmem, hvalue⟩ := hp
  obtain ⟨rfl, rfl⟩ := hvalue handle rfl
  rw [hmem]
  refine ⟨?_, load_fillObj _ _ _ _⟩
  rw [(fillObj_agree_below _ p.io.data binderTypeHandle _).loadLE_eq (Nat.zero_le _) hle,
    loadLE_write]

lemma refs_length_le (v : WidePut) (p : Parcel) : (v.refs p).length ≤ 1 := by
  cases v with
  | ref handle =>
    simp only [WidePut.refs]
    split_ifs <;> simp
  | _ => exact Nat.zero_le 1

lemma mem_refs {v : WidePut} {ref : ℕ × UInt32} (h : ref ∈ v.refs p) :
    ∃ handle, v = .ref handle ∧ ref = (p.io.data - p.io.data0, handle) := by
  cases v with
  | ref handle =>
    refine ⟨handle, rfl, ?_⟩
    simp only [WidePut.refs] at h
    split_ifs at h
    · simp at h
    · simpa using h
  | _ => simp [WidePut.refs] at h

lemma Laid.entered (h : Laid w base n maxdata maxoffs p k refs) (hp : Entered w p p' v) :
    Laid w base n maxdata maxoffs p' (k + 1) (refs ++ v.refs p) := by
  have hio := hp.io
  have hroom := hp.room
  have hfree := hp.free
  have hend := h.dataAvail
  have hdata := h.data
  have hdata0 := h.data0
  have hoffs := h.offs
  have havail := h.offsAvail
  have hobject := w.object_le
  have hsucc : w.ipc * (k + 1) = w.ipc * k + w.ipc := Nat.mul_succ _ _
  have hcursor : p.io.data0 + (p.io.data - p.io.data0) = p.io.data := by omega
  have hmoved : p.io.data + w.sizeofFlatBinderObject - p.io.data0
      = p.io.data - p.io.data0 + w.sizeofFlatBinderObject := by omega
  have hcounted : (refs ++ v.refs p).length ≤ k + 1 := by
    rw [List.length_append]
    exact Nat.add_le_add h.counted (refs_length_le v p)
  refine ⟨?_, ?_, ?_, ?_, ?_, ?_, ?_, hcounted, fun ref href => ?_, fun hfit ref href => ?_⟩
  all_goals simp only [hio]
  · exact h.offs0
  · exact h.data0
  · omega
  · omega
  · omega
  · rw [hmoved]
    exact dvd_add h.aligned w.dvd_object
  · omega
  · rcases List.mem_append.mp href with href | href
    · have hin := h.inside ref href
      exact ⟨hin.1, by omega⟩
    · obtain ⟨handle, -, rfl⟩ := mem_refs href
      exact ⟨h.aligned, by dsimp only; omega⟩
  -- below the data only the new entry has been stored
  · have hkept := hp.agree (by omega)
    have hkept' := hp.agree_data (by omega)
    rcases List.mem_append.mp href with href | href
    · have hin := h.inside ref href
      obtain ⟨⟨j, hj, hentry⟩, htype, hhandle⟩ := h.held (by omega) ref href
      have hle := entry_le (w := w) hj
      refine ⟨⟨j, by omega, ?_⟩, ?_, ?_⟩
      · rw [hkept.loadLE_eq (Nat.zero_le _) (by omega), hentry]
      · rw [hkept'.load32_eq (by omega) (by omega), htype]
      · rw [hkept'.load32_eq (by omega) (by omega), hhandle]
    · obtain ⟨handle, rfl, rfl⟩ := mem_refs href
      obtain ⟨hentry, hloads⟩ := hp.stored (by omega)
      simp only [hcursor]
      exact ⟨⟨k, Nat.lt_succ_self k, hoffs ▸ hentry⟩, hloads⟩

end Laid

section Run
variable {p : Parcel} {base maxdata maxoffs : ℕ} {vs : List WidePut}

/-- The entries that puts take. -/
def entries (vs : List WidePut) : ℕ := (vs.map WidePut.objs).sum

lemma entries_append (vs vs' : List WidePut) : entries (vs ++ vs') = entries vs + entries vs' := by
  simp [entries]

lemma entries_snoc (vs : List WidePut) (v : WidePut) :
    entries (vs ++ [v]) = entries vs + v.objs := by
  simp [entries]

lemma put_clear {v : WidePut} (h : ¬ (w.put p v).io.Overflowed) : ¬ p.io.Overflowed := by
  rcases put_cases (w := w) p v with hover | ⟨-, -, size, hp⟩ | ⟨-, hp⟩
  · exact absurd hover h
  · rwa [hp.io, advance_overflowed] at h
  · rw [hp.io] at h
    exact h

lemma run_clear {pre post : List WidePut} (h : ¬ (w.writer.run p (pre ++ post)).io.Overflowed) :
    ¬ (w.writer.run p pre).io.Overflowed := by
  intro hover
  rw [w.writer.run_append] at h
  refine h (w.writer.run_invariant (P := fun q => q.io.Overflowed) (fun q v hq => ?_) hover post)
  by_contra hclear
  exact put_clear hclear hq

lemma laid_init (h : ¬ (w.bioInit p base maxdata maxoffs).io.Overflowed) :
    Laid w base (w.wrap (maxoffs * w.sizeT)) maxdata maxoffs (w.bioInit p base maxdata maxoffs)
      0 [] := by
  by_cases hfull : maxdata < w.wrap (maxoffs * w.sizeT)
  · refine absurd ?_ h
    simp only [bioInit, hfull, if_true, BinderIo.Overflowed]
    decide
  · simp only [bioInit, hfull, if_false]
    refine ⟨rfl, rfl, rfl, Nat.zero_add _, le_rfl, ?_, ?_, le_rfl, ?_, ?_⟩
    · simp
    · dsimp only
      omega
    · simp
    · simp

/-- Puts that do not overflow. -/
theorem run_laid (h : ¬ (w.writer.run (w.bioInit p base maxdata maxoffs) vs).io.Overflowed) :
    Laid w base (w.wrap (maxoffs * w.sizeT)) maxdata maxoffs
      (w.writer.run (w.bioInit p base maxdata maxoffs) vs) (entries vs)
      (w.writer.history (w.bioInit p base maxdata maxoffs) vs) := by
  induction vs using List.reverseRecOn with
  | nil => exact laid_init h
  | append_singleton vs v ih =>
    have hlaid := ih (run_clear h)
    rw [w.writer.run_append] at h
    rw [w.writer.run_append, w.writer.history_append, entries_snoc]
    set q := w.writer.run (w.bioInit p base maxdata maxoffs) vs
    have hone : w.writer.history q [v] = v.refs q := List.append_nil _
    rw [hone]
    rcases put_cases (w := w) q v with hover | ⟨hobjs, hrefs, size, hp⟩ | ⟨hobjs, hp⟩
    · exact absurd hover h
    · rw [hobjs, hrefs, List.append_nil]
      exact hlaid.filled hp
    · rw [hobjs]
      exact hlaid.entered hp

/-- As long as the table ends below the data, a put leaves the data in front of it alone. -/
lemma Laid.put_agree {n k : ℕ} {refs : List (ℕ × UInt32)} {v : WidePut}
    (h : Laid w base n maxdata maxoffs p k refs) (hclear : ¬ (w.put p v).io.Overflowed)
    (hfit : w.ipc * (k + v.objs) ≤ n) :
    AgreeOn (w.put p v).mem p.mem p.io.data0 p.io.data := by
  have hoffs := h.offs
  have hdata0 := h.data0
  rcases put_cases (w := w) p v with hover | ⟨-, -, size, hp⟩ | ⟨hobjs, hp⟩
  · exact absurd hover hclear
  · exact hp.mem.mono (Nat.zero_le _) le_rfl
  · rw [hobjs, Nat.mul_succ] at hfit
    exact hp.agree_data (by omega)

end Run

section Reading

/-- What a getter leaves: the memory and the table, and the end of the data unless it
overflows. -/
structure Passed (p p' : Parcel) : Prop where
  mem : p'.mem = p.mem
  data0 : p'.io.data0 = p.io.data0
  offs : p'.io.offs = p.io.offs
  offsAvail : p'.io.offsAvail = p.io.offsAvail
  clear : ¬ p'.io.Overflowed →
    ¬ p.io.Overflowed ∧ p'.io.data + p'.io.dataAvail = p.io.data + p.io.dataAvail

variable {p p' p'' : Parcel}

lemma Passed.trans (h : Passed p p') (h' : Passed p' p'') : Passed p p'' := by
  refine ⟨h'.mem.trans h.mem, h'.data0.trans h.data0, h'.offs.trans h.offs,
    h'.offsAvail.trans h.offsAvail, fun hclear => ?_⟩
  obtain ⟨hclear', hend'⟩ := h'.clear hclear
  obtain ⟨hclear, hend⟩ := h.clear hclear'
  exact ⟨hclear, hend'.trans hend⟩

lemma passed_refl (p : Parcel) : Passed p p := ⟨rfl, rfl, rfl, rfl, fun h => ⟨h, rfl⟩⟩

lemma bioGet_cases (bio : BinderIo) (n : ℕ) :
    w.bioGet bio n = (none, { bio.overflow with dataAvail := 0 }) ∨
      (w.align4 n ≤ bio.dataAvail ∧
        w.bioGet bio n = (some bio.data, bio.advance (w.align4 n) 0)) := by
  by_cases h : bio.dataAvail < w.align4 n
  · exact .inl (by simp [bioGet, h])
  · exact .inr ⟨Nat.le_of_not_lt h, by simp [bioGet, h, BinderIo.advance]⟩

lemma passed_overflow (p : Parcel) : Passed p ⟨p.mem, { p.io.overflow with dataAvail := 0 }⟩ :=
  ⟨rfl, rfl, rfl, rfl, fun h => absurd (overflow_overflowed p.io) h⟩

lemma passed_bioGet (p : Parcel) (n : ℕ) : Passed p ⟨p.mem, (w.bioGet p.io n).2⟩ := by
  rcases bioGet_cases (w := w) p.io n with h | ⟨hle, h⟩
  · rw [h]
    exact passed_overflow p
  · rw [h]
    refine ⟨rfl, rfl, rfl, rfl, fun hclear => ⟨?_, ?_⟩⟩
    · rwa [advance_overflowed] at hclear
    · simp only [BinderIo.advance]
      omega

lemma passed_uint32 (p : Parcel) : Passed p (w.bioGetUint32 p).2 := by
  have h : (w.bioGetUint32 p).2 = ⟨p.mem, (w.bioGet p.io 4).2⟩ := by
    unfold bioGetUint32
    split <;> rename_i heq <;> rw [heq]
  rw [h]
  exact passed_bioGet p 4

lemma passed_ref (p : Parcel) : Passed p (w.bioGetRef p).2 := by
  have hobj : Passed p (w.bioGetObj p).2 := by
    unfold bioGetObj
    dsimp only
    split_ifs
    · exact passed_bioGet p _
    · exact passed_overflow p
  have h : (w.bioGetRef p).2 = (w.bioGetObj p).2 := by
    unfold bioGetRef
    split
    · rename_i heq
      rw [heq]
    · rename_i heq
      rw [heq]
      split_ifs <;> rfl
  rw [h]
  exact hobj

lemma passed_get (p : Parcel) (g : Getter) : Passed p (w.get p g).2 := by
  cases g with
  | uint32 => exact passed_uint32 p
  | string16 =>
    have hword := passed_uint32 (w := w) p
    have hblock := passed_bioGet (w := w) (w.bioGetUint32 p).2
      (w.wrap (((w.bioGetUint32 p).1.toNat + 1) * 2))
    rw [hword.mem] at hblock
    exact hword.trans hblock
  | ref => exact passed_ref p

theorem passed_run (p : Parcel) (gs : List Getter) : Passed p (w.reader.run p gs) :=
  w.reader.run_invariant (P := Passed p) (fun q g hq => hq.trans (passed_get q g))
    (passed_refl p) gs

/-- Words can be read up to any multiple of four. -/
lemma run_words {j : ℕ} (hj : 4 * j ≤ p.io.dataAvail) :
    w.reader.run p (List.replicate j .uint32) = ⟨p.mem, p.io.advance (4 * j) 0⟩ := by
  induction j with
  | zero => simp [BinderIo.advance]
  | succ j ih =>
    rw [List.replicate_succ', w.reader.run_append, ih (by omega)]
    show (w.bioGetUint32 ⟨p.mem, p.io.advance (4 * j) 0⟩).2 = _
    rcases bioGet_cases (w := w) (p.io.advance (4 * j) 0) 4 with h | ⟨hle, h⟩
    · simp only [bioGet, align4_word, BinderIo.advance] at h
      split_ifs at h
      · omega
      · simp at h
    · rw [bioGetUint32, h, align4_word, advance_advance]
      rfl

/-- A reference that the table lists is returned. -/
lemma bioGetRef_listed {o : ℕ} (hoff : p.io.data - p.io.data0 = o)
    (hlisted : ∃ j < p.io.offsAvail, loadLE p.mem (p.io.offs + w.ipc * j) w.ipc = o)
    (hroom : w.sizeofFlatBinderObject ≤ p.io.dataAvail)
    (htype : load32 p.mem p.io.data = binderTypeHandle) :
    (w.bioGetRef p).1 = load32 p.mem (p.io.data + 8) := by
  have hany : ((List.range p.io.offsAvail).any fun n =>
      loadLE p.mem (p.io.offs + w.ipc * n) w.ipc == p.io.data - p.io.data0) = true := by
    obtain ⟨j, hj, hentry⟩ := hlisted
    rw [List.any_eq_true]
    exact ⟨j, List.mem_range.mpr hj, by rw [hentry, hoff, beq_self_eq_true]⟩
  have hget : w.bioGet p.io w.sizeofFlatBinderObject
      = (some p.io.data, p.io.advance w.sizeofFlatBinderObject 0) := by
    simp [bioGet, align4_object, Nat.not_lt.mpr hroom, BinderIo.advance]
  have hobj : w.bioGetObj p
      = (some p.io.data, ⟨p.mem, p.io.advance w.sizeofFlatBinderObject 0⟩) := by
    unfold bioGetObj
    dsimp only
    rw [if_pos hany, hget]
  simp only [bioGetRef, hobj, htype, if_true]

end Reading

/-- The reader of what was put; both sizes go through a `binder_size_t`. -/
def received (w : Width) (q : Parcel) : Parcel :=
  w.bioInitFromTxn q.mem q.io.data0 q.io.offs0 ((q.io.data - q.io.data0) % 2^(8 * w.ipc))
    ((q.io.offs - q.io.offs0) % 2^(8 * w.ipc))

/-- The table ends in front of the data and no put overwrites data, the reader counts as many
entries as there are, and a reader that arrives at a reference is given it. -/
structure TableReadable (w : Width) (start : Parcel) (vs : List WidePut) : Prop where
  fits : (w.writer.run start vs).io.offs ≤ (w.writer.run start vs).io.data0
  kept : ∀ pre v, pre ++ [v] <+: vs → AgreeOn (w.writer.run start (pre ++ [v])).mem
    (w.writer.run start pre).mem start.io.data0 (w.writer.run start pre).io.data
  count : (w.received (w.writer.run start vs)).io.offsAvail = entries vs
  reached : ∀ ref ∈ w.writer.history start vs, ∃ gs,
    let r := w.reader.run (w.received (w.writer.run start vs)) gs
    ¬ r.io.Overflowed ∧ r.io.data = r.io.data0 + ref.1
  returned : ∀ ref ∈ w.writer.history start vs, ∀ gs,
    let r := w.reader.run (w.received (w.writer.run start vs)) gs
    ¬ r.io.Overflowed → r.io.data = r.io.data0 + ref.1 → (w.bioGetRef r).1 = ref.2

section Count
variable {k : ℕ}

/-- Where the two widths differ, an entry is counted twice or every other entry is missed. -/
lemma count_ne (hwidth : w.sizeT ≠ w.ipc) (hk : 0 < k) (hle : k < 2^(8 * w.sizeT)) :
    w.ipc * k % 2^(8 * w.ipc) / w.sizeT ≠ k := by
  rcases w.sizeT_eq with hs | hs <;> rcases w.ipc_eq with hi | hi <;> rw [hs] at hwidth hle ⊢ <;>
    rw [hi] at hwidth ⊢
  · exact absurd rfl hwidth
  · norm_num at hle ⊢
    omega
  · norm_num
    omega
  · exact absurd rfl hwidth

lemma count_eq (hwidth : w.sizeT = w.ipc) (hle : w.sizeT * k < 2^(8 * w.sizeT)) :
    w.ipc * k % 2^(8 * w.ipc) / w.sizeT = k := by
  have hpos : 0 < w.sizeT := by
    rcases w.sizeT_eq with hs | hs <;> omega
  rw [← hwidth, Nat.mod_eq_of_lt hle, Nat.mul_div_cancel_left k hpos]

end Count

section Received
variable {base n maxdata maxoffs k : ℕ} {q : Parcel} {refs : List (ℕ × UInt32)}

lemma received_offsAvail (h : Laid w base n maxdata maxoffs q k refs) :
    (w.received q).io.offsAvail = w.ipc * k % 2^(8 * w.ipc) / w.sizeT := by
  have hoffs : q.io.offs - q.io.offs0 = w.ipc * k := by
    rw [h.offs, h.offs0, Nat.add_sub_cancel_left]
  simp only [received, bioInitFromTxn, hoffs]

/-- With equal widths nothing of the two sizes is lost. -/
lemma received_io (h : Laid w base n maxdata maxoffs q k refs) (hwidth : w.sizeT = w.ipc)
    (hdata : maxdata < 2^(8 * w.sizeT)) (hk : w.sizeT * k < 2^(8 * w.sizeT)) :
    (w.received q).io = {
      data := q.io.data0
      data0 := q.io.data0
      offs := base
      offs0 := base
      dataAvail := q.io.data - q.io.data0
      offsAvail := k
      flags := bioFShared } := by
  have hend := h.dataAvail
  have hdata0 := h.data0
  have hsize : (q.io.data - q.io.data0) % 2^(8 * w.ipc) = q.io.data - q.io.data0 := by
    rw [hwidth] at hdata
    exact Nat.mod_eq_of_lt (by omega)
  have hcount := (received_offsAvail h).trans (count_eq hwidth hk)
  simp only [received, bioInitFromTxn] at hcount ⊢
  rw [hcount, hsize, h.offs0]

lemma received_clear (w : Width) (q : Parcel) : ¬ (w.received q).io.Overflowed := by
  simp only [received, bioInitFromTxn, BinderIo.Overflowed]
  decide

variable {ref : ℕ × UInt32}

lemma Laid.reached (h : Laid w base n maxdata maxoffs q k refs) (hwidth : w.sizeT = w.ipc)
    (hdata : maxdata < 2^(8 * w.sizeT)) (hk : w.sizeT * k < 2^(8 * w.sizeT)) (href : ref ∈ refs) :
    ∃ gs, let r := w.reader.run (w.received q) gs
      ¬ r.io.Overflowed ∧ r.io.data = r.io.data0 + ref.1 := by
  obtain ⟨hdvd, hin⟩ := h.inside ref href
  have hio := received_io h hwidth hdata hk
  have hroom : 4 * (ref.1 / 4) ≤ (w.received q).io.dataAvail := by
    rw [hio]
    dsimp only
    omega
  refine ⟨List.replicate (ref.1 / 4) .uint32, ?_⟩
  rw [run_words hroom, Nat.mul_div_cancel' hdvd]
  constructor
  · rw [advance_overflowed]
    exact received_clear w q
  · rw [hio]
    rfl

lemma Laid.returned (h : Laid w base n maxdata maxoffs q k refs) (hwidth : w.sizeT = w.ipc)
    (hdata : maxdata < 2^(8 * w.sizeT)) (hk : w.sizeT * k < 2^(8 * w.sizeT))
    (hfit : w.ipc * k ≤ n) (href : ref ∈ refs) (gs : List Getter) :
    let r := w.reader.run (w.received q) gs
    ¬ r.io.Overflowed → r.io.data = r.io.data0 + ref.1 → (w.bioGetRef r).1 = ref.2 := by
  intro r hclear hcursor
  have hio := received_io h hwidth hdata hk
  have hpassed : Passed (w.received q) r := passed_run _ gs
  have hend := (hpassed.clear hclear).2
  have hin := (h.inside ref href).2
  obtain ⟨⟨j, hj, hentry⟩, htype, hhandle⟩ := h.held hfit ref href
  have hmem : r.mem = q.mem := hpassed.mem
  have hdata0 : r.io.data0 = q.io.data0 := by rw [hpassed.data0, hio]
  have hoffs : r.io.offs = base := by rw [hpassed.offs, hio]
  have havail : r.io.offsAvail = k := by rw [hpassed.offsAvail, hio]
  have hlast := h.dataAvail
  have hfirst := h.data0
  have hsmall : ref.1 % 256^w.ipc = ref.1 := by
    have hpow : (256 : ℕ)^w.ipc = 2^(8 * w.ipc) := (pow_mul 2 8 w.ipc).symm
    rw [hpow, ← hwidth]
    exact Nat.mod_eq_of_lt (by omega)
  rw [hio] at hend
  dsimp only at hend
  rw [bioGetRef_listed (o := ref.1) (by omega) ⟨j, by omega, ?_⟩ (by omega) ?_, hmem, hcursor,
    hdata0]
  · exact hhandle
  · rw [hmem, hoffs, hentry, hsmall]
  · rw [hmem, hcursor, hdata0]
    exact htype

end Received

section Readable
variable {p : Parcel} {base maxdata maxoffs : ℕ} {vs : List WidePut}

/-- No put overwrites data if the whole table ends in front of it. -/
lemma run_kept (hclear : ¬ (w.writer.run (w.bioInit p base maxdata maxoffs) vs).io.Overflowed)
    (hfit : w.ipc * entries vs ≤ w.wrap (maxoffs * w.sizeT)) {pre : List WidePut} {v : WidePut}
    (hpre : pre ++ [v] <+: vs) :
    let start := w.bioInit p base maxdata maxoffs
    AgreeOn (w.writer.run start (pre ++ [v])).mem (w.writer.run start pre).mem start.io.data0
      (w.writer.run start pre).io.data := by
  intro start
  obtain ⟨post, rfl⟩ := hpre
  have hlaid := run_laid (run_clear (run_clear hclear))
  have hstep := run_clear hclear
  have hstart : ¬ (w.writer.run start []).io.Overflowed := run_clear (run_clear hclear)
  have hdata0 : start.io.data0 = (w.writer.run start pre).io.data0 :=
    (laid_init hstart).data0.trans hlaid.data0.symm
  rw [w.writer.run_append] at hstep ⊢
  rw [hdata0]
  refine hlaid.put_agree hstep ?_
  rw [entries_append, entries_snoc] at hfit
  exact (Nat.mul_le_mul_left _ (Nat.le_add_right _ _)).trans hfit

lemma TableReadable.condition
    (h : w.TableReadable (w.bioInit p base maxdata maxoffs) vs) (hoffs : maxoffs < 2^(8 * w.sizeT))
    (hclear : ¬ (w.writer.run (w.bioInit p base maxdata maxoffs) vs).io.Overflowed)
    (hk : entries vs ≠ 0) :
    w.sizeT = w.ipc ∧ w.sizeT * entries vs ≤ w.wrap (maxoffs * w.sizeT) := by
  have hlaid := run_laid hclear
  have hfits := h.fits
  have hcount := h.count
  rw [received_offsAvail hlaid] at hcount
  have hentries := hlaid.offsAvail
  have hwidth : w.sizeT = w.ipc := by
    by_contra hwidth
    exact count_ne hwidth (Nat.pos_of_ne_zero hk) (by omega) hcount
  rw [hlaid.offs, hlaid.data0] at hfits
  refine ⟨hwidth, ?_⟩
  calc w.sizeT * entries vs = w.ipc * entries vs := by rw [hwidth]
    _ ≤ w.wrap (maxoffs * w.sizeT) := Nat.le_of_add_le_add_left hfits

lemma tableReadable_none (hk : entries vs = 0)
    (hclear : ¬ (w.writer.run (w.bioInit p base maxdata maxoffs) vs).io.Overflowed) :
    w.TableReadable (w.bioInit p base maxdata maxoffs) vs := by
  have hlaid := run_laid hclear
  have hnone : w.writer.history (w.bioInit p base maxdata maxoffs) vs = [] := by
    have hcounted := hlaid.counted
    rw [hk] at hcounted
    exact List.length_eq_zero_iff.mp (Nat.le_zero.mp hcounted)
  have hfit : w.ipc * entries vs ≤ w.wrap (maxoffs * w.sizeT) := by
    rw [hk]
    exact Nat.zero_le _
  refine ⟨?_, fun pre v hpre => run_kept hclear hfit hpre, ?_, ?_, ?_⟩
  · rw [hlaid.offs, hlaid.data0]
    exact Nat.add_le_add_left hfit base
  · rw [received_offsAvail hlaid, hk]
    simp
  · simp [hnone]
  · simp [hnone]

lemma tableReadable_of_fits (hwidth : w.sizeT = w.ipc)
    (hle : w.sizeT * entries vs ≤ w.wrap (maxoffs * w.sizeT)) (hdata : maxdata < 2^(8 * w.sizeT))
    (hclear : ¬ (w.writer.run (w.bioInit p base maxdata maxoffs) vs).io.Overflowed) :
    w.TableReadable (w.bioInit p base maxdata maxoffs) vs := by
  have hlaid := run_laid hclear
  have hreserved : w.wrap (maxoffs * w.sizeT) < 2^(8 * w.sizeT) := Nat.mod_lt _ (by positivity)
  have hk := hle.trans_lt hreserved
  have hfit : w.ipc * entries vs ≤ w.wrap (maxoffs * w.sizeT) := hwidth ▸ hle
  refine ⟨?_, fun pre v hpre => run_kept hclear hfit hpre, ?_,
    fun ref href => hlaid.reached hwidth hdata hk href,
    fun ref href gs => hlaid.returned hwidth hdata hk hfit href gs⟩
  · rw [hlaid.offs, hlaid.data0]
    exact Nat.add_le_add_left hfit base
  · rw [received_offsAvail hlaid]
    exact count_eq hwidth hk

end Readable

/-- Whatever the widths, the entries lie back to back in their own width; for puts that do not
overflow the table can be read exactly if there is no entry in it, or if the widths agree and
the entries fit what `bio_init` has reserved, which wraps for large `maxoffs`. -/
theorem table_readable_iff (w : Width) (p : Parcel) (base maxdata maxoffs : ℕ)
    (hdata : maxdata < 2^(8 * w.sizeT)) (hoffs : maxoffs < 2^(8 * w.sizeT)) (vs : List WidePut)
    (hclear : ¬ (w.writer.run (w.bioInit p base maxdata maxoffs) vs).io.Overflowed) :
    let start := w.bioInit p base maxdata maxoffs
    let q := w.writer.run start vs
    q.io.offs = q.io.offs0 + w.ipc * entries vs ∧
      (w.TableReadable start vs ↔ entries vs = 0 ∨
        (w.sizeT = w.ipc ∧ w.sizeT * entries vs ≤ w.wrap (maxoffs * w.sizeT))) := by
  intro start q
  have hlaid := run_laid hclear
  refine ⟨by rw [hlaid.offs, hlaid.offs0], fun h => ?_, ?_⟩
  · by_cases hk : entries vs = 0
    · exact .inl hk
    · exact .inr (h.condition hoffs hclear hk)
  · rintro (hk | ⟨hwidth, hle⟩)
    · exact tableReadable_none hk hclear
    · exact tableReadable_of_fits hwidth hle hdata hclear

def blank : Parcel := ⟨fun _ => 0, ⟨0, 0, 0, 0, 0, 0, 0⟩⟩

theorem table_readable_uniform :
    ¬ (uniform.writer.run (uniform.bioInit blank 0x1000 128 2)
        [.uint32 1, .ref 7]).io.Overflowed ∧
      uniform.TableReadable (uniform.bioInit blank 0x1000 128 2) [.uint32 1, .ref 7] := by
  have hclear : ¬ (uniform.writer.run (uniform.bioInit blank 0x1000 128 2)
      [.uint32 1, .ref 7]).io.Overflowed := by decide
  have hiff := (table_readable_iff uniform blank 0x1000 128 2 (by decide) (by decide)
    [.uint32 1, .ref 7] hclear).2
  exact ⟨hclear, hiff.mpr (.inr (by decide))⟩

/-- The one entry is not counted, and its reference is read as null. -/
theorem mixed_loses_reference :
    let start := mixed.bioInit blank 0x1000 128 2
    let r := mixed.received (mixed.writer.run start [.ref 7])
    ¬ (mixed.writer.run start [.ref 7]).io.Overflowed ∧ entries [.ref 7] = 1 ∧
      r.io.offsAvail = 0 ∧ (mixed.bioGetRef r).1 = 0 ∧ ¬ mixed.TableReadable start [.ref 7] := by
  intro start r
  have havail : r.io.offsAvail = 0 := by decide
  refine ⟨by decide, by decide, havail, by decide, fun h => ?_⟩
  have hcount : r.io.offsAvail = 1 := h.count
  rw [havail] at hcount
  exact absurd hcount (by decide)

end Width

end LinuxLabs.Binder
