import LinuxLabs.BinderDelivery

/-! What a reply says about the values a handler put into it. Every put stores a fixed list of
bytes; a string of even length also takes two bytes behind its terminator that nobody stores.
`binder_send_reply` looks at the status of the handler only, never at the overflow flag. -/
namespace LinuxLabs.Binder
open ByteMemory

variable {σ : Type}

def stringBytes (len : ℕ) (us : List UInt16) : List UInt8 :=
  if maxBioSize / 2 ≤ len then bytes32 0xffffffff
  else bytes32 (UInt32.ofNat len) ++ (us ++ [0]).flatMap bytes16

def objectBytes (type value : UInt32) : List UInt8 :=
  bytes32 type ++ (bytes32 (0x7f ||| flatBinderFlagAcceptsFds) ++ (bytes32 value ++ bytes32 0))

/-- The bytes a put stores in its block. -/
def Put.bytes : Put → List UInt8
  | .uint32 n => bytes32 n
  | .string16 none => bytes32 0xffffffff
  | .string16 (some str) => stringBytes (strlen str) (str.take (strlen str))
  | .string16X none => bytes32 0xffffffff
  | .string16X (some str) =>
    stringBytes (strlen str) ((str.take (strlen str)).map UInt8.toUInt16)
  | .ref handle => objectBytes binderTypeHandle handle
  | .obj ptr => objectBytes binderTypeBinder ptr

/-- A string of even length: its block ends in two bytes that are never stored. -/
def Put.Padded : Put → Prop
  | .string16 (some str) => strlen str < maxBioSize / 2 ∧ strlen str % 2 = 0
  | .string16X (some str) => strlen str < maxBioSize / 2 ∧ strlen str % 2 = 0
  | _ => False

/-- The block of a put, byte by byte; `none` is a byte that is never stored. -/
def Put.encoding (v : Put) : List (Option UInt8) :=
  v.bytes.map some ++ List.replicate (v.size - v.bytes.length) none

/-- The entries of the offset table for puts from position `k` of the data on. -/
def putOffsets : ℕ → List Put → List UInt32
  | _, [] => []
  | k, v :: vs => List.replicate v.objs (UInt32.ofNat k) ++ putOffsets (k + v.size) vs

lemma flatMap_bytes16_length (us : List UInt16) : (us.flatMap bytes16).length = 2 * us.length := by
  induction us with
  | nil => rfl
  | cons u us ih =>
    rw [List.flatMap_cons, List.length_append, ih, bytes16_length, List.length_cons]
    omega

lemma stringBytes_length {len : ℕ} {us : List UInt16} (hus : us.length = len) :
    (len < maxBioSize / 2 ∧ len % 2 = 0 → (stringBytes len us).length + 2 = stringSize len) ∧
      (¬ (len < maxBioSize / 2 ∧ len % 2 = 0) → (stringBytes len us).length = stringSize len) := by
  unfold stringBytes stringSize
  by_cases hl : maxBioSize / 2 ≤ len
  · simp [hl, Nat.not_lt.mpr hl]
  · have hlt : len < 2^29 := Nat.lt_of_not_le hl
    have hblock : align4 (2 * (len + 1)) = (2 * len + 5) / 4 * 4 := by
      rw [align4_of_lt (by omega)]
      congr 2
    simp only [Nat.lt_of_not_le hl, true_and, hl, if_false, List.length_append, bytes32_length,
      flatMap_bytes16_length, hus, List.length_singleton, hblock]
    omega

/-- A block is filled by its put, but for the two bytes behind a string of even length. -/
theorem Put.bytes_length (v : Put) :
    (v.Padded → v.bytes.length + 2 = v.size) ∧ (¬ v.Padded → v.bytes.length = v.size) := by
  cases v with
  | uint32 n => exact ⟨False.elim, fun _ => rfl⟩
  | string16 str =>
    cases str with
    | none => exact ⟨False.elim, fun _ => rfl⟩
    | some str => exact stringBytes_length (strlen_take str).2
  | string16X str =>
    cases str with
    | none => exact ⟨False.elim, fun _ => rfl⟩
    | some str => exact stringBytes_length ((List.length_map _).trans (strlen_take str).2)
  | ref handle => exact ⟨False.elim, fun _ => rfl⟩
  | obj ptr => exact ⟨False.elim, fun _ => rfl⟩

lemma fillObj_bytes (m : Mem) (a : ℕ) (t v : UInt32) :
    HoldsBytes (fillObj m a t v) a (objectBytes t v) := by
  have hkeep (m' : Mem) (b n : ℕ) (u w : UInt32) (h : HoldsBytes m' b (bytes32 u))
      (hoff : b + 4 ≤ n ∨ n + 4 ≤ b) : HoldsBytes (store32 m' n w) b (bytes32 u) :=
    h.congr (store32_agree_off m' n b (b + 4) w hoff) le_rfl le_rfl
  have hwrite (m' : Mem) (b : ℕ) (u : UInt32) : HoldsBytes (store32 m' b u) b (bytes32 u) :=
    holdsBytes_write m' b (bytes32 u)
  simp only [objectBytes, holdsBytes_append, bytes32_length, Nat.add_assoc, Nat.reduceAdd]
  refine ⟨?_, ?_, ?_, hwrite _ _ _⟩
  · exact hkeep _ _ _ _ _ (hkeep _ _ _ _ _ (hwrite _ _ _) (by omega)) (by omega)
  · exact hkeep _ _ _ _ _ (hkeep _ _ _ _ _ (hkeep _ _ _ _ _ (hwrite _ _ _) (by omega))
      (by omega)) (by omega)
  · exact hkeep _ _ _ _ _ (hwrite _ _ _) (by omega)

/-- The stored bytes are those of the image. -/
theorem Put.image_bytes (m : Mem) (a : ℕ) (v : Put) : HoldsBytes (v.image m a) a v.bytes := by
  have hstring (len : ℕ) (us : List UInt16) :
      HoldsBytes (stringImage m a len us) a (stringBytes len us) := by
    unfold stringImage stringBytes
    split_ifs
    · exact holdsBytes_write m a _
    · have hkeep := storeUnits_agree_below (store32 m a (UInt32.ofNat len)) (a + 4) a (a + 4)
        (us ++ [0]) le_rfl
      rw [holdsBytes_append]
      exact ⟨(holdsBytes_write m a _).congr hkeep le_rfl le_rfl, holdsBytes_storeUnits _ _ _⟩
  cases v with
  | uint32 n => exact holdsBytes_write m a _
  | string16 str =>
    cases str with
    | none => exact holdsBytes_write m a _
    | some str => exact hstring _ _
  | string16X str =>
    cases str with
    | none => exact holdsBytes_write m a _
    | some str => exact hstring _ _
  | ref handle => exact fillObj_bytes m a _ _
  | obj ptr => exact fillObj_bytes m a _ _

/-- Puts that all fit lay their bytes out back to back, if none of them is padded. -/
theorem putAll_bytes {p : Parcel} {vs : List Put} (hlay : p.io.Layout)
    (h : ¬ (putAll p vs).io.Overflowed) (hvs : ∀ v ∈ vs, ¬ v.Padded) :
    HoldsBytes (putAll p vs).mem p.io.data (vs.flatMap Put.bytes) := by
  induction vs generalizing p with
  | nil => rfl
  | cons v vs ih =>
    have hr := (Put.run_clear_iff.mp (putAll_clear (p := v.run p) h)).2
    have hrun := Put.run_fits hr
    have hlay' : (v.run p).io.Layout := by
      rw [hrun]
      exact hlay.advance hr
    have hsize := v.bytes_length.2 (hvs v (by simp))
    have hd : (v.run p).io.data = p.io.data + v.bytes.length := by
      rw [hrun, hsize]
      rfl
    have hd0 : (v.run p).io.data0 ≤ p.io.data := by
      rw [hrun]
      exact hlay.data
    have htail := ih hlay' h fun u hu => hvs u (by simp [hu])
    have hkeep := (putAll_agree hlay' h).1
    have hhead : HoldsBytes (v.run p).mem p.io.data v.bytes := by
      rw [hrun]
      exact v.image_bytes _ _
    rw [List.flatMap_cons, holdsBytes_append]
    rw [hd] at htail
    exact ⟨hhead.congr hkeep hd0 hd.ge, htail⟩

lemma Put.objs_le (v : Put) : v.objs ≤ 1 := by
  cases v with
  | ref handle => by_cases hh : handle = 0 <;> simp [Put.objs, hh]
  | obj ptr => exact le_rfl
  | _ => exact Nat.zero_le 1

lemma words_succ (m : Mem) (a n : ℕ) : words m a (n + 1) = load32 m a :: words m (a + 4) n := by
  simp [words, List.range_succ_eq_map, Nat.mul_add, Nat.add_assoc, Nat.add_comm 4,
    Function.comp_def]

/-- Puts that all fit record the positions of their objects, in order. -/
theorem putAll_offsets {p : Parcel} {vs : List Put} (hlay : p.io.Layout)
    (h : ¬ (putAll p vs).io.Overflowed) :
    words (putAll p vs).mem p.io.offs (putsObjs vs) =
      putOffsets (p.io.data - p.io.data0) vs := by
  induction vs generalizing p with
  | nil => rfl
  | cons v vs ih =>
    have hr := (Put.run_clear_iff.mp (putAll_clear (p := v.run p) h)).2
    have hrun := Put.run_fits hr
    have hlay' : (v.run p).io.Layout := by
      rw [hrun]
      exact hlay.advance hr
    have hkeep := (putAll_agree hlay' h).2
    have htail := ih hlay' h
    have hpos : (v.run p).io.data - (v.run p).io.data0 = p.io.data - p.io.data0 + v.size := by
      have hd := hlay.data
      rw [hrun]
      simp only [BinderIo.advance]
      omega
    have hoffs : (v.run p).io.offs = p.io.offs + 4 * v.objs := by
      rw [hrun]
      rfl
    have hoffs0 : (v.run p).io.offs0 ≤ p.io.offs := by
      obtain ⟨k, hk⟩ := hlay.entries
      rw [hrun]
      simp only [BinderIo.advance]
      omega
    have hmem : (putAll p (v :: vs)).mem = (putAll (v.run p) vs).mem := rfl
    have hsum : putsObjs (v :: vs) = putsObjs vs + v.objs := by
      simp [putsObjs, Nat.add_comm]
    rw [hpos, hoffs] at htail
    rw [hsum, hmem, putOffsets]
    rcases Nat.le_one_iff_eq_zero_or_eq_one.mp v.objs_le with h0 | h1
    · rw [h0] at htail ⊢
      simpa using htail
    · have hentry := Put.run_entry hlay hr h1
      rw [h1] at htail hoffs ⊢
      rw [words_succ, hkeep.load32_eq hoffs0 hoffs.ge, hentry, htail]
      rfl

/-- The put raises the overflow flag by itself: it was dropped, or a part of it. -/
def Put.Dropped (p : Parcel) (v : Put) : Prop :=
  (v.run ⟨p.mem, { p.io with flags := 0 }⟩).io.Overflowed

lemma Put.dropped_iff {p : Parcel} {v : Put} : v.Dropped p ↔ ¬ p.io.Room v.size v.objs := by
  have hclear : ¬ BinderIo.Overflowed { p.io with flags := 0 } := by
    simp only [BinderIo.Overflowed]
    decide
  rw [Put.Dropped, ← not_iff_not, Put.run_clear_iff, not_not]
  exact and_iff_right hclear

/-- One of the puts was dropped. -/
def AnyDropped (p : Parcel) (vs : List Put) : Prop :=
  ∃ pre v post, vs = pre ++ v :: post ∧ v.Dropped (putAll p pre)

lemma anyDropped_cons {p : Parcel} {v : Put} {vs : List Put} :
    AnyDropped p (v :: vs) ↔ v.Dropped p ∨ AnyDropped (v.run p) vs := by
  constructor
  · rintro ⟨pre, u, post, hvs, hu⟩
    cases pre with
    | nil =>
      obtain ⟨rfl, rfl⟩ := List.cons.inj hvs
      exact .inl hu
    | cons u' pre =>
      obtain ⟨rfl, rfl⟩ := List.cons.inj hvs
      exact .inr ⟨pre, u, post, rfl, hu⟩
  · rintro (hv | ⟨pre, u, post, rfl, hu⟩)
    · exact ⟨[], v, vs, rfl, hv⟩
    · exact ⟨v :: pre, u, post, rfl, hu⟩

/-- Nothing is dropped exactly if there is room for everything. -/
theorem anyDropped_iff {p : Parcel} {vs : List Put} :
    AnyDropped p vs ↔ ¬ p.io.Room (putsSize vs) (putsObjs vs) := by
  induction vs generalizing p with
  | nil =>
    have hroom : p.io.Room (putsSize []) (putsObjs []) := ⟨Nat.zero_le _, Nat.zero_le _⟩
    simp [AnyDropped, hroom]
  | cons v vs ih =>
    have hsize : putsSize (v :: vs) = v.size + putsSize vs := by simp [putsSize]
    have hobjs : putsObjs (v :: vs) = v.objs + putsObjs vs := by simp [putsObjs]
    rw [anyDropped_cons, Put.dropped_iff, ih, hsize, hobjs]
    by_cases hv : p.io.Room v.size v.objs
    · have hv1 := hv.1
      have hv2 := hv.2
      simp only [Put.run_fits hv, BinderIo.Room, BinderIo.advance]
      omega
    · simp only [hv, not_false_eq_true, true_or, true_iff]
      rintro ⟨h1, h2⟩
      exact hv ⟨by omega, by omega⟩

/-- A reply that says nothing but the truth about the puts: it reports an error if one of them
was dropped, and is made up of all of their bytes if it reports none. -/
structure Truthful (p : Parcel) (vs : List Put) (out : OutgoingTxn) : Prop where
  dropped : AnyDropped p vs → out.flags = tfStatusCode
  complete : out.flags = 0 →
    out.data.map some = vs.flatMap Put.encoding ∧ out.offsets = putOffsets 0 vs

/-- The values fit the reply buffer and leave no byte of it unwritten. -/
def FillsReply (vs : List Put) : Prop :=
  putsSize vs ≤ 240 ∧ putsObjs vs ≤ 4 ∧ ∀ v ∈ vs, ¬ v.Padded

lemma Put.encoding_none {v : Put} : none ∈ v.encoding ↔ v.Padded := by
  have hlen := v.bytes_length
  simp only [Put.encoding, List.mem_append, List.mem_map, reduceCtorEq, and_false, exists_false,
    false_or, List.mem_replicate, and_true]
  constructor
  · intro hne
    by_contra hp
    have := hlen.2 hp
    omega
  · intro hp
    have := hlen.1 hp
    omega

lemma encoding_of_not_padded {v : Put} (h : ¬ v.Padded) : v.encoding = v.bytes.map some := by
  rw [Put.encoding, v.bytes_length.2 h, Nat.sub_self, List.replicate_zero, List.append_nil]

lemma emptyReply_layout (rdata : Mem) : (emptyReply rdata).io.Layout := by
  rw [emptyReply_eq]
  exact ⟨rfl, ⟨0, rfl⟩, le_rfl⟩

lemma emptyReply_clear (rdata : Mem) : ¬ (emptyReply rdata).io.Overflowed := by
  rw [emptyReply_eq]
  simp only [BinderIo.Overflowed]
  decide

/-- The bytes and offsets of a reply that all values fit, but for padding. -/
theorem replyTxn_puts {rdata : Mem} {vs : List Put} (h : FillsReply vs) :
    replyTxn (putAll (emptyReply rdata) vs) 0 =
      ⟨0, 0, 0, vs.flatMap Put.bytes, putOffsets 0 vs⟩ := by
  obtain ⟨hsize, hobjs, hpad⟩ := h
  have hlay := emptyReply_layout rdata
  have hclear : ¬ (putAll (emptyReply rdata) vs).io.Overflowed :=
    putAll_room (emptyReply_clear rdata) (by rw [emptyReply_eq]; exact ⟨hsize, hobjs⟩)
  have hio := (putAll_io hclear).2
  have hbytes := putAll_bytes hlay hclear hpad
  have hoffs := putAll_offsets hlay hclear
  have hlen : (vs.flatMap Put.bytes).length = putsSize vs := by
    rw [List.length_flatMap, putsSize]
    congr 1
    exact List.map_congr_left fun v hv => v.bytes_length.2 (hpad v hv)
  rw [HoldsBytes, hlen] at hbytes
  rw [emptyReply_eq] at hbytes hoffs hio ⊢
  simp only [replyTxn, ne_eq, not_true_eq_false, if_false, Parcel.outgoing, hio, BinderIo.advance,
    Nat.add_sub_cancel_left, Nat.zero_add, Nat.sub_zero, Nat.sub_self,
    Nat.mul_div_cancel_left _ (by decide : 0 < 4)] at hbytes hoffs ⊢
  rw [hbytes, hoffs]

theorem truthful_iff (rdata : Mem) (vs : List Put) (status : Int32) :
    Truthful (emptyReply rdata) vs (replyTxn (putAll (emptyReply rdata) vs) status) ↔
      status ≠ 0 ∨ FillsReply vs := by
  by_cases hs : status = 0
  swap
  · have hflags : (replyTxn (putAll (emptyReply rdata) vs) status).flags = tfStatusCode := by
      simp [replyTxn, hs]
    refine iff_of_true ⟨fun _ => hflags, fun h0 => ?_⟩ (.inl hs)
    rw [hflags] at h0
    exact absurd h0 (by decide)
  subst hs
  have hflags : (replyTxn (putAll (emptyReply rdata) vs) 0).flags = 0 := rfl
  simp only [ne_eq, not_true_eq_false, false_or]
  constructor
  · rintro ⟨hdropped, hcomplete⟩
    have hroom : (emptyReply rdata).io.Room (putsSize vs) (putsObjs vs) := by
      by_contra hn
      have herr := hdropped (anyDropped_iff.mpr hn)
      rw [hflags] at herr
      exact absurd herr (by decide)
    rw [emptyReply_eq] at hroom
    refine ⟨hroom.1, hroom.2, fun v hv hpad => ?_⟩
    -- a byte that is never stored is no byte of the reply
    have hnone : none ∈ vs.flatMap Put.encoding :=
      List.mem_flatMap.mpr ⟨v, hv, Put.encoding_none.mpr hpad⟩
    rw [← (hcomplete hflags).1] at hnone
    simp at hnone
  · intro h
    have hroom : (emptyReply rdata).io.Room (putsSize vs) (putsObjs vs) := by
      rw [emptyReply_eq]
      exact ⟨h.1, h.2.1⟩
    refine ⟨fun hany => absurd hroom (anyDropped_iff.mp hany), fun _ => ?_⟩
    rw [replyTxn_puts h, List.map_flatMap]
    exact ⟨List.flatMap_congr fun v hv => (encoding_of_not_padded (h.2.2 v hv)).symm, rfl⟩

/-- A handler that does nothing to the reply but a sequence of puts. -/
abbrev PutHandler (σ : Type) :=
  BinderTransactionData → Parcel → Parcel → World σ → Int32 × List Put × World σ

def PutHandler.handler (f : PutHandler σ) : BinderHandler σ := fun txn msg reply w =>
  let out := f txn msg reply w
  (out.1, putAll reply out.2.1, out.2.2)

lemma PutHandler.serve_trace (f : PutHandler σ) (c : ParseCall σ) (ptr : ℕ)
    (txn : BinderTransactionData) (w : World σ) :
    let reply := emptyReply (c.rdata ptr)
    let out := f txn (bioInitFromTxn c.mem txn) reply w
    (serveTransaction c f.handler ptr txn w).trace = out.2.2.trace ++
      [.write (.freeBuffer txn.buffer), .write (.reply (replyTxn (putAll reply out.2.1) out.1))] :=
  rfl

/-- For every handler, the `BC_REPLY` written for it is truthful exactly if the handler reports
an error or its values fit the reply buffer without padding. -/
theorem reply_truthful_iff (f : PutHandler σ) (c : ParseCall σ) (ptr : ℕ)
    (txn : BinderTransactionData) (w : World σ) :
    let reply := emptyReply (c.rdata ptr)
    let out := f txn (bioInitFromTxn c.mem txn) reply w
    ∃ sent, (serveTransaction c f.handler ptr txn w).trace =
        out.2.2.trace ++ [.write (.freeBuffer txn.buffer), .write (.reply sent)] ∧
      (Truthful reply out.2.1 sent ↔ out.1 ≠ 0 ∨ FillsReply out.2.1) := by
  intro reply out
  exact ⟨_, f.serve_trace c ptr txn w, truthful_iff _ _ _⟩

/-- A handler that puts 61 words and reports success. -/
def chattyHandler : PutHandler Unit := fun _ _ _ w => (0, List.replicate 61 (.uint32 7), w)

/-- The last word is dropped, and the reply is sent as a success. -/
theorem dropped_put_sent_as_success :
    let c : ParseCall Unit := ⟨fun _ => 0, 128, none, fun _ w => w, fun _ _ => 0⟩
    let reply := emptyReply (c.rdata 4)
    ∃ sent, (serveTransaction c chattyHandler.handler 4 ⟨0, 0, 0, 0, 0, 0, 0, 0, 0, 0⟩
        ⟨(), []⟩).trace = [.write (.freeBuffer 0), .write (.reply sent)] ∧
      sent.flags = 0 ∧ AnyDropped reply (List.replicate 61 (.uint32 7)) ∧
      ¬ Truthful reply (List.replicate 61 (.uint32 7)) sent := by
  intro c reply
  have hsize : ¬ putsSize (List.replicate 61 (.uint32 7)) ≤ 240 := by
    simp [putsSize, Put.size]
  have hany : AnyDropped reply (List.replicate 61 (.uint32 7)) := by
    rw [anyDropped_iff]
    intro hroom
    rw [show reply = _ from emptyReply_eq _] at hroom
    exact hsize hroom.1
  refine ⟨_, chattyHandler.serve_trace c 4 _ _, rfl, hany, fun h => ?_⟩
  exact absurd (h.dropped hany) (by decide)

end LinuxLabs.Binder
