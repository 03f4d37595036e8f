import LinuxLabs.HelloService
import LinuxLabs.BinderIoBounds

/-! The name buffer of the service handlers. The handlers copy as many units as the decoder says
there are into an array of 512 bytes; what the decoder says comes from the message. -/
namespace LinuxLabs.HelloService
open ByteMemory Binder

def Service.handler : Service → BinderHandler ServerState
  | .hello => helloServiceHandler
  | .goodbye => goodbyeServiceHandler

/-- The reader in front of the second string of a request, behind the strict-mode word and the
name of the interface. -/
def nameReader (m : Mem) (txn : BinderTransactionData) : Parcel :=
  (bioGetString16 (bioGetUint32 (bioInitFromTxn m txn)).2).2.2

/-- The read of a word by `bio_get_uint32`, address and size, if it does not fail. -/
def wordRead (p : Parcel) : List (ℕ × ℕ) := if 4 ≤ p.io.dataAvail then [(p.io.data, 4)] else []

/-- The reads of the copy loop, if it is reached. -/
def nameRead (p : Parcel) : List (ℕ × ℕ) :=
  (bioGetString16 p).1.toList.map fun s => (s, 2 * (bioGetString16 p).2.1)

/-- All that a handler reads of a message with a `*_TO` command: three words, and the name. -/
def handlerReads (m : Mem) (txn : BinderTransactionData) : List (ℕ × ℕ) :=
  wordRead (bioInitFromTxn m txn) ++ wordRead (bioGetUint32 (bioInitFromTxn m txn)).2 ++
    wordRead (nameReader m txn) ++ nameRead (nameReader m txn)

/-- The size of the array `name`. -/
def nameSize : ℕ := 512

/-- The size of the block of the interface string, whose length word is the second word of the
message. -/
def interfaceBlock (m : Mem) (txn : BinderTransactionData) : ℕ :=
  stringBlock (load32 m (txn.buffer.toNat + 4)).toNat

/-- The length word of the name, behind that block. -/
def nameLength (m : Mem) (txn : BinderTransactionData) : ℕ :=
  (load32 m (txn.buffer.toNat + 8 + interfaceBlock m txn)).toNat

/-- A handler that keeps to its bounds. It reads inside the message, and nothing else matters to
it; what it copies to `name`, the terminator included, fits; and it refuses a longer name with
nothing done. -/
structure NameSafe (svc : Service) (m : Mem) (txn : BinderTransactionData) (reply : Parcel)
    (w : World ServerState) : Prop where
  reads : ∀ a ∈ handlerReads m txn,
    txn.buffer.toNat ≤ a.1 ∧ a.1 + a.2 ≤ txn.buffer.toNat + txn.dataSize.toNat
  only : ∀ m', (∀ a ∈ handlerReads m txn, AgreeOn m m' a.1 (a.1 + a.2)) →
    svc.handler txn (bioInitFromTxn m' txn) reply w = svc.handler txn (bioInitFromTxn m txn) reply w
  writes : ∀ name, (svc.handler txn (bioInitFromTxn m txn) reply w).2.2.app.names =
    w.app.names ++ [(svc, name)] → name.length ≤ nameSize
  refuses : 12 + interfaceBlock m txn ≤ txn.dataSize.toNat → nameSize ≤ nameLength m txn →
    (svc.handler txn (bioInitFromTxn m txn) reply w).1 < 0 ∧
      (svc.handler txn (bioInitFromTxn m txn) reply w).2 = (reply, w)

/-- The message ends in front of the name or in its length word, or the word is small enough for
`name`, or the block it asks for, wrapped or not, is longer than what is left of the message. -/
def NameFits (m : Mem) (txn : BinderTransactionData) : Prop :=
  txn.dataSize.toNat < 12 + interfaceBlock m txn ∨ nameLength m txn < nameSize ∨
    txn.dataSize.toNat < 12 + interfaceBlock m txn + stringBlock (nameLength m txn)

instance (m : Mem) (txn : BinderTransactionData) : Decidable (NameFits m txn) :=
  inferInstanceAs (Decidable (_ ∨ _ ∨ _))

/-- Where a reader stands behind a word and a string. -/
lemma skip_cases {p q : Parcel} (hq : (bioGetString16 (bioGetUint32 p).2).2.2 = q) {n : ℕ}
    (hn : (load32 p.mem (p.io.data + 4)).toNat = n) :
    p.io.dataAvail < 8 + stringBlock n ∧ q.io.dataAvail = 0 ∨
      8 + stringBlock n ≤ p.io.dataAvail ∧ q.io.data = p.io.data + 8 + stringBlock n ∧
        q.io.dataAvail = p.io.dataAvail - (8 + stringBlock n) := by
  subst hq
  generalize hblock : stringBlock n = block
  by_cases h4 : 4 ≤ p.io.dataAvail
  · rw [bioGetUint32_fits h4]
    by_cases h8 : 4 ≤ (p.io.advance 4 0).dataAvail
    · by_cases hb : (p.io.advance 4 0).dataAvail < 4 + stringBlock n
      · rw [bioGetString16_long (p := ⟨p.mem, p.io.advance 4 0⟩) h8 hn hb]
        simp only [BinderIo.advance, hblock] at h8 hb ⊢
        exact .inl ⟨by omega, trivial⟩
      · rw [bioGetString16_fits (p := ⟨p.mem, p.io.advance 4 0⟩) h8 hn (Nat.le_of_not_lt hb)]
        simp only [BinderIo.advance, hblock] at h8 hb ⊢
        omega
    · rw [bioGetString16_short (p := ⟨p.mem, p.io.advance 4 0⟩) (Nat.lt_of_not_le h8)]
      simp only [BinderIo.advance] at h8 ⊢
      exact .inl ⟨by omega, trivial⟩
  · rw [bioGetUint32_short (Nat.lt_of_not_le h4), bioGetString16_short (show 0 < 4 by decide)]
    exact .inl ⟨by omega, rfl⟩

/-- Where the decoder stands in front of the name. -/
lemma nameReader_cases (m : Mem) (txn : BinderTransactionData) :
    txn.dataSize.toNat < 8 + interfaceBlock m txn ∧ (nameReader m txn).io.dataAvail = 0 ∨
      8 + interfaceBlock m txn ≤ txn.dataSize.toNat ∧
        (nameReader m txn).io.data = txn.buffer.toNat + 8 + interfaceBlock m txn ∧
        (nameReader m txn).io.dataAvail = txn.dataSize.toNat - (8 + interfaceBlock m txn) :=
  skip_cases (p := bioInitFromTxn m txn) rfl rfl

lemma nameReader_within (m : Mem) (txn : BinderTransactionData) :
    (bioGetUint32 (bioInitFromTxn m txn)).2.Within m txn.buffer.toNat
        (txn.buffer.toNat + txn.dataSize.toNat) ∧
      (nameReader m txn).Within m txn.buffer.toNat (txn.buffer.toNat + txn.dataSize.toNat) := by
  have hword := Getter.run_within .uint32 (bioInitFromTxn_within m txn)
  exact ⟨hword, Getter.run_within .string16 hword⟩

lemma wordRead_inside {p : Parcel} {m : Mem} {lo hi : ℕ} (h : p.Within m lo hi) :
    ∀ a ∈ wordRead p, lo ≤ a.1 ∧ a.1 + a.2 ≤ hi := by
  have hstart := h.start
  have hfits := h.fits
  intro a ha
  unfold wordRead at ha
  split_ifs at ha with h4
  · rw [List.mem_singleton.mp ha]
    exact ⟨hstart, by dsimp only; omega⟩
  · simp at ha

lemma headerReads_inside (m : Mem) (txn : BinderTransactionData) :
    ∀ a ∈ wordRead (bioInitFromTxn m txn) ++ wordRead (bioGetUint32 (bioInitFromTxn m txn)).2 ++
      wordRead (nameReader m txn),
      txn.buffer.toNat ≤ a.1 ∧ a.1 + a.2 ≤ txn.buffer.toNat + txn.dataSize.toNat := by
  obtain ⟨hword, hname⟩ := nameReader_within m txn
  intro a ha
  rcases List.mem_append.mp ha with ha | ha
  · rcases List.mem_append.mp ha with ha | ha
    · exact wordRead_inside (bioInitFromTxn_within m txn) a ha
    · exact wordRead_inside hword a ha
  · exact wordRead_inside hname a ha

/-- Two getters of a word at the same place of two memories that agree on what is read. -/
lemma bioGetUint32_congr {p q : Parcel} (hio : q.io = p.io)
    (h : ∀ a ∈ wordRead p, AgreeOn p.mem q.mem a.1 (a.1 + a.2)) :
    (bioGetUint32 q).1 = (bioGetUint32 p).1 ∧ (bioGetUint32 q).2.io = (bioGetUint32 p).2.io := by
  by_cases h4 : 4 ≤ p.io.dataAvail
  · have hagree := h (p.io.data, 4) (by simp [wordRead, h4])
    rw [bioGetUint32_fits h4, bioGetUint32_fits (by rwa [hio]), hio]
    exact ⟨(hagree.load32_eq le_rfl le_rfl).symm, rfl⟩
  · have h4' := Nat.lt_of_not_le h4
    rw [bioGetUint32_short h4', bioGetUint32_short (by rwa [hio]), hio]
    exact ⟨rfl, rfl⟩

lemma bioGetString16_congr {p q : Parcel} (hio : q.io = p.io)
    (h : ∀ a ∈ wordRead p, AgreeOn p.mem q.mem a.1 (a.1 + a.2)) :
    (bioGetString16 q).1 = (bioGetString16 p).1 ∧
      (bioGetString16 q).2.1 = (bioGetString16 p).2.1 ∧
      (bioGetString16 q).2.2.io = (bioGetString16 p).2.2.io := by
  obtain ⟨hword, hrest⟩ := bioGetUint32_congr hio h
  simp only [bioGetString16, hword, hrest, and_self]

lemma copyName_length (m : Mem) (s len : ℕ) : (copyName m s len).length = len + 1 := by
  simp [copyName]

lemma Service.handler_match (svc : Service) (m : Mem) {txn : BinderTransactionData}
    (hcode : txn.code = svc.cmdSayTo) (reply : Parcel) (w : World ServerState) :
    svc.handler txn (bioInitFromTxn m txn) reply w =
      match bioGetString16 (nameReader m txn) with
      | (none, _, _) => (-1, reply, w)
      | (some s, len, msg) =>
        let r := sayTo svc (copyName msg.mem s len) w.app
        (0, bioPutUint32 (bioPutUint32 reply 0) r.1.toUInt32, { w with app := r.2 }) := by
  cases svc with
  | hello =>
    have hne : txn.code ≠ helloSvrCmdSayhello := by
      rw [hcode]
      decide
    exact (if_neg hne).trans (if_pos hcode)
  | goodbye =>
    have hne : txn.code ≠ goodbyeSvrCmdSaygoodbye := by
      rw [hcode]
      decide
    exact (if_neg hne).trans (if_pos hcode)

/-- The two outcomes of a `*_TO` command: without a name it is refused, with one the name is
copied and handed on. -/
lemma Service.handler_eq (svc : Service) (m : Mem) {txn : BinderTransactionData}
    (hcode : txn.code = svc.cmdSayTo) (reply : Parcel) (w : World ServerState) :
    svc.handler txn (bioInitFromTxn m txn) reply w =
      match (bioGetString16 (nameReader m txn)).1 with
      | none => (-1, reply, w)
      | some s =>
        let r := sayTo svc (copyName m s (bioGetString16 (nameReader m txn)).2.1) w.app
        (0, bioPutUint32 (bioPutUint32 reply 0) r.1.toUInt32, { w with app := r.2 }) := by
  have hmem : (bioGetString16 (nameReader m txn)).2.2.mem = m := (nameReader_within m txn).2.mem
  rw [svc.handler_match m hcode]
  generalize bioGetString16 (nameReader m txn) = got at hmem ⊢
  obtain ⟨s, len, msg⟩ := got
  dsimp only at hmem ⊢
  cases s with
  | none => rfl
  | some s => simp only [hmem]

/-- A handler depends on the memory only where it reads. -/
lemma Service.handler_congr (svc : Service) {m m' : Mem} {txn : BinderTransactionData}
    (hcode : txn.code = svc.cmdSayTo)
    (h : ∀ a ∈ handlerReads m txn, AgreeOn m m' a.1 (a.1 + a.2)) (reply : Parcel)
    (w : World ServerState) :
    svc.handler txn (bioInitFromTxn m' txn) reply w =
      svc.handler txn (bioInitFromTxn m txn) reply w := by
  simp only [handlerReads, List.forall_mem_append] at h
  obtain ⟨⟨⟨hstrict, hiface⟩, hlength⟩, hname⟩ := h
  have hmem (m : Mem) : (bioGetUint32 (bioInitFromTxn m txn)).2.mem = m :=
    Getter.run_mem (bioInitFromTxn m txn) .uint32
  have hword := (bioGetUint32_congr (p := bioInitFromTxn m txn) (q := bioInitFromTxn m' txn) rfl
    hstrict).2
  have hskip := bioGetString16_congr hword (by rwa [hmem, hmem])
  have hread : (nameReader m txn).mem = m ∧ (nameReader m' txn).mem = m' :=
    ⟨(nameReader_within m txn).1.mem, (nameReader_within m' txn).1.mem⟩
  obtain ⟨hptr, hlen, -⟩ := bioGetString16_congr (p := nameReader m txn) (q := nameReader m' txn)
    hskip.2.2 (by rwa [hread.1, hread.2])
  rw [svc.handler_eq m' hcode, svc.handler_eq m hcode, hptr, hlen]
  cases hs : (bioGetString16 (nameReader m txn)).1 with
  | none => rfl
  | some s =>
    have hcopy : copyName m s (bioGetString16 (nameReader m txn)).2.1 =
        copyName m' s (bioGetString16 (nameReader m txn)).2.1 := by
      rw [copyName, copyName, (hname (s, _) (by simp [nameRead, hs])).units_eq le_rfl le_rfl]
    simp only [hcopy]

/-- Without a name nothing is read but the words, and nothing is done. -/
lemma nameSafe_refused {svc : Service} {m : Mem} {txn : BinderTransactionData}
    (hcode : txn.code = svc.cmdSayTo) (h : (bioGetString16 (nameReader m txn)).1 = none)
    (reply : Parcel) (w : World ServerState) : NameSafe svc m txn reply w := by
  have hout : svc.handler txn (bioInitFromTxn m txn) reply w = (-1, reply, w) := by
    rw [svc.handler_eq m hcode, h]
  refine ⟨fun a ha => ?_, fun m' hm' => svc.handler_congr hcode hm' reply w, fun name hname => ?_,
    fun _ _ => ?_⟩
  · rcases List.mem_append.mp ha with ha | ha
    · exact headerReads_inside m txn a ha
    · simp [nameRead, h] at ha
  · rw [hout] at hname
    simp at hname
  · rw [hout]
    exact ⟨show (-1 : Int32) < 0 by decide, rfl⟩

/-- When the handlers keep to their bounds, for every message of a `*_TO` command, of any size and
content: exactly if the message ends before the length word of the name, or the word is below 512,
or the block it asks for does not fit the rest of the message. -/
theorem nameSafe_iff (svc : Service) (m : Mem) (txn : BinderTransactionData)
    (hcode : txn.code = svc.cmdSayTo) (reply : Parcel) (w : World ServerState) :
    NameSafe svc m txn reply w ↔ NameFits m txn := by
  have hrefused (h : (bioGetString16 (nameReader m txn)).1 = none) :=
    nameSafe_refused hcode h reply w
  have hout := svc.handler_eq m hcode reply w
  have hmem : (nameReader m txn).mem = m := (nameReader_within m txn).2.mem
  unfold NameFits
  rcases nameReader_cases m txn with ⟨hshort, havail⟩ | ⟨hroom, hdata, havail⟩
  · exact iff_of_true (hrefused (by rw [bioGetString16_short (by omega)])) (.inl (by omega))
  have hlength : (load32 (nameReader m txn).mem (nameReader m txn).io.data).toNat =
      nameLength m txn := by
    rw [hmem, hdata]
    rfl
  by_cases h4 : (nameReader m txn).io.dataAvail < 4
  · exact iff_of_true (hrefused (by rw [bioGetString16_short h4])) (.inl (by omega))
  have h4' := Nat.le_of_not_lt h4
  by_cases hb : (nameReader m txn).io.dataAvail < 4 + stringBlock (nameLength m txn)
  · exact iff_of_true (hrefused (by rw [bioGetString16_long h4' hlength hb]))
      (.inr (.inr (by omega)))
  have hget := bioGetString16_fits h4' hlength (Nat.le_of_not_lt hb)
  rw [hget] at hout
  dsimp only at hout
  constructor
  · intro h
    have hlen := h.writes _ (by rw [hout]; rfl)
    rw [copyName_length] at hlen
    omega
  · intro hfits
    have hlen : nameLength m txn < nameSize := by omega
    refine ⟨fun a ha => ?_, fun m' hm' => svc.handler_congr hcode hm' reply w,
      fun name hnames => ?_, fun _ hlong => ?_⟩
    · rcases List.mem_append.mp ha with ha | ha
      · exact headerReads_inside m txn a ha
      · have hblock := stringBlock_eq (hlen.trans (by decide))
        rw [nameRead, hget] at ha
        simp only [Option.toList_some, List.map_cons, List.map_nil, List.mem_singleton] at ha
        rw [ha]
        dsimp only
        omega
    · rw [hout] at hnames
      obtain rfl := (Prod.mk.inj (List.singleton_inj.mp (List.append_cancel_left hnames))).2
      rw [copyName_length]
      omega
    · omega

/-- A request with an empty interface name, of the given size. -/
def requestTxn (size : UInt32) : BinderTransactionData :=
  { target := 0, cookie := 0, code := helloSvrCmdSayhelloTo, flags := 0, senderPid := 0,
    senderEuid := 0, dataSize := size, offsetsSize := 0, buffer := 0x1000, offsets := 0 }

/-- The memory of one with a name of two units. -/
def hiMem : Mem := store16 (store16 (store32 (fun _ => 0) 0x100c 2) 0x1010 104) 0x1012 105

/-- The name is copied and noted, and all bounds are kept. -/
theorem nameSafe_hi :
    (helloServiceHandler (requestTxn 24) (bioInitFromTxn hiMem (requestTxn 24))
        (emptyReply fun _ => 0) (boot [])).2.2.app.names = [(.hello, [104, 105, 0])] ∧
      NameSafe .hello hiMem (requestTxn 24) (emptyReply fun _ => 0) (boot []) := by
  refine ⟨by decide +kernel, ?_⟩
  exact (nameSafe_iff .hello hiMem (requestTxn 24) rfl _ _).mpr (by decide +kernel)

/-- The memory of one with a name of 600 units. -/
def longMem : Mem := store32 (fun _ => 0) 0x100c 600

/-- The name does not fit, and the handler returns zero. -/
theorem long_name_copied :
    (helloServiceHandler (requestTxn 1220) (bioInitFromTxn longMem (requestTxn 1220))
        (emptyReply fun _ => 0) (boot [])).1 = 0 ∧
      ¬ NameSafe .hello longMem (requestTxn 1220) (emptyReply fun _ => 0) (boot []) := by
  have hptr : (bioGetString16 (nameReader longMem (requestTxn 1220))).1 = some 0x1010 := by
    decide +kernel
  have hlen : (bioGetString16 (nameReader longMem (requestTxn 1220))).2.1 = 600 := by
    decide +kernel
  have hcode : (requestTxn 1220).code = Service.hello.cmdSayTo := rfl
  have hout := Service.hello.handler_eq longMem hcode (emptyReply fun _ => 0) (boot [])
  rw [hptr, hlen] at hout
  refine ⟨congrArg Prod.fst hout, fun h => ?_⟩
  have hlong := h.writes _ (by rw [hout]; rfl)
  rw [copyName_length] at hlong
  exact absurd hlong (by decide)

end LinuxLabs.HelloService
