import LinuxLabs.BinderDelivery
import LinuxLabs.ServiceManagerRegistry

/-! Listing the registered names. The list keeps the names in the order of their first
registration, newest first, but a reply has 240 bytes of data and its encoder stops at the
first zero of a name. -/
namespace LinuxLabs.ServiceManager
open ByteMemory Binder EventRun LastWriter

/-- A LIST request for an index. -/
structure IsList (msg : Message) (n : UInt32) : Prop where
  target : msg.txn.target = svcmgrHandle
  code : msg.txn.code = svcMgrListServices
  header : msg.HeaderOk
  size : 68 ≤ msg.size
  index : msg.word 64 = n

/-- Whoever receives the transaction decodes the name from its data, without overflow. -/
def DecodesTo (out : OutgoingTxn) (name : List UInt16) : Prop :=
  ∀ m txn, Arrives out m txn → ∃ ptr p,
    bioGetString16 (bioInitFromTxn m txn) = (some ptr, name.length, p) ∧
      units m ptr name.length = name ∧ ¬ p.io.Overflowed

/-- Indices below the number of names give the names, all others an error. -/
def ListsNames (w : World SvcState) (names : List (List UInt16)) : Prop :=
  ∀ msg n rdata, IsList msg n →
    let out := handleMessage msg rdata w
    match names[n.toNat]? with
    | some name => out.1 = 0 ∧ DecodesTo (replyTxn out.2.1 out.1) name
    | none => out.1 = -1

/-- Names that fit into a reply and are not cut short by a zero. -/
def Listable (name : List UInt16) : Prop := name.length ≤ 117 ∧ 0 ∉ name

lemma nthSvc_eq (n : ℕ) (l : List SvcInfo) : nthSvc n l = l[n]? := by
  induction n generalizing l with
  | zero => cases l <;> rfl
  | succ n ih =>
    cases l with
    | nil => rfl
    | cons si l => exact ih l

theorem IsList.handle {msg : Message} {n : UInt32} (h : IsList msg n) (w : World SvcState)
    (rdata : Mem) : handleMessage msg rdata w = match w.app.svclist[n.toNat]? with
      | none => (-1, emptyReply rdata, w)
      | some si => (0, bioPutString16 (emptyReply rdata) (some si.name), w) := by
  have hindex : msg.index = n.toNat := by rw [Message.index, if_pos h.size, h.index]
  have hreq : msg.request = .list n.toNat := by
    rw [Message.request, if_neg (not_not.mpr h.target), h.code, if_neg (by decide),
      if_neg (not_not.mpr h.header), if_neg (by decide), if_neg (by decide), if_pos rfl, hindex]
  rw [handleMessage, svcmgrHandler_request, hreq, ← nthSvc_eq]
  cases hn : nthSvc n.toNat w.app.svclist <;> simp only [Request.perform, hn]

/-- The stored name is the name and its terminator. -/
lemma SvcInfo.Ok.name_eq {si : SvcInfo} (h : si.Ok) : si.name = si.key ++ [0] := by
  have hdrop : si.name.drop si.len = [0] := by
    have hlt : si.len < si.name.length := by rw [h.storage]; omega
    have hlast : si.name[si.len] = 0 := by
      have ht := h.terminated
      rwa [List.getElem?_eq_getElem hlt, Option.some.injEq] at ht
    rw [List.drop_eq_getElem_cons hlt, hlast, List.drop_of_length_le (by rw [h.storage])]
  rw [SvcInfo.key, ← hdrop, List.take_append_drop]

lemma strlen_le {α : Type*} [Zero α] [DecidableEq α] (s : List α) : strlen s ≤ s.length := by
  induction s with
  | nil => exact le_rfl
  | cons c cs ih =>
    simp only [strlen, List.length_cons]
    split_ifs <;> omega

lemma strlen_terminated {α : Type*} [Zero α] [DecidableEq α] (s : List α) :
    strlen (s ++ [0]) = strlen s := by
  induction s with
  | nil => simp [strlen]
  | cons c cs ih => simp [strlen, ih]

lemma strlen_eq_length_iff {α : Type*} [Zero α] [DecidableEq α] {s : List α} :
    strlen s = s.length ↔ 0 ∉ s := by
  refine ⟨fun h hmem => ?_, strlen_eq_length⟩
  induction s with
  | nil => simp at hmem
  | cons c cs ih =>
    simp only [strlen, List.length_cons] at h
    split_ifs at h with hc
    · have := strlen_le cs
      exact ih (by omega) ((List.mem_cons.mp hmem).resolve_left (Ne.symm hc))

/-- A string of at most 117 units fits into the reply. -/
lemma string_reply_put (rdata : Mem) {us : List UInt16} (h : us.length ≤ 117) :
    putUnits (emptyReply rdata) us.length us = ⟨stringImage rdata 16 us.length us,
      ⟨20 + stringBlock us.length, 0, 236 - stringBlock us.length, 4, 16, 0, 0⟩⟩ := by
  have hshort : us.length < maxBioSize / 2 := h.trans_lt (by decide)
  have hblock : stringBlock us.length = (2 * us.length + 5) / 4 * 4 := stringBlock_eq (by omega)
  have hsize : stringSize us.length = 4 + stringBlock us.length := by
    rw [stringSize, if_neg (Nat.not_le.mpr hshort), stringBlock_of_short hshort]
  have hput := (putUnits_run (emptyReply rdata) us.length us).1 (by
    rw [hsize, emptyReply_eq]
    simp only
    omega)
  rw [hput, hsize, emptyReply_eq]
  simp only [BinderIo.advance, Parcel.mk.injEq, BinderIo.mk.injEq, and_true, true_and]
  omega

theorem string_reply_fits (rdata : Mem) {us : List UInt16} (h : us.length ≤ 117) :
    DecodesTo ((putUnits (emptyReply rdata) us.length us).outgoing 0 0 0) us := by
  have hshort : us.length < maxBioSize / 2 := h.trans_lt (by decide)
  rw [string_reply_put rdata h]
  intro m txn harr
  have hholds := harr.holds (k := 0) (f := .string us) (stringImage_holds rdata 16 hshort) hshort
    (by simp only [Field.size]; omega) (by simp [OutgoingTxn.Outside, Parcel.outgoing, words])
  have havail : (bioInitFromTxn m txn).io.dataAvail = 4 + stringBlock us.length := by
    have hd := harr.dataSize
    simp only [Parcel.outgoing, read_length] at hd
    simp only [bioInitFromTxn, hd]
    omega
  have hlen : (load32 m txn.buffer.toNat).toNat = us.length := by
    have hl : load32 m txn.buffer.toNat = UInt32.ofNat us.length := hholds.1
    rw [hl, UInt32.toNat_ofNat']
    omega
  refine ⟨_, _, bioGetString16_fits (p := bioInitFromTxn m txn) (by omega) hlen havail.ge,
    hholds.2, ?_⟩
  rw [advance_overflowed]
  simp only [bioInitFromTxn, BinderIo.Overflowed]
  decide

/-- Of a longer one only the length word arrives. -/
theorem string_reply_full (rdata : Mem) {len : ℕ} (us name : List UInt16) (h : 118 ≤ len)
    (hmax : len ≤ 127) :
    ¬ DecodesTo ((putUnits (emptyReply rdata) len us).outgoing 0 0 0) name := by
  have hshort : len < maxBioSize / 2 := hmax.trans_lt (by decide)
  have hw : wrap ((len + 1) * 2) = (len + 1) * 2 := wrap_of_lt (by omega)
  have halign : align4 ((len + 1) * 2) = ((len + 1) * 2 + 3) / 4 * 4 := align4_of_lt (by omega)
  have hout : (putUnits (emptyReply rdata) len us).outgoing 0 0 0 =
      .word 0 (UInt32.ofNat len) := by
    have h4 := bioPutUint32_fits (p := emptyReply rdata) (n := UInt32.ofNat len)
      (by simp [emptyReply_eq])
    simp only [putUnits, Nat.not_le.mpr hshort, if_false, h4, hw]
    rw [bioAlloc_full (by simp only [emptyReply_eq, BinderIo.advance, halign]; omega)]
    have hbytes : ByteMemory.read (store32 rdata 16 (UInt32.ofNat len)) 16 4 =
      bytes32 (UInt32.ofNat len) := holdsBytes_write rdata 16 (bytes32 (UInt32.ofNat len))
    simp [emptyReply_eq, Parcel.outgoing, BinderIo.advance, BinderIo.overflow, words, hbytes,
      OutgoingTxn.word]
  rw [hout]
  intro hdec
  have harr : Arrives (.word 0 (UInt32.ofNat len)) _ _ :=
    arrives_plain rfl (by simp [OutgoingTxn.word])
  obtain ⟨ptr, p, hget, -⟩ := hdec _ _ harr
  obtain ⟨hword, hsize, -⟩ := harr.word
  rw [bioGetString16_long (n := len) (by simp only [bioInitFromTxn, hsize]; omega)
    (by simp only [bioInitFromTxn, hword, UInt32.toNat_ofNat']; omega)
    (by rw [stringBlock, hw, halign]; simp only [bioInitFromTxn, hsize]; omega)] at hget
  simp at hget

/-- One reply decodes to one name. -/
lemma DecodesTo.unique {out : OutgoingTxn} {name name' : List UInt16} (h : DecodesTo out name)
    (h' : DecodesTo out name') (hoffs : out.offsets = []) (hlen : out.data.length < 2^32) :
    name = name' := by
  obtain ⟨ptr, p, hget, hu, -⟩ := h _ _ (arrives_plain hoffs hlen)
  obtain ⟨ptr', p', hget', hu', -⟩ := h' _ _ (arrives_plain hoffs hlen)
  rw [hget] at hget'
  simp only [Prod.mk.injEq, Option.some.injEq] at hget'
  rw [← hu, ← hu', hget'.1, hget'.2.1]

/-- The name of an entry is decoded from its reply exactly if it is listable. -/
theorem SvcInfo.Ok.decodes_iff {si : SvcInfo} (h : si.Ok) (rdata : Mem) :
    DecodesTo (replyTxn (bioPutString16 (emptyReply rdata) (some si.name)) 0) si.key ↔
      Listable si.key := by
  have hlen := h.key_length
  have hle := strlen_le si.key
  have hmax := h.max
  have hstr : strlen si.name = strlen si.key := by rw [h.name_eq, strlen_terminated]
  have htake : si.name.take (strlen si.key) = si.key.take (strlen si.key) := by
    rw [h.name_eq, List.take_append_of_le_length hle]
  have hus : (si.key.take (strlen si.key)).length = strlen si.key := by
    rw [List.length_take, Nat.min_eq_left hle]
  have hout : replyTxn (bioPutString16 (emptyReply rdata) (some si.name)) 0 = (putUnits
      (emptyReply rdata) (strlen si.key) (si.key.take (strlen si.key))).outgoing 0 0 0 := by
    simp only [replyTxn, ne_eq, not_true_eq_false, if_false, bioPutString16, hstr, htake]
  rw [hout]
  by_cases h117 : strlen si.key ≤ 117
  · have hshort : (si.key.take (strlen si.key)).length ≤ 117 := by rwa [hus]
    have hfits := string_reply_fits rdata hshort
    rw [hus] at hfits
    constructor
    · intro hdec
      -- the name and its part in front of the first zero are decoded from one reply
      have hput := string_reply_put rdata hshort
      rw [hus] at hput
      have hblock : stringBlock (strlen si.key) = (2 * strlen si.key + 5) / 4 * 4 :=
        stringBlock_eq (by omega)
      have heq := hdec.unique hfits (by rw [hput]; simp [Parcel.outgoing, words])
        (by rw [hput]; simp only [Parcel.outgoing, read_length, hblock]; omega)
      have hfull : strlen si.key = si.key.length := by rw [← hus, ← heq]
      exact ⟨by omega, strlen_eq_length_iff.mp hfull⟩
    · intro hl
      have hfull := strlen_eq_length hl.2
      rw [hfull, List.take_length] at hfits ⊢
      exact hfits
  · refine iff_of_false (string_reply_full rdata _ _ (by omega) (by omega)) fun hl => ?_
    have hlong := hl.1
    omega

/-- Every index a LIST request can carry is carried by one. -/
def listMessage (n : UInt32) : Message :=
  ⟨store32 (lookupMem []) 64 n, requestTxn svcMgrListServices 1000 68 0⟩

lemma listMessage_isList (n : UInt32) : IsList (listMessage n) n := by
  have hlow : AgreeOn (listMessage n).mem (lookupMem []) 0 64 :=
    store32_agree_below (lookupMem []) 64 0 64 n le_rfl
  have hsize : (listMessage n).size = 68 := rfl
  refine ⟨rfl, rfl, ⟨by rw [hsize]; decide, ?_, ?_⟩, by rw [hsize], ?_⟩
  · have hw : (listMessage n).word 4 = load32 (lookupMem []) 4 :=
      hlow.load32_eq (a := 4) (by decide) (by decide)
    rw [hw]
    decide +kernel
  · have hu : (listMessage n).unitsAt 8 26 = units (lookupMem []) 8 26 :=
      hlow.units_eq (a := 8) (by decide) (by decide)
    rw [hu]
    decide +kernel
  · exact load32_store32 (lookupMem []) 64 n

lemma RegistryOk.length_le {l : List SvcInfo} (h : RegistryOk l) : l.length ≤ 2^32 := by
  have hnodup : ((l.map SvcInfo.addr).map UInt32.toNat).Nodup :=
    h.addrs.map fun _ _ he => UInt32.toNat_inj.mp he
  have hsub : ((l.map SvcInfo.addr).map UInt32.toNat).toFinset ⊆ Finset.range (2^32) := by
    intro x hx
    obtain ⟨a, -, rfl⟩ := List.mem_map.mp (List.mem_toFinset.mp hx)
    exact Finset.mem_range.mpr a.toNat_lt
  have hcard := Finset.card_le_card hsub
  rwa [List.toFinset_card_of_nodup hnodup, Finset.card_range, List.length_map, List.length_map]
    at hcard

/-- The handler lists the names on the list exactly when all of them are listable. -/
theorem RegistryOk.listsNames_iff {w : World SvcState} (hok : RegistryOk w.app.svclist) :
    ListsNames w (w.app.svclist.map SvcInfo.key) ↔
      ∀ name ∈ w.app.svclist.map SvcInfo.key, Listable name := by
  constructor
  · intro h name hname
    obtain ⟨si, hsi, rfl⟩ := List.mem_map.mp hname
    obtain ⟨i, hi⟩ := List.mem_iff_getElem?.mp hsi
    have hlt := (List.getElem?_eq_some_iff.mp hi).1
    have hidx : (UInt32.ofNat i).toNat = i := by
      have hmax := hok.length_le
      rw [UInt32.toNat_ofNat']
      omega
    have hat := h _ _ (fun _ => 0) (listMessage_isList (UInt32.ofNat i))
    rw [(listMessage_isList (UInt32.ofNat i)).handle, hidx] at hat
    simp only [List.getElem?_map, hi, Option.map_some, true_and] at hat
    exact ((hok.entries si hsi).decodes_iff _).mp hat
  · intro h msg n rdata hmsg
    rw [hmsg.handle, List.getElem?_map]
    cases hi : w.app.svclist[n.toNat]? with
    | none => rfl
    | some si =>
      have hsi := List.mem_of_getElem? hi
      exact ⟨rfl, ((hok.entries si hsi).decodes_iff _).mpr (h _ (List.mem_map_of_mem hsi))⟩

/-- The names accepted so far, most recently first registered first, are distinct, and a LIST
request enumerates them, with an error for every index behind the last, exactly when each of
them has at most 117 units and no zero among these. -/
theorem listing_iff (mallocs : List UInt32) (es : List SvcEvent) :
    let w := svcMachine.run (start mallocs) es
    let log := svcMachine.history (start mallocs) es
    (firsts log).Nodup ∧ (∀ name, name ∈ firsts log ↔ ∃ v, .set name v ∈ log) ∧
      (ListsNames w (firsts log) ↔ ∀ name ∈ firsts log, name.length ≤ 117 ∧ 0 ∉ name) := by
  intro w log
  obtain ⟨hok, hreg⟩ := run_handlesAgree mallocs es
  have hkeys : w.app.svclist.map SvcInfo.key = firsts log := by rw [hreg.keys, firsts_map]
  rw [← hkeys]
  exact ⟨hok.keys, fun name => hkeys ▸ mem_firsts log name, hok.listsNames_iff⟩

def longName : List UInt16 := List.replicate 118 97

def longNameRun : List SvcEvent := [.transact (addMessage longName 5 0) fun _ => 0]

/-- A name of 118 units is accepted, but its reply overflows. -/
theorem long_name_not_listed :
    firsts (svcMachine.history (start [64]) longNameRun) = [longName] ∧
      ¬ ListsNames (svcMachine.run (start [64]) longNameRun)
        (firsts (svcMachine.history (start [64]) longNameRun)) := by
  have hnames : firsts (svcMachine.history (start [64]) longNameRun) = [longName] := by
    decide +kernel
  obtain ⟨hok, hreg⟩ := run_handlesAgree [64] longNameRun
  have hkeys := hreg.keys
  rw [firsts_map, hnames] at hkeys
  generalize svcMachine.run (start [64]) longNameRun = w at hkeys hok ⊢
  refine ⟨hnames, fun h => ?_⟩
  rw [hnames, ← hkeys, hok.listsNames_iff, hkeys] at h
  have hlen := (h longName (List.mem_singleton_self _)).1
  rw [longName, List.length_replicate] at hlen
  omega

end LinuxLabs.ServiceManager
