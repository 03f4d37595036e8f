import LinuxLabs.ServiceClients

/-! Publish and lookup, end to end. An exchange is everything the driver and the manager do
between the transaction a stub writes and the reply it reads. -/
namespace LinuxLabs.ServiceManager
open ByteMemory Binder EventRun LastWriter

variable {σ Proc Node : Type} {D : Driver Proc Node} {p q : Proc}

/-- The message the manager gets, the stack array of its reply and what the caller reads. -/
structure Exchange where
  msg : Message
  rdata : Mem
  answer : Answer

/-- The driver serves a call of process `p` to the context manager, whose node has address zero,
and brings back what the manager in state `w` replies. -/
structure Serves (D : Driver Proc Node) (p : Proc) (out : OutgoingTxn) (w : World SvcState)
    (x : Exchange) : Prop where
  request : D.Delivers p D.manager out x.msg.mem x.msg.txn
  target : x.msg.txn.target = svcmgrHandle
  code : x.msg.txn.code = out.code
  sender : x.msg.txn.senderEuid = D.uid p
  reply : D.Delivers D.manager p
    (replyTxn (handleMessage x.msg x.rdata w).2.1 (handleMessage x.msg x.rdata w).1)
    x.answer.last.input.mem x.answer.txn

/-- What the manager gets to see of a call; an overflowed message is never sent. -/
def sent (msg : Parcel) (x : Exchange) : List SvcEvent :=
  if msg.io.Overflowed then [] else [.transact x.msg x.rdata]

/-- The call of a stub is served, if it is made at all. -/
def CallServed (D : Driver Proc Node) (p : Proc) (msg : Parcel) (code : UInt32)
    (w : World SvcState) (x : Exchange) : Prop :=
  ¬ msg.io.Overflowed → Serves D p (msg.outgoing binderServiceManager code 0) w x

lemma replyTxn_word (rdata : Mem) (v : UInt32) :
    replyTxn (bioPutUint32 (emptyReply rdata) v) 0 = .word 0 v := by
  have hbytes : ByteMemory.read (store32 rdata 16 v) 16 4 = bytes32 v :=
    holdsBytes_write rdata 16 (bytes32 v)
  rw [emptyReply_eq, bioPutUint32_fits (by simp)]
  simp [replyTxn, Parcel.outgoing, BinderIo.advance, words, hbytes, OutgoingTxn.word]

lemma replyTxn_status (reply : Parcel) {status : Int32} (h : status ≠ 0) :
    replyTxn reply status = .word tfStatusCode status.toUInt32 := by
  simp [replyTxn, h, OutgoingTxn.word]

lemma request_of_add {msg : Message} (hcode : msg.txn.code = svcMgrAddService) :
    msg.request = .reject ∨ ∃ s len handle iso, msg.request = .add s len handle iso := by
  have hping : svcMgrAddService ≠ pingTransaction := by decide
  have hfind : ¬ (svcMgrAddService = svcMgrGetService ∨ svcMgrAddService = svcMgrCheckService) := by
    decide
  simp only [Message.request, hcode, hping, hfind, if_false, if_true]
  split_ifs <;> simp

/-- An ADD request is answered by one word, its status, and the status tells whether it was
accepted. -/
theorem add_reply {msg : Message} {w : World SvcState} (hok : RegistryOk w.app.svclist)
    (hcode : msg.txn.code = svcMgrAddService) (rdata : Mem) :
    let out := handleMessage msg rdata w
    (∃ flags, replyTxn out.2.1 out.1 = .word flags out.1.toUInt32) ∧
      (out.1 = 0 ↔ ∃ name handle, IsAdd msg name handle ∧ AllocOk w.app name) := by
  intro out
  have hout : out = msg.request.perform msg (emptyReply rdata) w := svcmgrHandler_request _ _ _
  have hacc : (∃ name handle, IsAdd msg name handle ∧ AllocOk w.app name) → out.1 = 0 := by
    rintro ⟨name, handle, hadd, hal⟩
    exact (hadd.accepted hok hal rdata).1
  rcases request_of_add hcode with hr | ⟨s, len, handle, iso, hr⟩
  · rw [hr] at hout
    simp only [Request.perform] at hout
    rw [hout] at hacc ⊢
    exact ⟨⟨_, replyTxn_status _ (by simp)⟩, fun he => by simp at he, hacc⟩
  · rw [hr] at hout
    simp only [Request.perform] at hout
    by_cases h0 : (doAddService w msg.mem s len handle iso msg.txn.senderPid).1 = 0
    · simp only [h0, ne_eq, not_true_eq_false, if_false] at hout
      refine ⟨⟨0, by rw [hout]; exact replyTxn_word rdata 0⟩, fun _ => ?_, hacc⟩
      refine ⟨_, _, (observe_iff_isAdd hok rdata (units msg.mem s len) handle).mp ⟨iso, ?_⟩⟩
      simp only [SvcEvent.observe, hr, h0, if_true]
    · simp only [h0, ne_eq, not_false_eq_true, if_true] at hout
      rw [hout] at hacc ⊢
      exact ⟨⟨_, replyTxn_status _ (by simp)⟩, fun he => by simp at he, hacc⟩

/-- A message is a request for one name and one handle only. -/
lemma IsAdd.unique {msg : Message} {name name' : List UInt16} {handle handle' : UInt32}
    (h : IsAdd msg name handle) (h' : IsAdd msg name' handle') :
    name = name' ∧ handle = handle' := by
  have hlen : name.length = name'.length := h.len.symm.trans h'.len
  constructor
  · rw [← h.spelled, ← h'.spelled, hlen]
  · rw [← h.ref, ← h'.ref, hlen]

/-- The manager accepts a published name exactly if its length is acceptable and memory can be
had. -/
theorem publish_accepted_iff {w : World SvcState} {iodata : Mem} {name : List UInt8}
    {ptr : UInt32} {x : Exchange} (h : ¬ (publishMsg iodata name ptr).io.Overflowed)
    (hs : Serves D p ((publishMsg iodata name ptr).outgoing binderServiceManager svcMgrAddService 0)
      w x) :
    (∃ name' handle, IsAdd x.msg name' handle ∧ AllocOk w.app name') ↔
      (1 ≤ strlen name ∧ strlen name ≤ 127) ∧ AllocOk w.app (wide name) := by
  obtain ⟨hadd, honly⟩ := publish_received h hs.request hs.target hs.code
  constructor
  · rintro ⟨name', handle, hadd', hal⟩
    have hlen := honly name' handle hadd'
    obtain ⟨rfl, -⟩ := hadd'.unique (hadd hlen)
    exact ⟨hlen, hal⟩
  · rintro ⟨hlen, hal⟩
    exact ⟨_, _, hadd hlen, hal⟩

/-- The stubs behind a call that has returned. -/
lemma svcmgrPublish_answered {iodata : Mem} {target ptr : UInt32} {name : List UInt8}
    {death : UInt32 → World σ → World σ} {reads : List (Option ParseInput)} {cw cw' : World σ}
    {reply : Parcel} (h : binderCall (publishMsg iodata name ptr) ⟨iodata, BinderIo.uninit⟩ target
      svcMgrAddService death reads cw = some (0, reply, cw')) :
    svcmgrPublish iodata target name ptr death reads cw =
      some ((bioGetUint32 reply).1.toInt32, (binderDone (bioGetUint32 reply).2 cw').2) := by
  rw [svcmgrPublish, h]
  rfl

lemma svcmgrLookup_answered {iodata : Mem} {target : UInt32} {name : List UInt8}
    {death : UInt32 → World σ → World σ} {reads : List (Option ParseInput)} {cw cw' : World σ}
    {reply : Parcel} (h : binderCall (requestMsg iodata name) ⟨iodata, BinderIo.uninit⟩ target
      svcMgrCheckService death reads cw = some (0, reply, cw')) :
    ∃ cw'', svcmgrLookup iodata target name death reads cw = some ((bioGetRef reply).1, cw'') := by
  rw [svcmgrLookup, h]
  exact ⟨_, rfl⟩

/-- `svcmgr_publish` returns, and returns zero exactly if the manager accepts. -/
theorem publish_returns {w : World SvcState} (hok : RegistryOk w.app.svclist) {iodata : Mem}
    {name : List UInt8} {ptr : UInt32} {x : Exchange}
    (hserve : CallServed D p (publishMsg iodata name ptr) svcMgrAddService w x)
    (death : UInt32 → World σ → World σ) (cw : World σ) :
    ∃ status cw', svcmgrPublish iodata binderServiceManager name ptr death x.answer.reads cw =
        some (status, cw') ∧
      (status = 0 ↔ (1 ≤ strlen name ∧ strlen name ≤ 127) ∧ AllocOk w.app (wide name)) := by
  by_cases hov : (publishMsg iodata name ptr).io.Overflowed
  · refine ⟨-1, cw, ?_, ?_⟩
    · rw [svcmgrPublish, binderCall_overflowed hov]
      rfl
    · refine iff_of_false (by decide) fun hlen => ?_
      exact publishMsg_clear iodata ptr hlen.1.2 hov
  · have hs := hserve hov
    obtain ⟨cw', hcall⟩ := binderCall_answer hov x.answer ⟨iodata, BinderIo.uninit⟩
      binderServiceManager svcMgrAddService death cw
    obtain ⟨⟨flags, hword⟩, hstatus⟩ := add_reply hok hs.code x.rdata
    have harr := hs.reply.toArrives
    rw [hword] at harr
    obtain ⟨hload, hsize, -⟩ := harr.word
    have hget : (bioGetUint32 (bioInitFromTxn x.answer.last.input.mem x.answer.txn)).1 =
        (handleMessage x.msg x.rdata w).1.toUInt32 := by
      rw [bioGetUint32_fits (p := bioInitFromTxn x.answer.last.input.mem x.answer.txn) hsize.ge]
      exact hload
    refine ⟨_, _, svcmgrPublish_answered hcall, ?_⟩
    rw [hget, Int32.toInt32_toUInt32, hstatus, publish_accepted_iff hov hs]

/-- What the manager notes down of a published name. -/
theorem publish_history {w : World SvcState} (hok : RegistryOk w.app.svclist) {iodata : Mem}
    {name : List UInt8} {ptr : UInt32} {x : Exchange}
    (hserve : CallServed D p (publishMsg iodata name ptr) svcMgrAddService w x) :
    ((1 ≤ strlen name ∧ strlen name ≤ 127) ∧ AllocOk w.app (wide name) →
      ∃ iso, svcMachine.history w (sent (publishMsg iodata name ptr) x) =
        [.set (wide name) (D.handle D.manager (D.node p ptr), iso)]) ∧
      (¬ ((1 ≤ strlen name ∧ strlen name ≤ 127) ∧ AllocOk w.app (wide name)) →
        (svcMachine.run w (sent (publishMsg iodata name ptr) x)).app.svclist = w.app.svclist) := by
  unfold sent
  by_cases hov : (publishMsg iodata name ptr).io.Overflowed
  · rw [if_pos hov]
    refine ⟨fun hlen => ?_, fun _ => rfl⟩
    exact absurd hov (publishMsg_clear iodata ptr hlen.1.2)
  · have hs := hserve hov
    rw [if_neg hov]
    constructor
    · rintro ⟨hlen, hal⟩
      have hadd := (publish_received hov hs.request hs.target hs.code).1 hlen
      obtain ⟨iso, hobs⟩ := (observe_iff_isAdd hok x.rdata _ _).mpr ⟨hadd, hal⟩
      exact ⟨iso, by simpa [Machine.history, svcMachine] using hobs⟩
    · intro hno
      rw [← publish_accepted_iff hov hs] at hno
      exact (refused_unchanged hok hno x.rdata).1

/-- A reply of one word holds no reference. -/
lemma bioGetRef_word {flags v : UInt32} {m : Mem} {txn : BinderTransactionData}
    (h : Arrives (.word flags v) m txn) : (bioGetRef (bioInitFromTxn m txn)).1 = 0 := by
  rw [bioGetRef_fails]
  rintro ⟨⟨k, hk, -⟩, -⟩
  simp only [bioInitFromTxn, h.word.2.2, sizeofSizeT] at hk
  omega

/-- The reply with a reference: one object at the start of the data, listed in the table. -/
def refReply (rdata : Mem) (handle : UInt32) : Parcel :=
  ⟨fillObj (store32 rdata 0 0) 16 binderTypeHandle handle, ⟨32, 4, 224, 3, 16, 0, 0⟩⟩

lemma bioPutRef_reply (rdata : Mem) {handle : UInt32} (h : handle ≠ 0) :
    bioPutRef (emptyReply rdata) handle = refReply rdata handle := by
  rw [bioPutRef_fits h (emptyReply_room rdata), emptyReply_eq]
  rfl

lemma refReply_offsets (rdata : Mem) (handle : UInt32) :
    ((refReply rdata handle).outgoing 0 0 0).offsets = [0] := by
  have hentry : load32 (refReply rdata handle).mem 0 = 0 := by
    rw [refReply, (fillObj_agree_off _ 16 0 4 _ _ (by decide)).load32_eq le_rfl le_rfl,
      load32_store32]
  have hio : (refReply rdata handle).io.offs0 = 0 ∧ (refReply rdata handle).io.offs = 4 :=
    ⟨rfl, rfl⟩
  simp [Parcel.outgoing, words, hio, hentry]

/-- A reference in a reply reaches the caller as its own handle for the node. -/
theorem bioGetRef_delivered {rdata m : Mem} {txn : BinderTransactionData} {n : Node}
    (h : D.Delivers D.manager q ((refReply rdata (D.handle D.manager n)).outgoing 0 0 0) m txn) :
    (bioGetRef (bioInitFromTxn m txn)).1 = D.handle q n := by
  have hofs := refReply_offsets rdata (D.handle D.manager n)
  have hobj := load_fillObj (store32 rdata 0 0) 16 binderTypeHandle (D.handle D.manager n)
  have hsize : txn.dataSize.toNat = 16 := by
    rw [h.dataSize]
    rfl
  have hosize : txn.offsetsSize.toNat = 4 := by rw [h.offsetsSize, hofs]; rfl
  have hlisted : load32 m txn.offsets.toNat = 0 := by
    have ho := h.offsets
    rw [hofs] at ho
    simpa [words] using ho
  have hwords := h.objects 0 (by rw [hofs]; simp) n (by
    right
    rw [outgoing_loadWord (by simp [refReply]), outgoing_loadWord (by simp [refReply])]
    exact ⟨hobj.1, hobj.2⟩)
  rw [UInt32.toNat_zero, Nat.add_zero] at hwords
  have hl : (bioInitFromTxn m txn).Listed := by
    refine ⟨0, ?_, ?_⟩
    · simp only [bioInitFromTxn, hosize]
      decide
    · simp only [bioInitFromTxn, Nat.mul_zero, Nat.add_zero, hlisted]
      simp
  have htype : load32 (bioInitFromTxn m txn).mem (bioInitFromTxn m txn).io.data =
      binderTypeHandle := hwords.1
  rw [bioGetRef_fits hl (by simp only [bioInitFromTxn, hsize]; exact le_rfl), if_pos htype]
  exact hwords.2

lemma answer_of_not_live {l : List SvcInfo} {name : List UInt16} (uid : UInt32)
    (h : (l.find? fun si => si.key = name).bind SvcInfo.live = none) : answer l name uid = 0 := by
  unfold answer
  cases hf : l.find? (fun si => si.key = name) with
  | none => rfl
  | some si =>
    have hz : si.handle = 0 := by
      by_contra hne
      simp [hf, SvcInfo.live, hne] at h
    simp [hz]

/-- A live name is short enough for everything on the way. -/
lemma HandlesAgree.live_short {w : World SvcState} {log : List RegEvent} (ha : HandlesAgree w log)
    {name : List UInt8} (hlive : lookup log (wide name) ≠ none) : strlen name ≤ 127 := by
  obtain ⟨hok, hreg⟩ := ha
  have hfind := hreg.find (wide name)
  rw [lookup_map] at hfind
  cases hf : w.app.svclist.find? (fun si => si.key = wide name) with
  | none =>
    rw [hf, Option.bind_none] at hfind
    exact absurd (Option.map_eq_none_iff.mp hfind.symm) hlive
  | some si =>
    have hkey : si.key = wide name := by simpa using List.find?_some hf
    have hsi := hok.entries si (List.mem_of_find?_eq_some hf)
    rw [← wide_length, ← hkey, hsi.key_length]
    exact hsi.max

/-- No entry has the length that a refused string is received with. -/
lemma RegistryOk.findSvc_long {l : List SvcInfo} (hok : RegistryOk l) (m : Mem) (s16 : ℕ) :
    findSvc m s16 (2^32 - 1) l = none := by
  rw [findSvc, List.find?_eq_none]
  intro si hsi
  have hmax := (hok.entries si hsi).max
  have hne : ¬ 2^32 - 1 = si.len := by omega
  simp only [hne, decide_false, Bool.false_and, Bool.false_eq_true, not_false_eq_true]

/-- `svcmgr_lookup` returns: zero for a name without a live registration, and the caller's own
handle for the node that is registered. -/
theorem lookup_returns {w : World SvcState} {log : List RegEvent} (ha : HandlesAgree w log)
    {iodata : Mem} {name : List UInt8} {x : Exchange}
    (hserve : CallServed D q (requestMsg iodata name) svcMgrCheckService w x)
    (death : UInt32 → World σ → World σ) (cw : World σ) :
    ∃ h cw', svcmgrLookup iodata binderServiceManager name death x.answer.reads cw =
        some (h, cw') ∧
      (lookup log (wide name) = none → h = 0) ∧
      ∀ n iso, ¬ isIsolated (D.uid q) →
        lookup log (wide name) = some (D.handle D.manager n, iso) → h = D.handle q n := by
  have hok := ha.1
  have hfind : (w.app.svclist.find? fun si => si.key = wide name).bind SvcInfo.live =
      (lookup log (wide name)).map Prod.fst := by rw [ha.2.find, lookup_map]
  have hshort : lookup log (wide name) ≠ none → strlen name ≤ 127 := ha.live_short
  by_cases hov : (requestMsg iodata name).io.Overflowed
  · refine ⟨0, cw, ?_, fun _ => rfl, fun n iso _ hl => ?_⟩
    · rw [svcmgrLookup, binderCall_overflowed hov]
      rfl
    · exact absurd hov (requestMsg_clear iodata (hshort (by simp [hl])))
  · have hs := hserve hov
    obtain ⟨cw', hcall⟩ := binderCall_answer hov x.answer ⟨iodata, BinderIo.uninit⟩
      binderServiceManager svcMgrCheckService death cw
    obtain ⟨cw'', hstub⟩ := svcmgrLookup_answered hcall
    have hreply := hs.reply
    have hrec := lookup_received hov hs.request.toArrives hs.target hs.code
    refine ⟨_, cw'', hstub, ?_⟩
    split_ifs at hrec with hlt
    · rw [hrec.handle hok] at hreply
      constructor
      · intro hnone
        have h0 := answer_of_not_live x.msg.txn.senderEuid (hfind.trans (by rw [hnone]; rfl))
        simp only [h0, if_true, replyTxn_word] at hreply
        exact bioGetRef_word hreply.toArrives
      · intro n iso hu hl
        have hans : answer w.app.svclist (wide name) x.msg.txn.senderEuid = _ :=
          answer_of_not_isolated (by rw [hs.sender]; exact hu)
        rw [hfind, hl, Option.map_some, Option.getD_some] at hans
        simp only [hans, D.handle_ne, if_false, bioPutRef_reply x.rdata (D.handle_ne _ n)] at hreply
        exact bioGetRef_delivered hreply
    · have hlong : ¬ strlen name ≤ 127 := fun hle => hlt (hle.trans_lt (by decide))
      rw [handleMessage, svcmgrHandler_request, hrec] at hreply
      simp only [Request.perform, doFindService, svcCanFind, checkMacPermsFromLookup, Bool.not_true,
        Bool.false_eq_true, if_false, hok.findSvc_long, if_true, replyTxn_word] at hreply
      refine ⟨fun _ => bioGetRef_word hreply.toArrives, fun n iso _ hl => ?_⟩
      exact absurd (hshort (by simp [hl])) hlong

/-- Three processes and one node, which they know as 5, 7 and 9; process 0 is the manager. -/
def threeProcesses : Driver (Fin 3) Unit where
  manager := 0
  uid _ := 1000
  node _ _ := ()
  handle p _ := 5 + 2 * UInt32.ofNat p
  handle_ne := by decide
  handle_inj _ _ _ _ := rfl

/-- A reply that comes with the first read. -/
def promptAnswer (m : Mem) (size offsets : ℕ) : Answer where
  waits := []
  last := .ofCmds m [.noop, .transactionComplete,
      .reply ⟨0, 0, 0, 0, 0, 0, UInt32.ofNat size, UInt32.ofNat (4 * offsets), 0, 4096⟩]
    (by simp [streamBytes, BinderReturn.bytes, BinderTransactionData.bytes_length])
  before := [.noop, .transactionComplete]
  after := []
  txn := ⟨0, 0, 0, 0, 0, 0, UInt32.ofNat size, UInt32.ofNat (4 * offsets), 0, 4096⟩
  cmds := rfl
  waiting := by simp
  ordinary := by simp [BinderReturn.Ordinary]

lemma hiShort : strlen ([104, 105] : List UInt8) ≤ 127 := by decide

def hiMsg : Parcel := publishMsg (fun _ => 0) [104, 105] 0xbeef

def hiRequest : Parcel := requestMsg (fun _ => 0) [104, 105]

/-- Process 1 publishes the name `hi`; the manager answers with status zero. -/
def publishHi : Exchange :=
  ⟨⟨(hiMsg.outgoing 0 svcMgrAddService 0).rewritten 76 5, requestTxn svcMgrAddService 1000 92 1⟩,
    fun _ => 0, promptAnswer (fun _ => 0) 4 0⟩

/-- Process 2 looks the name up; the manager answers with a reference. -/
def lookupHi : Exchange :=
  ⟨⟨write (fun _ => 0) 0 (hiRequest.outgoing 0 svcMgrCheckService 0).data,
      requestTxn svcMgrCheckService 1000 76 0⟩,
    fun _ => 0, promptAnswer (fillObj (fun _ => 0) 0 binderTypeHandle 9) 16 1⟩

lemma publishHi_delivered : threeProcesses.Delivers 1 0 (hiMsg.outgoing 0 svcMgrAddService 0)
    publishHi.msg.mem publishHi.msg.txn := by
  obtain ⟨hofs, hlen, hden⟩ := publishMsg_outgoing
    (publishMsg_clear (fun _ => 0) 0xbeef hiShort) threeProcesses 1 svcMgrAddService 0
  have hsize : nameSize [104, 105] = 12 := by decide
  rw [hsize] at hofs hlen hden
  exact Driver.delivers_object 0 hofs (hlen.trans_le (by decide))
    (le_of_le_of_eq (by decide) hlen.symm) hden rfl rfl hlen.symm rfl

lemma publishHi_served : CallServed threeProcesses 1 hiMsg svcMgrAddService (start [64])
    publishHi := by
  intro hov
  have hok : RegistryOk (start [64]).app.svclist := (run_handlesAgree [64] []).1
  have hcode : publishHi.msg.txn.code = svcMgrAddService := rfl
  obtain ⟨⟨flags, hword⟩, hzero⟩ := add_reply hok hcode publishHi.rdata
  have hadd := (publish_received hov publishHi_delivered rfl rfl).1 (by decide)
  have hstatus := hzero.mpr ⟨_, _, hadd, .inr (by decide)⟩
  have hbytes : ByteMemory.read publishHi.answer.last.input.mem 0 4 = bytes32 0 := by
    decide +kernel
  refine ⟨publishHi_delivered, rfl, rfl, rfl, ?_⟩
  rw [hword, hstatus]
  have harr : Arrives (.word flags 0) publishHi.answer.last.input.mem publishHi.answer.txn :=
    arrives_of_holdsBytes rfl rfl rfl hbytes
  exact harr.delivers rfl _ _ _

lemma hiRequest_outgoing : (hiRequest.outgoing 0 svcMgrCheckService 0).offsets = [] ∧
    (hiRequest.outgoing 0 svcMgrCheckService 0).data.length = 76 := by
  obtain ⟨-, hio, -⟩ := requestMsg_encoded
    (requestMsg_clear (fun _ => 0) hiShort)
  have hsize : nameSize [104, 105] = 12 := by decide
  constructor
  · simp [hiRequest, Parcel.outgoing, hio, requestStart_eq, BinderIo.advance, words]
  · simp [hiRequest, Parcel.outgoing, hio, requestStart_eq, BinderIo.advance, hsize]

lemma lookupHi_delivered : Arrives (hiRequest.outgoing 0 svcMgrCheckService 0) lookupHi.msg.mem
    lookupHi.msg.txn := by
  obtain ⟨hofs, hlen⟩ := hiRequest_outgoing
  have hmem : lookupHi.msg.mem =
      write (fun _ => 0) 0 (hiRequest.outgoing 0 svcMgrCheckService 0).data := rfl
  rw [hmem]
  exact arrives_of_holdsBytes hofs hlen.symm rfl (holdsBytes_write _ 0 _)

lemma lookupHi_answered : threeProcesses.Delivers 0 2 ((refReply (fun _ => 0) 5).outgoing 0 0 0)
    lookupHi.answer.last.input.mem lookupHi.answer.txn := by
  have hofs := refReply_offsets (fun _ => 0) 5
  have hlen : ((refReply (fun _ => 0) 5).outgoing 0 0 0).data.length = 16 := rfl
  refine ⟨⟨hlen, by rw [hofs]; rfl, by rw [hofs]; decide +kernel, ?_⟩, ?_⟩
  · intro k hk hout
    have hoff := hout 0 (by simp [hofs])
    rw [UInt32.toNat_zero] at hoff
    omega
  · rintro o ho ⟨⟩ -
    rw [hofs] at ho
    obtain rfl := List.mem_singleton.mp ho
    exact ⟨by decide +kernel, by decide +kernel⟩

/-- Process 2 is served in every state in which the name stands for handle 5. -/
lemma lookupHi_served {w : World SvcState} (hok : RegistryOk w.app.svclist)
    (hans : answer w.app.svclist (wide [104, 105]) 1000 = 5) :
    CallServed threeProcesses 2 hiRequest svcMgrCheckService w lookupHi := by
  intro hov
  have hrec := lookup_received hov lookupHi_delivered rfl rfl
  rw [if_pos (by decide)] at hrec
  have hout : handleMessage lookupHi.msg lookupHi.rdata w = _ := hrec.handle hok lookupHi.rdata
  have huid : lookupHi.msg.txn.senderEuid = 1000 := rfl
  rw [huid, hans, if_neg (by decide), bioPutRef_reply lookupHi.rdata (by decide)] at hout
  refine ⟨lookupHi_delivered.delivers hiRequest_outgoing.1 _ _ _, rfl, rfl, rfl, ?_⟩
  rw [hout]
  exact lookupHi_answered

lemma publishHi_answer :
    let w := svcMachine.run (start [64]) (sent hiMsg publishHi)
    RegistryOk w.app.svclist ∧ answer w.app.svclist (wide [104, 105]) 1000 = 5 := by
  intro w
  obtain ⟨hok, hreg⟩ := run_handlesAgree [64] (sent hiMsg publishHi)
  obtain ⟨iso, hlog⟩ := (publish_history (run_handlesAgree [64] []).1 publishHi_served).1
    ⟨by decide, .inr (by decide)⟩
  have hlog' : svcMachine.history (start [64]) (sent hiMsg publishHi) =
      [.set (wide [104, 105]) (5, iso)] := hlog
  refine ⟨hok, ?_⟩
  rw [answer_of_not_isolated (by decide), hreg.find, hlog']
  rfl

/-- Publish and lookup, from any reachable state of the manager. Publishing returns zero exactly
for names of 1 to 127 bytes, if memory for the entry can be had, and changes nothing otherwise.
After that, until the name is registered again or its entry dies, every caller that is not
isolated gets its own handle for the published node, whatever else the manager does. A name
without a live registration is answered by zero, whatever its length. -/
theorem publish_then_lookup (D : Driver Proc Node) (mallocs : List UInt32) (es : List SvcEvent)
    (p : Proc) (iodata : Mem) (name : List UInt8) (ptr : UInt32) (x : Exchange)
    (death : UInt32 → World σ → World σ) (cw : World σ)
    (hserve : CallServed D p (publishMsg iodata name ptr) svcMgrAddService
      (svcMachine.run (start mallocs) es) x) :
    let w := svcMachine.run (start mallocs) es
    let w' := svcMachine.run w (sent (publishMsg iodata name ptr) x)
    (∃ status cw', svcmgrPublish iodata binderServiceManager name ptr death x.answer.reads cw =
        some (status, cw') ∧
      (status = 0 ↔ (1 ≤ strlen name ∧ strlen name ≤ 127) ∧ AllocOk w.app (wide name)) ∧
      (status ≠ 0 → w'.app.svclist = w.app.svclist) ∧
      (status = 0 → ∀ fs : List SvcEvent, (∀ e ∈ svcMachine.history w' fs, e.key ≠ wide name) →
        ∀ (q : Proc) (iodata' : Mem) (y : Exchange) (death' : UInt32 → World σ → World σ)
          (dw : World σ), ¬ isIsolated (D.uid q) →
          CallServed D q (requestMsg iodata' name) svcMgrCheckService (svcMachine.run w' fs) y →
          ∃ dw', svcmgrLookup iodata' binderServiceManager name death' y.answer.reads dw =
            some (D.handle q (D.node p ptr), dw') ∧ D.handle q (D.node p ptr) ≠ 0)) ∧
    ∀ (name' : List UInt8) (q : Proc) (iodata' : Mem) (y : Exchange)
      (death' : UInt32 → World σ → World σ) (dw : World σ),
      lookup (svcMachine.history (start mallocs) es) (wide name') = none →
      CallServed D q (requestMsg iodata' name') svcMgrCheckService w y →
      ∃ dw', svcmgrLookup iodata' binderServiceManager name' death' y.answer.reads dw =
        some (0, dw') := by
  intro w w'
  have hagree := run_handlesAgree mallocs es
  obtain ⟨status, cw', hpub, hstatus⟩ := publish_returns hagree.1 hserve death cw
  obtain ⟨hlog, hkept⟩ := publish_history hagree.1 hserve
  refine ⟨⟨status, cw', hpub, hstatus, fun hne => hkept (mt hstatus.mpr hne), ?_⟩, ?_⟩
  · intro h0 fs hfs q iodata' y death' dw hu hlook
    obtain ⟨iso, hset⟩ := hlog (hstatus.mp h0)
    have hagree' := run_handlesAgree mallocs (es ++ sent (publishMsg iodata name ptr) x ++ fs)
    rw [svcMachine.run_append, svcMachine.run_append, svcMachine.history_append,
      svcMachine.run_append, svcMachine.history_append, hset] at hagree'
    obtain ⟨h, dw', hstub, -, hlive⟩ := lookup_returns hagree' hlook death' dw
    have hval := hlive (D.node p ptr) iso hu (by
      rw [lookup_append_of_ne hfs, lookup_snoc]
      simp [Event.key, Event.value])
    exact ⟨dw', by rw [hstub, hval], D.handle_ne _ _⟩
  · intro name' q iodata' y death' dw hnone hlook
    obtain ⟨h, dw', hstub, hzero, -⟩ := lookup_returns hagree hlook death' dw
    exact ⟨dw', by rw [hstub, hzero hnone]⟩

/-- Publishing `hi` succeeds, and process 2 finds it under its own handle. -/
theorem publish_then_lookup_hi :
    (∃ cw', svcmgrPublish (fun _ => 0) binderServiceManager [104, 105] 0xbeef (fun _ w => w)
      publishHi.answer.reads (⟨(), []⟩ : World Unit) = some (0, cw')) ∧
    ∃ dw', svcmgrLookup (fun _ => 0) binderServiceManager [104, 105] (fun _ w => w)
      lookupHi.answer.reads (⟨(), []⟩ : World Unit) = some (9, dw') := by
  obtain ⟨⟨status, cw', hpub, hstatus, -, hlook⟩, -⟩ := publish_then_lookup threeProcesses [64] [] 1
    (fun _ => 0) [104, 105] 0xbeef publishHi (fun _ w => w) (⟨(), []⟩ : World Unit) publishHi_served
  have hzero : status = 0 := hstatus.mpr ⟨by decide, .inr (by decide)⟩
  obtain ⟨hok, hans⟩ := publishHi_answer
  obtain ⟨dw', hfound, -⟩ := hlook hzero [] (by simp [Machine.history]) 2 (fun _ => 0) lookupHi
    (fun _ w => w) ⟨(), []⟩ (by decide) (lookupHi_served hok hans)
  exact ⟨⟨cw', by rw [hpub, hzero]⟩, dw', hfound⟩

end LinuxLabs.ServiceManager
