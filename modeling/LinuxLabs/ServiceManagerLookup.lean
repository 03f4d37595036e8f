import LinuxLabs.BinderDelivery
import LinuxLabs.ServiceManagerRegistry

/-! Lookups against the history of a run. For callers that are not isolated the registry is a
last-writer-wins map from names to handles. For isolated callers an answer also depends on the
flag of the entry, which is the flag of the registration that created it. -/
namespace LinuxLabs.ServiceManager
open ByteMemory Binder EventRun LastWriter

/-- A well-formed GET or CHECK request for a name. -/
structure IsLookup (msg : Message) (name : List UInt16) : Prop where
  target : msg.txn.target = svcmgrHandle
  code : msg.txn.code = svcMgrGetService ∨ msg.txn.code = svcMgrCheckService
  header : msg.HeaderOk
  len : msg.nameLen = name.length
  fits : msg.NameFits
  name : msg.unitsAt 68 name.length = name

theorem IsLookup.request {msg : Message} {name : List UInt16} (h : IsLookup msg name) :
    msg.request = .find msg.nameAddr name.length := by
  have hp : msg.txn.code ≠ pingTransaction := by
    rcases h.code with hc | hc <;> rw [hc] <;> decide
  simp only [Message.request, h.target, hp, h.header, h.code, h.fits, h.len, ne_eq,
    not_true_eq_false, if_true, if_false]

def lookupMessage (name : List UInt16) (uid : UInt32) : Message :=
  ⟨lookupMem name, requestTxn svcMgrCheckService uid (68 + stringBlock name.length) 0⟩

/-- Every name that can be registered can be asked for, by every caller. -/
theorem lookupMessage_isLookup (name : List UInt16) (uid : UInt32) (h : name.length ≤ 127) :
    IsLookup (lookupMessage name uid) name := by
  have hblock : stringBlock name.length = (2 * name.length + 5) / 4 * 4 := stringBlock_eq (by omega)
  have hsize : (lookupMessage name uid).size = 68 + stringBlock name.length := by
    simp only [Message.size, lookupMessage, requestTxn, UInt32.toNat_ofNat']
    omega
  have hid : svcmgrId.length = 26 := by decide
  have hlow : AgreeOn (lookupMem name) (storeUnits (store32 (fun _ => 0) 4 26) 8 svcmgrId) 0 64 :=
    (storeUnits_agree_below _ 68 0 64 name (by decide)).trans
      (store32_agree_below _ 64 0 64 _ le_rfl)
  have hlen : load32 (lookupMem name) 64 = UInt32.ofNat name.length := by
    rw [lookupMem, (storeUnits_agree_below _ 68 64 68 name le_rfl).load32_eq le_rfl le_rfl,
      load32_store32]
  have hword : (lookupMessage name uid).nameLen = name.length := by
    simp only [Message.nameLen, Message.word, lookupMessage, requestTxn, UInt32.toNat_zero,
      Nat.zero_add, hlen, UInt32.toNat_ofNat']
    omega
  refine ⟨rfl, .inr rfl, ⟨by omega, ?_, ?_⟩, hword, ?_, ?_⟩
  · simp only [Message.word, lookupMessage, requestTxn, UInt32.toNat_zero, Nat.zero_add]
    rw [hlow.load32_eq (by decide) (by decide),
      (storeUnits_agree_below _ 8 4 8 svcmgrId le_rfl).load32_eq le_rfl le_rfl, load32_store32]
  · simp only [Message.unitsAt, lookupMessage, requestTxn, UInt32.toNat_zero, Nat.zero_add]
    rw [hlow.units_eq (by decide) (by decide), ← hid, units_storeUnits]
  · rw [Message.NameFits, hword, hsize]
  · simp [Message.unitsAt, lookupMessage, requestTxn, lookupMem]

/-- What a search by name answers to a caller. -/
def answer (l : List SvcInfo) (name : List UInt16) (uid : UInt32) : UInt32 :=
  match l.find? (fun si => si.key = name) with
  | none => 0
  | some si => if !si.allowIsolated && decide (isIsolated uid) then 0 else si.handle

/-- The search for arbitrary bytes is the search for the units they spell. -/
theorem doFindService_eq {st : SvcState} (hok : RegistryOk st.svclist) (m : Mem) (s len : ℕ)
    (uid spid : UInt32) :
    doFindService st m s len uid spid = answer st.svclist (units m s len) uid := by
  simp only [doFindService, svcCanFind, checkMacPermsFromLookup, Bool.not_true,
    Bool.false_eq_true, if_false, hok.findSvc_eq, answer]
  cases st.svclist.find? (fun si => si.key = units m s len) with
  | none => rfl
  | some si => by_cases h0 : si.handle = 0 <;> simp [h0]

/-- A lookup replies with the reference found, or with a zero word, and changes nothing. -/
theorem IsLookup.handle {msg : Message} {name : List UInt16} (h : IsLookup msg name)
    {w : World SvcState} (hok : RegistryOk w.app.svclist) (rdata : Mem) :
    handleMessage msg rdata w =
      (0, if answer w.app.svclist name msg.txn.senderEuid = 0 then bioPutUint32 (emptyReply rdata) 0
        else bioPutRef (emptyReply rdata) (answer w.app.svclist name msg.txn.senderEuid), w) := by
  have hu : units msg.mem msg.nameAddr name.length = name := h.name
  rw [handleMessage, svcmgrHandler_request, h.request]
  simp only [Request.perform, doFindService_eq hok, hu]
  split_ifs <;> rfl

/-- Replies with a reference show the handle and differ from the empty answer. -/
theorem putRef_reply_inj {rdata : Mem} {h h' : UInt32} (hh : h ≠ 0) (hh' : h' ≠ 0)
    (he : bioPutRef (emptyReply rdata) h = bioPutRef (emptyReply rdata) h') : h = h' := by
  rw [bioPutRef_fits hh (emptyReply_room rdata), bioPutRef_fits hh' (emptyReply_room rdata)] at he
  have hm := congrArg (fun p : Parcel => load32 p.mem ((emptyReply rdata).io.data + 8)) he
  simpa only [(load_fillObj _ _ _ _).2] using hm

theorem putRef_reply_ne {rdata : Mem} {h : UInt32} (hh : h ≠ 0) :
    bioPutRef (emptyReply rdata) h ≠ bioPutUint32 (emptyReply rdata) 0 := by
  intro he
  rw [bioPutRef_fits hh (emptyReply_room rdata),
    bioPutUint32_fits (by simp [emptyReply_eq])] at he
  have hd := congrArg (fun p : Parcel => p.io.data) he
  simp only [BinderIo.advance] at hd
  omega

/-- The reply is a reference to `h` exactly when `h` is the answer. -/
theorem IsLookup.reply_iff {msg : Message} {name : List UInt16} (hl : IsLookup msg name)
    {w : World SvcState} (hok : RegistryOk w.app.svclist) (rdata : Mem) {h : UInt32} (hh : h ≠ 0) :
    (handleMessage msg rdata w).2.1 = bioPutRef (emptyReply rdata) h ↔
      answer w.app.svclist name msg.txn.senderEuid = h := by
  rw [hl.handle hok rdata]
  by_cases h0 : answer w.app.svclist name msg.txn.senderEuid = 0
  · simp only [h0, if_true]
    exact ⟨fun he => absurd he.symm (putRef_reply_ne hh), fun he => absurd he.symm hh⟩
  · simp only [h0, if_false]
    exact ⟨fun he => putRef_reply_inj h0 hh he, fun he => by rw [he]⟩

/-- Callers that are not isolated get the live handle of the name. -/
theorem answer_of_not_isolated {l : List SvcInfo} {name : List UInt16} {uid : UInt32}
    (hu : ¬ isIsolated uid) :
    answer l name uid = ((l.find? fun si => si.key = name).bind SvcInfo.live).getD 0 := by
  unfold answer
  cases l.find? (fun si => si.key = name) with
  | none => rfl
  | some si => by_cases h0 : si.handle = 0 <;> simp [hu, SvcInfo.live, h0]

theorem live_ne_zero {o : Option SvcInfo} {h : UInt32} (he : o.bind SvcInfo.live = some h) :
    h ≠ 0 := by
  obtain ⟨si, -, hl⟩ := Option.bind_eq_some_iff.mp he
  unfold SvcInfo.live at hl
  split_ifs at hl with h0
  exact (Option.some.inj hl) ▸ h0

/-- The registry refines a last-writer-wins map: after any run, a lookup by a caller that is
not isolated replies with a reference to `h` exactly when `h` is the handle of the most recent
accepted registration of that very name and no death of its entry has followed, and replies
with the word zero in every other case; its status is always zero. -/
theorem lookup_refines_lastWriter (mallocs : List UInt32) (es : List SvcEvent) (msg : Message)
    (rdata : Mem) (name : List UInt16) (hl : IsLookup msg name)
    (hu : ¬ isIsolated msg.txn.senderEuid) :
    let w := svcMachine.run (start mallocs) es
    let log := svcMachine.history (start mallocs) es
    let out := handleMessage msg rdata w
    out.1 = 0 ∧
      (∀ h, h ≠ 0 ∧ out.2.1 = bioPutRef (emptyReply rdata) h ↔
        (lookup log name).map Prod.fst = some h) ∧
      (lookup log name = none → out.2.1 = bioPutUint32 (emptyReply rdata) 0) := by
  intro w log out
  obtain ⟨hok, hreg⟩ := run_handlesAgree mallocs es
  have hfind : (w.app.svclist.find? fun si => si.key = name).bind SvcInfo.live =
      (lookup log name).map Prod.fst := by rw [hreg.find, lookup_map]
  have hans : answer w.app.svclist name msg.txn.senderEuid = _ := answer_of_not_isolated hu
  have hout : out = _ := hl.handle hok rdata
  refine ⟨by rw [hout], ?_, ?_⟩
  · intro h
    constructor
    · rintro ⟨hh, he⟩
      have ha := (hl.reply_iff hok rdata hh).mp he
      rw [← hfind]
      rw [hans] at ha
      cases hb : (w.app.svclist.find? fun si => si.key = name).bind SvcInfo.live with
      | none => exact absurd (by simpa [hb] using ha.symm) hh
      | some v => simpa [hb] using ha
    · intro he
      rw [← hfind] at he
      have hh := live_ne_zero he
      exact ⟨hh, (hl.reply_iff hok rdata hh).mpr (by rw [hans, he]; rfl)⟩
  · intro hn
    have ha : answer w.app.svclist name msg.txn.senderEuid = 0 := by
      rw [hans, hfind, hn]
      rfl
    rw [hout]
    exact if_pos ha

/-- The name `hi` is registered for handle 5, looked up by a system process, overridden by 6. -/
theorem lookup_refines_lastWriter_override :
    let es := [SvcEvent.transact (addMessage [104, 105] 5 0) fun _ => 0,
      .transact (addMessage [104, 105] 6 0) fun _ => 0]
    let w := svcMachine.run (start [64]) es
    (handleMessage (lookupMessage [104, 105] 1000) (fun _ => 0) w).2.1 =
      bioPutRef (emptyReply fun _ => 0) 6 :=
  (((lookup_refines_lastWriter [64]
    [SvcEvent.transact (addMessage [104, 105] 5 0) fun _ => 0,
      .transact (addMessage [104, 105] 6 0) fun _ => 0]
    (lookupMessage [104, 105] 1000) (fun _ => 0) [104, 105]
    (lookupMessage_isLookup _ _ (by decide)) (by decide)).2.1 6).mpr (by decide +kernel)).2

end LinuxLabs.ServiceManager
