import LinuxLabs.ServiceManagerRegistry

/-! Registration over arbitrary messages. A message changes the registry, or makes the manager
write anything but its reply, exactly when it is a complete ADD request and memory for the
entry can be had; everything else is refused as a whole. -/
namespace LinuxLabs.ServiceManager
open ByteMemory Binder EventRun LastWriter

/-- The bytes of a name of `n` units and its terminator, padded to words. -/
def nameBlock (n : ℕ) : ℕ := (2 * (n + 1) + 3) / 4 * 4

lemma stringBlock_name {n : ℕ} (h : n ≤ 127) : stringBlock n = nameBlock n := by
  rw [stringBlock_eq (by omega), nameBlock]
  omega

/-- A complete ADD request for a name and a handle: the interface header, the name, and behind
it an object whose offset the driver lists. -/
structure IsAdd (msg : Message) (name : List UInt16) (handle : UInt32) : Prop where
  target : msg.txn.target = svcmgrHandle
  code : msg.txn.code = svcMgrAddService
  header : msg.HeaderOk
  pos : 1 ≤ name.length
  max : name.length ≤ 127
  len : msg.nameLen = name.length
  spelled : msg.unitsAt 68 name.length = name
  object : 68 + nameBlock name.length + 16 ≤ msg.size
  listed : ∃ n < msg.txn.offsetsSize.toNat / 4,
    (load32 msg.mem (msg.txn.offsets.toNat + 4*n)).toNat = 68 + nameBlock name.length
  type : msg.word (68 + nameBlock name.length) = binderTypeHandle
  ref : msg.word (68 + nameBlock name.length + 8) = handle
  ne : handle ≠ 0

/-- Memory for the entry of a name is there already or can be had. -/
def AllocOk (st : SvcState) (name : List UInt16) : Prop :=
  name ∈ st.svclist.map SvcInfo.key ∨ (malloc st).1 ≠ 0

/-- The registry was modified, or one of the reference commands was written. -/
def Changed (w w' : World SvcState) : Prop :=
  w'.app.svclist ≠ w.app.svclist ∨ ∃ e ∈ written w w', isRefCommand e

theorem IsAdd.request {msg : Message} {name : List UInt16} {handle : UInt32}
    (h : IsAdd msg name handle) :
    msg.request = .add msg.nameAddr name.length handle msg.allowIsolated := by
  have hoff : msg.objOffset = 68 + nameBlock name.length := by
    rw [Message.objOffset, h.len, stringBlock_name h.max]
  have hfits : msg.NameFits := by
    have hobj := h.object
    rw [Message.NameFits, h.len, stringBlock_name h.max]
    omega
  have hok : msg.ObjOk := by
    rw [Message.ObjOk, hoff]
    exact ⟨h.listed, h.object⟩
  have hhandle : msg.handle = handle := by
    rw [Message.handle, hoff, if_pos ⟨hok, h.type⟩, h.ref]
  rw [Message.request, if_neg (not_not.mpr h.target), h.code, if_neg (by decide),
    if_neg (not_not.mpr h.header), if_neg (by decide), if_pos rfl, if_pos hfits, h.len, hhandle]

lemma IsAdd.args {msg : Message} {name : List UInt16} {handle : UInt32}
    (h : IsAdd msg name handle) : AddArgs handle name.length := ⟨h.ne, h.pos, h.max⟩

/-- An ADD the decoder lets through with acceptable arguments was complete. -/
theorem isAdd_of_request {msg : Message} {s len : ℕ} {handle : UInt32} {iso : Bool}
    (h : msg.request = .add s len handle iso) (ha : AddArgs handle len) :
    IsAdd msg (units msg.mem s len) handle := by
  unfold Message.request at h
  split_ifs at h with ht hp hh hf hfit hc hfit' hl
  simp only [Request.add.injEq] at h
  obtain ⟨rfl, rfl, hhandle, -⟩ := h
  have hne : msg.handle ≠ 0 := hhandle ▸ ha.1
  have hobj : msg.ObjOk ∧ msg.word msg.objOffset = binderTypeHandle := by
    by_contra hn
    exact hne (if_neg hn)
  have hoff : msg.objOffset = 68 + nameBlock msg.nameLen := by
    rw [Message.objOffset, stringBlock_name ha.2.2]
  rw [Message.handle, if_pos hobj, hoff] at hhandle
  rw [Message.ObjOk, hoff] at hobj
  have hlen : (units msg.mem msg.nameAddr msg.nameLen).length = msg.nameLen := by simp
  constructor
  case target => exact not_not.mp ht
  case code => exact hc
  case header => exact hh
  case pos => rw [hlen]; exact ha.2.1
  case max => rw [hlen]; exact ha.2.2
  case len => rw [hlen]
  case spelled => rw [hlen]; rfl
  case object => rw [hlen]; exact hobj.1.2
  case listed => rw [hlen]; exact hobj.1.1
  case type => rw [hlen]; exact hobj.2
  case ref => rw [hlen]; exact hhandle
  case ne => exact ha.1

/-- Overriding through a pointer to the entry is overriding by name. -/
lemma RegistryOk.setHandle_key {l : List SvcInfo} (h : RegistryOk l) {si : SvcInfo} (hsi : si ∈ l)
    (handle : UInt32) : ServiceManager.setHandle l si.addr handle =
      l.map fun b => if b.key = si.key then { b with handle := handle } else b := by
  apply List.map_congr_left
  intro b hb
  have hiff : b.addr = si.addr ↔ b.key = si.key :=
    ⟨fun he => by rw [h.addr_inj hb hsi he], fun he => by rw [h.key_inj hb hsi he]⟩
  simp only [hiff]

/-- What an accepted request leaves on the list: the entry of the name has the handle, and is
a new one in front if there was none. -/
def Registered (l l' : List SvcInfo) (name : List UInt16) (handle : UInt32) : Prop :=
  if name ∈ l.map SvcInfo.key then
    l' = l.map fun si => if si.key = name then { si with handle := handle } else si
  else ∃ si : SvcInfo, si.key = name ∧ si.handle = handle ∧ l' = si :: l

/-- A complete request with memory at hand is accepted. -/
theorem IsAdd.accepted {msg : Message} {name : List UInt16} {handle : UInt32}
    (h : IsAdd msg name handle) {w : World SvcState} (hok : RegistryOk w.app.svclist)
    (halloc : AllocOk w.app name) (rdata : Mem) :
    let out := handleMessage msg rdata w
    out.1 = 0 ∧ Registered w.app.svclist out.2.2.app.svclist name handle ∧
      Effect.write (.acquire handle) ∈ written w out.2.2 := by
  have hunits : units msg.mem msg.nameAddr name.length = name := h.spelled
  have hout : handleMessage msg rdata w = _ := svcmgrHandler_request msg (emptyReply rdata) w
  simp only [h.request, Request.perform] at hout
  by_cases hk : name ∈ w.app.svclist.map SvcInfo.key
  · obtain ⟨si, hsi, hkey⟩ := List.mem_map.mp hk
    rw [doAddService_existing hok h.args hsi (hkey.trans hunits.symm)] at hout
    simp only [ne_eq, not_true_eq_false, if_false] at hout
    rw [hout]
    refine ⟨rfl, ?_, ?_⟩
    · rw [Registered, if_pos hk, ← hkey]
      exact hok.setHandle_key hsi handle
    · rw [written_append (List.append_assoc ..)]
      simp [linkEffects]
  · rw [doAddService_new hok h.args (by rwa [hunits])] at hout
    have hm : (malloc w.app).1 ≠ 0 := halloc.resolve_left hk
    simp only [hm, if_false, ne_eq, not_true_eq_false] at hout
    rw [hout]
    refine ⟨rfl, ?_, ?_⟩
    · rw [Registered, if_neg hk]
      exact ⟨_, by rw [newEntry_key, hunits], rfl, rfl⟩
    · rw [written_append rfl]
      simp [linkEffects]

/-- The registrations a run notes down are the complete requests with memory at hand. -/
theorem observe_iff_isAdd {msg : Message} {w : World SvcState} (hok : RegistryOk w.app.svclist)
    (rdata : Mem) (name : List UInt16) (handle : UInt32) :
    (∃ iso, SvcEvent.observe w (.transact msg rdata) = [.set name (handle, iso)]) ↔
      IsAdd msg name handle ∧ AllocOk w.app name := by
  constructor
  · rintro ⟨iso, ho⟩
    simp only [SvcEvent.observe] at ho
    cases hr : msg.request with
    | add s len handle' iso' =>
      simp only [hr] at ho
      by_cases ha : AddArgs handle' len
      · split_ifs at ho with h0
        · simp only [List.cons.injEq, Event.set.injEq, Prod.mk.injEq, and_true] at ho
          obtain ⟨rfl, rfl, rfl⟩ := ho
          refine ⟨isAdd_of_request hr ha, or_iff_not_imp_left.mpr fun hk hm => ?_⟩
          rw [doAddService_new hok ha hk, if_pos hm] at h0
          simp at h0
      · rw [doAddService_refused ha] at ho
        simp at ho
    | _ => simp [hr] at ho
  · rintro ⟨h, halloc⟩
    have hunits : units msg.mem msg.nameAddr name.length = name := h.spelled
    refine ⟨msg.allowIsolated, ?_⟩
    simp only [SvcEvent.observe, h.request, hunits]
    apply if_pos
    by_cases hk : name ∈ w.app.svclist.map SvcInfo.key
    · obtain ⟨si, hsi, hkey⟩ := List.mem_map.mp hk
      rw [doAddService_existing hok h.args hsi (hkey.trans hunits.symm)]
    · rw [doAddService_new hok h.args (by rwa [hunits]), if_neg (halloc.resolve_left hk)]

/-- Everything else leaves the registry alone and writes nothing. -/
theorem refused_unchanged {msg : Message} {w : World SvcState} (hok : RegistryOk w.app.svclist)
    (h : ¬ ∃ name handle, IsAdd msg name handle ∧ AllocOk w.app name) (rdata : Mem) :
    let w' := (handleMessage msg rdata w).2.2
    w'.app.svclist = w.app.svclist ∧ w'.trace = w.trace := by
  simp only [handleMessage_world]
  cases hr : msg.request with
  | add s len handle iso =>
    by_cases ha : AddArgs handle len
    · have hadd := isAdd_of_request hr ha
      have hno : ¬ AllocOk w.app (units msg.mem s len) := fun hal => h ⟨_, _, hadd, hal⟩
      simp only [AllocOk, ne_eq, not_or, not_not] at hno
      simp only [doAddService_new hok ha hno.1, hno.2, if_true, malloc_svclist, and_self]
    · simp only [doAddService_refused ha, and_self]
  | _ => exact ⟨rfl, rfl⟩

/-- In every reachable state and for every message: something changes exactly on complete ADD
requests with memory at hand, and then the handler returns zero, the named entry gets the
handle and the rest of the list stays as it is. -/
theorem changed_iff_isAdd (mallocs : List UInt32) (es : List SvcEvent) (msg : Message)
    (rdata : Mem) :
    let w := svcMachine.run (start mallocs) es
    let out := handleMessage msg rdata w
    (Changed w out.2.2 ↔ ∃ name handle, IsAdd msg name handle ∧ AllocOk w.app name) ∧
      (∀ name handle, IsAdd msg name handle → AllocOk w.app name →
        out.1 = 0 ∧ Registered w.app.svclist out.2.2.app.svclist name handle) ∧
      ((¬ ∃ name handle, IsAdd msg name handle ∧ AllocOk w.app name) →
        out.2.2.app.svclist = w.app.svclist ∧ out.2.2.trace = w.trace) := by
  intro w out
  have hok : RegistryOk w.app.svclist := run_registryOk mallocs es
  refine ⟨⟨fun hc => ?_, ?_⟩, ?_, fun hn => refused_unchanged hok hn rdata⟩
  · by_contra hn
    obtain ⟨hl, ht⟩ := refused_unchanged hok hn rdata
    rcases hc with hc | ⟨e, he, -⟩
    · exact hc hl
    · have hnone : out.2.2.trace = w.trace ++ [] := by simpa using ht
      rw [written_append hnone] at he
      simp at he
  · rintro ⟨name, handle, hadd, hal⟩
    exact .inr ⟨_, (hadd.accepted hok hal rdata).2.2, rfl⟩
  · intro name handle hadd hal
    obtain ⟨h0, hreg, -⟩ := hadd.accepted hok hal rdata
    exact ⟨h0, hreg⟩

example : IsAdd (addMessage [104, 105] 5 0) [104, 105] 5 :=
  ⟨rfl, rfl, by decide +kernel, by decide, by decide, by decide +kernel, by decide +kernel,
    by decide +kernel, ⟨0, by decide +kernel⟩, by decide +kernel, by decide +kernel, by decide⟩

end LinuxLabs.ServiceManager
