import LinuxLabs.ServiceManagerWire
import LinuxLabs.EventRun
import LinuxLabs.LastWriter

/-! The registry over whole runs. A run is any sequence of handler calls and death callbacks;
each of its events either leaves the registry alone or takes one of three steps (override an
entry, create one in front, clear one), and all invariants are read off these steps. -/
namespace LinuxLabs.ServiceManager
open ByteMemory Binder EventRun LastWriter

/-- The name of an entry, as a sequence of `len` units. -/
def SvcInfo.key (si : SvcInfo) : List UInt16 := si.name.take si.len

/-- The live handle of an entry. -/
def SvcInfo.live (si : SvcInfo) : Option UInt32 := if si.handle = 0 then none else some si.handle

/-- The release that clearing the entry writes. -/
def SvcInfo.releases (si : SvcInfo) : List Effect :=
  if si.handle = 0 then [] else [.write (.release si.handle)]

structure SvcInfo.Ok (si : SvcInfo) : Prop where
  pos : 1 ≤ si.len
  max : si.len ≤ 127
  storage : si.name.length = si.len + 1
  terminated : si.name[si.len]? = some 0
  death : si.death = ⟨.svcinfoDeath, si.addr⟩
  addr : si.addr ≠ 0

theorem SvcInfo.Ok.key_length {si : SvcInfo} (h : si.Ok) : si.key.length = si.len := by
  simp [SvcInfo.key, h.storage]

/-- The representation invariant of `svclist`. -/
structure RegistryOk (l : List SvcInfo) : Prop where
  entries : ∀ si ∈ l, si.Ok
  addrs : (l.map SvcInfo.addr).Nodup
  keys : (l.map SvcInfo.key).Nodup

theorem registryOk_nil : RegistryOk [] := ⟨by simp, List.nodup_nil, List.nodup_nil⟩

theorem RegistryOk.addr_inj {l : List SvcInfo} (h : RegistryOk l) {a b : SvcInfo} (ha : a ∈ l)
    (hb : b ∈ l) (he : a.addr = b.addr) : a = b := List.inj_on_of_nodup_map h.addrs ha hb he

theorem RegistryOk.key_inj {l : List SvcInfo} (h : RegistryOk l) {a b : SvcInfo} (ha : a ∈ l)
    (hb : b ∈ l) (he : a.key = b.key) : a = b := List.inj_on_of_nodup_map h.keys ha hb he

theorem RegistryOk.cons {l : List SvcInfo} (h : RegistryOk l) {si : SvcInfo} (hsi : si.Ok)
    (haddr : si.addr ∉ l.map SvcInfo.addr) (hkey : si.key ∉ l.map SvcInfo.key) :
    RegistryOk (si :: l) :=
  ⟨by simpa using ⟨hsi, h.entries⟩, List.nodup_cons.mpr ⟨haddr, h.addrs⟩,
    List.nodup_cons.mpr ⟨hkey, h.keys⟩⟩

theorem setHandle_map {β : Type*} (f : SvcInfo → β)
    (hf : ∀ (si : SvcInfo) (h : UInt32), f { si with handle := h } = f si)
    (l : List SvcInfo) (a h : UInt32) : (setHandle l a h).map f = l.map f := by
  rw [setHandle, List.map_map]
  apply List.map_congr_left
  intro si _
  simp only [Function.comp_apply]
  split_ifs
  · exact hf si h
  · rfl

theorem RegistryOk.setHandle {l : List SvcInfo} (h : RegistryOk l) (a v : UInt32) :
    RegistryOk (setHandle l a v) := by
  refine ⟨?_, ?_, ?_⟩
  · intro si hsi
    obtain ⟨b, hb, rfl⟩ := List.mem_map.mp hsi
    have hok := h.entries b hb
    split_ifs
    · exact ⟨hok.pos, hok.max, hok.storage, hok.terminated, hok.death, hok.addr⟩
    · exact hok
  · rw [setHandle_map SvcInfo.addr (fun _ _ => rfl)]
    exact h.addrs
  · rw [setHandle_map SvcInfo.key (fun _ _ => rfl)]
    exact h.keys

/-- Writing the handle an entry has already changes nothing. -/
theorem RegistryOk.setHandle_self {l : List SvcInfo} (h : RegistryOk l) {si : SvcInfo}
    (hsi : si ∈ l) : ServiceManager.setHandle l si.addr si.handle = l := by
  conv_rhs => rw [← List.map_id l]
  apply List.map_congr_left
  intro b hb
  split_ifs with he
  · rw [h.addr_inj hb hsi he]
    rfl
  · rfl

theorem setHandle_setHandle (l : List SvcInfo) (a v v' : UInt32) :
    setHandle (setHandle l a v) a v' = setHandle l a v' := by
  simp only [setHandle, List.map_map]
  apply List.map_congr_left
  intro si _
  simp only [Function.comp_apply]
  split_ifs <;> simp_all

theorem RegistryOk.find_addr {l : List SvcInfo} (h : RegistryOk l) {si : SvcInfo} (hsi : si ∈ l) :
    l.find? (fun b => b.addr = si.addr) = some si := find?_key h.addrs hsi

/-- The search by length and `memcmp` is a search by name. -/
theorem RegistryOk.findSvc_eq {l : List SvcInfo} (h : RegistryOk l) (m : Mem) (s len : ℕ) :
    findSvc m s len l = l.find? fun si => si.key = units m s len := by
  apply List.find?_congr
  intro si hsi
  have hlen := (h.entries si hsi).key_length
  rw [← Bool.decide_and]
  congr 1
  apply propext
  constructor
  · rintro ⟨hl, hu⟩
    rw [SvcInfo.key, ← hl, ← hu]
  · intro hk
    have hl : len = si.len := by rw [← hlen, hk, units_length]
    exact ⟨hl, by rw [← hk, hl]; rfl⟩

/-- The death routine clears the entry and releases what it held. -/
theorem svcinfoDeath_entry {w : World SvcState} {si : SvcInfo} (h : RegistryOk w.app.svclist)
    (hsi : si ∈ w.app.svclist) :
    svcinfoDeath w si.addr = ⟨⟨setHandle w.app.svclist si.addr 0, w.app.mallocs⟩,
      w.trace ++ si.releases⟩ := by
  simp only [svcinfoDeath, h.find_addr hsi, SvcInfo.releases]
  by_cases h0 : si.handle = 0
  · have hs := h.setHandle_self hsi
    rw [h0] at hs
    simp [h0, hs]
  · simp [h0, storeHandle, binderRelease, binderWrite]

theorem malloc_svclist (st : SvcState) : (malloc st).2.svclist = st.svclist := by
  unfold malloc
  split <;> rfl

theorem malloc_fresh {st : SvcState} (h : (malloc st).1 ≠ 0) :
    (malloc st).1 ∉ st.svclist.map SvcInfo.addr := by
  cases hm : st.mallocs with
  | nil => simp [malloc, hm] at h
  | cons p ps =>
    by_cases hp : p ∈ st.svclist.map SvcInfo.addr
    · simp only [malloc, hm, hp, if_true] at h
      exact absurd rfl h
    · simpa only [malloc, hm, hp, if_false] using hp

def linkEffects (handle cookie : UInt32) : List Effect :=
  [.write (.acquire handle), .write (.requestDeathNotification handle cookie)]

/-- The entry a registration creates. -/
def newEntry (addr handle : UInt32) (allowIsolated : Bool) (m : Mem) (s len : ℕ) : SvcInfo :=
  { addr := addr
    handle := handle
    death := ⟨.svcinfoDeath, addr⟩
    allowIsolated := allowIsolated
    len := len
    name := (units m s (len + 1)).set len 0 }

theorem newEntry_key (addr handle : UInt32) (iso : Bool) (m : Mem) (s len : ℕ) :
    (newEntry addr handle iso m s len).key = units m s len := by
  simp [newEntry, SvcInfo.key, List.take_set_of_le, units_take]

theorem newEntry_ok {addr : UInt32} (handle : UInt32) (iso : Bool) (m : Mem) (s : ℕ) {len : ℕ}
    (ha : addr ≠ 0) (h1 : 1 ≤ len) (h127 : len ≤ 127) : (newEntry addr handle iso m s len).Ok :=
  ⟨h1, h127, by simp [newEntry], by simp [newEntry], rfl, ha⟩

/-- The arguments `do_add_service` does not refuse out of hand. -/
def AddArgs (handle : UInt32) (len : ℕ) : Prop := handle ≠ 0 ∧ 1 ≤ len ∧ len ≤ 127

theorem doAddService_refused {w : World SvcState} {m : Mem} {s len : ℕ} {handle spid : UInt32}
    {iso : Bool} (h : ¬ AddArgs handle len) : doAddService w m s len handle iso spid = (-1, w) := by
  have hr : handle = 0 ∨ len = 0 ∨ 127 < len := by
    unfold AddArgs at h
    by_cases hh : handle = 0
    · exact .inl hh
    · simp only [hh, not_false_eq_true, ne_eq, true_and] at h
      omega
  simp only [doAddService, hr, if_true]

theorem AddArgs.not_refused {handle : UInt32} {len : ℕ} (h : AddArgs handle len) :
    ¬ (handle = 0 ∨ len = 0 ∨ 127 < len) := by
  obtain ⟨hh, h1, h127⟩ := h
  rintro (h0 | h0 | h0)
  · exact hh h0
  · omega
  · omega

/-- Registering a name that is on the list: the old handle is released, the new one acquired. -/
theorem doAddService_existing {w : World SvcState} {m : Mem} {s len : ℕ} {handle spid : UInt32}
    {iso : Bool} {si : SvcInfo} (hok : RegistryOk w.app.svclist) (ha : AddArgs handle len)
    (hsi : si ∈ w.app.svclist) (hkey : si.key = units m s len) :
    doAddService w m s len handle iso spid =
      (0, ⟨⟨setHandle w.app.svclist si.addr handle, w.app.mallocs⟩,
        w.trace ++ si.releases ++ linkEffects handle si.cookie⟩) := by
  have hfind : findSvc m s len w.app.svclist = some si := by
    rw [hok.findSvc_eq, ← hkey]
    exact find?_key hok.keys hsi
  simp only [doAddService, ha.not_refused, if_false, svcCanRegister, checkMacPermsFromLookup,
    Bool.not_true, Bool.false_eq_true, hfind]
  by_cases h0 : si.handle = 0
  · simp [h0, storeHandle, binderLinkToDeath, binderAcquire, binderWrite, SvcInfo.releases,
      linkEffects]
  · simp [h0, storeHandle, binderLinkToDeath, binderAcquire, binderWrite, linkEffects,
      svcinfoDeath_entry hok hsi, setHandle_setHandle]

theorem RegistryOk.findSvc_absent {l : List SvcInfo} (h : RegistryOk l) {m : Mem} {s len : ℕ}
    (hk : units m s len ∉ l.map SvcInfo.key) : findSvc m s len l = none := by
  rw [h.findSvc_eq, List.find?_eq_none]
  intro si hsi he
  exact hk (by simpa using ⟨si, hsi, by simpa using he⟩)

theorem doAddService_new {w : World SvcState} {m : Mem} {s len : ℕ} {handle spid : UInt32}
    {iso : Bool} (hok : RegistryOk w.app.svclist) (ha : AddArgs handle len)
    (hkey : units m s len ∉ w.app.svclist.map SvcInfo.key) :
    doAddService w m s len handle iso spid =
      if (malloc w.app).1 = 0 then (-1, ⟨(malloc w.app).2, w.trace⟩)
      else
        let si := newEntry (malloc w.app).1 handle iso m s len
        (0, ⟨⟨si :: w.app.svclist, (malloc w.app).2.mallocs⟩,
          w.trace ++ linkEffects handle si.cookie⟩) := by
  simp only [doAddService, ha.not_refused, if_false, svcCanRegister, checkMacPermsFromLookup,
    Bool.not_true, Bool.false_eq_true, hok.findSvc_absent hkey]
  split_ifs with h0
  · rfl
  · simp [binderLinkToDeath, binderAcquire, binderWrite, linkEffects, malloc_svclist, newEntry]

/-- One event of a run: a transaction, with the message and the stack array of its reply, or
a death callback on an entry. A pointer to no entry is an event without effect. -/
inductive SvcEvent
  | transact (msg : Message) (rdata : Mem)
  | death (ptr : UInt32)

/-- Accepted registrations, with handle and isolation flag, and deaths. -/
abbrev RegEvent := LastWriter.Event (List UInt16) (UInt32 × Bool)

def handleMessage (msg : Message) (rdata : Mem) (w : World SvcState) :
    Int32 × Parcel × World SvcState :=
  svcmgrHandler msg.txn msg.reader (emptyReply rdata) w

def SvcEvent.apply (w : World SvcState) : SvcEvent → World SvcState
  | .transact msg rdata => (handleMessage msg rdata w).2.2
  | .death ptr => svcinfoDeath w ptr

/-- An ADD is noted when `do_add_service` accepts it, a death with the name of its entry. -/
def SvcEvent.observe (w : World SvcState) : SvcEvent → List RegEvent
  | .transact msg _ =>
    match msg.request with
    | .add s len handle iso =>
      if (doAddService w msg.mem s len handle iso msg.txn.senderPid).1 = 0 then
        [.set (units msg.mem s len) (handle, iso)]
      else []
    | _ => []
  | .death ptr =>
    match w.app.svclist.find? (fun si => si.addr = ptr) with
    | none => []
    | some si => [.clear si.key]

def svcMachine : Machine (World SvcState) SvcEvent RegEvent := ⟨SvcEvent.apply, SvcEvent.observe⟩

/-- The manager at its start, with everything the allocator is going to answer. -/
def start (mallocs : List UInt32) : World SvcState := ⟨⟨[], mallocs⟩, []⟩

/-- What an event can do: nothing, override the handle of an entry, create an entry in front,
or clear an entry; together with the effects written and the observation made. -/
inductive RegStep (w : World SvcState) : World SvcState → List RegEvent → Prop
  | idle (ms : List UInt32) : RegStep w ⟨⟨w.app.svclist, ms⟩, w.trace⟩ []
  | override (si : SvcInfo) (mem : si ∈ w.app.svclist) (handle : UInt32) (ne : handle ≠ 0)
      (iso : Bool) : RegStep w
        ⟨⟨setHandle w.app.svclist si.addr handle, w.app.mallocs⟩,
          w.trace ++ si.releases ++ linkEffects handle si.cookie⟩
        [.set si.key (handle, iso)]
  | create (si : SvcInfo) (ok : si.Ok) (ne : si.handle ≠ 0)
      (addr : si.addr ∉ w.app.svclist.map SvcInfo.addr)
      (key : si.key ∉ w.app.svclist.map SvcInfo.key) (ms : List UInt32) : RegStep w
        ⟨⟨si :: w.app.svclist, ms⟩, w.trace ++ linkEffects si.handle si.cookie⟩
        [.set si.key (si.handle, si.allowIsolated)]
  | death (si : SvcInfo) (mem : si ∈ w.app.svclist) : RegStep w
        ⟨⟨setHandle w.app.svclist si.addr 0, w.app.mallocs⟩, w.trace ++ si.releases⟩
        [.clear si.key]

/-- Registration as a step, by the status it returns. -/
theorem doAddService_step {w : World SvcState} (hok : RegistryOk w.app.svclist) (m : Mem)
    (s len : ℕ) (handle spid : UInt32) (iso : Bool) :
    RegStep w (doAddService w m s len handle iso spid).2
      (if (doAddService w m s len handle iso spid).1 = 0 then
        [.set (units m s len) (handle, iso)] else []) := by
  by_cases ha : AddArgs handle len
  swap
  · rw [doAddService_refused ha]
    exact RegStep.idle w.app.mallocs
  by_cases hk : units m s len ∈ w.app.svclist.map SvcInfo.key
  · obtain ⟨si, hsi, hkey⟩ := List.mem_map.mp hk
    rw [doAddService_existing hok ha hsi hkey, if_pos rfl, ← hkey]
    exact RegStep.override si hsi handle ha.1 iso
  · rw [doAddService_new hok ha hk]
    by_cases h0 : (malloc w.app).1 = 0
    · have hidle := RegStep.idle (w := w) (malloc w.app).2.mallocs
      rw [← malloc_svclist] at hidle
      simpa [h0] using hidle
    · have hentry := newEntry_key (malloc w.app).1 handle iso m s len
      have hstep := RegStep.create (newEntry (malloc w.app).1 handle iso m s len)
        (newEntry_ok handle iso m s h0 ha.2.1 ha.2.2) ha.1 (malloc_fresh h0) (hentry ▸ hk)
        (malloc w.app).2.mallocs
      rw [hentry] at hstep
      simpa [h0, newEntry] using hstep

theorem handleMessage_world (msg : Message) (rdata : Mem) (w : World SvcState) :
    (handleMessage msg rdata w).2.2 = match msg.request with
      | .add s len handle iso => (doAddService w msg.mem s len handle iso msg.txn.senderPid).2
      | _ => w := svcmgrHandler_world msg (emptyReply rdata) w

/-- Every event of a run from a sound registry takes one of the steps. -/
theorem SvcEvent.apply_step {w : World SvcState} (hok : RegistryOk w.app.svclist) (e : SvcEvent) :
    RegStep w (e.apply w) (e.observe w) := by
  cases e with
  | transact msg rdata =>
    simp only [SvcEvent.apply, SvcEvent.observe, handleMessage_world]
    cases msg.request with
    | add s len handle iso => exact doAddService_step hok _ _ _ _ _ _
    | reject => exact RegStep.idle w.app.mallocs
    | ping => exact RegStep.idle w.app.mallocs
    | find s len => exact RegStep.idle w.app.mallocs
    | list n => exact RegStep.idle w.app.mallocs
  | death ptr =>
    simp only [SvcEvent.apply, SvcEvent.observe]
    cases hf : w.app.svclist.find? (fun si => si.addr = ptr) with
    | none =>
      simp only [svcinfoDeath, hf]
      exact RegStep.idle w.app.mallocs
    | some si =>
      have hsi := List.mem_of_find?_eq_some hf
      have hptr : si.addr = ptr := by simpa using List.find?_some hf
      rw [← hptr, svcinfoDeath_entry hok hsi]
      exact RegStep.death si hsi

theorem RegStep.registryOk {w w' : World SvcState} {obs : List RegEvent} (h : RegStep w w' obs)
    (hok : RegistryOk w.app.svclist) : RegistryOk w'.app.svclist := by
  cases h with
  | idle ms => exact hok
  | override si mem handle ne iso => exact hok.setHandle _ _
  | create si ok ne addr key ms => exact hok.cons ok addr key
  | death si mem => exact hok.setHandle _ _

/-- The commands that take, give back or watch a reference. -/
def isRefCommand : Effect → Bool
  | .write (.acquire _) | .write (.release _) | .write (.requestDeathNotification ..) => true
  | _ => false

/-- A step appends reference commands to the trace, and nothing else. -/
theorem RegStep.trace {w w' : World SvcState} {obs : List RegEvent} (h : RegStep w w' obs) :
    ∃ effs, w'.trace = w.trace ++ effs ∧ ∀ e ∈ effs, isRefCommand e := by
  have hreleases (si : SvcInfo) : ∀ e ∈ si.releases, isRefCommand e := by
    intro e he
    unfold SvcInfo.releases at he
    split_ifs at he
    · simp at he
    · rw [List.mem_singleton.mp he]
      rfl
  have hlink (handle cookie : UInt32) : ∀ e ∈ linkEffects handle cookie, isRefCommand e := by
    simp [linkEffects, isRefCommand]
  cases h with
  | idle ms => exact ⟨[], by simp, by simp⟩
  | override si mem handle ne iso =>
    refine ⟨si.releases ++ linkEffects handle si.cookie, List.append_assoc .., fun e he => ?_⟩
    rcases List.mem_append.mp he with he | he
    · exact hreleases si e he
    · exact hlink _ _ e he
  | create si ok ne addr key ms => exact ⟨_, rfl, hlink _ _⟩
  | death si mem => exact ⟨_, rfl, hreleases si⟩

theorem run_registryOk (mallocs : List UInt32) (es : List SvcEvent) :
    RegistryOk (svcMachine.run (start mallocs) es).app.svclist :=
  svcMachine.run_invariant (P := fun w => RegistryOk w.app.svclist)
    (fun _ e hok => (e.apply_step hok).registryOk hok) registryOk_nil es

/-- An update of the handle of one entry, seen from the map: `f` is the value an entry shows,
as a function of its handle and the rest. -/
theorem registry_setHandle {V : Type*} {l : List SvcInfo}
    {value : SvcInfo → Option V} {log : List (LastWriter.Event (List UInt16) V)}
    (hok : RegistryOk l) (h : Registry SvcInfo.key value l log) {si : SvcInfo} (hsi : si ∈ l)
    {handle : UInt32} {e : LastWriter.Event (List UInt16) V} (hkey : e.key = si.key)
    (hval : value { si with handle := handle } = e.value) :
    Registry SvcInfo.key value (setHandle l si.addr handle) (log ++ [e]) := by
  apply h.update
  · rw [hkey]
    exact List.mem_map_of_mem hsi
  · intro b _
    split_ifs <;> rfl
  · intro b hb
    by_cases he : b.addr = si.addr
    · have hbs := hok.addr_inj hb hsi he
      subst hbs
      simp [hkey, hval]
    · have hk : si.key ≠ b.key := fun hk => he (by rw [hok.key_inj hsi hb hk])
      simp [he, hkey, hk]

/-- The registry and the log of accepted registrations and deaths agree on live handles. -/
def HandlesAgree (w : World SvcState) (log : List RegEvent) : Prop :=
  RegistryOk w.app.svclist ∧
    Registry SvcInfo.key SvcInfo.live w.app.svclist (log.map (Event.map Prod.fst))

theorem RegStep.handlesAgree {w w' : World SvcState} {obs log : List RegEvent}
    (h : RegStep w w' obs) (ha : HandlesAgree w log) : HandlesAgree w' (log ++ obs) := by
  refine ⟨h.registryOk ha.1, ?_⟩
  rw [List.map_append]
  cases h with
  | idle ms => simpa using ha.2
  | override si mem handle ne iso =>
    exact registry_setHandle ha.1 ha.2 mem rfl (by simp [SvcInfo.live, ne, Event.map, Event.value])
  | create si ok ne addr key ms => exact ha.2.cons key (by simp [SvcInfo.live, ne])
  | death si mem =>
    exact registry_setHandle ha.1 ha.2 mem rfl (by simp [SvcInfo.live, Event.map, Event.value])

theorem run_handlesAgree (mallocs : List UInt32) (es : List SvcEvent) :
    HandlesAgree (svcMachine.run (start mallocs) es) (svcMachine.history (start mallocs) es) :=
  svcMachine.run_history (R := HandlesAgree) (h := [])
    (fun _ _ e ha => (e.apply_step ha.1).handlesAgree ha) ⟨registryOk_nil, Registry.nil⟩ es

end LinuxLabs.ServiceManager
