import LinuxLabs.ServiceManagerRefs
import LinuxLabs.PointerChain

/-! The registry as a linked list. Here `svclist` is a pointer into a heap of `struct svcinfo`,
all accesses go through pointers, and the loops follow `next`. A function of this level returns
`none` where the program would follow a dangling pointer or not come to an end; that it never
does is part of the refinement of the list model. -/
namespace LinuxLabs.ServiceManager
open ByteMemory Binder EventRun PointerChain

structure SvcCell where
  next : UInt32
  handle : UInt32
  death : BinderDeath
  allowIsolated : Bool
  len : ℕ
  name : List UInt16

structure SvcHeap where
  cells : UInt32 → Option SvcCell
  svclist : UInt32
  mallocs : List UInt32

namespace SvcHeap

def malloc (st : SvcHeap) : UInt32 × SvcHeap :=
  match st.mallocs with
  | [] => (0, st)
  | p :: ps => (if (st.cells p).isSome then 0 else p, { st with mallocs := ps })

/-- `for (si = svclist; si; si = si->next)`. There are not more than `2^32` pointers, so a search
that takes more turns runs in a circle. -/
def findSvc (m : Mem) (s16 len : ℕ) (st : SvcHeap) : Option UInt32 :=
  search 0 SvcCell.next
    (fun si => decide (len = si.len) && decide (units m s16 len = si.name.take len))
    st.cells (2^32) st.svclist

def storeHandle (w : World SvcHeap) (si handle : UInt32) : Option (World SvcHeap) :=
  (w.app.cells si).map fun c =>
    { w with app := { w.app with
      cells := Function.update w.app.cells si (some { c with handle := handle }) } }

def svcinfoDeath (w : World SvcHeap) (ptr : UInt32) : Option (World SvcHeap) :=
  (w.app.cells ptr).bind fun si =>
    if si.handle ≠ 0 then storeHandle (binderRelease w si.handle) ptr 0 else some w

/-- `death->func(bs, death->ptr)`: the cookie is the address of the `death` member. -/
def deadBinder (cookie : UInt32) (w : World SvcHeap) : Option (World SvcHeap) :=
  (w.app.cells (cookie - 8)).bind fun si =>
    match si.death.func with
    | .svcinfoDeath => svcinfoDeath w si.death.ptr

def doFindService (st : SvcHeap) (m : Mem) (s len : ℕ) (uid spid : UInt32) : Option UInt32 :=
  if !svcCanFind m s len spid then some 0
  else
    (findSvc m s len st).bind fun si =>
      if si = 0 then some 0
      else
        (st.cells si).map fun si =>
          if si.handle ≠ 0 then
            if !si.allowIsolated && decide (isIsolated uid) then 0 else si.handle
          else 0

/-- The branch of `do_add_service` for a name that has an entry. -/
def overrideService (w : World SvcHeap) (si handle : UInt32) : Option (World SvcHeap) :=
  (w.app.cells si).bind fun c =>
    (if c.handle ≠ 0 then svcinfoDeath w si else some w).bind fun w => storeHandle w si handle

def doAddService (w : World SvcHeap) (m : Mem) (s len : ℕ) (handle : UInt32)
    (allowIsolated : Bool) (spid : UInt32) : Option (Int32 × World SvcHeap) :=
  if handle = 0 ∨ len = 0 ∨ 127 < len then some (-1, w)
  else if !svcCanRegister m s len spid then some (-1, w)
  else
    (findSvc m s len w.app).bind fun si =>
      if si ≠ 0 then
        (overrideService w si handle).map fun w =>
          (0, binderLinkToDeath (binderAcquire w handle) handle (si + 8))
      else
        let (si, st) := malloc w.app
        let w := { w with app := st }
        if si = 0 then some (-1, w)
        else
          let entry : SvcCell :=
            { next := w.app.svclist
              handle := handle
              death := ⟨.svcinfoDeath, si⟩
              allowIsolated := allowIsolated
              len := len
              name := (units m s (len + 1)).set len 0 }
          let w := { w with app := { w.app with
            cells := Function.update w.app.cells si (some entry), svclist := si } }
          some (0, binderLinkToDeath (binderAcquire w handle) handle (si + 8))

/-- The name the LIST request replies with, if the list is long enough. -/
def nthName (st : SvcHeap) (n : ℕ) : Option (Option (List UInt16)) :=
  (advance 0 SvcCell.next st.cells n st.svclist).bind fun si =>
    if si = 0 then some none else (st.cells si).map fun si => some si.name

def svcmgrHandler (txn : BinderTransactionData) (msg reply : Parcel) (w : World SvcHeap) :
    Option (Int32 × Parcel × World SvcHeap) :=
  if txn.target ≠ svcmgrHandle then some (-1, reply, w)
  else if txn.code = pingTransaction then some (0, reply, w)
  else
    let msg := (bioGetUint32 msg).2
    match bioGetString16 msg with
    | (none, _, _) => some (-1, reply, w)
    | (some s, len, msg) =>
      if len ≠ svcmgrId.length ∨ units msg.mem s svcmgrId.length ≠ svcmgrId then
        some (-1, reply, w)
      else if txn.code = svcMgrGetService ∨ txn.code = svcMgrCheckService then
        match bioGetString16 msg with
        | (none, _, _) => some (-1, reply, w)
        | (some s, len, msg) =>
          (doFindService w.app msg.mem s len txn.senderEuid txn.senderPid).map fun handle =>
            if handle = 0 then (0, bioPutUint32 reply 0, w) else (0, bioPutRef reply handle, w)
      else if txn.code = svcMgrAddService then
        match bioGetString16 msg with
        | (none, _, _) => some (-1, reply, w)
        | (some s, len, msg) =>
          let (handle, msg) := bioGetRef msg
          let allowIsolated := decide ((bioGetUint32 msg).1 ≠ 0)
          (doAddService w msg.mem s len handle allowIsolated txn.senderPid).map fun (status, w) =>
            if status ≠ 0 then (-1, reply, w) else (0, bioPutUint32 reply 0, w)
      else if txn.code = svcMgrListServices then
        let n := (bioGetUint32 msg).1
        if !svcCanList txn.senderPid then some (-1, reply, w)
        else
          (nthName w.app n.toNat).map fun
            | none => (-1, reply, w)
            | some name => (0, bioPutString16 reply (some name), w)
      else some (-1, reply, w)

end SvcHeap

/-- An entry of the list model: a cell together with its address. -/
def SvcCell.info (e : UInt32 × SvcCell) : SvcInfo :=
  { addr := e.1
    handle := e.2.handle
    death := e.2.death
    allowIsolated := e.2.allowIsolated
    len := e.2.len
    name := e.2.name }

/-- Following `next` from `svclist` ends after exactly these entries, and there are no others. -/
def SvcHeap.Entries (st : SvcHeap) (l : List SvcInfo) : Prop :=
  ∃ cs, Chain 0 SvcCell.next st.cells st.svclist cs ∧ l = cs.map SvcCell.info ∧
    ∀ p, (st.cells p).isSome → p ∈ cs.map Prod.fst

/-- The heap holds the registry of the list model, and the rest of the two states agrees. -/
structure Represents (hw : World SvcHeap) (w : World SvcState) : Prop where
  entries : hw.app.Entries w.app.svclist
  mallocs : hw.app.mallocs = w.app.mallocs
  trace : hw.trace = w.trace

lemma map_info_addr (cs : List (UInt32 × SvcCell)) :
    (cs.map SvcCell.info).map SvcInfo.addr = cs.map Prod.fst := by
  rw [List.map_map]
  rfl

namespace SvcHeap.Entries

variable {st : SvcHeap} {l : List SvcInfo}

theorem addrs (h : st.Entries l) : (l.map SvcInfo.addr).Nodup := by
  obtain ⟨cs, hc, rfl, -⟩ := h
  rw [map_info_addr]
  exact hc.nodup

theorem unique {l' : List SvcInfo} (h : st.Entries l) (h' : st.Entries l') : l = l' := by
  obtain ⟨cs, hc, rfl, -⟩ := h
  obtain ⟨cs', hc', rfl, -⟩ := h'
  rw [hc.unique hc']

/-- The cell of an entry. -/
theorem cell (h : st.Entries l) {si : SvcInfo} (hsi : si ∈ l) :
    si.addr ≠ 0 ∧ ∃ c, st.cells si.addr = some c ∧ SvcCell.info (si.addr, c) = si := by
  obtain ⟨cs, hc, rfl, -⟩ := h
  obtain ⟨e, he, rfl⟩ := List.mem_map.mp hsi
  obtain ⟨hne, hcell⟩ := hc.mem_heap he
  exact ⟨hne, e.2, hcell, rfl⟩

theorem isSome_iff (h : st.Entries l) (p : UInt32) :
    (st.cells p).isSome ↔ p ∈ l.map SvcInfo.addr := by
  obtain ⟨cs, hc, rfl, hall⟩ := h
  rw [map_info_addr]
  refine ⟨hall p, fun hp => ?_⟩
  obtain ⟨e, he, rfl⟩ := List.mem_map.mp hp
  rw [(hc.mem_heap he).2]
  rfl

/-- The search comes to an end, with the entry the list model finds. -/
theorem findSvc_eq (h : st.Entries l) (m : Mem) (s len : ℕ) :
    st.findSvc m s len = some (((ServiceManager.findSvc m s len l).map SvcInfo.addr).getD 0) := by
  obtain ⟨cs, hc, rfl, -⟩ := h
  have hcard : Fintype.card UInt32 = 2^32 := by
    rw [← FinEnum.card_eq_fintypeCard]
    rfl
  rw [SvcHeap.findSvc, hc.search_eq _ (hcard ▸ hc.length_lt), ServiceManager.findSvc,
    List.find?_map, Option.map_map]
  rfl

theorem nthName_eq (h : st.Entries l) (n : ℕ) :
    st.nthName n = some ((nthSvc n l).map SvcInfo.name) := by
  have hnth : nthSvc n l = (l.drop n).head? := by
    clear h
    induction l generalizing n with
    | nil => cases n <;> rfl
    | cons si l ih =>
      cases n with
      | zero => rfl
      | succ n => exact ih n
  obtain ⟨cs, hc, rfl, -⟩ := h
  rw [SvcHeap.nthName, hc.advance_eq, Option.bind_some, hnth, ← List.map_drop]
  cases hd : cs.drop n with
  | nil => simp [headPtr]
  | cons e rest =>
    obtain ⟨hne, hcell⟩ := hc.mem_heap (List.mem_of_mem_drop (hd ▸ List.mem_cons_self))
    simp only [headPtr, List.head?_cons, Option.map_some, Option.getD_some, hne, if_false, hcell,
      List.map_cons]
    rfl

end SvcHeap.Entries

namespace Represents

variable {hw : World SvcHeap} {w : World SvcState}

theorem write (h : Represents hw w) (cmds : List BinderCommand) :
    Represents (binderWrite hw cmds) (binderWrite w cmds) :=
  ⟨h.entries, h.mallocs, by simp [binderWrite, h.trace]⟩

/-- A store to the handle of an entry. -/
theorem storeHandle (h : Represents hw w) {si : SvcInfo} (hsi : si ∈ w.app.svclist)
    (handle : UInt32) :
    ∃ hw', SvcHeap.storeHandle hw si.addr handle = some hw' ∧
      Represents hw' (ServiceManager.storeHandle w si.addr handle) := by
  obtain ⟨-, c, hcell, -⟩ := h.entries.cell hsi
  simp only [SvcHeap.storeHandle, hcell, Option.map_some, Option.some.injEq, exists_eq_left']
  refine ⟨?_, h.mallocs, h.trace⟩
  obtain ⟨cs, hc, hl, hall⟩ := h.entries
  have hstore := hc.store (q := si.addr) (v := { c with handle := handle }) (by
    intro v' hv'
    rw [hcell] at hv'
    rw [← Option.some.inj hv'])
  refine ⟨_, hstore, ?_, fun p hp => ?_⟩
  · change setHandle w.app.svclist si.addr handle = _
    rw [hl, setHandle, List.map_map, List.map_map]
    apply List.map_congr_left
    intro e he
    by_cases hs : e.1 = si.addr
    · have he2 := (hc.mem_heap he).2
      rw [hs, hcell] at he2
      simp [SvcCell.info, hs, Option.some.inj he2]
    · simp [SvcCell.info, hs]
  · rw [store_fst]
    by_cases hp' : p = si.addr
    · subst hp'
      exact hall _ (by rw [hcell]; rfl)
    · exact hall p (by simpa [Function.update_of_ne hp'] using hp)

theorem svcinfoDeath (h : Represents hw w) {si : SvcInfo} (hsi : si ∈ w.app.svclist) :
    ∃ hw', SvcHeap.svcinfoDeath hw si.addr = some hw' ∧
      Represents hw' (ServiceManager.svcinfoDeath w si.addr) := by
  obtain ⟨-, c, hcell, hinfo⟩ := h.entries.cell hsi
  have hhandle : c.handle = si.handle := by rw [← hinfo]; rfl
  have hfind : w.app.svclist.find? (fun b => b.addr = si.addr) = some si :=
    LastWriter.find?_key h.entries.addrs hsi
  simp only [SvcHeap.svcinfoDeath, hcell, Option.bind_some, hhandle, ServiceManager.svcinfoDeath,
    hfind]
  split_ifs with h0
  · exact (h.write [.release si.handle]).storeHandle hsi 0
  · exact ⟨hw, rfl, h⟩

theorem malloc (h : Represents hw w) :
    (SvcHeap.malloc hw.app).1 = (ServiceManager.malloc w.app).1 ∧
      Represents ⟨(SvcHeap.malloc hw.app).2, hw.trace⟩
        ⟨(ServiceManager.malloc w.app).2, w.trace⟩ := by
  unfold SvcHeap.malloc ServiceManager.malloc
  rw [h.mallocs]
  cases w.app.mallocs with
  | nil => exact ⟨rfl, h.entries, h.mallocs, h.trace⟩
  | cons p ps =>
    simp only [h.entries.isSome_iff]
    exact ⟨trivial, h.entries, rfl, h.trace⟩

theorem doFindService (h : Represents hw w) (m : Mem) (s len : ℕ) (uid spid : UInt32) :
    hw.app.doFindService m s len uid spid =
      some (ServiceManager.doFindService w.app m s len uid spid) := by
  simp only [SvcHeap.doFindService, ServiceManager.doFindService, h.entries.findSvc_eq]
  split_ifs
  · rfl
  · cases hf : ServiceManager.findSvc m s len w.app.svclist with
    | none => rfl
    | some si =>
      obtain ⟨hne, c, hcell, hinfo⟩ := h.entries.cell (List.mem_of_find?_eq_some hf)
      have hhandle : si.handle = c.handle := by rw [← hinfo]; rfl
      have hiso : si.allowIsolated = c.allowIsolated := by rw [← hinfo]; rfl
      simp only [Option.map_some, Option.getD_some, Option.bind_some, hne, if_false, hcell, hhandle,
        hiso]

theorem overrideService (h : Represents hw w) {si : SvcInfo} (hsi : si ∈ w.app.svclist)
    (handle : UInt32) :
    ∃ hw', SvcHeap.overrideService hw si.addr handle = some hw' ∧
      Represents hw' (ServiceManager.storeHandle
        (if si.handle ≠ 0 then ServiceManager.svcinfoDeath w si.addr else w) si.addr handle) := by
  obtain ⟨-, c, hcell, hinfo⟩ := h.entries.cell hsi
  have hhandle : c.handle = si.handle := by rw [← hinfo]; rfl
  simp only [SvcHeap.overrideService, hcell, Option.bind_some, hhandle]
  by_cases h0 : si.handle = 0
  · simpa [h0] using h.storeHandle hsi handle
  · obtain ⟨hw1, hdeath, h1⟩ := h.svcinfoDeath hsi
    -- the death routine leaves the address of the entry in place
    obtain ⟨si', hsi', haddr⟩ : ∃ b ∈ (ServiceManager.svcinfoDeath w si.addr).app.svclist,
        b.addr = si.addr := by
      have hfind : w.app.svclist.find? (fun b => b.addr = si.addr) = some si :=
        LastWriter.find?_key h.entries.addrs hsi
      simp only [ServiceManager.svcinfoDeath, hfind, h0, ne_eq, not_false_eq_true, if_true]
      exact ⟨_, List.mem_map.mpr ⟨si, hsi, rfl⟩, by simp⟩
    have hstore := h1.storeHandle hsi' handle
    rw [haddr] at hstore
    simpa [h0, hdeath] using hstore

/-- A cell for a new name, in front of the list. -/
theorem create (h : Represents hw w) {si : UInt32} (hne : si ≠ 0)
    (hfresh : si ∉ w.app.svclist.map SvcInfo.addr) (c : SvcCell) (hnext : c.next = hw.app.svclist) :
    Represents
      { hw with app := { hw.app with
        cells := Function.update hw.app.cells si (some c), svclist := si } }
      { w with app := { w.app with svclist := SvcCell.info (si, c) :: w.app.svclist } } := by
  refine ⟨?_, h.mallocs, h.trace⟩
  obtain ⟨cs, hc, hl, hall⟩ := h.entries
  rw [hl, map_info_addr] at hfresh
  refine ⟨(si, c) :: cs, hc.push hne hfresh hnext, ?_, fun p hp => ?_⟩
  · rw [List.map_cons, hl]
  · by_cases hp' : p = si
    · simp [hp']
    · have := hall p (by simpa [Function.update_of_ne hp'] using hp)
      simpa using .inr (by simpa using this)

theorem doAddService (h : Represents hw w) (m : Mem) (s len : ℕ) (handle spid : UInt32)
    (iso : Bool) :
    let out := ServiceManager.doAddService w m s len handle iso spid
    ∃ hw', SvcHeap.doAddService hw m s len handle iso spid = some (out.1, hw') ∧
      Represents hw' out.2 := by
  intro out
  simp only [out, SvcHeap.doAddService, ServiceManager.doAddService, h.entries.findSvc_eq]
  by_cases hargs : handle = 0 ∨ len = 0 ∨ 127 < len
  · simp only [if_pos hargs]
    exact ⟨hw, rfl, h⟩
  by_cases hperm : (!svcCanRegister m s len spid) = true
  · simp only [if_neg hargs, if_pos hperm]
    exact ⟨hw, rfl, h⟩
  · simp only [if_neg hargs, if_neg hperm]
    cases hf : ServiceManager.findSvc m s len w.app.svclist with
    | some si =>
      have hsi := List.mem_of_find?_eq_some hf
      have hne := (h.entries.cell hsi).1
      obtain ⟨hw', hover, h'⟩ := h.overrideService hsi handle
      simp only [Option.map_some, Option.getD_some, Option.bind_some, ne_eq, hne,
        not_false_eq_true, if_true, hover, Option.some.injEq, Prod.mk.injEq, true_and,
        exists_eq_left']
      exact (h'.write [.acquire handle]).write [.requestDeathNotification handle si.cookie]
    | none =>
      obtain ⟨hptr, hrep⟩ := h.malloc
      simp only [Option.map_none, Option.getD_none, Option.bind_some, ne_eq, not_true_eq_false,
        if_false, hptr]
      split_ifs with h0
      · exact ⟨_, rfl, hrep⟩
      · have hfresh := malloc_fresh h0
        rw [← malloc_svclist] at hfresh
        have hcreate := hrep.create h0 hfresh
          ⟨hw.app.malloc.2.svclist, handle, ⟨.svcinfoDeath, (ServiceManager.malloc w.app).1⟩, iso,
            len, (units m s (len + 1)).set len 0⟩ rfl
        exact ⟨_, rfl, (hcreate.write [.acquire handle]).write [.requestDeathNotification handle _]⟩

/-- The handler does to the heap what it does in the list model, with the same status and the
same reply. -/
theorem svcmgrHandler (h : Represents hw w) (txn : BinderTransactionData) (msg reply : Parcel) :
    let out := ServiceManager.svcmgrHandler txn msg reply w
    ∃ hw', SvcHeap.svcmgrHandler txn msg reply hw = some (out.1, out.2.1, hw') ∧
      Represents hw' out.2.2 := by
  intro out
  simp only [out, SvcHeap.svcmgrHandler, ServiceManager.svcmgrHandler]
  by_cases htarget : txn.target ≠ svcmgrHandle
  · simp only [if_pos htarget]
    exact ⟨hw, rfl, h⟩
  by_cases hping : txn.code = pingTransaction
  · simp only [if_neg htarget, if_pos hping]
    exact ⟨hw, rfl, h⟩
  simp only [if_neg htarget, if_neg hping]
  obtain ⟨s, len, msg⟩ := bioGetString16 (bioGetUint32 msg).2
  cases s with
  | none => exact ⟨hw, rfl, h⟩
  | some s =>
    dsimp only
    by_cases hid : len ≠ svcmgrId.length ∨ units msg.mem s svcmgrId.length ≠ svcmgrId
    · simp only [if_pos hid]
      exact ⟨hw, rfl, h⟩
    simp only [if_neg hid]
    by_cases hget : txn.code = svcMgrGetService ∨ txn.code = svcMgrCheckService
    · simp only [if_pos hget]
      obtain ⟨s, len, msg⟩ := bioGetString16 msg
      cases s with
      | none => exact ⟨hw, rfl, h⟩
      | some s =>
        simp only [h.doFindService, Option.map_some]
        split_ifs
        · exact ⟨hw, rfl, h⟩
        · exact ⟨hw, rfl, h⟩
    simp only [if_neg hget]
    by_cases hadd : txn.code = svcMgrAddService
    · simp only [if_pos hadd]
      obtain ⟨s, len, msg⟩ := bioGetString16 msg
      cases s with
      | none => exact ⟨hw, rfl, h⟩
      | some s =>
        dsimp only
        obtain ⟨hw', hrun, h'⟩ := h.doAddService (bioGetRef msg).2.mem s len (bioGetRef msg).1
          txn.senderPid (decide ((bioGetUint32 (bioGetRef msg).2).1 ≠ 0))
        simp only [hrun, Option.map_some]
        split_ifs
        · exact ⟨hw', rfl, h'⟩
        · exact ⟨hw', rfl, h'⟩
    simp only [if_neg hadd]
    by_cases hlist : txn.code = svcMgrListServices
    · simp only [if_pos hlist, h.entries.nthName_eq]
      by_cases hperm : (!svcCanList txn.senderPid) = true
      · simp only [if_pos hperm]
        exact ⟨hw, rfl, h⟩
      · simp only [if_neg hperm]
        cases nthSvc (bioGetUint32 msg).1.toNat w.app.svclist with
        | none => exact ⟨hw, rfl, h⟩
        | some si => exact ⟨hw, rfl, h⟩
    · simp only [if_neg hlist]
      exact ⟨hw, rfl, h⟩

end Represents

def linkCookie : Effect → Option UInt32
  | .write (.requestDeathNotification _ cookie) => some cookie
  | _ => none

/-- The cookies of all calls of `binder_link_to_death`. -/
def linkCookies {σ : Type} (w : World σ) : List UInt32 := w.trace.filterMap linkCookie

/-- One event: a transaction, or a `BR_DEAD_BINDER`. -/
inductive HeapEvent
  | transact (msg : Message) (rdata : Mem)
  | deadBinder (cookie : UInt32)

/-- The driver reports a death with a cookie it was given; the event is void for others. -/
def HeapEvent.apply (hw : World SvcHeap) : HeapEvent → Option (World SvcHeap)
  | .transact msg rdata =>
    (SvcHeap.svcmgrHandler msg.txn msg.reader (emptyReply rdata) hw).map fun out => out.2.2
  | .deadBinder cookie => if cookie ∈ linkCookies hw then SvcHeap.deadBinder cookie hw else some hw

/-- The name an ADD request is about. -/
def HeapEvent.name : HeapEvent → List UInt16
  | .transact msg _ =>
    match msg.request with
    | .add s len _ _ => units msg.mem s len
    | _ => []
  | .deadBinder _ => []

/-- Every link is noted with the name it was made for and its cookie. -/
def HeapEvent.observe (hw : World SvcHeap) (e : HeapEvent) : List (List UInt16 × UInt32) :=
  ((e.apply hw).map fun hw' => ((written hw hw').filterMap linkCookie).map (e.name, ·)).getD []

def heapMachine : Machine (Option (World SvcHeap)) HeapEvent (List UInt16 × UInt32) :=
  ⟨fun s e => s.bind fun hw => e.apply hw, fun s e => (s.map fun hw => e.observe hw).getD []⟩

def heapStart (mallocs : List UInt32) : World SvcHeap := ⟨⟨fun _ => none, 0, mallocs⟩, []⟩

/-- An entry up to its handle. -/
def SvcInfo.frozen (si : SvcInfo) : SvcInfo := { si with handle := 0 }

lemma RegStep.suffix {w w' : World SvcState} {obs : List RegEvent} (h : RegStep w w' obs) :
    w.app.svclist.map SvcInfo.frozen <:+ w'.app.svclist.map SvcInfo.frozen := by
  cases h with
  | idle ms => exact List.suffix_rfl
  | override si mem handle ne iso =>
    rw [setHandle_map SvcInfo.frozen fun _ _ => rfl]
  | create si ok ne addr key ms => exact List.suffix_cons _ _
  | death si mem =>
    rw [setHandle_map SvcInfo.frozen fun _ _ => rfl]

/-- A step keeps all entries, with their names and their addresses. -/
lemma mem_of_suffix {l l' : List SvcInfo} (h : l.map SvcInfo.frozen <:+ l'.map SvcInfo.frozen)
    {si : SvcInfo} (hsi : si ∈ l) : ∃ si' ∈ l', si'.cookie = si.cookie ∧ si'.key = si.key := by
  have hmem := h.subset (List.mem_map_of_mem hsi)
  obtain ⟨si', hsi', hf⟩ := List.mem_map.mp hmem
  have hcookie : si'.frozen.cookie = si.frozen.cookie := congrArg SvcInfo.cookie hf
  have hkey : si'.frozen.key = si.frozen.key := congrArg SvcInfo.key hf
  exact ⟨si', hsi', hcookie, hkey⟩

/-- A step links cookies of entries only, each for the name it sets. -/
lemma RegStep.linkCookies {w w' : World SvcState} {obs : List RegEvent} (h : RegStep w w' obs) :
    ∀ c ∈ (written w w').filterMap linkCookie, ∃ si ∈ w'.app.svclist, si.cookie = c ∧
      ∃ v, obs = [.set si.key v] := by
  have hreleases (si : SvcInfo) : si.releases.filterMap linkCookie = [] := by
    unfold SvcInfo.releases
    split_ifs <;> rfl
  cases h with
  | idle ms => simp [written]
  | override si mem handle ne iso =>
    simp only [written, List.append_assoc, List.drop_left, List.filterMap_append, hreleases]
    intro c hc
    have hc' : si.cookie = c := by simpa [linkEffects, linkCookie] using hc
    refine ⟨{ si with handle := handle }, ?_, hc', (handle, iso), rfl⟩
    exact List.mem_map.mpr ⟨si, mem, if_pos rfl⟩
  | create si ok ne addr key ms =>
    simp only [written, List.drop_left]
    intro c hc
    have hc' : si.cookie = c := by simpa [linkEffects, linkCookie] using hc
    exact ⟨si, List.mem_cons_self, hc', _, rfl⟩
  | death si mem => simp [written, hreleases]

/-- What is set by an event is the name its message carries. -/
lemma observe_name {w : World SvcState} {msg : Message} {rdata : Mem} {k : List UInt16}
    {v : UInt32 × Bool} (h : SvcEvent.observe w (.transact msg rdata) = [.set k v]) :
    (HeapEvent.transact msg rdata).name = k := by
  simp only [SvcEvent.observe] at h
  simp only [HeapEvent.name]
  cases hreq : msg.request with
  | add s len handle iso =>
    rw [hreq] at h
    simp only at h
    split_ifs at h
    exact (LastWriter.Event.set.inj (List.cons.inj h).1).1
  | reject => simp [hreq] at h
  | ping => simp [hreq] at h
  | find s len => simp [hreq] at h
  | list n => simp [hreq] at h

/-- Cookies name entries of the list. -/
def LinksNamed (w : World SvcState) : Prop :=
  ∀ c ∈ linkCookies w, ∃ si ∈ w.app.svclist, si.cookie = c

lemma RegStep.linkCookies_eq {w w' : World SvcState} {obs : List RegEvent} (h : RegStep w w' obs) :
    ServiceManager.linkCookies w' =
      ServiceManager.linkCookies w ++ (written w w').filterMap linkCookie := by
  obtain ⟨effs, ht, -⟩ := h.trace
  rw [written_append ht, ServiceManager.linkCookies, ht, List.filterMap_append]
  rfl

lemma RegStep.linksNamed {w w' : World SvcState} {obs : List RegEvent} (h : RegStep w w' obs)
    (hl : LinksNamed w) : LinksNamed w' := by
  intro c hc
  rw [h.linkCookies_eq, List.mem_append] at hc
  rcases hc with hc | hc
  · obtain ⟨si, hsi, rfl⟩ := hl c hc
    obtain ⟨si', hsi', hcookie, -⟩ := mem_of_suffix h.suffix hsi
    exact ⟨si', hsi', hcookie⟩
  · obtain ⟨si, hsi, hcookie, -⟩ := h.linkCookies c hc
    exact ⟨si, hsi, hcookie⟩

/-- A state of the heap in which all is well: it holds a sound registry whose entries the
cookies name. -/
structure HeapOk (hw : World SvcHeap) (w : World SvcState) : Prop where
  represents : Represents hw w
  registry : RegistryOk w.app.svclist
  links : LinksNamed w

/-- The death callback through a cookie finds its entry and takes a step of the list model. -/
lemma HeapOk.deadBinder {hw : World SvcHeap} {w : World SvcState} (h : HeapOk hw w)
    {cookie : UInt32} (hc : cookie ∈ linkCookies hw) :
    ∃ hw', SvcHeap.deadBinder cookie hw = some hw' ∧
      Represents hw' (SvcEvent.apply w (.death (cookie - 8))) := by
  have hc' : cookie ∈ linkCookies w := by
    rwa [linkCookies, ← h.represents.trace]
  obtain ⟨si, hsi, rfl⟩ := h.links cookie hc'
  obtain ⟨-, c, hcell, hinfo⟩ := h.represents.entries.cell hsi
  have haddr : si.cookie - 8 = si.addr := by simp [SvcInfo.cookie]
  have hdeath : c.death = ⟨.svcinfoDeath, si.addr⟩ := by
    rw [← (h.registry.entries si hsi).death, ← hinfo]
    rfl
  simp only [SvcHeap.deadBinder, haddr, hcell, Option.bind_some, hdeath]
  exact h.represents.svcinfoDeath hsi

/-- Every event is carried out, and takes a step of the list model. -/
theorem HeapOk.apply_step {hw : World SvcHeap} {w : World SvcState} (h : HeapOk hw w)
    (e : HeapEvent) : ∃ hw' w' obs, e.apply hw = some hw' ∧ Represents hw' w' ∧ RegStep w w' obs ∧
      ∀ k v, obs = [.set k v] → e.name = k := by
  cases e with
  | transact msg rdata =>
    obtain ⟨hw', hrun, h'⟩ := h.represents.svcmgrHandler msg.txn msg.reader (emptyReply rdata)
    refine ⟨hw', _, _, ?_, h', SvcEvent.apply_step h.registry (.transact msg rdata),
      fun k v hobs => observe_name hobs⟩
    simp only [HeapEvent.apply, hrun, Option.map_some]
  | deadBinder cookie =>
    by_cases hc : cookie ∈ linkCookies hw
    · obtain ⟨hw', hrun, h'⟩ := h.deadBinder hc
      refine ⟨hw', _, _, by simpa [HeapEvent.apply, hc] using hrun, h',
        SvcEvent.apply_step h.registry (.death (cookie - 8)), fun k v hobs => ?_⟩
      -- a death sets nothing
      simp only [SvcEvent.observe] at hobs
      split at hobs <;> simp at hobs
    · exact ⟨hw, w, [], by simp [HeapEvent.apply, hc], h.represents, RegStep.idle w.app.mallocs,
        by simp⟩

/-- All links of a run so far, with their names, against the state they have led to. -/
structure LinksKept (s : Option (World SvcHeap)) (log : List (List UInt16 × UInt32))
    (w : World SvcState) : Prop where
  ok : ∃ hw, s = some hw ∧ HeapOk hw w
  cookies : log.map Prod.snd = linkCookies w
  designates : ∀ n ∈ log, ∃ si ∈ w.app.svclist, si.cookie = n.2 ∧ si.key = n.1

theorem LinksKept.step {s : Option (World SvcHeap)} {log : List (List UInt16 × UInt32)}
    {w : World SvcState} (h : LinksKept s log w) (e : HeapEvent) :
    ∃ w', LinksKept (heapMachine.apply s e) (log ++ heapMachine.observe s e) w' ∧
      w.app.svclist.map SvcInfo.frozen <:+ w'.app.svclist.map SvcInfo.frozen := by
  obtain ⟨hw, rfl, hok⟩ := h.ok
  obtain ⟨hw', w', obs, happly, hrep, hstep, hname⟩ := hok.apply_step e
  have hwritten : written hw hw' = written w w' := by
    rw [written, written, hrep.trace, hok.represents.trace]
  have hobs : heapMachine.observe (some hw) e =
      ((written w w').filterMap linkCookie).map (e.name, ·) := by
    simp [heapMachine, HeapEvent.observe, happly, hwritten]
  refine ⟨w', ⟨⟨hw', happly, hrep, hstep.registryOk hok.registry, hstep.linksNamed hok.links⟩,
    ?_, ?_⟩, hstep.suffix⟩
  · rw [hobs, List.map_append, h.cookies, hstep.linkCookies_eq, List.map_map]
    simp [Function.comp_def]
  · intro n hn
    rw [hobs, List.mem_append] at hn
    rcases hn with hn | hn
    · obtain ⟨si, hsi, hcookie, hkey⟩ := h.designates n hn
      obtain ⟨si', hsi', hcookie', hkey'⟩ := mem_of_suffix hstep.suffix hsi
      exact ⟨si', hsi', hcookie'.trans hcookie, hkey'.trans hkey⟩
    · obtain ⟨c, hc, rfl⟩ := List.mem_map.mp hn
      obtain ⟨si, hsi, hcookie, v, hv⟩ := hstep.linkCookies c hc
      exact ⟨si, hsi, hcookie, (hname _ _ hv).symm⟩

theorem LinksKept.run {s : Option (World SvcHeap)} {log : List (List UInt16 × UInt32)}
    {w : World SvcState} (h : LinksKept s log w) (es : List HeapEvent) :
    ∃ w', LinksKept (heapMachine.run s es) (log ++ heapMachine.history s es) w' ∧
      w.app.svclist.map SvcInfo.frozen <:+ w'.app.svclist.map SvcInfo.frozen := by
  induction es generalizing s log w with
  | nil => exact ⟨w, by simpa [Machine.history] using h, List.suffix_rfl⟩
  | cons e es ih =>
    obtain ⟨w1, h1, hs1⟩ := h.step e
    obtain ⟨w2, h2, hs2⟩ := ih h1
    refine ⟨w2, ?_, hs1.trans hs2⟩
    simpa [Machine.history, List.append_assoc] using h2

lemma heapStart_kept (mallocs : List UInt32) :
    LinksKept (some (heapStart mallocs)) [] (start mallocs) := by
  refine ⟨⟨_, rfl, ⟨⟨[], rfl, rfl, ?_⟩, rfl, rfl⟩, registryOk_nil, ?_⟩, rfl, by simp⟩
  · simp [heapStart]
  · simp [LinksNamed, linkCookies, start]

/-- The representation invariant of `svclist`, over every run from the empty list: no pointer
dangles and no loop runs on; the list ends, with sound entries of distinct names at distinct
addresses; all cookies ever linked name the entries they were linked for; and later lists have
the list as a suffix, up to the handles. -/
theorem svclist_invariant (mallocs : List UInt32) (es fs : List HeapEvent) :
    let start := some (heapStart mallocs)
    ∃ hw l hw' l', heapMachine.run start es = some hw ∧
      hw.app.Entries l ∧ RegistryOk l ∧
      (heapMachine.history start es).map Prod.snd = linkCookies hw ∧
      (∀ n ∈ heapMachine.history start es, ∃ si ∈ l, si.cookie = n.2 ∧ si.key = n.1) ∧
      heapMachine.run start (es ++ fs) = some hw' ∧ hw'.app.Entries l' ∧
      l.map SvcInfo.frozen <:+ l'.map SvcInfo.frozen := by
  intro s
  obtain ⟨w, h, -⟩ := (heapStart_kept mallocs).run es
  obtain ⟨w', h', hsuffix⟩ := h.run fs
  obtain ⟨hw, hrun, hok⟩ := h.ok
  obtain ⟨hw', hrun', hok'⟩ := h'.ok
  refine ⟨hw, w.app.svclist, hw', w'.app.svclist, hrun, hok.represents.entries, hok.registry, ?_,
    h.designates, ?_, hok'.represents.entries, hsuffix⟩
  · have hlog := h.cookies
    rw [List.nil_append] at hlog
    rw [hlog, linkCookies, linkCookies, hok.represents.trace]
  · rw [heapMachine.run_append]
    exact hrun'

end LinuxLabs.ServiceManager
