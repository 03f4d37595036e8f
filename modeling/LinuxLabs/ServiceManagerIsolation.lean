import LinuxLabs.BinderReply
import LinuxLabs.ServiceManagerLookup

/-! The isolation flag. Creating an entry stores the flag of the request, overriding an entry
does not, so isolated callers see the flag of the first registration of a name. Of the entries
closed to them they see nothing. -/
namespace LinuxLabs.ServiceManager
open ByteMemory Binder EventRun LastWriter

/-- Lookups by isolated callers follow the flag of the registration in force. -/
def IsolationInForce (w : World SvcState) (log : List RegEvent) : Prop :=
  ∀ (msg : Message) (rdata : Mem) (name : List UInt16), IsLookup msg name →
    isIsolated msg.txn.senderEuid →
    ((∃ h, h ≠ 0 ∧ (handleMessage msg rdata w).2.1 = bioPutRef (emptyReply rdata) h) ↔
      ∃ h, lookup log name = some (h, true))

/-- An ADD of a non-zero handle for a name on the list repeats the flag of the entry. -/
def FlagKept (w : World SvcState) : SvcEvent → Prop
  | .transact msg _ => ∀ s len handle iso, msg.request = .add s len handle iso → handle ≠ 0 →
      ∀ si ∈ w.app.svclist, si.key = units msg.mem s len → si.allowIsolated = iso
  | .death _ => True

/-- The live handle of an entry together with its flag. -/
def SvcInfo.shown (si : SvcInfo) : Option (UInt32 × Bool) :=
  if si.handle = 0 then none else some (si.handle, si.allowIsolated)

/-- An isolated caller gets a reference exactly when the entry is live and open to it. -/
theorem IsLookup.isolated_iff {msg : Message} {name : List UInt16} (hl : IsLookup msg name)
    {w : World SvcState} (hok : RegistryOk w.app.svclist) (rdata : Mem)
    (hu : isIsolated msg.txn.senderEuid) :
    (∃ h, h ≠ 0 ∧ (handleMessage msg rdata w).2.1 = bioPutRef (emptyReply rdata) h) ↔
      ∃ h, (w.app.svclist.find? fun si => si.key = name).bind SvcInfo.shown = some (h, true) := by
  have hans : (∃ h, h ≠ 0 ∧ (handleMessage msg rdata w).2.1 = bioPutRef (emptyReply rdata) h) ↔
      answer w.app.svclist name msg.txn.senderEuid ≠ 0 := by
    constructor
    · rintro ⟨h, hh, he⟩
      rwa [(hl.reply_iff hok rdata hh).mp he]
    · intro hh
      exact ⟨_, hh, (hl.reply_iff hok rdata hh).mpr rfl⟩
  rw [hans]
  unfold answer
  cases w.app.svclist.find? (fun si => si.key = name) with
  | none => simp
  | some si =>
    by_cases h0 : si.handle = 0
    · simp [SvcInfo.shown, h0]
    · cases hi : si.allowIsolated <;> simp [SvcInfo.shown, h0, hi, hu]

theorem FlagKept.observed {w : World SvcState} {e : SvcEvent} (h : FlagKept w e)
    {k : List UInt16} {handle : UInt32} {iso : Bool} (hobs : .set k (handle, iso) ∈ e.observe w)
    {si : SvcInfo} (hsi : si ∈ w.app.svclist) (hkey : si.key = k) : si.allowIsolated = iso := by
  cases e with
  | transact msg rdata =>
    simp only [SvcEvent.observe] at hobs
    cases hr : msg.request with
    | add s len handle' iso' =>
      simp only [hr] at hobs
      by_cases ha : AddArgs handle' len
      · split_ifs at hobs
        · simp only [List.mem_singleton, Event.set.injEq, Prod.mk.injEq] at hobs
          obtain ⟨rfl, rfl, rfl⟩ := hobs
          exact h s len handle iso hr ha.1 si hsi hkey
        · simp at hobs
      · rw [doAddService_refused ha] at hobs
        simp at hobs
    | reject => simp [hr] at hobs
    | ping => simp [hr] at hobs
    | find s len => simp [hr] at hobs
    | list n => simp [hr] at hobs
  | death ptr =>
    simp only [SvcEvent.observe] at hobs
    split at hobs <;> simp at hobs

/-- The registry and the log agree on handles and flags. -/
def FlagsAgree (w : World SvcState) (log : List RegEvent) : Prop :=
  RegistryOk w.app.svclist ∧ Registry SvcInfo.key SvcInfo.shown w.app.svclist log

theorem FlagKept.step {w : World SvcState} {log : List RegEvent} {e : SvcEvent}
    (h : FlagKept w e) (ha : FlagsAgree w log) :
    FlagsAgree (e.apply w) (log ++ e.observe w) := by
  have hstep := e.apply_step ha.1
  refine ⟨hstep.registryOk ha.1, ?_⟩
  have hflag : ∀ k handle iso, .set k (handle, iso) ∈ e.observe w → ∀ si ∈ w.app.svclist,
      si.key = k → si.allowIsolated = iso := fun _ _ _ ho _ hs hk => h.observed ho hs hk
  generalize e.apply w = w' at hstep
  generalize e.observe w = obs at hstep hflag ⊢
  cases hstep with
  | idle ms => simpa using ha.2
  | override si mem handle ne iso =>
    have hiso := hflag si.key handle iso (by simp) si mem rfl
    exact registry_setHandle ha.1 ha.2 mem rfl (by simp [SvcInfo.shown, ne, Event.value, hiso])
  | create si ok ne addr key ms => exact ha.2.cons key (by simp [SvcInfo.shown, ne])
  | death si mem =>
    exact registry_setHandle ha.1 ha.2 mem rfl (by simp [SvcInfo.shown, Event.value])

theorem FlagsAgree.inForce {w : World SvcState} {log : List RegEvent} (h : FlagsAgree w log) :
    IsolationInForce w log := by
  intro msg rdata name hl hu
  rw [hl.isolated_iff h.1 rdata hu, h.2.find]

/-- An override that changes the flag is noticed by the next isolated lookup. -/
theorem flagKept_of_inForce {w : World SvcState} {log : List RegEvent} {e : SvcEvent}
    (hok : RegistryOk w.app.svclist) (h : IsolationInForce (e.apply w) (log ++ e.observe w)) :
    FlagKept w e := by
  cases e with
  | death ptr => trivial
  | transact msg rdata =>
    intro s len handle iso hr hh si hsi hkey
    have hsok := hok.entries si hsi
    have hlen : len = si.len := by rw [← hsok.key_length, hkey, units_length]
    have hargs : AddArgs handle len := ⟨hh, hlen ▸ hsok.pos, hlen ▸ hsok.max⟩
    have hadd : doAddService w msg.mem s len handle iso msg.txn.senderPid = _ :=
      doAddService_existing hok hargs hsi hkey
    have happly : SvcEvent.apply w (.transact msg rdata) =
        ⟨⟨setHandle w.app.svclist si.addr handle, w.app.mallocs⟩,
          w.trace ++ si.releases ++ linkEffects handle si.cookie⟩ := by
      simp only [SvcEvent.apply, handleMessage_world, hr, hadd]
    have hobs : SvcEvent.observe w (.transact msg rdata) = [.set si.key (handle, iso)] := by
      simp only [SvcEvent.observe, hr, hadd, if_true, ← hkey]
    rw [happly, hobs] at h
    have hlook := lookupMessage_isLookup si.key 99000
      (by rw [hsok.key_length]; exact hsok.max)
    have hok' := hok.setHandle si.addr handle
    have huid : isIsolated (lookupMessage si.key 99000).txn.senderEuid := by
      change isIsolated 99000
      decide
    have hiff := (hlook.isolated_iff hok' rdata huid).symm.trans
      (h (lookupMessage si.key 99000) rdata si.key hlook huid)
    -- the overridden entry is the one the search finds
    have hmem : { si with handle := handle } ∈ setHandle w.app.svclist si.addr handle :=
      List.mem_map.mpr ⟨si, hsi, by simp⟩
    have hfind := find?_key hok'.keys hmem
    have hkeq : SvcInfo.key { si with handle := handle } = si.key := rfl
    rw [hkeq] at hfind
    rw [hfind, lookup_snoc] at hiff
    simp only [Option.bind_some, SvcInfo.shown, hh, if_false, Event.key, Event.value, if_true,
      Option.some.injEq, Prod.mk.injEq, exists_eq_left'] at hiff
    cases hi : si.allowIsolated <;> cases hj : iso <;> simp_all

/-- The flag in force is that of the registration in force, in every state of a run, exactly
when every registration of a name that is already on the list repeats the flag of its entry. -/
theorem isolationInForce_iff (mallocs : List UInt32) (es : List SvcEvent) :
    (∀ pre, pre <+: es → IsolationInForce (svcMachine.run (start mallocs) pre)
      (svcMachine.history (start mallocs) pre)) ↔
    ∀ pre e, pre ++ [e] <+: es → FlagKept (svcMachine.run (start mallocs) pre) e := by
  constructor
  · intro h pre e hp
    have hall := h (pre ++ [e]) hp
    rw [svcMachine.run_append, svcMachine.history_append] at hall
    simp only [Machine.run, Machine.history, List.foldl, List.append_nil] at hall
    exact flagKept_of_inForce (run_registryOk mallocs pre) hall
  · intro h pre hp
    have hagree := svcMachine.run_history_of (R := FlagsAgree) (C := FlagKept) (h := [])
      (fun _ _ _ hc ha => hc.step ha) (s := start mallocs) ⟨registryOk_nil, Registry.nil⟩ pre
      (fun pre' e hp' => h pre' e (hp'.trans hp))
    exact hagree.inForce

/-- A service open to isolated callers is replaced by one that is not, and stays open. -/
theorem override_keeps_old_flag :
    let es := [SvcEvent.transact (addMessage [104, 105] 5 1) fun _ => 0,
      .transact (addMessage [104, 105] 6 0) fun _ => 0]
    ¬ IsolationInForce (svcMachine.run (start [64]) es) (svcMachine.history (start [64]) es) := by
  intro es h
  have hl := lookupMessage_isLookup [104, 105] 99000 (by decide)
  have hiff := h _ (fun _ => 0) [104, 105] hl (by decide)
  rw [hl.isolated_iff (run_registryOk [64] es) _ (by decide)] at hiff
  obtain ⟨handle, hlook⟩ := hiff.mp ⟨6, by decide +kernel⟩
  have hlog : lookup (svcMachine.history (start [64]) es) [104, 105] = some (6, false) := by
    decide +kernel
  rw [hlog] at hlook
  simp at hlook

/-- Two registries show the same services to isolated callers: every name either stands for one
handle in both, open to them, or for nothing live and open to them in either. -/
def OpenAgree (l l' : List SvcInfo) : Prop :=
  ∀ name, (∃ si ∈ l, ∃ si' ∈ l', si.key = name ∧ si'.key = name ∧ si.allowIsolated = true ∧
      si'.allowIsolated = true ∧ si.handle = si'.handle) ∨
    ((¬ ∃ si ∈ l, si.key = name ∧ si.allowIsolated = true ∧ si.handle ≠ 0) ∧
      ¬ ∃ si ∈ l', si.key = name ∧ si.allowIsolated = true ∧ si.handle ≠ 0)

/-- Names are unique, so that any open entry of a name is the one the search finds. -/
lemma RegistryOk.answer_open {l : List SvcInfo} (hok : RegistryOk l) {si : SvcInfo} (hsi : si ∈ l)
    (hopen : si.allowIsolated = true) (uid : UInt32) : answer l si.key uid = si.handle := by
  rw [answer, find?_key hok.keys hsi]
  simp [hopen]

lemma answer_closed {l : List SvcInfo} {name : List UInt16} {uid : UInt32} (hu : isIsolated uid)
    (h : ¬ ∃ si ∈ l, si.key = name ∧ si.allowIsolated = true ∧ si.handle ≠ 0) :
    answer l name uid = 0 := by
  unfold answer
  cases hf : l.find? (fun si => si.key = name) with
  | none => rfl
  | some si =>
    have hkey : si.key = name := by simpa using List.find?_some hf
    by_cases hopen : si.allowIsolated = true
    · have h0 : si.handle = 0 := by
        by_contra h0
        exact h ⟨si, List.mem_of_find?_eq_some hf, hkey, hopen, h0⟩
      simp [h0]
    · simp [hopen, hu]

theorem OpenAgree.answer_eq {l l' : List SvcInfo} (h : OpenAgree l l') (hok : RegistryOk l)
    (hok' : RegistryOk l') {uid : UInt32} (hu : isIsolated uid) (name : List UInt16) :
    answer l name uid = answer l' name uid := by
  rcases h name with ⟨si, hsi, si', hsi', rfl, hkey, hopen, hopen', hh⟩ | ⟨hno, hno'⟩
  · rw [hok.answer_open hsi hopen, ← hkey, hok'.answer_open hsi' hopen', hh]
  · rw [answer_closed hu hno, answer_closed hu hno']

lemma request_of_lookup {msg : Message}
    (hcode : msg.txn.code = svcMgrGetService ∨ msg.txn.code = svcMgrCheckService) :
    msg.request = .reject ∨ ∃ s len, msg.request = .find s len := by
  have hping : msg.txn.code ≠ pingTransaction := by
    rcases hcode with hc | hc <;> rw [hc] <;> decide
  simp only [Message.request, hping, hcode, if_false, if_true]
  split_ifs <;> simp

/-- The answer to a lookup, as the caller sees it. -/
def answerTxn (handle : UInt32) : OutgoingTxn :=
  let put := if handle = 0 then Put.uint32 0 else .ref handle
  ⟨0, 0, 0, put.bytes, putOffsets 0 [put]⟩

lemma find_outgoing (msg : Message) (rdata : Mem) (w : World SvcState) (s len : ℕ) :
    let out := (Request.find s len).perform msg (emptyReply rdata) w
    out.1 = 0 ∧ out.2.1.outgoing 0 0 0 =
      answerTxn (doFindService w.app msg.mem s len msg.txn.senderEuid msg.txn.senderPid) := by
  intro out
  have hone (put : Put) (h : FillsReply [put]) :
      (putAll (emptyReply rdata) [put]).outgoing 0 0 0 =
        ⟨0, 0, 0, put.bytes, putOffsets 0 [put]⟩ := by
    have hput : replyTxn (putAll (emptyReply rdata) [put]) 0 = _ := replyTxn_puts h
    rw [List.flatMap_singleton] at hput
    exact hput
  by_cases h0 : doFindService w.app msg.mem s len msg.txn.senderEuid msg.txn.senderPid = 0
  · have hout : out = (0, putAll (emptyReply rdata) [.uint32 0], w) := by
      simp only [out, Request.perform, h0, if_true]
      rfl
    rw [hout, answerTxn, if_pos h0]
    exact ⟨rfl, hone _ ⟨by decide, by decide, by simp [Put.Padded]⟩⟩
  · have hout : out = (0, putAll (emptyReply rdata) [.ref (doFindService w.app msg.mem s len
        msg.txn.senderEuid msg.txn.senderPid)], w) := by
      simp only [out, Request.perform, h0, if_false]
      rfl
    rw [hout, answerTxn, if_neg h0]
    exact ⟨rfl, hone _ ⟨by simp [putsSize, Put.size], by simp [putsObjs, Put.objs, h0],
      by simp [Put.Padded]⟩⟩

/-- Isolated callers learn nothing by lookup about services closed to them: if two runs end in
registries that agree on the open services, the same request, well-formed or not, gets the same
status, the same data and the same offsets. -/
theorem isolated_lookup_blind (mallocs mallocs' : List UInt32) (es es' : List SvcEvent)
    (msg : Message) (rdata rdata' : Mem)
    (hagree : OpenAgree (svcMachine.run (start mallocs) es).app.svclist
      (svcMachine.run (start mallocs') es').app.svclist)
    (hcode : msg.txn.code = svcMgrGetService ∨ msg.txn.code = svcMgrCheckService)
    (hu : isIsolated msg.txn.senderEuid) :
    let out := handleMessage msg rdata (svcMachine.run (start mallocs) es)
    let out' := handleMessage msg rdata' (svcMachine.run (start mallocs') es')
    out.1 = out'.1 ∧ out.2.1.outgoing 0 0 0 = out'.2.1.outgoing 0 0 0 := by
  intro out out'
  have hok := run_registryOk mallocs es
  have hok' := run_registryOk mallocs' es'
  have hout : out = msg.request.perform msg (emptyReply rdata) _ := svcmgrHandler_request _ _ _
  have hout' : out' = msg.request.perform msg (emptyReply rdata') _ := svcmgrHandler_request _ _ _
  rw [hout, hout']
  rcases request_of_lookup hcode with hr | ⟨s, len, hr⟩
  · rw [hr]
    refine ⟨rfl, ?_⟩
    simp [Request.perform, emptyReply_eq, Parcel.outgoing, words, ByteMemory.read]
  · rw [hr]
    obtain ⟨h0, hdata⟩ := find_outgoing msg rdata (svcMachine.run (start mallocs) es) s len
    obtain ⟨h0', hdata'⟩ := find_outgoing msg rdata' (svcMachine.run (start mallocs') es') s len
    rw [doFindService_eq hok] at hdata
    rw [doFindService_eq hok'] at hdata'
    rw [h0, h0', hdata, hdata', hagree.answer_eq hok hok' hu]
    exact ⟨rfl, rfl⟩

/-- An isolated process cannot tell a closed registration of `hi` from an empty registry. -/
theorem isolated_lookup_blind_closed :
    let w := svcMachine.run (start [64]) [.transact (addMessage [104, 105] 5 0) fun _ => 0]
    let out := handleMessage (lookupMessage [104, 105] 99000) (fun _ => 0) w
    let out' := handleMessage (lookupMessage [104, 105] 99000) (fun _ => 0) (start [])
    out.1 = out'.1 ∧ out.2.1.outgoing 0 0 0 = out'.2.1.outgoing 0 0 0 := by
  have hclosed : ∀ si ∈ (svcMachine.run (start [64])
      [.transact (addMessage [104, 105] 5 0) fun _ => 0]).app.svclist,
      si.allowIsolated = false := by decide +kernel
  refine isolated_lookup_blind [64] [] _ [] _ _ _ (fun name => .inr ⟨?_, ?_⟩) (.inr rfl)
    (by decide)
  · rintro ⟨si, hsi, -, hopen, -⟩
    simp [hclosed si hsi] at hopen
  · rintro ⟨si, hsi, -⟩
    simp [start] at hsi

end LinuxLabs.ServiceManager
