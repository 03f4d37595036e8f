import LinuxLabs.ServerLoop

/-! The strong references of the service manager. Every entry with a handle stands for one
acquired reference to it: the difference between the references acquired and released is the
number of entries after every command that is parsed, and is never negative in between. -/
namespace LinuxLabs.ServiceManager
open ByteMemory Binder EventRun LastWriter

def acquired (h : UInt32) (effs : List Effect) : ℕ := effs.count (.write (.acquire h))

def released (h : UInt32) (effs : List Effect) : ℕ := effs.count (.write (.release h))

/-- The entries with a handle. -/
def holders (h : UInt32) (l : List SvcInfo) : ℕ := l.countP fun si => si.handle = h

structure Balanced (w : World SvcState) : Prop where
  registry : RegistryOk w.app.svclist
  total : ∀ h, h ≠ 0 → acquired h w.trace = released h w.trace + holders h w.app.svclist
  nonneg : ∀ h, h ≠ 0 → ∀ p, p <+: w.trace → released h p ≤ acquired h p

lemma acquired_snoc (h : UInt32) (effs : List Effect) (e : Effect) :
    acquired h (effs ++ [e]) = acquired h effs + if e = .write (.acquire h) then 1 else 0 := by
  simp [acquired, List.count_append, List.count_singleton]

lemma released_snoc (h : UInt32) (effs : List Effect) (e : Effect) :
    released h (effs ++ [e]) = released h effs + if e = .write (.release h) then 1 else 0 := by
  simp [released, List.count_append, List.count_singleton]

/-- One more command: only the balance at the end has to be looked at. -/
theorem Balanced.snoc {w : World SvcState} (hb : Balanced w) {st : SvcState} {e : Effect}
    (hreg : RegistryOk st.svclist)
    (htotal : ∀ h, h ≠ 0 →
      acquired h (w.trace ++ [e]) = released h (w.trace ++ [e]) + holders h st.svclist) :
    Balanced ⟨st, w.trace ++ [e]⟩ := by
  refine ⟨hreg, htotal, fun h hh p hp => ?_⟩
  rcases List.prefix_concat_iff.mp hp with rfl | hp
  · exact Nat.le.intro (htotal h hh).symm
  · exact hb.nonneg h hh p hp

/-- Commands that do not count change nothing. -/
theorem Balanced.neutral {w : World SvcState} (hb : Balanced w) {e : Effect}
    (ha : ∀ h, e ≠ .write (.acquire h)) (hr : ∀ h, e ≠ .write (.release h)) :
    Balanced ⟨w.app, w.trace ++ [e]⟩ := by
  apply hb.snoc hb.registry
  intro h hh
  simp [acquired_snoc, released_snoc, ha h, hr h, hb.total h hh]

lemma setHandle_of_absent {l : List SvcInfo} {a v : UInt32} (h : a ∉ l.map SvcInfo.addr) :
    setHandle l a v = l := by
  conv_rhs => rw [← List.map_id l]
  apply List.map_congr_left
  intro si hsi
  have hne : si.addr ≠ a := fun he => h (he ▸ List.mem_map_of_mem hsi)
  simp [hne]

/-- Storing a handle in an entry trades one holder for another. -/
theorem holders_setHandle {l : List SvcInfo} (hok : (l.map SvcInfo.addr).Nodup) {si : SvcInfo}
    (hsi : si ∈ l) (v h : UInt32) :
    holders h (setHandle l si.addr v) + (if si.handle = h then 1 else 0) =
      holders h l + if v = h then 1 else 0 := by
  induction l with
  | nil => simp at hsi
  | cons b l ih =>
    rw [List.map_cons, List.nodup_cons] at hok
    have hcons : setHandle (b :: l) si.addr v =
        (if b.addr = si.addr then { b with handle := v } else b) :: setHandle l si.addr v := rfl
    rcases List.mem_cons.mp hsi with rfl | hmem
    · rw [hcons, setHandle_of_absent hok.1]
      simp only [if_true, holders, List.countP_cons, decide_eq_true_eq]
      omega
    · have hne : b.addr ≠ si.addr := fun he => hok.1 (he ▸ List.mem_map_of_mem hmem)
      have htail := ih hok.2 hmem
      rw [hcons, if_neg hne]
      simp only [holders, List.countP_cons] at htail ⊢
      omega

/-- Clearing an entry gives its reference back. -/
theorem Balanced.clear {w : World SvcState} (hb : Balanced w) {si : SvcInfo}
    (hsi : si ∈ w.app.svclist) (ms : List UInt32) :
    Balanced ⟨⟨setHandle w.app.svclist si.addr 0, ms⟩, w.trace ++ si.releases⟩ := by
  by_cases h0 : si.handle = 0
  · have hself := hb.registry.setHandle_self hsi
    rw [h0] at hself
    simp only [SvcInfo.releases, h0, if_true, List.append_nil, hself]
    exact ⟨hb.registry, hb.total, hb.nonneg⟩
  · simp only [SvcInfo.releases, h0, if_false]
    apply hb.snoc (hb.registry.setHandle _ _)
    intro h hh
    have hcount := holders_setHandle hb.registry.addrs hsi 0 h
    have htotal := hb.total h hh
    simp only [acquired_snoc, released_snoc, reduceCtorEq, if_false, Effect.write.injEq,
      BinderCommand.release.injEq, hh.symm] at hcount ⊢
    omega

/-- A reference is acquired for one entry more. -/
theorem Balanced.link {w : World SvcState} (hb : Balanced w) {st : SvcState} {handle : UInt32}
    (hreg : RegistryOk st.svclist)
    (hcount : ∀ h, h ≠ 0 → holders h st.svclist =
      holders h w.app.svclist + if handle = h then 1 else 0) (cookie : UInt32) :
    Balanced ⟨st, w.trace ++ linkEffects handle cookie⟩ := by
  have hacq : Balanced ⟨st, w.trace ++ [.write (.acquire handle)]⟩ := by
    apply hb.snoc hreg
    intro h hh
    have htotal := hb.total h hh
    simp only [acquired_snoc, released_snoc, reduceCtorEq, if_false, Effect.write.injEq,
      BinderCommand.acquire.injEq, hcount h hh]
    omega
  have hlink := hacq.neutral (e := .write (.requestDeathNotification handle cookie)) (by simp)
    (by simp)
  rwa [List.append_assoc] at hlink

/-- Every step of the registry keeps the balance, at each of its commands. -/
theorem RegStep.balanced {w w' : World SvcState} {obs : List RegEvent} (h : RegStep w w' obs)
    (hb : Balanced w) : Balanced w' := by
  cases h with
  | idle ms => exact ⟨hb.registry, hb.total, hb.nonneg⟩
  | death si mem => exact hb.clear mem _
  | create si ok ne addr key ms =>
    apply hb.link (hb.registry.cons ok addr key)
    intro h hh
    simp [holders, List.countP_cons]
  | override si mem handle ne iso =>
    -- the entry is cleared first, then the new handle is stored and acquired
    have hclear := hb.clear mem w.app.mallocs
    have hmem : { si with handle := 0 } ∈ setHandle w.app.svclist si.addr 0 :=
      List.mem_map.mpr ⟨si, mem, by simp⟩
    have hset := setHandle_setHandle w.app.svclist si.addr 0 handle
    apply hclear.link (hb.registry.setHandle _ _)
    intro h hh
    have hcount := holders_setHandle hclear.registry.addrs hmem handle h
    simp only [hset, hh.symm, if_false, Nat.add_zero] at hcount
    exact hcount

/-- The call through a cookie is a death callback on the entry the cookie lies in. -/
theorem deadBinder_apply {w : World SvcState} (hok : RegistryOk w.app.svclist) (cookie : UInt32) :
    deadBinder cookie w = SvcEvent.apply w (.death (cookie - 8)) := by
  have hiff (si : SvcInfo) : si.cookie = cookie ↔ si.addr = cookie - 8 := by
    constructor
    · rintro rfl
      simp [SvcInfo.cookie]
    · intro he
      simp [SvcInfo.cookie, he]
  simp only [deadBinder, hiff, SvcEvent.apply]
  cases hf : w.app.svclist.find? (fun si => si.addr = cookie - 8) with
  | none => simp only [svcinfoDeath, hf]
  | some si =>
    have haddr : si.addr = cookie - 8 := by simpa using List.find?_some hf
    have hptr : si.death.ptr = si.addr := by
      rw [(hok.entries si (List.mem_of_find?_eq_some hf)).death]
    simp only [hptr, haddr]

/-- A transaction: the handler, then the buffer is freed and the reply sent. -/
lemma exec_transaction (i : ParseInput) (txn : BinderTransactionData) (s : ParseState SvcState) :
    let out := handleMessage ⟨i.mem, txn⟩ (i.rdata (s.ptr + 4)) s.world
    (BinderReturn.exec (i.call (some svcmgrHandler) deadBinder) s (.transaction txn)).world =
      ⟨out.2.2.app, out.2.2.trace ++
        [Effect.write (.freeBuffer txn.buffer), .write (.reply (replyTxn out.2.1 out.1))]⟩ := rfl

/-- The commands of a return stream keep the balance. -/
theorem exec_balanced (i : ParseInput) (cmd : BinderReturn) {s : ParseState SvcState}
    (hb : Balanced s.world) :
    Balanced (cmd.exec (i.call (some svcmgrHandler) deadBinder) s).world := by
  cases cmd with
  | transaction txn =>
    have hstep := (SvcEvent.transact ⟨i.mem, txn⟩ (i.rdata (s.ptr + 4))).apply_step hb.registry
    let out := handleMessage ⟨i.mem, txn⟩ (i.rdata (s.ptr + 4)) s.world
    have hfree := (hstep.balanced hb).neutral (e := .write (.freeBuffer txn.buffer)) (by simp)
      (by simp)
    have hreply := hfree.neutral (e := .write (.reply (replyTxn out.2.1 out.1))) (by simp) (by simp)
    rw [List.append_assoc] at hreply
    rw [exec_transaction]
    exact hreply
  | deadBinder cookie =>
    have hworld : (BinderReturn.exec (i.call (some svcmgrHandler) ServiceManager.deadBinder) s
      (.deadBinder cookie)).world = ServiceManager.deadBinder cookie s.world := rfl
    rw [hworld, deadBinder_apply hb.registry]
    exact ((SvcEvent.death (cookie - 8)).apply_step hb.registry).balanced hb
  | spawnLooper => exact hb.neutral (by simp) (by simp)
  | noop => exact hb
  | transactionComplete => exact hb
  | increfs ptr cookie => exact hb
  | acquire ptr cookie => exact hb
  | release ptr cookie => exact hb
  | decrefs ptr cookie => exact hb
  | reply txn => exact hb
  | failedReply => exact hb
  | deadReply => exact hb

theorem turns_balanced {w : World SvcState} (hb : Balanced w) (b : Batch) (n : ℕ) :
    Balanced (b.turns svcmgrService w n).world := by
  rw [Batch.turns, b.carries.turns]
  generalize hs : b.input.entry none w = s
  have hstart : Balanced s.world := by rw [← hs]; exact hb
  clear hs
  induction b.cmds.take n generalizing s with
  | nil => exact hstart
  | cons cmd cmds ih => exact ih _ (exec_balanced b.input cmd hstart)

theorem loopTurn_balanced {s : LoopState SvcState} (hb : Balanced s.world) (b : Batch) :
    Balanced (loopTurn svcmgrHandler deadBinder s (some b.input)).world := by
  have hparse := turns_balanced hb b b.input.size
  unfold loopTurn
  cases s.exit with
  | some e => exact hb
  | none =>
    simp only
    split_ifs <;> exact hparse

/-- The balance holds wherever the loop of the manager is. -/
theorem serve_balanced (l : Looper) (mallocs : List UInt32) (bs : List Batch) :
    Balanced (l.serve svcmgrService (start mallocs) bs).world := by
  have hstart : Balanced (l.start (start mallocs)).loop.world :=
    Balanced.neutral (w := start mallocs)
      ⟨registryOk_nil, fun _ _ => rfl, fun h _ p hp => by simp [List.prefix_nil.mp hp, released]⟩
      (by cases l <;> simp [Looper.announce]) (by cases l <;> simp [Looper.announce])
  rw [l.serve_eq, run_loop]
  generalize (l.start (start mallocs)).loop = s at hstart ⊢
  induction bs generalizing s with
  | nil => exact hstart
  | cons b bs ih => exact ih _ (loopTurn_balanced hstart b)

/-- `do_add_service` accepts the message as an ADD of the handle. -/
def Accepts (w : World SvcState) (msg : Message) (handle : UInt32) : Prop :=
  ∃ s len iso, msg.request = .add s len handle iso ∧
    (doAddService w msg.mem s len handle iso msg.txn.senderPid).1 = 0

/-- An accepted ADD leaves an entry with its handle. -/
theorem Accepts.holders_pos {w : World SvcState} {msg : Message} {handle : UInt32}
    (h : Accepts w msg handle) (hok : RegistryOk w.app.svclist) (rdata : Mem) :
    1 ≤ holders handle (handleMessage msg rdata w).2.2.app.svclist := by
  obtain ⟨s, len, iso, hr, h0⟩ := h
  have hstep := (SvcEvent.transact msg rdata).apply_step hok
  have hobs : SvcEvent.observe w (.transact msg rdata) =
      [.set (units msg.mem s len) (handle, iso)] := by simp only [SvcEvent.observe, hr, h0, if_true]
  rw [hobs] at hstep
  have hworld : SvcEvent.apply w (.transact msg rdata) = (handleMessage msg rdata w).2.2 := rfl
  rw [hworld] at hstep
  generalize (handleMessage msg rdata w).2.2 = w' at hstep
  generalize hg : [LastWriter.Event.set (units msg.mem s len) (handle, iso)] = obs at hstep
  have hex : ∃ si ∈ w'.app.svclist, si.handle = handle := by
    cases hstep with
    | idle ms => simp at hg
    | override si mem handle' ne iso' =>
      simp only [List.cons.injEq, Event.set.injEq, Prod.mk.injEq, and_true] at hg
      exact ⟨{ si with handle := handle' }, List.mem_map.mpr ⟨si, mem, by simp⟩, hg.2.1.symm⟩
    | create si ok ne addr key ms =>
      simp only [List.cons.injEq, Event.set.injEq, Prod.mk.injEq, and_true] at hg
      exact ⟨si, by simp, hg.2.1.symm⟩
    | death si mem => simp at hg
  obtain ⟨si, hsi, hh⟩ := hex
  exact List.countP_pos_iff.mpr ⟨si, hsi, by simpa using hh⟩

/-- The place of an element that is followed by one other and does not occur before. -/
lemma append_pair_inj {α : Type*} {l effs p q : List α} {a b : α} (hab : a ≠ b) (ha : a ∉ effs)
    (hlen : l.length ≤ p.length) (h : l ++ effs ++ [a, b] = p ++ a :: q) : p = l ++ effs := by
  rcases List.append_eq_append_iff.mp h with ⟨z, hp, hz⟩ | ⟨z, hp, hz⟩
  · cases z with
    | nil => simpa using hp
    | cons x z =>
      exfalso
      simp only [List.cons_append, List.cons.injEq] at hz
      cases z with
      | nil => exact hab (List.cons.inj hz.2).1.symm
      | cons y z => simpa using congrArg List.length hz.2
  · cases z with
    | nil => simpa using hp.symm
    | cons x z =>
      obtain rfl : a = x := (List.cons.inj hz).1
      have hdrop := congrArg (List.drop l.length) hp
      rw [List.drop_left, List.drop_append_of_le_length hlen] at hdrop
      exact absurd (hdrop ▸ by simp) ha

/-- At every command the loop handles, the references acquired to a handle exceed those released
by the number of entries with that handle; no part of the stream of commands releases more than
it acquired; and when the buffer of an accepted ADD is freed, its handle is held already. -/
theorem refs_balanced (l : Looper) (mallocs : List UInt32) (bs : List Batch) (b : Batch) (n : ℕ)
    (h : UInt32) (hh : h ≠ 0) :
    let w := (l.serve svcmgrService (start mallocs) bs).world
    let w₁ := (b.turns svcmgrService w n).world
    let w₂ := (b.turns svcmgrService w (n+1)).world
    acquired h w₁.trace = released h w₁.trace + holders h w₁.app.svclist ∧
      (∀ p, p <+: w₁.trace → released h p ≤ acquired h p) ∧
      ∀ txn, b.cmds[n]? = some (.transaction txn) → Accepts w₁ ⟨b.input.mem, txn⟩ h →
        ∀ p q, w₂.trace = p ++ .write (.freeBuffer txn.buffer) :: q → w₁.trace.length ≤ p.length →
          released h p + 1 ≤ acquired h p := by
  intro w w₁ w₂
  have hb : Balanced w₁ := turns_balanced (serve_balanced l mallocs bs) b n
  refine ⟨hb.total h hh, hb.nonneg h hh, fun txn htxn hacc p q hp hlen => ?_⟩
  let s := b.turns svcmgrService w n
  let rdata := b.input.rdata (s.ptr + 4)
  let out := handleMessage ⟨b.input.mem, txn⟩ rdata w₁
  have hstep := (SvcEvent.transact ⟨b.input.mem, txn⟩ rdata).apply_step hb.registry
  obtain ⟨effs, he, href⟩ := hstep.trace
  have hout : out.2.2.trace = w₁.trace ++ effs := he
  have hw₂ : w₂.trace = out.2.2.trace ++
      [.write (.freeBuffer txn.buffer), .write (.reply (replyTxn out.2.1 out.1))] := by
    have hturn : b.turns svcmgrService w (n+1) = BinderReturn.exec
        (b.input.call (some svcmgrHandler) deadBinder) s (.transaction txn) := by
      simp only [s, Batch.turns, b.carries.turns]
      rw [List.take_add_one, htxn, Option.toList_some, List.foldl_append]
      rfl
    change (b.turns svcmgrService w (n+1)).world.trace = _
    rw [hturn, exec_transaction]
  -- the buffer is freed right behind the commands of the registration
  rw [hw₂, hout] at hp
  have hplace := append_pair_inj (by simp) (fun hm => by simpa [isRefCommand] using href _ hm)
    hlen hp
  have hbal : Balanced out.2.2 := hstep.balanced hb
  have hpos : 1 ≤ holders h out.2.2.app.svclist := hacc.holders_pos hb.registry rdata
  have htotal := hbal.total h hh
  rw [hout, ← hplace] at htotal
  omega

/-- Registering `hi` for handle 5 takes the one reference its entry holds. -/
def addBatch : Batch :=
  .ofCmds (addMessage [104, 105] 5 0).mem [.transaction (addMessage [104, 105] 5 0).txn] (by decide)

theorem refs_balanced_add :
    let w := (Looper.main.serve svcmgrService (start [64]) []).world
    let w₁ := (addBatch.turns svcmgrService w 1).world
    acquired 5 w₁.trace = released 5 w₁.trace + holders 5 w₁.app.svclist ∧
      holders 5 w₁.app.svclist = 1 :=
  ⟨(refs_balanced .main [64] [] addBatch 1 5 (by decide)).1, by decide +kernel⟩

end LinuxLabs.ServiceManager
