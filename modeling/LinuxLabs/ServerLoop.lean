import LinuxLabs.ServiceManagerRegistry

/-! `binder_loop` and `binder_thread_loop` against the driver. The driver keeps, for the thread
that serves, the number of synchronous transactions pending on it and the number of failed
replies it still has to report; what it may put into a read depends on these two numbers only. -/
namespace LinuxLabs.Binder
open ByteMemory EventRun

variable {σ : Type}

def Effect.isReply : Effect → Bool
  | .write (.reply _) => true
  | _ => false

/-- Between `w` and `w'` the program wrote commands, `n` of them replies. -/
def Replies (n : ℕ) (w w' : World σ) : Prop :=
  ∃ effs, w'.trace = w.trace ++ effs ∧ effs.countP Effect.isReply = n

lemma Replies.refl (w : World σ) : Replies 0 w w := ⟨[], by simp, by simp⟩

lemma Replies.trans {n k : ℕ} {w w' w'' : World σ} (h : Replies n w w') (h' : Replies k w' w'') :
    Replies (n + k) w w'' := by
  obtain ⟨effs, he, hn⟩ := h
  obtain ⟨effs', he', hn'⟩ := h'
  exact ⟨effs ++ effs', by rw [he', he, List.append_assoc], by rw [List.countP_append, hn, hn']⟩

/-- What a program writes of its own accord: references taken and given back, and requests to
hear of a death. -/
def Effect.isBookkeeping : Effect → Bool
  | .write (.acquire _) => true
  | .write (.release _) => true
  | .write (.requestDeathNotification _ _) => true
  | _ => false

/-- Between `w` and `w'` the program wrote nothing else. -/
def Bookkeeps (w w' : World σ) : Prop :=
  ∃ effs, w'.trace = w.trace ++ effs ∧ ∀ e ∈ effs, e.isBookkeeping

lemma Bookkeeps.refl (w : World σ) : Bookkeeps w w := ⟨[], by simp, by simp⟩

lemma Bookkeeps.trans {w w' w'' : World σ} (h : Bookkeeps w w') (h' : Bookkeeps w' w'') :
    Bookkeeps w w'' := by
  obtain ⟨effs, he, hall⟩ := h
  obtain ⟨effs', he', hall'⟩ := h'
  refine ⟨effs ++ effs', by rw [he', he, List.append_assoc], fun e hmem => ?_⟩
  rcases List.mem_append.mp hmem with hmem | hmem
  · exact hall e hmem
  · exact hall' e hmem

lemma bookkeeps_binderWrite (w : World σ) {cmd : BinderCommand}
    (h : (Effect.write cmd).isBookkeeping) : Bookkeeps w (binderWrite w [cmd]) :=
  ⟨[.write cmd], rfl, by simpa using h⟩

lemma Bookkeeps.replies {w w' : World σ} (h : Bookkeeps w w') : Replies 0 w w' := by
  obtain ⟨effs, he, hall⟩ := h
  refine ⟨effs, he, List.countP_eq_zero.mpr fun e hmem => ?_⟩
  have hbook := hall e hmem
  cases e with
  | spawnLooper => simp [Effect.isReply]
  | write cmd => cases cmd <;> simp_all [Effect.isReply, Effect.isBookkeeping]

/-- A handler and the death callbacks of a program. They may do anything to their own state and
write what they like, but sending the reply is left to `binder_parse`. -/
structure Service (σ : Type) where
  handler : BinderHandler σ
  death : UInt32 → World σ → World σ
  handler_quiet : ∀ m txn reply w, Replies 0 w (handler txn (bioInitFromTxn m txn) reply w).2.2
  death_quiet : ∀ cookie w, Replies 0 w (death cookie w)

inductive LoopExit
  | ioctlFailed
  | unexpectedReply
  | ioError
  deriving DecidableEq, Repr

structure LoopState (σ : Type) where
  exit : Option LoopExit
  world : World σ

/-- One turn of `for (;;)`: the ioctl fails, or fills `readbuf` for the parser. -/
def loopTurn (func : BinderHandler σ) (death : UInt32 → World σ → World σ) (s : LoopState σ)
    (res : Option ParseInput) : LoopState σ :=
  match s.exit, res with
  | some _, _ => s
  | none, none => { s with exit := some .ioctlFailed }
  | none, some i =>
    let p := binderParse i (some func) death none s.world
    if p.r = 0 then ⟨some .unexpectedReply, p.world⟩
    else if p.r < 0 then ⟨some .ioError, p.world⟩
    else ⟨none, p.world⟩

/-- The body the two loops share, after the command that announces the thread. -/
def serveFrom (announce : BinderCommand) (func : BinderHandler σ)
    (death : UInt32 → World σ → World σ) (reads : List (Option ParseInput)) (w : World σ) :
    LoopState σ :=
  reads.foldl (loopTurn func death) ⟨none, binderWrite w [announce]⟩

def binderLoop (func : BinderHandler σ) (death : UInt32 → World σ → World σ)
    (reads : List (Option ParseInput)) (w : World σ) : LoopState σ :=
  serveFrom .enterLooper func death reads w

def binderThreadLoop (func : BinderHandler σ) (death : UInt32 → World σ → World σ)
    (reads : List (Option ParseInput)) (w : World σ) : LoopState σ :=
  serveFrom .registerLooper func death reads w

/-- The main thread of a server, or one it spawned. -/
inductive Looper
  | main
  | spawned
  deriving DecidableEq, Repr

def Looper.announce : Looper → BinderCommand
  | .main => .enterLooper
  | .spawned => .registerLooper

/-- The loop a looper runs, over reads that succeed. -/
def Looper.serve (l : Looper) (svc : Service σ) (w : World σ) (bs : List Batch) : LoopState σ :=
  let reads := bs.map fun b => some b.input
  match l with
  | .main => binderLoop svc.handler svc.death reads w
  | .spawned => binderThreadLoop svc.handler svc.death reads w

/-- The driver's side of a thread. -/
structure DriverThread where
  pending : ℕ
  owed : ℕ
  deriving DecidableEq, Repr

def BinderTransactionData.oneWay (txn : BinderTransactionData) : Prop := txn.flags &&& tfOneWay ≠ 0

instance (txn : BinderTransactionData) : Decidable txn.oneWay := inferInstanceAs (Decidable (_ ≠ _))

def BinderReturn.isTransaction : BinderReturn → Bool
  | .transaction _ => true
  | _ => false

def BinderReturn.isSync : BinderReturn → Bool
  | .transaction txn => ¬ txn.oneWay
  | _ => false

/-- A read may contain ordinary commands and reports of replies that failed before. -/
structure DriverThread.Offers (d : DriverThread) (cmds : List BinderReturn) : Prop where
  known : ∀ cmd ∈ cmds, cmd.Ordinary ∨ cmd = .failedReply
  failed : cmds.count .failedReply ≤ d.owed

/-- Synchronous transactions are put on the stack of the thread. -/
def DriverThread.deliver (d : DriverThread) (cmds : List BinderReturn) : DriverThread :=
  ⟨d.pending + cmds.countP BinderReturn.isSync, d.owed - cmds.count .failedReply⟩

/-- A reply goes to a pending transaction; without one it fails. -/
def DriverThread.take (d : DriverThread) : Effect → DriverThread
  | .write (.reply _) =>
    if d.pending = 0 then { d with owed := d.owed + 1 } else { d with pending := d.pending - 1 }
  | _ => d

/-- A serving thread together with the driver's view of it. -/
structure Served (σ : Type) where
  loop : LoopState σ
  thread : DriverThread

/-- A loop that has ended reads no more. -/
def Served.step (svc : Service σ) (s : Served σ) (b : Batch) : Served σ :=
  let loop := loopTurn svc.handler svc.death s.loop (some b.input)
  match s.loop.exit with
  | some _ => s
  | none =>
    ⟨loop, (written s.loop.world loop.world).foldl DriverThread.take (s.thread.deliver b.cmds)⟩

/-- The system of the two; nothing of it is recorded. -/
def servedMachine (svc : Service σ) : Machine (Served σ) Batch Empty :=
  ⟨Served.step svc, fun _ _ => []⟩

def Looper.start (l : Looper) (w : World σ) : Served σ :=
  ⟨⟨none, binderWrite w [l.announce]⟩, ⟨0, 0⟩⟩

def Looper.thread (l : Looper) (svc : Service σ) (w : World σ) (bs : List Batch) : DriverThread :=
  ((servedMachine svc).run (l.start w) bs).thread

/-- The reads of a run are such that the driver can have answered them. -/
def Looper.DriverRun (l : Looper) (svc : Service σ) (w : World σ) (bs : List Batch) : Prop :=
  ∀ pre b, pre ++ [b] <+: bs → (l.thread svc w pre).Offers b.cmds

/-- The state of the parser after `n` turns over a batch. -/
def Batch.turns (b : Batch) (svc : Service σ) (w : World σ) (n : ℕ) : ParseState σ :=
  binderParseLoop (b.input.call (some svc.handler) svc.death) n (b.input.entry none w)

/-- A transaction is replied to exactly if it is not one-way, and its buffer is freed. -/
structure Answered (txn : BinderTransactionData) (effs : List Effect) : Prop where
  replied : (∃ out, Effect.write (.reply out) ∈ effs) ↔ ¬ txn.oneWay
  freed : Effect.write (.freeBuffer txn.buffer) ∈ effs

structure Looper.Survives (l : Looper) (svc : Service σ) (w : World σ) (bs : List Batch) :
    Prop where
  running : ∀ pre, pre <+: bs → (l.serve svc w pre).exit = none
  answered : ∀ pre b, pre ++ [b] <+: bs → ∀ n txn, b.cmds[n]? = some (.transaction txn) →
    let w' := (l.serve svc w pre).world
    Answered txn (written (b.turns svc w' n).world (b.turns svc w' (n+1)).world)

/-- Serving a transaction ends with freeing its buffer and replying, whatever its flags say. -/
theorem serveTransaction_trace (svc : Service σ) (i : ParseInput) (ptr : ℕ)
    (txn : BinderTransactionData) (w : World σ) :
    ∃ (effs : List Effect) (out : OutgoingTxn), effs.countP Effect.isReply = 0 ∧
      (serveTransaction (i.call (some svc.handler) svc.death) svc.handler ptr txn w).trace =
        w.trace ++ (effs ++ [Effect.write (.freeBuffer txn.buffer), .write (.reply out)]) := by
  let out := svc.handler txn (bioInitFromTxn i.mem txn) (emptyReply (i.rdata ptr)) w
  obtain ⟨effs, he, hn⟩ := svc.handler_quiet i.mem txn (emptyReply (i.rdata ptr)) w
  refine ⟨effs, replyTxn out.2.1 out.1, hn, ?_⟩
  rw [← List.append_assoc, ← he]
  rfl

/-- An ordinary command keeps the return code and writes one reply if it is a transaction. -/
theorem BinderReturn.Ordinary.exec {cmd : BinderReturn} (h : cmd.Ordinary) (svc : Service σ)
    (i : ParseInput) (s : ParseState σ) :
    let s' := cmd.exec (i.call (some svc.handler) svc.death) s
    s'.r = s.r ∧ Replies ([cmd].countP isTransaction) s.world s'.world := by
  cases cmd with
  | noop => exact ⟨rfl, Replies.refl _⟩
  | transactionComplete => exact ⟨rfl, Replies.refl _⟩
  | increfs ptr cookie => exact ⟨rfl, Replies.refl _⟩
  | acquire ptr cookie => exact ⟨rfl, Replies.refl _⟩
  | release ptr cookie => exact ⟨rfl, Replies.refl _⟩
  | decrefs ptr cookie => exact ⟨rfl, Replies.refl _⟩
  | deadBinder cookie => exact ⟨rfl, svc.death_quiet cookie s.world⟩
  | transaction txn =>
    obtain ⟨effs, out, hn, he⟩ := serveTransaction_trace svc i (s.ptr + 4) txn s.world
    exact ⟨rfl, _, he, by simp [hn, Effect.isReply, isTransaction]⟩
  | spawnLooper => exact h.elim
  | reply txn => exact h.elim
  | failedReply => exact h.elim
  | deadReply => exact h.elim

/-- A read of ordinary commands: the loop goes on, with one reply for each transaction. -/
theorem foldl_exec_ordinary (svc : Service σ) (i : ParseInput) {cmds : List BinderReturn}
    (h : ∀ cmd ∈ cmds, cmd.Ordinary) (s : ParseState σ) :
    let s' := cmds.foldl (BinderReturn.exec (i.call (some svc.handler) svc.death)) s
    s'.r = s.r ∧ Replies (cmds.countP BinderReturn.isTransaction) s.world s'.world := by
  induction cmds generalizing s with
  | nil => exact ⟨rfl, Replies.refl _⟩
  | cons cmd cmds ih =>
    obtain ⟨hr, hw⟩ := (h cmd (by simp)).exec svc i s
    obtain ⟨hr', hw'⟩ := ih (fun c hc => h c (by simp [hc])) (cmd.exec _ s)
    refine ⟨hr'.trans hr, ?_⟩
    have hall := hw.trans hw'
    rwa [← List.countP_append] at hall

theorem foldl_take {d : DriverThread} {effs : List Effect}
    (h : effs.countP Effect.isReply ≤ d.pending) :
    effs.foldl DriverThread.take d = ⟨d.pending - effs.countP Effect.isReply, d.owed⟩ := by
  induction effs generalizing d with
  | nil => rfl
  | cons e effs ih =>
    by_cases he : e.isReply
    · obtain ⟨out, rfl⟩ : ∃ out, e = .write (.reply out) := by
        cases e with
        | spawnLooper => simp [Effect.isReply] at he
        | write cmd => cases cmd <;> simp [Effect.isReply] at he ⊢
      simp only [List.countP_cons, Effect.isReply, if_true] at h ⊢
      have hp : d.pending ≠ 0 := by omega
      simp only [List.foldl_cons, DriverThread.take, hp, if_false]
      rw [ih (by simp only; omega)]
      simp only [DriverThread.mk.injEq, and_true]
      omega
    · have htake : d.take e = d := by
        cases e with
        | spawnLooper => rfl
        | write cmd => cases cmd <;> simp_all [Effect.isReply, DriverThread.take]
      simp only [List.countP_cons, he, Bool.false_eq_true, if_false, Nat.add_zero] at h ⊢
      rw [List.foldl_cons, htake, ih h]

/-- The turn that handles a transaction writes its reply last. -/
theorem Batch.turns_transaction (b : Batch) (svc : Service σ) (w : World σ) {n : ℕ}
    {txn : BinderTransactionData} (h : b.cmds[n]? = some (.transaction txn)) :
    ∃ (effs : List Effect) (out : OutgoingTxn),
      written (b.turns svc w n).world (b.turns svc w (n+1)).world =
        effs ++ [Effect.write (.freeBuffer txn.buffer), .write (.reply out)] := by
  simp only [Batch.turns, b.carries.turns]
  rw [List.take_add_one, h, Option.toList_some, List.foldl_append]
  generalize (b.cmds.take n).foldl _ _ = s
  obtain ⟨effs, out, -, he⟩ := serveTransaction_trace svc b.input (s.ptr + 4) txn s.world
  exact ⟨effs, out, written_append he⟩

/-- The code replies always, so that a transaction is answered as it should be exactly if it is
not one-way. -/
theorem Batch.answered_iff (b : Batch) (svc : Service σ) (w : World σ) {n : ℕ}
    {txn : BinderTransactionData} (h : b.cmds[n]? = some (.transaction txn)) :
    Answered txn (written (b.turns svc w n).world (b.turns svc w (n+1)).world) ↔ ¬ txn.oneWay := by
  obtain ⟨effs, out, he⟩ := b.turns_transaction svc w h
  rw [he]
  constructor
  · intro ha
    exact ha.replied.mp ⟨out, by simp⟩
  · intro hs
    exact ⟨iff_of_true ⟨out, by simp⟩ hs, by simp⟩

lemma isSync_eq_isTransaction {cmds : List BinderReturn}
    (h : ∀ txn, .transaction txn ∈ cmds → ¬ txn.oneWay) :
    cmds.countP BinderReturn.isSync = cmds.countP BinderReturn.isTransaction := by
  apply List.countP_congr
  intro cmd hc
  cases cmd with
  | transaction txn => simpa [BinderReturn.isSync, BinderReturn.isTransaction] using h txn hc
  | _ => rfl

/-- Without one-way transactions every read leaves the loop running and nothing open. -/
theorem Served.step_sync (svc : Service σ) {s : Served σ} {b : Batch}
    (hs : s.loop.exit = none ∧ s.thread = ⟨0, 0⟩)
    (hb : s.thread.Offers b.cmds ∧ ∀ txn, .transaction txn ∈ b.cmds → ¬ txn.oneWay) :
    (s.step svc b).loop.exit = none ∧ (s.step svc b).thread = ⟨0, 0⟩ := by
  obtain ⟨hexit, hthread⟩ := hs
  obtain ⟨hoffers, hsync⟩ := hb
  rw [hthread] at hoffers
  have hfailed : b.cmds.count .failedReply = 0 := Nat.le_zero.mp hoffers.failed
  have hord : ∀ cmd ∈ b.cmds, cmd.Ordinary := by
    intro cmd hc
    rcases hoffers.known cmd hc with h | rfl
    · exact h
    · exact absurd hc (List.count_eq_zero.mp hfailed)
  obtain ⟨hr, effs, he, hn⟩ :=
    foldl_exec_ordinary svc b.input hord (b.input.entry none s.loop.world)
  rw [← binderParse_stream b.carries] at hr he
  have hturn : loopTurn svc.handler svc.death s.loop (some b.input) =
      ⟨none, (binderParse b.input (some svc.handler) svc.death none s.loop.world).world⟩ := by
    simp only [loopTurn, hexit, hr]
    rfl
  simp only [Served.step, hexit, hturn, true_and]
  rw [written_append (w := s.loop.world) he, hthread, foldl_take]
  · simp [DriverThread.deliver, hn, isSync_eq_isTransaction hsync]
  · simp [DriverThread.deliver, hn, isSync_eq_isTransaction hsync]

/-- The loop of the system is the loop of the source. -/
lemma run_loop (svc : Service σ) (s : Served σ) (bs : List Batch) :
    ((servedMachine svc).run s bs).loop =
      (bs.map fun b => some b.input).foldl (loopTurn svc.handler svc.death) s.loop := by
  induction bs generalizing s with
  | nil => rfl
  | cons b bs ih =>
    have hstep : (s.step svc b).loop = loopTurn svc.handler svc.death s.loop (some b.input) := by
      simp only [Served.step]
      cases hexit : s.loop.exit with
      | none => rfl
      | some e => simp [loopTurn, hexit]
    rw [Machine.run_cons, ih, List.map_cons, List.foldl_cons, ← hstep]
    rfl

lemma Looper.serve_eq (l : Looper) (svc : Service σ) (w : World σ) (bs : List Batch) :
    l.serve svc w bs = ((servedMachine svc).run (l.start w) bs).loop := by
  rw [run_loop]
  cases l <;> rfl

section ServiceManager
open ServiceManager

lemma svcinfoDeath_bookkeeps (w : World SvcState) (ptr : UInt32) :
    Bookkeeps w (svcinfoDeath w ptr) := by
  unfold svcinfoDeath
  split
  · exact Bookkeeps.refl w
  · split_ifs
    · exact bookkeeps_binderWrite w rfl
    · exact Bookkeeps.refl w

lemma deadBinder_bookkeeps (cookie : UInt32) (w : World SvcState) :
    Bookkeeps w (deadBinder cookie w) := by
  unfold deadBinder
  split
  · exact Bookkeeps.refl w
  · exact svcinfoDeath_bookkeeps w _

lemma doAddService_bookkeeps (w : World SvcState) (m : Mem) (s len : ℕ) (handle spid : UInt32)
    (iso : Bool) : Bookkeeps w (doAddService w m s len handle iso spid).2 := by
  have hlink (w' : World SvcState) (target death : UInt32) :
      Bookkeeps w' (binderLinkToDeath (binderAcquire w' target) target death) :=
    (bookkeeps_binderWrite w' rfl).trans (bookkeeps_binderWrite _ rfl)
  unfold doAddService
  split_ifs
  · exact Bookkeeps.refl w
  · exact Bookkeeps.refl w
  · split
    · rename_i si _
      by_cases hh : si.handle = 0
      · simp only [hh, ne_eq, not_true_eq_false, if_false]
        exact hlink (storeHandle w si.addr handle) handle si.cookie
      · simp only [hh, ne_eq, not_false_eq_true, if_true]
        exact (svcinfoDeath_bookkeeps w si.addr).trans
          (hlink (storeHandle (svcinfoDeath w si.addr) si.addr handle) handle si.cookie)
    · rcases malloc w.app with ⟨addr, st⟩
      simp only
      split_ifs
      · exact Bookkeeps.refl w
      · exact hlink ⟨_, w.trace⟩ handle _

lemma svcmgrHandler_bookkeeps (m : Mem) (txn : BinderTransactionData) (reply : Parcel)
    (w : World SvcState) : Bookkeeps w (svcmgrHandler txn (bioInitFromTxn m txn) reply w).2.2 := by
  have hworld := svcmgrHandler_world ⟨m, txn⟩ reply w
  rw [Message.reader] at hworld
  rw [hworld]
  split
  · exact doAddService_bookkeeps w _ _ _ _ _ _
  · exact Bookkeeps.refl w

/-- The service manager as the loop runs it. -/
def svcmgrService : Service SvcState where
  handler := svcmgrHandler
  death := deadBinder
  handler_quiet m txn reply w := (svcmgrHandler_bookkeeps m txn reply w).replies
  death_quiet cookie w := (deadBinder_bookkeeps cookie w).replies

end ServiceManager

/-- Under any run of the driver, the loops survive and answer every transaction as they should
exactly when no transaction is flagged as one-way. -/
theorem looper_survives_iff (l : Looper) (svc : Service σ) (w : World σ) (bs : List Batch)
    (hrun : l.DriverRun svc w bs) :
    l.Survives svc w bs ↔ ∀ b ∈ bs, ∀ txn, .transaction txn ∈ b.cmds → ¬ txn.oneWay := by
  constructor
  · intro h b hb txn ht
    obtain ⟨pre, post, rfl⟩ := List.append_of_mem hb
    obtain ⟨n, hn⟩ := List.mem_iff_getElem?.mp ht
    exact (b.answered_iff svc _ hn).mp (h.answered pre b ⟨post, by simp⟩ n txn hn)
  · intro h
    refine ⟨fun pre hp => ?_, fun pre b hp n txn hn => ?_⟩
    · rw [l.serve_eq]
      have hinv := (servedMachine svc).run_invariant_of
        (P := fun s => s.loop.exit = none ∧ s.thread = ⟨0, 0⟩)
        (C := fun s b => s.thread.Offers b.cmds ∧ ∀ txn, .transaction txn ∈ b.cmds → ¬ txn.oneWay)
        (fun s b hc hs => Served.step_sync svc hs hc) (s := l.start w) ⟨rfl, rfl⟩ pre
        fun pre' b hp' => ⟨hrun pre' b (hp'.trans hp),
          h b ((hp'.trans hp).subset (by simp))⟩
      exact hinv.1
    · have hmem : b ∈ bs := hp.subset (by simp)
      exact (b.answered_iff svc _ hn).mpr (h b hmem txn (List.mem_of_getElem? hn))

lemma Looper.DriverRun.nil (l : Looper) (svc : Service σ) (w : World σ) : l.DriverRun svc w [] :=
  fun pre b hp => by simp at hp

lemma Looper.DriverRun.snoc {l : Looper} {svc : Service σ} {w : World σ} {bs : List Batch}
    {b : Batch} (h : l.DriverRun svc w bs) (hb : (l.thread svc w bs).Offers b.cmds) :
    l.DriverRun svc w (bs ++ [b]) := forall_snoc_prefix_snoc.mpr ⟨h, hb⟩

def pingTxn (flags : UInt32) : BinderTransactionData :=
  ⟨ServiceManager.svcmgrHandle, 0, pingTransaction, flags, 1, 1000, 0, 0, 4096, 4096⟩

/-- A read with one ping. -/
def pingBatch (flags : UInt32) : Batch :=
  .ofCmds (fun _ => 0) [.noop, .transaction (pingTxn flags)]
    (by simp [streamBytes, BinderReturn.bytes, BinderTransactionData.bytes_length])

/-- A read with the report of a failed reply. -/
def failedBatch : Batch := .ofCmds (fun _ => 0) [.failedReply] (by decide)

lemma pingBatch_run (flags : UInt32) :
    Looper.main.DriverRun svcmgrService (ServiceManager.start []) [pingBatch flags] :=
  (Looper.DriverRun.nil .main svcmgrService _).snoc
    ⟨by simp [pingBatch, Batch.ofCmds, BinderReturn.Ordinary], by simp [pingBatch, Batch.ofCmds]⟩

theorem looper_survives_iff_ping :
    Looper.main.Survives svcmgrService (ServiceManager.start []) [pingBatch 0] :=
  (looper_survives_iff .main svcmgrService _ _ (pingBatch_run 0)).mpr
    (by simp [pingBatch, Batch.ofCmds, pingTxn, BinderTransactionData.oneWay])

/-- One ping flagged as one-way ends the service manager at the next read. -/
theorem oneWay_ends_loop :
    let bs := [pingBatch tfOneWay, failedBatch]
    Looper.main.DriverRun svcmgrService (ServiceManager.start []) bs ∧
      (Looper.main.serve svcmgrService (ServiceManager.start []) bs).exit = some .ioError ∧
      ¬ Looper.main.Survives svcmgrService (ServiceManager.start []) bs := by
  intro bs
  have hrun : Looper.main.DriverRun svcmgrService (ServiceManager.start []) bs :=
    (pingBatch_run tfOneWay).snoc ⟨by simp [failedBatch, Batch.ofCmds], by decide +kernel⟩
  have hexit : (Looper.main.serve svcmgrService (ServiceManager.start []) bs).exit =
      some .ioError := by decide +kernel
  refine ⟨hrun, hexit, fun h => ?_⟩
  have hnone := h.running bs List.prefix_rfl
  rw [hexit] at hnone
  simp at hnone

end LinuxLabs.Binder
