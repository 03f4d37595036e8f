import LinuxLabs.BinderCallContract
import LinuxLabs.ServerLoop

/-! The buffers of the driver. Every transaction and every reply comes in a buffer that the thread
has to give back. The loops free the buffers of transactions and leave replies alone; a call
leaves transactions alone, and its caller frees one reply with `binder_done`. -/
namespace LinuxLabs.Binder
open ByteMemory EventRun

variable {σ : Type}

def BinderReturn.isReply : BinderReturn → Bool
  | .reply _ => true
  | _ => false

/-- The buffer that comes with a command. -/
def BinderReturn.buffer? : BinderReturn → Option UInt32
  | .transaction txn => some txn.buffer
  | .reply txn => some txn.buffer
  | _ => none

def delivered (cmds : List BinderReturn) : List UInt32 := cmds.filterMap BinderReturn.buffer?

/-- The buffers of the transactions among them. -/
def served (cmds : List BinderReturn) : List UInt32 :=
  delivered (cmds.filter BinderReturn.isTransaction)

def Effect.freed? : Effect → Option UInt32
  | .write (.freeBuffer buffer) => some buffer
  | _ => none

def freed (effs : List Effect) : List UInt32 := effs.filterMap Effect.freed?

/-- Between `w` and `w'` the buffers `bs` were given back, in this order. -/
def Frees (bs : List UInt32) (w w' : World σ) : Prop :=
  ∃ effs, w'.trace = w.trace ++ effs ∧ freed effs = bs

lemma Frees.refl (w : World σ) : Frees [] w w := ⟨[], by simp, rfl⟩

lemma Frees.trans {bs cs : List UInt32} {w w' w'' : World σ} (h : Frees bs w w')
    (h' : Frees cs w' w'') : Frees (bs ++ cs) w w'' := by
  obtain ⟨effs, he, hb⟩ := h
  obtain ⟨effs', he', hc⟩ := h'
  refine ⟨effs ++ effs', by rw [he', he, List.append_assoc], ?_⟩
  rw [freed, List.filterMap_append]
  exact congrArg₂ (· ++ ·) hb hc

lemma frees_binderWrite (w : World σ) (cmds : List BinderCommand) :
    Frees (freed (cmds.map Effect.write)) w (binderWrite w cmds) := ⟨cmds.map .write, rfl, rfl⟩

lemma Frees.written_eq {bs : List UInt32} {w w' : World σ} (h : Frees bs w w') :
    freed (written w w') = bs := by
  obtain ⟨effs, he, hb⟩ := h
  rw [written_append he, hb]

lemma Bookkeeps.frees {w w' : World σ} (h : Bookkeeps w w') : Frees [] w w' := by
  obtain ⟨effs, he, hall⟩ := h
  refine ⟨effs, he, List.filterMap_eq_nil_iff.mpr fun e hmem => ?_⟩
  have hbook := hall e hmem
  cases e with
  | spawnLooper => rfl
  | write cmd => cases cmd <;> simp_all [Effect.freed?, Effect.isBookkeeping]

/-- The handler and the death callbacks of a program. Giving buffers back is not their business. -/
structure Callbacks (σ : Type) where
  handler : BinderHandler σ
  death : UInt32 → World σ → World σ
  handler_frees : ∀ m txn reply w, Frees [] w (handler txn (bioInitFromTxn m txn) reply w).2.2
  death_frees : ∀ cookie w, Frees [] w (death cookie w)

/-- Those of the service manager. -/
def svcmgrCallbacks : Callbacks ServiceManager.SvcState where
  handler := ServiceManager.svcmgrHandler
  death := ServiceManager.deadBinder
  handler_frees m txn reply w := (svcmgrHandler_bookkeeps m txn reply w).frees
  death_frees cookie w := (deadBinder_bookkeeps cookie w).frees

/-- Without a handler a command gives nothing back. -/
lemma Callbacks.exec_call (cb : Callbacks σ) (i : ParseInput) (s : ParseState σ)
    (cmd : BinderReturn) : Frees [] s.world (cmd.exec (i.call none cb.death) s).world := by
  cases cmd with
  | spawnLooper => exact ⟨[.spawnLooper], rfl, rfl⟩
  | deadBinder cookie => exact cb.death_frees cookie s.world
  | _ => exact Frees.refl _

/-- With a handler a transaction gives its buffer back. -/
lemma Callbacks.exec_serve (cb : Callbacks σ) (i : ParseInput) (s : ParseState σ)
    (cmd : BinderReturn) :
    Frees (served [cmd]) s.world (cmd.exec (i.call (some cb.handler) cb.death) s).world := by
  cases cmd with
  | spawnLooper => exact ⟨[.spawnLooper], rfl, rfl⟩
  | deadBinder cookie => exact cb.death_frees cookie s.world
  | transaction txn =>
    have hfunc := cb.handler_frees i.mem txn (emptyReply (i.rdata (s.ptr + 4))) s.world
    exact hfunc.trans (frees_binderWrite _ _)
  | _ => exact Frees.refl _

lemma Callbacks.foldl_call (cb : Callbacks σ) (i : ParseInput) (cmds : List BinderReturn)
    (s : ParseState σ) :
    Frees [] s.world (cmds.foldl (BinderReturn.exec (i.call none cb.death)) s).world := by
  induction cmds generalizing s with
  | nil => exact Frees.refl _
  | cons cmd cmds ih => exact (cb.exec_call i s cmd).trans (ih _)

lemma served_cons (cmd : BinderReturn) (cmds : List BinderReturn) :
    served (cmd :: cmds) = served [cmd] ++ served cmds := by
  rw [served, served, served, delivered, delivered, delivered, ← List.filterMap_append,
    ← List.filter_append]
  rfl

lemma Callbacks.foldl_serve (cb : Callbacks σ) (i : ParseInput) (cmds : List BinderReturn)
    (s : ParseState σ) :
    Frees (served cmds) s.world
      (cmds.foldl (BinderReturn.exec (i.call (some cb.handler) cb.death)) s).world := by
  induction cmds generalizing s with
  | nil => exact Frees.refl _
  | cons cmd cmds ih =>
    rw [served_cons]
    exact (cb.exec_serve i s cmd).trans (ih _)

/-- What the parser gives back of a batch, for a caller and for a loop. -/
theorem Callbacks.parse_call (cb : Callbacks σ) {i : ParseInput} {cmds : List BinderReturn}
    (h : i.Carries cmds) (bio : Option Parcel) (w : World σ) :
    Frees [] w (binderParse i none cb.death bio w).world := by
  rw [binderParse_stream h]
  exact cb.foldl_call i cmds (i.entry bio w)

theorem Callbacks.parse_serve (cb : Callbacks σ) {i : ParseInput} {cmds : List BinderReturn}
    (h : i.Carries cmds) (w : World σ) :
    Frees (served cmds) w (binderParse i (some cb.handler) cb.death none w).world := by
  rw [binderParse_stream h]
  exact cb.foldl_serve i cmds (i.entry none w)

lemma delivered_length (cmds : List BinderReturn) :
    (delivered cmds).length =
      cmds.countP BinderReturn.isTransaction + cmds.countP BinderReturn.isReply := by
  induction cmds with
  | nil => rfl
  | cons cmd cmds ih =>
    simp only [delivered] at ih
    rw [delivered, List.filterMap_cons, List.countP_cons, List.countP_cons]
    cases cmd with
    | transaction txn =>
      simp only [BinderReturn.buffer?, List.length_cons, ih, BinderReturn.isTransaction,
        BinderReturn.isReply, if_true, Bool.false_eq_true, if_false]
      omega
    | reply txn =>
      simp only [BinderReturn.buffer?, List.length_cons, ih, BinderReturn.isTransaction,
        BinderReturn.isReply, if_true, Bool.false_eq_true, if_false]
      omega
    | _ => simpa [BinderReturn.buffer?, BinderReturn.isTransaction, BinderReturn.isReply] using ih

/-- A loop gives back all that is delivered exactly if no reply is. -/
lemma served_perm_iff (cmds : List BinderReturn) :
    (served cmds).Perm (delivered cmds) ↔ cmds.countP BinderReturn.isReply = 0 := by
  have hserved : (served cmds).length = cmds.countP BinderReturn.isTransaction := by
    rw [served, delivered_length, List.countP_filter, List.countP_filter]
    have hnone : cmds.countP (fun c => c.isReply && c.isTransaction) = 0 := by
      apply List.countP_eq_zero.mpr
      intro cmd _
      cases cmd <;> simp [BinderReturn.isReply, BinderReturn.isTransaction]
    simp [hnone]
  constructor
  · intro h
    have hlen := h.length_eq
    rw [hserved, delivered_length] at hlen
    omega
  · intro h0
    have hsub : (served cmds).Sublist (delivered cmds) :=
      List.Sublist.filterMap _ List.filter_sublist
    rw [hsub.eq_of_length (by rw [hserved, delivered_length, h0, Nat.add_zero])]

lemma nil_perm_iff (cmds : List BinderReturn) :
    ([] : List UInt32).Perm (delivered cmds) ↔
      cmds.countP BinderReturn.isTransaction = 0 ∧ cmds.countP BinderReturn.isReply = 0 := by
  rw [List.nil_perm, ← List.length_eq_zero_iff, delivered_length]
  omega

/-- A caller that frees its reply gives back all that is delivered exactly if there is nothing
but this one reply. -/
lemma reply_perm_iff {cmds : List BinderReturn} {txn : BinderTransactionData}
    (h : firstReply cmds = some txn) :
    [txn.buffer].Perm (delivered cmds) ↔
      cmds.countP BinderReturn.isTransaction = 0 ∧ cmds.countP BinderReturn.isReply = 1 := by
  have hmem : .reply txn ∈ cmds := by
    obtain ⟨cmd, hcmd, hreply⟩ := List.mem_filterMap.mp (List.mem_of_head? h)
    cases cmd with
    | reply t => rwa [Option.some.inj hreply] at hcmd
    | _ => simp [BinderReturn.reply?] at hreply
  have hpos : 0 < cmds.countP BinderReturn.isReply :=
    List.countP_pos_iff.mpr ⟨_, hmem, rfl⟩
  constructor
  · intro hperm
    have hlen := hperm.length_eq
    rw [delivered_length, List.length_singleton] at hlen
    omega
  · rintro ⟨ht, hr⟩
    have hlen : (delivered cmds).length = 1 := by rw [delivered_length, ht, hr]
    obtain ⟨b, hb⟩ := List.length_eq_one_iff.mp hlen
    have hbuf : txn.buffer ∈ delivered cmds := List.mem_filterMap.mpr ⟨_, hmem, rfl⟩
    rw [hb] at hbuf ⊢
    rw [List.mem_singleton.mp hbuf]

/-- Behind a reply comes no second reply and no report of a failure. -/
def RepliesLast (cmds : List BinderReturn) : Prop :=
  cmds.Pairwise fun c c' => c.isReply = true → c'.result? = none

lemma BinderReturn.isReply_iff (cmd : BinderReturn) :
    cmd.isReply = true ↔ cmd.result? = some 0 := by
  cases cmd <;> simp [BinderReturn.isReply, BinderReturn.result?]

lemma countP_isReply (cmds : List BinderReturn) :
    cmds.countP BinderReturn.isReply = (cmds.filterMap BinderReturn.result?).count 0 := by
  induction cmds with
  | nil => rfl
  | cons cmd cmds ih =>
    rw [List.countP_cons, ih, List.filterMap_cons]
    cases cmd <;> simp [BinderReturn.isReply, BinderReturn.result?]

lemma count_zero_iff (rs : List ℤ) :
    rs.count 0 = (if rs.getLast?.getD 1 = 0 then 1 else 0) ↔ rs.Pairwise fun r _ => r ≠ 0 := by
  rcases List.eq_nil_or_concat rs with rfl | ⟨rs, r, rfl⟩
  · simp
  · -- the last result may be zero, those before it must not
    have hlast : (rs ++ [r]).getLast?.getD 1 = r := by simp
    have hcount : (rs ++ [r]).count 0 = rs.count 0 + if r = 0 then 1 else 0 := by
      rw [List.count_append, List.count_singleton]
      simp
    rw [List.concat_eq_append, hlast, hcount, List.pairwise_append, Nat.add_eq_right,
      List.count_eq_zero]
    constructor
    · intro h
      have hne : ∀ a ∈ rs, a ≠ 0 := fun a ha h0 => h (h0 ▸ ha)
      exact ⟨List.pairwise_of_forall_mem_list fun a ha _ _ => hne a ha, by simp,
        fun a ha _ _ => hne a ha⟩
    · rintro ⟨-, -, h⟩ hmem
      exact h 0 hmem r (by simp) rfl

/-- A caller that is told of a reply frees one. This is the number of replies exactly if nothing
that ends a call comes behind a reply. -/
lemma repliesLast_iff (cmds : List BinderReturn) :
    RepliesLast cmds ↔
      cmds.countP BinderReturn.isReply = if streamResult cmds = 0 then 1 else 0 := by
  rw [countP_isReply, streamResult, count_zero_iff, List.pairwise_filterMap, RepliesLast]
  constructor
  · intro h
    refine h.imp fun {c c'} hc r hr r' hr' h0 => ?_
    subst h0
    rw [hc (c.isReply_iff.mpr hr)] at hr'
    exact absurd hr' (by simp)
  · intro h
    refine h.imp fun {c c'} hc hreply => ?_
    cases hr' : c'.result? with
    | none => rfl
    | some r' => exact absurd rfl (hc 0 (c.isReply_iff.mp hreply) r' hr')

/-- The commands a call reads: those of all batches up to the first that does not leave it
waiting. -/
def callCmds : List Ioctl → List BinderReturn
  | [] => []
  | .failed _ :: _ => []
  | .done _ _ cmds _ :: ioctls => if streamResult cmds = 1 then cmds ++ callCmds ioctls else cmds

/-- A batch that leaves a call waiting holds nothing that ends it. -/
lemma filterMap_result_of_waits {cmds : List BinderReturn} (h : streamResult cmds = 1) :
    cmds.filterMap BinderReturn.result? = [] := by
  by_contra hne
  rw [streamResult, List.getLast?_eq_some_getLast hne, Option.getD_some] at h
  obtain ⟨cmd, -, hr⟩ := List.mem_filterMap.mp (List.getLast_mem hne)
  rw [h] at hr
  cases cmd <;> simp [BinderReturn.result?] at hr

lemma streamResult_waits_append {cmds : List BinderReturn} (h : streamResult cmds = 1)
    (rest : List BinderReturn) : streamResult (cmds ++ rest) = streamResult rest := by
  rw [streamResult, List.filterMap_append, filterMap_result_of_waits h]
  rfl

lemma firstReply_waits_append {cmds : List BinderReturn} (h : streamResult cmds = 1)
    (rest : List BinderReturn) : firstReply (cmds ++ rest) = firstReply rest := by
  have hnone : cmds.filterMap BinderReturn.reply? = [] := by
    apply List.filterMap_eq_nil_iff.mpr
    intro cmd hcmd
    have hr := List.filterMap_eq_nil_iff.mp (filterMap_result_of_waits h) cmd hcmd
    cases cmd with
    | reply txn => simp [BinderReturn.result?] at hr
    | _ => rfl
  rw [firstReply, List.filterMap_append, hnone]
  rfl

lemma CallState.submit_frees (txn : OutgoingTxn) (s : CallState σ) (wrote : Bool) :
    Frees [] s.world (s.submit txn wrote).world := by
  unfold CallState.submit
  split_ifs
  · exact frees_binderWrite _ _
  · exact Frees.refl _

/-- How a call ends that has read the commands `cmds`, or how it waits for more. -/
structure CallEnds (cmds : List BinderReturn) (w : World σ) (out : Option Int32 × CallState σ) :
    Prop where
  frees : Frees [] w out.2.world
  zero : out.1 = some 0 ↔ streamResult cmds = 0
  first : out.1 = some 0 → ∃ m t, firstReply cmds = some t ∧ out.2.reply = bioInitFromTxn m t

/-- A call gives nothing back by itself. With zero it hands out the first reply among the commands
it has read. -/
theorem Callbacks.call_turns (cb : Callbacks σ) (txn : OutgoingTxn) (ioctls : List Ioctl)
    (s : CallState σ) :
    CallEnds (callCmds ioctls) s.world (binderCallTurns cb.death txn ioctls s) := by
  induction ioctls generalizing s with
  | nil => exact ⟨Frees.refl _, by simp [binderCallTurns, callCmds, streamResult],
      by simp [binderCallTurns]⟩
  | cons o ioctls ih =>
    cases o with
    | failed wrote => exact ⟨s.submit_frees txn wrote,
        by simp [binderCallTurns, callCmds, streamResult], by simp [binderCallTurns]⟩
    | done consumed input cmds carries =>
      obtain ⟨hr, hreply⟩ := carries.parse_caller cb.death (s.submit txn true).reply
        (s.submit txn true).world
      have hfrees := (s.submit_frees txn true).trans
        (cb.parse_call carries (some (s.submit txn true).reply) (s.submit txn true).world)
      simp only [binderCallTurns, callCmds]
      rw [hr]
      rcases streamResult_cases cmds with h1 | h0 | hneg
      · simp only [h1, one_ne_zero, if_false, if_true, show ¬ (1 : ℤ) < 0 by decide]
        obtain ⟨hrest, hzero, hfirst⟩ := ih { s.submit txn true with
          bwr := { (s.submit txn true).bwr with writeConsumed := consumed }
          reply := _
          world := _ }
        refine ⟨hfrees.trans hrest, ?_, ?_⟩
        · rwa [streamResult_waits_append h1]
        · rwa [firstReply_waits_append h1]
      · obtain ⟨t, hfirst⟩ := firstReply_of_result h0
        rw [hfirst] at hreply
        simp only [h0, if_true, show ¬ (0 : ℤ) = 1 by decide, if_false, hreply]
        exact ⟨hfrees, iff_of_true rfl h0, fun _ => ⟨input.mem, t, hfirst, rfl⟩⟩
      · simp only [hneg, show ¬ (-1 : ℤ) = 0 by decide, show (-1 : ℤ) < 0 by decide,
          show ¬ (-1 : ℤ) = 1 by decide, if_false, if_true]
        exact ⟨hfrees, iff_of_false (by simp) (by simp [hneg]), by simp⟩

/-- The commands that the call of a message reads: none if the message has overflowed. -/
def readCmds (msg : Parcel) (ioctls : List Ioctl) : List BinderReturn :=
  if msg.io.Overflowed then [] else callCmds ioctls

lemma Callbacks.call_ends (cb : Callbacks σ) (msg reply : Parcel) (target code : UInt32)
    (ioctls : List Ioctl) (w : World σ) :
    CallEnds (readCmds msg ioctls) w (binderCallIo msg reply target code cb.death ioctls w) := by
  unfold readCmds binderCallIo
  split_ifs
  · exact ⟨Frees.refl _, by simp [streamResult], by simp⟩
  · exact cb.call_turns _ ioctls ⟨_, reply, w, []⟩

/-- What a thread does with the library. It makes a call, reads its reply and is done with it; or
it serves, over reads that bring a batch or fail. -/
inductive ThreadUse
  | call (msg reply : Parcel) (target code : UInt32) (gs : List Getter) (ioctls : List Ioctl)
  | serve (looper : Looper) (reads : List (Option Batch))

def Looper.loop (l : Looper) (cb : Callbacks σ) (w : World σ) (reads : List (Option Batch)) :
    LoopState σ :=
  let inputs := reads.map (Option.map Batch.input)
  match l with
  | .main => binderLoop cb.handler cb.death inputs w
  | .spawned => binderThreadLoop cb.handler cb.death inputs w

def ThreadUse.run (cb : Callbacks σ) (w : World σ) : ThreadUse → World σ
  | .call msg reply target code gs ioctls =>
    let out := binderCallIo msg reply target code cb.death ioctls w
    if out.1 = some 0 then (binderDone (getAll out.2.reply gs).2 out.2.world).2 else out.2.world
  | .serve looper reads => (looper.loop cb w reads).world

/-- A thread that uses the library over and over; nothing of it is recorded. -/
def threadMachine (cb : Callbacks σ) : Machine (World σ) ThreadUse Empty :=
  ⟨fun w u => u.run cb w, fun _ _ => []⟩

/-- Every buffer is given back once: those delivered to a call by the time the call has returned
and its reply is done with, those delivered to a loop by the end of their batch. -/
def ThreadUse.FreesOnce (cb : Callbacks σ) (w : World σ) : ThreadUse → Prop
  | .call msg reply target code gs ioctls =>
    (binderCallIo msg reply target code cb.death ioctls w).1 ≠ none →
      (freed (written w ((ThreadUse.call msg reply target code gs ioctls).run cb w))).Perm
        (delivered (readCmds msg ioctls))
  | .serve looper reads => ∀ pre b, pre ++ [some b] <+: reads →
    (looper.loop cb w pre).exit = none →
      (freed (written (looper.loop cb w pre).world
        (looper.loop cb w (pre ++ [some b])).world)).Perm (delivered b.cmds)

/-- The batches that cause no trouble. A call that has ended has read no transaction, and nothing
that could end it behind a reply; a loop has read no reply. -/
def ThreadUse.Clean : ThreadUse → Prop
  | .call msg _ _ _ _ ioctls => (∃ o ∈ ioctls, ¬ o.Waits) →
    (∀ cmd ∈ readCmds msg ioctls, ¬ cmd.isTransaction) ∧ RepliesLast (readCmds msg ioctls)
  | .serve _ reads => ∀ pre b, pre ++ [some b] <+: reads →
    (∀ o ∈ pre, ∃ b' ∈ o, streamResult (Batch.cmds b') = 1) → ∀ cmd ∈ b.cmds, ¬ cmd.isReply

/-- A call and its `binder_done` give back the first reply that was read, if the parser returned
zero. -/
lemma ThreadUse.call_freed (cb : Callbacks σ) (w : World σ) (msg reply : Parcel)
    (target code : UInt32) (gs : List Getter) (ioctls : List Ioctl) :
    freed (written w ((ThreadUse.call msg reply target code gs ioctls).run cb w)) =
      if streamResult (readCmds msg ioctls) = 0 then
        ((firstReply (readCmds msg ioctls)).map BinderTransactionData.buffer).toList
      else [] := by
  obtain ⟨hfrees, hzero, hfirst⟩ := cb.call_ends msg reply target code ioctls w
  simp only [ThreadUse.run, ← hzero]
  split_ifs with h0
  · obtain ⟨m, t, hcmds, hreply⟩ := hfirst h0
    rw [hreply, (bioInitFromTxn_freedOnce m t gs _).1, hcmds,
      (hfrees.trans (frees_binderWrite _ [.freeBuffer t.buffer])).written_eq]
    rfl
  · exact hfrees.written_eq

/-- A call has ended when an ioctl did not leave it waiting. -/
lemma CallOutcome.ended_iff {ioctls : List Ioctl} {res : Option Int32} {reply : Parcel}
    (h : CallOutcome ioctls res reply) : res ≠ none ↔ ∃ o ∈ ioctls, ¬ o.Waits := by
  cases h with
  | waiting reply waits => simpa using waits
  | answered pre consumed input cmds carries post txn split waits result first =>
    refine iff_of_true (by simp) ⟨.done consumed input cmds carries, by simp [split], ?_⟩
    intro hw
    exact absurd (result.symm.trans hw) (by decide)
  | failed pre o post split waits fails reply =>
    exact iff_of_true (by simp) ⟨o, by simp [split], fails.not_waits⟩

theorem call_freesOnce_iff (cb : Callbacks σ) (w : World σ) (msg reply : Parcel)
    (target code : UInt32) (gs : List Getter) (ioctls : List Ioctl) :
    (ThreadUse.call msg reply target code gs ioctls).FreesOnce cb w ↔
      (ThreadUse.call msg reply target code gs ioctls).Clean := by
  have hclean : (freed (written w ((ThreadUse.call msg reply target code gs ioctls).run cb w))).Perm
        (delivered (readCmds msg ioctls)) ↔
      (∀ cmd ∈ readCmds msg ioctls, ¬ cmd.isTransaction) ∧ RepliesLast (readCmds msg ioctls) := by
    rw [ThreadUse.call_freed, repliesLast_iff, ← List.countP_eq_zero]
    by_cases h0 : streamResult (readCmds msg ioctls) = 0
    · obtain ⟨t, ht⟩ := firstReply_of_result h0
      rw [if_pos h0, if_pos h0, ht]
      exact reply_perm_iff ht
    · rw [if_neg h0, if_neg h0]
      exact nil_perm_iff _
  simp only [ThreadUse.FreesOnce, ThreadUse.Clean, hclean]
  by_cases hov : msg.io.Overflowed
  · have hnil : readCmds msg ioctls = [] := if_pos hov
    simp [hnil, RepliesLast]
  · rw [binderCallIo, if_neg hov, (binderCallTurns_outcome _ _ _ _).ended_iff]

lemma loopTurn_exit (cb : Callbacks σ) (s : LoopState σ) (o : Option Batch) :
    (loopTurn cb.handler cb.death s (o.map Batch.input)).exit = none ↔
      s.exit = none ∧ ∃ b ∈ o, streamResult (Batch.cmds b) = 1 := by
  cases hexit : s.exit with
  | some e => simp [loopTurn, hexit]
  | none =>
    cases o with
    | none => simp [loopTurn, hexit]
    | some b =>
      have hr : (binderParse b.input (some cb.handler) cb.death none s.world).r =
          streamResult b.cmds := by
        rw [binderParse_stream b.carries]
        exact foldl_exec_r _ _ _
      simp only [loopTurn, hexit, Option.map_some, hr]
      rcases streamResult_cases b.cmds with h1 | h0 | hneg
      · simp [h1]
      · simp [h0]
      · simp [hneg]

lemma loopTurn_world (cb : Callbacks σ) {s : LoopState σ} (hs : s.exit = none) (b : Batch) :
    (loopTurn cb.handler cb.death s (some b.input)).world =
      (binderParse b.input (some cb.handler) cb.death none s.world).world := by
  simp only [loopTurn, hs]
  split_ifs <;> rfl

namespace Looper

lemma loop_snoc (l : Looper) (cb : Callbacks σ) (w : World σ) (pre : List (Option Batch))
    (o : Option Batch) :
    l.loop cb w (pre ++ [o]) =
      loopTurn cb.handler cb.death (l.loop cb w pre) (o.map Batch.input) := by
  cases l <;> simp [Looper.loop, binderLoop, binderThreadLoop, serveFrom]

/-- A loop goes on as long as its reads bring neither replies nor reports of failures. -/
theorem loop_exit (l : Looper) (cb : Callbacks σ) (w : World σ) (reads : List (Option Batch)) :
    (l.loop cb w reads).exit = none ↔ ∀ o ∈ reads, ∃ b ∈ o, streamResult (Batch.cmds b) = 1 := by
  induction reads using List.reverseRecOn with
  | nil => cases l <;> simp [Looper.loop, binderLoop, binderThreadLoop, serveFrom]
  | append_singleton pre o ih =>
    rw [loop_snoc, loopTurn_exit, ih]
    simp [or_imp, forall_and]

/-- Every turn of a loop gives back the buffers of the transactions it has read. -/
theorem loop_freed (l : Looper) (cb : Callbacks σ) (w : World σ) {pre : List (Option Batch)}
    (h : (l.loop cb w pre).exit = none) (b : Batch) :
    freed (written (l.loop cb w pre).world (l.loop cb w (pre ++ [some b])).world) =
      served b.cmds := by
  rw [loop_snoc, Option.map_some, loopTurn_world cb h]
  exact (cb.parse_serve b.carries _).written_eq

end Looper

theorem serve_freesOnce_iff (cb : Callbacks σ) (w : World σ) (looper : Looper)
    (reads : List (Option Batch)) :
    (ThreadUse.serve looper reads).FreesOnce cb w ↔ (ThreadUse.serve looper reads).Clean := by
  have hturn (pre : List (Option Batch)) (b : Batch) :
      ((looper.loop cb w pre).exit = none →
        (freed (written (looper.loop cb w pre).world
          (looper.loop cb w (pre ++ [some b])).world)).Perm (delivered b.cmds)) ↔
      ((∀ o ∈ pre, ∃ b' ∈ o, streamResult (Batch.cmds b') = 1) →
        ∀ cmd ∈ b.cmds, ¬ cmd.isReply) := by
    rw [← looper.loop_exit cb w pre, ← List.countP_eq_zero, ← served_perm_iff]
    exact imp_congr_right fun h => by rw [looper.loop_freed cb w h b]
  exact forall_congr' fun pre => forall_congr' fun b => imp_congr_right fun _ => hturn pre b

theorem ThreadUse.freesOnce_iff (cb : Callbacks σ) (w : World σ) (u : ThreadUse) :
    u.FreesOnce cb w ↔ u.Clean := by
  cases u with
  | call msg reply target code gs ioctls => exact call_freesOnce_iff ..
  | serve looper reads => exact serve_freesOnce_iff ..

/-- Over every sequence of uses of the library, every buffer is given back once exactly if no use
reads a batch that causes trouble. -/
theorem buffers_freed_once_iff (cb : Callbacks σ) (us : List ThreadUse) (w : World σ) :
    (∀ pre u, pre ++ [u] <+: us → u.FreesOnce cb ((threadMachine cb).run w pre)) ↔
      ∀ u ∈ us, u.Clean := by
  constructor
  · intro h u hu
    obtain ⟨pre, post, rfl⟩ := List.append_of_mem hu
    exact (u.freesOnce_iff cb _).mp (h pre u ⟨post, by simp⟩)
  · intro h pre u hp
    exact (u.freesOnce_iff cb _).mpr (h u (hp.subset (by simp)))

/-- A client without callbacks of its own. -/
def idleCallbacks : Callbacks Unit where
  handler _ _ reply w := (0, reply, w)
  death _ w := w
  handler_frees _ _ _ w := Frees.refl w
  death_frees _ w := Frees.refl w

/-- An ioctl that takes the transaction of a call and returns a transaction for the caller. -/
def nestedIoctl : Ioctl :=
  .ofCmds [.noop, .transactionComplete, .transaction (pingTxn 0)]
    (by simp [streamBytes, BinderReturn.bytes, BinderTransactionData.bytes_length])

/-- The one after it, with the reply. -/
def replyIoctl : Ioctl :=
  .ofCmds [.noop, .reply ⟨0, 0, 0, 0, 0, 0, 0, 0, 6144, 6144⟩]
    (by simp [streamBytes, BinderReturn.bytes, BinderTransactionData.bytes_length])

/-- A transaction that arrives while a call waits for its reply keeps its buffer. -/
theorem nested_transaction_unfreed :
    let msg := emptyReply fun _ => 0
    let u := ThreadUse.call msg msg 0 1 [] [nestedIoctl, replyIoctl]
    let w : World Unit := ⟨(), []⟩
    delivered (readCmds msg [nestedIoctl, replyIoctl]) = [4096, 6144] ∧
      freed (written w (u.run idleCallbacks w)) = [6144] ∧
      ¬ ∀ pre u', pre ++ [u'] <+: [u] →
        u'.FreesOnce idleCallbacks ((threadMachine idleCallbacks).run w pre) := by
  intro msg u w
  have hread : readCmds msg [nestedIoctl, replyIoctl] =
      [.noop, .transactionComplete, .transaction (pingTxn 0), .noop,
        .reply ⟨0, 0, 0, 0, 0, 0, 0, 0, 6144, 6144⟩] := by
    have hmsg : ¬ msg.io.Overflowed := by decide
    have hwaits : streamResult [.noop, .transactionComplete, .transaction (pingTxn 0)] = 1 := rfl
    simp [readCmds, hmsg, callCmds, nestedIoctl, replyIoctl, Ioctl.ofCmds, Batch.ofCmds, hwaits]
  have hfreed := ThreadUse.call_freed idleCallbacks w msg msg 0 1 [] [nestedIoctl, replyIoctl]
  refine ⟨by rw [hread]; rfl, by rw [hfreed, hread]; rfl, fun h => ?_⟩
  have hclean := (u.freesOnce_iff idleCallbacks w).mp (h [] u (by simp))
  have hends : ¬ replyIoctl.Waits := show ¬ (0 : ℤ) = 1 by decide
  have hnone := (hclean ⟨replyIoctl, by simp, hends⟩).1
  rw [hread] at hnone
  exact hnone (.transaction (pingTxn 0)) (by simp) rfl

end LinuxLabs.Binder
