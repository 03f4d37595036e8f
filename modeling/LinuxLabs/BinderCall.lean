import LinuxLabs.BinderDelivery

/-! `binder_call` and `binder_done`. A call writes its transaction with the first ioctl and
reads until a reply is there; the outcomes of the ioctl are given as a list, and a call that has
used them up is still waiting. -/
namespace LinuxLabs.Binder
open ByteMemory

variable {σ : Type}

/-- The caller's reply structure after a failure: zeroed, with the error flag set. -/
def failedReply (reply : Parcel) : Parcel :=
  ⟨reply.mem, { BinderIo.uninit with flags := bioFIoerror }⟩

def binderCallLoop (death : UInt32 → World σ → World σ) :
    List (Option ParseInput) → Parcel → World σ → Option (Int32 × Parcel × World σ)
  | [], _, _ => none
  | none :: _, reply, w => some (-1, failedReply reply, w)
  | some i :: reads, reply, w =>
    let p := binderParse i none death (some reply) w
    if p.r = 0 then some (0, p.reply, p.world)
    else if p.r < 0 then some (-1, failedReply p.reply, p.world)
    else binderCallLoop death reads p.reply p.world

def binderCall (msg reply : Parcel) (target code : UInt32) (death : UInt32 → World σ → World σ)
    (reads : List (Option ParseInput)) (w : World σ) : Option (Int32 × Parcel × World σ) :=
  if msg.io.Overflowed then some (-1, failedReply reply, w)
  else binderCallLoop death reads reply (binderWrite w [.transaction (msg.outgoing target code 0)])

def binderDone (reply : Parcel) (w : World σ) : Parcel × World σ :=
  if reply.io.flags &&& bioFShared ≠ 0 then
    (⟨reply.mem, { reply.io with flags := 0 }⟩,
      binderWrite w [.freeBuffer (UInt32.ofNat reply.io.data0)])
  else (reply, w)

/-- What a caller reads until its reply has come: reads of other commands only, and a last one
that has the reply among its commands. -/
structure Answer where
  waits : List Batch
  last : Batch
  before : List BinderReturn
  after : List BinderReturn
  txn : BinderTransactionData
  cmds : last.cmds = before ++ .reply txn :: after
  waiting : ∀ b ∈ waits, ∀ cmd ∈ b.cmds, cmd.Ordinary
  ordinary : ∀ cmd ∈ before ++ after, cmd.Ordinary

def Answer.reads (a : Answer) : List (Option ParseInput) :=
  a.waits.map (fun b => some b.input) ++ [some a.last.input]

/-- For a caller, ordinary commands leave the return code and the reply alone. -/
lemma BinderReturn.Ordinary.exec_caller {cmd : BinderReturn} (h : cmd.Ordinary) (i : ParseInput)
    (death : UInt32 → World σ → World σ) (s : ParseState σ) :
    let s' := cmd.exec (i.call none death) s
    s'.r = s.r ∧ s'.bio = s.bio ∧ s'.reply = s.reply := by
  cases cmd with
  | spawnLooper => exact h.elim
  | reply txn => exact h.elim
  | failedReply => exact h.elim
  | deadReply => exact h.elim
  | _ => exact ⟨rfl, rfl, rfl⟩

lemma foldl_exec_caller {cmds : List BinderReturn} (h : ∀ cmd ∈ cmds, cmd.Ordinary)
    (i : ParseInput) (death : UInt32 → World σ → World σ) (s : ParseState σ) :
    let s' := cmds.foldl (BinderReturn.exec (i.call none death)) s
    s'.r = s.r ∧ s'.bio = s.bio ∧ s'.reply = s.reply := by
  induction cmds generalizing s with
  | nil => exact ⟨rfl, rfl, rfl⟩
  | cons cmd cmds ih =>
    obtain ⟨hr, hb, hp⟩ := (h cmd (by simp)).exec_caller i death s
    obtain ⟨hr', hb', hp'⟩ := ih (fun c hc => h c (by simp [hc])) (cmd.exec _ s)
    exact ⟨hr'.trans hr, hb'.trans hb, hp'.trans hp⟩

lemma exec_reply (c : ParseCall σ) (s : ParseState σ) (txn : BinderTransactionData) :
    let s' := BinderReturn.exec c s (.reply txn)
    s'.r = 0 ∧ s'.reply = if s.bio then bioInitFromTxn c.mem txn else s.reply := ⟨rfl, rfl⟩

/-- A call returns with the reply its reads bring. -/
theorem binderCallLoop_answer (a : Answer) (death : UInt32 → World σ → World σ) (reply : Parcel)
    (w : World σ) : ∃ w', binderCallLoop death a.reads reply w =
      some (0, bioInitFromTxn a.last.input.mem a.txn, w') := by
  obtain ⟨waits, last, before, after, txn, hcmds, hwait, hord⟩ := a
  unfold Answer.reads
  dsimp only at hcmds hwait hord ⊢
  induction waits generalizing reply w with
  | nil =>
    have hparse := binderParse_stream last.carries none death (some reply) w
    rw [hcmds, List.foldl_append, List.foldl_cons] at hparse
    have hbefore : ∀ cmd ∈ before, cmd.Ordinary := fun c hc => hord c (by simp [hc])
    have hafter : ∀ cmd ∈ after, cmd.Ordinary := fun c hc => hord c (by simp [hc])
    obtain ⟨hr, hb, hp⟩ := foldl_exec_caller hbefore last.input death
      (last.input.entry (some reply) w)
    generalize before.foldl _ _ = s at hparse hr hb hp
    obtain ⟨hr', -, hp'⟩ := foldl_exec_caller hafter last.input death
      (BinderReturn.exec (last.input.call none death) s (.reply txn))
    rw [← hparse] at hr' hp'
    have hbio : s.bio = true := hb
    obtain ⟨hr0, hp0⟩ := exec_reply (last.input.call none death) s txn
    rw [hr0] at hr'
    rw [hp0, hbio, if_pos rfl] at hp'
    refine ⟨(binderParse last.input none death (some reply) w).world, ?_⟩
    simp only [List.map_nil, List.nil_append, binderCallLoop, hr', if_true, hp']
    rfl
  | cons b waits ih =>
    have hparse := binderParse_stream b.carries none death (some reply) w
    obtain ⟨hr, -, -⟩ := foldl_exec_caller (hwait b (by simp)) b.input death
      (b.input.entry (some reply) w)
    rw [← hparse] at hr
    have hr1 : (binderParse b.input none death (some reply) w).r = 1 := hr
    obtain ⟨w', hw'⟩ := ih (binderParse b.input none death (some reply) w).reply
      (binderParse b.input none death (some reply) w).world fun c hc => hwait c (by simp [hc])
    refine ⟨w', ?_⟩
    rw [List.map_cons, List.cons_append, binderCallLoop, hr1]
    exact hw'

theorem binderCall_answer {msg : Parcel} (hmsg : ¬ msg.io.Overflowed) (a : Answer)
    (reply : Parcel) (target code : UInt32) (death : UInt32 → World σ → World σ) (w : World σ) :
    ∃ w', binderCall msg reply target code death a.reads w =
      some (0, bioInitFromTxn a.last.input.mem a.txn, w') := by
  rw [binderCall, if_neg hmsg]
  exact binderCallLoop_answer a death reply _

lemma binderCall_overflowed {msg : Parcel} (hmsg : msg.io.Overflowed) (reply : Parcel)
    (target code : UInt32) (death : UInt32 → World σ → World σ) (reads : List (Option ParseInput))
    (w : World σ) :
    binderCall msg reply target code death reads w = some (-1, failedReply reply, w) :=
  if_pos hmsg

end LinuxLabs.Binder
