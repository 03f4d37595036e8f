import LinuxLabs.BinderCall
import LinuxLabs.BinderStream
import LinuxLabs.BinderIoSticky

/-! The contract of `binder_call` and `binder_done`. Here the ioctl is seen from both sides: the
caller keeps `write_size` and `write_consumed` in its `binder_write_read` over all turns of the
loop, and the driver decides at every turn whether it takes the rest of the write buffer and
what it returns. -/
namespace LinuxLabs.Binder
open ByteMemory

variable {σ : Type}

/-- The write side of a `binder_write_read`; the read side is set up anew for every ioctl. -/
structure WriteRead where
  writeSize : ℕ
  writeConsumed : ℕ

/-- One `BINDER_WRITE_READ`. It fails, before or after the driver has taken the write buffer, or
returns a batch of complete commands and a value for `write_consumed`. -/
inductive Ioctl
  | failed (wrote : Bool)
  | done (consumed : ℕ) (input : ParseInput) (cmds : List BinderReturn)
      (carries : input.Carries cmds)

def Ioctl.wrote : Ioctl → Bool
  | .failed wrote => wrote
  | .done .. => true

/-- The locals of `binder_call`, the world, and what the call has submitted. -/
structure CallState (σ : Type) where
  bwr : WriteRead
  reply : Parcel
  world : World σ
  submitted : List OutgoingTxn

/-- The write side of an ioctl: whatever is left of the write buffer goes to the driver. -/
def CallState.submit (txn : OutgoingTxn) (s : CallState σ) (wrote : Bool) : CallState σ :=
  if wrote ∧ s.bwr.writeConsumed < s.bwr.writeSize then
    { s with world := binderWrite s.world [.transaction txn], submitted := s.submitted ++ [txn] }
  else s

def CallState.fail (s : CallState σ) : CallState σ := { s with reply := failedReply s.reply }

def binderCallTurns (death : UInt32 → World σ → World σ) (txn : OutgoingTxn) :
    List Ioctl → CallState σ → Option Int32 × CallState σ
  | [], s => (none, s)
  | .failed wrote :: _, s => (some (-1), (s.submit txn wrote).fail)
  | .done consumed input _ _ :: ioctls, s =>
    let s := s.submit txn true
    let p := binderParse input none death (some s.reply) s.world
    let s := { s with
      bwr := { s.bwr with writeConsumed := consumed }, reply := p.reply, world := p.world }
    if p.r = 0 then (some 0, s)
    else if p.r < 0 then (some (-1), s.fail)
    else binderCallTurns death txn ioctls s

def sizeofWritebuf : ℕ := 4 + sizeofBinderTransactionData

/-- `binder_call` against a list of ioctls; a call that has used them up has not returned. -/
def binderCallIo (msg reply : Parcel) (target code : UInt32) (death : UInt32 → World σ → World σ)
    (ioctls : List Ioctl) (w : World σ) : Option Int32 × CallState σ :=
  let s : CallState σ := ⟨⟨sizeofWritebuf, 0⟩, reply, w, []⟩
  if msg.io.Overflowed then (some (-1), s.fail)
  else binderCallTurns death (msg.outgoing target code 0) ioctls s

/-- A batch that leaves the call waiting. -/
def Ioctl.Waits : Ioctl → Prop
  | .failed _ => False
  | .done _ _ cmds _ => streamResult cmds = 1

/-- An ioctl that fails, or whose batch ends in a failure. -/
def Ioctl.Fails : Ioctl → Prop
  | .failed _ => True
  | .done _ _ cmds _ => streamResult cmds = -1

lemma Ioctl.Fails.not_waits {o : Ioctl} (h : o.Fails) : ¬ o.Waits := by
  cases o with
  | failed wrote => exact id
  | done consumed input cmds carries =>
    intro hw
    exact absurd (h.symm.trans hw) (by decide)

lemma streamResult_cases (cmds : List BinderReturn) :
    streamResult cmds = 1 ∨ streamResult cmds = 0 ∨ streamResult cmds = -1 := by
  unfold streamResult
  cases hl : (cmds.filterMap BinderReturn.result?).getLast? with
  | none => exact .inl rfl
  | some r =>
    obtain ⟨cmd, -, hr⟩ := List.mem_filterMap.mp (List.mem_of_getLast? hl)
    right
    cases cmd with
    | reply txn => exact .inl (Option.some.inj hr).symm
    | failedReply => exact .inr (Option.some.inj hr).symm
    | deadReply => exact .inr (Option.some.inj hr).symm
    | _ => simp [BinderReturn.result?] at hr

/-- A stream that returns zero holds a reply. -/
lemma firstReply_of_result {cmds : List BinderReturn} (h : streamResult cmds = 0) :
    ∃ txn, firstReply cmds = some txn := by
  have hmem : ∃ txn, BinderReturn.reply txn ∈ cmds := by
    unfold streamResult at h
    cases hl : (cmds.filterMap BinderReturn.result?).getLast? with
    | none => simp [hl] at h
    | some r =>
      obtain ⟨cmd, hcmd, hr⟩ := List.mem_filterMap.mp (List.mem_of_getLast? hl)
      rw [hl, Option.getD_some] at h
      subst h
      cases cmd with
      | reply txn => exact ⟨txn, hcmd⟩
      | _ => simp [BinderReturn.result?] at hr
  obtain ⟨txn, hmem⟩ := hmem
  have hne : cmds.filterMap BinderReturn.reply? ≠ [] :=
    List.ne_nil_of_mem (List.mem_filterMap.mpr ⟨_, hmem, rfl⟩)
  exact ⟨_, List.head?_eq_some_head hne⟩

/-- What the parser hands back to a caller: the first reply and the last result. -/
lemma ParseInput.Carries.parse_caller {input : ParseInput} {cmds : List BinderReturn}
    (h : input.Carries cmds) (death : UInt32 → World σ → World σ) (reply : Parcel) (w : World σ) :
    let p := binderParse input none death (some reply) w
    p.r = streamResult cmds ∧
      p.reply = ((firstReply cmds).map (bioInitFromTxn input.mem)).getD reply := by
  intro p
  have hp : p = _ := binderParse_stream h none death (some reply) w
  rw [hp]
  exact ⟨foldl_exec_r _ _ _, foldl_exec_reply _ _ _⟩

/-- How a call can stand after a list of ioctls: it waits for more, it has been ended by a batch
with a reply, or by a failure. -/
inductive CallOutcome (ioctls : List Ioctl) : Option Int32 → Parcel → Prop
  | waiting (reply : Parcel) (waits : ∀ o ∈ ioctls, o.Waits) : CallOutcome ioctls none reply
  | answered (pre : List Ioctl) (consumed : ℕ) (input : ParseInput) (cmds : List BinderReturn)
      (carries : input.Carries cmds) (post : List Ioctl) (txn : BinderTransactionData)
      (split : ioctls = pre ++ .done consumed input cmds carries :: post)
      (waits : ∀ o ∈ pre, o.Waits) (result : streamResult cmds = 0)
      (first : firstReply cmds = some txn) :
      CallOutcome ioctls (some 0) (bioInitFromTxn input.mem txn)
  | failed (pre : List Ioctl) (o : Ioctl) (post : List Ioctl) (split : ioctls = pre ++ o :: post)
      (waits : ∀ o ∈ pre, o.Waits) (fails : o.Fails) (reply : Parcel) :
      CallOutcome ioctls (some (-1)) (failedReply reply)

lemma CallOutcome.cons {ioctls : List Ioctl} {res : Option Int32} {reply : Parcel}
    (h : CallOutcome ioctls res reply) {o : Ioctl} (ho : o.Waits) :
    CallOutcome (o :: ioctls) res reply := by
  have hmem {pre : List Ioctl} (hpre : ∀ o ∈ pre, o.Waits) : ∀ o' ∈ o :: pre, o'.Waits := by
    intro o' ho'
    rcases List.mem_cons.mp ho' with rfl | ho'
    · exact ho
    · exact hpre o' ho'
  cases h with
  | waiting reply waits => exact .waiting reply (hmem waits)
  | answered pre consumed input cmds carries post txn split waits result first =>
    exact .answered (o :: pre) consumed input cmds carries post txn (by rw [split]; rfl)
      (hmem waits) result first
  | failed pre o' post split waits fails reply =>
    exact .failed (o :: pre) o' post (by rw [split]; rfl) (hmem waits) fails reply

/-- One turn decides or goes on; the rest follows by induction over the ioctls. -/
theorem binderCallTurns_outcome (death : UInt32 → World σ → World σ) (txn : OutgoingTxn)
    (ioctls : List Ioctl) (s : CallState σ) :
    CallOutcome ioctls (binderCallTurns death txn ioctls s).1
      (binderCallTurns death txn ioctls s).2.reply := by
  induction ioctls generalizing s with
  | nil => exact .waiting _ (by simp)
  | cons o ioctls ih =>
    cases o with
    | failed wrote => exact .failed [] (.failed wrote) ioctls rfl (by simp) trivial _
    | done consumed input cmds carries =>
      obtain ⟨hr, hreply⟩ := carries.parse_caller death (s.submit txn true).reply
        (s.submit txn true).world
      simp only [binderCallTurns]
      rw [hr]
      rcases streamResult_cases cmds with h1 | h0 | hneg
      · simp only [h1, one_ne_zero, if_false, show ¬ (1 : ℤ) < 0 by decide]
        exact (ih _).cons h1
      · obtain ⟨first, hfirst⟩ := firstReply_of_result h0
        rw [hfirst] at hreply
        simp only [h0, if_true, hreply]
        exact .answered [] consumed input cmds carries ioctls first rfl (by simp) h0 hfirst
      · simp only [hneg, show ¬ (-1 : ℤ) = 0 by decide, show (-1 : ℤ) < 0 by decide, if_false,
          if_true]
        exact .failed [] (.done consumed input cmds carries) ioctls rfl (by simp) hneg _

/-- The driver takes the whole write buffer whenever an ioctl succeeds. -/
def Ioctl.Consumes (size : ℕ) : Ioctl → Prop
  | .failed _ => True
  | .done consumed _ _ _ => consumed = size

lemma CallState.submit_bwr (txn : OutgoingTxn) (s : CallState σ) (wrote : Bool) :
    (s.submit txn wrote).bwr = s.bwr := by
  unfold CallState.submit
  split_ifs <;> rfl

lemma CallState.submit_settled (txn : OutgoingTxn) {s : CallState σ}
    (hs : s.bwr.writeConsumed = s.bwr.writeSize) (wrote : Bool) : s.submit txn wrote = s := by
  simp [CallState.submit, hs]

/-- Once the write buffer is consumed nothing is submitted any more. -/
lemma binderCallTurns_settled (death : UInt32 → World σ → World σ) (txn : OutgoingTxn)
    (ioctls : List Ioctl) (s : CallState σ) (hs : s.bwr.writeConsumed = s.bwr.writeSize)
    (hio : ∀ o ∈ ioctls, o.Consumes s.bwr.writeSize) :
    (binderCallTurns death txn ioctls s).2.submitted = s.submitted := by
  induction ioctls generalizing s with
  | nil => rfl
  | cons o ioctls ih =>
    cases o with
    | failed wrote =>
      rw [binderCallTurns, CallState.submit_settled txn hs]
      rfl
    | done consumed input cmds carries =>
      have hc : consumed = s.bwr.writeSize :=
        hio (.done consumed input cmds carries) List.mem_cons_self
      simp only [binderCallTurns, CallState.submit_settled txn hs]
      split_ifs
      · rfl
      · rfl
      · exact ih _ hc fun o ho => hio o (by simp [ho])

theorem binderCallTurns_submitted (death : UInt32 → World σ → World σ) (txn : OutgoingTxn)
    (ioctls : List Ioctl) (s : CallState σ) (hs : s.submitted = [])
    (hio : ∀ o ∈ ioctls, o.Consumes s.bwr.writeSize) :
    (binderCallTurns death txn ioctls s).2.submitted = [] ∨
      (binderCallTurns death txn ioctls s).2.submitted = [txn] := by
  have hsubmit (wrote : Bool) :
      (s.submit txn wrote).submitted = [] ∨ (s.submit txn wrote).submitted = [txn] := by
    unfold CallState.submit
    split_ifs
    · right
      simp [hs]
    · exact .inl hs
  cases ioctls with
  | nil => exact .inl hs
  | cons o ioctls =>
    cases o with
    | failed wrote => exact hsubmit wrote
    | done consumed input cmds carries =>
      have hc : consumed = s.bwr.writeSize :=
        hio (.done consumed input cmds carries) List.mem_cons_self
      simp only [binderCallTurns]
      split_ifs
      · exact hsubmit true
      · exact hsubmit true
      · rw [binderCallTurns_settled]
        · exact hsubmit true
        · rw [CallState.submit_bwr]
          exact hc
        · rw [CallState.submit_bwr]
          exact fun o ho => hio o (by simp [ho])

/-- What the caller's loop sees of an ioctl. -/
def Ioctl.read : Ioctl → Option ParseInput
  | .failed _ => none
  | .done _ input _ _ => some input

lemma binderCallTurns_read (death : UInt32 → World σ → World σ) (txn : OutgoingTxn)
    (ioctls : List Ioctl) (s : CallState σ) (hs : s.bwr.writeConsumed = s.bwr.writeSize)
    (hio : ∀ o ∈ ioctls, o.Consumes s.bwr.writeSize) :
    let out := binderCallTurns death txn ioctls s
    binderCallLoop death (ioctls.map Ioctl.read) s.reply s.world =
      out.1.map fun r => (r, out.2.reply, out.2.world) := by
  induction ioctls generalizing s with
  | nil => rfl
  | cons o ioctls ih =>
    cases o with
    | failed wrote =>
      rw [binderCallTurns, CallState.submit_settled txn hs]
      rfl
    | done consumed input cmds carries =>
      have hc : consumed = s.bwr.writeSize :=
        hio (.done consumed input cmds carries) List.mem_cons_self
      simp only [binderCallTurns, CallState.submit_settled txn hs, List.map_cons, Ioctl.read,
        binderCallLoop]
      split_ifs
      · rfl
      · rfl
      · exact ih { s with bwr := { s.bwr with writeConsumed := consumed }, reply := _, world := _ }
          hc fun o ho => hio o (by simp [ho])

/-- With a driver that consumes what it is given, beginning with the first ioctl, the call is the
one that writes its transaction and then only reads. -/
theorem binderCallIo_read {ioctls : List Ioctl} (hio : ∀ o ∈ ioctls, o.Consumes sizeofWritebuf)
    (hfirst : ∀ o ∈ ioctls.head?, o.wrote = true) (msg reply : Parcel) (target code : UInt32)
    (death : UInt32 → World σ → World σ) (w : World σ) :
    let out := binderCallIo msg reply target code death ioctls w
    binderCall msg reply target code death (ioctls.map Ioctl.read) w =
      out.1.map fun r => (r, out.2.reply, out.2.world) := by
  unfold binderCallIo binderCall
  by_cases hov : msg.io.Overflowed
  · simp only [if_pos hov]
    rfl
  · simp only [if_neg hov]
    cases ioctls with
    | nil => rfl
    | cons o ioctls =>
      cases o with
      | failed wrote =>
        have hw : wrote = true := hfirst _ rfl
        subst hw
        rfl
      | done consumed input cmds carries =>
        have hc : consumed = sizeofWritebuf :=
          hio (.done consumed input cmds carries) List.mem_cons_self
        -- after the first turn the buffer is consumed, whatever that turn returned
        have hsub (s : CallState σ) (hs : s.bwr = ⟨sizeofWritebuf, 0⟩) (txn : OutgoingTxn) :
            s.submit txn true = { s with
              world := binderWrite s.world [.transaction txn]
              submitted := s.submitted ++ [txn] } :=
          if_pos ⟨rfl, by rw [hs]; decide⟩
        simp only [binderCallTurns, List.map_cons, Ioctl.read, binderCallLoop, hsub]
        split_ifs
        · rfl
        · rfl
        · exact binderCallTurns_read death _ ioctls ⟨⟨sizeofWritebuf, consumed⟩, _, _, _⟩ hc
            fun o ho => hio o (by simp [ho])

lemma or_and_of_disjoint {f g h : UInt32} (hgh : g &&& h = 0) : (f ||| g) &&& h = f &&& h := by
  have hbits (i : ℕ) : (g.toNat.testBit i && h.toNat.testBit i) = false := by
    rw [← Nat.testBit_and, ← UInt32.toNat_and, hgh]
    simp
  apply UInt32.toNat_inj.mp
  apply Nat.eq_of_testBit_eq
  intro i
  have hi := hbits i
  simp only [UInt32.toNat_and, UInt32.toNat_or, Nat.testBit_and, Nat.testBit_or]
  revert hi
  cases f.toNat.testBit i <;> cases g.toNat.testBit i <;> cases h.toNat.testBit i <;> simp

lemma overflow_shared (io : BinderIo) :
    io.overflow.flags &&& bioFShared = io.flags &&& bioFShared :=
  or_and_of_disjoint (by decide)

/-- Getters leave the start of the data alone, and the mark that it has to be freed. -/
lemma Getter.run_shared (p : Parcel) (g : Getter) :
    (g.run p).2.io.data0 = p.io.data0 ∧
      (g.run p).2.io.flags &&& bioFShared = p.io.flags &&& bioFShared := by
  have hgone := overflow_shared p.io
  cases g with
  | uint32 =>
    by_cases h4 : 4 ≤ p.io.dataAvail
    · simp only [Getter.run, bioGetUint32_fits h4]
      exact ⟨rfl, rfl⟩
    · simp only [Getter.run, bioGetUint32_short (Nat.lt_of_not_le h4)]
      exact ⟨rfl, hgone⟩
  | string16 =>
    by_cases h4 : 4 ≤ p.io.dataAvail
    · by_cases hb : 4 + stringBlock (load32 p.mem p.io.data).toNat ≤ p.io.dataAvail
      · simp only [Getter.run, bioGetString16_fits h4 rfl hb]
        exact ⟨rfl, rfl⟩
      · simp only [Getter.run, bioGetString16_long h4 rfl (Nat.lt_of_not_le hb)]
        exact ⟨rfl, hgone⟩
    · simp only [Getter.run, bioGetString16_short (Nat.lt_of_not_le h4)]
      exact ⟨rfl, hgone⟩
  | ref =>
    by_cases hr : p.Listed ∧ 16 ≤ p.io.dataAvail
    · simp only [Getter.run, bioGetRef_fits hr.1 hr.2]
      exact ⟨rfl, rfl⟩
    · simp only [Getter.run, bioGetRef_fails hr]
      exact ⟨rfl, hgone⟩

theorem getAll_shared (p : Parcel) (gs : List Getter) :
    (getAll p gs).2.io.data0 = p.io.data0 ∧
      (getAll p gs).2.io.flags &&& bioFShared = p.io.flags &&& bioFShared := by
  induction gs generalizing p with
  | nil => exact ⟨rfl, rfl⟩
  | cons g gs ih =>
    obtain ⟨hd, hf⟩ := g.run_shared p
    obtain ⟨hd', hf'⟩ := ih (g.run p).2
    exact ⟨hd'.trans hd, hf'.trans hf⟩

/-- The following `binder_done` frees the buffer of the reply, and no later one does, whatever is
read from the reply in between. -/
def FreedOnce (σ : Type) (reply : Parcel) (buffer : UInt32) : Prop :=
  ∀ (gs : List Getter) (w : World σ),
    let first := binderDone (getAll reply gs).2 w
    first.2 = binderWrite w [.freeBuffer buffer] ∧
      ∀ (gs' : List Getter) (w' : World σ), (binderDone (getAll first.1 gs').2 w').2 = w'

/-- Nothing can be read from the reply, whatever memory holds, and nothing is freed for it. -/
def Inert (σ : Type) (reply : Parcel) : Prop :=
  ∀ (m : Mem) (gs : List Getter) (w : World σ),
    (getAll ⟨m, reply.io⟩ gs).1 = gs.map Getter.nothing ∧
      (binderDone (getAll ⟨m, reply.io⟩ gs).2 w).2 = w

theorem bioInitFromTxn_freedOnce (m : Mem) (txn : BinderTransactionData) :
    FreedOnce σ (bioInitFromTxn m txn) txn.buffer := by
  intro gs w first
  obtain ⟨hd, hf⟩ := getAll_shared (bioInitFromTxn m txn) gs
  have hshared : (getAll (bioInitFromTxn m txn) gs).2.io.flags &&& bioFShared ≠ 0 := by
    rw [hf]
    simp only [bioInitFromTxn]
    decide
  have hfirst : first = _ := if_pos hshared
  rw [hfirst]
  refine ⟨by rw [hd]; simp [bioInitFromTxn], fun gs' w' => ?_⟩
  generalize (getAll (bioInitFromTxn m txn) gs).2 = p
  obtain ⟨-, hf'⟩ := getAll_shared ⟨p.mem, { p.io with flags := 0 }⟩ gs'
  rw [binderDone, hf', if_neg (by simp)]

lemma failedReply_inert (reply : Parcel) : Inert σ (failedReply reply) := by
  intro m gs w
  obtain ⟨-, hf⟩ := getAll_shared ⟨m, (failedReply reply).io⟩ gs
  refine ⟨getAll_exhausted rfl gs, ?_⟩
  rw [binderDone, hf, if_neg]
  simp only [failedReply]
  decide

/-- The contract of `binder_call`, over every message and every sequence of ioctls. It returns
zero or `-1`, or is still waiting for the end of the batch. It returns zero if the first batch
that ends it says so, and the caller then holds the first reply of that batch, to be freed once.
It returns `-1` if the message has overflowed, an ioctl fails or that batch ends in a failure, and
the caller then holds nothing. A driver that consumes what it is given gets the transaction once
at most, and never if the message has overflowed. -/
theorem binderCall_contract (msg reply : Parcel) (target code : UInt32)
    (death : UInt32 → World σ → World σ) (ioctls : List Ioctl) (w : World σ) :
    let out := binderCallIo msg reply target code death ioctls w
    (out.1 = some 0 ∧ ¬ msg.io.Overflowed ∧ (∃ pre consumed input cmds carries post txn,
        ioctls = pre ++ .done consumed input cmds carries :: post ∧ (∀ o ∈ pre, o.Waits) ∧
        streamResult cmds = 0 ∧ firstReply cmds = some txn ∧
        out.2.reply = bioInitFromTxn input.mem txn ∧ FreedOnce σ out.2.reply txn.buffer) ∨
      out.1 = some (-1) ∧ (msg.io.Overflowed ∨ ∃ pre o post,
        ioctls = pre ++ o :: post ∧ (∀ o ∈ pre, o.Waits) ∧ o.Fails) ∧ Inert σ out.2.reply ∨
      out.1 = none ∧ ¬ msg.io.Overflowed ∧ ∀ o ∈ ioctls, o.Waits) ∧
    ((∀ o ∈ ioctls, o.Consumes sizeofWritebuf) →
      out.2.submitted = [] ∨ out.2.submitted = [msg.outgoing target code 0]) ∧
    (msg.io.Overflowed → out.2.submitted = []) := by
  intro out
  by_cases hov : msg.io.Overflowed
  · have hout : out = _ := if_pos hov
    rw [hout]
    exact ⟨.inr (.inl ⟨rfl, .inl hov, failedReply_inert _⟩), fun _ => .inl rfl, fun _ => rfl⟩
  · have hout : out = _ := if_neg hov
    rw [hout]
    refine ⟨?_, fun hio => binderCallTurns_submitted _ _ _ _ rfl hio, fun h => absurd h hov⟩
    have houtcome := binderCallTurns_outcome death (msg.outgoing target code 0) ioctls
      ⟨⟨sizeofWritebuf, 0⟩, reply, w, []⟩
    generalize binderCallTurns death _ ioctls _ = r at houtcome
    obtain ⟨res, s⟩ := r
    simp only at houtcome ⊢
    generalize s.reply = rep at houtcome
    cases houtcome with
    | waiting reply waits => exact .inr (.inr ⟨rfl, hov, waits⟩)
    | answered pre consumed input cmds carries post txn split waits result first =>
      exact .inl ⟨rfl, hov, pre, consumed, input, cmds, carries, post, txn, split, waits, result,
        first, rfl, bioInitFromTxn_freedOnce input.mem txn⟩
    | failed pre o post split waits fails reply =>
      exact .inr (.inl ⟨rfl, .inr ⟨pre, o, post, split, waits, fails⟩, failedReply_inert reply⟩)

/-- An ioctl that consumes the write buffer and returns the given commands. -/
def Ioctl.ofCmds (cmds : List BinderReturn) (h : (streamBytes cmds).length ≤ 128) : Ioctl :=
  let b := Batch.ofCmds (fun _ => 0) cmds h
  .done sizeofWritebuf b.input b.cmds b.carries

/-- The batches of a call: an acknowledgement, then the given commands. -/
def ackThen (cmds : List BinderReturn) (h : (streamBytes cmds).length ≤ 128) : List Ioctl :=
  [.ofCmds [.noop, .transactionComplete] (by decide), .ofCmds cmds h]

/-- What ends such a call is the second batch. -/
lemma ackThen_ends {cmds : List BinderReturn} {h : (streamBytes cmds).length ≤ 128}
    {pre post : List Ioctl} {o : Ioctl} (hsplit : ackThen cmds h = pre ++ o :: post)
    (ho : ¬ o.Waits) : o = .ofCmds cmds h := by
  have hmem : o ∈ ackThen cmds h := by simp [hsplit]
  rcases List.mem_cons.mp hmem with rfl | hmem
  · exact absurd rfl ho
  · exact List.mem_singleton.mp hmem

/-- A call whose second batch answers it, and one that finds a failure behind the answer. -/
theorem binderCall_answered :
    let txn : BinderTransactionData := ⟨0, 0, 0, 0, 0, 0, 4, 0, 6144, 6148⟩
    let msg := emptyReply fun _ => 0
    let call := fun ioctls => binderCallIo msg msg 1 2 (fun _ w => w) ioctls (⟨(), []⟩ : World Unit)
    let answered := call (ackThen [.reply txn] (by decide))
    let refused := call (ackThen [.reply txn, .failedReply] (by decide))
    (answered.1 = some 0 ∧ FreedOnce Unit answered.2.reply 6144) ∧
      refused.1 = some (-1) ∧ Inert Unit refused.2.reply := by
  intro txn msg call answered refused
  have hmsg : ¬ msg.io.Overflowed := by decide
  constructor
  · rcases (binderCall_contract msg msg 1 2 (fun _ w => w) (ackThen [.reply txn] (by decide))
      (⟨(), []⟩ : World Unit)).1 with
      ⟨hres, -, pre, consumed, input, cmds, carries, post, t, split, -, result, first, -, hfreed⟩ |
      ⟨-, hov | ⟨pre, o, post, split, -, fails⟩, -⟩ | ⟨-, -, waits⟩
    · have hends : ¬ (Ioctl.done consumed input cmds carries).Waits := fun hw =>
        absurd (result.symm.trans hw) (by decide)
      cases ackThen_ends split hends
      obtain rfl : txn = t := Option.some.inj first
      exact ⟨hres, hfreed⟩
    · exact absurd hov hmsg
    · cases ackThen_ends split fails.not_waits
      exact absurd fails (show ¬ (0 : ℤ) = -1 by decide)
    · exact absurd (waits _ (List.mem_cons_of_mem _ List.mem_cons_self))
        (show ¬ (0 : ℤ) = 1 by decide)
  · rcases (binderCall_contract msg msg 1 2 (fun _ w => w)
      (ackThen [.reply txn, .failedReply] (by decide)) (⟨(), []⟩ : World Unit)).1 with
      ⟨-, -, pre, consumed, input, cmds, carries, post, t, split, -, result, -, -, -⟩ |
      ⟨hres, -, hinert⟩ | ⟨-, -, waits⟩
    · have hends : ¬ (Ioctl.done consumed input cmds carries).Waits := fun hw =>
        absurd (result.symm.trans hw) (by decide)
      cases ackThen_ends split hends
      exact absurd result (show ¬ (-1 : ℤ) = 0 by decide)
    · exact ⟨hres, hinert⟩
    · exact absurd (waits _ (List.mem_cons_of_mem _ List.mem_cons_self))
        (show ¬ (-1 : ℤ) = 1 by decide)

end LinuxLabs.Binder
