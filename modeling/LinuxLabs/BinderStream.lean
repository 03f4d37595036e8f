import LinuxLabs.BinderDelivery

/-! `binder_parse` as an interpreter of return streams. A stream is a list of complete commands,
possibly cut short by a command word the parser does not know. The meaning of a stream is given
here once more without cursors and strides: a list of effects in stream order, the first reply
for the caller and the last result. -/
namespace LinuxLabs.Binder
open ByteMemory

variable {σ : Type}

def knownReturns : List UInt32 :=
  [brNoop, brTransactionComplete, brIncrefs, brAcquire, brRelease, brDecrefs, brSpawnLooper,
    brTransaction, brReply, brDeadBinder, brFailedReply, brDeadReply]

/-- What a command makes the program do. `rdata` is the stack array of the reply. -/
inductive StreamEffect (σ : Type)
  | spawn
  | death (cookie : UInt32)
  | serve (func : BinderHandler σ) (txn : BinderTransactionData) (rdata : Mem)

/-- The effect of a command that stands at `ptr`, if it has one. -/
def BinderReturn.effects (rdata : ℕ → Mem) (func : Option (BinderHandler σ)) (ptr : ℕ) :
    BinderReturn → List (StreamEffect σ)
  | .spawnLooper => [.spawn]
  | .deadBinder cookie => [.death cookie]
  | .transaction txn => func.toList.map fun f => .serve f txn (rdata (ptr + 4))
  | _ => []

/-- The effects of the commands that stand from `ptr` on, in order. -/
def streamEffects (rdata : ℕ → Mem) (func : Option (BinderHandler σ)) :
    ℕ → List BinderReturn → List (StreamEffect σ)
  | _, [] => []
  | ptr, cmd :: cmds =>
    cmd.effects rdata func ptr ++ streamEffects rdata func (ptr + cmd.bytes.length) cmds

/-- A thread is started, a death callback made, or a handler called on the data of its own
transaction and an empty reply, followed by one frame that frees the buffer and replies. -/
def StreamEffect.perform (m : Mem) (death : UInt32 → World σ → World σ) (w : World σ) :
    StreamEffect σ → World σ
  | .spawn => ⟨w.app, w.trace ++ [.spawnLooper]⟩
  | .death cookie => death cookie w
  | .serve func txn rdata =>
    let out := func txn (bioInitFromTxn m txn) (emptyReply rdata) w
    let reply := if out.1 ≠ 0 then .word tfStatusCode out.1.toUInt32 else out.2.1.outgoing 0 0 0
    ⟨out.2.2.app, out.2.2.trace ++ [.write (.freeBuffer txn.buffer), .write (.reply reply)]⟩

def BinderReturn.reply? : BinderReturn → Option BinderTransactionData
  | .reply txn => some txn
  | _ => none

def BinderReturn.result? : BinderReturn → Option ℤ
  | .reply _ => some 0
  | .failedReply => some (-1)
  | .deadReply => some (-1)
  | _ => none

/-- The reply a waiting caller gets. -/
def firstReply (cmds : List BinderReturn) : Option BinderTransactionData :=
  (cmds.filterMap BinderReturn.reply?).head?

/-- The last command with a result decides; without one the stream asks for more. -/
def streamResult (cmds : List BinderReturn) : ℤ :=
  (cmds.filterMap BinderReturn.result?).getLast?.getD 1

lemma foldl_exec_ptr (c : ParseCall σ) (s : ParseState σ) (cmds : List BinderReturn) :
    (cmds.foldl (BinderReturn.exec c) s).ptr = s.ptr + (streamBytes cmds).length := by
  induction cmds generalizing s with
  | nil => rfl
  | cons cmd cmds ih =>
    rw [List.foldl_cons, ih, BinderReturn.exec_ptr]
    simp [streamBytes, Nat.add_assoc]

/-- The effects of a stream, performed in order. -/
theorem foldl_exec_world (c : ParseCall σ) (s : ParseState σ) (cmds : List BinderReturn) :
    (cmds.foldl (BinderReturn.exec c) s).world =
      (streamEffects c.rdata c.func s.ptr cmds).foldl (StreamEffect.perform c.mem c.death)
        s.world := by
  induction cmds generalizing s with
  | nil => rfl
  | cons cmd cmds ih =>
    rw [List.foldl_cons, ih, BinderReturn.exec_ptr, streamEffects, List.foldl_append]
    congr 1
    cases cmd with
    | transaction txn =>
      obtain ⟨m, stop, func, death, rdata⟩ := c
      cases func with
      | none => rfl
      | some func => rfl
    | _ => rfl

/-- The caller's reply is filled in once, from the first reply of the stream. -/
theorem foldl_exec_reply (c : ParseCall σ) (s : ParseState σ) (cmds : List BinderReturn) :
    (cmds.foldl (BinderReturn.exec c) s).reply =
      if s.bio then ((firstReply cmds).map (bioInitFromTxn c.mem)).getD s.reply else s.reply := by
  induction cmds generalizing s with
  | nil => simp [firstReply]
  | cons cmd cmds ih =>
    rw [List.foldl_cons, ih]
    cases cmd with
    | reply txn =>
      have hbio : (BinderReturn.exec c s (.reply txn)).bio = false := rfl
      have hreply : (BinderReturn.exec c s (.reply txn)).reply =
          if s.bio then bioInitFromTxn c.mem txn else s.reply := rfl
      rw [hbio, hreply]
      rfl
    | _ => rfl

theorem foldl_exec_r (c : ParseCall σ) (s : ParseState σ) (cmds : List BinderReturn) :
    (cmds.foldl (BinderReturn.exec c) s).r =
      (cmds.filterMap BinderReturn.result?).getLast?.getD s.r := by
  induction cmds generalizing s with
  | nil => rfl
  | cons cmd cmds ih =>
    rw [List.foldl_cons, ih, List.filterMap_cons]
    cases cmd with
    | reply txn =>
      have hr : (BinderReturn.exec c s (.reply txn)).r = 0 := rfl
      rw [hr, BinderReturn.result?, List.getLast?_cons, Option.getD_some]
    | failedReply =>
      have hr : (BinderReturn.exec c s .failedReply).r = -1 := rfl
      rw [hr, BinderReturn.result?, List.getLast?_cons, Option.getD_some]
    | deadReply =>
      have hr : (BinderReturn.exec c s .deadReply).r = -1 := rfl
      rw [hr, BinderReturn.result?, List.getLast?_cons, Option.getD_some]
    | _ => rfl

/-- A command word the parser does not know ends it, before anything else is done. -/
lemma binderParseStep_unknown {c : ParseCall σ} {s : ParseState σ}
    (h : load32 c.mem s.ptr ∉ knownReturns) :
    binderParseStep c s = .ret { s with ptr := s.ptr + 4, r := -1 } := by
  simp only [knownReturns, List.mem_cons, List.not_mem_nil, or_false, not_or] at h
  simp only [binderParseStep, h, or_self, if_false]

/-- The loop executes the complete commands it finds, one in each turn. -/
theorem binderParseLoop_prefix {c : ParseCall σ} {s : ParseState σ} {cmds : List BinderReturn}
    (h : HoldsBytes c.mem s.ptr (streamBytes cmds))
    (hend : s.ptr + (streamBytes cmds).length ≤ c.stop) (hstop : c.stop < 2^32) (turns : ℕ) :
    binderParseLoop c (cmds.length + turns) s =
      binderParseLoop c turns (cmds.foldl (BinderReturn.exec c) s) := by
  induction cmds generalizing s with
  | nil => simp
  | cons cmd cmds ih =>
    have hcons : streamBytes (cmd :: cmds) = cmd.bytes ++ streamBytes cmds := by simp [streamBytes]
    rw [hcons, List.length_append] at hend
    rw [hcons, holdsBytes_append] at h
    have hpos := cmd.bytes_length_pos
    have hlt : s.ptr < c.stop := by omega
    have hturns : (cmd :: cmds).length + turns = (cmds.length + turns) + 1 := by
      rw [List.length_cons]
      omega
    rw [hturns, binderParseLoop, if_pos hlt, binderParseStep_holds h.1 (by omega) hstop,
      List.foldl_cons]
    exact ih (by simpa using h.2) (by simp; omega)

lemma binderParseLoop_stop {c : ParseCall σ} {s : ParseState σ} (h : ¬ s.ptr < c.stop) (turns : ℕ) :
    binderParseLoop c turns s = s := by
  cases turns with
  | zero => rfl
  | succ turns => rw [binderParseLoop, if_neg h]

/-- `binder_parse` interprets a stream of complete commands one by one, whatever its handler and
its caller's reply: the effects come in stream order, the caller's reply is the first one, and
the last result is returned. An unknown command word behind the commands turns the result into
`-1` and changes nothing else. -/
theorem binderParse_interprets (i : ParseInput) (cmds : List BinderReturn) (tail : List UInt8)
    (htail : tail = [] ∨ ∃ code rest, tail = bytes32 code ++ rest ∧ code ∉ knownReturns)
    (hbytes : HoldsBytes i.mem i.ptr (streamBytes cmds ++ tail))
    (hsize : i.size = (streamBytes cmds ++ tail).length) (hfits : i.ptr + i.size < 2^32)
    (func : Option (BinderHandler σ)) (death : UInt32 → World σ → World σ) (bio : Option Parcel)
    (w : World σ) :
    let s := binderParse i func death bio w
    s.world = (streamEffects i.rdata func i.ptr cmds).foldl (StreamEffect.perform i.mem death) w ∧
      (∀ reply, bio = some reply →
        s.reply = ((firstReply cmds).map (bioInitFromTxn i.mem)).getD reply) ∧
      s.r = if tail = [] then streamResult cmds else -1 := by
  intro s
  let c := i.call func death
  let t := cmds.foldl (BinderReturn.exec c) (i.entry bio w)
  have hlen := length_le_streamBytes cmds
  rw [holdsBytes_append] at hbytes
  rw [List.length_append] at hsize
  obtain ⟨turns, hturns⟩ :=
    Nat.exists_eq_add_of_le (hlen.trans (hsize.ge.trans' (Nat.le_add_right _ _)))
  have hloop : s = binderParseLoop c turns t := by
    have hpre := binderParseLoop_prefix (c := c) (s := i.entry bio w) hbytes.1
      (by simp only [ParseInput.entry, c, ParseInput.call]; omega) hfits turns
    rw [← hturns] at hpre
    exact hpre
  have hptr : t.ptr = i.ptr + (streamBytes cmds).length := foldl_exec_ptr c _ cmds
  have hworld : t.world = _ := foldl_exec_world c (i.entry bio w) cmds
  have hreply : t.reply = _ := foldl_exec_reply c (i.entry bio w) cmds
  have hr : t.r = _ := foldl_exec_r c (i.entry bio w) cmds
  have hbio : ∀ reply, bio = some reply →
      t.reply = ((firstReply cmds).map (bioInitFromTxn i.mem)).getD reply := by
    rintro reply rfl
    exact hreply
  rcases htail with rfl | ⟨code, rest, rfl, hcode⟩
  · have hstop : ¬ t.ptr < c.stop := by
      have hstop : c.stop = i.ptr + i.size := rfl
      rw [hptr, hstop, hsize]
      simp
    rw [hloop, binderParseLoop_stop hstop, if_pos rfl]
    exact ⟨hworld, hbio, hr⟩
  · rw [List.length_append, bytes32_length] at hsize
    have hword : load32 c.mem t.ptr = code := by
      rw [hptr]
      exact (holdsBytes_append.mp hbytes.2).1.load32_eq
    have hlt : t.ptr < c.stop := by
      have hstop : c.stop = i.ptr + i.size := rfl
      omega
    have hne : bytes32 code ++ rest ≠ [] := by simp [bytes32]
    obtain ⟨turns, rfl⟩ := Nat.exists_eq_succ_of_ne_zero (n := turns) (by omega)
    rw [hloop, binderParseLoop, if_pos hlt, binderParseStep_unknown (by rwa [hword]), if_neg hne]
    exact ⟨hworld, hbio, rfl⟩

/-- A thread is started, a death reported and a failure noted before the unknown word zero. -/
theorem binderParse_interprets_mixed :
    let bytes := streamBytes [.noop, .spawnLooper, .deadBinder 7, .failedReply] ++ bytes32 0
    let s := binderParse ⟨write (fun _ => 0) 8192 bytes, 8192, bytes.length, fun _ _ => 0⟩ none
      (fun cookie w => ⟨w.app ++ [cookie], w.trace⟩) none (⟨[], []⟩ : World (List UInt32))
    s.world.app = [7] ∧ s.world.trace = [.spawnLooper] ∧ s.r = -1 := by
  intro bytes s
  obtain ⟨hworld, -, hr⟩ := binderParse_interprets
    ⟨write (fun _ => 0) 8192 bytes, 8192, bytes.length, fun _ _ => 0⟩
    [.noop, .spawnLooper, .deadBinder 7, .failedReply] (bytes32 0)
    (.inr ⟨0, [], rfl, by decide⟩) (holdsBytes_write _ _ _) rfl (by decide) none
    (fun cookie w => ⟨w.app ++ [cookie], w.trace⟩) none (⟨[], []⟩ : World (List UInt32))
  rw [if_neg (by simp [bytes32])] at hr
  simp only [streamEffects, BinderReturn.effects, List.nil_append, List.cons_append,
    List.foldl_cons, List.foldl_nil, StreamEffect.perform] at hworld
  change s.world = _ at hworld
  rw [hworld]
  exact ⟨rfl, rfl, hr⟩

end LinuxLabs.Binder
