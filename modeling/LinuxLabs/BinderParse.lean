import LinuxLabs.BinderIo

/-! `binder_parse` and `binder_send_reply`. The parser runs over raw memory; its effects are
what the process writes to the driver, the threads it starts and whatever handlers and death
callbacks do to the state of the program. -/
namespace LinuxLabs.Binder
open ByteMemory

inductive Effect
  | write (cmd : BinderCommand)
  | spawnLooper
  deriving DecidableEq, Repr

/-- The state of the program on top of the library, and all its effects so far. -/
structure World (σ : Type) where
  app : σ
  trace : List Effect

variable {σ : Type}

/-- The effects since `w`. -/
def written (w w' : World σ) : List Effect := w'.trace.drop w.trace.length

lemma written_append {w w' : World σ} {effs : List Effect} (h : w'.trace = w.trace ++ effs) :
    written w w' = effs := by
  simp [written, h]

/-- One `BINDER_WRITE_READ` that only writes. -/
def binderWrite (w : World σ) (cmds : List BinderCommand) : World σ :=
  { w with trace := w.trace ++ cmds.map .write }

def binderAcquire (w : World σ) (target : UInt32) : World σ := binderWrite w [.acquire target]

def binderRelease (w : World σ) (target : UInt32) : World σ := binderWrite w [.release target]

def binderLinkToDeath (w : World σ) (target death : UInt32) : World σ :=
  binderWrite w [.requestDeathNotification target death]

/-- The data between `data0` and `data` and the entries between `offs0` and `offs`, as the
driver copies them while it handles the write. -/
def Parcel.outgoing (p : Parcel) (target code flags : UInt32) : OutgoingTxn where
  target := target
  code := code
  flags := flags
  data := read p.mem p.io.data0 (p.io.data - p.io.data0)
  offsets := words p.mem p.io.offs0 ((p.io.offs - p.io.offs0) / 4)

def replyTxn (reply : Parcel) (status : Int32) : OutgoingTxn :=
  if status ≠ 0 then
    { target := 0, code := 0, flags := tfStatusCode, data := bytes32 status.toUInt32
      offsets := [] }
  else reply.outgoing 0 0 0

def binderSendReply (w : World σ) (reply : Parcel) (bufferToFree : UInt32) (status : Int32) :
    World σ :=
  binderWrite w [.freeBuffer bufferToFree, .reply (replyTxn reply status)]

/-- A handler gets the transaction, the message and an empty reply; it returns a status, the
reply as it left it and the new state of the program. -/
abbrev BinderHandler (σ : Type) :=
  BinderTransactionData → Parcel → Parcel → World σ → Int32 × Parcel × World σ

/-- Everything `binder_parse` is given besides the state it works on. `death` stands for the
indirect call through the cookie of a dead binder. `rdata` is the stack array of the reply, an
object of its own with addresses from zero and, for the command at each position, arbitrary
contents before it is written. -/
structure ParseCall (σ : Type) where
  mem : Mem
  stop : ℕ
  func : Option (BinderHandler σ)
  death : UInt32 → World σ → World σ
  rdata : ℕ → Mem

/-- The locals of `binder_parse`. `bio` says whether the pointer to the caller's reply is
still there, `reply` is the object it pointed to. -/
structure ParseState (σ : Type) where
  ptr : ℕ
  r : Int
  bio : Bool
  reply : Parcel
  world : World σ

/-- An uninitialised local structure. -/
def BinderIo.uninit : BinderIo := ⟨0, 0, 0, 0, 0, 0, 0⟩

/-- The empty reply buffer, 256 bytes with room for four offsets. -/
def emptyReply (rdata : Mem) : Parcel := bioInit ⟨rdata, BinderIo.uninit⟩ 0 256 4

def serveTransaction (c : ParseCall σ) (func : BinderHandler σ) (ptr : ℕ)
    (txn : BinderTransactionData) (w : World σ) : World σ :=
  let out := func txn (bioInitFromTxn c.mem txn) (emptyReply (c.rdata ptr)) w
  binderSendReply out.2.2 out.2.1 txn.buffer out.1

/-- `end - ptr` in `uintptr_t`. -/
def subUintptr (a b : ℕ) : ℕ := wrap (a + 2^32 - b)

inductive Flow (α : Type)
  | next (s : α)
  | ret (s : α)

/-- One turn of the loop, `s.ptr < c.stop` having been checked. -/
def binderParseStep (c : ParseCall σ) (s : ParseState σ) : Flow (ParseState σ) :=
  let cmd := load32 c.mem s.ptr
  let ptr := s.ptr + 4
  if cmd = brNoop ∨ cmd = brTransactionComplete then .next { s with ptr := ptr }
  else if cmd = brIncrefs ∨ cmd = brAcquire ∨ cmd = brRelease ∨ cmd = brDecrefs then
    .next { s with ptr := ptr + sizeofBinderPtrCookie }
  else if cmd = brSpawnLooper then
    .next { s with ptr := ptr, world := { s.world with trace := s.world.trace ++ [.spawnLooper] } }
  else if cmd = brTransaction then
    if subUintptr c.stop ptr < sizeofBinderTransactionData then .ret { s with ptr := ptr, r := -1 }
    else
      let txn := BinderTransactionData.load c.mem ptr
      let world := match c.func with
        | none => s.world
        | some func => serveTransaction c func ptr txn s.world
      .next { s with ptr := ptr + sizeofBinderTransactionData, world := world }
  else if cmd = brReply then
    if subUintptr c.stop ptr < sizeofBinderTransactionData then .ret { s with ptr := ptr, r := -1 }
    else
      let txn := BinderTransactionData.load c.mem ptr
      let reply := if s.bio then bioInitFromTxn c.mem txn else s.reply
      .next { s with
        ptr := ptr + sizeofBinderTransactionData, r := 0, bio := false, reply := reply }
  else if cmd = brDeadBinder then
    .next { s with
      ptr := ptr + sizeofBinderUintptr, world := c.death (load32 c.mem ptr) s.world }
  else if cmd = brFailedReply ∨ cmd = brDeadReply then .next { s with ptr := ptr, r := -1 }
  else .ret { s with ptr := ptr, r := -1 }

/-- Every turn moves `ptr` by at least a command word, so that as many turns as there are bytes
are always enough. -/
def binderParseLoop (c : ParseCall σ) : ℕ → ParseState σ → ParseState σ
  | 0, s => s
  | fuel + 1, s =>
    if s.ptr < c.stop then
      match binderParseStep c s with
      | .next s => binderParseLoop c fuel s
      | .ret s => s
    else s

/-- The memory and the other circumstances of one call. -/
structure ParseInput where
  mem : Mem
  ptr : ℕ
  size : ℕ
  rdata : ℕ → Mem

def ParseInput.call (i : ParseInput) (func : Option (BinderHandler σ))
    (death : UInt32 → World σ → World σ) : ParseCall σ :=
  ⟨i.mem, i.ptr + i.size, func, death, i.rdata⟩

/-- The locals before the first turn. -/
def ParseInput.entry (i : ParseInput) (bio : Option Parcel) (w : World σ) : ParseState σ :=
  ⟨i.ptr, 1, bio.isSome, bio.getD ⟨i.mem, BinderIo.uninit⟩, w⟩

def binderParse (i : ParseInput) (func : Option (BinderHandler σ))
    (death : UInt32 → World σ → World σ) (bio : Option Parcel) (w : World σ) : ParseState σ :=
  binderParseLoop (i.call func death) i.size (i.entry bio w)

/-- The commands of the return protocol that `binder_parse` knows. -/
inductive BinderReturn
  | noop
  | transactionComplete
  | increfs (ptr cookie : UInt32)
  | acquire (ptr cookie : UInt32)
  | release (ptr cookie : UInt32)
  | decrefs (ptr cookie : UInt32)
  | spawnLooper
  | transaction (txn : BinderTransactionData)
  | reply (txn : BinderTransactionData)
  | deadBinder (cookie : UInt32)
  | failedReply
  | deadReply
  deriving DecidableEq, Repr

/-- A command word and its full payload. -/
def BinderReturn.bytes : BinderReturn → List UInt8
  | .noop => bytes32 brNoop
  | .transactionComplete => bytes32 brTransactionComplete
  | .increfs ptr cookie => bytes32 brIncrefs ++ (bytes32 ptr ++ bytes32 cookie)
  | .acquire ptr cookie => bytes32 brAcquire ++ (bytes32 ptr ++ bytes32 cookie)
  | .release ptr cookie => bytes32 brRelease ++ (bytes32 ptr ++ bytes32 cookie)
  | .decrefs ptr cookie => bytes32 brDecrefs ++ (bytes32 ptr ++ bytes32 cookie)
  | .spawnLooper => bytes32 brSpawnLooper
  | .transaction txn => bytes32 brTransaction ++ txn.bytes
  | .reply txn => bytes32 brReply ++ txn.bytes
  | .deadBinder cookie => bytes32 brDeadBinder ++ bytes32 cookie
  | .failedReply => bytes32 brFailedReply
  | .deadReply => bytes32 brDeadReply

def streamBytes (cmds : List BinderReturn) : List UInt8 := cmds.flatMap BinderReturn.bytes

/-- What one command of a well-formed stream does. -/
def BinderReturn.exec (c : ParseCall σ) (s : ParseState σ) (cmd : BinderReturn) : ParseState σ :=
  let s' := { s with ptr := s.ptr + cmd.bytes.length }
  match cmd with
  | .spawnLooper => { s' with world := { s.world with trace := s.world.trace ++ [.spawnLooper] } }
  | .transaction txn =>
    { s' with world := match c.func with
        | none => s.world
        | some func => serveTransaction c func (s.ptr + 4) txn s.world }
  | .reply txn =>
    { s' with r := 0, bio := false, reply := if s.bio then bioInitFromTxn c.mem txn else s.reply }
  | .deadBinder cookie => { s' with world := c.death cookie s.world }
  | .failedReply => { s' with r := -1 }
  | .deadReply => { s' with r := -1 }
  | _ => s'

theorem BinderTransactionData.bytes_length (t : BinderTransactionData) : t.bytes.length = 40 := rfl

theorem BinderTransactionData.load_of_holds {m : Mem} {a : ℕ} {t : BinderTransactionData}
    (h : HoldsBytes m a t.bytes) : BinderTransactionData.load m a = t := by
  simp only [BinderTransactionData.bytes, holdsBytes_append, List.length_append, bytes32_length,
    Nat.reduceAdd] at h
  obtain ⟨⟨⟨⟨⟨⟨⟨⟨⟨h0, h1⟩, h2⟩, h3⟩, h4⟩, h5⟩, h6⟩, h7⟩, h8⟩, h9⟩ := h
  simp only [BinderTransactionData.load, h0.load32_eq, h1.load32_eq, h2.load32_eq, h3.load32_eq,
    h4.load32_eq, h5.load32_eq, h6.load32_eq, h7.load32_eq, h8.load32_eq, h9.load32_eq]

theorem subUintptr_of_le {a b : ℕ} (h : b ≤ a) (ha : a < 2^32) : subUintptr a b = a - b := by
  simp only [subUintptr, wrap]
  omega

/-- A turn of the loop at a complete command does what the command says. -/
theorem binderParseStep_holds {c : ParseCall σ} {s : ParseState σ} {cmd : BinderReturn}
    (h : HoldsBytes c.mem s.ptr cmd.bytes) (hend : s.ptr + cmd.bytes.length ≤ c.stop)
    (hstop : c.stop < 2^32) : binderParseStep c s = .next (cmd.exec c s) := by
  have hroom {n : ℕ} (hn : s.ptr + (4 + n) ≤ c.stop) : ¬ subUintptr c.stop (s.ptr + 4) < n := by
    rw [subUintptr_of_le (by omega) hstop]
    omega
  cases cmd with
  | noop => simp only [binderParseStep, h.load32_eq, true_or, if_true]; rfl
  | transactionComplete => simp only [binderParseStep, h.load32_eq, or_true, if_true]; rfl
  | increfs ptr cookie =>
    simp only [BinderReturn.bytes, holdsBytes_append] at h
    simp only [binderParseStep, h.1.load32_eq]
    rw [if_neg (by decide), if_pos (by decide)]
    rfl
  | acquire ptr cookie =>
    simp only [BinderReturn.bytes, holdsBytes_append] at h
    simp only [binderParseStep, h.1.load32_eq]
    rw [if_neg (by decide), if_pos (by decide)]
    rfl
  | release ptr cookie =>
    simp only [BinderReturn.bytes, holdsBytes_append] at h
    simp only [binderParseStep, h.1.load32_eq]
    rw [if_neg (by decide), if_pos (by decide)]
    rfl
  | decrefs ptr cookie =>
    simp only [BinderReturn.bytes, holdsBytes_append] at h
    simp only [binderParseStep, h.1.load32_eq]
    rw [if_neg (by decide), if_pos (by decide)]
    rfl
  | spawnLooper =>
    simp only [BinderReturn.bytes] at h
    simp only [binderParseStep, h.load32_eq]
    rw [if_neg (by decide), if_neg (by decide), if_pos (by decide)]
    rfl
  | transaction txn =>
    simp only [BinderReturn.bytes, List.length_append, bytes32_length,
      BinderTransactionData.bytes_length] at hend
    simp only [BinderReturn.bytes, holdsBytes_append, bytes32_length] at h
    simp only [binderParseStep, h.1.load32_eq, BinderTransactionData.load_of_holds h.2]
    rw [if_neg (by decide), if_neg (by decide), if_neg (by decide), if_pos (by decide),
      if_neg (hroom (n := sizeofBinderTransactionData) hend)]
    rfl
  | reply txn =>
    simp only [BinderReturn.bytes, List.length_append, bytes32_length,
      BinderTransactionData.bytes_length] at hend
    simp only [BinderReturn.bytes, holdsBytes_append, bytes32_length] at h
    simp only [binderParseStep, h.1.load32_eq, BinderTransactionData.load_of_holds h.2]
    rw [if_neg (by decide), if_neg (by decide), if_neg (by decide), if_neg (by decide),
      if_pos (by decide), if_neg (hroom (n := sizeofBinderTransactionData) hend)]
    rfl
  | deadBinder cookie =>
    simp only [BinderReturn.bytes, holdsBytes_append, bytes32_length] at h
    simp only [binderParseStep, h.1.load32_eq, h.2.load32_eq]
    rw [if_neg (by decide), if_neg (by decide), if_neg (by decide), if_neg (by decide),
      if_neg (by decide), if_pos (by decide)]
    rfl
  | failedReply =>
    simp only [BinderReturn.bytes] at h
    simp only [binderParseStep, h.load32_eq]
    rw [if_neg (by decide), if_neg (by decide), if_neg (by decide), if_neg (by decide),
      if_neg (by decide), if_neg (by decide), if_pos (by decide)]
    rfl
  | deadReply =>
    simp only [BinderReturn.bytes] at h
    simp only [binderParseStep, h.load32_eq]
    rw [if_neg (by decide), if_neg (by decide), if_neg (by decide), if_neg (by decide),
      if_neg (by decide), if_neg (by decide), if_pos (by decide)]
    rfl

theorem BinderReturn.bytes_length_pos (cmd : BinderReturn) : 4 ≤ cmd.bytes.length := by
  cases cmd <;> simp [BinderReturn.bytes]

@[simp] theorem BinderReturn.exec_ptr (c : ParseCall σ) (s : ParseState σ) (cmd : BinderReturn) :
    (cmd.exec c s).ptr = s.ptr + cmd.bytes.length := by
  cases cmd <;> rfl

/-- The loop over a stream of complete commands executes them one after the other, one in each
turn. -/
theorem binderParseLoop_stream {c : ParseCall σ} {s : ParseState σ} {cmds : List BinderReturn}
    (h : HoldsBytes c.mem s.ptr (streamBytes cmds))
    (hend : s.ptr + (streamBytes cmds).length = c.stop) (hstop : c.stop < 2^32) (turns : ℕ) :
    binderParseLoop c turns s = (cmds.take turns).foldl (BinderReturn.exec c) s := by
  induction cmds generalizing s turns with
  | nil =>
    have hn : ¬ s.ptr < c.stop := by simp [streamBytes] at hend; omega
    cases turns <;> simp [binderParseLoop, hn]
  | cons cmd cmds ih =>
    have hcons : streamBytes (cmd :: cmds) = cmd.bytes ++ streamBytes cmds := by simp [streamBytes]
    rw [hcons, List.length_append] at hend
    rw [hcons, holdsBytes_append] at h
    have hpos := cmd.bytes_length_pos
    have hlt : s.ptr < c.stop := by omega
    cases turns with
    | zero => rfl
    | succ turns =>
      simp only [binderParseLoop, hlt, if_true, binderParseStep_holds h.1 (by omega) hstop,
        List.take_succ_cons, List.foldl_cons]
      exact ih (by simpa using h.2) (by simp; omega) turns

/-- The bytes read from the driver are those of a list of complete commands. -/
structure ParseInput.Carries (i : ParseInput) (cmds : List BinderReturn) : Prop where
  bytes : HoldsBytes i.mem i.ptr (streamBytes cmds)
  size : i.size = (streamBytes cmds).length
  fits : i.ptr + i.size < 2^32

theorem ParseInput.Carries.turns {i : ParseInput} {cmds : List BinderReturn} (h : i.Carries cmds)
    (func : Option (BinderHandler σ)) (death : UInt32 → World σ → World σ) (bio : Option Parcel)
    (w : World σ) (n : ℕ) :
    binderParseLoop (i.call func death) n (i.entry bio w) =
      (cmds.take n).foldl (BinderReturn.exec (i.call func death)) (i.entry bio w) :=
  binderParseLoop_stream h.bytes (by rw [← h.size]; rfl) h.fits n

theorem length_le_streamBytes (cmds : List BinderReturn) :
    cmds.length ≤ (streamBytes cmds).length := by
  induction cmds with
  | nil => simp
  | cons cmd cmds ih =>
    have hpos := cmd.bytes_length_pos
    simp only [streamBytes, List.flatMap_cons, List.length_append, List.length_cons] at ih ⊢
    omega

theorem binderParse_stream {i : ParseInput} {cmds : List BinderReturn} (h : i.Carries cmds)
    (func : Option (BinderHandler σ)) (death : UInt32 → World σ → World σ) (bio : Option Parcel)
    (w : World σ) :
    binderParse i func death bio w =
      cmds.foldl (BinderReturn.exec (i.call func death)) (i.entry bio w) := by
  have hlen := length_le_streamBytes cmds
  rw [binderParse, h.turns, List.take_of_length_le (by rw [h.size]; exact hlen)]

/-- The commands the driver sends on its own account. -/
def BinderReturn.Ordinary : BinderReturn → Prop
  | .noop | .transactionComplete | .increfs .. | .acquire .. | .release .. | .decrefs ..
  | .deadBinder _ | .transaction _ => True
  | _ => False

/-- What one successful read returns: complete commands, in a buffer of 32 words. -/
structure Batch where
  input : ParseInput
  cmds : List BinderReturn
  carries : input.Carries cmds
  room : input.size ≤ 128

/-- A read that leaves the given commands in the buffer, here at a fixed address. -/
def Batch.ofCmds (m : Mem) (cmds : List BinderReturn) (h : (streamBytes cmds).length ≤ 128) :
    Batch where
  input := ⟨write m 8192 (streamBytes cmds), 8192, (streamBytes cmds).length, fun _ _ => 0⟩
  cmds := cmds
  carries := ⟨holdsBytes_write m 8192 (streamBytes cmds), rfl, by simp only; omega⟩
  room := h

end LinuxLabs.Binder
