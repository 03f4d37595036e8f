import LinuxLabs.BinderStream

/-! What `binder_parse` reads of its input. The parser asks for the rest of the input in front of
a transaction and of a reply only; the command word itself and the cookie of a dead binder are
read wherever the cursor stands. -/
namespace LinuxLabs.Binder
open ByteMemory

variable {σ : Type}

/-- The reads of one turn at `ptr`, each with its address and its size. -/
def stepReads (c : ParseCall σ) (ptr : ℕ) : List (ℕ × ℕ) :=
  let cmd := load32 c.mem ptr
  let payload :=
    if cmd = brTransaction ∨ cmd = brReply then
      if subUintptr c.stop (ptr + 4) < sizeofBinderTransactionData then []
      else [(ptr + 4, sizeofBinderTransactionData)]
    else if cmd = brDeadBinder then [(ptr + 4, sizeofBinderUintptr)]
    else []
  (ptr, 4) :: payload

/-- The reads of the loop, turn by turn. -/
def parseReads (c : ParseCall σ) : ℕ → ParseState σ → List (ℕ × ℕ)
  | 0, _ => []
  | turns + 1, s =>
    if s.ptr < c.stop then
      stepReads c s.ptr ++ match binderParseStep c s with
        | .next s => parseReads c turns s
        | .ret _ => []
    else []

/-- The same call with its input in another memory; the messages of the transactions stay where
they are. -/
def ParseCall.over (c : ParseCall σ) (m : Mem) : ParseCall σ :=
  { c with mem := m, func := c.func.map fun func txn msg => func txn ⟨c.mem, msg.io⟩ }

@[simp] theorem ParseCall.over_mem (c : ParseCall σ) (m : Mem) : (c.over m).mem = m := rfl

@[simp] theorem ParseCall.over_stop (c : ParseCall σ) (m : Mem) : (c.over m).stop = c.stop := rfl

@[simp] theorem ParseCall.over_death (c : ParseCall σ) (m : Mem) :
    (c.over m).death = c.death := rfl

/-- The state with its reply in the given memory. -/
def ParseState.over (s : ParseState σ) (m : Mem) : ParseState σ :=
  { s with reply := ⟨m, s.reply.io⟩ }

def Flow.map {α β : Type} (f : α → β) : Flow α → Flow β
  | .next s => .next (f s)
  | .ret s => .ret (f s)

lemma BinderTransactionData.load_congr {m m' : Mem} {a : ℕ}
    (h : AgreeOn m m' a (a + sizeofBinderTransactionData)) :
    BinderTransactionData.load m a = BinderTransactionData.load m' a := by
  have hword (k : ℕ) (hk : k + 4 ≤ sizeofBinderTransactionData) :
      load32 m (a + k) = load32 m' (a + k) := h.load32_eq (by omega) (by omega)
  simp only [BinderTransactionData.load]
  rw [hword 4 (by decide), hword 8 (by decide), hword 12 (by decide), hword 16 (by decide),
    hword 20 (by decide), hword 24 (by decide), hword 28 (by decide), hword 32 (by decide),
    hword 36 (by decide), h.load32_eq le_rfl (Nat.add_le_add_left (by decide) a)]

/-- A turn depends on no byte of the input but those it reads. -/
theorem binderParseStep_over {c : ParseCall σ} {m : Mem} {s t : ParseState σ}
    (hm : ∀ a ∈ stepReads c s.ptr, AgreeOn c.mem m a.1 (a.1 + a.2))
    (hst : t.over c.mem = s.over c.mem) :
    (binderParseStep (c.over m) t).map (ParseState.over · c.mem) =
      (binderParseStep c s).map (ParseState.over · c.mem) := by
  obtain ⟨ptr, r, bio, reply, world⟩ := s
  obtain ⟨ptr', r', bio', reply', world'⟩ := t
  obtain ⟨mem, io⟩ := reply
  obtain ⟨mem', io'⟩ := reply'
  simp only [ParseState.over, ParseState.mk.injEq, Parcel.mk.injEq, true_and] at hst
  obtain ⟨rfl, rfl, rfl, rfl, rfl⟩ := hst
  have hword : load32 m ptr' = load32 c.mem ptr' :=
    ((hm (ptr', 4) List.mem_cons_self).load32_eq le_rfl le_rfl).symm
  have htxn (hcode : load32 c.mem ptr' = brTransaction ∨ load32 c.mem ptr' = brReply)
      (hroom : ¬ subUintptr c.stop (ptr' + 4) < sizeofBinderTransactionData) :
      BinderTransactionData.load m (ptr' + 4) = BinderTransactionData.load c.mem (ptr' + 4) := by
    refine (BinderTransactionData.load_congr (hm (ptr' + 4, sizeofBinderTransactionData) ?_)).symm
    simp [stepReads, hcode, hroom]
  have hcookie (hcode : load32 c.mem ptr' = brDeadBinder) :
      load32 m (ptr' + 4) = load32 c.mem (ptr' + 4) := by
    refine ((hm (ptr' + 4, sizeofBinderUintptr) ?_).load32_eq le_rfl le_rfl).symm
    simp only [stepReads, hcode]
    rw [if_neg (by decide)]
    simp
  simp only [binderParseStep, ParseCall.over_mem, ParseCall.over_stop, ParseCall.over_death,
    hword]
  by_cases hnoop : load32 c.mem ptr' = brNoop ∨ load32 c.mem ptr' = brTransactionComplete
  · simp only [if_pos hnoop]
    rfl
  by_cases hrefs : load32 c.mem ptr' = brIncrefs ∨ load32 c.mem ptr' = brAcquire ∨
      load32 c.mem ptr' = brRelease ∨ load32 c.mem ptr' = brDecrefs
  · simp only [if_neg hnoop, if_pos hrefs]
    rfl
  by_cases hlooper : load32 c.mem ptr' = brSpawnLooper
  · simp only [if_neg hnoop, if_neg hrefs, if_pos hlooper]
    rfl
  by_cases htransaction : load32 c.mem ptr' = brTransaction
  · simp only [if_neg hnoop, if_neg hrefs, if_neg hlooper, if_pos htransaction]
    by_cases hroom : subUintptr c.stop (ptr' + 4) < sizeofBinderTransactionData
    · simp only [hroom, ↓reduceIte]
      rfl
    · simp only [if_neg hroom, htxn (.inl htransaction) hroom]
      obtain ⟨mem₀, stop, func, death, rdata⟩ := c
      cases func with
      | none => rfl
      | some func => rfl
  by_cases hreply : load32 c.mem ptr' = brReply
  · simp only [if_neg hnoop, if_neg hrefs, if_neg hlooper, if_neg htransaction, if_pos hreply]
    by_cases hroom : subUintptr c.stop (ptr' + 4) < sizeofBinderTransactionData
    · simp only [hroom, ↓reduceIte]
      rfl
    · simp only [if_neg hroom, htxn (.inr hreply) hroom]
      cases bio' with
      | false => rfl
      | true => rfl
  simp only [if_neg hnoop, if_neg hrefs, if_neg hlooper, if_neg htransaction, if_neg hreply]
  by_cases hdeath : load32 c.mem ptr' = brDeadBinder
  · simp only [if_pos hdeath, hcookie hdeath]
    rfl
  · simp only [if_neg hdeath]
    split_ifs
    · rfl
    · rfl

/-- Nor does the loop: with another input that has the same bytes where it reads, it ends up in the
same state, but for the memory the reply is in. -/
theorem binderParseLoop_over {c : ParseCall σ} {m : Mem} (turns : ℕ) {s t : ParseState σ}
    (hm : ∀ a ∈ parseReads c turns s, AgreeOn c.mem m a.1 (a.1 + a.2))
    (hst : t.over c.mem = s.over c.mem) :
    (binderParseLoop (c.over m) turns t).over c.mem =
      (binderParseLoop c turns s).over c.mem := by
  induction turns generalizing s t with
  | zero => exact hst
  | succ turns ih =>
    have hptr : t.ptr = s.ptr := (congrArg ParseState.ptr hst :)
    rw [binderParseLoop, binderParseLoop, hptr, ParseCall.over_stop]
    by_cases hlt : s.ptr < c.stop
    swap
    · rw [if_neg hlt, if_neg hlt]
      exact hst
    rw [if_pos hlt, if_pos hlt]
    rw [parseReads, if_pos hlt] at hm
    have hstep := binderParseStep_over (fun a ha => hm a (List.mem_append_left _ ha)) hst
    cases hs : binderParseStep c s with
    | next s' =>
      cases ht : binderParseStep (c.over m) t with
      | next t' =>
        rw [hs, ht] at hstep
        rw [hs] at hm
        exact ih (fun a ha => hm a (List.mem_append_right _ ha)) (Flow.next.inj hstep)
      | ret t' =>
        rw [hs, ht] at hstep
        cases hstep
    | ret s' =>
      cases ht : binderParseStep (c.over m) t with
      | next t' =>
        rw [hs, ht] at hstep
        cases hstep
      | ret t' =>
        rw [hs, ht] at hstep
        exact Flow.ret.inj hstep

/-- The input consists of the given bytes. -/
structure ParseInput.Is (i : ParseInput) (bs : List UInt8) : Prop where
  bytes : HoldsBytes i.mem i.ptr bs
  size : i.size = bs.length

/-- A command that is cut off in its word, or in the payload of a transaction, of a reply or of a
dead binder. -/
def Truncated (tail : List UInt8) : Prop :=
  0 < tail.length ∧ tail.length < 4 ∨ ∃ code rest, tail = bytes32 code ++ rest ∧
    ((code = brTransaction ∨ code = brReply) ∧ rest.length < sizeofBinderTransactionData ∨
      code = brDeadBinder ∧ rest.length < sizeofBinderUintptr)

/-- A command that is cut off where the parser does not look for it. -/
def Unchecked (tail : List UInt8) : Prop :=
  0 < tail.length ∧ tail.length < 4 ∨
    ∃ rest, tail = bytes32 brDeadBinder ++ rest ∧ rest.length < sizeofBinderUintptr

/-- The input ends in such a command. -/
def ParseInput.CutShort (i : ParseInput) : Prop :=
  ∃ cmds tail, i.Is (streamBytes cmds ++ tail) ∧ Unchecked tail

/-- The same, for what stands between a cursor and the end. -/
def CutFrom (m : Mem) (stop ptr : ℕ) : Prop :=
  ∃ cmds tail, HoldsBytes m ptr (streamBytes cmds ++ tail) ∧
    ptr + (streamBytes cmds ++ tail).length = stop ∧ Unchecked tail

/-- What can stand at a cursor in front of the end: a whole command; a word that is cut off; a
known word whose payload is cut off; or an unknown word. -/
inductive At (m : Mem) (stop ptr : ℕ) : Prop
  | whole (cmd : BinderReturn) (holds : HoldsBytes m ptr cmd.bytes)
      (room : ptr + cmd.bytes.length ≤ stop)
  | word (short : stop < ptr + 4)
  | txn (room : ptr + 4 ≤ stop) (code : load32 m ptr = brTransaction ∨ load32 m ptr = brReply)
      (short : stop < ptr + 4 + sizeofBinderTransactionData)
  | refs (room : ptr + 4 ≤ stop) (code : load32 m ptr = brIncrefs ∨ load32 m ptr = brAcquire ∨
      load32 m ptr = brRelease ∨ load32 m ptr = brDecrefs)
      (short : stop < ptr + 4 + sizeofBinderPtrCookie)
  | death (room : ptr + 4 ≤ stop) (code : load32 m ptr = brDeadBinder)
      (short : stop < ptr + 4 + sizeofBinderUintptr)
  | unknown (room : ptr + 4 ≤ stop) (code : load32 m ptr ∉ knownReturns)

lemma holdsBytes_txn (m : Mem) (a : ℕ) : HoldsBytes m a (BinderTransactionData.load m a).bytes := by
  simp only [BinderTransactionData.bytes, BinderTransactionData.load, holdsBytes_append,
    List.length_append, bytes32_length, Nat.reduceAdd]
  simp only [holdsBytes_load32, and_self]

/-- A word whose payload is there as well is a whole command. -/
lemma at_of_word {m : Mem} {stop ptr n : ℕ} {code : UInt32} (cmd : BinderReturn)
    (payload : List UInt8) (hcode : load32 m ptr = code)
    (hcmd : cmd.bytes = bytes32 code ++ payload) (hlen : payload.length = n)
    (hpayload : HoldsBytes m (ptr + 4) payload) (hroom : ptr + 4 + n ≤ stop) : At m stop ptr := by
  have hword := holdsBytes_load32 m ptr
  rw [hcode] at hword
  refine .whole cmd ?_ ?_
  · rw [hcmd, holdsBytes_append]
    exact ⟨hword, hpayload⟩
  · rw [hcmd, List.length_append, bytes32_length, hlen]
    omega

theorem at_cases (m : Mem) (stop ptr : ℕ) : At m stop ptr := by
  by_cases hword : ptr + 4 ≤ stop
  swap
  · exact .word (by omega)
  have hpair (a : ℕ) : HoldsBytes m a (bytes32 (load32 m a) ++ bytes32 (load32 m (a + 4))) := by
    rw [holdsBytes_append]
    exact ⟨holdsBytes_load32 m a, holdsBytes_load32 m (a + 4)⟩
  have hnil : HoldsBytes m (ptr + 4) [] := rfl
  have hplain {code : UInt32} (hcode : load32 m ptr = code) (cmd : BinderReturn)
      (hcmd : cmd.bytes = bytes32 code ++ []) : At m stop ptr :=
    at_of_word cmd [] hcode hcmd rfl hnil (by omega)
  by_cases hknown : load32 m ptr ∈ knownReturns
  swap
  · exact .unknown hword hknown
  simp only [knownReturns, List.mem_cons, List.not_mem_nil, or_false] at hknown
  rcases hknown with h | h | h | h | h | h | h | h | h | h | h | h
  · exact hplain h .noop rfl
  · exact hplain h .transactionComplete rfl
  · by_cases hroom : ptr + 4 + sizeofBinderPtrCookie ≤ stop
    · exact at_of_word (.increfs _ _) _ h rfl rfl (hpair _) hroom
    · exact .refs hword (by simp [h]) (by omega)
  · by_cases hroom : ptr + 4 + sizeofBinderPtrCookie ≤ stop
    · exact at_of_word (.acquire _ _) _ h rfl rfl (hpair _) hroom
    · exact .refs hword (by simp [h]) (by omega)
  · by_cases hroom : ptr + 4 + sizeofBinderPtrCookie ≤ stop
    · exact at_of_word (.release _ _) _ h rfl rfl (hpair _) hroom
    · exact .refs hword (by simp [h]) (by omega)
  · by_cases hroom : ptr + 4 + sizeofBinderPtrCookie ≤ stop
    · exact at_of_word (.decrefs _ _) _ h rfl rfl (hpair _) hroom
    · exact .refs hword (by simp [h]) (by omega)
  · exact hplain h .spawnLooper rfl
  · by_cases hroom : ptr + 4 + sizeofBinderTransactionData ≤ stop
    · exact at_of_word (.transaction _) _ h rfl rfl (holdsBytes_txn m _) hroom
    · exact .txn hword (.inl h) (by omega)
  · by_cases hroom : ptr + 4 + sizeofBinderTransactionData ≤ stop
    · exact at_of_word (.reply _) _ h rfl rfl (holdsBytes_txn m _) hroom
    · exact .txn hword (.inr h) (by omega)
  · by_cases hroom : ptr + 4 + sizeofBinderUintptr ≤ stop
    · exact at_of_word (.deadBinder _) _ h rfl rfl (holdsBytes_load32 m _) hroom
    · exact .death hword h (by omega)
  · exact hplain h .failedReply rfl
  · exact hplain h .deadReply rfl

lemma ParseInput.cutShort_iff (i : ParseInput) :
    i.CutShort ↔ CutFrom i.mem (i.ptr + i.size) i.ptr := by
  constructor
  · rintro ⟨cmds, tail, his, htail⟩
    exact ⟨cmds, tail, his.bytes, by rw [his.size], htail⟩
  · rintro ⟨cmds, tail, hbytes, hend, htail⟩
    exact ⟨cmds, tail, ⟨hbytes, by omega⟩, htail⟩

lemma CutFrom.cons {m : Mem} {stop ptr : ℕ} {cmd : BinderReturn} (h : HoldsBytes m ptr cmd.bytes)
    (hcut : CutFrom m stop (ptr + cmd.bytes.length)) : CutFrom m stop ptr := by
  obtain ⟨cmds, tail, hbytes, hend, htail⟩ := hcut
  have hcons : streamBytes (cmd :: cmds) ++ tail = cmd.bytes ++ (streamBytes cmds ++ tail) := by
    simp [streamBytes]
  refine ⟨cmd :: cmds, tail, ?_, ?_, htail⟩
  · rw [hcons, holdsBytes_append]
    exact ⟨h, hbytes⟩
  · rw [hcons, List.length_append]
    omega

lemma holdsBytes_read (m : Mem) (a n : ℕ) : HoldsBytes m a (ByteMemory.read m a n) := by
  rw [HoldsBytes, read_length]

/-- A word that is cut off. -/
lemma cutFrom_word (m : Mem) {stop ptr : ℕ} (hlt : ptr < stop) (hshort : stop < ptr + 4) :
    CutFrom m stop ptr := by
  refine ⟨[], ByteMemory.read m ptr (stop - ptr), holdsBytes_read m ptr _, ?_, .inl ?_⟩
  · simp only [streamBytes, List.flatMap_nil, List.nil_append, read_length]
    omega
  · rw [read_length]
    omega

/-- A dead binder whose cookie is cut off. -/
lemma cutFrom_death {m : Mem} {stop ptr : ℕ} (hroom : ptr + 4 ≤ stop)
    (hcode : load32 m ptr = brDeadBinder) (hshort : stop < ptr + 4 + sizeofBinderUintptr) :
    CutFrom m stop ptr := by
  have hword := holdsBytes_load32 m ptr
  rw [hcode] at hword
  refine ⟨[], bytes32 brDeadBinder ++ ByteMemory.read m (ptr + 4) (stop - (ptr + 4)), ?_, ?_,
    .inr ⟨_, rfl, ?_⟩⟩
  · change HoldsBytes m ptr (bytes32 brDeadBinder ++ _)
    rw [holdsBytes_append]
    exact ⟨hword, holdsBytes_read m _ _⟩
  · simp only [streamBytes, List.flatMap_nil, List.nil_append, List.length_append, bytes32_length,
      read_length]
    omega
  · rw [read_length]
    omega

lemma binderParseStep_txn {c : ParseCall σ} {s : ParseState σ} (hroom : s.ptr + 4 ≤ c.stop)
    (hcode : load32 c.mem s.ptr = brTransaction ∨ load32 c.mem s.ptr = brReply)
    (hshort : c.stop < s.ptr + 4 + sizeofBinderTransactionData) (hstop : c.stop < 2^32) :
    binderParseStep c s = .ret { s with ptr := s.ptr + 4, r := -1 } := by
  have hsmall : subUintptr c.stop (s.ptr + 4) < sizeofBinderTransactionData := by
    rw [subUintptr_of_le hroom hstop]
    omega
  rcases hcode with h | h
  · simp only [binderParseStep, h]
    rw [if_neg (by decide), if_neg (by decide), if_neg (by decide), if_pos trivial,
      if_pos hsmall]
  · simp only [binderParseStep, h]
    rw [if_neg (by decide), if_neg (by decide), if_neg (by decide), if_neg (by decide),
      if_pos trivial, if_pos hsmall]

lemma binderParseStep_refs {c : ParseCall σ} {s : ParseState σ}
    (hcode : load32 c.mem s.ptr = brIncrefs ∨ load32 c.mem s.ptr = brAcquire ∨
      load32 c.mem s.ptr = brRelease ∨ load32 c.mem s.ptr = brDecrefs) :
    binderParseStep c s = .next { s with ptr := s.ptr + 4 + sizeofBinderPtrCookie } := by
  have hne : ¬ (load32 c.mem s.ptr = brNoop ∨ load32 c.mem s.ptr = brTransactionComplete) := by
    rcases hcode with h | h | h | h
    · rw [h]
      decide
    · rw [h]
      decide
    · rw [h]
      decide
    · rw [h]
      decide
  simp only [binderParseStep]
  rw [if_neg hne, if_pos hcode]

lemma parseReads_stop {c : ParseCall σ} {s : ParseState σ} (h : c.stop ≤ s.ptr) (turns : ℕ) :
    parseReads c turns s = [] := by
  cases turns with
  | zero => rfl
  | succ turns => rw [parseReads, if_neg (Nat.not_lt.mpr h)]

/-- A turn at a word that is there, and at a cookie that is there, reads inside the input. -/
lemma stepReads_inside {c : ParseCall σ} {ptr : ℕ} (hroom : ptr + 4 ≤ c.stop)
    (hdeath : load32 c.mem ptr = brDeadBinder → ptr + 4 + sizeofBinderUintptr ≤ c.stop)
    (hstop : c.stop < 2^32) : ∀ a ∈ stepReads c ptr, ptr ≤ a.1 ∧ a.1 + a.2 ≤ c.stop := by
  intro a ha
  rcases List.mem_cons.mp ha with rfl | ha
  · exact ⟨le_rfl, hroom⟩
  · rw [subUintptr_of_le hroom hstop] at ha
    split_ifs at ha with _ hsmall hcode
    · simp at ha
    · rw [List.mem_singleton.mp ha]
      exact ⟨Nat.le_add_right _ _, by dsimp only; omega⟩
    · rw [List.mem_singleton.mp ha]
      exact ⟨Nat.le_add_right _ _, hdeath hcode⟩
    · simp at ha

/-- As long as nothing is cut off unchecked, the loop reads inside the input. Induction over the
turns: a whole command leaves the same situation behind it, a checked one ends the loop, and a
skipped one leaves no input. -/
theorem parseReads_inside {c : ParseCall σ} (hstop : c.stop < 2^32) (turns : ℕ) (s : ParseState σ)
    (hcut : ¬ CutFrom c.mem c.stop s.ptr) :
    ∀ a ∈ parseReads c turns s, s.ptr ≤ a.1 ∧ a.1 + a.2 ≤ c.stop := by
  induction turns generalizing s with
  | zero => simp [parseReads]
  | succ turns ih =>
    by_cases hlt : s.ptr < c.stop
    swap
    · simp [parseReads_stop (Nat.le_of_not_lt hlt)]
    have hroom : s.ptr + 4 ≤ c.stop := by
      by_contra hn
      exact hcut (cutFrom_word c.mem hlt (by omega))
    have hdeath (hcode : load32 c.mem s.ptr = brDeadBinder) :
        s.ptr + 4 + sizeofBinderUintptr ≤ c.stop := by
      by_contra hn
      exact hcut (cutFrom_death hroom hcode (by omega))
    have hnow := stepReads_inside hroom hdeath hstop
    have hlast {s' : ParseState σ} (h : binderParseStep c s = .ret s') :
        ∀ a ∈ parseReads c (turns + 1) s, s.ptr ≤ a.1 ∧ a.1 + a.2 ≤ c.stop := by
      rw [parseReads, if_pos hlt, h, List.append_nil]
      exact hnow
    have hnext {s' : ParseState σ} (h : binderParseStep c s = .next s')
        (hrest : ∀ a ∈ parseReads c turns s', s.ptr ≤ a.1 ∧ a.1 + a.2 ≤ c.stop) :
        ∀ a ∈ parseReads c (turns + 1) s, s.ptr ≤ a.1 ∧ a.1 + a.2 ≤ c.stop := by
      rw [parseReads, if_pos hlt, h]
      intro a ha
      rcases List.mem_append.mp ha with ha | ha
      · exact hnow a ha
      · exact hrest a ha
    cases at_cases c.mem c.stop s.ptr with
    | whole cmd holds room =>
      refine hnext (binderParseStep_holds holds room hstop) fun a ha => ?_
      have hrest : ¬ CutFrom c.mem c.stop (cmd.exec c s).ptr := by
        rw [BinderReturn.exec_ptr]
        exact fun h => hcut (h.cons holds)
      have htail := ih (cmd.exec c s) hrest a ha
      rw [BinderReturn.exec_ptr] at htail
      omega
    | word short => omega
    | txn room code short => exact hlast (binderParseStep_txn room code short hstop)
    | refs room code short =>
      refine hnext (binderParseStep_refs code) ?_
      rw [parseReads_stop (Nat.le_of_lt short)]
      simp
    | death room code short => exact absurd (hdeath code) (Nat.not_le.mpr short)
    | unknown room code => exact hlast (binderParseStep_unknown code)

/-- And if something is, the loop gets there and reads behind the end. -/
theorem parseReads_cut {c : ParseCall σ} (hstop : c.stop < 2^32) (s : ParseState σ) (turns : ℕ)
    (hturns : c.stop ≤ s.ptr + turns) (hcut : CutFrom c.mem c.stop s.ptr) :
    ∃ a ∈ parseReads c turns s, c.stop < a.1 + a.2 := by
  obtain ⟨cmds, tail, hbytes, hend, htail⟩ := hcut
  induction cmds generalizing s turns with
  | nil =>
    simp only [streamBytes, List.flatMap_nil, List.nil_append] at hbytes hend
    rcases htail with ⟨hpos, hshort⟩ | ⟨rest, rfl, hshort⟩
    · obtain ⟨turns, rfl⟩ := Nat.exists_eq_succ_of_ne_zero (n := turns) (by omega)
      refine ⟨(s.ptr, 4), ?_, by dsimp only; omega⟩
      rw [parseReads, if_pos (by omega)]
      exact List.mem_append_left _ List.mem_cons_self
    · rw [List.length_append, bytes32_length] at hend
      have hcode := (holdsBytes_append.mp hbytes).1.load32_eq
      obtain ⟨turns, rfl⟩ := Nat.exists_eq_succ_of_ne_zero (n := turns) (by omega)
      refine ⟨(s.ptr + 4, sizeofBinderUintptr), ?_, by dsimp only; omega⟩
      rw [parseReads, if_pos (by omega)]
      apply List.mem_append_left
      apply List.mem_cons_of_mem
      rw [hcode, if_neg (by decide), if_pos rfl]
      exact List.mem_singleton_self _
  | cons cmd cmds ih =>
    have hcons : streamBytes (cmd :: cmds) ++ tail = cmd.bytes ++ (streamBytes cmds ++ tail) := by
      simp [streamBytes]
    rw [hcons, holdsBytes_append] at hbytes
    rw [hcons, List.length_append] at hend
    have hpos := cmd.bytes_length_pos
    obtain ⟨turns, rfl⟩ := Nat.exists_eq_succ_of_ne_zero (n := turns) (by omega)
    obtain ⟨a, ha, hout⟩ := ih (cmd.exec c s) turns (by rw [BinderReturn.exec_ptr]; omega)
      (by rw [BinderReturn.exec_ptr]; exact hbytes.2) (by rw [BinderReturn.exec_ptr]; omega)
    refine ⟨a, ?_, hout⟩
    rw [parseReads, if_pos (by omega), binderParseStep_holds hbytes.1 (by omega) hstop]
    exact List.mem_append_right _ ha

lemma binderParseStep_next {c : ParseCall σ} {s s' : ParseState σ}
    (h : binderParseStep c s = .next s') : s.ptr + 4 ≤ s'.ptr := by
  simp only [binderParseStep] at h
  split_ifs at h <;> cases h
  all_goals
    dsimp only
    omega

/-- Every turn moves the cursor, so that there are no more turns than there are bytes. -/
theorem binderParseLoop_ends {c : ParseCall σ} (turns : ℕ) (s : ParseState σ)
    (hturns : c.stop ≤ s.ptr + turns) (more : ℕ) :
    binderParseLoop c (turns + more) s = binderParseLoop c turns s := by
  induction turns generalizing s with
  | zero =>
    have hn : ¬ s.ptr < c.stop := by omega
    rw [binderParseLoop_stop hn, binderParseLoop_stop hn]
  | succ turns ih =>
    rw [Nat.add_right_comm, binderParseLoop, binderParseLoop]
    split_ifs with hlt
    · cases hstep : binderParseStep c s with
      | next s' =>
        have hptr := binderParseStep_next hstep
        exact ih s' (by omega)
      | ret s' => rfl
    · rfl

/-- What the parser is expected to do with its input. It reads nothing outside; it comes to an
end; and a command that is cut off in its word or in one of the three payloads is refused, with
nothing done but what the commands in front of it say. -/
structure ParsesInside (i : ParseInput) (func : Option (BinderHandler σ))
    (death : UInt32 → World σ → World σ) (bio : Option Parcel) (w : World σ) : Prop where
  reads : ∀ a ∈ parseReads (i.call func death) i.size (i.entry bio w),
    i.ptr ≤ a.1 ∧ a.1 + a.2 ≤ i.ptr + i.size
  ends : ∀ more, binderParseLoop (i.call func death) (i.size + more) (i.entry bio w) =
    binderParse i func death bio w
  refuses : ∀ cmds tail, i.Is (streamBytes cmds ++ tail) → Truncated tail →
    let s := cmds.foldl (BinderReturn.exec (i.call func death)) (i.entry bio w)
    (binderParse i func death bio w).r = -1 ∧ (binderParse i func death bio w).world = s.world ∧
      (binderParse i func death bio w).reply = s.reply

/-- A transaction or a reply that is cut off is refused. -/
lemma binderParse_refuses {i : ParseInput} {cmds : List BinderReturn} {code : UInt32}
    {rest : List UInt8} (h : i.Is (streamBytes cmds ++ (bytes32 code ++ rest)))
    (hcode : code = brTransaction ∨ code = brReply)
    (hshort : rest.length < sizeofBinderTransactionData) (hfits : i.ptr + i.size < 2^32)
    (func : Option (BinderHandler σ)) (death : UInt32 → World σ → World σ) (bio : Option Parcel)
    (w : World σ) :
    let s := cmds.foldl (BinderReturn.exec (i.call func death)) (i.entry bio w)
    binderParse i func death bio w = { s with ptr := s.ptr + 4, r := -1 } := by
  intro s
  obtain ⟨hbytes, hsize⟩ := h
  rw [holdsBytes_append, holdsBytes_append] at hbytes
  rw [List.length_append, List.length_append, bytes32_length] at hsize
  have hlen := length_le_streamBytes cmds
  have hptr : s.ptr = i.ptr + (streamBytes cmds).length := foldl_exec_ptr _ _ cmds
  have hword : load32 (i.call func death).mem s.ptr = code := by
    rw [hptr]
    exact hbytes.2.1.load32_eq
  have hstop : (i.call func death).stop = i.ptr + i.size := rfl
  obtain ⟨turns, hturns⟩ := Nat.exists_eq_add_of_le (show cmds.length + 1 ≤ i.size by omega)
  have hloop : binderParse i func death bio w =
      binderParseLoop (i.call func death) (turns + 1) s := by
    have hpre := binderParseLoop_prefix (c := i.call func death) (s := i.entry bio w)
      hbytes.1 (by rw [hstop]; simp only [ParseInput.entry]; omega) (by rw [hstop]; omega)
      (turns + 1)
    rw [binderParse, hturns, ← hpre]
    congr 1
    omega
  rw [hloop, binderParseLoop, if_pos (by omega), binderParseStep_txn (by omega) (by rwa [hword])
    (by omega) (by omega)]

/-- When the parser keeps to its input, whatever its handler, its caller's reply and the death
callbacks, for every input that is not at the very end of the address space: exactly if the
input does not end in a part of a command word, or in a dead binder without its cookie. -/
theorem binderParse_inside_iff (i : ParseInput)
    (hfits : i.ptr + i.size + 4 + sizeofBinderPtrCookie ≤ 2^32)
    (func : Option (BinderHandler σ)) (death : UInt32 → World σ → World σ) (bio : Option Parcel)
    (w : World σ) : ParsesInside i func death bio w ↔ ¬ i.CutShort := by
  have hstop : (i.call func death).stop < 2^32 := by
    change i.ptr + i.size < 2^32
    omega
  constructor
  · intro h hshort
    obtain ⟨a, ha, hout⟩ := parseReads_cut hstop (i.entry bio w) i.size le_rfl
      (i.cutShort_iff.mp hshort)
    exact absurd (h.reads a ha).2 (Nat.not_le.mpr hout)
  · intro hshort
    refine ⟨?_, binderParseLoop_ends _ _ le_rfl, fun cmds tail his htail => ?_⟩
    · exact parseReads_inside hstop i.size (i.entry bio w) fun h =>
        hshort (i.cutShort_iff.mpr h)
    · -- of the commands that are cut off, only the checked ones are left
      rcases htail with htail | ⟨code, rest, rfl, hcode | ⟨rfl, hrest⟩⟩
      · exact absurd ⟨cmds, tail, his, .inl htail⟩ hshort
      · rw [binderParse_refuses his hcode.1 hcode.2 (by omega)]
        exact ⟨rfl, rfl, rfl⟩
      · exact absurd ⟨cmds, _, his, .inr ⟨rest, rfl, hrest⟩⟩ hshort

/-- What the parser does with an input that is not cut short depends on nothing but its bytes. -/
theorem binderParse_over {i : ParseInput} (hfits : i.ptr + i.size < 2^32) (hcut : ¬ i.CutShort)
    (func : Option (BinderHandler σ)) (death : UInt32 → World σ → World σ) (bio : Option Parcel)
    (w : World σ) {m : Mem} (hm : AgreeOn i.mem m i.ptr (i.ptr + i.size)) :
    (binderParseLoop ((i.call func death).over m) i.size (i.entry bio w)).over i.mem =
      (binderParse i func death bio w).over i.mem := by
  refine binderParseLoop_over i.size (fun a ha => ?_) rfl
  obtain ⟨hlo, hhi⟩ := parseReads_inside (c := i.call func death) hfits i.size (i.entry bio w)
    (fun h => hcut (i.cutShort_iff.mpr h)) a ha
  exact hm.mono hlo hhi

/-- A dead binder at the very end of the input: the cookie is read from what stands behind it, and
the callback is made. -/
def cutDeath : ParseInput :=
  ⟨write (fun _ => 0) 8192 (bytes32 brDeadBinder ++ bytes32 7), 8192, 4, fun _ _ => 0⟩

theorem binderParse_reads_behind :
    let s := binderParse cutDeath none (fun cookie w => ⟨w.app ++ [cookie], w.trace⟩) none
      (⟨[], []⟩ : World (List UInt32))
    s.r = 1 ∧ s.world.app = [7] ∧
      ¬ ParsesInside cutDeath none (fun cookie w => ⟨w.app ++ [cookie], w.trace⟩) none
        (⟨[], []⟩ : World (List UInt32)) := by
  refine ⟨by decide, by decide, fun h => ?_⟩
  have hread := h.reads (8196, 4) (by decide)
  exact absurd hread.2 (by decide)

/-- A transaction that is cut off behind its word. -/
def cutTxn : ParseInput := ⟨write (fun _ => 0) 8192 (bytes32 brTransaction), 8192, 4, fun _ _ => 0⟩

theorem binderParse_inside_txn :
    ParsesInside cutTxn none (fun _ w => w) none (⟨(), []⟩ : World Unit) := by
  refine (binderParse_inside_iff cutTxn (by decide) none (fun _ w => w) none _).mpr fun h => ?_
  -- a cut that goes unchecked would show in the reads
  have hreads : parseReads (cutTxn.call none fun _ w => w) 4
      (cutTxn.entry none (⟨(), []⟩ : World Unit)) = [(8192, 4)] := by decide
  obtain ⟨a, ha, hout⟩ := parseReads_cut (c := cutTxn.call none fun _ w => w) (by decide)
    (cutTxn.entry none (⟨(), []⟩ : World Unit)) 4 le_rfl (cutTxn.cutShort_iff.mp h)
  rw [hreads] at ha
  rw [List.mem_singleton.mp ha] at hout
  exact absurd hout (by decide)

end LinuxLabs.Binder
