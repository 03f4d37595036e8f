import LinuxLabs.BinderIoRoundtrip
import LinuxLabs.BinderCallContract

/-! What fits into a buffer. The sizes of a put are stated here once more in plain arithmetic, and
the overflow flag is compared with their sum; `binder_call` looks at the flag alone. -/
namespace LinuxLabs.Binder
open ByteMemory

variable {σ : Type}

/-- The sizes a string of `len` characters asks for: its length word, and its units with a
terminator if the length is below the guard. -/
def stringSizes (len : ℕ) : List ℕ := if maxBioSize / 2 ≤ len then [4] else [4, (len + 1) * 2]

/-- The sizes a put asks `bio_alloc` for, in order, as exact numbers. -/
def Put.sizes : Put → List ℕ
  | .uint32 _ => [4]
  | .string16 none => [4]
  | .string16 (some str) => stringSizes (strlen str)
  | .string16X none => [4]
  | .string16X (some str) => stringSizes (strlen str)
  | .ref _ => [sizeofFlatBinderObject]
  | .obj _ => [sizeofFlatBinderObject]

/-- The next multiple of four. -/
def round4 (n : ℕ) : ℕ := (n + 3) / 4 * 4

/-- The rounded sizes of all values. -/
def encodedSize (vs : List Put) : ℕ := ((vs.flatMap Put.sizes).map round4).sum

lemma stringSizes_lt {len n : ℕ} (h : n ∈ stringSizes len) : n + 3 < 2^32 := by
  unfold stringSizes at h
  split_ifs at h with hl
  · rw [List.mem_singleton.mp h]
    norm_num
  · have hlt : len < 2^29 := Nat.lt_of_not_le hl
    rcases List.mem_cons.mp h with rfl | h
    · norm_num
    · rw [List.mem_singleton.mp h]
      omega

/-- No size of a put wraps, neither by itself nor while it is rounded. -/
theorem Put.sizes_lt (v : Put) : ∀ n ∈ v.sizes, n + 3 < 2^32 := by
  have hword : ∀ n ∈ [4], n + 3 < 2^32 := by simp
  have hobj : ∀ n ∈ [sizeofFlatBinderObject], n + 3 < 2^32 := by simp [sizeofFlatBinderObject]
  cases v with
  | uint32 n => exact hword
  | string16 str =>
    cases str with
    | none => exact hword
    | some str => exact fun n hn => stringSizes_lt hn
  | string16X str =>
    cases str with
    | none => exact hword
    | some str => exact fun n hn => stringSizes_lt hn
  | ref handle => exact hobj
  | obj ptr => exact hobj

lemma stringSize_eq (len : ℕ) : stringSize len = ((stringSizes len).map round4).sum := by
  unfold stringSize stringSizes
  split_ifs with hl
  · rfl
  · have hlt : len < 2^29 := Nat.lt_of_not_le hl
    rw [align4_of_lt (by omega)]
    simp [round4, Nat.mul_comm]

lemma Put.size_eq (v : Put) : v.size = (v.sizes.map round4).sum := by
  cases v with
  | uint32 n => rfl
  | string16 str =>
    cases str with
    | none => rfl
    | some str => exact stringSize_eq _
  | string16X str =>
    cases str with
    | none => rfl
    | some str => exact stringSize_eq _
  | ref handle => rfl
  | obj ptr => rfl

lemma putsSize_eq (vs : List Put) : putsSize vs = encodedSize vs := by
  induction vs with
  | nil => rfl
  | cons v vs ih =>
    simp only [putsSize, encodedSize, List.map_cons, List.sum_cons, List.flatMap_cons,
      List.map_append, List.sum_append] at ih ⊢
    rw [ih, v.size_eq]

/-- The flag is clear behind a sequence of puts exactly if they all fit. -/
theorem putAll_clear_iff (p : Parcel) {base maxdata maxoffs : ℕ}
    (hoffs : maxoffs * sizeofSizeT < 2^32) (vs : List Put) :
    ¬ (putAll (bioInit p base maxdata maxoffs) vs).io.Overflowed ↔
      maxoffs * sizeofSizeT ≤ maxdata ∧ encodedSize vs ≤ maxdata - maxoffs * sizeofSizeT ∧
        putsObjs vs ≤ maxoffs := by
  rw [← putsSize_eq]
  constructor
  · intro h
    have hn := bioInit_clear hoffs (putAll_clear h)
    have hroom := (putAll_io h).1
    rw [bioInit_fits p base maxdata maxoffs hoffs hn] at hroom
    exact ⟨hn, hroom.1, hroom.2⟩
  · rintro ⟨hn, hsize, hobjs⟩
    have hinit := bioInit_fits p base maxdata maxoffs hoffs hn
    apply putAll_room
    · rw [hinit]
      simp only [BinderIo.Overflowed]
      decide
    · rw [hinit]
      exact ⟨hsize, hobjs⟩

/-- The flag, once raised, stays. -/
lemma putAll_sticky {p : Parcel} {vs : List Put} {k : ℕ}
    (h : (putAll p (vs.take k)).io.Overflowed) : (putAll p vs).io.Overflowed := by
  by_contra hclear
  have hsplit : putAll p vs = putAll (putAll p (vs.take k)) (vs.drop k) := by
    conv_lhs => rw [← List.take_append_drop k vs]
    exact List.foldl_append
  rw [hsplit] at hclear
  exact putAll_clear hclear h

/-- Whatever a call submits is its own transaction, over and over if the driver does not consume
it, and it submits it with the first ioctl that takes the write buffer. -/
lemma binderCallTurns_replicate (death : UInt32 → World σ → World σ) (txn : OutgoingTxn)
    (ioctls : List Ioctl) (s : CallState σ) :
    ∃ n, (binderCallTurns death txn ioctls s).2.submitted =
      s.submitted ++ List.replicate n txn := by
  have hsubmit (s : CallState σ) (wrote : Bool) :
      ∃ n, (s.submit txn wrote).submitted = s.submitted ++ List.replicate n txn := by
    unfold CallState.submit
    split_ifs
    · exact ⟨1, rfl⟩
    · exact ⟨0, (List.append_nil _).symm⟩
  induction ioctls generalizing s with
  | nil => exact ⟨0, (List.append_nil _).symm⟩
  | cons o ioctls ih =>
    cases o with
    | failed wrote => exact hsubmit s wrote
    | done consumed input cmds carries =>
      obtain ⟨n, hn⟩ := hsubmit s true
      simp only [binderCallTurns]
      split_ifs
      · exact ⟨n, hn⟩
      · exact ⟨n, hn⟩
      · obtain ⟨k, hk⟩ := ih { s.submit txn true with
          bwr := { (s.submit txn true).bwr with writeConsumed := consumed }
          reply := _
          world := _ }
        refine ⟨n + k, hk.trans ?_⟩
        rw [hn, List.append_assoc, List.replicate_append_replicate]

/-- The first turn that reaches the driver submits, and nothing takes that back. -/
lemma binderCallTurns_ne_nil (death : UInt32 → World σ → World σ) (txn : OutgoingTxn) {o : Ioctl}
    (ho : o.wrote = true) (ioctls : List Ioctl) {s : CallState σ}
    (hs : s.bwr.writeConsumed < s.bwr.writeSize) :
    (binderCallTurns death txn (o :: ioctls) s).2.submitted ≠ [] := by
  have hsubmit : (s.submit txn true).submitted = s.submitted ++ [txn] := by
    rw [CallState.submit, if_pos ⟨rfl, hs⟩]
  cases o with
  | failed wrote =>
    have hw : wrote = true := ho
    subst hw
    simp only [binderCallTurns, CallState.fail, hsubmit]
    simp
  | done consumed input cmds carries =>
    simp only [binderCallTurns]
    split_ifs
    · simp [hsubmit]
    · simp [CallState.fail, hsubmit]
    · obtain ⟨n, hn⟩ := binderCallTurns_replicate death txn ioctls { s.submit txn true with
        bwr := { (s.submit txn true).bwr with writeConsumed := consumed }, reply := _, world := _ }
      rw [hn, hsubmit]
      simp

/-- The sizes of the transaction that carries a buffer filled without overflow. -/
lemma putAll_outgoing (p : Parcel) {base maxdata maxoffs : ℕ} {vs : List Put}
    (hoffs : maxoffs * sizeofSizeT < 2^32)
    (h : ¬ (putAll (bioInit p base maxdata maxoffs) vs).io.Overflowed)
    (target code flags : UInt32) :
    let txn := (putAll (bioInit p base maxdata maxoffs) vs).outgoing target code flags
    txn.data.length = encodedSize vs ∧ txn.offsets.length = putsObjs vs := by
  have hn := bioInit_clear hoffs (putAll_clear h)
  have hio := (putAll_io h).2
  rw [bioInit_fits p base maxdata maxoffs hoffs hn] at hio ⊢
  simp only [Parcel.outgoing, ByteMemory.read_length, words_length, hio, BinderIo.advance,
    ← putsSize_eq]
  omega

/-- Overflow, for every buffer and every sequence of puts. The flag is clear at the end exactly
if the table fits the buffer, the rounded sizes fit the rest of it, and the objects fit the
table; a flag once raised stays raised; no size wraps on its way to the allocator. And a call
hands the message to the driver exactly if the flag is clear, as many bytes of data and as many
entries of the table as the values have. -/
theorem overflow_exact (p : Parcel) (base maxdata maxoffs : ℕ) (vs : List Put)
    (hoffs : maxoffs * sizeofSizeT < 2^32) :
    let msg := putAll (bioInit p base maxdata maxoffs) vs
    (¬ msg.io.Overflowed ↔
      maxoffs * sizeofSizeT ≤ maxdata ∧ encodedSize vs ≤ maxdata - maxoffs * sizeofSizeT ∧
        putsObjs vs ≤ maxoffs) ∧
    (∀ k, (putAll (bioInit p base maxdata maxoffs) (vs.take k)).io.Overflowed →
      msg.io.Overflowed) ∧
    (∀ v ∈ vs, ∀ n ∈ v.sizes, wrap n = n ∧ align4 n = round4 n) ∧
    ∀ (reply : Parcel) (target code : UInt32) (death : UInt32 → World σ → World σ)
      (o : Ioctl) (ioctls : List Ioctl) (w : World σ),
      let out := binderCallIo msg reply target code death (o :: ioctls) w
      (msg.io.Overflowed → out.2.submitted = []) ∧
      (o.wrote = true → ¬ msg.io.Overflowed → out.2.submitted ≠ []) ∧
      ∀ txn ∈ out.2.submitted,
        txn.data.length = encodedSize vs ∧ 4 * txn.offsets.length = 4 * putsObjs vs := by
  intro msg
  refine ⟨putAll_clear_iff p hoffs vs, fun k => putAll_sticky, ?_, ?_⟩
  · intro v _ n hn
    have hlt := v.sizes_lt n hn
    exact ⟨wrap_of_lt (by omega), align4_of_lt hlt⟩
  · intro reply target code death o ioctls w out
    by_cases hov : msg.io.Overflowed
    · have hout : out = _ := if_pos hov
      rw [hout]
      exact ⟨fun _ => rfl, fun _ h => absurd hov h, by simp [CallState.fail]⟩
    · have hout : out = _ := if_neg hov
      rw [hout]
      refine ⟨fun h => absurd h hov, fun ho _ => ?_, fun txn htxn => ?_⟩
      · exact binderCallTurns_ne_nil death _ ho ioctls (by decide : 0 < sizeofWritebuf)
      · obtain ⟨n, hn⟩ := binderCallTurns_replicate death (msg.outgoing target code 0) (o :: ioctls)
          ⟨⟨sizeofWritebuf, 0⟩, reply, w, []⟩
        rw [hn, List.nil_append] at htxn
        obtain ⟨hdata, htable⟩ := putAll_outgoing p hoffs hov target code 0
        rw [List.eq_of_mem_replicate htxn]
        exact ⟨hdata, congrArg (4 * ·) htable⟩

/-- A word and a reference take twenty bytes of a stub's buffer and one entry of its table. -/
theorem overflow_exact_stub :
    ¬ (putAll (bioInit ⟨fun _ => 0, BinderIo.uninit⟩ 0x1000 512 4)
        [.uint32 7, .ref 5]).io.Overflowed :=
  ((overflow_exact (σ := Unit) ⟨fun _ => 0, BinderIo.uninit⟩ 0x1000 512 4 [.uint32 7, .ref 5]
    (by decide)).1).mpr (by decide)

end LinuxLabs.Binder
