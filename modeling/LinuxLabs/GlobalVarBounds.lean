import LinuxLabs.GlobalVar

/-! The limits of the device. The indices only grow, so the bytes of all writes count, read or
not, when a write looks for its place in the buffer; and a read hands out what there is, however
much it was asked for. -/
namespace LinuxLabs.GlobalVar
open EventRun

variable {P : Type} [DecidableEq P]

/-- The number of bytes that the `copy_from_user` of this event stores. -/
def copyIn (s : State P) (e : Event P) : ℕ :=
  match s.pc e.who, e.action with
  | .writing buf, .writeLocked none => buf.length
  | .writing buf, .writeLocked (some junk) => (junk.take buf.length).length
  | _, _ => 0

/-- The part of `global_var` that the copy of this event works on, its start and its length. A
`copy_to_user` that fails is counted in full, a `copy_from_user` with the bytes it has left. -/
def copyRange (s : State P) (e : Event P) : ℤ × ℕ :=
  match s.pc e.who, e.action with
  | .passed _, .readLocked _ => (s.readIndex, toSize (toInt (s.writeIndex - s.readIndex)))
  | .writing _, .writeLocked _ => (s.writeIndex, copyIn s e)
  | _, _ => (0, 0)

/-- An offset in that part. -/
def Copied (s : State P) (e : Event P) (x : ℤ) : Prop :=
  (copyRange s e).1 ≤ x ∧ x < (copyRange s e).1 + (copyRange s e).2

lemma VarMem.store_outside (m : VarMem) {off x : ℤ} {bs : List UInt8}
    (h : ¬ (off ≤ x ∧ x < off + bs.length)) : m.store off bs x = m x := if_neg h

lemma VarMem.store_congr {m m' : VarMem} {off x : ℤ} (bs : List UInt8) (h : m x = m' x) :
    m.store off bs x = m'.store off bs x := by
  unfold VarMem.store
  rw [h]

/-- Every byte that an event changes is one that its copy works on. -/
theorem apply_frame (s : State P) (e : Event P) {x : ℤ} (hx : ¬ Copied s e x) :
    (machine.apply s e).globalVar x = s.globalVar x := by
  obtain ⟨p, a⟩ := e
  change (act s p a).1.globalVar x = _
  cases hpc : s.pc p with
  | writing buf =>
    cases a with
    | writeLocked fault =>
      cases fault with
      | none =>
        simp only [Copied, copyRange, copyIn, hpc] at hx
        simpa [act, hpc, writeLocked, State.goto] using s.globalVar.store_outside hx
      | some junk =>
        simp only [Copied, copyRange, copyIn, hpc] at hx
        simpa [act, hpc, writeLocked, State.goto] using s.globalVar.store_outside hx
    | _ => simp [act, hpc]
  | passed len =>
    cases a with
    | readLocked fault => cases fault <;> simp [act, hpc, readLocked, State.goto]
    | _ => simp [act, hpc]
  | waiting len =>
    cases a with
    | pass =>
      simp only [act, hpc]
      split_ifs <;> rfl
    | _ => simp [act, hpc, State.goto]
  | out => cases a <;> simp [act, hpc, State.goto]
  | copied len => cases a <;> simp [act, hpc, State.goto]

/-- And nothing an event does depends on any other byte: with another memory that holds the same
bytes there, it notes down the same, and all but the memory of its new state is the same. -/
theorem act_congr {s : State P} {e : Event P} {m : VarMem}
    (hm : ∀ x, Copied s e x → m x = s.globalVar x) :
    (act { s with globalVar := m } e.who e.action).2 = (act s e.who e.action).2 ∧
      ∃ m', machine.apply { s with globalVar := m } e = { machine.apply s e with globalVar := m' } ∧
        ∀ x, Copied s e x → m' x = (machine.apply s e).globalVar x := by
  obtain ⟨p, a⟩ := e
  change (act { s with globalVar := m } p a).2 = (act s p a).2 ∧
    ∃ m', (act { s with globalVar := m } p a).1 = { (act s p a).1 with globalVar := m' } ∧
      ∀ x, Copied s ⟨p, a⟩ x → m' x = (act s p a).1.globalVar x
  -- a step that leaves the memory alone
  have hidle (hact : act { s with globalVar := m } p a =
        ({ (act s p a).1 with globalVar := m }, (act s p a).2))
      (hkeep : (act s p a).1.globalVar = s.globalVar) :
      (act { s with globalVar := m } p a).2 = (act s p a).2 ∧
        ∃ m', (act { s with globalVar := m } p a).1 = { (act s p a).1 with globalVar := m' } ∧
          ∀ x, Copied s ⟨p, a⟩ x → m' x = (act s p a).1.globalVar x :=
    ⟨by rw [hact], m, by rw [hact], by rw [hkeep]; exact hm⟩
  cases hpc : s.pc p with
  | writing buf =>
    cases a with
    | writeLocked fault =>
      cases fault with
      | none =>
        simp only [act, hpc, writeLocked, State.goto]
        exact ⟨trivial, m.store s.writeIndex buf, rfl,
          fun x hx => VarMem.store_congr buf (hm x hx)⟩
      | some junk =>
        simp only [act, hpc, writeLocked, State.goto]
        exact ⟨trivial, m.store s.writeIndex (junk.take buf.length), rfl,
          fun x hx => VarMem.store_congr _ (hm x hx)⟩
    | _ => exact hidle (by simp [act, hpc]) (by simp [act, hpc])
  | passed len =>
    cases a with
    | readLocked fault =>
      have hload : m.load s.readIndex (toSize (toInt (s.writeIndex - s.readIndex))) =
          s.globalVar.load s.readIndex (toSize (toInt (s.writeIndex - s.readIndex))) := by
        refine VarMem.load_congr fun x hl hh => hm x ?_
        simpa only [Copied, copyRange, hpc] using And.intro hl hh
      cases fault with
      | false =>
        exact hidle (by simp [act, hpc, readLocked, State.goto, hload])
          (by simp [act, hpc, readLocked, State.goto])
      | true =>
        exact hidle (by simp [act, hpc, readLocked, State.goto])
          (by simp [act, hpc, readLocked, State.goto])
    | _ => exact hidle (by simp [act, hpc]) (by simp [act, hpc])
  | waiting len =>
    cases a with
    | pass =>
      by_cases hflag : s.flag = 0
      · exact hidle (by simp [act, hpc, hflag]) (by simp [act, hpc, hflag])
      · exact hidle (by simp [act, hpc, hflag, State.goto]) (by simp [act, hpc, hflag, State.goto])
    | _ => exact hidle (by simp [act, hpc, State.goto]) (by simp [act, hpc, State.goto])
  | out =>
    cases a with
    | _ => exact hidle (by simp [act, hpc, State.goto]) (by simp [act, hpc, State.goto])
  | copied len =>
    cases a with
    | _ => exact hidle (by simp [act, hpc, State.goto]) (by simp [act, hpc, State.goto])

/-- The indices are in order and inside the buffer. -/
def IndicesInside (s : State P) : Prop :=
  0 ≤ s.readIndex ∧ s.readIndex ≤ s.writeIndex ∧ s.writeIndex ≤ bufferLen

/-- The copy of this event touches nothing outside of the buffer. -/
def CopyInside (s : State P) (e : Event P) : Prop :=
  ∀ x, (copyRange s e).1 ≤ x → x < (copyRange s e).1 + (copyRange s e).2 → 0 ≤ x ∧ x < bufferLen

/-- In every state of the run the indices are inside the buffer, and so is every copy. -/
def StaysInside (es : List (Event P)) : Prop :=
  (∀ pre, pre <+: es → IndicesInside (machine.run State.init pre)) ∧
    ∀ pre e, pre ++ [e] <+: es → CopyInside (machine.run State.init pre) e

/-- A run that stays inside leaves everything around the buffer alone. -/
theorem StaysInside.frame {es : List (Event P)} (h : StaysInside es) {x : ℤ}
    (hx : ¬ (0 ≤ x ∧ x < bufferLen)) :
    (machine.run State.init es).globalVar x = (State.init : State P).globalVar x := by
  refine machine.run_invariant_of (C := CopyInside)
    (P := fun s => s.globalVar x = (State.init : State P).globalVar x) (fun s e hin hs => ?_) rfl es
    h.2
  rw [apply_frame s e fun hc => hx (hin x hc.1 hc.2)]
  exact hs

/-- The bytes of all successful writes, read or not. -/
def bytesWritten (es : List (Event P)) : ℕ :=
  ((machine.history State.init es).flatMap Note.bytesIn).length

/-- What the copy of this event stores ends inside the buffer. -/
def Ends (s : State P) (e : Event P) : Prop := s.writeIndex + copyIn s e ≤ bufferLen

omit [DecidableEq P] in
lemma copyRange_cases {s : State P} (hb : Bounds s) (e : Event P) :
    copyRange s e = (s.writeIndex, copyIn s e) ∨
      copyIn s e = 0 ∧ (copyRange s e = (s.readIndex, (s.writeIndex - s.readIndex).toNat) ∨
        copyRange s e = (0, 0)) := by
  have hread := hb.read
  have hle := hb.le
  have hwrite := hb.write
  obtain ⟨p, a⟩ := e
  cases hpc : s.pc p with
  | passed len =>
    have hlen := toInt_of_small (x := s.writeIndex - s.readIndex) (by omega) (by omega)
    have hsize := toSize_of_small (x := s.writeIndex - s.readIndex) (by omega) (by omega)
    refine .inr ⟨by simp [copyIn, hpc], ?_⟩
    cases a with
    | readLocked fault => exact .inl (by simp [copyRange, hpc, hlen, hsize])
    | _ => exact .inr (by simp [copyRange, hpc])
  | writing buf =>
    cases a with
    | writeLocked fault => exact .inl (by simp [copyRange, hpc])
    | _ => exact .inr ⟨by simp [copyIn, hpc], .inr (by simp [copyRange, hpc])⟩
  | _ => exact .inr ⟨by simp [copyIn, hpc], .inr (by simp [copyRange, hpc])⟩

omit [DecidableEq P] in
lemma Ends.fitsIn {s : State P} {e : Event P} (h : Ends s e) : FitsIn s e := by
  obtain ⟨p, a⟩ := e
  intro ha buf hbuf
  have ha' : a = .writeLocked none := ha
  subst ha'
  cases hpc : s.pc p with
  | writing buf' =>
    obtain rfl : buf' = buf := by simpa [writeBuf, hpc] using hbuf
    simpa [Ends, copyIn, hpc] using h
  | _ => simp [writeBuf, hpc] at hbuf

/-- From a state inside the buffer, a step stays inside exactly if its copy ends there. -/
theorem inside_iff {s : State P} (hb : Bounds s) (e : Event P) :
    IndicesInside (machine.apply s e) ∧ CopyInside s e ↔ Ends s e := by
  have hread := hb.read
  have hle := hb.le
  have hwrite := hb.write
  constructor
  · rintro ⟨-, hcopy⟩
    by_cases h0 : copyIn s e = 0
    · rw [Ends, h0]
      omega
    · -- the last byte that is stored
      have hrange := (copyRange_cases hb e).resolve_right fun h => h0 h.1
      have hlast := hcopy (s.writeIndex + copyIn s e - 1)
      rw [hrange] at hlast
      have := (hlast (by omega) (by omega)).2
      rw [Ends]
      omega
  · intro hends
    have hb' : Bounds (machine.apply s e) := (act_move_in hb e hends.fitsIn).bounds hb
    refine ⟨⟨hb'.read, hb'.le, hb'.write⟩, fun x hx hx' => ?_⟩
    rw [Ends] at hends
    rcases copyRange_cases hb e with hr | ⟨-, hr | hr⟩
    · rw [hr] at hx hx'
      omega
    · rw [hr] at hx hx'
      omega
    · rw [hr] at hx hx'
      omega

lemma Ends.bounds {s : State P} {e : Event P} (hb : Bounds s) (h : Ends s e) :
    Bounds (machine.apply s e) := (act_move_in hb e h.fitsIn).bounds hb

/-- A run stays inside exactly if all of its copies end inside. -/
lemma staysInside_iff_along (es : List (Event P)) :
    StaysInside es ↔ machine.Along Ends State.init es := by
  have hinit : IndicesInside (State.init : State P) :=
    ⟨bounds_init.read, bounds_init.le, bounds_init.write⟩
  rw [StaysInside, machine.forall_prefix_iff, and_iff_right hinit,
    ← machine.along_iff (C := CopyInside), ← machine.along_and]
  exact machine.along_congr (P := Bounds) (fun s e _ hb => inside_iff hb e)
    (fun s e _ hb h => h.bounds hb) bounds_init

lemma Move.written {s s' : State P} {p : P} {notes : List (Note P)} (h : Move s p s' notes) :
    s'.writeIndex = s.writeIndex + (notes.flatMap Note.bytesIn).length := by
  cases h with
  | write buf fits => simp [State.goto, Note.bytesIn]
  | _ => simp [State.goto, Note.bytesIn]

lemma Ends.written {s : State P} {e : Event P} (hb : Bounds s) (h : Ends s e) :
    (machine.apply s e).writeIndex =
      s.writeIndex + ((machine.observe s e).flatMap Note.bytesIn).length := by
  have hnotes : (machine.observe s e).flatMap Note.bytesIn =
      (act s e.who e.action).2.flatMap Note.bytesIn := by
    change (movedNote s (act s e.who e.action).1 e.who ++ (act s e.who e.action).2).flatMap
      Note.bytesIn = _
    rw [List.flatMap_append, movedNote_bytesIn, List.nil_append]
  rw [hnotes]
  exact (act_move_in hb e h.fitsIn).written

/-- The write index has counted the bytes written, as long as the copies end inside. -/
theorem along_ends_iff {s : State P} {n : ℕ} (hb : Bounds s) (hn : s.writeIndex = n)
    (es : List (Event P)) :
    machine.Along Ends s es ↔ ∀ pre e, pre ++ [e] <+: es →
      n + ((machine.history s pre).flatMap Note.bytesIn).length + copyIn (machine.run s pre) e ≤
        bufferLen := by
  induction es generalizing s n with
  | nil => simp [Machine.Along]
  | cons e es ih =>
    have hhead : Ends s e ↔ (n : ℤ) + copyIn s e ≤ bufferLen := by rw [Ends, hn]
    rw [Machine.Along, forall_snoc_prefix_cons]
    simp only [Machine.history, Machine.run_nil, Machine.run_cons, List.flatMap_nil,
      List.length_nil, Nat.cast_zero, add_zero, List.flatMap_append, List.length_append,
      Nat.cast_add, ← add_assoc, ← hhead]
    refine and_congr_right fun hends => ?_
    have hwritten := hends.written hb
    have htail := ih (n := n + ((machine.observe s e).flatMap Note.bytesIn).length)
      (hends.bounds hb) (by rw [hwritten, hn, Nat.cast_add])
    simpa only [Nat.cast_add] using htail

/-- One write and the read of all there is. -/
def drainedRound (p : P) (buf : List UInt8) : List (Event P) :=
  [⟨p, .write buf⟩, ⟨p, .writeLocked none⟩, ⟨p, .setFlag⟩, ⟨p, .read buf.length⟩, ⟨p, .pass⟩,
    ⟨p, .readLocked false⟩]

/-- A process that reads everything back after each of its writes. -/
def drainedRun (p : P) (bufs : List (List UInt8)) : List (Event P) := bufs.flatMap (drainedRound p)

lemma along_drainedRound {s : State P} {p : P} (hb : Bounds s) (hpc : s.pc p = .out)
    {buf : List UInt8} (hroom : s.writeIndex + buf.length ≤ bufferLen) :
    machine.Along Ends s (drainedRound p buf) ∧
      (machine.run s (drainedRound p buf)).pc p = .out ∧
      (machine.run s (drainedRound p buf)).writeIndex = s.writeIndex + buf.length := by
  have hread := hb.read
  have hle := hb.le
  have hwrite := hb.write
  have hindex := toInt_of_small (x := s.writeIndex + buf.length) (by omega) hroom
  simp [drainedRound, Machine.Along, Ends, copyIn, machine, act, hpc, State.goto, writeLocked,
    readLocked, hindex, hroom, hwrite]

lemma along_drained_iff {s : State P} {p : P} (hb : Bounds s) (hpc : s.pc p = .out)
    (bufs : List (List UInt8)) :
    machine.Along Ends s (drainedRun p bufs) ↔
      s.writeIndex + ((bufs.map List.length).sum : ℕ) ≤ bufferLen := by
  induction bufs generalizing s with
  | nil => simpa [drainedRun, Machine.Along] using hb.write
  | cons buf bufs ih =>
    rw [drainedRun, List.flatMap_cons, machine.along_append, List.map_cons, List.sum_cons]
    by_cases hroom : s.writeIndex + buf.length ≤ bufferLen
    · obtain ⟨halong, hout, hindex⟩ := along_drainedRound hb hpc hroom
      have hb' : Bounds (machine.run s (drainedRound p buf)) :=
        machine.run_invariant_of (fun s e h hb => Ends.bounds hb h) hb _
          (machine.along_iff.mp halong)
      have htail := ih hb' hout
      rw [drainedRun, hindex] at htail
      rw [and_iff_right halong, htail, Nat.cast_add, add_assoc]
    · refine iff_of_false (fun h => hroom ?_) (by omega)
      have hends := h.1.2.1
      simpa [Ends, copyIn, machine, act, hpc, State.goto] using hends

/-- When the device stays inside its buffer, over every run of any processes, with copies of any
length that succeed or fail. It does exactly if at no point the bytes of all writes so far,
together with those the next copy stores, are more than the buffer has: what has been read
counts as well. A process that reads everything back after each write gets no further than
that. -/
theorem globalvar_inside_iff :
    (∀ es : List (Event P), StaysInside es ↔ ∀ pre e, pre ++ [e] <+: es →
      (bytesWritten pre : ℤ) + copyIn (machine.run State.init pre) e ≤ bufferLen) ∧
    ∀ (p : P) (bufs : List (List UInt8)), StaysInside (drainedRun p bufs) ↔
      (((bufs.map List.length).sum : ℕ) : ℤ) ≤ bufferLen := by
  constructor
  · intro es
    have hiff := along_ends_iff (n := 0) bounds_init rfl es
    simp only [Nat.cast_zero, zero_add] at hiff
    rw [staysInside_iff_along, hiff]
    rfl
  · intro p bufs
    rw [staysInside_iff_along, along_drained_iff bounds_init rfl]
    simp [State.init]

/-- Writes of the size of the buffer, the first of which is read back before the second. -/
def fullBlock : List UInt8 := List.replicate 1024 7

theorem globalvar_leaves :
    (∀ buf ∈ [fullBlock, [1]], (buf.length : ℤ) ≤ bufferLen) ∧
      ¬ StaysInside (drainedRun (0 : ℕ) [fullBlock, [1]]) := by
  have hlen : fullBlock.length = 1024 := List.length_replicate
  refine ⟨by simp [hlen, bufferLen], ?_⟩
  rw [staysInside_iff_along, along_drained_iff bounds_init rfl]
  simp [hlen, bufferLen, State.init]

/-- The event is the locked section of a read that was asked for `len` bytes and succeeds. -/
def ReadSection (s : State P) (e : Event P) (len : ℕ) : Prop :=
  s.pc e.who = .passed len ∧ e.action = .readLocked false

/-- The read takes out as much as it was asked for, or all there is if that is less; it returns
this number and leaves the rest behind, with the flag set if there is any. -/
structure RespectsLength (s : State P) (e : Event P) (len : ℕ) : Prop where
  notes : (act s e.who e.action).2 = [.copiedOut e.who (s.unread.take len),
    .returned e.who (min len (s.writeIndex - s.readIndex))]
  rest : (machine.apply s e).unread = s.unread.drop len
  flag : (machine.apply s e).unread ≠ [] → (machine.apply s e).flag ≠ 0

omit [DecidableEq P] in
lemma State.unread_length (s : State P) : s.unread.length = (s.writeIndex - s.readIndex).toNat := by
  simp [State.unread, VarMem.load]

/-- What a read really does, whatever it was asked for. -/
lemma ReadSection.act_eq {s : State P} (hb : Bounds s) {e : Event P} {len : ℕ}
    (h : ReadSection s e len) :
    (act s e.who e.action).2 =
        [.copiedOut e.who s.unread, .returned e.who (s.writeIndex - s.readIndex)] ∧
      (machine.apply s e).unread = [] := by
  have hread := hb.read
  have hle := hb.le
  have hwrite := hb.write
  have hlen := toInt_of_small (x := s.writeIndex - s.readIndex) (by omega) (by omega)
  have hsize := toSize_of_small (x := s.writeIndex - s.readIndex) (by omega) (by omega)
  constructor
  · simp [act, h.1, h.2, readLocked, hlen, hsize, State.unread]
  · simp [machine, act, h.1, h.2, readLocked, State.goto, State.unread, VarMem.load]

theorem ReadSection.respects_iff {s : State P} (hb : Bounds s) {e : Event P} {len : ℕ}
    (h : ReadSection s e len) : RespectsLength s e len ↔ s.writeIndex - s.readIndex ≤ len := by
  obtain ⟨hnotes, hrest⟩ := h.act_eq hb
  constructor
  · intro hr
    have heq := hnotes.symm.trans hr.notes
    simp only [List.cons.injEq, Note.returned.injEq, true_and, and_true] at heq
    omega
  · intro hle
    have hall : s.unread.length ≤ len := by
      rw [s.unread_length]
      omega
    refine ⟨?_, ?_, fun hne => absurd hrest hne⟩
    · rw [hnotes, List.take_of_length_le hall, min_eq_right hle]
    · rw [hrest, List.drop_eq_nil_of_le hall]

/-- When reads respect the length they are given, over every run whose writes fit: exactly if no
read asks for less than there is when it gets the lock. The bytes that come out are in any case
those that went in, in their order. -/
theorem globalvar_respects_iff (es : List (Event P))
    (hfits : ∀ pre e, pre ++ [e] <+: es → Fits (machine.run State.init pre) e) :
    let log := machine.history State.init es
    (∀ pre e, pre ++ [e] <+: es → ∀ len, ReadSection (machine.run State.init pre) e len →
        RespectsLength (machine.run State.init pre) e len) ∧
      log.flatMap Note.bytesOut ++ (machine.run State.init es).unread =
        log.flatMap Note.bytesIn ↔
    ∀ pre e, pre ++ [e] <+: es → ∀ len, ReadSection (machine.run State.init pre) e len →
      (machine.run State.init pre).writeIndex - (machine.run State.init pre).readIndex ≤ len := by
  have hbounds (pre : List (Event P)) (e : Event P) (hp : pre ++ [e] <+: es) :
      Bounds (machine.run State.init pre) :=
    (run_invariants pre fun pre' e' hp' =>
      hfits pre' e' (hp'.trans ((List.prefix_append pre [e]).trans hp))).1
  intro log
  constructor
  · rintro ⟨hrespects, -⟩ pre e hp len hread
    exact (hread.respects_iff (hbounds pre e hp)).mp (hrespects pre e hp len hread)
  · intro hle
    refine ⟨fun pre e hp len hread => ?_, (run_invariants es hfits).2.1⟩
    exact (hread.respects_iff (hbounds pre e hp)).mpr (hle pre e hp len hread)

/-- Two bytes written, and a reader about to read. -/
def twoBytes (len : ℕ) : List (Event ℕ) :=
  [⟨0, .write [1, 2]⟩, ⟨0, .writeLocked none⟩, ⟨0, .setFlag⟩, ⟨1, .read len⟩, ⟨1, .pass⟩]

theorem globalvar_ignores_length :
    machine.Along Fits State.init (twoBytes 1 ++ [⟨1, .readLocked false⟩]) ∧
      ReadSection (machine.run State.init (twoBytes 1)) ⟨1, .readLocked false⟩ 1 ∧
      ¬ RespectsLength (machine.run State.init (twoBytes 1)) ⟨1, .readLocked false⟩ 1 := by
  have hread : ReadSection (machine.run State.init (twoBytes 1)) ⟨1, .readLocked false⟩ 1 :=
    ⟨rfl, rfl⟩
  refine ⟨by decide, hread, fun hr => ?_⟩
  have hrest : (machine.run State.init (twoBytes 1 ++ [⟨1, .readLocked false⟩])).unread = [2] :=
    hr.rest
  exact absurd hrest (by decide)

/-- A reader with room for four. -/
theorem globalvar_respects_four :
    RespectsLength (machine.run State.init (twoBytes 4)) ⟨1, .readLocked false⟩ 4 := by
  have halong : machine.Along Fits State.init (twoBytes 4 ++ [⟨1, .readLocked false⟩]) := by decide
  have hroom : machine.Along
      (fun s e => ∀ len, ReadSection s e len → s.writeIndex - s.readIndex ≤ len)
      State.init (twoBytes 4 ++ [⟨1, .readLocked false⟩]) := by
    refine ⟨by simp [ReadSection], by simp [ReadSection], by simp [ReadSection],
      by simp [ReadSection], by simp [ReadSection], fun len hread => ?_, trivial⟩
    obtain rfl : 4 = len := Pc.passed.inj hread.1
    decide
  exact ((globalvar_respects_iff _ (machine.along_iff.mp halong)).mpr
    (machine.along_iff.mp hroom)).1 (twoBytes 4) _ List.prefix_rfl 4 ⟨rfl, rfl⟩

end LinuxLabs.GlobalVar
