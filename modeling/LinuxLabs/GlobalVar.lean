import LinuxLabs.EventRun

/-! The `globalvar` device: a buffer with a read and a write index behind one lock, and a flag
that readers wait for. A process takes its calls step by step. The locked sections are single
steps; entering a call, passing the wait and raising the flag are steps of their own, so that
other processes can come in between. -/
namespace LinuxLabs.GlobalVar
open EventRun

/-- The size of `global_var`, `LEN` in the source. -/
def bufferLen : ℤ := 1024

def efault : ℤ := 14
def erestartsys : ℤ := 512

/-- Conversion to `int`. -/
def toInt (x : ℤ) : ℤ := Int.bmod x (2^32)

/-- Conversion to `size_t`. -/
def toSize (x : ℤ) : ℕ := (x % 2^64).toNat

/-- Conversion to `ssize_t`. -/
def toSsize (x : ℤ) : ℤ := Int.bmod x (2^64)

/-- Memory by its offset from `global_var`. -/
abbrev VarMem := ℤ → UInt8

def VarMem.store (m : VarMem) (off : ℤ) (bs : List UInt8) : VarMem := fun x =>
  if off ≤ x ∧ x < off + bs.length then bs.getD (x - off).toNat 0 else m x

def VarMem.load (m : VarMem) (off : ℤ) (n : ℕ) : List UInt8 :=
  (List.range n).map fun i : ℕ => m (off + i)

/-- Where a process is: outside of the device, before or behind the wait of a read, before the
lock of a write, or between its locked section and the flag. -/
inductive Pc
  | out
  | waiting (len : ℕ)
  | passed (len : ℕ)
  | writing (buf : List UInt8)
  | copied (len : ℕ)

structure State (P : Type) where
  globalVar : VarMem
  readIndex : ℤ
  writeIndex : ℤ
  flag : ℤ
  pc : P → Pc

variable {P : Type} [DecidableEq P]

def State.init : State P := ⟨fun _ => 0, 0, 0, 0, fun _ => .out⟩

def State.goto (s : State P) (p : P) (c : Pc) : State P := { s with pc := Function.update s.pc p c }

/-- The locked section of `globalvar_read`, with the value it returns and the bytes it copies to
the user. The length the caller asked for is not looked at. -/
def readLocked (s : State P) (fault : Bool) : State P × ℤ × List UInt8 :=
  let readLen := toInt (s.writeIndex - s.readIndex)
  if fault then (s, -efault, [])
  else
    ({ s with readIndex := s.writeIndex, flag := 0 }, readLen,
      s.globalVar.load s.readIndex (toSize readLen))

/-- The locked section of `globalvar_write`. A failing copy can leave other bytes where the data
should have gone; the section returns a value only then. -/
def writeLocked (s : State P) (buf : List UInt8) (fault : Option (List UInt8)) :
    State P × Option ℤ :=
  match fault with
  | some junk =>
    ({ s with globalVar := s.globalVar.store s.writeIndex (junk.take buf.length) }, some (-efault))
  | none =>
    ({ s with
      globalVar := s.globalVar.store s.writeIndex buf
      writeIndex := toInt (s.writeIndex + buf.length) }, none)

inductive Action
  | read (len : ℕ)
  | interrupt
  | pass
  | readLocked (fault : Bool)
  | write (buf : List UInt8)
  | writeLocked (fault : Option (List UInt8))
  | setFlag

structure Event (P : Type) where
  who : P
  action : Action

/-- What is noted down of a run: bytes that successful copies take out and put in, calls that
return, and steps after which an index or the unread bytes are not what they were. -/
inductive Note (P : Type)
  | copiedOut (who : P) (bytes : List UInt8)
  | copiedIn (who : P) (bytes : List UInt8)
  | moved (who : P)
  | returned (who : P) (value : ℤ)

/-- A step of a process; a step it is not ready for does nothing. -/
def act (s : State P) (p : P) (a : Action) : State P × List (Note P) :=
  match s.pc p, a with
  | .out, .read len => (s.goto p (.waiting len), [])
  | .waiting _, .interrupt => (s.goto p .out, [.returned p (-erestartsys)])
  | .waiting len, .pass => if s.flag ≠ 0 then (s.goto p (.passed len), []) else (s, [])
  | .passed _, .readLocked fault =>
    let (s, value, bytes) := readLocked s fault
    (s.goto p .out, (if fault then [] else [.copiedOut p bytes]) ++ [.returned p value])
  | .out, .write buf => (s.goto p (.writing buf), [])
  | .writing buf, .writeLocked fault =>
    match writeLocked s buf fault with
    | (s, some value) => (s.goto p .out, [.returned p value])
    | (s, none) => (s.goto p (.copied buf.length), [.copiedIn p buf])
  | .copied len, .setFlag =>
    (({ s with flag := 1 } : State P).goto p .out, [.returned p (toSsize len)])
  | _, _ => (s, [])

/-- The bytes between the two indices. -/
def State.unread (s : State P) : List UInt8 :=
  s.globalVar.load s.readIndex (s.writeIndex - s.readIndex).toNat

/-- The indices and the unread bytes. -/
def State.stream (s : State P) : ℤ × ℤ × List UInt8 := (s.readIndex, s.writeIndex, s.unread)

def observe (s : State P) (e : Event P) : List (Note P) :=
  let (s', notes) := act s e.who e.action
  (if s'.stream = s.stream then [] else [.moved e.who]) ++ notes

def machine : Machine (State P) (Event P) (Note P) :=
  ⟨fun s e => (act s e.who e.action).1, observe⟩

def Note.bytesOut : Note P → List UInt8
  | .copiedOut _ bytes => bytes
  | _ => []

def Note.bytesIn : Note P → List UInt8
  | .copiedIn _ bytes => bytes
  | _ => []

/-- What the event is going to write, if it is the locked section of a write. -/
def writeBuf (s : State P) (e : Event P) : Option (List UInt8) :=
  match s.pc e.who, e.action with
  | .writing buf, .writeLocked _ => some buf
  | _, _ => none

/-- The write of this event, if it is one, fits behind the write index. -/
def Fits (s : State P) (e : Event P) : Prop :=
  ∀ buf ∈ writeBuf s e, s.writeIndex + buf.length ≤ bufferLen

instance (s : State P) (e : Event P) : Decidable (Fits s e) :=
  inferInstanceAs (Decidable (∀ buf ∈ writeBuf s e, _))

/-- The calls that fail. -/
def IsError (value : ℤ) : Prop := value = -efault ∨ value = -erestartsys

structure Bounds (s : State P) : Prop where
  read : 0 ≤ s.readIndex
  le : s.readIndex ≤ s.writeIndex
  write : s.writeIndex ≤ bufferLen
  copied : ∀ p len, s.pc p = .copied len → (len : ℤ) ≤ bufferLen

omit [DecidableEq P] in
lemma bounds_init : Bounds (State.init : State P) where
  read := le_rfl
  le := le_rfl
  write := by simp [State.init, bufferLen]
  copied := by simp [State.init]

lemma toInt_of_small {x : ℤ} (h0 : 0 ≤ x) (h : x ≤ bufferLen) : toInt x = x := by
  unfold bufferLen at h
  exact Int.bmod_eq_of_le (by omega) (by omega)

lemma toSize_of_small {x : ℤ} (h0 : 0 ≤ x) (h : x ≤ bufferLen) : toSize x = x.toNat := by
  unfold bufferLen at h
  rw [toSize, Int.emod_eq_of_lt h0 (by omega)]

lemma toSsize_of_small {len : ℕ} (h : (len : ℤ) ≤ bufferLen) : toSsize len = len := by
  unfold bufferLen at h
  exact Int.bmod_eq_of_le (by omega) (by omega)

lemma VarMem.load_congr {m m' : VarMem} {off : ℤ} {n : ℕ}
    (h : ∀ x, off ≤ x → x < off + n → m x = m' x) : m.load off n = m'.load off n := by
  apply List.map_congr_left
  intro i hi
  have := List.mem_range.mp hi
  exact h _ (by omega) (by omega)

lemma VarMem.load_add (m : VarMem) (off : ℤ) (n k : ℕ) :
    m.load off (n + k) = m.load off n ++ m.load (off + n) k := by
  simp [VarMem.load, List.range_add, Function.comp_def, Int.add_assoc]

lemma VarMem.load_store (m : VarMem) (off : ℤ) (bs : List UInt8) :
    (m.store off bs).load off bs.length = bs := by
  apply List.ext_getElem
  · simp [VarMem.load]
  · intro i hi hi'
    simp [VarMem.load, VarMem.store, hi']

lemma VarMem.load_store_below (m : VarMem) {off a : ℤ} {n : ℕ} (bs : List UInt8)
    (h : a + n ≤ off) : (m.store off bs).load a n = m.load a n := by
  apply VarMem.load_congr
  intro x _ hx
  exact if_neg (by omega)

/-- What a step can do: move its process on; fail; take out what is unread; put in new bytes;
or raise the flag. -/
inductive Move (s : State P) (p : P) : State P → List (Note P) → Prop
  | idle : Move s p s []
  | goto (c : Pc) (before : ∀ len, s.pc p ≠ .copied len) (after : ∀ len, c ≠ .copied len) :
      Move s p (s.goto p c) []
  | fail (value : ℤ) (error : IsError value) (before : ∀ len, s.pc p ≠ .copied len) (m : VarMem)
      (kept : ∀ x < s.writeIndex, m x = s.globalVar x) :
      Move s p (({ s with globalVar := m } : State P).goto p .out) [.returned p value]
  | read (before : ∀ len, s.pc p ≠ .copied len) :
      Move s p (({ s with readIndex := s.writeIndex, flag := 0 } : State P).goto p .out)
        [.copiedOut p s.unread, .returned p (s.writeIndex - s.readIndex)]
  | write (buf : List UInt8) (fits : s.writeIndex + buf.length ≤ bufferLen) :
      Move s p (({ s with
          globalVar := s.globalVar.store s.writeIndex buf
          writeIndex := s.writeIndex + buf.length } : State P).goto p (.copied buf.length))
        [.copiedIn p buf]
  | flag (len : ℕ) (before : s.pc p = .copied len) :
      Move s p (({ s with flag := 1 } : State P).goto p .out) [.returned p len]

/-- The bytes that a successful write of this event puts in fit behind the write index; a write
that fails can be of any length. -/
def FitsIn (s : State P) (e : Event P) : Prop :=
  e.action = .writeLocked none → Fits s e

theorem act_move_in {s : State P} (hb : Bounds s) (e : Event P) (hfits : FitsIn s e) :
    Move s e.who (act s e.who e.action).1 (act s e.who e.action).2 := by
  obtain ⟨p, a⟩ := e
  have hread := hb.read
  have hle := hb.le
  have hwrite := hb.write
  cases hpc : s.pc p with
  | out =>
    cases a with
    | read len => simpa [act, hpc] using Move.goto (s := s) (.waiting len) (by simp [hpc]) (by simp)
    | write buf =>
      simpa [act, hpc] using Move.goto (s := s) (.writing buf) (by simp [hpc]) (by simp)
    | _ => simpa [act, hpc] using Move.idle
  | waiting len =>
    cases a with
    | interrupt =>
      simpa [act, hpc] using
        Move.fail (s := s) (-erestartsys) (.inr rfl) (by simp [hpc]) s.globalVar fun _ _ => rfl
    | pass =>
      by_cases hf : s.flag ≠ 0
      · simpa [act, hpc, hf] using Move.goto (s := s) (.passed len) (by simp [hpc]) (by simp)
      · simpa [act, hpc, hf] using Move.idle
    | _ => simpa [act, hpc] using Move.idle
  | passed len =>
    cases a with
    | readLocked fault =>
      cases fault with
      | true =>
        simpa [act, hpc, readLocked] using
          Move.fail (s := s) (-efault) (.inl rfl) (by simp [hpc]) s.globalVar fun _ _ => rfl
      | false =>
        have hlen := toInt_of_small (x := s.writeIndex - s.readIndex) (by omega) (by omega)
        have hsize := toSize_of_small (x := s.writeIndex - s.readIndex) (by omega) (by omega)
        simpa [act, hpc, readLocked, hlen, hsize, State.unread] using
          Move.read (s := s) (p := p) (by simp [hpc])
    | _ => simpa [act, hpc] using Move.idle
  | writing buf =>
    cases a with
    | writeLocked fault =>
      cases fault with
      | some junk =>
        simpa [act, hpc, writeLocked] using
          Move.fail (s := s) (-efault) (.inl rfl) (by simp [hpc])
            (s.globalVar.store s.writeIndex (junk.take buf.length))
            fun x hx => if_neg (by omega)
      | none =>
        have hroom : s.writeIndex + buf.length ≤ bufferLen := by
          simpa [Fits, writeBuf, hpc] using hfits rfl
        have hindex := toInt_of_small (x := s.writeIndex + buf.length) (by omega) hroom
        simpa [act, hpc, writeLocked, hindex] using Move.write (s := s) buf hroom
    | _ => simpa [act, hpc] using Move.idle
  | copied len =>
    cases a with
    | setFlag =>
      simpa [act, hpc, toSsize_of_small (hb.copied p len hpc)] using Move.flag (s := s) len hpc
    | _ => simpa [act, hpc] using Move.idle

theorem act_move {s : State P} (hb : Bounds s) (e : Event P) (hfits : Fits s e) :
    Move s e.who (act s e.who e.action).1 (act s e.who e.action).2 :=
  act_move_in hb e fun _ => hfits

@[simp] lemma State.goto_stream (s : State P) (p : P) (c : Pc) :
    (s.goto p c).stream = s.stream := rfl

@[simp] lemma State.goto_unread (s : State P) (p : P) (c : Pc) :
    (s.goto p c).unread = s.unread := rfl

lemma State.goto_pc {s : State P} {p q : P} {c : Pc} :
    (s.goto p c).pc q = if q = p then c else s.pc q := Function.update_apply ..

theorem Move.bounds {s s' : State P} {p : P} {notes : List (Note P)} (h : Move s p s' notes)
    (hb : Bounds s) : Bounds s' := by
  obtain ⟨hread, hle, hwrite, hcopied⟩ := hb
  have hgoto {t : State P} (ht : t.pc = s.pc) (c : Pc)
      (hc : ∀ len, c = .copied len → (len : ℤ) ≤ bufferLen) :
      ∀ q len, (t.goto p c).pc q = .copied len → (len : ℤ) ≤ bufferLen := by
    intro q len hq
    rw [State.goto_pc, ht] at hq
    split_ifs at hq
    · exact hc len hq
    · exact hcopied q len hq
  cases h with
  | idle => exact ⟨hread, hle, hwrite, hcopied⟩
  | goto c before after =>
    exact ⟨hread, hle, hwrite, hgoto rfl c fun len hc => absurd hc (after len)⟩
  | fail value error before m kept => exact ⟨hread, hle, hwrite, hgoto rfl _ (by simp)⟩
  | read before => exact ⟨hread.trans hle, le_rfl, hwrite, hgoto rfl _ (by simp)⟩
  | write buf fits =>
    refine ⟨hread, ?_, fits, hgoto rfl _ fun len hc => ?_⟩
    · change s.readIndex ≤ s.writeIndex + buf.length
      omega
    · rw [← Pc.copied.inj hc]
      omega
  | flag len before => exact ⟨hread, hle, hwrite, hgoto rfl _ (by simp)⟩

/-- Bytes taken out and bytes still unread are the bytes put in. -/
def Fifo (s : State P) (log : List (Note P)) : Prop :=
  log.flatMap Note.bytesOut ++ s.unread = log.flatMap Note.bytesIn

omit [DecidableEq P] in
lemma unread_of_kept {s : State P} {m : VarMem} (hb : Bounds s)
    (h : ∀ x < s.writeIndex, m x = s.globalVar x) :
    ({ s with globalVar := m } : State P).unread = s.unread := by
  have hle := hb.le
  apply VarMem.load_congr
  intro x _ hx
  dsimp only at hx
  exact h x (by omega)

omit [DecidableEq P] in
lemma unread_of_write {s : State P} (hb : Bounds s) (buf : List UInt8) :
    ({ s with
      globalVar := s.globalVar.store s.writeIndex buf
      writeIndex := s.writeIndex + buf.length } : State P).unread = s.unread ++ buf := by
  have hle := hb.le
  have hlen : (s.writeIndex + buf.length - s.readIndex).toNat =
      (s.writeIndex - s.readIndex).toNat + buf.length := by omega
  have hend : s.readIndex + ((s.writeIndex - s.readIndex).toNat : ℤ) = s.writeIndex := by omega
  simp only [State.unread]
  rw [hlen, VarMem.load_add, hend, VarMem.load_store, VarMem.load_store_below _ _ (by omega)]

theorem Move.fifo {s s' : State P} {p : P} {notes log : List (Note P)} (h : Move s p s' notes)
    (hb : Bounds s) (hf : Fifo s log) : Fifo s' (log ++ notes) := by
  unfold Fifo at hf ⊢
  simp only [List.flatMap_append]
  cases h with
  | idle => simpa using hf
  | goto c before after => simpa using hf
  | fail value error before m kept =>
    simpa [Note.bytesOut, Note.bytesIn, unread_of_kept hb kept] using hf
  | read before =>
    have hun : ({ s with readIndex := s.writeIndex, flag := 0 } : State P).unread = [] := by
      simp [State.unread, VarMem.load]
    simpa [Note.bytesOut, Note.bytesIn, hun] using hf
  | write buf fits =>
    have hf' := congrArg (· ++ buf) hf
    simpa [Note.bytesOut, Note.bytesIn, unread_of_write hb buf] using hf'
  | flag len before =>
    have hun : ({ s with flag := 1 } : State P).unread = s.unread := rfl
    simpa [Note.bytesOut, Note.bytesIn, hun] using hf

/-- A note that the process has touched the stream or an index. -/
def Note.Touches (p : P) : Note P → Prop
  | .copiedOut q _ => q = p
  | .copiedIn q _ => q = p
  | .moved q => q = p
  | .returned _ _ => False

/-- The call the process is in, or the one it has just begun to return from, has touched the
stream. -/
def Touched (p : P) (log : List (Note P)) : Prop :=
  ∃ a n b, log = a ++ n :: b ∧ n.Touches p ∧ ∀ value, Note.returned p value ∉ b

omit [DecidableEq P] in
lemma touched_append {p : P} {log notes : List (Note P)}
    (h : Touched p (log ++ notes)) (hn : ∀ n ∈ notes, ¬ n.Touches p) :
    Touched p log ∧ ∀ value, Note.returned p value ∉ notes := by
  obtain ⟨a, n, b, heq, ht, hb⟩ := h
  rcases List.append_eq_append_iff.mp heq with ⟨c, -, hc⟩ | ⟨c, hc, hnotes⟩
  · exact absurd ht (hn n (by simp [hc]))
  · cases c with
    | nil =>
      rw [List.nil_append] at hnotes
      exact absurd ht (hn n (by simp [← hnotes]))
    | cons n' c =>
      obtain ⟨rfl, rfl⟩ := List.cons.inj hnotes
      refine ⟨⟨a, n, c, hc, ht, fun value hv => hb value (by simp [hv])⟩, fun value hv => ?_⟩
      exact hb value (by simp [hv])

omit [DecidableEq P] in
/-- A call that has returned has touched nothing since. -/
lemma not_touched_returned {p : P} {log : List (Note P)} {value : ℤ} :
    ¬ Touched p (log ++ [Note.returned p value]) := by
  intro h
  have hnot := (touched_append h (by simp [Note.Touches])).2 value
  simp at hnot

/-- Who has touched the stream in a call that goes on is about to raise the flag; calls that
have failed had not touched it. -/
structure Calls (s : State P) (log : List (Note P)) : Prop where
  touched : ∀ p, Touched p log → ∃ len, s.pc p = .copied len
  errors : ∀ a p value b, log = a ++ .returned p value :: b → IsError value → ¬ Touched p a

omit [DecidableEq P] in
lemma Calls.errors_append {s : State P} {log notes : List (Note P)} (h : Calls s log)
    (hn : ∀ a p value b, notes = a ++ Note.returned p value :: b → IsError value →
      ¬ Touched p (log ++ a)) :
    ∀ a p value b, log ++ notes = a ++ Note.returned p value :: b → IsError value →
      ¬ Touched p a := by
  intro a p value b heq herr
  rcases List.append_eq_append_iff.mp heq with ⟨c, rfl, hc⟩ | ⟨c, hc, hnotes⟩
  · exact hn c p value b hc herr
  · cases c with
    | nil =>
      rw [List.append_nil] at hc
      rw [List.nil_append] at hnotes
      simpa [hc] using hn [] p value b hnotes.symm herr
    | cons n c =>
      obtain ⟨rfl, -⟩ := List.cons.inj hnotes
      exact h.errors a p value c hc herr

/-- The note of a step that moves the stream. -/
def movedNote (s s' : State P) (p : P) : List (Note P) :=
  if s'.stream = s.stream then [] else [.moved p]

omit [DecidableEq P] in
lemma mem_movedNote {s s' : State P} {p : P} {n : Note P} (h : n ∈ movedNote s s' p) :
    n = .moved p := by
  unfold movedNote at h
  split_ifs at h
  · simp at h
  · simpa using h

omit [DecidableEq P] in
lemma Calls.touched_of_ne {s s' : State P} {log notes : List (Note P)} {p q : P} (hc : Calls s log)
    (hpc : ∀ r ≠ p, s'.pc r = s.pc r) (hnotes : ∀ n ∈ notes, ∀ r ≠ p, ¬ n.Touches r) (hq : q ≠ p)
    (ht : Touched q (log ++ notes)) : ∃ len, s'.pc q = .copied len := by
  obtain ⟨len, hlen⟩ := hc.touched q (touched_append ht fun n hn => hnotes n hn q hq).1
  exact ⟨len, by rw [hpc q hq, hlen]⟩

omit [DecidableEq P] in
/-- A step at whose end the call returns. -/
lemma Calls.returns {s s' : State P} {log before : List (Note P)} {p : P} {value : ℤ}
    (hc : Calls s log) (hpc : ∀ r ≠ p, s'.pc r = s.pc r)
    (hbefore : ∀ n ∈ before, (∀ r ≠ p, ¬ n.Touches r) ∧ ∀ r v, n ≠ .returned r v)
    (herr : IsError value → before = [] ∧ ¬ Touched p log) :
    Calls s' (log ++ (before ++ [Note.returned p value])) := by
  refine ⟨fun q hq => ?_, hc.errors_append fun a q v b heq hv => ?_⟩
  · have hqp : q ≠ p := by
      rintro rfl
      rw [← List.append_assoc] at hq
      exact not_touched_returned hq
    refine hc.touched_of_ne hpc (fun n hn r hr => ?_) hqp hq
    rcases List.mem_append.mp hn with hn | hn
    · exact (hbefore n hn).1 r hr
    · simp [List.mem_singleton.mp hn, Note.Touches]
  · -- the only return in these notes is the last one
    rcases List.eq_nil_or_concat b with rfl | ⟨b, x, rfl⟩
    · obtain ⟨rfl, hlast⟩ := List.append_inj' heq rfl
      obtain ⟨rfl, rfl⟩ := Note.returned.inj (List.cons.inj hlast).1
      obtain ⟨rfl, hnot⟩ := herr hv
      simpa using hnot
    · rw [List.concat_eq_append, ← List.cons_append, ← List.append_assoc] at heq
      have hbef := (List.append_inj' heq rfl).1
      exact absurd rfl ((hbefore (.returned q v) (by simp [hbef])).2 q v)

omit [DecidableEq P] in
/-- A step after which the call goes on, and is about to raise the flag. -/
lemma Calls.copies {s s' : State P} {log notes : List (Note P)} {p : P} {len : ℕ}
    (hc : Calls s log) (hpc : ∀ r ≠ p, s'.pc r = s.pc r) (hp : s'.pc p = .copied len)
    (hnotes : ∀ n ∈ notes, (∀ r ≠ p, ¬ n.Touches r) ∧ ∀ r v, n ≠ .returned r v) :
    Calls s' (log ++ notes) := by
  refine ⟨fun q hq => ?_, hc.errors_append fun a q v b heq _ => ?_⟩
  · by_cases hqp : q = p
    · exact ⟨len, by rw [hqp, hp]⟩
    · exact hc.touched_of_ne hpc (fun n hn => (hnotes n hn).1) hqp hq
  · exact absurd rfl ((hnotes (.returned q v) (by simp [heq])).2 q v)

theorem Move.calls {s s' : State P} {p : P} {notes log : List (Note P)} (h : Move s p s' notes)
    (hb : Bounds s) (hc : Calls s log) : Calls s' (log ++ (movedNote s s' p ++ notes)) := by
  have hle := hb.le
  have hmoved {t t' : State P} : ∀ n ∈ movedNote t t' p,
      (∀ r ≠ p, ¬ n.Touches r) ∧ ∀ r v, n ≠ .returned r v := by
    intro n hn
    rw [mem_movedNote hn]
    exact ⟨fun r hr he => hr he.symm, by simp⟩
  have hpc {t : State P} (ht : t.pc = s.pc) (c : Pc) : ∀ r ≠ p, (t.goto p c).pc r = s.pc r := by
    intro r hr
    rw [State.goto_pc, if_neg hr, ht]
  have hnot (before : ∀ len, s.pc p ≠ .copied len) : ¬ Touched p log := by
    intro ht
    obtain ⟨len, hlen⟩ := hc.touched p ht
    exact before len hlen
  -- a length is no error code
  have hok {value : ℤ} (h0 : 0 ≤ value) : ¬ IsError value := by
    unfold IsError efault erestartsys
    omega
  cases h with
  | idle => simpa [movedNote] using hc
  | goto c before after =>
    simp only [movedNote, State.goto_stream, if_true, List.append_nil]
    refine ⟨fun q hq => ?_, hc.errors⟩
    obtain ⟨len, hlen⟩ := hc.touched q hq
    have hqp : q ≠ p := fun he => before len (he ▸ hlen)
    exact ⟨len, by rw [hpc rfl c q hqp, hlen]⟩
  | fail value error before m kept =>
    have hstream : ({ s with globalVar := m } : State P).stream = s.stream := by
      simp only [State.stream, unread_of_kept hb kept]
    simp only [movedNote, State.goto_stream, hstream, if_true]
    exact hc.returns (hpc rfl _) (by simp) fun _ => ⟨rfl, hnot before⟩
  | read before =>
    rw [show ∀ (l : List (Note P)) (n n' : Note P), l ++ [n, n'] = (l ++ [n]) ++ [n'] by simp]
    refine hc.returns (hpc rfl _) (fun n hn => ?_) fun herr => absurd herr (hok (by omega))
    rcases List.mem_append.mp hn with hn | hn
    · exact hmoved n hn
    · rw [List.mem_singleton.mp hn]
      exact ⟨fun r hr he => hr he.symm, by simp⟩
  | write buf fits =>
    refine hc.copies (hpc rfl _) (by rw [State.goto_pc, if_pos rfl]) fun n hn => ?_
    rcases List.mem_append.mp hn with hn | hn
    · exact hmoved n hn
    · rw [List.mem_singleton.mp hn]
      exact ⟨fun r hr he => hr he.symm, by simp⟩
  | flag len before =>
    exact hc.returns (hpc rfl _) hmoved fun herr => absurd herr (hok (by omega))

omit [DecidableEq P] in
lemma movedNote_bytesOut (s s' : State P) (p : P) :
    (movedNote s s' p).flatMap Note.bytesOut = [] := by
  unfold movedNote
  split_ifs <;> rfl

omit [DecidableEq P] in
lemma movedNote_bytesIn (s s' : State P) (p : P) :
    (movedNote s s' p).flatMap Note.bytesIn = [] := by
  unfold movedNote
  split_ifs <;> rfl

omit [DecidableEq P] in
/-- The bytes of all notes of a step, with or without the note that it moves the stream. -/
lemma fifo_movedNote {s t t' : State P} {p : P} {log notes : List (Note P)}
    (h : Fifo s (log ++ notes)) : Fifo s (log ++ (movedNote t t' p ++ notes)) := by
  simpa [Fifo, movedNote_bytesOut, movedNote_bytesIn] using h

/-- The invariants of a run whose writes all fit. -/
lemma run_invariants (es : List (Event P))
    (hfits : ∀ pre e, pre ++ [e] <+: es → Fits (machine.run State.init pre) e) :
    let log := machine.history State.init es
    let s := machine.run State.init es
    Bounds s ∧ Fifo s log ∧ Calls s log :=
  machine.run_history_of
    (R := fun (s : State P) log => Bounds s ∧ Fifo s log ∧ Calls s log) (C := Fits) (h := [])
    (s := State.init)
    (fun s log e hfit ⟨hb, hf, hc⟩ => by
      have hmove := act_move hb e hfit
      exact ⟨hmove.bounds hb, fifo_movedNote (hmove.fifo hb hf), hmove.calls hb hc⟩)
    ⟨bounds_init, rfl, by simp [Touched], by simp⟩
    es hfits

/-- The device is a FIFO. In every run of any processes whose writes all fit, the bytes that
successful reads have copied out, in the order of their locked sections, followed by the bytes
still unread, are the bytes of the successful writes; and whenever a call has returned an error,
none of its steps has moved an index or the stream. -/
theorem globalvar_fifo (es : List (Event P))
    (hfits : ∀ pre e, pre ++ [e] <+: es → Fits (machine.run State.init pre) e) :
    let log := machine.history State.init es
    let s := machine.run State.init es
    log.flatMap Note.bytesOut ++ s.unread = log.flatMap Note.bytesIn ∧
      ∀ a p value b, log = a ++ .returned p value :: b → IsError value → ¬ Touched p a := by
  have hrun := run_invariants es hfits
  exact ⟨hrun.2.1, hrun.2.2.errors⟩

/-- Two writers, one of which fails after the other has raised the flag, and a reader. -/
def mixedRun : List (Event ℕ) :=
  [⟨0, .write [1, 2]⟩, ⟨1, .write [3, 4, 5]⟩, ⟨0, .writeLocked none⟩, ⟨2, .read 1⟩, ⟨0, .setFlag⟩,
    ⟨2, .pass⟩, ⟨1, .writeLocked (some [3])⟩, ⟨2, .readLocked false⟩]

theorem globalvar_fifo_mixed :
    machine.Along Fits State.init mixedRun ∧
      (machine.history State.init mixedRun).flatMap Note.bytesOut = [1, 2] ∧
      (machine.history State.init mixedRun).flatMap Note.bytesOut ++
        (machine.run State.init mixedRun).unread =
          (machine.history State.init mixedRun).flatMap Note.bytesIn := by
  have halong : machine.Along Fits State.init mixedRun :=
    ⟨by decide, by decide, by decide, by decide, by decide, by decide, by decide, by decide,
      trivial⟩
  exact ⟨halong, by decide, (globalvar_fifo mixedRun (machine.along_iff.mp halong)).1⟩

end LinuxLabs.GlobalVar
