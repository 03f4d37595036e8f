import LinuxLabs.GlobalVar

/-! The wait of `globalvar_read`. The flag is raised behind the lock and cleared under it; what
it says about the indices depends on where the writers are, and what a reader finds when it has
the lock depends on who had the lock before. -/
namespace LinuxLabs.GlobalVar
open EventRun

variable {P : Type} [DecidableEq P]

/-- Some writer has put its bytes in and has not raised the flag yet. -/
def State.Pending (s : State P) : Prop := ∃ p len, s.pc p = .copied len

/-- Unread bytes are announced, or about to be. -/
def Announced (s : State P) : Prop := s.readIndex < s.writeIndex → s.flag = 1 ∨ s.Pending

/-- A process that has nothing to announce can go anywhere without taking back an announcement. -/
lemma State.Pending.goto {s t : State P} {p : P} (h : s.Pending) (ht : t.pc = s.pc)
    (before : ∀ len, s.pc p ≠ .copied len) (c : Pc) : (t.goto p c).Pending := by
  obtain ⟨q, len, hq⟩ := h
  have hqp : q ≠ p := fun he => before len (he ▸ hq)
  exact ⟨q, len, by rw [State.goto_pc, if_neg hqp, ht, hq]⟩

theorem Move.announced {s s' : State P} {p : P} {notes : List (Note P)} (h : Move s p s' notes)
    (ha : Announced s) : Announced s' := by
  intro hlt
  cases h with
  | idle => exact ha hlt
  | goto c before after =>
    rcases ha hlt with hf | hp
    · exact .inl hf
    · exact .inr (hp.goto rfl before c)
  | fail value error before m kept =>
    rcases ha hlt with hf | hp
    · exact .inl hf
    · exact .inr (hp.goto rfl before _)
  | read before => exact absurd hlt (lt_irrefl _)
  | write buf fits => exact .inr ⟨p, buf.length, by rw [State.goto_pc, if_pos rfl]⟩
  | flag len before => exact .inl rfl

/-- No wake-up is lost. In every run of any processes whose writes all fit, unread bytes mean
that the flag is set, or that a writer is on its way from its locked section to the flag. If
there is no such writer any more, a reader that waits gets through. -/
theorem globalvar_announced (es : List (Event P))
    (hfits : ∀ pre e, pre ++ [e] <+: es → Fits (machine.run State.init pre) e) :
    let s := machine.run State.init es
    (s.readIndex < s.writeIndex → s.flag = 1 ∨ ∃ p len, s.pc p = .copied len) ∧
      ((∀ p len, s.pc p ≠ .copied len) → s.readIndex < s.writeIndex →
        ∀ p len, s.pc p = .waiting len → (machine.apply s ⟨p, .pass⟩).pc p = .passed len) := by
  intro s
  have hrun : Bounds s ∧ Announced s := machine.run_invariant_of
    (P := fun s : State P => Bounds s ∧ Announced s) (C := Fits)
    (fun s e hfit ⟨hb, ha⟩ => by
      have hmove := act_move hb e hfit
      exact ⟨hmove.bounds hb, hmove.announced ha⟩)
    ⟨bounds_init, fun hlt => absurd hlt (lt_irrefl _)⟩ es hfits
  refine ⟨hrun.2, fun hnone hlt p len hp => ?_⟩
  rcases hrun.2 hlt with hf | ⟨q, len', hq⟩
  · have hpass : (machine.apply s ⟨p, .pass⟩) = s.goto p (.passed len) := by
      simp [machine, act, hp, hf]
    rw [hpass, State.goto_pc, if_pos rfl]
  · exact absurd hq (hnone q len')

/-- A reader that waits, and a second writer between its locked section and the flag. -/
def lateFlag : List (Event ℕ) :=
  [⟨0, .write [1, 2]⟩, ⟨2, .read 1⟩, ⟨0, .writeLocked none⟩, ⟨1, .write [3]⟩, ⟨0, .setFlag⟩,
    ⟨1, .writeLocked none⟩, ⟨1, .setFlag⟩]

theorem globalvar_announced_late :
    (machine.run State.init lateFlag).readIndex < (machine.run State.init lateFlag).writeIndex ∧
      ((machine.run State.init lateFlag).flag = 1 ∨
        ∃ p len, (machine.run State.init lateFlag).pc p = .copied len) := by
  have hlt : (machine.run State.init lateFlag).readIndex <
      (machine.run State.init lateFlag).writeIndex := by decide
  have halong : machine.Along Fits State.init lateFlag := by decide
  exact ⟨hlt, (globalvar_announced lateFlag (machine.along_iff.mp halong)).1 hlt⟩

/-- The locked sections that succeed. -/
inductive Section
  | read
  | write
  deriving DecidableEq

def sectionOf (s : State P) (e : Event P) : List Section :=
  match s.pc e.who, e.action with
  | .passed _, .readLocked false => [.read]
  | .writing _, .writeLocked none => [.write]
  | _, _ => []

/-- The same machine, seen by an observer of the lock. -/
def lockMachine : Machine (State P) (Event P) Section := ⟨machine.apply, sectionOf⟩

/-- The event is a step of a read, and the read returns `value` with it. -/
def ReadReturns (s : State P) (e : Event P) (value : ℤ) : Prop :=
  (∃ len, s.pc e.who = .waiting len ∨ s.pc e.who = .passed len) ∧
    .returned e.who value ∈ (act s e.who e.action).2

/-- A read that does not fail returns something. -/
def NoFalseEnd (s : State P) (e : Event P) : Prop :=
  ∀ value, ReadReturns s e value → 0 ≤ value → 1 ≤ value

/-- The write of this event, if it is one, has a byte and fits. -/
def FitsSome (s : State P) (e : Event P) : Prop :=
  Fits s e ∧ ∀ buf ∈ writeBuf s e, 0 < buf.length

instance (s : State P) (e : Event P) : Decidable (FitsSome s e) :=
  inferInstanceAs (Decidable (_ ∧ _))

/-- What a step means for the lock. Outside of the successful sections the indices stay and no
read returns a length; a read leaves nothing unread, a write leaves something. -/
inductive LockStep (s : State P) (e : Event P) : Prop
  | other (none : sectionOf s e = [])
      (same : (machine.apply s e).readIndex = s.readIndex ∧
        (machine.apply s e).writeIndex = s.writeIndex)
      (returns : ∀ value, ReadReturns s e value → value < 0)
  | read (one : sectionOf s e = [.read])
      (drained : (machine.apply s e).readIndex = (machine.apply s e).writeIndex)
      (returns : ∀ value, ReadReturns s e value ↔ value = s.writeIndex - s.readIndex)
  | write (one : sectionOf s e = [.write])
      (filled : (machine.apply s e).readIndex < (machine.apply s e).writeIndex)
      (returns : ∀ value, ¬ ReadReturns s e value)

def Note.section? : Note P → Option Section
  | .copiedOut .. => some .read
  | .copiedIn .. => some .write
  | _ => none

/-- The bytes that are copied tell the section. -/
lemma sectionOf_eq (s : State P) (e : Event P) :
    sectionOf s e = (act s e.who e.action).2.filterMap Note.section? := by
  unfold sectionOf
  split
  case h_1 hpc ha => simp [act, hpc, ha, readLocked, Note.section?]
  case h_2 hpc ha => simp [act, hpc, ha, writeLocked, Note.section?]
  case h_3 hread hwrite =>
    unfold act
    split
    case h_3 => split_ifs <;> rfl
    case h_4 fault hpc ha =>
      cases fault with
      | true => rfl
      | false => exact absurd ha (hread _ hpc)
    case h_6 fault hpc ha =>
      cases fault with
      | some junk => rfl
      | none => exact absurd ha (hwrite _ hpc)
    all_goals rfl

omit [DecidableEq P] in
lemma sectionOf_read {s : State P} {e : Event P} (h : sectionOf s e = [.read]) :
    ∃ len, s.pc e.who = .passed len := by
  unfold sectionOf at h
  split at h
  case h_1 len hpc ha => exact ⟨_, hpc⟩
  all_goals simp at h

lemma sectionOf_write {s : State P} {e : Event P} (h : sectionOf s e = [.write]) :
    ∃ buf, writeBuf s e = some buf ∧ (act s e.who e.action).2 = [.copiedIn e.who buf] := by
  unfold sectionOf at h
  split at h
  case h_2 buf hpc ha =>
    exact ⟨buf, by simp [writeBuf, hpc, ha], by simp [act, hpc, ha, writeLocked]⟩
  all_goals simp at h

theorem lockStep {s : State P} (hb : Bounds s) {e : Event P} (h : FitsSome s e) : LockStep s e := by
  have hle := hb.le
  have hmove := act_move hb e h.1
  obtain ⟨s', notes, hact⟩ : ∃ s' notes, act s e.who e.action = (s', notes) := ⟨_, _, rfl⟩
  rw [hact] at hmove
  have hstep : machine.apply s e = s' := congrArg Prod.fst hact
  have hsec : sectionOf s e = notes.filterMap Note.section? := by rw [sectionOf_eq, hact]
  have hreturns {value : ℤ} (hv : ReadReturns s e value) : .returned e.who value ∈ notes := by
    have hmem := hv.2
    rwa [hact] at hmem
  cases hmove with
  | idle =>
    exact .other hsec (by rw [hstep]; exact ⟨rfl, rfl⟩) fun value hv =>
      absurd (hreturns hv) (by simp)
  | goto c before after =>
    exact .other hsec (by rw [hstep]; exact ⟨rfl, rfl⟩) fun value hv =>
      absurd (hreturns hv) (by simp)
  | fail code error before m kept =>
    refine .other hsec (by rw [hstep]; exact ⟨rfl, rfl⟩) fun value hv => ?_
    have hvalue : value = code := by simpa using hreturns hv
    rw [hvalue]
    rcases error with rfl | rfl <;> decide
  | read before =>
    obtain ⟨len, hpc⟩ := sectionOf_read hsec
    refine .read hsec (by rw [hstep]) fun value => ⟨fun hv => by simpa using hreturns hv, ?_⟩
    rintro rfl
    exact ⟨⟨len, .inr hpc⟩, by rw [hact]; simp⟩
  | write buf fits =>
    obtain ⟨buf', hbuf, hnotes⟩ := sectionOf_write hsec
    obtain rfl : buf = buf' := by simpa [hact] using hnotes
    have hsome : 0 < buf.length := h.2 buf hbuf
    refine .write hsec ?_ fun value hv => absurd (hreturns hv) (by simp)
    rw [hstep]
    change s.readIndex < s.writeIndex + buf.length
    omega
  | flag len before =>
    -- the length it returns is not that of a read
    refine .other hsec (by rw [hstep]; exact ⟨rfl, rfl⟩) fun value hv => ?_
    obtain ⟨⟨len', hpc | hpc⟩, -⟩ := hv <;> simp [before] at hpc

/-- Two sections that may follow each other: a read comes behind a write only. -/
def Section.Supplies (before after : Section) : Prop := before = .write ∨ after = .write

instance (a b : Section) : Decidable (a.Supplies b) := inferInstanceAs (Decidable (_ ∨ _))

/-- Induction over the events, along with the last section so far: bytes are unread exactly if
that was a write. -/
theorem along_noFalseEnd_iff {s : State P} {last : Section} (hb : Bounds s)
    (hlast : s.readIndex < s.writeIndex ↔ last = .write) (es : List (Event P))
    (hfits : machine.Along FitsSome s es) :
    machine.Along NoFalseEnd s es ↔
      (last :: lockMachine.history s es).IsChain Section.Supplies := by
  induction es generalizing s last with
  | nil => simp [Machine.Along, Machine.history]
  | cons e es ih =>
    have hb' : Bounds (machine.apply s e) := (act_move hb e hfits.1.1).bounds hb
    have hle := hb.le
    simp only [Machine.Along, Machine.history]
    change _ ↔ (last :: (sectionOf s e ++ lockMachine.history (machine.apply s e) es)).IsChain _
    cases lockStep hb hfits.1 with
    | other none same returns =>
      have hstep : NoFalseEnd s e := fun value hv h0 => absurd h0 (not_le.mpr (returns value hv))
      rw [none, List.nil_append, ← ih hb' (by rw [same.1, same.2]; exact hlast) hfits.2]
      exact and_iff_right hstep
    | read one drained returns =>
      have hstep : NoFalseEnd s e ↔ last = .write := by
        rw [← hlast]
        constructor
        · intro h
          have := h _ ((returns _).mpr rfl) (by omega)
          omega
        · intro hlt value hv _
          rw [(returns value).mp hv]
          omega
      have hnext : (machine.apply s e).readIndex < (machine.apply s e).writeIndex ↔
          Section.read = .write := by simp [drained]
      rw [one, List.singleton_append, List.isChain_cons_cons, ← ih hb' hnext hfits.2, hstep]
      simp [Section.Supplies]
    | write one filled returns =>
      have hstep : NoFalseEnd s e := fun value hv _ => absurd hv (returns value)
      rw [one, List.singleton_append, List.isChain_cons_cons,
        ← ih hb' (iff_of_true filled rfl) hfits.2]
      simp [Section.Supplies, hstep]

/-- When a read is never empty. In every run of any processes whose writes have a byte and fit,
all reads that do not fail return something exactly if, in the order in which the lock was held
with success, every read comes directly behind a write. -/
theorem globalvar_read_nonempty_iff (es : List (Event P))
    (hfits : ∀ pre e, pre ++ [e] <+: es → FitsSome (machine.run State.init pre) e) :
    (∀ pre e, pre ++ [e] <+: es →
        ∀ value, ReadReturns (machine.run State.init pre) e value → 0 ≤ value → 1 ≤ value) ↔
      (.read :: lockMachine.history State.init es).IsChain Section.Supplies := by
  rw [← along_noFalseEnd_iff bounds_init (by simp [State.init]) es (machine.along_iff.mpr hfits)]
  exact (machine.along_iff (C := NoFalseEnd)).symm

/-- Two readers pass the wait on one write; the second finds nothing. -/
def twoReaders : List (Event ℕ) :=
  [⟨0, .write [1]⟩, ⟨0, .writeLocked none⟩, ⟨0, .setFlag⟩, ⟨1, .read 8⟩, ⟨2, .read 8⟩, ⟨1, .pass⟩,
    ⟨2, .pass⟩, ⟨1, .readLocked false⟩]

theorem globalvar_read_empty :
    machine.Along FitsSome State.init (twoReaders ++ [⟨2, .readLocked false⟩]) ∧
      ReadReturns (machine.run State.init twoReaders) ⟨2, .readLocked false⟩ 0 := by
  have hacts : (act (machine.run State.init twoReaders) 2 (.readLocked false)).2 =
      [.copiedOut 2 [], .returned 2 0] := rfl
  refine ⟨by decide, ⟨8, .inr rfl⟩, ?_⟩
  rw [hacts]
  simp

/-- With one reader less, every read is behind a write. -/
theorem globalvar_read_nonempty_one :
    machine.Along FitsSome State.init twoReaders ∧
      ∀ pre e, pre ++ [e] <+: twoReaders →
        ∀ value, ReadReturns (machine.run State.init pre) e value → 0 ≤ value → 1 ≤ value := by
  have halong : machine.Along FitsSome State.init twoReaders := by decide
  exact ⟨halong,
    (globalvar_read_nonempty_iff twoReaders (machine.along_iff.mp halong)).mpr (by decide)⟩

end LinuxLabs.GlobalVar
