import LinuxLabs.StudentStore

/-! The student store as a set keyed by name. `add_stu` and `del_stu` look for a name on the list
only, so that a student answers to its name until it is classified. -/
namespace LinuxLabs.StudentStore
open ByteMemory EventRun

def Held (s : Store) (name : List UInt8) : Prop := ∃ stu ∈ s.held, s.name stu = name

/-- No two students held have the same name. -/
def Unique (s : Store) : Prop := (s.held.map s.name).Nodup

instance (s : Store) : Decidable (Unique s) := inferInstanceAs (Decidable (List.Nodup _))

/-- The students and where they are have not changed. -/
def Same (s s' : Store) : Prop := s' = { s with links := s'.links }

/-- What a call on a set keyed by name does. -/
def Call.Keyed (s : Store) (ret : ℤ) (s' : Store) : Call → Prop
  | .addStu name sex age =>
    (ret = -1 ↔ Held s name.val) ∧ (ret = -1 → Same s s') ∧
      (ret ≠ -1 → ∃ stu ∈ s'.held, s'.name stu = name.val ∧ stu.mSex = sex ∧ stu.mAge = age)
  | .delStu name =>
    (ret = 0 ↔ Held s name.val) ∧
      (ret = 0 → ∃ stu, s.name stu = name.val ∧ s.held.Perm (stu :: s'.held))
  | .classifyStu => True

/-- The call returns, has done what a call on a set does, and leaves names unique. -/
def KeyedStep (o : Option Store) (e : Event) : Prop :=
  ∃ s ∈ o, ∃ ret s', e.run s = some (ret, s') ∧ Unique s' ∧ e.call.Keyed s ret s'

/-- The sex of a new student is one of the two that have a chain, and there is memory for it. -/
def Call.SexOk : Call → Prop
  | .addStu _ sex _ => sex = male ∨ sex = female
  | _ => True

instance (c : Call) : Decidable c.SexOk :=
  match c with
  | .addStu _ sex _ => inferInstanceAs (Decidable (sex = male ∨ sex = female))
  | .delStu _ => .isTrue trivial
  | .classifyStu => .isTrue trivial

def Event.Admissible (e : Event) : Prop := e.call.SexOk ∧ e.kmallocOk = true

instance (e : Event) : Decidable e.Admissible := inferInstanceAs (Decidable (_ ∧ _))

def Call.name? : Call → Option CString
  | .addStu name _ _ => some name
  | .delStu name => some name
  | .classifyStu => none

/-- No student on the chains has the name that the call is about. -/
def Unclassified (s : Store) (e : Event) : Prop :=
  ∀ name ∈ e.call.name?, ∀ stu ∈ s.chained, s.name stu ≠ name.val

instance (s : Store) (e : Event) : Decidable (Unclassified s e) :=
  inferInstanceAs (Decidable (∀ name ∈ e.call.name?, ∀ stu ∈ s.chained, _))

/-- What is in `m_name`, up to the terminator. -/
def Student.key (stu : Student) : List UInt8 := cString stu.mName

lemma cString_append {bs : List UInt8} (h : 0 ∈ bs) (cs : List UInt8) :
    cString (bs ++ cs) = cString bs := by
  induction bs with
  | nil => simp at h
  | cons b bs ih =>
    by_cases hb : b = 0
    · simp [cString, hb]
    · have h0 : 0 ∈ bs := by simpa [Ne.symm hb] using h
      have hrec := ih h0
      simp only [cString, List.cons_append, ne_eq, hb, not_false_eq_true, decide_true,
        List.takeWhile_cons_of_pos, List.cons.injEq, true_and] at hrec ⊢
      exact hrec

/-- A terminated name does not depend on what stands behind it. -/
lemma name_eq_key (s : Store) {stu : Student} (h : 0 ∈ stu.mName) : s.name stu = stu.key := by
  rw [Store.name, Store.bytes, Student.key, List.append_assoc, List.append_assoc, List.append_assoc,
    cString_append h]

lemma newStudent_mName (id : ℕ) {name : CString} (h : name.val.length < maxStringLen)
    (sex : UInt8) (age : Int32) :
    (newStudent id name sex age).mName =
      name.val ++ List.replicate (maxStringLen - name.val.length) 0 := by
  unfold maxStringLen at h
  have htake : name.val.take 40 = name.val := List.take_of_length_le (by omega)
  have htake' : name.val.take 32 = name.val := List.take_of_length_le (by omega)
  simp only [newStudent, maxStringLen, htake, List.take_append, htake', List.take_replicate]
  congr 2
  omega

lemma newStudent_terminated (id : ℕ) {name : CString} (h : name.val.length < maxStringLen)
    (sex : UInt8) (age : Int32) : 0 ∈ (newStudent id name sex age).mName := by
  rw [newStudent_mName id h]
  simp only [List.mem_append, List.mem_replicate, and_true]
  right
  omega

lemma newStudent_key (id : ℕ) {name : CString} (h : name.val.length < maxStringLen)
    (sex : UInt8) (age : Int32) : (newStudent id name sex age).key = name.val := by
  have hne : ∀ b ∈ name.val, decide (b ≠ 0) = true := by
    intro b hb
    simp only [ne_eq, decide_eq_true_eq]
    rintro rfl
    exact name.property hb
  obtain ⟨n, hn⟩ : ∃ n, maxStringLen - name.val.length = n + 1 :=
    ⟨maxStringLen - name.val.length - 1, by omega⟩
  rw [Student.key, newStudent_mName id h, hn, cString, List.takeWhile_append_of_pos hne]
  simp [List.replicate_succ]

/-- All names held are terminated, all sexes on the list have a chain, and names are unique. -/
structure Tidy (s : Store) : Prop where
  terminated : ∀ stu ∈ s.held, 0 ∈ stu.mName
  sexes : ∀ stu ∈ s.studentList, stu.mSex = male ∨ stu.mSex = female
  unique : (s.held.map Student.key).Nodup

lemma Tidy.name {s : Store} (h : Tidy s) {stu : Student} (hstu : stu ∈ s.held) (t : Store) :
    t.name stu = stu.key := name_eq_key t (h.terminated stu hstu)

lemma Tidy.toUnique {s : Store} (h : Tidy s) : Unique s := by
  rw [Unique, List.map_congr_left fun stu hstu => h.name hstu s]
  exact h.unique

lemma Tidy.held_iff {s : Store} (h : Tidy s) {name : List UInt8} :
    Held s name ↔ (∃ stu ∈ s.studentList, stu.key = name) ∨ ∃ stu ∈ s.chained, stu.key = name := by
  constructor
  · rintro ⟨stu, hstu, hname⟩
    rw [h.name hstu] at hname
    rcases List.mem_append.mp hstu with hl | hc
    · exact .inl ⟨stu, hl, hname⟩
    · exact .inr ⟨stu, hc, hname⟩
  · rintro (⟨stu, hl, hname⟩ | ⟨stu, hc, hname⟩)
    · have hstu : stu ∈ s.held := List.mem_append_left _ hl
      exact ⟨stu, hstu, (h.name hstu s).trans hname⟩
    · have hstu : stu ∈ s.held := List.mem_append_right _ hc
      exact ⟨stu, hstu, (h.name hstu s).trans hname⟩

lemma Tidy.unclassified_iff {s : Store} (h : Tidy s) {name : CString} :
    (∀ stu ∈ s.chained, s.name stu ≠ name.val) ↔ ¬ ∃ stu ∈ s.chained, stu.key = name.val := by
  push Not
  apply forall₂_congr
  intro stu hstu
  rw [h.name (List.mem_append_right _ hstu)]

/-- A name on the list is not on a chain. -/
lemma Tidy.not_chained {s : Store} (h : Tidy s) {name : List UInt8}
    (hl : ∃ stu ∈ s.studentList, stu.key = name) : ¬ ∃ stu ∈ s.chained, stu.key = name := by
  obtain ⟨stu, hstu, rfl⟩ := hl
  rintro ⟨stu', hstu', hkey⟩
  have hu := h.unique
  rw [Store.held, List.map_append, List.nodup_append] at hu
  exact hu.2.2 _ (List.mem_map_of_mem hstu) _ (List.mem_map_of_mem hstu') hkey.symm

/-- A step as both properties see it: it is keyed exactly if its name is unclassified, and then
leaves a tidy store. -/
structure StepSound (s : Store) (e : Event) : Prop where
  iff : KeyedStep (some s) e ↔ Unclassified s e
  tidy : Unclassified s e → ∃ s' ∈ machine.apply (some s) e, Tidy s'

lemma StepSound.of_run {s s' : Store} {e : Event} {ret : ℤ} (hrun : e.run s = some (ret, s'))
    (htidy : Unclassified s e → Tidy s')
    (hkeyed : e.call.Keyed s ret s' ↔ Unclassified s e) : StepSound s e := by
  refine ⟨⟨?_, fun hu => ?_⟩, fun hu => ⟨s', by simp [machine, hrun], htidy hu⟩⟩
  · rintro ⟨s₀, hs₀, ret', s'', hrun', -, hk⟩
    obtain rfl : s = s₀ := Option.some.inj hs₀
    obtain ⟨rfl, rfl⟩ := Prod.mk.inj (Option.some.inj (hrun.symm.trans hrun'))
    exact hkeyed.mp hk
  · exact ⟨s, rfl, ret, s', hrun, (htidy hu).toUnique, hkeyed.mpr hu⟩

lemma Tidy.any_name {s : Store} (h : Tidy s) (name : List UInt8) :
    s.studentList.any (fun cur => decide (s.name cur = name)) = true ↔
      ∃ stu ∈ s.studentList, stu.key = name := by
  rw [List.any_eq_true]
  constructor
  · rintro ⟨stu, hstu, hname⟩
    rw [decide_eq_true_eq, h.name (List.mem_append_left _ hstu)] at hname
    exact ⟨stu, hstu, hname⟩
  · rintro ⟨stu, hstu, hname⟩
    refine ⟨stu, hstu, ?_⟩
    rw [decide_eq_true_eq, h.name (List.mem_append_left _ hstu), hname]

lemma addStu_sound {s : Store} (h : Tidy s) {name : CString}
    (hshort : name.val.length < maxStringLen) {sex : UInt8} (hsex : sex = male ∨ sex = female)
    (age : Int32) (links : ℕ → List UInt8) :
    StepSound s ⟨.addStu name sex age, true, links⟩ := by
  set e : Event := ⟨.addStu name sex age, true, links⟩ with he
  have hcond : Unclassified s e ↔ ¬ ∃ stu ∈ s.chained, stu.key = name.val := by
    rw [← h.unclassified_iff]
    simp [Unclassified, he, Call.name?]
  by_cases hl : ∃ stu ∈ s.studentList, stu.key = name.val
  · have hrun : e.run s = some (-1, { s with links := links }) := by
      simp only [he, Event.run, Call.run, addStu, (h.any_name name.val).mpr hl, if_true,
        Option.map_some]
    refine .of_run hrun (fun _ => ⟨h.terminated, h.sexes, h.unique⟩) (iff_of_true ?_ ?_)
    · exact ⟨iff_of_true rfl (h.held_iff.mpr (.inl hl)), fun _ => rfl, by simp⟩
    · exact hcond.mpr (h.not_chained hl)
  · have hany : ¬ s.studentList.any (fun cur => decide (s.name cur = name.val)) = true :=
      fun ha => hl ((h.any_name name.val).mp ha)
    have hsize : ¬ sizeofStudent < name.val.length := by
      unfold maxStringLen at hshort
      unfold sizeofStudent
      omega
    set stu := newStudent s.allocated name sex age with hstu
    have hkey : stu.key = name.val := newStudent_key _ hshort _ _
    have hterm : 0 ∈ stu.mName := newStudent_terminated _ hshort _ _
    set s' : Store := { s with
      studentList := s.studentList ++ [stu], allocated := s.allocated + 1, links := links } with hs'
    have hrun : e.run s = some (0, s') := by
      simp only [he, Event.run, Call.run, addStu, hany, if_false, hsize, Option.map_some,
        Bool.not_true, Bool.false_eq_true]
      rfl
    have hheld : s'.held.Perm (stu :: s.held) := by
      change ((s.studentList ++ [stu]) ++ s.chained).Perm (stu :: (s.studentList ++ s.chained))
      rw [List.append_assoc]
      exact List.perm_middle
    have hmem : stu ∈ s'.held := hheld.mem_iff.mpr (by simp)
    refine .of_run hrun (fun hu => ⟨fun b hb => ?_, fun b hb => ?_, ?_⟩) ?_
    · rcases List.mem_cons.mp (hheld.mem_iff.mp hb) with rfl | hb
      · exact hterm
      · exact h.terminated b hb
    · rcases List.mem_append.mp hb with hb | hb
      · exact h.sexes b hb
      · rw [List.mem_singleton.mp hb]
        exact hsex
    · rw [(hheld.map Student.key).nodup_iff, List.map_cons, List.nodup_cons, hkey]
      refine ⟨fun hn => ?_, h.unique⟩
      rw [Store.held, List.map_append, List.mem_append, List.mem_map, List.mem_map] at hn
      exact hn.elim hl (hcond.mp hu)
    · rw [hcond]
      constructor
      · rintro ⟨hret, -, -⟩ hc
        exact absurd (hret.mpr (h.held_iff.mpr (.inr hc))) (by decide)
      · intro hc
        refine ⟨iff_of_false (by decide) ?_, fun hr => absurd hr (by decide), fun _ => ?_⟩
        · rw [h.held_iff]
          exact fun hh => hh.elim hl hc
        · exact ⟨stu, hmem, (name_eq_key s' hterm).trans hkey, rfl, rfl⟩

lemma delStu_sound {s : Store} (h : Tidy s) (name : CString) (ok : Bool) (links : ℕ → List UInt8) :
    StepSound s ⟨.delStu name, ok, links⟩ := by
  set e : Event := ⟨.delStu name, ok, links⟩ with he
  have hcond : Unclassified s e ↔ ¬ ∃ stu ∈ s.chained, stu.key = name.val := by
    rw [← h.unclassified_iff]
    simp [Unclassified, he, Call.name?]
  cases hf : s.studentList.find? (fun cur => decide (s.name cur = name.val)) with
  | none =>
    have hrun : e.run s = some (-1, { s with links := links }) := by
      simp only [he, Event.run, Call.run, delStu, hf, Option.map_some]
    have hl : ¬ ∃ stu ∈ s.studentList, stu.key = name.val := by
      intro hl
      obtain ⟨stu, hstu, hn⟩ := List.any_eq_true.mp ((h.any_name name.val).mpr hl)
      exact List.find?_eq_none.mp hf stu hstu hn
    refine .of_run hrun (fun _ => ⟨h.terminated, h.sexes, h.unique⟩) ?_
    rw [hcond]
    constructor
    · rintro ⟨hret, -⟩ hc
      exact absurd (hret.mpr (h.held_iff.mpr (.inr hc))) (by decide)
    · intro hc
      refine ⟨iff_of_false (by decide) ?_, fun hr => absurd hr (by decide)⟩
      rw [h.held_iff]
      exact fun hh => hh.elim hl hc
  | some cur =>
    have hcur := List.mem_of_find?_eq_some hf
    have hname : s.name cur = name.val := by simpa using List.find?_some hf
    have hl : ∃ stu ∈ s.studentList, stu.key = name.val :=
      ⟨cur, hcur, (h.name (List.mem_append_left _ hcur) s).symm.trans hname⟩
    set rest := s.studentList.eraseP (fun cur => decide (s.name cur = name.val)) with hrest
    set s' : Store :=
      { s with studentList := rest, freed := s.freed ++ [cur.id], links := links } with hs'
    have hrun : e.run s = some (0, s') := by
      simp only [he, Event.run, Call.run, delStu, hf, Option.map_some]
      rfl
    have hheld : s.held.Perm (cur :: s'.held) := (find?_eraseP hf).append_right _
    refine .of_run hrun (fun _ => ⟨fun b hb => ?_, fun b hb => ?_, ?_⟩) (iff_of_true ?_ ?_)
    · exact h.terminated b (hheld.mem_iff.mpr (by simp [hb]))
    · exact h.sexes b (List.mem_of_mem_eraseP hb)
    · have hu := h.unique
      rw [(hheld.map Student.key).nodup_iff, List.map_cons, List.nodup_cons] at hu
      exact hu.2
    · exact ⟨iff_of_true rfl (h.held_iff.mpr (.inl hl)), fun _ => ⟨cur, hname, hheld⟩⟩
    · exact hcond.mpr (h.not_chained hl)

lemma classifyStu_sound {s : Store} (h : Tidy s) (ok : Bool) (links : ℕ → List UInt8) :
    StepSound s ⟨.classifyStu, ok, links⟩ := by
  obtain ⟨hnil, hperm⟩ := classifyLoop_held s.stuHlist h.sexes
  set s' : Store := { classifyStu s with links := links } with hs'
  have hheld : s.held.Perm s'.held := by
    simp only [Store.held, Store.chained, hs', classifyStu, hnil, List.nil_append]
    exact hperm
  have hrun : Event.run s ⟨.classifyStu, ok, links⟩ = some (0, s') := rfl
  refine .of_run hrun (fun _ => ⟨fun b hb => ?_, fun b hb => ?_, ?_⟩)
    (iff_of_true trivial (by simp [Unclassified, Call.name?]))
  · exact h.terminated b (hheld.mem_iff.mpr hb)
  · simp [hs', classifyStu, hnil] at hb
  · rw [← (hheld.map Student.key).nodup_iff]
    exact h.unique

theorem Tidy.step_sound {s : Store} (h : Tidy s) {e : Event} (hshort : e.ShortName)
    (hadm : e.Admissible) : StepSound s e := by
  obtain ⟨call, ok, links⟩ := e
  cases call with
  | addStu name sex age =>
    obtain ⟨hsex, rfl⟩ := hadm
    exact addStu_sound h (hshort name rfl) hsex age links
  | delStu name => exact delStu_sound h name ok links
  | classifyStu => exact classifyStu_sound h ok links

/-- Over all runs with names that fit their field: the store is a set keyed by name exactly as
long as no call is about the name of a student that has been classified. -/
theorem keyed_iff_unclassified (links : ℕ → List UInt8) (es : List Event)
    (hshort : ∀ e ∈ es, e.ShortName) (hadm : ∀ e ∈ es, e.Admissible) :
    let start := some (Store.empty links)
    (∀ pre e, pre ++ [e] <+: es → KeyedStep (machine.run start pre) e) ↔
      ∀ pre e, pre ++ [e] <+: es → ∀ s ∈ machine.run start pre, Unclassified s e := by
  intro start
  have hstart : ∃ s ∈ start, Tidy s :=
    ⟨_, rfl, by simp [Store.empty, Store.held, Store.chained], by simp [Store.empty],
      List.nodup_nil⟩
  rw [← machine.along_iff (C := KeyedStep),
    ← machine.along_iff (C := fun o e => ∀ s ∈ o, Unclassified s e)]
  refine machine.along_congr (P := fun o => ∃ s ∈ o, Tidy s) ?_ ?_ hstart
  · rintro _ e he ⟨s, rfl, hs⟩
    rw [(hs.step_sound (hshort e he) (hadm e he)).iff]
    simp
  · rintro _ e he ⟨s, rfl, hs⟩ hu
    exact (hs.step_sound (hshort e he) (hadm e he)).tidy (hu s rfl)

theorem keyed_iff_unclassified_year :
    (∀ e ∈ schoolYear, e.ShortName) ∧ (∀ e ∈ schoolYear, e.Admissible) ∧
      ∀ pre e, pre ++ [e] <+: schoolYear →
        KeyedStep (machine.run (some (Store.empty noLinks)) pre) e := by
  have hshort : ∀ e ∈ schoolYear, e.ShortName := by decide
  have hadm : ∀ e ∈ schoolYear, e.Admissible := by decide
  have halong : machine.Along (fun o e => ∀ s ∈ o, Unclassified s e)
      (some (Store.empty noLinks)) schoolYear := by decide
  exact ⟨hshort, hadm, (keyed_iff_unclassified noLinks schoolYear hshort hadm).mpr
    (machine.along_iff.mp halong)⟩

lemma oneLetter_terminated : (0 : UInt8) ∉ [97] := by decide

/-- A student is added, classified, and added again. -/
def addedAgain : List Event :=
  [⟨.addStu ⟨[97], oneLetter_terminated⟩ male 18, true, noLinks⟩, ⟨.classifyStu, true, noLinks⟩,
    ⟨.addStu ⟨[97], oneLetter_terminated⟩ male 19, true, noLinks⟩]

/-- The second `add_stu` returns zero, and two students have the name. -/
theorem classified_name_added_again :
    (∀ e ∈ addedAgain, e.ShortName) ∧ (∀ e ∈ addedAgain, e.Admissible) ∧
      (∃ s ∈ machine.run (some (Store.empty noLinks)) addedAgain, ¬ Unique s) ∧
      ¬ ∀ pre e, pre ++ [e] <+: addedAgain →
        KeyedStep (machine.run (some (Store.empty noLinks)) pre) e := by
  refine ⟨by decide, by decide, ⟨_, rfl, by decide⟩, fun h => ?_⟩
  obtain ⟨s, hs, ret, s', hrun, hu, -⟩ := (machine.along_iff.mpr h).2.2.1
  cases hs
  cases hrun
  exact absurd hu (by decide)

end LinuxLabs.StudentStore
