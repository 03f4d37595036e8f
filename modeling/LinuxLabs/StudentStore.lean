import LinuxLabs.EventRun
import LinuxLabs.ByteMemory

/-! The student store: one list of new students and two chains they are classified into by sex.
A student is known by the number of its allocation. Names are what `strcmp` sees from `m_name`
on: a name that fills the field runs on into the members behind it. What the list nodes at the
end of a student hold is not modelled; every call is given it. -/
namespace LinuxLabs.StudentStore
open ByteMemory EventRun

def maxStringLen : ℕ := 32

/-- `m_name`, `m_sex`, padding and `m_age`, then two list nodes of two pointers each. -/
def sizeofStudent : ℕ := 72

/-- The bytes of a C string, without the terminator. -/
abbrev CString := {bs : List UInt8 // 0 ∉ bs}

/-- The C string at the beginning of some bytes. -/
def cString (bs : List UInt8) : List UInt8 := bs.takeWhile (· ≠ 0)

structure Student where
  id : ℕ
  mName : List UInt8
  mSex : UInt8
  pad : List UInt8
  mAge : Int32
  deriving DecidableEq

/-- `memset`, `strncpy` of the whole string, and the two stores behind it. The list nodes are
initialised after the copy, so of a longer string nothing is left in them. -/
def newStudent (id : ℕ) (name : CString) (sex : UInt8) (age : Int32) : Student :=
  let copied := name.val.take 40 ++ List.replicate (40 - name.val.length) 0
  { id := id
    mName := copied.take maxStringLen
    mSex := sex
    pad := (copied.drop 33).take 3
    mAge := age }

/-- `links` are the bytes of each student's list nodes, `freed` the numbers of the students that
were given to `kfree`, in order. -/
structure Store where
  studentList : List Student
  stuHlist : Fin 2 → List Student
  links : ℕ → List UInt8
  allocated : ℕ
  freed : List ℕ

def Store.empty (links : ℕ → List UInt8) : Store := ⟨[], fun _ => [], links, 0, []⟩

/-- The bytes of a student, from `m_name` to the end of its allocation. -/
def Store.bytes (s : Store) (stu : Student) : List UInt8 :=
  stu.mName ++ [stu.mSex] ++ stu.pad ++ bytes32 stu.mAge.toUInt32 ++ s.links stu.id

/-- The name of a student, as `strcmp` reads it. It is one only if there is a terminator. -/
def Store.name (s : Store) (stu : Student) : List UInt8 := cString (s.bytes stu)

/-- The name ends in the allocation. -/
def Store.Terminated (s : Store) (stu : Student) : Prop := 0 ∈ s.bytes stu

instance (s : Store) (stu : Student) : Decidable (s.Terminated stu) :=
  inferInstanceAs (Decidable (_ ∈ _))

/-- Adds a student, unless one on the list has the name; `none` where the copy of the name
leaves the allocation. -/
def addStu (s : Store) (name : CString) (sex : UInt8) (age : Int32) (kmallocOk : Bool) :
    Option (ℤ × Store) :=
  if s.studentList.any (fun cur => decide (s.name cur = name.val)) then some (-1, s)
  else if !kmallocOk then some (-1, s)
  else if sizeofStudent < name.val.length then none
  else
    some (0, { s with
      studentList := s.studentList ++ [newStudent s.allocated name sex age]
      allocated := s.allocated + 1 })

def delStu (s : Store) (name : CString) : ℤ × Store :=
  match s.studentList.find? (fun cur => decide (s.name cur = name.val)) with
  | none => (-1, s)
  | some cur =>
    (0, { s with
      studentList := s.studentList.eraseP fun cur => decide (s.name cur = name.val)
      freed := s.freed ++ [cur.id] })

def male : UInt8 := 109
def female : UInt8 := 102

def hlistAddHead (h : Fin 2 → List Student) (id : Fin 2) (stu : Student) : Fin 2 → List Student :=
  Function.update h id (stu :: h id)

/-- A student leaves the list before its sex is looked at; at another sex the loop returns. -/
def classifyLoop : List Student → (Fin 2 → List Student) → List Student × (Fin 2 → List Student)
  | [], h => ([], h)
  | cur :: rest, h =>
    if male = cur.mSex then classifyLoop rest (hlistAddHead h 0 cur)
    else if female = cur.mSex then classifyLoop rest (hlistAddHead h 1 cur)
    else (rest, h)

def classifyStu (s : Store) : Store :=
  let (list, hlist) := classifyLoop s.studentList s.stuHlist
  { s with studentList := list, stuHlist := hlist }

def cleanUpList (s : Store) : Store :=
  { s with studentList := [], freed := s.freed ++ s.studentList.map Student.id }

def cleanUpHlist (s : Store) : Store :=
  { s with
    stuHlist := fun _ => []
    freed := s.freed ++ (s.stuHlist 0).map Student.id ++ (s.stuHlist 1).map Student.id }

def cleanUp (s : Store) : Store := cleanUpHlist (cleanUpList s)

inductive Call
  | addStu (name : CString) (sex : UInt8) (age : Int32)
  | delStu (name : CString)
  | classifyStu

/-- A call, whether its allocation succeeds, and the list nodes after it. -/
structure Event where
  call : Call
  kmallocOk : Bool
  links : ℕ → List UInt8

def Call.run (s : Store) (kmallocOk : Bool) : Call → Option (ℤ × Store)
  | .addStu name sex age => StudentStore.addStu s name sex age kmallocOk
  | .delStu name => some (StudentStore.delStu s name)
  | .classifyStu => some (0, StudentStore.classifyStu s)

def Event.run (s : Store) (e : Event) : Option (ℤ × Store) :=
  (e.call.run s e.kmallocOk).map fun (ret, s) => (ret, { s with links := e.links })

def machine : Machine (Option Store) Event Unit :=
  ⟨fun o e => o.bind fun s => (e.run s).map Prod.snd, fun _ _ => []⟩

/-- All students held, on the list and on the two chains. -/
def Store.chained (s : Store) : List Student := s.stuHlist 0 ++ s.stuHlist 1

def Store.held (s : Store) : List Student := s.studentList ++ s.chained

def Call.newName : Call → Option CString
  | .addStu name _ _ => some name
  | _ => none

/-- The name of a new student fits `m_name` with its terminator. -/
def Event.ShortName (e : Event) : Prop :=
  ∀ name ∈ e.call.newName, name.val.length < maxStringLen

instance (e : Event) : Decidable e.ShortName :=
  inferInstanceAs (Decidable (∀ name ∈ e.call.newName, _))

/-- Each student ever allocated is held in one place or has been freed, once. -/
def Conserved (s : Store) : Prop :=
  (s.held.map Student.id ++ s.freed).Perm (List.range s.allocated)

/-- The students a call is going to classify. -/
def Call.students (s : Store) : Call → List Student
  | .classifyStu => s.studentList
  | _ => []

/-- At a call of `classify_stu`, the list has no student of another sex. -/
def Classifiable (s : Store) (e : Event) : Prop :=
  ∀ stu ∈ e.call.students s, stu.mSex = male ∨ stu.mSex = female

instance (s : Store) (e : Event) : Decidable (Classifiable s e) :=
  inferInstanceAs (Decidable (∀ stu ∈ e.call.students s, _))

lemma classifyLoop_subset (l : List Student) (h : Fin 2 → List Student) :
    (classifyLoop l h).1 ⊆ l := by
  induction l generalizing h with
  | nil => exact List.Subset.refl _
  | cons cur rest ih =>
    rw [classifyLoop]
    split_ifs with hm hf
    · exact List.Subset.trans (ih _) (List.subset_cons_self cur rest)
    · exact List.Subset.trans (ih _) (List.subset_cons_self cur rest)
    · exact List.subset_cons_self cur rest

lemma classifyLoop_held {l : List Student} (h : Fin 2 → List Student)
    (hsex : ∀ stu ∈ l, stu.mSex = male ∨ stu.mSex = female) :
    let r := classifyLoop l h
    r.1 = [] ∧ (l ++ (h 0 ++ h 1)).Perm (r.2 0 ++ r.2 1) := by
  induction l generalizing h with
  | nil => exact ⟨rfl, List.Perm.refl _⟩
  | cons cur rest ih =>
    have hrest : ∀ stu ∈ rest, stu.mSex = male ∨ stu.mSex = female :=
      fun stu hstu => hsex stu (by simp [hstu])
    rw [classifyLoop]
    split_ifs with hm hf
    · obtain ⟨hnil, hperm⟩ := ih (hlistAddHead h 0 cur) hrest
      refine ⟨hnil, List.Perm.trans ?_ hperm⟩
      simp only [hlistAddHead, Function.update_self, ne_eq, one_ne_zero, not_false_eq_true,
        Function.update_of_ne, List.cons_append]
      exact List.perm_middle.symm
    · obtain ⟨hnil, hperm⟩ := ih (hlistAddHead h 1 cur) hrest
      refine ⟨hnil, List.Perm.trans ?_ hperm⟩
      simp only [hlistAddHead, Function.update_self, ne_eq, zero_ne_one, not_false_eq_true,
        Function.update_of_ne, List.cons_append]
      rw [← List.append_assoc, ← List.append_assoc, ← List.cons_append]
      exact List.perm_middle.symm
    · rcases hsex cur (by simp) with h' | h'
      · exact absurd h'.symm hm
      · exact absurd h'.symm hf

/-- A student of another sex drops out. -/
lemma classifyLoop_loses {l : List Student} (h : Fin 2 → List Student)
    (hsex : ¬ ∀ stu ∈ l, stu.mSex = male ∨ stu.mSex = female) :
    let r := classifyLoop l h
    (r.1 ++ (r.2 0 ++ r.2 1)).length + 1 = (l ++ (h 0 ++ h 1)).length := by
  induction l generalizing h with
  | nil => simp at hsex
  | cons cur rest ih =>
    rw [classifyLoop]
    split_ifs with hm hf
    · have hrest : ¬ ∀ stu ∈ rest, stu.mSex = male ∨ stu.mSex = female := by
        intro hr
        exact hsex (by simpa [← hm] using hr)
      have hlen := ih (hlistAddHead h 0 cur) hrest
      simp only [hlistAddHead, Function.update_self, ne_eq, one_ne_zero, not_false_eq_true,
        Function.update_of_ne, List.length_append, List.length_cons] at hlen ⊢
      omega
    · have hrest : ¬ ∀ stu ∈ rest, stu.mSex = male ∨ stu.mSex = female := by
        intro hr
        exact hsex (by simpa [← hf] using hr)
      have hlen := ih (hlistAddHead h 1 cur) hrest
      simp only [hlistAddHead, Function.update_self, ne_eq, zero_ne_one, not_false_eq_true,
        Function.update_of_ne, List.length_append, List.length_cons] at hlen ⊢
      omega
    · simp only [List.length_append, List.length_cons]
      omega

lemma classifyStu_conserved {s : Store} (h : Conserved s) :
    Conserved (classifyStu s) ↔ ∀ stu ∈ s.studentList, stu.mSex = male ∨ stu.mSex = female := by
  unfold Conserved Store.held Store.chained at h ⊢
  constructor
  · intro hc
    by_contra hsex
    have hlost := classifyLoop_loses s.stuHlist hsex
    have hlen := h.length_eq
    have hlen' := hc.length_eq
    simp only [classifyStu, List.length_append, List.length_map, List.length_range]
      at hlost hlen hlen'
    omega
  · intro hsex
    obtain ⟨hnil, hperm⟩ := classifyLoop_held s.stuHlist hsex
    refine List.Perm.trans ?_ h
    simp only [classifyStu, hnil, List.nil_append]
    exact ((hperm.map Student.id).append_right _).symm

lemma addStu_conserved {s s' : Store} {name : CString} {sex : UInt8} {age : Int32} {ok : Bool}
    {ret : ℤ} (h : Conserved s) (hadd : addStu s name sex age ok = some (ret, s')) :
    Conserved s' := by
  unfold addStu at hadd
  split_ifs at hadd
  · obtain ⟨-, rfl⟩ := Prod.mk.inj (Option.some.inj hadd)
    exact h
  · obtain ⟨-, rfl⟩ := Prod.mk.inj (Option.some.inj hadd)
    exact h
  · obtain ⟨-, rfl⟩ := Prod.mk.inj (Option.some.inj hadd)
    have hnew : ((s.studentList ++ [newStudent s.allocated name sex age]) ++ s.chained).map
        Student.id ++ s.freed = s.studentList.map Student.id ++
          s.allocated :: (s.chained.map Student.id ++ s.freed) := by
      simp [newStudent]
    have hold : s.held.map Student.id ++ s.freed =
        s.studentList.map Student.id ++ (s.chained.map Student.id ++ s.freed) := by
      simp [Store.held]
    unfold Conserved at h ⊢
    rw [hold] at h
    refine (List.Perm.of_eq hnew).trans (List.perm_middle.trans ?_)
    rw [List.range_succ]
    exact (h.cons _).trans (List.perm_append_singleton _ _).symm

lemma find?_eraseP {α : Type*} {p : α → Bool} {l : List α} {a : α} (h : l.find? p = some a) :
    l.Perm (a :: l.eraseP p) := by
  obtain ⟨hp, as, bs, rfl, has⟩ := List.find?_eq_some_iff_append.mp h
  rw [List.eraseP_append_right _ (by simpa using has), List.eraseP_cons_of_pos hp]
  exact List.perm_middle

lemma delStu_conserved {s : Store} {name : CString} (h : Conserved s) :
    Conserved (delStu s name).2 := by
  unfold delStu
  cases hf : s.studentList.find? (fun cur => decide (s.name cur = name.val)) with
  | none => exact h
  | some cur =>
    have hperm := (find?_eraseP hf).map Student.id
    have hrest := (hperm.append_right (s.chained.map Student.id)).append_right s.freed
    refine List.Perm.trans ?_ (hrest.symm.trans (by simpa [Conserved, Store.held] using h))
    simp only [Store.held, List.map_append, List.map_cons, List.cons_append, List.append_assoc]
    rw [← List.append_assoc, ← List.append_assoc, ← List.append_assoc]
    exact List.perm_append_singleton _ _

lemma addStu_short {s : Store} {name : CString} (h : name.val.length < maxStringLen) (sex : UInt8)
    (age : Int32) (ok : Bool) : ∃ ret s', addStu s name sex age ok = some (ret, s') := by
  unfold addStu
  split_ifs with h1 h2 h3
  · exact ⟨_, _, rfl⟩
  · exact ⟨_, _, rfl⟩
  · exact absurd h3 (by unfold maxStringLen at h; unfold sizeofStudent; omega)
  · exact ⟨_, _, rfl⟩

/-- A call with a short name is carried out, and keeps track of all students exactly if it is
not the classification of one it has no chain for. -/
theorem Event.run_conserved {s : Store} (h : Conserved s) {e : Event} (hshort : e.ShortName) :
    ∃ ret s', e.run s = some (ret, s') ∧ (Conserved s' ↔ Classifiable s e) := by
  obtain ⟨call, ok, links⟩ := e
  cases call with
  | addStu name sex age =>
    obtain ⟨ret, s', hadd⟩ := addStu_short (s := s) (hshort name rfl) sex age ok
    have hc := addStu_conserved h hadd
    exact ⟨ret, { s' with links := links }, by simp [Event.run, Call.run, hadd],
      iff_of_true hc (by simp [Classifiable, Call.students])⟩
  | delStu name =>
    exact ⟨_, _, rfl, iff_of_true (delStu_conserved h) (by simp [Classifiable, Call.students])⟩
  | classifyStu =>
    exact ⟨_, _, rfl, classifyStu_conserved h⟩

/-- Every student has been freed, once, and the three lists are empty. -/
structure CleanedUp (s : Store) : Prop where
  freed : s.freed.Perm (List.range s.allocated)
  list : s.studentList = []
  hlist : ∀ id, s.stuHlist id = []

lemma Conserved.cleanUp {s : Store} (h : Conserved s) : CleanedUp (cleanUp s) := by
  refine ⟨List.Perm.trans ?_ h, rfl, fun _ => rfl⟩
  simp only [StudentStore.cleanUp, cleanUpHlist, cleanUpList, List.append_assoc]
  rw [← List.map_append, ← List.map_append]
  exact List.perm_append_comm

lemma conserved_empty (links : ℕ → List UInt8) : Conserved (Store.empty links) :=
  List.Perm.refl _

/-- No student is lost or freed twice in exactly those runs in which `classify_stu` never meets
a student it has no chain for. -/
theorem conserved_iff_classifiable (links : ℕ → List UInt8) (es : List Event)
    (hshort : ∀ e ∈ es, e.ShortName) :
    let start := some (Store.empty links)
    ((∀ pre, pre <+: es → ∃ s ∈ machine.run start pre, Conserved s) ∧
        ∃ s ∈ machine.run start es, CleanedUp (cleanUp s)) ↔
      ∀ pre e, pre ++ [e] <+: es → ∀ s ∈ machine.run start pre, Classifiable s e := by
  intro start
  have hstart : ∃ s ∈ start, Conserved s := ⟨_, rfl, conserved_empty links⟩
  have hiff : machine.Along (fun o e => ∃ s ∈ machine.apply o e, Conserved s) start es ↔
      machine.Along (fun o e => ∀ s ∈ o, Classifiable s e) start es := by
    refine machine.along_congr (P := fun o => ∃ s ∈ o, Conserved s) ?_ ?_ hstart
    · rintro _ e he ⟨s, rfl, hs⟩
      obtain ⟨ret, s', hrun, hc⟩ := Event.run_conserved hs (hshort e he)
      simp [machine, hrun, hc]
    · rintro _ e he ⟨s, rfl, hs⟩ hclass
      obtain ⟨ret, s', hrun, hc⟩ := Event.run_conserved hs (hshort e he)
      exact ⟨s', by simp [machine, hrun], hc.mpr (hclass s rfl)⟩
  rw [machine.forall_prefix_iff (Q := fun o => ∃ s ∈ o, Conserved s), hiff, machine.along_iff]
  constructor
  · exact fun h => h.1.2
  · intro h
    refine ⟨⟨hstart, h⟩, ?_⟩
    have hall := (machine.forall_prefix_iff (Q := fun o => ∃ s ∈ o, Conserved s)).mpr
      ⟨hstart, hiff.mpr (machine.along_iff.mpr h)⟩
    obtain ⟨s, hs, hc⟩ := hall es List.prefix_rfl
    exact ⟨s, hs, hc.cleanUp⟩

def noLinks : ℕ → List UInt8 := fun _ => []

/-- Two students are added and classified, a third one is added and deleted again. -/
def schoolYear : List Event :=
  [⟨.addStu ⟨[97], by decide⟩ male 18, true, noLinks⟩,
    ⟨.addStu ⟨[98], by decide⟩ female 17, true, noLinks⟩, ⟨.classifyStu, true, noLinks⟩,
    ⟨.addStu ⟨[99], by decide⟩ male 17, true, noLinks⟩, ⟨.delStu ⟨[99], by decide⟩, true, noLinks⟩]

theorem conserved_iff_classifiable_year :
    (∀ e ∈ schoolYear, e.ShortName) ∧
      ∃ s ∈ machine.run (some (Store.empty noLinks)) schoolYear, CleanedUp (cleanUp s) := by
  have hshort : ∀ e ∈ schoolYear, e.ShortName := by decide
  have halong : machine.Along (fun o e => ∀ s ∈ o, Classifiable s e)
      (some (Store.empty noLinks)) schoolYear := by decide
  exact ⟨hshort, ((conserved_iff_classifiable noLinks schoolYear hshort).mpr
    (machine.along_iff.mp halong)).2⟩

/-- A student of a third sex is classified. -/
def thirdSex : List Event :=
  [⟨.addStu ⟨[97], by decide⟩ 120 18, true, noLinks⟩, ⟨.classifyStu, true, noLinks⟩]

/-- It is on no list afterwards and never freed. -/
theorem third_sex_lost :
    (∀ e ∈ thirdSex, e.ShortName) ∧
      ∃ s ∈ machine.run (some (Store.empty noLinks)) thirdSex,
        ¬ Conserved s ∧ ¬ CleanedUp (cleanUp s) := by
  refine ⟨by decide, _, rfl, fun hc => ?_, fun hc => ?_⟩
  · exact absurd hc.length_eq (by decide)
  · exact absurd hc.freed.length_eq (by decide)

end LinuxLabs.StudentStore
