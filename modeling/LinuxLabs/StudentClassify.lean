import LinuxLabs.StudentHeap

/-! Classification as a partition. Each chain gets the students of its sex in reverse order, in
front of those it had; so it is the same whether students are classified round by round or all at
once. -/
namespace LinuxLabs.StudentStore

def sexOf : Fin 2 → UInt8
  | 0 => male
  | 1 => female

def Sexed (l : List Student) : Prop := ∀ stu ∈ l, stu.mSex = male ∨ stu.mSex = female

instance (l : List Student) : Decidable (Sexed l) := inferInstanceAs (Decidable (∀ stu ∈ l, _))

/-- The chains with the students of a list in front. -/
def partitioned (H : Fin 2 → List Student) (l : List Student) (id : Fin 2) : List Student :=
  (l.filter fun stu => stu.mSex = sexOf id).reverse ++ H id

lemma partitioned_append (H : Fin 2 → List Student) (l l' : List Student) :
    partitioned H (l ++ l') = partitioned (partitioned H l) l' := by
  funext id
  simp [partitioned, List.append_assoc]

lemma partitioned_cons (H : Fin 2 → List Student) {id : Fin 2} {stu : Student}
    (hsex : stu.mSex = sexOf id) (l : List Student) :
    partitioned H (stu :: l) = partitioned (hlistAddHead H id stu) l := by
  have hne : male ≠ female := by decide
  funext j
  fin_cases id <;> fin_cases j <;>
    simp_all [partitioned, hlistAddHead, sexOf, List.append_assoc, hne.symm]

theorem classifyLoop_partitioned {l : List Student} (h : Sexed l) (H : Fin 2 → List Student) :
    classifyLoop l H = ([], partitioned H l) := by
  induction l generalizing H with
  | nil => rfl
  | cons cur rest ih =>
    have hrest : Sexed rest := fun stu hstu => h stu (by simp [hstu])
    rw [classifyLoop]
    split_ifs with hm hf
    · have hsex : cur.mSex = sexOf 0 := hm.symm
      rw [ih hrest, partitioned_cons H hsex]
    · have hsex : cur.mSex = sexOf 1 := hf.symm
      rw [ih hrest, partitioned_cons H hsex]
    · rcases h cur (by simp) with h' | h'
      · exact absurd h'.symm hm
      · exact absurd h'.symm hf

/-- The arguments of a call of `add_stu`. -/
structure Addition where
  name : CString
  sex : UInt8
  age : Int32

/-- The call returns zero. -/
def Accepted (s : Store) (a : Addition) (s' : Store) : Prop :=
  ∃ kmallocOk links, Event.run s ⟨.addStu a.name a.sex a.age, kmallocOk, links⟩ = some (0, s')

/-- A round: calls of `add_stu`, all accepted. -/
def AddRound : Store → List Addition → Store → Prop
  | s, [], s' => s' = s
  | s, a :: as, s' => ∃ t, Accepted s a t ∧ AddRound t as s'

def Classified (s s' : Store) : Prop :=
  ∃ kmallocOk links, Event.run s ⟨.classifyStu, kmallocOk, links⟩ = some (0, s')

/-- Several rounds with a call of `classify_stu` after each. -/
def ClassifiedRounds : Store → List (List Addition) → Store → Prop
  | s, [], s' => s' = s
  | s, round :: rounds, s' =>
    ∃ t u, AddRound s round t ∧ Classified t u ∧ ClassifiedRounds u rounds s'

/-- The students that these calls add, numbered from `id`. -/
def newStudents : ℕ → List Addition → List Student
  | _, [] => []
  | id, a :: as => newStudent id a.name a.sex a.age :: newStudents (id + 1) as

lemma newStudents_append (id : ℕ) (as bs : List Addition) :
    newStudents id (as ++ bs) = newStudents id as ++ newStudents (id + as.length) bs := by
  induction as generalizing id with
  | nil => rfl
  | cons a as ih =>
    simp only [List.cons_append, newStudents, ih, List.length_cons]
    rw [Nat.add_right_comm, Nat.add_assoc]

lemma newStudents_sexed (id : ℕ) {as : List Addition}
    (h : ∀ a ∈ as, a.sex = male ∨ a.sex = female) : Sexed (newStudents id as) := by
  induction as generalizing id with
  | nil => simp [newStudents, Sexed]
  | cons a as ih =>
    intro stu hstu
    rcases List.mem_cons.mp hstu with rfl | hstu
    · exact h a (by simp)
    · exact ih (id + 1) (fun b hb => h b (by simp [hb])) stu hstu

lemma Accepted.eq {s s' : Store} {a : Addition} (h : Accepted s a s') :
    s'.studentList = s.studentList ++ [newStudent s.allocated a.name a.sex a.age] ∧
      s'.stuHlist = s.stuHlist ∧ s'.allocated = s.allocated + 1 := by
  obtain ⟨ok, links, hrun⟩ := h
  simp only [Event.run, Call.run, addStu] at hrun
  split_ifs at hrun
  all_goals simp at hrun
  subst hrun
  exact ⟨rfl, rfl, rfl⟩

lemma AddRound.eq {s s' : Store} {as : List Addition} (h : AddRound s as s') :
    s'.studentList = s.studentList ++ newStudents s.allocated as ∧
      s'.stuHlist = s.stuHlist ∧ s'.allocated = s.allocated + as.length := by
  induction as generalizing s with
  | nil =>
    obtain rfl : s' = s := h
    simp [newStudents]
  | cons a as ih =>
    obtain ⟨t, hacc, hrest⟩ := h
    obtain ⟨hlist, hchains, halloc⟩ := hacc.eq
    obtain ⟨hlist', hchains', halloc'⟩ := ih hrest
    refine ⟨?_, hchains'.trans hchains, ?_⟩
    · rw [hlist', hlist, halloc, List.append_assoc]
      rfl
    · rw [halloc', halloc, List.length_cons]
      omega

lemma AddRound.sexed {s s' : Store} {as : List Addition} (h : AddRound s as s')
    (hsex : Sexed s.studentList) (hnew : ∀ a ∈ as, a.sex = male ∨ a.sex = female) :
    Sexed s'.studentList := by
  intro stu hstu
  rw [h.eq.1] at hstu
  rcases List.mem_append.mp hstu with hstu | hstu
  · exact hsex stu hstu
  · exact newStudents_sexed _ hnew stu hstu

lemma Classified.eq {s s' : Store} (h : Classified s s') (hsex : Sexed s.studentList) :
    s'.studentList = [] ∧ s'.stuHlist = partitioned s.stuHlist s.studentList ∧
      s'.allocated = s.allocated := by
  obtain ⟨ok, links, hrun⟩ := h
  simp only [Event.run, Call.run, classifyStu, classifyLoop_partitioned hsex, Option.map_some,
    Option.some.injEq, Prod.mk.injEq, true_and] at hrun
  subst hrun
  exact ⟨rfl, rfl, rfl⟩

/-- After several rounds, each with its classification, the chains are those of all students
classified at once. -/
lemma ClassifiedRounds.eq {s s' : Store} {rounds : List (List Addition)}
    (h : ClassifiedRounds s rounds s') (hempty : rounds = [] → s.studentList = [])
    (hsex : Sexed s.studentList) (hnew : ∀ a ∈ rounds.flatten, a.sex = male ∨ a.sex = female) :
    s'.stuHlist = partitioned s.stuHlist
      (s.studentList ++ newStudents s.allocated rounds.flatten) := by
  induction rounds generalizing s with
  | nil =>
    obtain rfl : s' = s := h
    rw [hempty rfl]
    rfl
  | cons round rounds ih =>
    obtain ⟨t, u, hround, hclass, hrest⟩ := h
    obtain ⟨hlist, hchains, halloc⟩ := hround.eq
    have hsex' := hround.sexed hsex fun a ha => hnew a (by simp [ha])
    obtain ⟨hnil, hparts, halloc'⟩ := hclass.eq hsex'
    -- the rest of the rounds starts from an empty list
    have hchains' := ih hrest (fun _ => hnil) (by simp [hnil, Sexed])
      fun a ha => hnew a (by rw [List.flatten_cons, List.mem_append]; exact .inr ha)
    rw [hchains', hnil, List.nil_append, hparts, ← partitioned_append, hlist, hchains, halloc',
      halloc, List.append_assoc, ← newStudents_append, List.flatten_cons]

/-- The loop over the links ends with an empty list and with the students in front of the chains,
in reverse order and unchanged; and rounds that are classified one by one give the chains of one
classification at the end. -/
theorem classify_stu_partitions :
    (∀ (h : Heap) (s : Store) (fuel : ℕ), h.Represents s → Sexed s.studentList →
      s.studentList.length < fuel →
        ∃ h', h.classifyStu fuel = some h' ∧ h'.student = h.student ∧
          h'.Represents { s with studentList := [],
                                 stuHlist := partitioned s.stuHlist s.studentList }) ∧
    ∀ (s s₁ s₂ s₃ : Store) (rounds : List (List Addition)), Sexed s.studentList →
      (∀ a ∈ rounds.flatten, a.sex = male ∨ a.sex = female) → rounds ≠ [] →
      ClassifiedRounds s rounds s₁ → AddRound s rounds.flatten s₂ → Classified s₂ s₃ →
        s₁.stuHlist = s₃.stuHlist := by
  constructor
  · intro h s fuel hrep hsex hfuel
    obtain ⟨h', hrun, hrep', hstudent, -⟩ := Heap.classifyStu_refines hrep hfuel
    refine ⟨h', hrun, hstudent, ?_⟩
    simpa [StudentStore.classifyStu, classifyLoop_partitioned hsex] using hrep'
  · intro s s₁ s₂ s₃ rounds hsex hnew hne hrounds hadds hclass
    obtain ⟨hlist, hchains, -⟩ := hadds.eq
    have hsex' := hadds.sexed hsex hnew
    rw [hrounds.eq (fun h => absurd h hne) hsex hnew, (hclass.eq hsex').2.1, hlist, hchains]

/-- One student on the list and none on the chains. -/
def newcomer : Student := newStudent 0 ⟨[84, 111, 109], by decide⟩ male 18

def newcomerHeap : Heap :=
  { list := ⟨fun p => if p = none then some 0 else none, fun p => if p = none then some 0 else none⟩
    hlist := ⟨fun _ => none, fun _ => none, fun _ => none⟩
    student := fun _ => newcomer
    alive := fun n => n = 0 }

def newcomerStore : Store := { Store.empty noLinks with studentList := [newcomer], allocated := 1 }

lemma newcomerHeap_represents : newcomerHeap.Represents newcomerStore := by
  refine ⟨⟨⟨rfl, rfl, rfl, rfl⟩, by decide, by decide⟩, ⟨fun i => rfl, ?_, ?_, ?_⟩, ?_, ?_⟩
  all_goals
    simp [newcomerStore, newcomerHeap, newcomer, newStudent, Store.empty, Store.held, Store.chained]

/-- Two rounds of one student each. -/
def twoRounds : List (List Addition) :=
  [[⟨⟨[84, 111, 109], by decide⟩, male, 18⟩], [⟨⟨[74, 101, 114, 114, 121], by decide⟩, female, 17⟩]]

theorem classify_stu_partitions_newcomer :
    (newcomerHeap.Represents newcomerStore ∧ ∃ h', newcomerHeap.classifyStu 2 = some h' ∧
      h'.student = newcomerHeap.student ∧ h'.Represents { newcomerStore with
        studentList := [], stuHlist := partitioned (fun _ => []) [newcomer] }) ∧
    ∃ s₁ s₂ s₃, ClassifiedRounds (Store.empty noLinks) twoRounds s₁ ∧
      AddRound (Store.empty noLinks) twoRounds.flatten s₂ ∧ Classified s₂ s₃ ∧
      s₁.stuHlist = s₃.stuHlist := by
  refine ⟨⟨newcomerHeap_represents, ?_⟩, ?_⟩
  · exact classify_stu_partitions.1 _ _ 2 newcomerHeap_represents (by decide) (by decide)
  · have hrounds : ∃ s₁, ClassifiedRounds (Store.empty noLinks) twoRounds s₁ :=
      ⟨_, _, _, ⟨_, ⟨true, noLinks, rfl⟩, rfl⟩, ⟨true, noLinks, rfl⟩, _, _,
        ⟨_, ⟨true, noLinks, rfl⟩, rfl⟩, ⟨true, noLinks, rfl⟩, rfl⟩
    have hadds : ∃ s₂, AddRound (Store.empty noLinks) twoRounds.flatten s₂ :=
      ⟨_, _, ⟨true, noLinks, rfl⟩, _, ⟨true, noLinks, rfl⟩, rfl⟩
    obtain ⟨s₁, h₁⟩ := hrounds
    obtain ⟨s₂, h₂⟩ := hadds
    have h₃ : Classified s₂ (classifyStu s₂) := ⟨true, s₂.links, rfl⟩
    exact ⟨s₁, s₂, _, h₁, h₂, h₃, classify_stu_partitions.2 _ _ _ _ twoRounds (by decide)
      (by decide) (by decide) h₁ h₂ h₃⟩

end LinuxLabs.StudentStore
