import LinuxLabs.StudentHeap

/-! The calls of the student store on its memory. Every loop follows the links it finds, students
are allocated and freed on the way, and a call comes to nothing where it would touch a student that
is not allocated. No loop can take more turns than there are students. -/
namespace LinuxLabs.StudentStore
open ByteMemory EventRun IntrusiveList

/-- The addresses of `m_list` and `m_hlist` in the students and of the heads of the lists. -/
structure Layout where
  list : Option ℕ → UInt64
  hlist : Slot (Fin 2) ℕ → UInt64

def bytes64 (v : UInt64) : List UInt8 := bytes32 v.toUInt32 ++ bytes32 (v >>> 32).toUInt32

/-- The list nodes of a student as bytes. -/
def Heap.links (L : Layout) (h : Heap) (n : ℕ) : List UInt8 :=
  bytes64 (L.list (h.list.next (some n))) ++ bytes64 (L.list (h.list.prev (some n))) ++
    bytes64 ((h.hlist.next n).elim 0 fun m => L.hlist (.next m)) ++
      bytes64 ((h.hlist.pprev n).elim 0 L.hlist)

/-- The name at `m_name`, as `strcmp` and `printk` read it, none if there is no terminator in the
allocation. -/
def Heap.name (L : Layout) (h : Heap) (n : ℕ) : Option (List UInt8) :=
  let stu := h.student n
  let bytes := stu.mName ++ [stu.mSex] ++ stu.pad ++ bytes32 stu.mAge.toUInt32 ++ h.links L n
  if h.alive n ∧ 0 ∈ bytes then some (cString bytes) else none

structure Memory where
  heap : Heap
  allocated : ℕ
  freed : List ℕ

def Memory.turns (m : Memory) : ℕ := m.allocated + 1

def Memory.kfree (m : Memory) (n : ℕ) : Option Memory :=
  if m.heap.alive n then
    some { m with
      heap := { m.heap with alive := Function.update m.heap.alive n false }
      freed := m.freed ++ [n] }
  else none

/-- The loop of `add_stu`: a student on the list has the name. -/
def Heap.conflict (L : Layout) (h : Heap) (name : List UInt8) : ℕ → Option ℕ → Option Bool
  | 0, _ => none
  | _ + 1, none => some false
  | turns + 1, some cur => do
    if (← h.name L cur) = name then some true
    else Heap.conflict L h name turns (← h.list.follow h.alive (some cur))

def Memory.addStu (L : Layout) (m : Memory) (name : CString) (sex : UInt8) (age : Int32)
    (kmallocOk : Bool) : Option (ℤ × Memory) := do
  if ← m.heap.conflict L name.val m.turns (m.heap.list.next none) then some (-1, m)
  else if !kmallocOk then some (-1, m)
  else if sizeofStudent < name.val.length then none
  else
    let stu := m.allocated
    let alive := Function.update m.heap.alive stu true
    let list ← (m.heap.list.initNode stu).addTail alive stu
    some (0, { m with
      heap :=
        { list := list
          hlist := m.heap.hlist.initNode stu
          student := Function.update m.heap.student stu (newStudent stu name sex age)
          alive := alive }
      allocated := m.allocated + 1 })

/-- `list_del` and `kfree` of a student. -/
def Memory.remove (m : Memory) (n : ℕ) : Option Memory := do
  let list ← m.heap.list.del m.heap.alive n
  Memory.kfree { m with heap := { m.heap with list := list } } n

def Memory.delLoop (L : Layout) (m : Memory) (name : CString) :
    ℕ → Option ℕ → Option ℕ → Option (ℤ × Memory)
  | 0, _, _ => none
  | _ + 1, none, _ => some (-1, m)
  | turns + 1, some cur, next => do
    if name.val = (← m.heap.name L cur) then
      (m.remove cur).map fun m => (0, m)
    else Memory.delLoop L m name turns next (← m.heap.list.follow m.heap.alive next)

def Memory.delStu (L : Layout) (m : Memory) (name : CString) : Option (ℤ × Memory) := do
  let cur := m.heap.list.next none
  m.delLoop L name m.turns cur (← m.heap.list.follow m.heap.alive cur)

def Memory.classifyStu (m : Memory) : Option (ℤ × Memory) :=
  (m.heap.classifyStu m.turns).map fun h => (0, { m with heap := h })

def Memory.cleanUpListLoop : ℕ → Memory → Option ℕ → Option ℕ → Option Memory
  | 0, _, _, _ => none
  | _ + 1, m, none, _ => some m
  | turns + 1, m, some stu, next => do
    let m ← m.remove stu
    Memory.cleanUpListLoop turns m next (← m.heap.list.follow m.heap.alive next)

def Memory.cleanUpList (m : Memory) : Option Memory := do
  let stu := m.heap.list.next none
  m.cleanUpListLoop m.turns stu (← m.heap.list.follow m.heap.alive stu)

/-- `hlist_del` and `kfree` of a student. -/
def Memory.unhash (m : Memory) (n : ℕ) : Option Memory := do
  let hlist ← m.heap.hlist.del m.heap.alive n
  Memory.kfree { m with heap := { m.heap with hlist := hlist } } n

/-- The loop of `hlist_for_each_entry_safe` in `clean_up_hlist`. -/
def Memory.cleanUpChain : ℕ → Memory → Option ℕ → Option Memory
  | 0, _, _ => none
  | _ + 1, m, none => some m
  | turns + 1, m, some stu =>
    if m.heap.alive stu then do
      let n := m.heap.hlist.next stu
      Memory.cleanUpChain turns (← m.unhash stu) n
    else none

def Memory.cleanUpHlist (m : Memory) : Option Memory := do
  let m ← m.cleanUpChain m.turns (m.heap.hlist.first ⟨0, Nat.two_pos⟩)
  m.cleanUpChain m.turns (m.heap.hlist.first ⟨1, Nat.one_lt_two⟩)

def Memory.cleanUp (m : Memory) : Option Memory := do
  (← m.cleanUpList).cleanUpHlist

/-- What a line of a dump shows of a student. -/
structure Line where
  count : ℕ
  name : List UInt8
  sex : UInt8
  age : Int32
  deriving DecidableEq

def Heap.line (L : Layout) (h : Heap) (count n : ℕ) : Option Line :=
  (h.name L n).map fun name => ⟨count, name, (h.student n).mSex, (h.student n).mAge⟩

def Heap.dumpStudentsLoop (L : Layout) (h : Heap) : ℕ → ℕ → Option ℕ → Option (List Line)
  | 0, _, _ => none
  | _ + 1, _, none => some []
  | turns + 1, i, some stu => do
    let line ← h.line L i stu
    let lines ← Heap.dumpStudentsLoop L h turns (i + 1) (← h.list.follow h.alive (some stu))
    return line :: lines

def Memory.dumpStudents (L : Layout) (m : Memory) : Option (List Line) :=
  m.heap.dumpStudentsLoop L m.turns 1 (m.heap.list.next none)

def Heap.dumpHlistLoop (L : Layout) (h : Heap) : ℕ → ℕ → Option ℕ → Option (List Line)
  | 0, _, _ => none
  | _ + 1, _, none => some []
  | turns + 1, count, some stu => do
    let line ← h.line L count stu
    let lines ← Heap.dumpHlistLoop L h turns (count + 1) (h.hlist.next stu)
    return line :: lines

/-- The chain with this number; another number is refused, and nothing dumped. -/
def Memory.dumpHlist (L : Layout) (m : Memory) (id : ℤ) : Option (List Line) :=
  if h : 0 ≤ id ∧ id < 2 then
    m.heap.dumpHlistLoop L m.turns 1 (m.heap.hlist.first ⟨id.toNat, by omega⟩)
  else some []

/-- The memory when the module is loaded: `LIST_HEAD` and `init_hlists`, and no student. -/
def Memory.init (h : Heap) : Memory :=
  { heap :=
      { h with
        list := ⟨Function.update h.list.next none none, Function.update h.list.prev none none⟩
        hlist := { h.hlist with first := fun _ => none }
        alive := fun _ => false }
    allocated := 0
    freed := [] }

/-- A call, and whether its allocation succeeds. -/
def Memory.step (L : Layout) (m : Memory) : Call × Bool → Option (ℤ × Memory)
  | (.addStu name sex age, kmallocOk) => m.addStu L name sex age kmallocOk
  | (.delStu name, _) => m.delStu L name
  | (.classifyStu, _) => m.classifyStu

def Event.request (e : Event) : Call × Bool := (e.call, e.kmallocOk)

/-- The lines of a list of students. -/
def Store.lines (s : Store) (l : List Student) (count : ℕ) : List Line :=
  (l.zipIdx count).map fun (stu, i) => ⟨i, s.name stu, stu.mSex, stu.mAge⟩

/-- The memory holds these lists, and what is allocated and not freed is alive. -/
structure Memory.Represents (m : Memory) (s : Store) : Prop where
  heap : m.heap.Represents s
  allocated : m.allocated = s.allocated
  freed : m.freed = s.freed
  alive : ∀ n, m.heap.alive n = true ↔ n < m.allocated ∧ n ∉ m.freed
  nodup : m.freed.Nodup
  lt : ∀ n ∈ m.freed, n < m.allocated

/-- A student on the list has an `m_hlist` as `INIT_HLIST_NODE` has left it. -/
structure Memory.Holds (m : Memory) (s : Store) : Prop where
  represents : m.Represents s
  unhashed : ∀ stu ∈ s.studentList, m.heap.hlist.next stu.id = none

/-- The list nodes hold the addresses of those they lead to. -/
structure Memory.Refines (L : Layout) (m : Memory) (s : Store) : Prop extends Memory.Holds m s where
  links : s.links = m.heap.links L

lemma Store.mem_held {s : Store} {stu : Student} :
    stu ∈ s.held ↔ stu ∈ s.studentList ∨ ∃ i, stu ∈ s.stuHlist i := by
  simp [Store.held, Store.chained, Fin.exists_fin_two]

lemma Heap.Represents.alive {h : Heap} {s : Store} (hrep : h.Represents s) {stu : Student}
    (hstu : stu ∈ s.held) : h.alive stu.id = true := by
  rcases Store.mem_held.mp hstu with hstu | ⟨i, hstu⟩
  · exact hrep.list.alive _ (List.mem_map_of_mem hstu)
  · exact hrep.hlist.alive i _ (List.mem_map_of_mem hstu)

lemma Memory.Refines.name_eq {L : Layout} {m : Memory} {s : Store} (h : m.Refines L s)
    {stu : Student} (hstu : stu ∈ s.held) :
    m.heap.name L stu.id = if s.Terminated stu then some (s.name stu) else none := by
  have halive := h.represents.heap.alive hstu
  simp only [Heap.name, h.represents.heap.student stu hstu, Store.name, Store.Terminated,
    Store.bytes, h.links, halive, true_and]

/-- A student on the list has a null pointer in its `m_hlist`, and so a terminator. -/
lemma Memory.Refines.terminated {L : Layout} {m : Memory} {s : Store} (h : m.Refines L s)
    {stu : Student} (hstu : stu ∈ s.studentList) : s.Terminated stu := by
  have hnull : 0 ∈ bytes64 0 := by decide
  have hlinks : 0 ∈ s.links stu.id := by
    rw [h.links, Heap.links, h.unhashed stu hstu]
    simp only [Option.elim_none, List.mem_append]
    exact .inl (.inr hnull)
  exact List.mem_append_right _ hlinks

lemma Memory.Refines.name_list {L : Layout} {m : Memory} {s : Store} (h : m.Refines L s)
    {stu : Student} (hstu : stu ∈ s.studentList) : m.heap.name L stu.id = some (s.name stu) := by
  rw [h.name_eq (List.mem_append_left _ hstu), if_pos (h.terminated hstu)]

/-- Different students that are alive are not more than were ever allocated. -/
lemma Memory.Represents.length_lt_turns {m : Memory} {s : Store} (h : m.Represents s)
    {l : List Student} (hnodup : (l.map Student.id).Nodup)
    (halive : ∀ n ∈ l.map Student.id, m.heap.alive n = true) : l.length < m.turns := by
  have hsub : l.map Student.id ⊆ List.range m.allocated := fun n hn =>
    List.mem_range.mpr ((h.alive n).mp (halive n hn)).1
  have hlen := (List.subperm_of_subset hnodup hsub).length_le
  rw [List.length_map, List.length_range] at hlen
  exact Nat.lt_succ_of_le hlen

lemma Memory.Represents.list_lt_turns {m : Memory} {s : Store} (h : m.Represents s) :
    s.studentList.length < m.turns :=
  h.length_lt_turns h.heap.list.nodup h.heap.list.alive

lemma Memory.Represents.chain_lt_turns {m : Memory} {s : Store} (h : m.Represents s)
    (id : Fin 2) : (s.stuHlist id).length < m.turns :=
  h.length_lt_turns (h.heap.hlist.nodup id) (h.heap.hlist.alive id)

/-- The loop of `add_stu` over the rest of the list. -/
lemma Heap.conflict_eq {L : Layout} {h : Heap} {s : Store} {l : List Student} {p : Option ℕ}
    (hlinked : h.list.Linked p (l.map Student.id)) (halive : ∀ stu ∈ l, h.alive stu.id = true)
    (hname : ∀ stu ∈ l, h.name L stu.id = some (s.name stu)) (name : List UInt8) {turns : ℕ}
    (hturns : l.length < turns) :
    h.conflict L name turns (l.map Student.id).head? =
      some (l.any fun cur => decide (s.name cur = name)) := by
  induction l generalizing p turns with
  | nil =>
    obtain ⟨turns, rfl⟩ := Nat.exists_eq_succ_of_ne_zero (Nat.ne_of_gt hturns)
    rfl
  | cons cur rest ih =>
    obtain ⟨turns, rfl⟩ := Nat.exists_eq_succ_of_ne_zero (Nat.ne_of_gt (Nat.zero_lt_of_lt hturns))
    obtain ⟨-, -, hrest⟩ := hlinked
    have hfollow : h.list.follow h.alive (some cur.id) = some (rest.map Student.id).head? := by
      rw [← hrest.next_eq]
      exact if_pos (by simpa [RingList.Valid] using halive cur (by simp))
    have hrec := ih hrest (fun stu hstu => halive stu (by simp [hstu]))
      (fun stu hstu => hname stu (by simp [hstu])) (Nat.lt_of_succ_lt_succ hturns)
    simp only [List.map_cons, List.head?_cons, Heap.conflict, hname cur (by simp), hfollow, bind,
      Option.bind, hrec, List.any_cons]
    split_ifs with hcur
    · simp [hcur]
    · simp [hcur]

lemma Memory.Refines.conflict_eq {L : Layout} {m : Memory} {s : Store} (h : m.Refines L s)
    (name : List UInt8) :
    m.heap.conflict L name m.turns (m.heap.list.next none) =
      some (s.studentList.any fun cur => decide (s.name cur = name)) := by
  have hheld : ∀ stu ∈ s.studentList, stu ∈ s.held := fun stu hstu => List.mem_append_left _ hstu
  rw [h.represents.heap.list.linked.next_eq]
  exact Heap.conflict_eq h.represents.heap.list.linked
    (fun stu hstu => h.represents.heap.alive (hheld stu hstu))
    (fun stu hstu => h.name_list hstu) name h.represents.list_lt_turns

/-- A new student goes to the end of the list. -/
lemma Memory.Represents.push {m : Memory} {s : Store} (h : m.Represents s) (stu : Student)
    (hid : stu.id = m.allocated) :
    let alive := Function.update m.heap.alive m.allocated true
    ∃ list, (m.heap.list.initNode m.allocated).addTail alive m.allocated = some list ∧
      Memory.Represents
        { m with
          heap :=
            { list := list
              hlist := m.heap.hlist.initNode m.allocated
              student := Function.update m.heap.student m.allocated stu
              alive := alive }
          allocated := m.allocated + 1 }
        { s with studentList := s.studentList ++ [stu], allocated := s.allocated + 1 } := by
  intro alive
  have hdead : m.heap.alive m.allocated ≠ true := fun hal => by
    simpa using ((h.alive _).mp hal).1
  have hmono : ∀ n, m.heap.alive n = true → alive n = true := by
    intro n hn
    rcases eq_or_ne n m.allocated with rfl | hne
    · exact absurd hn hdead
    · rwa [show alive n = m.heap.alive n from Function.update_of_ne hne _ _]
  have hheld : ∀ stu' ∈ s.held, stu'.id ≠ m.allocated := by
    intro stu' hstu' heq
    exact hdead (heq ▸ h.heap.alive hstu')
  have hlist : m.allocated ∉ s.studentList.map Student.id := fun hmem =>
    hdead (h.heap.list.alive _ hmem)
  have hchain : ∀ i, m.allocated ∉ (s.stuHlist i).map Student.id := fun i hmem =>
    hdead (h.heap.hlist.alive i _ hmem)
  obtain ⟨list, hadd, hrep⟩ := ((h.heap.list.realloc fun n _ => hmono n).initNode hlist).addTail
    (n := m.allocated) (by simp [alive]) hlist
  refine ⟨list, hadd, ⟨?_, ?_, ?_, ?_⟩, by simp [h.allocated], h.freed, ?_, h.nodup, ?_⟩
  · simpa [hid] using hrep
  · exact (h.heap.hlist.realloc fun i n _ => hmono n).initNode hchain
  · intro stu' hstu' i
    rcases List.mem_append.mp hstu' with hstu' | hstu'
    · exact h.heap.apart stu' hstu' i
    · rw [List.mem_singleton.mp hstu', hid]
      exact hchain i
  · intro stu' hstu'
    have hmem : stu' ∈ s.held ∨ stu' = stu := by
      simp only [Store.mem_held, List.mem_append, List.mem_singleton] at hstu' ⊢
      exact or_right_comm.mp hstu'
    rcases hmem with hmem | rfl
    · simpa [hheld stu' hmem] using h.heap.student stu' hmem
    · simp [hid]
  · intro n
    have hfreed : m.allocated ∉ m.freed := fun hmem => absurd (h.lt _ hmem) (lt_irrefl _)
    rcases eq_or_ne n m.allocated with rfl | hne
    · simp [alive, hfreed]
    · have heq : alive n = m.heap.alive n := Function.update_of_ne hne _ _
      have hlt : n < m.allocated ↔ n < m.allocated + 1 := by omega
      simp only [heq, h.alive, hlt]
  · exact fun n hn => (h.lt n hn).trans (Nat.lt_succ_self _)

lemma Memory.Refines.addStu {L : Layout} {m : Memory} {s : Store} (h : m.Refines L s)
    (name : CString) (sex : UInt8) (age : Int32) (kmallocOk : Bool) :
    Agree Memory.Holds (m.addStu L name sex age kmallocOk)
      (StudentStore.addStu s name sex age kmallocOk) := by
  simp only [Memory.addStu, StudentStore.addStu, h.conflict_eq, bind, Option.bind]
  split_ifs with hconflict hkmalloc hname
  · exact .some ⟨rfl, h.toHolds⟩
  · exact .some ⟨rfl, h.toHolds⟩
  · exact .none
  · obtain ⟨list, hadd, hrep⟩ :=
      h.represents.push (newStudent m.allocated name sex age) rfl
    simp only [hadd]
    rw [h.represents.allocated] at hrep ⊢
    refine .some ⟨rfl, hrep, fun stu hstu => ?_⟩
    simp only [HLists.initNode, Function.update_apply]
    split_ifs with hid
    · rfl
    · rcases List.mem_append.mp hstu with hold | hnew
      · exact h.unhashed stu hold
      · exact absurd (congrArg Student.id (List.mem_singleton.mp hnew)) hid

/-- A student leaves the lists and is freed. -/
lemma Memory.Represents.kfree {m : Memory} {s s' : Store} {h : Heap} (hm : m.Represents s)
    (hrep : h.Represents s') (halive : h.alive = m.heap.alive) {stu : Student}
    (hstu : stu ∈ s.held) (hgone : ∀ stu' ∈ s'.held, stu'.id ≠ stu.id)
    (hallocated : s'.allocated = s.allocated) (hfreed : s'.freed = s.freed ++ [stu.id]) :
    ∃ m', Memory.kfree { m with heap := h } stu.id = some m' ∧ m'.Represents s' ∧
      m'.allocated = m.allocated ∧ m'.heap.list = h.list ∧ m'.heap.hlist = h.hlist := by
  have hal := hm.heap.alive hstu
  have hmem := (hm.alive stu.id).mp hal
  refine ⟨_, if_pos (by simpa [halive] using hal), ⟨⟨?_, ?_, hrep.apart, hrep.student⟩, ?_, ?_, ?_,
    ?_, ?_⟩, rfl, rfl, rfl⟩
  · refine hrep.list.realloc fun n hn hn' => ?_
    obtain ⟨stu', hstu', rfl⟩ := List.mem_map.mp hn
    simpa [hgone stu' (Store.mem_held.mpr (.inl hstu'))] using hn'
  · refine hrep.hlist.realloc fun i n hn hn' => ?_
    obtain ⟨stu', hstu', rfl⟩ := List.mem_map.mp hn
    simpa [hgone stu' (Store.mem_held.mpr (.inr ⟨i, hstu'⟩))] using hn'
  · exact hm.allocated.trans hallocated.symm
  · simp [hfreed, hm.freed]
  · intro n
    rcases eq_or_ne n stu.id with rfl | hne
    · simp
    · simp [hne, halive, hm.alive]
  · rw [List.nodup_append_comm]
    exact List.nodup_cons.mpr ⟨hmem.2, hm.nodup⟩
  · intro n hn
    rcases List.mem_append.mp hn with hn | hn
    · exact hm.lt n hn
    · rw [List.mem_singleton.mp hn]
      exact hmem.1

/-- `list_del` and `kfree` of a student somewhere on the list. -/
lemma Memory.Represents.remove {m : Memory} {s : Store} (h : m.Represents s) {cur : Student}
    (pre : List Student) {post : List Student} (hs : s.studentList = pre ++ cur :: post) :
    ∃ m', m.remove cur.id = some m' ∧
      m'.Represents { s with studentList := pre ++ post, freed := s.freed ++ [cur.id] } ∧
      m'.allocated = m.allocated ∧ m'.heap.hlist = m.heap.hlist := by
  have hlist := h.heap.list
  rw [hs, List.map_append, List.map_cons] at hlist
  obtain ⟨list, hdel, hlist'⟩ := hlist.del
  have hcur : cur ∈ s.studentList := by simp [hs]
  have hsub : ∀ stu ∈ pre ++ post, stu ∈ s.studentList := by
    intro stu hstu
    rw [hs]
    exact (List.Sublist.append_left (List.sublist_cons_self cur post) pre).subset hstu
  have hrep : ({ m.heap with list := list } : Heap).Represents
      { s with studentList := pre ++ post, freed := s.freed ++ [cur.id] } := by
    refine ⟨by simpa using hlist', h.heap.hlist, fun stu hstu => h.heap.apart stu (hsub stu hstu),
      fun stu hstu => h.heap.student stu ?_⟩
    exact Store.mem_held.mpr ((Store.mem_held.mp hstu).imp_left (hsub stu))
  have hgone : ∀ stu ∈ Store.held { s with
      studentList := pre ++ post, freed := s.freed ++ [cur.id] }, stu.id ≠ cur.id := by
    intro stu hstu heq
    rcases Store.mem_held.mp hstu with hstu | ⟨i, hstu⟩
    · have hnodup := List.nodup_middle.mp hlist.nodup
      rw [← List.map_append, List.nodup_cons] at hnodup
      exact hnodup.1 (heq ▸ List.mem_map_of_mem hstu)
    · exact h.heap.apart cur hcur i (heq ▸ List.mem_map_of_mem hstu)
  obtain ⟨m', hm', hrep', hallocated, -, hhlist⟩ :=
    h.kfree hrep rfl (Store.mem_held.mpr (.inl hcur)) hgone rfl rfl
  exact ⟨m', by simp [Memory.remove, hdel, hm'], hrep', hallocated, hhlist⟩

/-- `hlist_del` and `kfree` of the first student of a chain. -/
lemma Memory.Represents.unhash {m : Memory} {s : Store} (h : m.Represents s) {stu : Student}
    {id : Fin 2} {rest : List Student} (hs : s.stuHlist id = stu :: rest) :
    ∃ m', m.unhash stu.id = some m' ∧
      m'.Represents { s with
        stuHlist := Function.update s.stuHlist id rest, freed := s.freed ++ [stu.id] } ∧
      m'.allocated = m.allocated := by
  have hmap : (fun i => (Function.update s.stuHlist id rest i).map Student.id) =
      Function.update (fun i => (s.stuHlist i).map Student.id) id (rest.map Student.id) := by
    funext i
    rcases eq_or_ne i id with rfl | hi
    · simp
    · simp [hi]
  have hids : (s.stuHlist id).map Student.id = stu.id :: rest.map Student.id := by simp [hs]
  obtain ⟨hlist, hdel, hrep⟩ := h.heap.hlist.del_first hids
  have hnot := h.heap.hlist.notMem_update hids
  rw [← hmap] at hrep hnot
  have hmem : ∀ i, ∀ stu' ∈ Function.update s.stuHlist id rest i, stu' ∈ s.stuHlist i := by
    intro i stu' hstu'
    rcases eq_or_ne i id with rfl | hi
    · rw [Function.update_self] at hstu'
      simp [hs, hstu']
    · rwa [Function.update_of_ne hi] at hstu'
  have hfirst : stu ∈ s.stuHlist id := by simp [hs]
  set s' : Store := { s with
    stuHlist := Function.update s.stuHlist id rest, freed := s.freed ++ [stu.id] }
  have hheap : ({ m.heap with hlist := hlist } : Heap).Represents s' := by
    refine ⟨h.heap.list, hrep, fun stu' hstu' i hmem' => ?_, fun stu' hstu' => ?_⟩
    · obtain ⟨stu'', hstu'', hid⟩ := List.mem_map.mp hmem'
      exact h.heap.apart stu' hstu' i (List.mem_map.mpr ⟨stu'', hmem i stu'' hstu'', hid⟩)
    · apply h.heap.student
      rw [Store.mem_held] at hstu' ⊢
      exact hstu'.imp_right fun ⟨i, hi⟩ => ⟨i, hmem i stu' hi⟩
  have hgone : ∀ stu' ∈ s'.held, stu'.id ≠ stu.id := by
    intro stu' hstu' heq
    rcases Store.mem_held.mp hstu' with hstu' | ⟨i, hstu'⟩
    · exact h.heap.apart stu' hstu' id (heq ▸ List.mem_map_of_mem hfirst)
    · exact hnot i (heq ▸ List.mem_map_of_mem hstu')
  obtain ⟨m', hm', hrep', hallocated, -⟩ :=
    h.kfree hheap rfl (Store.mem_held.mpr (.inr ⟨id, hfirst⟩)) hgone rfl rfl
  exact ⟨m', by simp [Memory.unhash, hdel, hm'], hrep', hallocated⟩

/-- The loop of `del_stu` behind the students that have another name. -/
lemma Memory.Refines.delLoop {L : Layout} {m : Memory} {s : Store} (h : m.Refines L s)
    (name : CString) (pre : List Student) {l : List Student} (hs : s.studentList = pre ++ l)
    (hpre : ∀ stu ∈ pre, s.name stu ≠ name.val) {turns : ℕ} (hturns : l.length < turns)
    {next : Option ℕ} (hnext : ∀ cur rest, l = cur :: rest → next = (rest.map Student.id).head?) :
    Agree Memory.Holds (m.delLoop L name turns (l.map Student.id).head? next)
      (some (StudentStore.delStu s name)) := by
  induction l generalizing pre turns next with
  | nil =>
    obtain ⟨turns, rfl⟩ := Nat.exists_eq_succ_of_ne_zero (Nat.ne_of_gt hturns)
    have hnone : s.studentList.find? (fun cur => decide (s.name cur = name.val)) = none := by
      simpa [hs] using hpre
    rw [StudentStore.delStu, hnone]
    exact .some ⟨rfl, h.toHolds⟩
  | cons cur rest ih =>
    obtain ⟨turns, rfl⟩ := Nat.exists_eq_succ_of_ne_zero (Nat.ne_of_gt (Nat.zero_lt_of_lt hturns))
    have hmem : cur ∈ s.studentList := by simp [hs]
    have hlinked := h.represents.heap.list.linked
    rw [hs, List.map_append, List.map_cons] at hlinked
    simp only [List.map_cons, List.head?_cons, Memory.delLoop, h.name_list hmem, bind, Option.bind]
    split_ifs with hcur
    · have hfind : s.studentList.find? (fun cur => decide (s.name cur = name.val)) = some cur := by
        rw [hs, List.find?_append, List.find?_eq_none.mpr (by simpa using hpre)]
        simp [hcur]
      have herase : s.studentList.eraseP (fun cur => decide (s.name cur = name.val)) =
          pre ++ rest := by
        rw [hs, List.eraseP_append_right _ (by simpa using hpre), List.eraseP_cons_of_pos]
        simp [hcur]
      obtain ⟨m', hm', hrep, -, hhlist⟩ := h.represents.remove pre hs
      rw [StudentStore.delStu, hfind, hm', herase]
      refine .some ⟨rfl, hrep, fun stu hstu => ?_⟩
      rw [hhlist]
      refine h.unhashed stu (hs ▸ ?_)
      exact (List.Sublist.append_left (List.sublist_cons_self cur rest) pre).subset hstu
    · have hnext' := hnext cur rest rfl
      have hfollow : m.heap.list.follow m.heap.alive next = some (m.heap.list.next next) := by
        refine if_pos (h.represents.heap.list.valid_of_mem ?_)
        rw [hnext', hs]
        cases rest with
        | nil => simp
        | cons cur' rest => simp
      have hafter : ∀ cur' rest', rest = cur' :: rest' →
          m.heap.list.next next = (rest'.map Student.id).head? := by
        rintro cur' rest' rfl
        rw [hnext']
        exact hlinked.from_mem.2.2.next_eq
      rw [hfollow, hnext']
      have hrec := ih (pre ++ [cur]) (by simp [hs]) ?_ (Nat.lt_of_succ_lt_succ hturns) hafter
      · rwa [hnext'] at hrec
      · intro stu hstu
        rcases List.mem_append.mp hstu with hstu | hstu
        · exact hpre stu hstu
        · rw [List.mem_singleton.mp hstu]
          exact fun heq => hcur heq.symm

/-- The student a safe loop reads ahead when it begins. -/
lemma Heap.Represents.second {h : Heap} {s : Store} (hrep : h.Represents s) {cur : Student}
    {rest : List Student} (hs : s.studentList = cur :: rest) :
    h.list.next (h.list.next none) = (rest.map Student.id).head? := by
  have hlinked := hrep.list.linked
  rw [hs] at hlinked
  rw [hlinked.1]
  exact hlinked.2.2.next_eq

lemma Memory.Refines.delStu {L : Layout} {m : Memory} {s : Store} (h : m.Refines L s)
    (name : CString) :
    Agree Memory.Holds (m.delStu L name) (some (StudentStore.delStu s name)) := by
  have hfirst := h.represents.heap.list.linked.next_eq
  have hloop := h.delLoop name [] rfl (by simp) h.represents.list_lt_turns
    fun cur rest hs => h.represents.heap.second hs
  simp only [Memory.delStu, h.represents.heap.list.follow_eq hfirst, bind, Option.bind]
  rwa [hfirst] at hloop ⊢

lemma Memory.Holds.classifyStu {m : Memory} {s : Store} (hm : m.Holds s) :
    Agree Memory.Holds m.classifyStu (some (0, StudentStore.classifyStu s)) := by
  have h := hm.represents
  obtain ⟨h', hclassify, hrep, -, halive, hkept⟩ :=
    Heap.classifyStu_refines h.heap h.list_lt_turns
  rw [Memory.classifyStu, hclassify]
  refine .some ⟨rfl, ⟨hrep, h.allocated, h.freed, fun n => ?_, h.nodup, h.lt⟩, fun stu hstu => ?_⟩
  · simpa [halive] using h.alive n
  · exact (hkept stu hstu).trans (hm.unhashed stu (classifyLoop_subset _ _ hstu))

/-- The loop of `clean_up_list` frees what is left of the list. -/
lemma Memory.Represents.cleanUpListLoop {l : List Student} {m : Memory} {s : Store}
    (h : m.Represents s) (hs : s.studentList = l) {turns : ℕ} (hturns : l.length < turns)
    {next : Option ℕ} (hnext : ∀ cur rest, l = cur :: rest → next = (rest.map Student.id).head?) :
    ∃ m', m.cleanUpListLoop turns (l.map Student.id).head? next = some m' ∧
      m'.Represents (StudentStore.cleanUpList s) := by
  induction l generalizing m s turns next with
  | nil =>
    obtain ⟨turns, rfl⟩ := Nat.exists_eq_succ_of_ne_zero (Nat.ne_of_gt hturns)
    have hdone : StudentStore.cleanUpList s = s := by
      obtain ⟨list, hlist, links, allocated, freed⟩ := s
      obtain rfl : list = [] := hs
      simp [StudentStore.cleanUpList]
    exact ⟨m, rfl, by rwa [hdone]⟩
  | cons cur rest ih =>
    obtain ⟨turns, rfl⟩ := Nat.exists_eq_succ_of_ne_zero (Nat.ne_of_gt (Nat.zero_lt_of_lt hturns))
    obtain ⟨m', hm', hrep, -⟩ := h.remove [] hs
    have hnext' := hnext cur rest rfl
    have hafter : ∀ cur' rest', rest = cur' :: rest' →
        m'.heap.list.next next = (rest'.map Student.id).head? := by
      rintro cur' rest' rfl
      rw [hnext']
      exact hrep.heap.list.linked.2.2.next_eq
    obtain ⟨m'', hloop, hrep'⟩ := ih hrep rfl (Nat.lt_of_succ_lt_succ hturns) hafter
    have hclean : StudentStore.cleanUpList { s with
        studentList := [] ++ rest, freed := s.freed ++ [cur.id] } =
          StudentStore.cleanUpList s := by
      simp [StudentStore.cleanUpList, hs]
    refine ⟨m'', ?_, hclean ▸ hrep'⟩
    rw [← hnext'] at hloop
    simp only [List.map_cons, List.head?_cons, Memory.cleanUpListLoop, hm', bind, Option.bind,
      hrep.heap.list.follow_eq hnext']
    exact hloop

lemma Memory.Represents.cleanUpList {m : Memory} {s : Store} (h : m.Represents s) :
    ∃ m', m.cleanUpList = some m' ∧ m'.Represents (StudentStore.cleanUpList s) := by
  have hfirst := h.heap.list.linked.next_eq
  obtain ⟨m', hloop, hrep⟩ := h.cleanUpListLoop rfl h.list_lt_turns
    fun cur rest hs => h.heap.second hs
  refine ⟨m', ?_, hrep⟩
  simp only [Memory.cleanUpList, h.heap.list.follow_eq hfirst, bind, Option.bind]
  rwa [hfirst] at hloop ⊢

/-- One chain is freed from the front. -/
lemma Memory.Represents.cleanUpChain {l : List Student} {m : Memory} {s : Store}
    (h : m.Represents s) (id : Fin 2) (hs : s.stuHlist id = l) {turns : ℕ}
    (hturns : l.length < turns) :
    ∃ m', m.cleanUpChain turns (m.heap.hlist.first id) = some m' ∧
      m'.Represents { s with
        stuHlist := Function.update s.stuHlist id [], freed := s.freed ++ l.map Student.id } := by
  have hfirst := (h.heap.hlist.chain id).head_eq
  induction l generalizing m s turns with
  | nil =>
    obtain ⟨turns, rfl⟩ := Nat.exists_eq_succ_of_ne_zero (Nat.ne_of_gt hturns)
    refine ⟨m, ?_, ?_⟩
    · rw [hfirst, hs]
      rfl
    · rw [← hs, Function.update_eq_self]
      simpa [hs] using h
  | cons stu rest ih =>
    obtain ⟨turns, rfl⟩ := Nat.exists_eq_succ_of_ne_zero (Nat.ne_of_gt (Nat.zero_lt_of_lt hturns))
    obtain ⟨m', hm', hrep, -⟩ := h.unhash hs
    have hchain := h.heap.hlist.chain id
    rw [hs, List.map_cons] at hchain
    have halive := h.heap.alive (Store.mem_held.mpr (.inr ⟨id, hs ▸ List.mem_cons_self⟩))
    -- the student read ahead is the one the head points to now
    have hfirst' := (hrep.heap.hlist.chain id).head_eq
    obtain ⟨m'', hloop, hrep'⟩ := ih hrep (by simp) (Nat.lt_of_succ_lt_succ hturns) hfirst'
    have hnext : m.heap.hlist.next stu.id = m'.heap.hlist.first id := by
      rw [hchain.2.2.head_eq, hfirst']
      simp
    refine ⟨m'', ?_, by simpa [List.append_assoc] using hrep'⟩
    rw [hfirst, hs, List.map_cons, List.head?_cons, Memory.cleanUpChain, if_pos halive, hnext, hm']
    exact hloop

lemma Memory.Represents.cleanUpHlist {m : Memory} {s : Store} (h : m.Represents s) :
    ∃ m', m.cleanUpHlist = some m' ∧ m'.Represents (StudentStore.cleanUpHlist s) := by
  obtain ⟨m₁, h₁, hrep₁⟩ := h.cleanUpChain ⟨0, Nat.two_pos⟩ rfl (h.chain_lt_turns _)
  obtain ⟨m₂, h₂, hrep₂⟩ := hrep₁.cleanUpChain ⟨1, Nat.one_lt_two⟩ rfl
    (hrep₁.chain_lt_turns _)
  refine ⟨m₂, by simp only [Memory.cleanUpHlist, h₁, h₂, bind, Option.bind], ?_⟩
  have hempty : (fun _ => []) = Function.update (Function.update s.stuHlist 0 []) 1 [] := by
    funext id
    fin_cases id
    · rfl
    · rfl
  rw [StudentStore.cleanUpHlist, hempty]
  exact hrep₂

lemma Memory.Represents.cleanUp {m : Memory} {s : Store} (h : m.Represents s) :
    ∃ m', m.cleanUp = some m' ∧ m'.Represents (StudentStore.cleanUp s) := by
  obtain ⟨m₁, h₁, hrep₁⟩ := h.cleanUpList
  obtain ⟨m₂, h₂, hrep₂⟩ := hrep₁.cleanUpHlist
  exact ⟨m₂, by simp only [Memory.cleanUp, h₁, h₂, bind, Option.bind], hrep₂⟩

lemma Memory.Refines.line_eq {L : Layout} {m : Memory} {s : Store} (h : m.Refines L s)
    {stu : Student} (hstu : stu ∈ s.held) (count : ℕ) :
    m.heap.line L count stu.id = if s.Terminated stu then
      some ⟨count, s.name stu, stu.mSex, stu.mAge⟩ else none := by
  rw [Heap.line, h.name_eq hstu, h.represents.heap.student stu hstu]
  split_ifs with hterm
  · rfl
  · rfl

/-- A loop that shows one student after the other shows all of them, if their names end. -/
lemma Store.lines_cons (s : Store) (stu : Student) (rest : List Student) (count : ℕ) :
    (if s.Terminated stu then some (⟨count, s.name stu, stu.mSex, stu.mAge⟩ : Line) else none).bind
        (fun line => (if ∀ stu ∈ rest, s.Terminated stu then some (s.lines rest (count + 1))
          else none).bind fun lines => some (line :: lines)) =
      if ∀ stu' ∈ stu :: rest, s.Terminated stu' then some (s.lines (stu :: rest) count)
      else none := by
  simp only [List.forall_mem_cons]
  by_cases hterm : s.Terminated stu
  · by_cases hrest : ∀ stu ∈ rest, s.Terminated stu
    · rw [if_pos hterm, if_pos hrest, if_pos ⟨hterm, hrest⟩]
      rfl
    · rw [if_pos hterm, if_neg hrest, if_neg fun hall => hrest hall.2]
      rfl
  · rw [if_neg hterm, if_neg (c := _ ∧ _) fun hall => hterm hall.1]
    rfl

lemma Memory.Refines.dumpStudentsLoop {L : Layout} {m : Memory} {s : Store} (h : m.Refines L s)
    {l : List Student} {p : Option ℕ} (hlinked : m.heap.list.Linked p (l.map Student.id))
    (hl : ∀ stu ∈ l, stu ∈ s.held) {turns : ℕ} (hturns : l.length < turns) (count : ℕ) :
    m.heap.dumpStudentsLoop L turns count (l.map Student.id).head? =
      if ∀ stu ∈ l, s.Terminated stu then some (s.lines l count) else none := by
  induction l generalizing p turns count with
  | nil =>
    obtain ⟨turns, rfl⟩ := Nat.exists_eq_succ_of_ne_zero (Nat.ne_of_gt hturns)
    simp [Heap.dumpStudentsLoop, Store.lines]
  | cons stu rest ih =>
    obtain ⟨turns, rfl⟩ := Nat.exists_eq_succ_of_ne_zero (Nat.ne_of_gt (Nat.zero_lt_of_lt hturns))
    obtain ⟨-, -, hrest⟩ := hlinked
    have hstu := hl stu (by simp)
    have hfollow : m.heap.list.follow m.heap.alive (some stu.id) =
        some (rest.map Student.id).head? := by
      rw [← hrest.next_eq]
      exact if_pos (by simpa [RingList.Valid] using h.represents.heap.alive hstu)
    have hrec := ih hrest (fun stu' hstu' => hl stu' (by simp [hstu']))
      (Nat.lt_of_succ_lt_succ hturns) (count + 1)
    rw [← s.lines_cons, ← hrec, ← h.line_eq hstu]
    simp only [List.map_cons, List.head?_cons, Heap.dumpStudentsLoop, hfollow, bind, Option.bind]
    rfl

/-- `dump_students` shows the list. -/
lemma Memory.Refines.dumpStudents {L : Layout} {m : Memory} {s : Store} (h : m.Refines L s) :
    m.dumpStudents L = some (s.lines s.studentList 1) := by
  have hlinked := h.represents.heap.list.linked
  rw [Memory.dumpStudents, hlinked.next_eq, h.dumpStudentsLoop hlinked
    (fun stu hstu => Store.mem_held.mpr (.inl hstu)) h.represents.list_lt_turns 1]
  exact if_pos fun stu hstu => h.terminated hstu

lemma Memory.Refines.dumpHlistLoop {L : Layout} {m : Memory} {s : Store} (h : m.Refines L s)
    {l : List Student} {p : Option ℕ} {slot : Slot (Fin 2) ℕ}
    (hchain : m.heap.hlist.Chain p slot (l.map Student.id)) (hl : ∀ stu ∈ l, stu ∈ s.held)
    {turns : ℕ} (hturns : l.length < turns) (count : ℕ) :
    m.heap.dumpHlistLoop L turns count p =
      if ∀ stu ∈ l, s.Terminated stu then some (s.lines l count) else none := by
  induction l generalizing p slot turns count with
  | nil =>
    obtain ⟨turns, rfl⟩ := Nat.exists_eq_succ_of_ne_zero (Nat.ne_of_gt hturns)
    obtain rfl : p = none := hchain
    simp [Heap.dumpHlistLoop, Store.lines]
  | cons stu rest ih =>
    obtain ⟨turns, rfl⟩ := Nat.exists_eq_succ_of_ne_zero (Nat.ne_of_gt (Nat.zero_lt_of_lt hturns))
    obtain ⟨rfl, -, hrest⟩ := hchain
    have hrec := ih hrest (fun stu' hstu' => hl stu' (by simp [hstu']))
      (Nat.lt_of_succ_lt_succ hturns) (count + 1)
    rw [← s.lines_cons, ← hrec, ← h.line_eq (hl stu (by simp))]
    rfl

/-- `dump_hlist` shows a chain whose names end, and reads on behind another one. -/
lemma Memory.Refines.dumpHlist {L : Layout} {m : Memory} {s : Store} (h : m.Refines L s)
    (id : Fin 2) : m.dumpHlist L id = if ∀ stu ∈ s.stuHlist id, s.Terminated stu then
      some (s.lines (s.stuHlist id) 1) else none := by
  have hid : 0 ≤ (id : ℤ) ∧ (id : ℤ) < 2 := by omega
  rw [Memory.dumpHlist, dif_pos hid]
  exact h.dumpHlistLoop (h.represents.heap.hlist.chain id)
    (fun stu hstu => Store.mem_held.mpr (.inr ⟨id, hstu⟩)) (h.represents.chain_lt_turns id) 1

lemma Memory.init_refines (L : Layout) (h : Heap) :
    (Memory.init h).Refines L (Store.empty ((Memory.init h).heap.links L)) := by
  refine ⟨⟨⟨⟨⟨?_, ?_, ?_⟩, ⟨?_, ?_, ?_, ?_⟩, ?_, ?_⟩, rfl, rfl, ?_, ?_, ?_⟩, ?_⟩, rfl⟩
  · simp [Memory.init, Store.empty, RingList.Linked]
  all_goals simp [Memory.init, Store.empty, HLists.Chain, Store.held, Store.chained]

/-- A call does to the lists what it does to the memory. -/
lemma Memory.Refines.run {L : Layout} {m : Memory} {s : Store} (h : m.Refines L s) (c : Call)
    (kmallocOk : Bool) : Agree Memory.Holds (m.step L (c, kmallocOk)) (c.run s kmallocOk) := by
  cases c with
  | addStu name sex age => exact h.addStu name sex age kmallocOk
  | delStu name => exact h.delStu name
  | classifyStu => exact h.classifyStu

lemma Memory.Refines.step {L : Layout} {m : Memory} {s : Store} (h : m.Refines L s)
    (c : Call × Bool) :
    ∃ e : Event, e.request = c ∧ Agree (Memory.Refines L) (m.step L c) (e.run s) := by
  obtain ⟨call, kmallocOk⟩ := c
  have hagree := h.run call kmallocOk
  generalize hm : m.step L (call, kmallocOk) = x at hagree
  generalize hs : call.run s kmallocOk = y at hagree
  cases hagree with
  | none =>
    refine ⟨⟨call, kmallocOk, s.links⟩, rfl, ?_⟩
    rw [Event.run, hs]
    exact .none
  | @some x y hxy =>
    -- the links after the call are those the memory holds
    refine ⟨⟨call, kmallocOk, x.2.heap.links L⟩, rfl, ?_⟩
    rw [Event.run, hs]
    obtain ⟨hret, hrep, hunhashed⟩ := hxy
    exact .some ⟨hret, ⟨⟨⟨hrep.heap.list, hrep.heap.hlist, hrep.heap.apart, hrep.heap.student⟩,
      hrep.allocated, hrep.freed, hrep.alive, hrep.nodup, hrep.lt⟩, hunhashed⟩, rfl⟩

/-- A name that leaves the allocation is the only thing a run can come to nothing by. -/
lemma long_name_of_runAll_eq_none {s : Store} {es : List Event}
    (h : runAll Event.run s es = none) :
    ∃ name sex age, (Call.addStu name sex age, true) ∈ es.map Event.request ∧
      sizeofStudent < name.val.length := by
  induction es generalizing s with
  | nil => simp [runAll] at h
  | cons e es ih =>
    simp only [List.map_cons, List.mem_cons]
    cases hrun : e.run s with
    | some x =>
      simp only [runAll, hrun, Option.bind_some, Option.map_eq_none_iff] at h
      obtain ⟨name, sex, age, hmem, hlong⟩ := ih h
      exact ⟨name, sex, age, .inr hmem, hlong⟩
    | none =>
      obtain ⟨call, kmallocOk, links⟩ := e
      rw [Event.run, Option.map_eq_none_iff] at hrun
      cases call with
      | addStu name sex age =>
        simp only [Call.run, StudentStore.addStu] at hrun
        split_ifs at hrun with hconflict hkmalloc hlong
        have hok : kmallocOk = true := by simpa using hkmalloc
        exact ⟨name, sex, age, .inl (by simp [Event.request, hok]), hlong⟩
      | delStu name => simp [Call.run] at hrun
      | classifyStu => simp [Call.run] at hrun

/-- Every run of calls on the memory gives the answers of the lists and ends in a memory that holds
them. `dump_students` shows the list, `dump_hlist` a chain on which all names end in their
allocations; `clean_up` frees every student on them, once, and none that is not allocated. Only a
name that leaves the allocation can stop a run. -/
theorem memory_run_refines (L : Layout) (h : Heap) (cs : List (Call × Bool)) :
    let start := Store.empty ((Memory.init h).heap.links L)
    ∃ es : List Event, es.map Event.request = cs ∧
      match runAll (Memory.step L) (Memory.init h) cs with
      | none => runAll Event.run start es = none ∧ ∃ name sex age,
          (Call.addStu name sex age, true) ∈ cs ∧ sizeofStudent < name.val.length
      | some (rets, m) => ∃ s, runAll Event.run start es = some (rets, s) ∧ m.Refines L s ∧
          m.dumpStudents L = some (s.lines s.studentList 1) ∧
          (∀ id : Fin 2, m.dumpHlist L id = if ∀ stu ∈ s.stuHlist id, s.Terminated stu then
            some (s.lines (s.stuHlist id) 1) else none) ∧
          ∃ m', m.cleanUp = some m' ∧ m'.Represents (cleanUp s) := by
  intro start
  obtain ⟨es, hes, hagree⟩ := runAll_agree (fun _ _ c h => h.step c) (Memory.init_refines L h) cs
  refine ⟨es, hes, ?_⟩
  generalize hm : runAll (Memory.step L) (Memory.init h) cs = x at hagree
  generalize hs : runAll Event.run start es = y at hagree
  cases hagree with
  | none =>
    refine ⟨rfl, ?_⟩
    rw [← hes]
    exact long_name_of_runAll_eq_none hs
  | @some x y hxy =>
    obtain ⟨rets, m⟩ := x
    obtain ⟨rets', s⟩ := y
    obtain ⟨rfl, href⟩ := hxy
    exact ⟨s, rfl, href, href.dumpStudents, href.dumpHlist, href.represents.cleanUp⟩

end LinuxLabs.StudentStore
