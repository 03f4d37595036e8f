import LinuxLabs.IntrusiveList
import LinuxLabs.StudentStore

/-! The student store with the links of its lists: the ring through `m_list` and the two chains
through `m_hlist`. A pointer to a student is the number of its allocation, and a heap stands for
the store whose lists its links lead along. -/
namespace LinuxLabs.StudentStore
open IntrusiveList

structure Heap where
  list : RingList ℕ
  hlist : HLists (Fin 2) ℕ
  student : ℕ → Student
  alive : ℕ → Bool

/-- The loop of `list_for_each_entry_safe` in `classify_stu`, with a bound on its turns. The next
student is read before this one leaves the ring, and the one after it when it has left. -/
def Heap.classifyLoop : ℕ → Heap → Option ℕ → Option ℕ → Option Heap
  | 0, _, _, _ => none
  | _ + 1, h, none, _ => some h
  | fuel + 1, h, some cur, next => do
    let list ← h.list.delInit h.alive cur
    let h := { h with list := list }
    if male = (h.student cur).mSex then
      let hlist ← h.hlist.addHead h.alive cur ⟨0, Nat.two_pos⟩
      Heap.classifyLoop fuel { h with hlist := hlist } next (← list.follow h.alive next)
    else if female = (h.student cur).mSex then
      let hlist ← h.hlist.addHead h.alive cur ⟨1, Nat.one_lt_two⟩
      Heap.classifyLoop fuel { h with hlist := hlist } next (← list.follow h.alive next)
    else some h

def Heap.classifyStu (fuel : ℕ) (h : Heap) : Option Heap := do
  let cur := h.list.next none
  Heap.classifyLoop fuel h cur (← h.list.follow h.alive cur)

structure Heap.Represents (h : Heap) (s : Store) : Prop where
  list : h.list.Represents h.alive (s.studentList.map Student.id)
  hlist : h.hlist.Represents h.alive fun i => (s.stuHlist i).map Student.id
  apart : ∀ stu ∈ s.studentList, ∀ i, stu.id ∉ (s.stuHlist i).map Student.id
  student : ∀ stu ∈ s.held, h.student stu.id = stu

lemma hlistAddHead_id (H : Fin 2 → List Student) (id : Fin 2) (stu : Student) :
    (fun i => (hlistAddHead H id stu i).map Student.id) =
      Function.update (fun i => (H i).map Student.id) id (stu.id :: (H id).map Student.id) := by
  funext i
  rcases eq_or_ne i id with rfl | hi
  · simp [hlistAddHead]
  · simp [hlistAddHead, hi]

/-- The first student of the list leaves it. -/
lemma Heap.Represents.delInit {h : Heap} {s : Store} {cur : Student} {rest : List Student}
    (hrep : h.Represents s) (hs : s.studentList = cur :: rest) :
    ∃ list, h.list.delInit h.alive cur.id = some list ∧
      ({ h with list := list } : Heap).Represents { s with studentList := rest } := by
  have hlist := hrep.list
  rw [hs, List.map_cons] at hlist
  obtain ⟨list, hdel, hlist'⟩ := hlist.delInit_first
  refine ⟨list, hdel, hlist', hrep.hlist, fun stu hstu => ?_, fun stu hstu => ?_⟩
  · exact hrep.apart stu (by simp [hs, hstu])
  · apply hrep.student
    rw [Store.held, hs, List.cons_append]
    exact List.mem_cons_of_mem cur hstu

/-- A student on none of the lists is put in front of a chain. -/
lemma Heap.Represents.addHead {h : Heap} {s : Store} {cur : Student} (hrep : h.Represents s)
    (halive : h.alive cur.id = true) (hcur : h.student cur.id = cur)
    (hlist : cur.id ∉ s.studentList.map Student.id)
    (hchains : ∀ i, cur.id ∉ (s.stuHlist i).map Student.id) (id : Fin 2) :
    ∃ hlist, h.hlist.addHead h.alive cur.id id = some hlist ∧
      ({ h with hlist := hlist } : Heap).Represents
        { s with stuHlist := hlistAddHead s.stuHlist id cur } := by
  obtain ⟨hl, hadd, hrep'⟩ := hrep.hlist.addHead halive hchains id
  rw [← hlistAddHead_id] at hrep'
  have hmem : ∀ i, ∀ stu ∈ hlistAddHead s.stuHlist id cur i, stu = cur ∨ stu ∈ s.stuHlist i := by
    intro i stu hstu
    rcases eq_or_ne i id with rfl | hi
    · simpa [hlistAddHead] using hstu
    · right
      simpa [hlistAddHead, hi] using hstu
  refine ⟨hl, hadd, hrep.list, hrep', fun stu hstu i hmem' => ?_, fun stu hstu => ?_⟩
  · obtain ⟨stu', hstu', hid⟩ := List.mem_map.mp hmem'
    rcases hmem i stu' hstu' with rfl | hold
    · exact hlist (List.mem_map.mpr ⟨stu, hstu, hid.symm⟩)
    · exact hrep.apart stu hstu i (List.mem_map.mpr ⟨stu', hold, hid⟩)
  · rcases List.mem_append.mp hstu with hstu | hstu
    · exact hrep.student stu (List.mem_append_left _ hstu)
    · obtain ⟨i, hi⟩ : ∃ i, stu ∈ hlistAddHead s.stuHlist id cur i := by
        rcases List.mem_append.mp hstu with hstu | hstu
        · exact ⟨0, hstu⟩
        · exact ⟨1, hstu⟩
      rcases hmem i stu hi with rfl | hold
      · exact hcur
      · apply hrep.student
        refine List.mem_append_right _ (List.mem_append.mpr ?_)
        fin_cases i
        · exact .inl hold
        · exact .inr hold

/-- From the first student on the loop follows the list. -/
lemma Heap.classifyLoop_refines {l : List Student} {h : Heap} {s : Store} (hrep : h.Represents s)
    (hl : s.studentList = l) {fuel : ℕ} (hfuel : l.length < fuel) {next : Option ℕ}
    (hnext : ∀ cur rest, l = cur :: rest → next = (rest.map Student.id).head?) :
    ∃ h', Heap.classifyLoop fuel h (l.map Student.id).head? next = some h' ∧
      h'.Represents (StudentStore.classifyStu s) ∧ h'.student = h.student ∧ h'.alive = h.alive ∧
      ∀ stu ∈ (StudentStore.classifyStu s).studentList,
        h'.hlist.next stu.id = h.hlist.next stu.id := by
  induction l generalizing h s fuel next with
  | nil =>
    obtain ⟨fuel, rfl⟩ := Nat.exists_eq_succ_of_ne_zero (Nat.ne_of_gt hfuel)
    have hdone : StudentStore.classifyStu s = s := by
      obtain ⟨list, hlist, links, allocated, freed⟩ := s
      obtain rfl : list = [] := hl
      rfl
    exact ⟨h, rfl, by rwa [hdone], rfl, rfl, fun _ _ => rfl⟩
  | cons cur rest ih =>
    obtain ⟨fuel, rfl⟩ := Nat.exists_eq_succ_of_ne_zero (Nat.ne_of_gt (Nat.zero_lt_of_lt hfuel))
    obtain ⟨list, hdel, hrep'⟩ := hrep.delInit hl
    have hcur : cur ∈ s.studentList := by simp [hl]
    have hstudent : h.student cur.id = cur := hrep.student cur (List.mem_append_left _ hcur)
    have hnodup := hrep.list.nodup
    rw [hl, List.map_cons, List.nodup_cons] at hnodup
    have halive := hrep.list.alive cur.id (List.mem_map_of_mem hcur)
    have hfollow := hrep'.list.follow_eq (hnext cur rest rfl)
    -- both kinds of students go on with the rest of the list
    have hchain (id : Fin 2)
        (hs : StudentStore.classifyStu s = StudentStore.classifyStu
          { s with studentList := rest, stuHlist := hlistAddHead s.stuHlist id cur }) :
        ∃ hlist h', h.hlist.addHead h.alive cur.id id = some hlist ∧
          Heap.classifyLoop fuel { h with list := list, hlist := hlist } next (list.next next) =
            some h' ∧ h'.Represents (StudentStore.classifyStu s) ∧ h'.student = h.student ∧
          h'.alive = h.alive ∧ ∀ stu ∈ (StudentStore.classifyStu s).studentList,
            h'.hlist.next stu.id = h.hlist.next stu.id := by
      obtain ⟨hlist, hadd, hrep''⟩ :=
        hrep'.addHead halive hstudent hnodup.1 (hrep.apart cur hcur) id
      have hafter (cur' : Student) (rest' : List Student) (hrest : rest = cur' :: rest') :
          list.next next = (rest'.map Student.id).head? := by
        subst hrest
        rw [hnext cur _ rfl]
        exact hrep'.list.linked.2.2.next_eq
      obtain ⟨h', hloop, hdone, hstudent', halive', hkept⟩ :=
        ih hrep'' rfl (Nat.lt_of_succ_lt_succ hfuel) hafter
      rw [← hnext cur rest rfl] at hloop
      rw [hs]
      refine ⟨hlist, h', hadd, hloop, hdone, hstudent', halive', fun stu hstu => ?_⟩
      -- what stays on the list is behind the student that has left it
      have hne : stu.id ≠ cur.id := by
        intro heq
        exact hnodup.1 (heq ▸ List.mem_map_of_mem (classifyLoop_subset _ _ hstu))
      rw [hkept stu hstu, HLists.addHead_next hadd hne]
    simp only [List.map_cons, List.head?_cons, Heap.classifyLoop, hdel, hstudent, bind,
      Option.bind, hfollow]
    split_ifs with hm hf
    · obtain ⟨hlist, h', hadd, hloop, hh'⟩ := hchain ⟨0, Nat.two_pos⟩ (by
        simp [StudentStore.classifyStu, hl, StudentStore.classifyLoop, hm])
      refine ⟨h', ?_, hh'⟩
      rw [hadd]
      exact hloop
    · obtain ⟨hlist, h', hadd, hloop, hh'⟩ := hchain ⟨1, Nat.one_lt_two⟩ (by
        simp [StudentStore.classifyStu, hl, StudentStore.classifyLoop, hm, hf])
      refine ⟨h', ?_, hh'⟩
      rw [hadd]
      exact hloop
    · have hs : StudentStore.classifyStu s = { s with studentList := rest } := by
        simp [StudentStore.classifyStu, hl, StudentStore.classifyLoop, hm, hf]
      exact ⟨_, rfl, by rwa [hs], rfl, rfl, fun _ _ => rfl⟩

/-- `classify_stu` ends, and does to the lists what it does to the links. A student that stays on
the list keeps its `m_hlist`. -/
theorem Heap.classifyStu_refines {h : Heap} {s : Store} (hrep : h.Represents s) {fuel : ℕ}
    (hfuel : s.studentList.length < fuel) :
    ∃ h', h.classifyStu fuel = some h' ∧ h'.Represents (StudentStore.classifyStu s) ∧
      h'.student = h.student ∧ h'.alive = h.alive ∧
      ∀ stu ∈ (StudentStore.classifyStu s).studentList,
        h'.hlist.next stu.id = h.hlist.next stu.id := by
  have hfirst := hrep.list.linked.next_eq
  have hnext : ∀ cur rest, s.studentList = cur :: rest →
      h.list.next (h.list.next none) = (rest.map Student.id).head? := by
    intro cur rest hl
    have hlinked := hrep.list.linked
    rw [hl] at hlinked
    rw [hlinked.1]
    exact hlinked.2.2.next_eq
  obtain ⟨h', hloop, hh'⟩ := Heap.classifyLoop_refines hrep rfl hfuel hnext
  refine ⟨h', ?_, hh'⟩
  simp only [Heap.classifyStu, hrep.list.follow_eq hfirst, bind, Option.bind]
  rw [hfirst] at hloop ⊢
  exact hloop

end LinuxLabs.StudentStore
