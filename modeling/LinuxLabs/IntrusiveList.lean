import Mathlib

/-! Lists whose links lie inside the nodes. An `hlist` has a head that points to the first node, and
every node points back to the pointer it is reached by. A list with a ring of links has its head on
the ring. Every operation is given the nodes that are allocated and comes to nothing where it would
follow a pointer to another one. -/
namespace LinuxLabs.IntrusiveList

/-- The pointers a node can be reached by: that of a head, or the `next` of another node. -/
inductive Slot (H N : Type*)
  | first (h : H)
  | next (n : N)
  deriving DecidableEq

structure HLists (H N : Type*) where
  first : H → Option N
  next : N → Option N
  pprev : N → Option (Slot H N)

namespace HLists
variable {H N : Type*}

section Operations
variable [DecidableEq H] [DecidableEq N] (alive : N → Bool) (s : HLists H N)

/-- `*slot = p`. -/
def store (p : Option N) : Slot H N → Option (HLists H N)
  | .first h => some { s with first := Function.update s.first h p }
  | .next n => if alive n then some { s with next := Function.update s.next n p } else none

/-- `if (p) p->pprev = slot`. -/
def storeBack (slot : Slot H N) : Option N → Option (HLists H N)
  | none => some s
  | some n =>
    if alive n then some { s with pprev := Function.update s.pprev n (some slot) } else none

/-- `INIT_HLIST_NODE`. -/
def initNode (n : N) : HLists H N :=
  { s with next := Function.update s.next n none, pprev := Function.update s.pprev n none }

/-- `hlist_add_head`. -/
def addHead (n : N) (h : H) : Option (HLists H N) := do
  let p := s.first h
  let s ← s.store alive p (.next n)
  let s ← s.storeBack alive (.next n) p
  let s ← s.store alive (some n) (.first h)
  s.storeBack alive (.first h) (some n)

/-- `hlist_del`. The node is left with pointers that nobody may follow. -/
def del (n : N) : Option (HLists H N) :=
  if alive n then do
    let p := s.next n
    let slot ← s.pprev n
    let s ← s.store alive p slot
    let s ← s.storeBack alive slot p
    return s.initNode n
  else none

end Operations

variable (alive : N → Bool) (s : HLists H N)

/-- The nodes that `hlist_for_each_entry` visits, with a bound on its turns. -/
def walk : ℕ → Option N → Option (List N)
  | 0, _ => none
  | _ + 1, none => some []
  | fuel + 1, some n => if alive n then (walk fuel (s.next n)).map (n :: ·) else none

/-- Following `next` from `p` visits these nodes and ends, and each points back to where it was
reached from. -/
def Chain : Option N → Slot H N → List N → Prop
  | p, _, [] => p = none
  | p, slot, n :: l => p = some n ∧ s.pprev n = some slot ∧ Chain (s.next n) (.next n) l

/-- The links hold these lists, of nodes that are all allocated and none of them on two. -/
structure Represents (L : H → List N) : Prop where
  chain : ∀ h, s.Chain (s.first h) (.first h) (L h)
  alive : ∀ h, ∀ n ∈ L h, alive n = true
  nodup : ∀ h, (L h).Nodup
  disjoint : ∀ h h', h ≠ h' → (L h).Disjoint (L h')

variable {alive s} {L : H → List N} {p : Option N} {slot : Slot H N} {l : List N}

lemma Chain.congr {s' : HLists H N} (h : s.Chain p slot l) (hnext : ∀ n ∈ l, s'.next n = s.next n)
    (hback : ∀ n ∈ l, s'.pprev n = s.pprev n) : s'.Chain p slot l := by
  induction l generalizing p slot with
  | nil => exact h
  | cons n l ih =>
    obtain ⟨hp, hpprev, hrest⟩ := h
    refine ⟨hp, (hback n (by simp)).trans hpprev, ?_⟩
    rw [hnext n (by simp)]
    exact ih hrest (fun m hm => hnext m (by simp [hm])) (fun m hm => hback m (by simp [hm]))

/-- A chain is reached in another way, and its first node told so. -/
lemma Chain.retarget {s' : HLists H N} {slot' : Slot H N} (h : s.Chain p slot l) (hnodup : l.Nodup)
    (hnext : ∀ n ∈ l, s'.next n = s.next n) (hfirst : ∀ n, p = some n → s'.pprev n = some slot')
    (hback : ∀ n ∈ l, p ≠ some n → s'.pprev n = s.pprev n) : s'.Chain p slot' l := by
  cases l with
  | nil => exact h
  | cons n l =>
    obtain ⟨rfl, -, hrest⟩ := h
    obtain ⟨hn, -⟩ := List.nodup_cons.mp hnodup
    refine ⟨rfl, hfirst n rfl, ?_⟩
    rw [hnext n (by simp)]
    refine hrest.congr (fun m hm => hnext m (by simp [hm])) fun m hm => hback m (by simp [hm]) ?_
    rintro ⟨⟩
    exact hn hm

lemma Chain.head_eq (h : s.Chain p slot l) : p = l.head? := by
  cases l with
  | nil => exact h
  | cons m l => exact h.1

lemma Chain.head_mem (h : s.Chain p slot l) {n : N} (hp : p = some n) : n ∈ l :=
  List.mem_of_mem_head? (h.head_eq ▸ hp)

lemma Chain.walk_eq (h : s.Chain p slot l) (halive : ∀ n ∈ l, alive n = true) {fuel : ℕ}
    (hfuel : l.length < fuel) : s.walk alive fuel p = some l := by
  induction l generalizing p slot fuel with
  | nil =>
    obtain ⟨fuel, rfl⟩ := Nat.exists_eq_succ_of_ne_zero (Nat.ne_of_gt hfuel)
    rw [show p = none from h]
    rfl
  | cons n l ih =>
    obtain ⟨fuel, rfl⟩ := Nat.exists_eq_succ_of_ne_zero (Nat.ne_of_gt (Nat.zero_lt_of_lt hfuel))
    obtain ⟨rfl, -, hrest⟩ := h
    have hrec := ih hrest (fun m hm => halive m (by simp [hm])) (Nat.lt_of_succ_lt_succ hfuel)
    rw [walk, if_pos (halive n (by simp)), hrec]
    rfl

lemma Represents.walk_eq (h : s.Represents alive L) (i : H) {fuel : ℕ}
    (hfuel : (L i).length < fuel) : s.walk alive fuel (s.first i) = some (L i) :=
  (h.chain i).walk_eq (h.alive i) hfuel

/-- What is allocated may change, if not under the lists. -/
lemma Represents.realloc {alive' : N → Bool} (h : s.Represents alive L)
    (halive : ∀ i, ∀ n ∈ L i, alive n = true → alive' n = true) : s.Represents alive' L :=
  ⟨h.chain, fun i n hn => halive i n hn (h.alive i n hn), h.nodup, h.disjoint⟩

section
variable [DecidableEq N]

lemma Represents.initNode (h : s.Represents alive L) {n : N} (hfresh : ∀ i, n ∉ L i) :
    (s.initNode n).Represents alive L := by
  refine ⟨fun i => (h.chain i).congr (fun m hm => ?_) (fun m hm => ?_), h.alive, h.nodup,
    h.disjoint⟩
  all_goals
    have hne : m ≠ n := fun hmn => hfresh i (hmn ▸ hm)
    exact Function.update_of_ne hne _ _

lemma storeBack_eq (s : HLists H N) (slot : Slot H N) (hp : ∀ n, p = some n → alive n = true) :
    s.storeBack alive slot p =
      some { s with pprev := fun n => if p = some n then some slot else s.pprev n } := by
  cases p with
  | none => simp [storeBack]
  | some m =>
    rw [storeBack, if_pos (hp m rfl)]
    congr 2
    funext n
    simp [Function.update_apply, eq_comm]

lemma storeBack_next {s' : HLists H N} (h : s.storeBack alive slot p = some s') :
    s'.next = s.next := by
  cases p with
  | none => rw [← Option.some.inj h]
  | some m =>
    rw [storeBack] at h
    split_ifs at h
    rw [← Option.some.inj h]

end

variable [DecidableEq H]

/-- Replacing one of the lists. -/
lemma Represents.update {s' : HLists H N} (h : s.Represents alive L) {i : H} {l : List N}
    (hchain : s'.Chain (s'.first i) (.first i) l) (halive : ∀ n ∈ l, alive n = true)
    (hnodup : l.Nodup) (hdisj : ∀ j, j ≠ i → l.Disjoint (L j))
    (hfirst : ∀ j, j ≠ i → s'.first j = s.first j)
    (hnext : ∀ j, j ≠ i → ∀ n ∈ L j, s'.next n = s.next n)
    (hback : ∀ j, j ≠ i → ∀ n ∈ L j, s'.pprev n = s.pprev n) :
    s'.Represents alive (Function.update L i l) := by
  refine ⟨fun j => ?_, fun j => ?_, fun j => ?_, fun j k hjk => ?_⟩
  · rcases eq_or_ne j i with rfl | hj
    · rw [Function.update_self]
      exact hchain
    · rw [Function.update_of_ne hj, hfirst j hj]
      exact (h.chain j).congr (hnext j hj) (hback j hj)
  · rcases eq_or_ne j i with rfl | hj
    · rw [Function.update_self]
      exact halive
    · rw [Function.update_of_ne hj]
      exact h.alive j
  · rcases eq_or_ne j i with rfl | hj
    · rw [Function.update_self]
      exact hnodup
    · rw [Function.update_of_ne hj]
      exact h.nodup j
  · rcases eq_or_ne j i with rfl | hj
    · rw [Function.update_self, Function.update_of_ne hjk.symm]
      exact hdisj k hjk.symm
    · rcases eq_or_ne k i with rfl | hk
      · rw [Function.update_self, Function.update_of_ne hj]
        exact (hdisj j hj).symm
      · rw [Function.update_of_ne hj, Function.update_of_ne hk]
        exact h.disjoint j k hjk

/-- A node taken off the front of its list is on no other. -/
lemma Represents.notMem_update (h : s.Represents alive L) {n : N} {i : H} {l : List N}
    (hl : L i = n :: l) (j : H) : n ∉ Function.update L i l j := by
  have hnodup := h.nodup i
  rw [hl] at hnodup
  rcases eq_or_ne j i with rfl | hj
  · rw [Function.update_self]
    exact (List.nodup_cons.mp hnodup).1
  · rw [Function.update_of_ne hj]
    exact h.disjoint i j hj.symm (by simp [hl])

variable [DecidableEq N]

/-- `hlist_add_head` changes the successor of no other node. -/
lemma addHead_next {s' : HLists H N} {n : N} {i : H} (h : s.addHead alive n i = some s') {m : N}
    (hm : m ≠ n) : s'.next m = s.next m := by
  simp only [HLists.addHead, bind, Option.bind_eq_some_iff] at h
  obtain ⟨s₁, h₁, s₂, h₂, s₃, h₃, h₄⟩ := h
  have hfirst : s₃.next = s₂.next := by rw [← Option.some.inj h₃]
  rw [storeBack_next h₄, hfirst, storeBack_next h₂]
  rw [store] at h₁
  split_ifs at h₁
  rw [← Option.some.inj h₁]
  exact Function.update_of_ne hm _ _

/-- `hlist_add_head` puts a node that is on no list in front of one. -/
theorem Represents.addHead (h : s.Represents alive L) {n : N} (hn : alive n = true)
    (hfresh : ∀ j, n ∉ L j) (i : H) :
    ∃ s', s.addHead alive n i = some s' ∧
      s'.Represents alive (Function.update L i (n :: L i)) := by
  have hmem := fun m => (h.chain i).head_mem (n := m)
  have hback := storeBack_eq { s with next := Function.update s.next n (s.first i) } (.next n)
    fun m hm => h.alive i m (hmem m hm)
  have heq : s.addHead alive n i = some
      { first := Function.update s.first i (some n), next := Function.update s.next n (s.first i),
        pprev := Function.update (fun m => if s.first i = some m then some (.next n) else s.pprev m)
          n (some (.first i)) } := by
    simp only [HLists.addHead, store, hn, if_true, bind, Option.bind, hback]
    simp [storeBack, hn]
  refine ⟨_, heq, h.update ⟨?_, ?_, ?_⟩ ?_ ?_ ?_ ?_ ?_ ?_⟩
  · simp
  · simp
  -- the old list hangs on the new node
  · have hne : ∀ m ∈ L i, m ≠ n := fun m hm hmn => hfresh i (hmn ▸ hm)
    simp only [Function.update_self]
    refine (h.chain i).retarget (h.nodup i) (fun m hm => ?_) (fun m hm => ?_) fun m hm hfirst => ?_
    · exact Function.update_of_ne (hne m hm) _ _
    · simp [hne m (hmem m hm), hm]
    · simp [hne m hm, hfirst]
  · simpa [hn] using h.alive i
  · exact List.nodup_cons.mpr ⟨hfresh i, h.nodup i⟩
  · intro j hj
    exact List.disjoint_cons_left.mpr ⟨hfresh j, h.disjoint i j hj.symm⟩
  · intro j hj
    exact Function.update_of_ne hj _ _
  · intro j _ m hm
    have hne : m ≠ n := fun hmn => hfresh j (hmn ▸ hm)
    exact Function.update_of_ne hne _ _
  · intro j hj m hm
    have hne : m ≠ n := fun hmn => hfresh j (hmn ▸ hm)
    have hfirst : ¬ s.first i = some m := fun hm' => h.disjoint i j hj.symm (hmem m hm') hm
    simp [hne, hfirst]

/-- `hlist_del` takes the first node off its list. -/
theorem Represents.del_first (h : s.Represents alive L) {n : N} {i : H} {l : List N}
    (hl : L i = n :: l) :
    ∃ s', s.del alive n = some s' ∧ s'.Represents alive (Function.update L i l) := by
  have hchain := h.chain i
  have halive := h.alive i
  have hnodup := h.nodup i
  rw [hl] at hchain halive hnodup
  obtain ⟨hfirst, hpprev, hrest⟩ := hchain
  obtain ⟨hn, hnodup⟩ := List.nodup_cons.mp hnodup
  have hmem := fun m => hrest.head_mem (n := m)
  have hback := storeBack_eq { s with first := Function.update s.first i (s.next n) } (.first i)
    fun m hm => halive m (List.mem_cons_of_mem n (hmem m hm))
  have heq : s.del alive n = some
      { first := Function.update s.first i (s.next n), next := Function.update s.next n none,
        pprev := Function.update
          (fun m => if s.next n = some m then some (.first i) else s.pprev m) n none } := by
    simp only [del, store, halive n (by simp), if_true, bind, Option.bind, hpprev, hback]
    rfl
  have hother : ∀ j, j ≠ i → ∀ m ∈ L j, m ∉ n :: l := by
    intro j hj m hm hm'
    exact h.disjoint i j hj.symm (hl ▸ hm') hm
  refine ⟨_, heq, h.update ?_ ?_ hnodup ?_ ?_ ?_ ?_⟩
  · have hne : ∀ m ∈ l, m ≠ n := fun m hm hmn => hn (hmn ▸ hm)
    simp only [Function.update_self]
    refine hrest.retarget hnodup (fun m hm => ?_) (fun m hm => ?_) fun m hm hfirst => ?_
    · exact Function.update_of_ne (hne m hm) _ _
    · simp [hne m (hmem m hm), hm]
    · simp [hne m hm, hfirst]
  · exact fun m hm => halive m (by simp [hm])
  · intro j hj m hm hm'
    exact hother j hj m hm' (by simp [hm])
  · intro j hj
    exact Function.update_of_ne hj _ _
  · intro j hj m hm
    have hne : m ≠ n := fun hmn => hother j hj m hm (by simp [hmn])
    exact Function.update_of_ne hne _ _
  · intro j hj m hm
    have hne : m ≠ n := fun hmn => hother j hj m hm (by simp [hmn])
    have hnext : ¬ s.next n = some m := fun hm' => hother j hj m hm (by simp [hmem m hm'])
    simp [hne, hnext]

end HLists

/-- A list with a ring of links; its head is the place `none`. -/
structure RingList (N : Type*) where
  next : Option N → Option N
  prev : Option N → Option N

namespace RingList
variable {N : Type*} (alive : N → Bool) (s : RingList N)

/-- Links may be stored in the head and in allocated nodes. -/
def Valid (p : Option N) : Prop := ∀ n ∈ p, alive n = true

instance (p : Option N) : Decidable (Valid alive p) := inferInstanceAs (Decidable (∀ n ∈ p, _))

/-- `p->next`. -/
def follow (p : Option N) : Option (Option N) := if Valid alive p then some (s.next p) else none

/-- `list_del_init`. -/
def delInit [DecidableEq N] (n : N) : Option (RingList N) :=
  let p := s.prev (some n)
  let q := s.next (some n)
  if alive n ∧ Valid alive p ∧ Valid alive q then
    some ⟨Function.update (Function.update s.next p q) (some n) (some n),
      Function.update (Function.update s.prev q p) (some n) (some n)⟩
  else none

/-- `INIT_LIST_HEAD` of a node. -/
def initNode [DecidableEq N] (n : N) : RingList N :=
  ⟨Function.update s.next (some n) (some n), Function.update s.prev (some n) (some n)⟩

/-- `list_add_tail`. -/
def addTail [DecidableEq N] (n : N) : Option (RingList N) :=
  let p := s.prev none
  if alive n ∧ Valid alive p then
    some ⟨Function.update (Function.update s.next (some n) none) p (some n),
      Function.update (Function.update s.prev none (some n)) (some n) p⟩
  else none

/-- `list_del`. What is put into the node itself nobody may follow. -/
def del [DecidableEq N] (n : N) : Option (RingList N) :=
  let p := s.prev (some n)
  let q := s.next (some n)
  if alive n ∧ Valid alive p ∧ Valid alive q then
    some ⟨Function.update s.next p q, Function.update s.prev q p⟩
  else none

/-- From `p` on the ring leads through these nodes to the head, and back. -/
def Linked : Option N → List N → Prop
  | p, [] => s.next p = none ∧ s.prev none = p
  | p, n :: l => s.next p = some n ∧ s.prev (some n) = p ∧ Linked (some n) l

structure Represents (l : List N) : Prop where
  linked : s.Linked none l
  alive : ∀ n ∈ l, alive n = true
  nodup : l.Nodup

variable {alive s} {p : Option N} {l : List N}

lemma Linked.next_eq (h : s.Linked p l) : s.next p = l.head? := by
  cases l with
  | nil => exact h.1
  | cons n l => exact h.1

/-- A part of the ring keeps the links inside of it. -/
lemma Linked.congr {s' : RingList N} (h : s.Linked p l) (hhead : s'.next p = s.next p)
    (hnext : ∀ n ∈ l, s'.next (some n) = s.next (some n))
    (hprev : ∀ n ∈ l, s'.prev (some n) = s.prev (some n)) (hend : s'.prev none = s.prev none) :
    s'.Linked p l := by
  induction l generalizing p with
  | nil => exact ⟨hhead.trans h.1, hend.trans h.2⟩
  | cons n l ih =>
    obtain ⟨hn, hp, hrest⟩ := h
    refine ⟨hhead.trans hn, (hprev n (by simp)).trans hp, ih hrest (hnext n (by simp)) ?_ ?_⟩
    · exact fun m hm => hnext m (by simp [hm])
    · exact fun m hm => hprev m (by simp [hm])

lemma Represents.follow_eq (h : s.Represents alive l) (hp : p = l.head?) :
    s.follow alive p = some (s.next p) := by
  refine if_pos fun n hn => h.alive n ?_
  rw [hp] at hn
  exact List.mem_of_mem_head? hn

/-- From a node on, the ring leads through those behind it. -/
lemma Linked.from_mem {n : N} {pre post : List N} (h : s.Linked p (pre ++ n :: post)) :
    s.Linked (some n) post := by
  induction pre generalizing p with
  | nil => exact h.2.2
  | cons m pre ih => exact ih h.2.2

lemma Linked.prev_mem {n : N} {pre post : List N} (h : s.Linked p (pre ++ n :: post)) :
    s.prev (some n) ∈ p :: pre.map some := by
  induction pre generalizing p with
  | nil => simp [h.2.1]
  | cons m pre ih => exact List.mem_cons_of_mem p (ih h.2.2)

lemma Linked.last_mem (h : s.Linked p l) : s.prev none ∈ p :: l.map some := by
  induction l generalizing p with
  | nil => simp [h.2]
  | cons m l ih => exact List.mem_cons_of_mem p (ih h.2.2)

/-- What is allocated may change, if not under the list. -/
lemma Represents.realloc {alive' : N → Bool} (h : s.Represents alive l)
    (halive : ∀ n ∈ l, alive n = true → alive' n = true) : s.Represents alive' l :=
  ⟨h.linked, fun n hn => halive n hn (h.alive n hn), h.nodup⟩

lemma Represents.valid_of_mem (h : s.Represents alive l) (hp : p ∈ none :: l.map some) :
    Valid alive p := by
  rintro n rfl
  exact h.alive n (by simpa using hp)

variable [DecidableEq N]

lemma Represents.initNode (h : s.Represents alive l) {n : N} (hfresh : n ∉ l) :
    (s.initNode n).Represents alive l := by
  refine ⟨h.linked.congr ?_ (fun m hm => ?_) (fun m hm => ?_) ?_, h.alive, h.nodup⟩
  · simp [RingList.initNode]
  · have hne : m ≠ n := fun hmn => hfresh (hmn ▸ hm)
    simp [RingList.initNode, hne]
  · have hne : m ≠ n := fun hmn => hfresh (hmn ▸ hm)
    simp [RingList.initNode, hne]
  · simp [RingList.initNode]

lemma Linked.addTail {n : N} (h : s.Linked p l) (hp : p ∉ l.map some) (hnodup : l.Nodup)
    (hfresh : n ∉ l) (hpn : p ≠ some n) :
    Linked ⟨Function.update (Function.update s.next (some n) none) (s.prev none) (some n),
      Function.update (Function.update s.prev none (some n)) (some n) (s.prev none)⟩ p
        (l ++ [n]) := by
  induction l generalizing p with
  | nil =>
    obtain ⟨-, rfl⟩ := h
    simp [Linked, Function.update_of_ne hpn.symm]
  | cons m l ih =>
    obtain ⟨hnext, hprev, hrest⟩ := h
    obtain ⟨hm, hnodup⟩ := List.nodup_cons.mp hnodup
    simp only [List.mem_cons, not_or] at hfresh
    have hlast : p ≠ s.prev none := by
      rintro rfl
      exact hp hrest.last_mem
    refine ⟨?_, ?_, ih hrest (by simpa using hm) hnodup hfresh.2 (by simpa using Ne.symm hfresh.1)⟩
    · simp [hlast, hpn, hnext]
    · simp [Ne.symm hfresh.1, hprev]

/-- `list_add_tail` puts a node that is not on the ring behind the others. -/
theorem Represents.addTail (h : s.Represents alive l) {n : N} (hn : alive n = true)
    (hfresh : n ∉ l) :
    ∃ s', s.addTail alive n = some s' ∧ s'.Represents alive (l ++ [n]) := by
  have hlast : Valid alive (s.prev none) := h.valid_of_mem h.linked.last_mem
  refine ⟨_, if_pos ⟨hn, hlast⟩, ?_, ?_, ?_⟩
  · exact h.linked.addTail (by simp) h.nodup hfresh (by simp)
  · intro m hm
    rcases List.mem_append.mp hm with hm | hm
    · exact h.alive m hm
    · rwa [List.mem_singleton.mp hm]
  · rw [List.nodup_append_comm]
    exact List.nodup_cons.mpr ⟨hfresh, h.nodup⟩

lemma Linked.del {n : N} {pre post : List N} (h : s.Linked p (pre ++ n :: post))
    (hp : p ∉ (pre ++ n :: post).map some) (hnodup : (pre ++ n :: post).Nodup) :
    Linked ⟨Function.update s.next (s.prev (some n)) (s.next (some n)),
      Function.update s.prev (s.next (some n)) (s.prev (some n))⟩ p (pre ++ post) := by
  induction pre generalizing p with
  | nil =>
    obtain ⟨-, hprev, hrest⟩ := h
    obtain ⟨hn, hnodup⟩ := List.nodup_cons.mp hnodup
    have hnext := hrest.next_eq
    rw [hprev, hnext]
    cases post with
    | nil => simp [Linked]
    | cons m post =>
      obtain ⟨hm, -⟩ := List.nodup_cons.mp hnodup
      refine ⟨by simp, by simp, hrest.2.2.congr ?_ (fun k hk => ?_) (fun k hk => ?_) ?_⟩
      · have hne : some m ≠ p := fun hmp => hp (by simp [← hmp])
        simp [hne]
      · have hne : some k ≠ p := fun hkp => hp (by simp [← hkp, hk])
        simp [hne]
      · have hne : k ≠ m := fun hkm => hm (hkm ▸ hk)
        simp [hne]
      · simp
  | cons m pre ih =>
    obtain ⟨hnext, hprev, hrest⟩ := h
    obtain ⟨hm, hnodup⟩ := List.nodup_cons.mp hnodup
    have hlast : p ≠ s.prev (some n) := by
      rintro rfl
      have := hrest.prev_mem
      exact hp (by simpa using Or.imp_right Or.inl (List.mem_cons.mp this))
    have hfirst : some m ≠ s.next (some n) := by
      rw [hrest.from_mem.next_eq]
      intro hmp
      exact hm (by simp [List.mem_of_mem_head? hmp.symm])
    refine ⟨?_, ?_, ih hrest (by simpa using hm) hnodup⟩
    · simp [hlast, hnext]
    · simp [hfirst, hprev]

/-- `list_del` takes a node out of the ring, wherever it is. -/
theorem Represents.del {n : N} {pre post : List N} (h : s.Represents alive (pre ++ n :: post)) :
    ∃ s', s.del alive n = some s' ∧ s'.Represents alive (pre ++ post) := by
  have hsub : (pre ++ post).Sublist (pre ++ n :: post) :=
    List.Sublist.append_left (List.sublist_cons_self n post) pre
  have hp : Valid alive (s.prev (some n)) := by
    refine h.valid_of_mem ?_
    have := h.linked.prev_mem
    simpa using Or.imp_right Or.inl (List.mem_cons.mp this)
  have hq : Valid alive (s.next (some n)) := by
    intro m hm
    rw [h.linked.from_mem.next_eq] at hm
    exact h.alive m (by simp [List.mem_of_mem_head? hm])
  refine ⟨_, if_pos ⟨h.alive n (by simp), hp, hq⟩, ?_, ?_, h.nodup.sublist hsub⟩
  · exact h.linked.del (by simp) h.nodup
  · exact fun m hm => h.alive m (hsub.subset hm)

/-- `list_del_init` takes the first node off the ring. -/
theorem Represents.delInit_first {n : N} (h : s.Represents alive (n :: l)) :
    ∃ s', s.delInit alive n = some s' ∧ s'.Represents alive l := by
  obtain ⟨⟨-, hprev, hrest⟩, halive, hnodup⟩ := h
  obtain ⟨hn, hnodup⟩ := List.nodup_cons.mp hnodup
  have hnext := hrest.next_eq
  have hvalid : Valid alive (s.next (some n)) := by
    intro m hm
    rw [hnext] at hm
    exact halive m (List.mem_cons_of_mem n (List.mem_of_mem_head? hm))
  refine ⟨_, if_pos ⟨halive n (by simp), by simp [hprev, Valid], hvalid⟩, ?_,
    fun m hm => halive m (by simp [hm]), hnodup⟩
  rw [hprev]
  cases l with
  | nil =>
    rw [hnext]
    simp [Linked]
  | cons m l =>
    obtain ⟨-, -, hrest⟩ := hrest
    obtain ⟨hm, -⟩ := List.nodup_cons.mp hnodup
    rw [hnext]
    simp only [List.mem_cons, not_or] at hn
    refine ⟨by simp, by simp [Ne.symm hn.1], hrest.congr ?_ (fun k hk => ?_) (fun k hk => ?_) ?_⟩
    · simp [Ne.symm hn.1]
    · have hkn : k ≠ n := fun hkn => hn.2 (hkn ▸ hk)
      simp [hkn]
    · have hkn : k ≠ n := fun hkn => hn.2 (hkn ▸ hk)
      have hkm : k ≠ m := fun hkm => hm (hkm ▸ hk)
      simp [hkn, hkm]
    · simp

end RingList

end LinuxLabs.IntrusiveList
