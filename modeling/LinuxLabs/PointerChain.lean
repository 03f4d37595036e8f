import Mathlib

/-! Singly linked lists in a heap. A heap maps pointers to cells, each cell knows the pointer to
the next one, and a chain is the list of cells that following the pointers visits. -/
namespace LinuxLabs.PointerChain

variable {P V : Type*} (null : P) (next : V → P)

/-- Following the pointers from `p` visits these cells, in this order, and ends. -/
def Chain (heap : P → Option V) : P → List (P × V) → Prop
  | p, [] => p = null
  | p, (q, v) :: l => p = q ∧ p ≠ null ∧ heap p = some v ∧ Chain heap (next v) l

/-- The loop that looks for a cell, with a bound on its turns: `none` for a loop that does not
end within the bound or follows a dangling pointer, the null pointer for a search in vain. -/
def search [DecidableEq P] (test : V → Bool) (heap : P → Option V) : ℕ → P → Option P
  | 0, _ => none
  | n + 1, p =>
    if p = null then some null
    else
      match heap p with
      | none => none
      | some v => if test v then some p else search test heap n (next v)

/-- The pointer after `n` steps, or the null pointer if the chain is shorter. -/
def advance [DecidableEq P] (heap : P → Option V) : ℕ → P → Option P
  | 0, p => some p
  | n + 1, p =>
    if p = null then some null
    else
      match heap p with
      | none => none
      | some v => advance heap n (next v)

/-- The head of a chain as a pointer. -/
def headPtr (l : List (P × V)) : P := (l.head?.map Prod.fst).getD null

variable {null next} {heap : P → Option V} {p : P} {l l' : List (P × V)}

theorem Chain.headPtr_eq (h : Chain null next heap p l) : headPtr null l = p := by
  cases l with
  | nil => exact h.symm
  | cons e l => exact h.1.symm

theorem Chain.unique (h : Chain null next heap p l) (h' : Chain null next heap p l') : l = l' := by
  induction l generalizing p l' with
  | nil =>
    cases l' with
    | nil => rfl
    | cons e l' => exact absurd h h'.2.1
  | cons e l ih =>
    obtain ⟨q, v⟩ := e
    obtain ⟨rfl, hne, hv, ht⟩ := h
    cases l' with
    | nil => exact absurd h' hne
    | cons e' l' =>
      obtain ⟨q', v'⟩ := e'
      obtain ⟨rfl, -, hv', ht'⟩ := h'
      obtain rfl : v = v' := Option.some.inj (hv.symm.trans hv')
      rw [ih ht ht']

theorem Chain.mem_heap (h : Chain null next heap p l) {e : P × V} (he : e ∈ l) :
    e.1 ≠ null ∧ heap e.1 = some e.2 := by
  induction l generalizing p with
  | nil => simp at he
  | cons a l ih =>
    obtain ⟨q, v⟩ := a
    obtain ⟨rfl, hne, hv, ht⟩ := h
    rcases List.mem_cons.mp he with rfl | he
    · exact ⟨hne, hv⟩
    · exact ih ht he

/-- From any cell of a chain on, the rest of the list is a chain. -/
theorem Chain.drop (h : Chain null next heap p l) {e : P × V} {a b : List (P × V)}
    (hl : l = a ++ e :: b) : Chain null next heap e.1 (e :: b) := by
  induction a generalizing p l with
  | nil =>
    subst hl
    obtain ⟨q, v⟩ := e
    obtain ⟨rfl, hrest⟩ := h
    exact ⟨rfl, hrest⟩
  | cons x a ih =>
    subst hl
    exact ih h.2.2.2 rfl

/-- A chain that ends visits no cell twice: a second visit would have to end the same way as
the first, which is longer. -/
theorem Chain.nodup (h : Chain null next heap p l) : (l.map Prod.fst).Nodup := by
  induction l generalizing p with
  | nil => exact List.nodup_nil
  | cons e l ih =>
    rw [List.map_cons, List.nodup_cons]
    refine ⟨fun hmem => ?_, ih h.2.2.2⟩
    obtain ⟨e', he', hfst⟩ := List.mem_map.mp hmem
    obtain ⟨a, b, rfl⟩ := List.append_of_mem he'
    have hagain := Chain.drop (a := e :: a) h rfl
    rw [hfst, ← h.1] at hagain
    have hlen := congrArg List.length (h.unique hagain)
    simp only [List.length_cons, List.length_append] at hlen
    omega

theorem Chain.length_lt [Fintype P] (h : Chain null next heap p l) :
    l.length < Fintype.card P := by
  have hnodup : (null :: l.map Prod.fst).Nodup := by
    refine List.nodup_cons.mpr ⟨fun hmem => ?_, h.nodup⟩
    obtain ⟨e, he, hnull⟩ := List.mem_map.mp hmem
    exact (h.mem_heap he).1 hnull
  have hcard := hnodup.length_le_card
  simp only [List.length_cons, List.length_map] at hcard
  omega

theorem Chain.search_eq [DecidableEq P] (h : Chain null next heap p l) (test : V → Bool) {n : ℕ}
    (hn : l.length < n) :
    search null next test heap n p =
      some (((l.find? fun e => test e.2).map Prod.fst).getD null) := by
  induction l generalizing p n with
  | nil =>
    obtain ⟨n, rfl⟩ : ∃ m, n = m + 1 := ⟨n - 1, by simp at hn; omega⟩
    have hp : p = null := h
    simp [search, hp]
  | cons e l ih =>
    obtain ⟨q, v⟩ := e
    obtain ⟨rfl, hne, hv, ht⟩ := h
    obtain ⟨n, rfl⟩ : ∃ m, n = m + 1 := ⟨n - 1, by simp at hn; omega⟩
    by_cases hv' : test v
    · simp [search, hne, hv, hv']
    · have hrec := ih ht (n := n) (by simpa using hn)
      simpa [search, hne, hv, hv'] using hrec

theorem Chain.advance_eq [DecidableEq P] (h : Chain null next heap p l) (n : ℕ) :
    advance null next heap n p = some (headPtr null (l.drop n)) := by
  induction n generalizing p l with
  | zero => rw [advance, List.drop_zero, h.headPtr_eq]
  | succ n ih =>
    cases l with
    | nil =>
      have hp : p = null := h
      simp [advance, hp, headPtr]
    | cons e l =>
      obtain ⟨q, v⟩ := e
      obtain ⟨rfl, hne, hv, ht⟩ := h
      simpa [advance, hne, hv] using ih ht

/-- A cell in front of a chain, at an address the chain does not use. -/
theorem Chain.push [DecidableEq P] (h : Chain null next heap p l) {q : P} {v : V} (hq : q ≠ null)
    (hfresh : q ∉ l.map Prod.fst) (hv : next v = p) :
    Chain null next (Function.update heap q (some v)) q ((q, v) :: l) := by
  refine ⟨rfl, hq, by simp, ?_⟩
  rw [hv]
  clear hv
  induction l generalizing p with
  | nil => exact h
  | cons e l ih =>
    obtain ⟨q', v'⟩ := e
    obtain ⟨rfl, hne, hv', ht⟩ := h
    simp only [List.map_cons, List.mem_cons, not_or] at hfresh
    exact ⟨rfl, hne, by rw [Function.update_of_ne (Ne.symm hfresh.1), hv'], ih ht hfresh.2⟩

/-- A store to a cell that leaves its pointer alone. -/
theorem Chain.store [DecidableEq P] (h : Chain null next heap p l) {q : P} {v : V}
    (hv : ∀ v', heap q = some v' → next v = next v') :
    Chain null next (Function.update heap q (some v)) p
      (l.map fun e => if e.1 = q then (q, v) else e) := by
  induction l generalizing p with
  | nil => exact h
  | cons e l ih =>
    obtain ⟨q', v'⟩ := e
    obtain ⟨rfl, hne, hv', ht⟩ := h
    by_cases hq : p = q
    · subst hq
      have ht' := ih ht
      rw [← hv v' hv'] at ht'
      simpa [Chain, hne] using ht'
    · simpa [Chain, hq, hne, hv'] using ih ht

lemma store_fst [DecidableEq P] (l : List (P × V)) (q : P) (v : V) :
    (l.map fun e => if e.1 = q then (q, v) else e).map Prod.fst = l.map Prod.fst := by
  rw [List.map_map]
  apply List.map_congr_left
  intro e _
  simp only [Function.comp_apply]
  split_ifs with hq
  · exact hq.symm
  · rfl

end LinuxLabs.PointerChain
