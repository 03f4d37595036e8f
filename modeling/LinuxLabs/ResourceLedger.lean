import LinuxLabs.EventRun

/-! Objects that a program takes and has to give back. Every object has a kind and a name that no
object had before. A step on a null pointer or on an object that is gone is a fault; what is alive
at the end and was not at the start has leaked. -/
namespace LinuxLabs.ResourceLedger
open EventRun

variable {K : Type}

structure Ledger (K : Type) where
  live : Multiset (K × ℕ)
  next : ℕ

/-- No name was given out that is still to come. -/
def Ledger.Fresh (l : Ledger K) : Prop := ∀ x ∈ l.live, x.2 < l.next

lemma fresh_empty (next : ℕ) : (⟨0, next⟩ : Ledger K).Fresh := by
  intro x hx
  cases hx

/-- An allocation, with a null pointer if it fails. -/
def alloc (k : K) (ok : Bool) (l : Ledger K) : Option ℕ × Ledger K :=
  if ok then (some l.next, ⟨(k, l.next) ::ₘ l.live, l.next + 1⟩) else (none, l)

/-- One object for each index, up to the first that cannot be had. -/
def allocEach (k : K) (ok : ℕ → Bool) :
    List ℕ → (ℕ → Option ℕ) → Ledger K → Bool × (ℕ → Option ℕ) × Ledger K
  | [], p, l => (true, p, l)
  | i :: is, p, l =>
    let (a, l) := alloc k (ok i) l
    if a = none then (false, Function.update p i a, l)
    else allocEach k ok is (Function.update p i a) l

@[simp] lemma alloc_true (k : K) (l : Ledger K) :
    alloc k true l = (some l.next, ⟨(k, l.next) ::ₘ l.live, l.next + 1⟩) := rfl

@[simp] lemma alloc_false (k : K) (l : Ledger K) : alloc k false l = (none, l) := rfl

lemma Ledger.Fresh.alloc {l : Ledger K} (h : l.Fresh) (k : K) (ok : Bool) :
    (alloc k ok l).2.Fresh := by
  cases ok with
  | false => exact h
  | true =>
    intro x hx
    rcases Multiset.mem_cons.mp hx with rfl | hx
    · exact l.next.lt_succ_self
    · exact (h x hx).trans l.next.lt_succ_self

/-- The name of the next object is not in use. -/
lemma Ledger.Fresh.not_mem {l : Ledger K} (h : l.Fresh) (k : K) : (k, l.next) ∉ l.live :=
  fun hmem => (h _ hmem).ne rfl

lemma Ledger.Fresh.mono {l l' : Ledger K} (h : l.Fresh) (hlive : l'.live = l.live)
    (hnext : l.next ≤ l'.next) : l'.Fresh := by
  intro x hx
  rw [hlive] at hx
  exact (h x hx).trans_le hnext

/-- Names are not given out twice, either. -/
structure Ledger.Tidy (l : Ledger K) : Prop where
  fresh : l.Fresh
  nodup : l.live.Nodup

lemma tidy_empty (next : ℕ) : (⟨0, next⟩ : Ledger K).Tidy := ⟨fresh_empty next, Multiset.nodup_zero⟩

lemma Ledger.Tidy.cons {l : Ledger K} (h : l.Tidy) (k : K) :
    (⟨(k, l.next) ::ₘ l.live, l.next + 1⟩ : Ledger K).Tidy :=
  ⟨h.fresh.alloc k true, Multiset.nodup_cons.mpr ⟨h.fresh.not_mem k, h.nodup⟩⟩

lemma Ledger.Tidy.mono {l l' : Ledger K} (h : l.Tidy) (hlive : l'.live ≤ l.live)
    (hnext : l.next ≤ l'.next) : l'.Tidy :=
  ⟨fun x hx => (h.fresh x (Multiset.mem_of_le hlive hx)).trans_le hnext,
    Multiset.nodup_of_le hlive h.nodup⟩

/-- What the pointers of some indexes own. -/
def owned (k : K) (p : ℕ → Option ℕ) : List ℕ → Multiset (K × ℕ)
  | [] => 0
  | i :: is => (p i).elim 0 (fun a => {(k, a)}) + owned k p is

lemma owned_kind {k : K} {p : ℕ → Option ℕ} {is : List ℕ} {x : K × ℕ} (h : x ∈ owned k p is) :
    x.1 = k := by
  induction is with
  | nil => cases h
  | cons i is ih =>
    rw [owned, Multiset.mem_add] at h
    rcases h with h | h
    · cases hp : p i with
      | none => simp [hp] at h
      | some a =>
        rw [hp, Option.elim_some, Multiset.mem_singleton] at h
        rw [h]
    · exact ih h

lemma owned_mem {k : K} {p : ℕ → Option ℕ} {is : List ℕ} {i a : ℕ} (hi : i ∈ is)
    (hp : p i = some a) : (k, a) ∈ owned k p is := by
  induction is with
  | nil => cases hi
  | cons j is ih =>
    rw [owned, Multiset.mem_add]
    rcases List.mem_cons.mp hi with rfl | hi
    · simp [hp]
    · exact .inr (ih hi)

lemma owned_card {k : K} {p : ℕ → Option ℕ} {is : List ℕ} (h : ∀ i ∈ is, (p i).isSome) :
    (owned k p is).card = is.length := by
  induction is with
  | nil => rfl
  | cons i is ih =>
    obtain ⟨a, ha⟩ := Option.isSome_iff_exists.mp (h i (by simp))
    rw [owned, Multiset.card_add, ih fun j hj => h j (by simp [hj]), ha]
    simp [Nat.add_comm]

/-- What is taken for the indexes before the first failure is owned, and nothing else is touched. -/
theorem allocEach_owned (k : K) (ok : ℕ → Bool) {is : List ℕ} (hnodup : is.Nodup)
    (p : ℕ → Option ℕ) (l : Ledger K) :
    let out := allocEach k ok is p l
    out.1 = is.all ok ∧ out.2.2.live = owned k out.2.1 (is.takeWhile ok) + l.live ∧
      (∀ i ∉ is, out.2.1 i = p i) ∧ (∀ i ∈ is.takeWhile ok, (out.2.1 i).isSome) ∧
      (∀ i ∈ is, p i = none → i ∉ is.takeWhile ok → out.2.1 i = none) := by
  induction is generalizing p l with
  | nil => simp [allocEach, owned]
  | cons i is ih =>
    obtain ⟨hi, hnodup⟩ := List.nodup_cons.mp hnodup
    cases hok : ok i with
    | false =>
      simp only [allocEach, hok, alloc_false, if_true, List.all_cons, Bool.false_and,
        List.takeWhile_cons, Bool.false_eq_true, if_false, owned, zero_add, List.not_mem_nil,
        not_false_eq_true, true_and, false_implies, implies_true]
      refine ⟨fun j hj => ?_, fun j hj hp _ => ?_⟩
      · rw [List.mem_cons, not_or] at hj
        rw [Function.update_of_ne hj.1]
      · rcases eq_or_ne j i with rfl | hne
        · rw [Function.update_self]
        · rw [Function.update_of_ne hne, hp]
    | true =>
      have hrec := ih hnodup (Function.update p i (some l.next))
        ⟨(k, l.next) ::ₘ l.live, l.next + 1⟩
      simp only [allocEach, hok, alloc_true, reduceCtorEq, if_false, List.all_cons, Bool.true_and,
        List.takeWhile_cons, if_true]
      obtain ⟨hfine, hlive, hkeep, hsome, hnull⟩ := hrec
      have hhead := (hkeep i hi).trans (Function.update_self _ _ _)
      refine ⟨hfine, ?_, fun j hj => ?_, fun j hj => ?_, fun j hj hp hw => ?_⟩
      · rw [hlive, owned, hhead, Option.elim_some, ← Multiset.singleton_add, add_left_comm,
          add_assoc]
      · rw [List.mem_cons, not_or] at hj
        rw [hkeep j hj.2, Function.update_of_ne hj.1]
      · rcases List.mem_cons.mp hj with rfl | hj
        · rw [hhead]
          rfl
        · exact hsome j hj
      · rw [List.mem_cons, not_or] at hw
        rcases List.mem_cons.mp hj with rfl | hj
        · exact absurd rfl hw.1
        · exact hnull j hj (by rw [Function.update_of_ne hw.1, hp]) hw.2

lemma alloc_next (k : K) (ok : Bool) (l : Ledger K) : l.next ≤ (alloc k ok l).2.next := by
  cases ok with
  | false => exact le_rfl
  | true => exact l.next.le_succ

lemma allocEach_next (k : K) (ok : ℕ → Bool) (is : List ℕ) (p : ℕ → Option ℕ) (l : Ledger K) :
    l.next ≤ (allocEach k ok is p l).2.2.next := by
  induction is generalizing p l with
  | nil => exact le_rfl
  | cons i is ih =>
    simp only [allocEach]
    split_ifs
    · exact alloc_next k (ok i) l
    · exact (alloc_next k (ok i) l).trans (ih _ _)

lemma Ledger.Fresh.allocEach {l : Ledger K} (h : l.Fresh) (k : K) (ok : ℕ → Bool) (is : List ℕ)
    (p : ℕ → Option ℕ) : (allocEach k ok is p l).2.2.Fresh := by
  induction is generalizing p l with
  | nil => exact h
  | cons i is ih =>
    simp only [ResourceLedger.allocEach]
    split_ifs
    · exact h.alloc k (ok i)
    · exact ih (h.alloc k (ok i)) _

lemma owned_append (k : K) (p : ℕ → Option ℕ) (is js : List ℕ) :
    owned k p (is ++ js) = owned k p is + owned k p js := by
  induction is with
  | nil => rw [List.nil_append, owned, zero_add]
  | cons i is ih => rw [List.cons_append, owned, owned, ih, add_assoc]

lemma owned_none {k : K} {p : ℕ → Option ℕ} {is : List ℕ} (h : ∀ i ∈ is, p i = none) :
    owned k p is = 0 := by
  induction is with
  | nil => rfl
  | cons i is ih =>
    rw [owned, h i (by simp), Option.elim_none, zero_add]
    exact ih fun j hj => h j (by simp [hj])

/-- Null pointers own nothing. -/
lemma owned_takeWhile {k : K} {p : ℕ → Option ℕ} {ok : ℕ → Bool} {is : List ℕ}
    (hnodup : is.Nodup) (h : ∀ i ∈ is, i ∉ is.takeWhile ok → p i = none) :
    owned k p is = owned k p (is.takeWhile ok) := by
  have hsplit := List.takeWhile_append_dropWhile (p := ok) (l := is)
  have hdisj := List.disjoint_of_nodup_append (hsplit ▸ hnodup)
  have hrest : owned k p (is.dropWhile ok) = 0 := owned_none fun i hi =>
    h i (hsplit ▸ List.mem_append_right _ hi) fun hw => hdisj hw hi
  conv_lhs => rw [← hsplit, owned_append, hrest, add_zero]

/-- From `l` to `l'` nothing went but `n` objects of kind `k`, which nobody will give back. -/
structure Loses (k : K) (n : ℕ) (l l' : Ledger K) : Prop where
  fresh : l'.Fresh
  lost : ∃ lost, l'.live = lost + l.live ∧ (∀ x ∈ lost, x.1 = k) ∧ lost.card = n

lemma Loses.refl (k : K) {l : Ledger K} (h : l.Fresh) : Loses k 0 l l :=
  ⟨h, 0, by simp, by simp, rfl⟩

lemma Loses.trans {k : K} {n m : ℕ} {l l' l'' : Ledger K} (h : Loses k n l l')
    (h' : Loses k m l' l'') : Loses k (n + m) l l'' := by
  obtain ⟨-, lost, hlive, hkind, hcard⟩ := h
  obtain ⟨hfresh, lost', hlive', hkind', hcard'⟩ := h'
  refine ⟨hfresh, lost' + lost, by rw [hlive', hlive, add_assoc], fun x hx => ?_, ?_⟩
  · rcases Multiset.mem_add.mp hx with hx | hx
    · exact hkind' x hx
    · exact hkind x hx
  · rw [Multiset.card_add, hcard, hcard', Nat.add_comm]

lemma Loses.zero_iff {k : K} {l l' : Ledger K} : Loses k 0 l l' ↔ l'.Fresh ∧ l'.live = l.live := by
  constructor
  · rintro ⟨hfresh, lost, hlive, -, hcard⟩
    rw [Multiset.card_eq_zero.mp hcard, zero_add] at hlive
    exact ⟨hfresh, hlive⟩
  · rintro ⟨hfresh, hlive⟩
    exact ⟨hfresh, 0, by rw [zero_add, hlive], by simp, rfl⟩

/-- Cycle after cycle: the run ends if each cycle does, and what is lost adds up. -/
theorem foldlM_loses {E : Type*} {cycle : Ledger K → E → Option (Ledger K)} {C : E → Prop} {k : K}
    {loss : E → ℕ} (h : ∀ l e, l.Fresh → ((cycle l e).isSome ↔ C e) ∧
      ∀ l', cycle l e = some l' → Loses k (loss e) l l') (es : List E) {l : Ledger K}
    (hl : l.Fresh) :
    ((es.foldlM cycle l).isSome ↔ ∀ e ∈ es, C e) ∧
      ∀ l', es.foldlM cycle l = some l' → Loses k (es.map loss).sum l l' := by
  apply foldlM_iff (R := fun l' es => Loses k (es.map loss).sum l l')
  · intro l' es e hlost hc
    obtain ⟨l'', hcycle⟩ := Option.isSome_iff_exists.mp ((h l' e hlost.fresh).1.mpr hc)
    refine ⟨l'', hcycle, ?_⟩
    rw [List.map_append, List.sum_append, List.map_singleton, List.sum_singleton]
    exact hlost.trans ((h l' e hlost.fresh).2 l'' hcycle)
  · intro l' es e hlost hc
    rw [← Option.not_isSome_iff_eq_none]
    exact fun hsome => hc ((h l' e hlost.fresh).1.mp hsome)
  · exact Loses.refl k hl

variable [DecidableEq K]

def touch (k : K) (p : Option ℕ) (l : Ledger K) : Option (Ledger K) :=
  p.bind fun a => if (k, a) ∈ l.live then some l else none

def give (k : K) (p : Option ℕ) (l : Ledger K) : Option (Ledger K) :=
  p.bind fun a => if (k, a) ∈ l.live then some ⟨l.live.erase (k, a), l.next⟩ else none

/-- For functions that leave null pointers alone. -/
def giveUnlessNull (k : K) (p : Option ℕ) (l : Ledger K) : Option (Ledger K) :=
  if p = none then some l else give k p l

def giveEach (k : K) (p : ℕ → Option ℕ) : List ℕ → Ledger K → Option (Ledger K)
  | [], l => some l
  | i :: is, l => (giveUnlessNull k (p i) l).bind (giveEach k p is)

@[simp] lemma touch_none (k : K) (l : Ledger K) : touch k none l = none := rfl

@[simp] lemma give_none (k : K) (l : Ledger K) : give k none l = none := rfl

lemma touch_live {k : K} {a : ℕ} {l : Ledger K} (h : (k, a) ∈ l.live) :
    touch k (some a) l = some l := if_pos h

lemma touch_dead {k : K} {a : ℕ} {l : Ledger K} (h : (k, a) ∉ l.live) :
    touch k (some a) l = none := if_neg h

lemma give_cons {k : K} {a : ℕ} {l : Ledger K} {rest : Multiset (K × ℕ)}
    (h : l.live = (k, a) ::ₘ rest) : give k (some a) l = some ⟨rest, l.next⟩ := by
  have hmem : (k, a) ∈ l.live := by
    rw [h]
    exact Multiset.mem_cons_self _ _
  have hgive : give k (some a) l = some ⟨l.live.erase (k, a), l.next⟩ := if_pos hmem
  rw [hgive, h, Multiset.erase_cons_head]

lemma give_head (k : K) (a : ℕ) (rest : Multiset (K × ℕ)) (next : ℕ) :
    give k (some a) ⟨(k, a) ::ₘ rest, next⟩ = some ⟨rest, next⟩ := give_cons rfl

lemma giveUnlessNull_owned {k : K} {p : ℕ → Option ℕ} {i : ℕ} {l : Ledger K}
    {rest : Multiset (K × ℕ)} (h : l.live = (p i).elim 0 (fun a => {(k, a)}) + rest) :
    giveUnlessNull k (p i) l = some ⟨rest, l.next⟩ := by
  cases hp : p i with
  | none =>
    rw [hp, Option.elim_none, zero_add] at h
    rw [← h]
    rfl
  | some a =>
    rw [hp, Option.elim_some, Multiset.singleton_add] at h
    exact give_cons h

/-- Giving back what is owned leaves the rest. -/
theorem giveEach_owned {k : K} {p : ℕ → Option ℕ} (is : List ℕ) {l : Ledger K}
    {rest : Multiset (K × ℕ)} (h : l.live = owned k p is + rest) :
    giveEach k p is l = some ⟨rest, l.next⟩ := by
  induction is generalizing l with
  | nil =>
    rw [owned, zero_add] at h
    rw [giveEach, ← h]
  | cons i is ih =>
    rw [owned, add_assoc] at h
    rw [giveEach, giveUnlessNull_owned h]
    exact ih rfl

end LinuxLabs.ResourceLedger
