import LinuxLabs.CommandHashCleanup

/-! The command hash table under arbitrary calls: with null names, with names of any length, and
with allocations that fail. -/
namespace LinuxLabs.CommandHash
open EventRun IntrusiveList StudentStore

/-- The argument of a call, and whether its allocation succeeds. -/
abbrev Call := Option CString × Bool

def call (t : Table) (c : Call) : Option Table := cmdHashNodeAdd t c.1 c.2

def called (calls : List Call) : Option Table := calls.foldlM call cmdHashInit

/-- A name needs a node, and has to fit into its field. -/
def Safe (c : Call) : Prop := ∀ name ∈ c.1, c.2 = true ∧ name.val.length ≤ 20

/-- What the nodes were allocated for, in order. -/
def slots (calls : List Call) : List (Option CString) := (calls.filter Prod.snd).map Prod.fst

/-- What a node is allocated for belongs into a bucket. -/
def inBucket (i : Fin cmdHashHeadSize) (slot : Option CString) : Bool :=
  slot.any fun name => Own i name

/-- The nodes of a bucket, the last one added first. -/
def chain (ss : List (Option CString)) (i : Fin cmdHashHeadSize) : List ℕ :=
  ((ss.zipIdx.filter fun e => inBucket i e.1).map Prod.snd).reverse

lemma slots_snoc (calls : List Call) (c : Call) :
    slots (calls ++ [c]) = if c.2 then slots calls ++ [c.1] else slots calls := by
  unfold slots
  rw [List.filter_append, List.map_append]
  cases hc : c.2 with
  | false => simp [hc]
  | true => simp [hc]

lemma chain_snoc (ss : List (Option CString)) (slot : Option CString) (i : Fin cmdHashHeadSize) :
    chain (ss ++ [slot]) i = if inBucket i slot then ss.length :: chain ss i else chain ss i := by
  rw [chain, zipIdx_snoc, List.filter_append, List.map_append, List.reverse_append]
  split_ifs with h
  · simp [h, chain]
  · simp [h, chain]

lemma chain_lt {ss : List (Option CString)} {i : Fin cmdHashHeadSize} {n : ℕ}
    (h : n ∈ chain ss i) : n < ss.length := by
  obtain ⟨e, he, rfl⟩ := List.mem_map.mp (List.mem_reverse.mp h)
  exact List.snd_lt_of_mem_zipIdx (List.mem_of_mem_filter he)

lemma mem_chain {ss : List (Option CString)} {i : Fin cmdHashHeadSize} {n : ℕ} :
    n ∈ chain ss i ↔ ∃ slot, ss[n]? = some slot ∧ inBucket i slot = true := by
  rw [chain, List.mem_reverse, List.mem_map]
  constructor
  · rintro ⟨e, he, rfl⟩
    rw [List.mem_filter, List.mem_zipIdx_iff_getElem?] at he
    exact ⟨e.1, he⟩
  · rintro ⟨slot, hslot, hin⟩
    refine ⟨(slot, n), ?_, rfl⟩
    rw [List.mem_filter, List.mem_zipIdx_iff_getElem?]
    exact ⟨hslot, hin⟩

lemma chain_length (ss : List (Option CString)) (i : Fin cmdHashHeadSize) :
    (chain ss i).length = ss.countP (inBucket i) := by
  induction ss using List.reverseRecOn with
  | nil => rfl
  | append_singleton ss slot ih =>
    rw [chain_snoc, List.countP_append, List.countP_singleton]
    split_ifs with h
    · rw [List.length_cons, ih]
    · rw [ih, Nat.add_zero]

/-- A name goes to the front of its own bucket. -/
lemma chain_snoc_some {name : CString} {i : Fin cmdHashHeadSize} (hown : Own i name)
    (ss : List (Option CString)) :
    chain (ss ++ [some name]) = Function.update (chain ss) i (ss.length :: chain ss i) := by
  funext j
  rw [chain_snoc]
  rcases eq_or_ne j i with rfl | hj
  · rw [if_pos (by simpa [inBucket] using hown), Function.update_self]
  · have hout : ¬ Own j name := fun hown' => hj (hown'.unique hown)
    rw [if_neg (by simpa [inBucket] using hout), Function.update_of_ne hj]

/-- Without a name nothing is put on a chain. -/
lemma chain_snoc_none (ss : List (Option CString)) : chain (ss ++ [none]) = chain ss := by
  funext i
  rw [chain_snoc]
  exact if_neg (by simp [inBucket])

/-- The table with nodes that were allocated for these slots. -/
structure Filled (t : Table) (ss : List (Option CString)) : Prop where
  hlist : t.hlist.Represents t.alive (chain ss)
  count : ∀ i, (t.bucket i).count = Int16.ofNat (chain ss i).length
  allocated : t.allocated = ss.length
  freed : t.freed = []

lemma filled_init : Filled cmdHashInit [] := by
  refine ⟨⟨fun i => rfl, ?_, ?_, ?_⟩, fun i => rfl, rfl, rfl⟩
  all_goals simp [chain]

section Step
variable {t : Table} {ss : List (Option CString)}

lemma Filled.fresh (h : Filled t ss) (i : Fin cmdHashHeadSize) : t.allocated ∉ chain ss i :=
  fun hmem => (chain_lt hmem).ne h.allocated

/-- The lists are still there when one more node is allocated. -/
lemma Filled.represents (h : Filled t ss) :
    (kzalloc t).hlist.Represents (kzalloc t).alive (chain ss) := by
  refine h.hlist.realloc fun i n _ hn => ?_
  unfold Table.alive kzalloc at *
  rw [decide_eq_true_eq] at hn ⊢
  exact ⟨hn.1.trans (Nat.lt_succ_self _), hn.2⟩

/-- Without a name the node is allocated, and that is all. -/
lemma Filled.call_null (h : Filled t ss) :
    ∃ t', call t (none, true) = some t' ∧ Filled t' (ss ++ [none]) := by
  refine ⟨kzalloc t, rfl, ⟨?_, fun i => ?_, ?_, h.freed⟩⟩
  · rw [chain_snoc_none]
    exact h.represents
  · rw [chain_snoc_none]
    exact h.count i
  · rw [List.length_append, ← h.allocated]
    rfl

/-- A name that fits is put in front of its chain, and counted. -/
lemma Filled.call_name (h : Filled t ss) {name : CString} (hname : name.val.length ≤ 20) :
    ∃ t', call t (some name, true) = some t' ∧ Filled t' (ss ++ [some name]) := by
  obtain ⟨i, hi⟩ := nodeType_some name
  have hchain := chain_snoc_some ((nodeType_eq_iff i name).mp hi) ss
  have hnew : (kzalloc t).alive t.allocated = true := by
    simp [Table.alive, kzalloc, h.freed]
  obtain ⟨hl, hadd, hrep⟩ := (h.represents.initNode h.fresh).addHead hnew h.fresh i
  have hcopy : strlcpy ((kzalloc t).name t.allocated) name name.val.length = some (field name) := by
    simp only [kzalloc, Function.update_self, strlcpy_field hname]
  have hcall : call t (some name, true) = some
      { hlist := hl
        bucket := Function.update t.bucket i
          ⟨(t.bucket i).ch, (t.bucket i).offset, (t.bucket i).count + 1⟩
        name := Function.update (kzalloc t).name t.allocated (field name)
        allocated := t.allocated + 1
        freed := t.freed } := by
    simp only [call, cmdHashNodeAdd, hi, if_true, hcopy, hadd, bind, Option.bind]
    rfl
  refine ⟨_, hcall, ⟨?_, fun j => ?_, ?_, h.freed⟩⟩
  · rw [hchain, ← h.allocated]
    exact hrep
  · rw [hchain]
    dsimp only
    rcases eq_or_ne j i with rfl | hj
    · rw [Function.update_self, Function.update_self, h.count, List.length_cons, Int16.ofNat_add]
      rfl
    · rw [Function.update_of_ne hj, Function.update_of_ne hj]
      exact h.count j
  · rw [List.length_append, List.length_singleton, ← h.allocated]

end Step

/-- A name that is longer than its field is copied over the end of the node. -/
lemma strlcpy_long {name : CString} (h : 20 < name.val.length) :
    strlcpy (List.replicate 20 0) name name.val.length = none := by
  have hlen : (List.replicate 20 (0 : UInt8)).length < name.val.length - 1 + 1 := by
    rw [List.length_replicate]
    omega
  have hne : ¬ name.val.length = 0 := by omega
  rw [strlcpy, if_neg hne]
  simp only [ge_iff_le, le_refl, if_true, hlen]

lemma call_unsafe (t : Table) {c : Call} (h : ¬ Safe c) : call t c = none := by
  obtain ⟨name, ok⟩ := c
  simp only [Safe, not_forall, not_and_or] at h
  obtain ⟨name, rfl, hno⟩ := h
  obtain ⟨i, hi⟩ := nodeType_some name
  cases ok with
  | false => simp [call, cmdHashNodeAdd, hi]
  | true =>
    have hcopy : strlcpy ((kzalloc t).name t.allocated) name name.val.length = none := by
      simp only [kzalloc, Function.update_self]
      exact strlcpy_long (by simpa using hno)
    simp [call, cmdHashNodeAdd, hi, hcopy]

lemma Filled.call_safe {t : Table} {calls : List Call} (h : Filled t (slots calls)) {c : Call}
    (hsafe : Safe c) : ∃ t', call t c = some t' ∧ Filled t' (slots (calls ++ [c])) := by
  obtain ⟨name, ok⟩ := c
  rw [slots_snoc]
  cases name with
  | none =>
    cases ok with
    | false => exact ⟨t, rfl, h⟩
    | true => exact h.call_null
  | some name =>
    obtain ⟨rfl, hlen⟩ := hsafe name rfl
    exact h.call_name hlen

/-- Which runs come to an end, and what the table is then. -/
theorem called_iff (calls : List Call) :
    ((called calls).isSome ↔ ∀ c ∈ calls, Safe c) ∧
      ∀ t, called calls = some t → Filled t (slots calls) :=
  foldlM_iff (R := fun t calls => Filled t (slots calls)) (fun _ _ _ h hsafe => h.call_safe hsafe)
    (fun t _ _ _ hunsafe => call_unsafe t hunsafe) filled_init calls

section Chains
variable {t : Table} {L : Fin cmdHashHeadSize → List ℕ} {fuel : ℕ}

/-- The dump comes to the same nodes as the clean-up. -/
lemma dump_reached (h : t.hlist.Represents t.alive L) (hfuel : ∀ i, (L i).length < fuel) :
    ∃ ds, cmdHashNodeDump fuel t = some ds ∧ ds.flatMap (fun d => d.nodes.map Prod.fst) =
      (List.finRange cmdHashHeadSize).flatMap (reached t L) := by
  let shown (i : Fin cmdHashHeadSize) : List Dumped :=
    if (t.bucket i).count ≤ 0 then []
    else [⟨i, (t.bucket i).count, (t.bucket i).offset, (t.bucket i).ch,
      (L i).map fun n => (n, cString (t.name n))⟩]
  have hbucket : dumpBucket fuel t = fun i => pure (shown i) := by
    funext i
    simp only [dumpBucket, shown, h.walk_eq i (hfuel i)]
    split_ifs
    · rfl
    · rfl
  refine ⟨(List.finRange cmdHashHeadSize).flatMap shown, ?_, ?_⟩
  · rw [cmdHashNodeDump, hbucket, List.mapM_pure]
    rfl
  · rw [List.flatMap_assoc, List.flatMap_def, List.flatMap_def]
    congr 1
    apply List.map_congr_left
    intro i _
    simp only [shown, reached]
    split_ifs
    · rfl
    · simp [Function.comp_def]

lemma reached_nodup (h : t.hlist.Represents t.alive L) :
    ((List.finRange cmdHashHeadSize).flatMap (reached t L)).Nodup := by
  have hsub : ∀ i, reached t L i ⊆ L i := by
    intro i
    unfold reached
    split_ifs
    · exact List.nil_subset _
    · exact List.Subset.refl _
  rw [List.nodup_flatMap]
  refine ⟨fun i _ => ?_, (List.nodup_finRange _).imp fun {i j} hij => ?_⟩
  · unfold reached
    split_ifs
    · exact List.nodup_nil
    · exact h.nodup i
  · exact fun n hi hj => h.disjoint i j hij (hsub i hi) (hsub j hj)

end Chains

/-- As a signed number of 16 bits this many is not positive. -/
def Hidden (k : ℕ) : Prop := k % 65536 = 0 ∨ 32768 ≤ k % 65536

lemma ofNat_nonpos_iff (k : ℕ) : Int16.ofNat k ≤ 0 ↔ Hidden k := by
  rw [Int16.le_iff_toInt_le, Int16.toInt_ofNat', Int16.toInt_zero, Hidden, Int.bmod]
  simp only [Int16.size]
  split_ifs with h
  · omega
  · omega

/-- A node is passed over if it is on no chain, or if the counter of its chain is not positive. -/
lemma Filled.unreached_iff {t : Table} {ss : List (Option CString)} (h : Filled t ss) (n : ℕ) :
    (n < t.allocated ∧ n ∉ (List.finRange cmdHashHeadSize).flatMap (reached t (chain ss))) ↔
      ∃ slot, ss[n]? = some slot ∧
        ∀ name ∈ slot, ∀ i, Own i name → Hidden (ss.countP (inBucket i)) := by
  have hreach : ∀ i, n ∈ reached t (chain ss) i ↔
      n ∈ chain ss i ∧ ¬ Hidden (ss.countP (inBucket i)) := by
    intro i
    rw [← chain_length, ← ofNat_nonpos_iff, ← h.count, reached]
    split_ifs with hidden
    · simp [hidden]
    · simp [hidden]
  simp only [List.mem_flatMap, List.mem_finRange, true_and, hreach, mem_chain, h.allocated]
  constructor
  · rintro ⟨hlt, hnone⟩
    refine ⟨ss[n], List.getElem?_eq_getElem hlt, fun name hname i hown => ?_⟩
    by_contra hidden
    refine hnone ⟨i, ⟨ss[n], List.getElem?_eq_getElem hlt, ?_⟩, hidden⟩
    rw [show ss[n] = some name from hname]
    simpa [inBucket] using hown
  · rintro ⟨slot, hslot, hall⟩
    refine ⟨(List.getElem?_eq_some_iff.mp hslot).1, ?_⟩
    rintro ⟨i, ⟨slot', hslot', hin⟩, hidden⟩
    obtain rfl : slot = slot' := Option.some.inj (hslot.symm.trans hslot')
    cases slot with
    | none => cases hin
    | some name => exact hidden (hall name rfl i (of_decide_eq_true hin))

/-- Every sequence of calls. It runs without a fault exactly if every name given finds memory and
has at most 20 bytes. The dump then comes to the same nodes, in the same order, as the clean-up
frees; each of them is freed once. What stays allocated for good are the nodes of the calls without
a name, and the nodes of every bucket whose number of names is not positive as a signed number of 16
bits. -/
theorem calls_cleaned (calls : List Call) :
    ((called calls).isSome ↔ ∀ c ∈ calls, Safe c) ∧
      ∀ t, called calls = some t → ∀ fuel, t.allocated < fuel → ∃ ds t',
        cmdHashNodeDump fuel t = some ds ∧ cmdHashCleanup fuel t = some t' ∧
        ds.flatMap (fun d => d.nodes.map Prod.fst) = t'.freed ∧ t'.freed.Nodup ∧
        ∀ n, t'.alive n = true ↔ ∃ slot, (slots calls)[n]? = some slot ∧
          ∀ name ∈ slot, ∀ i, Own i name → Hidden ((slots calls).countP (inBucket i)) := by
  obtain ⟨hiff, hfilled⟩ := called_iff calls
  refine ⟨hiff, fun t ht fuel hfuel => ?_⟩
  have h := hfilled t ht
  have hlengths : ∀ i, (chain (slots calls) i).length < fuel := by
    intro i
    rw [h.allocated] at hfuel
    rw [chain_length]
    exact List.countP_le_length.trans_lt hfuel
  obtain ⟨ds, hds, hshown⟩ := dump_reached h.hlist hlengths
  obtain ⟨hlist, hrun, -⟩ := cleanup_spec (List.finRange cmdHashHeadSize) (List.nodup_finRange _)
    h.hlist hlengths
  refine ⟨ds, _, hds, hrun, ?_, ?_, fun n => ?_⟩
  · rw [hshown, h.freed, List.nil_append]
  · rw [h.freed, List.nil_append]
    exact reached_nodup h.hlist
  · rw [← h.unreached_iff n, Table.alive, decide_eq_true_eq, h.freed, List.nil_append]

end LinuxLabs.CommandHash
