import LinuxLabs.CommandHash

/-! The counters of the command hash table. The dump and the clean-up pass over a bucket whose
counter is not positive, and the counter is an `int16_t`. -/
namespace LinuxLabs.CommandHash
open IntrusiveList StudentStore

/-- The loop takes all nodes off a chain and frees them in order. -/
lemma cleanupChain_spec {t : Table} {L : Fin cmdHashHeadSize → List ℕ} {i : Fin cmdHashHeadSize}
    (h : t.hlist.Represents t.alive L) {l : List ℕ} (hl : L i = l) {fuel : ℕ}
    (hfuel : l.length < fuel) :
    ∃ hlist, cleanupChain fuel t (t.hlist.first i) =
        some { t with hlist := hlist, freed := t.freed ++ l } ∧
      hlist.Represents (Table.alive { t with hlist := hlist, freed := t.freed ++ l })
        (Function.update L i []) := by
  induction l generalizing t L fuel with
  | nil =>
    obtain ⟨fuel, rfl⟩ := Nat.exists_eq_succ_of_ne_zero (Nat.ne_of_gt hfuel)
    have hchain := h.chain i
    rw [hl] at hchain
    refine ⟨t.hlist, ?_, ?_⟩
    · rw [show t.hlist.first i = none from hchain, List.append_nil]
      rfl
    · rw [List.append_nil, ← hl, Function.update_eq_self]
      exact h
  | cons n l ih =>
    obtain ⟨fuel, rfl⟩ := Nat.exists_eq_succ_of_ne_zero (Nat.ne_of_gt (Nat.zero_lt_of_lt hfuel))
    have hchain := h.chain i
    rw [hl] at hchain
    obtain ⟨hfirst, -, hrest⟩ := hchain
    have halive : t.alive n = true := h.alive i n (by simp [hl])
    obtain ⟨hlist, hdel, hrep⟩ := h.del_first hl
    -- the node that was read before the deletion is the first one after it
    have hchain' := hrep.chain i
    rw [Function.update_self] at hchain'
    have hnext : hlist.first i = t.hlist.next n := hchain'.head_eq.trans hrest.head_eq.symm
    set t' : Table := { t with hlist := hlist, freed := t.freed ++ [n] } with ht'
    have hrep' : t'.hlist.Represents t'.alive (Function.update L i l) := by
      refine hrep.realloc fun j m hm hm' => ?_
      have hne : m ≠ n := fun hmn => h.notMem_update hl j (hmn ▸ hm)
      simpa [Table.alive, ht', hne] using hm'
    obtain ⟨hlist', hloop, hrep''⟩ :=
      ih hrep' (Function.update_self _ _ _) (Nat.lt_of_succ_lt_succ hfuel)
    refine ⟨hlist', ?_, ?_⟩
    · rw [hfirst, cleanupChain, if_pos halive, hdel]
      change cleanupChain fuel t' (t.hlist.next n) = _
      rw [← hnext]
      simpa [ht'] using hloop
    · simpa [ht', Table.alive, Function.update_idem] using hrep''

/-- The nodes that the clean-up comes to in a bucket, and the dump as well. -/
def reached (t : Table) (L : Fin cmdHashHeadSize → List ℕ) (i : Fin cmdHashHeadSize) : List ℕ :=
  if (t.bucket i).count ≤ 0 then [] else L i

/-- What is left of the chains when these buckets have been cleaned up. -/
def remaining (t : Table) (L : Fin cmdHashHeadSize → List ℕ) (is : List (Fin cmdHashHeadSize))
    (j : Fin cmdHashHeadSize) : List ℕ :=
  if j ∈ is ∧ ¬ (t.bucket j).count ≤ 0 then [] else L j

lemma cleanupBucket_spec {t : Table} {L : Fin cmdHashHeadSize → List ℕ} {i : Fin cmdHashHeadSize}
    (h : t.hlist.Represents t.alive L) {fuel : ℕ} (hfuel : (L i).length < fuel) :
    ∃ hlist, cleanupBucket fuel t i =
        some { t with hlist := hlist, freed := t.freed ++ reached t L i } ∧
      hlist.Represents (Table.alive { t with hlist := hlist, freed := t.freed ++ reached t L i })
        (remaining t L [i]) := by
  unfold cleanupBucket reached
  split_ifs with hcount
  · have hleft : remaining t L [i] = L := by
      funext j
      rw [remaining, if_neg]
      rintro ⟨hj, hpos⟩
      rw [List.mem_singleton.mp hj] at hpos
      exact hpos hcount
    refine ⟨t.hlist, ?_, ?_⟩
    · rw [List.append_nil]
    · rw [List.append_nil, hleft]
      exact h
  · have hleft : remaining t L [i] = Function.update L i [] := by
      funext j
      rcases eq_or_ne j i with rfl | hj
      · simp [remaining, hcount]
      · simp [remaining, hj]
    rw [hleft]
    exact cleanupChain_spec h rfl hfuel

lemma remaining_cons (t : Table) (L : Fin cmdHashHeadSize → List ℕ) (i : Fin cmdHashHeadSize)
    (is : List (Fin cmdHashHeadSize)) :
    remaining t (remaining t L [i]) is = remaining t L (i :: is) := by
  funext j
  simp only [remaining, List.mem_cons]
  split_ifs with h₁ h₂ h₃ h₄ <;> tauto

lemma cleanup_spec {t : Table} {L : Fin cmdHashHeadSize → List ℕ}
    (is : List (Fin cmdHashHeadSize)) (hnodup : is.Nodup) (h : t.hlist.Represents t.alive L)
    {fuel : ℕ} (hfuel : ∀ i, (L i).length < fuel) :
    ∃ hlist, is.foldlM (cleanupBucket fuel) t =
        some { t with hlist := hlist, freed := t.freed ++ is.flatMap (reached t L) } ∧
      hlist.Represents
        (Table.alive { t with hlist := hlist, freed := t.freed ++ is.flatMap (reached t L) })
        (remaining t L is) := by
  induction is generalizing t L with
  | nil =>
    have hleft : remaining t L [] = L := by
      funext j
      simp [remaining]
    refine ⟨t.hlist, ?_, ?_⟩
    · rw [List.flatMap_nil, List.append_nil]
      rfl
    · rw [List.flatMap_nil, List.append_nil, hleft]
      exact h
  | cons i is ih =>
    obtain ⟨hi, hnodup⟩ := List.nodup_cons.mp hnodup
    obtain ⟨hlist, hfirst, hrep⟩ := cleanupBucket_spec h (hfuel i)
    have hfuel' : ∀ j, (remaining t L [i] j).length < fuel := by
      intro j
      have hj := hfuel j
      unfold remaining
      split_ifs
      · exact Nat.zero_lt_of_lt hj
      · exact hj
    obtain ⟨hlist', hrest, hrep'⟩ := ih hnodup hrep hfuel'
    -- the other chains are as they were
    have hreach : is.flatMap (reached t (remaining t L [i])) = is.flatMap (reached t L) := by
      rw [List.flatMap_def, List.flatMap_def]
      congr 1
      apply List.map_congr_left
      intro j hj
      have hne : j ≠ i := fun hji => hi (hji ▸ hj)
      simp [reached, remaining, hne]
    refine ⟨hlist', ?_, ?_⟩
    · rw [List.foldlM_cons, hfirst]
      change is.foldlM (cleanupBucket fuel) _ = _
      rw [hrest, List.flatMap_cons, ← hreach, ← List.append_assoc]
      rfl
    · rw [List.flatMap_cons, ← hreach, ← List.append_assoc, ← remaining_cons t L i is]
      exact hrep'

/-- The nodes of all buckets are those ever added. -/
lemma Holds.nodes_perm {t : Table} {names : List CString} (h : Holds t names) :
    ((List.finRange cmdHashHeadSize).flatMap (nodes names)).Perm (List.range names.length) := by
  rw [List.perm_ext_iff_of_nodup _ List.nodup_range]
  · intro n
    rw [List.mem_flatMap, List.mem_range]
    constructor
    · rintro ⟨i, -, hn⟩
      exact nodes_lt hn
    · intro hn
      obtain ⟨i, hi⟩ := nodeType_some names[n]
      refine ⟨i, List.mem_finRange i, List.mem_map.mpr ⟨(names[n], n), ?_, rfl⟩⟩
      rw [entries, List.mem_reverse, List.mem_filter, List.mem_zipIdx_iff_getElem?]
      exact ⟨List.getElem?_eq_getElem hn, by simpa using (nodeType_eq_iff i _).mp hi⟩
  · rw [List.nodup_flatMap]
    refine ⟨fun i _ => h.hlist.nodup i, ?_⟩
    exact (List.nodup_finRange _).imp fun hij => h.hlist.disjoint _ _ hij

/-- The counters agree with the chains, the dump visits every node and the clean-up frees every
node, once. -/
structure Complete (t : Table) : Prop where
  count : ∀ fuel, t.allocated < fuel → ∀ i, ∃ ns,
    t.hlist.walk t.alive fuel (t.hlist.first i) = some ns ∧ (t.bucket i).count.toInt = ns.length
  dumped : ∀ fuel, t.allocated < fuel → ∃ ds, cmdHashNodeDump fuel t = some ds ∧
    (ds.flatMap fun d => d.nodes.map Prod.fst).Perm (List.range t.allocated)
  cleaned : ∀ fuel, t.allocated < fuel → ∃ t', cmdHashCleanup fuel t = some t' ∧
    t'.freed.Perm (List.range t.allocated) ∧ ∀ i, t'.hlist.first i = none

lemma count_toInt {n : ℕ} (h : n ≤ 32767) : (Int16.ofNat n).toInt = n := by
  rw [Int16.toInt_ofNat', Int.bmod_eq_of_le]
  · simp [Int16.size]
  · simp only [Int16.size]
    omega

lemma Holds.reached_eq {t : Table} {names : List CString} (h : Holds t names)
    {i : Fin cmdHashHeadSize} (hi : (nodes names i).length ≤ 32767) :
    reached t (nodes names) i = nodes names i := by
  unfold reached
  split_ifs with hcount
  · rw [h.bucket, Int16.le_iff_toInt_le, count_toInt hi, Int16.toInt_zero] at hcount
    symm
    apply List.eq_nil_of_length_eq_zero
    omega
  · rfl

lemma Holds.complete {t : Table} {names : List CString} (h : Holds t names)
    (hcount : ∀ i, (nodes names i).length ≤ 32767) : Complete t := by
  have hreach : (List.finRange cmdHashHeadSize).flatMap (reached t (nodes names)) =
      (List.finRange cmdHashHeadSize).flatMap (nodes names) := by
    rw [List.flatMap_def, List.flatMap_def]
    congr 1
    exact List.map_congr_left fun i _ => h.reached_eq (hcount i)
  refine ⟨fun fuel hfuel i => ⟨_, h.walk i hfuel, ?_⟩, fun fuel hfuel => ⟨_, h.dump hfuel, ?_⟩,
    fun fuel hfuel => ?_⟩
  · rw [h.bucket, count_toInt (hcount i)]
  · have hvisited : ((List.finRange cmdHashHeadSize).flatMap (dumped t names)).flatMap
        (fun d => d.nodes.map Prod.fst) =
        (List.finRange cmdHashHeadSize).flatMap (reached t (nodes names)) := by
      rw [List.flatMap_assoc, List.flatMap_def, List.flatMap_def]
      congr 1
      apply List.map_congr_left
      intro i _
      unfold dumped reached
      split_ifs
      · rfl
      · simp [Function.comp_def]
    rw [hvisited, hreach, h.allocated]
    exact h.nodes_perm
  · obtain ⟨hlist, hrun, hrep⟩ := cleanup_spec (List.finRange cmdHashHeadSize)
      (List.nodup_finRange _) h.hlist fun i => (h.length_le i).trans_lt hfuel
    refine ⟨_, hrun, ?_, fun i => ?_⟩
    · rw [h.freed, hreach, h.allocated]
      exact h.nodes_perm
    · have hempty : remaining t (nodes names) (List.finRange cmdHashHeadSize) i = [] := by
        have hi := h.reached_eq (hcount i)
        unfold reached at hi
        unfold remaining
        by_cases hneg : (t.bucket i).count ≤ 0
        · rw [if_pos hneg] at hi
          rw [if_neg fun hpos => hpos.2 hneg, ← hi]
        · exact if_pos ⟨List.mem_finRange i, hneg⟩
      have hchain := hrep.chain i
      rw [hempty] at hchain
      exact hchain

/-- Counters, dump and clean-up are right exactly for histories with at most 32767 names in every
bucket. -/
theorem complete_iff (names : List CString) (hlen : ∀ name ∈ names, name.val.length ≤ 19) :
    (∃ t ∈ added names, t.allocated = names.length ∧ Complete t) ↔
      ∀ i, (names.countP fun name => Own i name) ≤ 32767 := by
  obtain ⟨t, ht, hold⟩ := added_holds fun name hname => (hlen name hname).trans (by decide)
  constructor
  · rintro ⟨t', ht', -, hcomplete⟩ i
    obtain rfl : t = t' := Option.some.inj (ht.symm.trans ht')
    obtain ⟨ns, hwalk, hcount⟩ := hcomplete.count (t.allocated + 1) (Nat.lt_succ_self _) i
    rw [hold.walk i (Nat.lt_succ_self _)] at hwalk
    obtain rfl := Option.some.inj hwalk
    have hmax := (t.bucket i).count.toInt_le
    have hmaxValue : Int16.maxValue.toInt = 32767 := by decide
    rw [hcount, nodes_length, hmaxValue] at hmax
    exact_mod_cast hmax
  · intro hcount
    refine ⟨t, ht, hold.allocated, hold.complete fun i => ?_⟩
    rw [nodes_length]
    exact hcount i

theorem complete_hello :
    (∀ name ∈ [hello, hello], name.val.length ≤ 19) ∧
      ∃ t ∈ added [hello, hello], t.allocated = 2 ∧ Complete t := by
  have hlen : ∀ name ∈ [hello, hello], name.val.length ≤ 19 := by decide
  exact ⟨hlen, (complete_iff _ hlen).mpr (by decide)⟩

/-- One name, 32768 times. -/
def flood : List CString := List.replicate 32768 hello

lemma flood_count (i : Fin cmdHashHeadSize) :
    (flood.countP fun name => Own i name) = if Own i hello then 32768 else 0 := by
  rw [flood, List.countP_replicate]
  simp

/-- The counter has become negative: the dump shows nothing, and nothing is freed. -/
theorem flood_not_complete :
    (∀ name ∈ flood, name.val.length ≤ 19) ∧
      ∃ t ∈ added flood, (t.bucket 7).count = -32768 ∧ cmdHashNodeDump 32769 t = some [] ∧
        (∃ t', cmdHashCleanup 32769 t = some t' ∧ t'.freed = []) ∧ ¬ Complete t := by
  have hlen : ∀ name ∈ flood, name.val.length ≤ 19 := by
    intro name hname
    rw [List.eq_of_mem_replicate hname]
    decide
  obtain ⟨t, ht, hold⟩ := added_holds fun name hname => (hlen name hname).trans (by decide)
  have hcount : ∀ i, (t.bucket i).count = if Own i hello then -32768 else 0 := by
    intro i
    rw [hold.bucket, nodes_length, flood_count]
    dsimp only
    split_ifs
    · decide
    · decide
  have hskipped : ∀ i, (t.bucket i).count ≤ 0 := by
    intro i
    rw [hcount]
    split_ifs <;> decide
  have hfuel : t.allocated < 32769 := by
    rw [hold.allocated, flood, List.length_replicate]
    decide
  refine ⟨hlen, t, ht, ?_, ?_, ?_, fun hcomplete => ?_⟩
  · rw [hcount, if_pos (by decide)]
  · rw [hold.dump hfuel, Option.some_inj, List.flatMap_eq_nil_iff]
    exact fun i _ => if_pos (hskipped i)
  · obtain ⟨hlist, hrun, -⟩ := cleanup_spec (List.finRange cmdHashHeadSize)
      (List.nodup_finRange _) hold.hlist fun i => (hold.length_le i).trans_lt hfuel
    refine ⟨_, hrun, ?_⟩
    rw [hold.freed, List.nil_append, List.flatMap_eq_nil_iff]
    exact fun i _ => if_pos (hskipped i)
  · obtain ⟨ns, -, hlength⟩ := hcomplete.count 32769 hfuel 7
    rw [hcount, if_pos (by decide)] at hlength
    have hneg : (-32768 : Int16).toInt = -32768 := by decide
    omega

end LinuxLabs.CommandHash
