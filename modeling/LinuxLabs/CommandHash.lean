import LinuxLabs.IntrusiveList
import LinuxLabs.StudentStore

/-! The hash table of command names: 27 buckets with a chain each, one for every letter and one for
all other names. Nodes are known by the number of their allocation. -/
namespace LinuxLabs.CommandHash
open IntrusiveList StudentStore

abbrev cmdHashHeadSize : ℕ := 27

structure Bucket where
  ch : Int8
  offset : Int8
  count : Int16
  deriving DecidableEq

/-- `name` is what the nodes hold in their 20 bytes, `freed` the nodes given to `kfree`, in
order. -/
structure Table where
  hlist : HLists (Fin cmdHashHeadSize) ℕ
  bucket : Fin cmdHashHeadSize → Bucket
  name : ℕ → List UInt8
  allocated : ℕ
  freed : List ℕ

def Table.alive (t : Table) (n : ℕ) : Bool := n < t.allocated ∧ n ∉ t.freed

/-- The question mark is for an index that the loop does not reach. -/
def cmdHashInit : Table :=
  { hlist := ⟨fun _ => none, fun _ => none, fun _ => none⟩
    bucket := fun index =>
      { ch := if index.val = cmdHashHeadSize then 63 else 97 + Int8.ofNat index
        offset := Int8.ofNat index
        count := 0 }
    name := fun _ => []
    allocated := 0
    freed := [] }

/-- The number of the bucket, none for the null pointer. -/
def nodeType : Option CString → Option (Fin cmdHashHeadSize)
  | none => none
  | some name =>
    let ch := name.val.headD 0
    if 97 ≤ ch ∧ ch ≤ 122 then some (Fin.ofNat 27 (ch.toNat - 97)) else some 26

/-- `strlcpy`: at most `size - 1` bytes and a terminator, and nothing for size zero. -/
def strlcpy (dst : List UInt8) (src : CString) (size : ℕ) : Option (List UInt8) :=
  if size = 0 then some dst
  else
    let len := if src.val.length ≥ size then size - 1 else src.val.length
    if dst.length < len + 1 then none
    else some (src.val.take len ++ 0 :: dst.drop (len + 1))

def kzalloc (t : Table) : Table :=
  { t with allocated := t.allocated + 1
           name := Function.update t.name t.allocated (List.replicate 20 0) }

/-- Adds a node for the name; `none` where the allocation has failed and its null pointer is used,
and where the copy leaves the field. A null name leaves the node allocated and nowhere. -/
def cmdHashNodeAdd (t : Table) (name : Option CString) (kzallocOk : Bool) : Option Table :=
  let node := t.allocated
  let t := if kzallocOk then kzalloc t else t
  match name, nodeType name with
  | some name, some offset =>
    if kzallocOk then do
      let field ← strlcpy (t.name node) name name.val.length
      let b := t.bucket offset
      let hlist ← (t.hlist.initNode node).addHead t.alive node offset
      return { t with hlist := hlist
                      bucket := Function.update t.bucket offset { b with count := b.count + 1 }
                      name := Function.update t.name node field }
    else none
  | _, _ => some t

/-- What is printed of a bucket, and the nodes visited with the names printed of them. -/
structure Dumped where
  index : Fin cmdHashHeadSize
  count : Int16
  offset : Int8
  ch : Int8
  nodes : List (ℕ × List UInt8)

def dumpBucket (fuel : ℕ) (t : Table) (index : Fin cmdHashHeadSize) : Option (List Dumped) :=
  let b := t.bucket index
  if b.count ≤ 0 then some []
  else do
    let nodes ← t.hlist.walk t.alive fuel (t.hlist.first index)
    return [⟨index, b.count, b.offset, b.ch, nodes.map fun n => (n, cString (t.name n))⟩]

/-- The dump of the table, with a bound on the turns of each loop over a chain. -/
def cmdHashNodeDump (fuel : ℕ) (t : Table) : Option (List Dumped) :=
  ((List.finRange cmdHashHeadSize).mapM (dumpBucket fuel t)).map List.flatten

/-- The loop of `hlist_for_each_entry_safe`: the next node is read before this one is freed. -/
def cleanupChain : ℕ → Table → Option ℕ → Option Table
  | 0, _, _ => none
  | _ + 1, t, none => some t
  | fuel + 1, t, some n =>
    if t.alive n then do
      let next := t.hlist.next n
      let hlist ← t.hlist.del t.alive n
      cleanupChain fuel { t with hlist := hlist, freed := t.freed ++ [n] } next
    else none

def cleanupBucket (fuel : ℕ) (t : Table) (index : Fin cmdHashHeadSize) : Option Table :=
  if (t.bucket index).count ≤ 0 then some t
  else cleanupChain fuel t (t.hlist.first index)

def cmdHashCleanup (fuel : ℕ) (t : Table) : Option Table :=
  (List.finRange cmdHashHeadSize).foldlM (cleanupBucket fuel) t

/-- The names that belong into a bucket: those with its letter, and all others into the last. -/
def Own (i : Fin cmdHashHeadSize) (name : CString) : Prop :=
  (i.val < 26 ∧ (name.val.headD 0).toNat = 97 + i) ∨
    (i.val = 26 ∧ ¬ (97 ≤ name.val.headD 0 ∧ name.val.headD 0 ≤ 122))

instance (i : Fin cmdHashHeadSize) (name : CString) : Decidable (Own i name) :=
  inferInstanceAs (Decidable (_ ∨ _))

lemma nodeType_eq_iff (i : Fin cmdHashHeadSize) (name : CString) :
    nodeType (some name) = some i ↔ Own i name := by
  simp only [nodeType, Own]
  generalize name.val.headD 0 = ch
  have hi := i.isLt
  unfold cmdHashHeadSize at hi
  simp only [UInt8.le_iff_toNat_le, UInt8.reduceToNat]
  split_ifs with hch
  · rw [Option.some_inj, Fin.ext_iff, Fin.val_ofNat, Nat.mod_eq_of_lt (by omega)]
    omega
  · rw [Option.some_inj, Fin.ext_iff]
    change 26 = i.val ↔ _
    omega

lemma nodeType_some (name : CString) : ∃ i, nodeType (some name) = some i := by
  simp only [nodeType]
  split_ifs
  · exact ⟨_, rfl⟩
  · exact ⟨_, rfl⟩

lemma Own.unique {i j : Fin cmdHashHeadSize} {name : CString} (hi : Own i name)
    (hj : Own j name) : i = j := by
  rw [← nodeType_eq_iff] at hi hj
  exact Option.some.inj (hi.symm.trans hj)

/-- The nodes of a bucket, the last one added first, each with the name it was added for. -/
def entries (names : List CString) (i : Fin cmdHashHeadSize) : List (CString × ℕ) :=
  (names.zipIdx.filter fun e => Own i e.1).reverse

def nodes (names : List CString) (i : Fin cmdHashHeadSize) : List ℕ :=
  (entries names i).map Prod.snd

/-- What a node has for its name: all but the last byte. -/
def field (name : CString) : List UInt8 :=
  name.val.dropLast ++ List.replicate (20 - (name.val.length - 1)) 0

lemma strlcpy_field {name : CString} (h : name.val.length ≤ 20) :
    strlcpy (List.replicate 20 0) name name.val.length = some (field name) := by
  unfold strlcpy field
  rcases Nat.eq_zero_or_pos name.val.length with h0 | hpos
  · rw [if_pos h0, List.eq_nil_of_length_eq_zero h0]
    rfl
  · have hlen : ¬ (List.replicate 20 (0 : UInt8)).length < name.val.length - 1 + 1 := by
      rw [List.length_replicate]
      omega
    rw [if_neg hpos.ne', if_pos le_rfl]
    simp only [hlen, if_false, List.drop_replicate]
    rw [List.dropLast_eq_take, ← List.replicate_succ]
    congr 3
    omega

/-- The table after these names have been added. -/
structure Holds (t : Table) (names : List CString) : Prop where
  hlist : t.hlist.Represents t.alive (nodes names)
  bucket : ∀ i, t.bucket i =
    ⟨(cmdHashInit.bucket i).ch, (cmdHashInit.bucket i).offset,
      Int16.ofNat (nodes names i).length⟩
  name : ∀ e ∈ names.zipIdx, t.name e.2 = field e.1
  allocated : t.allocated = names.length
  freed : t.freed = []

lemma zipIdx_snoc {α : Type*} (l : List α) (a : α) :
    (l ++ [a]).zipIdx = l.zipIdx ++ [(a, l.length)] := by
  rw [List.zipIdx_append]
  simp

lemma nodes_snoc (names : List CString) (name : CString) (i : Fin cmdHashHeadSize) :
    nodes (names ++ [name]) i =
      if Own i name then names.length :: nodes names i else nodes names i := by
  rw [nodes, entries, zipIdx_snoc, List.filter_append, List.reverse_append]
  split_ifs with h <;> simp [h, nodes, entries]

/-- A name goes to the front of the nodes of its own bucket. -/
lemma nodes_snoc_update {name : CString} {i : Fin cmdHashHeadSize} (hown : Own i name)
    (names : List CString) :
    nodes (names ++ [name]) = Function.update (nodes names) i (names.length :: nodes names i) := by
  funext j
  rw [nodes_snoc]
  rcases eq_or_ne j i with rfl | hj
  · rw [if_pos hown, Function.update_self]
  · rw [if_neg fun hj' => hj (hj'.unique hown), Function.update_of_ne hj]

lemma nodes_lt {names : List CString} {i : Fin cmdHashHeadSize} {n : ℕ} (h : n ∈ nodes names i) :
    n < names.length := by
  obtain ⟨e, he, rfl⟩ := List.mem_map.mp h
  have hmem := List.mem_of_mem_filter (List.mem_reverse.mp he)
  exact List.snd_lt_of_mem_zipIdx hmem

lemma holds_init : Holds cmdHashInit [] := by
  refine ⟨⟨fun i => rfl, ?_, ?_, ?_⟩, fun i => rfl, ?_, rfl, rfl⟩
  all_goals simp [nodes, entries]

/-- What the call does to the table: the node is filled, counted and put on the chain. -/
lemma Holds.add_eq {t : Table} {names : List CString} (h : Holds t names) {name : CString}
    (hname : name.val.length ≤ 20) {i : Fin cmdHashHeadSize} (hi : nodeType (some name) = some i) :
    ∃ hl, cmdHashNodeAdd t (some name) true = some
        { hlist := hl
          bucket := Function.update t.bucket i
            ⟨(t.bucket i).ch, (t.bucket i).offset, (t.bucket i).count + 1⟩
          name := Function.update (kzalloc t).name t.allocated (field name)
          allocated := t.allocated + 1
          freed := t.freed } ∧
      hl.Represents (kzalloc t).alive
        (Function.update (nodes names) i (t.allocated :: nodes names i)) := by
  have hfresh : ∀ j, t.allocated ∉ nodes names j := by
    intro j hmem
    have hlt := nodes_lt hmem
    rw [h.allocated] at hlt
    omega
  have halive : ∀ n, (kzalloc t).alive n = decide (n < t.allocated + 1) := by
    intro n
    simp [Table.alive, kzalloc, h.freed]
  have hrep : ((kzalloc t).hlist.initNode t.allocated).Represents (kzalloc t).alive
      (nodes names) := by
    refine (h.hlist.initNode hfresh).realloc fun j n hn _ => ?_
    have hlt := nodes_lt hn
    rw [halive, h.allocated, decide_eq_true_eq]
    omega
  obtain ⟨hl, hadd, hrep'⟩ := hrep.addHead (by simp [halive]) hfresh i
  have hcopy : strlcpy ((kzalloc t).name t.allocated) name name.val.length = some (field name) := by
    simp only [kzalloc, Function.update_self, strlcpy_field hname]
  refine ⟨hl, ?_, hrep'⟩
  simp only [cmdHashNodeAdd, hi, if_true, hcopy, hadd, bind, Option.bind]
  rfl

/-- A name is added. -/
lemma Holds.add {t : Table} {names : List CString} (h : Holds t names) {name : CString}
    (hname : name.val.length ≤ 20) :
    ∃ t', cmdHashNodeAdd t (some name) true = some t' ∧ Holds t' (names ++ [name]) := by
  obtain ⟨i, hi⟩ := nodeType_some name
  obtain ⟨hl, hstep, hrep⟩ := h.add_eq hname hi
  have hnodes := nodes_snoc_update ((nodeType_eq_iff i name).mp hi) names
  rw [h.allocated, ← hnodes] at hrep
  refine ⟨_, hstep, ⟨hrep, fun j => ?_, fun e he => ?_, ?_, h.freed⟩⟩
  · rw [hnodes]
    dsimp only
    rcases eq_or_ne j i with rfl | hj
    · rw [Function.update_self, Function.update_self, h.bucket, List.length_cons, Int16.ofNat_add]
      rfl
    · rw [Function.update_of_ne hj, Function.update_of_ne hj]
      exact h.bucket j
  · rw [zipIdx_snoc, List.mem_append, List.mem_singleton] at he
    rcases he with he | rfl
    · have hne : e.2 ≠ t.allocated := by
        have hlt := List.snd_lt_of_mem_zipIdx he
        rw [h.allocated]
        omega
      simp only [kzalloc, Function.update_of_ne hne]
      exact h.name e he
    · rw [h.allocated]
      exact Function.update_self _ _ _
  · rw [List.length_append, List.length_singleton, ← h.allocated]

/-- The table after a list of calls, none of which is short of memory. -/
def added (names : List CString) : Option Table :=
  names.foldlM (fun t name => cmdHashNodeAdd t (some name) true) cmdHashInit

theorem added_holds {names : List CString} (h : ∀ name ∈ names, name.val.length ≤ 20) :
    ∃ t, added names = some t ∧ Holds t names := by
  induction names using List.reverseRecOn with
  | nil => exact ⟨_, rfl, holds_init⟩
  | append_singleton names name ih =>
    obtain ⟨t, ht, hold⟩ := ih fun name' hmem => h name' (by simp [hmem])
    obtain ⟨t', ht', hold'⟩ := hold.add (h name (by simp))
    refine ⟨t', ?_, hold'⟩
    rw [added, List.foldlM_append]
    rw [added] at ht
    simp [ht, ht']

lemma entries_fst (names : List CString) (i : Fin cmdHashHeadSize) :
    (entries names i).map Prod.fst = (names.filter fun name => Own i name).reverse := by
  have hcomp : (fun e : CString × ℕ => decide (Own i e.1)) =
      (fun name => decide (Own i name)) ∘ Prod.fst := rfl
  rw [entries, List.map_reverse, hcomp, ← List.filter_map, List.zipIdx_map_fst]

lemma nodes_length (names : List CString) (i : Fin cmdHashHeadSize) :
    (nodes names i).length = names.countP fun name => Own i name := by
  rw [nodes, List.length_map, ← List.length_map (f := Prod.fst), entries_fst, List.length_reverse,
    List.countP_eq_length_filter]

lemma Holds.length_le {t : Table} {names : List CString} (h : Holds t names)
    (i : Fin cmdHashHeadSize) : (nodes names i).length ≤ t.allocated := by
  rw [nodes_length, h.allocated]
  exact List.countP_le_length

lemma Holds.walk {t : Table} {names : List CString} (h : Holds t names) (i : Fin cmdHashHeadSize)
    {fuel : ℕ} (hfuel : t.allocated < fuel) :
    t.hlist.walk t.alive fuel (t.hlist.first i) = some (nodes names i) :=
  h.hlist.walk_eq i ((h.length_le i).trans_lt hfuel)

/-- The names along a chain, as they are stored. -/
lemma Holds.names {t : Table} {names : List CString} (h : Holds t names)
    (i : Fin cmdHashHeadSize) :
    (nodes names i).map t.name = (names.filter fun name => Own i name).reverse.map field := by
  rw [nodes, List.map_map, ← entries_fst, List.map_map]
  apply List.map_congr_left
  intro e he
  exact h.name e (List.mem_of_mem_filter (List.mem_reverse.mp he))

lemma cString_append_zeros {bs : List UInt8} (h : 0 ∉ bs) {k : ℕ} (hk : 0 < k) :
    cString (bs ++ List.replicate k 0) = bs := by
  obtain ⟨k, rfl⟩ := Nat.exists_eq_succ_of_ne_zero hk.ne'
  have hne : ∀ b ∈ bs, decide (b ≠ 0) = true := by
    intro b hb
    rw [decide_eq_true_eq]
    rintro rfl
    exact h hb
  rw [cString, List.takeWhile_append_of_pos hne]
  simp [List.replicate_succ]

lemma cString_field {name : CString} (h : name.val.length ≤ 20) :
    cString (field name) = name.val.dropLast := by
  apply cString_append_zeros
  · exact fun h0 => name.property (List.mem_of_mem_dropLast h0)
  · omega

/-- What the dump prints of a bucket. -/
def dumped (t : Table) (names : List CString) (i : Fin cmdHashHeadSize) : List Dumped :=
  if (t.bucket i).count ≤ 0 then []
  else [⟨i, (t.bucket i).count, (t.bucket i).offset, (t.bucket i).ch,
    (nodes names i).map fun n => (n, cString (t.name n))⟩]

lemma Holds.dump {t : Table} {names : List CString} (h : Holds t names) {fuel : ℕ}
    (hfuel : t.allocated < fuel) :
    cmdHashNodeDump fuel t = some ((List.finRange cmdHashHeadSize).flatMap (dumped t names)) := by
  have hbucket : dumpBucket fuel t = fun i => pure (dumped t names i) := by
    funext i
    rw [dumpBucket, dumped, h.walk i hfuel]
    split_ifs
    · rfl
    · rfl
  rw [cmdHashNodeDump, hbucket, List.mapM_pure]
  rfl

/-- The bucket holds its own names, complete and the last one first, and shows them under its
key. -/
structure Keyed (t : Table) (names : List CString) (i : Fin cmdHashHeadSize) : Prop where
  stored : ∀ fuel, t.allocated < fuel → ∃ ns,
    t.hlist.walk t.alive fuel (t.hlist.first i) = some ns ∧
      ns.map (fun n => cString (t.name n)) =
        (names.filter fun name => Own i name).reverse.map Subtype.val ∧
      ∀ n ∈ ns, 0 ∈ t.name n
  key : (t.bucket i).ch = if i.val < 26 then 97 + Int8.ofNat i else 63
  shown : ∀ fuel, t.allocated < fuel → ∃ ds, cmdHashNodeDump fuel t = some ds ∧
    ∀ name ∈ names, Own i name → ∃ d ∈ ds, d.ch = (t.bucket i).ch ∧ name.val ∈ d.nodes.map Prod.snd

/-- The chain of a bucket has the names without their last bytes. -/
lemma Holds.stored {t : Table} {names : List CString} (h : Holds t names)
    (hlen : ∀ name ∈ names, name.val.length ≤ 20) (i : Fin cmdHashHeadSize) :
    (nodes names i).map (fun n => cString (t.name n)) =
      (names.filter fun name => Own i name).reverse.map fun name => name.val.dropLast := by
  have hmap : (nodes names i).map (fun n => cString (t.name n)) =
      ((nodes names i).map t.name).map cString := by rw [List.map_map]; rfl
  rw [hmap, h.names, List.map_map]
  apply List.map_congr_left
  intro name hname
  exact cString_field (hlen name (List.mem_of_mem_filter (List.mem_reverse.mp hname)))

lemma Holds.not_keyed {t : Table} {names : List CString} (h : Holds t names)
    (hlen : ∀ name ∈ names, 1 ≤ name.val.length ∧ name.val.length ≤ 19) {i : Fin cmdHashHeadSize}
    {name : CString} (hname : name ∈ names) (hown : Own i name) : ¬ Keyed t names i := by
  intro hkeyed
  obtain ⟨ns, hwalk, hnames, -⟩ := hkeyed.stored (t.allocated + 1) (Nat.lt_succ_self _)
  rw [h.walk i (Nat.lt_succ_self _)] at hwalk
  obtain rfl := Option.some.inj hwalk
  rw [h.stored (fun name' hmem => (hlen name' hmem).2.trans (by decide)) i] at hnames
  have hmem : name ∈ (names.filter fun name => Own i name).reverse := by
    rw [List.mem_reverse, List.mem_filter]
    exact ⟨hname, by simpa using hown⟩
  have hdrop := List.map_inj_left.mp hnames name hmem
  have hshort := congrArg List.length hdrop
  rw [List.length_dropLast] at hshort
  have hpos := (hlen name hname).1
  omega

/-- The last bucket has not got its question mark. -/
lemma Holds.ch {t : Table} {names : List CString} (h : Holds t names) (i : Fin cmdHashHeadSize) :
    (t.bucket i).ch = 97 + Int8.ofNat i := by
  rw [h.bucket]
  have hlt := i.isLt
  simp only [cmdHashInit, Nat.ne_of_lt hlt, if_false]

lemma Holds.keyed_iff {t : Table} {names : List CString} (h : Holds t names)
    (hlen : ∀ name ∈ names, 1 ≤ name.val.length ∧ name.val.length ≤ 19)
    (i : Fin cmdHashHeadSize) :
    Keyed t names i ↔ i.val < 26 ∧ ∀ name ∈ names, ¬ Own i name := by
  constructor
  · intro hkeyed
    refine ⟨?_, fun name hname hown => h.not_keyed hlen hname hown hkeyed⟩
    by_contra hi
    have hkey := hkeyed.key
    have hlast : i = 26 := by
      apply Fin.ext
      have hlt := i.isLt
      change i.val = 26
      unfold cmdHashHeadSize at hlt
      omega
    rw [h.ch, if_neg hi, hlast] at hkey
    exact absurd hkey (by decide)
  · rintro ⟨hi, hnone⟩
    have hfilter : (names.filter fun name => Own i name) = [] := by
      rw [List.filter_eq_nil_iff]
      simpa using hnone
    have hnodes : nodes names i = [] := by
      apply List.eq_nil_of_length_eq_zero
      rw [nodes_length, List.countP_eq_length_filter, hfilter]
      rfl
    refine ⟨fun fuel hfuel => ⟨[], ?_, by simp [hfilter], by simp⟩, ?_, fun fuel hfuel => ?_⟩
    · rw [h.walk i hfuel, hnodes]
    · rw [h.ch, if_pos hi]
    · exact ⟨_, h.dump hfuel, fun name hname hown => absurd hown (hnone name hname)⟩

/-- A bucket is what it should be exactly if it is a letter's and has no names: the last bucket
never is, and every name is stored without its last byte. -/
theorem buckets_keyed_iff (names : List CString)
    (hlen : ∀ name ∈ names, 1 ≤ name.val.length ∧ name.val.length ≤ 19) :
    ∃ t ∈ added names, (¬ ∀ i, Keyed t names i) ∧
      ∀ i, Keyed t names i ↔ i.val < 26 ∧ ∀ name ∈ names, ¬ Own i name := by
  obtain ⟨t, ht, hold⟩ := added_holds fun name hname => (hlen name hname).2.trans (by decide)
  refine ⟨t, ht, fun hall => ?_, hold.keyed_iff hlen⟩
  exact absurd ((hold.keyed_iff hlen 26).mp (hall 26)).1 (by decide)

def hello : CString := ⟨[104, 101, 108, 108, 111], by decide⟩

theorem buckets_keyed_hello :
    (∀ name ∈ [hello], 1 ≤ name.val.length ∧ name.val.length ≤ 19) ∧
      ∃ t ∈ added [hello], Keyed t [hello] 0 ∧ ¬ Keyed t [hello] 7 := by
  have hlen : ∀ name ∈ [hello], 1 ≤ name.val.length ∧ name.val.length ≤ 19 := by decide
  obtain ⟨t, ht, -, hiff⟩ := buckets_keyed_iff [hello] hlen
  exact ⟨hlen, t, ht, (hiff 0).mpr (by decide), fun h => absurd ((hiff 7).mp h) (by decide)⟩

/-- The first name that the module adds is stored as another one, and the bucket for what is no
letter has an opening brace for its key. -/
theorem hello_stored_short :
    (∀ name ∈ [hello], 1 ≤ name.val.length ∧ name.val.length ≤ 19) ∧
      ∃ t ∈ added [hello], t.hlist.first 7 = some 0 ∧ cString (t.name 0) = [104, 101, 108, 108] ∧
        (t.bucket 26).ch = 123 ∧ ¬ Keyed t [hello] 7 ∧ ¬ Keyed t [hello] 26 := by
  have hlen : ∀ name ∈ [hello], 1 ≤ name.val.length ∧ name.val.length ≤ 19 := by decide
  obtain ⟨t, ht, hold⟩ := added_holds fun name hname => (hlen name hname).2.trans (by decide)
  have hcomputed : ∃ t ∈ added [hello], t.hlist.first 7 = some 0 ∧
      cString (t.name 0) = [104, 101, 108, 108] ∧ (t.bucket 26).ch = 123 :=
    ⟨_, rfl, by decide, by decide, by decide⟩
  obtain ⟨t', ht', hfirst, hname, hch⟩ := hcomputed
  obtain rfl : t = t' := Option.some.inj (ht.symm.trans ht')
  refine ⟨hlen, t, ht, hfirst, hname, hch, fun h => ?_, fun h => ?_⟩
  · exact absurd ((hold.keyed_iff hlen 7).mp h) (by decide)
  · exact absurd ((hold.keyed_iff hlen 26).mp h) (by decide)

end LinuxLabs.CommandHash
