import LinuxLabs.ResourceLedger

/-! Loading and unloading the three RAM disk modules, with every allocation free to fail. The
functions of the kernel that are called on a pointer need the object behind it; only `kfree` and
`vfree` leave null pointers alone. To unregister a major number that was not registered counts as a
fault, too: the kernel warns of it. -/
namespace LinuxLabs.RamDiskLifecycle
open ResourceLedger

def enomem : Int32 := 12
def ebusy : Int32 := 16

/-- What is taken: a registered major number, the structure of a device, its memory, its queue and
its disk. -/
inductive Kind
  | major
  | dev
  | data
  | queue
  | disk
  deriving DecidableEq, Repr

namespace Sampleblk

/-- The global pointer, and the pointers in the structure behind it. -/
structure SampleblkDev where
  dev : Option ℕ
  data : Option ℕ
  queue : Option ℕ
  disk : Option ℕ

def failDev (d : SampleblkDev) (l : Ledger Kind) : Option (Ledger Kind) := give .dev d.dev l

def failData (d : SampleblkDev) (l : Ledger Kind) : Option (Ledger Kind) :=
  (giveUnlessNull .data d.data l).bind (failDev d)

def failQueue (d : SampleblkDev) (l : Ledger Kind) : Option (Ledger Kind) :=
  (give .queue d.queue l).bind (failData d)

/-- The three labels fall through. What the structure holds stays in memory behind a failure. -/
def sampleblkAlloc (ok : Kind → Bool) (l : Ledger Kind) :
    Option (Int32 × SampleblkDev × Ledger Kind) :=
  let (dev, l) := alloc .dev (ok .dev) l
  if dev = none then some (-enomem, ⟨dev, none, none, none⟩, l)
  else
    let (data, l) := alloc .data (ok .data) l
    let d : SampleblkDev := ⟨dev, data, none, none⟩
    if data = none then (failDev d l).map fun l => (-enomem, d, l)
    else
      let (queue, l) := alloc .queue (ok .queue) l
      let d : SampleblkDev := ⟨dev, data, queue, none⟩
      if queue = none then (failData d l).map fun l => (-enomem, d, l)
      else
        let (disk, l) := alloc .disk (ok .disk) l
        if disk = none then (failQueue d l).map fun l => (-enomem, d, l)
        else some (0, ⟨dev, data, queue, disk⟩, l)

/-- Every pointer is read from the structure, which is freed last. -/
def sampleblkFree (d : SampleblkDev) (l : Ledger Kind) : Option (Ledger Kind) := do
  let l ← touch .dev d.dev l
  let l ← touch .disk d.disk l
  let l ← give .queue d.queue l
  let l ← give .disk d.disk l
  let l ← giveUnlessNull .data d.data l
  give .dev d.dev l

/-- Without a major number the module is refused; without a device it is loaded. -/
def sampleblkInit (ok : Kind → Bool) (l : Ledger Kind) :
    Option (Int32 × Option ℕ × SampleblkDev × Ledger Kind) :=
  let (major, l) := alloc .major (ok .major) l
  if major = none then some (-ebusy, major, ⟨none, none, none, none⟩, l)
  else (sampleblkAlloc ok l).map fun (_, d, l) => (0, major, d, l)

def sampleblkExit (major : Option ℕ) (d : SampleblkDev) (l : Ledger Kind) :
    Option (Ledger Kind) :=
  (sampleblkFree d l).bind (give .major major)

/-- Loading, and unloading if that has succeeded. -/
def cycle (l : Ledger Kind) (ok : Kind → Bool) : Option (Ledger Kind) :=
  match sampleblkInit ok l with
  | none => none
  | some (status, major, d, l) => if status ≠ 0 then some l else sampleblkExit major d l

def AllOk (ok : Kind → Bool) : Prop := ok .dev ∧ ok .data ∧ ok .queue ∧ ok .disk

lemma sampleblkAlloc_ok {ok : Kind → Bool} (h : AllOk ok) (l : Ledger Kind) :
    sampleblkAlloc ok l =
      some (0, ⟨some l.next, some (l.next + 1), some (l.next + 2), some (l.next + 3)⟩,
        ⟨(.disk, l.next + 3) ::ₘ (.queue, l.next + 2) ::ₘ (.data, l.next + 1) ::ₘ
          (.dev, l.next) ::ₘ l.live, l.next + 4⟩) := by
  obtain ⟨hdev, hdata, hqueue, hdisk⟩ := h
  simp [sampleblkAlloc, hdev, hdata, hqueue, hdisk]

/-- The labels give back what was taken before the jump, in reverse. -/
lemma failDev_eq {d : SampleblkDev} {l : Ledger Kind} {rest : Multiset (Kind × ℕ)} {a : ℕ}
    (hdev : d.dev = some a) (h : l.live = (.dev, a) ::ₘ rest) :
    failDev d l = some ⟨rest, l.next⟩ := by
  rw [failDev, hdev, give_cons h]

lemma failData_eq {d : SampleblkDev} {l : Ledger Kind} {rest : Multiset (Kind × ℕ)} {a b : ℕ}
    (hdev : d.dev = some a) (hdata : d.data = some b)
    (h : l.live = (.data, b) ::ₘ (.dev, a) ::ₘ rest) : failData d l = some ⟨rest, l.next⟩ := by
  rw [failData, hdata, giveUnlessNull, if_neg (by simp), give_cons h]
  exact failDev_eq hdev rfl

lemma failQueue_eq {d : SampleblkDev} {l : Ledger Kind} {rest : Multiset (Kind × ℕ)} {a b c : ℕ}
    (hdev : d.dev = some a) (hdata : d.data = some b) (hqueue : d.queue = some c)
    (h : l.live = (.queue, c) ::ₘ (.data, b) ::ₘ (.dev, a) ::ₘ rest) :
    failQueue d l = some ⟨rest, l.next⟩ := by
  rw [failQueue, hqueue, give_cons h]
  exact failData_eq hdev hdata rfl

/-- A failure gives everything back, and leaves a pointer to nothing. -/
lemma sampleblkAlloc_fails {ok : Kind → Bool} (h : ¬ AllOk ok) {l : Ledger Kind} (hl : l.Fresh) :
    ∃ d l', sampleblkAlloc ok l = some (-enomem, d, l') ∧ l'.live = l.live ∧ l.next ≤ l'.next ∧
      touch .dev d.dev l' = none := by
  have hgone := hl.not_mem .dev
  unfold sampleblkAlloc
  cases hdev : ok .dev with
  | false => exact ⟨_, l, rfl, rfl, le_rfl, rfl⟩
  | true =>
    cases hdata : ok .data with
    | false =>
      refine ⟨⟨some l.next, none, none, none⟩, ⟨l.live, l.next + 1⟩, ?_, rfl, by simp,
        touch_dead hgone⟩
      simp only [alloc_true, alloc_false, reduceCtorEq, if_false, if_true]
      exact congrArg (Option.map _) (failDev_eq rfl rfl)
    | true =>
      cases hqueue : ok .queue with
      | false =>
        refine ⟨⟨some l.next, some (l.next + 1), none, none⟩, ⟨l.live, l.next + 2⟩, ?_, rfl,
          by simp, touch_dead hgone⟩
        simp only [alloc_true, alloc_false, reduceCtorEq, if_false, if_true]
        exact congrArg (Option.map _) (failData_eq rfl rfl rfl)
      | true =>
        have hdisk : ok .disk = false := by
          simpa [AllOk, hdev, hdata, hqueue] using h
        refine ⟨⟨some l.next, some (l.next + 1), some (l.next + 2), none⟩, ⟨l.live, l.next + 3⟩,
          ?_, rfl, by simp, touch_dead hgone⟩
        simp only [hdisk, alloc_true, alloc_false, reduceCtorEq, if_false, if_true]
        exact congrArg (Option.map _) (failQueue_eq rfl rfl rfl rfl)

/-- Unloading gives back all that loading has taken. -/
lemma sampleblkFree_ok (n next : ℕ) (live : Multiset (Kind × ℕ)) :
    sampleblkFree ⟨some n, some (n + 1), some (n + 2), some (n + 3)⟩
      ⟨(.disk, n + 3) ::ₘ (.queue, n + 2) ::ₘ (.data, n + 1) ::ₘ (.dev, n) ::ₘ live, next⟩ =
        some ⟨live, next⟩ := by
  let rest : Multiset (Kind × ℕ) := (.data, n + 1) ::ₘ (.dev, n) ::ₘ live
  have hdev : touch Kind.dev (some n) ⟨(.disk, n + 3) ::ₘ (.queue, n + 2) ::ₘ rest, next⟩ =
      some ⟨(.disk, n + 3) ::ₘ (.queue, n + 2) ::ₘ rest, next⟩ := touch_live (by simp [rest])
  have hdisk : touch Kind.disk (some (n + 3))
      ⟨(.disk, n + 3) ::ₘ (.queue, n + 2) ::ₘ rest, next⟩ =
        some ⟨(.disk, n + 3) ::ₘ (.queue, n + 2) ::ₘ rest, next⟩ := touch_live (by simp)
  have hqueue : give Kind.queue (some (n + 2))
      ⟨(.disk, n + 3) ::ₘ (.queue, n + 2) ::ₘ rest, next⟩ =
        some ⟨(.disk, n + 3) ::ₘ rest, next⟩ := give_cons (Multiset.cons_swap _ _ _)
  have hput : give Kind.disk (some (n + 3)) ⟨(.disk, n + 3) ::ₘ rest, next⟩ = some ⟨rest, next⟩ :=
    give_cons rfl
  have hdata : giveUnlessNull Kind.data (some (n + 1)) ⟨rest, next⟩ =
      some ⟨(.dev, n) ::ₘ live, next⟩ := give_cons rfl
  have hfree : give Kind.dev (some n) ⟨(.dev, n) ::ₘ live, next⟩ = some ⟨live, next⟩ :=
    give_cons rfl
  change sampleblkFree _ ⟨(.disk, n + 3) ::ₘ (.queue, n + 2) ::ₘ rest, next⟩ = _
  simp only [sampleblkFree, Option.bind_eq_bind, hdev, hdisk, hqueue, hput, hdata, hfree,
    Option.bind_some]

/-- Whether a cycle ends, and that it leaves nothing behind. -/
lemma cycle_iff {l : Ledger Kind} (hl : l.Fresh) (ok : Kind → Bool) :
    ((cycle l ok).isSome ↔ (ok .major → AllOk ok)) ∧
      ∀ l', cycle l ok = some l' → Loses .data 0 l l' := by
  cases hmajor : ok .major with
  | false =>
    have hcycle : cycle l ok = some l := by
      simp [cycle, sampleblkInit, hmajor, ebusy]
    rw [hcycle]
    refine ⟨by simp, ?_⟩
    rintro l' ⟨⟩
    exact Loses.refl .data hl
  | true =>
    let l₁ : Ledger Kind := ⟨(.major, l.next) ::ₘ l.live, l.next + 1⟩
    have hl₁ : l₁.Fresh := hl.alloc .major true
    by_cases hok : AllOk ok
    · have hcycle : cycle l ok = some ⟨l.live, l.next + 5⟩ := by
        simp only [cycle, sampleblkInit, hmajor, alloc_true, reduceCtorEq, if_false,
          sampleblkAlloc_ok hok, Option.map_some, ne_eq, not_true_eq_false, sampleblkExit]
        rw [sampleblkFree_ok (l.next + 1)]
        exact give_cons rfl
      rw [hcycle]
      refine ⟨by simp [hok], ?_⟩
      rintro l' ⟨⟩
      exact Loses.zero_iff.mpr ⟨hl.mono rfl (by simp), rfl⟩
    · obtain ⟨d, l', halloc, -, -, hgone⟩ := sampleblkAlloc_fails hok hl₁
      have hcycle : cycle l ok = none := by
        have hinit : sampleblkInit ok l = some (0, some l.next, d, l') := by
          simp only [sampleblkInit, hmajor, alloc_true, reduceCtorEq, if_false]
          rw [halloc]
          rfl
        simp [cycle, hinit, sampleblkExit, sampleblkFree, hgone]
      rw [hcycle]
      simp [hok]

/-- Every sequence of loading and unloading, whatever can be had in each cycle. It runs without a
fault exactly if in each cycle that gets a major number everything else can be had, too; and then
nothing has leaked. -/
theorem sampleblk_cycles (oks : List (Kind → Bool)) (l : Ledger Kind) (hl : l.Fresh) :
    ((oks.foldlM cycle l).isSome ↔ ∀ ok ∈ oks, ok .major → AllOk ok) ∧
      ∀ l', oks.foldlM cycle l = some l' → l'.live = l.live := by
  obtain ⟨hiff, hloses⟩ := foldlM_loses (fun l ok hl => cycle_iff hl ok) oks hl
  refine ⟨hiff, fun l' hl' => ?_⟩
  have hsum : (oks.map fun _ => 0).sum = 0 := by simp
  exact (Loses.zero_iff.mp (hsum ▸ hloses l' hl')).2

/-- A cycle without a major number, and one in which there is everything. -/
def twoCycles : List (Kind → Bool) := [fun k => k ≠ .major, fun _ => true]

theorem sampleblk_cycles_two : ∃ l', twoCycles.foldlM cycle ⟨0, 0⟩ = some l' ∧ l'.live = 0 := by
  obtain ⟨hiff, hkept⟩ := sampleblk_cycles twoCycles ⟨0, 0⟩ (fresh_empty 0)
  have hends := hiff.mpr (by simp [twoCycles, AllOk])
  obtain ⟨l', hl'⟩ := Option.isSome_iff_exists.mp hends
  exact ⟨l', hl', hkept l' hl'⟩

end Sampleblk

/-- The arrays of `ramhd_mkreq.c` and `ramhd_req.c`, and the pointers in the structures of the
devices. -/
structure Ramhd where
  sdisk : ℕ → Option ℕ
  rdev : ℕ → Option ℕ
  queue : ℕ → Option ℕ
  gd : ℕ → Option ℕ
  major : Option ℕ

/-- Which allocations succeed, for each device. -/
abbrev Outcomes := Kind → ℕ → Bool

section Ramhd

def ramhdSpaceInit (n : ℕ) (ok : Outcomes) (l : Ledger Kind) :
    Bool × (ℕ → Option ℕ) × Ledger Kind :=
  allocEach .data (ok .data) (List.range n) (fun _ => none) l

def allocRamdev (n : ℕ) (ok : Outcomes) (l : Ledger Kind) :
    Bool × (ℕ → Option ℕ) × Ledger Kind :=
  allocEach .dev (ok .dev) (List.range n) (fun _ => none) l

def ramhdSpaceClean (n : ℕ) (d : Ramhd) (l : Ledger Kind) : Option (Ledger Kind) :=
  giveEach .data d.sdisk (List.range n) l

def cleanRamdev (n : ℕ) (d : Ramhd) (l : Ledger Kind) : Option (Ledger Kind) :=
  giveEach .dev d.rdev (List.range n) l

/-- The loop of both `ramhd_init`. -/
def setUp (device : ℕ → Ramhd → Ledger Kind → Option (Ramhd × Ledger Kind)) :
    List ℕ → Ramhd → Ledger Kind → Option (Ramhd × Ledger Kind)
  | [], d, l => some (d, l)
  | i :: is, d, l => (device i d l).bind fun (d, l) => setUp device is d l

/-- What both `ramhd_init` do behind the memory of the devices. -/
def ramhdDevices (device : ℕ → Ramhd → Ledger Kind → Option (Ramhd × Ledger Kind)) (n : ℕ)
    (ok : Outcomes) (sdisk : ℕ → Option ℕ) (l : Ledger Kind) : Option (Ramhd × Ledger Kind) :=
  let (_, rdev, l) := allocRamdev n ok l
  let (major, l) := alloc .major (ok .major 0) l
  setUp device (List.range n) ⟨sdisk, rdev, fun _ => none, fun _ => none, major⟩ l

/-- The loop of both `ramhd_exit`. -/
def tearDown (d : Ramhd) : List ℕ → Ledger Kind → Option (Ledger Kind)
  | [], l => some l
  | i :: is, l => do
    let l ← touch .dev (d.rdev i) l
    let l ← touch .disk (d.gd i) l
    let l ← give .disk (d.gd i) l
    let l ← give .queue (d.queue i) l
    tearDown d is l

/-- A request with data for a device goes to the memory its structure points to. -/
def transfer (d : Ramhd) (l : Ledger Kind) (i : ℕ) : Option (Ledger Kind) :=
  (touch .dev (d.rdev i) l).bind (touch .data (d.sdisk i))

/-- What can be had in a cycle, and the devices that the requests are for. -/
structure Use (n : ℕ) where
  ok : Outcomes
  ios : List (Fin n)

/-- Loading, and if that has succeeded the requests and unloading. -/
def cycleOf {n : ℕ} (init : Outcomes → Ledger Kind → Option (Int32 × Ramhd × Ledger Kind))
    (exit : Ramhd → Ledger Kind → Option (Ledger Kind)) (l : Ledger Kind) (u : Use n) :
    Option (Ledger Kind) :=
  match init u.ok l with
  | none => none
  | some (status, d, l) =>
    if status ≠ 0 then some l
    else (u.ios.foldlM (fun l (i : Fin n) => transfer d l i.val) l).bind (exit d)

end Ramhd

namespace Mkreq

/-- The queue is made before the disk; both are used at once, and the disk is added with both. -/
def device (ok : Outcomes) (i : ℕ) (d : Ramhd) (l : Ledger Kind) :
    Option (Ramhd × Ledger Kind) := do
  let l ← touch .dev (d.rdev i) l
  let (queue, l) := alloc .queue (ok .queue i) l
  let l ← touch .queue queue l
  let (gd, l) := alloc .disk (ok .disk i) l
  let l ← touch .disk gd l
  let l ← touch .queue queue l
  some ({ d with queue := Function.update d.queue i queue, gd := Function.update d.gd i gd }, l)

/-- Only the memory is checked for. -/
def ramhdInit (n : ℕ) (ok : Outcomes) (l : Ledger Kind) : Option (Int32 × Ramhd × Ledger Kind) :=
  let (fine, sdisk, l) := ramhdSpaceInit n ok l
  if ¬ fine then some (-enomem, ⟨sdisk, fun _ => none, fun _ => none, fun _ => none, none⟩, l)
  else (ramhdDevices (device ok) n ok sdisk l).map fun (d, l) => (0, d, l)

def ramhdExit (n : ℕ) (d : Ramhd) (l : Ledger Kind) : Option (Ledger Kind) := do
  let l ← tearDown d (List.range n) l
  let l ← cleanRamdev n d l
  let l ← ramhdSpaceClean n d l
  give .major d.major l

def cycle (n : ℕ) : Ledger Kind → Use n → Option (Ledger Kind) :=
  cycleOf (ramhdInit n) (ramhdExit n)

end Mkreq

namespace Req

/-- The disk is made before the queue. -/
def device (ok : Outcomes) (i : ℕ) (d : Ramhd) (l : Ledger Kind) :
    Option (Ramhd × Ledger Kind) := do
  let l ← touch .dev (d.rdev i) l
  let (gd, l) := alloc .disk (ok .disk i) l
  let (queue, l) := alloc .queue (ok .queue i) l
  let l ← touch .disk gd l
  let l ← touch .queue queue l
  some ({ d with queue := Function.update d.queue i queue, gd := Function.update d.gd i gd }, l)

/-- Nothing is checked for. -/
def ramhdInit (n : ℕ) (ok : Outcomes) (l : Ledger Kind) : Option (Int32 × Ramhd × Ledger Kind) :=
  let (_, sdisk, l) := ramhdSpaceInit n ok l
  (ramhdDevices (device ok) n ok sdisk l).map fun (d, l) => (0, d, l)

def ramhdExit (n : ℕ) (d : Ramhd) (l : Ledger Kind) : Option (Ledger Kind) := do
  let l ← tearDown d (List.range n) l
  let l ← give .major d.major l
  let l ← cleanRamdev n d l
  ramhdSpaceClean n d l

def cycle (n : ℕ) : Ledger Kind → Use n → Option (Ledger Kind) :=
  cycleOf (ramhdInit n) (ramhdExit n)

end Req

section Loops

/-- What the two bodies have in common: a device is set up if its structure is there and its queue
and its disk can be had, and there is a fault otherwise. -/
structure SetsUp (ok : Outcomes) (device : ℕ → Ramhd → Ledger Kind → Option (Ramhd × Ledger Kind)) :
    Prop where
  good : ∀ i d l a, d.rdev i = some a → (.dev, a) ∈ l.live → ok .queue i → ok .disk i →
    ∃ q g l', device i d l = some ({ d with
        queue := Function.update d.queue i (some q), gd := Function.update d.gd i (some g) }, l') ∧
      l'.live = {(.queue, q)} + ({(.disk, g)} + l.live) ∧ l.next ≤ l'.next
  bad : ∀ i d l, d.rdev i = none ∨ ok .queue i = false ∨ ok .disk i = false → device i d l = none
  keeps : ∀ i d l d' l', device i d l = some (d', l') → d'.rdev = d.rdev

lemma Mkreq.device_setsUp (ok : Outcomes) : SetsUp ok (Mkreq.device ok) := by
  constructor
  · intro i d l a hdev hlive hqueue hdisk
    refine ⟨l.next, l.next + 1, ⟨(.disk, l.next + 1) ::ₘ (.queue, l.next) ::ₘ l.live, l.next + 2⟩,
      ?_, ?_, by simp⟩
    · simp [Mkreq.device, hdev, touch, hlive, hqueue, hdisk]
    · rw [Multiset.singleton_add, Multiset.singleton_add, Multiset.cons_swap]
  · rintro i d l (hdev | hqueue | hdisk)
    · simp [Mkreq.device, hdev]
    · cases ht : touch .dev (d.rdev i) l with
      | none => simp [Mkreq.device, ht]
      | some l' => simp [Mkreq.device, ht, hqueue]
    · cases hqueue : ok .queue i <;> simp [Mkreq.device, hqueue, hdisk]
  · intro i d l d' l' h
    simp only [Mkreq.device, Option.bind_eq_bind, Option.bind_eq_some_iff, Option.some.injEq,
      Prod.mk.injEq] at h
    obtain ⟨_, -, _, -, _, -, _, -, rfl, -⟩ := h
    rfl

lemma Req.device_setsUp (ok : Outcomes) : SetsUp ok (Req.device ok) := by
  constructor
  · intro i d l a hdev hlive hqueue hdisk
    refine ⟨l.next + 1, l.next, ⟨(.queue, l.next + 1) ::ₘ (.disk, l.next) ::ₘ l.live, l.next + 2⟩,
      ?_, ?_, by simp⟩
    · simp [Req.device, hdev, touch, hlive, hqueue, hdisk]
    · rw [Multiset.singleton_add, Multiset.singleton_add]
  · rintro i d l (hdev | hqueue | hdisk)
    · simp [Req.device, hdev]
    · cases hdisk : ok .disk i <;> simp [Req.device, hqueue, hdisk]
    · cases ht : touch .dev (d.rdev i) l with
      | none => simp [Req.device, ht]
      | some l' => simp [Req.device, ht, hdisk]
  · intro i d l d' l' h
    simp only [Req.device, Option.bind_eq_bind, Option.bind_eq_some_iff, Option.some.injEq,
      Prod.mk.injEq] at h
    obtain ⟨_, -, _, -, _, -, rfl, -⟩ := h
    rfl

variable {ok : Outcomes} {device : ℕ → Ramhd → Ledger Kind → Option (Ramhd × Ledger Kind)}

/-- A device that cannot be set up is a fault, whatever comes before it. -/
lemma SetsUp.loop_bad (h : SetsUp ok device) {is : List ℕ} {d : Ramhd} (l : Ledger Kind) {i : ℕ}
    (hi : i ∈ is) (hbad : d.rdev i = none ∨ ok .queue i = false ∨ ok .disk i = false) :
    setUp device is d l = none := by
  induction is generalizing d l with
  | nil => cases hi
  | cons j is ih =>
    cases hdev : device j d l with
    | none => simp [setUp, hdev]
    | some s =>
      rcases List.mem_cons.mp hi with rfl | hi
      · rw [h.bad i d l hbad] at hdev
        cases hdev
      · obtain ⟨d', l'⟩ := s
        rw [setUp, hdev]
        exact ih l' hi (by rwa [h.keeps j d l d' l' hdev])

/-- The queues and disks of the devices of a list are there, and owned. -/
structure Ready (d : Ramhd) (is : List ℕ) : Prop where
  rdev : ∀ i ∈ is, (d.rdev i).isSome
  queue : ∀ i ∈ is, (d.queue i).isSome
  gd : ∀ i ∈ is, (d.gd i).isSome

lemma SetsUp.loop_good (h : SetsUp ok device) {is : List ℕ} (hnodup : is.Nodup)
    (hok : ∀ i ∈ is, ok .queue i ∧ ok .disk i) {d : Ramhd} {l : Ledger Kind}
    (hdev : ∀ i ∈ is, ∃ a, d.rdev i = some a ∧ (.dev, a) ∈ l.live) :
    ∃ d' l', setUp device is d l = some (d', l') ∧ Ready d' is ∧
      (d'.sdisk = d.sdisk ∧ d'.rdev = d.rdev ∧ d'.major = d.major) ∧
      (∀ i ∉ is, d'.queue i = d.queue i ∧ d'.gd i = d.gd i) ∧
      l'.live = owned Kind.queue d'.queue is + owned Kind.disk d'.gd is + l.live ∧
      l.next ≤ l'.next := by
  induction is generalizing d l with
  | nil => exact ⟨d, l, rfl, ⟨by simp, by simp, by simp⟩, ⟨rfl, rfl, rfl⟩, by simp, by simp [owned],
      le_rfl⟩
  | cons i is ih =>
    obtain ⟨hi, hnodup⟩ := List.nodup_cons.mp hnodup
    obtain ⟨a, ha, hlive⟩ := hdev i (by simp)
    obtain ⟨hqueue, hdisk⟩ := hok i (by simp)
    obtain ⟨q, g, l₁, hstep, hl₁, hnext⟩ := h.good i d l a ha hlive hqueue hdisk
    have hdev' : ∀ j ∈ is, ∃ a, d.rdev j = some a ∧ (.dev, a) ∈ l₁.live := by
      intro j hj
      obtain ⟨b, hb, hmem⟩ := hdev j (by simp [hj])
      exact ⟨b, hb, by simp [hl₁, hmem]⟩
    obtain ⟨d', l', hloop, hready, ⟨hs, hr, hm⟩, hkeep, hl', hnext'⟩ := ih hnodup
      (fun j hj => hok j (by simp [hj])) (d := { d with
        queue := Function.update d.queue i (some q), gd := Function.update d.gd i (some g) }) hdev'
    have hqi : d'.queue i = some q := (hkeep i hi).1.trans (Function.update_self _ _ _)
    have hgi : d'.gd i = some g := (hkeep i hi).2.trans (Function.update_self _ _ _)
    refine ⟨d', l', ?_, ⟨?_, ?_, ?_⟩, ⟨hs, hr, hm⟩, fun j hj => ?_, ?_, hnext.trans hnext'⟩
    · rw [setUp, hstep]
      exact hloop
    · rw [hr]
      intro j hj
      obtain ⟨b, hb, -⟩ := hdev j hj
      exact Option.isSome_iff_exists.mpr ⟨b, hb⟩
    · intro j hj
      rcases List.mem_cons.mp hj with rfl | hj
      · rw [hqi]
        rfl
      · exact hready.queue j hj
    · intro j hj
      rcases List.mem_cons.mp hj with rfl | hj
      · rw [hgi]
        rfl
      · exact hready.gd j hj
    · rw [List.mem_cons, not_or] at hj
      obtain ⟨hq, hg⟩ := hkeep j hj.2
      exact ⟨hq.trans (Function.update_of_ne hj.1 _ _), hg.trans (Function.update_of_ne hj.1 _ _)⟩
    · rw [hl', hl₁, owned, owned, hqi, hgi, Option.elim_some, Option.elim_some]
      abel

/-- Unloading gives the queues and disks back, as long as the structures are there. -/
lemma tearDown_ready {d : Ramhd} {is : List ℕ} (hready : Ready d is) {l : Ledger Kind}
    {rest : Multiset (Kind × ℕ)} (hdev : ∀ i ∈ is, ∀ a, d.rdev i = some a → (.dev, a) ∈ rest)
    (h : l.live = owned Kind.queue d.queue is + owned Kind.disk d.gd is + rest) :
    tearDown d is l = some ⟨rest, l.next⟩ := by
  induction is generalizing l with
  | nil =>
    rw [owned, owned, zero_add, zero_add] at h
    rw [tearDown, ← h]
  | cons i is ih =>
    obtain ⟨a, ha⟩ := Option.isSome_iff_exists.mp (hready.rdev i (by simp))
    obtain ⟨q, hq⟩ := Option.isSome_iff_exists.mp (hready.queue i (by simp))
    obtain ⟨g, hg⟩ := Option.isSome_iff_exists.mp (hready.gd i (by simp))
    rw [owned, owned, hq, hg, Option.elim_some, Option.elim_some] at h
    let others := owned Kind.queue d.queue is + owned Kind.disk d.gd is + rest
    have hlive : l.live = (.disk, g) ::ₘ (.queue, q) ::ₘ others := by
      rw [h, ← Multiset.singleton_add, ← Multiset.singleton_add]
      simp only [others]
      abel
    have hmem : (Kind.dev, a) ∈ l.live := by
      rw [h]
      exact Multiset.mem_add.mpr (.inr (hdev i (by simp) a ha))
    have htouch : touch .disk (some g) l = some l := touch_live (by simp [hlive])
    have hput : give .disk (some g) l = some ⟨(.queue, q) ::ₘ others, l.next⟩ := give_cons hlive
    have hclean : give Kind.queue (some q) ⟨(.queue, q) ::ₘ others, l.next⟩ =
        some ⟨others, l.next⟩ := give_cons rfl
    simp only [tearDown, ha, hq, hg, touch_live hmem, htouch, hput, hclean, Option.bind_eq_bind,
      Option.bind_some]
    exact ih ⟨fun j hj => hready.rdev j (by simp [hj]), fun j hj => hready.queue j (by simp [hj]),
      fun j hj => hready.gd j (by simp [hj])⟩ (fun j hj => hdev j (by simp [hj])) rfl

/-- Everything but the memory and the major number can be had. -/
def DevicesOk (n : ℕ) (ok : Outcomes) : Prop :=
  ∀ i < n, ok .dev i ∧ ok .queue i ∧ ok .disk i

lemma SetsUp.devices_bad (h : SetsUp ok device) {n : ℕ} (hbad : ¬ DevicesOk n ok)
    (sdisk : ℕ → Option ℕ) (l : Ledger Kind) : ramhdDevices device n ok sdisk l = none := by
  obtain ⟨-, -, -, -, hnull⟩ := allocEach_owned Kind.dev (ok .dev) (List.nodup_range (n := n))
    (fun _ => none) l
  simp only [DevicesOk, not_forall] at hbad
  obtain ⟨i, hi, hno⟩ := hbad
  refine h.loop_bad _ (List.mem_range.mpr hi) ?_
  cases hdev : ok .dev i with
  | false =>
    refine .inl (hnull i (List.mem_range.mpr hi) rfl fun hw => ?_)
    have htrue := List.mem_takeWhile_imp hw
    rw [hdev] at htrue
    cases htrue
  | true =>
    cases hqueue : ok .queue i with
    | false => exact .inr (.inl rfl)
    | true => exact .inr (.inr (by simpa [hdev, hqueue] using hno))

/-- What a major number owns. -/
def majorOf (p : Option ℕ) : Multiset (Kind × ℕ) := p.elim 0 fun a => {(.major, a)}

lemma SetsUp.devices_good (h : SetsUp ok device) {n : ℕ} (hgood : DevicesOk n ok)
    (sdisk : ℕ → Option ℕ) (l : Ledger Kind) :
    ∃ d l', ramhdDevices device n ok sdisk l = some (d, l') ∧ Ready d (List.range n) ∧
      d.sdisk = sdisk ∧ d.major.isSome = ok .major 0 ∧
      l'.live = owned Kind.queue d.queue (List.range n) + owned Kind.disk d.gd (List.range n) +
        (majorOf d.major + (owned Kind.dev d.rdev (List.range n) + l.live)) ∧ l.next ≤ l'.next := by
  obtain ⟨-, hlive, -, hsome, -⟩ := allocEach_owned Kind.dev (ok .dev) (List.nodup_range (n := n))
    (fun _ => none) l
  have hnext := allocEach_next Kind.dev (ok .dev) (List.range n) (fun _ => none) l
  have hall : (List.range n).takeWhile (ok .dev) = List.range n :=
    List.takeWhile_eq_self_iff.mpr fun i hi => (hgood i (List.mem_range.mp hi)).1
  rw [hall] at hlive hsome
  unfold ramhdDevices allocRamdev
  generalize allocEach Kind.dev (ok .dev) (List.range n) (fun _ => none) l = out at *
  obtain ⟨fine, rdev, l₁⟩ := out
  dsimp only at hlive hsome hnext ⊢
  have hmajor : (alloc .major (ok .major 0) l₁).2.live =
      majorOf (alloc .major (ok .major 0) l₁).1 + l₁.live ∧
        (alloc .major (ok .major 0) l₁).1.isSome = ok .major 0 := by
    cases ok .major 0 with
    | false => exact ⟨(zero_add _).symm, rfl⟩
    | true => exact ⟨rfl, rfl⟩
  have hnext' := alloc_next Kind.major (ok .major 0) l₁
  generalize alloc .major (ok .major 0) l₁ = out at *
  obtain ⟨major, l₂⟩ := out
  have hdev : ∀ i ∈ List.range n, ∃ a, rdev i = some a ∧ (Kind.dev, a) ∈ l₂.live := by
    intro i hi
    obtain ⟨a, ha⟩ := Option.isSome_iff_exists.mp (hsome i hi)
    refine ⟨a, ha, ?_⟩
    rw [hmajor.1, hlive]
    simp [owned_mem hi ha]
  obtain ⟨d, l', hloop, hready, ⟨hs, hr, hm⟩, -, hl', hle⟩ := h.loop_good List.nodup_range
    (fun i hi => (hgood i (List.mem_range.mp hi)).2)
    (d := ⟨sdisk, rdev, fun _ => none, fun _ => none, major⟩) hdev
  refine ⟨d, l', hloop, hready, hs, hm ▸ hmajor.2, ?_, hnext.trans (hnext'.trans hle)⟩
  rw [hl', hmajor.1, hlive, hr, hm]

/-- The state of a loaded module, on top of what was there before. -/
structure Loaded (n : ℕ) (d : Ramhd) (l : Ledger Kind) (rest : Multiset (Kind × ℕ)) : Prop where
  ready : Ready d (List.range n)
  live : l.live = owned Kind.queue d.queue (List.range n) + owned Kind.disk d.gd (List.range n) +
    (majorOf d.major + (owned Kind.dev d.rdev (List.range n) +
      (owned Kind.data d.sdisk (List.range n) + rest)))

variable {n : ℕ} {d : Ramhd} {l : Ledger Kind} {rest : Multiset (Kind × ℕ)}

lemma Loaded.tearDown (h : Loaded n d l rest) : RamDiskLifecycle.tearDown d (List.range n) l =
    some ⟨majorOf d.major + (owned Kind.dev d.rdev (List.range n) +
      (owned Kind.data d.sdisk (List.range n) + rest)), l.next⟩ :=
  tearDown_ready h.ready (fun i hi a ha => by simp [owned_mem hi ha]) h.live

/-- Unloading needs the major number, and gives back everything. -/
lemma Mkreq.ramhdExit_eq (h : Loaded n d l rest) :
    Mkreq.ramhdExit n d l = if d.major.isSome then some ⟨rest, l.next⟩ else none := by
  have hdev : cleanRamdev n d ⟨majorOf d.major + (owned Kind.dev d.rdev (List.range n) +
      (owned Kind.data d.sdisk (List.range n) + rest)), l.next⟩ =
        some ⟨majorOf d.major + (owned Kind.data d.sdisk (List.range n) + rest), l.next⟩ :=
    giveEach_owned (List.range n) (add_left_comm _ _ _)
  have hdata : ramhdSpaceClean n d
      ⟨majorOf d.major + (owned Kind.data d.sdisk (List.range n) + rest), l.next⟩ =
        some ⟨majorOf d.major + rest, l.next⟩ :=
    giveEach_owned (List.range n) (add_left_comm _ _ _)
  simp only [Mkreq.ramhdExit, h.tearDown, hdev, hdata, Option.bind_eq_bind, Option.bind_some]
  cases hm : d.major with
  | none => rfl
  | some a => exact give_cons (Multiset.singleton_add _ _)

lemma Req.ramhdExit_eq (h : Loaded n d l rest) :
    Req.ramhdExit n d l = if d.major.isSome then some ⟨rest, l.next⟩ else none := by
  have hdev : cleanRamdev n d ⟨owned Kind.dev d.rdev (List.range n) +
      (owned Kind.data d.sdisk (List.range n) + rest), l.next⟩ =
        some ⟨owned Kind.data d.sdisk (List.range n) + rest, l.next⟩ :=
    giveEach_owned (List.range n) rfl
  have hdata : ramhdSpaceClean n d ⟨owned Kind.data d.sdisk (List.range n) + rest, l.next⟩ =
      some ⟨rest, l.next⟩ := giveEach_owned (List.range n) rfl
  have htear := h.tearDown
  cases hm : d.major with
  | none => simp [Req.ramhdExit, htear, hm]
  | some a =>
    rw [hm] at htear
    have hgive : give Kind.major (some a) ⟨majorOf (some a) +
        (owned Kind.dev d.rdev (List.range n) + (owned Kind.data d.sdisk (List.range n) + rest)),
          l.next⟩ = some ⟨_, l.next⟩ :=
      give_cons (Multiset.singleton_add _ _)
    simp only [Req.ramhdExit, htear, hm, hgive, hdev, hdata, Option.bind_eq_bind,
      Option.bind_some]
    rfl

/-- The spaces of devices that nobody frees: those before the first that cannot be had. -/
def spacesLost (n : ℕ) (ok : Outcomes) : ℕ :=
  if (List.range n).all (ok .data) then 0 else ((List.range n).takeWhile (ok .data)).length

/-- The memory of a device can be had, and that of all devices before it. -/
def SpaceOk (ok : Outcomes) (i : ℕ) : Prop := ∀ j ≤ i, ok .data j = true

lemma mem_takeWhile_range {p : ℕ → Bool} {n i : ℕ} (hi : i < n) :
    i ∈ (List.range n).takeWhile p ↔ ∀ j ≤ i, p j = true := by
  constructor
  · intro hmem j hj
    have heq := List.prefix_iff_eq_take.mp (List.takeWhile_prefix p (l := List.range n))
    rw [List.take_range] at heq
    have hj' : j ∈ (List.range n).takeWhile p := by
      rw [heq, List.mem_range] at hmem ⊢
      exact hj.trans_lt hmem
    exact List.mem_takeWhile_imp hj'
  · intro hall
    have hsplit : List.range n =
        List.range (i + 1) ++ (List.range (n - (i + 1))).map (i + 1 + ·) := by
      rw [← List.range_add]
      congr 1
      omega
    have hpos : ∀ j ∈ List.range (i + 1), p j = true :=
      fun j hj => hall j (Nat.lt_succ_iff.mp (List.mem_range.mp hj))
    rw [hsplit, List.takeWhile_append_of_pos hpos]
    exact List.mem_append_left _ List.self_mem_range_succ

/-- What `ramhd_space_init` leaves, in either file. -/
lemma ramhdSpaceInit_spec (n : ℕ) (ok : Outcomes) (l : Ledger Kind) :
    let out := ramhdSpaceInit n ok l
    out.1 = (List.range n).all (ok .data) ∧
      out.2.2.live = owned Kind.data out.2.1 (List.range n) + l.live ∧ l.next ≤ out.2.2.next ∧
      (owned Kind.data out.2.1 (List.range n)).card =
        ((List.range n).takeWhile (ok .data)).length ∧
      ∀ i < n, (out.2.1 i).isSome ↔ SpaceOk ok i := by
  obtain ⟨hfine, hlive, -, hsome, hnull⟩ := allocEach_owned Kind.data (ok .data)
    (List.nodup_range (n := n)) (fun _ => none) l
  have hsame := owned_takeWhile (k := Kind.data) (List.nodup_range (n := n))
    fun i hi hw => hnull i hi rfl hw
  refine ⟨hfine, ?_, allocEach_next _ _ _ _ _, ?_, fun i hi => ?_⟩
  · rw [ramhdSpaceInit, hsame]
    exact hlive
  · rw [ramhdSpaceInit, hsame]
    exact owned_card hsome
  · rw [SpaceOk, ← mem_takeWhile_range hi]
    constructor
    · intro hspace
      by_contra hw
      rw [ramhdSpaceInit, hnull i (List.mem_range.mpr hi) rfl hw] at hspace
      cases hspace
    · exact hsome i

/-- Devices that are set up on top of their memory are those of a loaded module. -/
lemma SetsUp.loads (h : SetsUp ok device) (hgood : DevicesOk n ok) {sdisk : ℕ → Option ℕ}
    {l : Ledger Kind} (hlive : l.live = owned Kind.data sdisk (List.range n) + rest) :
    ∃ d l', ramhdDevices device n ok sdisk l = some (d, l') ∧ Loaded n d l' rest ∧
      d.sdisk = sdisk ∧ d.major.isSome = ok .major 0 ∧ l.next ≤ l'.next := by
  obtain ⟨d, l', hdevices, hready, hs, hmajor, hl', hnext⟩ := h.devices_good hgood sdisk l
  refine ⟨d, l', hdevices, ⟨hready, ?_⟩, hs, hmajor, hnext⟩
  rw [hl', hlive, hs]

/-- A request for a device of a loaded module needs its memory and changes nothing. -/
lemma Loaded.transfer (h : Loaded n d l rest) {i : ℕ} (hi : i < n) :
    RamDiskLifecycle.transfer d l i = if (d.sdisk i).isSome then some l else none := by
  have hmem := List.mem_range.mpr hi
  obtain ⟨a, ha⟩ := Option.isSome_iff_exists.mp (h.ready.rdev i hmem)
  have hdev : (Kind.dev, a) ∈ l.live := by
    rw [h.live]
    simp [owned_mem hmem ha]
  rw [RamDiskLifecycle.transfer, ha, touch_live hdev, Option.bind_some]
  cases hs : d.sdisk i with
  | none => rfl
  | some b =>
    have hdata : (Kind.data, b) ∈ l.live := by
      rw [h.live]
      simp [owned_mem hmem hs]
    exact touch_live hdata

lemma Loaded.transfers (h : Loaded n d l rest) (ios : List (Fin n)) :
    ios.foldlM (fun l (i : Fin n) => RamDiskLifecycle.transfer d l i.val) l =
      if ∀ i ∈ ios, (d.sdisk i.val).isSome then some l else none := by
  induction ios with
  | nil => simp
  | cons i ios ih =>
    rw [List.foldlM_cons, h.transfer i.isLt]
    by_cases hspace : (d.sdisk i.val).isSome = true
    · simp [hspace, ih]
    · simp [hspace]

/-- A cycle that needs the devices and the major number and gives everything back. -/
lemma loses_nothing {c : Option (Ledger Kind)} {P : Prop} {major : Bool} {l : Ledger Kind}
    (hl : l.Fresh) (hbad : ¬ P → c = none)
    (hgood : P → ∃ k, l.next ≤ k ∧ c = if major then some ⟨l.live, k⟩ else none) :
    (c.isSome ↔ P ∧ major) ∧ ∀ l', c = some l' → Loses .data 0 l l' := by
  by_cases hP : P
  · obtain ⟨k, hk, rfl⟩ := hgood hP
    cases major with
    | false => simp
    | true =>
      refine ⟨by simp [hP], ?_⟩
      rintro l' ⟨⟩
      exact Loses.zero_iff.mpr ⟨hl.mono rfl hk, rfl⟩
  · rw [hbad hP]
    simp [hP]

lemma Mkreq.cycle_iff (n : ℕ) {l : Ledger Kind} (hl : l.Fresh) (u : Use n) :
    ((Mkreq.cycle n l u).isSome ↔
      ((List.range n).all (u.ok .data) → DevicesOk n u.ok ∧ u.ok .major 0)) ∧
      ∀ l', Mkreq.cycle n l u = some l' → Loses .data (spacesLost n u.ok) l l' := by
  obtain ⟨ok, ios⟩ := u
  obtain ⟨hfine, hlive, hnext, hcard, hspace⟩ := ramhdSpaceInit_spec n ok l
  have hfresh : (ramhdSpaceInit n ok l).2.2.Fresh := hl.allocEach _ _ _ _
  cases hall : (List.range n).all (ok .data) with
  | false =>
    rw [hall] at hfine
    have hcycle : Mkreq.cycle n l ⟨ok, ios⟩ = some (ramhdSpaceInit n ok l).2.2 := by
      simp [Mkreq.cycle, cycleOf, Mkreq.ramhdInit, hfine, enomem]
    rw [hcycle, spacesLost, hall]
    refine ⟨by simp, ?_⟩
    rintro l' ⟨⟩
    exact ⟨hfresh, _, hlive, fun x => owned_kind, hcard⟩
  | true =>
    rw [hall] at hfine
    have hinit : Mkreq.ramhdInit n ok l = (ramhdDevices (Mkreq.device ok) n ok
        (ramhdSpaceInit n ok l).2.1 (ramhdSpaceInit n ok l).2.2).map fun (d, l) => (0, d, l) := by
      simp [Mkreq.ramhdInit, hfine]
    rw [spacesLost, if_pos hall]
    simp only [forall_const]
    apply loses_nothing hl
    · intro hbad
      simp [Mkreq.cycle, cycleOf, hinit, (Mkreq.device_setsUp ok).devices_bad hbad]
    · intro hgood
      obtain ⟨d, l', hdevices, hloaded, hs, hmajor, hnext'⟩ :=
        (Mkreq.device_setsUp ok).loads hgood hlive
      -- all devices have their memory
      have hready : ∀ i ∈ ios, (d.sdisk i.val).isSome = true := by
        intro i _
        rw [hs, hspace i i.isLt]
        intro j hj
        exact List.all_eq_true.mp hall j (List.mem_range.mpr (hj.trans_lt i.isLt))
      refine ⟨l'.next, hnext.trans hnext', ?_⟩
      simp only [Mkreq.cycle, cycleOf, hinit, hdevices, Option.map_some, ne_eq, not_true_eq_false,
        if_false, hloaded.transfers, if_pos hready, Option.bind_some, Mkreq.ramhdExit_eq hloaded,
        hmajor]

/-- The requests of a cycle are for devices that have their memory. -/
def Served {n : ℕ} (u : Use n) : Prop := ∀ i ∈ u.ios, SpaceOk u.ok i.val

lemma Req.cycle_iff (n : ℕ) {l : Ledger Kind} (hl : l.Fresh) (u : Use n) :
    ((Req.cycle n l u).isSome ↔ (DevicesOk n u.ok ∧ Served u) ∧ u.ok .major 0) ∧
      ∀ l', Req.cycle n l u = some l' → Loses .data 0 l l' := by
  obtain ⟨ok, ios⟩ := u
  obtain ⟨-, hlive, hnext, -, hspace⟩ := ramhdSpaceInit_spec n ok l
  by_cases hgood : DevicesOk n ok
  · obtain ⟨d, l', hdevices, hloaded, hs, hmajor, hnext'⟩ :=
      (Req.device_setsUp ok).loads hgood hlive
    have hiff : (∀ i ∈ ios, (d.sdisk i.val).isSome = true) ↔ Served (⟨ok, ios⟩ : Use n) := by
      simp only [Served, hs]
      exact forall₂_congr fun i _ => hspace i i.isLt
    have hcycle : Req.cycle n l ⟨ok, ios⟩ =
        (if ∀ i ∈ ios, (d.sdisk i.val).isSome then some l' else none).bind (Req.ramhdExit n d) := by
      simp only [Req.cycle, cycleOf, Req.ramhdInit, hdevices, Option.map_some, ne_eq,
        not_true_eq_false, if_false, hloaded.transfers]
    rw [hcycle]
    apply loses_nothing hl
    · intro hbad
      rw [if_neg fun hready => hbad ⟨hgood, hiff.mp hready⟩]
      rfl
    · intro hready
      refine ⟨l'.next, hnext.trans hnext', ?_⟩
      rw [if_pos (hiff.mpr hready.2), Option.bind_some, Req.ramhdExit_eq hloaded, hmajor]
  · apply loses_nothing hl
    · intro _
      simp [Req.cycle, cycleOf, Req.ramhdInit, (Req.device_setsUp ok).devices_bad hgood]
    · exact fun hready => absurd hready.1 hgood

end Loops

/-- Every sequence of loading, using and unloading `ramhd_mkreq`, with any number of devices and
whatever can be had in each cycle. It runs without a fault exactly if in each cycle that has the
memory for all devices everything else can be had, too, whatever the requests are. All that leaks is
the memory for the first devices in the cycles where it does not suffice for all of them. -/
theorem mkreq_cycles (n : ℕ) (us : List (Use n)) (l : Ledger Kind) (hl : l.Fresh) :
    ((us.foldlM (Mkreq.cycle n) l).isSome ↔
      ∀ u ∈ us, (List.range n).all (u.ok .data) → DevicesOk n u.ok ∧ u.ok .major 0) ∧
      ∀ l', us.foldlM (Mkreq.cycle n) l = some l' → ∃ lost, l'.live = lost + l.live ∧
        (∀ x ∈ lost, x.1 = .data) ∧ lost.card = (us.map fun u => spacesLost n u.ok).sum := by
  obtain ⟨hiff, hloses⟩ := foldlM_loses (fun l u hl => Mkreq.cycle_iff n hl u) us hl
  exact ⟨hiff, fun l' hl' => (hloses l' hl').lost⟩

/-- All can be had, and then all but the memory of the second device; the requests are for the
first. -/
def shortUses : List (Use 2) :=
  [⟨fun _ _ => true, [⟨0, Nat.two_pos⟩, ⟨0, Nat.two_pos⟩]⟩,
    ⟨fun k i => ¬ (k = .data ∧ i = 1), [⟨0, Nat.two_pos⟩]⟩]

theorem mkreq_cycles_short : ∃ l', shortUses.foldlM (Mkreq.cycle 2) ⟨0, 0⟩ = some l' ∧
    l'.live.card = 1 := by
  obtain ⟨hiff, hlost⟩ := mkreq_cycles 2 shortUses ⟨0, 0⟩ (fresh_empty 0)
  have hends := hiff.mpr (by simp [shortUses, DevicesOk, List.range_succ])
  obtain ⟨l', hl'⟩ := Option.isSome_iff_exists.mp hends
  obtain ⟨lost, hlive, -, hcard⟩ := hlost l' hl'
  have hsum : (shortUses.map fun u => spacesLost 2 u.ok).sum = 1 := by decide
  refine ⟨l', hl', ?_⟩
  rw [hlive, add_zero, hcard, hsum]

/-- The same for `ramhd_req`, which goes on without the memory: there is a fault at the first
request for a device that has none. Nothing leaks. -/
theorem req_cycles (n : ℕ) (us : List (Use n)) (l : Ledger Kind) (hl : l.Fresh) :
    ((us.foldlM (Req.cycle n) l).isSome ↔
      ∀ u ∈ us, (DevicesOk n u.ok ∧ Served u) ∧ u.ok .major 0) ∧
      ∀ l', us.foldlM (Req.cycle n) l = some l' → l'.live = l.live := by
  obtain ⟨hiff, hloses⟩ := foldlM_loses (fun l u hl => Req.cycle_iff n hl u) us hl
  refine ⟨hiff, fun l' hl' => ?_⟩
  have hsum : (us.map fun _ => 0).sum = 0 := by simp
  exact (Loses.zero_iff.mp (hsum ▸ hloses l' hl')).2

theorem req_cycles_short : ∃ l', shortUses.foldlM (Req.cycle 2) ⟨0, 0⟩ = some l' ∧
    l'.live = 0 := by
  obtain ⟨hiff, hkept⟩ := req_cycles 2 shortUses ⟨0, 0⟩ (fresh_empty 0)
  have hends := hiff.mpr (by simp [shortUses, DevicesOk, Served, SpaceOk])
  obtain ⟨l', hl'⟩ := Option.isSome_iff_exists.mp hends
  exact ⟨l', hl', hkept l' hl'⟩

end LinuxLabs.RamDiskLifecycle
