import Mathlib

/-! The timer that samples the frequency of one CPU after another. It is started before the memory
it writes to is allocated, and stopped after that memory is freed. -/
namespace LinuxLabs.TraceTimer

structure TestData where
  num : ℕ
  cpuFreq : ℕ
  cpuMaxFreq : ℕ

/-- `global` is the memory behind the pointer of this name, if there is any; `expires` is for a
timer that is pending; `trace` is what the events have shown. -/
structure Driver where
  i : ℕ
  global : Option TestData
  expires : Option ℕ
  trace : List TestData

/-- The clock when the timer fires, and the frequencies of the CPUs at that moment. -/
structure Tick where
  jiffies : ℕ
  cpufreqQuickGet : ℕ → ℕ
  cpufreqQuickGetMax : ℕ → ℕ

section Driver
variable (nrCpus hz : ℕ) (msecsToJiffies : ℕ → ℕ)

/-- What is shown of a CPU. -/
def sample (cpu : ℕ) (t : Tick) : TestData := ⟨cpu, t.cpufreqQuickGet cpu, t.cpufreqQuickGetMax cpu⟩

def testDriverFunc (d : Driver) (t : Tick) : Option Driver :=
  if d.global.isNone then none
  else
    let data := sample ((d.i + 1) % nrCpus) t
    let expires := t.jiffies + msecsToJiffies (2000 + d.i * 200)
    let i := if d.i > 100 then 0 else d.i
    some { i := i + 1, global := some data, expires := some expires, trace := d.trace ++ [data] }

def ticks (d : Driver) (ts : List Tick) : Option Driver :=
  ts.foldlM (testDriverFunc nrCpus msecsToJiffies) d

/-- The ticks are those between the start of the timer and the allocation. -/
def testDriverInit (jiffies : ℕ) (kzallocOk : Bool) (ts : List Tick) : Option (Int32 × Driver) :=
  let d : Driver := ⟨0, none, some (jiffies + 50 * hz), []⟩
  (ticks nrCpus msecsToJiffies d ts).map fun d =>
    if kzallocOk then (0, { d with global := some ⟨0, 0, 0⟩ }) else (-1, { d with global := none })

/-- The ticks are those between the release of the memory and the end of the timer. -/
def testDriverExit (d : Driver) (ts : List Tick) : Option Driver :=
  (ticks nrCpus msecsToJiffies { d with global := none } ts).map fun d => { d with expires := none }

/-- The life of the module. Where the allocation has failed it is never unloaded, and the second
list are the ticks that come nevertheless. -/
def life (jiffies : ℕ) (kzallocOk : Bool) (before during after : List Tick) : Option Driver := do
  let (status, d) ← testDriverInit nrCpus hz msecsToJiffies jiffies kzallocOk before
  let d ← ticks nrCpus msecsToJiffies d during
  if status = 0 then testDriverExit nrCpus msecsToJiffies d after else some d

/-- The counter after so many ticks: it begins with 0 and comes back to 1. -/
def rotation (k : ℕ) : ℕ := if k = 0 then 0 else (k - 1) % 101 + 1

lemma rotation_succ (k : ℕ) :
    rotation (k + 1) = (if rotation k > 100 then 0 else rotation k) + 1 := by
  unfold rotation
  rcases Nat.eq_zero_or_pos k with rfl | hk
  · rfl
  · rw [if_neg (Nat.succ_ne_zero k), if_neg hk.ne', Nat.add_sub_cancel]
    split_ifs
    · omega
    · omega

lemma rotation_le (k : ℕ) : rotation k ≤ 101 := by
  unfold rotation
  split_ifs
  · omega
  · omega

/-- The driver after so many ticks with its memory. -/
structure Runs (d : Driver) (ts : List Tick) : Prop where
  global : d.global.isSome
  i : d.i = rotation ts.length
  trace : d.trace = ts.mapIdx fun k t => sample ((rotation k + 1) % nrCpus) t
  expires : ∀ t ∈ ts.getLast?, d.expires =
    some (t.jiffies + msecsToJiffies (2000 + rotation (ts.length - 1) * 200))

lemma Runs.tick {d : Driver} {ts : List Tick} (h : Runs nrCpus msecsToJiffies d ts) (t : Tick) :
    ∃ d', testDriverFunc nrCpus msecsToJiffies d t = some d' ∧
      Runs nrCpus msecsToJiffies d' (ts ++ [t]) := by
  have hglobal : ¬ d.global.isNone = true := by
    obtain ⟨data, hdata⟩ := Option.isSome_iff_exists.mp h.global
    simp [hdata]
  refine ⟨_, if_neg hglobal, ⟨rfl, ?_, ?_, ?_⟩⟩
  · rw [List.length_append, List.length_singleton, rotation_succ, ← h.i]
  · rw [List.mapIdx_append, ← h.trace, h.i]
    simp
  · simp [h.i]

/-- The driver when the memory has just been allocated. -/
def loaded (jiffies : ℕ) : Driver := ⟨0, some ⟨0, 0, 0⟩, some (jiffies + 50 * hz), []⟩

lemma loaded_runs (jiffies : ℕ) (ts : List Tick) :
    ∃ d, ticks nrCpus msecsToJiffies (loaded hz jiffies) ts = some d ∧
      Runs nrCpus msecsToJiffies d ts := by
  induction ts using List.reverseRecOn with
  | nil => exact ⟨_, rfl, ⟨rfl, rfl, rfl, by simp⟩⟩
  | append_singleton ts t ih =>
    obtain ⟨d, hd, hruns⟩ := ih
    obtain ⟨d', hd', hruns'⟩ := Runs.tick nrCpus msecsToJiffies hruns t
    refine ⟨d', ?_, hruns'⟩
    rw [ticks] at hd
    simp [ticks, List.foldlM_append, hd, hd']

/-- Without memory the first tick is a fault. -/
lemma ticks_null {d : Driver} (h : d.global = none) (ts : List Tick) :
    ticks nrCpus msecsToJiffies d ts = if ts = [] then some d else none := by
  cases ts with
  | nil => rfl
  | cons t ts => simp [ticks, testDriverFunc, h]

/-- Every interleaving of the module with its timer. There is no fault exactly if no tick falls
between the start of the timer and the allocation, none comes after an allocation that has failed,
and none falls between the release of the memory and the end of the timer. The trace then shows the
CPUs in rotation, and the timer is left pending exactly if the allocation has failed. -/
theorem life_iff (jiffies : ℕ) (kzallocOk : Bool) (before during after : List Tick) :
    let d := life nrCpus hz msecsToJiffies jiffies kzallocOk before during after
    (d.isSome ↔ before = [] ∧ if kzallocOk then after = [] else during = []) ∧
      ∀ d' ∈ d, d'.trace = (during.mapIdx fun k t => sample ((rotation k + 1) % nrCpus) t) ∧
        (d'.expires.isSome ↔ kzallocOk = false) := by
  by_cases hbefore : before = []
  · subst hbefore
    cases kzallocOk with
    | false =>
      by_cases hduring : during = []
      · subst hduring
        simp [life, testDriverInit, ticks]
      · have hfault : life nrCpus hz msecsToJiffies jiffies false [] during after = none := by
          simp [life, testDriverInit, ticks_null, hduring]
        rw [hfault]
        simp [hduring]
    | true =>
      obtain ⟨d, hd, hruns⟩ := loaded_runs nrCpus hz msecsToJiffies jiffies during
      have hlife : life nrCpus hz msecsToJiffies jiffies true [] during after =
          testDriverExit nrCpus msecsToJiffies d after := by
        have hinit : testDriverInit nrCpus hz msecsToJiffies jiffies true [] =
            some (0, loaded hz jiffies) := rfl
        simp [life, hinit, hd]
      rw [hlife, testDriverExit, ticks_null _ _ rfl]
      by_cases hafter : after = []
      · simp [hafter, hruns.trace]
      · simp [hafter]
  · have hfault : life nrCpus hz msecsToJiffies jiffies kzallocOk before during after = none := by
      simp [life, testDriverInit, ticks_null, hbefore]
    rw [hfault]
    simp [hbefore]

lemma Runs.num {d : Driver} {ts : List Tick} (h : Runs nrCpus msecsToJiffies d ts) {k : ℕ}
    (hk : k < ts.length) :
    (d.trace[k]?).map TestData.num = some ((rotation k + 1) % nrCpus) := by
  rw [h.trace, List.getElem?_mapIdx, List.getElem?_eq_getElem hk]
  rfl

/-- Behind the first tick any 101 values in a row have every counter. -/
lemma exists_rotation_eq {start i : ℕ} (hstart : 1 ≤ start) (hi : 1 ≤ i) (hi' : i ≤ 101) :
    ∃ k, start ≤ k ∧ k < start + 101 ∧ rotation k = i := by
  refine ⟨start + (i + 100 * start) % 101, by omega, by omega, ?_⟩
  rw [rotation, if_neg (by omega)]
  omega

/-- The counters from 1 to 101 have every remainder of a divisor up to 101. -/
lemma exists_counter {n cpu : ℕ} (hn : n ≤ 101) (hcpu : cpu < n) :
    ∃ i, 1 ≤ i ∧ i ≤ 101 ∧ (i + 1) % n = cpu := by
  by_cases hone : n = 1
  · exact ⟨1, by simp, by simp, by rw [hone, Nat.mod_one]; omega⟩
  by_cases hsmall : cpu < 2
  · refine ⟨cpu + n - 1, by omega, by omega, ?_⟩
    rw [show cpu + n - 1 + 1 = cpu + n by omega, Nat.add_mod_right, Nat.mod_eq_of_lt hcpu]
  · refine ⟨cpu - 1, by omega, by omega, ?_⟩
    rw [show cpu - 1 + 1 = cpu by omega, Nat.mod_eq_of_lt hcpu]

/-- With more CPUs the second one is sampled by the first tick only. -/
lemma rotation_ne_one {n k : ℕ} (hn : 101 < n) (hk : 1 ≤ k) : (rotation k + 1) % n ≠ 1 := by
  have hle := rotation_le k
  have hpos : 1 ≤ rotation k := by
    rw [rotation, if_neg (by omega)]
    omega
  rcases Nat.lt_or_ge (rotation k + 1) n with hlt | hge
  · rw [Nat.mod_eq_of_lt hlt]
    omega
  · obtain rfl : n = rotation k + 1 := by omega
    rw [Nat.mod_self]
    omega

/-- From the second tick on, any 101 ticks in a row sample every CPU exactly if there are no more
than 101 of them. -/
theorem cpus_covered_iff (jiffies : ℕ) :
    (∀ ts, ∀ d ∈ ticks nrCpus msecsToJiffies (loaded hz jiffies) ts, ∀ start, 1 ≤ start →
      start + 101 ≤ ts.length → ∀ cpu < nrCpus, ∃ k, start ≤ k ∧ k < start + 101 ∧
        (d.trace[k]?).map TestData.num = some cpu) ↔ nrCpus ≤ 101 := by
  constructor
  · intro h
    by_contra hmany
    obtain ⟨d, hd, hruns⟩ := loaded_runs nrCpus hz msecsToJiffies jiffies
      (List.replicate 102 ⟨0, fun _ => 0, fun _ => 0⟩)
    obtain ⟨k, hk, hk', hnum⟩ := h _ d hd 1 le_rfl (by simp) 1 (by omega)
    rw [hruns.num _ _ (by simpa using hk')] at hnum
    exact rotation_ne_one (not_le.mp hmany) hk (Option.some.inj hnum)
  · intro hfew ts d hd start hstart hlen cpu hcpu
    obtain ⟨d', hd', hruns⟩ := loaded_runs nrCpus hz msecsToJiffies jiffies ts
    obtain rfl : d = d' := Option.some.inj (hd.symm.trans hd')
    obtain ⟨i, hi, hi', hmod⟩ := exists_counter hfew hcpu
    obtain ⟨k, hk, hk', hrot⟩ := exists_rotation_eq hstart hi hi'
    refine ⟨k, hk, hk', ?_⟩
    rw [hruns.num _ _ (by omega), hrot, hmod]

end Driver

end LinuxLabs.TraceTimer
