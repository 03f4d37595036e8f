import Mathlib

/-! Last-writer-wins maps. A map is described by the log of the writes and clears that made
it; a registry is a list with at most one entry a key, newest key first, that agrees with the
map at every key. The lemmas say how each way of updating a registry extends the log. -/
namespace LinuxLabs.LastWriter

inductive Event (K V : Type*)
  | set (key : K) (value : V)
  | clear (key : K)
  deriving DecidableEq, Repr

variable {K V W α : Type*} [DecidableEq K]

def Event.key : Event K V → K
  | .set k _ => k
  | .clear k => k

def Event.value : Event K V → Option V
  | .set _ v => some v
  | .clear _ => none

/-- The value written by the most recent event about the key, if that was a write. -/
def lookup (log : List (Event K V)) (k : K) : Option V :=
  (log.reverse.find? fun e => e.key = k).bind Event.value

/-- Note down a key at its first appearance. -/
def note (ks : List K) : Event K V → List K
  | .set k _ => if k ∈ ks then ks else k :: ks
  | .clear _ => ks

/-- The keys written so far, most recently first-written key first. -/
def firsts (log : List (Event K V)) : List K := log.foldl note []

@[simp] theorem lookup_nil (k : K) : lookup ([] : List (Event K V)) k = none := rfl

theorem lookup_snoc (log : List (Event K V)) (e : Event K V) (k : K) :
    lookup (log ++ [e]) k = if e.key = k then e.value else lookup log k := by
  by_cases h : e.key = k <;> simp [lookup, h]

/-- Events about other keys do not matter. -/
theorem lookup_append_of_ne {log log' : List (Event K V)} {k : K} (h : ∀ e ∈ log', e.key ≠ k) :
    lookup (log ++ log') k = lookup log k := by
  induction log' using List.reverseRecOn with
  | nil => simp
  | append_singleton log' e ih =>
    rw [← List.append_assoc, lookup_snoc, if_neg (h e (by simp))]
    exact ih fun e' he' => h e' (by simp [he'])

theorem firsts_snoc (log : List (Event K V)) (e : Event K V) :
    firsts (log ++ [e]) = note (firsts log) e := by simp [firsts]

theorem mem_firsts (log : List (Event K V)) (k : K) : k ∈ firsts log ↔ ∃ v, .set k v ∈ log := by
  induction log using List.reverseRecOn with
  | nil => simp [firsts]
  | append_singleton log e ih =>
    rw [firsts_snoc]
    cases e with
    | set k' v =>
      simp only [note, List.mem_append, List.mem_singleton, Event.set.injEq, exists_or]
      split_ifs with h
      · rw [ih]
        refine ⟨.inl, fun hor => hor.elim id ?_⟩
        rintro ⟨v', rfl, -⟩
        exact ih.mp h
      · rw [List.mem_cons, ih, or_comm]
        simp
    | clear k' => simp [note, ih]

/-- A list of entries is the registry of a log: one entry for every key ever written, newest
first, holding what the log says about its key. -/
structure Registry (key : α → K) (value : α → Option V) (l : List α)
    (log : List (Event K V)) : Prop where
  nodup : (l.map key).Nodup
  keys : l.map key = firsts log
  agrees : ∀ a ∈ l, value a = lookup log (key a)
  absent : ∀ k, k ∉ l.map key → lookup log k = none

variable {key : α → K} {value : α → Option V} {l : List α} {log : List (Event K V)}

theorem Registry.nil : Registry key value ([] : List α) [] :=
  ⟨List.nodup_nil, rfl, by simp, fun _ _ => rfl⟩

theorem find?_key {l : List α} (hn : (l.map key).Nodup) {a : α} (ha : a ∈ l) :
    l.find? (fun b => key b = key a) = some a := by
  induction l with
  | nil => simp at ha
  | cons b l ih =>
    simp only [List.map_cons, List.nodup_cons] at hn
    rcases List.mem_cons.mp ha with rfl | ha
    · simp
    · have hne : key b ≠ key a := fun he => hn.1 (he ▸ List.mem_map_of_mem ha)
      simp [hne, ih hn.2 ha]

/-- Searching the registry for a key finds what the log says about it. -/
theorem Registry.find (h : Registry key value l log) (k : K) :
    (l.find? fun a => key a = k).bind value = lookup log k := by
  cases hf : l.find? (fun a => key a = k) with
  | none =>
    have hk : k ∉ l.map key := by
      intro hm
      obtain ⟨a, ha, hak⟩ := List.mem_map.mp hm
      exact absurd hak (by simpa using List.find?_eq_none.mp hf a ha)
    simp [h.absent k hk]
  | some a =>
    have hak : key a = k := by simpa using List.find?_some hf
    simp [h.agrees a (List.mem_of_find?_eq_some hf), hak]

/-- An entry in front whose key is new. -/
theorem Registry.cons (h : Registry key value l log) {a : α} {v : V}
    (hnew : key a ∉ l.map key) (hv : value a = some v) :
    Registry key value (a :: l) (log ++ [.set (key a) v]) where
  nodup := by simpa using ⟨by simpa using hnew, h.nodup⟩
  keys := by
    have hf : key a ∉ firsts log := h.keys ▸ hnew
    rw [firsts_snoc, note, if_neg hf, List.map_cons, h.keys]
  agrees := by
    intro b hb
    rw [lookup_snoc]
    rcases List.mem_cons.mp hb with rfl | hb
    · simp [Event.key, Event.value, hv]
    · have hne : key a ≠ key b := fun he => hnew (he ▸ List.mem_map_of_mem hb)
      simp [Event.key, hne, h.agrees b hb]
  absent := by
    intro k hk
    simp only [List.map_cons, List.mem_cons, not_or] at hk
    have hne : key a ≠ k := Ne.symm hk.1
    rw [lookup_snoc, Event.key, if_neg hne, h.absent k hk.2]

/-- An update of the entries that keeps all keys and changes the value under one of them. -/
theorem Registry.update (h : Registry key value l log) {f : α → α} {e : Event K V}
    (hmem : e.key ∈ l.map key) (hkey : ∀ a ∈ l, key (f a) = key a)
    (hval : ∀ a ∈ l, value (f a) = if e.key = key a then e.value else value a) :
    Registry key value (l.map f) (log ++ [e]) := by
  have hmap : (l.map f).map key = l.map key := by
    rw [List.map_map]
    exact List.map_congr_left hkey
  refine ⟨hmap ▸ h.nodup, ?_, ?_, ?_⟩
  · rw [hmap, h.keys]
    rw [firsts_snoc]
    cases e with
    | set k v => exact (if_pos (h.keys ▸ hmem)).symm
    | clear k => rfl
  · intro b hb
    obtain ⟨a, ha, rfl⟩ := List.mem_map.mp hb
    rw [hval a ha, hkey a ha, lookup_snoc, h.agrees a ha]
  · intro k hk
    rw [hmap] at hk
    have hne : e.key ≠ k := fun he => hk (he ▸ hmem)
    rw [lookup_snoc, if_neg hne, h.absent k hk]

def Event.map (f : V → W) : Event K V → Event K W
  | .set k v => .set k (f v)
  | .clear k => .clear k

theorem firsts_map (f : V → W) (log : List (Event K V)) :
    firsts (log.map (Event.map f)) = firsts log := by
  induction log using List.reverseRecOn with
  | nil => rfl
  | append_singleton log e ih =>
    rw [List.map_append, List.map_singleton, firsts_snoc, firsts_snoc, ih]
    cases e <;> rfl

theorem lookup_map (f : V → W) (log : List (Event K V)) (k : K) :
    lookup (log.map (Event.map f)) k = (lookup log k).map f := by
  induction log using List.reverseRecOn with
  | nil => rfl
  | append_singleton log e ih =>
    rw [List.map_append, List.map_singleton, lookup_snoc, lookup_snoc, ih]
    cases e with
    | set k' v => by_cases h : k' = k <;> simp [Event.map, Event.key, Event.value, h]
    | clear k' => by_cases h : k' = k <;> simp [Event.map, Event.key, Event.value, h]

end LinuxLabs.LastWriter
