import LinuxLabs.ResourceLedger

/-! The state of a user of the driver: opened and closed in any order and number, with every call
that opening makes free to fail. -/
namespace LinuxLabs.BinderOpen
open EventRun ResourceLedger

/-- What is taken: the structure, a descriptor of the driver, and a mapping of so many bytes. -/
inductive Kind
  | state
  | fd
  | map (size : ℕ)
  deriving DecidableEq, Repr

def binderCurrentProtocolVersion (ipc32Bit : Bool) : Int32 := if ipc32Bit then 7 else 8

/-- The pointer to the structure, and what the structure holds. -/
structure BinderState where
  bs : ℕ
  fd : ℕ
  mapped : ℕ
  mapsize : ℕ

/-- How the calls go: `version` is what the driver answers, if it does. -/
structure Env where
  malloc : Bool
  open_ : Bool
  version : Option Int32
  mmap : Bool
  deriving DecidableEq

def failOpen (bs : ℕ) (l : Ledger Kind) : Option (Ledger Kind) := give .state (some bs) l

def failMap (bs fd : ℕ) (l : Ledger Kind) : Option (Ledger Kind) :=
  (give .fd (some fd) l).bind (failOpen bs)

/-- With another version of the driver the descriptor is not closed. -/
def binderOpen (ipc32Bit : Bool) (env : Env) (mapsize : ℕ) (l : Ledger Kind) :
    Option (Option BinderState × Ledger Kind) :=
  match alloc .state env.malloc l with
  | (none, l) => some (none, l)
  | (some bs, l) =>
    match alloc .fd env.open_ l with
    | (none, l) => (failOpen bs l).map (none, ·)
    | (some fd, l) =>
      if env.version ≠ some (binderCurrentProtocolVersion ipc32Bit) then
        (failOpen bs l).map (none, ·)
      else
        match alloc (.map mapsize) env.mmap l with
        | (none, l) => (failMap bs fd l).map (none, ·)
        | (some mapped, l) => some (some ⟨bs, fd, mapped, mapsize⟩, l)

/-- The structure is read until it is freed. -/
def binderClose : Option BinderState → Ledger Kind → Option (Ledger Kind)
  | none, _ => none
  | some s, l => do
    let l ← touch .state (some s.bs) l
    let l ← give (.map s.mapsize) (some s.mapped) l
    let l ← give .fd (some s.fd) l
    give .state (some s.bs) l

/-- `close n` is for what the call of `binder_open` with this number has returned. -/
inductive Event
  | open_ (env : Env) (mapsize : ℕ)
  | close (n : ℕ)
  deriving DecidableEq

structure Process where
  results : List (Option BinderState)
  ledger : Ledger Kind

def step (ipc32Bit : Bool) (p : Process) : Event → Option Process
  | .open_ env mapsize =>
    (binderOpen ipc32Bit env mapsize p.ledger).map fun (r, l) => ⟨p.results ++ [r], l⟩
  | .close n =>
    (p.results[n]?).bind fun r => (binderClose r p.ledger).map fun l => ⟨p.results, l⟩

/-- The calls of `binder_open` among the events, in order. -/
def opens (es : List Event) : List (Env × ℕ) :=
  es.filterMap fun
    | .open_ env mapsize => some (env, mapsize)
    | .close _ => none

variable (ipc32Bit : Bool)

def Succeeds (env : Env) : Prop :=
  env.malloc = true ∧ env.open_ = true ∧
    env.version = some (binderCurrentProtocolVersion ipc32Bit) ∧ env.mmap = true

/-- The driver is there, and has another version or none to tell. -/
def Differs (env : Env) : Prop :=
  env.malloc = true ∧ env.open_ = true ∧
    env.version ≠ some (binderCurrentProtocolVersion ipc32Bit)

instance (env : Env) : Decidable (Succeeds ipc32Bit env) := inferInstanceAs (Decidable (_ ∧ _))

instance (env : Env) : Decidable (Differs ipc32Bit env) := inferInstanceAs (Decidable (_ ∧ _))

/-- The state with this number was opened, and has not been closed since. -/
def IsOpen (es : List Event) (n : ℕ) : Prop :=
  (∃ o ∈ (opens es)[n]?, Succeeds ipc32Bit o.1) ∧ Event.close n ∉ es

instance (es : List Event) (n : ℕ) : Decidable (IsOpen ipc32Bit es n) :=
  inferInstanceAs (Decidable (_ ∧ _))

/-- Only what is open may be closed. -/
def Legal (es : List Event) : Event → Prop
  | .open_ _ _ => True
  | .close n => IsOpen ipc32Bit es n

/-- What an open state owns. -/
def BinderState.owns (s : BinderState) : Multiset (Kind × ℕ) :=
  (.map s.mapsize, s.mapped) ::ₘ (.fd, s.fd) ::ₘ {(.state, s.bs)}

def held (es : List Event) (p : Process) (n : ℕ) : Multiset (Kind × ℕ) :=
  if IsOpen ipc32Bit es n then p.results[n]?.join.elim 0 BinderState.owns else 0

/-- What a call of `binder_open` loses: the descriptor of a driver with another version. -/
def dropped (env : Env) (l : Ledger Kind) : Multiset (Kind × ℕ) :=
  if Differs ipc32Bit env then {(.fd, l.next + 1)} else 0

lemma dropped_kind {env : Env} {l : Ledger Kind} {x : Kind × ℕ} (h : x ∈ dropped ipc32Bit env l) :
    x.1 = .fd := by
  unfold dropped at h
  split_ifs at h
  · rw [Multiset.mem_singleton.mp h]
  · cases h

lemma dropped_card (env : Env) (l : Ledger Kind) :
    (dropped ipc32Bit env l).card = if Differs ipc32Bit env then 1 else 0 := by
  unfold dropped
  split_ifs
  · rfl
  · rfl

/-- Opening gives a state exactly if nothing fails, and what it takes is owned by that state or
lost. -/
lemma binderOpen_spec {l : Ledger Kind} (hl : l.Tidy) (env : Env) (mapsize : ℕ) :
    ∃ r l', binderOpen ipc32Bit env mapsize l = some (r, l') ∧ l'.Tidy ∧ l.next ≤ l'.next ∧
      r.isSome = decide (Succeeds ipc32Bit env) ∧
      (∀ s ∈ r, l.next ≤ s.bs ∧ s.bs < l'.next) ∧
      l'.live = r.elim 0 BinderState.owns + (dropped ipc32Bit env l + l.live) := by
  obtain ⟨malloc, open_, version, mmap⟩ := env
  unfold dropped
  have hgone : ∀ k, l.next ≤ k → (⟨l.live, k⟩ : Ledger Kind).Tidy := fun k hk => hl.mono le_rfl hk
  cases malloc with
  | false =>
    exact ⟨none, l, rfl, hl, le_rfl, by simp [Succeeds], by simp, by simp [Differs]⟩
  | true =>
    cases open_ with
    | false =>
      refine ⟨none, ⟨l.live, l.next + 1⟩, ?_, hgone _ (by simp), by simp, by simp [Succeeds],
        by simp, by simp [Differs]⟩
      simp only [binderOpen, alloc_true, alloc_false, failOpen, give_head, Option.map_some]
    | true =>
      by_cases hversion : version = some (binderCurrentProtocolVersion ipc32Bit)
      · subst hversion
        cases mmap with
        | false =>
          refine ⟨none, ⟨l.live, l.next + 2⟩, ?_, hgone _ (by simp), by simp, by simp [Succeeds],
            by simp, by simp [Differs]⟩
          simp only [binderOpen, alloc_true, alloc_false, ne_eq, not_true_eq_false, if_false,
            failMap, give_head, Option.bind_some, failOpen, Option.map_some]
        | true =>
          refine ⟨some ⟨l.next, l.next + 1, l.next + 2, mapsize⟩, _, ?_,
            ((hl.cons .state).cons .fd).cons (.map mapsize), by simp; omega, by simp [Succeeds],
            by simp; omega, ?_⟩
          · simp only [binderOpen, alloc_true, ne_eq, not_true_eq_false, if_false]
          · simp [Differs, BinderState.owns]
      · refine ⟨none, _, ?_, (hgone (l.next + 1) (by simp)).cons .fd, by simp; omega,
          by simp [Succeeds, hversion], by simp, ?_⟩
        · have hswap : (Kind.fd, l.next + 1) ::ₘ (Kind.state, l.next) ::ₘ l.live =
              (Kind.state, l.next) ::ₘ (Kind.fd, l.next + 1) ::ₘ l.live := Multiset.cons_swap _ _ _
          simp only [binderOpen, alloc_true, ne_eq, hversion, not_false_eq_true, if_true, failOpen,
            hswap, give_head, Option.map_some]
        · simp [Differs, hversion]

/-- Closing gives back all that the state owns. -/
lemma binderClose_owns (s : BinderState) {l : Ledger Kind} {rest : Multiset (Kind × ℕ)}
    (h : l.live = s.owns + rest) : binderClose (some s) l = some ⟨rest, l.next⟩ := by
  have hlive : l.live = (.map s.mapsize, s.mapped) ::ₘ (.fd, s.fd) ::ₘ (.state, s.bs) ::ₘ rest := by
    rw [h, BinderState.owns, Multiset.cons_add, Multiset.cons_add, Multiset.singleton_add]
  have hread : touch .state (some s.bs) l = some l := touch_live (by simp [hlive])
  simp only [binderClose, hread, give_cons hlive, give_head, Option.bind_eq_bind, Option.bind_some]

/-- What holds of a process after these events. -/
structure Tracks (p : Process) (es : List Event) : Prop where
  results : p.results.map Option.isSome =
    (opens es).map fun o => decide (Succeeds ipc32Bit o.1)
  closes : ∀ n, .close n ∈ es → n < (opens es).length
  tidy : p.ledger.Tidy
  named : ∀ (n : ℕ) (s : BinderState), p.results[n]? = some (some s) → s.bs < p.ledger.next
  gone : ∀ (n : ℕ) (s : BinderState), p.results[n]? = some (some s) → .close n ∈ es →
    (.state, s.bs) ∉ p.ledger.live
  live : ∃ lost, p.ledger.live =
      ∑ n ∈ Finset.range (opens es).length, held ipc32Bit es p n + lost ∧
    (∀ x ∈ lost, x.1 = .fd) ∧ lost.card = (opens es).countP fun o => Differs ipc32Bit o.1

lemma tracks_init : Tracks ipc32Bit ⟨[], ⟨0, 0⟩⟩ [] :=
  ⟨rfl, by simp, tidy_empty 0, by simp, by simp, 0, by simp [opens], by simp, rfl⟩

lemma opens_snoc_open (es : List Event) (env : Env) (mapsize : ℕ) :
    opens (es ++ [Event.open_ env mapsize]) = opens es ++ [(env, mapsize)] := by
  simp [opens]

lemma opens_snoc_close (es : List Event) (n : ℕ) : opens (es ++ [Event.close n]) = opens es := by
  simp [opens]

section Step
variable {ipc32Bit} {p : Process} {es : List Event}

lemma Tracks.length (h : Tracks ipc32Bit p es) : p.results.length = (opens es).length := by
  simpa using congrArg List.length h.results

lemma Tracks.result (h : Tracks ipc32Bit p es) (n : ℕ) :
    (p.results[n]?).map Option.isSome =
      ((opens es)[n]?).map fun o => decide (Succeeds ipc32Bit o.1) := by
  rw [← List.getElem?_map, ← List.getElem?_map, h.results]

/-- The state with a number is there if it was opened. -/
lemma Tracks.state (h : Tracks ipc32Bit p es) {n : ℕ} (hopen : IsOpen ipc32Bit es n) :
    ∃ s, p.results[n]? = some (some s) := by
  obtain ⟨⟨o, ho, hsucceeds⟩, -⟩ := hopen
  have hresult := h.result n
  rw [show (opens es)[n]? = some o from ho, Option.map_some, decide_eq_true hsucceeds,
    Option.map_eq_some_iff] at hresult
  obtain ⟨r, hr, hsome⟩ := hresult
  obtain ⟨s, rfl⟩ := Option.isSome_iff_exists.mp hsome
  exact ⟨s, hr⟩

/-- The calls before stay as open as they were, and the new one is open if it succeeds. -/
lemma Tracks.isOpen_open (h : Tracks ipc32Bit p es) (env : Env) (mapsize n : ℕ) :
    IsOpen ipc32Bit (es ++ [Event.open_ env mapsize]) n ↔
      IsOpen ipc32Bit es n ∨ n = (opens es).length ∧ Succeeds ipc32Bit env := by
  have hnew : Event.close n ∉ es ∨ n < (opens es).length := by
    by_cases hmem : Event.close n ∈ es
    · exact .inr (h.closes n hmem)
    · exact .inl hmem
  unfold IsOpen
  rw [opens_snoc_open, List.mem_append, List.mem_singleton]
  rcases lt_trichotomy n (opens es).length with hlt | rfl | hgt
  · simp [List.getElem?_append_left hlt, hlt.ne]
  · simpa using fun _ => hnew
  · have hout : (opens es ++ [(env, mapsize)])[n]? = none := by
      rw [List.getElem?_eq_none_iff, List.length_append, List.length_singleton]
      omega
    have hout' : (opens es)[n]? = none := List.getElem?_eq_none_iff.mpr hgt.le
    simp [hout, hout', hgt.ne']

lemma isOpen_close (es : List Event) (n m : ℕ) :
    IsOpen ipc32Bit (es ++ [Event.close n]) m ↔ IsOpen ipc32Bit es m ∧ m ≠ n := by
  unfold IsOpen
  rw [opens_snoc_close, List.mem_append, List.mem_singleton, Event.close.injEq, not_or, and_assoc]

lemma Tracks.open_step (h : Tracks ipc32Bit p es) (env : Env) (mapsize : ℕ) :
    ∃ p', step ipc32Bit p (.open_ env mapsize) = some p' ∧
      Tracks ipc32Bit p' (es ++ [Event.open_ env mapsize]) := by
  obtain ⟨r, l', hopen, htidy, hnext, hsome, hbs, hlive⟩ :=
    binderOpen_spec ipc32Bit h.tidy env mapsize
  have hnth : ∀ (n : ℕ) (s : BinderState), (p.results ++ [r])[n]? = some (some s) →
      p.results[n]? = some (some s) ∨ n = (opens es).length ∧ r = some s := by
    intro n s hs
    rw [List.getElem?_append] at hs
    split_ifs at hs with hlt
    · exact .inl hs
    · rw [List.getElem?_singleton] at hs
      split_ifs at hs with h0
      · exact .inr ⟨by rw [← h.length]; omega, Option.some.inj hs⟩
  refine ⟨⟨p.results ++ [r], l'⟩, by simp [step, hopen], ⟨?_, ?_, htidy, ?_, ?_, ?_⟩⟩
  · rw [opens_snoc_open, List.map_append, List.map_append, h.results]
    simp [hsome]
  · intro n hn
    rw [List.mem_append, List.mem_singleton] at hn
    have hlt := h.closes n (by simpa using hn)
    rw [opens_snoc_open, List.length_append]
    exact hlt.trans (Nat.lt_succ_self _)
  · intro n s hs
    rcases hnth n s hs with hs | ⟨-, rfl⟩
    · exact (h.named n s hs).trans_le hnext
    · exact (hbs s rfl).2
  · intro n s hs hn hmem
    rw [List.mem_append, List.mem_singleton] at hn
    have hn : Event.close n ∈ es := by simpa using hn
    rcases hnth n s hs with hold | ⟨rfl, -⟩
    · rw [hlive, Multiset.mem_add, Multiset.mem_add] at hmem
      rcases hmem with hmem | hmem | hmem
      · cases r with
        | none => cases hmem
        | some s' =>
          have hbs' : s.bs = s'.bs := by simpa [BinderState.owns] using hmem
          exact absurd (h.named n s hold) (not_lt.mpr (hbs' ▸ (hbs s' rfl).1))
      · exact absurd (dropped_kind ipc32Bit hmem) (by simp)
      · exact h.gone n s hold hn hmem
    · exact (h.closes _ hn).ne rfl
  · obtain ⟨lost, hl, hkind, hcard⟩ := h.live
    have hold : ∀ n ∈ Finset.range (opens es).length,
        held ipc32Bit (es ++ [Event.open_ env mapsize]) ⟨p.results ++ [r], l'⟩ n =
          held ipc32Bit es p n := by
      intro n hn
      have hlt := Finset.mem_range.mp hn
      simp only [held, h.isOpen_open, hlt.ne, false_and, or_false,
        List.getElem?_append_left (h.length ▸ hlt)]
    have hnew : held ipc32Bit (es ++ [Event.open_ env mapsize]) ⟨p.results ++ [r], l'⟩
        (opens es).length = r.elim 0 BinderState.owns := by
      have hiff : IsOpen ipc32Bit (es ++ [Event.open_ env mapsize]) (opens es).length ↔
          Succeeds ipc32Bit env := by
        rw [h.isOpen_open]
        simp [IsOpen]
      have hlast : (p.results ++ [r])[(opens es).length]? = some r := by
        rw [← h.length, List.getElem?_concat_length]
      simp only [held, hiff, hlast, Option.join_some]
      split_ifs with hsucceeds
      · rfl
      · rw [decide_eq_false hsucceeds, Option.isSome_eq_false_iff, Option.isNone_iff_eq_none]
          at hsome
        rw [hsome]
        rfl
    refine ⟨dropped ipc32Bit env p.ledger + lost, ?_, fun x hx => ?_, ?_⟩
    · rw [opens_snoc_open, List.length_append, List.length_singleton, Finset.sum_range_succ,
        Finset.sum_congr rfl hold, hnew, hlive, hl]
      abel
    · rcases Multiset.mem_add.mp hx with hx | hx
      · exact dropped_kind ipc32Bit hx
      · exact hkind x hx
    · rw [Multiset.card_add, dropped_card, hcard, opens_snoc_open, List.countP_append,
        List.countP_singleton, Nat.add_comm]
      simp

lemma Tracks.close_step (h : Tracks ipc32Bit p es) {n : ℕ} (hopen : IsOpen ipc32Bit es n) :
    ∃ p', step ipc32Bit p (.close n) = some p' ∧ Tracks ipc32Bit p' (es ++ [Event.close n]) := by
  obtain ⟨s, hs⟩ := h.state hopen
  obtain ⟨lost, hl, hkind, hcard⟩ := h.live
  have hlt : n < (opens es).length := by
    rw [← h.length]
    exact (List.getElem?_eq_some_iff.mp hs).1
  let rest := ∑ m ∈ (Finset.range (opens es).length).erase n, held ipc32Bit es p m + lost
  have hown : held ipc32Bit es p n = s.owns := by
    rw [held, if_pos hopen, hs]
    rfl
  have hlive : p.ledger.live = s.owns + rest := by
    rw [hl, ← Finset.add_sum_erase _ _ (Finset.mem_range.mpr hlt), hown, add_assoc]
  have hle : rest ≤ p.ledger.live := hlive ▸ Multiset.le_add_left _ _
  refine ⟨⟨p.results, ⟨rest, p.ledger.next⟩⟩, ?_, ⟨?_, ?_, h.tidy.mono hle le_rfl, h.named, ?_, ?_⟩⟩
  · simp [step, hs, binderClose_owns s hlive]
  · rw [opens_snoc_close, h.results]
  · intro m hm
    rw [opens_snoc_close]
    rcases List.mem_append.mp hm with hm | hm
    · exact h.closes m hm
    · obtain rfl : m = n := by simpa using hm
      exact hlt
  · intro m s' hs' hm hmem
    rcases List.mem_append.mp hm with hm | hm
    · exact h.gone m s' hs' hm (Multiset.mem_of_le hle hmem)
    · obtain rfl : m = n := by simpa using hm
      obtain rfl : s' = s := by simpa using hs'.symm.trans hs
      have hdisj := (Multiset.nodup_add.mp (hlive ▸ h.tidy.nodup)).2.2
      exact Multiset.disjoint_left.mp hdisj (by simp [BinderState.owns]) hmem
  · refine ⟨lost, ?_, hkind, by rw [opens_snoc_close, hcard]⟩
    rw [opens_snoc_close, ← Finset.add_sum_erase _ _ (Finset.mem_range.mpr hlt)]
    have hclosed : held ipc32Bit (es ++ [Event.close n]) ⟨p.results, ⟨rest, p.ledger.next⟩⟩ n = 0 :=
      if_neg fun hopen' => ((isOpen_close es n n).mp hopen').2 rfl
    have hothers : ∀ m ∈ (Finset.range (opens es).length).erase n,
        held ipc32Bit (es ++ [Event.close n]) ⟨p.results, ⟨rest, p.ledger.next⟩⟩ m =
          held ipc32Bit es p m := by
      intro m hm
      have hne := Finset.ne_of_mem_erase hm
      simp only [held, isOpen_close, ne_eq, hne, not_false_eq_true, and_true]
    rw [hclosed, zero_add, Finset.sum_congr rfl hothers]

/-- What is not open cannot be closed: there is no pointer, or the structure behind it is freed. -/
lemma Tracks.close_illegal (h : Tracks ipc32Bit p es) {n : ℕ} (hno : ¬ IsOpen ipc32Bit es n) :
    step ipc32Bit p (.close n) = none := by
  cases hr : p.results[n]? with
  | none => simp [step, hr]
  | some r =>
    cases r with
    | none => simp [step, hr, binderClose]
    | some s =>
      have hresult := h.result n
      rw [hr, Option.map_some, Option.isSome_some] at hresult
      obtain ⟨o, ho, hsucceeds⟩ := Option.map_eq_some_iff.mp hresult.symm
      have hclosed : Event.close n ∈ es := by
        by_contra hmem
        exact hno ⟨⟨o, ho, of_decide_eq_true hsucceeds⟩, hmem⟩
      simp [step, hr, binderClose, touch_dead (h.gone n s hr hclosed)]

end Step

/-- Every sequence of calls, with whatever can be had. It runs without a fault exactly if only what
is open is closed. What is allocated then is what the open states own, and one descriptor for each
call that has found another version of the driver. -/
theorem binder_sessions (es : List Event) :
    ((es.foldlM (step ipc32Bit) ⟨[], ⟨0, 0⟩⟩).isSome ↔
      ∀ pre e, pre ++ [e] <+: es → Legal ipc32Bit pre e) ∧
      ∀ p, es.foldlM (step ipc32Bit) ⟨[], ⟨0, 0⟩⟩ = some p → ∃ lost, p.ledger.live =
          ∑ n ∈ Finset.range (opens es).length, held ipc32Bit es p n + lost ∧
        (∀ x ∈ lost, x.1 = .fd) ∧
        lost.card = (opens es).countP fun o => Differs ipc32Bit o.1 := by
  have hgood : ∀ p es e, Tracks ipc32Bit p es → Legal ipc32Bit es e →
      ∃ p', step ipc32Bit p e = some p' ∧ Tracks ipc32Bit p' (es ++ [e]) := by
    intro p es e h hlegal
    cases e with
    | open_ env mapsize => exact h.open_step env mapsize
    | close n => exact h.close_step hlegal
  have hbad : ∀ p es e, Tracks ipc32Bit p es → ¬ Legal ipc32Bit es e →
      step ipc32Bit p e = none := by
    intro p es e h hno
    cases e with
    | open_ env mapsize => exact absurd trivial hno
    | close n => exact h.close_illegal hno
  obtain ⟨hiff, htracks⟩ := foldlM_iff_along hgood hbad (tracks_init ipc32Bit) es
  exact ⟨hiff, fun p hp => (htracks p hp).live⟩

end LinuxLabs.BinderOpen
