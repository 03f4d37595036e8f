import Mathlib

/-! Machines driven by events. A run is a fold over a list of events; the history of a run is
the list of what an observer notes down on the way, in order. -/
namespace LinuxLabs.EventRun

structure Machine (S E O : Type*) where
  apply : S → E → S
  observe : S → E → List O

variable {S E O : Type*} (M : Machine S E O)

def Machine.run (s : S) (es : List E) : S := es.foldl M.apply s

def Machine.history (M : Machine S E O) (s : S) : List E → List O
  | [] => []
  | e :: es => M.observe s e ++ Machine.history M (M.apply s e) es

@[simp] theorem Machine.run_nil (s : S) : M.run s [] = s := rfl

@[simp] theorem Machine.run_cons (s : S) (e : E) (es : List E) :
    M.run s (e :: es) = M.run (M.apply s e) es := rfl

theorem Machine.run_append (s : S) (es fs : List E) :
    M.run s (es ++ fs) = M.run (M.run s es) fs := List.foldl_append

theorem Machine.history_append (s : S) (es fs : List E) :
    M.history s (es ++ fs) = M.history s es ++ M.history (M.run s es) fs := by
  induction es generalizing s with
  | nil => rfl
  | cons e es ih => simp [Machine.history, ih, List.append_assoc]

/-- What every event preserves, every run preserves. -/
theorem Machine.run_invariant {P : S → Prop} (hstep : ∀ s e, P s → P (M.apply s e))
    {s : S} (h : P s) (es : List E) : P (M.run s es) := by
  induction es generalizing s with
  | nil => exact h
  | cons e es ih => exact ih (hstep s e h)

/-- What every event preserves under a condition on the state it occurs in, every run preserves
whose events all meet the condition. -/
theorem Machine.run_invariant_of {P : S → Prop} {C : S → E → Prop}
    (hstep : ∀ s e, C s e → P s → P (M.apply s e)) {s : S} (h : P s) (es : List E)
    (hc : ∀ pre e, pre ++ [e] <+: es → C (M.run s pre) e) : P (M.run s es) := by
  induction es generalizing s with
  | nil => exact h
  | cons e es ih =>
    have hhead : C s e := hc [] e (by simp)
    exact ih (hstep s e hhead h) fun pre e' hp => hc (e :: pre) e' (by simpa using hp)

/-- Every event of a run meets a condition on the state it occurs in, checked from front to
back. -/
def Machine.Along (M : Machine S E O) (C : S → E → Prop) (s : S) : List E → Prop
  | [] => True
  | e :: es => C s e ∧ Machine.Along M C (M.apply s e) es

instance Machine.decidableAlong (C : S → E → Prop) [∀ s e, Decidable (C s e)] (s : S) :
    (es : List E) → Decidable (M.Along C s es)
  | [] => .isTrue trivial
  | e :: es =>
    letI := Machine.decidableAlong C (M.apply s e) es
    inferInstanceAs (Decidable (C s e ∧ M.Along C (M.apply s e) es))

/-- What holds at every event of a list holds at the first one, and at every event of the rest. -/
theorem forall_snoc_prefix_cons {Q : List E → E → Prop} {e : E} {es : List E} :
    (∀ pre e', pre ++ [e'] <+: e :: es → Q pre e') ↔
      Q [] e ∧ ∀ pre e', pre ++ [e'] <+: es → Q (e :: pre) e' := by
  constructor
  · intro h
    exact ⟨h [] e (by simp), fun pre e' hp => h (e :: pre) e' (by simpa using hp)⟩
  · rintro ⟨hhead, htail⟩ pre e' hp
    cases pre with
    | nil =>
      obtain rfl : e' = e := by simpa using hp
      exact hhead
    | cons e₀ pre =>
      rw [List.cons_append, List.cons_prefix_cons] at hp
      obtain ⟨rfl, hp⟩ := hp
      exact htail pre e' hp

/-- What holds at every event of a list holds at those before the last one, and at the last. -/
theorem forall_snoc_prefix_snoc {Q : List E → E → Prop} {e : E} {es : List E} :
    (∀ pre e', pre ++ [e'] <+: es ++ [e] → Q pre e') ↔
      (∀ pre e', pre ++ [e'] <+: es → Q pre e') ∧ Q es e := by
  constructor
  · intro h
    exact ⟨fun pre e' hp => h pre e' (hp.trans (List.prefix_append es [e])), h es e List.prefix_rfl⟩
  · rintro ⟨hbefore, hlast⟩ pre e' hp
    rcases List.prefix_concat_iff.mp hp with heq | hp
    · obtain ⟨rfl, he⟩ := List.append_inj' heq rfl
      rw [List.singleton_inj.mp he]
      exact hlast
    · exact hbefore pre e' hp

theorem Machine.along_iff {C : S → E → Prop} {s : S} {es : List E} :
    M.Along C s es ↔ ∀ pre e, pre ++ [e] <+: es → C (M.run s pre) e := by
  induction es generalizing s with
  | nil => simp [Machine.Along]
  | cons e es ih =>
    rw [Machine.Along, ih, forall_snoc_prefix_cons]
    rfl

/-- What holds in every state of a run holds at its start and after every event. -/
theorem Machine.forall_prefix_iff {Q : S → Prop} {s : S} {es : List E} :
    (∀ pre, pre <+: es → Q (M.run s pre)) ↔ Q s ∧ M.Along (fun s e => Q (M.apply s e)) s es := by
  induction es generalizing s with
  | nil => simp [Machine.Along]
  | cons e es ih =>
    rw [Machine.Along, ← ih]
    constructor
    · intro h
      exact ⟨h [] (by simp), fun pre hp => h (e :: pre) (by simpa using hp)⟩
    · rintro ⟨h0, htail⟩ pre hp
      cases pre with
      | nil => exact h0
      | cons e₀ pre =>
        rw [List.cons_prefix_cons] at hp
        obtain ⟨rfl, hp⟩ := hp
        exact htail pre hp

theorem Machine.along_append {C : S → E → Prop} {s : S} {es fs : List E} :
    M.Along C s (es ++ fs) ↔ M.Along C s es ∧ M.Along C (M.run s es) fs := by
  induction es generalizing s with
  | nil => simp [Machine.Along]
  | cons e es ih =>
    rw [List.cons_append, Machine.Along, ih, Machine.Along, and_assoc]
    rfl

theorem Machine.along_and {C D : S → E → Prop} {s : S} {es : List E} :
    M.Along (fun s e => C s e ∧ D s e) s es ↔ M.Along C s es ∧ M.Along D s es := by
  induction es generalizing s with
  | nil => simp [Machine.Along]
  | cons e es ih =>
    rw [Machine.Along, Machine.Along, Machine.Along, ih]
    exact and_and_and_comm

/-- Two conditions that agree on the states of an invariant, one of them enough to keep it, hold
along the same runs. -/
theorem Machine.along_congr {P : S → Prop} {C D : S → E → Prop} {es : List E}
    (hiff : ∀ s, ∀ e ∈ es, P s → (C s e ↔ D s e))
    (hstep : ∀ s, ∀ e ∈ es, P s → D s e → P (M.apply s e)) {s : S} (h : P s) :
    M.Along C s es ↔ M.Along D s es := by
  induction es generalizing s with
  | nil => rfl
  | cons e es ih =>
    rw [Machine.Along, Machine.Along, hiff s e (by simp) h]
    refine and_congr_right fun hd => ?_
    exact ih (fun s e he => hiff s e (by simp [he])) (fun s e he => hstep s e (by simp [he]))
      (hstep s e (by simp) h hd)

/-- The simulation rule: a relation between states and histories that holds at the start and
is kept by every event holds at the end of every run. -/
theorem Machine.run_history {R : S → List O → Prop}
    (hstep : ∀ s h e, R s h → R (M.apply s e) (h ++ M.observe s e)) {s : S} {h : List O}
    (h0 : R s h) (es : List E) : R (M.run s es) (h ++ M.history s es) := by
  induction es generalizing s h with
  | nil => simpa [Machine.history] using h0
  | cons e es ih =>
    have := ih (hstep s h e h0)
    simpa [Machine.history, List.append_assoc] using this

/-- The same rule for runs all of whose events meet a condition on the state they occur in. -/
theorem Machine.run_history_of {R : S → List O → Prop} {C : S → E → Prop}
    (hstep : ∀ s h e, C s e → R s h → R (M.apply s e) (h ++ M.observe s e)) {s : S} {h : List O}
    (h0 : R s h) (es : List E) (hc : ∀ pre e, pre ++ [e] <+: es → C (M.run s pre) e) :
    R (M.run s es) (h ++ M.history s es) := by
  induction es generalizing s h with
  | nil => simpa [Machine.history] using h0
  | cons e es ih =>
    have hhead : C s e := hc [] e (by simp)
    have htail := ih (hstep s h e hhead h0) fun pre e' hp => hc (e :: pre) e' (by simpa using hp)
    simpa [Machine.history, List.append_assoc] using htail

section Fallible
variable {C A F : Type*}

/-- A run of a program that answers an event or comes to nothing, with all its answers. -/
def runAll (step : S → E → Option (O × S)) : S → List E → Option (List O × S)
  | s, [] => some ([], s)
  | s, e :: es =>
    (step s e).bind fun (o, s) => (runAll step s es).map fun (os, s) => (o :: os, s)

/-- Both come to nothing, or both answer the same and related states are left. -/
def Agree (R : C → A → Prop) : Option (O × C) → Option (O × A) → Prop :=
  Option.Rel fun x y => x.1 = y.1 ∧ R x.2 y.2

/-- The simulation rule for two programs, where an event of the second one is an event of the first
one and something more. -/
theorem runAll_agree {R : C → A → Prop} {label : F → E} {cstep : C → E → Option (O × C)}
    {astep : A → F → Option (O × A)}
    (hstep : ∀ c a e, R c a → ∃ f, label f = e ∧ Agree R (cstep c e) (astep a f)) {c : C} {a : A}
    (h : R c a) (es : List E) :
    ∃ fs : List F, fs.map label = es ∧ Agree R (runAll cstep c es) (runAll astep a fs) := by
  induction es generalizing c a with
  | nil => exact ⟨[], rfl, .some ⟨rfl, h⟩⟩
  | cons e es ih =>
    obtain ⟨f, rfl, hf⟩ := hstep c a e h
    generalize hc : cstep c (label f) = x at hf
    generalize ha : astep a f = y at hf
    cases hf with
    | none =>
      -- the rest of the run is not reached
      obtain ⟨fs, rfl, -⟩ := ih h
      refine ⟨f :: fs, rfl, ?_⟩
      simp only [runAll, hc, ha]
      exact .none
    | @some x y hxy =>
      obtain ⟨fs, rfl, hfs⟩ := ih hxy.2
      refine ⟨f :: fs, rfl, ?_⟩
      simp only [runAll, hc, ha, Option.bind_some, hxy.1]
      generalize runAll cstep x.2 (fs.map label) = x' at hfs
      generalize runAll astep y.2 fs = y' at hfs
      cases hfs with
      | none => exact .none
      | some hrest => exact .some ⟨by simp [hrest.1], hrest.2⟩

/-- The rule for a step that comes to nothing exactly where the event, after those before it, breaks
a condition: a run ends if all its events keep it, and a relation between states and the events so
far holds at its end. -/
theorem foldlM_iff_along {R : S → List E → Prop} {C : List E → E → Prop} {step : S → E → Option S}
    (hgood : ∀ s es e, R s es → C es e → ∃ s', step s e = some s' ∧ R s' (es ++ [e]))
    (hbad : ∀ s es e, R s es → ¬ C es e → step s e = none) {s : S} (h : R s []) (es : List E) :
    ((es.foldlM step s).isSome ↔ ∀ pre e, pre ++ [e] <+: es → C pre e) ∧
      ∀ s', es.foldlM step s = some s' → R s' es := by
  induction es using List.reverseRecOn with
  | nil =>
    refine ⟨by simp, ?_⟩
    rintro s' ⟨⟩
    exact h
  | append_singleton es e ih =>
    obtain ⟨hiff, hkept⟩ := ih
    rw [List.foldlM_append, forall_snoc_prefix_snoc, ← hiff]
    cases hrun : es.foldlM step s with
    | none => simp
    | some s₁ =>
      have hlast : (List.foldlM step s₁ [e] : Option S) = step s₁ e := by
        cases hstep : step s₁ e with
        | none => simp [hstep]
        | some s₂ => simp [hstep]
      simp only [Option.bind_eq_bind, Option.bind_some, hlast, Option.isSome_some, true_and]
      by_cases he : C es e
      · obtain ⟨s₂, hstep, hR⟩ := hgood s₁ es e (hkept s₁ hrun) he
        rw [hstep]
        refine ⟨by simp [he], ?_⟩
        rintro s' ⟨⟩
        exact hR
      · rw [hbad s₁ es e (hkept s₁ hrun) he]
        simp [he]

theorem forall_snoc_prefix_const {C : E → Prop} {es : List E} :
    (∀ pre e, pre ++ [e] <+: es → C e) ↔ ∀ e ∈ es, C e := by
  constructor
  · intro h e he
    obtain ⟨pre, post, rfl⟩ := List.mem_iff_append.mp he
    exact h pre e ⟨post, by simp⟩
  · intro h pre e hp
    exact h e (hp.subset (by simp))

/-- The same for a condition on the event alone. -/
theorem foldlM_iff {R : S → List E → Prop} {C : E → Prop} {step : S → E → Option S}
    (hgood : ∀ s es e, R s es → C e → ∃ s', step s e = some s' ∧ R s' (es ++ [e]))
    (hbad : ∀ s es e, R s es → ¬ C e → step s e = none) {s : S} (h : R s []) (es : List E) :
    ((es.foldlM step s).isSome ↔ ∀ e ∈ es, C e) ∧ ∀ s', es.foldlM step s = some s' → R s' es := by
  rw [← forall_snoc_prefix_const]
  exact foldlM_iff_along (C := fun _ => C) hgood hbad h es

end Fallible

end LinuxLabs.EventRun
