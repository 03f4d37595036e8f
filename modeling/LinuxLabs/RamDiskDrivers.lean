import LinuxLabs.RamDiskChecks

/-! `sampleblk_request` and `ramhd_make_request` side by side. The block layer takes the requests of
a sampleblk disk off its queue in any number of calls, and hands the bios of a ramhd disk over one
by one. Given the same transfers, in range or not, wrapping or not, the two drivers differ in
nothing but what `rv` is left with inside of one call. -/
namespace LinuxLabs.RamDisk
open ScatterGather

/-- Call after call; `rv` begins with zero in each. -/
def sampleblkCalls (size : UInt64) : Space → List (List Request) → Space × List (List Ended)
  | data, [] => (data, [])
  | data, queue :: calls =>
    let (data, ended) := sampleblkRequest size data queue
    let (data, rest) := sampleblkCalls size data calls
    (data, ended :: rest)

/-- A request directly behind a refused one is refused, too, or has segments. -/
def NoLeftover (size : UInt64) (before rq : Request) : Prop :=
  Refused size before → Refused size rq ∨ rq.segments ≠ []

instance (size : UInt64) (before rq : Request) : Decidable (NoLeftover size before rq) :=
  inferInstanceAs (Decidable (_ → _))

/-- Two drivers have moved the same bytes, and where the second one reports an error the first one
reports the same. -/
structure AsStrict (a b : Ended) : Prop where
  segments : a.segments = b.segments
  error : b.status ≠ 0 → a.status = b.status

lemma ramhdMakeRequest_status (size : UInt64) (data : Space) (rq : Request) :
    (ramhdMakeRequest size data rq).2.status = if Refused size rq then -eio else 0 := by
  rw [ramhdMakeRequest_eq]
  split_ifs with hr
  · rfl
  · rfl

/-- One turn of the loop moves what one bio moves. -/
lemma sampleblkTurn_make (size : UInt64) (rv : Int32) (data : Space) (rq : Request) :
    (sampleblkTurn size rv data rq).2 =
      ((ramhdMakeRequest size data rq).1, (ramhdMakeRequest size data rq).2.segments) := by
  rw [sampleblkTurn_eq, ramhdMakeRequest_eq]
  split_ifs with hr
  · rfl
  · exact (sampleblkSegments_rv _ _ _ _ _).2

/-- A turn ends with the status of the bio, unless an error is left over for a request without
segments. -/
lemma sampleblkTurn_status_iff (size : UInt64) (rv : Int32) (data : Space) (rq : Request) :
    (sampleblkTurn size rv data rq).1 = (ramhdMakeRequest size data rq).2.status ↔
      (rv ≠ 0 → Refused size rq ∨ rq.segments ≠ []) := by
  rw [sampleblkTurn_rv, ramhdMakeRequest_status]
  by_cases hr : Refused size rq
  · simp [hr]
  · by_cases hs : rq.segments = []
    · simp [hr, hs]
    · simp [hr, hs]

lemma sampleblkTurn_asStrict (size : UInt64) (rv : Int32) (data : Space) (rq : Request) :
    AsStrict ⟨(sampleblkTurn size rv data rq).1, (ramhdMakeRequest size data rq).2.segments⟩
      (ramhdMakeRequest size data rq).2 := by
  refine ⟨rfl, fun herr => (sampleblkTurn_status_iff size rv data rq).mpr fun _ => .inl ?_⟩
  rw [ramhdMakeRequest_status] at herr
  by_contra hr
  exact herr (if_neg hr)

lemma sampleblkLoop_cons (size : UInt64) (rv : Int32) (data : Space) (rq : Request)
    (queue : List Request) :
    let out := ramhdMakeRequest size data rq
    let rv' := (sampleblkTurn size rv data rq).1
    sampleblkLoop size rv data (rq :: queue) =
      ((sampleblkLoop size rv' out.1 queue).1,
        ⟨rv', out.2.segments⟩ :: (sampleblkLoop size rv' out.1 queue).2) := by
  intro out rv'
  simp only [sampleblkLoop, sampleblkTurn_make]
  rfl

/-- Whatever `rv` begins with, the device comes out the same and no error is missing. -/
lemma sampleblkLoop_asStrict (size : UInt64) (rv : Int32) (data : Space) (queue : List Request) :
    (sampleblkLoop size rv data queue).1 = (ramhdMakeRequests size data queue).1 ∧
      List.Forall₂ AsStrict (sampleblkLoop size rv data queue).2
        (ramhdMakeRequests size data queue).2 := by
  induction queue generalizing rv data with
  | nil => exact ⟨rfl, .nil⟩
  | cons rq queue ih =>
    rw [sampleblkLoop_cons]
    obtain ⟨hdata, hended⟩ :=
      ih (sampleblkTurn size rv data rq).1 (ramhdMakeRequest size data rq).1
    exact ⟨hdata, List.Forall₂.cons (sampleblkTurn_asStrict size rv data rq) hended⟩

/-- The loop ends all requests as the bios are ended exactly if no error is left over for the first
of them, nor from one for the next. -/
lemma sampleblkLoop_eq_iff (size : UInt64) (rv : Int32) (data : Space) (queue : List Request) :
    (sampleblkLoop size rv data queue).2 = (ramhdMakeRequests size data queue).2 ↔
      (∀ rq ∈ queue.head?, rv ≠ 0 → Refused size rq ∨ rq.segments ≠ []) ∧
        queue.IsChain (NoLeftover size) := by
  induction queue generalizing rv data with
  | nil => simp [sampleblkLoop, ramhdMakeRequests]
  | cons rq queue ih =>
    rw [sampleblkLoop_cons, ramhdMakeRequests, List.isChain_cons]
    simp only [List.cons.injEq, ih, List.head?_cons, Option.mem_some_iff, forall_eq']
    rw [← sampleblkTurn_status_iff size rv data rq]
    have hended (st : Int32) : (⟨st, (ramhdMakeRequest size data rq).2.segments⟩ : Ended) =
        (ramhdMakeRequest size data rq).2 ↔ st = (ramhdMakeRequest size data rq).2.status := by
      rw [Ended.mk.injEq]
      exact and_iff_left rfl
    rw [hended]
    refine and_congr_right fun hstatus => and_congr_left fun _ => ?_
    -- what is left over is an error exactly if the request was refused
    have hrv : (sampleblkTurn size rv data rq).1 ≠ 0 ↔ Refused size rq := by
      rw [hstatus, ramhdMakeRequest_status]
      split_ifs with hr
      · exact iff_of_true (by decide) hr
      · exact iff_of_false (fun h => h rfl) hr
    simp only [hrv, NoLeftover]

lemma ramhdMakeRequests_append (size : UInt64) (data : Space) (bios bios' : List Request) :
    let out := ramhdMakeRequests size data bios
    let out' := ramhdMakeRequests size out.1 bios'
    ramhdMakeRequests size data (bios ++ bios') = (out'.1, out.2 ++ out'.2) := by
  induction bios generalizing data with
  | nil => rfl
  | cons bio bios ih => simp only [List.cons_append, ramhdMakeRequests, ih]

/-- For every size, every data of the device and all requests, in whatever calls they are fetched:
both drivers leave the same device and the same buffers, and each error of `ramhd_make_request` is
an error of `sampleblk_request`. The statuses are the same, too, exactly if in no call a request
without segments that passes the check comes directly behind a refused one. -/
theorem drivers_agree (size : UInt64) (data : Space) (calls : List (List Request)) :
    let s := sampleblkCalls size data calls
    let r := ramhdMakeRequests size data calls.flatten
    s.1 = r.1 ∧ List.Forall₂ AsStrict s.2.flatten r.2 ∧
      (s.2.flatten = r.2 ↔ ∀ queue ∈ calls, queue.IsChain (NoLeftover size)) := by
  induction calls generalizing data with
  | nil => simp [sampleblkCalls, ramhdMakeRequests]
  | cons queue calls ih =>
    obtain ⟨hdata, hended⟩ := sampleblkLoop_asStrict size 0 data queue
    have hiff := sampleblkLoop_eq_iff size 0 data queue
    obtain ⟨hdata', hended', hiff'⟩ := ih (ramhdMakeRequests size data queue).1
    simp only [sampleblkCalls, sampleblkRequest, List.flatten_cons, ramhdMakeRequests_append,
      hdata]
    refine ⟨hdata', List.rel_append hended hended', ?_⟩
    rw [List.forall_mem_cons, ← hiff']
    simp only [ne_eq, not_true_eq_false, false_imp_iff, implies_true, true_and] at hiff
    rw [← hiff]
    constructor
    · intro heq
      exact List.append_inj heq hended.length_eq
    · rintro ⟨hhead, htail⟩
      rw [hhead, htail]

/-- A flush behind a read that leaves a disk of one sector. -/
example : ¬ List.IsChain (NoLeftover 512) [⟨.read, 1, 1, [[0]], rfl⟩, ⟨.write, 0, 0, [], rfl⟩] := by
  decide

end LinuxLabs.RamDisk
