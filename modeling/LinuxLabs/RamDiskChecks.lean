import LinuxLabs.EventRun
import LinuxLabs.RamDisk

/-! The range checks of the RAM disks. Positions are computed modulo `2^64` before they are compared
with the size, so that a request far behind the device can come back into it; and a request
without segments is ended with what the requests before it have left in `rv`. -/
namespace LinuxLabs.RamDisk
open ScatterGather EventRun

/-- The check on the range, as both drivers compute it, refuses the request. -/
def Refused (size : UInt64) (rq : Request) : Prop :=
  size < rq.sector * 512 + rq.bytes.toUInt64

instance (size : UInt64) (rq : Request) : Decidable (Refused size rq) :=
  inferInstanceAs (Decidable (_ < _))

/-- What a request comes to. With status zero it lies inside the device. A request that does is
transferred: a write changes the bytes from `512 * sector` on, as many as its buffers hold, and no
others, a read fills its buffers with these bytes. One that does not is ended with an error and
nothing is changed. -/
structure Sound (size : UInt64) (rq : Request) (data data' : Space) (ended : Ended) : Prop where
  accepted : ended.status = 0 → InRange size rq
  copied : InRange size rq → data' = (plainStep data rq.transfer).1 ∧
    ended.segments.flatten = (plainStep data rq.transfer).2
  cut : ended.segments.map List.length = rq.segments.map List.length
  refused : ¬ InRange size rq →
    ended.status = -eio ∧ data' = data ∧ ended.segments = rq.segments

/-- The request leaves the device, but what is left of its end modulo `2^64` does not. -/
def Wraps (size : UInt64) (rq : Request) : Prop :=
  size.toNat < 512 * rq.sector.toNat + rq.bytes.toNat ∧
    (512 * rq.sector.toNat + rq.bytes.toNat) % 2^64 ≤ size.toNat

instance (size : UInt64) (rq : Request) : Decidable (Wraps size rq) :=
  inferInstanceAs (Decidable (_ ∧ _))

lemma refused_iff (size : UInt64) (rq : Request) :
    Refused size rq ↔ size.toNat < (512 * rq.sector.toNat + rq.bytes.toNat) % 2^64 := by
  have hmul : (512 : UInt64).toNat = 512 := rfl
  rw [Refused, UInt64.lt_iff_toNat_lt, UInt64.toNat_add, UInt64.toNat_mul, hmul,
    UInt32.toNat_toUInt64, Nat.mul_comm rq.sector.toNat, Nat.mod_add_mod]

lemma wraps_iff (size : UInt64) (rq : Request) :
    Wraps size rq ↔ ¬ InRange size rq ∧ ¬ Refused size rq := by
  rw [Wraps, InRange, refused_iff, Nat.not_le, Nat.not_lt]

lemma InRange.not_refused {size : UInt64} {rq : Request} (h : InRange size rq) :
    ¬ Refused size rq := h.checked

lemma sound_of_refused {size : UInt64} {rq : Request} (h : Refused size rq) (data : Space) :
    Sound size rq data data ⟨-eio, rq.segments⟩ := by
  have hne : ¬ -eio = 0 := by decide
  exact ⟨fun h0 => absurd h0 hne, fun hin => absurd h hin.not_refused, rfl,
    fun _ => ⟨rfl, rfl, rfl⟩⟩

lemma sound_of_copied {size : UInt64} {rq : Request} (h : InRange size rq) (data : Space)
    (status : Int32) :
    Sound size rq data (copySegments rq.dir data (rq.sector * 512) rq.segments).1
      ⟨status, (copySegments rq.dir data (rq.sector * 512) rq.segments).2⟩ := by
  obtain ⟨hdata, hflat, hcut⟩ := h.copies data
  exact ⟨fun _ => h, fun _ => ⟨hdata, hflat⟩, hcut, fun hn => absurd h hn⟩

section Sampleblk

/-- The loop as a machine: the return value and the data running along, and the requests ended on
the way. -/
def sampleblkMachine (size : UInt64) : Machine (Int32 × Space) Request Ended :=
  ⟨fun s rq => ((sampleblkTurn size s.1 s.2 rq).1, (sampleblkTurn size s.1 s.2 rq).2.1),
    fun s rq => [⟨(sampleblkTurn size s.1 s.2 rq).1, (sampleblkTurn size s.1 s.2 rq).2.2⟩]⟩

lemma sampleblkLoop_history (size : UInt64) (rv : Int32) (data : Space) (queue : List Request) :
    sampleblkLoop size rv data queue = (((sampleblkMachine size).run (rv, data) queue).2,
      (sampleblkMachine size).history (rv, data) queue) := by
  induction queue generalizing rv data with
  | nil => rfl
  | cons rq queue ih =>
    simp only [sampleblkLoop, ih]
    rfl

/-- The first segment sets the return value, and what is copied does not depend on it. -/
lemma sampleblkSegments_rv (dir : Dir) (rv : Int32) (data : Space) (pos : UInt64)
    (segs : List (List UInt8)) :
    (sampleblkSegments dir rv data pos segs).1 = (if segs = [] then rv else 0) ∧
      (sampleblkSegments dir rv data pos segs).2 = copySegments dir data pos segs := by
  cases segs with
  | nil => exact ⟨rfl, rfl⟩
  | cons seg segs =>
    have hfirst : sampleblkSegments dir rv data pos (seg :: segs) =
        sampleblkSegments dir 0 data pos (seg :: segs) := rfl
    rw [hfirst, sampleblkSegments_eq, if_neg (by simp)]
    exact ⟨rfl, rfl⟩

lemma sampleblkTurn_eq (size : UInt64) (rv : Int32) (data : Space) (rq : Request) :
    sampleblkTurn size rv data rq =
      if Refused size rq then (-eio, data, rq.segments)
      else sampleblkSegments rq.dir rv data (rq.sector * 512) rq.segments := rfl

lemma sampleblkTurn_rv (size : UInt64) (rv : Int32) (data : Space) (rq : Request) :
    (sampleblkTurn size rv data rq).1 =
      if Refused size rq then -eio else if rq.segments = [] then rv else 0 := by
  rw [sampleblkTurn_eq]
  split_ifs with hr hs
  · rfl
  · rw [(sampleblkSegments_rv _ _ _ _ _).1, if_pos hs]
  · rw [(sampleblkSegments_rv _ _ _ _ _).1, if_neg hs]

/-- The requests end in a refused one and, behind it, others that passed without segments. -/
def Stale (size : UInt64) (queue : List Request) : Prop :=
  ∃ a rq b, queue = a ++ rq :: b ∧ Refused size rq ∧
    ∀ r ∈ b, ¬ Refused size r ∧ r.segments = []

lemma not_stale_nil (size : UInt64) : ¬ Stale size [] := by
  rintro ⟨a, rq, b, h, -⟩
  simp at h

lemma stale_snoc {size : UInt64} {queue : List Request} {rq : Request} :
    Stale size (queue ++ [rq]) ↔ Refused size rq ∨ rq.segments = [] ∧ Stale size queue := by
  constructor
  · rintro ⟨a, r, b, heq, hr, hb⟩
    rcases List.eq_nil_or_concat b with rfl | ⟨b, x, rfl⟩
    · obtain ⟨rfl, hlast⟩ := List.append_inj' heq rfl
      rw [(List.cons.inj hlast).1]
      exact .inl hr
    · rw [List.concat_eq_append, ← List.cons_append, ← List.append_assoc] at heq
      obtain ⟨rfl, hlast⟩ := List.append_inj' heq rfl
      have hx := hb x (by simp)
      rw [(List.cons.inj hlast).1]
      exact .inr ⟨hx.2, a, r, b, rfl, hr, fun y hy => hb y (by simp [hy])⟩
  · intro h
    by_cases hr : Refused size rq
    · exact ⟨queue, rq, [], rfl, hr, by simp⟩
    · obtain ⟨hsegs, a, r, b, rfl, hr', hb⟩ := h.resolve_left hr
      refine ⟨a, r, b ++ [rq], by simp, hr', fun x hx => ?_⟩
      rcases List.mem_append.mp hx with hx | hx
      · exact hb x hx
      · rw [List.mem_singleton.mp hx]
        exact ⟨hr, hsegs⟩

/-- What the requests of a queue leave in `rv`. -/
lemma run_rv (size : UInt64) (data : Space) (queue : List Request) :
    ((sampleblkMachine size).run (0, data) queue).1 = -eio ∧ Stale size queue ∨
      ((sampleblkMachine size).run (0, data) queue).1 = 0 ∧ ¬ Stale size queue := by
  induction queue using List.reverseRecOn with
  | nil => exact .inr ⟨rfl, not_stale_nil size⟩
  | append_singleton queue rq ih =>
    rw [Machine.run_append, stale_snoc]
    generalize (sampleblkMachine size).run (0, data) queue = s at ih ⊢
    have hrv : ((sampleblkMachine size).run s [rq]).1 = _ := sampleblkTurn_rv size s.1 s.2 rq
    rw [hrv]
    split_ifs with hr hs
    · exact .inl ⟨rfl, .inl hr⟩
    · simpa [hr, hs] using ih
    · simp [hr, hs]

/-- One turn. A request that wraps gets its copies, or is ended with what was left in `rv`. -/
lemma sampleblkTurn_sound_iff (size : UInt64) (rv : Int32) (data : Space) (rq : Request) :
    let out := sampleblkTurn size rv data rq
    Sound size rq data out.2.1 ⟨out.1, out.2.2⟩ ↔
      (Wraps size rq → rq.segments = [] ∧ rv = -eio) := by
  intro out
  rw [wraps_iff]
  by_cases hin : InRange size rq
  · refine iff_of_true ?_ fun h => absurd hin h.1
    have hout : out = _ := if_neg hin.not_refused
    have hcopy := (sampleblkSegments_rv rq.dir rv data (rq.sector * 512) rq.segments).2
    rw [← sampleblkSectSize, ← hout] at hcopy
    rw [congrArg Prod.fst hcopy, congrArg Prod.snd hcopy]
    exact sound_of_copied hin data out.1
  by_cases hr : Refused size rq
  · have hout : out = _ := if_pos hr
    rw [hout]
    exact iff_of_true (sound_of_refused hr data) fun h => absurd hr h.2
  · have hne : (0 : Int32) ≠ -eio := by decide
    have hrv : out.1 = _ := sampleblkTurn_rv size rv data rq
    rw [if_neg hr] at hrv
    constructor
    · intro h _
      have hstatus : out.1 = -eio := (h.refused hin).1
      rw [hrv] at hstatus
      split_ifs at hstatus with hs
      · exact ⟨hs, hstatus⟩
      · exact absurd hstatus hne
    · intro h
      obtain ⟨hs, hrv0⟩ := h ⟨hin, hr⟩
      have hout : out = (rv, data, []) := by
        have hturn : out = _ := if_neg hr
        rw [hturn, hs]
        rfl
      rw [hout]
      refine ⟨fun h0 => absurd (h0.symm.trans hrv0) hne, fun h => absurd h hin, ?_, fun _ => ?_⟩
      · rw [hs]
      · exact ⟨hrv0, rfl, hs.symm⟩

/-- A call that fetches one request more ends one more, and leaves the others as they are. -/
lemma sampleblkRequest_snoc (size : UInt64) (data : Space) (queue : List Request) (rq : Request) :
    let rv := ((sampleblkMachine size).run (0, data) queue).1
    let out := sampleblkTurn size rv (sampleblkRequest size data queue).1 rq
    sampleblkRequest size data (queue ++ [rq]) =
      (out.2.1, (sampleblkRequest size data queue).2 ++ [⟨out.1, out.2.2⟩]) := by
  simp only [sampleblkRequest, sampleblkLoop_history, Machine.run_append, Machine.history_append]
  rfl

/-- The last request that a call fetches is dealt with as it should be. -/
def SampleblkSound (size : UInt64) (data : Space) (before : List Request) (rq : Request) : Prop :=
  ∃ ended, (sampleblkRequest size data (before ++ [rq])).2 =
      (sampleblkRequest size data before).2 ++ [ended] ∧
    Sound size rq (sampleblkRequest size data before).1
      (sampleblkRequest size data (before ++ [rq])).1 ended

lemma sampleblkSound_iff (size : UInt64) (data : Space) (before : List Request) (rq : Request) :
    SampleblkSound size data before rq ↔
      (Wraps size rq → rq.segments = [] ∧ Stale size before) := by
  have hrv : ((sampleblkMachine size).run (0, data) before).1 = -eio ↔ Stale size before := by
    rcases run_rv size data before with ⟨hrv, hs⟩ | ⟨hrv, hs⟩
    · exact iff_of_true hrv hs
    · rw [hrv]
      exact iff_of_false (by decide) hs
  have hturn := sampleblkTurn_sound_iff size ((sampleblkMachine size).run (0, data) before).1
    (sampleblkRequest size data before).1 rq
  rw [← hrv, SampleblkSound, sampleblkRequest_snoc]
  simpa using hturn

/-- What a request should be ended with. -/
def ownStatus (size : UInt64) (rq : Request) : Int32 := if InRange size rq then 0 else -eio

/-- The request is ended as if it were alone. It is refused; or it has segments and lies inside the
device; or it has none, and what is left over in `rv` happens to be right. -/
def Undisturbed (size : UInt64) (before : List Request) (rq : Request) : Prop :=
  Refused size rq ∨ rq.segments ≠ [] ∧ InRange size rq ∨
    rq.segments = [] ∧ (Stale size before ↔ ¬ InRange size rq)

lemma status_iff (size : UInt64) (data data' : Space) (before : List Request) (rq : Request) :
    (sampleblkTurn size ((sampleblkMachine size).run (0, data) before).1 data' rq).1 =
      ownStatus size rq ↔ Undisturbed size before rq := by
  have hne : (0 : Int32) ≠ -eio := by decide
  rw [sampleblkTurn_rv, ownStatus, Undisturbed]
  by_cases hr : Refused size rq
  · have hin : ¬ InRange size rq := fun h => h.not_refused hr
    simp [hr, hin]
  by_cases hs : rq.segments = []
  · rcases run_rv size data before with ⟨hrv, hst⟩ | ⟨hrv, hst⟩
    · by_cases hin : InRange size rq <;> simp [hr, hs, hrv, hst, hin, hne.symm]
    · by_cases hin : InRange size rq <;> simp [hr, hs, hrv, hst, hin, hne]
  · by_cases hin : InRange size rq <;> simp [hr, hs, hin, hne]

end Sampleblk

section RamhdMkreq

lemma ramhdMakeRequest_eq (size : UInt64) (data : Space) (bio : Request) :
    ramhdMakeRequest size data bio =
      if Refused size bio then (data, ⟨-eio, bio.segments⟩)
      else
        ((copySegments bio.dir data (bio.sector * 512) bio.segments).1,
          ⟨0, (copySegments bio.dir data (bio.sector * 512) bio.segments).2⟩) := by
  rw [← ramhdSegments_eq]
  rfl

def RamhdSound (size : UInt64) (data : Space) (bio : Request) : Prop :=
  Sound size bio data (ramhdMakeRequest size data bio).1 (ramhdMakeRequest size data bio).2

lemma ramhdSound_iff (size : UInt64) (data : Space) (bio : Request) :
    RamhdSound size data bio ↔ ¬ Wraps size bio := by
  rw [RamhdSound, wraps_iff, ramhdMakeRequest_eq]
  by_cases hin : InRange size bio
  · rw [if_neg hin.not_refused]
    exact iff_of_true (sound_of_copied hin data 0) fun h => absurd hin h.1
  split_ifs with hr
  · exact iff_of_true (sound_of_refused hr data) fun h => absurd hr h.2
  · exact iff_of_false (fun h => hin (h.accepted rfl)) fun h => h ⟨hin, hr⟩

end RamhdMkreq

/-- When the range checks are sound. In `sampleblk_request`, for every queue and every request of
it, exactly if no request wraps, but for one without segments that gets the error left over from
a request before it; in `ramhd_make_request`, exactly if the bio does not wrap. -/
theorem range_checks_sound_iff (size : UInt64) (data : Space) (queue : List Request) :
    ((∀ before rq, before ++ [rq] <+: queue → SampleblkSound size data before rq) ↔
      ∀ before rq, before ++ [rq] <+: queue →
        Wraps size rq → rq.segments = [] ∧ Stale size before) ∧
    ∀ bio, RamhdSound size data bio ↔ ¬ Wraps size bio := by
  refine ⟨?_, ramhdSound_iff size data⟩
  simp only [sampleblkSound_iff]

/-- A disk of the size that `sample_blk.c` sets up. -/
def sampleblkSize : UInt64 := sampleblkSectSize * (100 * 1024)

/-- A write to sector `2^55`, whose position is zero modulo `2^64`. -/
def farWrite : Request := ⟨.write, 2^55, 1, [[7]], rfl⟩

/-- It is ended without an error, and changes the first byte of the device. -/
theorem far_write_accepted :
    ¬ InRange sampleblkSize farWrite ∧
      (sampleblkRequest sampleblkSize (fun _ => 0) [farWrite]).2 = [⟨0, [[7]]⟩] ∧
      (sampleblkRequest sampleblkSize (fun _ => 0) [farWrite]).1 0 = 7 ∧
      ¬ SampleblkSound sampleblkSize (fun _ => 0) [] farWrite ∧
      ¬ RamhdSound ramhdSize (fun _ => 0) farWrite := by
  refine ⟨by decide, rfl, rfl, ?_, ?_⟩
  · rw [sampleblkSound_iff]
    intro h
    exact absurd (h (by decide)).1 (by decide)
  · rw [ramhdSound_iff]
    exact fun h => h (by decide)

/-- Every request of the queue is ended with its own status. -/
def OwnStatuses (size : UInt64) (data : Space) (queue : List Request) : Prop :=
  (sampleblkRequest size data queue).2.map Ended.status = queue.map (ownStatus size)

instance (size : UInt64) (data : Space) (queue : List Request) :
    Decidable (OwnStatuses size data queue) := inferInstanceAs (Decidable (_ = _))

/-- In one order of the requests they are ended each with its own status exactly if all of them are
undisturbed. -/
lemma ownStatuses_iff (size : UInt64) (data : Space) (queue : List Request) :
    OwnStatuses size data queue ↔
      ∀ before rq, before ++ [rq] <+: queue → Undisturbed size before rq := by
  unfold OwnStatuses
  induction queue using List.reverseRecOn with
  | nil => simp [sampleblkRequest, sampleblkLoop]
  | append_singleton queue rq ih =>
    rw [forall_snoc_prefix_snoc, ← ih, ← status_iff size data (sampleblkRequest size data queue).1,
      sampleblkRequest_snoc, List.map_append, List.map_append]
    constructor
    · intro h
      obtain ⟨hbefore, hlast⟩ := List.append_inj' h rfl
      exact ⟨hbefore, List.singleton_inj.mp hlast⟩
    · rintro ⟨hbefore, hlast⟩
      rw [hbefore]
      exact congrArg (queue.map (ownStatus size) ++ [·]) hlast

/-- No request is ended with anything but its own status, whatever others are left out and in
whatever order the rest is fetched, exactly if no request wraps and a refused one never meets one
without segments that is not refused. -/
theorem statuses_independent_iff (size : UInt64) (data : Space) (queue : List Request) :
    (∀ q, q.Subperm queue → OwnStatuses size data q) ↔
      (∀ rq ∈ queue, ¬ Wraps size rq) ∧
        ∀ r ∈ queue, Refused size r → ∀ rq ∈ queue, rq.segments = [] → Refused size rq := by
  simp only [ownStatuses_iff]
  constructor
  · intro h
    have hwraps : ∀ rq ∈ queue, ¬ Wraps size rq := by
      intro rq hrq hw
      obtain ⟨hin, hpass⟩ := (wraps_iff size rq).mp hw
      rcases h [rq] (List.singleton_subperm_iff.mpr hrq) [] rq List.prefix_rfl with
        hr | ⟨-, hin'⟩ | ⟨-, hst⟩
      · exact hpass hr
      · exact hin hin'
      · exact not_stale_nil size (hst.mpr hin)
    refine ⟨hwraps, fun r hr href rq hrq hsegs => ?_⟩
    by_contra hpass
    -- the two of them alone, the refused one first
    have hne : r ≠ rq := by
      rintro rfl
      exact hpass href
    have hpair : [r, rq].Subperm queue := by
      refine List.Nodup.subperm (by simp [hne]) fun x hx => ?_
      rcases List.mem_pair.mp hx with rfl | rfl
      · exact hr
      · exact hrq
    have hstale : Stale size [r] := ⟨[], r, [], rfl, href, by simp⟩
    rcases h [r, rq] hpair [r] rq List.prefix_rfl with href' | ⟨hsegs', -⟩ | ⟨-, hst⟩
    · exact hpass href'
    · exact hsegs' hsegs
    · exact hwraps rq hrq ((wraps_iff size rq).mpr ⟨hst.mp hstale, hpass⟩)
  · rintro ⟨hwraps, hempty⟩ q hq before rq hpre
    have hmem : ∀ r ∈ before ++ [rq], r ∈ queue := fun r hr => hq.subset (hpre.subset hr)
    have hrq := hmem rq (by simp)
    by_cases href : Refused size rq
    · exact .inl href
    have hin : InRange size rq := by
      by_contra hin
      exact hwraps rq hrq ((wraps_iff size rq).mpr ⟨hin, href⟩)
    by_cases hsegs : rq.segments = []
    · refine .inr (.inr ⟨hsegs, iff_of_false ?_ (not_not.mpr hin)⟩)
      rintro ⟨a, r, b, rfl, hr, -⟩
      exact href (hempty r (hmem r (by simp)) hr rq hrq hsegs)
    · exact .inr (.inl ⟨hsegs, hin⟩)

/-- A read behind the end of the device, and a flush. -/
def readThenFlush : List Request := [⟨.read, 102400, 1, [[0]], rfl⟩, ⟨.write, 0, 0, [], rfl⟩]

/-- The flush fails with the read; without it, or in front of it, it does not. -/
theorem flush_fails_with_read :
    (sampleblkRequest sampleblkSize (fun _ => 0) readThenFlush).2.map Ended.status = [-5, -5] ∧
      readThenFlush.map (ownStatus sampleblkSize) = [-5, 0] ∧
      (sampleblkRequest sampleblkSize (fun _ => 0) readThenFlush.reverse).2.map Ended.status =
        [0, -5] ∧
      ¬ ∀ q, q.Subperm readThenFlush → OwnStatuses sampleblkSize (fun _ => 0) q := by
  refine ⟨by decide, by decide, by decide, fun h => ?_⟩
  exact absurd (h readThenFlush (List.Subperm.refl _)) (by decide)

end LinuxLabs.RamDisk
