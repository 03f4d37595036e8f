import LinuxLabs.LastWriter
import LinuxLabs.RamDiskChecks

/-! The devices of `ramhd_mkreq` as a store. Each device begins with zeros, and a bio goes to the
device behind the `private_data` of its disk. Bios are taken as they come, on any of the devices, in
range or not; what a read returns is what was last written there. -/
namespace LinuxLabs.RamDisk
open ScatterGather EventRun LastWriter

/-- A bio, and the device it is for. -/
structure Submission where
  device : ℕ
  bio : Request

/-- The memory after `ramhd_space_init`. -/
def ramhdSpaceInit : ℕ → Space := fun _ _ => 0

/-- What `ramhd_make_request` does on the device of a bio. -/
def Submission.make (disks : ℕ → Space) (e : Submission) : Space × Ended :=
  ramhdMakeRequest ramhdSize (disks e.device) e.bio

def ramhd : Machine (ℕ → Space) Submission Ended :=
  ⟨fun disks e => Function.update disks e.device (e.make disks).1,
    fun disks e => [(e.make disks).2]⟩

/-- The bytes written one after the other from an address on. -/
def byteWrites (device : ℕ) : ℕ → List UInt8 → List (Event (ℕ × ℕ) UInt8)
  | _, [] => []
  | a, b :: bs => .set (device, a) b :: byteWrites device (a + 1) bs

/-- The writes that a bio stands for: none for a read, and none outside the device. -/
def Submission.writes (e : Submission) : List (Event (ℕ × ℕ) UInt8) :=
  if e.bio.dir = .write ∧ InRange ramhdSize e.bio then
    byteWrites e.device (512 * e.bio.sector.toNat) e.bio.segments.flatten
  else []

/-- The byte last written at a place of a device, zero if there is none. -/
def lastWritten (es : List Submission) (device a : ℕ) : UInt8 :=
  (lookup (es.flatMap Submission.writes) (device, a)).getD 0

lemma lookup_byteWrites (log : List (Event (ℕ × ℕ) UInt8)) (device a : ℕ) (bs : List UInt8)
    (device' x : ℕ) :
    lookup (log ++ byteWrites device a bs) (device', x) =
      if device' = device ∧ a ≤ x ∧ x < a + bs.length then bs[x - a]?
      else lookup log (device', x) := by
  induction bs generalizing log a with
  | nil =>
    have hnone : ¬ (device' = device ∧ a ≤ x ∧ x < a + ([] : List UInt8).length) := by
      simp only [List.length_nil]
      omega
    rw [if_neg hnone, byteWrites, List.append_nil]
  | cons b bs ih =>
    have hsplit : log ++ byteWrites device a (b :: bs) =
        log ++ [.set (device, a) b] ++ byteWrites device (a + 1) bs := by
      simp [byteWrites]
    rw [hsplit, ih, lookup_snoc]
    simp only [Event.key, Event.value, Prod.mk.injEq, List.length_cons]
    by_cases hd : device' = device
    · subst hd
      rcases lt_trichotomy x a with hlt | rfl | hgt
      · rw [if_neg (by omega), if_neg (by omega), if_neg (by omega)]
      · rw [if_neg (by omega), if_pos ⟨rfl, rfl⟩, if_pos ⟨rfl, by omega⟩, Nat.sub_self]
        rfl
      · have hget : (b :: bs)[x - a]? = bs[x - (a + 1)]? := by
          rw [show x - a = x - (a + 1) + 1 by omega, List.getElem?_cons_succ]
        have hiff : a + 1 ≤ x ∧ x < a + 1 + bs.length ↔ a ≤ x ∧ x < a + (bs.length + 1) := by
          omega
        rw [if_neg (c := _ ∧ a = x) (by omega), hget]
        simp only [hiff]
    · rw [if_neg (fun h => hd h.1), if_neg (fun h => hd h.1.symm), if_neg (fun h => hd h.1)]

lemma lastWritten_snoc (es : List Submission) (e : Submission) (device x : ℕ) :
    lastWritten (es ++ [e]) device x =
      if (e.bio.dir = .write ∧ InRange ramhdSize e.bio) ∧ device = e.device ∧
        512 * e.bio.sector.toNat ≤ x ∧
        x < 512 * e.bio.sector.toNat + e.bio.segments.flatten.length then
        e.bio.segments.flatten.getD (x - 512 * e.bio.sector.toNat) 0
      else lastWritten es device x := by
  rw [lastWritten, List.flatMap_append, List.flatMap_singleton, Submission.writes]
  by_cases hwrite : e.bio.dir = .write ∧ InRange ramhdSize e.bio
  · rw [if_pos hwrite, lookup_byteWrites]
    simp only [hwrite, and_self, true_and]
    split_ifs with hin
    · rw [List.getD_eq_getElem?_getD]
    · rfl
  · rw [if_neg hwrite, List.append_nil, if_neg fun h => hwrite h.1]
    rfl

/-- The range of a bio does not run around `2^64`. -/
def Submission.NoWrap (e : Submission) : Prop :=
  512 * e.bio.sector.toNat + e.bio.bytes.toNat < 2^64

instance (e : Submission) : Decidable e.NoWrap := inferInstanceAs (Decidable (_ < _))

/-- Such a bio in range is transferred; any other is ended with an error and nothing is changed. -/
lemma Submission.make_eq {e : Submission} (h : e.NoWrap) (disks : ℕ → Space) :
    (InRange ramhdSize e.bio →
      (e.make disks).1 = (plainStep (disks e.device) e.bio.transfer).1 ∧
        (e.make disks).2.status = 0 ∧
        (e.make disks).2.segments.flatten = (plainStep (disks e.device) e.bio.transfer).2) ∧
      (¬ InRange ramhdSize e.bio → e.make disks = (disks e.device, ⟨-eio, e.bio.segments⟩)) := by
  constructor
  · intro hrange
    obtain ⟨hdata, hflat, -⟩ := hrange.copies (disks e.device)
    have hmake : e.make disks = _ := ramhdMakeRequest_eq ramhdSize (disks e.device) e.bio
    rw [hmake, if_neg hrange.not_refused]
    exact ⟨hdata, rfl, hflat⟩
  · intro hrange
    have hrefused : Refused ramhdSize e.bio := by
      rw [refused_iff, Nat.mod_eq_of_lt h]
      exact Nat.not_le.mp hrange
    exact if_pos hrefused

/-- The devices hold what was last written, in front of their ends. -/
def Agrees (disks : ℕ → Space) (es : List Submission) : Prop :=
  ∀ device x, x < ramhdSize.toNat → disks device (UInt64.ofNat x) = lastWritten es device x

lemma Agrees.step {disks : ℕ → Space} {es : List Submission} {e : Submission}
    (h : Agrees disks es) (hwrap : e.NoWrap) : Agrees (ramhd.apply disks e) (es ++ [e]) := by
  intro device x hx
  obtain ⟨hin, hout⟩ := e.make_eq hwrap disks
  have hx64 : (UInt64.ofNat x).toNat = x := by
    have hsize := ramhdSize.toNat_lt
    rw [UInt64.toNat_ofNat', Nat.mod_eq_of_lt (hx.trans hsize)]
  rw [lastWritten_snoc]
  change Function.update disks e.device (e.make disks).1 device (UInt64.ofNat x) = _
  rcases eq_or_ne device e.device with rfl | hne
  · rw [Function.update_self]
    by_cases hrange : InRange ramhdSize e.bio
    · rw [(hin hrange).1]
      cases hdir : e.bio.dir with
      | read =>
        rw [if_neg (by simp)]
        simp only [plainStep, Request.transfer, hdir]
        exact h e.device x hx
      | write =>
        simp only [plainStep, Request.transfer, hdir, hx64, hrange, and_self, true_and]
        rw [h e.device x hx]
    · rw [hout hrange, if_neg fun hw => hrange hw.1.2]
      exact h e.device x hx
  · rw [Function.update_of_ne hne, if_neg fun hw => hne hw.2.1]
    exact h device x hx

lemma run_agrees (es : List Submission) (hwrap : ∀ e ∈ es, e.NoWrap) :
    Agrees (ramhd.run ramhdSpaceInit es) es := by
  induction es using List.reverseRecOn with
  | nil => exact fun _ _ _ => rfl
  | append_singleton es e ih =>
    rw [Machine.run_append]
    exact (ih fun e' he' => hwrap e' (by simp [he'])).step (hwrap e (by simp))

/-- In every run over the devices, whatever the bios and their cutting: a read inside its device
succeeds and returns the bytes last written there, zeros where there are none; a write inside its
device succeeds and leaves its buffers; any other bio is ended with an error, its buffers and all
devices unchanged. So no device sees what is written to another one. -/
theorem ramhd_last_writer (es : List Submission) (hwrap : ∀ e ∈ es, e.NoWrap) :
    ∀ pre e, pre ++ [e] <+: es →
      let disks := ramhd.run ramhdSpaceInit pre
      let ended := (e.make disks).2
      (InRange ramhdSize e.bio → ended.status = 0 ∧ ended.segments.flatten =
        match e.bio.dir with
        | .read => (List.range e.bio.bytes.toNat).map fun i =>
            lastWritten pre e.device (512 * e.bio.sector.toNat + i)
        | .write => e.bio.segments.flatten) ∧
      (¬ InRange ramhdSize e.bio → ended = ⟨-eio, e.bio.segments⟩ ∧
        ramhd.run ramhdSpaceInit (pre ++ [e]) = disks) := by
  intro pre e hpre disks ended
  have hmem : ∀ e' ∈ pre ++ [e], e'.NoWrap := fun e' he' => hwrap e' (hpre.subset he')
  have hagrees := run_agrees pre fun e' he' => hmem e' (by simp [he'])
  obtain ⟨hin, hout⟩ := e.make_eq (hmem e (by simp)) disks
  constructor
  · intro hrange
    obtain ⟨-, hstatus, hflat⟩ := hin hrange
    refine ⟨hstatus, hflat.trans ?_⟩
    cases hdir : e.bio.dir with
    | read =>
      simp only [plainStep, Request.transfer, hdir, e.bio.sum]
      refine List.map_congr_left fun i hi => hagrees e.device _ ?_
      rw [List.mem_range] at hi
      unfold InRange at hrange
      omega
    | write => simp only [plainStep, Request.transfer, hdir]
  · intro hrange
    refine ⟨congrArg Prod.snd (hout hrange), ?_⟩
    rw [Machine.run_append]
    change Function.update disks e.device (e.make disks).1 = disks
    rw [hout hrange]
    exact Function.update_eq_self _ _

/-- A sector is written on one device and read on the other. -/
def twoDisks : List Submission :=
  writeThenRead.zipIdx.map fun (bio, device) => ⟨device, bio⟩

theorem ramhd_last_writer_two :
    (∀ e ∈ twoDisks, e.NoWrap) ∧
      ∀ pre e, pre ++ [e] <+: twoDisks → InRange ramhdSize e.bio →
        (e.make (ramhd.run ramhdSpaceInit pre)).2.status = 0 := by
  have hwrap : ∀ e ∈ twoDisks, e.NoWrap := by
    simp only [twoDisks, writeThenRead, List.zipIdx_cons, List.zipIdx_nil, List.map_cons,
      List.map_nil, List.mem_cons, List.not_mem_nil, or_false, forall_eq_or_imp, forall_eq]
    exact ⟨by decide, by decide⟩
  refine ⟨hwrap, fun pre e hpre hrange => ?_⟩
  exact ((ramhd_last_writer twoDisks hwrap pre e hpre).1 hrange).1

end LinuxLabs.RamDisk
