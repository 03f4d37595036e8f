import Mathlib

/-! Transfers between a flat space of bytes, addressed modulo `2^64`, and buffers that are cut
into segments. Cutting does not matter: the segments of a transfer, taken one after the other,
move the bytes that one copy of all of them moves. -/
namespace LinuxLabs.ScatterGather

abbrev Space := UInt64 → UInt8

inductive Dir
  | read
  | write
  deriving DecidableEq, Repr

def Space.write (m : Space) (a : UInt64) (bs : List UInt8) : Space := fun x =>
  (bs[(x - a).toNat]?).getD (m x)

def Space.read (m : Space) (a : UInt64) (n : ℕ) : List UInt8 :=
  (List.range n).map fun i => m (a + UInt64.ofNat i)

/-- One copy: the space and the buffer after it. -/
def copy (dir : Dir) (m : Space) (a : UInt64) (buf : List UInt8) : Space × List UInt8 :=
  match dir with
  | .write => (m.write a buf, buf)
  | .read => (m, m.read a buf.length)

/-- One copy for each segment, at consecutive addresses. -/
def copySegments (dir : Dir) :
    Space → UInt64 → List (List UInt8) → Space × List (List UInt8)
  | m, _, [] => (m, [])
  | m, a, seg :: segs =>
    let (m, seg') := copy dir m a seg
    let (m, segs') := copySegments dir m (a + UInt64.ofNat seg.length) segs
    (m, seg' :: segs')

@[simp] lemma Space.write_nil (m : Space) (a : UInt64) : m.write a [] = m := rfl

@[simp] lemma Space.read_length (m : Space) (a : UInt64) (n : ℕ) : (m.read a n).length = n := by
  simp [Space.read]

lemma copy_length (dir : Dir) (m : Space) (a : UInt64) (buf : List UInt8) :
    (copy dir m a buf).2.length = buf.length := by
  cases dir <;> simp [copy]

lemma toNat_sub_add (x a : UInt64) {n : ℕ} (hn : n < 2^64) :
    (x - (a + UInt64.ofNat n)).toNat =
      if n ≤ (x - a).toNat then (x - a).toNat - n else (x - a).toNat + 2^64 - n := by
  have hx := (x - a).toNat_lt
  have hsub : x - (a + UInt64.ofNat n) = (x - a) - UInt64.ofNat n := by
    rw [sub_add_eq_sub_sub]
  rw [hsub, UInt64.toNat_sub, UInt64.toNat_ofNat', Nat.mod_eq_of_lt hn]
  split_ifs with h <;> omega

/-- Two writes that follow each other without running around are one. -/
theorem Space.write_append (m : Space) (a : UInt64) {bs cs : List UInt8}
    (h : bs.length + cs.length < 2^64) :
    (m.write a bs).write (a + UInt64.ofNat bs.length) cs = m.write a (bs ++ cs) := by
  funext x
  simp only [Space.write]
  rw [toNat_sub_add x a (by omega)]
  have hx := (x - a).toNat_lt
  by_cases hk : bs.length ≤ (x - a).toNat
  · rw [if_pos hk, List.getElem?_append_right hk, List.getElem?_eq_none hk]
    rfl
  · rw [if_neg hk, List.getElem?_append_left (by omega),
      List.getElem?_eq_none (l := cs) (by omega)]
    rfl

theorem Space.read_add (m : Space) (a : UInt64) (n k : ℕ) :
    m.read a (n + k) = m.read a n ++ m.read (a + UInt64.ofNat n) k := by
  simp only [Space.read, List.range_add, List.map_append, List.map_map]
  congr 1
  apply List.map_congr_left
  intro i _
  simp [UInt64.ofNat_add, add_assoc]

/-- The space after a transfer by segments, and what all its buffers together hold. -/
theorem copySegments_flatten (dir : Dir) (m : Space) (a : UInt64) {segs : List (List UInt8)}
    (h : segs.flatten.length < 2^64) :
    let r := copySegments dir m a segs
    r.1 = (copy dir m a segs.flatten).1 ∧ r.2.flatten = (copy dir m a segs.flatten).2 ∧
      r.2.map List.length = segs.map List.length := by
  induction segs generalizing m a with
  | nil => cases dir <;> simp [copySegments, copy, Space.read]
  | cons seg segs ih =>
    rw [List.flatten_cons, List.length_append] at h
    obtain ⟨hm, hsegs, hlens⟩ := ih (copy dir m a seg).1 (a + UInt64.ofNat seg.length) (by omega)
    simp only [copySegments, List.flatten_cons, List.map_cons, hm, hsegs, hlens, copy_length]
    cases dir with
    | write => exact ⟨Space.write_append m a (by simpa using h), rfl, trivial⟩
    | read => exact ⟨rfl, by simp [copy, Space.read_add], trivial⟩

end LinuxLabs.ScatterGather
