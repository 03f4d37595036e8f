import LinuxLabs.ScatterGather

/-! The three request paths of the RAM disks. Addresses are offsets from the data of the device,
in the arithmetic of `sector_t` and of pointers modulo `2^64`; what is below and behind the
device is part of the space. -/
namespace LinuxLabs.RamDisk
open ScatterGather

def eio : Int32 := 5

/-- A request or a bio: its byte count is that of its segments. -/
structure Request where
  dir : Dir
  sector : UInt64
  bytes : UInt32
  segments : List (List UInt8)
  sum : segments.flatten.length = bytes.toNat

/-- How a request was ended, and what its buffers hold then. -/
structure Ended where
  status : Int32
  segments : List (List UInt8)

section Sampleblk

def sampleblkSectSize : UInt64 := 512

def sampleblkHandleIo (data : Space) (pos : UInt64) (buffer : List UInt8) (dir : Dir) :
    Int32 × Space × List UInt8 :=
  match dir with
  | .write => (0, data.write pos buffer, buffer)
  | .read => (0, data, data.read pos buffer.length)

/-- `rq_for_each_segment`, with the position and the return value running along. -/
def sampleblkSegments (dir : Dir) :
    Int32 → Space → UInt64 → List (List UInt8) → Int32 × Space × List (List UInt8)
  | rv, data, _, [] => (rv, data, [])
  | _, data, pos, seg :: segs =>
    let (rv, data, seg') := sampleblkHandleIo data pos seg dir
    if rv < 0 then (rv, data, seg' :: segs)
    else
      let (rv, data, segs') := sampleblkSegments dir rv data (pos + UInt64.ofNat seg.length) segs
      (rv, data, seg' :: segs')

/-- One turn of the loop. The return value is a local of the function, and comes in with what
the turn before has left in it. -/
def sampleblkTurn (size : UInt64) (rv : Int32) (data : Space) (rq : Request) :
    Int32 × Space × List (List UInt8) :=
  let pos := rq.sector * sampleblkSectSize
  if size < pos + rq.bytes.toUInt64 then (-eio, data, rq.segments)
  else sampleblkSegments rq.dir rv data pos rq.segments

def sampleblkLoop (size : UInt64) : Int32 → Space → List Request → Space × List Ended
  | _, data, [] => (data, [])
  | rv, data, rq :: queue =>
    let (rv, data, segments) := sampleblkTurn size rv data rq
    let (data, ended) := sampleblkLoop size rv data queue
    (data, ⟨rv, segments⟩ :: ended)

def sampleblkRequest (size : UInt64) (data : Space) (queue : List Request) : Space × List Ended :=
  sampleblkLoop size 0 data queue

end Sampleblk

section RamhdMkreq

def ramhdSectorSize : UInt64 := 512
def ramhdSectors : UInt64 := 16
def ramhdHeads : UInt64 := 4
def ramhdCylinders : UInt64 := 256
def ramhdSectorTotal : UInt64 := ramhdSectors * ramhdHeads * ramhdCylinders
def ramhdSize : UInt64 := ramhdSectorSize * ramhdSectorTotal

/-- `bio_for_each_segment`, with a pointer into the data running along. -/
def ramhdSegments (dir : Dir) :
    Space → UInt64 → List (List UInt8) → Space × List (List UInt8)
  | data, _, [] => (data, [])
  | data, pRHdata, seg :: segs =>
    let (data, pBuffer) :=
      match dir with
      | .read => (data, data.read pRHdata seg.length)
      | .write => (data.write pRHdata seg, seg)
    let (data, segs') := ramhdSegments dir data (pRHdata + UInt64.ofNat seg.length) segs
    (data, pBuffer :: segs')

/-- One call. The source compares with `RAMHD_SIZE`, here the size is given. -/
def ramhdMakeRequest (size : UInt64) (data : Space) (bio : Request) : Space × Ended :=
  if size < bio.sector * ramhdSectorSize + bio.bytes.toUInt64 then (data, ⟨-eio, bio.segments⟩)
  else
    let (data, segments) :=
      ramhdSegments bio.dir data (bio.sector * ramhdSectorSize) bio.segments
    (data, ⟨0, segments⟩)

/-- Bio after bio. -/
def ramhdMakeRequests (size : UInt64) : Space → List Request → Space × List Ended
  | data, [] => (data, [])
  | data, bio :: bios =>
    let (data, ended) := ramhdMakeRequest size data bio
    let (data, rest) := ramhdMakeRequests size data bios
    (data, ended :: rest)

end RamhdMkreq

section RamhdReq

/-- A request while it is worked on: the sector cursor, the buffers done with, and the segments
left, the first of which is the current one. -/
structure Cursor where
  dir : Dir
  pos : UInt64
  finished : List (List UInt8)
  segments : List (List UInt8)

def Request.cursor (rq : Request) : Cursor := ⟨rq.dir, rq.sector, [], rq.segments⟩

/-- What is relied on of `__blk_end_request_cur`: it moves the cursor and the buffer past the
current segment, and returns false exactly if no segment is left. -/
structure EndsCurrent (blkEndRequestCur : Cursor → Bool × Cursor) : Prop where
  advances : ∀ dir pos finished seg segs, blkEndRequestCur ⟨dir, pos, finished, seg :: segs⟩ =
    (decide (segs ≠ []), ⟨dir, pos + UInt64.ofNat (seg.length / 512), finished ++ [seg], segs⟩)
  empty : ∀ dir pos finished, blkEndRequestCur ⟨dir, pos, finished, []⟩ =
    (false, ⟨dir, pos, finished, []⟩)

/-- The copy for the current segment, if there is one, at the address of the sector cursor. -/
def ramhdCopy (data : Space) (req : Cursor) : Space × Cursor :=
  let addr := req.pos * ramhdSectorSize
  match req.segments with
  | [] => (data, req)
  | buffer :: segs =>
    match req.dir with
    | .read => (data, { req with segments := data.read addr buffer.length :: segs })
    | .write => (data.write addr buffer, req)

/-- The loop, with a bound on its turns. A request is fetched when the one before is ended. -/
def ramhdReqLoop (blkEndRequestCur : Cursor → Bool × Cursor) :
    ℕ → Space → Cursor → List Request → Option (Space × List Ended)
  | 0, _, _, _ => none
  | n + 1, data, req, queue =>
    let (data, req) := ramhdCopy data req
    match blkEndRequestCur req with
    | (true, req) => ramhdReqLoop blkEndRequestCur n data req queue
    | (false, req) =>
      match queue with
      | [] => some (data, [⟨0, req.finished⟩])
      | rq :: queue =>
        (ramhdReqLoop blkEndRequestCur n data rq.cursor queue).map fun (data, ended) =>
          (data, ⟨0, req.finished⟩ :: ended)

def ramhdReqFunc (blkEndRequestCur : Cursor → Bool × Cursor) (turns : ℕ) (data : Space)
    (queue : List Request) : Option (Space × List Ended) :=
  match queue with
  | [] => some (data, [])
  | rq :: queue => ramhdReqLoop blkEndRequestCur turns data rq.cursor queue

end RamhdReq

/-- A transfer without its cutting: the direction, the first sector and the bytes that the
buffers hold before. -/
structure Transfer where
  dir : Dir
  sector : UInt64
  buffer : List UInt8

def Request.transfer (rq : Request) : Transfer := ⟨rq.dir, rq.sector, rq.segments.flatten⟩

/-- The disk as a flat array of bytes: the data and the buffer after a transfer. -/
def plainStep (data : Space) (t : Transfer) : Space × List UInt8 :=
  let start := 512 * t.sector.toNat
  match t.dir with
  | .write =>
    (fun x => if start ≤ x.toNat ∧ x.toNat < start + t.buffer.length then
        t.buffer.getD (x.toNat - start) 0 else data x,
      t.buffer)
  | .read => (data, (List.range t.buffer.length).map fun i => data (UInt64.ofNat (start + i)))

def plainRun : Space → List Transfer → Space × List (List UInt8)
  | data, [] => (data, [])
  | data, t :: ts =>
    let (data, buffer) := plainStep data t
    let (data, buffers) := plainRun data ts
    (data, buffer :: buffers)

/-- The transfer lies inside the device. -/
def InRange (size : UInt64) (rq : Request) : Prop :=
  512 * rq.sector.toNat + rq.bytes.toNat ≤ size.toNat

instance (size : UInt64) (rq : Request) : Decidable (InRange size rq) :=
  inferInstanceAs (Decidable (_ ≤ _))

lemma InRange.pos {size : UInt64} {rq : Request} (h : InRange size rq) :
    (rq.sector * 512).toNat = 512 * rq.sector.toNat := by
  have hs := size.toNat_lt
  unfold InRange at h
  rw [UInt64.toNat_mul, show (512 : UInt64).toNat = 512 from rfl, Nat.mod_eq_of_lt (by omega),
    Nat.mul_comm]

/-- The check on the range lets such a request through. -/
lemma InRange.checked {size : UInt64} {rq : Request} (h : InRange size rq) :
    ¬ size < rq.sector * 512 + rq.bytes.toUInt64 := by
  have hs := size.toNat_lt
  have hpos := h.pos
  unfold InRange at h
  rw [UInt64.lt_iff_toNat_lt, UInt64.toNat_add, hpos, UInt32.toNat_toUInt64,
    Nat.mod_eq_of_lt (by omega)]
  omega

/-- One copy in the arithmetic of addresses is the plain transfer. -/
lemma InRange.copy_plain {size : UInt64} {rq : Request} (h : InRange size rq) (data : Space) :
    copy rq.dir data (rq.sector * 512) rq.segments.flatten = plainStep data rq.transfer := by
  have hs := size.toNat_lt
  have hpos := h.pos
  have hsum := rq.sum
  unfold InRange at h
  unfold copy plainStep Request.transfer
  cases rq.dir with
  | write =>
    simp only [Prod.mk.injEq, and_true]
    funext x
    have hx := x.toNat_lt
    have hsub : (x - rq.sector * 512).toNat =
        if 512 * rq.sector.toNat ≤ x.toNat then x.toNat - 512 * rq.sector.toNat
        else x.toNat + 2^64 - 512 * rq.sector.toNat := by
      rw [UInt64.toNat_sub, hpos]
      split_ifs <;> omega
    rw [Space.write, hsub]
    by_cases hlo : 512 * rq.sector.toNat ≤ x.toNat
    · by_cases hhi : x.toNat < 512 * rq.sector.toNat + rq.segments.flatten.length
      · rw [if_pos hlo, if_pos ⟨hlo, hhi⟩, List.getD_eq_getElem?_getD,
          List.getElem?_eq_getElem (by omega)]
        rfl
      · rw [if_pos hlo, if_neg (fun hc => hhi hc.2), List.getElem?_eq_none (by omega)]
        rfl
    · rw [if_neg hlo, if_neg (fun hc => hlo hc.1), List.getElem?_eq_none (by omega)]
      rfl
  | read =>
    simp only [Prod.mk.injEq, true_and]
    apply List.map_congr_left
    intro i _
    congr 1
    apply UInt64.toNat_inj.mp
    rw [UInt64.toNat_add, hpos, UInt64.toNat_ofNat', UInt64.toNat_ofNat']
    omega

/-- All requests one after the other, each by its segments and ended without an error. -/
def transferAll : Space → List Request → Space × List Ended
  | data, [] => (data, [])
  | data, rq :: queue =>
    let (data, segments) := copySegments rq.dir data (rq.sector * 512) rq.segments
    let (data, ended) := transferAll data queue
    (data, ⟨0, segments⟩ :: ended)

lemma sampleblkSegments_eq (dir : Dir) (data : Space) (pos : UInt64) (segs : List (List UInt8)) :
    sampleblkSegments dir 0 data pos segs =
      (0, (copySegments dir data pos segs).1, (copySegments dir data pos segs).2) := by
  induction segs generalizing data pos with
  | nil => rfl
  | cons seg segs ih =>
    have hio : sampleblkHandleIo data pos seg dir =
        (0, (copy dir data pos seg).1, (copy dir data pos seg).2) := by
      cases dir <;> rfl
    simp only [sampleblkSegments, hio, copySegments, ih, show ¬ (0 : Int32) < 0 by decide, if_false]

theorem sampleblkLoop_eq {size : UInt64} {queue : List Request}
    (h : ∀ rq ∈ queue, InRange size rq) (data : Space) :
    sampleblkLoop size 0 data queue = transferAll data queue := by
  induction queue generalizing data with
  | nil => rfl
  | cons rq queue ih =>
    have hrq : InRange size rq := h rq (by simp)
    have hturn : sampleblkTurn size 0 data rq =
        (0, (copySegments rq.dir data (rq.sector * 512) rq.segments).1,
          (copySegments rq.dir data (rq.sector * 512) rq.segments).2) := by
      rw [sampleblkTurn, ← sampleblkSegments_eq]
      exact if_neg hrq.checked
    simp only [sampleblkLoop, hturn, transferAll, ih fun rq hrq => h rq (by simp [hrq])]

lemma ramhdSegments_eq (dir : Dir) (data : Space) (pos : UInt64) (segs : List (List UInt8)) :
    ramhdSegments dir data pos segs = copySegments dir data pos segs := by
  induction segs generalizing data pos with
  | nil => rfl
  | cons seg segs ih =>
    simp only [ramhdSegments, copySegments, ih]
    cases dir <;> rfl

theorem ramhdMakeRequests_eq {size : UInt64} {queue : List Request}
    (h : ∀ rq ∈ queue, InRange size rq) (data : Space) :
    ramhdMakeRequests size data queue = transferAll data queue := by
  induction queue generalizing data with
  | nil => rfl
  | cons rq queue ih =>
    have hrq : InRange size rq := h rq (by simp)
    have hmake : ramhdMakeRequest size data rq =
        ((copySegments rq.dir data (rq.sector * 512) rq.segments).1,
          ⟨0, (copySegments rq.dir data (rq.sector * 512) rq.segments).2⟩) := by
      simp only [ramhdMakeRequest, ramhdSectorSize, hrq.checked, if_false, ramhdSegments_eq]
    simp only [ramhdMakeRequests, hmake, transferAll, ih fun rq hrq => h rq (by simp [hrq])]

/-- The turns the loop takes for a queue: one for each segment, and one for a request without
segments. -/
def turnsFor (queue : List Request) : ℕ := (queue.map fun rq => max 1 rq.segments.length).sum

/-- The rest of the queue, once a request is ended. -/
def ramhdRest (blkEndRequestCur : Cursor → Bool × Cursor) (n : ℕ) (data : Space)
    (finished : List (List UInt8)) : List Request → Option (Space × List Ended)
  | [] => some (data, [⟨0, finished⟩])
  | rq :: queue =>
    (ramhdReqLoop blkEndRequestCur n data rq.cursor queue).map fun (data, ended) =>
      (data, ⟨0, finished⟩ :: ended)

lemma sector_advance (pos : UInt64) {n : ℕ} (h : 512 ∣ n) :
    (pos + UInt64.ofNat (n / 512)) * 512 = pos * 512 + UInt64.ofNat n := by
  obtain ⟨k, rfl⟩ := h
  rw [Nat.mul_div_cancel_left _ (by decide), add_mul, Nat.mul_comm, UInt64.ofNat_mul]
  rfl

variable {blkEndRequestCur : Cursor → Bool × Cursor}

/-- One turn, for a request with a current segment. -/
lemma ramhdReqLoop_turn (hend : EndsCurrent blkEndRequestCur) (n : ℕ) (data : Space) (dir : Dir)
    (pos : UInt64) (finished : List (List UInt8)) (seg : List UInt8) (segs : List (List UInt8))
    (queue : List Request) :
    let r := copy dir data (pos * 512) seg
    ramhdReqLoop blkEndRequestCur (n + 1) data ⟨dir, pos, finished, seg :: segs⟩ queue =
      if segs = [] then ramhdRest blkEndRequestCur n r.1 (finished ++ [r.2]) queue
      else
        ramhdReqLoop blkEndRequestCur n r.1
          ⟨dir, pos + UInt64.ofNat (seg.length / 512), finished ++ [r.2], segs⟩ queue := by
  intro r
  have hcopy : ramhdCopy data ⟨dir, pos, finished, seg :: segs⟩ =
      (r.1, ⟨dir, pos, finished, r.2 :: segs⟩) := by
    cases dir <;> rfl
  have hlen : r.2.length = seg.length := copy_length ..
  rw [ramhdReqLoop, hcopy]
  simp only [hend.advances, hlen]
  by_cases hs : segs = []
  · simp only [hs, ne_eq, not_true_eq_false, decide_false, if_true]
    cases queue <;> rfl
  · simp only [hs, ne_eq, not_false_eq_true, decide_true, if_false]

/-- The turns of one request: the cursor follows the segments. -/
theorem ramhdReqLoop_request (hend : EndsCurrent blkEndRequestCur) (n : ℕ) (data : Space)
    (dir : Dir) (pos : UInt64) (finished : List (List UInt8)) {segs : List (List UInt8)}
    (hsegs : ∀ seg ∈ segs, 512 ∣ seg.length) (queue : List Request) :
    ramhdReqLoop blkEndRequestCur (n + max 1 segs.length) data ⟨dir, pos, finished, segs⟩ queue =
      ramhdRest blkEndRequestCur n (copySegments dir data (pos * 512) segs).1
        (finished ++ (copySegments dir data (pos * 512) segs).2) queue := by
  induction segs generalizing data pos finished with
  | nil =>
    have hturn : max 1 ([] : List (List UInt8)).length = 1 := rfl
    rw [hturn, ramhdReqLoop]
    simp only [ramhdCopy, hend.empty, copySegments, List.append_nil]
    cases queue <;> rfl
  | cons seg segs ih =>
    have hturn : n + max 1 (seg :: segs).length = n + segs.length + 1 := by
      simp only [List.length_cons]
      omega
    have hlen : 512 ∣ seg.length := hsegs seg (by simp)
    rw [hturn, ramhdReqLoop_turn hend]
    simp only [copySegments]
    split_ifs with hs
    · subst hs
      rfl
    · have hpos : 0 < segs.length := List.length_pos_of_ne_nil hs
      have hrec := ih (copy dir data (pos * 512) seg).1 (pos + UInt64.ofNat (seg.length / 512))
        (finished ++ [(copy dir data (pos * 512) seg).2]) fun s h => hsegs s (by simp [h])
      rw [max_eq_right hpos, sector_advance pos hlen] at hrec
      rw [hrec, List.append_assoc]
      rfl

theorem ramhdReqLoop_eq (hend : EndsCurrent blkEndRequestCur) {rq : Request} {queue : List Request}
    (hsegs : ∀ r ∈ rq :: queue, ∀ seg ∈ r.segments, 512 ∣ seg.length) {n : ℕ}
    (hn : turnsFor (rq :: queue) ≤ n) (data : Space) :
    ramhdReqLoop blkEndRequestCur n data rq.cursor queue =
      some (transferAll data (rq :: queue)) := by
  induction queue generalizing rq n data with
  | nil =>
    obtain ⟨k, rfl⟩ : ∃ k, n = k + max 1 rq.segments.length :=
      ⟨n - max 1 rq.segments.length, by simp [turnsFor] at hn; omega⟩
    rw [Request.cursor, ramhdReqLoop_request hend k data _ _ _ (hsegs rq (by simp))]
    rfl
  | cons rq' queue ih =>
    have hturns : turnsFor (rq :: rq' :: queue) =
        max 1 rq.segments.length + turnsFor (rq' :: queue) := by
      simp [turnsFor]
    obtain ⟨k, rfl⟩ : ∃ k, n = k + max 1 rq.segments.length :=
      ⟨n - max 1 rq.segments.length, by omega⟩
    rw [Request.cursor, ramhdReqLoop_request hend k data _ _ _ (hsegs rq (by simp)), ramhdRest,
      ih (fun r hr => hsegs r (by simp [hr])) (by omega)]
    rfl

theorem ramhdReqFunc_eq (hend : EndsCurrent blkEndRequestCur) {queue : List Request}
    (hsegs : ∀ rq ∈ queue, ∀ seg ∈ rq.segments, 512 ∣ seg.length) {n : ℕ}
    (hn : turnsFor queue ≤ n) (data : Space) :
    ramhdReqFunc blkEndRequestCur n data queue = some (transferAll data queue) := by
  cases queue with
  | nil => rfl
  | cons rq queue => exact ramhdReqLoop_eq hend hsegs hn data

/-- What is seen of the outcome of a queue when the cutting is left out. -/
def view (out : Space × List Ended) : Space × List (Int32 × List UInt8) :=
  (out.1, out.2.map fun e => (e.status, e.segments.flatten))

/-- The view of the plain model, with success for each transfer. -/
def plainView (data : Space) (ts : List Transfer) : Space × List (Int32 × List UInt8) :=
  let out := plainRun data ts
  (out.1, out.2.map fun buffer => (0, buffer))

/-- The copies of a request inside the device, whatever its cutting, are the plain transfer. -/
lemma InRange.copies {size : UInt64} {rq : Request} (h : InRange size rq) (data : Space) :
    let out := copySegments rq.dir data (rq.sector * 512) rq.segments
    out.1 = (plainStep data rq.transfer).1 ∧ out.2.flatten = (plainStep data rq.transfer).2 ∧
      out.2.map List.length = rq.segments.map List.length := by
  have hlen : rq.segments.flatten.length < 2^64 := by
    have hbytes := rq.bytes.toNat_lt
    rw [rq.sum]
    omega
  have hcopies := copySegments_flatten rq.dir data (rq.sector * 512) hlen
  rwa [h.copy_plain] at hcopies

theorem transferAll_plain {size : UInt64} {queue : List Request}
    (h : ∀ rq ∈ queue, InRange size rq) (data : Space) :
    view (transferAll data queue) = plainView data (queue.map Request.transfer) ∧
      (transferAll data queue).2.map (fun e => e.segments.map List.length) =
        queue.map fun rq => rq.segments.map List.length := by
  induction queue generalizing data with
  | nil => exact ⟨rfl, rfl⟩
  | cons rq queue ih =>
    obtain ⟨hdata, hflat, hlens⟩ := (h rq (by simp)).copies data
    obtain ⟨hview, hcut⟩ := ih (fun r hr => h r (by simp [hr])) (plainStep data rq.transfer).1
    have hview1 := congrArg Prod.fst hview
    have hview2 := congrArg Prod.snd hview
    simp only [view, plainView] at hview1 hview2
    refine ⟨?_, ?_⟩
    · simp only [view, plainView, transferAll, plainRun, List.map_cons, hdata, hflat, hview1,
        hview2]
    · simp only [transferAll, List.map_cons, hdata, hlens, hcut]

/-- The three request paths, on every queue of requests inside the device, however they are cut:
they leave the data and the buffers as the plain model does, end each request without an error
and keep its cutting. So they agree, and queues of the same transfers have the same outcome. -/
theorem request_paths_plain (hend : EndsCurrent blkEndRequestCur) {size : UInt64}
    {queue : List Request} (hrange : ∀ rq ∈ queue, InRange size rq) (data : Space) :
    let plain := plainView data (queue.map Request.transfer)
    let sample := sampleblkRequest size data queue
    let mkreq := ramhdMakeRequests size data queue
    view sample = plain ∧ view mkreq = plain ∧ sample = mkreq ∧
      (sample.2.map (fun e => e.segments.map List.length) =
        queue.map fun rq => rq.segments.map List.length) ∧
      ((∀ rq ∈ queue, ∀ seg ∈ rq.segments, 512 ∣ seg.length) →
        ∀ n ≥ turnsFor queue, ramhdReqFunc blkEndRequestCur n data queue = some sample) ∧
      ∀ queue', (∀ rq ∈ queue', InRange size rq) →
        queue'.map Request.transfer = queue.map Request.transfer →
        view (sampleblkRequest size data queue') = plain ∧
          view (ramhdMakeRequests size data queue') = plain ∧
          ((∀ rq ∈ queue', ∀ seg ∈ rq.segments, 512 ∣ seg.length) → ∀ n ≥ turnsFor queue',
            (ramhdReqFunc blkEndRequestCur n data queue').map view = some plain) := by
  intro plain sample mkreq
  have hsample : sample = transferAll data queue := sampleblkLoop_eq hrange data
  have hmkreq : mkreq = transferAll data queue := ramhdMakeRequests_eq hrange data
  obtain ⟨hview, hcut⟩ := transferAll_plain hrange data
  rw [hsample, hmkreq]
  refine ⟨hview, hview, rfl, hcut, fun hsegs n hn => ramhdReqFunc_eq hend hsegs hn data, ?_⟩
  intro queue' hrange' hsame
  have hview' := (transferAll_plain hrange' data).1
  rw [hsame] at hview'
  rw [sampleblkRequest, sampleblkLoop_eq hrange' data, ramhdMakeRequests_eq hrange' data]
  refine ⟨hview', hview', fun hsegs n hn => ?_⟩
  rw [ramhdReqFunc_eq hend hsegs hn data, Option.map_some, hview']

/-- The block layer's part of ending a segment. -/
def endCurrent : Cursor → Bool × Cursor
  | ⟨dir, pos, finished, []⟩ => (false, ⟨dir, pos, finished, []⟩)
  | ⟨dir, pos, finished, seg :: segs⟩ =>
    (decide (segs ≠ []), ⟨dir, pos + UInt64.ofNat (seg.length / 512), finished ++ [seg], segs⟩)

def block (n : ℕ) (b : UInt8) : List UInt8 := List.replicate n b

@[simp] lemma block_length (n : ℕ) (b : UInt8) : (block n b).length = n := List.length_replicate

/-- Two sectors are written in one piece each, and read back as one. -/
def writeThenRead : List Request :=
  [⟨.write, 1, 1024, [block 512 7, block 512 8], by simp⟩,
    ⟨.read, 1, 1024, [block 1024 0], by simp⟩]

theorem request_paths_plain_write_read :
    EndsCurrent endCurrent ∧ (∀ rq ∈ writeThenRead, InRange ramhdSize rq) ∧
      ramhdReqFunc endCurrent 3 (fun _ => 0) writeThenRead =
        some (sampleblkRequest ramhdSize (fun _ => 0) writeThenRead) := by
  have hend : EndsCurrent endCurrent := ⟨fun _ _ _ _ _ => rfl, fun _ _ _ => rfl⟩
  have hrange : ∀ rq ∈ writeThenRead, InRange ramhdSize rq := by
    simp only [writeThenRead, List.mem_cons, List.not_mem_nil, or_false, forall_eq_or_imp,
      forall_eq]
    exact ⟨by decide, by decide⟩
  have hplain := request_paths_plain hend hrange fun _ => 0
  refine ⟨hend, hrange, hplain.2.2.2.2.1 ?_ 3 ?_⟩
  · simp [writeThenRead]
  · simp [turnsFor, writeThenRead]

end LinuxLabs.RamDisk
