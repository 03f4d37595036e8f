import LinuxLabs.EventRun

/-! The event loop of the epoll server. A connection is accepted on the lowest free descriptor and
registered; at the end of file it is taken out of the interest set, but its descriptor is never
closed, so that every client that has left keeps one descriptor of the process. -/
namespace LinuxLabs.EpollServer
open EventRun

/-- The process of the server. The reserved descriptors are those that no connection gets: the
standard streams, the listening socket and the epoll instance. -/
structure Process where
  limit : ℕ
  reserved : Finset ℕ
  epollSockfd : ℕ
  listening : epollSockfd ∈ reserved

/-- The open client descriptors, the interest set, and the accepted connections whose end of file
the server has not seen. After `exit(1)` they stand as the exit has found them. -/
structure Server where
  opened : Finset ℕ
  interest : Finset ℕ
  live : Finset ℕ
  exited : Bool
  deriving DecidableEq

/-- An entry of `events`, with what `read` returns for its descriptor. -/
structure Event where
  fd : ℕ
  rdlen : ℤ
  deriving DecidableEq

variable (p : Process)

def init : Server := ⟨∅, {p.epollSockfd}, ∅, false⟩

def Process.available : Finset ℕ := Finset.range p.limit \ p.reserved

/-- How many clients can be connected at once. -/
def Process.capacity : ℕ := p.available.card

/-- The lowest free descriptor, none when all are in use. -/
def accept (s : Server) : Option ℕ :=
  (List.range p.limit).find? fun fd => fd ∉ p.reserved ∧ fd ∉ s.opened

def handle (s : Server) (ev : Event) : Server :=
  if s.exited then s
  else if ev.fd = p.epollSockfd then
    match accept p s with
    | none => { s with exited := true }
    | some clientFd =>
      { s with opened := insert clientFd s.opened, interest := insert clientFd s.interest,
               live := insert clientFd s.live }
  else if ev.rdlen > 0 then s
  -- EPOLL_CTL_DEL, and no close
  else if ev.rdlen = 0 then
    { s with interest := s.interest.erase ev.fd, live := s.live.erase ev.fd }
  else s

def turn : Machine Server Event Empty := ⟨handle p, fun _ _ => []⟩

/-- One round of `while(1)`: the events that `epoll_wait` has reported, one after the other. -/
def loop : Machine Server (List Event) Empty := ⟨(turn p).run, fun _ _ => []⟩

/-- What `epoll_wait` promises: it reports descriptors of the interest set. -/
def Reported (batches : List (List Event)) : Prop :=
  (loop p).Along (fun s batch => ∀ ev ∈ batch, ev.fd ∈ s.interest) (init p) batches

instance (batches : List (List Event)) : Decidable (Reported p batches) :=
  inferInstanceAs (Decidable ((loop p).Along _ _ _))

/-- Descriptors and interest set are in step, and the server has not given up early. -/
structure InStep (s : Server) : Prop where
  registered : s.opened = s.interest.erase p.epollSockfd
  connected : s.opened = s.live
  full : s.exited = true → p.capacity ≤ s.live.card

def connections (events : List Event) : ℕ := events.countP (·.fd = p.epollSockfd)

/-- The orderly close by a peer. -/
def Event.Close (ev : Event) : Prop := ev.fd ≠ p.epollSockfd ∧ ev.rdlen = 0

instance (ev : Event) : Decidable (ev.Close p) := inferInstanceAs (Decidable (_ ∧ _))

variable {p}

section Step
variable {s : Server}

lemma accept_some {fd : ℕ} (h : accept p s = some fd) : fd ∈ p.available ∧ fd ∉ s.opened := by
  have hfree := List.find?_some h
  have hmem := List.mem_of_find?_eq_some h
  simp only [decide_eq_true_eq] at hfree
  refine ⟨?_, hfree.2⟩
  rw [Process.available, Finset.mem_sdiff, Finset.mem_range]
  exact ⟨List.mem_range.mp hmem, hfree.1⟩

lemma accept_none (h : accept p s = none) : p.available ⊆ s.opened := by
  intro fd hfd
  rw [Process.available, Finset.mem_sdiff, Finset.mem_range] at hfd
  have hused := List.find?_eq_none.mp h fd (List.mem_range.mpr hfd.1)
  simp only [decide_eq_true_eq, not_and, not_not] at hused
  exact hused hfd.2

/-- What an event can do. -/
lemma handle_cases (ev : Event) :
    (handle p s ev = s ∧ (s.exited = true ∨ ev.fd ≠ p.epollSockfd ∧ ¬ ev.Close p)) ∨
    (s.exited = false ∧ ev.fd = p.epollSockfd ∧ accept p s = none ∧
      handle p s ev = { s with exited := true }) ∨
    (∃ fd, s.exited = false ∧ ev.fd = p.epollSockfd ∧ accept p s = some fd ∧ handle p s ev =
      ⟨insert fd s.opened, insert fd s.interest, insert fd s.live, false⟩) ∨
    (s.exited = false ∧ ev.Close p ∧ handle p s ev =
      { s with interest := s.interest.erase ev.fd, live := s.live.erase ev.fd }) := by
  unfold handle Event.Close
  cases hexit : s.exited with
  | true => simp
  | false =>
    by_cases hfd : ev.fd = p.epollSockfd
    · cases hacc : accept p s with
      | none => simp [hfd]
      | some fd => simp [hfd]
    · rcases lt_trichotomy ev.rdlen 0 with h | h | h
      · simp [hfd, h.ne]
      · simp [hfd, h]
      · simp [hfd, h, h.ne']

lemma handle_opened (s : Server) (ev : Event) : s.opened ⊆ (handle p s ev).opened := by
  rcases handle_cases (p := p) (s := s) ev with ⟨h, -⟩ | ⟨-, -, -, h⟩ | ⟨fd, -, -, -, h⟩ |
    ⟨-, -, h⟩ <;> simp [h]

lemma handle_interest (ev : Event) (h : s.interest ⊆ insert p.epollSockfd s.opened) :
    (handle p s ev).interest ⊆ insert p.epollSockfd (handle p s ev).opened := by
  rcases handle_cases (p := p) (s := s) ev with ⟨heq, -⟩ | ⟨-, -, -, heq⟩ | ⟨fd, -, -, -, heq⟩ |
    ⟨-, -, heq⟩ <;> rw [heq]
  · exact h
  · exact h
  · rw [Finset.insert_comm]
    exact Finset.insert_subset_insert fd h
  · exact (Finset.erase_subset _ _).trans h

/-- A descriptor that is open with its client gone. -/
def Leaked (s : Server) : Prop := ∃ fd ∈ s.opened, fd ∉ s.live

/-- Nothing closes a descriptor, and `accept` does not return one that is open. -/
lemma handle_leaked (ev : Event) (h : Leaked s) : Leaked (handle p s ev) := by
  obtain ⟨fd, hopen, hlive⟩ := h
  refine ⟨fd, handle_opened s ev hopen, ?_⟩
  rcases handle_cases (p := p) (s := s) ev with ⟨heq, -⟩ | ⟨-, -, -, heq⟩ |
    ⟨fd', -, -, hacc, heq⟩ | ⟨-, -, heq⟩ <;> rw [heq]
  · exact hlive
  · exact hlive
  · have hne : fd ≠ fd' := by
      rintro rfl
      exact (accept_some hacc).2 hopen
    simp [hne, hlive]
  · exact fun hmem => hlive (Finset.mem_of_mem_erase hmem)

lemma Leaked.not_inStep (h : Leaked s) : ¬ InStep p s := by
  obtain ⟨fd, hopen, hlive⟩ := h
  intro hs
  exact hlive (hs.connected ▸ hopen)

/-- The server after `n` connections, whoever has left. -/
structure Filled (p : Process) (s : Server) (n : ℕ) : Prop where
  opened : s.opened ⊆ p.available
  running : s.exited = false → s.opened.card = n
  stopped : s.exited = true → p.capacity < n

lemma Filled.exited_iff {n : ℕ} (h : Filled p s n) : s.exited = true ↔ p.capacity < n := by
  refine ⟨h.stopped, fun hn => ?_⟩
  by_contra hrun
  have hcard := h.running (by simpa using hrun)
  have hle := Finset.card_le_card h.opened
  rw [Process.capacity] at hn
  omega

lemma handle_filled {n : ℕ} (h : Filled p s n) (ev : Event) :
    Filled p (handle p s ev) (n + connections p [ev]) := by
  obtain ⟨hopen, hrun, hstop⟩ := h
  rcases handle_cases (p := p) (s := s) ev with ⟨heq, hev⟩ | ⟨hexit, hfd, hacc, heq⟩ |
    ⟨fd, hexit, hfd, hacc, heq⟩ | ⟨hexit, hclose, heq⟩ <;> rw [heq]
  · refine ⟨hopen, fun hexit => ?_, fun hexit => ?_⟩
    · obtain ⟨hfd, -⟩ := hev.resolve_left (by simp [hexit])
      simp [connections, hfd, hrun hexit]
    · have hn := hstop hexit
      omega
  · have hall := Finset.card_le_card (accept_none hacc)
    rw [← Process.capacity, hrun hexit] at hall
    refine ⟨hopen, fun hfalse => absurd hfalse (by simp), fun _ => ?_⟩
    simpa [connections, hfd, Nat.lt_succ_iff] using hall
  · obtain ⟨havail, hfree⟩ := accept_some hacc
    refine ⟨Finset.insert_subset havail hopen, fun _ => ?_, fun hfalse => absurd hfalse (by simp)⟩
    simp [connections, hfd, Finset.card_insert_of_notMem hfree, hrun hexit]
  · have hzero : connections p [ev] = 0 := by simp [connections, hclose.1]
    rw [hzero]
    exact ⟨hopen, hrun, hstop⟩

lemma available_ne {fd : ℕ} (h : fd ∈ p.available) : fd ≠ p.epollSockfd := by
  rintro rfl
  rw [Process.available, Finset.mem_sdiff] at h
  exact h.2 p.listening

/-- An event keeps the sets in step, unless it is the end of file of a client. -/
lemma handle_inStep (h : InStep p s) (ev : Event) (hev : ev.Close p → s.exited = true) :
    InStep p (handle p s ev) := by
  obtain ⟨hreg, hconn, hfull⟩ := h
  rcases handle_cases (p := p) (s := s) ev with ⟨heq, -⟩ | ⟨-, -, hacc, heq⟩ |
    ⟨fd, -, -, hacc, heq⟩ | ⟨hexit, hclose, heq⟩ <;> rw [heq]
  · exact ⟨hreg, hconn, hfull⟩
  · refine ⟨hreg, hconn, fun _ => ?_⟩
    rw [← hconn]
    exact Finset.card_le_card (accept_none hacc)
  · refine ⟨?_, ?_, fun hfalse => absurd hfalse (by simp)⟩
    · rw [Finset.erase_insert_of_ne (available_ne (accept_some hacc).1), ← hreg]
    · rw [hconn]
  · have hexit' := hev hclose
    rw [hexit] at hexit'
    exact absurd hexit' (by simp)

/-- The end of file of a client that is connected leaves its descriptor behind. -/
lemma handle_close {ev : Event} (hexit : s.exited = false) (hopen : ev.fd ∈ s.opened)
    (hclose : ev.Close p) : Leaked (handle p s ev) := by
  refine ⟨ev.fd, handle_opened s ev hopen, ?_⟩
  rcases handle_cases (p := p) (s := s) ev with ⟨-, hev⟩ | ⟨-, hfd, -, -⟩ | ⟨fd, -, hfd, -, -⟩ |
    ⟨-, -, heq⟩
  · rcases hev with h | h
    · simp [hexit] at h
    · exact absurd hclose h.2
  · exact absurd hfd hclose.1
  · exact absurd hfd hclose.1
  · rw [heq]
    exact Finset.notMem_erase _ _

end Step

section Run

lemma run_snoc (s : Server) (es : List Event) (ev : Event) :
    (turn p).run s (es ++ [ev]) = handle p ((turn p).run s es) ev := by
  rw [Machine.run_append]
  rfl

lemma run_filled (es : List Event) : Filled p ((turn p).run (init p) es) (connections p es) := by
  induction es using List.reverseRecOn with
  | nil => exact ⟨by simp [init], fun _ => rfl, fun h => by simp [init] at h⟩
  | append_singleton es ev ih =>
    rw [run_snoc, connections, List.countP_append]
    exact handle_filled ih ev

/-- The server exits at the first connection beyond its capacity, all connections counted since
its start. -/
theorem exited_iff_connections (es : List Event) :
    ((turn p).run (init p) es).exited = true ↔ p.capacity < connections p es :=
  (run_filled es).exited_iff

lemma inStep_init : InStep p (init p) := by
  refine ⟨?_, rfl, fun h => ?_⟩
  · simp [init]
  · simp [init] at h

lemma run_leaked {s : Server} (h : Leaked s) (es : List Event) : Leaked ((turn p).run s es) :=
  (turn p).run_invariant (P := Leaked) (fun _ ev hs => handle_leaked ev hs) h es

lemma run_opened (s : Server) (es : List Event) : s.opened ⊆ ((turn p).run s es).opened :=
  (turn p).run_invariant (P := fun s' => s.opened ⊆ s'.opened)
    (fun s' ev hs => hs.trans (handle_opened s' ev)) subset_rfl es

lemma along_opened {s : Server} {es : List Event} (h : ∀ ev ∈ es, ev.Close p → ev.fd ∈ s.opened) :
    (turn p).Along (fun s ev => ev.Close p → ev.fd ∈ s.opened) s es := by
  rw [Machine.along_iff]
  intro pre ev hpre hclose
  have hmem : ev ∈ es := hpre.subset (by simp)
  exact run_opened s pre (h ev hmem hclose)

lemma loop_run (s : Server) (batches : List (List Event)) :
    (loop p).run s batches = (turn p).run s batches.flatten := by
  induction batches generalizing s with
  | nil => rfl
  | cons batch batches ih =>
    rw [Machine.run_cons, ih, List.flatten_cons, Machine.run_append]
    rfl

/-- A client whose end of file is read is on an open descriptor: it was in the interest set when
its batch was waited for, and descriptors stay open. -/
lemma reported_opened {s : Server} {batches : List (List Event)}
    (hs : s.interest ⊆ insert p.epollSockfd s.opened)
    (h : (loop p).Along (fun s batch => ∀ ev ∈ batch, ev.fd ∈ s.interest) s batches) :
    (turn p).Along (fun s ev => ev.Close p → ev.fd ∈ s.opened) s batches.flatten := by
  induction batches generalizing s with
  | nil => trivial
  | cons batch batches ih =>
    obtain ⟨hbatch, hrest⟩ := h
    rw [List.flatten_cons, Machine.along_append]
    refine ⟨along_opened fun ev hev hclose => ?_, ih ?_ hrest⟩
    · exact (Finset.mem_insert.mp (hs (hbatch ev hev))).resolve_left hclose.1
    · exact (turn p).run_invariant (P := fun s => s.interest ⊆ insert p.epollSockfd s.opened)
        (fun _ ev hs => handle_interest ev hs) hs batch

/-- Descriptors, interest set and connected clients are in step between all batches exactly when
no client leaves before the server has exited, full as it is. -/
theorem descriptors_in_step_iff (batches : List (List Event)) (hrep : Reported p batches) :
    (∀ pre, pre <+: batches → InStep p ((loop p).run (init p) pre)) ↔
      ∀ pre ev, pre ++ [ev] <+: batches.flatten → ev.Close p → p.capacity < connections p pre := by
  constructor
  · intro hall pre ev hpre hclose
    have hopen := (Machine.along_iff _).mp (reported_opened (s := init p) (by simp [init]) hrep)
    have hend := hall batches List.prefix_rfl
    rw [← exited_iff_connections]
    by_contra hexit
    have hleak := handle_close (by simpa using hexit) (hopen pre ev hpre hclose) hclose
    -- what is left behind here is still open at the end
    obtain ⟨post, hpost⟩ := hpre
    have hlate := run_leaked (p := p) hleak post
    rw [← run_snoc, ← Machine.run_append, hpost, ← loop_run] at hlate
    exact hlate.not_inStep hend
  · intro hlate pre hpre
    obtain ⟨post, rfl⟩ := hpre
    rw [loop_run]
    refine (turn p).run_invariant_of (C := fun s ev => ev.Close p → s.exited = true)
      (fun _ ev hev hs => handle_inStep hs ev hev) inStep_init _ fun pre' ev hp hclose => ?_
    rw [exited_iff_connections]
    refine hlate pre' ev (hp.trans ?_) hclose
    rw [List.flatten_append]
    exact List.prefix_append _ _

/-- Five descriptors in use and room for one client. -/
def narrow : Process := ⟨6, {0, 1, 2, 3, 4}, 3, by decide⟩

theorem descriptors_in_step_full :
    Reported narrow [[⟨3, 0⟩], [⟨5, 7⟩], [⟨3, 0⟩, ⟨5, 0⟩]] ∧
      ∀ pre, pre <+: [[⟨3, 0⟩], [⟨5, 7⟩], [⟨3, 0⟩, ⟨5, 0⟩]] →
        InStep narrow ((loop narrow).run (init narrow) pre) := by
  have hrep : Reported narrow [[⟨3, 0⟩], [⟨5, 7⟩], [⟨3, 0⟩, ⟨5, 0⟩]] := by decide
  refine ⟨hrep, (descriptors_in_step_iff _ hrep).mpr ?_⟩
  -- the events one by one, each with those before it
  have hlate : ∀ pre ev, pre ++ [ev] <+: [⟨3, 0⟩, ⟨5, 7⟩, ⟨3, 0⟩, ⟨5, 0⟩] →
      ev.Close narrow → narrow.capacity < connections narrow pre := by
    iterate 4 refine forall_snoc_prefix_cons.mpr ⟨by decide, ?_⟩
    simp
  exact hlate

/-- The only client comes, leaves and comes again: the server gives up with nobody connected. -/
theorem reconnect_exits :
    Reported narrow [[⟨3, 0⟩], [⟨5, 0⟩], [⟨3, 0⟩]] ∧
      (loop narrow).run (init narrow) [[⟨3, 0⟩], [⟨5, 0⟩], [⟨3, 0⟩]] = ⟨{5}, {3}, ∅, true⟩ ∧
      narrow.capacity = 1 ∧
      ¬ ∀ pre, pre <+: [[⟨3, 0⟩], [⟨5, 0⟩], [⟨3, 0⟩]] →
        InStep narrow ((loop narrow).run (init narrow) pre) := by
  have hrun : (loop narrow).run (init narrow) [[⟨3, 0⟩], [⟨5, 0⟩], [⟨3, 0⟩]] =
      ⟨{5}, {3}, ∅, true⟩ := by
    decide
  refine ⟨by decide, hrun, by decide, fun hall => ?_⟩
  have hend := (hall _ List.prefix_rfl).connected
  rw [hrun] at hend
  exact absurd hend (by decide)

end Run

end LinuxLabs.EpollServer
