import LinuxLabs.EpollServer
import LinuxLabs.EpollClient

/-! The epoll server and its clients at work together. A connection waits until it is accepted,
bytes are in flight from the `write` of a client to a `read` of the server, and the server prints
what it has read. Descriptors are never closed, so a descriptor stands for one client for good. -/
namespace LinuxLabs.EpollStreams
open EventRun EpollServer EpollClient

def buflen : ℕ := 128

inductive Phase
  | started
  | connected
  | exited
  deriving DecidableEq

/-- A client, with what it has still to read and the bytes its socket has taken. -/
structure Client where
  stdin : List UInt8
  phase : Phase
  sent : List UInt8

/-- A round of the loop, and the bytes it puts on the way. Of a `write` the socket takes so many
bytes, none if it fails; the rest is not written again. -/
def Client.round (c : Client) (accepted : ℕ) : Client × List UInt8 :=
  let (buf, rest) := fgets room c.stdin
  if buf = [] then (c, [])
  else
    let out := (strlenBytes buf).take accepted
    ({ stdin := rest
       phase := if isQuit buf then .exited else .connected
       sent := c.sent ++ out }, out)

/-- `owner` tells the client at the other end of a descriptor, `pipe` what is in flight from a
client, and `reads` what the server has read, from which descriptor. -/
structure System where
  server : Server
  client : ℕ → Client
  backlog : List ℕ
  owner : ℕ → Option ℕ
  pipe : ℕ → List UInt8
  reads : List (ℕ × List UInt8)

/-- What can happen next: a client connects, a client goes round its loop, or the server handles a
descriptor. Then `read` fails or returns at most so many bytes and one more. -/
inductive Action
  | connect (c : ℕ)
  | round (c accepted : ℕ)
  | event (fd : ℕ) (n : Option ℕ)

variable (p : Process)

def System.connect (s : System) (c : ℕ) : System :=
  if (s.client c).phase = .started then
    { s with
      client := Function.update s.client c { s.client c with phase := .connected }
      backlog := s.backlog ++ [c] }
  else s

def System.round (s : System) (c accepted : ℕ) : System :=
  if (s.client c).phase = .connected then
    let (client, out) := (s.client c).round accepted
    { s with
      client := Function.update s.client c client
      pipe := Function.update s.pipe c (s.pipe c ++ out) }
  else s

/-- The server accepts the connection that has waited longest. -/
def System.accept (s : System) : System :=
  match s.backlog, EpollServer.accept p s.server with
  | [], _ => s
  | _ :: _, none => { s with server := handle p s.server ⟨p.epollSockfd, 0⟩ }
  | c :: backlog, some clientFd =>
    { s with
      server := handle p s.server ⟨p.epollSockfd, 0⟩
      backlog := backlog
      owner := Function.update s.owner clientFd (some c) }

/-- The server reads from a client. There is nothing to report while nothing is in flight and the
client has not closed its end. -/
def System.read (s : System) (fd c n : ℕ) : System :=
  let data := (s.pipe c).take (min (n + 1) buflen)
  if data ≠ [] then
    { s with
      server := handle p s.server ⟨fd, data.length⟩
      pipe := Function.update s.pipe c ((s.pipe c).drop data.length)
      reads := s.reads ++ [(fd, data)] }
  else if (s.client c).phase = .exited then { s with server := handle p s.server ⟨fd, 0⟩ }
  else s

/-- `epoll_wait` reports a descriptor of the interest set that is ready. -/
def System.event (s : System) (fd : ℕ) (n : Option ℕ) : System :=
  if s.server.exited ∨ fd ∉ s.server.interest then s
  else if fd = p.epollSockfd then s.accept p
  else
    match s.owner fd, n with
    | some c, some n => s.read p fd c n
    | _, _ => { s with server := handle p s.server ⟨fd, -1⟩ }

def System.apply (s : System) : Action → System
  | .connect c => s.connect c
  | .round c accepted => s.round c accepted
  | .event fd n => s.event p fd n

def system : Machine System Action Empty := ⟨System.apply p, fun _ _ => []⟩

def start (stdin : ℕ → List UInt8) : System :=
  ⟨init p, fun c => ⟨stdin c, .started, []⟩, [], fun _ => none, fun _ => [], []⟩

/-- What was read from a descriptor. -/
def System.readFrom (s : System) (fd : ℕ) : List UInt8 :=
  ((s.reads.filter fun r => r.1 = fd).map Prod.snd).flatten

/-- What `printf` shows of a read. `buf` was cleared before, and a read that fills it without a NUL
leaves none in it: then `printf` goes on behind it. -/
def shown (data : List UInt8) : Option (List UInt8) :=
  if data.length = buflen ∧ 0 ∉ data then none else some (strlenBytes data)

/-- The texts printed for a descriptor, none if one of them is read from behind `buf`. -/
def System.printed (s : System) (fd : ℕ) : Option (List UInt8) :=
  ((s.reads.filter fun r => r.1 = fd).mapM fun r => shown r.2).map List.flatten

/-- Every client is in one place, and what it has sent is what was read from it and what is in
flight. -/
structure Consistent (s : System) : Prop where
  opened : ∀ fd, fd ∈ s.server.opened ↔ ∃ c, s.owner fd = some c
  interest : s.server.interest ⊆ insert p.epollSockfd s.server.opened
  unique : ∀ fd fd' c, s.owner fd = some c → s.owner fd' = some c → fd = fd'
  waiting : ∀ c ∈ s.backlog, ∀ fd, s.owner fd ≠ some c
  nodup : s.backlog.Nodup
  started : ∀ c, (s.client c).phase = .started → c ∉ s.backlog ∧ ∀ fd, s.owner fd ≠ some c
  stream : ∀ fd c, s.owner fd = some c → s.readFrom fd ++ s.pipe c = (s.client c).sent
  unread : ∀ c, (∀ fd, s.owner fd ≠ some c) → s.pipe c = (s.client c).sent
  fresh : ∀ fd, s.owner fd = none → s.readFrom fd = []
  text : ∀ c, 0 ∉ (s.client c).sent
  closed : ∀ fd c, s.owner fd = some c → fd ∉ s.server.interest →
    (s.client c).phase = .exited ∧ s.pipe c = []

variable {p}

lemma readFrom_snoc {s s' : System} {fd : ℕ} {data : List UInt8}
    (h : s'.reads = s.reads ++ [(fd, data)]) (fd' : ℕ) :
    s'.readFrom fd' = s.readFrom fd' ++ if fd = fd' then data else [] := by
  by_cases hfd : fd = fd'
  · simp [System.readFrom, h, hfd]
  · simp [System.readFrom, h, hfd]

lemma notMem_strlenBytes (buf : List UInt8) : 0 ∉ strlenBytes buf := by
  intro hmem
  have := List.mem_takeWhile_imp hmem
  simp at this

lemma Client.round_cases (c : Client) (accepted : ℕ) :
    c.round accepted = (c, []) ∨
      ∃ out client, c.round accepted = (client, out) ∧ client.sent = c.sent ++ out ∧ 0 ∉ out ∧
        client.phase ≠ .started := by
  unfold Client.round
  obtain ⟨buf, rest, hbuf⟩ : ∃ buf rest, fgets room c.stdin = (buf, rest) := ⟨_, _, rfl⟩
  rw [hbuf]
  simp only
  split_ifs with hnil hquit
  · exact .inl rfl
  · exact .inr ⟨_, _, rfl, rfl, fun hmem => notMem_strlenBytes buf (List.mem_of_mem_take hmem),
      by simp⟩
  · exact .inr ⟨_, _, rfl, rfl, fun hmem => notMem_strlenBytes buf (List.mem_of_mem_take hmem),
      by simp⟩

lemma start_consistent (stdin : ℕ → List UInt8) : Consistent p (start p stdin) := by
  constructor <;> simp [start, init, System.readFrom]

lemma Consistent.connect {s : System} (h : Consistent p s) (c : ℕ) :
    Consistent p (s.connect c) := by
  unfold System.connect
  split_ifs with hphase
  · obtain ⟨hnot, howner⟩ := h.started c hphase
    have hsent : ∀ c', (Function.update s.client c
        { s.client c with phase := .connected } c').sent = (s.client c').sent := by
      intro c'
      rcases eq_or_ne c' c with rfl | hne
      · simp
      · simp [hne]
    refine ⟨h.opened, h.interest, h.unique, ?_, ?_, ?_, ?_, ?_, h.fresh, ?_, ?_⟩
    · intro c' hc'
      rcases List.mem_append.mp hc' with hc' | hc'
      · exact h.waiting c' hc'
      · rw [List.mem_singleton.mp hc']
        exact howner
    · rw [List.nodup_append_comm]
      exact List.nodup_cons.mpr ⟨hnot, h.nodup⟩
    · intro c' hc'
      rcases eq_or_ne c' c with rfl | hne
      · simp at hc'
      · simpa [hne] using h.started c' (by simpa [hne] using hc')
    · intro fd c' hc'
      rw [hsent]
      exact h.stream fd c' hc'
    · intro c' hc'
      rw [hsent]
      exact h.unread c' hc'
    · intro c'
      rw [hsent]
      exact h.text c'
    · intro fd c' hc' hfd
      have hne : c' ≠ c := fun heq => howner fd (heq ▸ hc')
      simpa [hne] using h.closed fd c' hc' hfd
  · exact h

lemma Consistent.round {s : System} (h : Consistent p s) (c accepted : ℕ) :
    Consistent p (s.round c accepted) := by
  unfold System.round
  split_ifs with hphase
  · rcases Client.round_cases (s.client c) accepted with hround | ⟨out, client, hround, hsent, hout,
      hstarted⟩
    · simpa [hround] using h
    · rw [hround]
      refine ⟨h.opened, h.interest, h.unique, h.waiting, h.nodup, ?_, ?_, ?_, h.fresh, ?_, ?_⟩
      · intro c' hc'
        rcases eq_or_ne c' c with rfl | hne
        · simp [hstarted] at hc'
        · exact h.started c' (by simpa [hne] using hc')
      · intro fd c' hc'
        change s.readFrom fd ++ _ = _
        rcases eq_or_ne c' c with rfl | hne
        · simpa [hsent, ← List.append_assoc] using h.stream fd c' hc'
        · simpa [hne] using h.stream fd c' hc'
      · intro c' hc'
        rcases eq_or_ne c' c with rfl | hne
        · simpa [hsent] using h.unread c' hc'
        · simpa [hne] using h.unread c' hc'
      · intro c'
        rcases eq_or_ne c' c with rfl | hne
        · simpa [hsent, hout] using h.text c'
        · simpa [hne] using h.text c'
      · intro fd c' hc' hfd
        have hexited := h.closed fd c' hc' hfd
        have hne : c' ≠ c := by
          rintro rfl
          simp [hphase] at hexited
        simpa [hne] using hexited
  · exact h

lemma Consistent.accept {s : System} (h : Consistent p s) (hexit : s.server.exited = false) :
    Consistent p (s.accept p) := by
  unfold System.accept
  split
  · exact h
  case h_2 c backlog hbacklog hacc =>
    have heq : handle p s.server ⟨p.epollSockfd, 0⟩ = { s.server with exited := true } := by
      simp [handle, hexit, hacc]
    rw [heq]
    exact ⟨h.opened, h.interest, h.unique, h.waiting, h.nodup, h.started, h.stream, h.unread,
      h.fresh, h.text, h.closed⟩
  case h_3 c backlog clientFd hbacklog hacc =>
    obtain ⟨-, hfree⟩ := accept_some hacc
    have hnone : s.owner clientFd = none := by
      rw [Option.eq_none_iff_forall_not_mem]
      exact fun c' hc' => hfree ((h.opened clientFd).mpr ⟨c', hc'⟩)
    have hc : ∀ fd, s.owner fd ≠ some c := h.waiting c (by simp [hbacklog])
    have hnodup := h.nodup
    rw [hbacklog, List.nodup_cons] at hnodup
    -- every descriptor but the new one is as it was
    have hold : ∀ fd c', Function.update s.owner clientFd (some c) fd = some c' →
        fd = clientFd ∧ c' = c ∨ fd ≠ clientFd ∧ c' ≠ c ∧ s.owner fd = some c' := by
      intro fd c' hc'
      rcases eq_or_ne fd clientFd with rfl | hne
      · simp only [Function.update_self, Option.some.injEq] at hc'
        exact .inl ⟨rfl, hc'.symm⟩
      · rw [Function.update_of_ne hne] at hc'
        exact .inr ⟨hne, fun heq => hc fd (heq ▸ hc'), hc'⟩
    have heq : handle p s.server ⟨p.epollSockfd, 0⟩ = ⟨insert clientFd s.server.opened,
        insert clientFd s.server.interest, insert clientFd s.server.live, false⟩ := by
      simp [handle, hexit, hacc]
    rw [heq]
    refine ⟨fun fd => ?_, ?_, ?_, ?_, hnodup.2, ?_, ?_, ?_, ?_, h.text, ?_⟩
    · rcases eq_or_ne fd clientFd with rfl | hne
      · simp
      · simp [hne, h.opened]
    · rw [Finset.insert_comm]
      exact Finset.insert_subset_insert clientFd h.interest
    · intro fd fd' c' hfd hfd'
      rcases hold fd c' hfd with ⟨rfl, rfl⟩ | ⟨-, hne, hfd⟩
      · rcases hold fd' c' hfd' with ⟨rfl, -⟩ | ⟨-, hne, -⟩
        · rfl
        · exact absurd rfl hne
      · rcases hold fd' c' hfd' with ⟨-, rfl⟩ | ⟨-, -, hfd'⟩
        · exact absurd rfl hne
        · exact h.unique fd fd' c' hfd hfd'
    · intro c' hc' fd hfd
      rcases hold fd c' hfd with ⟨-, rfl⟩ | ⟨-, -, hfd⟩
      · exact hnodup.1 hc'
      · exact h.waiting c' (by simp [hbacklog, hc']) fd hfd
    · intro c' hc'
      obtain ⟨hnot, howner⟩ := h.started c' hc'
      rw [hbacklog, List.mem_cons, not_or] at hnot
      refine ⟨hnot.2, fun fd hfd => ?_⟩
      rcases hold fd c' hfd with ⟨-, rfl⟩ | ⟨-, -, hfd⟩
      · exact hnot.1 rfl
      · exact howner fd hfd
    · intro fd c' hfd
      change s.readFrom fd ++ _ = _
      rcases hold fd c' hfd with ⟨rfl, rfl⟩ | ⟨-, -, hfd⟩
      · rw [h.fresh fd hnone, List.nil_append]
        exact h.unread c' hc
      · exact h.stream fd c' hfd
    · intro c' hc'
      refine h.unread c' fun fd hfd => hc' fd ?_
      have hne : fd ≠ clientFd := by
        rintro rfl
        simp [hnone] at hfd
      simpa [hne] using hfd
    · intro fd hfd
      rcases eq_or_ne fd clientFd with rfl | hne
      · simp at hfd
      · exact h.fresh fd (by simpa [hne] using hfd)
    · intro fd c' hfd hint
      rcases hold fd c' hfd with ⟨rfl, -⟩ | ⟨hne, -, hfd⟩
      · simp at hint
      · exact h.closed fd c' hfd (by simpa [hne] using hint)

lemma Consistent.read {s : System} (h : Consistent p s) (hexit : s.server.exited = false)
    {fd c : ℕ} (hfd : fd ≠ p.epollSockfd) (howner : s.owner fd = some c) (n : ℕ) :
    Consistent p (s.read p fd c n) := by
  unfold System.read
  generalize hdata : (s.pipe c).take (min (n + 1) buflen) = data
  dsimp only
  split_ifs with hnil hphase
  · have hpos := List.length_pos_of_ne_nil hnil
    have heq : handle p s.server ⟨fd, data.length⟩ = s.server := by
      simp [handle, hexit, hfd, hpos]
    have hpipe : data ++ (s.pipe c).drop data.length = s.pipe c :=
      List.prefix_iff_eq_append.mp (hdata ▸ List.take_prefix _ _)
    rw [heq]
    refine ⟨h.opened, h.interest, h.unique, h.waiting, h.nodup, h.started, ?_, ?_, ?_, h.text, ?_⟩
    · intro fd' c' hfd'
      have hstream := h.stream fd' c' hfd'
      rw [readFrom_snoc (s := s) rfl, List.append_assoc]
      rcases eq_or_ne c' c with rfl | hne
      · obtain rfl := h.unique fd' fd c' hfd' howner
        simpa [hpipe] using hstream
      · have hne' : fd ≠ fd' := by
          rintro rfl
          exact hne (Option.some.inj (hfd'.symm.trans howner))
        simpa [hne, hne'] using hstream
    · intro c' hc'
      have hne : c' ≠ c := fun heq => hc' fd (heq ▸ howner)
      simpa [hne] using h.unread c' hc'
    · intro fd' hfd'
      have hne : fd ≠ fd' := by
        rintro rfl
        simp [howner] at hfd'
      rw [readFrom_snoc (s := s) rfl, h.fresh fd' hfd']
      simp [hne]
    · intro fd' c' hfd' hint
      obtain ⟨hexited, hempty⟩ := h.closed fd' c' hfd' hint
      have hne : c' ≠ c := by
        rintro rfl
        rw [hempty, List.append_eq_nil_iff] at hpipe
        exact hnil hpipe.1
      exact ⟨hexited, by simpa [hne] using hempty⟩
  · have heq : handle p s.server ⟨fd, 0⟩ = { s.server with
        interest := s.server.interest.erase fd, live := s.server.live.erase fd } := by
      simp [handle, hexit, hfd]
    have hempty : s.pipe c = [] := by
      have htake := List.take_eq_nil_iff.mp (hdata.trans (not_not.mp hnil))
      exact htake.resolve_left (by simp [buflen])
    rw [heq]
    refine ⟨h.opened, (Finset.erase_subset _ _).trans h.interest, h.unique, h.waiting, h.nodup,
      h.started, h.stream, h.unread, h.fresh, h.text, fun fd' c' hfd' hint => ?_⟩
    rcases eq_or_ne fd' fd with rfl | hne
    · obtain rfl : c' = c := Option.some.inj (hfd'.symm.trans howner)
      exact ⟨hphase, hempty⟩
    · exact h.closed fd' c' hfd' fun hmem => hint (Finset.mem_erase.mpr ⟨hne, hmem⟩)
  · exact h

lemma Consistent.event {s : System} (h : Consistent p s) (fd : ℕ) (n : Option ℕ) :
    Consistent p (s.event p fd n) := by
  unfold System.event
  split_ifs with hskip hfd
  · exact h
  · exact h.accept (by simpa using fun hexit => hskip (.inl hexit))
  · have hexit : s.server.exited = false := by simpa using fun hexit => hskip (.inl hexit)
    have heq : handle p s.server ⟨fd, -1⟩ = s.server := by simp [handle, hfd]
    split
    case h_1 c n howner => exact h.read hexit hfd howner n
    · rwa [heq]

lemma apply_consistent {s : System} (h : Consistent p s) (a : Action) :
    Consistent p (s.apply p a) := by
  cases a with
  | connect c => exact h.connect c
  | round c accepted => exact h.round c accepted
  | event fd n => exact h.event fd n

lemma run_consistent (stdin : ℕ → List UInt8) (as : List Action) :
    Consistent p ((system p).run (start p stdin) as) :=
  (system p).run_invariant (P := Consistent p) (fun _ a hs => apply_consistent hs a)
    (start_consistent stdin) as

/-- What a client sends has no NUL in it. -/
lemma Consistent.notMem_reads {s : System} (h : Consistent p s) {fd : ℕ} {data : List UInt8}
    (hdata : (fd, data) ∈ s.reads) : 0 ∉ data := by
  have hzero : 0 ∉ s.readFrom fd := by
    cases howner : s.owner fd with
    | none => simp [h.fresh fd howner]
    | some c =>
      intro hmem
      exact h.text c (h.stream fd c howner ▸ List.mem_append_left _ hmem)
  intro hmem
  refine hzero (List.mem_flatten.mpr ⟨data, ?_, hmem⟩)
  exact List.mem_map.mpr ⟨(fd, data), by simp [hdata], rfl⟩

lemma mapM_shown {reads : List (ℕ × List UInt8)} (h : ∀ r ∈ reads, 0 ∉ r.2) :
    (reads.mapM fun r => shown r.2) =
      if ∀ r ∈ reads, r.2.length ≠ buflen then some (reads.map Prod.snd) else none := by
  induction reads with
  | nil => simp
  | cons r reads ih =>
    have hr : 0 ∉ r.2 := h r (by simp)
    rw [List.mapM_cons, ih fun r' hr' => h r' (by simp [hr'])]
    simp only [List.forall_mem_cons]
    by_cases hlen : r.2.length = buflen
    · simp [shown, hlen, hr]
    · have hshown : shown r.2 = some r.2 := by
        rw [shown, if_neg fun hfull => hlen hfull.1, strlenBytes_eq hr]
      rw [hshown]
      by_cases hrest : ∀ r ∈ reads, r.2.length ≠ buflen
      · rw [if_pos hrest, if_pos ⟨hlen, hrest⟩]
        rfl
      · rw [if_neg hrest, if_neg fun hall => hrest hall.2]
        rfl

/-- What is read is printed as it is, unless one of the reads fills `buf`. -/
lemma Consistent.printed_eq {s : System} (h : Consistent p s) (fd : ℕ) :
    s.printed fd = if ∀ r ∈ s.reads, r.1 = fd → r.2.length ≠ buflen then
      some (s.readFrom fd) else none := by
  have hzero : ∀ r ∈ s.reads.filter (fun r => r.1 = fd), 0 ∉ r.2 :=
    fun r hr => h.notMem_reads (List.mem_filter.mp hr).1
  rw [System.printed, mapM_shown hzero]
  simp only [List.mem_filter, decide_eq_true_eq, and_imp]
  split_ifs with hall
  · rfl
  · rfl

lemma event_client (s : System) (fd : ℕ) (n : Option ℕ) : (s.event p fd n).client = s.client := by
  unfold System.event System.accept System.read
  dsimp only
  repeat' split
  all_goals rfl

/-- An event keeps the client of a descriptor: `accept` returns a new one. -/
lemma Consistent.event_owner {s : System} (h : Consistent p s) {fd c : ℕ}
    (howner : s.owner fd = some c) (fd' : ℕ) (n : Option ℕ) :
    (s.event p fd' n).owner fd = some c := by
  unfold System.event
  split_ifs
  · exact howner
  · unfold System.accept
    split
    · exact howner
    · exact howner
    case h_3 c' backlog clientFd hbacklog hacc =>
      have hne : fd ≠ clientFd := by
        rintro rfl
        exact (accept_some hacc).2 ((h.opened fd).mpr ⟨c, howner⟩)
      simpa [hne] using howner
  · split
    · unfold System.read
      dsimp only
      split_ifs <;> exact howner
    · exact howner

lemma connect_owner (s : System) (c : ℕ) : (s.connect c).owner = s.owner := by
  unfold System.connect
  split_ifs <;> rfl

lemma round_owner (s : System) (c accepted : ℕ) : (s.round c accepted).owner = s.owner := by
  unfold System.round
  split_ifs <;> rfl

/-- A descriptor keeps its client. -/
lemma run_owner {s : System} (h : Consistent p s) {fd c : ℕ} (howner : s.owner fd = some c)
    (as : List Action) : ((system p).run s as).owner fd = some c := by
  refine ((system p).run_invariant (P := fun s => Consistent p s ∧ s.owner fd = some c)
    (fun s a hs => ?_) ⟨h, howner⟩ as).2
  obtain ⟨hs, hfd⟩ := hs
  refine ⟨apply_consistent hs a, ?_⟩
  cases a with
  | connect c' => exact (congrFun (connect_owner s c') fd).trans hfd
  | round c' accepted => exact (congrFun (round_owner s c' accepted) fd).trans hfd
  | event fd' n => exact hs.event_owner hfd fd' n

/-- What a client is still going to send. -/
def Client.unsent (c : Client) : List UInt8 := if c.phase = .exited then [] else (session c.stdin).1

/-- A round whose `write` is complete sends the first piece of what is left. -/
lemma Client.round_session {c : Client} (hphase : c.phase = .connected) {accepted : ℕ}
    (haccepted : room ≤ accepted) :
    (c.round accepted).1.sent ++ (c.round accepted).1.unsent = c.sent ++ c.unsent := by
  obtain ⟨buf, rest, hbuf⟩ : ∃ buf rest, fgets room c.stdin = (buf, rest) := ⟨_, _, rfl⟩
  have htake : (strlenBytes buf).take accepted = strlenBytes buf := by
    refine List.take_of_length_le ?_
    have hlen := (List.takeWhile_prefix (l := buf) (· ≠ 0)).length_le
    have hroom := buf_length_le hbuf
    rw [strlenBytes]
    omega
  by_cases hnil : buf = []
  · simp [Client.round, hbuf, hnil]
  · have hsession := session_eq hbuf hnil
    cases hquit : isQuit buf with
    | true => simp [Client.round, hbuf, hnil, htake, Client.unsent, hphase, hsession, hquit]
    | false => simp [Client.round, hbuf, hnil, htake, Client.unsent, hphase, hsession, hquit]

/-- Every write of this client takes all the bytes it is given. -/
def Complete (c : ℕ) (as : List Action) : Prop := ∀ n, Action.round c n ∈ as → room ≤ n

lemma run_session (stdin : ℕ → List UInt8) {c : ℕ} {as : List Action} (hcomplete : Complete c as) :
    let client := ((system p).run (start p stdin) as).client c
    client.sent ++ client.unsent = (session (stdin c)).1 := by
  refine (system p).run_invariant_of
    (P := fun s => (s.client c).sent ++ (s.client c).unsent = (session (stdin c)).1)
    (C := fun _ a => ∀ n, a = .round c n → room ≤ n) (fun s a ha hs => ?_) ?_ as ?_
  · cases a with
    | connect c' =>
      change ((s.connect c').client c).sent ++ ((s.connect c').client c).unsent = _
      unfold System.connect
      split_ifs with hphase
      · rcases eq_or_ne c c' with rfl | hne
        · simpa [Client.unsent, hphase] using hs
        · simpa [hne] using hs
      · exact hs
    | round c' accepted =>
      change ((s.round c' accepted).client c).sent ++ ((s.round c' accepted).client c).unsent = _
      unfold System.round
      split_ifs with hphase
      · rcases eq_or_ne c c' with rfl | hne
        · simpa [Client.round_session hphase (ha accepted rfl)] using hs
        · simpa [hne] using hs
      · exact hs
    | event fd n =>
      change ((s.event p fd n).client c).sent ++ ((s.event p fd n).client c).unsent = _
      rwa [event_client]
  · simp [start, Client.unsent]
  · intro pre a hpre n ha
    exact hcomplete n (hpre.subset (by simp [ha]))

/-- Whatever the order of connections, rounds and reads, each descriptor stands for one client for
good, and what is read from it is what that client has sent without what is in flight: nothing is
lost, doubled or mixed up. It is printed as it is exactly if no read fills `buf`. If all writes of
the client are complete it is the beginning of its session, and all of it once the descriptor is out
of the interest set. -/
theorem streams_intact (p : Process) (stdin : ℕ → List UInt8) (as : List Action) {fd : ℕ}
    (hfd : fd ∈ ((system p).run (start p stdin) as).server.opened) :
    let s := (system p).run (start p stdin) as
    ∃ c, s.owner fd = some c ∧ (∀ fd', s.owner fd' = some c → fd' = fd) ∧
      (∀ later, ((system p).run s later).owner fd = some c) ∧
      s.readFrom fd ++ s.pipe c = (s.client c).sent ∧
      (s.printed fd = if ∀ r ∈ s.reads, r.1 = fd → r.2.length ≠ buflen then
        some (s.readFrom fd) else none) ∧
      (Complete c as → s.readFrom fd <+: (session (stdin c)).1 ∧
        (fd ∉ s.server.interest → s.readFrom fd = (session (stdin c)).1)) := by
  intro s
  have hs : Consistent p s := run_consistent stdin as
  obtain ⟨c, howner⟩ := (hs.opened fd).mp hfd
  have hstream := hs.stream fd c howner
  refine ⟨c, howner, fun fd' hfd' => hs.unique fd' fd c hfd' howner, run_owner hs howner, hstream,
    hs.printed_eq fd, fun hcomplete => ?_⟩
  have hsession := run_session (p := p) stdin hcomplete
  refine ⟨?_, fun hint => ?_⟩
  · rw [← hsession, ← hstream, List.append_assoc]
    exact List.prefix_append _ _
  · obtain ⟨hexited, hempty⟩ := hs.closed fd c howner hint
    rw [hempty, List.append_nil] at hstream
    have hunsent : (s.client c).unsent = [] := if_pos hexited
    rw [← hsession, hstream]
    exact ((congrArg _ hunsent).trans (List.append_nil _)).symm

/-- A client connects, sends `quit` and leaves, and the server reads until the end of file. -/
def visit : List Action :=
  [.connect 0, .event 3 (some 0), .round 0 126, .event 5 (some 1), .event 5 (some 9),
    .event 5 (some 0)]

theorem streams_intact_visit :
    let s := (system narrow).run (start narrow fun _ => quitStr ++ [newline]) visit
    5 ∈ s.server.opened ∧
      ∃ c, s.owner 5 = some c ∧ s.readFrom 5 ++ s.pipe c = (s.client c).sent := by
  have hfd : 5 ∈ ((system narrow).run (start narrow fun _ => quitStr ++ [newline])
      visit).server.opened := by
    decide
  obtain ⟨c, howner, -, -, hstream, -⟩ := streams_intact narrow _ visit hfd
  exact ⟨hfd, c, howner, hstream⟩

end LinuxLabs.EpollStreams
