import Mathlib

/-! The loop of the epoll client. `fgets` cuts what is typed into pieces of at most 126 bytes, each
is written to the socket up to its first NUL, and a piece that begins with `quit` is the last one. A
long line is cut into several pieces, and each of them can be taken for `quit`. -/
namespace LinuxLabs.EpollClient

def bufln : ℕ := 128

def newline : UInt8 := 10

/-- `QUIT_STR`. -/
def quitStr : List UInt8 := [113, 117, 105, 116]

/-- What `fgets` with room for so many bytes reads, and what it leaves in the stream. -/
def fgets : ℕ → List UInt8 → List UInt8 × List UInt8
  | 0, stdin => ([], stdin)
  | _ + 1, [] => ([], [])
  | n + 1, b :: stdin =>
    if b = newline then ([b], stdin)
    else
      let (line, rest) := fgets n stdin
      (b :: line, rest)

/-- `fgets(buf, BUFLN-1, stdin)` keeps one byte for the terminator. -/
def room : ℕ := bufln - 1 - 1

/-- The `strlen (buf)` bytes that are written. -/
def strlenBytes (buf : List UInt8) : List UInt8 := buf.takeWhile (· ≠ 0)

def tolower (b : UInt8) : UInt8 := if 65 ≤ b ∧ b ≤ 90 then b + 32 else b

/-- `!strncasecmp(buf,QUIT_STR,strlen(QUIT_STR))`. -/
def isQuit (buf : List UInt8) : Bool := (buf.take quitStr.length).map tolower == quitStr

/-- The rounds of `while(1)`: the bytes written, and whether the client has left the loop. At the
end of its input it goes round for ever and writes nothing. -/
def rounds : ℕ → List UInt8 → List UInt8 × Bool
  | 0, _ => ([], false)
  | n + 1, stdin =>
    let (buf, rest) := fgets room stdin
    if buf = [] then rounds n stdin
    else if isQuit buf then (strlenBytes buf, true)
    else
      let (sent, quit) := rounds n rest
      (strlenBytes buf ++ sent, quit)

/-- As many rounds as there can be something to read. -/
def session (stdin : List UInt8) : List UInt8 × Bool := rounds stdin.length stdin

/-- At this place of the input a piece can begin: it is the beginning of a line, or a multiple of
126 bytes behind it in the same line. -/
def Begins (stdin : List UInt8) (k : ℕ) : Prop :=
  k < stdin.length ∧ ∃ start ≤ k, (start = 0 ∨ stdin[start - 1]? = some newline) ∧
    (∀ i, start ≤ i → i < k → stdin[i]? ≠ some newline) ∧ room ∣ k - start

lemma fgets_append (n : ℕ) (stdin : List UInt8) :
    (fgets n stdin).1 ++ (fgets n stdin).2 = stdin := by
  fun_induction fgets n stdin with
  | case1 stdin => rfl
  | case2 n => rfl
  | case3 n stdin => rfl
  | case4 n b stdin hb line rest heq ih =>
    rw [heq] at ih
    simp [ih]

/-- A piece ends with the first newline, is as long as the room, or is the end of the input. -/
lemma fgets_cases (n : ℕ) (stdin : List UInt8) :
    (∃ line, (fgets n stdin).1 = line ++ [newline] ∧ newline ∉ line ∧ line.length < n) ∨
      newline ∉ (fgets n stdin).1 ∧
        ((fgets n stdin).1.length = n ∨ (fgets n stdin).1.length < n ∧ (fgets n stdin).2 = []) := by
  fun_induction fgets n stdin with
  | case1 stdin => simp
  | case2 n => simp
  | case3 n stdin => exact .inl ⟨[], by simp⟩
  | case4 n b stdin hb line rest heq ih =>
    rw [heq] at ih
    rcases ih with ⟨l, hl, hnew, hlen⟩ | ⟨hnew, hlen⟩
    · refine .inl ⟨b :: l, by simpa using hl, ?_, by simpa using hlen⟩
      simpa [hnew] using Ne.symm hb
    · refine .inr ⟨by simpa [hnew] using Ne.symm hb, ?_⟩
      simpa using hlen

lemma fgets_length_le (n : ℕ) (stdin : List UInt8) : (fgets n stdin).1.length ≤ n := by
  rcases fgets_cases n stdin with ⟨line, heq, -, hlen⟩ | ⟨-, hlen | ⟨hlen, -⟩⟩
  · simpa [heq] using hlen
  · exact hlen.le
  · exact hlen.le

/-- A newline is the last byte of its piece. -/
lemma fgets_newline {n i : ℕ} (stdin : List UInt8) (h : (fgets n stdin).1[i]? = some newline) :
    i + 1 = (fgets n stdin).1.length := by
  rcases fgets_cases n stdin with ⟨line, heq, hnew, -⟩ | ⟨hnew, -⟩
  · rw [heq] at h ⊢
    have hi := (List.getElem?_eq_some_iff.mp h).1
    simp only [List.length_append, List.length_singleton] at hi ⊢
    by_contra hne
    rw [List.getElem?_append_left (by omega)] at h
    exact hnew (List.mem_of_getElem? h)
  · exact absurd (List.mem_of_getElem? h) hnew

lemma fgets_eq_nil {n : ℕ} {stdin : List UInt8} (h : (fgets (n + 1) stdin).1 = []) :
    stdin = [] := by
  cases stdin with
  | nil => rfl
  | cons b stdin =>
    rw [fgets] at h
    split_ifs at h

section Piece
variable {stdin buf rest : List UInt8} (h : fgets room stdin = (buf, rest))
include h

lemma stdin_eq : stdin = buf ++ rest := by
  have happend := fgets_append room stdin
  rw [h] at happend
  exact happend.symm

lemma newline_last {i : ℕ} (hi : buf[i]? = some newline) : i + 1 = buf.length := by
  have hlast := fgets_newline stdin (by rwa [h])
  rwa [h] at hlast

lemma buf_length_le : buf.length ≤ room := by
  have hlen := fgets_length_le room stdin
  rwa [h] at hlen

/-- If something is left, the piece is a whole line or all the room. -/
lemma buf_end (hrest : rest ≠ []) :
    buf ≠ [] ∧ (buf[buf.length - 1]? = some newline ∨
      buf.length = room ∧ ∀ i : ℕ, buf[i]? ≠ some newline) := by
  have hcases := fgets_cases room stdin
  rw [h] at hcases
  rcases hcases with ⟨line, rfl, -, -⟩ | ⟨hnew, hlen | ⟨-, hnil⟩⟩
  · simp
  · refine ⟨?_, .inr ⟨hlen, fun i hi => hnew (List.mem_of_getElem? hi)⟩⟩
    rintro rfl
    simp [room, bufln] at hlen
  · exact absurd hnil hrest

/-- No piece begins inside of another one. -/
lemma not_begins_inside {k : ℕ} (hpos : 0 < k) (hk : k < buf.length) : ¬ Begins stdin k := by
  rintro ⟨-, start, hstart, hline, -, hdvd⟩
  rcases hline with rfl | hline
  · have hle := Nat.le_of_dvd (by omega) hdvd
    have hroom := buf_length_le h
    omega
  · rw [stdin_eq h, List.getElem?_append_left (by omega)] at hline
    have hlast := newline_last h hline
    omega

/-- Behind a piece, pieces begin where they do in what is left. -/
lemma begins_add (j : ℕ) : Begins stdin (buf.length + j) ↔ Begins rest j := by
  have hleft : ∀ i, i < buf.length → stdin[i]? = buf[i]? := fun i hi => by
    rw [stdin_eq h, List.getElem?_append_left hi]
  have hright : ∀ i, stdin[buf.length + i]? = rest[i]? := fun i => by
    rw [stdin_eq h, List.getElem?_append_right (by omega), Nat.add_sub_cancel_left]
  have hlen : buf.length + j < stdin.length ↔ j < rest.length := by
    rw [stdin_eq h, List.length_append]
    omega
  rw [Begins, Begins, hlen]
  refine and_congr_right fun hj => ?_
  have hend := buf_end h (List.ne_nil_of_length_pos (Nat.zero_lt_of_lt hj))
  have hpos := List.length_pos_of_ne_nil hend.1
  constructor
  · rintro ⟨start, hstart, hline, hnone, hdvd⟩
    have hafter : ∀ i, start ≤ buf.length + i → i < j → rest[i]? ≠ some newline := by
      intro i hi hij
      rw [← hright i]
      exact hnone _ hi (by omega)
    rcases lt_or_ge buf.length start with hlt | hge
    · refine ⟨start - buf.length, by omega, .inr ?_, fun i hi hij => hafter i (by omega) hij, ?_⟩
      · rw [← hright, show buf.length + (start - buf.length - 1) = start - 1 by omega]
        exact hline.resolve_left (by omega)
      · rwa [show j - (start - buf.length) = buf.length + j - start by omega]
    · refine ⟨0, by omega, .inl rfl, fun i _ hij => hafter i (by omega) hij, ?_⟩
      rcases Nat.eq_zero_or_pos start with rfl | hspos
      -- the line goes on, and fills the piece
      · have hroom : buf.length = room := by
          refine (hend.2.resolve_left fun hlast => ?_).1
          exact hnone (buf.length - 1) (by omega) (by omega) (by rw [hleft _ (by omega), hlast])
        rw [hroom] at hdvd
        simpa using hdvd
      · have hlast := newline_last h (hleft (start - 1) (by omega) ▸ hline.resolve_left (by omega))
        rwa [show j - 0 = buf.length + j - start by omega]
  · rintro ⟨start, hstart, hline, hnone, hdvd⟩
    have hbefore : ∀ i, buf.length + start ≤ i → i < buf.length + j →
        stdin[i]? ≠ some newline := by
      intro i hi hij
      rw [show i = buf.length + (i - buf.length) by omega, hright]
      exact hnone _ (by omega) (by omega)
    rcases Nat.eq_zero_or_pos start with rfl | hspos
    · rcases hend.2 with hlast | ⟨hroom, hbuf⟩
      · refine ⟨buf.length, by omega, .inr ?_, hbefore, by simpa using hdvd⟩
        rw [hleft _ (by omega), hlast]
      · refine ⟨0, by omega, .inl rfl, fun i _ hij => ?_, by simpa [hroom] using hdvd⟩
        rcases lt_or_ge i buf.length with hi | hi
        · rw [hleft i hi]
          exact hbuf i
        · exact hbefore i hi hij
    · refine ⟨buf.length + start, by omega, .inr ?_, hbefore, ?_⟩
      · rw [show buf.length + start - 1 = buf.length + (start - 1) by omega, hright]
        exact hline.resolve_left (by omega)
      · rwa [show buf.length + j - (buf.length + start) = j - start by omega]

/-- Whether a piece is `quit` shows in the input it is cut off from. -/
lemma isQuit_buf : isQuit buf = isQuit stdin := by
  rcases lt_or_ge buf.length quitStr.length with hlt | hge
  · have hshort : isQuit buf = false := by
      refine beq_eq_false_iff_ne.mpr fun heq => ?_
      have hlen := congrArg List.length heq
      rw [List.length_map, List.length_take] at hlen
      omega
    rw [hshort, eq_comm]
    refine beq_eq_false_iff_ne.mpr fun heq => ?_
    have hlen := congrArg List.length heq
    rw [List.length_map, List.length_take, stdin_eq h, List.length_append] at hlen
    have hrest : rest ≠ [] := by
      rintro rfl
      rw [List.length_nil] at hlen
      omega
    obtain ⟨hne, hnew | ⟨hroom, -⟩⟩ := buf_end h hrest
    -- the newline that ends the piece would be a letter
    · have hmem : newline ∈ stdin.take quitStr.length := by
        rw [stdin_eq h, List.take_append, List.take_of_length_le hlt.le]
        exact List.mem_append_left _ (List.mem_of_getElem? hnew)
      have hquit : tolower newline ∈ quitStr := heq ▸ List.mem_map_of_mem hmem
      exact absurd hquit (by decide)
    · rw [hroom] at hlt
      exact absurd hlt (by decide)
  · rw [isQuit, isQuit, stdin_eq h, List.take_append_of_le_length hge]

end Piece

/-- The piece that begins here is the one the client leaves after: it begins with `quit`, and none
before it does. -/
def QuitsAt (stdin : List UInt8) (k : ℕ) : Prop :=
  Begins stdin k ∧ isQuit (stdin.drop k) = true ∧
    ∀ j < k, Begins stdin j → isQuit (stdin.drop j) = false

lemma QuitsAt.unique {stdin : List UInt8} {j k : ℕ} (hj : QuitsAt stdin j) (hk : QuitsAt stdin k) :
    j = k := by
  rcases lt_trichotomy j k with hlt | heq | hlt
  · exact absurd hj.2.1 (by simp [hk.2.2 j hlt hj.1])
  · exact heq
  · exact absurd hk.2.1 (by simp [hj.2.2 k hlt hk.1])

lemma strlenBytes_eq {buf : List UInt8} (h : 0 ∉ buf) : strlenBytes buf = buf := by
  refine List.takeWhile_eq_self_iff.mpr fun b hb => ?_
  have hne : b ≠ 0 := fun hzero => h (hzero ▸ hb)
  simpa using hne

lemma begins_zero {stdin : List UInt8} (h : stdin ≠ []) : Begins stdin 0 :=
  ⟨List.length_pos_of_ne_nil h, 0, le_rfl, .inl rfl, fun i _ hi => by omega, by simp⟩

/-- What holds at every place where a piece begins holds at the first one, and behind it. -/
lemma forall_begins {stdin buf rest : List UInt8} (h : fgets room stdin = (buf, rest))
    (hbuf : buf ≠ []) {Q : ℕ → Prop} :
    (∀ k, Begins stdin k → Q k) ↔ Q 0 ∧ ∀ k, Begins rest k → Q (buf.length + k) := by
  have hne : stdin ≠ [] := by
    rw [stdin_eq h]
    simp [hbuf]
  constructor
  · intro hall
    exact ⟨hall 0 (begins_zero hne), fun k hk => hall _ ((begins_add h k).mpr hk)⟩
  · rintro ⟨hzero, hrest⟩ k hk
    rcases Nat.eq_zero_or_pos k with rfl | hpos
    · exact hzero
    · rcases lt_or_ge k buf.length with hlt | hge
      · exact absurd hk (not_begins_inside h hpos hlt)
      · obtain ⟨j, rfl⟩ := Nat.exists_eq_add_of_le hge
        exact hrest j ((begins_add h j).mp hk)

lemma drop_add_buf {stdin buf rest : List UInt8} (h : fgets room stdin = (buf, rest)) (k : ℕ) :
    stdin.drop (buf.length + k) = rest.drop k := by
  rw [stdin_eq h, List.drop_length_add_append]

/-- Behind a piece that is not `quit`, the client leaves where it does in what is left. -/
lemma QuitsAt.add {stdin buf rest : List UInt8} (h : fgets room stdin = (buf, rest))
    (hbuf : buf ≠ []) (hquit : isQuit buf = false) {k : ℕ} (hk : QuitsAt rest k) :
    QuitsAt stdin (buf.length + k) := by
  obtain ⟨hbegins, hisQuit, hfirst⟩ := hk
  refine ⟨(begins_add h k).mpr hbegins, by rwa [drop_add_buf h], ?_⟩
  have hall : ∀ j, Begins stdin j → j < buf.length + k → isQuit (stdin.drop j) = false := by
    refine (forall_begins h hbuf).mpr ⟨fun _ => ?_, fun j hj hlt => ?_⟩
    · rwa [List.drop_zero, ← isQuit_buf h]
    · rw [drop_add_buf h]
      exact hfirst j (by omega) hj
  exact fun j hj hbegins => hall j hbegins hj

/-- With rounds for the whole input the client has either met no `quit` and sent everything, or has
left after the first one. -/
lemma rounds_cases {n : ℕ} {stdin : List UInt8} (hn : stdin.length ≤ n) :
    ((rounds n stdin).2 = false ∧ (∀ k, Begins stdin k → isQuit (stdin.drop k) = false) ∧
        (0 ∉ stdin → (rounds n stdin).1 = stdin)) ∨
      ∃ k, QuitsAt stdin k ∧ (rounds n stdin).2 = true ∧
        (0 ∉ stdin → (rounds n stdin).1 = stdin.take k ++ (fgets room (stdin.drop k)).1) := by
  induction n generalizing stdin with
  | zero =>
    obtain rfl := List.eq_nil_of_length_eq_zero (Nat.le_zero.mp hn)
    exact .inl ⟨rfl, fun k hk => absurd hk.1 (by simp), fun _ => rfl⟩
  | succ n ih =>
    obtain ⟨buf, rest, hbuf⟩ : ∃ buf rest, fgets room stdin = (buf, rest) := ⟨_, _, rfl⟩
    have hstdin := stdin_eq hbuf
    rw [rounds, hbuf]
    simp only
    split_ifs with hnil hquit
    · obtain rfl : stdin = [] := fgets_eq_nil (n := room - 1) ((congrArg Prod.fst hbuf).trans hnil)
      exact ih (by simp)
    · refine .inr ⟨0, ⟨begins_zero ?_, ?_, fun j hj => absurd hj (Nat.not_lt_zero j)⟩, rfl, ?_⟩
      · rw [hstdin]
        simp [hnil]
      · rwa [List.drop_zero, ← isQuit_buf hbuf]
      · intro hzero
        rw [strlenBytes_eq fun hmem => hzero (by simp [hstdin, hmem])]
        simp [hbuf]
    · have hquit : isQuit buf = false := by simpa using hquit
      have hlen : rest.length ≤ n := by
        have hpos := List.length_pos_of_ne_nil hnil
        rw [hstdin, List.length_append] at hn
        omega
      have hsent (hzero : 0 ∉ stdin) : strlenBytes buf = buf ∧ 0 ∉ rest := by
        rw [hstdin, List.mem_append, not_or] at hzero
        exact ⟨strlenBytes_eq hzero.1, hzero.2⟩
      rcases ih hlen with ⟨hstay, hnone, hall⟩ | ⟨k, hk, hleft, hall⟩
      · refine .inl ⟨hstay, (forall_begins hbuf hnil).mpr ⟨?_, fun k hk => ?_⟩, fun hzero => ?_⟩
        · rwa [List.drop_zero, ← isQuit_buf hbuf]
        · rw [drop_add_buf hbuf]
          exact hnone k hk
        · rw [(hsent hzero).1, hall (hsent hzero).2, ← hstdin]
      · refine .inr ⟨buf.length + k, hk.add hbuf hnil hquit, hleft, fun hzero => ?_⟩
        rw [(hsent hzero).1, hall (hsent hzero).2, drop_add_buf hbuf, ← List.append_assoc]
        rw [hstdin, List.take_length_add_append]

lemma rounds_succ {n : ℕ} {stdin : List UInt8} (hn : stdin.length ≤ n) :
    rounds (n + 1) stdin = rounds n stdin := by
  induction n generalizing stdin with
  | zero =>
    obtain rfl := List.eq_nil_of_length_eq_zero (Nat.le_zero.mp hn)
    rfl
  | succ n ih =>
    obtain ⟨buf, rest, hbuf⟩ : ∃ buf rest, fgets room stdin = (buf, rest) := ⟨_, _, rfl⟩
    have hstdin := stdin_eq hbuf
    rw [rounds, rounds, hbuf]
    simp only
    split_ifs with hnil hquit
    · rfl
    · rfl
    · have hlen : rest.length ≤ n := by
        have hpos := List.length_pos_of_ne_nil hnil
        rw [hstdin, List.length_append] at hn
        omega
      rw [ih hlen]

/-- More rounds than there can be something to read change nothing. -/
lemma rounds_eq_session {n : ℕ} {stdin : List UInt8} (hn : stdin.length ≤ n) :
    rounds n stdin = session stdin := by
  induction n, hn using Nat.le_induction with
  | base => rfl
  | succ n hn ih => rw [rounds_succ hn, ih]

/-- The first piece and the session over what is left. -/
lemma session_eq {stdin buf rest : List UInt8} (hbuf : fgets room stdin = (buf, rest))
    (hnil : buf ≠ []) :
    session stdin = if isQuit buf then (strlenBytes buf, true)
      else (strlenBytes buf ++ (session rest).1, (session rest).2) := by
  have hlen : rest.length ≤ stdin.length := by
    rw [stdin_eq hbuf, List.length_append]
    omega
  rw [← rounds_eq_session (Nat.le_succ _), rounds, hbuf]
  simp only [hnil, if_false, rounds_eq_session hlen]

/-- The client leaves its loop exactly if `quit` stands at the beginning of a line or a multiple of
126 bytes behind it. Of text it sends every byte, up to the end of the piece it leaves after. -/
theorem session_spec (stdin : List UInt8) :
    ((session stdin).2 = true ↔ ∃ k, Begins stdin k ∧ isQuit (stdin.drop k) = true) ∧
      (0 ∉ stdin → ((session stdin).2 = false → (session stdin).1 = stdin) ∧
        ∀ k, QuitsAt stdin k →
          (session stdin).1 = stdin.take k ++ (fgets room (stdin.drop k)).1) := by
  rcases rounds_cases (le_refl stdin.length) with ⟨hstay, hnone, hall⟩ | ⟨k, hk, hleft, hall⟩
  · refine ⟨iff_of_false (by simp [session, hstay]) ?_, fun hzero => ⟨fun _ => hall hzero, ?_⟩⟩
    · rintro ⟨k, hbegins, hquit⟩
      simp [hnone k hbegins] at hquit
    · intro k hk
      exact absurd hk.2.1 (by simp [hnone k hk.1])
  · refine ⟨iff_of_true hleft ⟨k, hk.1, hk.2.1⟩, fun hzero => ⟨fun hstay => ?_, fun j hj => ?_⟩⟩
    · rw [session, hleft] at hstay
      exact absurd hstay (by simp)
    · rw [hj.unique hk]
      exact hall hzero

end LinuxLabs.EpollClient
