import LinuxLabs.HelloService
import LinuxLabs.ServiceManagerRefs

/-! `test_client`: its stubs without an argument, and `main`. What a run writes to the driver is
said for every driver, whatever its reads bring; the death callbacks are the only foreign code, and
the program has none that writes. -/
namespace LinuxLabs.HelloService.Client
open ByteMemory Binder ServiceManager

variable {σ : Type}

def ascii (s : String) : List UInt8 := s.toList.map fun c => UInt8.ofNat c.toNat

def sayMsg (interface : List UInt8) (iodata : Mem) : Parcel :=
  let msg := bioInit ⟨iodata, BinderIo.uninit⟩ 0 512 4
  let msg := bioPutUint32 msg 0
  bioPutString16X msg (some interface)

/-- The common body of the two stubs without an argument. Nothing is read from the reply. -/
def say (interface : List UInt8) (code : UInt32) (iodata : Mem) (handle : UInt32)
    (death : UInt32 → World σ → World σ) (reads : List (Option ParseInput)) (w : World σ) :
    Option (World σ) :=
  match binderCall (sayMsg interface iodata) ⟨iodata, BinderIo.uninit⟩ handle code death reads
    w with
  | none => none
  | some (res, reply, w) => if res ≠ 0 then some w else some (binderDone reply w).2

def sayhello (iodata : Mem) (gHelloHandle : UInt32) (death : UInt32 → World σ → World σ)
    (reads : List (Option ParseInput)) (w : World σ) : Option (World σ) :=
  say iHelloService helloSvrCmdSayhello iodata gHelloHandle death reads w

def saygoodbye (iodata : Mem) (gGoodbyeHandle : UInt32) (death : UInt32 → World σ → World σ)
    (reads : List (Option ParseInput)) (w : World σ) : Option (World σ) :=
  say iGoodbyeService goodbyeSvrCmdSaygoodbye iodata gGoodbyeHandle death reads w

/-- What a stub finds: an array with any contents, and what its ioctls bring. -/
structure Stub where
  iodata : Mem
  reads : List (Option ParseInput)

/-- What a run depends on besides its arguments. -/
structure Env (σ : Type) where
  opened : Bool
  death : UInt32 → World σ → World σ
  goodbye : Stub
  hello : Stub
  call : Stub

/-- What is printed to the standard error. -/
inductive Line
  | usage (argv0 : List UInt8)
  | openFailed
  | noService (svc : Service)
  | handle (svc : Service) (h : UInt32)
  | returned (ret : Int32)

def serviceName : Service → List UInt8
  | .hello => ascii "hello"
  | .goodbye => ascii "goodbye"

/-- Both results are printed as those of `sayhello_to`. -/
def Line.text : Line → List UInt8
  | .usage argv0 => ascii "Usage:\n" ++ argv0 ++ ascii " <hello|goodbye>\n" ++ argv0 ++
      ascii " <hello|goodbye> <name>\n"
  | .openFailed => ascii "failed to open binder driver\n"
  | .noService svc => ascii "failed to get " ++ serviceName svc ++ ascii " service\n"
  | .handle svc h => ascii "Handle for " ++ serviceName svc ++ ascii " service = " ++
      ascii (toString h.toInt32.toInt) ++ ascii "\n"
  | .returned ret => ascii "get ret of sayhello_to = " ++ ascii (toString ret.toInt) ++ ascii "\n"

structure Exit (σ : Type) where
  status : Int32
  stderr : List UInt8
  world : World σ

/-- The branch of `main` for one of the services, given the arguments behind its name. -/
def branch (say : World σ → Option (World σ))
    (sayTo : List UInt8 → World σ → Option (Int32 × World σ)) (args : List (List UInt8))
    (w : World σ) : Option (List Line × World σ) :=
  match args with
  | [] => (say w).map fun w => ([], w)
  | [name] => (sayTo name w).map fun (ret, w) => ([.returned ret], w)
  | _ => some ([], w)

/-- What `main` sends to the servers: nothing for other arguments than those it knows. -/
def request (env : Env σ) (gGoodbyeHandle gHelloHandle : UInt32) (arg : List UInt8)
    (args : List (List UInt8)) (w : World σ) : Option (List Line × World σ) :=
  if arg.take (strlen arg) = ascii "hello" then
    branch (sayhello env.call.iodata gHelloHandle env.death env.call.reads)
      (fun name => sayhelloTo env.call.iodata gHelloHandle name env.death env.call.reads) args w
  else if arg.take (strlen arg) = ascii "goodbye" then
    branch (saygoodbye env.call.iodata gGoodbyeHandle env.death env.call.reads)
      (fun name => saygoodbyeTo env.call.iodata gGoodbyeHandle name env.death env.call.reads) args w
  else some ([], w)

/-- `handle` is that of hello when it is given back. -/
def main (env : Env σ) (argv : List (List UInt8)) (w : World σ) : Option (Exit σ) :=
  match argv with
  | _ :: arg :: args =>
    if ¬ env.opened then some ⟨-1, Line.openFailed.text, w⟩
    else
      match svcmgrLookup env.goodbye.iodata binderServiceManager (ascii "goodbye") env.death
        env.goodbye.reads w with
      | none => none
      | some (gGoodbyeHandle, w) =>
        if gGoodbyeHandle = 0 then some ⟨-1, (Line.noService .goodbye).text, w⟩
        else
          match svcmgrLookup env.hello.iodata binderServiceManager (ascii "hello") env.death
            env.hello.reads w with
          | none => none
          | some (handle, w) =>
            if handle = 0 then
              some ⟨-1, (Line.handle .goodbye gGoodbyeHandle).text ++
                (Line.noService .hello).text, w⟩
            else
              (request env gGoodbyeHandle handle arg args w).map fun (lines, w) =>
                ⟨0, (Line.handle .goodbye gGoodbyeHandle).text ++
                  (Line.handle .hello handle).text ++ lines.flatMap Line.text,
                  binderRelease w handle⟩
  | _ => some ⟨-1, (Line.usage (argv.headD [])).text, w⟩

/-- The service that the arguments choose. -/
def chosen (arg : List UInt8) : Option Service :=
  if arg.take (strlen arg) = ascii "hello" then some .hello
  else if arg.take (strlen arg) = ascii "goodbye" then some .goodbye
  else none

def cmdSay : Service → UInt32
  | .hello => helloSvrCmdSayhello
  | .goodbye => goodbyeSvrCmdSaygoodbye

/-- A call of one of the four stubs: its message and its code. -/
def callOf (svc : Service) (iodata : Mem) (args : List (List UInt8)) : Option (Parcel × UInt32) :=
  match args with
  | [] => some (sayMsg svc.interface iodata, cmdSay svc)
  | [name] => some (sayToMsg svc.interface iodata name, svc.cmdSayTo)
  | _ => none

/-- What a message becomes: nothing if it was cut. -/
def sends (msg : Parcel) (target code : UInt32) : List BinderCommand :=
  if msg.io.Overflowed then [] else [.transaction (msg.outgoing target code 0)]

/-- The reference that a lookup takes. -/
def takes (handle : UInt32) : List BinderCommand := if handle = 0 then [] else [.acquire handle]

/-- What a run sends to a server. -/
def requestSends (iodata : Mem) (handles : Service → UInt32) (arg : List UInt8)
    (args : List (List UInt8)) : List BinderCommand :=
  match chosen arg with
  | none => []
  | some svc => ((callOf svc iodata args).map fun c => sends c.1 (handles svc) c.2).getD []

lemma request_eq (env : Env σ) (handles : Service → UInt32) (arg : List UInt8)
    (args : List (List UInt8)) (w : World σ) :
    request env (handles .goodbye) (handles .hello) arg args w =
      match chosen arg with
      | none => some ([], w)
      | some svc =>
        branch (say svc.interface (cmdSay svc) env.call.iodata (handles svc) env.death
            env.call.reads)
          (fun name => sayTo svc.interface svc.cmdSayTo env.call.iodata (handles svc) name
            env.death env.call.reads) args w := by
  unfold request chosen
  split_ifs with hhello hgoodbye
  · rfl
  · rfl
  · rfl

/-- All that a run asks for, given the handles that its lookups return. -/
def transcript (env : Env σ) (handles : Service → UInt32) : List (List UInt8) → List BinderCommand
  | _ :: arg :: args =>
    if ¬ env.opened then []
    else
      sends (requestMsg env.goodbye.iodata (ascii "goodbye")) binderServiceManager
        svcMgrCheckService ++ takes (handles .goodbye) ++
      if handles .goodbye = 0 then []
      else
        sends (requestMsg env.hello.iodata (ascii "hello")) binderServiceManager
          svcMgrCheckService ++ takes (handles .hello) ++
        if handles .hello = 0 then []
        else requestSends env.call.iodata handles arg args ++ [.release (handles .hello)]
  | _ => []

section Asks

/-- What a program asks of the driver: all its commands but the buffers that it gives back. -/
def asked? : Effect → Option BinderCommand
  | .write (.freeBuffer _) => none
  | .write cmd => some cmd
  | .spawnLooper => none

def asked (effs : List Effect) : List BinderCommand := effs.filterMap asked?

/-- Between `w` and `w'` the program asked for `cs`, in this order. -/
def Asks (cs : List BinderCommand) (w w' : World σ) : Prop :=
  ∃ effs, w'.trace = w.trace ++ effs ∧ asked effs = cs

lemma Asks.refl (w : World σ) : Asks [] w w := ⟨[], by simp, rfl⟩

lemma Asks.trans {cs ds : List BinderCommand} {w w' w'' : World σ} (h : Asks cs w w')
    (h' : Asks ds w' w'') : Asks (cs ++ ds) w w'' := by
  obtain ⟨effs, he, hc⟩ := h
  obtain ⟨effs', he', hd⟩ := h'
  refine ⟨effs ++ effs', by rw [he', he, List.append_assoc], ?_⟩
  rw [asked, List.filterMap_append]
  exact congrArg₂ (· ++ ·) hc hd

/-- A part that asks for nothing. -/
lemma Asks.trans_nil {cs : List BinderCommand} {w w' w'' : World σ} (h : Asks cs w w')
    (h' : Asks [] w' w'') : Asks cs w w'' := by
  simpa using h.trans h'

lemma asks_binderWrite (w : World σ) (cmds : List BinderCommand) :
    Asks (asked (cmds.map .write)) w (binderWrite w cmds) := ⟨cmds.map .write, rfl, rfl⟩

lemma Asks.written_eq {cs : List BinderCommand} {w w' : World σ} (h : Asks cs w w') :
    asked (written w w') = cs := by
  obtain ⟨effs, he, hc⟩ := h
  rw [written_append he, hc]

lemma binderDone_asks (reply : Parcel) (w : World σ) : Asks [] w (binderDone reply w).2 := by
  unfold binderDone
  split_ifs
  · exact asks_binderWrite w [.freeBuffer _]
  · exact Asks.refl w

variable {death : UInt32 → World σ → World σ} (hdeath : ∀ cookie w, Asks [] w (death cookie w))
include hdeath

/-- A caller's turn of the parser asks for nothing, whatever stands in the buffer. -/
lemma binderParseStep_asks {c : ParseCall σ} (hfunc : c.func = none) (hc : c.death = death)
    {s s' : ParseState σ}
    (h : binderParseStep c s = .next s' ∨ binderParseStep c s = .ret s') :
    Asks [] s.world s'.world := by
  have hspawn : Asks [] s.world { s.world with trace := s.world.trace ++ [.spawnLooper] } :=
    ⟨[.spawnLooper], rfl, rfl⟩
  unfold binderParseStep at h
  simp only [hfunc] at h
  split_ifs at h
  all_goals
    rcases h with h | h <;> cases h
  all_goals first
    | exact Asks.refl _
    | exact hspawn
    | exact hc ▸ hdeath _ s.world

lemma binderParseLoop_asks {c : ParseCall σ} (hfunc : c.func = none) (hc : c.death = death)
    (turns : ℕ) (s : ParseState σ) : Asks [] s.world (binderParseLoop c turns s).world := by
  induction turns generalizing s with
  | zero => exact Asks.refl s.world
  | succ turns ih =>
    rw [binderParseLoop]
    split_ifs with hptr
    · cases hstep : binderParseStep c s with
      | next s' => exact (binderParseStep_asks hdeath hfunc hc (.inl hstep)).trans_nil (ih s')
      | ret s' => exact binderParseStep_asks hdeath hfunc hc (.inr hstep)
    · exact Asks.refl s.world

lemma binderCallLoop_asks {reads : List (Option ParseInput)} {reply reply' : Parcel} {res : Int32}
    {w w' : World σ} (h : binderCallLoop death reads reply w = some (res, reply', w')) :
    Asks [] w w' := by
  induction reads generalizing reply w with
  | nil => cases h
  | cons read reads ih =>
    cases read with
    | none =>
      cases h
      exact Asks.refl _
    | some i =>
      have hparse : Asks [] w (binderParse i none death (some reply) w).world :=
        binderParseLoop_asks hdeath (c := i.call none death) rfl rfl _ (i.entry (some reply) w)
      rw [binderCallLoop] at h
      split_ifs at h with hzero hneg
      · cases h
        exact hparse
      · cases h
        exact hparse
      · exact hparse.trans_nil (ih h)

/-- A call asks for its transaction only, and for nothing if its message was cut. -/
lemma binderCall_asks {msg reply reply' : Parcel} {target code : UInt32}
    {reads : List (Option ParseInput)} {w w' : World σ} {res : Int32}
    (h : binderCall msg reply target code death reads w = some (res, reply', w')) :
    Asks (sends msg target code) w w' := by
  rw [binderCall] at h
  unfold sends
  split_ifs at h ⊢ with hov
  · cases h
    exact Asks.refl w
  · exact (asks_binderWrite w [.transaction _]).trans_nil (binderCallLoop_asks hdeath h)

lemma say_asks {interface : List UInt8} {code handle : UInt32} {iodata : Mem}
    {reads : List (Option ParseInput)} {w w' : World σ}
    (h : say interface code iodata handle death reads w = some w') :
    Asks (sends (sayMsg interface iodata) handle code) w w' := by
  rw [say] at h
  split at h
  next => cases h
  next res reply v hcall =>
    have hv := binderCall_asks hdeath hcall
    split_ifs at h with hres
    · cases h
      exact hv
    · cases h
      exact hv.trans_nil (binderDone_asks reply v)

lemma sayTo_asks {interface name : List UInt8} {code handle : UInt32} {iodata : Mem}
    {reads : List (Option ParseInput)} {w w' : World σ} {ret : Int32}
    (h : sayTo interface code iodata handle name death reads w = some (ret, w')) :
    Asks (sends (sayToMsg interface iodata name) handle code) w w' := by
  rw [sayTo] at h
  split at h
  next => cases h
  next res reply v hcall =>
    have hv := binderCall_asks hdeath hcall
    split_ifs at h with hres
    · cases h
      exact hv
    · simp only [Option.some.injEq, Prod.mk.injEq] at h
      rw [← h.2]
      exact hv.trans_nil (binderDone_asks _ v)

/-- A lookup also takes a reference on what it finds. -/
lemma svcmgrLookup_asks {iodata : Mem} {target handle : UInt32} {name : List UInt8}
    {reads : List (Option ParseInput)} {w w' : World σ}
    (h : svcmgrLookup iodata target name death reads w = some (handle, w')) :
    Asks (sends (requestMsg iodata name) target svcMgrCheckService ++ takes handle) w w' := by
  rw [svcmgrLookup] at h
  split at h
  next => cases h
  next res reply v hcall =>
    have hv := binderCall_asks hdeath hcall
    split_ifs at h with hres
    · cases h
      exact hv.trans (Asks.refl _)
    · simp only [Option.some.injEq, Prod.mk.injEq] at h
      obtain ⟨rfl, rfl⟩ := h
      refine hv.trans (Asks.trans_nil ?_ (binderDone_asks _ _))
      by_cases hzero : (bioGetRef reply).1 = 0
      · rw [takes, if_pos hzero, if_neg (not_not.mpr hzero)]
        exact Asks.refl v
      · rw [takes, if_neg hzero, if_pos hzero]
        exact asks_binderWrite v [.acquire _]

lemma request_asks {env : Env σ} (henv : env.death = death) (handles : Service → UInt32)
    {arg : List UInt8} {args : List (List UInt8)} {w w' : World σ} {lines : List Line}
    (h : request env (handles .goodbye) (handles .hello) arg args w = some (lines, w')) :
    Asks (requestSends env.call.iodata handles arg args) w w' := by
  rw [request_eq, henv] at h
  unfold requestSends
  cases hsvc : chosen arg with
  | none =>
    rw [hsvc] at h
    cases h
    exact Asks.refl w
  | some svc =>
    rw [hsvc] at h
    match args with
    | [] =>
      obtain ⟨v, hsay, hv⟩ := Option.map_eq_some_iff.mp h
      cases hv
      exact say_asks hdeath hsay
    | [name] =>
      obtain ⟨⟨ret, v⟩, hsay, hv⟩ := Option.map_eq_some_iff.mp h
      cases hv
      exact sayTo_asks hdeath hsay
    | _ :: _ :: _ =>
      cases h
      exact Asks.refl w

end Asks

/-- What a run is given by its two lookups: zero for one that fails or is never made. -/
def handlesOf (goodbye hello : UInt32) : Service → UInt32
  | .goodbye => goodbye
  | .hello => hello

lemma main_asks {env : Env σ} (hdeath : ∀ cookie w, Asks [] w (env.death cookie w))
    {argv : List (List UInt8)} {w : World σ} {out : Exit σ} (h : main env argv w = some out) :
    ∃ handles, Asks (transcript env handles argv) w out.world ∧
      (out.status = 0 ↔ handles .goodbye ≠ 0 ∧ handles .hello ≠ 0) ∧
      (out.status = 0 ∨ out.status = -1) ∧
      (handles .goodbye ≠ 0 → env.opened ∧ 2 ≤ argv.length) := by
  match argv with
  | [] =>
    cases h
    exact ⟨fun _ => 0, Asks.refl w, by simp, .inr rfl, by simp⟩
  | [_] =>
    cases h
    exact ⟨fun _ => 0, Asks.refl w, by simp, .inr rfl, by simp⟩
  | _ :: arg :: args =>
    rw [main] at h
    by_cases hopen : env.opened
    · have hmade (argv0 : List UInt8) : env.opened ∧ 2 ≤ (argv0 :: arg :: args).length := by
        simp [hopen]
      rw [if_neg (not_not.mpr hopen)] at h
      split at h
      next => cases h
      next goodbye v hlook =>
        have hgoodbye := svcmgrLookup_asks hdeath hlook
        split_ifs at h with hg
        · cases h
          refine ⟨handlesOf goodbye 0, ?_, by simp [handlesOf, hg], .inr rfl, fun _ => hmade _⟩
          rw [transcript, if_neg (not_not.mpr hopen),
            if_pos (c := handlesOf goodbye 0 .goodbye = 0) hg, List.append_nil]
          exact hgoodbye
        · split at h
          next => cases h
          next hello u hlook' =>
            have hhello := hgoodbye.trans (svcmgrLookup_asks hdeath hlook')
            refine ⟨handlesOf goodbye hello, ?_⟩
            rw [transcript, if_neg (not_not.mpr hopen),
              if_neg (c := handlesOf goodbye hello .goodbye = 0) hg]
            split_ifs at h with hz
            · cases h
              refine ⟨?_, by simp [handlesOf, hz], .inr rfl, fun _ => hmade _⟩
              rw [if_pos (c := handlesOf goodbye hello .hello = 0) hz, List.append_nil]
              exact hhello
            · obtain ⟨⟨lines, t⟩, hreq, hout⟩ := Option.map_eq_some_iff.mp h
              have hasks := request_asks hdeath rfl (handlesOf goodbye hello) hreq
              cases hout
              refine ⟨?_, by simp [handlesOf, hg, hz], .inl rfl, fun _ => hmade _⟩
              rw [if_neg (c := handlesOf goodbye hello .hello = 0) hz, ← List.append_assoc]
              exact hhello.trans (hasks.trans (asks_binderWrite t [.release hello]))
    · rw [if_pos hopen] at h
      cases h
      refine ⟨fun _ => 0, ?_, by simp, .inr rfl, by simp⟩
      rw [transcript, if_pos hopen]
      exact Asks.refl w

/-- References are counted in what was asked for. -/
lemma count_asked (effs : List Effect) {cmd : BinderCommand}
    (h : asked? (.write cmd) = some cmd) : effs.count (.write cmd) = (asked effs).count cmd := by
  rw [List.count, List.count, asked, List.countP_filterMap]
  refine List.countP_congr fun e _ => ?_
  cases e with
  | spawnLooper => simp [asked?]
  | write cmd' =>
    cases cmd' with
    | freeBuffer b =>
      have hne : cmd ≠ .freeBuffer b := by
        rintro rfl
        cases h
      simp [asked?, hne.symm]
    | _ => simp [asked?]

/-- Sending takes and gives back no reference. -/
lemma sends_count (msg : Parcel) (target code : UInt32) {cmd : BinderCommand}
    (h : ∀ txn, .transaction txn ≠ cmd) : (sends msg target code).count cmd = 0 := by
  unfold sends
  split_ifs with hov
  · rfl
  · exact List.count_eq_zero.mpr (by simpa using fun he => h _ he.symm)

lemma requestSends_count (iodata : Mem) (handles : Service → UInt32) (arg : List UInt8)
    (args : List (List UInt8)) {cmd : BinderCommand} (h : ∀ txn, .transaction txn ≠ cmd) :
    (requestSends iodata handles arg args).count cmd = 0 := by
  unfold requestSends
  cases chosen arg with
  | none => rfl
  | some svc =>
    cases hcall : callOf svc iodata args with
    | none => simp [hcall]
    | some c => simpa [hcall] using sends_count c.1 (handles svc) c.2 h

/-- One for the handle of a reference, which is never zero. -/
def ref (handle x : UInt32) : ℕ := if x ≠ 0 ∧ x = handle then 1 else 0

lemma takes_count (handle x : UInt32) :
    (takes handle).count (.acquire x) = ref handle x ∧ (takes handle).count (.release x) = 0 := by
  unfold takes ref
  split_ifs with hz hx hx
  · exact absurd (hx.2.trans hz) hx.1
  · exact ⟨rfl, rfl⟩
  · rw [← hx.2]
    simp
  · refine ⟨List.count_eq_zero.mpr ?_, by simp⟩
    simp only [List.mem_singleton, BinderCommand.acquire.injEq]
    exact fun he => hx ⟨he ▸ hz, he⟩

lemma release_count {handle : UInt32} (h : handle ≠ 0) (x : UInt32) :
    [BinderCommand.release handle].count (.acquire x) = 0 ∧
      [BinderCommand.release handle].count (.release x) = ref handle x := by
  refine ⟨by simp, ?_⟩
  unfold ref
  split_ifs with hx
  · simp [hx.2]
  · refine List.count_eq_zero.mpr ?_
    simp only [List.mem_singleton, BinderCommand.release.injEq]
    exact fun he => hx ⟨he ▸ h, he⟩

/-- The reference on hello is given back, the one on goodbye is kept. -/
lemma transcript_refs {env : Env σ} {handles : Service → UInt32} {argv : List (List UInt8)}
    (hmade : handles .goodbye ≠ 0 → env.opened ∧ 2 ≤ argv.length) (x : UInt32) :
    (transcript env handles argv).count (.acquire x) =
      (transcript env handles argv).count (.release x) + ref (handles .goodbye) x := by
  have hnone (hg : handles .goodbye = 0) : ref (handles .goodbye) x = 0 :=
    if_neg fun h => h.1 (h.2.trans hg)
  have hsends (msg : Parcel) (target code : UInt32) :
      (sends msg target code).count (.acquire x) = 0 ∧
        (sends msg target code).count (.release x) = 0 :=
    ⟨sends_count _ _ _ (by simp), sends_count _ _ _ (by simp)⟩
  have hrequest (arg : List UInt8) (args : List (List UInt8)) :
      (requestSends env.call.iodata handles arg args).count (.acquire x) = 0 ∧
        (requestSends env.call.iodata handles arg args).count (.release x) = 0 :=
    ⟨requestSends_count _ _ _ _ (by simp), requestSends_count _ _ _ _ (by simp)⟩
  match argv with
  | [] =>
    rw [hnone (by simpa using hmade)]
    rfl
  | [_] =>
    rw [hnone (by simpa using hmade)]
    rfl
  | _ :: arg :: args =>
    by_cases hopen : env.opened
    · rw [transcript, if_neg (not_not.mpr hopen)]
      by_cases hg : handles .goodbye = 0
      · rw [if_pos hg, List.append_nil]
        simp only [List.count_append, hsends, takes_count]
      · rw [if_neg hg]
        by_cases hz : handles .hello = 0
        · rw [if_pos hz, List.append_nil]
          have hhello : ref (handles .hello) x = 0 := if_neg fun h => h.1 (h.2.trans hz)
          simp only [List.count_append, hsends, takes_count, hhello]
          omega
        · rw [if_neg hz]
          simp only [List.count_append, hsends, takes_count, hrequest, release_count hz]
          omega
    · rw [transcript, if_pos hopen, hnone (by simpa [hopen] using hmade)]
      rfl

/-- Every run of `test_client`, whatever its arguments and whatever the driver answers. Once the
run has ended, the commands it wrote are those of the transcript for the handles it was given; it
ends with zero if there were two; and the references taken are those given back, but for the one
on goodbye, which is never given back. -/
theorem main_transcript (env : Env σ) (hdeath : ∀ cookie w, Asks [] w (env.death cookie w))
    (argv : List (List UInt8)) (w : World σ) (out : Exit σ) (h : main env argv w = some out) :
    ∃ handles : Service → UInt32,
      asked (written w out.world) = transcript env handles argv ∧
      (out.status = 0 ↔ handles .goodbye ≠ 0 ∧ handles .hello ≠ 0) ∧
      (out.status = 0 ∨ out.status = -1) ∧
      ∀ x, acquired x (written w out.world) =
        released x (written w out.world) + ref (handles .goodbye) x := by
  obtain ⟨handles, hasks, hzero, hstatus, hmade⟩ := main_asks hdeath h
  refine ⟨handles, hasks.written_eq, hzero, hstatus, fun x => ?_⟩
  rw [acquired, released, count_asked _ rfl, count_asked _ rfl, hasks.written_eq]
  exact transcript_refs hmade x

/-- A driver that opens, answers both lookups with handle 9 and fails the call behind them. -/
def nineEnv : Env Unit where
  opened := true
  death _ w := w
  goodbye := ⟨fun _ => 0, lookupHi.answer.reads⟩
  hello := ⟨fun _ => 0, lookupHi.answer.reads⟩
  call := ⟨fun _ => 0, [none]⟩

lemma nineEnv_status : (main nineEnv [ascii "test_client", ascii "hello"] ⟨(), []⟩).map
    Exit.status = some 0 := by
  decide +kernel

/-- Handle 9 is taken twice and given back once. -/
theorem main_transcript_hello : ∃ out,
    main nineEnv [ascii "test_client", ascii "hello"] ⟨(), []⟩ = some out ∧ out.status = 0 ∧
      ∃ handles : Service → UInt32, handles .goodbye ≠ 0 ∧ handles .hello ≠ 0 ∧
        ∀ x, acquired x (written ⟨(), []⟩ out.world) =
          released x (written ⟨(), []⟩ out.world) + ref (handles .goodbye) x := by
  obtain ⟨out, hmain, hstatus⟩ := Option.map_eq_some_iff.mp nineEnv_status
  obtain ⟨handles, -, hzero, -, hrefs⟩ :=
    main_transcript nineEnv (fun _ w => Asks.refl w) _ ⟨(), []⟩ out hmain
  obtain ⟨hgoodbye, hhello⟩ := hzero.mp hstatus
  exact ⟨out, hmain, hstatus, handles, hgoodbye, hhello, hrefs⟩

end LinuxLabs.HelloService.Client
