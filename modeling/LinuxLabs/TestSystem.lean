import LinuxLabs.TestClient

/-! `service_manager`, `test_server` and any number of `test_client` runs. The manager and the
server see the requests of all clients one after the other, each in an order of its own; a run of
a client meets them at three moments, between which anything may happen. -/
namespace LinuxLabs.HelloService
open ByteMemory Binder EventRun ServiceManager LastWriter
open Client (Stub Line Exit ascii serviceName chosen callOf cmdSay sayMsg)

namespace Server

/-- What `main` of the server depends on; `reads` is what its loop reads. -/
structure Env where
  opened : Bool
  death : UInt32 → World ServerState → World ServerState
  hello : Stub
  goodbye : Stub
  reads : List (Option ParseInput)

/-- The server has ended, or is in its loop, from which it returns zero. -/
inductive Outcome
  | ended (status : Int32) (stderr : List UInt8) (w : World ServerState)
  | serving (stderr : List UInt8) (loop : LoopState ServerState)

/-- Without hello there is no server; without goodbye there is one. The limit on the number of
threads is set behind the two calls. -/
def main (P : Program) (env : Env) (w : World ServerState) : Option Outcome :=
  if ¬ env.opened then some (.ended (-1) (ascii "failed to open binder driver\n") w)
  else
    match svcmgrPublish env.hello.iodata binderServiceManager (ascii "hello") P.hello env.death
      env.hello.reads w with
    | none => none
    | some (ret, w) =>
      if ret ≠ 0 then some (.ended (-1) (ascii "failed to publish hello service\n") w)
      else
        match svcmgrPublish env.goodbye.iodata binderServiceManager (ascii "goodbye") P.goodbye
          env.death env.goodbye.reads w with
        | none => none
        | some (ret, w) =>
          some (.serving (if ret ≠ 0 then ascii "failed to publish goodbye service\n" else [])
            (binderLoop (testServerHandler P) env.death env.reads w))

end Server

/-- A transaction on one of the two services, as the loop of the server finds it. -/
structure Incoming (P : Program) where
  parse : ParseCall ServerState
  ptr : ℕ
  txn : BinderTransactionData
  service : Service
  target : txn.target = P.ptr service

def Incoming.serve {P : Program} (r : Incoming P) (w : World ServerState) : World ServerState :=
  serveTransaction r.parse (testServerHandler P) r.ptr r.txn w

def server (P : Program) : Machine (World ServerState) (Incoming P) Empty :=
  ⟨fun w r => r.serve w, fun _ _ => []⟩

/-- Each count is that of the lines the function has printed. -/
def Tally (w : World ServerState) : Prop :=
  ∀ svc, w.app.cntTo svc = Int32.ofNat (w.app.names.countP fun n => n.1 = svc)

lemma serviceHandler_app (cmdSay cmdSayTo : UInt32) (say : ServerState → ServerState)
    (sayTo : List UInt8 → ServerState → Int32 × ServerState) (txn : BinderTransactionData)
    (msg reply : Parcel) (w : World ServerState) :
    let app := (serviceHandler cmdSay cmdSayTo say sayTo txn msg reply w).2.2.app
    app = w.app ∨ app = say w.app ∨ ∃ name, app = (sayTo name w.app).2 := by
  intro app
  simp only [app, serviceHandler]
  split_ifs with hsay hsayTo
  · exact .inr (.inl rfl)
  · split
    next => exact .inl rfl
    next => exact .inr (.inr ⟨_, rfl⟩)
  · exact .inl rfl

lemma Incoming.serve_app {P : Program} (r : Incoming P) (w : World ServerState) :
    (r.serve w).app = w.app ∨ (r.serve w).app = say r.service w.app ∨
      ∃ name, (r.serve w).app = (sayTo r.service name w.app).2 := by
  have happ : (r.serve w).app = (testServerHandler P r.txn (bioInitFromTxn r.parse.mem r.txn)
      (emptyReply (r.parse.rdata r.ptr)) w).2.2.app := rfl
  rw [happ, testServerHandler, r.target]
  cases r.service with
  | hello =>
    rw [Program.ptr, P.code_hello]
    exact serviceHandler_app _ _ _ _ _ _ _ _
  | goodbye =>
    rw [Program.ptr, P.code_goodbye]
    exact serviceHandler_app _ _ _ _ _ _ _ _

lemma Tally.serve {P : Program} {w : World ServerState} (h : Tally w) (r : Incoming P) :
    Tally (r.serve w) := by
  intro svc
  rcases r.serve_app w with happ | happ | ⟨name, happ⟩
  · rw [happ]
    exact h svc
  · rw [happ]
    exact h svc
  · rw [happ]
    by_cases hsvc : svc = r.service
    · subst hsvc
      simp [sayTo, h r.service, Int32.ofNat_add]
    · simp [sayTo, hsvc, Ne.symm hsvc, h svc]

/-- Whatever is sent to the server. -/
lemma run_tally {P : Program} (trace : List Effect) (rs : List (Incoming P)) :
    Tally ((server P).run (boot trace) rs) :=
  (server P).run_invariant (fun _ r h => h.serve r) (fun _ => rfl) rs

/-- A request without an argument is counted, whatever else stands in it. -/
lemma Incoming.serve_say {P : Program} (r : Incoming P) (h : r.txn.code = cmdSay r.service)
    (w : World ServerState) : (r.serve w).app = say r.service w.app := by
  have happ : (r.serve w).app = (testServerHandler P r.txn (bioInitFromTxn r.parse.mem r.txn)
      (emptyReply (r.parse.rdata r.ptr)) w).2.2.app := rfl
  rw [happ, testServerHandler, r.target]
  cases hsvc : r.service with
  | hello =>
    rw [Program.ptr, P.code_hello]
    rw [hsvc] at h
    simp only [helloServiceHandler, serviceHandler, h, cmdSay, if_true]
    rfl
  | goodbye =>
    rw [Program.ptr, P.code_goodbye]
    rw [hsvc] at h
    simp only [goodbyeServiceHandler, serviceHandler, h, cmdSay, if_true]
    rfl

lemma sayMsg_clear (svc : Service) (iodata : Mem) :
    ¬ (sayMsg svc.interface iodata).io.Overflowed := by
  have hputs : sayMsg svc.interface iodata =
      putAll (requestStart iodata) [.uint32 0, .string16X (some svc.interface)] := rfl
  have hroom : putsSize [.uint32 0, .string16X (some svc.interface)] ≤ 496 ∧
      putsObjs [.uint32 0, .string16X (some svc.interface)] ≤ 4 := by
    cases svc with
    | hello => exact ⟨by decide, by decide⟩
    | goodbye => exact ⟨by decide, by decide⟩
  rw [hputs]
  apply putAll_room (requestStart_clear iodata)
  rw [requestStart_eq]
  exact hroom

section Manager

variable {Proc Node : Type} {D : Driver Proc Node} {P : Program} {srv : Proc}
  {mallocs : List UInt32}

/-- The events of the manager up to some moment at which the server has published both names
without a complaint, and neither has been registered again or has died since. -/
inductive Deployed (D : Driver Proc Node) (P : Program) (srv : Proc) (mallocs : List UInt32) :
    List SvcEvent → Prop
  | publish (es gs : List SvcEvent) (env : Server.Env) (x y : Exchange) (w : World ServerState)
      (loop : LoopState ServerState) (hello : env.hello.reads = x.answer.reads)
      (goodbye : env.goodbye.reads = y.answer.reads)
      (served : CallServed D srv (publishMsg env.hello.iodata (ascii "hello") P.hello)
        svcMgrAddService (svcMachine.run (start mallocs) es) x)
      (kept : ∀ e ∈ svcMachine.history (svcMachine.run (start mallocs)
        (es ++ sent (publishMsg env.hello.iodata (ascii "hello") P.hello) x)) gs,
          e.key ≠ wide (ascii "hello"))
      (served' : CallServed D srv (publishMsg env.goodbye.iodata (ascii "goodbye") P.goodbye)
        svcMgrAddService (svcMachine.run (start mallocs)
          (es ++ sent (publishMsg env.hello.iodata (ascii "hello") P.hello) x ++ gs)) y)
      (main : Server.main P env w = some (.serving [] loop)) :
      Deployed D P srv mallocs
        (es ++ sent (publishMsg env.hello.iodata (ascii "hello") P.hello) x ++ gs ++
          sent (publishMsg env.goodbye.iodata (ascii "goodbye") P.goodbye) y)
  | other (es : List SvcEvent) (e : SvcEvent) (deployed : Deployed D P srv mallocs es)
      (kept : ∀ o ∈ svcMachine.observe (svcMachine.run (start mallocs) es) e,
        ∀ svc, o.key ≠ wide (serviceName svc)) :
      Deployed D P srv mallocs (es ++ [e])

/-- A server that serves without a complaint has published both names. -/
lemma Server.main_serving {env : Server.Env} {w : World ServerState}
    {loop : LoopState ServerState} (h : Server.main P env w = some (.serving [] loop)) :
    ∃ w' w'', svcmgrPublish env.hello.iodata binderServiceManager (ascii "hello") P.hello env.death
        env.hello.reads w = some (0, w') ∧
      svcmgrPublish env.goodbye.iodata binderServiceManager (ascii "goodbye") P.goodbye env.death
        env.goodbye.reads w' = some (0, w'') := by
  rw [Server.main] at h
  split_ifs at h with hopen
  · split at h
    next => cases h
    next ret w' hhello =>
      split_ifs at h with hret
      · cases h
      · split at h
        next => cases h
        next ret' w'' hgoodbye =>
          have hret' : ret' = 0 := by
            by_contra hne
            rw [if_pos hne] at h
            simp [ascii] at h
          rw [not_not.mp hret] at hhello
          exact ⟨w', w'', hhello, hret' ▸ hgoodbye⟩
  · cases h

/-- What the manager notes down when a stub returns zero. -/
lemma publish_noted {es : List SvcEvent} {iodata : Mem} {name : List UInt8} {ptr : UInt32}
    {x : Exchange} {death : UInt32 → World ServerState → World ServerState}
    {w w' : World ServerState} (hserve : CallServed D srv (publishMsg iodata name ptr)
      svcMgrAddService (svcMachine.run (start mallocs) es) x)
    (h : svcmgrPublish iodata binderServiceManager name ptr death x.answer.reads w =
      some (0, w')) :
    ∃ iso, svcMachine.history (start mallocs) (es ++ sent (publishMsg iodata name ptr) x) =
      svcMachine.history (start mallocs) es ++
        [.set (wide name) (D.handle D.manager (D.node srv ptr), iso)] := by
  have hok := (run_handlesAgree mallocs es).1
  obtain ⟨status, v, hret, hstatus⟩ := publish_returns hok hserve death w
  have hzero : status = 0 := by
    rw [hret] at h
    cases h
    rfl
  obtain ⟨iso, hset⟩ := (publish_history hok hserve).1 (hstatus.mp hzero)
  exact ⟨iso, by rw [svcMachine.history_append, hset]⟩

theorem Deployed.published {es : List SvcEvent} (h : Deployed D P srv mallocs es) (svc : Service) :
    ∃ iso, lookup (svcMachine.history (start mallocs) es) (wide (serviceName svc)) =
      some (D.handle D.manager (D.node srv (P.ptr svc)), iso) := by
  induction h with
  | publish es gs env x y w loop hello goodbye served kept served' main =>
    obtain ⟨w', w'', hhello, hgoodbye⟩ := Server.main_serving main
    rw [hello] at hhello
    rw [goodbye] at hgoodbye
    obtain ⟨iso, hset⟩ := publish_noted served hhello
    obtain ⟨iso', hset'⟩ := publish_noted served' hgoodbye
    rw [hset', svcMachine.history_append, hset]
    cases svc with
    | hello =>
      have hne : wide (ascii "goodbye") ≠ wide (ascii "hello") := by decide
      refine ⟨iso, ?_⟩
      change lookup _ (wide (ascii "hello")) = _
      rw [lookup_snoc, Event.key, if_neg hne, lookup_append_of_ne kept, lookup_snoc]
      exact if_pos rfl
    | goodbye =>
      refine ⟨iso', ?_⟩
      rw [lookup_snoc]
      exact if_pos rfl
  | other es e deployed kept ih =>
    obtain ⟨iso, hlook⟩ := ih
    refine ⟨iso, ?_⟩
    rw [svcMachine.history_append, lookup_append_of_ne, hlook]
    simpa [Machine.history] using fun o ho => kept o ho svc

end Manager

section Clients

variable {σ Proc Node : Type} {D : Driver Proc Node} {P : Program} {srv : Proc}
  {mallocs : List UInt32} {trace : List Effect} {rs : List (Incoming P)}

/-- A run of `test_client` while the server is deployed: by any process that is not isolated, with
any arguments. The lookups are handled by the manager after `before` and `between`, the request by
the server after `rs`. -/
structure Visit (σ : Type) (D : Driver Proc Node) (P : Program) (srv : Proc)
    (mallocs : List UInt32) (trace : List Effect) (rs : List (Incoming P)) where
  q : Proc
  unisolated : ¬ isIsolated (D.uid q)
  env : Client.Env σ
  opened : env.opened
  argv0 : List UInt8
  arg : List UInt8
  args : List (List UInt8)
  plain : ∀ name ∈ args, Carriable name
  before : List SvcEvent
  deployed : Deployed D P srv mallocs before
  x : Exchange
  goodbye : env.goodbye.reads = x.answer.reads
  served : CallServed D q (requestMsg env.goodbye.iodata (ascii "goodbye")) svcMgrCheckService
    (svcMachine.run (start mallocs) before) x
  between : List SvcEvent
  deployed' : Deployed D P srv mallocs between
  y : Exchange
  hello : env.hello.reads = y.answer.reads
  served' : CallServed D q (requestMsg env.hello.iodata (ascii "hello")) svcMgrCheckService
    (svcMachine.run (start mallocs) between) y
  r : Incoming P
  answer : Answer
  call : env.call.reads = answer.reads
  carried : ∀ svc msg code, chosen arg = some svc →
    callOf svc env.call.iodata args = some (msg, code) → ¬ msg.io.Overflowed →
      Arrives (msg.outgoing (D.handle q (D.node srv (P.ptr svc))) code 0) r.parse.mem r.txn ∧
        r.service = svc ∧ r.txn.code = code
  replied : ∀ out, .write (.reply out) ∈ written ((server P).run (boot trace) rs)
    (r.serve ((server P).run (boot trace) rs)) → Arrives out answer.last.input.mem answer.txn

namespace Visit

/-- The handle of the client for a service. -/
def handle (v : Visit σ D P srv mallocs trace rs) (svc : Service) : UInt32 :=
  D.handle v.q (D.node srv (P.ptr svc))

/-- The server before and after the request. -/
def state (_ : Visit σ D P srv mallocs trace rs) : World ServerState :=
  (server P).run (boot trace) rs

def state' (v : Visit σ D P srv mallocs trace rs) : World ServerState := v.r.serve v.state

/-- Both lookups of a run find the node of the server. -/
lemma lookups (v : Visit σ D P srv mallocs trace rs) (w : World σ) :
    ∃ w' w'', svcmgrLookup v.env.goodbye.iodata binderServiceManager (ascii "goodbye") v.env.death
        v.env.goodbye.reads w = some (v.handle .goodbye, w') ∧
      svcmgrLookup v.env.hello.iodata binderServiceManager (ascii "hello") v.env.death
        v.env.hello.reads w' = some (v.handle .hello, w'') := by
  obtain ⟨iso, hgoodbye⟩ := v.deployed.published .goodbye
  obtain ⟨iso', hhello⟩ := v.deployed'.published .hello
  obtain ⟨h, w', hlook, -, hfound⟩ := lookup_returns (run_handlesAgree mallocs v.before) v.served
    v.env.death w
  obtain ⟨h', w'', hlook', -, hfound'⟩ := lookup_returns (run_handlesAgree mallocs v.between)
    v.served' v.env.death w'
  refine ⟨w', w'', ?_, ?_⟩
  · rw [v.goodbye, hlook, hfound _ iso v.unisolated hgoodbye]
    rfl
  · rw [v.hello, hlook', hfound' _ iso' v.unisolated hhello]
    rfl

/-- The call of a run with a name, as a call of its own. -/
def rpc (v : Visit σ D P srv mallocs trace rs) (svc : Service) (name : List UInt8)
    (hname : Carriable name) (w : World σ) : Rpc σ where
  service := svc
  name := name
  plain := hname
  iodata := v.env.call.iodata
  handle := v.handle svc
  death := v.env.death
  world := w
  parse := v.r.parse
  ptr := v.r.ptr
  txn := v.r.txn
  answer := v.answer

/-- The line of a run that says hello or goodbye to a name, and what the server has noted. -/
lemma request_name (v : Visit σ D P srv mallocs trace rs) {svc : Service} {name : List UInt8}
    (hchosen : chosen v.arg = some svc) (hargs : v.args = [name])
    (hfits : 4 + stringSpace svc.interface + stringSpace name ≤ 512 - 4 * sizeofSizeT)
    (w : World σ) :
    v.state'.app.names = v.state.app.names ++ [(svc, name ++ [0])] ∧
      ∃ w', Client.sayTo svc.interface svc.cmdSayTo v.env.call.iodata (v.handle svc) name
        v.env.death v.env.call.reads w =
          some (Int32.ofNat (v.state'.app.names.countP fun n => n.1 = svc), w') := by
  have hname : Carriable name := v.plain name (by simp [hargs])
  have hrfits : (v.rpc svc name hname w).Fits := hfits
  have hov : ¬ (Client.sayToMsg svc.interface v.env.call.iodata name).io.Overflowed :=
    fun ho => (v.rpc svc name hname w).overflowed_iff.mp ho hrfits
  obtain ⟨harr, hsvc, hcode⟩ := v.carried svc _ _ hchosen (by rw [hargs]; rfl) hov
  have hreq : (v.rpc svc name hname w).Requested P := ⟨harr, hsvc ▸ v.r.target, hcode⟩
  have hserve : (v.rpc svc name hname w).serve P v.state = v.state' := if_neg hov
  have happ := (Rpc.serve_fits hrfits hreq v.state).1
  rw [hserve] at happ
  have htally : Tally v.state' := (run_tally trace rs).serve v.r
  obtain ⟨w', hcall⟩ := Rpc.call_fits hrfits (w := v.state) ⟨hreq, fun out hout => by
    rw [hserve] at hout
    exact v.replied out hout⟩
  refine ⟨by rw [happ]; rfl, w', ?_⟩
  rw [Rpc.call_eq] at hcall
  rw [v.call, ← htally svc, happ]
  refine hcall.trans ?_
  simp [sayTo, rpc]

/-- What a run prints about its request, and what the server has done by then. The count is that
of the names the function has printed, the name of this run being the last. -/
def Answered (v : Visit σ D P srv mallocs trace rs) (lines : List Line) : Prop :=
  match chosen v.arg, v.args with
  | some svc, [] => lines = [] ∧ v.state'.app = say svc v.state.app
  | some svc, [name] =>
    if 4 + stringSpace svc.interface + stringSpace name ≤ 512 - 4 * sizeofSizeT then
      lines = [.returned (Int32.ofNat (v.state'.app.names.countP fun n => n.1 = svc))] ∧
        v.state'.app.names = v.state.app.names ++ [(svc, name ++ [0])]
    else lines = [.returned 0]
  | _, _ => lines = []

lemma request_answered (v : Visit σ D P srv mallocs trace rs) (w : World σ) :
    ∃ lines w', Client.request v.env (v.handle .goodbye) (v.handle .hello) v.arg v.args w =
      some (lines, w') ∧ v.Answered lines := by
  rw [Client.request_eq]
  unfold Answered
  cases hchosen : chosen v.arg with
  | none => exact ⟨[], w, rfl, rfl⟩
  | some svc =>
    match hargs : v.args with
    | [] =>
      have hclear := sayMsg_clear svc v.env.call.iodata
      obtain ⟨-, hsvc, hcode⟩ := v.carried svc _ _ hchosen (by rw [hargs]; rfl) hclear
      obtain ⟨w', hcall⟩ := binderCall_answer hclear v.answer ⟨v.env.call.iodata, BinderIo.uninit⟩
        (v.handle svc) (cmdSay svc) v.env.death w
      refine ⟨[], (binderDone (bioInitFromTxn v.answer.last.input.mem v.answer.txn) w').2, ?_,
        rfl, ?_⟩
      · simp only [Client.branch, Client.say, v.call, hcall, ne_eq, not_true_eq_false, if_false,
          Option.map_some]
      · rw [state', v.r.serve_say (by rw [hcode, hsvc]), hsvc]
    | [name] =>
      simp only [Client.branch]
      split_ifs with hfits
      · obtain ⟨hnames, w', hcall⟩ := v.request_name hchosen hargs hfits w
        exact ⟨_, w', by rw [hcall]; rfl, rfl, hnames⟩
      · have hname : Carriable name := v.plain name (by simp [hargs])
        have hov := (sayToMsg_overflowed_iff svc.interface_carriable hname
          v.env.call.iodata).mpr hfits
        exact ⟨_, w, by rw [Client.sayTo_overflowed hov]; rfl, rfl⟩
    | _ :: _ :: _ => exact ⟨[], w, rfl, rfl⟩

end Visit

/-- Any run of `test_client` while the server is deployed, whatever the manager and the server have
handled before, in between and since. It returns zero, prints the handles of its process for the
two nodes of the server, and its request is answered: a name that fits the buffer is noted by the
server, and the number printed is the number of names noted for the service. -/
theorem visit_exact (v : Visit σ D P srv mallocs trace rs) (w : World σ) :
    ∃ out lines, Client.main v.env (v.argv0 :: v.arg :: v.args) w = some out ∧ out.status = 0 ∧
      out.stderr = (Line.handle .goodbye (v.handle .goodbye)).text ++
        (Line.handle .hello (v.handle .hello)).text ++ lines.flatMap Line.text ∧
      v.Answered lines := by
  obtain ⟨w', w'', hgoodbye, hhello⟩ := v.lookups w
  obtain ⟨lines, t, hrequest, hanswered⟩ := v.request_answered w''
  have hne (svc : Service) : ¬ v.handle svc = 0 := D.handle_ne _ _
  refine ⟨⟨0, _, binderRelease t (v.handle .hello)⟩, lines, ?_, rfl, rfl, hanswered⟩
  rw [Client.main, if_neg (not_not.mpr v.opened), hgoodbye]
  simp only [hne, if_false, hhello, hrequest, Option.map_some]

end Clients

/-- Process 1 publishes a name; the manager gets to know its node as handle 5 and accepts. -/
def publishExchange (name : List UInt8) (ptr : UInt32) : Exchange :=
  ⟨⟨((publishMsg (fun _ => 0) name ptr).outgoing 0 svcMgrAddService 0).rewritten
      (UInt32.ofNat (64 + ServiceManager.nameSize name)) 5,
      ServiceManager.requestTxn svcMgrAddService 1000 (80 + ServiceManager.nameSize name) 1⟩,
    fun _ => 0, promptAnswer (fun _ => 0) 4 0⟩

lemma publishExchange_served (name : List UInt8) (ptr : UInt32)
    (hlen : 1 ≤ strlen name ∧ strlen name ≤ 127) {w : World SvcState}
    (hok : RegistryOk w.app.svclist) (hal : AllocOk w.app (wide name)) :
    CallServed threeProcesses 1 (publishMsg (fun _ => 0) name ptr) svcMgrAddService w
      (publishExchange name ptr) := by
  intro hov
  obtain ⟨hofs, hsize, hden⟩ := publishMsg_outgoing hov threeProcesses 1 svcMgrAddService 0
  obtain ⟨-, -, -, hmax⟩ := publishMsg_encoded hov
  have hnat : (UInt32.ofNat (64 + ServiceManager.nameSize name)).toNat =
      64 + ServiceManager.nameSize name := by
    rw [UInt32.toNat_ofNat']
    omega
  have hdel : threeProcesses.Delivers 1 0
      ((publishMsg (fun _ => 0) name ptr).outgoing 0 svcMgrAddService 0)
      (publishExchange name ptr).msg.mem (publishExchange name ptr).msg.txn := by
    refine Driver.delivers_object 0 hofs (by omega) (by omega) (by rw [hnat]; exact hden) rfl rfl
      ?_ rfl
    rw [hsize]
    exact UInt32.toNat_ofNat'.trans (Nat.mod_eq_of_lt (by omega))
  have hcode : (publishExchange name ptr).msg.txn.code = svcMgrAddService := rfl
  obtain ⟨⟨flags, hword⟩, hzero⟩ := add_reply hok hcode (publishExchange name ptr).rdata
  have hadd := (publish_received hov hdel rfl rfl).1 hlen
  have hstatus := hzero.mpr ⟨_, _, hadd, hal⟩
  refine ⟨hdel, rfl, rfl, rfl, ?_⟩
  rw [hword, hstatus]
  have hbytes : ByteMemory.read (promptAnswer (fun _ => 0) 4 0).last.input.mem 0 4 = bytes32 0 := by
    decide +kernel
  have harr : Arrives (.word flags 0) (promptAnswer (fun _ => 0) 4 0).last.input.mem
      (promptAnswer (fun _ => 0) 4 0).txn := arrives_of_holdsBytes rfl rfl rfl hbytes
  exact harr.delivers rfl _ _ _

/-- Process 2 looks a name up and is answered by its own handle 9. -/
def lookupExchange (name : List UInt8) : Exchange :=
  ⟨⟨write (fun _ => 0) 0 ((requestMsg (fun _ => 0) name).outgoing 0 svcMgrCheckService 0).data,
      ServiceManager.requestTxn svcMgrCheckService 1000 (64 + ServiceManager.nameSize name) 0⟩,
    fun _ => 0, lookupHi.answer⟩

lemma lookupExchange_served (name : List UInt8) (hlen : strlen name ≤ 127) {w : World SvcState}
    (hok : RegistryOk w.app.svclist) (hans : answer w.app.svclist (wide name) 1000 = 5) :
    CallServed threeProcesses 2 (requestMsg (fun _ => 0) name) svcMgrCheckService w
      (lookupExchange name) := by
  intro hov
  obtain ⟨-, hio, hmax⟩ := requestMsg_encoded hov
  have hofs : ((requestMsg (fun _ => 0) name).outgoing 0 svcMgrCheckService 0).offsets = [] := by
    simp [Parcel.outgoing, hio, requestStart_eq, BinderIo.advance, words]
  have hsize : ((requestMsg (fun _ => 0) name).outgoing 0 svcMgrCheckService 0).data.length =
      64 + ServiceManager.nameSize name := by
    simp [Parcel.outgoing, hio, requestStart_eq, BinderIo.advance]
  have harr : Arrives ((requestMsg (fun _ => 0) name).outgoing 0 svcMgrCheckService 0)
      (lookupExchange name).msg.mem (lookupExchange name).msg.txn := by
    refine arrives_of_holdsBytes hofs ?_ rfl (holdsBytes_write _ 0 _)
    rw [hsize]
    exact UInt32.toNat_ofNat'.trans (Nat.mod_eq_of_lt (by omega))
  have hrec := lookup_received hov harr rfl rfl
  rw [if_pos (hlen.trans_lt (by decide))] at hrec
  have hout : handleMessage (lookupExchange name).msg (lookupExchange name).rdata w = _ :=
    hrec.handle hok (lookupExchange name).rdata
  have huid : (lookupExchange name).msg.txn.senderEuid = 1000 := rfl
  rw [huid, hans, if_neg (by decide), bioPutRef_reply (lookupExchange name).rdata (by decide)]
    at hout
  refine ⟨harr.delivers hofs _ _ _, rfl, rfl, rfl, ?_⟩
  rw [hout]
  exact lookupHi_answered

/-- The server of process 1. -/
def hiServerEnv : Server.Env where
  opened := true
  death _ w := w
  hello := ⟨fun _ => 0, (publishExchange (ascii "hello") 1).answer.reads⟩
  goodbye := ⟨fun _ => 0, (publishExchange (ascii "goodbye") 2).answer.reads⟩
  reads := []

def helloSent : List SvcEvent :=
  sent (publishMsg (fun _ => 0) (ascii "hello") 1) (publishExchange (ascii "hello") 1)

def goodbyeSent : List SvcEvent :=
  sent (publishMsg (fun _ => 0) (ascii "goodbye") 2) (publishExchange (ascii "goodbye") 2)

/-- The text of a server that is in its loop. -/
def Server.Outcome.complaint : Server.Outcome → Option (List UInt8)
  | .ended .. => none
  | .serving stderr _ => some stderr

lemma hiServer_serving : ∃ loop, Server.main hiProgram hiServerEnv (boot []) =
    some (.serving [] loop) := by
  have htext : (Server.main hiProgram hiServerEnv (boot [])).bind Server.Outcome.complaint =
      some [] := by
    decide +kernel
  obtain ⟨out, hmain, hout⟩ := Option.bind_eq_some_iff.mp htext
  cases out with
  | ended => cases hout
  | serving stderr loop =>
    cases hout
    exact ⟨loop, hmain⟩

lemma helloSent_alloc : AllocOk (svcMachine.run (start [64, 128]) ([] ++ helloSent ++ [])).app
    (wide (ascii "goodbye")) := by
  rw [List.nil_append, List.append_nil]
  exact .inr (by decide +kernel)

lemma hi_deployed :
    Deployed threeProcesses hiProgram 1 [64, 128] ([] ++ helloSent ++ [] ++ goodbyeSent) := by
  obtain ⟨loop, hmain⟩ := hiServer_serving
  have hok (es : List SvcEvent) := (run_handlesAgree [64, 128] es).1
  have hhello := publishExchange_served (ascii "hello") 1 (by decide) (hok []) (.inr (by decide))
  have hgoodbye := publishExchange_served (ascii "goodbye") 2 (by decide) (hok _) helloSent_alloc
  exact .publish [] [] hiServerEnv (publishExchange (ascii "hello") 1)
    (publishExchange (ascii "goodbye") 2) (boot []) loop rfl rfl hhello (by simp [Machine.history])
    hgoodbye hmain

/-- Both names stand for handle 5. -/
lemma hi_answers (svc : Service) :
    answer (svcMachine.run (start [64, 128]) ([] ++ helloSent ++ [] ++ goodbyeSent)).app.svclist
      (wide (serviceName svc)) 1000 = 5 := by
  obtain ⟨-, hreg⟩ := run_handlesAgree [64, 128] ([] ++ helloSent ++ [] ++ goodbyeSent)
  obtain ⟨iso, hlook⟩ := hi_deployed.published svc
  rw [answer_of_not_isolated (by decide), hreg.find, lookup_map, hlook]
  rfl

/-- What the manager has handled when the client comes. -/
def hiEvents : List SvcEvent := [] ++ helloSent ++ [] ++ goodbyeSent

lemma hiLookup_served (svc : Service) :
    CallServed threeProcesses 2 (requestMsg (fun _ => 0) (serviceName svc)) svcMgrCheckService
      (svcMachine.run (start [64, 128]) hiEvents) (lookupExchange (serviceName svc)) := by
  have hlen : strlen (serviceName svc) ≤ 127 := by
    cases svc with
    | hello => decide
    | goodbye => decide
  exact lookupExchange_served _ hlen (run_handlesAgree _ _).1 (hi_answers svc)

def hiEnv : Client.Env Unit where
  opened := true
  death _ w := w
  goodbye := ⟨fun _ => 0, (lookupExchange (ascii "goodbye")).answer.reads⟩
  hello := ⟨fun _ => 0, (lookupExchange (ascii "hello")).answer.reads⟩
  call := ⟨fun _ => 0, (hiCall 1).answer.reads⟩

lemma hiCall_target : (hiCall 1).txn.target = hiProgram.ptr .hello := rfl

def hiIncoming : Incoming hiProgram :=
  ⟨(hiCall 1).parse, (hiCall 1).ptr, (hiCall 1).txn, .hello, hiCall_target⟩

lemma hiEnv_carried (svc : Service) (msg : Parcel) (code : UInt32)
    (hchosen : chosen (ascii "hello") = some svc)
    (hcall : callOf svc hiEnv.call.iodata [[104, 105]] = some (msg, code))
    (_ : ¬ msg.io.Overflowed) :
    Arrives (msg.outgoing (threeProcesses.handle 2 (threeProcesses.node 1 (hiProgram.ptr svc)))
      code 0) hiIncoming.parse.mem hiIncoming.txn ∧ hiIncoming.service = svc ∧
        hiIncoming.txn.code = code := by
  have hhello : chosen (ascii "hello") = some .hello := by decide
  obtain rfl := Option.some.inj (hhello.symm.trans hchosen)
  obtain ⟨rfl, rfl⟩ := Prod.mk.inj (Option.some.inj hcall)
  have harr := (helloCall_requested (hiCall_fits 1)).request
  exact ⟨⟨harr.dataSize, harr.offsetsSize, harr.offsets, harr.plain⟩, rfl, rfl⟩

lemma hiIncoming_replied (out : OutgoingTxn)
    (hout : .write (.reply out) ∈ written ((server hiProgram).run (boot []) [])
      (hiIncoming.serve ((server hiProgram).run (boot []) []))) :
    Arrives out (hiCall 1).answer.last.input.mem (hiCall 1).answer.txn := by
  have hov : ¬ (hiCall 1).msg.io.Overflowed :=
    fun ho => (hiCall 1).overflowed_iff.mp ho (hiCall_fits 1)
  have hserve : (hiCall 1).serve hiProgram (boot []) = _ := if_neg hov
  refine (helloCall_carried (hiCall_fits 1) (w := boot []) rfl).reply out ?_
  rw [← hiCall, hserve]
  exact hout

lemma hi_plain (name : List UInt8) (h : name ∈ [([104, 105] : List UInt8)]) : Carriable name := by
  rw [List.mem_singleton.mp h]
  exact (hiCall 1).plain

/-- Process 2 runs the client with `hello hi`; it is the first that the server hears of. -/
lemma exists_hiVisit : ∃ v : Visit Unit threeProcesses hiProgram 1 [64, 128] [] [],
    v.env = hiEnv ∧ v.argv0 = ascii "test_client" ∧ v.arg = ascii "hello" ∧
      v.args = [[104, 105]] ∧ v.q = 2 := by
  refine ⟨{ q := 2, unisolated := by decide, env := hiEnv, opened := rfl, argv0 := _, arg := _
            args := _, plain := hi_plain, before := hiEvents, deployed := hi_deployed
            x := lookupExchange (ascii "goodbye"), goodbye := rfl
            served := hiLookup_served .goodbye, between := hiEvents, deployed' := hi_deployed
            y := lookupExchange (ascii "hello"), hello := rfl, served' := hiLookup_served .hello
            r := hiIncoming, answer := (hiCall 1).answer, call := rfl, carried := hiEnv_carried
            replied := hiIncoming_replied }, rfl, rfl, rfl, rfl, rfl⟩

/-- The first client that says hello to a name is told 1. -/
theorem visit_exact_hi : ∃ out,
    Client.main hiEnv [ascii "test_client", ascii "hello", [104, 105]] ⟨(), []⟩ = some out ∧
      out.status = 0 ∧ out.stderr = (Line.handle .goodbye 9).text ++ (Line.handle .hello 9).text ++
        (Line.returned 1).text := by
  obtain ⟨v, henv, hargv0, harg, hargs, hq⟩ := exists_hiVisit
  obtain ⟨out, lines, hmain, hstatus, hstderr, hanswered⟩ := visit_exact v ⟨(), []⟩
  rw [henv, hargv0, harg, hargs] at hmain
  have hchosen : chosen v.arg = some .hello := by
    rw [harg]
    decide
  rw [Visit.Answered, hchosen, hargs] at hanswered
  obtain ⟨rfl, hnames⟩ := (if_pos (hiCall_fits 1)).mp hanswered
  have hone : v.state'.app.names.countP (fun n => n.1 = .hello) = 1 := by
    rw [hnames]
    rfl
  have hnine (svc : Service) : v.handle svc = 9 := by
    rw [Visit.handle, hq]
    rfl
  rw [hone, hnine, hnine, List.flatMap_singleton] at hstderr
  exact ⟨out, hmain, hstatus, hstderr⟩

end LinuxLabs.HelloService
