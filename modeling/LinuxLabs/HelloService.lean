import LinuxLabs.BinderReply
import LinuxLabs.ServiceEndToEnd

/-! The hello and goodbye services: the handlers of the server, with the static counters of its
functions, and the stubs of the client. Both services are one pattern with values of their own. -/
namespace LinuxLabs.HelloService
open ByteMemory Binder EventRun ServiceManager

def helloSvrCmdSayhello : UInt32 := 1
def helloSvrCmdSayhelloTo : UInt32 := 2
def goodbyeSvrCmdSaygoodbye : UInt32 := 1
def goodbyeSvrCmdSaygoodbyeTo : UInt32 := 2

inductive Service
  | hello
  | goodbye
  deriving DecidableEq, Repr

/-- The static counters of the four functions, and the strings that the two with an argument
were called with, in order. -/
structure ServerState where
  cnt : Service → Int32
  cntTo : Service → Int32
  names : List (Service × List UInt8)

def say (svc : Service) (st : ServerState) : ServerState :=
  { st with cnt := Function.update st.cnt svc (st.cnt svc + 1) }

def sayTo (svc : Service) (name : List UInt8) (st : ServerState) : Int32 × ServerState :=
  let cnt := st.cntTo svc + 1
  (cnt, { st with
    cntTo := Function.update st.cntTo svc cnt
    names := st.names ++ [(svc, name)] })

def sayhello : ServerState → ServerState := say .hello
def sayhelloTo : List UInt8 → ServerState → Int32 × ServerState := sayTo .hello
def saygoodbye : ServerState → ServerState := say .goodbye
def saygoodbyeTo : List UInt8 → ServerState → Int32 × ServerState := sayTo .goodbye

/-- What the copy loop and the store behind it write to `name`, from its start on. The array has
512 bytes; what more than these overwrite is not modelled. -/
def copyName (m : Mem) (s len : ℕ) : List UInt8 := (units m s len).map UInt16.toUInt8 ++ [0]

/-- The common body of the two handlers. The result of the first string is not looked at. -/
def serviceHandler (cmdSay cmdSayTo : UInt32) (say : ServerState → ServerState)
    (sayTo : List UInt8 → ServerState → Int32 × ServerState) : BinderHandler ServerState :=
  fun txn msg reply w =>
    let msg := (bioGetUint32 msg).2
    if txn.code = cmdSay then (0, bioPutUint32 reply 0, { w with app := say w.app })
    else if txn.code = cmdSayTo then
      let (_, _, msg) := bioGetString16 msg
      match bioGetString16 msg with
      | (none, _, _) => (-1, reply, w)
      | (some s, len, msg) =>
        let (i, app) := sayTo (copyName msg.mem s len) w.app
        (0, bioPutUint32 (bioPutUint32 reply 0) i.toUInt32, { w with app := app })
    else (-1, reply, w)

def helloServiceHandler : BinderHandler ServerState :=
  serviceHandler helloSvrCmdSayhello helloSvrCmdSayhelloTo sayhello sayhelloTo

def goodbyeServiceHandler : BinderHandler ServerState :=
  serviceHandler goodbyeSvrCmdSaygoodbye goodbyeSvrCmdSaygoodbyeTo saygoodbye saygoodbyeTo

/-- The functions of the server by their addresses. -/
structure Program where
  code : UInt32 → BinderHandler ServerState
  hello : UInt32
  goodbye : UInt32
  code_hello : code hello = helloServiceHandler
  code_goodbye : code goodbye = goodbyeServiceHandler

/-- The call through `txn->target.ptr`. -/
def testServerHandler (P : Program) : BinderHandler ServerState := fun txn msg reply w =>
  P.code txn.target txn msg reply w

namespace Client

variable {σ : Type}

def sayToMsg (interface : List UInt8) (iodata : Mem) (name : List UInt8) : Parcel :=
  let msg := bioInit ⟨iodata, BinderIo.uninit⟩ 0 512 4
  let msg := bioPutUint32 msg 0
  let msg := bioPutString16X msg (some interface)
  bioPutString16X msg (some name)

/-- The common body of the two stubs with an argument. -/
def sayTo (interface : List UInt8) (code : UInt32) (iodata : Mem) (handle : UInt32)
    (name : List UInt8) (death : UInt32 → World σ → World σ) (reads : List (Option ParseInput))
    (w : World σ) : Option (Int32 × World σ) :=
  match binderCall (sayToMsg interface iodata name) ⟨iodata, BinderIo.uninit⟩ handle code death
    reads w with
  | none => none
  | some (res, reply, w) =>
    if res ≠ 0 then some (0, w)
    else
      let (exception, reply) := bioGetUint32 reply
      let (ret, reply) :=
        if exception ≠ 0 then ((-1 : Int32), reply)
        else ((bioGetUint32 reply).1.toInt32, (bioGetUint32 reply).2)
      some (ret, (binderDone reply w).2)

def iHelloService : List UInt8 := "IHelloService".toList.map fun c => UInt8.ofNat c.toNat
def iGoodbyeService : List UInt8 := "IGoodbyeService".toList.map fun c => UInt8.ofNat c.toNat

def sayhelloTo (iodata : Mem) (gHelloHandle : UInt32) (name : List UInt8)
    (death : UInt32 → World σ → World σ) (reads : List (Option ParseInput)) (w : World σ) :
    Option (Int32 × World σ) :=
  sayTo iHelloService helloSvrCmdSayhelloTo iodata gHelloHandle name death reads w

def saygoodbyeTo (iodata : Mem) (gGoodbyeHandle : UInt32) (name : List UInt8)
    (death : UInt32 → World σ → World σ) (reads : List (Option ParseInput)) (w : World σ) :
    Option (Int32 × World σ) :=
  sayTo iGoodbyeService goodbyeSvrCmdSaygoodbyeTo iodata gGoodbyeHandle name death reads w

end Client

/-- A string of bytes that the codec carries as it is. -/
def Carriable (bs : List UInt8) : Prop := 0 ∉ bs ∧ bs.length < maxBioSize / 2

/-- The length word of a string and its block. -/
def stringSpace (bs : List UInt8) : ℕ := 4 + stringBlock bs.length

def sayToPuts (interface name : List UInt8) : List Put :=
  [.uint32 0, .string16X (some interface), .string16X (some name)]

lemma sayToMsg_puts (interface : List UInt8) (iodata : Mem) (name : List UInt8) :
    Client.sayToMsg interface iodata name =
      putAll (requestStart iodata) (sayToPuts interface name) := rfl

lemma Carriable.size {bs : List UInt8} (h : Carriable bs) :
    (Put.string16X (some bs)).size = stringSpace bs := by
  rw [Put.size, strlen_eq_length h.1, stringSize, if_neg (Nat.not_le.mpr h.2), stringSpace,
    stringBlock_of_short h.2]

lemma sayToPuts_size {interface name : List UInt8} (hi : Carriable interface)
    (hn : Carriable name) :
    putsSize (sayToPuts interface name) = 4 + stringSpace interface + stringSpace name ∧
      putsObjs (sayToPuts interface name) = 0 := by
  constructor
  · simp only [putsSize, sayToPuts, List.map_cons, List.map_nil, List.sum_cons, List.sum_nil,
      hi.size, hn.size]
    simp only [Put.size]
    omega
  · simp [putsObjs, sayToPuts, Put.objs]

/-- A request overflows exactly if it does not fit the 512 bytes less the table of 4 entries. -/
lemma sayToMsg_overflowed_iff {interface name : List UInt8} (hi : Carriable interface)
    (hn : Carriable name) (iodata : Mem) :
    (Client.sayToMsg interface iodata name).io.Overflowed ↔
      ¬ 4 + stringSpace interface + stringSpace name ≤ 512 - 4 * sizeofSizeT := by
  obtain ⟨hsize, hobjs⟩ := sayToPuts_size hi hn
  have h496 : 512 - 4 * sizeofSizeT = 496 := rfl
  rw [sayToMsg_puts, h496]
  constructor
  · intro hov hfits
    refine putAll_room (requestStart_clear iodata) ?_ hov
    rw [requestStart_eq, hsize, hobjs]
    exact ⟨hfits, Nat.zero_le _⟩
  · intro hno
    by_contra hov
    have hroom := (putAll_io hov).1
    rw [requestStart_eq, hsize, hobjs] at hroom
    exact hno hroom.1

/-- A request has no objects, and is as long as its three fields. -/
lemma sayToMsg_outgoing {interface name : List UInt8} (hi : Carriable interface)
    (hn : Carriable name) {iodata : Mem}
    (hov : ¬ (Client.sayToMsg interface iodata name).io.Overflowed) (target code : UInt32) :
    let p := Client.sayToMsg interface iodata name
    (p.outgoing target code 0).offsets = [] ∧ p.io.data0 = 16 ∧
      p.io.data = 16 + (4 + stringSpace interface + stringSpace name) := by
  intro p
  obtain ⟨hsize, hobjs⟩ := sayToPuts_size hi hn
  rw [sayToMsg_puts] at hov
  have hio : p.io = (requestStart iodata).io.advance _ _ := (putAll_io hov).2
  rw [hsize, hobjs, requestStart_eq] at hio
  refine ⟨?_, by rw [hio]; rfl, by rw [hio]; rfl⟩
  simp [Parcel.outgoing, hio, BinderIo.advance, words]

/-- What arrives of a request: the two strings, behind the strict-mode word. -/
structure Received (interface name : List UInt8) (m : Mem) (txn : BinderTransactionData) :
    Prop where
  size : txn.dataSize.toNat = 4 + stringSpace interface + stringSpace name
  header : (Field.string (interface.map UInt8.toUInt16)).Holds m (txn.buffer.toNat + 4)
  argument : (Field.string (name.map UInt8.toUInt16)).Holds m
    (txn.buffer.toNat + (4 + stringSpace interface))

theorem sayToMsg_received {interface name : List UInt8} (hi : Carriable interface)
    (hn : Carriable name) {iodata : Mem}
    (hov : ¬ (Client.sayToMsg interface iodata name).io.Overflowed)
    {target code : UInt32} {m : Mem} {txn : BinderTransactionData}
    (harr : Arrives ((Client.sayToMsg interface iodata name).outgoing target code 0) m txn) :
    Received interface name m txn := by
  obtain ⟨hoffs, hd0, hdata⟩ := sayToMsg_outgoing hi hn hov target code
  set p := Client.sayToMsg interface iodata name with hp
  obtain ⟨hlay, hsmall⟩ := requestStart_layout iodata
  have hplain : ∀ v ∈ sayToPuts interface name, v.Plain := by
    intro v hv
    simp only [sayToPuts, List.mem_cons, List.not_mem_nil, or_false] at hv
    rcases hv with rfl | rfl | rfl
    · trivial
    · exact hi
    · exact hn
  obtain ⟨⟨-, -, -, hiface, hishort, -, hname, hnshort, -⟩, -⟩ :=
    putAll_laid hlay hsmall hplain hov
  have hout (j : ℕ) : (p.outgoing target code 0).Outside j := by
    rw [OutgoingTxn.Outside, hoffs]
    simp
  have hisize : (Field.string (interface.map UInt8.toUInt16)).size = stringSpace interface := by
    simp [Field.size, stringSpace]
  have hnsize : (Field.string (name.map UInt8.toUInt16)).size = stringSpace name := by
    simp [Field.size, stringSpace]
  have hiface' : (Field.string (interface.map UInt8.toUInt16)).Holds p.mem (p.io.data0 + 4) := by
    rw [requestStart_eq] at hiface
    rw [hd0]
    exact hiface
  have hname' : (Field.string (name.map UInt8.toUInt16)).Holds p.mem
      (p.io.data0 + (4 + stringSpace interface)) := by
    rw [requestStart_eq] at hname
    rw [hd0, ← Nat.add_assoc, ← hisize]
    exact hname
  refine ⟨?_, ?_, ?_⟩
  · rw [harr.dataSize, Parcel.outgoing, read_length, hd0, hdata]
    omega
  · exact harr.holds hiface' hishort (by omega) fun j _ _ => hout j
  · exact harr.holds hname' hnshort (by omega) fun j _ _ => hout j

/-- A getter of a string at a known position. -/
lemma bioGetString16_holds {p : Parcel} {bs : List UInt8} (hbs : Carriable bs)
    (h : (Field.string (bs.map UInt8.toUInt16)).Holds p.mem p.io.data)
    (hroom : stringSpace bs ≤ p.io.dataAvail) :
    bioGetString16 p =
      (some (p.io.data + 4), bs.length, ⟨p.mem, p.io.advance (stringSpace bs) 0⟩) := by
  have hlt : bs.length < 2^29 := hbs.2
  have hlen : (load32 p.mem p.io.data).toNat = bs.length := by
    rw [h.1, List.length_map, UInt32.toNat_ofNat']
    omega
  unfold stringSpace at hroom ⊢
  exact bioGetString16_fits (by omega) hlen hroom

/-- The argument that the server copies is the client's, followed by a zero. -/
lemma copyName_holds {m : Mem} {a : ℕ} {bs : List UInt8}
    (h : (Field.string (bs.map UInt8.toUInt16)).Holds m a) :
    copyName m (a + 4) bs.length = bs ++ [0] := by
  have hu := h.2
  rw [List.length_map] at hu
  rw [copyName, hu, List.map_map]
  congr 1
  conv_rhs => rw [← List.map_id bs]
  apply List.map_congr_left
  intro b _
  simp

theorem Received.handled {interface name : List UInt8} (hi : Carriable interface)
    (hn : Carriable name) {m : Mem} {txn : BinderTransactionData}
    (h : Received interface name m txn) {cmdSay cmdSayTo : UInt32} (hcmd : cmdSay ≠ cmdSayTo)
    (hcode : txn.code = cmdSayTo) (say : ServerState → ServerState)
    (sayTo : List UInt8 → ServerState → Int32 × ServerState) (reply : Parcel)
    (w : World ServerState) :
    let r := sayTo (name ++ [0]) w.app
    serviceHandler cmdSay cmdSayTo say sayTo txn (bioInitFromTxn m txn) reply w =
      (0, bioPutUint32 (bioPutUint32 reply 0) r.1.toUInt32, { w with app := r.2 }) := by
  intro r
  have hsize := h.size
  set p := bioInitFromTxn m txn with hp
  have havail : p.io.dataAvail = 4 + stringSpace interface + stringSpace name := hsize
  have hword : bioGetUint32 p = (load32 m txn.buffer.toNat, ⟨m, p.io.advance 4 0⟩) :=
    bioGetUint32_fits (by omega)
  have hfirst := bioGetString16_holds (p := ⟨m, p.io.advance 4 0⟩) hi h.header
    (by simp only [BinderIo.advance]; omega)
  rw [advance_advance] at hfirst
  have hsecond := bioGetString16_holds
    (p := ⟨m, p.io.advance (4 + stringSpace interface) (0 + 0)⟩) hn h.argument
    (by simp only [BinderIo.advance]; omega)
  have hcopy := copyName_holds h.argument
  have hne : ¬ txn.code = cmdSay := fun he => hcmd (he.symm.trans hcode)
  simp only [serviceHandler, hword, if_neg hne, if_pos hcode, hfirst, hsecond]
  simp only [BinderIo.advance, hp, bioInitFromTxn]
  rw [hcopy]

/-- The two words of a reply: no exception, and the count. -/
def countPuts (i : Int32) : List Put := [.uint32 0, .uint32 i.toUInt32]

def countTxn (i : Int32) : OutgoingTxn := ⟨0, 0, 0, bytes32 0 ++ bytes32 i.toUInt32, []⟩

lemma replyTxn_count (rdata : Mem) (i : Int32) :
    replyTxn (bioPutUint32 (bioPutUint32 (emptyReply rdata) 0) i.toUInt32) 0 = countTxn i := by
  have hfills : FillsReply (countPuts i) := by
    refine ⟨by simp [countPuts, putsSize, Put.size], Nat.zero_le 4, fun v hv => ?_⟩
    simp only [countPuts, List.mem_cons, List.not_mem_nil, or_false] at hv
    rcases hv with rfl | rfl <;> exact id
  have htxn : replyTxn (putAll (emptyReply rdata) (countPuts i)) 0 = _ := replyTxn_puts hfills
  simpa [countPuts, countTxn, putAll, Put.run, Put.bytes, putOffsets, Put.objs] using htxn

/-- The caller reads the count behind the exception word. -/
lemma count_received {i : Int32} {m : Mem} {txn : BinderTransactionData}
    (h : Arrives (countTxn i) m txn) :
    let p := bioInitFromTxn m txn
    (bioGetUint32 p).1 = 0 ∧ (bioGetUint32 (bioGetUint32 p).2).1 = i.toUInt32 := by
  intro p
  have hsize : p.io.dataAvail = 8 := h.dataSize
  have hbytes := h.holdsBytes rfl
  rw [countTxn, holdsBytes_append, bytes32_length] at hbytes
  have hfirst : bioGetUint32 p = (load32 m txn.buffer.toNat, ⟨m, p.io.advance 4 0⟩) :=
    bioGetUint32_fits (by omega)
  have hsecond : bioGetUint32 ⟨m, p.io.advance 4 0⟩ = (load32 m (txn.buffer.toNat + 4), _) :=
    bioGetUint32_fits (by simp only [BinderIo.advance]; omega)
  rw [hfirst, hsecond]
  exact ⟨hbytes.1.load32_eq, hbytes.2.load32_eq⟩

section Calls

variable {σ : Type}

/-- A stub whose call is answered by a count returns it. -/
lemma Client.sayTo_answered {interface name : List UInt8} {code : UInt32} {iodata : Mem}
    (hov : ¬ (Client.sayToMsg interface iodata name).io.Overflowed) {a : Answer} {i : Int32}
    (harr : Arrives (countTxn i) a.last.input.mem a.txn) (handle : UInt32)
    (death : UInt32 → World σ → World σ) (w : World σ) :
    ∃ w', Client.sayTo interface code iodata handle name death a.reads w = some (i, w') := by
  obtain ⟨w', hcall⟩ := binderCall_answer hov a ⟨iodata, BinderIo.uninit⟩ handle code death w
  obtain ⟨hexc, hcount⟩ := count_received harr
  rw [Client.sayTo, hcall]
  simp only [ne_eq, not_true_eq_false, if_false, hexc, hcount, Int32.toInt32_toUInt32]
  exact ⟨_, rfl⟩

/-- A stub whose message does not fit returns zero and writes nothing. -/
lemma Client.sayTo_overflowed {interface name : List UInt8} {iodata : Mem}
    (hov : (Client.sayToMsg interface iodata name).io.Overflowed) (code handle : UInt32)
    (death : UInt32 → World σ → World σ) (reads : List (Option ParseInput)) (w : World σ) :
    Client.sayTo interface code iodata handle name death reads w = some (0, w) := by
  rw [Client.sayTo, binderCall_overflowed hov]
  rfl

end Calls

namespace Service

def interface : Service → List UInt8
  | .hello => Client.iHelloService
  | .goodbye => Client.iGoodbyeService

def cmdSayTo : Service → UInt32
  | .hello => helloSvrCmdSayhelloTo
  | .goodbye => goodbyeSvrCmdSaygoodbyeTo

lemma interface_carriable (svc : Service) : Carriable svc.interface := by
  cases svc with
  | hello => exact ⟨by decide, by decide⟩
  | goodbye => exact ⟨by decide, by decide⟩

end Service

def Program.ptr (P : Program) : Service → UInt32
  | .hello => P.hello
  | .goodbye => P.goodbye

/-- A call of a client, with what its two parties get to see of each other. The name is a C
string: the bytes before its terminator. `parse` is the server's call of `binder_parse` that
finds the request, at position `ptr`. -/
structure Rpc (σ : Type) where
  service : Service
  name : List UInt8
  plain : Carriable name
  iodata : Mem
  handle : UInt32
  death : UInt32 → World σ → World σ
  world : World σ
  parse : ParseCall ServerState
  ptr : ℕ
  txn : BinderTransactionData
  answer : Answer

namespace Rpc

variable {σ : Type}

def msg (r : Rpc σ) : Parcel := Client.sayToMsg r.service.interface r.iodata r.name

def call (r : Rpc σ) : Option (Int32 × World σ) :=
  match r.service with
  | .hello => Client.sayhelloTo r.iodata r.handle r.name r.death r.answer.reads r.world
  | .goodbye => Client.saygoodbyeTo r.iodata r.handle r.name r.death r.answer.reads r.world

/-- The encoded request fits the 512 bytes less the table of 4 entries. -/
def Fits (r : Rpc σ) : Prop :=
  4 + stringSpace r.service.interface + stringSpace r.name ≤ 512 - 4 * sizeofSizeT

instance (r : Rpc σ) : Decidable r.Fits := inferInstanceAs (Decidable (_ ≤ _))

/-- What the server does about a call: nothing if no transaction is sent. -/
def serve (P : Program) (w : World ServerState) (r : Rpc σ) : World ServerState :=
  if r.msg.io.Overflowed then w
  else serveTransaction r.parse (testServerHandler P) r.ptr r.txn w

/-- The driver brings the request to the function of its service. -/
structure Requested (P : Program) (r : Rpc σ) : Prop where
  request : Arrives (r.msg.outgoing r.handle r.service.cmdSayTo 0) r.parse.mem r.txn
  target : r.txn.target = P.ptr r.service
  code : r.txn.code = r.service.cmdSayTo

/-- It also brings the reply that the server writes to the client. -/
structure Carried (P : Program) (w : World ServerState) (r : Rpc σ) : Prop
    extends r.Requested P where
  reply : ∀ out, .write (.reply out) ∈ written w (r.serve P w) →
    Arrives out r.answer.last.input.mem r.answer.txn

lemma call_eq (r : Rpc σ) :
    r.call = Client.sayTo r.service.interface r.service.cmdSayTo r.iodata r.handle r.name r.death
      r.answer.reads r.world := by
  unfold call
  cases r.service with
  | hello => rfl
  | goodbye => rfl

lemma overflowed_iff (r : Rpc σ) : r.msg.io.Overflowed ↔ ¬ r.Fits :=
  sayToMsg_overflowed_iff r.service.interface_carriable r.plain r.iodata

end Rpc

/-- The function behind the pointer of a service. -/
lemma testServerHandler_eq {P : Program} {svc : Service} {m : Mem} {txn : BinderTransactionData}
    (htarget : txn.target = P.ptr svc) {name : List UInt8} (hn : Carriable name)
    (h : Received svc.interface name m txn) (hcode : txn.code = svc.cmdSayTo) (reply : Parcel)
    (w : World ServerState) :
    let r := sayTo svc (name ++ [0]) w.app
    testServerHandler P txn (bioInitFromTxn m txn) reply w =
      (0, bioPutUint32 (bioPutUint32 reply 0) r.1.toUInt32, { w with app := r.2 }) := by
  rw [testServerHandler, htarget]
  cases svc with
  | hello =>
    rw [Program.ptr, P.code_hello]
    exact h.handled (Service.interface_carriable .hello) hn (by decide) hcode _ _ reply w
  | goodbye =>
    rw [Program.ptr, P.code_goodbye]
    exact h.handled (Service.interface_carriable .goodbye) hn (by decide) hcode _ _ reply w

namespace Rpc

variable {σ : Type} {P : Program}

/-- A request that arrives is handled: its name is copied, and the reply holds the count. -/
theorem serve_fits {r : Rpc σ} (hfits : r.Fits) (h : r.Requested P) (w : World ServerState) :
    let out := sayTo r.service (r.name ++ [0]) w.app
    (r.serve P w).app = out.2 ∧
      written w (r.serve P w) =
        [.write (.freeBuffer r.txn.buffer), .write (.reply (countTxn out.1))] := by
  intro out
  have hov : ¬ r.msg.io.Overflowed := fun ho => r.overflowed_iff.mp ho hfits
  have hrec := sayToMsg_received r.service.interface_carriable r.plain hov h.request
  have hhandled := testServerHandler_eq h.target r.plain hrec h.code
    (emptyReply (r.parse.rdata r.ptr)) w
  rw [serve, if_neg hov, serveTransaction, hhandled]
  refine ⟨rfl, ?_⟩
  rw [binderSendReply, replyTxn_count]
  simp [written, binderWrite, out]

lemma serve_not_fits {r : Rpc σ} (hfits : ¬ r.Fits) (w : World ServerState) : r.serve P w = w :=
  if_pos (r.overflowed_iff.mpr hfits)

/-- The call returns the count of the server. -/
theorem call_fits {r : Rpc σ} (hfits : r.Fits) {w : World ServerState} (h : r.Carried P w) :
    ∃ cw, r.call = some (w.app.cntTo r.service + 1, cw) := by
  have hov : ¬ r.msg.io.Overflowed := fun ho => r.overflowed_iff.mp ho hfits
  have harr := h.reply (countTxn (sayTo r.service (r.name ++ [0]) w.app).1) (by
    rw [(serve_fits hfits h.toRequested w).2]
    simp)
  rw [call_eq]
  exact Client.sayTo_answered hov harr r.handle r.death r.world

lemma call_not_fits {r : Rpc σ} (hfits : ¬ r.Fits) : r.call = some (0, r.world) := by
  rw [call_eq]
  exact Client.sayTo_overflowed (r.overflowed_iff.mpr hfits) _ _ _ _ _

/-- A name that fits a request also fits the array of the handler. -/
lemma Fits.name_length {r : Rpc σ} (h : r.Fits) : r.name.length + 1 ≤ 512 := by
  have hlt : r.name.length < 2^29 := r.plain.2
  have hblock : stringBlock r.name.length = (2 * r.name.length + 5) / 4 * 4 :=
    stringBlock_eq (by omega)
  have h496 : 512 - 4 * sizeofSizeT = 496 := rfl
  unfold Fits stringSpace at h
  omega

end Rpc

/-- The server under the calls of its clients, in the order in which it handles them. -/
def rpcMachine (P : Program) (σ : Type) : Machine (World ServerState) (Rpc σ) (Rpc σ) where
  apply w r := r.serve P w
  observe _ r := if r.Fits then [r] else []

/-- The server before its first request. -/
def boot (trace : List Effect) : World ServerState := ⟨⟨fun _ => 0, fun _ => 0, []⟩, trace⟩

section Runs

variable {σ : Type} {P : Program}

lemma rpcMachine_history (w : World ServerState) (rs : List (Rpc σ)) :
    (rpcMachine P σ).history w rs = rs.filter fun r => r.Fits := by
  induction rs generalizing w with
  | nil => rfl
  | cons r rs ih =>
    rw [Machine.history, ih]
    by_cases hfits : r.Fits
    · simp [rpcMachine, hfits]
    · simp [rpcMachine, hfits]

/-- The state says which requests were handled: how many for each service, and all names. -/
structure Accounts (w : World ServerState) (handled : List (Rpc σ)) : Prop where
  cntTo : ∀ svc, w.app.cntTo svc = Int32.ofNat (handled.countP fun r => r.service = svc)
  names : w.app.names = handled.map fun r => (r.service, r.name ++ [0])

lemma Accounts.step {w : World ServerState} {handled : List (Rpc σ)} {r : Rpc σ}
    (hc : ¬ r.msg.io.Overflowed → r.Carried P w) (h : Accounts w handled) :
    Accounts (r.serve P w) (handled ++ (rpcMachine P σ).observe w r) := by
  by_cases hfits : r.Fits
  · have hcar := hc fun ho => r.overflowed_iff.mp ho hfits
    have hobs : (rpcMachine P σ).observe w r = [r] := if_pos hfits
    have happ := (Rpc.serve_fits hfits hcar.toRequested w).1
    rw [hobs]
    constructor
    · intro svc
      rw [happ, List.countP_append, List.countP_singleton]
      by_cases hsvc : svc = r.service
      · subst hsvc
        simp [sayTo, h.cntTo, Int32.ofNat_add]
      · simp [sayTo, h.cntTo, hsvc, Ne.symm hsvc]
    · rw [happ, List.map_append]
      simp [sayTo, h.names]
  · have hobs : (rpcMachine P σ).observe w r = [] := if_neg hfits
    rw [hobs, List.append_nil, Rpc.serve_not_fits hfits]
    exact h

theorem run_accounts (trace : List Effect) (rs : List (Rpc σ))
    (hc : ∀ (pre : List (Rpc σ)) (r : Rpc σ), pre ++ [r] <+: rs → ¬ r.msg.io.Overflowed →
      r.Carried P ((rpcMachine P σ).run (boot trace) pre)) :
    Accounts ((rpcMachine P σ).run (boot trace) rs) (rs.filter fun r => r.Fits) := by
  have h0 : Accounts (boot trace) ([] : List (Rpc σ)) := ⟨fun _ => rfl, rfl⟩
  have hrun := (rpcMachine P σ).run_history_of (R := Accounts)
    (C := fun w r => ¬ r.msg.io.Overflowed → r.Carried P w)
    (fun _ _ _ hcar h => h.step hcar) h0 rs hc
  rw [List.nil_append, rpcMachine_history] at hrun
  exact hrun

/-- Every sequence of calls, by any clients, in the order in which the server handles them. A
call whose request fits returns the number of requests that its service has handled, and the
array of the handler holds the client's bytes and a zero; any other call returns zero, and
neither the client's trace nor the server changes. -/
theorem rpc_exact (P : Program) (trace : List Effect) (rs : List (Rpc σ))
    (hcarried : ∀ (pre : List (Rpc σ)) (r : Rpc σ), pre ++ [r] <+: rs → ¬ r.msg.io.Overflowed →
      r.Carried P ((rpcMachine P σ).run (boot trace) pre)) :
    ∀ (pre : List (Rpc σ)) (r : Rpc σ), pre ++ [r] <+: rs →
      let w := (rpcMachine P σ).run (boot trace) pre
      let w' := (rpcMachine P σ).run (boot trace) (pre ++ [r])
      let handled := (pre ++ [r]).filter fun q => q.Fits
      let k : ℕ := handled.countP fun q => q.service = r.service
      (r.Fits → (∃ ret cw, r.call = some (ret, cw) ∧ (k < 2^31 → ret.toInt = (k : ℤ))) ∧
        w'.app.names = w.app.names ++ [(r.service, r.name ++ [0])] ∧ r.name.length + 1 ≤ 512 ∧
        ∀ svc, w'.app.cntTo svc = Int32.ofNat (handled.countP fun q => q.service = svc)) ∧
      (¬ r.Fits → r.call = some (0, r.world) ∧ w' = w) := by
  intro pre r hp w w' handled k
  have hw' : w' = r.serve P w := (rpcMachine P σ).run_append _ pre [r]
  have hpost : Accounts w' handled :=
    run_accounts trace (pre ++ [r]) fun pre' r' hp' => hcarried pre' r' (hp'.trans hp)
  constructor
  · intro hfits
    have hcar := hcarried pre r hp fun ho => r.overflowed_iff.mp ho hfits
    obtain ⟨cw, hcall⟩ := Rpc.call_fits hfits hcar
    have happ := (Rpc.serve_fits hfits hcar.toRequested w).1
    have hcnt : w.app.cntTo r.service + 1 = Int32.ofNat k := by
      rw [← hpost.cntTo, hw', happ]
      simp [sayTo, w]
    refine ⟨⟨_, cw, hcall, fun hk => ?_⟩, ?_, hfits.name_length, hpost.cntTo⟩
    · rw [hcnt, Int32.toInt_ofNat_of_lt hk]
    · rw [hw', happ]
      rfl
  · intro hfits
    exact ⟨Rpc.call_not_fits hfits, hw'.trans (Rpc.serve_not_fits hfits w)⟩

end Runs

/-- A server whose functions are at the addresses 1 and 2. -/
def hiProgram : Program where
  code p := if p = 1 then helloServiceHandler else goodbyeServiceHandler
  hello := 1
  goodbye := 2
  code_hello := rfl
  code_goodbye := rfl

/-- A client says hello: the request arrives at address zero, and the client reads a count. -/
def helloCall (name : List UInt8) (hname : Carriable name) (count : Int32) : Rpc Unit where
  service := .hello
  name := name
  plain := hname
  iodata _ := 0
  handle := 5
  death _ w := w
  world := ⟨(), []⟩
  parse :=
    ⟨write (fun _ => 0) 0 ((Client.sayToMsg Client.iHelloService (fun _ => 0)
      name).outgoing 5 helloSvrCmdSayhelloTo 0).data, 0, none, fun _ w => w, fun _ _ => 0⟩
  ptr := 0
  txn := ⟨1, 0, helloSvrCmdSayhelloTo, 0, 0, 0,
    UInt32.ofNat (4 + stringSpace Client.iHelloService + stringSpace name), 0, 0, 0⟩
  answer := promptAnswer (write (fun _ => 0) 0 (countTxn count).data) 8 0

lemma helloCall_fits_iff {name : List UInt8} {hname : Carriable name} {count : Int32} :
    (helloCall name hname count).Fits ↔
      4 + stringSpace Client.iHelloService + stringSpace name ≤ 496 := Iff.rfl

lemma helloCall_requested {name : List UInt8} {hname : Carriable name} {count : Int32}
    (hfits : (helloCall name hname count).Fits) :
    (helloCall name hname count).Requested hiProgram := by
  have hov : ¬ (Client.sayToMsg Client.iHelloService (fun _ => 0) name).io.Overflowed :=
    fun ho => (helloCall name hname count).overflowed_iff.mp ho hfits
  obtain ⟨hoffs, hd0, hdata⟩ : _ ∧ _ ∧ _ := sayToMsg_outgoing (Service.interface_carriable .hello)
    hname hov 5 helloSvrCmdSayhelloTo
  have hle := helloCall_fits_iff.mp hfits
  have hsize : ((helloCall name hname count).txn.dataSize).toNat =
      4 + stringSpace Client.iHelloService + stringSpace name := by
    refine UInt32.toNat_ofNat'.trans (Nat.mod_eq_of_lt ?_)
    omega
  refine ⟨arrives_of_holdsBytes hoffs ?_ rfl (holdsBytes_write _ 0 _), rfl, rfl⟩
  rw [hsize, Parcel.outgoing, read_length]
  refine Nat.eq_sub_of_add_eq ?_
  refine ((congrArg _ hd0).trans ?_).trans hdata.symm
  exact Nat.add_comm _ _

lemma helloCall_carried {name : List UInt8} {hname : Carriable name} {count : Int32}
    (hfits : (helloCall name hname count).Fits) {w : World ServerState}
    (hcount : w.app.cntTo .hello + 1 = count) :
    (helloCall name hname count).Carried hiProgram w := by
  refine ⟨helloCall_requested hfits, fun out hout => ?_⟩
  rw [(Rpc.serve_fits hfits (helloCall_requested hfits) w).2] at hout
  simp only [List.mem_cons, Effect.write.injEq, reduceCtorEq, BinderCommand.reply.injEq,
    List.not_mem_nil, or_false, false_or] at hout
  have hcnt : (sayTo .hello (name ++ [0]) w.app).1 = count := hcount
  have hbytes : HoldsBytes (write (fun _ => 0) 0 (countTxn count).data) 0 (countTxn count).data :=
    holdsBytes_write _ 0 _
  -- the commands of the read lie above the reply
  have hkeep (bs : List UInt8) := hbytes.congr (write_agree_below _ 8192 0 8 bs (by norm_num))
    le_rfl le_rfl
  have harr : Arrives (countTxn count) (helloCall name hname count).answer.last.input.mem
      (helloCall name hname count).answer.txn := arrives_of_holdsBytes rfl rfl rfl (hkeep _)
  rw [hout.trans (congrArg countTxn hcnt)]
  exact harr

def longName : List UInt8 := List.replicate 240 104

lemma longName_length : longName.length = 240 := List.length_replicate

lemma longName_carriable : Carriable longName := by
  refine ⟨fun h0 => ?_, by rw [longName_length]; decide⟩
  exact absurd (List.eq_of_mem_replicate h0) (by decide)

def hiCall (count : Int32) : Rpc Unit := helloCall [104, 105] ⟨by decide, by decide⟩ count

def longCall : Rpc Unit := helloCall longName longName_carriable 0

lemma hiCall_fits (count : Int32) : (hiCall count).Fits := by
  apply helloCall_fits_iff.mpr
  decide +kernel

lemma longCall_not_fits : ¬ longCall.Fits := by
  have hname : stringSpace longName = 488 := by
    rw [stringSpace, longName_length]
    decide +kernel
  have hinterface : stringSpace Client.iHelloService = 32 := by decide +kernel
  intro hfits
  have hle := helloCall_fits_iff.mp hfits
  omega

lemma hiCalls_carried : (rpcMachine hiProgram Unit).Along
    (fun w r => ¬ r.msg.io.Overflowed → r.Carried hiProgram w) (boot [])
    [hiCall 1, longCall, hiCall 2] := by
  have hlong (w : World ServerState) : longCall.serve hiProgram w = w :=
    Rpc.serve_not_fits longCall_not_fits w
  refine ⟨fun _ => helloCall_carried (hiCall_fits 1) rfl, fun ho => ?_, fun _ => ?_, trivial⟩
  · exact absurd (longCall.overflowed_iff.mpr longCall_not_fits) ho
  · apply helloCall_carried (hiCall_fits 2)
    have happ := (Rpc.serve_fits (hiCall_fits 1) (helloCall_requested (hiCall_fits 1)) (boot [])).1
    simp only [rpcMachine, hlong]
    rw [happ]
    rfl

/-- Two calls that fit, and one between them that does not. -/
theorem rpc_exact_hi :
    longCall.call = some (0, longCall.world) ∧
      ∃ ret cw, (hiCall 2).call = some (ret, cw) ∧ ret.toInt = 2 := by
  have h := rpc_exact hiProgram [] [hiCall 1, longCall, hiCall 2]
    ((rpcMachine hiProgram Unit).along_iff.mp hiCalls_carried)
  have hlong := (h [hiCall 1] longCall (by simp)).2 longCall_not_fits
  have hhi := (h [hiCall 1, longCall] (hiCall 2) (by simp)).1 (hiCall_fits 2)
  obtain ⟨⟨ret, cw, hcall, hret⟩, -⟩ := hhi
  have hsvc (count : Int32) : (hiCall count).service = .hello := rfl
  have hk : (([hiCall 1, longCall] ++ [hiCall 2]).filter fun q => q.Fits).countP
      (fun q => q.service = (hiCall 2).service) = 2 := by
    simp [hiCall_fits, longCall_not_fits, hsvc]
  rw [hk] at hret
  exact ⟨hlong.1, ret, cw, hcall, hret (by norm_num)⟩

end LinuxLabs.HelloService
