import Jujube.Comm
import Jujube.Connection
import Jujube.Event

/-!
# `client.c` and the event table

The whole client: the epoll set, the pool, the streams, the connections and the slots `g_events`.
A stream is named by the block it was allocated in; `streams` has those that were not released, and
following the name of any other is a fault.

`expires_house_keeping` and `evget` of `event.c` are here because they look through the slots at the
connections behind them.  `Client.step` is one thing the main loop does: a transaction is created,
the idle slots are swept, or what `epoll_wait` returned is dispatched.  Freeing the log entry, the
demonstration message of `main_loop` and the bytes read from the tickle pipe are left out.
-/

namespace Jujube

open Bytes Pool

/-- `struct transfer_log_entry` -/
structure TransferLogEntry where
  ip : JujubeInAddr
  port : ℕ
  msgLen : ℕ
  gatherLogmsg : Memory

/-- The state of the client. -/
structure Client where
  kernel : Kernel
  pool : Pool
  streams : Ptr → Option TcpStream
  conns : Connections
  gEvents : ℕ → MyEvent
  checkpos : ℕ
  tickleFd : ℤ

namespace Client

/-- Read the record a slot or a caller points to. -/
def conn (jc : Option Ptr) (w : Client) : Except Fault (Ptr × Jconnect) := do
  let p ← deref jc
  let c ← w.conns.get p
  return (p, c)

/-- Read the stream a connection points to. -/
def stream (s : Option Ptr) (w : Client) : Except Fault TcpStream := do
  let p ← deref s
  fetch (w.streams p)

/-- Write to a slot. -/
def setEvent (i : ℕ) (ev : MyEvent) (w : Client) : Client :=
  { w with gEvents := Function.update w.gEvents i ev }

/-- Write to a record. -/
def setConn (jc : Ptr) (c : Jconnect) (w : Client) : Except Fault Client := do
  let C ← w.conns.set jc c
  return { w with conns := C }

/-- Write to a stream. -/
def setStream (s : TcpStream) (w : Client) : Client :=
  { w with streams := Function.update w.streams s.self (some s) }

/-- `eventadd` on slot `i` -/
def eventadd (i : ℕ) (events : Mask) (now : ℤ) (w : Client) : Client :=
  let (ev, K) := Jujube.eventadd i events now (w.gEvents i) w.kernel
  { w.setEvent i ev with kernel := K }

/-- `eventdel` on slot `i` -/
def eventdel (i : ℕ) (w : Client) : Client :=
  let (ev, K) := Jujube.eventdel i (w.gEvents i) w.kernel
  { w.setEvent i ev with kernel := K }

/-- `event_reset_cb` on slot `i` -/
def eventResetCb (i : ℕ) (callBack : Callback) (w : Client) : Client :=
  w.setEvent i (Jujube.eventResetCb callBack (w.gEvents i))

/-- The loop of `evget`. -/
def evgetLoop (fd : ℤ) (w : Client) : List ℕ → Except Fault (Option ℕ)
  | [] => return none
  | i :: is =>
    let ev := w.gEvents i
    if ev.status = 0 ∧ fd = -1 then return some i
    else if fd ≠ -1 then
      match ev.jc with
      | none => evgetLoop fd w is
      | some jc => do
        let c ← w.conns.get jc
        if c.fd = fd then return some i else evgetLoop fd w is
    else evgetLoop fd w is

/-- `evget` -/
def evget (fd : ℤ) (w : Client) : Except Fault (Option ℕ) := evgetLoop fd w (List.range maxEvents)

/-- `attach_stream_to_connect` -/
def attachStreamToConnect (jc : Ptr) (s : TcpStream) (now : ℤ) (w : Client) :
    Except Fault Client := do
  let c ← w.conns.get jc
  let c := { c with stream := some s.self }
  let w ← w.setConn jc c
  let (i, w) ← (match c.status with
    | .beginConn => do
      let i ← w.evget (-1) >>= deref
      return (i, w.setEvent i (eventset (some jc) c.fd .connectCb now))
    | .connEstab => do
      let i ← w.evget c.fd >>= deref
      return (i, w.eventResetCb i .dataTransfer)
    | .connClose => .error .danglingPointer)
  return w.eventadd i ⟨false, true⟩ now

/-- `release_stream_from_connect` on slot `i` -/
def releaseStreamFromConnect (i : ℕ) (isBadConn : Bool) (now : ℤ) (w : Client) :
    Except Fault Client := do
  let (jc, c) ← w.conn (w.gEvents i).jc
  let w ← (match c.stream with
    | none => return w
    | some p => do
      let s ← fetch (w.streams p)
      let P ← freeTransactionStream s w.pool
      return { w with pool := P, streams := Function.update w.streams p none })
  let c := { c with stream := none }
  let w ← (if isBadConn then do
      let w ← w.setConn jc { c with isAlive := false, status := .connClose }
      return w.eventdel i
    else do
      let w ← w.setConn jc c
      return (w.eventResetCb i .keepaliveCb).eventadd i ⟨true, false⟩ now)
  let (C, K) ← releaseConnection jc w.conns w.kernel
  return { w with conns := C, kernel := K }

/-- `BAD_CONNECT` -/
def badConnect : Bool := true

/-- `OK_CONNECT` -/
def okConnect : Bool := false

/-- `connect_cb` -/
def connectCb (i : ℕ) (e : Event) (w : Client) : Except Fault Client := do
  let ev := w.gEvents i
  let (_, c) ← w.conn ev.jc
  let s ← w.stream c.stream
  assert .connectCbSock (ev.fd = s.serverSock)
  if e.writeEvent = false then
    w.releaseStreamFromConnect i badConnect e.now
  else
    return (w.eventResetCb i .dataTransfer).eventadd i ⟨false, true⟩ e.now

/-- `keepalive_cb` -/
def keepaliveCb (i : ℕ) (w : Client) : Except Fault Client := do
  let (jc, c) ← w.conn (w.gEvents i).jc
  let w ← w.setConn jc { c with isAlive := false }
  let w := w.eventdel i
  let (C, K) ← releaseKeepaliveConnection jc w.conns w.kernel
  return { w with conns := C, kernel := K }

/-- `set_stream_event_in_out` on slot `i` -/
def setStreamEventInOut (i : ℕ) (now : ℤ) (w : Client) : Except Fault Client := do
  let (_, c) ← w.conn (w.gEvents i).jc
  assert .eventStream (c.stream ≠ none)
  let s ← w.stream c.stream
  let (ev, K) := Jujube.setStreamEventInOut i s now (w.gEvents i) w.kernel
  return { w.setEvent i ev with kernel := K }

/-- The part of `data_transfer` under `if (write_event)`: `true` when it returns there. -/
def writeStage (i : ℕ) (e : Event) (w : Client) : Except Fault (Bool × Client) := do
  let (jc, c) ← w.conn (w.gEvents i).jc
  let s ← w.stream c.stream
  let f ← streamFlushOut s (-1) e.writes w.pool
  let w := { w with pool := f.pool }.setStream f.stream
  if f.ret < 0 then do
    let w ← w.releaseStreamFromConnect i badConnect e.now
    return (true, w)
  else do
    let w ← w.setConn jc { c with isAlive := true, status := .connEstab }
    if bufDataSize f.stream.inBuf = 0 then do
      let w ← w.releaseStreamFromConnect i badConnect e.now
      return (true, w)
    else
      return (false, w)

/-- The part of `data_transfer` under `if (read_event)`: whatever was read, the connection is
given up. -/
def readStage (i : ℕ) (e : Event) (w : Client) : Except Fault Client := do
  let (_, c) ← w.conn (w.gEvents i).jc
  let s ← w.stream c.stream
  let (_, s, P) ← streamFeedOut s e.reads w.pool
  let w := { w with pool := P }.setStream s
  w.releaseStreamFromConnect i badConnect e.now

/-- `data_transfer` -/
def dataTransfer (i : ℕ) (e : Event) (w : Client) : Except Fault Client := do
  let ev := w.gEvents i
  let (_, c) ← w.conn ev.jc
  let s ← w.stream c.stream
  assert .clientSock (ev.fd = s.serverSock)
  if e.readEvent = false ∧ e.writeEvent = false then
    w.releaseStreamFromConnect i badConnect e.now
  else do
    let (done, w) ← (if e.writeEvent then w.writeStage i e else return (false, w))
    if done then return w
    else if e.readEvent then w.readStage i e
    else w.setStreamEventInOut i e.now

/-- `ev->call_back(ev->fd, .., .., ev->arg)` for slot `i`; the client has no other callbacks. -/
def callBack (i : ℕ) (e : Event) (w : Client) : Except Fault Client :=
  match (w.gEvents i).callBack with
  | some .connectCb => w.connectCb i e
  | some .keepaliveCb => w.keepaliveCb i
  | some .dataTransfer => w.dataTransfer i e
  | some .acceptConn | none => .error .nullPointer

/-- What `epoll_wait` returned, in order: an event of the tickle pipe leaves nothing behind. -/
def dispatch : List (EpollData × Event) → Client → Except Fault Client
  | [], w => return w
  | (.fd _, _) :: es, w => dispatch es w
  | (.ptr i, e) :: es, w => do
    let w ← w.callBack i e
    dispatch es w

/-- `close_stream` on slot `i` -/
def closeStream (i : ℕ) (w : Client) : Except Fault Client := do
  match (w.gEvents i).jc with
  | none => return w
  | some jc => do
    let c ← w.conns.get jc
    match c.stream with
    | none => return w
    | some p => do
      let s ← fetch (w.streams p)
      let (ev, K, P) ← Jujube.closeStream i s (w.gEvents i) w.kernel w.pool
      return { w.setEvent i ev with
        kernel := K, pool := P, streams := Function.update w.streams p none }

/-- The body of the loop of `expires_house_keeping`, on slot `i`. -/
def expireSlot (now exceptFd : ℤ) (i : ℕ) (w : Client) : Except Fault Client :=
  let ev := w.gEvents i
  if ev.status ≠ 1 then return w
  else if 10 ≤ now - ev.lastActive ∧ exceptFd ≠ ev.fd then (w.eventdel i).closeStream i
  else return w

/-- The loop of `expires_house_keeping`, from slot `checkpos` on. -/
def expireLoop (now exceptFd : ℤ) : ℕ → ℕ → Client → Except Fault Client
  | 0, checkpos, w => return { w with checkpos := checkpos }
  | n + 1, checkpos, w => do
    let checkpos := if checkpos = maxEvents then 0 else checkpos
    let w ← w.expireSlot now exceptFd checkpos
    expireLoop now exceptFd n (checkpos + 1) w

/-- `expires_house_keeping` -/
def expiresHouseKeeping (now exceptFd : ℤ) (w : Client) : Except Fault Client :=
  expireLoop now exceptFd (maxEvents + 1) w.checkpos w

/-- What `malloc` and the system calls of `create_transaction` come to, and the time. -/
structure Dialling where
  malloc : Option (Ptr × Jconnect)
  dial : Dial
  behind : List UInt8
  now : ℤ

/-- What the system promises: `malloc` returns an address that is not in use, and `socket` a
descriptor that is not. -/
structure Dialling.Ok (d : Dialling) (C : Connections) (K : Kernel) : Prop where
  fresh : ∀ jc raw, d.malloc = some (jc, raw) → jc ∉ C.allocated
  opened : ∀ fd, d.dial.fd? = some fd → 0 ≤ fd ∧ fd < 2 ^ 31 ∧ fd ∉ K.opened

/-- A new connection on descriptor 5. -/
def dialFive : Dialling := ⟨some (0, ⟨0, false, 0, .beginConn, none⟩), .connected 5, [], 0⟩

/-- The part of `create_transaction` under `if (jc == NULL)`: a new connection, if there is one. -/
def newConnection (entry : TransferLogEntry) (d : Dialling) (C : Connections) (K : Kernel) :
    Option Ptr × Connections × Kernel :=
  match d.malloc with
  | none => (none, C, K)
  | some (jc, raw) =>
    let C := C.malloc jc raw
    let r := createConnectSocket (fun _ => 0) entry.ip d.behind entry.ip.flag entry.port d.dial K
    if r.sock < 0 then (none, C, r.kernel)
    else
      let c := { raw with fd := r.sock, isAlive := false, status := .beginConn }
      (some jc, { C with jconnects := Function.update C.jconnects jc c }, r.kernel)

/-- The connection that `create_transaction` uses: an idle one, or a new one. -/
def takeConnection (entry : TransferLogEntry) (d : Dialling) (w : Client) :
    Except Fault (Option Ptr × Connections × Kernel) := do
  let (conn, C, K) ← getConnection w.conns w.kernel
  match conn with
  | none => return newConnection entry d C K
  | some jc => return (some jc, C, K)

/-- `create_transaction`.  The length that is sent is the constant 512, and so is the number of
bytes of the message. -/
def createTransaction (entry : TransferLogEntry) (d : Dialling) (w : Client) :
    Except Fault Client := do
  let compressRet : ℕ := 512
  let prefixLen := le 8 compressRet
  let (conn, C, K) ← w.takeConnection entry d
  let w := { w with conns := C, kernel := K }
  match conn with
  | none => return w
  | some jc => do
    let c ← w.conns.get jc
    let (s, P) ← newTransactionStream c.fd prefixLen (read entry.gatherLogmsg 0 compressRet) w.pool
    let w := { w with pool := P }.setStream s
    w.attachStreamToConnect jc s d.now

/-- The client when the loop of `main_loop` begins: `opened` are the descriptors it was started
with and the epoll set itself. -/
def init (raw : Ptr → Memory) (opened : Finset ℤ) (rd wr : ℤ) : Client where
  kernel := setWakeUpPolling rd wr (.unwatched opened)
  pool := memModuleInit raw
  streams := fun _ => none
  conns := initConnectPool
  gEvents := fun _ => MyEvent.zero
  checkpos := 0
  tickleFd := rd

end Client

/-- What the main loop does. -/
inductive ClientOp
  | create (entry : TransferLogEntry) (d : Client.Dialling)
  | sweep (now : ℤ)
  | batch (es : List (EpollData × Event))

namespace Client

/-- One thing that the main loop does. -/
def step (w : Client) : ClientOp → Except Fault Client
  | .create entry d => w.createTransaction entry d
  | .sweep now => w.expiresHouseKeeping now w.tickleFd
  | .batch es => w.dispatch es

/-! ### New connections -/

/-- What `newConnection` can come to: nothing was allocated, a record was allocated and left behind
(and perhaps a descriptor with it), or there is a new connection. -/
inductive NewConnection (C : Connections) (K : Kernel) : Option Ptr × Connections × Kernel → Prop
  | nothing : NewConnection C K (none, C, K)
  | leaked {jc : Ptr} {K' : Kernel} (raw : Jconnect) (fresh : jc ∉ C.allocated)
    (kernel : K' = K ∨ ∃ fd, fd ∉ K.opened ∧ K' = K.openFd fd) :
    NewConnection C K (none, C.malloc jc raw, K')
  | made {jc : Ptr} {c : Jconnect} (fresh : jc ∉ C.allocated) (status : c.status = .beginConn)
    (range : 0 ≤ c.fd ∧ c.fd < 2 ^ 31) (new : c.fd ∉ K.opened) :
    NewConnection C K (some jc, C.malloc jc c, K.openFd c.fd)

theorem newConnection_spec {d : Dialling} {C : Connections} {K : Kernel} (hd : d.Ok C K)
    (entry : TransferLogEntry) : NewConnection C K (newConnection entry d C K) := by
  obtain ⟨malloc, dial, behind, now⟩ := d
  cases malloc with
  | none => exact .nothing
  | some r =>
    obtain ⟨jc, raw⟩ := r
    have hjc : jc ∉ C.allocated := hd.fresh jc raw rfl
    have hmade : ∀ fd, 0 ≤ fd ∧ fd < 2 ^ 31 ∧ fd ∉ K.opened →
        NewConnection C K (if fd < 0 then (none, C.malloc jc raw, K.openFd fd)
          else (some jc, { C.malloc jc raw with
            jconnects := Function.update (C.malloc jc raw).jconnects jc
              { raw with fd := fd, isAlive := false, status := .beginConn } }, K.openFd fd)) := by
      rintro fd ⟨hpos, hlt, hnew⟩
      rw [if_neg (by omega)]
      simp only [Connections.malloc, Function.update_idem]
      exact .made hjc rfl ⟨hpos, hlt⟩ hnew
    cases dial with
    | noSocket => exact .leaked raw hjc (.inl rfl)
    | blocking fd => exact .leaked raw hjc (.inr ⟨fd, (hd.opened fd rfl).2.2, rfl⟩)
    | refused fd => exact .leaked raw hjc (.inr ⟨fd, (hd.opened fd rfl).2.2, rfl⟩)
    | inProgress fd => exact hmade fd (hd.opened fd rfl)
    | connected fd => exact hmade fd (hd.opened fd rfl)

end Client

end Jujube
