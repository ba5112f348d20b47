import Jujube.ServerAccept

/-!
# `server.c`: the process

`main_rcv_loop`: the slots, the pool and the epoll set that all connections share.  A callback for a
slot is `data_transfer` on the slot's part of the state (`ServerProcess.view`), or `accept_conn` for
the listening socket, which has the slot behind the others.

The fields from `number` on are not the program's: they number the accepted connections and say what
happened to each, an event or the end of its time, and what `do_work` was called with for which.
-/

namespace Jujube

open Pool Transition

/-- The state of the server, and the history of its connections. -/
structure ServerProcess extends ServerTable where
  checkpos : ℕ
  qps : ℕ
  nextTime : ℤ
  number : ℕ → ℕ
  accepted : ℕ
  tallies : ℕ → ℕ × ℕ
  events : ℕ → List (Option Event)
  calls : List (ℕ × Work)

/-- A fault ends the process: the state before the callback that faulted, the event being in the
history. -/
structure Crash where
  fault : Fault
  last : ServerProcess

/-- What `epoll_wait` reports, and what `accept` returns if the callback calls it. -/
structure ServerEvent extends Event where
  accept : Accept

namespace ServerProcess

/-- The server as the connection of slot `i` sees it. -/
def view (i : ℕ) (p : ServerProcess) : Server :=
  ⟨p.kernel, p.pool, i, p.gEvents i, p.streams i, [], p.qps, (p.tallies i).1, (p.tallies i).2⟩

/-- What happened to connection `k`, and the calls of `do_work` for it. -/
def log (k : ℕ) (o : Option Event) (works : List Work) (p : ServerProcess) : ServerProcess :=
  { p with
    events := Function.update p.events k (p.events k ++ [o])
    calls := p.calls ++ works.map fun w => (k, w) }

/-- `data_transfer` for slot `i` -/
def transfer (i : ℕ) (e : Event) (p : ServerProcess) : Except Crash ServerProcess :=
  match dataTransfer rejectFrame e (p.view i) with
  | .ok c =>
    let p' := { p with
      kernel := c.kernel
      pool := c.pool
      gEvents := Function.update p.gEvents i c.ev
      streams := Function.update p.streams i c.stream
      qps := c.qps
      tallies := Function.update p.tallies i (c.workBuffs, c.workReallocs) }
    .ok (p'.log (p.number i) (some e) c.works)
  | .error a => .error ⟨a.fault, p.log (p.number i) (some e) a.works⟩

/-- `accept_conn` -/
def accept (a : Accept) (p : ServerProcess) : Except Crash ServerProcess :=
  match p.acceptConn a with
  | .ok T =>
    match newSlot p.gEvents T.gEvents with
    | none => .ok { p with toServerTable := T }
    | some i => .ok { p with
        toServerTable := T
        number := Function.update p.number i p.accepted
        accepted := p.accepted + 1
        tallies := Function.update p.tallies i (0, 0) }
  | .error f => .error ⟨f, p⟩

/-- `ev->call_back(ev->fd, .., .., ev->arg)` -/
def callBack (p : ServerProcess) : EpollData × ServerEvent → Except Crash ServerProcess
  | (.ptr i, e) =>
    match (p.gEvents i).callBack with
    | some .acceptConn => p.accept e.accept
    | some .dataTransfer => p.transfer i e.toEvent
    | _ => .error ⟨.nullPointer, p⟩
  | (.fd _, _) => .error ⟨.danglingPointer, p⟩

/-- What `epoll_wait` returned, in order. -/
def dispatch (es : List (EpollData × ServerEvent)) (p : ServerProcess) :
    Except Crash ServerProcess :=
  run callBack p es

/-- The body of the loop of `expires_house_keeping`, on slot `i`: `except_fd` is -1. -/
def expireSlot (now : ℤ) (i : ℕ) (p : ServerProcess) : Except Crash ServerProcess :=
  let ev := p.gEvents i
  if ev.status ≠ 1 then .ok p
  else if 10 ≤ now - ev.lastActive ∧ -1 ≠ ev.fd then
    let (ev, K) := eventdel i ev p.kernel
    match p.streams i with
    | none => .ok { p with kernel := K, gEvents := Function.update p.gEvents i ev }
    | some s =>
      match closeStream i s ev K p.pool with
      | .ok (ev, K, P) =>
        let p' := { p with
          kernel := K
          pool := P
          gEvents := Function.update p.gEvents i ev
          streams := Function.update p.streams i none }
        .ok (p'.log (p.number i) none [])
      | .error f => .error ⟨f, p⟩
  else .ok p

/-- The loop of `expires_house_keeping`, from slot `checkpos` on. -/
def expireLoop (now : ℤ) : ℕ → ℕ → ServerProcess → Except Crash ServerProcess
  | 0, checkpos, p => .ok { p with checkpos := checkpos }
  | n + 1, checkpos, p => do
    let checkpos := if checkpos = maxEvents then 0 else checkpos
    let p ← p.expireSlot now checkpos
    expireLoop now n (checkpos + 1) p

/-- `expires_house_keeping` -/
def expiresHouseKeeping (now : ℤ) (p : ServerProcess) : Except Crash ServerProcess :=
  expireLoop now (maxEvents + 1) p.checkpos p

/-- A round of the main loop, in front of `epoll_wait`. -/
def tick (now : ℤ) (p : ServerProcess) : Except Crash ServerProcess :=
  let p := if p.nextTime ≤ now then { p with qps := 0, nextTime := now + 10 } else p
  p.expiresHouseKeeping now

/-- The process when the main loop begins, with the listening socket `lfd`: `opened` are the
descriptors it was started with and the epoll set itself.  The pool is as `mem_module_init` leaves
it, which `main_rcv_loop` does not call: its caller has to have done so. -/
def init (raw : Ptr → Bytes.Memory) (opened : Finset ℤ) (lfd now : ℤ) : ServerProcess :=
  let K := (Kernel.unwatched opened).openFd lfd
  let (ev, K) := eventadd maxEvents ⟨true, false⟩ now (eventset none lfd .acceptConn now) K
  { kernel := K
    pool := memModuleInit raw
    gEvents := Function.update (fun _ => .zero) maxEvents ev
    streams := fun _ => none
    checkpos := 0
    qps := 0
    nextTime := now + 10
    number := fun _ => 0
    accepted := 0
    tallies := fun _ => (0, 0)
    events := fun _ => []
    calls := [] }

end ServerProcess

/-- What the main loop does. -/
inductive ServerOp
  | tick (now : ℤ)
  | batch (es : List (EpollData × ServerEvent))

namespace ServerProcess

/-- One thing that the main loop does. -/
def step (p : ServerProcess) : ServerOp → Except Crash ServerProcess
  | .tick now => p.tick now
  | .batch es => p.dispatch es

/-- The last state of a run, whether or not it ended in a fault. -/
def final : Except Crash ServerProcess → ServerProcess
  | .ok p => p
  | .error a => a.last

/-- The calls of `do_work` for connection `k`. -/
def callsOf (k : ℕ) (p : ServerProcess) : List Work :=
  p.calls.filterMap fun c => if c.1 = k then some c.2 else none

end ServerProcess

end Jujube
