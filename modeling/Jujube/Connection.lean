import Jujube.Kernel
import Jujube.Mem

/-!
# `connection.c`: the connection pool

A `jconnect` is a record from `malloc`; idle ones are linked in `g_jconnect`.  `Connections` is what
`connection.c` reads or writes besides the descriptors it closes: the counters, the list links, and
the records that were allocated and not freed.  An address may be handed out again by `malloc`
after it was freed, and links of a freed record stay behind as they were.

The loops over the lists are bounded by the number of records: on a proper list they end before
(`getConnection_spec`), and a walk that does not is a fault.  The mutex is left out, the program has
one thread, and so are the fields of a record that nothing reads.
-/

namespace Jujube

/-- `jc->status` -/
inductive ConnStatus
  | beginConn
  | connEstab
  | connClose
  deriving DecidableEq, Repr

/-- `jconnect`; `stream` is the block of its stream. -/
structure Jconnect where
  fd : ℤ
  isAlive : Bool
  requests : UInt32
  status : ConnStatus
  stream : Option Ptr
  deriving DecidableEq

/-- `connect_pool`.  The program has no field `underflows`: it counts the times that
`current_total` was 0 when it was decremented. -/
structure ConnectPool where
  maxConnects : UInt32
  maxAliveTimes : UInt32
  maxTxn : UInt32
  currentTotal : UInt32
  underflows : ℕ
  deriving DecidableEq

def ConnectPool.inc (p : ConnectPool) : ConnectPool := { p with currentTotal := p.currentTotal + 1 }

def ConnectPool.dec (p : ConnectPool) : ConnectPool :=
  { p with
    currentTotal := p.currentTotal - 1
    underflows := p.underflows + if p.currentTotal = 0 then 1 else 0 }

/-- The nodes of the lists: `g_jconnect`, the local head of `get_connection`, and the records. -/
inductive ConnNode
  | gJconnect
  | invaildConn
  | jconnect (jc : Ptr)
  deriving DecidableEq

/-- The state of `connection.c`. -/
structure Connections where
  connectPool : ConnectPool
  links : Links ConnNode
  allocated : Finset Ptr
  jconnects : Ptr → Jconnect

namespace Connections

/-- Read a record. -/
def get (jc : Ptr) (C : Connections) : Except Fault Jconnect :=
  if jc ∈ C.allocated then .ok (C.jconnects jc) else .error .danglingPointer

/-- Write a record. -/
def set (jc : Ptr) (c : Jconnect) (C : Connections) : Except Fault Connections :=
  if jc ∈ C.allocated then .ok { C with jconnects := Function.update C.jconnects jc c }
  else .error .danglingPointer

/-- `malloc` of a record at an address that is not in use, with what is found there. -/
def malloc (jc : Ptr) (raw : Jconnect) (C : Connections) : Connections :=
  { C with
    allocated := insert jc C.allocated
    jconnects := Function.update C.jconnects jc raw }

/-- `free` -/
def free (jc : Ptr) (C : Connections) : Except Fault Connections :=
  if jc ∈ C.allocated then .ok { C with allocated := C.allocated.erase jc }
  else .error .danglingPointer

/-- `g_connect_pool.current_total++` -/
def incTotal (C : Connections) : Connections := { C with connectPool := C.connectPool.inc }

/-- `g_connect_pool.current_total--` -/
def decTotal (C : Connections) : Connections := { C with connectPool := C.connectPool.dec }

/-- More steps than any list of records has. -/
def bound (C : Connections) : ℕ := C.allocated.card + 1

end Connections

/-- `(jconnect*)cursor` -/
def entryOf : Option ConnNode → Except Fault Ptr
  | some (.jconnect jc) => .ok jc
  | some _ => .error .danglingPointer
  | none => .error .nullPointer

/-- `init_connect_pool`, before anything was allocated -/
def initConnectPool : Connections where
  connectPool := ⟨10, 60, 100, 0, 0⟩
  links := initListHead .gJconnect ⟨fun _ => none, fun _ => none⟩
  allocated := ∅
  jconnects := fun _ => ⟨0, false, 0, .beginConn, none⟩

/-- The loop of `get_connection_statiscs`, `i` records counted. -/
def statiscsLoop (C : Connections) : ℕ → ℤ → Option ConnNode → Except Fault ℤ
  | 0, _, _ => .error .endlessLoop
  | n + 1, i, cursor =>
    if cursor = some .gJconnect then return i
    else do
      let jc ← entryOf cursor
      let _ ← C.get jc
      statiscsLoop C n (i + 1) (C.links.next (.jconnect jc))

/-- `get_connection_statiscs`: the number it prints -/
def getConnectionStatiscs (C : Connections) : Except Fault ℤ :=
  statiscsLoop C C.bound 0 (C.links.next .gJconnect)

/-- The first loop of `get_connection`: records are taken off `g_jconnect` up to the first one that
is alive; the dead ones go to `invaild_conn`. -/
def takeLoop : ℕ → Option ConnNode → Connections → Except Fault (Option Ptr × Connections)
  | 0, _, _ => .error .endlessLoop
  | n + 1, cursor, C =>
    if cursor = some .gJconnect then return (none, C)
    else do
      let tmp ← entryOf cursor
      let next := C.links.next (.jconnect tmp)
      let c ← C.get tmp
      let links ← listDel (.jconnect tmp) C.links
      if c.isAlive = false then do
        let links ← listAddTail (.jconnect tmp) .invaildConn links
        takeLoop n next { C with links := links }
      else
        return (some tmp, { C with links := links })

/-- The second loop of `get_connection`: the records of `invaild_conn` are closed and freed. -/
def closeLoop : ℕ → Option ConnNode → Connections → Kernel → Except Fault (Connections × Kernel)
  | 0, _, _, _ => .error .endlessLoop
  | n + 1, cursor, C, K =>
    if cursor = some .invaildConn then return (C, K)
    else do
      let tmp ← entryOf cursor
      let next := C.links.next (.jconnect tmp)
      let c ← C.get tmp
      let C ← C.free tmp
      closeLoop n next C.decTotal (K.close c.fd)

/-- `get_connection` -/
def getConnection (C : Connections) (K : Kernel) :
    Except Fault (Option Ptr × Connections × Kernel) := do
  let n := C.bound
  let C := { C with links := initListHead .invaildConn C.links }
  let (conn, C) ← takeLoop n (C.links.next .gJconnect) C
  let (C, K) ← closeLoop n (C.links.next .invaildConn) C K
  return (conn, C, K)

/-- `release_connection` -/
def releaseConnection (jc : Ptr) (C : Connections) (K : Kernel) :
    Except Fault (Connections × Kernel) := do
  let c ← C.get jc
  let c := { c with requests := c.requests + 1 }
  let C ← C.set jc c
  if c.isAlive = false then do
    let C ← C.free jc
    return (C.decTotal, K.close c.fd)
  else do
    let C := C.incTotal
    let links ← listAddTail (.jconnect jc) .gJconnect C.links
    return ({ C with links := links }, K)

/-- `release_keepalive_connection` -/
def releaseKeepaliveConnection (jc : Ptr) (C : Connections) (K : Kernel) :
    Except Fault (Connections × Kernel) := do
  let c ← C.get jc
  let links ← listDel (.jconnect jc) C.links
  let C ← Connections.free jc { C with links := links }
  return (C.decTotal, K.close c.fd)

end Jujube
