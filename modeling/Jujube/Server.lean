import Jujube.Event

/-!
# `server.c`: one connection

The state of the server as far as one accepted connection goes: the slot and the stream that serve
it, the pool, the epoll set, and the calls of `do_work` so far.  `server.c` was written against an
earlier `event.h`: a slot held its stream directly, and `set_event_in_out` is what is now
`set_stream_event_in_out`.

`do_work` is the program's client: it is handed the bytes of a block and a length.  A run that ends
in a fault keeps the calls made before it (`Abort`).

`data_transfer` has three stages, each of which may be the last: `true` stands for its `return`,
`false` for going on.  What `collect_data` does when all of the body was read but its length is not
the announced one is a parameter (`mismatch`), `rejectFrame` in the program: a run that is the same
for every value of the parameter never gets there.
-/

namespace Jujube

open Bytes Pool

/-- `LOG_MAX_LEN` -/
def logMaxLen : ℕ := 1024 * 32

/-- A call of `do_work`: the bytes of the block `buffer` points to, and `len`. -/
structure Work where
  buffer : List UInt8
  len : ℤ

/-- The server, as one connection sees it.  `stream` is `none` once the stream was closed.  The
program counts `qps`, and not `workBuffs` and `workReallocs`: the calls of `alloc_work_buff`, and
those of `buf_realloc` on `work_buf`. -/
structure Server where
  kernel : Kernel
  pool : Pool
  slot : ℕ
  ev : MyEvent
  stream : Option TcpStream
  works : List Work
  qps : ℕ
  workBuffs : ℕ
  workReallocs : ℕ

/-- A fault, and the calls of `do_work` made before it. -/
structure Abort where
  fault : Fault
  works : List Work

/-- A result inside the server: a fault takes the calls of `do_work` with it. -/
def Server.call {α : Type*} (c : Server) (x : Except Fault α) : Except Abort α :=
  x.mapError fun f => ⟨f, c.works⟩

/-- `close_stream` on the connection's slot -/
def Server.closeStream (c : Server) : Except Abort Server := do
  let s ← c.call (fetch c.stream)
  let (ev, K, P) ← c.call (Jujube.closeStream c.slot s c.ev c.kernel c.pool)
  return { c with ev := ev, kernel := K, pool := P, stream := none }

/-- `clear_space(s->out_buf)` -/
def Server.clearOutBuf (c : Server) : Except Abort Server := do
  let s ← c.call (fetch c.stream)
  let (b, P) ← c.call (clearSpace s.outBuf c.pool)
  return { c with pool := P, stream := some { s with outBuf := b } }

/-- The end of `collect_data` when `data_recved` is not `content_len`. -/
def rejectFrame (c : Server) : Except Abort Server := do
  let c ← c.clearOutBuf
  c.closeStream

variable (mismatch : Server → Except Abort Server)

/-- `collect_data`: what is in `out_buf` moves to the end of `work_buf`.  The result is 1 when the
body is complete, 0 when more is needed, -1 when the stream was closed. -/
def collectData (c : Server) : Except Abort (ℤ × Server) := do
  let s ← c.call (fetch c.stream)
  let n := bufDataSize s.outBuf
  let s := { s with
    dataRecved := s.dataRecved + n
    replyBodySizeLeft := s.replyBodySizeLeft - n }
  let w ← c.call (deref s.workBuf)
  let d ← c.call (c.pool.load s.outBuf.buffer 0 n)
  let workReallocs := if bufFreeSpace w < n then c.workReallocs + 1 else c.workReallocs
  let (_, w, P) ← c.call (bufPut d w c.pool)
  let s := { s with workBuf := some w }
  let c ← Server.clearOutBuf
    { c with pool := P, stream := some s, workReallocs := workReallocs }
  if s.replyBodySizeLeft = 0 then
    if s.dataRecved ≠ s.contentLen then do
      let c ← mismatch c
      return (-1, c)
    else
      return (1, c)
  else
    return (0, c)

/-- `do_work(s->work_buf->buffer, s->data_recved)` -/
def doWork (c : Server) : Except Abort Server := do
  let s ← c.call (fetch c.stream)
  let w ← c.call (deref s.workBuf)
  let e ← c.call (fetch (c.pool.live w.buffer))
  return { c with works := c.works ++ [⟨read e.obj 0 e.capacity, toInt s.dataRecved⟩] }

/-- `collect_data` and the tests of its result, the same at its three call sites. -/
def collectStage (c : Server) : Except Abort (Bool × Server) := do
  let (ret, c) ← collectData mismatch c
  if ret = 1 then do
    let c ← doWork c
    let c ← Server.closeStream { c with qps := c.qps + 1 }
    return (true, c)
  else
    return (ret = -1, c)

/-- `alloc_work_buff` -/
def allocWorkBuff (P : Pool) : Except Fault (Buf × Pool) := do
  let (w, P) ← memAlloc (some "work_buf") sizeofBuf P
  let P ← P.store w 0 (List.replicate sizeofBuf 0)
  let (d, P) ← memAlloc (some "work_buf_data") logMaxLen P
  let P ← P.store d 0 [0]
  return (⟨w, d, logMaxLen, 0⟩, P)

/-- The first bytes of a frame: its length is checked and the rest of them collected. -/
def headerStage (c : Server) : Except Abort (Bool × Server) := do
  let s ← c.call (fetch c.stream)
  if bufDataSize s.outBuf < 8 then
    return (false, c)
  else
    let d ← c.call (c.pool.load s.outBuf.buffer 0 8)
    let header := ofLe d
    if logMaxLen < header ∨ header = 0 then do
      let c ← c.clearOutBuf
      let c ← c.closeStream
      return (true, c)
    else
      let s : TcpStream := { s with replyBodySizeLeft := header, contentLen := header }
      let (b, P) ← c.call (bufPick 8 s.outBuf c.pool)
      let (w, P) ← c.call (allocWorkBuff P)
      let c := { c with
        pool := P
        stream := some { s with outBuf := b, workBuf := some w }
        workBuffs := c.workBuffs + 1 }
      if 0 < s.replyBodySizeLeft then collectStage mismatch c
      else return (false, c)

/-- What a read event does with the bytes read. -/
def frameStage (c : Server) : Except Abort (Bool × Server) := do
  let s ← c.call (fetch c.stream)
  let P ← (if s.outBuf.dataLen < s.outBuf.bufLen then
      c.call (c.pool.store s.outBuf.buffer s.outBuf.dataLen [0])
    else return c.pool)
  let c := { c with pool := P }
  if 0 < s.replyBodySizeLeft then collectStage mismatch c
  else if s.replyBodySizeLeft = 0 then headerStage mismatch c
  else return (false, c)

/-- The part of `data_transfer` under `if (read_event)`. -/
def readStage (reads : List ReadResult) (c : Server) : Except Abort (Bool × Server) := do
  let s ← c.call (fetch c.stream)
  c.call (assert .serverOutBufEmpty (bufDataSize s.outBuf = 0))
  let (r, s, P) ← c.call (streamFeedOut s reads c.pool)
  let c := { c with pool := P, stream := some s }
  let (done, c) ← (if r < 0 then
      if bufDataSize s.outBuf = 0 then do
        let c ← c.closeStream
        return (true, c)
      else collectStage mismatch c
    else return (false, c))
  if done then return (true, c) else frameStage mismatch c

/-- The part of `data_transfer` under `if (write_event)`. -/
def writeStage (writes : List WriteResult) (c : Server) : Except Abort (Bool × Server) := do
  let s ← c.call (fetch c.stream)
  let f ← c.call (streamFlushOut s (-1) writes c.pool)
  let c := { c with pool := f.pool, stream := some f.stream }
  if f.ret < 0 then do
    let c ← c.closeStream
    return (true, c)
  else return (false, c)

/-- `set_event_in_out` -/
def Server.setEventInOut (now : ℤ) (c : Server) : Except Abort Server := do
  let s ← c.call (fetch c.stream)
  let (ev, K) := setStreamEventInOut c.slot s now c.ev c.kernel
  return { c with ev := ev, kernel := K }

/-- `data_transfer` -/
def dataTransfer (e : Event) (c : Server) : Except Abort Server := do
  let s ← c.call (fetch c.stream)
  c.call (assert .serverSock (c.ev.fd = s.serverSock))
  if e.readEvent = false ∧ e.writeEvent = false then c.closeStream
  else do
    let (done, c) ← (if e.writeEvent then writeStage e.writes c else return (false, c))
    if done then return c
    else do
      let (done, c) ← (if e.readEvent then readStage mismatch e.reads c else return (false, c))
      if done then return c else c.setEventInOut e.now

/-- The end of `accept_conn`: the connection `cfd` gets a stream and slot `i`. -/
def acceptStream (i : ℕ) (cfd now : ℤ) (K : Kernel) (P : Pool) : Except Fault Server := do
  let (s, P) ← streamCreate cfd P
  let ev := eventset none cfd .dataTransfer now
  let (ev, K) := eventadd i ⟨true, false⟩ now ev K
  return ⟨K, P, i, ev, some s, [], 0, 0, 0⟩

/-- The connection's next event.  Its descriptor is reported until it is closed. -/
def Server.step (c : Server) (e : Event) : Except Abort Server :=
  if c.stream = none then .ok c else dataTransfer mismatch e c

end Jujube
