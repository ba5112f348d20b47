import Jujube.Buf

/-!
# `stream.c`: streams

A `tcp_stream` is a Lean record; the blocks it and its buffers were allocated in are part of it,
so that releasing a stream is releasing blocks of the pool.  The fields that the program sets
and never reads (`data_start`, `data_begin`, `data_out`, the addresses) are left out.

`read` and `write` answer from a script: one entry for each call, `EAGAIN` when it is used up.
`ReadResult.data c` is a successful read of at most the bytes of `c` (a `read` never returns more
than it is asked for), `WriteResult.accept k` a `write` that takes `k + 1` bytes or all it is
given, whichever is less.

`TcpStream.footprint` is the list of blocks a stream holds and `Pool.Owned` says that they are
live and distinct, which is what every operation on the stream keeps.
-/

namespace Jujube

open Bytes Pool

/-- `cfg_http_buf_size` -/
def cfgHttpBufSize : ℕ := 8 * 1024

/-- `mid_http_buf_size` -/
def midHttpBufSize : ℕ := 64 * 1024

/-- `sizeof(tcp_stream)` -/
def sizeofTcpStream : ℕ := 152

/-- `sizeof(buf_t)` -/
def sizeofBuf : ℕ := 24

/-- `tcp_stream`.  `self` is the block the structure itself was allocated in. -/
structure TcpStream where
  self : Ptr
  dataIn : ℤ
  serverSock : ℤ
  inBuf : Buf
  outBuf : Buf
  replyBodySizeLeft : ℤ
  workBuf : Option Buf
  dataRecved : ℤ
  contentLen : ℤ
  serverClosed : Bool
  deriving DecidableEq

/-- The bytes of one successful `read` into an empty `out_buf`. -/
structure Chunk where
  bytes : List UInt8
  nonempty : bytes ≠ []
  fits : bytes.length ≤ midHttpBufSize

/-- What a call of `read` can come to. -/
inductive ReadResult
  | data (c : Chunk)
  | eintr
  | eagain
  | eof
  | error

/-- What a call of `write` can come to. -/
inductive WriteResult
  | accept (k : ℕ)
  | zero
  | eintr
  | eagain
  | error

/-- `stream_create` -/
def streamCreate (sock : ℤ) (P : Pool) : Except Fault (TcpStream × Pool) := do
  let (s, P) ← memAlloc (some "stream") sizeofTcpStream P
  let (inBuf, P) ← memAlloc (some "http_stream_in_buf") sizeofBuf P
  let (inData, P) ← memAlloc (some "http_stream_in_buf_data") cfgHttpBufSize P
  let P ← P.store inData 0 [0]
  let (outBuf, P) ← memAlloc (some "http_stream_out_buf") sizeofBuf P
  let (outData, P) ← memAlloc (some "http_stream_out_buf_data_4") midHttpBufSize P
  return ({
    self := s
    dataIn := 0
    serverSock := sock
    inBuf := ⟨inBuf, inData, cfgHttpBufSize, 0⟩
    outBuf := ⟨outBuf, outData, midHttpBufSize, 0⟩
    replyBodySizeLeft := 0
    workBuf := none
    dataRecved := 0
    contentLen := 0
    serverClosed := false }, P)

/-- What `stream_flush_out` leaves behind: its result, and for each call of `write` the bytes it
was handed and how many of them it took. -/
structure Flush where
  ret : ℤ
  stream : TcpStream
  pool : Pool
  calls : List (List UInt8 × ℕ)

/-- The loop of `stream_flush_out`, `curSize` bytes to go and `t` written. -/
def flushLoop (curSize t : ℤ) (s : TcpStream) (P : Pool) (calls : List (List UInt8 × ℕ)) :
    List WriteResult → Except Fault Flush
  | [] => return ⟨t, s, P, calls⟩
  | w :: ws =>
    if 0 < curSize then do
      let d ← P.load s.inBuf.buffer 0 curSize.toNat
      match w with
      | .eintr => flushLoop curSize t s P (calls ++ [(d, 0)]) ws
      | .eagain => return ⟨t, s, P, calls ++ [(d, 0)]⟩
      | .error => return ⟨-1, s, P, calls ++ [(d, 0)]⟩
      | .zero => return ⟨t, s, P, calls ++ [(d, 0)]⟩
      | .accept k => do
        let r := min (k + 1) d.length
        let (b, P) ← bufPick r s.inBuf P
        flushLoop (curSize - r) (t + r) { s with inBuf := b } P (calls ++ [(d, r)]) ws
    else
      return ⟨t, s, P, calls⟩

/-- An `int` read as a `size_t`. -/
def toSize (n : ℤ) : ℕ := (n % (sizeMod : ℤ)).toNat

/-- A wider integer stored into an `int`. -/
def toInt (n : ℤ) : ℤ := Int.bmod n (2 ^ 32)

/-- `stream_flush_out` -/
def streamFlushOut (s : TcpStream) (size : ℤ) (writes : List WriteResult) (P : Pool) :
    Except Fault Flush :=
  if s.serverSock < 0 then
    return ⟨-1, s, P, []⟩
  else
    let curSize :=
      if bufDataSize s.inBuf < toSize size ∨ size ≤ 0 then toInt (bufDataSize s.inBuf) else size
    flushLoop curSize 0 s P [] writes

/-- The loop of `stream_feed_out`, `t` bytes read. -/
def feedLoop (t : ℤ) (s : TcpStream) (P : Pool) :
    List ReadResult → Except Fault (ℤ × TcpStream × Pool)
  | [] => if 0 < bufFreeSpace s.outBuf then return (t, s, P)
    else return (t, { s with dataIn := s.dataIn + t }, P)
  | r :: rs =>
    if 0 < bufFreeSpace s.outBuf then
      match r with
      | .eintr => feedLoop t s P rs
      | .eagain => return (t, s, P)
      | .error => return (-1, s, P)
      | .eof => return (-1, { s with serverClosed := true }, P)
      | .data c => do
        let d := c.bytes.take (bufFreeSpace s.outBuf)
        let P ← P.store s.outBuf.buffer s.outBuf.dataLen d
        return (t + d.length,
          { s with outBuf := { s.outBuf with dataLen := sizeAdd s.outBuf.dataLen d.length } }, P)
    else
      return (t, { s with dataIn := s.dataIn + t }, P)

/-- `stream_feed_out` -/
def streamFeedOut (s : TcpStream) (reads : List ReadResult) (P : Pool) :
    Except Fault (ℤ × TcpStream × Pool) :=
  if s.serverSock < 0 then
    return (-1, s, P)
  else
    feedLoop 0 s P reads

/-- `new_transaction_stream` -/
def newTransactionStream (sock : ℤ) (prefixLen data : List UInt8) (P : Pool) :
    Except Fault (TcpStream × Pool) := do
  let (s, P) ← streamCreate sock P
  let s := { s with serverClosed := false }
  let (_, b, P) ← bufPut prefixLen s.inBuf P
  let s := { s with inBuf := b }
  let (_, b, P) ← bufPut data s.inBuf P
  return ({ s with inBuf := b }, P)

/-- The calls of `mem_free` that end a stream, the same in `free_transaction_stream` and in
`close_stream`. -/
def memFreeStream (s : TcpStream) (P : Pool) : Except Fault Pool := do
  let P ← memFree s.inBuf.buffer P
  let P ← memFree s.inBuf.self P
  let P ← memFree s.outBuf.buffer P
  let P ← memFree s.outBuf.self P
  let P ← (match s.workBuf with
    | some w => memFree w.buffer P >>= memFree w.self
    | none => pure P)
  memFree s.self P

/-- `free_transaction_stream` of a stream that is not `NULL` -/
def freeTransactionStream (s : TcpStream) (P : Pool) : Except Fault Pool :=
  memFreeStream { s with serverSock := -1 } P

/-! ### Blocks in one hand -/

/-- The blocks are live and distinct. -/
structure Pool.Owned (P : Pool) (l : List Ptr) : Prop where
  nodup : l.Nodup
  live : ∀ p ∈ l, P.live p ≠ none

/-- The blocks a stream holds, in the order in which they are released. -/
def TcpStream.footprint (s : TcpStream) : List Ptr :=
  s.inBuf.buffer :: s.inBuf.self :: s.outBuf.buffer :: s.outBuf.self ::
    ((match s.workBuf with
      | some w => [w.buffer, w.self]
      | none => []) ++ [s.self])

variable {P P' : Pool} {p p' : Ptr} {l l' r : List Ptr} {e : MemEntry} {s : TcpStream}

/-- A block of the list was exchanged, the rest of it is as it was. -/
theorem Pool.Owned.swap (h : P.Owned (l ++ p :: r)) (hS : P.Swaps P' p p') :
    P'.Owned (l ++ p' :: r) := by
  have hne : ∀ q ∈ l ++ r, q ≠ p ∧ P.live q ≠ none := by
    intro q hq
    have hnd := h.nodup
    refine ⟨?_, h.live q ?_⟩
    · rintro rfl
      rw [List.nodup_append, List.nodup_cons] at hnd
      rcases List.mem_append.1 hq with hq | hq
      · exact hnd.2.2 q hq q (by simp) rfl
      · exact hnd.2.1.1 hq
    · simp only [List.mem_append, List.mem_cons] at hq ⊢
      tauto
  have hp' : p' ∉ l ++ r := fun hq => hS.ne (hne p' hq).1 (hne p' hq).2 rfl
  refine ⟨?_, fun q hq => ?_⟩
  · have hnd : (l ++ r).Nodup :=
      h.nodup.sublist (List.Sublist.append_left (List.sublist_cons_self p r) l)
    exact List.nodup_middle.2 (List.nodup_cons.2 ⟨hp', hnd⟩)
  · rcases List.mem_append.1 hq with hq | hq
    · have := hne q (by simp [hq])
      rw [hS.live_of_ne this.1 this.2]
      exact this.2
    · rcases List.mem_cons.1 hq with rfl | hq
      · obtain ⟨e', he', -⟩ := hS
        simp [he']
      · have := hne q (by simp [hq])
        rw [hS.live_of_ne this.1 this.2]
        exact this.2

/-- Blocks stay owned through anything that leaves them alone. -/
theorem Pool.Owned.of_live_eq (h : P.Owned l) (hl : ∀ p ∈ l, P'.live p = P.live p) : P'.Owned l :=
  ⟨h.nodup, fun p hp => by rw [hl p hp]; exact h.live p hp⟩

/-- Releasing blocks that are live and distinct. -/
theorem memFree_all (hP : P.Ok) (h : P.Owned l) :
    ∃ P', l.foldlM (fun P p => memFree p P) P = .ok P' ∧ P'.Ok ∧
      P'.live = fun q => if q ∈ l then none else P.live q := by
  induction l generalizing P with
  | nil => exact ⟨P, rfl, hP, by simp⟩
  | cons p l ih =>
    obtain ⟨hpl, hnd⟩ := List.nodup_cons.1 h.nodup
    obtain ⟨e, he⟩ := Option.ne_none_iff_exists'.1 (h.live p (by simp))
    obtain ⟨P₁, hrun₁, hP₁, hlive₁⟩ := memFree_spec hP he
    have hown : P₁.Owned l := by
      refine ⟨hnd, fun q hq => ?_⟩
      have hqp : q ≠ p := fun hqp => hpl (hqp ▸ hq)
      rw [hlive₁, Function.update_of_ne hqp]
      exact h.live q (by simp [hq])
    obtain ⟨P₂, hrun₂, hP₂, hlive₂⟩ := ih hP₁ hown
    refine ⟨P₂, by rw [List.foldlM_cons, hrun₁, ok_bind, hrun₂], hP₂, ?_⟩
    rw [hlive₂, hlive₁]
    funext q
    by_cases hq : q ∈ l
    · simp [hq]
    · by_cases hqp : q = p <;> simp [hq, hqp]

theorem memFreeStream_eq (s : TcpStream) (P : Pool) :
    memFreeStream s P = s.footprint.foldlM (fun P p => memFree p P) P := by
  unfold memFreeStream TcpStream.footprint
  cases s.workBuf with
  | none => simp [List.foldlM_cons]
  | some w => simp [List.foldlM_cons]

/-- **Ending a stream gives back exactly the blocks it holds.** -/
theorem memFreeStream_spec (hP : P.Ok) (h : P.Owned s.footprint) :
    ∃ P', memFreeStream s P = .ok P' ∧ P'.Ok ∧
      P'.live = fun q => if q ∈ s.footprint then none else P.live q := by
  rw [memFreeStream_eq]
  exact memFree_all hP h

/-- `free_transaction_stream` forgets the descriptor before it does the same. -/
theorem freeTransactionStream_eq (s : TcpStream) (P : Pool) :
    freeTransactionStream s P = memFreeStream s P := by
  rw [freeTransactionStream, memFreeStream_eq, memFreeStream_eq]
  rfl

/-! ### A new stream -/

/-- A buffer with no data over a block that is large enough stands for no bytes. -/
theorem Buf.holds_nil {b : Buf} (he : P.live b.buffer = some e) (hroom : b.bufLen ≤ e.capacity)
    (h0 : b.dataLen = 0) : b.Holds P [] :=
  ⟨e, he, by rw [h0]; rfl, by omega, hroom⟩

/-- A block has room for what was asked. -/
theorem Pool.Fresh.le_capacity {module : Option String} {size : ℕ} (h : Fresh e module size)
    (hs : size ≤ maxExtMemBlock) : size ≤ e.capacity := by
  rw [h.ok.capacity, h.cls]
  exact le_blockSize_sizeClass (sizeClass_lt hs)

/-- `P'` has the blocks of `l` more than `P`, and agrees with it everywhere else. -/
structure Pool.Extends (P P' : Pool) (l : List Ptr) : Prop where
  ok : P'.Ok
  owned : P'.Owned l
  new : ∀ p ∈ l, P.live p = none
  frame : ∀ p ∉ l, P'.live p = P.live p

theorem Pool.Extends.refl (hP : P.Ok) : P.Extends P [] :=
  ⟨hP, ⟨List.nodup_nil, by simp⟩, by simp, fun _ _ => rfl⟩

/-- Only the number of blocks taken matters, not their order. -/
theorem Pool.Extends.perm (h : P.Extends P' l) (hl : l.Perm l') : P.Extends P' l' where
  ok := h.ok
  owned := ⟨hl.nodup_iff.1 h.owned.nodup, fun p hp => h.owned.live p (hl.mem_iff.2 hp)⟩
  new p hp := h.new p (hl.mem_iff.2 hp)
  frame p hp := h.frame p fun hp' => hp (hl.mem_iff.1 hp')

/-- One more block. -/
theorem Pool.Extends.memAlloc {P₁ : Pool} (h : P.Extends P₁ l) (module : Option String) {size : ℕ}
    (hs : size ≤ maxExtMemBlock) :
    ∃ p P₂ e, Jujube.memAlloc module size P₁ = .ok (p, P₂) ∧ P.Extends P₂ (p :: l) ∧
      P₂.live p = some e ∧ Fresh e module size ∧ P₁.live p = none ∧
      ∀ q, q ≠ p → P₂.live q = P₁.live q := by
  obtain ⟨p, P₂, e, hrun, hP₂, hp, hl, hfresh⟩ := memAlloc_spec h.ok module hs
  have hne : ∀ q, q ≠ p → P₂.live q = P₁.live q := fun q hq => by
    rw [hl, Function.update_of_ne hq]
  have hpl : p ∉ l := fun hpl => h.owned.live p hpl hp
  refine ⟨p, P₂, e, hrun, ⟨hP₂, ⟨List.nodup_cons.2 ⟨hpl, h.owned.nodup⟩, ?_⟩, ?_, ?_⟩,
    by rw [hl, Function.update_self], hfresh, hp, hne⟩
  · intro q hq
    rcases List.mem_cons.1 hq with rfl | hq
    · simp [hl]
    · rw [hne q fun hqp => hpl (hqp ▸ hq)]
      exact h.owned.live q hq
  · intro q hq
    rcases List.mem_cons.1 hq with rfl | hq
    · rw [← h.frame q hpl, hp]
    · exact h.new q hq
  · intro q hq
    simp only [List.mem_cons, not_or] at hq
    rw [hne q hq.1, h.frame q hq.2]

/-- One of the new blocks was stored into, or exchanged. -/
theorem Pool.Extends.swap {P₁ P₂ : Pool} (h : P.Extends P₁ (l ++ p :: r)) (hP₂ : P₂.Ok)
    (hS : P₁.Swaps P₂ p p') : P.Extends P₂ (l ++ p' :: r) := by
  have hp : P.live p = none := h.new p (by simp)
  have hmem : ∀ q, q ≠ p → q ∉ l ++ r → q ∉ l ++ p :: r := by
    intro q hqp hq
    simp only [List.mem_append, List.mem_cons] at hq ⊢
    tauto
  refine ⟨hP₂, h.owned.swap hS, fun q hq => ?_, fun q hq => ?_⟩
  · simp only [List.mem_append, List.mem_cons] at hq
    rcases hq with hq | rfl | hq
    · exact h.new q (by simp [hq])
    · obtain ⟨e', -, rfl | hnone⟩ := hS
      · exact hp
      · by_cases hmem : q ∈ l ++ p :: r
        · exact h.new q hmem
        · rw [← h.frame q hmem, hnone]
    · exact h.new q (by simp [hq])
  · simp only [List.mem_append, List.mem_cons, not_or] at hq
    obtain ⟨e', he', -⟩ := hS
    rw [he', Function.update_of_ne hq.2.1]
    by_cases hqp : q = p
    · subst hqp
      rw [Function.update_self, hp]
    · rw [Function.update_of_ne hqp]
      exact h.frame q (hmem q hqp (by simp [hq.1, hq.2.2]))

/-- The state right after `stream_create`: five new blocks, and no other live block touched. -/
structure Created (sock : ℤ) (P : Pool) (s : TcpStream) (P' : Pool) : Prop where
  extends_ : P.Extends P' s.footprint
  inBuf : s.inBuf.Holds P' []
  outBuf : s.outBuf.Holds P' []
  inLen : s.inBuf.bufLen = cfgHttpBufSize
  outLen : s.outBuf.bufLen = midHttpBufSize
  sock : s.serverSock = sock
  workBuf : s.workBuf = none
  left : s.replyBodySizeLeft = 0
  recved : s.dataRecved = 0
  content : s.contentLen = 0
  dataIn : s.dataIn = 0

/-- `stream_create` succeeds. -/
theorem streamCreate_spec (hP : P.Ok) (sock : ℤ) :
    ∃ s P', streamCreate sock P = .ok (s, P') ∧ Created sock P s P' := by
  have hcfg : cfgHttpBufSize ≤ maxExtMemBlock := by decide
  have hmid : midHttpBufSize ≤ maxExtMemBlock := by decide
  obtain ⟨p₁, P₁, e₁, h₁, hE₁, -, -, -, -⟩ :=
    (Extends.refl hP).memAlloc (some "stream") (show sizeofTcpStream ≤ maxExtMemBlock by decide)
  obtain ⟨p₂, P₂, e₂, h₂, hE₂, -, -, -, -⟩ :=
    hE₁.memAlloc (some "http_stream_in_buf") (show sizeofBuf ≤ maxExtMemBlock by decide)
  obtain ⟨p₃, P₃, e₃, h₃, hE₃, he₃, hf₃, -, -⟩ :=
    hE₂.memAlloc (some "http_stream_in_buf_data") hcfg
  obtain ⟨P₄, h₄, hP₄, hl₄⟩ := store_nul_spec hE₃.ok he₃
  have hE₄ : P.Extends P₄ [p₃, p₂, p₁] := hE₃.swap (l := []) hP₄ (swaps_self hl₄)
  obtain ⟨p₅, P₅, e₅, h₅, hE₅, -, -, hn₅, hne₅⟩ :=
    hE₄.memAlloc (some "http_stream_out_buf") (show sizeofBuf ≤ maxExtMemBlock by decide)
  obtain ⟨p₆, P₆, e₆, h₆, hE₆, he₆, hf₆, hn₆, hne₆⟩ :=
    hE₅.memAlloc (some "http_stream_out_buf_data_4") hmid
  have H₄ : Buf.Holds ⟨p₂, p₃, cfgHttpBufSize, 0⟩ P₄ [] :=
    Buf.holds_nil (e := { e₃ with obj := write e₃.obj 0 [0] })
      (by rw [hl₄, Function.update_self]) (hf₃.le_capacity hcfg) rfl
  have H₅ := H₄.of_live_eq (hne₅ p₃ fun h => H₄.live_ne_none (h ▸ hn₅))
  have H₆ := H₅.of_live_eq (hne₆ p₃ fun h => H₅.live_ne_none (h ▸ hn₆))
  have hperm : [p₆, p₅, p₃, p₂, p₁].Perm [p₃, p₂, p₆, p₅, p₁] :=
    (@List.perm_append_comm _ [p₆, p₅] [p₃, p₂]).append_right [p₁]
  refine ⟨⟨p₁, 0, sock, ⟨p₂, p₃, cfgHttpBufSize, 0⟩, ⟨p₅, p₆, midHttpBufSize, 0⟩, 0, none, 0, 0,
    false⟩, P₆, ?_, ⟨hE₆.perm hperm, H₆, Buf.holds_nil he₆ (hf₆.le_capacity hmid) rfl,
      rfl, rfl, rfl, rfl, rfl, rfl, rfl, rfl⟩⟩
  simp only [streamCreate, h₁, h₂, h₃, h₄, h₅, h₆, ok_bind, pure_eq_ok]

/-! ### What a stream carries -/

/-- `toSend` is in `in_buf`, `held` in `out_buf`, and `got` in `work_buf` if there is one. -/
structure TcpStream.Carries (P : Pool) (s : TcpStream) (toSend held got : List UInt8) : Prop where
  inBuf : s.inBuf.Holds P toSend
  outBuf : s.outBuf.Holds P held
  outLen : s.outBuf.bufLen = midHttpBufSize
  work : ∀ w, s.workBuf = some w → w.Holds P got

section Carries

variable {toSend toSend' held held' got got' : List UInt8} {b w w' : Buf}

/-- A stream carries the same bytes through anything that leaves its blocks alone. -/
theorem TcpStream.Carries.of_live_eq (h : s.Carries P toSend held got)
    (hl : ∀ p ∈ s.footprint, P'.live p = P.live p) : s.Carries P' toSend held got := by
  refine ⟨h.inBuf.of_live_eq (hl _ ?_), h.outBuf.of_live_eq (hl _ ?_), h.outLen, fun w hw => ?_⟩
  · simp [TcpStream.footprint]
  · simp [TcpStream.footprint]
  · exact (h.work w hw).of_live_eq (hl _ (by simp [TcpStream.footprint, hw]))

/-- `in_buf` is stored into, or moved. -/
theorem TcpStream.Carries.set_inBuf (h : s.Carries P toSend held got) (hnd : s.footprint.Nodup)
    (hS : P.Swaps P' s.inBuf.buffer b.buffer) (H : b.Holds P' toSend') :
    TcpStream.Carries P' { s with inBuf := b } toSend' held got := by
  refine ⟨H, ?_, h.outLen, fun w hw => ?_⟩
  · refine h.outBuf.of_live_eq (hS.live_of_ne ?_ h.outBuf.live_ne_none)
    intro heq
    simp [TcpStream.footprint, heq] at hnd
  · refine (h.work w hw).of_live_eq (hS.live_of_ne ?_ (h.work w hw).live_ne_none)
    intro heq
    have hw' : s.workBuf = some w := hw
    simp [TcpStream.footprint, hw', heq] at hnd

/-- `out_buf` is stored into, or moved. -/
theorem TcpStream.Carries.set_outBuf (h : s.Carries P toSend held got) (hnd : s.footprint.Nodup)
    (hS : P.Swaps P' s.outBuf.buffer b.buffer) (H : b.Holds P' held')
    (hlen : b.bufLen = midHttpBufSize) :
    TcpStream.Carries P' { s with outBuf := b } toSend held' got := by
  refine ⟨?_, H, hlen, fun w hw => ?_⟩
  · refine h.inBuf.of_live_eq (hS.live_of_ne ?_ h.inBuf.live_ne_none)
    intro heq
    simp [TcpStream.footprint, heq] at hnd
  · refine (h.work w hw).of_live_eq (hS.live_of_ne ?_ (h.work w hw).live_ne_none)
    intro heq
    have hw' : s.workBuf = some w := hw
    simp [TcpStream.footprint, hw', heq] at hnd

/-- `work_buf` is stored into, or moved. -/
theorem TcpStream.Carries.set_workBuf (h : s.Carries P toSend held got) (hnd : s.footprint.Nodup)
    (hw : s.workBuf = some w) (hS : P.Swaps P' w.buffer w'.buffer) (H : w'.Holds P' got') :
    TcpStream.Carries P' { s with workBuf := some w' } toSend held got' := by
  refine ⟨?_, ?_, h.outLen, fun v hv => ?_⟩
  · refine h.inBuf.of_live_eq (hS.live_of_ne ?_ h.inBuf.live_ne_none)
    intro heq
    simp [TcpStream.footprint, hw, heq] at hnd
  · refine h.outBuf.of_live_eq (hS.live_of_ne ?_ h.outBuf.live_ne_none)
    intro heq
    simp [TcpStream.footprint, hw, heq] at hnd
  · cases hv
    exact H

end Carries

/-- A new stream carries nothing. -/
theorem Created.carries {sock : ℤ} (h : Created sock P s P') : s.Carries P' [] [] [] :=
  ⟨h.inBuf, h.outBuf, h.outLen, fun w hw => by simp [h.workBuf] at hw⟩

/-- A stream is named by the first block that it gets. -/
theorem newTransactionStream_self {sock : ℤ} {prefixLen data : List UInt8} {s : TcpStream}
    {P' : Pool} (h : newTransactionStream sock prefixLen data P = .ok (s, P')) :
    ∃ P₁, memAlloc (some "stream") sizeofTcpStream P = .ok (s.self, P₁) := by
  unfold newTransactionStream streamCreate at h
  obtain ⟨⟨s₀, P₀⟩, hcreate, h⟩ := bind_eq_ok.1 h
  obtain ⟨⟨p, P₁⟩, halloc, hcreate⟩ := bind_eq_ok.1 hcreate
  have hself : s₀.self = p := by
    obtain ⟨_, -, hcreate⟩ := bind_eq_ok.1 hcreate
    obtain ⟨_, -, hcreate⟩ := bind_eq_ok.1 hcreate
    obtain ⟨_, -, hcreate⟩ := bind_eq_ok.1 hcreate
    obtain ⟨_, -, hcreate⟩ := bind_eq_ok.1 hcreate
    obtain ⟨_, -, hcreate⟩ := bind_eq_ok.1 hcreate
    cases hcreate
    rfl
  obtain ⟨_, -, h⟩ := bind_eq_ok.1 h
  obtain ⟨_, -, h⟩ := bind_eq_ok.1 h
  cases h
  exact ⟨P₁, hself ▸ halloc⟩

/-- **A new transaction** has its length and its message to send. -/
theorem newTransactionStream_spec (hP : P.Ok) (sock : ℤ) (prefixLen data : List UInt8)
    (hpre : prefixLen.length ≤ cfgHttpBufSize)
    (hdata : cfgHttpBufSize + data.length ≤ maxExtMemBlock) :
    ∃ s P', newTransactionStream sock prefixLen data P = .ok (s, P') ∧
      P.Extends P' s.footprint ∧ s.Carries P' (prefixLen ++ data) [] [] ∧ s.serverSock = sock ∧
      s.workBuf = none := by
  obtain ⟨s, P₁, hcreate, hs⟩ := streamCreate_spec hP sock
  have hnd := hs.extends_.owned.nodup
  have hempty : s.inBuf.dataLen = 0 := by simpa using hs.inBuf.length.symm
  have hfits₁ : PutFits prefixLen s.inBuf := by
    intro hlt
    rw [(hs.inBuf.freeSpace hs.extends_.ok).1, hempty, hs.inLen] at hlt
    omega
  obtain ⟨b₁, P₂, hput₁, hP₂, H₁, hS₁, hself₁, hlen₁⟩ := bufPut_spec hs.extends_.ok hs.inBuf hfits₁
  have hlen₁' : b₁.bufLen = cfgHttpBufSize := by
    rw [hlen₁, hempty, hs.inLen, if_neg (by omega)]
  have hfits₂ : PutFits data b₁ := fun _ => by rw [hlen₁']; exact hdata
  obtain ⟨b₂, P₃, hput₂, hP₃, H₂, hS₂, hself₂, -⟩ := bufPut_spec hP₂ H₁ hfits₂
  have hS : P₁.Swaps P₃ s.inBuf.buffer b₂.buffer := hS₁.trans hS₂
  refine ⟨{ s with serverClosed := false, inBuf := b₂ }, P₃, ?_, ?_, ?_, hs.sock, hs.workBuf⟩
  · simp only [newTransactionStream, hcreate, hput₁, hput₂, ok_bind, pure_eq_ok]
  · have hext := Extends.swap (l := []) hs.extends_ hP₃ hS
    rw [← hself₁, ← hself₂] at hext
    exact hext
  · have hc := hs.carries.set_inBuf hnd hS H₂
    exact ⟨hc.inBuf, hc.outBuf, hc.outLen, hc.work⟩

/-! ### Reading -/

/-- What the first `read` that is not interrupted comes to. -/
def firstRead : List ReadResult → ReadResult
  | [] => .eagain
  | .eintr :: rs => firstRead rs
  | r :: _ => r

/-- What `stream_feed_out` does with that. -/
def feedOnce (t : ℤ) (s : TcpStream) (P : Pool) :
    ReadResult → Except Fault (ℤ × TcpStream × Pool)
  | .error => .ok (-1, s, P)
  | .eof => .ok (-1, { s with serverClosed := true }, P)
  | .data c => do
    let d := c.bytes.take (bufFreeSpace s.outBuf)
    let P ← P.store s.outBuf.buffer s.outBuf.dataLen d
    return (t + d.length,
      { s with outBuf := { s.outBuf with dataLen := sizeAdd s.outBuf.dataLen d.length } }, P)
  | _ => .ok (t, s, P)

/-- With room in `out_buf` the loop reads until it is not interrupted, and once. -/
theorem streamFeedOut_eq (hsock : 0 ≤ s.serverSock) (hfree : 0 < bufFreeSpace s.outBuf)
    (reads : List ReadResult) : streamFeedOut s reads P = feedOnce 0 s P (firstRead reads) := by
  have hloop : ∀ t, feedLoop t s P reads = feedOnce t s P (firstRead reads) := by
    intro t
    induction reads with
    | nil => simp [feedLoop, firstRead, feedOnce, hfree]
    | cons r rs ih =>
      cases r <;> simp [feedLoop, firstRead, feedOnce, hfree, ih]
  rw [streamFeedOut, if_neg (by omega), hloop]

/-- A successful read puts its bytes behind those in `out_buf`. -/
theorem feedOnce_data (hP : P.Ok) {q : List UInt8} (H : s.outBuf.Holds P q) (t : ℤ) (c : Chunk)
    (hc : s.outBuf.dataLen + c.bytes.length ≤ s.outBuf.bufLen) :
    ∃ P', feedOnce t s P (.data c) = .ok (t + c.bytes.length,
        { s with outBuf := { s.outBuf with dataLen := s.outBuf.dataLen + c.bytes.length } }, P') ∧
      P'.Ok ∧ P.Swaps P' s.outBuf.buffer s.outBuf.buffer ∧
      Buf.Holds { s.outBuf with dataLen := s.outBuf.dataLen + c.bytes.length } P'
        (q ++ c.bytes) := by
  have htake : c.bytes.take (bufFreeSpace s.outBuf) = c.bytes := by
    rw [(H.freeSpace hP).1]
    exact List.take_of_length_le (by omega)
  obtain ⟨P', hrun, hP', H', hS, hsum⟩ := store_end_spec hP H hc
  rw [hsum] at H'
  exact ⟨P', by simp only [feedOnce, htake, hrun, ok_bind, pure_eq_ok, hsum], hP', hS, H'⟩

/-- A call of `stream_feed_out` reads something: the stream is open, there is room in `out_buf`, and
the first `read` that is not interrupted has bytes for it. -/
def TcpStream.Reads (s : TcpStream) (reads : List ReadResult) : Prop :=
  0 ≤ s.serverSock ∧ 0 < bufFreeSpace s.outBuf ∧ ∃ c, firstRead reads = .data c

/-- A call that reads nothing: the stream is as it was, but for the flag that the peer has closed.
What the end of the loop adds to `data_in` is 0. -/
theorem streamFeedOut_idle {reads : List ReadResult} (hidle : ¬ s.Reads reads) :
    ∃ r z, streamFeedOut s reads P = .ok (r, { s with serverClosed := z }, P) := by
  by_cases hsock : s.serverSock < 0
  · exact ⟨-1, s.serverClosed, if_pos hsock⟩
  by_cases hfree : 0 < bufFreeSpace s.outBuf
  · rw [streamFeedOut_eq (not_lt.1 hsock) hfree]
    cases hread : firstRead reads with
    | data c => exact absurd ⟨not_lt.1 hsock, hfree, c, hread⟩ hidle
    | eof => exact ⟨-1, true, rfl⟩
    | _ => exact ⟨_, s.serverClosed, rfl⟩
  · have hloop : feedLoop 0 s P reads = .ok (0, { s with dataIn := s.dataIn + 0 }, P) := by
      cases reads <;> simp [feedLoop, hfree]
    refine ⟨0, s.serverClosed, ?_⟩
    rw [streamFeedOut, if_neg hsock, hloop, add_zero]

/-- A call that reads something puts it behind what is in `out_buf`, as much as fits. -/
theorem streamFeedOut_reads {reads : List ReadResult} (hP : P.Ok) {q : List UInt8}
    (H : s.outBuf.Holds P q) (hreads : s.Reads reads) :
    ∃ r n P' d, streamFeedOut s reads P =
        .ok (r, { s with outBuf := { s.outBuf with dataLen := n } }, P') ∧
      P'.Ok ∧ P.Swaps P' s.outBuf.buffer s.outBuf.buffer ∧ s.outBuf.dataLen < n ∧
      Buf.Holds { s.outBuf with dataLen := n } P' d := by
  obtain ⟨hsock, hfree, c, hread⟩ := hreads
  have hspace := (H.freeSpace hP).1
  have hpos : 0 < (c.bytes.take (bufFreeSpace s.outBuf)).length := by
    have hne : 0 < c.bytes.length := List.length_pos_iff.2 c.nonempty
    rw [List.length_take]
    omega
  have hfit : s.outBuf.dataLen + (c.bytes.take (bufFreeSpace s.outBuf)).length ≤
      s.outBuf.bufLen := by
    rw [List.length_take, hspace]
    have := H.choose_spec.2.fits
    omega
  obtain ⟨P', hrun, hP', H', hS, hsum⟩ := store_end_spec hP H hfit
  refine ⟨0 + (c.bytes.take (bufFreeSpace s.outBuf)).length, _, P', _, ?_, hP', hS, ?_, H'⟩
  · rw [streamFeedOut_eq hsock hfree, hread]
    simp only [feedOnce, hrun, ok_bind, pure_eq_ok]
  · omega

/-- What `stream_feed_out` does to a stream, whatever the calls of `read` come to: bytes are put
behind those in `out_buf`, as many as fit. -/
structure TcpStream.Fed (s : TcpStream) (P : Pool) (s' : TcpStream) (P' : Pool) : Prop where
  ok : P'.Ok
  swaps : P.Swaps P' s.outBuf.buffer s.outBuf.buffer
  stream : ∃ n i z, s' = { s with
    outBuf := { s.outBuf with dataLen := n }, dataIn := i, serverClosed := z }
  holds : ∃ d, s'.outBuf.Holds P' d

theorem TcpStream.Fed.footprint {s' : TcpStream} (h : s.Fed P s' P') :
    s'.footprint = s.footprint := by
  obtain ⟨n, i, z, hs'⟩ := h.stream
  rw [hs']
  rfl

/-- `stream_feed_out` -/
theorem streamFeedOut_fed (hP : P.Ok) {d : List UInt8} (H : s.outBuf.Holds P d)
    (reads : List ReadResult) :
    ∃ r s' P', streamFeedOut s reads P = .ok (r, s', P') ∧ s.Fed P s' P' := by
  by_cases hreads : s.Reads reads
  · obtain ⟨r, n, P', d', hrun, hP', hS, -, H'⟩ := streamFeedOut_reads hP H hreads
    exact ⟨r, _, P', hrun, hP', hS, ⟨n, s.dataIn, s.serverClosed, rfl⟩, d', H'⟩
  · obtain ⟨r, z, hrun⟩ := streamFeedOut_idle hreads
    exact ⟨r, _, P, hrun, hP, Swaps.refl H.live_ne_none, ⟨s.outBuf.dataLen, s.dataIn, z, rfl⟩, d, H⟩

end Jujube
