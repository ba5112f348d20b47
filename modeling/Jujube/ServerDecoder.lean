import Jujube.Server
import Jujube.Decoder
import Jujube.StreamFlush

/-!
# The server is the decoder

`Server.Sim P₀ c s`: the server state `c` stands for the decoder state `s`, and its stream is all
that it holds beyond the pool `P₀` of before the connection.  `Server.step_spec` is the simulation
of one call of `data_transfer`, `Server.run_spec` that of a run: the only fault is the `assert` that
`out_buf` is empty at a read event, and what `do_work` is handed is what the decoder delivers.  The
state also says how often `work_buf` was made and moved (`Decoder.tally`).
-/

namespace Jujube

open Bytes Pool Transition

@[simp] theorem Server.call_ok {α : Type*} (c : Server) (a : α) : c.call (.ok a) = .ok a := rfl

@[simp] theorem Server.call_error {α : Type*} (c : Server) (f : Fault) :
    c.call (.error f : Except Fault α) = .error ⟨f, c.works⟩ := rfl

/-! ### The buffers of an open connection -/

/-- The stream is what the pool `P` holds beyond `P₀`; there is nothing to send, `held` is in
`out_buf` and `got` in `work_buf`, if there is one. -/
structure TcpStream.Stands (P₀ P : Pool) (s : TcpStream) (held got : List UInt8) : Prop where
  ext : P₀.Extends P s.footprint
  carries : s.Carries P [] held got

variable {P₀ P P' : Pool} {s : TcpStream} {held held' got got' : List UInt8} {b w w' : Buf}

/-- `out_buf` is stored into, or moved. -/
theorem TcpStream.Stands.set_outBuf (h : s.Stands P₀ P held got) (hP' : P'.Ok)
    (hS : P.Swaps P' s.outBuf.buffer b.buffer) (H : b.Holds P' held')
    (hself : b.self = s.outBuf.self) (hlen : b.bufLen = midHttpBufSize) :
    TcpStream.Stands P₀ P' { s with outBuf := b } held' got := by
  have hext := Extends.swap (l := [s.inBuf.buffer, s.inBuf.self]) h.ext hP' hS
  rw [← hself] at hext
  exact ⟨hext, h.carries.set_outBuf h.ext.owned.nodup hS H hlen⟩

/-- `work_buf` is stored into, or moved. -/
theorem TcpStream.Stands.set_workBuf (h : s.Stands P₀ P held got) (hw : s.workBuf = some w)
    (hP' : P'.Ok) (hS : P.Swaps P' w.buffer w'.buffer) (H : w'.Holds P' got')
    (hself : w'.self = w.self) :
    TcpStream.Stands P₀ P' { s with workBuf := some w' } held got' := by
  have hfoot : s.footprint = [s.inBuf.buffer, s.inBuf.self, s.outBuf.buffer, s.outBuf.self] ++
      w.buffer :: [w.self, s.self] := by
    simp [TcpStream.footprint, hw]
  have hext := (hfoot ▸ h.ext).swap hP' hS
  rw [← hself] at hext
  refine ⟨?_, h.carries.set_workBuf h.ext.owned.nodup hw hS H⟩
  simpa [TcpStream.footprint] using hext

/-! ### The states of a connection -/

/-- The connection is open: its slot is registered, and `s` is its stream. -/
structure Server.Open (P₀ : Pool) (c : Server) (s : TcpStream) (held got : List UInt8) : Prop where
  stream : c.stream = some s
  stands : s.Stands P₀ c.pool held got
  reg : c.ev.Registered c.slot c.kernel
  sock : c.ev.fd = s.serverSock
  fd : 0 ≤ c.ev.fd

/-- The connection is closed, and has left nothing behind. -/
structure Server.Closed (P₀ : Pool) (c : Server) : Prop where
  stream : c.stream = none
  ok : c.pool.Ok
  live : c.pool.live = P₀.live
  status : c.ev.status = 0
  opened : c.ev.fd ∉ c.kernel.opened
  interest : c.kernel.interest c.ev.fd = none

/-- No length was read yet. -/
structure TcpStream.Waiting (s : TcpStream) : Prop where
  workBuf : s.workBuf = none
  left : s.replyBodySizeLeft = 0
  recved : s.dataRecved = 0
  content : s.contentLen = 0

/-- `n` bytes of a body of `len` bytes were collected. -/
structure TcpStream.Counts (s : TcpStream) (w : Buf) (len n : ℕ) : Prop where
  valid : ValidLen len
  workBuf : s.workBuf = some w
  content : s.contentLen = len
  recved : s.dataRecved = n
  left : s.replyBodySizeLeft = len - n
  room : n ≤ len → w.bufLen = logMaxLen
  bound : w.bufLen ≤ logMaxLen + midHttpBufSize

/-- `do_work` was called for what was delivered, and for nothing else. -/
def Delivered : Option (List UInt8) → List Work → Prop
  | none, ws => ws = []
  | some m, ws => ∃ w, ws = [w] ∧ w.len = m.length ∧ w.buffer.take m.length = m

/-- The counters of the stream are those of the decoder, and `got` is what it has. -/
def TcpStream.Fits (s : TcpStream) (got : List UInt8) : Decoder → Prop
  | .header _ => got = [] ∧ s.Waiting
  | .body len got' _ => got = got' ∧ got.length ≠ len ∧ ∃ w, s.Counts w len got.length
  | .closed _ => False

/-- The calls of `alloc_work_buff`, and those of `buf_realloc` on `work_buf`. -/
def Server.tally (c : Server) : ℕ × ℕ := (c.workBuffs, c.workReallocs)

/-- The calls that an open connection has behind it: `work_buf` was moved when the body is larger
than any that is announced. -/
def Decoder.tally : Decoder → ℕ × ℕ
  | .header _ => (0, 0)
  | .body _ got _ => (1, if logMaxLen < got.length then 1 else 0)
  | .closed _ => (1, 1)

theorem Decoder.tally_le (t : Decoder) : t.tally ≤ (1, 1) := by
  cases t with
  | header held => exact ⟨Nat.zero_le _, Nat.zero_le _⟩
  | body len got held =>
    refine ⟨le_rfl, ?_⟩
    rw [tally]
    split_ifs
    · exact le_rfl
    · exact Nat.zero_le _
  | closed r => exact le_rfl

theorem Decoder.tally_body {len : ℕ} {got : List UInt8} (h : got.length ≤ logMaxLen)
    (held : List UInt8) : (body len got held).tally = (1, 0) := by
  rw [tally, if_neg (not_lt.2 h)]

/-- `do_work` was not called yet, and the other calls were as many as `n` says. -/
structure Server.Quiet (c : Server) (n : ℕ × ℕ) : Prop where
  works : c.works = []
  tally : c.tally = n

/-- The server state stands for the decoder state. -/
inductive Server.Sim (P₀ : Pool) (c : Server) : Decoder → Prop
  | served {t : Decoder} {s : TcpStream} {got : List UInt8} (quiet : c.Quiet t.tally)
    (isOpen : c.Open P₀ s t.held got) (fits : s.Fits got t) : Sim P₀ c t
  | closed {r : Option (List UInt8)} (isClosed : c.Closed P₀) (delivered : Delivered r c.works)
    (once : c.tally ≤ (1, 1)) : Sim P₀ c (.closed r)

variable {c : Server} {t : Decoder} {len : ℕ} {d : List UInt8}

/-! ### The stages of `data_transfer` -/

/-- The eight bytes of the length can be read when they are there. -/
theorem Server.Open.peek (h : c.Open P₀ s d got) (h8 : 8 ≤ d.length) :
    c.pool.load s.outBuf.buffer 0 8 = .ok (d.take 8) ∧ ¬ bufDataSize s.outBuf < 8 := by
  have hlen := h.stands.carries.outBuf.length
  refine ⟨h.stands.carries.outBuf.load_take (by omega), ?_⟩
  rw [bufDataSize]
  omega

/-- `close_stream` leaves nothing behind. -/
theorem Server.closeStream_spec (h : c.Open P₀ s held got) :
    ∃ c', c.closeStream = .ok c' ∧ c'.Closed P₀ ∧ c'.works = c.works ∧
      c'.tally = c.tally := by
  obtain ⟨P', hrun, hP', hlive⟩ :=
    Jujube.closeStream_spec h.reg (h.sock ▸ h.fd) h.stands.ext.ok h.stands.ext.owned
  refine ⟨{ c with
    ev := { c.ev with status := 0 }
    kernel := c.kernel.close c.ev.fd
    pool := P'
    stream := none }, ?_, ⟨rfl, hP', ?_, rfl, by simp, by simp⟩, rfl, rfl⟩
  · simp only [Server.closeStream, h.stream, fetch_some, call_ok, ok_bind, hrun, pure_eq_ok]
  · show P'.live = P₀.live
    rw [hlive]
    funext q
    split_ifs with hq
    · exact (h.stands.ext.new q hq).symm
    · exact h.stands.ext.frame q hq

/-- `clear_space(s->out_buf)` -/
theorem Server.clearOutBuf_spec (hs : c.stream = some s) (h : s.Stands P₀ c.pool held got) :
    ∃ P', c.clearOutBuf = .ok { c with
        pool := P', stream := some { s with outBuf := { s.outBuf with dataLen := 0 } } } ∧
      TcpStream.Stands P₀ P' { s with outBuf := { s.outBuf with dataLen := 0 } } [] got := by
  obtain ⟨P', hrun, hP', H, hS⟩ := clearSpace_spec h.ext.ok h.carries.outBuf
  refine ⟨P', ?_, h.set_outBuf hP' hS H rfl h.carries.outLen⟩
  simp only [Server.clearOutBuf, hs, fetch_some, call_ok, ok_bind, hrun, pure_eq_ok]

/-- What does not fit `work_buf` makes the body larger than any that is announced. -/
theorem TcpStream.Counts.freeSpace_lt_iff (h : s.Counts w len got.length) (hlt : got.length < len)
    (hP : P.Ok) (hw : w.Holds P got) (n : ℕ) :
    bufFreeSpace w < n ↔ logMaxLen < got.length + n := by
  have hvalid := h.valid.2
  have hmax : maxBody = logMaxLen := rfl
  have hdata := hw.length
  rw [(hw.freeSpace hP).1, h.room hlt.le]
  omega

/-- Where `work_buf` has to grow for what is in `out_buf`, the pool has a class for it. -/
theorem TcpStream.Counts.putFits (h : s.Counts w len got.length) (hlt : got.length < len)
    (hd : d.length ≤ midHttpBufSize) : PutFits d w := by
  intro _
  have hmax : logMaxLen + midHttpBufSize ≤ maxExtMemBlock := by decide
  have hroom := h.room hlt.le
  omega

/-- What the counters are when `n` bytes more were collected. -/
theorem TcpStream.Counts.collect {k n : ℕ} (h : s.Counts w len k) (hlt : k < len)
    (hdata : w.dataLen = k) (hn : n ≤ midHttpBufSize)
    (hlen : w'.bufLen = if w.bufLen - w.dataLen < n then w.bufLen + n else w.bufLen) (b : Buf) :
    TcpStream.Counts { s with
      outBuf := b
      dataRecved := s.dataRecved + n
      replyBodySizeLeft := s.replyBodySizeLeft - n
      workBuf := some w' } w' len (k + n) := by
  have hvalid := h.valid.2
  have hmax : maxBody = logMaxLen := rfl
  have hroom := h.room hlt.le
  refine ⟨h.valid, rfl, h.content, ?_, ?_, fun hle => ?_, ?_⟩
  · show s.dataRecved + n = _
    rw [h.recved, Nat.cast_add]
  · show s.replyBodySizeLeft - n = _
    rw [h.left, Nat.cast_add]
    omega
  · rw [hlen, if_neg (by omega)]
    exact hroom
  · rw [hlen, hroom]
    split_ifs <;> omega

/-- **`collect_data` moves what is in `out_buf` to `work_buf` and counts it**; the branch for a
body that is not as long as announced is not taken. -/
theorem collectData_spec (h : c.Open P₀ s d got) (hc : s.Counts w len got.length)
    (hlt : got.length < len) :
    ∃ c' s' w', (∀ mismatch, collectData mismatch c =
        .ok (if (got ++ d).length = len then 1 else 0, c')) ∧
      c'.Open P₀ s' [] (got ++ d) ∧ s'.Counts w' len (got ++ d).length ∧ c'.works = c.works ∧
      c'.tally = (c.workBuffs,
        if logMaxLen < (got ++ d).length then c.workReallocs + 1 else c.workReallocs) := by
  have hout := h.stands.carries.outBuf
  have hlen : d.length = s.outBuf.dataLen := hout.length
  have hd : d.length ≤ midHttpBufSize := by
    rw [hlen, ← h.stands.carries.outLen]
    exact (hout.freeSpace h.stands.ext.ok).2
  have hw := h.stands.carries.work w hc.workBuf
  obtain ⟨w₁, P₁, hput, hP₁, H₁, hS₁, hself₁, hlen₁⟩ :=
    bufPut_spec h.stands.ext.ok hw (hc.putFits hlt hd)
  have hst₁ := h.stands.set_workBuf hc.workBuf hP₁ hS₁ H₁ hself₁
  let s₁ : TcpStream := { s with
    dataRecved := s.dataRecved + s.outBuf.dataLen
    replyBodySizeLeft := s.replyBodySizeLeft - s.outBuf.dataLen
    workBuf := some w₁ }
  have hst : s₁.Stands P₀ P₁ d (got ++ d) :=
    ⟨hst₁.ext, ⟨hst₁.carries.inBuf, hst₁.carries.outBuf, hst₁.carries.outLen, hst₁.carries.work⟩⟩
  obtain ⟨P₂, hclear, hst₂⟩ := Server.clearOutBuf_spec
    (c := { c with
      pool := P₁
      stream := some s₁
      workReallocs :=
        if bufFreeSpace w < s.outBuf.dataLen then c.workReallocs + 1 else c.workReallocs }) rfl hst
  let s₂ : TcpStream := { s₁ with outBuf := { s₁.outBuf with dataLen := 0 } }
  have hcounts : s₂.Counts w₁ len (got ++ d).length := by
    rw [hlen] at hd hlen₁
    rw [List.length_append, hlen]
    exact hc.collect hlt hw.length.symm hd hlen₁ _
  refine ⟨{ c with
    pool := P₂
    stream := some s₂
    workReallocs :=
      if bufFreeSpace w < s.outBuf.dataLen then c.workReallocs + 1 else c.workReallocs },
    s₂, w₁, fun mismatch => ?_, ⟨rfl, hst₂, h.reg, h.sock, h.fd⟩, hcounts, rfl, ?_⟩
  · have hsize : bufDataSize s.outBuf = s.outBuf.dataLen := rfl
    have hleft : s.replyBodySizeLeft - s.outBuf.dataLen = len - (got ++ d).length := hcounts.left
    have hrecved : s.dataRecved + s.outBuf.dataLen = (got ++ d).length := hcounts.recved
    simp only [collectData, h.stream, fetch_some, Server.call_ok, ok_bind, hc.workBuf, deref_some]
    rw [hsize]
    simp only [hout.load_all, hput, Server.call_ok, ok_bind]
    rw [hclear, ok_bind]
    by_cases hfull : (got ++ d).length = len
    · have hzero : s.replyBodySizeLeft - s.outBuf.dataLen = 0 := by omega
      have hsame : s.dataRecved + s.outBuf.dataLen = s.contentLen := by
        rw [hrecved, hc.content, hfull]
      refine (if_pos hzero).trans ((if_neg (not_not.2 hsame)).trans ?_)
      rw [if_pos hfull]
      rfl
    · have hmore : s.replyBodySizeLeft - s.outBuf.dataLen ≠ 0 := by omega
      refine (if_neg hmore).trans ?_
      rw [if_neg hfull]
      rfl
  · have hspace := hc.freeSpace_lt_iff hlt h.stands.ext.ok hw s.outBuf.dataLen
    rw [← hlen, ← List.length_append] at hspace
    simp only [Server.tally, ← hlen, hspace]

/-- The states stand for each other, and `work_buf` was not moved on the way to the end. -/
structure Server.StepSim (P₀ : Pool) (c c' : Server) (t : Decoder) : Prop where
  sim : c'.Sim P₀ t
  unmoved : t.IsClosed → c'.workReallocs = c.workReallocs

/-- What a stage leaves behind: `data_transfer` returns when the decoder is closed. -/
def StageSim (P₀ : Pool) (c : Server) (x : Bool × Server) (s : Decoder) : Prop :=
  c.StepSim P₀ x.2 s ∧ (x.1 = true ↔ s.IsClosed)

/-- `do_work` is handed the body. -/
theorem doWork_spec {n : ℕ} (h : c.Open P₀ s held got) (hc : s.Counts w len n)
    (hn : got.length = n) (hlen : n = len) (hworks : c.works = []) :
    ∃ c', doWork c = .ok c' ∧ c'.Open P₀ s held got ∧ Delivered (some got) c'.works ∧
      c'.tally = c.tally := by
  obtain ⟨e, hl, H⟩ := h.stands.carries.work w hc.workBuf
  refine ⟨{ c with works := c.works ++ [⟨read e.obj 0 e.capacity, toInt s.dataRecved⟩] }, ?_,
    ⟨h.stream, h.stands, h.reg, h.sock, h.fd⟩,
    ⟨⟨read e.obj 0 e.capacity, toInt s.dataRecved⟩, by rw [hworks]; rfl, ?_, ?_⟩, rfl⟩
  · simp only [doWork, h.stream, fetch_some, Server.call_ok, ok_bind, hc.workBuf, deref_some, hl,
      pure_eq_ok]
  · have hvalid := hc.valid.2
    have hmax : maxBody = 2 ^ 15 := by norm_num [maxBody]
    show toInt s.dataRecved = got.length
    unfold toInt
    rw [hc.recved, Int.bmod_eq_of_le (by omega) (by omega), hn]
  · have hle : got.length ≤ e.capacity := H.length.le.trans H.le_capacity
    show (read e.obj 0 e.capacity).take got.length = got
    rw [take_read hle, H.length, H.data]

/-- **`collect_data` and the tests behind it.** -/
theorem collectStage_spec (h : c.Open P₀ s d got) (hc : s.Counts w len got.length)
    (hlt : got.length < len) (hq : c.Quiet (1, 0)) :
    ∃ x, (∀ mismatch, collectStage mismatch c = .ok x) ∧
      StageSim P₀ c x (Decoder.collect len got d) := by
  obtain ⟨c₁, s₁, w₁, hrun₁, hopen₁, hc₁, hworks₁, htally₁⟩ := collectData_spec h hc hlt
  obtain ⟨hbuffs, hreallocs⟩ := Prod.mk.inj hq.tally
  rw [hbuffs, hreallocs] at htally₁
  unfold Decoder.collect
  by_cases hfull : (got ++ d).length = len
  · obtain ⟨c₂, hrun₂, hopen₂, hdel, htally₂⟩ :=
      doWork_spec hopen₁ hc₁ rfl hfull (hworks₁.trans hq.works)
    obtain ⟨c₃, hrun₃, hclosed, hworks₃, htally₃⟩ := Server.closeStream_spec
      (c := { c₂ with qps := c₂.qps + 1 })
      ⟨hopen₂.stream, hopen₂.stands, hopen₂.reg, hopen₂.sock, hopen₂.fd⟩
    refine ⟨(true, c₃), fun mismatch => ?_, ?_⟩
    · simp only [collectStage, hrun₁, ok_bind, if_pos hfull, if_true, hrun₂, hrun₃, pure_eq_ok]
    · rw [if_pos hfull]
      -- a body of the announced length fits
      have hfits : ¬ logMaxLen < (got ++ d).length := by
        have hvalid := hc.valid.2
        have hmax : maxBody = logMaxLen := rfl
        omega
      rw [if_neg hfits] at htally₁
      have htally : c₃.tally = (1, 0) := htally₃.trans (htally₂.trans htally₁)
      refine ⟨⟨.closed hclosed ?_ (htally ▸ ⟨le_rfl, Nat.zero_le 1⟩), fun _ => ?_⟩,
        by simp [Decoder.IsClosed]⟩
      · rw [show (true, c₃).2.works = c₂.works from hworks₃]
        exact hdel
      · exact (Prod.mk.inj htally).2.trans hreallocs.symm
  · refine ⟨(false, c₁), fun mismatch => ?_, ?_⟩
    · rw [collectStage, hrun₁, if_neg hfull]
      rfl
    · rw [if_neg hfull]
      exact ⟨⟨.served ⟨hworks₁.trans hq.works, htally₁⟩ hopen₁ ⟨rfl, hfull, w₁, hc₁⟩,
        fun hclosed => absurd hclosed id⟩, by simp [Decoder.IsClosed]⟩

/-- `alloc_work_buff` takes two blocks. -/
theorem allocWorkBuff_spec {l : List Ptr} (h : P₀.Extends P l) :
    ∃ w P', allocWorkBuff P = .ok (w, P') ∧ P₀.Extends P' (w.buffer :: w.self :: l) ∧
      w.Holds P' [] ∧ w.bufLen = logMaxLen ∧ ∀ q, P.live q ≠ none → P'.live q = P.live q := by
  have hbuf : sizeofBuf ≤ maxExtMemBlock := by decide
  have hmax : logMaxLen ≤ maxExtMemBlock := by decide
  obtain ⟨p₁, P₁, e₁, h₁, hE₁, he₁, hf₁, hn₁, hne₁⟩ := h.memAlloc (some "work_buf") hbuf
  have hzero : 0 + (List.replicate sizeofBuf (0 : UInt8)).length ≤ e₁.capacity := by
    rw [List.length_replicate, Nat.zero_add]
    exact hf₁.le_capacity hbuf
  obtain ⟨P₂, h₂, hP₂, hl₂⟩ := store_spec hE₁.ok he₁ hzero
  have hE₂ : P₀.Extends P₂ (p₁ :: l) := hE₁.swap (l := []) hP₂ (swaps_self hl₂)
  obtain ⟨p₃, P₃, e₃, h₃, hE₃, he₃, hf₃, hn₃, hne₃⟩ := hE₂.memAlloc (some "work_buf_data") hmax
  obtain ⟨P₄, h₄, hP₄, hl₄⟩ := store_nul_spec hE₃.ok he₃
  have hE₄ : P₀.Extends P₄ (p₃ :: p₁ :: l) := hE₃.swap (l := []) hP₄ (swaps_self hl₄)
  refine ⟨⟨p₁, p₃, logMaxLen, 0⟩, P₄, ?_, hE₄,
    Buf.holds_nil (e := { e₃ with obj := write e₃.obj 0 [0] })
      (by rw [hl₄, Function.update_self]) (hf₃.le_capacity hmax) rfl, rfl, fun q hq => ?_⟩
  · simp only [allocWorkBuff, h₁, h₂, h₃, h₄, ok_bind, pure_eq_ok]
  · have hq₁ : q ≠ p₁ := fun hqp => hq (hqp ▸ hn₁)
    have hl₂q : P₂.live q = P.live q := by
      rw [hl₂, Function.update_of_ne hq₁, hne₁ q hq₁]
    have hq₃ : q ≠ p₃ := fun hqp => hq (hl₂q ▸ hqp ▸ hn₃)
    rw [hl₄, Function.update_of_ne hq₃, hne₃ q hq₃, hl₂q]

/-- The stream gets its `work_buf`. -/
theorem TcpStream.Stands.allocWorkBuff (h : s.Stands P₀ P held got) (hw : s.workBuf = none) :
    ∃ w P', Jujube.allocWorkBuff P = .ok (w, P') ∧
      TcpStream.Stands P₀ P' { s with workBuf := some w } held [] ∧ w.bufLen = logMaxLen := by
  obtain ⟨w, P', hrun, hE, H, hlen, hframe⟩ := allocWorkBuff_spec h.ext
  have hfoot : s.footprint =
      [s.inBuf.buffer, s.inBuf.self, s.outBuf.buffer, s.outBuf.self] ++ [s.self] := by
    simp [TcpStream.footprint, hw]
  have hperm : (w.buffer :: w.self :: s.footprint).Perm
      (TcpStream.footprint { s with workBuf := some w }) := by
    rw [hfoot]
    exact (@List.perm_append_comm _ [w.buffer, w.self] _).append_right [s.self]
  refine ⟨w, P', hrun, ⟨hE.perm hperm, ⟨?_, ?_, h.carries.outLen, fun v hv => ?_⟩⟩, hlen⟩
  · exact h.carries.inBuf.of_live_eq (hframe _ h.carries.inBuf.live_ne_none)
  · exact h.carries.outBuf.of_live_eq (hframe _ h.carries.outBuf.live_ne_none)
  · cases hv
    exact H

/-- The announced length is tested as the decoder tests it. -/
theorem badLength_iff (n : ℕ) : (logMaxLen < n ∨ n = 0) ↔ ¬ ValidLen n := by
  have hmax : maxBody = logMaxLen := rfl
  unfold ValidLen
  omega

/-- A frame of a length that is not valid closes the connection. -/
theorem headerStage_rejects (h : c.Open P₀ s d []) (hq : c.Quiet (0, 0)) (h8 : 8 ≤ d.length)
    (hbad : ¬ ValidLen (ofLe (d.take 8))) :
    ∃ x, (∀ mismatch, headerStage mismatch c = .ok x) ∧ StageSim P₀ c x (.closed none) := by
  obtain ⟨hload, hsize⟩ := h.peek h8
  obtain ⟨P₁, hrun₁, hst₁⟩ := Server.clearOutBuf_spec h.stream h.stands
  obtain ⟨c₂, hrun₂, hclosed, hworks₂, htally₂⟩ := Server.closeStream_spec
    (c := { c with
      pool := P₁
      stream := some { s with outBuf := { s.outBuf with dataLen := 0 } } })
    ⟨rfl, hst₁, h.reg, h.sock, h.fd⟩
  refine ⟨(true, c₂), fun mismatch => ?_, ?_⟩
  · simp only [headerStage, h.stream, fetch_some, Server.call_ok, ok_bind, if_neg hsize,
      hload, if_pos ((badLength_iff _).2 hbad), hrun₁, hrun₂, pure_eq_ok]
  · have htally : c₂.tally = (0, 0) := htally₂.trans hq.tally
    exact ⟨⟨.closed hclosed (hworks₂.trans hq.works) (htally ▸ ⟨Nat.zero_le 1, Nat.zero_le 1⟩),
      fun _ => (Prod.mk.inj htally₂).2⟩, by simp [Decoder.IsClosed]⟩

/-- A frame of a valid length gets its `work_buf`, and the rest of the bytes is collected. -/
theorem headerStage_accepts (h : c.Open P₀ s d []) (hwait : s.Waiting) (hq : c.Quiet (0, 0))
    (h8 : 8 ≤ d.length) (hvalid : ValidLen (ofLe (d.take 8))) :
    ∃ x, (∀ mismatch, headerStage mismatch c = .ok x) ∧
      StageSim P₀ c x (Decoder.collect (ofLe (d.take 8)) [] (d.drop 8)) := by
  obtain ⟨hload, hsize⟩ := h.peek h8
  obtain ⟨P₁, hrun₁, hP₁, H₁, hS₁⟩ := bufPick_spec h.stands.ext.ok h.stands.carries.outBuf
    (not_lt.1 hsize)
  have hst₁ := h.stands.set_outBuf (b := { s.outBuf with dataLen := s.outBuf.dataLen - 8 })
    hP₁ hS₁ H₁ rfl h.stands.carries.outLen
  obtain ⟨w, P₂, hrun₂, hst₂, hwlen⟩ := hst₁.allocWorkBuff hwait.workBuf
  set len := ofLe (d.take 8) with hlen_def
  let s₂ : TcpStream := { s with
    replyBodySizeLeft := len
    contentLen := len
    outBuf := { s.outBuf with dataLen := s.outBuf.dataLen - 8 }
    workBuf := some w }
  have hopen₂ : Server.Open P₀
      { c with pool := P₂, stream := some s₂, workBuffs := c.workBuffs + 1 } s₂ (d.drop 8) [] :=
    ⟨rfl, ⟨hst₂.ext,
      ⟨hst₂.carries.inBuf, hst₂.carries.outBuf, hst₂.carries.outLen, hst₂.carries.work⟩⟩,
      h.reg, h.sock, h.fd⟩
  have hc₂ : s₂.Counts w len ([] : List UInt8).length :=
    ⟨hvalid, rfl, rfl, hwait.recved, by simp [s₂], fun _ => hwlen, by omega⟩
  obtain ⟨x, hx, hsim⟩ := collectStage_spec hopen₂ hc₂ hvalid.1
    ⟨hq.works, congrArg (fun n : ℕ × ℕ => (n.1 + 1, n.2)) hq.tally⟩
  refine ⟨x, fun mismatch => ?_, ⟨hsim.1.sim, hsim.1.unmoved⟩, hsim.2⟩
  have hpos : (0 : ℤ) < len := by exact_mod_cast hvalid.1
  have hgood : ¬ (logMaxLen < len ∨ len = 0) := fun hbad => (badLength_iff len).1 hbad hvalid
  simp only [headerStage, h.stream, fetch_some, Server.call_ok, ok_bind, if_neg hsize,
    hload, ← hlen_def, if_neg hgood, hrun₁, hrun₂, if_pos hpos]
  exact hx mismatch

/-- **The first bytes of a frame.** -/
theorem headerStage_spec (h : c.Open P₀ s d []) (hwait : s.Waiting) (hq : c.Quiet (0, 0)) :
    ∃ x, (∀ mismatch, headerStage mismatch c = .ok x) ∧
      StageSim P₀ c x (Decoder.read (.header []) d) := by
  rw [Decoder.read_header]
  by_cases hshort : d.length < 8
  · have hlen := h.stands.carries.outBuf.length
    have hsize : bufDataSize s.outBuf < 8 := by
      rw [bufDataSize]
      omega
    refine ⟨(false, c), fun mismatch => ?_, ?_⟩
    · simp only [headerStage, h.stream, fetch_some, Server.call_ok, ok_bind, if_pos hsize,
        pure_eq_ok]
    · rw [if_pos hshort]
      exact ⟨⟨.served hq h ⟨rfl, hwait⟩, fun hclosed => absurd hclosed id⟩,
        by simp [Decoder.IsClosed]⟩
  rw [if_neg hshort]
  by_cases hvalid : ValidLen (ofLe (d.take 8))
  · rw [if_pos hvalid]
    exact headerStage_accepts h hwait hq (not_lt.1 hshort) hvalid
  · rw [if_neg hvalid]
    exact headerStage_rejects h hq (not_lt.1 hshort) hvalid

/-- The byte behind the data of `out_buf` is cleared, and the counter decides. -/
theorem frameStage_eq (h : c.Open P₀ s d got) :
    ∃ P', Server.Open P₀ { c with pool := P' } s d got ∧ ∀ mismatch, frameStage mismatch c =
      if 0 < s.replyBodySizeLeft then collectStage mismatch { c with pool := P' }
      else if s.replyBodySizeLeft = 0 then headerStage mismatch { c with pool := P' }
      else .ok (false, { c with pool := P' }) := by
  by_cases hfree : s.outBuf.dataLen < s.outBuf.bufLen
  · obtain ⟨P', hrun, hP', H, hS⟩ :=
      store_behind_spec h.stands.ext.ok h.stands.carries.outBuf hfree 0
    have hst := h.stands.set_outBuf hP' hS H rfl h.stands.carries.outLen
    refine ⟨P', ⟨h.stream, hst, h.reg, h.sock, h.fd⟩, fun mismatch => ?_⟩
    simp only [frameStage, h.stream, fetch_some, Server.call_ok, ok_bind, if_pos hfree, hrun,
      pure_eq_ok]
  · refine ⟨c.pool, h, fun mismatch => ?_⟩
    simp only [frameStage, h.stream, fetch_some, Server.call_ok, ok_bind, if_neg hfree, pure_eq_ok]

/-- **What a read event does with the bytes read.** -/
theorem frameStage_spec (h : c.Open P₀ s d got) (hfits : s.Fits got t)
    (hq : c.Quiet t.tally) :
    ∃ x, (∀ mismatch, frameStage mismatch c = .ok x) ∧ StageSim P₀ c x (t.read d) := by
  obtain ⟨P', hopen, hrun⟩ := frameStage_eq h
  cases t with
  | header held =>
    obtain ⟨rfl, hwait⟩ := hfits
    obtain ⟨x, hx, hsim⟩ := headerStage_spec hopen hwait ⟨hq.works, hq.tally⟩
    refine ⟨x, fun mismatch => ?_, ⟨hsim.1.sim, hsim.1.unmoved⟩, hsim.2⟩
    rw [hrun, hwait.left, if_neg (lt_irrefl 0), if_pos rfl, hx]
  | body len got' held =>
    obtain ⟨rfl, hne, w, hc⟩ := hfits
    have hleft := hc.left
    rw [Decoder.read_body]
    by_cases hlt : got.length < len
    · have hfits : got.length ≤ logMaxLen := hlt.le.trans hc.valid.2
      rw [Decoder.tally_body hfits] at hq
      obtain ⟨x, hx, hsim⟩ := collectStage_spec hopen hc hlt ⟨hq.works, hq.tally⟩
      refine ⟨x, fun mismatch => ?_, ?_⟩
      · rw [hrun, if_pos (by omega), hx]
      · rw [if_pos hlt]
        exact ⟨⟨hsim.1.sim, hsim.1.unmoved⟩, hsim.2⟩
    · refine ⟨(false, { c with pool := P' }), fun mismatch => ?_, ?_⟩
      · rw [hrun, if_neg (by omega), if_neg (by omega)]
      · rw [if_neg hlt]
        exact ⟨⟨.served ⟨hq.works, hq.tally⟩ hopen ⟨rfl, hne, w, hc⟩,
          fun hclosed => absurd hclosed id⟩, by simp [Decoder.IsClosed]⟩
  | closed r => exact absurd hfits id

/-- What the first `read` that is not interrupted is to the decoder. -/
def ReadResult.input : ReadResult → Input
  | .data c => .read c.bytes
  | .eintr | .eagain => .read []
  | .eof | .error => .ended

/-- What the decoder does at a read event, with nothing held. -/
def Decoder.afterRead (t : Decoder) : Input → Decoder
  | .read d => t.read d
  | _ => .closed none

theorem Server.Open.outBuf_empty (h : c.Open P₀ s [] got) : bufDataSize s.outBuf = 0 := by
  simpa [bufDataSize] using h.stands.carries.outBuf.length.symm

/-- The counters do not depend on `out_buf`. -/
theorem TcpStream.Fits.set_outBuf (h : s.Fits got t) (b : Buf) :
    TcpStream.Fits { s with outBuf := b } got t := by
  cases t with
  | header held => exact ⟨h.1, h.2.workBuf, h.2.left, h.2.recved, h.2.content⟩
  | body len got' held =>
    obtain ⟨hgot, hne, w, hc⟩ := h
    exact ⟨hgot, hne, w, hc.valid, hc.workBuf, hc.content, hc.recved, hc.left, hc.room, hc.bound⟩
  | closed r => exact h

/-- A read that ends the connection: nothing is in `out_buf`, so the stream is closed. -/
theorem readStage_ends (h : c.Open P₀ s [] got) (hq : c.Quiet t.tally) {reads : List ReadResult}
    {z : Bool}
    (hrun : streamFeedOut s reads c.pool = .ok (-1, { s with serverClosed := z }, c.pool)) :
    ∃ x, (∀ mismatch, readStage mismatch reads c = .ok x) ∧ StageSim P₀ c x (.closed none) := by
  have hst : TcpStream.Stands P₀ c.pool { s with serverClosed := z } [] got :=
    ⟨h.stands.ext, ⟨h.stands.carries.inBuf, h.stands.carries.outBuf, h.stands.carries.outLen,
      h.stands.carries.work⟩⟩
  obtain ⟨c', hclose, hclosed, hworks', htally'⟩ := Server.closeStream_spec
    (c := { c with stream := some { s with serverClosed := z } })
    ⟨rfl, hst, h.reg, h.sock, h.fd⟩
  have honce : c'.tally ≤ (1, 1) := (htally'.trans hq.tally).trans_le t.tally_le
  refine ⟨(true, c'), fun mismatch => ?_, ⟨.closed hclosed (hworks'.trans hq.works) honce,
    fun _ => (Prod.mk.inj htally').2⟩, by simp [Decoder.IsClosed]⟩
  have hempty : bufDataSize s.outBuf = 0 := h.outBuf_empty
  simp only [readStage, h.stream, fetch_some, Server.call_ok, ok_bind, assert_of hempty, hrun,
    if_pos (show (-1 : ℤ) < 0 by decide), if_pos hempty, hclose, pure_eq_ok, if_true]

/-- After any other read the rest of the stage works on what is in `out_buf` then. -/
theorem readStage_goes_on (h : c.Open P₀ s [] got) (hfits : s.Fits got t) (hq : c.Quiet t.tally)
    {reads : List ReadResult} {n : ℤ} (hn : 0 ≤ n)
    (hrun : streamFeedOut s reads c.pool = .ok (n, { s with outBuf := b }, P'))
    (hst : TcpStream.Stands P₀ P' { s with outBuf := b } d got) :
    ∃ x, (∀ mismatch, readStage mismatch reads c = .ok x) ∧ StageSim P₀ c x (t.read d) := by
  have hopen : Server.Open P₀ { c with pool := P', stream := some { s with outBuf := b } }
      { s with outBuf := b } d got := ⟨rfl, hst, h.reg, h.sock, h.fd⟩
  obtain ⟨x, hx, hsim⟩ := frameStage_spec hopen (hfits.set_outBuf b) ⟨hq.works, hq.tally⟩
  refine ⟨x, fun mismatch => ?_, ⟨hsim.1.sim, hsim.1.unmoved⟩, hsim.2⟩
  simp only [readStage, h.stream, fetch_some, Server.call_ok, ok_bind, assert_of h.outBuf_empty,
    hrun, if_neg (not_lt.2 hn), pure_eq_ok]
  exact hx mismatch

/-- **A read event.** -/
theorem readStage_spec (h : c.Open P₀ s [] got) (hfits : s.Fits got t)
    (hq : c.Quiet t.tally) (reads : List ReadResult) :
    ∃ x, (∀ mismatch, readStage mismatch reads c = .ok x) ∧
      StageSim P₀ c x (t.afterRead (firstRead reads).input) := by
  have hlen : s.outBuf.dataLen = 0 := h.outBuf_empty
  have hfree : 0 < bufFreeSpace s.outBuf := by
    rw [(h.stands.carries.outBuf.freeSpace h.stands.ext.ok).1, hlen, h.stands.carries.outLen]
    decide
  have hfeed := streamFeedOut_eq (P := c.pool) (h.sock ▸ h.fd) hfree reads
  cases hfirst : firstRead reads with
  | data k =>
    have hk : s.outBuf.dataLen + k.bytes.length ≤ s.outBuf.bufLen := by
      have := k.fits
      have := h.stands.carries.outLen
      omega
    obtain ⟨P', hrun, hP', hS, H⟩ := feedOnce_data h.stands.ext.ok h.stands.carries.outBuf 0 k hk
    rw [hfirst, hrun] at hfeed
    refine readStage_goes_on h hfits hq (by omega) hfeed ?_
    exact h.stands.set_outBuf hP' hS H rfl h.stands.carries.outLen
  | eintr =>
    rw [hfirst] at hfeed
    exact readStage_goes_on (b := s.outBuf) h hfits hq le_rfl hfeed h.stands
  | eagain =>
    rw [hfirst] at hfeed
    exact readStage_goes_on (b := s.outBuf) h hfits hq le_rfl hfeed h.stands
  | eof =>
    rw [hfirst] at hfeed
    exact readStage_ends h hq hfeed
  | error =>
    rw [hfirst] at hfeed
    exact readStage_ends (z := s.serverClosed) h hq hfeed

/-- There is nothing to write. -/
theorem writeStage_spec (h : c.Open P₀ s held got) (writes : List WriteResult) :
    writeStage writes c = .ok (false, c) := by
  have hflush := streamFlushOut_empty h.stands.carries.inBuf (h.sock ▸ h.fd) writes
  simp only [writeStage, h.stream, fetch_some, Server.call_ok, ok_bind, hflush,
    if_neg (lt_irrefl (0 : ℤ)), pure_eq_ok]
  rw [← h.stream]

/-- The event mask is renewed. -/
theorem Server.setEventInOut_spec (h : c.Sim P₀ t) (ht : ¬ t.IsClosed) (now : ℤ) :
    ∃ c', c.setEventInOut now = .ok c' ∧ c'.Sim P₀ t := by
  cases h with
  | closed => exact absurd trivial ht
  | @served t s got quiet hopen hfits =>
    have hsock : ¬ s.serverSock < 0 := not_lt.2 (hopen.sock ▸ hopen.fd)
    let x := eventadd c.slot ⟨0 < bufFreeSpace s.outBuf, 0 < bufDataSize s.inBuf⟩ now c.ev c.kernel
    refine ⟨{ c with ev := x.1, kernel := x.2 }, ?_, .served ⟨quiet.works, quiet.tally⟩
      ⟨hopen.stream, hopen.stands, eventadd_registered (.inl hopen.reg), hopen.sock, hopen.fd⟩
      hfits⟩
    simp only [setEventInOut, hopen.stream, fetch_some, call_ok, ok_bind, setStreamEventInOut,
      if_neg hsock, pure_eq_ok]
    rw [← hopen.stream]

/-! ### The simulation -/

/-- What an event is to the decoder. -/
def Event.input (e : Event) : Input :=
  if e.readEvent then (firstRead e.reads).input
  else if e.writeEvent then .idle
  else .hangup

/-- How the server stops: at the `assert` that `out_buf` is empty, before any call of `do_work`. -/
def Stopped (a : Abort) (_ : Unit) : Prop := a = ⟨.assertFailed .serverOutBufEmpty, []⟩

theorem Decoder.step_read {i : Input} (ht : ¬ t.IsClosed) (hi : i.IsRead) :
    t.step i = if t.held = [] then .ok (t.afterRead i) else .error () := by
  cases i with
  | read d => simp [Decoder.step, ht, Decoder.afterRead]
  | ended => simp [Decoder.step, ht, Decoder.afterRead]
  | hangup => exact absurd hi id
  | idle => exact absurd hi id

theorem ReadResult.input_isRead (r : ReadResult) : r.input.IsRead := by
  cases r <;> trivial

/-- Up to the read event nothing happens on an open connection. -/
theorem dataTransfer_eq (h : c.Open P₀ s held got) (e : Event)
    (mismatch : Server → Except Abort Server) :
    dataTransfer mismatch e c =
      if e.readEvent = false ∧ e.writeEvent = false then c.closeStream
      else (if e.readEvent then readStage mismatch e.reads c else pure (false, c)) >>= fun x =>
        if x.1 then pure x.2 else x.2.setEventInOut e.now := by
  have hwrite : (if e.writeEvent then writeStage e.writes c else pure (false, c)) =
      .ok (false, c) := by
    split_ifs
    · exact writeStage_spec h e.writes
    · rfl
  simp only [dataTransfer, h.stream, fetch_some, Server.call_ok, ok_bind, assert_of h.sock, hwrite]
  simp

/-- **A read event is a step of the decoder**, which holds nothing then: else the `assert` fails. -/
theorem dataTransfer_read_spec (hopen : c.Open P₀ s t.held got) (hfits : s.Fits got t)
    (quiet : c.Quiet t.tally) (ht : ¬ t.IsClosed) {e : Event} (hread : e.readEvent = true) :
    ∃ x, (∀ mismatch, dataTransfer mismatch e c = x) ∧
      Matches (c.StepSim P₀) Stopped x (t.step e.input) := by
  have hinput : e.input = (firstRead e.reads).input := by simp [Event.input, hread]
  have hstage : ∀ mismatch, dataTransfer mismatch e c =
      (readStage mismatch e.reads c >>= fun x =>
        if x.1 then pure x.2 else x.2.setEventInOut e.now) := by
    intro mismatch
    rw [dataTransfer_eq hopen, if_neg (by simp [hread]), if_pos hread]
  rw [hinput, Decoder.step_read ht (ReadResult.input_isRead _)]
  by_cases hheld : t.held = []
  · rw [hheld] at hopen
    obtain ⟨⟨done, c₁⟩, hx, hsim₁, hdone⟩ := readStage_spec hopen hfits quiet e.reads
    rw [if_pos hheld]
    cases done with
    | true =>
      refine ⟨.ok c₁, fun mismatch => ?_, .ok hsim₁⟩
      rw [hstage, hx]
      rfl
    | false =>
      have hopen₁ : ¬ (t.afterRead (firstRead e.reads).input).IsClosed := by
        intro hcl
        exact absurd (hdone.2 hcl) (by simp)
      obtain ⟨c₂, hset, hsim₂⟩ := Server.setEventInOut_spec hsim₁.sim hopen₁ e.now
      refine ⟨.ok c₂, fun mismatch => ?_, .ok ⟨hsim₂, fun hclosed => absurd hclosed hopen₁⟩⟩
      rw [hstage, hx]
      exact hset
  · have hfull : bufDataSize s.outBuf ≠ 0 := by
      intro h0
      refine hheld (List.eq_nil_of_length_eq_zero ?_)
      rw [hopen.stands.carries.outBuf.length]
      exact h0
    rw [if_neg hheld]
    refine ⟨.error ⟨.assertFailed .serverOutBufEmpty, c.works⟩, fun mismatch => ?_,
      .error (by rw [Stopped, quiet.works])⟩
    rw [hstage]
    simp only [readStage, hopen.stream, fetch_some, Server.call_ok, ok_bind,
      assert_of_not hfull, Server.call_error, error_bind]

/-- **One call of `data_transfer` is one step of the decoder.** -/
theorem dataTransfer_spec (h : c.Sim P₀ t) (ht : ¬ t.IsClosed) (e : Event) :
    ∃ x, (∀ mismatch, dataTransfer mismatch e c = x) ∧
      Matches (c.StepSim P₀) Stopped x (t.step e.input) := by
  cases h with
  | closed => exact absurd trivial ht
  | @served t s got quiet hopen hfits =>
    cases hread : e.readEvent with
    | true => exact dataTransfer_read_spec hopen hfits quiet ht hread
    | false =>
      cases hwrite : e.writeEvent with
      | false =>
        obtain ⟨c', hclose, hclosed, hworks, htally⟩ := Server.closeStream_spec hopen
        refine ⟨.ok c', fun mismatch => ?_, ?_⟩
        · rw [dataTransfer_eq hopen, if_pos ⟨hread, hwrite⟩, hclose]
        · have hstep : t.step e.input = .ok (.closed none) := by
            simp [Decoder.step, ht, Event.input, hread, hwrite]
          rw [hstep]
          exact .ok ⟨.closed hclosed (hworks.trans quiet.works)
            ((htally.trans quiet.tally).trans_le t.tally_le), fun _ => (Prod.mk.inj htally).2⟩
      | true =>
        have hsim : c.Sim P₀ t := .served quiet hopen hfits
        obtain ⟨c', hset, hsim'⟩ := Server.setEventInOut_spec hsim ht e.now
        refine ⟨.ok c', fun mismatch => ?_, ?_⟩
        · rw [dataTransfer_eq hopen, if_neg (by simp [hwrite]), if_neg (by simp [hread])]
          exact hset
        · have hstep : t.step e.input = .ok t := by
            simp [Decoder.step, ht, Event.input, hread, hwrite]
          rw [hstep]
          exact .ok ⟨hsim', fun hclosed => absurd hclosed ht⟩

/-- **A step of the server is a step of the decoder.** -/
theorem Server.step_spec (h : c.Sim P₀ t) (e : Event) :
    ∃ x, (∀ mismatch, c.step mismatch e = x) ∧
      Matches (c.StepSim P₀) Stopped x (t.step e.input) := by
  by_cases ht : t.IsClosed
  · cases h with
    | @closed r hclosed hdel honce =>
      refine ⟨.ok c, fun mismatch => if_pos hclosed.stream, ?_⟩
      have hstep : (Decoder.closed r).step e.input = .ok (.closed r) := by
        simp [Decoder.step, Decoder.IsClosed]
      rw [hstep]
      exact .ok ⟨.closed hclosed hdel honce, fun _ => rfl⟩
    | @served t s got quiet hopen hfits =>
      cases t with
      | closed r => exact absurd hfits id
      | header held => exact absurd ht id
      | body len got' held => exact absurd ht id
  · obtain ⟨x, hx, hm⟩ := dataTransfer_spec h ht e
    refine ⟨x, fun mismatch => ?_, hm⟩
    cases h with
    | closed => exact absurd trivial ht
    | served quiet hopen hfits =>
      rw [Server.step, if_neg (by simp [hopen.stream]), hx]

/-! ### Runs -/

/-- A connection that was just accepted, with a stream of its own beyond the pool `P₀`. -/
structure Server.Accepted (P₀ : Pool) (c : Server) : Prop where
  pool : P₀.Ok
  accepted : ∃ i cfd now K, 0 ≤ cfd ∧ cfd ∈ K.opened ∧ K.interest cfd = none ∧
    acceptStream i cfd now K P₀ = .ok c

/-- A connection can be accepted over any pool. -/
theorem Server.exists_accepted (hP : P₀.Ok) : ∃ c, Server.Accepted P₀ c := by
  obtain ⟨s, P', hrun, -⟩ := streamCreate_spec hP 5
  have hc : ∃ c, acceptStream 0 5 0 (Kernel.unwatched {5}) P₀ = .ok c := by
    rw [acceptStream, hrun, ok_bind]
    exact ⟨_, rfl⟩
  obtain ⟨c, hc⟩ := hc
  exact ⟨c, hP, 0, 5, 0, Kernel.unwatched {5}, by norm_num, Finset.mem_singleton_self 5, rfl, hc⟩

/-- A new connection is a new decoder. -/
theorem Server.Accepted.sim (h : c.Accepted P₀) : c.Sim P₀ Decoder.init := by
  obtain ⟨hP, i, cfd, now, K, hfd, hopened, hinterest, hrun⟩ := h
  obtain ⟨s, P', hcreate, hs⟩ := streamCreate_spec hP cfd
  simp only [acceptStream, hcreate, ok_bind, pure_eq_ok] at hrun
  cases hrun
  have hreg := @eventadd_registered i (eventset none cfd .dataTransfer now) K ⟨true, false⟩ now
    (.inr ⟨by simp [eventset], hopened, hinterest⟩)
  exact .served ⟨rfl, rfl⟩ ⟨rfl, ⟨hs.extends_, hs.carries⟩, hreg, hs.sock.symm, hfd⟩
    ⟨rfl, hs.workBuf, hs.left, hs.recved, hs.content⟩

/-- The run of a connection over some events. -/
def Server.run (c : Server) (es : List Event) : Except Abort Server :=
  Transition.run (Server.step rejectFrame) c es

/-- The calls of `do_work` in a run. -/
def worksOf : Except Abort Server → List Work
  | .ok c => c.works
  | .error a => a.works

/-- **A run of the server is a run of the decoder**, and makes the same calls and takes the same
branches whatever stands in the branch for a body that is not as long as announced. -/
theorem Server.run_spec (h : c.Sim P₀ t) (es : List Event) :
    (∀ mismatch, Transition.run (Server.step mismatch) c es = c.run es) ∧
      Matches (Server.Sim P₀) Stopped (c.run es)
        (Transition.run Decoder.step t (es.map Event.input)) := by
  obtain ⟨x, hx, hm⟩ := run_matches (fun mismatch => Server.step mismatch) Event.input
    (fun c t e hsim => by
      obtain ⟨x, hx, hm⟩ := Server.step_spec hsim e
      exact ⟨x, hx, hm.mono (fun _ _ hstep => hstep.sim) fun _ _ => id⟩) h es
  have hrun : c.run es = x := hx rejectFrame
  exact ⟨fun mismatch => (hx mismatch).trans hrun.symm, hrun ▸ hm⟩

end Jujube
