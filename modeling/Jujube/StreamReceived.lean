import Jujube.Foundation.Transition
import Jujube.Stream

/-!
# `data_in`

`stream_feed_out` adds to `data_in` the bytes it has read, after its loop.  The loop ends only when
`out_buf` is full before a `read`: a `read` that put something there returns at once, and so do the
failed ones.  What is added is always 0.

`Receiving` is a stream whose `out_buf` is fed and drained any number of times, next to a count of
the bytes that were put there.
-/

namespace Jujube

open Bytes Pool Transition

/-- What is done with `out_buf`: it is fed from the socket, and drained by `buf_pick` or by
`clear_space`. -/
inductive OutBufOp
  | feed (reads : List ReadResult)
  | pick (len : ℕ)
  | clear

/-- A stream, and the bytes put into its `out_buf` since it was created: what `data_len` has grown
by in the calls of `stream_feed_out`. -/
structure Receiving where
  stream : TcpStream
  pool : Pool
  appended : ℤ

namespace Receiving

/-- A stream that was just created. -/
def start (s : TcpStream) (P : Pool) : Receiving := ⟨s, P, 0⟩

/-- One call. -/
def step (u : Receiving) : OutBufOp → Except Fault Receiving
  | .feed reads => do
    let (_, s, P) ← streamFeedOut u.stream reads u.pool
    return ⟨s, P, u.appended + (s.outBuf.dataLen - u.stream.outBuf.dataLen)⟩
  | .pick len => do
    let (b, P) ← bufPick len u.stream.outBuf u.pool
    return ⟨{ u.stream with outBuf := b }, P, u.appended⟩
  | .clear => do
    let (b, P) ← clearSpace u.stream.outBuf u.pool
    return ⟨{ u.stream with outBuf := b }, P, u.appended⟩

/-- No more is taken than there is: `buf_pick` asserts it. -/
def Allowed (u : Receiving) : OutBufOp → Prop
  | .pick len => len ≤ u.stream.outBuf.dataLen
  | _ => True

/-- `data_in` is the number of bytes put into `out_buf`. -/
def Counted (u : Receiving) : Prop := u.stream.dataIn = u.appended

/-- The call reads nothing. -/
def Idle (u : Receiving) : OutBufOp → Prop
  | .feed reads => ¬ u.stream.Reads reads
  | _ => True

/-- What the steps keep. -/
structure Inv (u : Receiving) : Prop where
  ok : u.pool.Ok
  outBuf : ∃ d, u.stream.outBuf.Holds u.pool d
  dataIn : u.stream.dataIn = 0

variable {u u' : Receiving} {op : OutBufOp} {P₀ P : Pool} {s : TcpStream}

/-- **One call**: `data_in` stays 0, and the count of the bytes changes exactly when something is
read. -/
theorem step_spec (h : u.Inv) (hop : u.Allowed op) :
    ∃ u', u.step op = .ok u' ∧ u'.Inv ∧ (u'.appended = u.appended ↔ u.Idle op) := by
  obtain ⟨d, H⟩ := h.outBuf
  cases op with
  | feed reads =>
    by_cases hreads : u.stream.Reads reads
    · obtain ⟨r, n, P', d', hrun, hP', -, hlt, H'⟩ := streamFeedOut_reads h.ok H hreads
      refine ⟨⟨{ u.stream with outBuf := { u.stream.outBuf with dataLen := n } }, P',
        u.appended + (n - u.stream.outBuf.dataLen)⟩, by rw [step, hrun]; rfl,
        ⟨hP', ⟨d', H'⟩, h.dataIn⟩, iff_of_false ?_ (not_not_intro hreads)⟩
      show ¬ u.appended + ((n : ℤ) - u.stream.outBuf.dataLen) = u.appended
      omega
    · obtain ⟨r, z, hrun⟩ := streamFeedOut_idle (P := u.pool) hreads
      refine ⟨⟨{ u.stream with serverClosed := z }, u.pool, u.appended +
        (u.stream.outBuf.dataLen - u.stream.outBuf.dataLen)⟩, by rw [step, hrun]; rfl,
        ⟨h.ok, ⟨d, H⟩, h.dataIn⟩, iff_of_true ?_ hreads⟩
      show u.appended + ((u.stream.outBuf.dataLen : ℤ) - u.stream.outBuf.dataLen) = u.appended
      omega
  | pick len =>
    obtain ⟨P', hrun, hP', H', -⟩ := bufPick_spec h.ok H hop
    exact ⟨⟨{ u.stream with
        outBuf := { u.stream.outBuf with dataLen := u.stream.outBuf.dataLen - len } }, P',
      u.appended⟩, by rw [step, hrun]; rfl, ⟨hP', ⟨_, H'⟩, h.dataIn⟩, iff_of_true rfl trivial⟩
  | clear =>
    obtain ⟨P', hrun, hP', H', -⟩ := clearSpace_spec h.ok H
    exact ⟨⟨{ u.stream with outBuf := { u.stream.outBuf with dataLen := 0 } }, P', u.appended⟩,
      by rw [step, hrun]; rfl, ⟨hP', ⟨_, H'⟩, h.dataIn⟩, iff_of_true rfl trivial⟩

/-- From any state in which `data_in` is right, it stays right as long as nothing is read. -/
theorem counted_iff (h : u.Inv) (hcounted : u.Counted) {ops : List OutBufOp}
    (hops : Steps step Allowed u ops) : Along step Counted u ops ↔ Steps step Idle u ops := by
  refine along_iff_steps (fun u op h hop => ?_) (fun u op u' h hcounted hop hstep => ?_) h hcounted
    hops
  · obtain ⟨u', hstep, h', -⟩ := step_spec h hop
    exact ⟨u', hstep, h'⟩
  · obtain ⟨u'', hstep', h', hiff⟩ := step_spec h hop
    cases hstep.symm.trans hstep'
    rw [← hiff, Counted, h'.dataIn, ← hcounted, h.dataIn]
    exact eq_comm

/-- A new stream, whatever is done with its `out_buf`. -/
theorem start_counted_iff (hP : P.Ok) {d : List UInt8} (H : s.outBuf.Holds P d)
    (h0 : s.dataIn = 0) {ops : List OutBufOp} (hops : Steps step Allowed (start s P) ops) :
    (∃ u, run step (start s P) ops = .ok u ∧ u.stream.dataIn = 0) ∧
      (Along step Counted (start s P) ops ↔ Steps step Idle (start s P) ops) := by
  have hstart : (start s P).Inv := ⟨hP, ⟨d, H⟩, h0⟩
  have hstep : ∀ (u : Receiving) op, u.Inv → u.Allowed op → ∃ u', u.step op = .ok u' ∧ u'.Inv := by
    intro u op h hop
    obtain ⟨u', hu', h', -⟩ := step_spec h hop
    exact ⟨u', hu', h'⟩
  obtain ⟨u, hrun, hu⟩ := exists_run hstep hstart hops
  exact ⟨⟨u, hrun, hu.dataIn⟩, counted_iff hstart h0 hops⟩

end Receiving

variable {P₀ P : Pool} {s : TcpStream} {sock : ℤ}

/-- `new_transaction_stream` does nothing to `data_in`. -/
theorem newTransactionStream_dataIn {prefixLen data : List UInt8}
    (h : newTransactionStream sock prefixLen data P₀ = .ok (s, P)) (hP₀ : P₀.Ok) :
    s.dataIn = 0 := by
  obtain ⟨s₀, P₁, hcreate, hs₀⟩ := streamCreate_spec hP₀ sock
  rw [newTransactionStream, hcreate, ok_bind] at h
  obtain ⟨_, -, h⟩ := bind_eq_ok.1 h
  obtain ⟨_, -, h⟩ := bind_eq_ok.1 h
  cases h
  exact hs₀.dataIn

open Receiving

/-- **`data_in` counts the bytes of a stream that never gets any.**  A stream is created by either
function, and its `out_buf` is fed and drained in any way: `data_in` stays 0, and is the number of
bytes put into `out_buf` exactly as long as no call of `stream_feed_out` reads something. -/
theorem dataIn_counts_iff (hP₀ : P₀.Ok) :
    (∀ sock, ∃ s P, streamCreate sock P₀ = .ok (s, P) ∧
      ∀ ops, Steps step Allowed (start s P) ops →
        (∃ u, run step (start s P) ops = .ok u ∧ u.stream.dataIn = 0) ∧
        (Along step Counted (start s P) ops ↔ Steps step Idle (start s P) ops)) ∧
    (∀ sock prefixLen data, prefixLen.length = 8 → cfgHttpBufSize + data.length ≤ maxExtMemBlock →
      ∃ s P, newTransactionStream sock prefixLen data P₀ = .ok (s, P) ∧
        ∀ ops, Steps step Allowed (start s P) ops →
          (∃ u, run step (start s P) ops = .ok u ∧ u.stream.dataIn = 0) ∧
          (Along step Counted (start s P) ops ↔ Steps step Idle (start s P) ops)) := by
  refine ⟨fun sock => ?_, fun sock prefixLen data hpre hdata => ?_⟩
  · obtain ⟨s, P, hrun, hs⟩ := streamCreate_spec hP₀ sock
    exact ⟨s, P, hrun, fun ops hops => start_counted_iff hs.extends_.ok hs.outBuf hs.dataIn hops⟩
  · have hpre' : prefixLen.length ≤ cfgHttpBufSize := by
      rw [hpre]
      decide
    obtain ⟨s, P, hrun, hext, hcarries, -⟩ :=
      newTransactionStream_spec hP₀ sock prefixLen data hpre' hdata
    have h0 := newTransactionStream_dataIn hrun hP₀
    exact ⟨s, P, hrun, fun ops hops => start_counted_iff hext.ok hcarries.outBuf h0 hops⟩

/-- A stream from an empty pool: nothing has come yet. -/
theorem dataIn_counts_iff_eagain :
    ∃ s P, streamCreate 5 (memModuleInit fun _ _ => 0) = .ok (s, P) ∧
      Along step Counted (start s P) [.feed [.eintr, .eagain], .clear] := by
  obtain ⟨s, P, hrun, hcount⟩ := (dataIn_counts_iff (memModuleInit_ok fun _ _ => 0)).1 5
  refine ⟨s, P, hrun, (hcount _ ?_).2.2 ?_⟩
  · exact ⟨trivial, fun _ _ => ⟨trivial, fun _ _ => trivial⟩⟩
  · refine ⟨?_, fun _ _ => ⟨trivial, fun _ _ => trivial⟩⟩
    rintro ⟨-, -, c, hc⟩
    cases hc

/-- What a `read` of one byte gives. -/
def oneByte : Chunk := ⟨[7], by decide, by decide⟩

/-- One byte comes, and `data_in` is 0. -/
theorem dataIn_misses :
    ∃ s P u, streamCreate 5 (memModuleInit fun _ _ => 0) = .ok (s, P) ∧
      run step (start s P) [.feed [.data oneByte]] = .ok u ∧
      u.appended = 1 ∧ u.stream.dataIn = 0 ∧
      ¬ Along step Counted (start s P) [.feed [.data oneByte]] := by
  obtain ⟨s, P, hcreate, hs⟩ := streamCreate_spec (memModuleInit_ok fun _ _ => 0) 5
  have hlen : s.outBuf.dataLen = 0 := by simpa using hs.outBuf.length.symm
  have hfree : 0 < bufFreeSpace s.outBuf := by
    rw [(hs.outBuf.freeSpace hs.extends_.ok).1, hs.outLen, hlen]
    decide
  have hsock : 0 ≤ s.serverSock := by
    rw [hs.sock]
    decide
  obtain ⟨P', hfeed, -⟩ :=
    feedOnce_data hs.extends_.ok hs.outBuf 0 oneByte (by rw [hlen, hs.outLen]; decide)
  have hfirst : firstRead [.data oneByte] = .data oneByte := rfl
  have hstep : step (start s P) (.feed [.data oneByte]) =
      .ok ⟨{ s with outBuf := { s.outBuf with dataLen := s.outBuf.dataLen + 1 } }, P', 1⟩ := by
    rw [step, start, streamFeedOut_eq hsock hfree, hfirst, hfeed]
    simp [hlen, oneByte]
  refine ⟨s, P, _, hcreate, run_cons_ok hstep [], rfl, hs.dataIn, ?_⟩
  rintro ⟨-, hrest⟩
  have hcounted : s.dataIn = 1 := hrest _ hstep
  rw [hs.dataIn] at hcounted
  exact absurd hcounted (by decide)

end Jujube
