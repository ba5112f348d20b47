import Jujube.ServerFraming

/-!
# From `stream_create` to the release of a stream

A stream is made by the client or for an accepted connection, used, and ended by
`free_transaction_stream` or `close_stream`, whichever comes first.  What the pool held before it
is what it holds after it (`Restored`).

On the client's side the stream is used by any sequence of `stream_flush_out` and
`stream_feed_out`; on the server's side by any run of `data_transfer`, which may also end it.
-/

namespace Jujube

open Bytes Pool Transition

variable {P₀ P P' : Pool} {s : TcpStream} {q : List UInt8}

/-- The live blocks are those of `P₀`, with the same contents, and so are the counts of them. -/
structure Restored (P₀ P : Pool) : Prop where
  ok : P.Ok
  live : P.live = P₀.live
  blocksUsed : ∀ i < memTypeMax, (P.memStat i).blocksUsed = (P₀.memStat i).blocksUsed

theorem Restored.of_live (hP₀ : P₀.Ok) (hP : P.Ok) (hl : P.live = P₀.live) : Restored P₀ P :=
  ⟨hP, hl, fun _ hi => hP₀.blocksUsed_eq hP hl hi⟩

/-! ### The end of a stream -/

/-- Giving back what the pool has beyond `P₀`. -/
theorem memFreeStream_restores (hP₀ : P₀.Ok) (h : P₀.Extends P s.footprint) :
    ∃ P', memFreeStream s P = .ok P' ∧ Restored P₀ P' := by
  obtain ⟨P', hrun, hP', hlive⟩ := memFreeStream_spec h.ok h.owned
  refine ⟨P', hrun, .of_live hP₀ hP' ?_⟩
  rw [hlive]
  funext p
  split_ifs with hp
  · exact (h.new p hp).symm
  · exact h.frame p hp

/-- The two ways to end a stream do the same to the pool, whatever the slot and the epoll set. -/
structure TcpStream.Returns (P₀ P : Pool) (s : TcpStream) : Prop where
  freed : ∃ P', freeTransactionStream s P = .ok P' ∧ Restored P₀ P'
  closed : ∀ i ev K, ∃ ev' K' P', closeStream i s ev K P = .ok (ev', K', P') ∧ Restored P₀ P'

theorem TcpStream.Returns.of_extends (hP₀ : P₀.Ok) (h : P₀.Extends P s.footprint) :
    s.Returns P₀ P := by
  obtain ⟨P', hrun, hP'⟩ := memFreeStream_restores hP₀ h
  constructor
  · exact ⟨P', (freeTransactionStream_eq s P).trans hrun, hP'⟩
  · intro i ev K
    by_cases hsock : 0 ≤ s.serverSock
    · have hclose : closeStream i s ev K P = .ok ((eventdel i ev K).1,
          (eventdel i ev K).2.close (eventdel i ev K).1.fd, P') := by
        simp only [closeStream, if_pos hsock, hrun, ok_bind, pure_eq_ok]
      exact ⟨_, _, P', hclose, hP'⟩
    · have hclose : closeStream i s ev K P = .ok (ev, K, P') := by
        simp only [closeStream, if_neg hsock, hrun, ok_bind, pure_eq_ok]
      exact ⟨_, _, P', hclose, hP'⟩

/-! ### The client's side -/

/-- A stream that holds what the pool has beyond `P₀`, and bytes in its buffers. -/
structure TcpStream.Alone (P₀ P : Pool) (s : TcpStream) : Prop where
  ext : P₀.Extends P s.footprint
  carries : ∃ toSend held, s.inBuf.Holds P toSend ∧ s.outBuf.Holds P held

/-- What is done with a stream. -/
inductive StreamOp
  | flush (size : ℤ) (writes : List WriteResult)
  | feed (reads : List ReadResult)

/-- A stream and the pool. -/
structure StreamUse where
  stream : TcpStream
  pool : Pool

namespace StreamUse

/-- `stream_flush_out` or `stream_feed_out` -/
def step (u : StreamUse) : StreamOp → Except Fault StreamUse
  | .flush size writes => do
    let f ← streamFlushOut u.stream size writes u.pool
    return ⟨f.stream, f.pool⟩
  | .feed reads => do
    let (_, s, P) ← streamFeedOut u.stream reads u.pool
    return ⟨s, P⟩

/-- A size is an `int`. -/
def Allowed (_ : StreamUse) : StreamOp → Prop
  | .flush size _ => IsInt size
  | .feed _ => True

variable {u : StreamUse} {op : StreamOp}

/-- Neither function takes a block or gives one up. -/
theorem step_alone (h : u.stream.Alone P₀ u.pool) (hop : u.Allowed op) :
    ∃ u', u.step op = .ok u' ∧ u'.stream.Alone P₀ u'.pool := by
  obtain ⟨toSend, held, hin, hout⟩ := h.carries
  have hnodup := h.ext.owned.nodup
  cases op with
  | flush size writes =>
    by_cases hsock : u.stream.serverSock < 0
    · exact ⟨u, by simp [step, streamFlushOut, hsock], h⟩
    · obtain ⟨f, hrun, hf⟩ := streamFlushOut_spec h.ext.ok hin (not_lt.1 hsock) hop writes
      refine ⟨⟨f.stream, f.pool⟩, by simp [step, hrun], ?_, _, held, hf.holds, ?_⟩
      · rw [hf.stream]
        exact h.ext.swap (l := []) hf.ok hf.swaps
      · rw [hf.stream]
        refine hout.of_live_eq (hf.swaps.live_of_ne_self ?_)
        simp only [TcpStream.footprint, List.nodup_cons, List.mem_cons, not_or] at hnodup
        exact fun heq => hnodup.1.2.1 heq.symm
  | feed reads =>
    obtain ⟨r, s', P', hrun, hfed⟩ := streamFeedOut_fed h.ext.ok hout reads
    obtain ⟨held', H'⟩ := hfed.holds
    refine ⟨⟨s', P'⟩, by simp [step, hrun], ?_, toSend, held', ?_, H'⟩
    · rw [hfed.footprint]
      exact h.ext.swap (l := [u.stream.inBuf.buffer, u.stream.inBuf.self]) hfed.ok hfed.swaps
    · obtain ⟨n, i, z, hs'⟩ := hfed.stream
      rw [hs']
      refine hin.of_live_eq (hfed.swaps.live_of_ne_self ?_)
      simp only [TcpStream.footprint, List.nodup_cons, List.mem_cons, not_or] at hnodup
      exact hnodup.1.2.1

theorem run_alone (h : u.stream.Alone P₀ u.pool) {ops : List StreamOp}
    (hops : Steps step Allowed u ops) :
    ∃ u', run step u ops = .ok u' ∧ u'.stream.Alone P₀ u'.pool :=
  exists_run (I := fun u : StreamUse => u.stream.Alone P₀ u.pool)
    (fun _ _ h hop => step_alone h hop) h hops

end StreamUse

/-- However a stream is used, its end restores the pool. -/
theorem TcpStream.Alone.returns (hP₀ : P₀.Ok) (h : s.Alone P₀ P) {ops : List StreamOp}
    (hops : Steps StreamUse.step StreamUse.Allowed ⟨s, P⟩ ops) :
    ∃ u, run StreamUse.step ⟨s, P⟩ ops = .ok u ∧ u.stream.Returns P₀ u.pool := by
  obtain ⟨u, hrun, hu⟩ := StreamUse.run_alone (u := ⟨s, P⟩) h hops
  exact ⟨u, hrun, .of_extends hP₀ hu.ext⟩

/-! ### The server's side -/

/-- A connection that is closed has restored the pool; one that is open restores it when it is
closed, for instance after a timeout. -/
theorem Server.Sim.restores (hP₀ : P₀.Ok) {c : Server} {t : Decoder} (h : c.Sim P₀ t) :
    c.workBuffs ≤ 1 ∧ ((c.stream = none ∧ Restored P₀ c.pool) ∨
      ∃ c', c.closeStream = .ok c' ∧ c'.stream = none ∧ Restored P₀ c'.pool) := by
  cases h with
  | served quiet hopen _ =>
    obtain ⟨c', hclose, hclosed, -⟩ := Server.closeStream_spec hopen
    have htally : c.tally ≤ (1, 1) := quiet.tally ▸ t.tally_le
    exact ⟨htally.1,
      .inr ⟨c', hclose, hclosed.stream, .of_live hP₀ hclosed.ok hclosed.live⟩⟩
  | closed hclosed _ honce =>
    exact ⟨honce.1, .inl ⟨hclosed.stream, .of_live hP₀ hclosed.ok hclosed.live⟩⟩

/-- **A stream returns all its memory exactly once.**  A stream that the client makes, or that is
made for a connection, is used in any way and then ended in either way: the blocks in use are those
from before it was made.  So they are after any run of an accepted connection, once it is closed,
unless the `assert` that `out_buf` is empty has stopped the server; the run calls `alloc_work_buff`
at most once and follows no pointer to anything that was freed. -/
theorem stream_returns_memory (hP₀ : P₀.Ok) :
    (∀ sock prefixLen data, prefixLen.length = 8 → cfgHttpBufSize + data.length ≤ maxExtMemBlock →
      ∃ s P, newTransactionStream sock prefixLen data P₀ = .ok (s, P) ∧
        ∀ ops, Steps StreamUse.step StreamUse.Allowed ⟨s, P⟩ ops →
          ∃ u, run StreamUse.step ⟨s, P⟩ ops = .ok u ∧ u.stream.Returns P₀ u.pool) ∧
    (∀ sock, ∃ s P, streamCreate sock P₀ = .ok (s, P) ∧
        ∀ ops, Steps StreamUse.step StreamUse.Allowed ⟨s, P⟩ ops →
          ∃ u, run StreamUse.step ⟨s, P⟩ ops = .ok u ∧ u.stream.Returns P₀ u.pool) ∧
    (∀ c : Server, c.Accepted P₀ → ∀ es, c.run es = .error ⟨.assertFailed .serverOutBufEmpty, []⟩ ∨
      ∃ c', c.run es = .ok c' ∧ c'.workBuffs ≤ 1 ∧ ((c'.stream = none ∧ Restored P₀ c'.pool) ∨
        ∃ c'', c'.closeStream = .ok c'' ∧ c''.stream = none ∧ Restored P₀ c''.pool)) := by
  refine ⟨fun sock prefixLen data hpre hdata => ?_, fun sock => ?_, fun c hc es => ?_⟩
  · have hpre' : prefixLen.length ≤ cfgHttpBufSize := by
      rw [hpre]
      decide
    obtain ⟨s, P, hrun, hext, hcarries, -⟩ :=
      newTransactionStream_spec hP₀ sock prefixLen data hpre' hdata
    have hs : s.Alone P₀ P := ⟨hext, _, _, hcarries.inBuf, hcarries.outBuf⟩
    exact ⟨s, P, hrun, fun ops hops => hs.returns hP₀ hops⟩
  · obtain ⟨s, P, hrun, hcreated⟩ := streamCreate_spec hP₀ sock
    have hs : s.Alone P₀ P := ⟨hcreated.extends_, _, _, hcreated.inBuf, hcreated.outBuf⟩
    exact ⟨s, P, hrun, fun ops hops => hs.returns hP₀ hops⟩
  · rcases Server.run_cases hc es with ⟨c', t, hrun, -, hsim⟩ | ⟨hrun, -⟩
    · exact .inr ⟨c', hrun, hsim.restores hP₀⟩
    · exact .inl hrun

/-- A stream is made from an empty pool, interrupted once, and freed. -/
theorem stream_returns_memory_empty :
    ∃ s P u P', newTransactionStream 5 (le 8 3) [1, 2, 3] (memModuleInit fun _ _ => 0) =
        .ok (s, P) ∧
      run StreamUse.step ⟨s, P⟩ [.flush (-1) [.eintr, .accept 1], .feed []] = .ok u ∧
      freeTransactionStream u.stream u.pool = .ok P' ∧
      ∀ i < memTypeMax, (P'.memStat i).blocksUsed = 0 := by
  obtain ⟨s, P, hrun, huse⟩ :=
    (stream_returns_memory (memModuleInit_ok fun _ _ => 0)).1 5 (le 8 3) [1, 2, 3] rfl (by decide)
  obtain ⟨u, hu, hreturns⟩ := huse [.flush (-1) [.eintr, .accept 1], .feed []]
    ⟨⟨by norm_num, by norm_num⟩, fun _ _ => ⟨trivial, fun _ _ => trivial⟩⟩
  obtain ⟨P', hfree, hP'⟩ := hreturns.freed
  exact ⟨s, P, u, P', hrun, hu, hfree, hP'.blocksUsed⟩

end Jujube
