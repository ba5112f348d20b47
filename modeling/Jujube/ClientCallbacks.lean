import Jujube.ClientTable
import Jujube.StreamFlush

/-!
# The callbacks of the client

What each callback does to the slot it is called for: the slot goes on serving its transaction, or
the transaction is given up with all that it owns.  `release_spec` is the second case, `reslot` the
first; which one `data_transfer` comes to depends on the event and on how much there is to write
(`Event.LeavesOpen`).  The timeout of `expires_house_keeping` gives up everything but the connection
record.
-/

namespace Jujube

open Bytes Pool Connections Ownership

variable {x : Transaction} {i : ℕ} {v w : Client} {P : Pool} {s : TcpStream} {q : List UInt8}

namespace Transaction.Attached

theorem conn (h : x.Attached i w) :
    w.conn (w.gEvents i).jc = .ok (x.jc, w.conns.jconnects x.jc) := by
  rw [Client.conn, h.jc, deref_some, ok_bind, get_of_mem h.allocated, ok_bind, pure_eq_ok]

theorem fetchStream (h : x.Attached i w) :
    w.stream (w.conns.jconnects x.jc).stream = .ok x.stream := by
  rw [Client.stream, h.connStream, deref_some, ok_bind, h.stream, fetch_some]

/-- The slot and what is registered for its descriptor were written. -/
theorem reslot (h : x.Attached i v) (ev : MyEvent) (K : Kernel) (hfd : ev.fd = (v.gEvents i).fd)
    (hjc : ev.jc = (v.gEvents i).jc) (hreg : ev.Registered i K)
    (hopened : K.opened = v.kernel.opened)
    (hK : ∀ f ≠ x.stream.serverSock, K.interest f = v.kernel.interest f) :
    x.Attached i { v.setEvent i ev with kernel := K } ∧
      Client.Within (slotOwn i (some x)) v { v.setEvent i ev with kernel := K } := by
  have hslot : ({ v.setEvent i ev with kernel := K } : Client).gEvents i = ev :=
    Function.update_self _ _ _
  refine ⟨⟨h.slot, ?_, ?_, h.nonneg, ?_, h.allocated, h.connFd, h.connStream, h.stream, h.owned⟩,
    Client.frame_of (fun j hj => ?_) (fun f hf => ⟨by rw [hopened], hK f hf⟩)
      (fun _ _ => ⟨Iff.rfl, rfl⟩) (fun _ _ => ⟨rfl, rfl⟩), rfl, rfl, rfl, fun _ hc => hc⟩
  · rw [hslot]
    exact hreg
  · rw [hslot, hfd, h.fd]
  · rw [hslot, hjc, h.jc]
  · exact Function.update_of_ne hj _ _

/-- `event_reset_cb` -/
theorem eventResetCb (h : x.Attached i v) (cb : Callback) :
    x.Attached i (v.eventResetCb i cb) ∧
      Client.Within (slotOwn i (some x)) v (v.eventResetCb i cb) :=
  h.reslot (Jujube.eventResetCb cb (v.gEvents i)) v.kernel rfl rfl
    ⟨h.reg.status, h.reg.opened, h.reg.interest⟩ rfl fun _ _ => rfl

/-- `eventadd` on a slot that is registered -/
theorem eventadd (h : x.Attached i v) (m : Mask) (now : ℤ) :
    x.Attached i (v.eventadd i m now) ∧
      Client.Within (slotOwn i (some x)) v (v.eventadd i m now) := by
  refine h.reslot (Jujube.eventadd i m now (v.gEvents i) v.kernel).1 _ rfl rfl
    (eventadd_registered (.inl h.reg)) (by simp) fun f hf => ?_
  have hne : f ≠ (v.gEvents i).fd := fun heq => hf (heq.trans h.fd)
  have hint := @eventadd_interest i (v.gEvents i) v.kernel m now (.inl h.reg)
  exact (congrFun hint f).trans (Function.update_of_ne hne _ _)

/-- The stream was written, and with it blocks that are its own. -/
theorem setStream (h : x.Attached i v) (hself : s.self = x.stream.self)
    (hsock : s.serverSock = x.stream.serverSock)
    (hown : P.Owned s.footprint) (hlive : ∀ p ∉ x.stream.footprint, P.live p = v.pool.live p) :
    Attached ⟨x.jc, s⟩ i ({ v with pool := P }.setStream s) ∧
      Client.Within (slotOwn i (some x)) v ({ v with pool := P }.setStream s) := by
  refine ⟨⟨h.slot, h.reg, h.fd.trans hsock.symm, hsock ▸ h.nonneg, h.jc, h.allocated,
      h.connFd.trans hsock.symm, ?_, Function.update_self _ _ _, hown⟩,
    Client.frame_of (fun _ _ => rfl) (fun _ _ => ⟨Iff.rfl, rfl⟩) (fun _ _ => ⟨Iff.rfl, rfl⟩)
      (fun p hp => ⟨hlive p hp, ?_⟩), rfl, rfl, rfl, fun _ hc => hc⟩
  · exact h.connStream.trans (congrArg some hself.symm)
  · apply Function.update_of_ne
    rintro rfl
    exact hp (hself ▸ x.stream.self_mem_footprint)

/-- The record was written, but for its descriptor and its stream. -/
theorem reconn (h : x.Attached i v) {c : Jconnect} (hfd : c.fd = (v.conns.jconnects x.jc).fd)
    (hstream : c.stream = (v.conns.jconnects x.jc).stream) (hest : c.Established) :
    x.Attached i { v with conns := { v.conns with
        jconnects := Function.update v.conns.jconnects x.jc c } } ∧
      Client.Within (slotOwn i (some x)) v { v with conns := { v.conns with
        jconnects := Function.update v.conns.jconnects x.jc c } } := by
  refine ⟨⟨h.slot, h.reg, h.fd, h.nonneg, h.jc, h.allocated, ?_, ?_, h.stream, h.owned⟩,
    Client.frame_of (fun _ _ => rfl) (fun _ _ => ⟨Iff.rfl, rfl⟩)
      (fun jc hjc => ⟨Iff.rfl, Function.update_of_ne hjc _ _⟩) (fun _ _ => ⟨rfl, rfl⟩), rfl, rfl,
    rfl, fun jc hc => ?_⟩
  · simp only [Function.update_self]
    exact hfd.trans h.connFd
  · simp only [Function.update_self]
    exact hstream.trans h.connStream
  · by_cases hjc : jc = x.jc
    · simpa [hjc] using hest
    · simpa [hjc] using hc

/-- `stream_flush_out` was called: the stream is shorter by what the calls of `write` took. -/
theorem flush (h : x.Attached i w) (hcarries : x.stream.Carries w.pool q [] []) (hP : w.pool.Ok)
    (writes : List WriteResult) :
    ∃ f : Flush, streamFlushOut x.stream (-1) writes w.pool = .ok f ∧
      Wrote x.stream w.pool q 0 q.length writes f.calls f ∧
      Attached ⟨x.jc, f.stream⟩ i ({ w with pool := f.pool }.setStream f.stream) ∧
      Client.Within (slotOwn i (some x)) w ({ w with pool := f.pool }.setStream f.stream) ∧
      slotOwn i (some ⟨x.jc, f.stream⟩) = slotOwn i (some x) ∧
      f.stream.Carries f.pool (q.drop (writeTaken q.length writes)) [] [] := by
  obtain ⟨f, hflush, hf⟩ := streamFlushOut_all hP hcarries.inBuf h.nonneg writes
  have hfoot : f.stream.footprint = x.stream.footprint := by
    rw [hf.stream]
    rfl
  have hown : f.pool.Owned f.stream.footprint := by
    rw [hfoot]
    exact h.owned.swap (l := []) hf.swaps
  obtain ⟨h₁, hf₁⟩ := h.setStream (by rw [hf.stream]) (by rw [hf.stream]) hown fun p hp =>
    hf.swaps.live_of_ne_self fun hpq => hp (by simp [TcpStream.footprint, hpq])
  refine ⟨f, hflush, hf, h₁, hf₁, slotOwn_congr rfl (by rw [hf.stream]) hfoot, ?_⟩
  have hholds := hf.holds
  rw [hf.stream] at hholds ⊢
  exact hcarries.set_inBuf h.owned.nodup hf.swaps hholds

end Transaction.Attached

namespace Client

/-- A slot is written and registered: it is on its descriptor, which nobody else had registered. -/
theorem setEvent_eventadd {ev : MyEvent}
    (h : ev.Registered i w.kernel ∨ ev.status ≠ 1 ∧ ev.fd ∈ w.kernel.opened ∧
      w.kernel.interest ev.fd = none) (m : Mask) (now : ℤ) :
    ∃ (ev' : MyEvent) (K : Kernel), (w.setEvent i ev).eventadd i m now = { w with
        kernel := K
        gEvents := Function.update w.gEvents i ev' } ∧
      ev' = { ev with lastActive := now, events := m, status := 1 } ∧ ev'.Registered i K ∧
      K.opened = w.kernel.opened ∧ ∀ f ≠ ev.fd, K.interest f = w.kernel.interest f := by
  have hreg := @eventadd_registered i ev w.kernel m now h
  have hint := @eventadd_interest i ev w.kernel m now h
  obtain ⟨y, hy⟩ : ∃ y, y = Jujube.eventadd i m now ev w.kernel := ⟨_, rfl⟩
  refine ⟨y.1, y.2, ?_, by rw [hy, eventadd_fst], hy ▸ hreg, by rw [hy, eventadd_opened],
    fun f hf => ?_⟩
  · simp only [Client.eventadd, Client.setEvent, Function.update_self, ← hy, Function.update_idem]
  · rw [hy, hint, Function.update_of_ne hf]

/-- What is left when the transaction of slot `i` was given up. -/
theorem handled_none {K : Set Resource} (hw : Within (slotOwn i (some x)) v w) (hP : w.pool.Ok)
    (hstatus : (w.gEvents i).status = 0)
    (hinterest : w.kernel.interest x.stream.serverSock = none)
    (hconn : .conn x.jc ∈ K → x.jc ∉ w.conns.allocated)
    (hblock : ∀ p ∈ x.stream.footprint, w.pool.live p = none) : Handled K x i none v w := by
  refine ⟨hw, hP, slotOwn_none_subset _, hstatus, fun r hr hK hused => ?_⟩
  cases r with
  | slot j => exact absurd hused id
  | fd f =>
    obtain ⟨k, m, hkm⟩ := hused
    rw [fd_mem_slotOwn_some.1 hr, hinterest] at hkm
    cases hkm
  | conn jc =>
    rw [conn_mem_slotOwn_some] at hr
    subst hr
    exact absurd hused (hconn hK)
  | block p => exact absurd (hblock p (block_mem_slotOwn_some.1 hr)) hused

/-- What is left when slot `i` goes on serving a transaction that owns the same. -/
theorem handled_some {y : Transaction} {K : Set Resource} (hw : Within (slotOwn i (some x)) v w)
    (hP : w.pool.Ok) (hown : slotOwn i (some y) = slotOwn i (some x)) (hserves : y.Serves i w) :
    Handled K x i (some y) v w :=
  ⟨hw, hP, hown.subset, hserves, fun _ hr _ _ => hown ▸ hr⟩

/-- **`release_stream_from_connect` of a bad connection** gives up the transaction and all that it
owns. -/
theorem release_spec (h : x.Attached i w) (hP : w.pool.Ok) (now : ℤ) :
    ∃ w', w.releaseStreamFromConnect i badConnect now = .ok w' ∧
      Handled Set.univ x i none w w' := by
  obtain ⟨P', hfree, hP', hlive⟩ := memFreeStream_spec hP h.owned
  have hfree' : freeTransactionStream x.stream w.pool = .ok P' :=
    (freeTransactionStream_eq _ _).trans hfree
  have hset := set_of_mem (C := w.conns) h.allocated
    { w.conns.jconnects x.jc with stream := none, isAlive := false, status := .connClose }
  set C₁ : Connections := { w.conns with
    jconnects := Function.update w.conns.jconnects x.jc
      { w.conns.jconnects x.jc with stream := none, isAlive := false, status := .connClose } }
    with hC₁
  have hdel := eventdel_of_registered h.reg
  set K₁ : Kernel := w.kernel.watch (w.gEvents i).fd none h.reg.opened with hK₁
  have hsock : (C₁.jconnects x.jc).fd = x.stream.serverSock := by
    simp [hC₁, h.connFd]
  have hjc₁ : x.jc ∈ C₁.allocated := h.allocated
  obtain ⟨n, hrel⟩ := releaseConnection_dead (K := K₁) hjc₁ (by simp [hC₁])
  have hclose : K₁.close x.stream.serverSock = w.kernel.close x.stream.serverSock := by
    rw [← h.fd]
    exact Kernel.close_watch h.reg.opened
  rw [hsock, hclose] at hrel
  refine ⟨{ w with
    kernel := w.kernel.close x.stream.serverSock
    pool := P'
    streams := Function.update w.streams x.stream.self none
    conns := { C₁ with
      allocated := C₁.allocated.erase x.jc
      jconnects := Function.update C₁.jconnects x.jc { C₁.jconnects x.jc with requests := n }
      connectPool := C₁.connectPool.dec }
    gEvents := Function.update w.gEvents i { w.gEvents i with status := 0 } }, ?_,
    handled_none ⟨frame_of (fun j hj => ?_) (fun f hf => ?_) (fun jc hjc => ?_) fun p hp => ?_, rfl,
      rfl, rfl, fun jc hest => ?_⟩ hP' ?_ ?_ ?_ ?_⟩
  · simp only [releaseStreamFromConnect, h.conn, ok_bind, h.connStream, h.stream, fetch_some,
      hfree', pure_eq_ok, badConnect, if_true, Client.setConn, hset, Client.eventdel,
      Client.setEvent, hdel, hrel]
  · exact Function.update_of_ne hj _ _
  · simp [hf]
  · refine ⟨by simp [hC₁, hjc], ?_⟩
    simp [hC₁, hjc]
  · refine ⟨by simp [hlive, hp], Function.update_of_ne ?_ _ _⟩
    rintro rfl
    exact hp x.stream.self_mem_footprint
  · by_cases hjc : jc = x.jc
    · rw [hjc]
      simp [Jconnect.Established, hC₁]
    · simpa [hC₁, hjc] using hest
  · simp
  · simp
  · simp
  · intro p hp
    simp [hlive, hp]

/-- A slot keeps its connection when it is released. -/
theorem releaseStreamFromConnect_jc {b : Bool} {now : ℤ}
    (h : w.releaseStreamFromConnect i b now = .ok v) (k : ℕ) :
    (v.gEvents k).jc = (w.gEvents k).jc := by
  unfold releaseStreamFromConnect at h
  obtain ⟨⟨jc, c⟩, -, h⟩ := bind_eq_ok.1 h
  obtain ⟨w₁, hfree, h⟩ := bind_eq_ok.1 h
  have hw₁ : w₁.gEvents = w.gEvents := by
    revert hfree
    cases c.stream with
    | none =>
      intro hfree
      cases hfree
      rfl
    | some p =>
      intro hfree
      obtain ⟨s, -, hfree⟩ := bind_eq_ok.1 hfree
      obtain ⟨P, -, hfree⟩ := bind_eq_ok.1 hfree
      cases hfree
      rfl
  obtain ⟨w₂, hset, h⟩ := bind_eq_ok.1 h
  obtain ⟨⟨C, K⟩, -, h⟩ := bind_eq_ok.1 h
  cases h
  show (w₂.gEvents k).jc = _
  rw [← hw₁]
  have hslot : ∀ ev : MyEvent, ev.jc = (w₁.gEvents i).jc →
      (Function.update w₁.gEvents i ev k).jc = (w₁.gEvents k).jc := by
    intro ev hev
    by_cases hki : k = i
    · rw [hki, Function.update_self, hev]
    · rw [Function.update_of_ne hki]
  cases b with
  | true =>
    obtain ⟨w₃, hconn, hdel⟩ := bind_eq_ok.1 hset
    obtain ⟨C', -, hC'⟩ := bind_eq_ok.1 hconn
    cases hC'
    cases hdel
    exact hslot _ eventdel_jc
  | false =>
    obtain ⟨w₃, hconn, hadd⟩ := bind_eq_ok.1 hset
    obtain ⟨C', -, hC'⟩ := bind_eq_ok.1 hconn
    cases hC'
    cases hadd
    simp only [Client.eventadd, Client.eventResetCb, Client.setEvent, eventadd_fst,
      Function.update_self, Function.update_idem]
    exact hslot _ rfl

/-! ### The callbacks -/

/-- Slot `i` goes on with the transaction `x` of `v`, and has `q` left to write. -/
def Goes (q : List UInt8) (x y : Transaction) (i : ℕ) (v w : Client) : Prop :=
  Handled Set.univ x i (some y) v w ∧ slotOwn i (some y) = slotOwn i (some x) ∧
    y.stream.self = x.stream.self ∧ y.stream.Carries w.pool q [] []

/-- `connect_cb`, run on what the slot serves. -/
theorem connectCb_eq (h : x.Attached i w) (e : Event) :
    w.connectCb i e =
      if e.writeEvent = false then w.releaseStreamFromConnect i badConnect e.now
      else .ok ((w.eventResetCb i .dataTransfer).eventadd i ⟨false, true⟩ e.now) := by
  have hassert : assert .connectCbSock ((w.gEvents i).fd = x.stream.serverSock) = .ok () :=
    assert_of h.fd
  simp only [connectCb, h.conn, h.fetchStream, ok_bind, hassert, pure_eq_ok]

/-- `connect_cb` when the connection was made -/
theorem connectCb_goes (h : x.Serves i w) (hcarries : x.stream.Carries w.pool q [] [])
    (hP : w.pool.Ok) {e : Event} (hwrite : e.writeEvent = true) :
    ∃ w', w.connectCb i e = .ok w' ∧ Goes q x x i w w' ∧
      (w'.gEvents i).callBack = some .dataTransfer := by
  obtain ⟨h₁, hf₁⟩ := h.eventResetCb .dataTransfer
  obtain ⟨h₂, hf₂⟩ := h₁.eventadd ⟨false, true⟩ e.now
  have hcb : (((w.eventResetCb i .dataTransfer).eventadd i ⟨false, true⟩ e.now).gEvents
      i).callBack = some .dataTransfer := by
    simp [Client.eventadd, Client.eventResetCb, Client.setEvent, Jujube.eventResetCb]
  refine ⟨(w.eventResetCb i .dataTransfer).eventadd i ⟨false, true⟩ e.now, ?_,
    ⟨handled_some (hf₁.trans hf₂) hP rfl ⟨h₂, .inr hcb, ?_, h.carries⟩, rfl, rfl, hcarries⟩, hcb⟩
  · rw [connectCb_eq h.toAttached, if_neg (by simp [hwrite])]
  · simp [Client.eventadd, Client.setEvent]

/-- `connect_cb` -/
theorem connectCb_spec (h : x.Serves i w) (hP : w.pool.Ok) (e : Event) :
    ∃ w' o, w.connectCb i e = .ok w' ∧ Handled Set.univ x i o w w' := by
  by_cases hwrite : e.writeEvent = true
  · obtain ⟨q, -, hcarries⟩ := h.carries
    obtain ⟨w', hrun, hw', -⟩ := connectCb_goes h hcarries hP hwrite
    exact ⟨w', some x, hrun, hw'.1⟩
  · obtain ⟨w', hrun, hhandled⟩ := release_spec h.toAttached hP e.now
    refine ⟨w', none, ?_, hhandled⟩
    rw [connectCb_eq h.toAttached, if_pos (by simpa using hwrite), hrun]

end Client

/-- The calls of `write` for `n` bytes leave something to write: none fails, and they do not take
all. -/
def LeavesSome (n : ℕ) (writes : List WriteResult) : Prop :=
  writeFails n writes = false ∧ writeTaken n writes < n

instance (n : ℕ) (writes : List WriteResult) : Decidable (LeavesSome n writes) := by
  unfold LeavesSome
  infer_instance

/-- After `data_transfer`, called with `n` bytes to write, the transaction is still under way. -/
def Event.LeavesOpen (e : Event) (n : ℕ) : Prop :=
  e.readEvent = false ∧ e.writeEvent = true ∧ LeavesSome n e.writes

instance (e : Event) (n : ℕ) : Decidable (e.LeavesOpen n) := by
  unfold Event.LeavesOpen
  infer_instance

namespace Client

theorem setConn_of_mem {jc : Ptr} (h : jc ∈ w.conns.allocated) (c : Jconnect) :
    w.setConn jc c = .ok { w with conns := { w.conns with
      jconnects := Function.update w.conns.jconnects jc c } } := by
  rw [setConn, set_of_mem h, ok_bind, pure_eq_ok]

/-- The part of `data_transfer` under `if (write_event)`, run on what the slot serves. -/
theorem writeStage_eq (h : x.Attached i w) {e : Event} {f : Flush}
    (hflush : streamFlushOut x.stream (-1) e.writes w.pool = .ok f) :
    w.writeStage i e =
      (if f.ret < 0 then
        ({ w with pool := f.pool }.setStream f.stream).releaseStreamFromConnect i badConnect e.now
          >>= fun w => .ok (true, w)
      else
        ({ w with pool := f.pool }.setStream f.stream).setConn x.jc
            { w.conns.jconnects x.jc with isAlive := true, status := .connEstab } >>= fun w =>
          if bufDataSize f.stream.inBuf = 0 then
            w.releaseStreamFromConnect i badConnect e.now >>= fun w => .ok (true, w)
          else .ok (false, w)) := by
  simp only [writeStage, h.conn, h.fetchStream, ok_bind, hflush, pure_eq_ok]

/-- The write leaves something: the transaction goes on with the rest. -/
theorem writeStage_goes (h : x.Serves i w) (hcarries : x.stream.Carries w.pool q [] [])
    (hP : w.pool.Ok) {e : Event} (he : LeavesSome q.length e.writes) :
    ∃ w' y, w.writeStage i e = .ok (false, w') ∧
      Goes (q.drop (writeTaken q.length e.writes)) x y i w w' ∧
      (w'.conns.jconnects x.jc).isAlive = true := by
  obtain ⟨f, hflush, hf, h₁, hf₁, hown, hcarries₁⟩ := h.flush hcarries hP e.writes
  obtain ⟨h₂, hf₂⟩ := h₁.reconn
    (c := { w.conns.jconnects x.jc with isAlive := true, status := .connEstab }) rfl rfl
    fun _ => rfl
  rw [hown] at hf₂
  have hret : ¬ f.ret < 0 := by
    rw [hf.result, if_neg (by simp [he.1])]
    omega
  have hlen := hcarries₁.inBuf.length
  rw [List.length_drop] at hlen
  have hsome : bufDataSize f.stream.inBuf ≠ 0 := by
    have := he.2
    unfold bufDataSize
    omega
  refine ⟨_, ⟨x.jc, f.stream⟩, ?_, ⟨handled_some (hf₁.trans hf₂) hf.ok hown
    ⟨h₂, h.callBack, h.epollout, _, List.ne_nil_of_length_pos ?_, hcarries₁⟩, hown, ?_,
      hcarries₁⟩, ?_⟩
  · rw [writeStage_eq h.toAttached hflush, if_neg hret, setConn_of_mem h₁.allocated, ok_bind,
      if_neg hsome]
  · rw [List.length_drop]
    have := he.2
    omega
  · rw [hf.stream]
  · show (Function.update w.conns.jconnects x.jc _ x.jc).isAlive = true
    rw [Function.update_self]

/-- The write fails or leaves nothing: the transaction is given up. -/
theorem writeStage_ends (h : x.Serves i w) (hcarries : x.stream.Carries w.pool q [] [])
    (hP : w.pool.Ok) {e : Event} (he : ¬ LeavesSome q.length e.writes) :
    ∃ w', w.writeStage i e = .ok (true, w') ∧ Handled Set.univ x i none w w' := by
  obtain ⟨f, hflush, hf, h₁, hf₁, hown, hcarries₁⟩ := h.flush hcarries hP e.writes
  have hresult := hf.result
  rw [writeStage_eq h.toAttached hflush]
  by_cases hfails : writeFails q.length e.writes = true
  · rw [if_pos hfails] at hresult
    obtain ⟨w', hrel, hhandled⟩ := release_spec h₁ hf.ok e.now
    exact ⟨w', by rw [if_pos (by omega), hrel, ok_bind], hhandled.after hown hf₁⟩
  · rw [if_neg hfails] at hresult
    obtain ⟨h₂, hf₂⟩ := h₁.reconn
      (c := { w.conns.jconnects x.jc with isAlive := true, status := .connEstab }) rfl rfl
      fun _ => rfl
    rw [hown] at hf₂
    have hall : ¬ writeTaken q.length e.writes < q.length := fun hlt =>
      he ⟨by simpa using hfails, hlt⟩
    have hlen := hcarries₁.inBuf.length
    rw [List.length_drop] at hlen
    have hempty : bufDataSize f.stream.inBuf = 0 := by
      unfold bufDataSize
      omega
    obtain ⟨w', hrel, hhandled⟩ := release_spec h₂ hf.ok e.now
    refine ⟨w', ?_, hhandled.after hown (hf₁.trans hf₂)⟩
    rw [if_neg (by omega), setConn_of_mem h₁.allocated, ok_bind, if_pos hempty]
    exact congrArg (· >>= _) hrel

/-- The part of `data_transfer` under `if (read_event)`: the transaction is given up. -/
theorem readStage_spec (h : x.Attached i w) (hcarries : x.stream.Carries w.pool q [] [])
    (hP : w.pool.Ok) (e : Event) :
    ∃ w', w.readStage i e = .ok w' ∧ Handled Set.univ x i none w w' := by
  obtain ⟨n, s, P, hrun, hfed⟩ := streamFeedOut_fed hP hcarries.outBuf e.reads
  have hfoot := hfed.footprint
  have hself : s.self = x.stream.self ∧ s.serverSock = x.stream.serverSock := by
    obtain ⟨m, i, z, hs⟩ := hfed.stream
    rw [hs]
    exact ⟨rfl, rfl⟩
  have hown : P.Owned s.footprint := by
    rw [hfoot]
    exact h.owned.swap (l := [x.stream.inBuf.buffer, x.stream.inBuf.self]) hfed.swaps
  obtain ⟨h₁, hf₁⟩ := h.setStream hself.1 hself.2 hown fun p hp =>
    hfed.swaps.live_of_ne_self fun hpq => hp (by simp [TcpStream.footprint, hpq])
  have hy : slotOwn i (some ⟨x.jc, s⟩) = slotOwn i (some x) := slotOwn_congr rfl hself.2 hfoot
  obtain ⟨w', hrel, hhandled⟩ := release_spec h₁ hfed.ok e.now
  refine ⟨w', ?_, hhandled.after hy hf₁⟩
  simp only [readStage, h.conn, h.fetchStream, ok_bind, hrun, hrel]

/-- `set_stream_event_in_out`: there is something to write, so the descriptor stays registered for
that. -/
theorem setStreamEventInOut_spec (h : x.Serves i w) (hcarries : x.stream.Carries w.pool q [] [])
    (hP : w.pool.Ok) (now : ℤ) :
    ∃ w', w.setStreamEventInOut i now = .ok w' ∧ Goes q x x i w w' ∧ w'.conns = w.conns := by
  obtain ⟨r, hr, hcarries'⟩ := id h.carries
  have hdata : 0 < bufDataSize x.stream.inBuf := by
    rw [bufDataSize, ← hcarries'.inBuf.length]
    exact List.length_pos_of_ne_nil hr
  have hassert : assert .eventStream ((w.conns.jconnects x.jc).stream ≠ none) = .ok () :=
    assert_of (by simp [h.connStream])
  have hsock : ¬ x.stream.serverSock < 0 := not_lt.2 h.nonneg
  let m : Mask := ⟨0 < bufFreeSpace x.stream.outBuf, 0 < bufDataSize x.stream.inBuf⟩
  obtain ⟨h₁, hf₁⟩ := h.eventadd m now
  refine ⟨w.eventadd i m now, ?_,
    ⟨handled_some hf₁ hP rfl ⟨h₁, ?_, ?_, h.carries⟩, rfl, rfl, hcarries⟩, rfl⟩
  · simp only [setStreamEventInOut, h.conn, h.fetchStream, ok_bind, hassert,
      Jujube.setStreamEventInOut, if_neg hsock, pure_eq_ok]
    rfl
  · simpa [Client.eventadd, Client.setEvent] using h.callBack
  · simp [Client.eventadd, Client.setEvent, m, hdata]

/-- `data_transfer`, run on what the slot serves. -/
theorem dataTransfer_eq (h : x.Attached i w) (e : Event) :
    w.dataTransfer i e =
      if e.readEvent = false ∧ e.writeEvent = false then
        w.releaseStreamFromConnect i badConnect e.now
      else
        (if e.writeEvent then w.writeStage i e else .ok (false, w)) >>= fun y =>
          if y.1 then .ok y.2
          else if e.readEvent then y.2.readStage i e
          else y.2.setStreamEventInOut i e.now := by
  have hassert : assert .clientSock ((w.gEvents i).fd = x.stream.serverSock) = .ok () :=
    assert_of h.fd
  simp only [dataTransfer, h.conn, h.fetchStream, ok_bind, hassert, pure_eq_ok]

/-- **`data_transfer` of an event that leaves the transaction open**: it goes on with what the calls
of `write` did not take. -/
theorem dataTransfer_goes (h : x.Serves i w) (hcarries : x.stream.Carries w.pool q [] [])
    (hP : w.pool.Ok) {e : Event} (he : e.LeavesOpen q.length) :
    ∃ w' y, w.dataTransfer i e = .ok w' ∧
      Goes (q.drop (writeTaken q.length e.writes)) x y i w w' ∧
      (w'.conns.jconnects x.jc).isAlive = true := by
  obtain ⟨hread, hwrite, hsome⟩ := he
  obtain ⟨v, y, hstage, ⟨hv, hown, hself, hcarries'⟩, halive⟩ := writeStage_goes h hcarries hP hsome
  obtain ⟨w', hset, ⟨hw', -, -, hcarries''⟩, hconns⟩ :=
    setStreamEventInOut_spec hv.holds hcarries' hv.pool e.now
  refine ⟨w', y, ?_, ⟨hw'.after hown hv.toWithin, hown, hself, hcarries''⟩, hconns ▸ halive⟩
  rw [dataTransfer_eq h.toAttached, if_neg (by simp [hwrite]), if_pos hwrite, hstage, ok_bind,
    if_neg (by simp), if_neg (by simp [hread]), hset]

/-- **`data_transfer` of any other event**: the transaction is given up, whatever is left of it. -/
theorem dataTransfer_ends (h : x.Serves i w) (hcarries : x.stream.Carries w.pool q [] [])
    (hP : w.pool.Ok) {e : Event} (he : ¬ e.LeavesOpen q.length) :
    ∃ w', w.dataTransfer i e = .ok w' ∧ Handled Set.univ x i none w w' := by
  rw [dataTransfer_eq h.toAttached]
  by_cases hnone : e.readEvent = false ∧ e.writeEvent = false
  · rw [if_pos hnone]
    exact release_spec h.toAttached hP e.now
  rw [if_neg hnone]
  by_cases hwrite : e.writeEvent = true
  · rw [if_pos hwrite]
    by_cases hsome : LeavesSome q.length e.writes
    · obtain ⟨v, y, hstage, ⟨hv, hown, -, hcarries'⟩, -⟩ := writeStage_goes h hcarries hP hsome
      have hy : y.Serves i v := hv.holds
      have hread : e.readEvent = true := by
        by_contra hread
        exact he ⟨by simpa using hread, hwrite, hsome⟩
      obtain ⟨w', hrest, hw'⟩ := readStage_spec hy.toAttached hcarries' hv.pool e
      exact ⟨w', by rw [hstage, ok_bind, if_neg (by simp), if_pos hread, hrest],
        hw'.after hown hv.toWithin⟩
    · obtain ⟨w', hstage, hw'⟩ := writeStage_ends h hcarries hP hsome
      exact ⟨w', by rw [hstage, ok_bind, if_pos rfl], hw'⟩
  · have hread : e.readEvent = true := by
      by_contra hread
      exact hnone ⟨by simpa using hread, by simpa using hwrite⟩
    rw [if_neg hwrite, ok_bind, if_neg (by simp), if_pos hread]
    exact readStage_spec h.toAttached hcarries hP e

/-- **The callback of a slot**, whatever is reported and whatever the system calls come to. -/
theorem callBack_spec (h : x.Serves i w) (hP : w.pool.Ok) (e : Event) :
    ∃ w' o, w.callBack i e = .ok w' ∧ Handled Set.univ x i o w w' := by
  unfold Client.callBack
  rcases h.callBack with hcb | hcb
  · rw [hcb]
    exact connectCb_spec h hP e
  · rw [hcb]
    obtain ⟨q, -, hcarries⟩ := h.carries
    by_cases he : e.LeavesOpen q.length
    · obtain ⟨w', y, hrun, ⟨hw', -⟩, -⟩ := dataTransfer_goes h hcarries hP he
      exact ⟨w', some y, hrun, hw'⟩
    · obtain ⟨w', hrun, hw'⟩ := dataTransfer_ends h hcarries hP he
      exact ⟨w', none, hrun, hw'⟩

/-! ### The timeout -/

/-- `expires_house_keeping` gives up the transaction of an idle slot, but not its record: nothing
refers to it then. -/
theorem expire_spec (h : x.Attached i w) (hP : w.pool.Ok) :
    ∃ w', (w.eventdel i).closeStream i = .ok w' ∧ w'.conns = w.conns ∧
      Handled {r | ∀ jc, r ≠ .conn jc} x i none w w' := by
  obtain ⟨ev, hev⟩ : ∃ ev : MyEvent, ev = { w.gEvents i with status := 0 } := ⟨_, rfl⟩
  have hdel := eventdel_of_registered h.reg
  rw [← hev] at hdel
  have hjc : ev.jc = some x.jc := by rw [hev, ← h.jc]
  have hstatus : ev.status = 0 := by rw [hev]
  obtain ⟨P', hclose, hP', hlive⟩ := closeStream_of_status
    (i := i) (K := w.kernel.watch (w.gEvents i).fd none h.reg.opened)
    (show ev.status ≠ 1 by simp [hstatus]) h.nonneg hP h.owned
  have hkernel : (w.kernel.watch (w.gEvents i).fd none h.reg.opened).close ev.fd =
      w.kernel.close x.stream.serverSock := by
    have hfd : ev.fd = (w.gEvents i).fd := by rw [hev]
    rw [hfd, Kernel.close_watch, h.fd]
  rw [hkernel] at hclose
  refine ⟨{ w with
    kernel := w.kernel.close x.stream.serverSock
    pool := P'
    streams := Function.update w.streams x.stream.self none
    gEvents := Function.update w.gEvents i ev }, ?_, rfl,
    handled_none ⟨frame_of (fun j hj => ?_) (fun f hf => ?_) (fun _ _ => ⟨Iff.rfl, rfl⟩)
      fun p hp => ?_, rfl, rfl, rfl, fun _ hc => hc⟩ hP' ?_ ?_ ?_ ?_⟩
  · simp only [Client.closeStream, Client.eventdel, Client.setEvent, hdel, Function.update_self,
      hjc, get_of_mem h.allocated, ok_bind, h.connStream, h.stream, fetch_some, hclose, pure_eq_ok,
      Function.update_idem]
  · exact Function.update_of_ne hj _ _
  · simp [hf]
  · refine ⟨by simp [hlive, hp], Function.update_of_ne ?_ _ _⟩
    rintro rfl
    exact hp x.stream.self_mem_footprint
  · simp [hstatus]
  · simp
  · intro hK
    exact absurd rfl (hK x.jc)
  · intro p hp
    simp [hlive, hp]

end Client

end Jujube
