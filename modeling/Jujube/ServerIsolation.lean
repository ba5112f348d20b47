import Jujube.ServerFraming
import Jujube.ServerSlots

/-!
# One slot of the server among the others

The slot of a connection, seen alone, is the server of one connection over the rest of the pool
(`sim_of_served`), so that what is known of one connection holds of each: `transfer_spec`.  A new
connection takes a slot that is free and a number that is new (`accept_spec`).
-/

namespace Jujube

open Bytes Pool Ownership Transition

/-- The pool without some of its blocks. -/
def Pool.without (P : Pool) (l : List Ptr) : Pool :=
  { P with heap := fun p => if p ∈ l then none else P.heap p }

theorem Pool.live_without (P : Pool) (l : List Ptr) (p : Ptr) :
    (P.without l).live p = if p ∈ l then none else P.live p := by
  unfold Pool.live Pool.without
  by_cases hp : p ∈ l
  · simp [hp]
  · simp [hp]

/-- Every pool is what it is without some of its blocks, and these. -/
theorem Pool.extends_without {P : Pool} {l : List Ptr} (hP : P.Ok) (h : P.Owned l) :
    (P.without l).Extends P l where
  ok := hP
  owned := h
  new p hp := by rw [live_without, if_pos hp]
  frame p hp := by rw [live_without, if_neg hp]

namespace ServerProcess

variable {p p' v w : ServerProcess} {x : Connection} {i j k n : ℕ} {e : Event} {o : Occupant}
  {R : Set ServerResource} {T : ℕ → Occupant} {ws : List Work}

theorem callsOf_log (k n : ℕ) (a : Option Event) (ws : List Work) (p : ServerProcess) :
    (p.log n a ws).callsOf k = p.callsOf k ++ if k = n then ws else [] := by
  unfold callsOf log
  rw [List.filterMap_append]
  congr 1
  by_cases hk : k = n
  · subst hk
    simp
  · simp [hk, Ne.symm hk]

theorem inputs_log_self (n : ℕ) (a : Option Event) (ws : List Work) (p : ServerProcess) :
    (p.log n a ws).inputs n = p.inputs n ++ [a.elim .hangup Event.input] := by
  simp [inputs, log]

/-- An operation on slot `i` left it with `o`; it changed `R` and nothing else, and the slot owns
what is in use of that. -/
structure Turned (R : Set ServerResource) (i : ℕ) (o : Occupant) (v w : ServerProcess) :
    Prop where
  pool : w.pool.Ok
  checkpos : w.checkpos = v.checkpos
  frame : slots.Frame R v w
  own : serverOwn i o ⊆ R
  holds : serverHolds i o w
  used : ∀ r ∈ R, r.Used w → r ∈ serverOwn i o
  fresh : ∀ k, w.accepted ≤ k → v.accepted ≤ k ∧ w.events k = v.events k ∧
    w.callsOf k = v.callsOf k

/-- The state stands for the table: every block, every registered descriptor and every connection
that is not finished belongs to exactly one slot. -/
structure Inv (T : ℕ → Occupant) (p : ServerProcess) : Prop where
  pool : p.pool.Ok
  checkpos : p.checkpos ≤ maxEvents
  table : slots.Inv Set.univ T p
  fresh : ∀ k, p.accepted ≤ k → p.events k = [] ∧ p.callsOf k = []

/-- **An operation on one slot keeps the table**, if what it changed was owned by the slot or by
nobody. -/
theorem Inv.turned (h : Inv T v) (ht : Turned R i o v w) (hold : serverOwn i (T i) ⊆ R)
    (hR : ∀ r ∈ R, r ∈ serverOwn i (T i) ∨ ¬ r.Live v) : Inv (Function.update T i o) w := by
  refine ⟨ht.pool, ht.checkpos ▸ h.checkpos,
    h.table.update ht.frame hold hR ht.own ht.holds fun r hr _ => ht.used r hr, fun k hk => ?_⟩
  obtain ⟨hk', hevents, hcalls⟩ := ht.fresh k hk
  rw [hevents, hcalls]
  exact h.fresh k hk'

/-! ### One connection -/

/-- The slot of a connection, seen alone, stands for its decoder: the rest of the pool is what it
was accepted over. -/
theorem sim_of_served (h : x.Served i p) (hP : p.pool.Ok) :
    (p.view i).Sim (p.pool.without x.stream.footprint) x.state ∧ ¬ x.state.IsClosed := by
  obtain ⟨got, hcarries, hfits⟩ := h.carries
  refine ⟨.served ⟨rfl, ?_⟩ ⟨h.stream, ⟨extends_without hP h.owned, hcarries⟩, h.reg, h.fd, ?_⟩
    hfits, ?_⟩
  · exact h.tally
  · show 0 ≤ (p.gEvents i).fd
    rw [h.fd]
    exact h.nonneg
  · cases hx : x.state with
    | closed r => rw [hx] at hfits; exact absurd hfits id
    | header held => exact id
    | body len got held => exact id

/-- `data_transfer` for slot `i` came to `c`, and the process to `p'`. -/
structure Transferred (x : Connection) (i : ℕ) (e : Event) (c : Server) (p p' : ServerProcess) :
    Prop where
  view : p'.view i = { c with works := [] }
  slot : ∀ j ≠ i, ServerResource.Same (.slot j) p p'
  fd : ∀ f ≠ x.stream.serverSock, ServerResource.Same (.fd f) p p'
  conn : ∀ k ≠ x.number, ServerResource.Same (.conn k) p p'
  checkpos : p'.checkpos = p.checkpos
  number : p'.number = p.number
  accepted : p'.accepted = p.accepted
  evFd : c.ev.fd = x.stream.serverSock
  callBack : c.ev.callBack = some .dataTransfer
  inputs : p'.inputs x.number = p.inputs x.number ++ [e.input]
  calls : p'.callsOf x.number = c.works

theorem transfer_eq_ok {c : Server} (h : x.Served i p)
    (hrun : dataTransfer rejectFrame e (p.view i) = .ok c) :
    ∃ p', p.transfer i e = .ok p' ∧ Transferred x i e c p p' := by
  have hbeside := dataTransfer_beside hrun
  obtain ⟨p₁, hp₁⟩ : ∃ p₁ : ServerProcess, p₁ = { p with
      kernel := c.kernel
      pool := c.pool
      gEvents := Function.update p.gEvents i c.ev
      streams := Function.update p.streams i c.stream
      qps := c.qps
      tallies := Function.update p.tallies i (c.workBuffs, c.workReallocs) } := ⟨_, rfl⟩
  have hcalls : ∀ k, p₁.callsOf k = p.callsOf k := by
    intro k
    rw [hp₁]
    rfl
  refine ⟨p₁.log x.number (some e) c.works, ?_, ?_, fun j hj => ?_, fun f hf => ?_,
    fun k hk => ?_, ?_, ?_, ?_, ?_, ?_, ?_, ?_⟩
  · unfold transfer
    rw [hrun, hp₁, h.number]
  · have hslot : i = c.slot := hbeside.slot.symm
    rw [hp₁]
    simp [view, log, hslot]
  · rw [hp₁]
    exact ⟨Function.update_of_ne hj _ _, Function.update_of_ne hj _ _, rfl,
      Function.update_of_ne hj _ _⟩
  · have hf' : f ≠ (p.view i).ev.fd := by
      show f ≠ (p.gEvents i).fd
      rw [h.fd]
      exact hf
    rw [hp₁]
    exact ⟨hbeside.opened f hf', hbeside.interest f hf'⟩
  · refine ⟨?_, ?_, ?_⟩
    · rw [hp₁]
      rfl
    · rw [hp₁]
      exact Function.update_of_ne hk _ _
    · rw [callsOf_log, if_neg hk, List.append_nil, hcalls]
  · rw [hp₁]
    rfl
  · rw [hp₁]
    rfl
  · rw [hp₁]
    rfl
  · exact hbeside.fd.trans h.fd
  · exact hbeside.callBack.trans h.callBack
  · rw [inputs_log_self, hp₁]
    rfl
  · rw [callsOf_log, if_pos rfl, hcalls, h.quiet, List.nil_append]

/-- The slot has `o` now, with what it owned and what nobody did. -/
structure Handled (x : Connection) (i : ℕ) (o : Occupant) (p p' : ServerProcess) : Prop
    extends Turned (serverOwn i (.serving x) ∪ serverOwn i o) i o p p' where
  taken : ∀ r ∈ serverOwn i o, r ∈ serverOwn i (.serving x) ∨ ¬ r.Live p
  sock : ∀ f, .fd f ∈ serverOwn i o → f = x.stream.serverSock
  closed : x.stream.serverSock ∈ p'.kernel.opened → .fd x.stream.serverSock ∈ serverOwn i o

namespace Transferred

variable {c : Server}

theorem pool (ht : Transferred x i e c p p') : p'.pool = c.pool := congrArg Server.pool ht.view

theorem gEvents (ht : Transferred x i e c p p') : p'.gEvents i = c.ev := congrArg Server.ev ht.view

theorem frame (ht : Transferred x i e c p p')
    (hblock : ∀ q ∉ x.stream.footprint, .block q ∉ serverOwn i o →
      c.pool.live q = p.pool.live q) :
    slots.Frame (serverOwn i (.serving x) ∪ serverOwn i o) p p' := by
  intro r hr
  rw [Set.mem_union, not_or] at hr
  cases r with
  | slot j => exact ht.slot j (by simpa using hr.1)
  | fd f => exact ht.fd f (by simpa using hr.1)
  | conn k => exact ht.conn k (by simpa using hr.1)
  | block q =>
    show p'.pool.live q = p.pool.live q
    rw [ht.pool]
    exact hblock q (by simpa using hr.1) hr.2

theorem fresh (ht : Transferred x i e c p p') (h : x.Served i p) (hk : p'.accepted ≤ k) :
    p.accepted ≤ k ∧ p'.events k = p.events k ∧ p'.callsOf k = p.callsOf k := by
  have hacc := h.accepted
  rw [ht.accepted] at hk
  exact ⟨hk, (ht.conn k (by omega)).2⟩

variable {s : TcpStream} {t : Decoder} {got : List UInt8}

/-- A connection that goes on is served by its slot. -/
theorem served (ht : Transferred x i e c p p') (h : x.Served i p) (hquiet : c.Quiet t.tally)
    (hopen : c.Open (p.pool.without x.stream.footprint) s t.held got) (hfits : s.Fits got t)
    (hstep : x.state.step e.input = .ok t) : Connection.Served ⟨x.number, s, t⟩ i p' where
  slot := h.slot
  reg := by
    have hreg : (p'.view i).ev.Registered (p'.view i).slot (p'.view i).kernel := by
      rw [ht.view]
      exact hopen.reg
    exact hreg
  callBack := ht.gEvents ▸ ht.callBack
  fd := ht.gEvents ▸ hopen.sock
  nonneg := hopen.sock ▸ hopen.fd
  stream := (congrArg Server.stream ht.view).trans hopen.stream
  owned := ht.pool ▸ hopen.stands.ext.owned
  carries := ⟨got, ht.pool ▸ hopen.stands.carries, hfits⟩
  tally := (congrArg Server.tally ht.view).trans hquiet.tally
  number := by rw [ht.number]; exact h.number
  accepted := by rw [ht.accepted]; exact h.accepted
  decoded := by
    rw [ht.inputs]
    exact run_concat_ok.2 ⟨x.state, h.decoded, hstep⟩
  quiet := ht.calls.trans hquiet.works

/-- The connection goes on. -/
theorem goes (ht : Transferred x i e c p p') (h : x.Served i p) (hquiet : c.Quiet t.tally)
    (hopen : c.Open (p.pool.without x.stream.footprint) s t.held got) (hfits : s.Fits got t)
    (hstep : x.state.step e.input = .ok t) :
    Handled x i (.serving ⟨x.number, s, t⟩) p p' := by
  have hsock : s.serverSock = x.stream.serverSock := hopen.sock.symm.trans ht.evFd
  have hnew : ∀ q ∉ x.stream.footprint,
      (q ∈ s.footprint → p.pool.live q = none) ∧
        (q ∉ s.footprint → c.pool.live q = p.pool.live q) := by
    intro q hq
    refine ⟨fun hqs => ?_, fun hqs => ?_⟩
    · have hnone := hopen.stands.ext.new q hqs
      rwa [live_without, if_neg hq] at hnone
    · rw [hopen.stands.ext.frame q hqs, live_without, if_neg hq]
  refine ⟨⟨ht.pool ▸ hopen.stands.ext.ok, ht.checkpos, ht.frame fun q hq hq' => ?_,
    Set.subset_union_right, ht.served h hquiet hopen hfits hstep, fun r hr hused => ?_,
    fun k hk => ht.fresh h hk⟩, fun r hr => ?_, fun f hf => ?_,
    fun _ => fd_mem_serverOwn_serving.2 hsock.symm⟩
  · exact (hnew q hq).2 (by simpa using hq')
  · rcases hr with hr | hr
    swap
    · exact hr
    cases r with
    | slot j => exact absurd hused id
    | fd f =>
      rw [fd_mem_serverOwn_serving] at hr ⊢
      exact hr.trans hsock.symm
    | conn k => simpa using hr
    | block q =>
      by_contra hq
      rw [block_mem_serverOwn_serving] at hr hq
      refine hused ?_
      rw [ht.pool, hopen.stands.ext.frame q hq, live_without, if_pos hr]
  · cases r with
    | slot j => exact .inl (by simpa using hr)
    | fd f =>
      rw [fd_mem_serverOwn_serving] at hr ⊢
      exact .inl (hr.trans hsock)
    | conn k => exact .inl (by simpa using hr)
    | block q =>
      by_cases hq : q ∈ x.stream.footprint
      · exact .inl (by simpa using hq)
      · exact .inr (not_not_intro ((hnew q hq).1 (block_mem_serverOwn_serving.1 hr)))
  · exact (fd_mem_serverOwn_serving.1 hf).trans hsock

/-- The connection is closed. -/
theorem closes {r : Option (List UInt8)} (ht : Transferred x i e c p p') (h : x.Served i p)
    (hclosed : c.Closed (p.pool.without x.stream.footprint)) (hdel : Delivered r c.works)
    (hstep : x.state.step e.input = .ok (.closed r)) : Handled x i .free p p' := by
  have hfinished : p'.Finished x.number := by
    refine ⟨r, ?_, ht.calls ▸ hdel⟩
    rw [ht.inputs]
    exact run_concat_ok.2 ⟨x.state, h.decoded, hstep⟩
  refine ⟨⟨ht.pool ▸ hclosed.ok, ht.checkpos, ht.frame fun q hq _ => ?_, Set.subset_union_right,
    ?_, fun r hr hused => ?_, fun k hk => ht.fresh h hk⟩, fun r hr => .inl ?_, fun f hf => ?_,
    fun hmem => absurd hmem ?_⟩
  · rw [hclosed.live, live_without, if_neg hq]
  · show (p'.gEvents i).status = 0
    rw [ht.gEvents]
    exact hclosed.status
  · rcases hr with hr | hr
    swap
    · exact hr
    cases r with
    | slot j => exact absurd hused id
    | fd f =>
      rw [fd_mem_serverOwn_serving] at hr
      refine absurd ?_ hused
      have hkernel : p'.kernel = c.kernel := congrArg Server.kernel ht.view
      rw [hkernel, hr, ← ht.evFd, hclosed.interest]
    | conn k =>
      rw [conn_mem_serverOwn_serving] at hr
      exact absurd (hr ▸ hfinished) hused.2
    | block q =>
      rw [block_mem_serverOwn_serving] at hr
      refine absurd ?_ hused
      rw [ht.pool, hclosed.live, live_without, if_pos hr]
  · rw [mem_serverOwn_free.1 hr]
    exact slot_mem_serverOwn i _
  · cases mem_serverOwn_free.1 hf
  · have hkernel : p'.kernel = c.kernel := congrArg Server.kernel ht.view
    rw [hkernel, ← ht.evFd]
    exact hclosed.opened

end Transferred

/-- **`data_transfer` for one slot** goes on, keeping the table, or stops the process; both as the
decoder of the connection does. -/
theorem transfer_spec (h : x.Served i p) (hP : p.pool.Ok) (e : Event) :
    (∃ p' o, p.transfer i e = .ok p' ∧ Handled x i o p p') ∨
    (p.transfer i e = .error ⟨.assertFailed .serverOutBufEmpty, p.log x.number (some e) []⟩ ∧
      x.state.step e.input = .error ()) := by
  obtain ⟨hsim, hopen⟩ := sim_of_served h hP
  obtain ⟨y, hy, hm⟩ := dataTransfer_spec hsim hopen e
  have hrun := hy rejectFrame
  cases hstep : x.state.step e.input with
  | error u =>
    rw [hstep] at hm
    cases hm with
    | @error a _ ha =>
      refine .inr ⟨?_, rfl⟩
      unfold transfer
      rw [hrun, ha, h.number]
  | ok t =>
    rw [hstep] at hm
    cases hm with
    | @ok c _ hc =>
      obtain ⟨p', hrun', ht⟩ := transfer_eq_ok h hrun
      cases hc.sim with
      | served quiet isOpen hfits =>
        exact .inl ⟨p', _, hrun', ht.goes h quiet isOpen hfits hstep⟩
      | closed hclosed hdel => exact .inl ⟨p', _, hrun', ht.closes h hclosed hdel hstep⟩

/-! ### New connections -/

/-- `accept_conn` on a free slot. -/
theorem acceptConn_eq {U : ServerTable} {s : TcpStream} {P : Pool} {cfd : ℤ} (now : ℤ)
    (hcreate : streamCreate cfd U.pool = .ok (s, P)) (hfree : U.freeSlot = some i) :
    U.acceptConn ⟨some cfd, true, now⟩ = .ok
      ⟨(eventadd i ⟨true, false⟩ now (eventset none cfd .dataTransfer now) (U.kernel.openFd cfd)).2,
        P, Function.update U.gEvents i (eventadd i ⟨true, false⟩ now
          (eventset none cfd .dataTransfer now) (U.kernel.openFd cfd)).1,
        Function.update U.streams i (some s)⟩ := by
  have hfree' : ServerTable.freeSlot { U with kernel := U.kernel.openFd cfd } = some i := hfree
  simp only [ServerTable.acceptConn, hfree', acceptStream, hcreate, deref_some, ok_bind, pure_eq_ok,
    reduceCtorEq, if_false, not_true_eq_false]

/-- A slot with status 0 is free. -/
theorem Inv.eq_free (h : Inv T p) (hi : (p.gEvents i).status = 0) : T i = .free := by
  have hholds : serverHolds i (T i) p := h.table.holds i
  cases hT : T i with
  | free => rfl
  | listening fd =>
    rw [hT] at hholds
    have hone := hholds.2.1.status
    rw [hi] at hone
    cases hone
  | serving x =>
    rw [hT] at hholds
    have hx : x.Served i p := hholds
    have hone := hx.reg.status
    rw [hi] at hone
    cases hone

/-- A new connection. -/
theorem accept_takes (h : Inv T p) {cfd : ℤ} (hpos : 0 ≤ cfd) (hnew : cfd ∉ p.kernel.opened)
    (hfree : p.freeSlot = some i) (now : ℤ) :
    ∃ p' x, p.accept ⟨some cfd, true, now⟩ = .ok p' ∧
      Inv (Function.update T i (.serving x)) p' ∧ p.Takes p'.toServerTable cfd i ∧
      x = ⟨p.accepted, x.stream, Decoder.init⟩ ∧
      p'.kernel.opened = insert cfd p.kernel.opened ∧
      ∀ f ≠ cfd, p'.kernel.interest f = p.kernel.interest f := by
  obtain ⟨s, P, hcreate, hs⟩ := streamCreate_spec h.pool cfd
  obtain ⟨U, hrun, htakes, hopened⟩ := ServerTable.acceptConn_takes h.pool hnew hfree now
  have hU := acceptConn_eq now hcreate hfree
  rw [hrun, Except.ok.injEq] at hU
  have hint : ∀ f ≠ cfd, U.kernel.interest f = p.kernel.interest f := by
    intro f hf
    rw [hU]
    exact epollCtl_interest_of_ne hf
  have hpool : U.pool = P := by rw [hU]
  have hstream : U.streams i = some s := by
    rw [hU]
    exact Function.update_self _ _ _
  obtain ⟨hevents, hcalls⟩ := h.fresh p.accepted le_rfl
  obtain ⟨x, hx⟩ : ∃ x : Connection, x = ⟨p.accepted, s, Decoder.init⟩ := ⟨_, rfl⟩
  obtain ⟨p', hp'⟩ : ∃ p' : ServerProcess, p' = { p with
      toServerTable := U
      number := Function.update p.number i p.accepted
      accepted := p.accepted + 1
      tallies := Function.update p.tallies i (0, 0) } := ⟨_, rfl⟩
  have haccept : p.accept ⟨some cfd, true, now⟩ = .ok p' := by
    unfold accept
    rw [hrun]
    simp only [newSlot_eq_some htakes.slot htakes.free htakes.registered.status fun j hj =>
      (htakes.others j hj).1, hp']
  have hcallsOf : ∀ k, p'.callsOf k = p.callsOf k := by
    intro k
    rw [hp']
    rfl
  have hserved : x.Served i p' := by
    rw [hx]
    refine {
      slot := htakes.slot
      reg := ?_
      callBack := ?_
      fd := ?_
      nonneg := ?_
      stream := ?_
      owned := ?_
      carries := ⟨[], ?_, rfl, hs.workBuf, hs.left, hs.recved, hs.content⟩
      tally := ?_
      number := ?_
      accepted := ?_
      decoded := ?_
      quiet := ?_ }
    · rw [hp']
      exact htakes.registered
    · rw [hp']
      exact htakes.callBack
    · rw [hp', hs.sock]
      exact htakes.fd
    · rw [hs.sock]
      exact hpos
    · rw [hp']
      exact hstream
    · rw [hp', hpool]
      exact hs.extends_.owned
    · rw [hp', hpool]
      exact hs.carries
    · rw [hp']
      exact Function.update_self _ _ _
    · rw [hp']
      exact Function.update_self _ _ _
    · rw [hp']
      exact Nat.lt_succ_self _
    · have hinputs : p'.inputs p.accepted = [] := by
        unfold inputs
        rw [hp', hevents]
        rfl
      rw [hinputs]
      rfl
    · rw [hcallsOf]
      exact hcalls
  have hfreeT : T i = .free := h.eq_free htakes.free
  refine ⟨p', x, haccept, h.turned (R := serverOwn i (.serving x))
    ⟨?_, by rw [hp'], fun r hr => ?_, subset_rfl, hserved, fun r hr _ => hr, fun k hk => ?_⟩ ?_
    fun r hr => ?_, ?_, by rw [hx], ?_, fun f hf => ?_⟩
  · rw [hp', hpool]
    exact hs.extends_.ok
  · rw [hx] at hr
    cases r with
    | slot j =>
      have hj : j ≠ i := by simpa using hr
      rw [hp']
      exact ⟨(htakes.others j hj).1, (htakes.others j hj).2, Function.update_of_ne hj _ _,
        Function.update_of_ne hj _ _⟩
    | fd f =>
      have hf : f ≠ cfd := by simpa [hs.sock] using hr
      rw [hp']
      refine ⟨?_, hint f hf⟩
      rw [hopened, Finset.mem_insert]
      exact or_iff_right hf
    | block q =>
      rw [hp']
      show U.pool.live q = p.pool.live q
      rw [hpool]
      exact hs.extends_.frame q (by simpa using hr)
    | conn k =>
      have hk : k ≠ p.accepted := by simpa using hr
      refine ⟨?_, by rw [hp'], hcallsOf k⟩
      rw [hp']
      show k < p.accepted + 1 ↔ k < p.accepted
      omega
  · rw [hp'] at hk
    have hk' : p.accepted + 1 ≤ k := hk
    exact ⟨by omega, by rw [hp'], hcallsOf k⟩
  · rw [hfreeT]
    intro r hr
    rw [mem_serverOwn_free.1 hr]
    exact slot_mem_serverOwn i _
  · rw [hx] at hr
    cases r with
    | slot j =>
      left
      rw [slot_mem_serverOwn_serving] at hr
      rw [hr]
      exact slot_mem_serverOwn i _
    | fd f =>
      rw [fd_mem_serverOwn_serving, hs.sock] at hr
      exact .inr (hr ▸ hnew)
    | block q =>
      exact .inr (not_not_intro (hs.extends_.new q (by simpa using hr)))
    | conn k =>
      rw [conn_mem_serverOwn_serving] at hr
      exact .inr (hr ▸ lt_irrefl p.accepted)
  · rw [hp']
    exact htakes
  · rw [hp']
    exact hopened
  · rw [hp']
    exact hint f hf

/-- What the system promises of `accept`: a descriptor that is not in use. -/
def New (a : Accept) (K : Kernel) : Prop := ∀ cfd, a.cfd = some cfd → 0 ≤ cfd ∧ cfd ∉ K.opened

/-- `accept` returned -1. -/
theorem accept_none (fcntl : Bool) (now : ℤ) (p : ServerProcess) :
    p.accept ⟨none, fcntl, now⟩ = .ok p := by
  have hrun : p.acceptConn ⟨none, fcntl, now⟩ = .ok p.toServerTable := rfl
  unfold accept
  simp only [hrun, newSlot_self]

/-- Nothing is done with the descriptor. -/
theorem accept_leaks {fcntl : Bool} (h : p.freeSlot = none ∨ fcntl = false) (cfd now : ℤ) :
    p.accept ⟨some cfd, fcntl, now⟩ = .ok { p with kernel := p.kernel.openFd cfd } := by
  have hrun := ServerTable.acceptConn_leaks (a := ⟨some cfd, fcntl, now⟩) h rfl
  unfold accept
  simp only [hrun, newSlot_self]

/-- A descriptor that nobody gets. -/
theorem Inv.openFd (h : Inv T p) {cfd : ℤ} (hnew : cfd ∉ p.kernel.opened) :
    Inv T { p with kernel := p.kernel.openFd cfd } := by
  refine ⟨h.pool, h.checkpos, h.table.frame (R := {.fd cfd}) (fun r hr => ?_) ?_ ?_, h.fresh⟩
  · cases r with
    | slot j => exact ⟨rfl, rfl, rfl, rfl⟩
    | fd f =>
      have hf : f ≠ cfd := by simpa using hr
      exact ⟨by simp [hf], rfl⟩
    | block q => rfl
    | conn k => exact ⟨Iff.rfl, rfl, rfl⟩
  · rintro r rfl
    exact hnew
  · rintro r rfl - hused
    exact hused (p.kernel.interest_eq_none hnew)

/-- **`accept_conn`** keeps the table, and whatever is registered. -/
theorem accept_spec (h : Inv T p) {a : Accept} (ha : New a p.kernel) :
    ∃ p' T', p.accept a = .ok p' ∧ Inv T' p' ∧ T' maxEvents = T maxEvents ∧
      ∀ f ∈ p.kernel.opened, p'.kernel.interest f = p.kernel.interest f := by
  obtain ⟨_ | cfd, fcntl, now⟩ := a
  · exact ⟨p, T, accept_none fcntl now p, h, rfl, fun _ _ => rfl⟩
  obtain ⟨hpos, hnew⟩ := ha cfd rfl
  by_cases hleak : p.freeSlot = none ∨ fcntl = false
  · exact ⟨_, T, accept_leaks hleak cfd now, h.openFd hnew, rfl, fun _ _ => rfl⟩
  · rw [not_or, Bool.not_eq_false] at hleak
    obtain ⟨hsome, rfl⟩ := hleak
    obtain ⟨i, hi⟩ := Option.ne_none_iff_exists'.1 hsome
    obtain ⟨p', x, hrun, hp', htakes, -, -, hint⟩ := accept_takes h hpos hnew hi now
    refine ⟨p', _, hrun, hp', Function.update_of_ne htakes.slot.ne' _ _, fun f hf => hint f ?_⟩
    rintro rfl
    exact hnew hf

end ServerProcess

end Jujube
