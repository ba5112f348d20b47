import Mathlib.Data.List.ReduceOption
import Jujube.ServerIsolation

/-!
# Runs of the server

From `ServerProcess.init`, the main loop lets the time go on and dispatches what `epoll_wait`
reports, connections come and go, and their events are reported in any order.  In every run each
connection does what its own decoder does (`server_isolates`), which in bytes is `server_calls`;
`server_table` is what the slots, the streams, the pool and the epoll set are to each other.
-/

namespace Jujube

open Bytes Pool Ownership Transition

theorem Delivered.length_le {r : Option (List UInt8)} {ws : List Work} (h : Delivered r ws) :
    ws.length ≤ 1 := by
  cases r with
  | none =>
    have hnil : ws = [] := h
    rw [hnil]
    exact Nat.zero_le _
  | some m =>
    obtain ⟨w, hw, -⟩ := h
    rw [hw]
    exact le_rfl

theorem Delivered.of_mem {r : Option (List UInt8)} {ws : List Work} {w : Work} (h : Delivered r ws)
    (hw : w ∈ ws) : ∃ m, r = some m ∧ w.len = m.length ∧ w.buffer.take m.length = m := by
  cases r with
  | none =>
    have hnil : ws = [] := h
    rw [hnil] at hw
    cases hw
  | some m =>
    obtain ⟨v, rfl, hlen, hbuf⟩ := h
    rw [List.mem_singleton.1 hw]
    exact ⟨m, rfl, hlen, hbuf⟩

theorem Delivered.ne_nil_iff {r : Option (List UInt8)} {ws : List Work} (h : Delivered r ws) :
    ws ≠ [] ↔ ∃ m, r = some m := by
  cases r with
  | none =>
    have hnil : ws = [] := h
    simp [hnil]
  | some m =>
    obtain ⟨w, hw, -⟩ := h
    simp [hw]

namespace ServerProcess

variable {p p' : ServerProcess} {x : Connection} {i k : ℕ} {e : Event} {T : ℕ → Occupant}

/-! ### The owners -/

/-- Who owns what is in use: the slot behind the others its descriptor, and the slots that serve a
connection the rest. -/
theorem Inv.owner (h : Inv T p) {r : ServerResource} (hr : r.Used p) :
    (∃ i fd, r = .fd fd ∧ T i = .listening fd ∧ serverHolds i (.listening fd) p) ∨
      ∃ i x, T i = .serving x ∧ x.Served i p ∧ r ∈ serverOwn i (.serving x) := by
  obtain ⟨i, hi⟩ := h.table.covered r trivial hr
  have hmem : r ∈ serverOwn i (T i) := hi
  have hholds : serverHolds i (T i) p := h.table.holds i
  have hslot : r ≠ .slot i := by
    rintro rfl
    exact hr
  cases hT : T i with
  | free =>
    rw [hT, mem_serverOwn_free] at hmem
    exact absurd hmem hslot
  | listening fd =>
    rw [hT] at hmem hholds
    rw [mem_serverOwn_listening] at hmem
    exact .inl ⟨i, fd, hmem.resolve_left hslot, hT, hholds⟩
  | serving x =>
    rw [hT] at hmem hholds
    exact .inr ⟨i, x, hT, hholds, hmem⟩

/-- A connection that is not finished has its slot. -/
theorem Inv.serving (h : Inv T p) (hk : k < p.accepted) (hfin : ¬ p.Finished k) :
    ∃ i x, T i = .serving x ∧ x.Served i p ∧ x.number = k := by
  rcases h.owner (r := .conn k) ⟨hk, hfin⟩ with ⟨-, fd, hfd, -⟩ | ⟨i, x, hT, hx, hmem⟩
  · cases hfd
  · exact ⟨i, x, hT, hx, (conn_mem_serverOwn_serving.1 hmem).symm⟩

/-- The slot that a registered descriptor leads to. -/
theorem Inv.of_interest (h : Inv T p) {f : ℤ} {d : EpollData} {m : Mask}
    (hint : p.kernel.interest f = some ⟨d, m⟩) :
    ∃ i, d = .ptr i ∧
      ((T i = .listening f ∧ (p.gEvents i).callBack = some .acceptConn) ∨
        ∃ x, T i = .serving x ∧ x.Served i p ∧ x.stream.serverSock = f) := by
  have hused : ServerResource.Used (.fd f) p := by
    show p.kernel.interest f ≠ none
    rw [hint]
    exact Option.some_ne_none _
  rcases h.owner hused with ⟨i, fd, hfd, hT, -, hreg, hcb, hfd'⟩ | ⟨i, x, hT, hx, hmem⟩
  · cases hfd
    have := hreg.interest
    rw [hfd', hint] at this
    cases this
    exact ⟨i, rfl, .inl ⟨hT, hcb⟩⟩
  · rw [fd_mem_serverOwn_serving] at hmem
    subst hmem
    have := hx.reg.interest
    rw [hx.fd, hint] at this
    cases this
    exact ⟨i, rfl, .inr ⟨x, hT, hx, rfl⟩⟩

/-! ### The decoders -/

/-- What a decoder has delivered. -/
def outcome : Except Unit Decoder → Option (List UInt8)
  | .ok (.closed r) => r
  | _ => none

theorem outcome_eq_some {x : Except Unit Decoder} {m : List UInt8} :
    outcome x = some m ↔ x = .ok (.closed (some m)) := by
  constructor
  · intro h
    match x, h with
    | .ok (.closed r), h =>
      have hr : r = some m := h
      rw [hr]
  · rintro rfl
    rfl

/-- The decoder of connection `k`, run over what was reported of it. -/
def decoder (k : ℕ) (p : ServerProcess) : Except Unit Decoder :=
  run Decoder.step Decoder.init (p.inputs k)

/-- In any state, every connection has done what its decoder has. -/
theorem Inv.decodes (h : Inv T p) (k : ℕ) :
    (∃ t, p.decoder k = .ok t) ∧ Delivered (outcome (p.decoder k)) (p.callsOf k) := by
  by_cases hk : k < p.accepted
  · by_cases hfin : p.Finished k
    · obtain ⟨r, hrun, hdel⟩ := hfin
      refine ⟨⟨_, hrun⟩, ?_⟩
      unfold decoder
      rw [hrun]
      exact hdel
    · obtain ⟨i, x, -, hx, rfl⟩ := h.serving hk hfin
      have hrun : p.decoder x.number = .ok x.state := hx.decoded
      refine ⟨⟨_, hrun⟩, ?_⟩
      rw [hrun, hx.quiet]
      have hopen := (sim_of_served hx h.pool).2
      cases hstate : x.state with
      | header held => rfl
      | body len got held => rfl
      | closed r =>
        rw [hstate] at hopen
        exact absurd trivial hopen
  · obtain ⟨hevents, hcalls⟩ := h.fresh k (not_lt.1 hk)
    have hinputs : p.inputs k = [] := by
      unfold inputs
      rw [hevents]
      rfl
    unfold decoder
    rw [hinputs, hcalls]
    exact ⟨⟨_, rfl⟩, rfl⟩

/-- How the process ends: at the `assert` that `out_buf` is empty, where the decoder of one
connection ends, and every connection has done until then what its decoder has. -/
structure Crashed (a : Crash) : Prop where
  fault : a.fault = .assertFailed .serverOutBufEmpty
  stray : ∃ k, a.last.decoder k = .error ()
  decodes : ∀ k, Delivered (outcome (a.last.decoder k)) (a.last.callsOf k)

theorem crashed_of_served (h : Inv T p) (hx : x.Served i p)
    (hstep : x.state.step e.input = .error ()) :
    Crashed ⟨.assertFailed .serverOutBufEmpty, p.log x.number (some e) []⟩ := by
  have hself : (p.log x.number (some e) []).decoder x.number = .error () := by
    unfold decoder
    rw [inputs_log_self, run_append hx.decoded]
    exact run_cons_error hstep []
  refine ⟨rfl, ⟨x.number, hself⟩, fun k => ?_⟩
  show Delivered (outcome ((p.log x.number (some e) []).decoder k)) _
  rw [callsOf_log, ite_self, List.append_nil]
  by_cases hk : k = x.number
  · rw [hk, hself, hx.quiet]
    rfl
  · have hinputs : (p.log x.number (some e) []).inputs k = p.inputs k :=
      congrArg (List.map _) (Function.update_of_ne hk _ _)
    have hdecoder : (p.log x.number (some e) []).decoder k = p.decoder k := by
      unfold decoder
      rw [hinputs]
    rw [hdecoder]
    exact (h.decodes k).2

/-- The state stands for a table that has `o` in the slot behind the others. -/
def Stands (o : Occupant) (p : ServerProcess) : Prop := ∃ T, Inv T p ∧ T maxEvents = o

/-! ### A batch of events -/

/-- What `epoll_wait` may report: what is registered for some of the descriptors, each reported
once. -/
def Reported (p : ServerProcess) (es : List (EpollData × ServerEvent)) : Prop :=
  ∃ fds : List ℤ, fds.Nodup ∧
    List.Forall₂ (fun fd y => ∃ m, p.kernel.interest fd = some ⟨y.1, m⟩) fds es

/-- When `accept_conn` is called, `accept` returns a new descriptor. -/
def Accepts (p : ServerProcess) (y : EpollData × ServerEvent) : Prop := New y.2.accept p.kernel

variable {f : ℤ} {m : Mask} {y : EpollData × ServerEvent}

/-- One callback keeps the table and every other registration, or ends the process. -/
theorem callBack_spec (h : Inv T p) (hint : p.kernel.interest f = some ⟨y.1, m⟩)
    (hacc : p.Accepts y) :
    Yields (fun p' => p'.Stands (T maxEvents) ∧
      ∀ g ≠ f, p.kernel.interest g ≠ none → p'.kernel.interest g = p.kernel.interest g)
      Crashed (p.callBack y) := by
  obtain ⟨d, e⟩ := y
  obtain ⟨i, rfl, ⟨-, hcb⟩ | ⟨x, hT, hx, hsock⟩⟩ := h.of_interest hint
  · obtain ⟨p', T', hrun, hp', hmax, hkeep⟩ := accept_spec h hacc
    have hcall : p.callBack (.ptr i, e) = .ok p' := by
      simp only [callBack, hcb]
      exact hrun
    rw [hcall]
    exact .ok ⟨⟨T', hp', hmax⟩, fun g _ hg => hkeep g (p.kernel.registered g hg)⟩
  · have hcall : p.callBack (.ptr i, e) = p.transfer i e.toEvent := by
      simp only [callBack, hx.callBack]
    rw [hcall]
    rcases transfer_spec hx h.pool e.toEvent with ⟨p', o, hrun, ht⟩ | ⟨hrun, hstep⟩
    · rw [hrun]
      refine .ok ⟨⟨_, h.turned ht.toTurned (hT ▸ Set.subset_union_left) fun r hr => ?_,
        Function.update_of_ne hx.slot.ne' _ _⟩, fun g hg _ => ?_⟩
      · rw [hT]
        exact hr.elim .inl (ht.taken r)
      · have hsame : ServerResource.Same (.fd g) p p' := by
          refine ht.frame (.fd g) fun hmem => hg ?_
          rcases hmem with hmem | hmem
          · exact (fd_mem_serverOwn_serving.1 hmem).trans hsock
          · exact (ht.sock g hmem).trans hsock
        exact hsame.2
    · rw [hrun]
      exact .error (crashed_of_served h hx hstep)

/-- What is reported is registered, and what `accept` returns is new. -/
def Ready (p : ServerProcess) (y : EpollData × ServerEvent) : Prop :=
  (∃ f m, p.kernel.interest f = some ⟨y.1, m⟩) ∧ p.Accepts y

/-- A callback does not touch what the other events of the batch refer to. -/
theorem steps_ready {es : List (EpollData × ServerEvent)} (h : Inv T p) (hes : p.Reported es)
    (hacc : Steps callBack Accepts p es) : Steps callBack Ready p es := by
  obtain ⟨fds, hnodup, hreported⟩ := hes
  induction es generalizing p T fds with
  | nil => trivial
  | cons y es ih =>
    cases hreported with
    | @cons f _ fds _ hy hrest =>
      obtain ⟨m, hint⟩ := hy
      obtain ⟨hnotin, hnodup'⟩ := List.nodup_cons.1 hnodup
      refine ⟨⟨⟨f, m, hint⟩, hacc.1⟩, fun p₁ hrun => ?_⟩
      have hcall := callBack_spec h hint hacc.1
      rw [hrun] at hcall
      cases hcall with
      | ok h₁ =>
        obtain ⟨⟨T₁, h₁, -⟩, hkeep⟩ := h₁
        refine ih h₁ (hacc.2 p₁ hrun) fds hnodup' ?_
        refine List.forall₂_iff_get.2 ⟨hrest.length_eq, fun k hk hk' => ?_⟩
        obtain ⟨m', hm'⟩ := hrest.get hk hk'
        refine ⟨m', ?_⟩
        rw [hkeep _ ?_ (hm' ▸ Option.some_ne_none _), hm']
        exact fun heq => hnotin (heq ▸ List.get_mem fds ⟨k, hk⟩)

/-- **A batch of events**, in any order, keeps the table, or ends the process. -/
theorem dispatch_spec {es : List (EpollData × ServerEvent)} (h : Inv T p)
    (hes : Steps callBack Ready p es) : Yields (Stands (T maxEvents)) Crashed (p.dispatch es) := by
  refine run_yields (fun p y hp hy => ?_) ⟨T, h, rfl⟩ hes
  obtain ⟨T', h', hmax⟩ := hp
  obtain ⟨⟨f, m, hint⟩, hacc⟩ := hy
  exact hmax ▸ (callBack_spec h' hint hacc).mono (fun _ hp' => hp'.1) fun _ ha => ha

/-! ### The timeout -/

/-- A connection that was idle too long is given up, which for its decoder is a hangup. -/
theorem expireSlot_served (h : x.Served i p) (hP : p.pool.Ok) {now : ℤ}
    (hdue : 10 ≤ now - (p.gEvents i).lastActive ∧ -1 ≠ (p.gEvents i).fd) :
    ∃ p', p.expireSlot now i = .ok p' ∧ Turned (serverOwn i (.serving x)) i .free p p' ∧
      x.stream.serverSock ∉ p'.kernel.opened ∧ p'.calls = p.calls ∧ p'.accepted = p.accepted := by
  obtain ⟨ev, hev⟩ : ∃ ev : MyEvent, ev = { p.gEvents i with status := 0 } := ⟨_, rfl⟩
  have hdel := eventdel_of_registered h.reg
  rw [← hev] at hdel
  have hzero : ev.status = 0 := by rw [hev]
  obtain ⟨P', hclose, hP', hlive⟩ := closeStream_of_status
    (i := i) (K := p.kernel.watch (p.gEvents i).fd none h.reg.opened)
    (show ev.status ≠ 1 by simp [hzero]) h.nonneg hP h.owned
  have hkernel : (p.kernel.watch (p.gEvents i).fd none h.reg.opened).close ev.fd =
      p.kernel.close x.stream.serverSock := by
    have hfd : ev.fd = (p.gEvents i).fd := by rw [hev]
    rw [hfd, Kernel.close_watch, h.fd]
  rw [hkernel] at hclose
  obtain ⟨p₁, hp₁⟩ : ∃ p₁ : ServerProcess, p₁ = { p with
      kernel := p.kernel.close x.stream.serverSock
      pool := P'
      gEvents := Function.update p.gEvents i ev
      streams := Function.update p.streams i none } := ⟨_, rfl⟩
  have hother : ∀ k ≠ x.number, (p₁.log x.number none []).events k = p.events k := by
    intro k hk
    rw [hp₁]
    exact Function.update_of_ne hk _ _
  have hcalls : ∀ k, (p₁.log x.number none []).callsOf k = p.callsOf k := by
    intro k
    rw [callsOf_log, ite_self, List.append_nil, hp₁]
    rfl
  refine ⟨p₁.log x.number none [], ?_, ⟨?_, ?_, fun r hr => ?_, fun r hr => ?_, ?_,
    fun r hr hused => ?_, fun k hk => ?_⟩, ?_, ?_, ?_⟩
  · unfold expireSlot
    simp only [if_neg (not_not.2 h.reg.status), if_pos hdue, hdel, h.stream, hclose, hp₁, h.number]
  · rw [hp₁]
    exact hP'
  · rw [hp₁]
    rfl
  · cases r with
    | slot j =>
      have hj : j ≠ i := by simpa using hr
      rw [hp₁]
      exact ⟨Function.update_of_ne hj _ _, Function.update_of_ne hj _ _, rfl, rfl⟩
    | fd f =>
      have hf : f ≠ x.stream.serverSock := by simpa using hr
      rw [hp₁]
      refine ⟨?_, Function.update_of_ne hf _ _⟩
      show f ∈ p.kernel.opened.erase x.stream.serverSock ↔ f ∈ p.kernel.opened
      rw [Finset.mem_erase]
      exact and_iff_right hf
    | block q =>
      have hq : q ∉ x.stream.footprint := by simpa using hr
      rw [hp₁]
      show P'.live q = p.pool.live q
      rw [hlive]
      exact if_neg hq
    | conn k =>
      refine ⟨?_, hother k (by simpa using hr), hcalls k⟩
      rw [hp₁]
      rfl
  · rw [mem_serverOwn_free.1 hr]
    exact slot_mem_serverOwn i _
  · show ((p₁.log x.number none []).gEvents i).status = 0
    rw [hp₁]
    show (Function.update p.gEvents i ev i).status = 0
    rw [Function.update_self, hzero]
  · cases r with
    | slot j => exact absurd hused id
    | fd f =>
      rw [fd_mem_serverOwn_serving] at hr
      refine absurd ?_ hused
      rw [hp₁, hr]
      exact Function.update_self _ _ _
    | block q =>
      rw [block_mem_serverOwn_serving] at hr
      refine absurd ?_ hused
      rw [hp₁]
      show P'.live q = none
      rw [hlive]
      exact if_pos hr
    | conn k =>
      rw [conn_mem_serverOwn_serving] at hr
      subst hr
      refine absurd ⟨none, ?_, ?_⟩ hused.2
      · rw [inputs_log_self]
        refine run_concat_ok.2 ⟨x.state, ?_, if_neg (sim_of_served h hP).2⟩
        rw [hp₁]
        exact h.decoded
      · rw [hcalls]
        exact h.quiet
  · have hacc := h.accepted
    have hk' : p.accepted ≤ k := by
      rw [hp₁] at hk
      exact hk
    exact ⟨hk', hother k (by omega), hcalls k⟩
  · rw [hp₁]
    exact Finset.notMem_erase _ _
  · rw [hp₁]
    exact List.append_nil _
  · rw [hp₁]
    rfl

/-- The slots that a sweep looks at. -/
theorem expireSlot_spec (h : Inv T p) (hi : i < maxEvents) (now : ℤ) :
    ∃ p', p.expireSlot now i = .ok p' ∧ p'.Stands (T maxEvents) := by
  by_cases hstatus : (p.gEvents i).status = 1
  swap
  · exact ⟨p, if_pos hstatus, T, h, rfl⟩
  by_cases hdue : 10 ≤ now - (p.gEvents i).lastActive ∧ -1 ≠ (p.gEvents i).fd
  swap
  · refine ⟨p, ?_, T, h, rfl⟩
    unfold expireSlot
    simp only [if_neg (not_not.2 hstatus), if_neg hdue]
  have hholds : serverHolds i (T i) p := h.table.holds i
  cases hT : T i with
  | free =>
    rw [hT] at hholds
    have hzero : (p.gEvents i).status = 0 := hholds
    rw [hstatus] at hzero
    cases hzero
  | listening g =>
    rw [hT] at hholds
    exact absurd hholds.1 hi.ne
  | serving x =>
    rw [hT] at hholds
    obtain ⟨p', hrun, ht, -⟩ := expireSlot_served hholds h.pool hdue
    exact ⟨p', hrun, _, h.turned ht (hT ▸ subset_rfl) fun r hr => .inl (hT ▸ hr),
      Function.update_of_ne hi.ne' _ _⟩

/-- The counters of the process are no resources. -/
theorem same_counters (r : ServerResource) (p : ServerProcess) (checkpos qps : ℕ) (nextTime : ℤ) :
    r.Same p { p with checkpos := checkpos, qps := qps, nextTime := nextTime } := by
  cases r with
  | slot i => exact ⟨rfl, rfl, rfl, rfl⟩
  | fd f => exact ⟨Iff.rfl, rfl⟩
  | block q => rfl
  | conn k => exact ⟨Iff.rfl, rfl, rfl⟩

theorem Inv.set_counters (h : Inv T p) {checkpos : ℕ} (hc : checkpos ≤ maxEvents) (qps : ℕ)
    (nextTime : ℤ) :
    Inv T { p with checkpos := checkpos, qps := qps, nextTime := nextTime } :=
  ⟨h.pool, hc, h.table.frame (R := ∅) (fun r _ => same_counters r p checkpos qps nextTime) (by simp)
    (by simp), h.fresh⟩

/-- The loop, from any slot on. -/
theorem expireLoop_spec (now : ℤ) (n : ℕ) {c : ℕ} (h : Inv T p) (hc : c ≤ maxEvents) :
    ∃ p', expireLoop now n c p = .ok p' ∧ p'.Stands (T maxEvents) := by
  induction n generalizing c p T with
  | zero => exact ⟨_, rfl, T, h.set_counters hc p.qps p.nextTime, rfl⟩
  | succ n ih =>
    have hmax : 0 < maxEvents := by decide
    have hpos : (if c = maxEvents then 0 else c) < maxEvents := by
      split_ifs
      · exact hmax
      · omega
    obtain ⟨p₁, hrun₁, T₁, h₁, hmax₁⟩ := expireSlot_spec h hpos now
    obtain ⟨p', hrun', h'⟩ := ih h₁ (Nat.succ_le_of_lt hpos)
    refine ⟨p', ?_, hmax₁ ▸ h'⟩
    simp only [expireLoop, hrun₁, ok_bind]
    exact hrun'

/-- A round of the main loop in front of `epoll_wait` does not fault. -/
theorem tick_spec (h : Inv T p) (now : ℤ) :
    ∃ p', p.tick now = .ok p' ∧ p'.Stands (T maxEvents) := by
  unfold tick
  by_cases hnext : p.nextTime ≤ now
  · rw [if_pos hnext]
    exact expireLoop_spec now _ (h.set_counters h.checkpos 0 (now + 10)) h.checkpos
  · rw [if_neg hnext]
    exact expireLoop_spec now _ h h.checkpos

/-! ### Runs -/

/-- What the system promises: what is reported is registered, and what `accept` returns is new. -/
def Allowed (p : ServerProcess) : ServerOp → Prop
  | .tick _ => True
  | .batch es => p.Reported es ∧ Steps callBack Accepts p es

/-- An event of one slot. -/
theorem allowed_batch_one {e : ServerEvent} (hint : p.kernel.interest f = some ⟨.ptr i, m⟩)
    (hnew : New e.accept p.kernel) : p.Allowed (.batch [(.ptr i, e)]) :=
  ⟨⟨[f], List.nodup_singleton f, .cons ⟨m, hint⟩ .nil⟩, hnew, fun _ _ => trivial⟩

/-- At the start the slot behind the others has the listening socket, and the others are free. -/
theorem init_inv (raw : Ptr → Memory) {opened : Finset ℤ} {lfd : ℤ} (hlfd : lfd ∉ opened)
    (now : ℤ) : (init raw opened lfd now).Stands (.listening lfd) := by
  -- the process before `init_listensocket`
  obtain ⟨p, hp⟩ : ∃ p : ServerProcess, p = { init raw opened lfd now with
      kernel := .unwatched opened
      gEvents := fun _ => .zero } := ⟨_, rfl⟩
  have hinv : Inv (fun _ => .free) p := by
    rw [hp]
    refine ⟨memModuleInit_ok raw, Nat.zero_le _, ⟨fun i => rfl, fun i j hij => ?_,
      fun r _ hr => ?_⟩, fun k _ => ⟨rfl, rfl⟩⟩
    · show Disjoint (serverOwn i .free) (serverOwn j .free)
      rw [Set.disjoint_left]
      intro r hi hj
      rw [mem_serverOwn_free] at hi hj
      cases hi.symm.trans hj
      exact hij rfl
    · cases r with
      | slot i => exact absurd hr id
      | fd f => exact absurd rfl hr
      | block q => exact absurd rfl hr
      | conn k => exact absurd hr.1 (Nat.not_lt_zero k)
  obtain ⟨ev, hev⟩ : ∃ ev : MyEvent, ev = eventset none lfd .acceptConn now := ⟨_, rfl⟩
  obtain ⟨K, hK⟩ : ∃ K : Kernel, K = p.kernel.openFd lfd := ⟨_, rfl⟩
  have hfd : ev.fd = lfd := by rw [hev, eventset]
  have hreg := @eventadd_registered maxEvents ev K ⟨true, false⟩ now
    (.inr ⟨by simp [hev, eventset], by simp [hfd, hK], by
      rw [hfd, hK, hp]
      rfl⟩)
  have hinit : init raw opened lfd now = { p with
      kernel := (eventadd maxEvents ⟨true, false⟩ now ev K).2
      gEvents := Function.update p.gEvents maxEvents
        (eventadd maxEvents ⟨true, false⟩ now ev K).1 } := by
    rw [hp, hev, hK, hp]
    rfl
  rw [hinit]
  refine ⟨_, hinv.turned (i := maxEvents) (o := .listening lfd)
    (R := serverOwn maxEvents (.listening lfd)) ⟨hinv.pool, rfl, fun r hr => ?_, subset_rfl, ?_,
      fun r hr _ => hr, fun k hk => ⟨hk, rfl, rfl⟩⟩ (fun r hr => ?_) fun r hr => ?_,
    Function.update_self _ _ _⟩
  · cases r with
    | slot j =>
      have hj : j ≠ maxEvents := by simpa using hr
      exact ⟨Function.update_of_ne hj _ _, rfl, rfl, rfl⟩
    | fd f =>
      have hf : f ≠ lfd := by simpa using hr
      refine ⟨?_, ?_⟩
      · show f ∈ (eventadd maxEvents ⟨true, false⟩ now ev K).2.opened ↔ f ∈ p.kernel.opened
        rw [eventadd_opened, hK, Kernel.openFd_opened, Finset.mem_insert]
        exact or_iff_right hf
      · have hf' : f ≠ ev.fd := hfd.symm ▸ hf
        rw [hK]
        exact epollCtl_interest_of_ne hf'
    | block q => rfl
    | conn k => exact ⟨Iff.rfl, rfl, rfl⟩
  · refine ⟨rfl, ?_, ?_, ?_⟩
    · show MyEvent.Registered _ (Function.update p.gEvents maxEvents _ maxEvents) _
      rw [Function.update_self]
      exact hreg
    · show (Function.update p.gEvents maxEvents _ maxEvents).callBack = _
      rw [Function.update_self, eventadd_fst, hev]
      rfl
    · show (Function.update p.gEvents maxEvents _ maxEvents).fd = _
      rw [Function.update_self, eventadd_fst]
      exact hfd
  · rw [mem_serverOwn_free.1 hr]
    exact slot_mem_serverOwn _ _
  · rcases mem_serverOwn_listening.1 hr with rfl | rfl
    · exact .inl (slot_mem_serverOwn _ _)
    · right
      show lfd ∉ p.kernel.opened
      rw [hp]
      exact hlfd

/-- **One step** keeps the table, or ends the process. -/
theorem step_spec (h : Inv T p) {op : ServerOp} (hop : p.Allowed op) :
    Yields (Stands (T maxEvents)) Crashed (p.step op) := by
  cases op with
  | tick now =>
    obtain ⟨p', hrun, h'⟩ := tick_spec h now
    have hstep : p.step (.tick now) = .ok p' := hrun
    rw [hstep]
    exact .ok h'
  | batch es => exact dispatch_spec h (steps_ready h hop.1 hop.2)

variable {raw : Ptr → Memory} {opened : Finset ℤ} {lfd now : ℤ} {ops : List ServerOp}

theorem run_spec (hlfd : lfd ∉ opened) (hops : Steps step Allowed (init raw opened lfd now) ops) :
    Yields (Stands (.listening lfd)) Crashed (run step (init raw opened lfd now) ops) := by
  refine run_yields (fun p op h hop => ?_) (init_inv raw hlfd now) hops
  obtain ⟨T, h, hmax⟩ := h
  exact hmax ▸ step_spec h hop

variable {r : Except Crash ServerProcess}

theorem final_decodes (hlfd : lfd ∉ opened)
    (hops : Steps step Allowed (init raw opened lfd now) ops)
    (hr : run step (init raw opened lfd now) ops = r) (k : ℕ) :
    Delivered (outcome (decoder k (final r))) (callsOf k (final r)) := by
  have hrun := run_spec hlfd hops
  rw [hr] at hrun
  cases hrun with
  | ok h =>
    obtain ⟨T, h, -⟩ := h
    exact (h.decodes k).2
  | error ha => exact ha.decodes k

/-- `accept_conn` reports nothing. -/
theorem accept_events {a : Accept} (h : p.accept a = .ok p') : p'.events = p.events := by
  unfold accept at h
  split at h
  · split at h <;> cases h <;> rfl
  · cases h

/-- `data_transfer` is an event of the connection. -/
theorem transfer_events (h : p.transfer i e = .ok p') :
    p'.events = Function.update p.events (p.number i) (p.events (p.number i) ++ [some e]) := by
  unfold transfer at h
  split at h
  · cases h
    rfl
  · cases h

/-- The process with the listening socket 3 and the epoll set 4. -/
def start : ServerProcess := init (fun _ _ => 0) {4} 3 0

/-- A client comes. -/
def oneClient : EpollData × ServerEvent :=
  (.ptr maxEvents, ⟨⟨true, false, [], [], 0⟩, ⟨some 5, true, 0⟩⟩)

theorem start_freeSlot : start.freeSlot = some 0 :=
  ServerTable.freeSlot_eq_some.2 ⟨rfl, by decide, fun j hj => absurd hj (Nat.not_lt_zero j)⟩

/-- It gets slot 0. -/
theorem start_accepts :
    ∃ p T x, start.callBack oneClient = .ok p ∧ Inv T p ∧ T 0 = .serving x ∧ x.Served 0 p ∧
      x.number = 0 ∧ x.state = Decoder.init ∧ p.events = (fun _ => []) ∧
      start.Takes p.toServerTable 5 0 := by
  obtain ⟨T, h, -⟩ := init_inv (fun _ _ => 0) (show (3 : ℤ) ∉ ({4} : Finset ℤ) by decide) 0
  obtain ⟨p, x, hrun, hp, htakes, hx, -⟩ := accept_takes (p := start) h
    (show (0 : ℤ) ≤ 5 by decide) (by decide) start_freeSlot 0
  have hserved : serverHolds 0 (Function.update T 0 (.serving x) 0) p := hp.table.holds 0
  rw [Function.update_self] at hserved
  exact ⟨p, _, x, hrun, hp, Function.update_self _ _ _, hserved, by rw [hx]; rfl, by rw [hx],
    accept_events hrun, htakes⟩

theorem oneClient_allowed : Steps step Allowed start [.batch [oneClient]] := by
  refine ⟨@allowed_batch_one start maxEvents 3 ⟨true, false⟩ _ rfl ?_, fun _ _ => trivial⟩
  rintro cfd ⟨⟩
  exact ⟨by decide, by decide⟩

/-- A batch of one event. -/
theorem step_batch_one (hcall : p.callBack y = .ok p') : p.step (.batch [y]) = .ok p' :=
  run_cons_ok hcall []

theorem oneClient_run (hcall : start.callBack oneClient = .ok p) :
    run step start [.batch [oneClient]] = .ok p := by
  rw [run_cons_ok (step_batch_one hcall), run_nil]

/-- The client comes, and one event is reported for it. -/
def oneEvent (e : Event) : List ServerOp :=
  [.batch [oneClient], .batch [(.ptr 0, ⟨e, ⟨none, true, 0⟩⟩)]]

theorem oneEvent_allowed (e : Event) : Steps step Allowed start (oneEvent e) := by
  obtain ⟨p, T, x, hcall, -, -, -, -, -, -, htakes⟩ := start_accepts
  have hint := htakes.registered.interest
  rw [htakes.fd, htakes.events] at hint
  refine (steps_append (oneClient_run hcall) [_]).2
    ⟨oneClient_allowed, allowed_batch_one hint ?_, fun _ _ => trivial⟩
  rintro cfd ⟨⟩

/-- A read at which the bytes `d` arrive, reported for the client. -/
theorem oneEvent_run (d : Chunk) :
    ∃ p, run step start (oneEvent (.ofRead d)) = .ok p ∧ p.events 0 = [some (.ofRead d)] ∧
      ∀ k ≠ 0, p.events k = [] := by
  obtain ⟨p, T, x, hcall, h, hT, hx, hnumber, hstate, hevents, -⟩ := start_accepts
  have hread : x.state.step (Event.ofRead d).input = .ok (x.state.read d.bytes) := by
    rw [hstate]
    rfl
  rcases transfer_spec hx h.pool (.ofRead d) with ⟨p', o, htransfer, -⟩ | ⟨-, herror⟩
  swap
  · rw [hread] at herror
    cases herror
  have hcall' : p.callBack (.ptr 0, ⟨.ofRead d, ⟨none, true, 0⟩⟩) = .ok p' := by
    simp only [callBack, hx.callBack, htransfer]
  have hlog := transfer_events htransfer
  rw [hx.number, hnumber, hevents] at hlog
  refine ⟨p', ?_, ?_, fun k hk => ?_⟩
  · rw [oneEvent, run_cons_ok (step_batch_one hcall), run_cons_ok (step_batch_one hcall'), run_nil]
  · rw [hlog, Function.update_self]
    rfl
  · rw [hlog, Function.update_of_ne hk]

/-- A frame of one byte. -/
def oneFrame : List ServerOp := oneEvent (.ofRead ⟨le 8 1 ++ [65], by decide, by decide⟩)

theorem oneFrame_allowed : Steps step Allowed start oneFrame := oneEvent_allowed _

/-- The process is stopped when a decoder is. -/
theorem final_stops (hlfd : lfd ∉ opened)
    (hops : Steps step Allowed (init raw opened lfd now) ops)
    (hr : run step (init raw opened lfd now) ops = r) :
    ((∃ a, r = .error a) ↔ ∃ k, decoder k (final r) = .error ()) ∧
      ∀ a, r = .error a → a.fault = .assertFailed .serverOutBufEmpty := by
  have hrun := run_spec hlfd hops
  rw [hr] at hrun
  cases hrun with
  | @ok p h =>
    obtain ⟨T, h, -⟩ := h
    refine ⟨iff_of_false (by simp) ?_, by simp⟩
    rintro ⟨k, hk⟩
    obtain ⟨⟨t, ht⟩, -⟩ := h.decodes k
    cases ht.symm.trans hk
  | @error a ha =>
    refine ⟨iff_of_true ⟨a, rfl⟩ ha.stray, ?_⟩
    rintro _ ⟨⟩
    exact ha.fault

/-- The successful reads on connection `k`, in order. -/
def reads (k : ℕ) (p : ServerProcess) : List (List UInt8) := readsOf (p.events k).reduceOption

/-- Nothing has ended connection `k`. -/
def Lasts (k : ℕ) (p : ServerProcess) : Prop := ∀ o ∈ p.events k, ∃ e, o = some e ∧ ¬ e.Ends

theorem reads_eq (k : ℕ) (p : ServerProcess) : p.reads k = chunks (p.inputs k) := by
  unfold reads inputs
  induction p.events k with
  | nil => rfl
  | cons o os ih =>
    cases o with
    | none => exact ih
    | some e =>
      rw [List.reduceOption_cons_of_some, readsOf_eq, List.map_cons, List.map_cons,
        Option.elim_some, ← List.singleton_append, chunks_append, ← readsOf_eq, ih,
        ← chunks_append]
      rfl

theorem Lasts.not_ended (h : p.Lasts k) : ¬ Ended (p.inputs k) := by
  unfold Ended inputs
  simp only [List.mem_map, not_or, not_exists, not_and]
  constructor
  · rintro o ho heq
    obtain ⟨e, rfl, he⟩ := h o ho
    exact he (Event.ends_iff.2 (.inl heq))
  · rintro o ho heq
    obtain ⟨e, rfl, he⟩ := h o ho
    exact he (Event.ends_iff.2 (.inr heq))

/-- What is delivered when a connection has done what its decoder has. -/
theorem calls_spec (hdel : Delivered (outcome (p.decoder k)) (p.callsOf k)) :
    (p.callsOf k).length ≤ 1 ∧
    (∀ w ∈ p.callsOf k, ∃ L, L = announced (p.reads k) ∧ ValidLen L ∧
      8 + L ≤ (p.reads k).flatten.length ∧ w.len = L ∧
      w.buffer.take L = ((p.reads k).flatten.drop 8).take L) ∧
    (p.Lasts k → (p.callsOf k ≠ [] ↔ Opened (p.reads k) ∧
      Boundary (p.reads k) (8 + announced (p.reads k)))) := by
  rw [reads_eq]
  refine ⟨hdel.length_le, fun w hw => ?_, fun hlasts => ?_⟩
  · obtain ⟨m, hm, hlen, hbuf⟩ := hdel.of_mem hw
    obtain ⟨hopen, ⟨cs, hcs, hcslen⟩, rfl⟩ := (after_run (outcome_eq_some.1 hm)).delivered
    have hle : 8 + announced (chunks (p.inputs k)) ≤ (chunks (p.inputs k)).flatten.length := by
      rw [← hcslen]
      exact hcs.flatten.length_le
    have hmlen : (bodyOf (chunks (p.inputs k))).length = announced (chunks (p.inputs k)) := by
      rw [bodyOf, List.length_take, List.length_drop]
      omega
    rw [hmlen] at hlen hbuf
    exact ⟨_, rfl, hopen.valid, hle, hlen, hbuf⟩
  · rw [hdel.ne_nil_iff]
    constructor
    · rintro ⟨m, hm⟩
      obtain ⟨hopen, hbound, -⟩ := (after_run (outcome_eq_some.1 hm)).delivered
      exact ⟨hopen, hbound⟩
    · rintro ⟨hopen, hbound⟩
      exact ⟨_, outcome_eq_some.2 ((delivers_iff hlasts.not_ended).2 ⟨hopen, hbound, rfl⟩)⟩

/-- **What is delivered**, in bytes: for a connection there is at most one call of `do_work`, with
the message that its first bytes announce, and only when all of it was received.  While nothing ends
the connection the call is made exactly when the first read has the whole length and some read ends
where the frame ends. -/
theorem server_calls (hlfd : lfd ∉ opened)
    (hops : Steps step Allowed (init raw opened lfd now) ops)
    (hr : run step (init raw opened lfd now) ops = r) (k : ℕ) :
    (callsOf k (final r)).length ≤ 1 ∧
    (∀ w ∈ callsOf k (final r), ∃ L, L = announced (reads k (final r)) ∧ ValidLen L ∧
      8 + L ≤ (reads k (final r)).flatten.length ∧ w.len = L ∧
      w.buffer.take L = ((reads k (final r)).flatten.drop 8).take L) ∧
    (Lasts k (final r) → (callsOf k (final r) ≠ [] ↔ Opened (reads k (final r)) ∧
      Boundary (reads k (final r)) (8 + announced (reads k (final r))))) :=
  calls_spec (final_decodes hlfd hops hr k)

/-- The call of `do_work` that the frame leads to. -/
theorem server_calls_oneFrame :
    ∃ p w, run step start oneFrame = .ok p ∧ p.reads 0 = [le 8 1 ++ [65]] ∧ p.Lasts 0 ∧
      p.callsOf 0 = [w] ∧ w.len = 1 ∧ w.buffer.take 1 = [65] := by
  obtain ⟨p, hrun, hevents, -⟩ := oneEvent_run ⟨le 8 1 ++ [65], by decide, by decide⟩
  have hreads : p.reads 0 = [le 8 1 ++ [65]] := by
    unfold reads
    rw [hevents]
    rfl
  have hlasts : p.Lasts 0 := by
    unfold Lasts
    rw [hevents]
    simp [Event.Ends, Event.ofRead, firstRead]
  obtain ⟨hle, hcall, hiff⟩ := server_calls (by decide) oneFrame_allowed hrun 0
  dsimp only [final] at hle hcall hiff
  rw [hreads] at hcall hiff
  obtain ⟨w, ws, hw⟩ := List.exists_cons_of_ne_nil
    ((hiff hlasts).2 ⟨⟨by decide, by decide⟩, _, List.prefix_refl _, by decide⟩)
  rw [hw] at hle hcall
  obtain rfl : ws = [] := List.length_eq_zero_iff.1 (by simpa using hle)
  obtain ⟨L, hL, -, -, hlen, hbuf⟩ := hcall w List.mem_cons_self
  obtain rfl : L = 1 := hL.trans (by decide)
  exact ⟨p, w, hrun, hreads, hlasts, hw, hlen, hbuf.trans (by decide)⟩

/-! ### The table -/

/-- Slot `i` is in use for connection `k`, which has the stream `s`. -/
structure Serves (i k : ℕ) (s : TcpStream) (p : ServerProcess) : Prop where
  slot : i < maxEvents
  status : (p.gEvents i).status = 1
  number : p.number i = k
  stream : p.streams i = some s
  sock : s.serverSock = (p.gEvents i).fd

/-- What the slots, the streams, the epoll set and the connections are to each other: the slot
behind the others listens; a slot has status 1 exactly when its descriptor is registered for it,
then it serves a connection with its own stream, and what is registered, the blocks of the pool and
the connections that are not finished are all accounted for. -/
structure Consistent (lfd : ℤ) (p : ServerProcess) : Prop where
  listens : (p.gEvents maxEvents).status = 1 ∧ (p.gEvents maxEvents).fd = lfd ∧
    (p.gEvents maxEvents).callBack = some .acceptConn
  registered : ∀ i, (p.gEvents i).status = 1 ↔
    p.kernel.interest (p.gEvents i).fd = some ⟨.ptr i, (p.gEvents i).events⟩
  serves : ∀ i < maxEvents, (p.gEvents i).status = 1 → ∃ k s, p.Serves i k s ∧
    k < p.accepted ∧ ¬ p.Finished k ∧ p.pool.Owned s.footprint
  distinct : ∀ i j k l s t, i ≠ j → p.Serves i k s → p.Serves j l t →
    k ≠ l ∧ s.serverSock ≠ t.serverSock ∧ s.footprint.Disjoint t.footprint
  fds : ∀ fd, p.kernel.interest fd ≠ none →
    ∃ i, (p.gEvents i).status = 1 ∧ (p.gEvents i).fd = fd
  blocks : ∀ q, p.pool.live q ≠ none → ∃ i k s, p.Serves i k s ∧ q ∈ s.footprint
  connections : ∀ k < p.accepted, p.Finished k ∨ ∃ i s, p.Serves i k s

theorem serves_of_served (h : x.Served i p) : p.Serves i x.number x.stream :=
  ⟨h.slot, h.reg.status, h.number, h.stream, h.fd.symm⟩

/-- A slot with status 1 serves a connection, or it is the one behind the others. -/
theorem Inv.of_status (h : Inv T p) (hi : (p.gEvents i).status = 1) :
    (i = maxEvents ∧ (p.gEvents i).Registered i p.kernel) ∨
      ∃ x, T i = .serving x ∧ x.Served i p := by
  have hholds : serverHolds i (T i) p := h.table.holds i
  cases hT : T i with
  | free =>
    rw [hT] at hholds
    have hzero : (p.gEvents i).status = 0 := hholds
    rw [hi] at hzero
    cases hzero
  | listening fd =>
    rw [hT] at hholds
    obtain ⟨heq, hreg, -⟩ := hholds
    exact .inl ⟨heq, hreg⟩
  | serving x =>
    rw [hT] at hholds
    exact .inr ⟨x, rfl, hholds⟩

theorem Inv.of_serves {s : TcpStream} (h : Inv T p) (hs : p.Serves i k s) :
    ∃ x, T i = .serving x ∧ x.Served i p ∧ x.number = k ∧ x.stream = s := by
  rcases h.of_status hs.status with ⟨heq, -⟩ | ⟨x, hT, hx⟩
  · exact absurd hs.slot (not_lt.2 heq.ge)
  · exact ⟨x, hT, hx, hx.number.symm.trans hs.number,
      Option.some.inj (hx.stream.symm.trans hs.stream)⟩

/-- The table says so. -/
theorem Inv.consistent {lfd : ℤ} (h : Inv T p) (hmax : T maxEvents = .listening lfd) :
    p.Consistent lfd := by
  have hholds : serverHolds maxEvents (T maxEvents) p := h.table.holds maxEvents
  rw [hmax] at hholds
  obtain ⟨-, hlistens, hcb, hfd⟩ := hholds
  refine ⟨⟨hlistens.status, hfd, hcb⟩, fun i => ⟨fun hi => ?_, fun hint => ?_⟩,
    fun i hi hstatus => ?_, fun i j k l s t hij hs ht => ?_, fun fd hint => ?_, fun q hq => ?_,
    fun k hk => ?_⟩
  · rcases h.of_status hi with ⟨-, hreg⟩ | ⟨x, -, hx⟩
    · exact hreg.interest
    · exact hx.reg.interest
  · obtain ⟨j, hj, ⟨hT, -⟩ | ⟨x, -, hx, -⟩⟩ := h.of_interest hint
    · cases hj
      have hholds : serverHolds i (T i) p := h.table.holds i
      rw [hT] at hholds
      exact hholds.2.1.status
    · cases hj
      exact hx.reg.status
  · rcases h.of_status hstatus with ⟨heq, -⟩ | ⟨x, -, hx⟩
    · exact absurd heq hi.ne
    · refine ⟨x.number, x.stream, serves_of_served hx, hx.accepted, ?_, hx.owned⟩
      rintro ⟨r, hrun, -⟩
      have hstate : x.state = .closed r := Except.ok.inj (hx.decoded.symm.trans hrun)
      have hopen := (sim_of_served hx h.pool).2
      rw [hstate] at hopen
      exact hopen trivial
  · obtain ⟨x, hTi, hx, rfl, rfl⟩ := h.of_serves hs
    obtain ⟨y, hTj, hy, rfl, rfl⟩ := h.of_serves ht
    have hne : ∀ r, r ∈ serverOwn i (.serving x) → r ∉ serverOwn j (.serving y) := fun r hr hr' =>
      hij (h.table.owner_unique (i := i) (j := j) (by rw [hTi]; exact hr) (by rw [hTj]; exact hr'))
    refine ⟨fun heq => ?_, fun heq => ?_, fun q hq hq' => ?_⟩
    · exact hne (.conn x.number) (by simp) (by simp [heq])
    · exact hne (.fd x.stream.serverSock) (by simp) (by simp [heq])
    · exact hne (.block q) (by simpa using hq) (by simpa using hq')
  · rcases h.owner (r := .fd fd) hint with ⟨i, f, hf, -, -, hreg, -, hfd⟩ | ⟨i, x, -, hx, hmem⟩
    · cases hf
      exact ⟨i, hreg.status, hfd⟩
    · exact ⟨i, hx.reg.status, hx.fd.trans (fd_mem_serverOwn_serving.1 hmem).symm⟩
  · rcases h.owner (r := .block q) hq with ⟨i, f, hf, -⟩ | ⟨i, x, -, hx, hmem⟩
    · cases hf
    · exact ⟨i, x.number, x.stream, serves_of_served hx, block_mem_serverOwn_serving.1 hmem⟩
  · by_cases hfin : p.Finished k
    · exact .inl hfin
    · obtain ⟨i, x, -, hx, rfl⟩ := h.serving hk hfin
      exact .inr ⟨i, x.stream, serves_of_served hx⟩

/-- **The table of the server**: a run stops at the `assert` that `out_buf` is empty, or it comes to
a consistent state. -/
theorem server_table (hlfd : lfd ∉ opened)
    (hops : Steps step Allowed (init raw opened lfd now) ops) :
    (∃ p, run step (init raw opened lfd now) ops = .ok p ∧ p.Consistent lfd) ∨
      ∃ a, run step (init raw opened lfd now) ops = .error a ∧
        a.fault = .assertFailed .serverOutBufEmpty := by
  have hrun := run_spec hlfd hops
  cases hr : run step (init raw opened lfd now) ops with
  | ok p =>
    rw [hr] at hrun
    cases hrun with
    | ok h =>
      obtain ⟨T, h, hmax⟩ := h
      exact .inl ⟨p, rfl, h.consistent hmax⟩
  | error a =>
    rw [hr] at hrun
    cases hrun with
    | error ha => exact .inr ⟨a, rfl, ha.fault⟩

theorem server_table_oneFrame :
    (∃ p, run step start oneFrame = .ok p ∧ p.Consistent 3) ∨
      ∃ a, run step start oneFrame = .error a ∧ a.fault = .assertFailed .serverOutBufEmpty :=
  server_table (by decide) oneFrame_allowed

end ServerProcess

end Jujube
