import Jujube.ClientSweep
import Jujube.ServerRun

/-!
# A round of the server's main loop

In front of `epoll_wait` the main loop looks at every slot, from where it stopped the last time on
(`Client.sweepOrder`).  Exactly the connections that were idle for ten seconds are given up then,
and nothing is left of them (`server_sweeps`).
-/

namespace Jujube

open Pool Ownership Transition Client

namespace ServerProcess

variable {p p' p₁ : ServerProcess} {x : Connection} {T : ℕ → Occupant} {D : Finset ℕ}
  {i j k c : ℕ} {now : ℤ} {s : TcpStream} {r : ServerResource}

/-- Slot `i` was idle for too long. -/
def Due (now : ℤ) (i : ℕ) (p : ServerProcess) : Prop :=
  (p.gEvents i).status = 1 ∧ 10 ≤ now - (p.gEvents i).lastActive

instance (now : ℤ) (i : ℕ) (p : ServerProcess) : Decidable (p.Due now i) := by
  unfold Due
  infer_instance

/-- The slots that were idle for too long. -/
def dueSlots (now : ℤ) (p : ServerProcess) : Finset ℕ :=
  (Finset.range maxEvents).filter fun i => p.Due now i

/-- `p'` is `p` without what the slots `D` served. -/
structure Swept (D : Finset ℕ) (T : ℕ → Occupant) (p p' : ServerProcess) : Prop where
  inv : Inv (fun i => if i ∈ D then .free else T i) p'
  frame : slots.Frame {r | ∃ i ∈ D, r ∈ serverOwn i (T i)} p p'
  closed : ∀ i ∈ D, ∀ x, T i = .serving x → x.stream.serverSock ∉ p'.kernel.opened
  calls : p'.calls = p.calls
  accepted : p'.accepted = p.accepted

namespace Swept

theorem refl (h : Inv T p) : Swept ∅ T p p where
  inv := by simpa using h
  frame := Discipline.Frame.refl _ p
  closed := by simp
  calls := rfl
  accepted := rfl

theorem set_counters (h : Swept D T p p') (hc : c ≤ maxEvents) (qps : ℕ) (nextTime : ℤ) :
    Swept D T p { p' with checkpos := c, qps := qps, nextTime := nextTime } where
  inv := h.inv.set_counters hc qps nextTime
  frame := h.frame.trans fun r _ => same_counters r p' c qps nextTime
  closed := h.closed
  calls := h.calls
  accepted := h.accepted

/-- What the other slots own is what it was. -/
theorem kept (h : Swept D T p p') (hinv : Inv T p) (hi : i ∉ D) (hr : r ∈ serverOwn i (T i)) :
    r.Same p p' := by
  refine h.frame r ?_
  rintro ⟨j, hj, hmem⟩
  exact hi (hinv.table.owner_unique hr hmem ▸ hj)

/-- What the slots `D` owned is not used any more. -/
theorem unused (h : Swept D T p p') (hinv : Inv T p) (hi : i ∈ D) (hr : r ∈ serverOwn i (T i)) :
    ¬ r.Used p' := by
  intro hused
  obtain ⟨j, hj⟩ := h.inv.table.covered r trivial hused
  have hmem : r ∈ serverOwn j (if j ∈ D then .free else T j) := hj
  by_cases hjD : j ∈ D
  · rw [if_pos hjD, mem_serverOwn_free] at hmem
    rw [hmem] at hused
    exact hused
  · rw [if_neg hjD] at hmem
    exact hjD (hinv.table.owner_unique hr hmem ▸ hi)

/-- A slot that is free now is skipped. -/
theorem status (h : Swept D T p p') (hi : i ∈ D) : (p'.gEvents i).status = 0 := by
  have hholds : serverHolds i (if i ∈ D then .free else T i) p' := h.inv.table.holds i
  rw [if_pos hi] at hholds
  exact hholds

theorem expireSlot_of_not_due (h : ¬ p.Due now i) : p.expireSlot now i = .ok p := by
  unfold Due at h
  unfold expireSlot
  by_cases hstatus : (p.gEvents i).status = 1
  · simp only [if_neg (not_not.2 hstatus)]
    exact if_neg fun hidle => h ⟨hstatus, hidle.1⟩
  · exact if_pos hstatus

/-- **One slot.**  It is given up if it was idle for too long, and if that did not happen before. -/
theorem step (h : Swept D T p p₁) (hinv : Inv T p) (hD : ∀ j ∈ D, p.Due now j)
    (hi : i < maxEvents) :
    ∃ p', p₁.expireSlot now i = .ok p' ∧ Swept (if p.Due now i then insert i D else D) T p p' := by
  by_cases hiD : i ∈ D
  · refine ⟨p₁, expireSlot_of_not_due fun hdue => ?_, ?_⟩
    · have hone := hdue.1
      rw [h.status hiD] at hone
      cases hone
    · rwa [if_pos (hD i hiD), Finset.insert_eq_of_mem hiD]
  have hslot : p₁.gEvents i = p.gEvents i :=
    (h.kept hinv hiD (slot_mem_serverOwn i (T i))).1
  by_cases hdue : p.Due now i
  swap
  · refine ⟨p₁, expireSlot_of_not_due ?_, by rwa [if_neg hdue]⟩
    unfold Due at hdue ⊢
    rwa [hslot]
  obtain ⟨x, hT, -⟩ := (hinv.of_status hdue.1).resolve_left fun heq => hi.ne heq.1
  have hholds : serverHolds i (if i ∈ D then .free else T i) p₁ := h.inv.table.holds i
  rw [if_neg hiD, hT] at hholds
  have hx : x.Served i p₁ := hholds
  have hidle : 10 ≤ now - (p₁.gEvents i).lastActive ∧ -1 ≠ (p₁.gEvents i).fd := by
    refine ⟨hslot ▸ hdue.2, ?_⟩
    have hpos := hx.nonneg
    rw [hx.fd]
    omega
  obtain ⟨p', hrun, ht, hclosed, hcalls, hacc⟩ := expireSlot_served hx h.inv.pool hidle
  rw [if_pos hdue]
  refine ⟨p', hrun, ?_, ?_, fun j hj y hy => ?_, hcalls.trans h.calls, hacc.trans h.accepted⟩
  · have hturned := h.inv.turned ht
      (by rw [if_neg hiD, hT]) fun r hr => .inl (by rwa [if_neg hiD, hT])
    convert hturned using 1
    funext j
    by_cases hj : j = i
    · rw [hj, Function.update_self, if_pos (Finset.mem_insert_self i D)]
    · rw [Function.update_of_ne hj]
      simp only [Finset.mem_insert, hj, false_or]
  · refine (h.frame.mono ?_).trans (ht.frame.mono ?_)
    · rintro r ⟨j, hj, hr⟩
      exact ⟨j, Finset.mem_insert_of_mem hj, hr⟩
    · intro r hr
      exact ⟨i, Finset.mem_insert_self i D, hT ▸ hr⟩
  · rcases Finset.mem_insert.1 hj with rfl | hjD
    · cases hT.symm.trans hy
      exact hclosed
    · have hown : .fd y.stream.serverSock ∈ serverOwn j (T j) := by
        rw [hy]
        exact fd_mem_serverOwn_serving.2 rfl
      have hother : .fd y.stream.serverSock ∉ serverOwn i (.serving x) := fun hmem =>
        hiD (hinv.table.owner_unique hown (hT ▸ hmem) ▸ hjD)
      rw [(ht.frame _ hother).1]
      exact h.closed j hjD y hy

/-- The loop, from any slot on. -/
theorem loop (n : ℕ) (h : Swept D T p p₁) (hinv : Inv T p) (hD : ∀ j ∈ D, p.Due now j)
    (hc : c ≤ maxEvents) :
    ∃ p', expireLoop now n c p₁ = .ok p' ∧
      Swept (D ∪ (sweepOrder n c).toFinset.filter fun i => p.Due now i) T p p' := by
  induction n generalizing c D p₁ with
  | zero =>
    refine ⟨_, rfl, ?_⟩
    simpa [sweepOrder] using h.set_counters hc p₁.qps p₁.nextTime
  | succ n ih =>
    have hmax : 0 < maxEvents := by decide
    obtain ⟨d, hd⟩ : ∃ d, d = if c = maxEvents then 0 else c := ⟨_, rfl⟩
    have hpos : d < maxEvents := by
      rw [hd]
      split_ifs
      · exact hmax
      · omega
    obtain ⟨p₂, hrun₂, h₂⟩ := h.step hinv hD hpos
    have hD₂ : ∀ j ∈ if p.Due now d then insert d D else D, p.Due now j := by
      intro j hj
      split_ifs at hj with hdue
      · rcases Finset.mem_insert.1 hj with rfl | hj
        · exact hdue
        · exact hD j hj
      · exact hD j hj
    obtain ⟨p', hrun', h'⟩ := ih h₂ hD₂ (Nat.succ_le_of_lt hpos)
    refine ⟨p', ?_, ?_⟩
    · simp only [expireLoop, ← hd, hrun₂, ok_bind]
      exact hrun'
    · have hunion : (D ∪ (sweepOrder (n + 1) c).toFinset.filter fun i => p.Due now i) =
          (if p.Due now d then insert d D else D) ∪
            (sweepOrder n (d + 1)).toFinset.filter fun i => p.Due now i := by
        rw [sweepOrder, ← hd, List.toFinset_cons, Finset.filter_insert]
        split_ifs
        · rw [Finset.union_insert, Finset.insert_union]
        · rfl
      rw [hunion]
      exact h'

end Swept

/-- **A round of the main loop** gives up what was idle for too long, and nothing else. -/
theorem tick_swept (h : Inv T p) (now : ℤ) :
    ∃ p', p.tick now = .ok p' ∧ Swept (p.dueSlots now) T p p' := by
  obtain ⟨q, hq⟩ : ∃ q, q = if p.nextTime ≤ now then { p with qps := 0, nextTime := now + 10 }
    else p := ⟨_, rfl⟩
  have hswept : Swept ∅ T p q := by
    rw [hq]
    split_ifs
    · exact (Swept.refl h).set_counters h.checkpos 0 (now + 10)
    · exact .refl h
  have hnone : ∀ i ∈ (∅ : Finset ℕ), p.Due now i := by simp
  have hcheckpos : q.checkpos = p.checkpos := by
    rw [hq]
    split_ifs <;> rfl
  obtain ⟨p', hrun, h'⟩ := hswept.loop (maxEvents + 1) h hnone h.checkpos
  refine ⟨p', ?_, ?_⟩
  · unfold tick
    rw [← hq]
    show expireLoop now (maxEvents + 1) q.checkpos q = .ok p'
    rw [hcheckpos]
    exact hrun
  · convert h' using 1
    ext i
    simp only [dueSlots, Finset.empty_union, Finset.mem_filter, Finset.mem_range, List.mem_toFinset]
    refine and_congr_left fun _ => ⟨mem_sweepOrder h.checkpos, lt_of_mem_sweepOrder h.checkpos⟩

/-! ### The connections -/

/-- Connection `k`, which slot `i` served with the stream `s`, was given up. -/
structure GivenUp (i k : ℕ) (s : TcpStream) (p : ServerProcess) : Prop where
  status : (p.gEvents i).status = 0
  opened : s.serverSock ∉ p.kernel.opened
  interest : p.kernel.interest s.serverSock = none
  blocks : ∀ q ∈ s.footprint, p.pool.live q = none
  finished : p.Finished k

/-- Nothing happened to connection `k`, which slot `i` serves with the stream `s`. -/
structure Untouched (i k : ℕ) (s : TcpStream) (p p' : ServerProcess) : Prop where
  serves : p'.Serves i k s
  slot : p'.gEvents i = p.gEvents i
  interest : p'.kernel.interest s.serverSock = p.kernel.interest s.serverSock
  blocks : ∀ q ∈ s.footprint, p'.pool.live q = p.pool.live q
  events : p'.events k = p.events k

variable {raw : Ptr → Bytes.Memory} {opened : Finset ℤ} {lfd start₀ : ℤ} {ops : List ServerOp}

/-- **The time-out of the server.**  In every state that a run comes to, whatever the cursor, a
round of the main loop gives up the connections that were idle for ten seconds, with all they held,
and does not touch the others or the listening socket; `do_work` is not called. -/
theorem server_sweeps (hlfd : lfd ∉ opened)
    (hops : Steps step Allowed (init raw opened lfd start₀) ops)
    (hp : run step (init raw opened lfd start₀) ops = .ok p) (now : ℤ) :
    ∃ p', p.tick now = .ok p' ∧ p'.calls = p.calls ∧ p'.accepted = p.accepted ∧
      p'.gEvents maxEvents = p.gEvents maxEvents ∧
      p'.kernel.interest lfd = p.kernel.interest lfd ∧
      ∀ i k s, p.Serves i k s →
        (p.Due now i → GivenUp i k s p') ∧ (¬ p.Due now i → Untouched i k s p p') := by
  have hrun := run_spec hlfd hops
  rw [hp] at hrun
  cases hrun with
  | ok h =>
  obtain ⟨T, h, hmax⟩ := h
  obtain ⟨p', htick, hswept⟩ := tick_swept h now
  have hlast : maxEvents ∉ p.dueSlots now := fun hmem =>
    absurd (Finset.mem_range.1 (Finset.mem_filter.1 hmem).1) (lt_irrefl _)
  refine ⟨p', htick, hswept.calls, hswept.accepted,
    (hswept.kept h hlast (slot_mem_serverOwn _ _)).1,
    (hswept.kept h hlast (hmax ▸ mem_serverOwn_listening.2 (.inr rfl)) :
      ServerResource.Same (.fd lfd) p p').2, fun i k s hs => ?_⟩
  obtain ⟨x, hT, hx, rfl, rfl⟩ := h.of_serves hs
  have hfd : .fd x.stream.serverSock ∈ serverOwn i (T i) := hT ▸ fd_mem_serverOwn_serving.2 rfl
  have hconn : .conn x.number ∈ serverOwn i (T i) := hT ▸ conn_mem_serverOwn_serving.2 rfl
  have hblock : ∀ q ∈ x.stream.footprint, .block q ∈ serverOwn i (T i) := fun q hq =>
    hT ▸ block_mem_serverOwn_serving.2 hq
  constructor
  · intro hdue
    have hi : i ∈ p.dueSlots now := Finset.mem_filter.2 ⟨Finset.mem_range.2 hs.slot, hdue⟩
    refine ⟨hswept.status hi, hswept.closed i hi x hT, not_not.1 (hswept.unused h hi hfd),
      fun q hq => not_not.1 (hswept.unused h hi (hblock q hq)), ?_⟩
    by_contra hfin
    exact hswept.unused h hi hconn ⟨hswept.accepted ▸ hx.accepted, hfin⟩
  · intro hdue
    have hi : i ∉ p.dueSlots now := fun hmem => hdue (Finset.mem_filter.1 hmem).2
    obtain ⟨hslot, hstream, hnumber, -⟩ := hswept.kept h hi (slot_mem_serverOwn i (T i))
    refine ⟨⟨hs.slot, hslot ▸ hs.status, hnumber.trans hs.number, hstream.trans hs.stream,
      hslot ▸ hs.sock⟩, hslot, (hswept.kept h hi hfd).2, fun q hq => hswept.kept h hi (hblock q hq),
      (hswept.kept h hi hconn).2.1⟩

/-- The time of a new connection begins when it is accepted. -/
theorem accept_lastActive {cfd : ℤ} (hP : p.pool.Ok) (hfree : p.freeSlot = some i)
    (hrun : p.accept ⟨some cfd, true, now⟩ = .ok p') : (p'.gEvents i).lastActive = now := by
  obtain ⟨s, P, hcreate, -⟩ := streamCreate_spec hP cfd
  unfold accept at hrun
  rw [acceptConn_eq now hcreate hfree] at hrun
  dsimp only at hrun
  split at hrun <;>
  · cases hrun
    show (Function.update p.gEvents i _ i).lastActive = now
    rw [Function.update_self, eventadd_fst]

/-- A client comes, and nothing is heard of it for ten seconds. -/
theorem server_sweeps_silent :
    ∃ p p' s, run step start [.batch [oneClient]] = .ok p ∧ p.Serves 0 0 s ∧
      p.tick 10 = .ok p' ∧ GivenUp 0 0 s p' := by
  obtain ⟨p, T, x, hcall, h, hT, hx, hnumber, -, -, -⟩ := start_accepts
  obtain ⟨p', htick, -, -, -, -, hslots⟩ :=
    server_sweeps (by decide) oneClient_allowed (oneClient_run hcall) 10
  have hserves := serves_of_served hx
  rw [hnumber] at hserves
  refine ⟨p, p', x.stream, oneClient_run hcall, hserves, htick,
    (hslots 0 0 x.stream hserves).1 ⟨hx.reg.status, ?_⟩⟩
  · have haccept : start.accept ⟨some 5, true, 0⟩ = .ok p := hcall
    rw [accept_lastActive (memModuleInit_ok _) start_freeSlot haccept]
    decide

end ServerProcess

end Jujube
