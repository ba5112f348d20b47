import Jujube.ClientTable

/-!
# `expires_house_keeping`

The cursor wraps in the middle of a loop of `MAX_EVENTS + 1` steps, so that one slot is looked at
twice and the last element of the array never (`sweepOrder`).  On a table whose registered slots do
not share descriptors or streams, a sweep does exactly what it is for: `expiresHouseKeeping_exact`.
-/

namespace Jujube

open Bytes Pool Connections

namespace Client

/-- `expires_house_keeping` finds slot `i` idle. -/
def Due (w : Client) (now exceptFd : ℤ) (i : ℕ) : Prop :=
  (w.gEvents i).status = 1 ∧ 10 ≤ now - (w.gEvents i).lastActive ∧ exceptFd ≠ (w.gEvents i).fd

instance (w : Client) (now exceptFd : ℤ) (i : ℕ) : Decidable (w.Due now exceptFd i) := by
  unfold Due
  infer_instance

variable {v w w' : Client} {i j c n : ℕ} {now exceptFd : ℤ} {s : TcpStream}

/-! ### The cursor -/

/-- The slots that a sweep of `n` steps looks at, from `checkpos` on. -/
def sweepOrder : ℕ → ℕ → List ℕ
  | 0, _ => []
  | n + 1, checkpos =>
    let checkpos := if checkpos = maxEvents then 0 else checkpos
    checkpos :: sweepOrder n (checkpos + 1)

/-- Where `checkpos` is after a sweep of `n` steps. -/
def sweepEnd : ℕ → ℕ → ℕ
  | 0, checkpos => checkpos
  | n + 1, checkpos => sweepEnd n ((if checkpos = maxEvents then 0 else checkpos) + 1)

theorem expireLoop_eq (n c : ℕ) (w : Client) :
    expireLoop now exceptFd n c w =
      (sweepOrder n c).foldlM (fun w i => w.expireSlot now exceptFd i) w >>= fun w =>
        .ok { w with checkpos := sweepEnd n c } := by
  induction n generalizing c w with
  | zero => rfl
  | succ n ih =>
    simp only [expireLoop, sweepOrder, List.foldlM_cons, bind_assoc, ih]
    rfl

theorem sweepEnd_le (hc : c ≤ maxEvents) : sweepEnd n c ≤ maxEvents := by
  induction n generalizing c with
  | zero => exact hc
  | succ n ih =>
    have hmax : 0 < maxEvents := by decide
    refine ih ?_
    split_ifs
    · omega
    · omega

theorem lt_of_mem_sweepOrder (hc : c ≤ maxEvents) (hi : i ∈ sweepOrder n c) : i < maxEvents := by
  induction n generalizing c with
  | zero => cases hi
  | succ n ih =>
    have hmax : 0 < maxEvents := by decide
    have hpos : (if c = maxEvents then 0 else c) < maxEvents := by
      split_ifs
      · exact hmax
      · omega
    rcases List.mem_cons.1 hi with rfl | hi
    · exact hpos
    · exact ih hpos hi

/-- From `c` a sweep comes to the slots behind it. -/
theorem mem_sweepOrder_of_le (hci : c ≤ i) (hi : i < maxEvents) (hn : i < c + n) :
    i ∈ sweepOrder n c := by
  induction n generalizing c with
  | zero => omega
  | succ n ih =>
    rw [sweepOrder, if_neg (by omega)]
    by_cases hc : c = i
    · exact hc ▸ List.mem_cons_self
    · exact List.mem_cons_of_mem _ (ih (by omega) (by omega))

/-- **A sweep looks at every slot.** -/
theorem mem_sweepOrder (hc : c ≤ maxEvents) (hi : i < maxEvents) :
    i ∈ sweepOrder (maxEvents + 1) c := by
  -- with enough steps left the end of the table is reached, and then slot `i`
  have key : ∀ n c, c ≤ maxEvents → maxEvents + i < c + n → i ∈ sweepOrder n c := by
    intro n
    induction n with
    | zero =>
      intro c hc hn
      omega
    | succ n ih =>
      intro c hc hn
      by_cases hend : c = maxEvents
      · rw [sweepOrder, if_pos hend]
        by_cases h0 : 0 = i
        · exact h0 ▸ List.mem_cons_self
        · exact List.mem_cons_of_mem _ (mem_sweepOrder_of_le (by omega) hi (by omega))
      · rw [sweepOrder, if_neg hend]
        exact List.mem_cons_of_mem _ (ih (c + 1) (by omega) (by omega))
  by_cases hci : c ≤ i
  · exact mem_sweepOrder_of_le hci hi (by omega)
  · exact key _ c hc (by omega)

theorem expireSlot_of_not_due (h : ¬ w.Due now exceptFd i) :
    w.expireSlot now exceptFd i = .ok w := by
  unfold Due at h
  unfold expireSlot
  by_cases hstatus : (w.gEvents i).status = 1
  · simp only [if_neg (not_not.2 hstatus)]
    exact if_neg fun hidle => h ⟨hstatus, hidle⟩
  · exact if_pos hstatus

/-- A sweep that finds no slot due changes `checkpos` and nothing else. -/
theorem expiresHouseKeeping_of_not_due (hc : w.checkpos ≤ maxEvents)
    (h : ∀ i < maxEvents, ¬ w.Due now exceptFd i) :
    w.expiresHouseKeeping now exceptFd =
      .ok { w with checkpos := sweepEnd (maxEvents + 1) w.checkpos } := by
  have key : ∀ is : List ℕ, (∀ i ∈ is, i < maxEvents) →
      is.foldlM (fun w i => w.expireSlot now exceptFd i) w = .ok w := by
    intro is his
    induction is with
    | nil => rfl
    | cons i is ih =>
      rw [List.foldlM_cons, expireSlot_of_not_due (h i (his i (by simp))), ok_bind]
      exact ih fun j hj => his j (by simp [hj])
  rw [expiresHouseKeeping, expireLoop_eq, key _ fun i hi => lt_of_mem_sweepOrder hc hi, ok_bind]

/-! ### One slot -/

/-- The stream of the connection that slot `i` serves, if there is one. -/
def slotStream (w : Client) (i : ℕ) : Option TcpStream :=
  (w.gEvents i).jc.bind fun jc => (w.conns.jconnects jc).stream.bind w.streams

theorem slotStream_of_attached {x : Transaction} (h : x.Attached i w) :
    w.slotStream i = some x.stream := by
  simp [slotStream, h.jc, h.connStream, h.stream]

/-- The registered slots of the cursor's range share neither descriptors nor streams: two streams
are in different blocks.  What a slot refers to is allocated, and its stream is on its
descriptor. -/
structure Separate (w : Client) : Prop where
  pool : w.pool.Ok
  jc : ∀ i < maxEvents, (w.gEvents i).status = 1 → ∀ jc, (w.gEvents i).jc = some jc →
    jc ∈ w.conns.allocated
  stream : ∀ i < maxEvents, (w.gEvents i).status = 1 → ∀ jc p, (w.gEvents i).jc = some jc →
    (w.conns.jconnects jc).stream = some p → ∃ s, w.streams p = some s ∧ s.self = p ∧
      s.serverSock = (w.gEvents i).fd ∧ 0 ≤ s.serverSock ∧ w.pool.Owned s.footprint
  fds : ∀ i < maxEvents, ∀ j < maxEvents, i ≠ j → (w.gEvents i).status = 1 →
    (w.gEvents j).status = 1 → (w.gEvents i).fd ≠ (w.gEvents j).fd
  streams : ∀ i < maxEvents, ∀ j < maxEvents, i ≠ j → (w.gEvents i).status = 1 →
    (w.gEvents j).status = 1 → ∀ s ∈ w.slotStream i, ∀ t ∈ w.slotStream j,
      s.footprint.Disjoint t.footprint

/-- A slot with a stream: the record and the name that lead to it. -/
theorem Separate.of_slotStream (hw : w.Separate) (hi : i < maxEvents)
    (hstatus : (w.gEvents i).status = 1) (hs : w.slotStream i = some s) :
    ∃ jc, (w.gEvents i).jc = some jc ∧ jc ∈ w.conns.allocated ∧
      (w.conns.jconnects jc).stream = some s.self ∧ w.streams s.self = some s ∧
      s.serverSock = (w.gEvents i).fd ∧ 0 ≤ s.serverSock ∧ w.pool.Owned s.footprint := by
  obtain ⟨jc, hjc, hrest⟩ := Option.bind_eq_some_iff.1 hs
  obtain ⟨p, hp, hsp⟩ := Option.bind_eq_some_iff.1 hrest
  obtain ⟨t, ht, hself, hsock, hpos, hown⟩ := hw.stream i hi hstatus jc p hjc hp
  rw [hsp, Option.some.injEq] at ht
  subst ht
  subst hself
  exact ⟨jc, hjc, hw.jc i hi hstatus jc hjc, hp, hsp, hsock, hpos, hown⟩

/-- A slot without a stream: its record has none. -/
theorem Separate.of_slotStream_none (hw : w.Separate) (hi : i < maxEvents)
    (hstatus : (w.gEvents i).status = 1) (hs : w.slotStream i = none) {jc : Ptr}
    (hjc : (w.gEvents i).jc = some jc) :
    jc ∈ w.conns.allocated ∧ (w.conns.jconnects jc).stream = none := by
  refine ⟨hw.jc i hi hstatus jc hjc, ?_⟩
  by_contra hne
  obtain ⟨p, hp⟩ := Option.ne_none_iff_exists'.1 hne
  obtain ⟨t, ht, -⟩ := hw.stream i hi hstatus jc p hjc hp
  have hsome : w.slotStream i = some t := by simp [slotStream, hjc, hp, ht]
  rw [hs] at hsome
  cases hsome

/-- `eventdel` on a slot with status 1: nothing is registered for its descriptor then. -/
theorem eventdel_status {ev : MyEvent} {K : Kernel} (h : ev.status = 1) :
    ∃ K', Jujube.eventdel i ev K = ({ ev with status := 0 }, K') ∧ K'.opened = K.opened ∧
      K'.interest = Function.update K.interest ev.fd none ∧ K'.closed = K.closed := by
  refine ⟨epollCtl .del ev.fd ⟨.ptr i, ⟨false, false⟩⟩ K, ?_, by simp, ?_, by simp⟩
  · unfold Jujube.eventdel
    rw [if_neg (not_not.2 h)]
  · by_cases hacc : K.Accepts ev.fd .del
    · rw [epollCtl_of_accepts hacc, Kernel.watch_interest]
    · -- a refused `EPOLL_CTL_DEL` leaves the set alone: the descriptor was not in it
      have hnone : K.interest ev.fd = none := by
        by_contra hne
        exact hacc ⟨K.registered _ hne, hne⟩
      unfold epollCtl
      rw [dif_neg hacc, ← hnone, Function.update_eq_self]

/-- A slot that is due and has no stream is deregistered. -/
theorem expireSlot_idle (hdue : w.Due now exceptFd i)
    (hjc : ∀ jc, (w.gEvents i).jc = some jc →
      jc ∈ w.conns.allocated ∧ (w.conns.jconnects jc).stream = none) :
    ∃ K', w.expireSlot now exceptFd i = .ok { w with
        kernel := K'
        gEvents := Function.update w.gEvents i { w.gEvents i with status := 0 } } ∧
      K'.opened = w.kernel.opened ∧ K'.closed = w.kernel.closed ∧
      K'.interest = Function.update w.kernel.interest (w.gEvents i).fd none := by
  obtain ⟨K', hdel, hopened, hinterest, hclosed⟩ :=
    @eventdel_status i (w.gEvents i) w.kernel hdue.1
  refine ⟨K', ?_, hopened, hclosed, hinterest⟩
  unfold expireSlot
  simp only [if_neg (not_not.2 hdue.1)]
  refine (if_pos hdue.2).trans ?_
  cases hslot : (w.gEvents i).jc with
  | none =>
    simp only [closeStream, Client.eventdel, hdel, setEvent, Function.update_self, hslot,
      pure_eq_ok]
  | some jc =>
    obtain ⟨halloc, hnone⟩ := hjc jc hslot
    simp only [closeStream, Client.eventdel, hdel, setEvent, Function.update_self, hslot,
      get_of_mem halloc, ok_bind, hnone, pure_eq_ok]

/-- A slot that is due and has a stream is deregistered, its descriptor is closed and the stream
freed. -/
theorem expireSlot_stream (hdue : w.Due now exceptFd i) {jc p : Ptr}
    (hjc : (w.gEvents i).jc = some jc) (halloc : jc ∈ w.conns.allocated)
    (hconn : (w.conns.jconnects jc).stream = some p) (hs : w.streams p = some s)
    (hsock : 0 ≤ s.serverSock) (hP : w.pool.Ok) (hown : w.pool.Owned s.footprint) :
    ∃ K' P', w.expireSlot now exceptFd i = .ok { w with
        kernel := K'
        pool := P'
        streams := Function.update w.streams p none
        gEvents := Function.update w.gEvents i { w.gEvents i with status := 0 } } ∧
      K'.opened = w.kernel.opened.erase (w.gEvents i).fd ∧
      K'.closed = w.kernel.closed ++ [(w.gEvents i).fd] ∧
      K'.interest = Function.update w.kernel.interest (w.gEvents i).fd none ∧ P'.Ok ∧
      P'.live = fun q => if q ∈ s.footprint then none else w.pool.live q := by
  obtain ⟨K', hdel, hopened, hinterest, hclosed⟩ :=
    @eventdel_status i (w.gEvents i) w.kernel hdue.1
  obtain ⟨P', hclose, hP', hlive⟩ := @closeStream_of_status i { w.gEvents i with status := 0 } K'
    w.pool s (show (0 : ℤ) ≠ 1 by decide) hsock hP hown
  refine ⟨K'.close (w.gEvents i).fd, P', ?_, by simp [hopened], by simp [hclosed], ?_, hP', hlive⟩
  · unfold expireSlot
    simp only [if_neg (not_not.2 hdue.1)]
    refine (if_pos hdue.2).trans ?_
    simp only [hjc] at hclose
    simp only [Client.closeStream, Client.eventdel, hdel, setEvent, Function.update_self, hjc,
      get_of_mem halloc, ok_bind, hconn, hs, fetch_some, hclose, pure_eq_ok, Function.update_idem]
  · rw [Kernel.close_interest, hinterest, Function.update_idem]

/-! ### The whole sweep -/

/-- `v` is what a sweep that has come to the slots `D` has made of `w`: they have status 0 and
nothing is registered for their descriptors, the streams of those that had one are freed and their
descriptors closed, each once, and everything else is as it was. -/
structure Swept (D : Finset ℕ) (w v : Client) : Prop where
  conns : v.conns = w.conns
  tickleFd : v.tickleFd = w.tickleFd
  slots : ∀ i, v.gEvents i =
    if i ∈ D then { w.gEvents i with status := 0 } else w.gEvents i
  deregistered : ∀ i ∈ D, v.kernel.interest (w.gEvents i).fd = none
  interest : ∀ fd, (∀ i ∈ D, (w.gEvents i).fd ≠ fd) → v.kernel.interest fd = w.kernel.interest fd
  closes : ∃ fds : List ℤ, fds.Nodup ∧
    (∀ fd, fd ∈ fds ↔ ∃ i ∈ D, w.slotStream i ≠ none ∧ (w.gEvents i).fd = fd) ∧
    v.kernel.closed = w.kernel.closed ++ fds ∧ v.kernel.opened = w.kernel.opened \ fds.toFinset
  pool : v.pool.Ok
  freed : ∀ i ∈ D, ∀ s ∈ w.slotStream i, v.streams s.self = none ∧
    ∀ q ∈ s.footprint, v.pool.live q = none
  streams : ∀ p, (∀ i ∈ D, ∀ s ∈ w.slotStream i, p ≠ s.self) → v.streams p = w.streams p
  live : ∀ q, (∀ i ∈ D, ∀ s ∈ w.slotStream i, q ∉ s.footprint) → v.pool.live q = w.pool.live q

theorem Swept.refl (hP : w.pool.Ok) : Swept ∅ w w := by
  refine ⟨rfl, rfl, ?_, ?_, fun _ _ => rfl, ⟨[], ?_⟩, hP, ?_, fun _ _ => rfl, fun _ _ => rfl⟩ <;>
    simp

variable {D : Finset ℕ}

theorem Swept.slots_insert (h : Swept D w v) (j : ℕ) :
    Function.update v.gEvents i { w.gEvents i with status := 0 } j =
      if j ∈ insert i D then { w.gEvents j with status := 0 } else w.gEvents j := by
  by_cases hji : j = i
  · simp [hji]
  · simp [hji, h.slots j]

theorem Swept.interest_insert (h : Swept D w v) {K' : Kernel}
    (hinterest : K'.interest = Function.update v.kernel.interest (w.gEvents i).fd none) :
    (∀ j ∈ insert i D, K'.interest (w.gEvents j).fd = none) ∧
      ∀ fd, (∀ j ∈ insert i D, (w.gEvents j).fd ≠ fd) →
        K'.interest fd = w.kernel.interest fd := by
  rw [hinterest]
  constructor
  · intro j hj
    rw [Function.update_apply]
    split_ifs with hfd
    · rfl
    · exact h.deregistered j ((Finset.mem_insert.1 hj).resolve_left fun hji => hfd (hji ▸ rfl))
  · intro fd hfd
    rw [Function.update_of_ne (Ne.symm (hfd i (by simp)))]
    exact h.interest fd fun j hj => hfd j (by simp [hj])

/-- The sweep comes to a slot without a stream. -/
theorem Swept.idle (h : Swept D w v) (hnone : w.slotStream i = none) {K' : Kernel}
    (hopened : K'.opened = v.kernel.opened) (hclosed : K'.closed = v.kernel.closed)
    (hinterest : K'.interest = Function.update v.kernel.interest (w.gEvents i).fd none) :
    Swept (insert i D) w { v with
      kernel := K'
      gEvents := Function.update v.gEvents i { w.gEvents i with status := 0 } } := by
  obtain ⟨fds, hnodup, hfds, hcl, hop⟩ := h.closes
  refine ⟨h.conns, h.tickleFd, h.slots_insert, (h.interest_insert hinterest).1,
    (h.interest_insert hinterest).2, ⟨fds, hnodup, fun fd => ?_, hclosed.trans hcl,
      hopened.trans hop⟩, h.pool, fun j hj s hs => ?_, fun p hp => ?_, fun q hq => ?_⟩
  · rw [hfds]
    simp [hnone]
  · rcases Finset.mem_insert.1 hj with rfl | hj
    · rw [hnone] at hs
      cases hs
    · exact h.freed j hj s hs
  · exact h.streams p fun j hj => hp j (by simp [hj])
  · exact h.live q fun j hj => hq j (by simp [hj])

/-- The sweep comes to a slot with a stream. -/
theorem Swept.stream (h : Swept D w v) (hs : w.slotStream i = some s) {K' : Kernel} {P' : Pool}
    (hnew : ∀ j ∈ D, (w.gEvents j).fd ≠ (w.gEvents i).fd)
    (hopened : K'.opened = v.kernel.opened.erase (w.gEvents i).fd)
    (hclosed : K'.closed = v.kernel.closed ++ [(w.gEvents i).fd])
    (hinterest : K'.interest = Function.update v.kernel.interest (w.gEvents i).fd none)
    (hP' : P'.Ok) (hlive : P'.live = fun q => if q ∈ s.footprint then none else v.pool.live q) :
    Swept (insert i D) w { v with
      kernel := K'
      pool := P'
      streams := Function.update v.streams s.self none
      gEvents := Function.update v.gEvents i { w.gEvents i with status := 0 } } := by
  obtain ⟨fds, hnodup, hfds, hcl, hop⟩ := h.closes
  have hfresh : (w.gEvents i).fd ∉ fds := by
    intro hmem
    obtain ⟨j, hj, -, hfd⟩ := (hfds _).1 hmem
    exact hnew j hj hfd
  refine ⟨h.conns, h.tickleFd, h.slots_insert, (h.interest_insert hinterest).1,
    (h.interest_insert hinterest).2, ⟨fds ++ [(w.gEvents i).fd], ?_, fun fd => ?_, ?_, ?_⟩, hP',
    fun j hj t ht => ?_, fun p hp => ?_, fun q hq => ?_⟩
  · refine List.nodup_append.2 ⟨hnodup, by simp, ?_⟩
    simpa using fun a ha => ne_of_mem_of_not_mem ha hfresh
  · rw [List.mem_append, hfds, Finset.exists_mem_insert, List.mem_singleton]
    simp [hs, or_comm, eq_comm]
  · show K'.closed = _
    rw [hclosed, hcl, List.append_assoc]
  · show K'.opened = _
    rw [hopened, hop]
    ext fd
    simp only [Finset.mem_erase, Finset.mem_sdiff, List.mem_toFinset, List.mem_append,
      List.mem_singleton]
    tauto
  · show Function.update v.streams s.self none t.self = none ∧ ∀ q ∈ t.footprint, P'.live q = none
    rw [hlive]
    rcases Finset.mem_insert.1 hj with rfl | hj
    · rw [hs] at ht
      cases ht
      exact ⟨Function.update_self _ _ _, fun q hq => if_pos hq⟩
    · obtain ⟨hstreams, hblocks⟩ := h.freed j hj t ht
      refine ⟨?_, fun q hq => ?_⟩
      · rw [Function.update_apply]
        split_ifs
        · rfl
        · exact hstreams
      · show (if q ∈ s.footprint then none else v.pool.live q) = none
        split_ifs
        · rfl
        · exact hblocks q hq
  · show Function.update v.streams s.self none p = w.streams p
    rw [Function.update_of_ne (hp i (by simp) s hs)]
    exact h.streams p fun j hj => hp j (by simp [hj])
  · show P'.live q = w.pool.live q
    rw [hlive]
    show (if q ∈ s.footprint then none else v.pool.live q) = w.pool.live q
    rw [if_neg (hq i (by simp) s hs)]
    exact h.live q fun j hj => hq j (by simp [hj])

/-- **One step of the sweep**: a slot that was due is deregistered, any other is left alone. -/
theorem Swept.step (h : Swept D w v) (hw : w.Separate)
    (hD : ∀ j ∈ D, j < maxEvents ∧ w.Due now exceptFd j) (hi : i < maxEvents) :
    ∃ v', v.expireSlot now exceptFd i = .ok v' ∧
      Swept (if w.Due now exceptFd i then insert i D else D) w v' := by
  have hslot := h.slots i
  by_cases hiD : i ∈ D
  · -- the cursor comes to a slot a second time
    rw [if_pos hiD] at hslot
    refine ⟨v, expireSlot_of_not_due fun hdue => ?_, ?_⟩
    · rw [Due, hslot] at hdue
      exact absurd hdue.1 (show (0 : ℤ) ≠ 1 by decide)
    · rwa [if_pos (hD i hiD).2, Finset.insert_eq_of_mem hiD]
  rw [if_neg hiD] at hslot
  by_cases hdue : w.Due now exceptFd i
  · have hdue' : v.Due now exceptFd i := by rwa [Due, hslot]
    have hne : ∀ j ∈ D, j ≠ i := fun j hj hji => hiD (hji ▸ hj)
    rw [if_pos hdue]
    cases hs : w.slotStream i with
    | none =>
      obtain ⟨K', hrun, hopened, hclosed, hinterest⟩ := expireSlot_idle hdue' (by
        rw [hslot, h.conns]
        exact fun jc hjc => hw.of_slotStream_none hi hdue.1 hs hjc)
      rw [hslot] at hrun hinterest
      exact ⟨_, hrun, h.idle hs hopened hclosed hinterest⟩
    | some s =>
      obtain ⟨jc, hjc, halloc, hconn, hstream, -, hsock, hown⟩ := hw.of_slotStream hi hdue.1 hs
      -- what the sweep freed before is not this stream's
      have hnotin : ∀ q ∈ s.footprint, ∀ j ∈ D, ∀ t ∈ w.slotStream j, q ∉ t.footprint :=
        fun q hq j hj t ht =>
          hw.streams i hi j (hD j hj).1 (hne j hj).symm hdue.1 (hD j hj).2.1 s hs t ht hq
      have hstream' : v.streams s.self = some s := by
        rw [h.streams s.self fun j hj t ht hself => ?_, hstream]
        exact hnotin _ s.self_mem_footprint j hj t ht (hself ▸ t.self_mem_footprint)
      have hown' : v.pool.Owned s.footprint :=
        hown.of_live_eq fun q hq => h.live q (hnotin q hq)
      obtain ⟨K', P', hrun, hopened, hclosed, hinterest, hP', hlive⟩ := expireSlot_stream hdue'
        (hslot ▸ hjc) (h.conns ▸ halloc) (h.conns ▸ hconn) hstream' hsock h.pool hown'
      rw [hslot] at hrun hopened hclosed hinterest
      refine ⟨_, hrun, h.stream hs (fun j hj => ?_) hopened hclosed hinterest hP' hlive⟩
      exact hw.fds j (hD j hj).1 i hi (hne j hj) (hD j hj).2.1 hdue.1
  · refine ⟨v, expireSlot_of_not_due ?_, ?_⟩
    · rwa [Due, hslot]
    · rwa [if_neg hdue]

/-- The slots that a sweep deregisters. -/
def dueSlots (w : Client) (now exceptFd : ℤ) : Finset ℕ :=
  (Finset.range maxEvents).filter (w.Due now exceptFd)

/-- A run of the loop over some slots. -/
theorem Swept.run (h : Swept D w v) (hw : w.Separate)
    (hD : ∀ j ∈ D, j < maxEvents ∧ w.Due now exceptFd j) {is : List ℕ}
    (his : ∀ i ∈ is, i < maxEvents) :
    ∃ v', is.foldlM (fun w i => w.expireSlot now exceptFd i) v = .ok v' ∧
      Swept (D ∪ is.toFinset.filter (w.Due now exceptFd)) w v' := by
  induction is generalizing D v with
  | nil => exact ⟨v, rfl, by simpa using h⟩
  | cons i is ih =>
    have hi := his i (by simp)
    obtain ⟨v₁, hrun₁, h₁⟩ := h.step hw hD hi
    have hD₁ : ∀ j ∈ if w.Due now exceptFd i then insert i D else D,
        j < maxEvents ∧ w.Due now exceptFd j := by
      intro j hj
      split_ifs at hj with hdue
      · rcases Finset.mem_insert.1 hj with rfl | hj
        · exact ⟨hi, hdue⟩
        · exact hD j hj
      · exact hD j hj
    obtain ⟨v', hrun, h'⟩ := ih h₁ hD₁ fun j hj => his j (by simp [hj])
    refine ⟨v', by rw [List.foldlM_cons, hrun₁, ok_bind, hrun], ?_⟩
    rw [List.toFinset_cons, Finset.filter_insert]
    by_cases hdue : w.Due now exceptFd i
    · rw [if_pos hdue] at h' ⊢
      rwa [Finset.union_insert, ← Finset.insert_union]
    · rw [if_neg hdue] at h' ⊢
      exact h'

/-- **An idle sweep is complete and exact**: whatever the table and wherever the cursor is, it
deregisters the slots that are due, each once, and nothing else. -/
theorem expiresHouseKeeping_exact (hw : w.Separate) (hc : w.checkpos ≤ maxEvents)
    (now exceptFd : ℤ) :
    ∃ w', w.expiresHouseKeeping now exceptFd = .ok w' ∧ w'.checkpos ≤ maxEvents ∧
      Swept (w.dueSlots now exceptFd) w w' := by
  have hvisited : (sweepOrder (maxEvents + 1) w.checkpos).toFinset = Finset.range maxEvents := by
    ext i
    rw [List.mem_toFinset, Finset.mem_range]
    exact ⟨lt_of_mem_sweepOrder hc, mem_sweepOrder hc⟩
  obtain ⟨v, hrun, hv⟩ := @Swept.run w w now exceptFd ∅ (.refl hw.pool) hw
    (fun j hj => absurd hj (Finset.notMem_empty j)) (sweepOrder (maxEvents + 1) w.checkpos)
    fun i hi => lt_of_mem_sweepOrder hc hi
  rw [Finset.empty_union, hvisited] at hv
  have hend : sweepEnd (maxEvents + 1) w.checkpos ≤ maxEvents := sweepEnd_le hc
  have hrun' : w.expiresHouseKeeping now exceptFd =
      .ok { v with checkpos := sweepEnd (maxEvents + 1) w.checkpos } := by
    rw [expiresHouseKeeping, expireLoop_eq, hrun, ok_bind]
  generalize sweepEnd (maxEvents + 1) w.checkpos = c at hrun' hend
  refine ⟨{ v with checkpos := c }, hrun', hend, ?_⟩
  exact ⟨hv.conns, hv.tickleFd, hv.slots, hv.deregistered, hv.interest, hv.closes, hv.pool,
    hv.freed, hv.streams, hv.live⟩

/-- Slot 3 watches an idle connection on descriptor 5, slot 7 serves the stream `s` on descriptor 6,
and the cursor is at the end. -/
def idleTable (s : TcpStream) (P : Pool) : Client where
  kernel := ((Kernel.unwatched {5, 6}).watch 5 (some ⟨.ptr 3, ⟨true, false⟩⟩)
    (by simp [Kernel.unwatched])).watch 6 (some ⟨.ptr 7, ⟨false, true⟩⟩)
      (by simp [Kernel.watch, Kernel.unwatched])
  pool := P
  streams := Function.update (fun _ => none) s.self (some s)
  conns := (initConnectPool.malloc 0 ⟨5, true, 1, .connEstab, none⟩).malloc 1
    ⟨6, true, 1, .connEstab, some s.self⟩
  gEvents := Function.update (Function.update (fun _ => MyEvent.zero) 3
    ⟨5, ⟨true, false⟩, some .keepaliveCb, 1, 0, some 0⟩) 7
      ⟨6, ⟨false, true⟩, some .dataTransfer, 1, 0, some 1⟩
  checkpos := maxEvents
  tickleFd := 3

section

variable {P : Pool}

theorem idleTable_three :
    (idleTable s P).gEvents 3 = ⟨5, ⟨true, false⟩, some .keepaliveCb, 1, 0, some 0⟩ := rfl

theorem idleTable_seven :
    (idleTable s P).gEvents 7 = ⟨6, ⟨false, true⟩, some .dataTransfer, 1, 0, some 1⟩ := rfl

/-- The slots of the table with status 1. -/
theorem idleTable_status : ((idleTable s P).gEvents i).status = 1 ↔ i = 3 ∨ i = 7 := by
  constructor
  · intro hi
    by_contra hne
    obtain ⟨h3, h7⟩ := not_or.1 hne
    have hzero : (idleTable s P).gEvents i = MyEvent.zero := by simp [idleTable, h3, h7]
    rw [hzero] at hi
    exact absurd hi (show (0 : ℤ) ≠ 1 by decide)
  · rintro (rfl | rfl) <;> rfl

theorem idleTable_slotStream_three : (idleTable s P).slotStream 3 = none := by
  simp [slotStream, idleTable, Connections.malloc]

theorem idleTable_separate (h : Created 6 (memModuleInit fun _ _ => 0) s P) :
    (idleTable s P).Separate := by
  refine ⟨h.extends_.ok, fun i _ hi jc hjc => ?_, fun i _ hi jc p hjc hp => ?_,
    fun i _ j _ hij hi hj => ?_, fun i _ j _ hij hi hj u hu t ht => ?_⟩
  · rcases idleTable_status.1 hi with rfl | rfl
    · obtain rfl : (0 : Ptr) = jc := Option.some.inj hjc
      simp [idleTable, Connections.malloc]
    · obtain rfl : (1 : Ptr) = jc := Option.some.inj hjc
      simp [idleTable, Connections.malloc]
  · rcases idleTable_status.1 hi with rfl | rfl
    · obtain rfl : (0 : Ptr) = jc := Option.some.inj hjc
      cases hp
    · obtain rfl : (1 : Ptr) = jc := Option.some.inj hjc
      obtain rfl : s.self = p := Option.some.inj hp
      have hs : (idleTable s P).streams s.self = some s := by simp [idleTable]
      refine ⟨s, hs, rfl, h.sock, ?_, h.extends_.owned⟩
      rw [h.sock]
      norm_num
  · rcases idleTable_status.1 hi with rfl | rfl <;> rcases idleTable_status.1 hj with rfl | rfl
    · exact absurd rfl hij
    · exact show (5 : ℤ) ≠ 6 by norm_num
    · exact show (6 : ℤ) ≠ 5 by norm_num
    · exact absurd rfl hij
  · -- only one of the two slots has a stream
    rcases idleTable_status.1 hi with rfl | rfl
    · rw [idleTable_slotStream_three] at hu
      cases hu
    · rcases idleTable_status.1 hj with rfl | rfl
      · rw [idleTable_slotStream_three] at ht
        cases ht
      · exact absurd rfl hij

/-- Both slots have been idle for ten seconds. -/
theorem idleTable_dueSlots : (idleTable s P).dueSlots 10 3 = {3, 7} := by
  ext i
  simp only [dueSlots, Finset.mem_filter, Finset.mem_range, Finset.mem_insert,
    Finset.mem_singleton]
  constructor
  · rintro ⟨-, hdue⟩
    exact idleTable_status.1 hdue.1
  · rintro (rfl | rfl)
    · exact ⟨by decide, rfl, by rw [idleTable_three]; norm_num, by rw [idleTable_three]; norm_num⟩
    · exact ⟨by decide, rfl, by rw [idleTable_seven]; norm_num, by rw [idleTable_seven]; norm_num⟩

end

theorem expiresHouseKeeping_exact_idleTable :
    ∃ s P w', streamCreate 6 (memModuleInit fun _ _ => 0) = .ok (s, P) ∧
      (idleTable s P).expiresHouseKeeping 10 3 = .ok w' ∧ w'.checkpos ≤ maxEvents ∧
      Swept {3, 7} (idleTable s P) w' := by
  obtain ⟨s, P, hcreate, hcreated⟩ := streamCreate_spec (memModuleInit_ok fun _ _ => 0) 6
  obtain ⟨w', hrun, hcheckpos, hswept⟩ :=
    expiresHouseKeeping_exact (idleTable_separate hcreated) le_rfl 10 3
  exact ⟨s, P, w', hcreate, hrun, hcheckpos, idleTable_dueSlots ▸ hswept⟩

end Client

end Jujube
