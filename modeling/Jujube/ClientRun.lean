import Jujube.ClientCreate
import Jujube.ClientSweep
import Jujube.Foundation.Transition

/-!
# Runs of the client

From `Client.init`, transactions are created, idle slots are swept and batches of events are
dispatched, in any order.  `client_table` is what the slots, the connections, the streams and the
epoll set are to each other in every state; `client_records_iff` is the exact condition on a run
under which no connection record is lost.
-/

namespace Jujube

open Bytes Pool Connections Ownership Transition

namespace Client

/-- What `epoll_wait` may return: what is registered for some of the descriptors, each reported
once. -/
def Reported (w : Client) (es : List (EpollData × Event)) : Prop :=
  ∃ fds : List ℤ, fds.Nodup ∧
    List.Forall₂ (fun fd e => ∃ m, w.kernel.interest fd = some ⟨e.1, m⟩) fds es

/-- What the system promises and what the program relies on: new addresses and descriptors are not
in use, a new connection finds a free slot, and what is reported is registered. -/
def Allowed (w : Client) : ClientOp → Prop
  | .create _ d => d.Ok w.conns w.kernel ∧
      (d.Connects → ∃ i < maxEvents, (w.gEvents i).status = 0)
  | .sweep _ => True
  | .batch es => w.Reported es

variable {K : Set Resource} {T T' : ℕ → Option Transaction} {x : Transaction} {v w w' : Client}
  {i j c n : ℕ} {now exceptFd : ℤ}

/-! ### The table -/

/-- What is said of a slot that serves a transaction. -/
theorem Inv.serves (h : Inv K T w) (hT : T i = some x) : x.Serves i w := by
  have hholds : slotHolds i (T i) w := h.table.holds i
  rw [hT] at hholds
  exact hholds

theorem Inv.status_of_none (h : Inv K T w) (hT : T i = none) : (w.gEvents i).status = 0 := by
  have hholds : slotHolds i (T i) w := h.table.holds i
  rw [hT] at hholds
  exact hholds

/-- The slots with status 1 are those that serve a transaction. -/
theorem Inv.status_iff (h : Inv K T w) : (w.gEvents i).status = 1 ↔ ∃ x, T i = some x := by
  cases hT : T i with
  | none => simp [h.status_of_none hT]
  | some x => simp [(h.serves hT).reg.status]

/-- The slot that a registered descriptor leads to serves a transaction on it. -/
theorem Inv.of_interest (h : Inv K T w) {fd : ℤ} (hK : .fd fd ∈ K) {m : Mask}
    (hint : w.kernel.interest fd = some ⟨.ptr i, m⟩) :
    ∃ x, T i = some x ∧ x.stream.serverSock = fd := by
  obtain ⟨j, hj⟩ := h.table.covered (.fd fd) hK ⟨i, m, hint⟩
  cases hT : T j with
  | none =>
    have hmem : Resource.fd fd ∈ slotOwn j none := hT ▸ hj
    cases mem_slotOwn_none.1 hmem
  | some x =>
    have hmem : Resource.fd fd ∈ slotOwn j (some x) := hT ▸ hj
    have hfd := fd_mem_slotOwn_some.1 hmem
    have hx := h.serves hT
    have hreg := hx.reg.interest
    rw [hx.fd, ← hfd, hint] at hreg
    cases hreg
    exact ⟨x, hT, hfd.symm⟩

/-! ### A batch of events -/

/-- One callback keeps the table, and every other registration. -/
theorem callBack_inv (h : Inv K T w) (hT : T i = some x) (e : Event) :
    ∃ w' T', w.callBack i e = .ok w' ∧ Inv K T' w' ∧
      ∀ fd ≠ x.stream.serverSock, w'.kernel.interest fd = w.kernel.interest fd := by
  obtain ⟨w', o, hrun, hhandled⟩ := callBack_spec (h.serves hT) h.sound.pool e
  refine ⟨w', _, hrun, h.served ((hhandled.mono (Set.subset_univ K)).served h.sound) ?_
    fun r hr => .inl ?_, fun fd hfd => ?_⟩
  · rw [hT]
  · rw [hT]
    exact hr
  · have hsame : Resource.Same (.fd fd) w w' := hhandled.frame (.fd fd) (by simpa using hfd)
    exact hsame.2

/-- An event of one slot. -/
theorem reported_one (h : (w.gEvents i).Registered i w.kernel) (e : Event) :
    w.Reported [(.ptr i, e)] :=
  ⟨[(w.gEvents i).fd], List.nodup_singleton _, .cons ⟨_, h.interest⟩ .nil⟩

/-- What else is reported stays registered when one registration changes. -/
theorem reported_of_frame {fd : ℤ} {fds : List ℤ} {es : List (EpollData × Event)}
    (hframe : ∀ f ≠ fd, w'.kernel.interest f = w.kernel.interest f) (hnotin : fd ∉ fds)
    (hes : List.Forall₂ (fun fd e => ∃ m, w.kernel.interest fd = some ⟨e.1, m⟩) fds es) :
    List.Forall₂ (fun fd e => ∃ m, w'.kernel.interest fd = some ⟨e.1, m⟩) fds es := by
  refine List.forall₂_iff_get.2 ⟨hes.length_eq, fun k h₁ h₂ => ?_⟩
  obtain ⟨m, hm⟩ := hes.get h₁ h₂
  refine ⟨m, ?_⟩
  rw [hframe, hm]
  rintro rfl
  exact hnotin (List.get_mem fds ⟨k, h₁⟩)

/-- **A batch of events**, in any order, keeps the table: a callback does not touch what the other
events of the batch refer to. -/
theorem dispatch_inv (h : Inv K T w) (hK : ∀ fd, .fd fd ∈ K) {es : List (EpollData × Event)}
    (hes : w.Reported es) : ∃ w' T', dispatch es w = .ok w' ∧ Inv K T' w' := by
  obtain ⟨fds, hnodup, hreported⟩ := hes
  induction es generalizing w T fds with
  | nil => exact ⟨w, T, rfl, h⟩
  | cons y es ih =>
    cases hreported with
    | @cons fd _ fds _ hy hrest =>
      obtain ⟨hnotin, hnodup'⟩ := List.nodup_cons.1 hnodup
      obtain ⟨data, e⟩ := y
      cases data with
      | fd f => exact ih h fds hnodup' hrest
      | ptr i =>
        obtain ⟨m, hint⟩ := hy
        obtain ⟨x, hT, hsock⟩ := h.of_interest (hK fd) hint
        obtain ⟨w₁, T₁, hrun, h₁, hframe⟩ := callBack_inv h hT e
        rw [hsock] at hframe
        obtain ⟨w', T', hrun', h'⟩ :=
          ih h₁ fds hnodup' (reported_of_frame hframe hnotin hrest)
        exact ⟨w', T', by rw [dispatch, hrun, ok_bind, hrun'], h'⟩

/-! ### A sweep -/

/-- A slot that is due loses its transaction; the records are left alone. -/
theorem expireSlot_of_due (h : Inv K T w) (hK : ∀ jc, .conn jc ∉ K) (hdue : w.Due now exceptFd i) :
    ∃ w', w.expireSlot now exceptFd i = .ok w' ∧ Inv K (Function.update T i none) w' ∧
      w'.conns = w.conns ∧ ∀ j ≠ i, w'.gEvents j = w.gEvents j := by
  obtain ⟨x, hT⟩ := h.status_iff.1 hdue.1
  obtain ⟨w', hrun, hconns, hhandled⟩ := expire_spec (h.serves hT).toAttached h.sound.pool
  have hK' : K ⊆ {r | ∀ jc, r ≠ .conn jc} := by
    rintro r hr jc rfl
    exact hK jc hr
  refine ⟨w', ?_, h.served ((hhandled.mono hK').served h.sound) ?_ fun r hr => .inl ?_, hconns,
    fun j hj => ?_⟩
  · unfold expireSlot
    simp only [if_neg (not_not.2 hdue.1)]
    exact (if_pos hdue.2).trans hrun
  · rw [hT]
  · rw [hT]
    exact hr
  · exact hhandled.frame (.slot j) (by simpa using hj)

/-- The slots that a sweep looks at: those that are due lose their transactions. -/
theorem expireSlots_inv (h : Inv K T w) (hK : ∀ jc, .conn jc ∉ K) (now exceptFd : ℤ)
    (is : List ℕ) :
    ∃ w' T', is.foldlM (fun w i => w.expireSlot now exceptFd i) w = .ok w' ∧ Inv K T' w' ∧
      w'.conns = w.conns ∧ (∀ j, T' j = T j ∨ T' j = none) ∧
      ∀ i ∈ is, w.Due now exceptFd i → T' i = none := by
  induction is generalizing w T with
  | nil => exact ⟨w, T, rfl, h, rfl, fun _ => .inl rfl, by simp⟩
  | cons i is ih =>
    by_cases hdue : w.Due now exceptFd i
    · obtain ⟨w₁, hrun₁, h₁, hconns₁, hslots₁⟩ := expireSlot_of_due h hK hdue
      obtain ⟨w', T', hrun, h', hconns, hT', hlost⟩ := ih h₁
      have hi : T' i = none := by
        rcases hT' i with hi | hi
        · rw [hi, Function.update_self]
        · exact hi
      refine ⟨w', T', ?_, h', hconns.trans hconns₁, fun j => ?_, fun j hj hdue' => ?_⟩
      · rw [List.foldlM_cons, hrun₁, ok_bind, hrun]
      · by_cases hji : j = i
        · exact .inr (hji ▸ hi)
        · rw [← Function.update_of_ne hji none T]
          exact hT' j
      · by_cases hji : j = i
        · exact hji ▸ hi
        · refine hlost j ((List.mem_cons.1 hj).resolve_left hji) ?_
          unfold Due at hdue' ⊢
          rwa [hslots₁ j hji]
    · obtain ⟨w', T', hrun, h', hconns, hT', hlost⟩ := ih h
      refine ⟨w', T', ?_, h', hconns, hT', fun j hj hdue' => ?_⟩
      · rw [List.foldlM_cons, expireSlot_of_not_due hdue, ok_bind, hrun]
      · rcases List.mem_cons.1 hj with rfl | hj
        · exact absurd hdue' hdue
        · exact hlost j hj hdue'

/-- `checkpos` is no resource. -/
theorem Inv.set_checkpos (h : Inv K T w) (hc : c ≤ maxEvents) :
    Inv K T { w with checkpos := c } := by
  refine ⟨⟨h.sound.pool, h.sound.conns, hc⟩,
    h.table.frame (R := ∅) (fun r _ => ?_) (by simp) (by simp)⟩
  cases r <;> simp [slots, Resource.Same]

/-- **`expires_house_keeping`** keeps the table; every slot that is due loses its transaction, and
no record is freed. -/
theorem expiresHouseKeeping_inv (h : Inv K T w) (hK : ∀ jc, .conn jc ∉ K) (now exceptFd : ℤ) :
    ∃ w' T', w.expiresHouseKeeping now exceptFd = .ok w' ∧ Inv K T' w' ∧ w'.conns = w.conns ∧
      (∀ j, T' j = T j ∨ T' j = none) ∧
      ∀ i < maxEvents, w.Due now exceptFd i → T' i = none := by
  have hc := h.sound.checkpos
  obtain ⟨w', T', hrun, h', hconns, hT', hlost⟩ :=
    expireSlots_inv h hK now exceptFd (sweepOrder (maxEvents + 1) w.checkpos)
  refine ⟨{ w' with checkpos := sweepEnd (maxEvents + 1) w.checkpos }, T', ?_,
    h'.set_checkpos (sweepEnd_le hc), hconns, hT', fun i hi hdue => ?_⟩
  · rw [expiresHouseKeeping, expireLoop_eq, hrun, ok_bind]
  · exact hlost i (mem_sweepOrder hc hi) hdue

/-! ### Runs -/

/-- Everything but the connection records: what is owned whatever happens. -/
def notRecords : Set Resource := {r | ∀ jc, r ≠ .conn jc}

theorem fd_mem_notRecords (fd : ℤ) : .fd fd ∈ notRecords := fun _ h => by cases h

theorem conn_notMem_notRecords (jc : Ptr) : .conn jc ∉ notRecords := fun h => h jc rfl

theorem Inv.mono {K' : Set Resource} (h : Inv K T w) (hK : K' ⊆ K) : Inv K' T w :=
  ⟨h.sound, h.table.holds, h.table.disjoint, fun r hr => h.table.covered r (hK hr)⟩

/-- At the start no slot serves a transaction, and nothing is in use. -/
theorem init_inv (raw : Ptr → Memory) (opened : Finset ℤ) (rd wr : ℤ) :
    Inv Set.univ (fun _ => none) (init raw opened rd wr) := by
  have hlive : ∀ p, (memModuleInit raw).live p = none := fun p => rfl
  refine ⟨⟨memModuleInit_ok raw, ⟨initListHead_ring _ _, by simp⟩, Nat.zero_le _⟩, fun i => rfl,
    fun i j hij => ?_, fun r _ hr => ?_⟩
  · show Disjoint (slotOwn i none) (slotOwn j none)
    rw [Set.disjoint_left]
    intro r hi hj
    rw [mem_slotOwn_none] at hi hj
    cases hi.symm.trans hj
    exact hij rfl
  · cases r with
    | slot i => exact absurd hr id
    | fd f =>
      obtain ⟨i, m, him⟩ := hr
      change (setWakeUpPolling rd wr (.unwatched opened)).interest f = _ at him
      rcases setWakeUpPolling_interest rd wr opened f with hnone | hpipe
      · rw [hnone] at him
        cases him
      · rw [hpipe] at him
        cases him
    | conn jc => exact absurd hr (Finset.notMem_empty jc)
    | block p => exact absurd (hlive p) hr

/-- **One step** does not fault and keeps the table. -/
theorem step_inv (h : Inv notRecords T w) {op : ClientOp} (hop : w.Allowed op) :
    ∃ w' T', w.step op = .ok w' ∧ Inv notRecords T' w' := by
  cases op with
  | create entry d =>
    exact createTransaction_inv h entry hop.1 hop.2 fun _ => conn_notMem_notRecords
  | sweep now =>
    obtain ⟨w', T', hrun, h', -⟩ :=
      expiresHouseKeeping_inv h conn_notMem_notRecords now w.tickleFd
    exact ⟨w', T', hrun, h'⟩
  | batch es => exact dispatch_inv h fd_mem_notRecords hop

theorem step_keeps (w : Client) (op : ClientOp) (h : ∃ T, Inv notRecords T w)
    (hop : w.Allowed op) : ∃ w', w.step op = .ok w' ∧ ∃ T, Inv notRecords T w' := by
  obtain ⟨T, h⟩ := h
  obtain ⟨w', T', hrun, h'⟩ := step_inv h hop
  exact ⟨w', hrun, T', h'⟩

theorem init_table (raw : Ptr → Memory) (opened : Finset ℤ) (rd wr : ℤ) :
    ∃ T, Inv notRecords T (init raw opened rd wr) :=
  ⟨_, (init_inv raw opened rd wr).mono (Set.subset_univ _)⟩

/-! ### The slots, the connections, the streams and the epoll set -/

/-- What they are to each other: a slot has status 1 exactly when its descriptor is registered for
it, then it serves a transaction with something left to write, and no two slots share a descriptor,
a connection or a stream. -/
structure Consistent (w : Client) : Prop where
  registered : ∀ i < maxEvents, (w.gEvents i).status = 1 ↔
    (w.gEvents i).fd ∈ w.kernel.opened ∧
      w.kernel.interest (w.gEvents i).fd = some ⟨.ptr i, (w.gEvents i).events⟩
  serves : ∀ i < maxEvents, (w.gEvents i).status = 1 →
    ∃ x : Transaction, x.Serves i w ∧ 0 < bufDataSize x.stream.inBuf
  distinct : ∀ i < maxEvents, ∀ j < maxEvents, i ≠ j → (w.gEvents i).status = 1 →
    (w.gEvents j).status = 1 → (w.gEvents i).fd ≠ (w.gEvents j).fd ∧
      (w.gEvents i).jc ≠ (w.gEvents j).jc ∧
      ∀ jc jc', (w.gEvents i).jc = some jc → (w.gEvents j).jc = some jc' →
        (w.conns.jconnects jc).stream ≠ (w.conns.jconnects jc').stream

/-- The table says so. -/
theorem Inv.consistent (h : Inv notRecords T w) : w.Consistent := by
  refine ⟨fun i _ => ?_, fun i _ hi => ?_, fun i _ j _ hij hi hj => ?_⟩
  · constructor
    · intro hi
      obtain ⟨x, hT⟩ := h.status_iff.1 hi
      have hx := h.serves hT
      exact ⟨hx.reg.opened, hx.reg.interest⟩
    · rintro ⟨-, hint⟩
      obtain ⟨x, hT, -⟩ := h.of_interest (fd_mem_notRecords _) hint
      exact h.status_iff.2 ⟨x, hT⟩
  · obtain ⟨x, hT⟩ := h.status_iff.1 hi
    have hx := h.serves hT
    obtain ⟨q, hq, hcarries⟩ := hx.carries
    refine ⟨x, hx, ?_⟩
    rw [bufDataSize, ← hcarries.inBuf.length]
    exact List.length_pos_of_ne_nil hq
  · obtain ⟨x, hTi⟩ := h.status_iff.1 hi
    obtain ⟨y, hTj⟩ := h.status_iff.1 hj
    have hx := h.serves hTi
    have hy := h.serves hTj
    -- two owners of one resource are one
    have hne : ∀ r, r ∈ slotOwn i (some x) → r ∉ slotOwn j (some y) := fun r hr hr' =>
      hij (h.table.owner_unique (i := i) (j := j) (by rw [hTi]; exact hr) (by rw [hTj]; exact hr'))
    refine ⟨fun heq => ?_, fun heq => ?_, fun jc jc' hjc hjc' heq => ?_⟩
    · rw [hx.fd, hy.fd] at heq
      exact hne (.fd x.stream.serverSock) (by simp) (by simp [heq])
    · rw [hx.jc, hy.jc, Option.some.injEq] at heq
      exact hne (.conn x.jc) (by simp) (by simp [heq])
    · rw [hx.jc, Option.some.injEq] at hjc
      rw [hy.jc, Option.some.injEq] at hjc'
      rw [← hjc, ← hjc', hx.connStream, hy.connStream, Option.some.injEq] at heq
      refine hne (.block x.stream.self) (by simp [x.stream.self_mem_footprint]) ?_
      simp [heq, y.stream.self_mem_footprint]

/-- The table of a client is one that a sweep is exact on. -/
theorem Inv.separate (h : Inv K T w) : w.Separate := by
  refine ⟨h.sound.pool, fun i _ hi jc hjc => ?_, fun i _ hi jc p hjc hp => ?_,
    fun i _ j _ hij hi hj hfd => ?_, fun i _ j _ hij hi hj s hs t ht p hp hp' => ?_⟩
  · obtain ⟨x, hT⟩ := h.status_iff.1 hi
    have hx := h.serves hT
    rw [hx.jc, Option.some.injEq] at hjc
    exact hjc ▸ hx.allocated
  · obtain ⟨x, hT⟩ := h.status_iff.1 hi
    have hx := h.serves hT
    rw [hx.jc, Option.some.injEq] at hjc
    rw [← hjc, hx.connStream, Option.some.injEq] at hp
    exact ⟨x.stream, hp ▸ hx.stream, hp, hx.fd.symm, hx.nonneg, hx.owned⟩
  · obtain ⟨x, hTi⟩ := h.status_iff.1 hi
    obtain ⟨y, hTj⟩ := h.status_iff.1 hj
    rw [(h.serves hTi).fd, (h.serves hTj).fd] at hfd
    refine hij (h.table.owner_unique (r := .fd x.stream.serverSock) ?_ ?_)
    · show Resource.fd x.stream.serverSock ∈ slotOwn i (T i)
      rw [hTi, fd_mem_slotOwn_some]
    · show Resource.fd x.stream.serverSock ∈ slotOwn j (T j)
      rw [hTj, fd_mem_slotOwn_some, hfd]
  · obtain ⟨x, hTi⟩ := h.status_iff.1 hi
    obtain ⟨y, hTj⟩ := h.status_iff.1 hj
    rw [slotStream_of_attached (h.serves hTi).toAttached, Option.mem_some_iff] at hs
    rw [slotStream_of_attached (h.serves hTj).toAttached, Option.mem_some_iff] at ht
    refine hij (h.table.owner_unique (r := .block p) ?_ ?_)
    · show Resource.block p ∈ slotOwn i (T i)
      rw [hTi, block_mem_slotOwn_some, hs]
      exact hp
    · show Resource.block p ∈ slotOwn j (T j)
      rw [hTj, block_mem_slotOwn_some, ht]
      exact hp'

variable {raw : Ptr → Memory} {opened : Finset ℤ} {rd wr : ℤ} {ops : List ClientOp}

/-- **The event table.**  No run of the client faults, so no assertion fails and no callback uses a
stream or a connection that was released, and every state is consistent. -/
theorem client_table (hops : Steps step Allowed (init raw opened rd wr) ops) :
    ∃ w, run step (init raw opened rd wr) ops = .ok w ∧ w.Consistent := by
  obtain ⟨w, hrun, T, h⟩ := exists_run step_keeps (init_table raw opened rd wr) hops
  exact ⟨w, hrun, h.consistent⟩

theorem dialFive_allowed : Allowed fresh (.create (entryOfLen 512) dialFive) :=
  ⟨dialFive_ok, fun _ => ⟨0, by decide, rfl⟩⟩

/-- A connection is dialled for a frame of 520 bytes, and it is made. -/
def frameQueued : List ClientOp :=
  [.create (entryOfLen 512) dialFive, .batch [(.ptr 0, ⟨false, true, [], [], 1⟩)]]

/-- The frame waits in slot 0. -/
theorem frameQueued_run :
    ∃ (w : Client) (x : Transaction) (q : List UInt8),
      Steps step Allowed fresh frameQueued ∧
      run step fresh frameQueued = .ok w ∧ w.pool.Ok ∧ x.Serves 0 w ∧
      (w.gEvents 0).callBack = some .dataTransfer ∧ x.stream.Carries w.pool q [] [] ∧
      q.length = 520 := by
  obtain ⟨w₁, s, hcreate, hs, hstatus, -, -, -, hjc, hstream, hcb⟩ := fresh_createTransaction 512
  have hstep : fresh.step (.create (entryOfLen 512) dialFive) = .ok w₁ := hcreate
  obtain ⟨T₀, h₀⟩ := init_table (fun _ _ => 0) ∅ 3 4
  obtain ⟨w₁', T₁, hstep₁, h₁⟩ := step_inv h₀ dialFive_allowed
  obtain rfl : w₁ = w₁' := Except.ok.inj (hstep.symm.trans hstep₁)
  obtain ⟨x, hT⟩ := h₁.status_iff.1 hstatus
  have hx := h₁.serves hT
  obtain ⟨q, -, hcarries⟩ := hx.carries
  -- the stream of the slot is the one that was made for the message
  have hzero : x.jc = 0 := by simpa [hx.jc] using hjc
  have hself : x.stream.self = 0 := by simpa [hx.connStream, ← hzero] using hstream
  obtain rfl : x.stream = s := by simpa [hself, hs] using hx.stream.symm
  have hsent := createTransaction_stream (memModuleInit_ok _) hcreate hs (by simp [fresh, init])
  have hlen : q.length = 520 := by
    rw [hcarries.inBuf.length, ← hsent.length]
    simp
  obtain ⟨w₂, hconn, hgoes, hcb₂⟩ := connectCb_goes hx hcarries h₁.sound.pool
    (e := ⟨false, true, [], [], 1⟩) rfl
  have hbatch : w₁.step (.batch [(.ptr 0, ⟨false, true, [], [], 1⟩)]) = .ok w₂ := by
    simp only [step, dispatch, callBack, hcb, hconn, ok_bind, pure_eq_ok]
  refine ⟨w₂, x, q, ⟨dialFive_allowed, ?_⟩, ?_, hgoes.1.pool, hgoes.1.holds, hcb₂, hgoes.2.2.2,
    hlen⟩
  · intro v hv
    cases hstep.symm.trans hv
    exact ⟨reported_one hx.reg _, fun _ _ => trivial⟩
  · rw [frameQueued, run_cons_ok hstep, run_cons_ok hbatch, run_nil]

/-- `write` takes 100 bytes. -/
def partialWrite : Event := ⟨false, true, [], [.accept 99, .eagain], 2⟩

/-- `write` takes 100 of the 520 bytes. -/
def partlyWritten : List ClientOp := frameQueued ++ [.batch [(.ptr 0, partialWrite)]]

/-- The rest of the frame waits in slot 0. -/
theorem partlyWritten_run :
    ∃ (w : Client) (x : Transaction) (q : List UInt8),
      Steps step Allowed fresh partlyWritten ∧ run step fresh partlyWritten = .ok w ∧
      x.Serves 0 w ∧ x.stream.Carries w.pool q [] [] ∧ q.length = 420 := by
  obtain ⟨w, x, q, hsteps, hrun, hP, hx, hcb, hcarries, hlen⟩ := frameQueued_run
  have htaken : writeTaken 520 partialWrite.writes = 100 := by decide
  have hopen : partialWrite.LeavesOpen q.length := by
    rw [hlen]
    decide
  obtain ⟨w', y, htransfer, ⟨hgoes, -, -, hcarries'⟩, -⟩ :=
    dataTransfer_goes hx hcarries hP hopen
  have hbatch : w.step (.batch [(.ptr 0, partialWrite)]) = .ok w' := by
    simp only [step, dispatch, callBack, hcb, htransfer, ok_bind, pure_eq_ok]
  refine ⟨w', y, _, (steps_append hrun _).2 ⟨hsteps, reported_one hx.reg _, fun _ _ => trivial⟩, ?_,
    hgoes.holds, hcarries', ?_⟩
  · rw [partlyWritten, run_append hrun, run_cons_ok hbatch, run_nil]
  · rw [List.length_drop, hlen, htaken]

/-- 10 seconds after that, a sweep comes. -/
def writtenSweep : List ClientOp := partlyWritten ++ [.sweep 12]

theorem client_table_writtenSweep :
    Steps step Allowed fresh writtenSweep ∧
      ∃ w, run step fresh writtenSweep = .ok w ∧ w.Consistent := by
  obtain ⟨w, x, q, hsteps, hrun, -⟩ := partlyWritten_run
  have hops : Steps step Allowed fresh writtenSweep :=
    (steps_append hrun _).2 ⟨hsteps, trivial, fun _ _ => trivial⟩
  exact ⟨hops, client_table hops⟩

/-- In every state that a run comes to, a sweep is exact. -/
theorem client_separate (hops : Steps step Allowed (init raw opened rd wr) ops) :
    ∃ w, run step (init raw opened rd wr) ops = .ok w ∧ w.Separate ∧ w.checkpos ≤ maxEvents := by
  obtain ⟨w, hrun, T, h⟩ := exists_run step_keeps (init_table raw opened rd wr) hops
  exact ⟨w, hrun, h.separate, h.sound.checkpos⟩

/-! ### The connection records -/

/-- Every connection record that is allocated is referred to by a slot with status 1, or it is
idle. -/
def Recorded (w : Client) : Prop :=
  ∀ jc ∈ w.conns.allocated,
    (∃ i < maxEvents, (w.gEvents i).status = 1 ∧ (w.gEvents i).jc = some jc) ∨
      ∃ L, w.conns.Lists L ∧ jc ∈ L

/-- A transaction that is created gets its connection. -/
def Succeeds : ClientOp → Prop
  | .create _ d => d.Connects
  | .sweep _ | .batch _ => True

/-- A sweep finds no slot idle. -/
def Timely (w : Client) : ClientOp → Prop
  | .sweep now => ∀ i < maxEvents, ¬ w.Due now w.tickleFd i
  | .create _ _ | .batch _ => True

/-- No record is lost when the slots own all that are allocated. -/
theorem Inv.recorded_iff (h : Inv notRecords T w) : w.Recorded ↔ Inv Set.univ T w := by
  constructor
  · intro hrec
    refine ⟨h.sound, h.table.holds, h.table.disjoint, fun r _ hused => ?_⟩
    by_cases hr : r ∈ notRecords
    · exact h.table.covered r hr hused
    obtain ⟨jc, rfl⟩ : ∃ jc, r = .conn jc := by simpa [notRecords] using hr
    rcases hrec jc hused with ⟨i, -, hstatus, hjc⟩ | ⟨L, hL, hjc⟩
    · obtain ⟨x, hT⟩ := h.status_iff.1 hstatus
      rw [(h.serves hT).jc, Option.some.injEq] at hjc
      refine ⟨i, ?_⟩
      show Resource.conn jc ∈ slotOwn i (T i)
      rw [hT, conn_mem_slotOwn_some, hjc]
    · rw [hL.unique h.sound.conns] at hjc
      cases hjc
  · intro huniv jc hjc
    obtain ⟨i, hi⟩ := huniv.table.covered (.conn jc) trivial hjc
    have hmem : Resource.conn jc ∈ slotOwn i (T i) := hi
    cases hT : T i with
    | none =>
      rw [hT, mem_slotOwn_none] at hmem
      cases hmem
    | some x =>
      rw [hT, conn_mem_slotOwn_some] at hmem
      have hx := h.serves hT
      exact .inl ⟨i, hx.slot, hx.reg.status, hmem ▸ hx.jc⟩

/-- A slot that loses its transaction to a sweep loses the record too. -/
theorem not_recorded_of_due (h : Inv notRecords T w) (h' : Inv notRecords T' w')
    (hconns : w'.conns = w.conns) (hT' : ∀ j, T' j = T j ∨ T' j = none)
    (hdue : w.Due now exceptFd i) (hi : T' i = none) : ¬ w'.Recorded := by
  intro hrec
  obtain ⟨x, hT⟩ := h.status_iff.1 hdue.1
  have hused : Resource.Used (.conn x.jc) w' := by
    show x.jc ∈ w'.conns.allocated
    rw [hconns]
    exact (h.serves hT).allocated
  obtain ⟨j, hj⟩ := (h'.recorded_iff.1 hrec).table.covered (.conn x.jc) trivial hused
  have hmem : Resource.conn x.jc ∈ slotOwn j (T' j) := hj
  rcases hT' j with heq | hnone
  · have hij : i = j := by
      refine h.table.owner_unique (r := .conn x.jc) ?_ ?_
      · show Resource.conn x.jc ∈ slotOwn i (T i)
        rw [hT, conn_mem_slotOwn_some]
      · show Resource.conn x.jc ∈ slotOwn j (T j)
        rw [← heq]
        exact hmem
    rw [← hij, hi, mem_slotOwn_none] at hmem
    cases hmem
  · rw [hnone, mem_slotOwn_none] at hmem
    cases hmem

/-- **One step loses a record exactly when it is a sweep that finds a slot idle.** -/
theorem step_recorded_iff (h : Inv notRecords T w) (hrec : w.Recorded) {op : ClientOp}
    (hop : w.Allowed op) (hsucc : Succeeds op) (hrun : w.step op = .ok w') :
    w'.Recorded ↔ w.Timely op := by
  have huniv := h.recorded_iff.1 hrec
  cases op with
  | create entry d =>
    obtain ⟨w'', T', hrun', h'⟩ :=
      createTransaction_inv huniv entry hop.1 hop.2 fun hnot => absurd hsucc hnot
    cases hrun.symm.trans hrun'
    exact iff_of_true ((h'.mono (Set.subset_univ _)).recorded_iff.2 h') trivial
  | batch es =>
    obtain ⟨w'', T', hrun', h'⟩ := dispatch_inv huniv (fun _ => trivial) hop
    cases hrun.symm.trans hrun'
    exact iff_of_true ((h'.mono (Set.subset_univ _)).recorded_iff.2 h') trivial
  | sweep now =>
    by_cases htimely : ∀ i < maxEvents, ¬ w.Due now w.tickleFd i
    · have hsame := expiresHouseKeeping_of_not_due h.sound.checkpos htimely
      generalize sweepEnd (maxEvents + 1) w.checkpos = c at hsame
      cases hrun.symm.trans hsame
      exact iff_of_true hrec htimely
    · refine iff_of_false ?_ htimely
      push Not at htimely
      obtain ⟨i, hi, hdue⟩ := htimely
      obtain ⟨w'', T', hrun', h', hconns, hT', hlost⟩ :=
        expiresHouseKeeping_inv h conn_notMem_notRecords now w.tickleFd
      cases hrun.symm.trans hrun'
      exact not_recorded_of_due h h' hconns hT' hdue (hlost i hi hdue)

/-- **When no record is lost.**  A run in which every transaction that is created gets its
connection does not fault, and in all its states every record is referred to by a slot with status 1
or idle, exactly when no sweep finds a slot idle. -/
theorem client_records_iff
    (hops : Steps step (fun w op => w.Allowed op ∧ Succeeds op) (init raw opened rd wr) ops) :
    (∃ w, run step (init raw opened rd wr) ops = .ok w) ∧
      (Along step Recorded (init raw opened rd wr) ops ↔
        Steps step Timely (init raw opened rd wr) ops) := by
  have hI : ∀ (w : Client) op, (∃ T, Inv notRecords T w) → (w.Allowed op ∧ Succeeds op) →
      ∃ w', w.step op = .ok w' ∧ ∃ T, Inv notRecords T w' :=
    fun w op h hop => step_keeps w op h hop.1
  have huniv := init_inv raw opened rd wr
  have hinit := init_table raw opened rd wr
  refine ⟨?_, along_iff_steps hI ?_ hinit ?_ hops⟩
  · obtain ⟨w, hrun, -⟩ := exists_run hI hinit hops
    exact ⟨w, hrun⟩
  · rintro w op w' ⟨T, h⟩ hrec ⟨hop, hsucc⟩ hrun
    exact step_recorded_iff h hrec hop hsucc hrun
  · exact (huniv.mono (Set.subset_univ _)).recorded_iff.2 huniv

/-- A transaction is created, and a sweep comes 10 seconds later. -/
def lateSweep : List ClientOp := [.create (entryOfLen 512) dialFive, .sweep 10]

theorem lateSweep_succeeds :
    Steps step (fun w op => w.Allowed op ∧ Succeeds op) fresh lateSweep :=
  ⟨⟨dialFive_allowed, dialFive_connects⟩, fun _ _ => ⟨⟨trivial, trivial⟩, fun _ _ => trivial⟩⟩

theorem client_records_iff_lateSweep :
    (∃ w, run step fresh lateSweep = .ok w) ∧
      (Along step Recorded fresh lateSweep ↔ Steps step Timely fresh lateSweep) :=
  client_records_iff lateSweep_succeeds

/-- The sweep leaves the record of the transaction allocated, and nothing refers to it. -/
theorem lateSweep_loses :
    Steps step (fun w op => w.Allowed op ∧ Succeeds op) fresh lateSweep ∧
      ∃ w, run step fresh lateSweep = .ok w ∧ ¬ w.Recorded := by
  refine ⟨lateSweep_succeeds, ?_⟩
  have huniv := init_inv (fun _ _ => 0) ∅ 3 4
  have hinv : Inv notRecords _ fresh := huniv.mono (Set.subset_univ _)
  obtain ⟨w₁, -, hrun₁, -, hstatus, hlast, hfd, htickle, -⟩ := fresh_createTransaction 512
  have hstep : fresh.step (.create (entryOfLen 512) dialFive) = .ok w₁ := hrun₁
  obtain ⟨w₁', T₁, hstep₁, h₁⟩ := step_inv hinv dialFive_allowed
  obtain rfl : w₁ = w₁' := Except.ok.inj (hstep.symm.trans hstep₁)
  have hrec₁ : w₁.Recorded := (step_recorded_iff hinv (hinv.recorded_iff.2 huniv) dialFive_allowed
    dialFive_connects hstep).2 trivial
  have hsweep : w₁.Allowed (.sweep 10) := trivial
  obtain ⟨w₂, T₂, hstep₂, h₂⟩ := step_inv h₁ hsweep
  refine ⟨w₂, ?_, fun hrec₂ => ?_⟩
  · rw [lateSweep, run_cons_ok hstep, run_cons_ok hstep₂, run_nil]
  · have htimely := (step_recorded_iff h₁ hrec₁ hsweep trivial hstep₂).1 hrec₂
    refine htimely 0 (by decide) ⟨hstatus, ?_, ?_⟩
    · rw [hlast]
      norm_num
    · rw [hfd, htickle]
      norm_num

end Client

end Jujube
