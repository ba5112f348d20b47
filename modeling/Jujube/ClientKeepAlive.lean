import Jujube.ClientIdle

/-!
# The table with idle connections

What the operations of the client do to the table of entries, `Client.Pooled`: a batch of events, a
sweep, a release with `OK_CONNECT`, a transaction on a connection of the list and one on a new
connection.  A sweep turns an idle connection that is due into one that is `Parked`: it stays in the
list, and nothing watches it.
-/

namespace Jujube

open Bytes Pool Connections Ownership Transition

/-- What the timeout makes of an entry. -/
def Entry.expired : Entry → Entry
  | .vacant | .serving _ => .vacant
  | .idle jc fd _ => .idle jc fd false

namespace Client

variable {L L' : List Ptr} {T T' : ℕ → Entry} {home : Ptr → Option ℕ} {v w w' : Client}
  {e e' : Entry} {i j k : ℕ} {jc : Ptr} {fd now exceptFd : ℤ} {b : Bool} {x : Transaction}
  {entry : TransferLogEntry} {d : Dialling} {q : List UInt8}

namespace Pooled

theorem status_of_vacant (h : Pooled L T home w) (hT : T i = .vacant) :
    (w.gEvents i).status = 0 := h.holds hT

theorem serves (h : Pooled L T home w) (hT : T i = .serving x) : x.Serves i w := h.holds hT

theorem waits (h : Pooled L T home w) (hT : T i = .idle jc fd b) : Waits jc fd b i w := h.holds hT

/-- A registered descriptor leads to the slot of a transaction or of an idle connection on it. -/
theorem of_interest (h : Pooled L T home w) {m : Mask}
    (hint : w.kernel.interest fd = some ⟨.ptr i, m⟩) :
    (∃ x, T i = .serving x ∧ x.stream.serverSock = fd) ∨ ∃ jc, T i = .idle jc fd true := by
  obtain ⟨j, hj⟩ := h.table.covered (.fd fd) (fd_mem_notRecords fd) ⟨i, m, hint⟩
  have hmem : Resource.fd fd ∈ (T j).own j := hj
  cases hT : T j with
  | vacant =>
    rw [hT] at hmem
    cases mem_slotOwn_none.1 hmem
  | serving x =>
    rw [hT] at hmem
    have hfd := fd_mem_slotOwn_some.1 hmem
    have hx := h.serves hT
    have hreg := hx.reg.interest
    rw [hx.fd, ← hfd, hint] at hreg
    cases hreg
    exact .inl ⟨x, hT, hfd.symm⟩
  | idle jc fd' b =>
    rw [hT] at hmem
    obtain rfl : fd = fd' := by simpa [Entry.own] using hmem
    have hw := h.waits hT
    cases b with
    | false =>
      rw [(hw.parked rfl).2] at hint
      cases hint
    | true =>
      have hreg := (hw.reg rfl).1.interest
      rw [hw.slotFd, hint] at hreg
      cases hreg
      exact .inr ⟨jc, hT⟩

/-- A slot that serves a transaction is turned into one that serves a transaction or none. -/
theorem handled (h : Pooled L T home v) (hT : T i = .serving x) {K : Set Resource}
    {o : Option Transaction} (hK : notRecords ⊆ K) (hw : Handled K x i o v w) :
    Pooled L (Function.update T i (.of o)) home w := by
  refine h.turned hT (hw.turned hK h.ring) (fun jc => ?_) (fun jc hnew => ?_) fun _ _ _ _ => rfl
  · cases o <;> simp [Entry.of, Entry.idleJc]
  · cases o with
    | none => cases hnew
    | some y =>
      cases hnew
      have hmem : .conn y.jc ∈ slotOwn i (some x) := hw.own (by simp)
      refine h.home i y.jc ?_
      rw [hT, conn_mem_slotOwn_some.1 hmem]
      rfl

/-- A slot of an idle connection passes over the slots in front of it that are in use: their
connections are allocated and on other descriptors. -/
theorem skips (h : Pooled L T home w) (hT : T i = .idle jc fd b) (hki : k ≠ i)
    (hzero : (w.gEvents k).status = 0 → Skips fd k w) : Skips fd k w := by
  have hother : ∀ f, .fd f ∈ (T k).own k → f ≠ fd := by
    rintro f hf rfl
    refine hki (h.table.owner_unique (r := .fd f) hf ?_)
    show Resource.fd f ∈ (T i).own i
    rw [hT]
    simp [Entry.own]
  cases hk : T k with
  | vacant => exact hzero (h.status_of_vacant hk)
  | serving y =>
    have hy := h.serves hk
    intro p hp
    rw [hy.jc, Option.some.injEq] at hp
    subst hp
    refine ⟨hy.allocated, ?_⟩
    rw [hy.connFd]
    exact hother _ (by rw [hk]; simp [Entry.own])
  | idle jc' fd' b' =>
    have hy := h.waits hk
    intro p hp
    rw [hy.slotJc, Option.some.injEq] at hp
    subst hp
    refine ⟨hy.allocated, ?_⟩
    rw [hy.connFd]
    exact hother _ (by rw [hk]; simp [Entry.own])

/-- `checkpos` is no resource. -/
theorem set_checkpos (h : Pooled L T home w) {c : ℕ} (hc : c ≤ maxEvents) :
    Pooled L T home { w with checkpos := c } := by
  refine ⟨h.pool, hc, h.established, h.ring, h.table.frame (R := ∅) (fun r _ => ?_) (by simp)
    (by simp), h.listed, h.home⟩
  cases r <;> simp [entries, Resource.Same]

end Pooled

/-- An idle connection is in the list, and nothing is registered for it. -/
def Parked (T : ℕ → Entry) : Prop := ∃ i jc fd, T i = .idle jc fd false

theorem parked_of_update (he : ∀ jc fd, e ≠ .idle jc fd false)
    (h : Parked (Function.update T i e)) : Parked T := by
  obtain ⟨j, jc, fd, hj⟩ := h
  by_cases hji : j = i
  · rw [hji, Function.update_self] at hj
    exact absurd hj (he jc fd)
  · rw [Function.update_of_ne hji] at hj
    exact ⟨j, jc, fd, hj⟩

/-! ### A batch of events -/

/-- `keepalive_cb` in the table. -/
theorem keepaliveCb_pooled (h : Pooled L T home w) (hT : T i = .idle jc fd true) :
    ∃ w' L', w.keepaliveCb i = .ok w' ∧ Pooled L' (Function.update T i .vacant) home w' ∧
      ∀ f ≠ fd, w'.kernel.interest f = w.kernel.interest f := by
  have hjc : jc ∈ L := (h.listed jc).2 ⟨i, by rw [hT]; rfl⟩
  obtain ⟨L₁, L₂, rfl⟩ := List.append_of_mem hjc
  have hnodup := h.lists.nodup
  obtain ⟨w', hrun, ht⟩ := keepaliveCb_spec (h.waits hT) h.pool h.lists
  refine ⟨w', L₁ ++ L₂, hrun, h.turned hT ht (fun p => ?_) (fun p hp => by cases hp)
    fun _ _ _ _ => rfl, fun f hf => ?_⟩
  · have hnot : jc ∉ L₁ ++ L₂ := (List.nodup_cons.1 (List.nodup_middle.1 hnodup)).1
    simp only [List.mem_append, not_or] at hnot
    simp only [List.mem_append, List.mem_cons, Entry.idleJc, ne_eq, Option.some.injEq,
      reduceCtorEq, or_false]
    constructor
    · rintro (hp | hp)
      · exact ⟨.inl hp, fun hpj => hnot.1 (hpj ▸ hp)⟩
      · exact ⟨.inr (.inr hp), fun hpj => hnot.2 (hpj ▸ hp)⟩
    · rintro ⟨hp | rfl | hp, hne⟩
      · exact .inl hp
      · exact absurd rfl hne
      · exact .inr hp
  · have hsame : Resource.Same (.fd f) w w' := ht.frame (.fd f) (by simp [Entry.own, hf])
    exact hsame.2

/-- One callback keeps the table, and every other registration. -/
theorem callBack_pooled (h : Pooled L T home w) {m : Mask}
    (hint : w.kernel.interest fd = some ⟨.ptr i, m⟩) (e : Event) :
    ∃ w' L' T', w.callBack i e = .ok w' ∧ Pooled L' T' home w' ∧ (Parked T' → Parked T) ∧
      ∀ f ≠ fd, w'.kernel.interest f = w.kernel.interest f := by
  rcases h.of_interest hint with ⟨x, hT, rfl⟩ | ⟨jc, hT⟩
  · obtain ⟨w', o, hrun, hw'⟩ := callBack_spec (h.serves hT) h.pool e
    refine ⟨w', L, _, hrun, h.handled hT (Set.subset_univ _) hw', parked_of_update ?_,
      fun f hf => ?_⟩
    · cases o <;> simp [Entry.of]
    · have hsame : Resource.Same (.fd f) w w' := hw'.frame (.fd f) (by simpa using hf)
      exact hsame.2
  · obtain ⟨w', L', hrun, h', hframe⟩ := keepaliveCb_pooled h hT
    refine ⟨w', L', _, ?_, h', parked_of_update (by simp), hframe⟩
    unfold Client.callBack
    rw [((h.waits hT).reg rfl).2.1]
    exact hrun

/-- **A batch of events**, in any order, keeps the table. -/
theorem dispatch_pooled (h : Pooled L T home w) {es : List (EpollData × Event)}
    (hes : w.Reported es) :
    ∃ w' L' T', dispatch es w = .ok w' ∧ Pooled L' T' home w' ∧ (Parked T' → Parked T) := by
  obtain ⟨fds, hnodup, hreported⟩ := hes
  induction es generalizing w L T fds with
  | nil => exact ⟨w, L, T, rfl, h, id⟩
  | cons y es ih =>
    cases hreported with
    | @cons fd _ fds _ hy hrest =>
      obtain ⟨hnotin, hnodup'⟩ := List.nodup_cons.1 hnodup
      obtain ⟨data, e⟩ := y
      cases data with
      | fd f => exact ih h fds hnodup' hrest
      | ptr i =>
        obtain ⟨m, hint⟩ := hy
        obtain ⟨w₁, L₁, T₁, hrun, h₁, hparked₁, hframe⟩ := callBack_pooled h hint e
        obtain ⟨w', L', T', hrun', h', hparked⟩ :=
          ih h₁ fds hnodup' (reported_of_frame hframe hnotin hrest)
        exact ⟨w', L', T', by rw [dispatch, hrun, ok_bind, hrun'], h',
          fun hp => hparked₁ (hparked hp)⟩

/-! ### A sweep -/

/-- A slot that is due has a transaction, or an idle connection that it watches. -/
theorem Pooled.of_status (h : Pooled L T home w) (hi : (w.gEvents i).status = 1) :
    (∃ x, T i = .serving x) ∨ ∃ jc fd, T i = .idle jc fd true := by
  cases hT : T i with
  | vacant =>
    rw [h.status_of_vacant hT] at hi
    exact absurd hi (by decide)
  | serving x => exact .inl ⟨x, rfl⟩
  | idle jc fd b =>
    cases b with
    | true => exact .inr ⟨jc, fd, rfl⟩
    | false =>
      rw [((h.waits hT).parked rfl).1] at hi
      exact absurd hi (by decide)

/-- A slot that is due is turned into what the timeout makes of it; it is not due again. -/
theorem expireSlot_pooled (h : Pooled L T home w) (hdue : w.Due now exceptFd i) :
    ∃ w', w.expireSlot now exceptFd i = .ok w' ∧
      Pooled L (Function.update T i (T i).expired) home w' ∧
      (w'.gEvents i).status = 0 ∧ ∀ j ≠ i, w'.gEvents j = w.gEvents j := by
  rcases h.of_status hdue.1 with ⟨x, hT⟩ | ⟨jc, fd, hT⟩
  · obtain ⟨w', hrun, -, hw'⟩ := expire_spec (h.serves hT).toAttached h.pool
    have h' : Pooled L (Function.update T i (T i).expired) home w' := by
      rw [hT]
      exact h.handled hT subset_rfl hw'
    refine ⟨w', ?_, h', hw'.holds, fun j hj => ?_⟩
    · unfold expireSlot
      simp only [if_neg (not_not.2 hdue.1)]
      exact (if_pos hdue.2).trans hrun
    · exact hw'.frame (.slot j) (by simpa using hj)
  · obtain ⟨w', hrun, ht⟩ := expireSlot_parks (h.waits hT) h.pool h.ring hdue
    refine ⟨w', hrun, ?_, (ht.holds.parked rfl).1, fun j hj => ?_⟩
    · rw [hT]
      refine h.turned hT ht (fun p => ?_) (fun p hp => ?_) fun _ _ _ _ => rfl
      · have hjc : jc ∈ L := (h.listed jc).2 ⟨i, by rw [hT]; rfl⟩
        simp only [Entry.expired, Entry.idleJc, ne_eq, Option.some.injEq]
        by_cases hp : jc = p
        · simp [← hp, hjc]
        · simp [hp]
      · refine h.home i p ?_
        rw [hT]
        exact hp
    · exact ht.frame (.slot j) (by simpa [Entry.own] using hj)

/-- The slots that a sweep looks at: those that are due are turned into what the timeout makes of
them. -/
theorem expireSlots_pooled (h : Pooled L T home w) (now exceptFd : ℤ) (is : List ℕ) :
    ∃ w' T', is.foldlM (fun w i => w.expireSlot now exceptFd i) w = .ok w' ∧
      Pooled L T' home w' ∧
      ∀ j, T' j = if j ∈ is ∧ w.Due now exceptFd j then (T j).expired else T j := by
  induction is generalizing w T with
  | nil => exact ⟨w, T, rfl, h, by simp⟩
  | cons i is ih =>
    by_cases hdue : w.Due now exceptFd i
    · obtain ⟨w₁, hrun₁, h₁, hzero, hslots⟩ := expireSlot_pooled h hdue
      obtain ⟨w', T', hrun, h', hT'⟩ := ih h₁
      refine ⟨w', T', by rw [List.foldlM_cons, hrun₁, ok_bind, hrun], h', fun j => ?_⟩
      rw [hT']
      by_cases hji : j = i
      · subst hji
        have hnot : ¬ w₁.Due now exceptFd j := by
          rintro ⟨hone, -⟩
          rw [hzero] at hone
          exact absurd hone (by decide)
        rw [if_neg fun hj => hnot hj.2, if_pos ⟨List.mem_cons_self, hdue⟩, Function.update_self]
      · have hsame : w₁.Due now exceptFd j ↔ w.Due now exceptFd j := by
          unfold Due
          rw [hslots j hji]
        simp only [hsame, List.mem_cons, hji, false_or, Function.update_of_ne hji]
    · obtain ⟨w', T', hrun, h', hT'⟩ := ih h
      refine ⟨w', T', by rw [List.foldlM_cons, expireSlot_of_not_due hdue, ok_bind, hrun], h',
        fun j => ?_⟩
      rw [hT']
      by_cases hji : j = i
      · subst hji
        rw [if_neg fun hj => hdue hj.2, if_neg fun hj => hdue hj.2]
      · simp only [List.mem_cons, hji, false_or]

/-- **A sweep** keeps the table.  Every idle connection that is due is parked. -/
theorem expiresHouseKeeping_pooled (h : Pooled L T home w) (now exceptFd : ℤ) :
    ∃ w' T', w.expiresHouseKeeping now exceptFd = .ok w' ∧ Pooled L T' home w' ∧
      ∀ i < maxEvents, T' i = if w.Due now exceptFd i then (T i).expired else T i := by
  have hc := h.checkpos
  obtain ⟨w', T', hrun, h', hT'⟩ :=
    expireSlots_pooled h now exceptFd (sweepOrder (maxEvents + 1) w.checkpos)
  refine ⟨{ w' with checkpos := sweepEnd (maxEvents + 1) w.checkpos }, T', ?_,
    h'.set_checkpos (sweepEnd_le hc), fun i hi => ?_⟩
  · rw [expiresHouseKeeping, expireLoop_eq, hrun, ok_bind]
  · rw [hT']
    simp only [mem_sweepOrder hc hi, true_and]

/-! ### A release -/

/-- `release_stream_from_connect` of a live connection in the table: it is idle then. -/
theorem release_pooled (h : Pooled L T home w) (hT : T i = .serving x)
    (halive : (w.conns.jconnects x.jc).isAlive = true) (now : ℤ) :
    ∃ w', w.releaseStreamFromConnect i okConnect now = .ok w' ∧
      Pooled (L ++ [x.jc]) (Function.update T i (.idle x.jc x.stream.serverSock true)) home w' ∧
      entries.Frame (slotOwn i (some x)) w w' ∧ w'.tickleFd = w.tickleFd ∧
      (w'.gEvents i).lastActive = now := by
  have hnot : x.jc ∉ L := by
    intro hjc
    obtain ⟨j, hj⟩ := (h.listed x.jc).1 hjc
    have hij : i = j := h.unique (by rw [hT]; rfl) (Entry.jc_of_idleJc hj)
    rw [← hij, hT] at hj
    cases hj
  obtain ⟨w', hrun, ht, hactive⟩ := release_ok (h.serves hT).toAttached h.pool h.lists hnot halive
    (h.established x.jc) now
  refine ⟨w', hrun, h.turned hT ht (fun p => ?_) (fun p hp => ?_) fun _ _ _ _ => rfl, ht.frame,
    ht.tickleFd, hactive⟩
  · simp [Entry.idleJc, eq_comm]
  · refine h.home i p ?_
    rw [hT]
    exact hp

/-! ### A transaction -/

/-- A transaction on a connection of the list, in the table. -/
theorem taken_pooled (h : Pooled (jc :: L) T home w) (hhome : home jc = some i)
    (hclear : ∀ k < i, (w.gEvents k).status = 0 → Skips (w.conns.jconnects jc).fd k w)
    (entry : TransferLogEntry) (d : Dialling) :
    ∃ x w' links,
      w.takeConnection entry d = .ok (some jc, { w.conns with links := links }, w.kernel) ∧
      (w.conns.jconnects jc).status = .connEstab ∧ w.createTransaction entry d = .ok w' ∧
      Pooled L (Function.update T i (.serving x)) home w' := by
  obtain ⟨i', hi'⟩ := (h.listed jc).1 List.mem_cons_self
  obtain rfl : i = i' := by
    rw [h.home i' jc (Entry.jc_of_idleJc hi'), Option.some.injEq] at hhome
    exact hhome.symm
  obtain ⟨fd, b, hT⟩ := Entry.of_idleJc hi'
  have hw := h.waits hT
  rw [hw.connFd] at hclear
  obtain ⟨links, hget, hring⟩ := getConnection_alive h.lists hw.alive w.kernel
  obtain ⟨s, w', hrun, hsock, hest, hstarted⟩ := createTransaction_taken h.pool hget hw
    (fun k hk => h.skips hT (by omega) (hclear k hk)) entry d
  have hnodup := List.nodup_cons.1 h.lists.nodup
  refine ⟨⟨jc, s⟩, w', links, ?_, hw.status, hrun, h.turned hT (R := slotOwn i (some ⟨jc, s⟩))
    ⟨hstarted.frame, hstarted.pool, hstarted.checkpos, hstarted.tickleFd, hest,
      hstarted.links ▸ hring, ?_, ?_,
      subset_rfl, hstarted.serves, fun r hr _ _ => hr⟩ (fun p => ?_) (fun p hp => ?_)
    fun _ _ _ _ => rfl⟩
  · simp only [takeConnection, hget, ok_bind, pure_eq_ok]
  · rintro r (rfl | rfl | rfl) <;> simp [hsock]
  · intro r hr
    cases r with
    | slot j => exact .inl (by simpa [Entry.own] using hr)
    | fd f => exact .inl (by simpa [Entry.own, hsock] using hr)
    | conn p => exact .inl (by simpa [Entry.own] using hr)
    | block p => exact .inr fun hlive => hlive (hstarted.blocks p (block_mem_slotOwn_some.1 hr))
  · simp only [List.mem_cons, Entry.idleJc, ne_eq, Option.some.injEq, reduceCtorEq, or_false]
    constructor
    · exact fun hp => ⟨.inr hp, fun hjp => hnodup.1 (hjp ▸ hp)⟩
    · rintro ⟨rfl | hp, hne⟩
      · exact absurd rfl hne
      · exact hp
  · refine h.home i p ?_
    rw [hT]
    exact hp

/-- A transaction on a new connection, in the table. -/
theorem made_pooled (h : Pooled [] T home w) (hd : d.Ok w.conns w.kernel) (hconnects : d.Connects)
    (hfree : ∃ i < maxEvents, (w.gEvents i).status = 0) (entry : TransferLogEntry) :
    ∃ i x w', Made entry d x i w w' ∧ w.createTransaction entry d = .ok w' ∧
      Pooled [] (Function.update T i (.serving x)) (Function.update home x.jc (some i)) w' := by
  obtain ⟨i, x, w', hrun, hmade⟩ := createTransaction_made h.pool h.lists hd hconnects hfree entry
  have hT : T i = .vacant := by
    cases hT : T i with
    | vacant => rfl
    | serving y =>
      have hone := (h.serves hT).reg.status
      rw [hmade.free] at hone
      cases hone
    | idle p fd b => exact absurd ((h.listed p).2 ⟨i, by rw [hT]; rfl⟩) List.not_mem_nil
  refine ⟨i, x, w', hmade, hrun, h.turned hT (R := slotOwn i (some x))
    ⟨hmade.frame, hmade.pool, hmade.checkpos, hmade.tickleFd, hmade.established, hmade.ring,
      slotOwn_none_subset _, fun r hr => ?_, subset_rfl, hmade.serves, fun r hr _ _ => hr⟩
    (fun p => ?_) (fun p hp => ?_) fun j hj p hp => ?_⟩
  · rcases hmade.fresh r hr with rfl | hnot
    · exact .inl (slot_mem_slotOwn i none)
    · exact .inr hnot
  · simp [Entry.idleJc]
  · cases hp
    exact Function.update_self _ _ _
  · apply Function.update_of_ne
    rintro rfl
    have hlive : Resource.Live (.conn x.jc) w :=
      entries.live_of_own (h.table.holds j) (Entry.conn_mem_own hp)
    rcases hmade.fresh (.conn x.jc) (by simp) with heq | hnot
    · cases heq
    · exact hnot hlive

end Client

end Jujube
