import Jujube.Server
import Jujube.Foundation.Transition

/-!
# `accept_conn` and the server's event table

`accept_conn` gives an accepted descriptor to the first free slot.  It leaves early when there is
none or when `O_NONBLOCK` cannot be set, and does not close the descriptor then: one that was
accepted is owned or closed exactly when neither happens (`acceptConn_settled_iff`).
-/

namespace Jujube

open Pool Transition

/-- The state of the server.  `streams i` is the stream that slot `i` holds. -/
structure ServerTable where
  kernel : Kernel
  pool : Pool
  gEvents : ℕ → MyEvent
  streams : ℕ → Option TcpStream

/-- What `accept` returns, a descriptor or -1, whether `fcntl` succeeds, and the time. -/
structure Accept where
  cfd : Option ℤ
  fcntl : Bool
  now : ℤ

namespace ServerTable

/-- The loop of `accept_conn` over the slots, the same as `evget` for a new connection. -/
def freeSlot (T : ServerTable) : Option ℕ :=
  (List.range maxEvents).find? fun i => (T.gEvents i).status = 0

/-- `accept_conn` -/
def acceptConn (T : ServerTable) (a : Accept) : Except Fault ServerTable :=
  match a.cfd with
  | none => return T
  | some cfd => do
    let T := { T with kernel := T.kernel.openFd cfd }
    if T.freeSlot = none then return T
    else if ¬ a.fcntl then return T
    else do
      let i ← deref T.freeSlot
      let c ← acceptStream i cfd a.now T.kernel T.pool
      return ⟨c.kernel, c.pool, Function.update T.gEvents i c.ev,
        Function.update T.streams i c.stream⟩

/-- Slot `i` is new in `T'`: it serves the descriptor with a fresh stream, and nothing else is
different. -/
structure Takes (T T' : ServerTable) (cfd : ℤ) (i : ℕ) : Prop where
  slot : i < maxEvents
  free : (T.gEvents i).status = 0
  fd : (T'.gEvents i).fd = cfd
  registered : (T'.gEvents i).Registered i T'.kernel
  events : (T'.gEvents i).events = ⟨true, false⟩
  callBack : (T'.gEvents i).callBack = some .dataTransfer
  stream : ∃ s, T'.streams i = some s ∧ s.serverSock = cfd ∧ Created cfd T.pool s T'.pool
  others : ∀ j ≠ i, T'.gEvents j = T.gEvents j ∧ T'.streams j = T.streams j

/-- The descriptor is closed, or owned by exactly one new slot. -/
def Settled (T T' : ServerTable) (cfd : ℤ) : Prop :=
  cfd ∉ T'.kernel.opened ∨ ∃! i, T.Takes T' cfd i

variable {T T' : ServerTable} {a : Accept} {cfd now : ℤ} {i : ℕ}

theorem freeSlot_eq_none : T.freeSlot = none ↔ ∀ i < maxEvents, (T.gEvents i).status ≠ 0 := by
  rw [freeSlot, List.find?_range_eq_none]
  simp

theorem freeSlot_eq_some : T.freeSlot = some i ↔
    (T.gEvents i).status = 0 ∧ i < maxEvents ∧ ∀ j < i, (T.gEvents j).status ≠ 0 := by
  rw [freeSlot, List.find?_range_eq_some]
  simp only [List.mem_range, decide_eq_true_eq, Bool.not_eq_true', decide_eq_false_iff_not, ne_eq]

/-- Two slots are not both new. -/
theorem Takes.unique {j : ℕ} (hi : T.Takes T' cfd i) (hj : T.Takes T' cfd j) : i = j := by
  by_contra hne
  have hstatus := hj.registered.status
  rw [(hi.others j (Ne.symm hne)).1, hj.free] at hstatus
  cases hstatus

/-- Where the slots are as they were, none is new. -/
theorem not_takes_of_gEvents (h : T'.gEvents = T.gEvents) : ¬ T.Takes T' cfd i := by
  intro hi
  have hstatus := hi.registered.status
  rw [h, hi.free] at hstatus
  cases hstatus

/-- When a slot is free and `fcntl` succeeds, the descriptor goes to that slot. -/
theorem acceptConn_takes (hP : T.pool.Ok) (hnew : cfd ∉ T.kernel.opened)
    (hfree : T.freeSlot = some i) (now : ℤ) :
    ∃ T', T.acceptConn ⟨some cfd, true, now⟩ = .ok T' ∧ T.Takes T' cfd i ∧
      T'.kernel.opened = insert cfd T.kernel.opened := by
  obtain ⟨s, P', hcreate, hs⟩ := streamCreate_spec hP cfd
  obtain ⟨hzero, hi, -⟩ := freeSlot_eq_some.1 hfree
  let ev := eventset none cfd .dataTransfer now
  let K := T.kernel.openFd cfd
  let m : Mask := ⟨true, false⟩
  have hreg : (eventadd i m now ev K).1.Registered i (eventadd i m now ev K).2 :=
    eventadd_registered (.inr ⟨by simp [ev, eventset], Finset.mem_insert_self _ _,
      T.kernel.interest_eq_none hnew⟩)
  have hopened : (eventadd i m now ev K).2.opened = insert cfd T.kernel.opened := eventadd_opened
  have hfree' : freeSlot { T with kernel := K } = some i := hfree
  let T' : ServerTable := ⟨(eventadd i m now ev K).2, P',
    Function.update T.gEvents i (eventadd i m now ev K).1, Function.update T.streams i (some s)⟩
  have hrun : T.acceptConn ⟨some cfd, true, now⟩ = .ok T' := by
    simp only [acceptConn, hfree', acceptStream, K, hcreate, deref_some, ok_bind, pure_eq_ok,
      reduceCtorEq, if_false, not_true_eq_false]
    rfl
  have hslot : T'.gEvents i = (eventadd i m now ev K).1 := Function.update_self _ _ _
  refine ⟨T', hrun, ?_, hopened⟩
  exact {
    slot := hi
    free := hzero
    fd := by rw [hslot]; rfl
    registered := by rw [hslot]; exact hreg
    events := by rw [hslot]; rfl
    callBack := by rw [hslot]; rfl
    stream := ⟨s, Function.update_self _ _ _, hs.sock, hs⟩
    others := fun j hj => ⟨Function.update_of_ne hj _ _, Function.update_of_ne hj _ _⟩ }

/-- Otherwise nothing is done with it. -/
theorem acceptConn_leaks (h : T.freeSlot = none ∨ a.fcntl = false) (hcfd : a.cfd = some cfd) :
    T.acceptConn a = .ok { T with kernel := T.kernel.openFd cfd } := by
  simp only [acceptConn, hcfd]
  by_cases hfull : T.freeSlot = none
  · exact if_pos hfull
  · exact (if_neg hfull).trans (if_pos (by simp [h.resolve_left hfull]))

/-- **When `accept_conn` does not leak.**  A descriptor that was accepted is closed or owned by
exactly one new slot, the others being as they were, exactly when a slot is free and `fcntl`
succeeds. -/
theorem acceptConn_settled_iff (hP : T.pool.Ok) (hnew : cfd ∉ T.kernel.opened) (fcntl : Bool)
    (now : ℤ) :
    ∃ T', T.acceptConn ⟨some cfd, fcntl, now⟩ = .ok T' ∧
      (T.Settled T' cfd ↔ (∃ i < maxEvents, (T.gEvents i).status = 0) ∧ fcntl = true) := by
  by_cases hleak : T.freeSlot = none ∨ fcntl = false
  · refine ⟨_, acceptConn_leaks hleak rfl, iff_of_false ?_ ?_⟩
    · rintro (hclosed | ⟨i, hi, -⟩)
      · exact hclosed (Finset.mem_insert_self _ _)
      · exact absurd hi (not_takes_of_gEvents rfl)
    · rintro ⟨⟨i, hi, hzero⟩, hfcntl⟩
      rcases hleak with hnone | hfalse
      · exact freeSlot_eq_none.1 hnone i hi hzero
      · exact absurd hfcntl (by simp [hfalse])
  · rw [not_or, Bool.not_eq_false] at hleak
    obtain ⟨hsome, rfl⟩ := hleak
    obtain ⟨i, hi⟩ := Option.ne_none_iff_exists'.1 hsome
    obtain ⟨hzero, hlt, -⟩ := freeSlot_eq_some.1 hi
    obtain ⟨T', hrun, htakes, -⟩ := acceptConn_takes hP hnew hi now
    exact ⟨T', hrun, iff_of_true (.inr ⟨i, htakes, fun j hj => hj.unique htakes⟩)
      ⟨⟨i, hlt, hzero⟩, rfl⟩⟩

/-! ### A full table -/

/-- The server before its first connection. -/
def init (P : Pool) : ServerTable := ⟨.unwatched ∅, P, fun _ => .zero, fun _ => none⟩

/-- The first `n` clients. -/
def clients (n : ℕ) : List Accept := (List.range n).map fun k : ℕ => ⟨some (5 + (k : ℤ)), true, 0⟩

/-- While they stay, they have the first `n` slots. -/
theorem run_clients (raw : Ptr → Bytes.Memory) {n : ℕ} (hn : n ≤ maxEvents) :
    ∃ T, run acceptConn (init (memModuleInit raw)) (clients n) = .ok T ∧ T.pool.Ok ∧
      (∀ i, (T.gEvents i).status = 0 ↔ n ≤ i) ∧ ∀ fd ∈ T.kernel.opened, fd < 5 + n := by
  induction n with
  | zero =>
    exact ⟨_, rfl, memModuleInit_ok raw, fun i => by simp [init, MyEvent.zero], by
      simp [init, Kernel.unwatched]⟩
  | succ n ih =>
    obtain ⟨T, hrun, hP, hslots, hopened⟩ := ih (by omega)
    have hfree : T.freeSlot = some n := freeSlot_eq_some.2
      ⟨(hslots n).2 le_rfl, hn, fun j hj hzero => absurd ((hslots j).1 hzero) (by omega)⟩
    have hnew : (5 + n : ℤ) ∉ T.kernel.opened := fun h => lt_irrefl _ (hopened _ h)
    obtain ⟨T', hstep, htakes, hopened'⟩ := acceptConn_takes hP hnew hfree 0
    obtain ⟨s, -, -, hs⟩ := htakes.stream
    refine ⟨T', ?_, hs.extends_.ok, fun i => ?_, fun fd hfd => ?_⟩
    · rw [clients, List.range_succ, List.map_append, List.map_singleton]
      exact run_concat_ok.2 ⟨T, hrun, hstep⟩
    · by_cases hi : i = n
      · rw [hi, htakes.registered.status]
        simp
      · rw [(htakes.others i hi).1, hslots i]
        omega
    · rw [hopened'] at hfd
      rcases Finset.mem_insert.1 hfd with rfl | hfd
      · push_cast
        omega
      · have := hopened fd hfd
        push_cast
        omega

theorem acceptConn_settled_iff_one :
    ∃ T', (init (memModuleInit fun _ _ => 0)).acceptConn ⟨some 5, true, 0⟩ = .ok T' ∧
      ((init (memModuleInit fun _ _ => 0)).Settled T' 5 ↔
        (∃ i < maxEvents, ((init (memModuleInit fun _ _ => 0)).gEvents i).status = 0) ∧
          true = true) :=
  acceptConn_settled_iff (memModuleInit_ok _) (by simp [init, Kernel.unwatched]) true 0

/-- With 1024 clients connected, one more is left open and without a slot. -/
theorem acceptConn_leaks_full :
    ∃ T T', run acceptConn (init (memModuleInit fun _ _ => 0)) (clients maxEvents) = .ok T ∧
      T.acceptConn ⟨some 1029, true, 0⟩ = .ok T' ∧ 1029 ∉ T.kernel.opened ∧
      1029 ∈ T'.kernel.opened ∧ ∀ i, ¬ T.Takes T' 1029 i := by
  obtain ⟨T, hrun, -, hslots, hopened⟩ := run_clients (fun _ _ => 0) (le_refl maxEvents)
  have hfull : T.freeSlot = none := freeSlot_eq_none.2 fun i hi hzero =>
    absurd ((hslots i).1 hzero) (not_le.2 hi)
  refine ⟨T, _, hrun, acceptConn_leaks (.inl hfull) rfl, fun h => ?_, Finset.mem_insert_self _ _,
    fun i => not_takes_of_gEvents rfl⟩
  have := hopened _ h
  norm_num [maxEvents] at this

end ServerTable

end Jujube
