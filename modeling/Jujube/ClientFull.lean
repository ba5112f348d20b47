import Jujube.ClientRun

/-!
# A full event table

The runs of `ClientRun` have a free slot for every new connection; here nothing promises one.
`attach_stream_to_connect` uses what `evget` returns without looking at it, and `evget` returns no
slot when none has status 0: `client_slots_iff` is the exact condition on a run under which every
new connection gets a slot or is given up.
-/

namespace Jujube

open Bytes Connections Transition

namespace Client

/-- What the system promises, and nothing about the slots. -/
def Possible (w : Client) : ClientOp → Prop
  | .create _ d => d.Ok w.conns w.kernel
  | .sweep _ => True
  | .batch es => w.Reported es

/-- A new connection finds a free slot. -/
def HasSlot (w : Client) : ClientOp → Prop
  | .create _ d => d.Connects → ∃ i < maxEvents, (w.gEvents i).status = 0
  | .sweep _ | .batch _ => True

/-- The slot that `evget` found was free, and is the slot of the connection that `malloc` and
`socket` gave from then on; the other slots are as they were. -/
structure GetsSlot (d : Dialling) (w w' : Client) (i : ℕ) : Prop where
  lt : i < maxEvents
  evget : w.evget (-1) = .ok (some i)
  free : (w.gEvents i).status = 0
  slot : ∃ jc raw fd, d.malloc = some (jc, raw) ∧ d.dial.fd? = some fd ∧
    w'.gEvents i = ⟨fd, ⟨false, true⟩, some .connectCb, 1, d.now, some jc⟩
  registered : (w'.gEvents i).Registered i w'.kernel
  others : ∀ j ≠ i, w'.gEvents j = w.gEvents j

/-- A transaction that is created gets its slot, or is given up with no slot changed. -/
def Handles (w : Client) : ClientOp → Prop
  | .create entry d => ∃ w', w.createTransaction entry d = .ok w' ∧
      (w'.gEvents = w.gEvents ∨ ∃ i, GetsSlot d w w' i)
  | .sweep _ | .batch _ => True

variable {T : ℕ → Option Transaction} {w w' : Client} {i : ℕ} {d : Dialling}
  {entry : TransferLogEntry} {op : ClientOp}

/-- Such a step of a run is one that `ClientRun` allows. -/
theorem Possible.allowed (h : w.Possible op) (hslot : w.HasSlot op) : w.Allowed op := by
  cases op with
  | create entry d => exact ⟨h, hslot⟩
  | sweep now => exact trivial
  | batch es => exact h

/-! ### One transaction -/

/-- `evget` of no descriptor finds nothing when all slots are in use. -/
theorem evget_full (hfull : ∀ i < maxEvents, (w.gEvents i).status ≠ 0) :
    w.evget (-1) = .ok none := by
  have key : ∀ is : List ℕ, (∀ i ∈ is, i < maxEvents) → w.evgetLoop (-1) is = .ok none := by
    intro is
    induction is with
    | nil => exact fun _ => rfl
    | cons i is ih =>
      intro his
      have hne := hfull i (his i List.mem_cons_self)
      rw [evgetLoop]
      simp only [hne, false_and, if_false, ne_eq, not_true_eq_false]
      exact ih fun j hj => his j (List.mem_cons_of_mem i hj)
  exact key _ fun i hi => List.mem_range.1 hi

/-- `attach_stream_to_connect` writes to the slot that was not found. -/
theorem attachStreamToConnect_full {jc : Ptr} (hjc : jc ∈ w.conns.allocated)
    (hstatus : (w.conns.jconnects jc).status = .beginConn)
    (hfull : ∀ i < maxEvents, (w.gEvents i).status ≠ 0) (s : TcpStream) (now : ℤ) :
    w.attachStreamToConnect jc s now = .error .nullPointer := by
  obtain ⟨w₁, hset, hsame⟩ : ∃ w₁ : Client,
      w.setConn jc { w.conns.jconnects jc with stream := some s.self } = .ok w₁ ∧
        w₁.gEvents = w.gEvents := ⟨_, setConn_of_mem hjc _, rfl⟩
  have hnone : w₁.evget (-1) = .ok none := (evget_free_congr hsame).trans (evget_full hfull)
  simp only [attachStreamToConnect, get_of_mem hjc, ok_bind, hset]
  simp only [hstatus, hnone, ok_bind]
  rfl

/-- **A new connection that finds no free slot**: the slot is written to all the same. -/
theorem createTransaction_full (hP : w.pool.Ok) (hL : w.conns.Lists [])
    (hd : d.Ok w.conns w.kernel) (hconnects : d.Connects)
    (hfull : ∀ i < maxEvents, (w.gEvents i).status ≠ 0) (entry : TransferLogEntry) :
    w.createTransaction entry d = .error .nullPointer := by
  obtain ⟨x, v, hv⟩ := createTransaction_prepared hP hL hd hconnects entry
  rw [hv.run]
  exact attachStreamToConnect_full hv.dialled.allocated hv.dialled.status
    (hv.gEvents.symm ▸ hfull) x.stream d.now

/-- A transaction that was started on a new connection got its slot. -/
theorem Made.getsSlot {x : Transaction} (h : Made entry d x i w w') : GetsSlot d w w' i := by
  obtain ⟨raw, hmalloc⟩ := h.malloc
  exact {
    lt := h.serves.slot
    evget := h.evget
    free := h.free
    slot := ⟨x.jc, raw, x.stream.serverSock, hmalloc, h.dial, h.slot⟩
    registered := h.serves.reg
    others := fun j hj => h.frame (.slot j) (by simpa using hj) }

/-- **When a step handles a full table.** -/
theorem step_handles_iff (h : Inv notRecords T w) (hop : w.Possible op) :
    w.Handles op ↔ w.HasSlot op := by
  cases op with
  | create entry d =>
    by_cases hconnects : d.Connects
    · by_cases hfree : ∃ i < maxEvents, (w.gEvents i).status = 0
      · obtain ⟨i, x, w', hrun, hmade⟩ :=
          createTransaction_made h.sound.pool h.sound.conns hop hconnects hfree entry
        exact iff_of_true ⟨w', hrun, .inr ⟨i, hmade.getsSlot⟩⟩ fun _ => hfree
      · have hfull : ∀ i < maxEvents, (w.gEvents i).status ≠ 0 := fun i hi hzero =>
          hfree ⟨i, hi, hzero⟩
        have hfault :=
          createTransaction_full h.sound.pool h.sound.conns hop hconnects hfull entry
        refine iff_of_false ?_ fun hslot => hfree (hslot hconnects)
        rintro ⟨w', hrun, -⟩
        cases hfault.symm.trans hrun
    · obtain ⟨-, C, K, hrun, -⟩ := createTransaction_given_up h.sound.conns hop hconnects entry
      exact iff_of_true ⟨_, hrun, .inl rfl⟩ fun hyes => absurd hyes hconnects
  | sweep now => exact Iff.rfl
  | batch es => exact Iff.rfl

/-! ### Runs -/

/-- A step that does not fault keeps the table, whether or not it needed a slot. -/
theorem step_keeps_of_ok (w : Client) (op : ClientOp) (w' : Client)
    (h : ∃ T, Inv notRecords T w) (hop : w.Possible op) (hrun : w.step op = .ok w') :
    ∃ T, Inv notRecords T w' := by
  obtain ⟨T, h⟩ := h
  have hslot : w.HasSlot op := by
    cases op with
    | create entry d =>
      intro hconnects
      by_contra hnone
      push Not at hnone
      have hfault := createTransaction_full h.sound.pool h.sound.conns hop hconnects hnone entry
      cases hfault.symm.trans hrun
    | sweep now => exact trivial
    | batch es => exact trivial
  obtain ⟨w'', hrun', h'⟩ := step_keeps w op ⟨T, h⟩ (hop.allowed hslot)
  cases hrun.symm.trans hrun'
  exact h'

variable {raw : Ptr → Memory} {opened : Finset ℤ} {rd wr : ℤ} {ops : List ClientOp}

/-- **A full event table.**  In a run of the client every new connection gets a slot or is given up
exactly when every connection that is made finds a free slot; and whatever state a run has come to,
so it is for the next transaction. -/
theorem client_slots_iff (hops : Steps step Possible (init raw opened rd wr) ops) :
    (Steps step Handles (init raw opened rd wr) ops ↔
      Steps step HasSlot (init raw opened rd wr) ops) ∧
    ∀ w, run step (init raw opened rd wr) ops = .ok w → ∀ op, w.Possible op →
      (w.Handles op ↔ w.HasSlot op) := by
  have hinit := init_table raw opened rd wr
  refine ⟨steps_iff_steps (I := fun w => ∃ T, Inv notRecords T w) ?_ ?_ hinit hops, ?_⟩
  · exact fun w op h hop hslot => step_keeps w op h (hop.allowed hslot)
  · rintro w op ⟨T, h⟩ hop
    exact step_handles_iff h hop
  · intro w hrun op hop
    obtain ⟨T, h⟩ := run_keeps step_keeps_of_ok hinit hops hrun
    exact step_handles_iff h hop

/-! ### 1024 transactions -/

/-- The `k`th connection. -/
def dialNth (k : ℕ) : Dialling where
  malloc := some (k, ⟨0, false, 0, .beginConn, none⟩)
  dial := .connected (5 + k)
  behind := []
  now := 0

/-- The first `n` transactions. -/
def creates (n : ℕ) : List ClientOp :=
  (List.range n).map fun k => .create (entryOfLen 512) (dialNth k)

theorem dialNth_connects (k : ℕ) : (dialNth k).Connects := ⟨by simp [dialNth], trivial⟩

/-- The first `n` records and descriptors are in use, and so are the first `n` slots. -/
structure Busy (n : ℕ) (w : Client) : Prop where
  table : ∃ T, Inv notRecords T w
  slots : ∀ i, (w.gEvents i).status = if i < n then 1 else 0
  records : ∀ jc ∈ w.conns.allocated, jc < n
  descriptors : ∀ fd ∈ w.kernel.opened, fd < 5 + n

theorem Busy.possible {n : ℕ} (h : Busy n w) (hn : n ≤ maxEvents) :
    w.Possible (.create (entryOfLen 512) (dialNth n)) := by
  refine ⟨fun jc raw hmalloc hjc => ?_, fun fd hfd => ?_⟩
  · cases hmalloc
    exact lt_irrefl _ (h.records _ hjc)
  · cases hfd
    have hlt : n < 1025 := Nat.lt_succ_of_le hn
    exact ⟨by omega, by omega, fun hopen => lt_irrefl _ (h.descriptors _ hopen)⟩

/-- One more transaction takes one more slot. -/
theorem Busy.create {n : ℕ} (h : Busy n w) (hn : n < maxEvents) :
    ∃ w', w.step (.create (entryOfLen 512) (dialNth n)) = .ok w' ∧ Busy (n + 1) w' := by
  obtain ⟨T, hinv⟩ := h.table
  have hpossible := h.possible hn.le
  have hzero : (w.gEvents n).status = 0 := by simp [h.slots n]
  obtain ⟨i, x, w', hrun, hmade⟩ := createTransaction_made hinv.sound.pool hinv.sound.conns
    hpossible (dialNth_connects n) ⟨n, hn, hzero⟩ (entryOfLen 512)
  obtain rfl : n = i := by
    have hevget := hmade.evget
    rw [evget_first hn hzero fun k hk => by simp [h.slots k, hk]] at hevget
    simpa using hevget
  obtain ⟨raw, hmalloc⟩ := hmade.malloc
  have hdial := hmade.dial
  simp only [dialNth, Option.some.injEq, Prod.mk.injEq] at hmalloc
  simp only [dialNth, Dial.fd?, Option.some.injEq] at hdial
  refine ⟨w', hrun, step_keeps_of_ok w _ w' h.table hpossible hrun, fun i => ?_, fun jc hjc => ?_,
    fun fd hfd => ?_⟩
  · by_cases hi : i = n
    · rw [hi, hmade.slot]
      simp
    · have hsame : w'.gEvents i = w.gEvents i := hmade.getsSlot.others i hi
      rw [hsame, h.slots i]
      split_ifs <;> first | rfl | omega
  · by_cases hnew : jc = x.jc
    · rw [hnew, ← hmalloc.1]
      exact Nat.lt_succ_self n
    · have hsame : Resource.Same (.conn jc) w w' := hmade.frame (.conn jc) (by simpa using hnew)
      exact (h.records jc (hsame.1.1 hjc)).trans (Nat.lt_succ_self n)
  · by_cases hnew : fd = x.stream.serverSock
    · push_cast
      omega
    · have hsame : Resource.Same (.fd fd) w w' := hmade.frame (.fd fd) (by simpa using hnew)
      have hlt := h.descriptors fd (hsame.1.1 hfd)
      push_cast
      omega

/-- While they last, the transactions have the first slots. -/
theorem run_creates {n : ℕ} (hn : n ≤ maxEvents) :
    ∃ w, run step fresh (creates n) = .ok w ∧ Steps step Possible fresh (creates n) ∧ Busy n w := by
  induction n with
  | zero =>
    refine ⟨fresh, rfl, trivial, init_table _ _ _ _, fun i => rfl, fun jc hjc => ?_,
      fun fd hfd => ?_⟩
    · exact absurd hjc (Finset.notMem_empty jc)
    · simp only [fresh, init, setWakeUpPolling, Kernel.unwatched, epollCtl_opened,
        Kernel.openFd_opened, Finset.mem_insert, Finset.notMem_empty, or_false] at hfd
      omega
  | succ n ih =>
    obtain ⟨w, hrun, hops, hbusy⟩ := ih (by omega)
    obtain ⟨w', hstep, hbusy'⟩ := hbusy.create hn
    have hcreates : creates (n + 1) = creates n ++ [.create (entryOfLen 512) (dialNth n)] := by
      simp [creates, List.range_succ]
    rw [hcreates]
    exact ⟨w', run_concat_ok.2 ⟨w, hrun, hstep⟩, (steps_append hrun _).2
      ⟨hops, hbusy.possible (by omega), fun _ _ => trivial⟩, hbusy'⟩

theorem client_slots_iff_creates :
    (Steps step Handles fresh (creates 2) ↔ Steps step HasSlot fresh (creates 2)) ∧
      ∀ w, run step fresh (creates 2) = .ok w → ∀ op, w.Possible op →
        (w.Handles op ↔ w.HasSlot op) := by
  obtain ⟨w, -, hops, -⟩ := run_creates (n := 2) (by decide)
  exact client_slots_iff hops

/-- The transaction that comes when others have all the slots writes to a slot that is not there. -/
theorem creates_fault {n : ℕ} (hn : n = maxEvents) :
    ∃ w, Steps step Possible fresh (creates n) ∧ run step fresh (creates n) = .ok w ∧
      (∀ i < maxEvents, (w.gEvents i).status = 1) ∧
      w.Possible (.create (entryOfLen 512) (dialNth n)) ∧
      w.createTransaction (entryOfLen 512) (dialNth n) = .error .nullPointer ∧
      ¬ w.Handles (.create (entryOfLen 512) (dialNth n)) := by
  obtain ⟨w, hrun, hops, hbusy⟩ := run_creates hn.le
  obtain ⟨T, h⟩ := hbusy.table
  have hused : ∀ i < maxEvents, (w.gEvents i).status = 1 := fun i hi => by
    rw [hbusy.slots i, if_pos (hn ▸ hi)]
  have hpossible := hbusy.possible hn.le
  have hfault := createTransaction_full h.sound.pool h.sound.conns hpossible
    (dialNth_connects n) (fun i hi => by simp [hused i hi]) (entryOfLen 512)
  refine ⟨w, hops, hrun, hused, hpossible, hfault, ?_⟩
  rintro ⟨w', hrun', -⟩
  cases hfault.symm.trans hrun'

/-- With 1024 transactions under way, one more makes the client write through a null pointer. -/
theorem client_slots_full :
    ∃ w, Steps step Possible fresh (creates maxEvents) ∧
      run step fresh (creates maxEvents) = .ok w ∧ (∀ i < maxEvents, (w.gEvents i).status = 1) ∧
      w.Possible (.create (entryOfLen 512) (dialNth maxEvents)) ∧
      w.createTransaction (entryOfLen 512) (dialNth maxEvents) = .error .nullPointer ∧
      ¬ w.Handles (.create (entryOfLen 512) (dialNth maxEvents)) :=
  creates_fault rfl

end Client

end Jujube
