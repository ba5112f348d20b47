import Jujube.ClientKeepAlive

/-!
# Runs with connections that are kept alive

The runs of the client with one more step, `release_stream_from_connect` with either flag for a slot
that serves a transaction.  A slot keeps its connection when the connection is gone, so that `evget`
may read one that was freed: `keepAlive_lookup` says when the slot of an idle connection is found.
The timeout deregisters an idle connection that stays in the list: `keepAlive_agrees` says when the
list and the epoll set agree on the idle connections.
-/

namespace Jujube

open Bytes Pool Connections Ownership Transition Client

/-- What the main loop does, and `release_stream_from_connect` for slot `i`. -/
inductive KeepOp
  | create (entry : TransferLogEntry) (d : Dialling)
  | sweep (now : ℤ)
  | batch (es : List (EpollData × Event))
  | release (i : ℕ) (isBadConn : Bool) (now : ℤ)

/-- The client, and for each connection the slot that `eventset` was last called on for it. -/
structure Keeping where
  client : Client
  home : Ptr → Option ℕ

namespace Keeping

/-- The connection and the slot that `create_transaction` calls `eventset` for, if it does. -/
def setUp (entry : TransferLogEntry) (d : Dialling) (w : Client) : Option (Ptr × ℕ) :=
  match w.takeConnection entry d with
  | .ok (some jc, C, _) =>
    if (C.jconnects jc).status = .beginConn then
      match w.evget (-1) with
      | .ok (some i) => some (jc, i)
      | _ => none
    else none
  | _ => none

/-- One step. -/
def step (s : Keeping) : KeepOp → Except Fault Keeping
  | .create entry d => do
    let w ← s.client.createTransaction entry d
    return ⟨w, (setUp entry d s.client).elim s.home fun x => Function.update s.home x.1 (some x.2)⟩
  | .sweep now => do
    let w ← s.client.expiresHouseKeeping now s.client.tickleFd
    return ⟨w, s.home⟩
  | .batch es => do
    let w ← s.client.dispatch es
    return ⟨w, s.home⟩
  | .release i isBadConn now => do
    let w ← s.client.releaseStreamFromConnect i isBadConn now
    return ⟨w, s.home⟩

/-- The start, with no connections. -/
def start (raw : Ptr → Memory) (opened : Finset ℤ) (rd wr : ℤ) : Keeping :=
  ⟨init raw opened rd wr, fun _ => none⟩

/-- What the system promises and what the program relies on: a transaction that finds the list empty
gets a new connection and a free slot, what is reported is registered, and a slot that is released
serves a transaction. -/
def Allowed (s : Keeping) : KeepOp → Prop
  | .create _ d => d.Ok s.client.conns s.client.kernel ∧ (s.client.conns.Lists [] →
      d.Connects ∧ ∃ i < maxEvents, (s.client.gEvents i).status = 0)
  | .sweep _ => True
  | .batch es => s.client.Reported es
  | .release i _ _ =>
    i < maxEvents ∧ (s.client.gEvents i).status = 1 ∧ s.client.slotStream i ≠ none

/-- A connection that is released with `OK_CONNECT` is alive. -/
def ReleasesAlive (s : Keeping) : KeepOp → Prop
  | .release i false _ => ∀ jc, (s.client.gEvents i).jc = some jc →
      (s.client.conns.jconnects jc).isAlive = true
  | _ => True

/-- A transaction that takes a connection of the list: in front of the slot of the connection there
is no slot with status 0 that still refers to a freed connection, or to one on the same
descriptor. -/
def Clear (s : Keeping) : KeepOp → Prop
  | .create _ _ => ∀ jc L i, s.client.conns.Lists (jc :: L) → s.home jc = some i →
      ∀ k < i, (s.client.gEvents k).status = 0 →
        Skips (s.client.conns.jconnects jc).fd k s.client
  | _ => True

/-- A sweep finds no slot due that watches an idle connection. -/
def KeepsWatch (s : Keeping) : KeepOp → Prop
  | .sweep now => ∀ i < maxEvents, s.client.Due now s.client.tickleFd i →
      (s.client.gEvents i).callBack ≠ some .keepaliveCb
  | _ => True

/-- When `create_transaction` takes a connection of the list, `evget` returns the slot that was set
up for it, and no slot up to there refers to a freed connection. -/
def LooksUp (s : Keeping) : KeepOp → Prop
  | .create _ _ => ∀ jc C K, getConnection s.client.conns s.client.kernel = .ok (some jc, C, K) →
      ∃ i, s.home jc = some i ∧
        (∀ k ≤ i, ∀ p, (s.client.gEvents k).jc = some p → p ∈ C.allocated) ∧
        ({ s.client with conns := C, kernel := K } : Client).evget (C.jconnects jc).fd =
          .ok (some i)
  | _ => True

variable {L : List Ptr} {T : ℕ → Entry} {s s' : Keeping} {op : KeepOp}

/-- The client stands for a table. -/
def Stands (s : Keeping) : Prop := ∃ L T, Pooled L T s.home s.client

theorem start_pooled (raw : Ptr → Memory) (opened : Finset ℤ) (rd wr : ℤ) :
    Pooled [] (fun _ => .vacant) (start raw opened rd wr).home (start raw opened rd wr).client := by
  have h := (init_inv raw opened rd wr).mono (Set.subset_univ notRecords)
  refine ⟨h.sound.pool, h.sound.checkpos, fun jc halive => ?_, h.sound.conns.ring,
    ⟨h.table.holds, h.table.disjoint, h.table.covered⟩, fun jc => ?_, fun i jc hjc => ?_⟩
  · cases halive
  · simp [Entry.idleJc]
  · cases hjc

theorem setUp_of_made {entry : TransferLogEntry} {d : Dialling} {x : Transaction} {i : ℕ}
    {w w' : Client} (h : Made entry d x i w w') : setUp entry d w = some (x.jc, i) := by
  obtain ⟨C, K, htake, hbegin⟩ := h.taken
  have hevget := h.evget
  simp only [setUp, htake, hevget, if_pos hbegin]

/-- A sweep parks a connection exactly when it finds a slot due that watches one. -/
theorem parked_expired_iff (h : Pooled L T s.home s.client) (hnot : ¬ Parked T) {now : ℤ}
    {T' : ℕ → Entry} {w' : Client} (h' : Pooled L T' s.home w')
    (hT' : ∀ i < maxEvents, T' i =
      if s.client.Due now s.client.tickleFd i then (T i).expired else T i) :
    Parked T' ↔ ¬ s.KeepsWatch (.sweep now) := by
  constructor
  · rintro ⟨i, jc, fd, hi⟩ hkeeps
    have hslot := (h'.waits hi).slot
    have hexpired := hT' i hslot
    rw [hi] at hexpired
    split_ifs at hexpired with hdue
    · rcases h.of_status hdue.1 with ⟨x, hT⟩ | ⟨jc', fd', hT⟩
      · rw [hT] at hexpired
        cases hexpired
      · exact hkeeps i hslot hdue ((h.waits hT).reg rfl).2.1
    · exact hnot ⟨i, jc, fd, hexpired.symm⟩
  · intro hkeeps
    simp only [KeepsWatch, not_forall, not_not] at hkeeps
    obtain ⟨i, hi, hdue, hcb⟩ := hkeeps
    rcases h.of_status hdue.1 with ⟨x, hT⟩ | ⟨jc, fd, hT⟩
    · rcases (h.serves hT).callBack with hcb' | hcb'
      · rw [hcb'] at hcb
        cases hcb
      · rw [hcb'] at hcb
        cases hcb
    · refine ⟨i, jc, fd, ?_⟩
      rw [hT' i hi, if_pos hdue, hT]
      rfl

/-- **One step** does not fault and keeps the table, when a connection that is kept is alive and the
slot of one that is taken is found.  It parks a connection exactly when it is a sweep that finds one
due. -/
theorem step_pooled (h : Pooled L T s.home s.client) (hop : s.Allowed op)
    (halive : s.ReleasesAlive op) (hclear : s.Clear op) :
    ∃ s' L' T', s.step op = .ok s' ∧ Pooled L' T' s'.home s'.client ∧
      (¬ Parked T → (Parked T' ↔ ¬ s.KeepsWatch op)) := by
  cases op with
  | create entry d =>
    cases L with
    | nil =>
      obtain ⟨hconnects, hfree⟩ := hop.2 h.lists
      obtain ⟨i, x, w', hmade, hrun, h'⟩ := made_pooled h hop.1 hconnects hfree entry
      have hset := setUp_of_made hmade
      refine ⟨⟨w', Function.update s.home x.jc (some i)⟩, _, _, ?_, h',
        fun hnot => iff_of_false (fun hp => hnot (parked_of_update (by simp) hp))
          (not_not.2 trivial)⟩
      simp only [step, hrun, ok_bind, hset, Option.elim_some, pure_eq_ok]
    | cons jc L =>
      obtain ⟨i, hi⟩ := (h.listed jc).1 List.mem_cons_self
      have hhome := h.home i jc (Entry.jc_of_idleJc hi)
      obtain ⟨x, w', links, htake, hestab, hrun, h'⟩ :=
        taken_pooled h hhome (hclear jc L i h.lists hhome) entry d
      have hset : setUp entry d s.client = none := by
        simp only [setUp, htake, hestab, reduceCtorEq, if_false]
      refine ⟨⟨w', s.home⟩, _, _, ?_, h',
        fun hnot => iff_of_false (fun hp => hnot (parked_of_update (by simp) hp))
          (not_not.2 trivial)⟩
      simp only [step, hrun, ok_bind, hset, Option.elim_none, pure_eq_ok]
  | sweep now =>
    obtain ⟨w', T', hrun, h', hT'⟩ := expiresHouseKeeping_pooled h now s.client.tickleFd
    refine ⟨⟨w', s.home⟩, L, T', by simp only [step, hrun, ok_bind, pure_eq_ok], h', fun hnot => ?_⟩
    exact parked_expired_iff h hnot h' hT'
  | batch es =>
    obtain ⟨w', L', T', hrun, h', hparked⟩ := dispatch_pooled h hop
    exact ⟨⟨w', s.home⟩, L', T', by simp only [step, hrun, ok_bind, pure_eq_ok], h',
      fun hnot => iff_of_false (fun hp => hnot (hparked hp)) (not_not.2 trivial)⟩
  | release i isBadConn now =>
    obtain ⟨-, hstatus, hstream⟩ := hop
    obtain ⟨x, hT⟩ : ∃ x, T i = .serving x := by
      rcases h.of_status hstatus with hx | ⟨jc, fd, hT⟩
      · exact hx
      · have hw := h.waits hT
        exact absurd (by simp [slotStream, hw.slotJc, hw.connStream]) hstream
    have hx := h.serves hT
    cases isBadConn with
    | true =>
      obtain ⟨w', hrun, hw'⟩ := release_spec hx.toAttached h.pool now
      refine ⟨⟨w', s.home⟩, L, _, ?_, h.handled hT (Set.subset_univ _) hw',
        fun hnot => iff_of_false (fun hp => hnot (parked_of_update (by simp [Entry.of]) hp))
          (not_not.2 trivial)⟩
      rw [badConnect] at hrun
      simp only [step, hrun, ok_bind, pure_eq_ok]
    | false =>
      obtain ⟨w', hrun, h', -⟩ := release_pooled h hT (halive x.jc hx.jc) now
      refine ⟨⟨w', s.home⟩, _, _, ?_, h',
        fun hnot => iff_of_false (fun hp => hnot (parked_of_update (by simp) hp))
          (not_not.2 trivial)⟩
      rw [okConnect] at hrun
      simp only [step, hrun, ok_bind, pure_eq_ok]

/-! ### A connection that is kept -/

/-- All that the runs below are asked for. -/
def Careful (s : Keeping) (op : KeepOp) : Prop :=
  s.Allowed op ∧ (s.ReleasesAlive op ∧ s.Clear op) ∧ s.KeepsWatch op

/-- A transaction that finds the list empty gets a new connection and the first free slot. -/
theorem create_run {d : Dialling} {i : ℕ} (h : Pooled [] T s.home s.client)
    (hd : d.Ok s.client.conns s.client.kernel) (hconnects : d.Connects) (hi : i < maxEvents)
    (hzero : (s.client.gEvents i).status = 0)
    (hfirst : ∀ k < i, (s.client.gEvents k).status ≠ 0) (entry : TransferLogEntry) :
    ∃ s' x, s.step (.create entry d) = .ok s' ∧ s.Careful (.create entry d) ∧
      Pooled [] (Function.update T i (.serving x)) s'.home s'.client ∧
      Made entry d x i s.client s'.client := by
  obtain ⟨j, x, w', hmade, hrun, h'⟩ := made_pooled h hd hconnects ⟨i, hi, hzero⟩ entry
  obtain rfl : i = j := by
    have hevget := hmade.evget
    rw [evget_first hi hzero hfirst] at hevget
    simpa using hevget
  have hset := setUp_of_made hmade
  refine ⟨⟨w', Function.update s.home x.jc (some i)⟩, x, ?_,
    ⟨⟨hd, fun _ => ⟨hconnects, i, hi, hzero⟩⟩, ⟨trivial, ?_⟩, trivial⟩, h', hmade⟩
  · simp only [step, hrun, ok_bind, hset, Option.elim_some, pure_eq_ok]
  · intro jc L' _ hL'
    cases h.lists.unique hL'

/-- The connection was made. -/
def connected : Event := ⟨false, true, [], [], 1⟩

/-- `write` takes nothing. -/
def stalled : Event := ⟨false, true, [], [.eagain], 2⟩

/-- The connection could not be made. -/
def unreachable : Event := ⟨true, false, [], [], 1⟩

/-- The connection of slot `i` is made, its stream is released while there is still something to
write, and the connection is kept. -/
def keep (i : ℕ) : List KeepOp :=
  [.batch [(.ptr i, connected)], .batch [(.ptr i, stalled)], .release i okConnect 3]

theorem stalled_leavesOpen {q : List UInt8} (hq : q ≠ []) : stalled.LeavesOpen q.length := by
  obtain ⟨b, q, rfl⟩ := List.exists_cons_of_ne_nil hq
  exact ⟨rfl, rfl, rfl, Nat.succ_pos _⟩

/-- The connection of a transaction can be kept. -/
theorem keep_run {i : ℕ} {x : Transaction} (h : Pooled L T s.home s.client)
    (hT : T i = .serving x) (hcb : (s.client.gEvents i).callBack = some .connectCb) :
    ∃ s', run step s (keep i) = .ok s' ∧ Steps step Careful s (keep i) ∧
      Pooled (L ++ [x.jc]) (Function.update T i (.idle x.jc x.stream.serverSock true)) s'.home
        s'.client ∧
      entries.Frame (slotOwn i (some x)) s.client s'.client ∧
      s'.client.tickleFd = s.client.tickleFd ∧ (s'.client.gEvents i).lastActive = 3 := by
  have hx := h.serves hT
  obtain ⟨q, hq, hcarries⟩ := hx.carries
  -- the connection is made
  obtain ⟨w₁, hrun₁, ⟨hw₁, -, -, hcarries₁⟩, hcb₁⟩ := connectCb_goes hx hcarries h.pool
    (e := connected) rfl
  have h₁ : Pooled L T s.home w₁ := by
    have h₁ := h.handled hT (Set.subset_univ _) hw₁
    rwa [Entry.of, ← hT, Function.update_eq_self] at h₁
  have hstep₁ : s.step (.batch [(.ptr i, connected)]) = .ok ⟨w₁, s.home⟩ := by
    simp only [step, dispatch, Client.callBack, hcb, hrun₁, ok_bind, pure_eq_ok]
  -- it is alive then, and has something left to write
  obtain ⟨w₂, y, hrun₂, ⟨hw₂, hown, -, -⟩, halive⟩ :=
    dataTransfer_goes hw₁.holds hcarries₁ h₁.pool (stalled_leavesOpen hq)
  have h₂ := h₁.handled hT (Set.subset_univ _) hw₂
  have hstep₂ : step ⟨w₁, s.home⟩ (.batch [(.ptr i, stalled)]) = .ok ⟨w₂, s.home⟩ := by
    simp only [step, dispatch, Client.callBack, hcb₁, hrun₂, ok_bind, pure_eq_ok]
  have hy : y.Serves i w₂ := hw₂.holds
  have hjc : y.jc = x.jc := by
    have hmem : .conn y.jc ∈ slotOwn i (some x) := hown ▸ by simp
    exact conn_mem_slotOwn_some.1 hmem
  have hsock : y.stream.serverSock = x.stream.serverSock := by
    have hmem : .fd y.stream.serverSock ∈ slotOwn i (some x) := hown ▸ by simp
    exact fd_mem_slotOwn_some.1 hmem
  -- it is kept
  have halive' : (w₂.conns.jconnects y.jc).isAlive = true := hjc ▸ halive
  obtain ⟨w₃, hrun₃, h₃, hframe₃, htickle₃, hactive₃⟩ :=
    release_pooled h₂ (Function.update_self _ _ _) halive' 3
  have hstep₃ : step ⟨w₂, s.home⟩ (.release i okConnect 3) = .ok ⟨w₃, s.home⟩ := by
    simp only [step, hrun₃, ok_bind, pure_eq_ok]
  rw [hown] at hframe₃
  rw [Function.update_idem, hjc, hsock] at h₃
  refine ⟨⟨w₃, s.home⟩, ?_, ?_, h₃, (hw₁.frame.trans hw₂.frame).trans hframe₃,
    htickle₃.trans (hw₂.tickleFd.trans hw₁.tickleFd), hactive₃⟩
  · rw [keep, run_cons_ok hstep₁, run_cons_ok hstep₂, run_cons_ok hstep₃, run_nil]
  · refine (steps_cons_ok hstep₁ _).2 ⟨⟨?_, ⟨trivial, trivial⟩, trivial⟩,
      (steps_cons_ok hstep₂ _).2 ⟨⟨?_, ⟨trivial, trivial⟩, trivial⟩,
      (steps_cons_ok hstep₃ _).2 ⟨⟨?_, ⟨?_, trivial⟩, trivial⟩, trivial⟩⟩⟩
    · exact reported_one hx.reg _
    · exact reported_one (h₁.serves hT).reg _
    · refine ⟨hy.slot, hy.reg.status, ?_⟩
      rw [slotStream_of_attached hy.toAttached]
      simp
    · intro jc hslot
      rw [hy.jc, Option.some.injEq] at hslot
      exact hslot ▸ halive'

/-- The client before its first transaction. -/
def atStart : Keeping := start (fun _ _ => 0) ∅ 3 4

theorem atStart_pooled : Pooled [] (fun _ => .vacant) atStart.home atStart.client :=
  start_pooled _ _ _ _

/-- A second connection, on descriptor 6. -/
def dialSix : Dialling := ⟨some (1, ⟨0, false, 0, .beginConn, none⟩), .connected 6, [], 0⟩

/-- No connection can be made. -/
def dialNone : Dialling := ⟨none, .noSocket, [], 4⟩

theorem dialNone_ok (C : Connections) (K : Kernel) : dialNone.Ok C K where
  fresh _ _ h := by cases h
  opened _ h := by cases h

/-- The first transaction gets slot 0, the record 0 and descriptor 5. -/
theorem dialFive_run :
    ∃ s x, step atStart (.create (entryOfLen 512) dialFive) = .ok s ∧
      atStart.Careful (.create (entryOfLen 512) dialFive) ∧
      Pooled [] (Function.update (fun _ => .vacant) 0 (.serving x)) s.home s.client ∧
      Made (entryOfLen 512) dialFive x 0 atStart.client s.client ∧
      x.jc = 0 ∧ x.stream.serverSock = 5 := by
  obtain ⟨s, x, hstep, hcareful, h, hmade⟩ := create_run (i := 0) atStart_pooled
    dialFive_ok dialFive_connects (by decide) rfl (by simp) (entryOfLen 512)
  obtain ⟨raw, hmalloc⟩ := hmade.malloc
  have hdial := hmade.dial
  simp only [dialFive, Option.some.injEq, Prod.mk.injEq] at hmalloc
  simp only [dialFive, Dial.fd?, Option.some.injEq] at hdial
  exact ⟨s, x, hstep, hcareful, h, hmade, hmalloc.1.symm, hdial.symm⟩

/-- The first connection is made and kept. -/
def kept : List KeepOp := .create (entryOfLen 512) dialFive :: keep 0

/-- It is idle in slot 0. -/
theorem kept_run :
    ∃ s, run step atStart kept = .ok s ∧ Steps step Careful atStart kept ∧
      Pooled [0] (Function.update (fun _ => .vacant) 0 (.idle 0 5 true)) s.home s.client ∧
      s.client.tickleFd = 3 ∧ (s.client.gEvents 0).lastActive = 3 := by
  obtain ⟨s₁, x, hstep, hcareful, h₁, hmade, hjc, hsock⟩ := dialFive_run
  obtain ⟨s₂, hrun, hcareful', h₂, -, htickle, hactive⟩ :=
    keep_run h₁ (Function.update_self _ _ _) (congrArg MyEvent.callBack hmade.slot)
  rw [Function.update_idem, hjc, hsock] at h₂
  exact ⟨s₂, by rw [kept, run_cons_ok hstep, hrun], (steps_cons_ok hstep _).2 ⟨hcareful, hcareful'⟩,
    h₂, htickle.trans hmade.tickleFd, hactive⟩

/-- Two connections are dialled. -/
def dialled : List KeepOp :=
  [.create (entryOfLen 512) dialFive, .create (entryOfLen 512) dialSix]

/-- They get the slots 0 and 1. -/
theorem dialled_run :
    ∃ s T x y, run step atStart dialled = .ok s ∧ Steps step Careful atStart dialled ∧
      Pooled [] T s.home s.client ∧
      (T 0 = .serving x ∧ x.jc = 0 ∧ (s.client.gEvents 0).callBack = some .connectCb) ∧
      (T 1 = .serving y ∧ y.jc = 1 ∧ y.stream.serverSock = 6 ∧
        (s.client.gEvents 1).callBack = some .connectCb) := by
  obtain ⟨s₁, x, hstep₁, hcareful₁, h₁, hmade₁, hjc, hsock⟩ := dialFive_run
  have hx := h₁.serves (Function.update_self _ _ _)
  -- slot 1, the record 1 and descriptor 6 are as they were at the start
  have hslot : s₁.client.gEvents 1 = atStart.client.gEvents 1 := hmade₁.frame (.slot 1) (by simp)
  have hconn : Resource.Same (.conn 1) atStart.client s₁.client :=
    hmade₁.frame (.conn 1) (by simp [hjc])
  have hfd : Resource.Same (.fd 6) atStart.client s₁.client :=
    hmade₁.frame (.fd 6) (by simp [hsock])
  have hd : dialSix.Ok s₁.client.conns s₁.client.kernel := by
    refine ⟨fun p raw hp => ?_, fun fd hp => ?_⟩
    · cases hp
      exact fun hmem => Finset.notMem_empty 1 (hconn.1.1 hmem)
    · cases hp
      refine ⟨by norm_num, by norm_num, fun hmem => ?_⟩
      have hopened := hfd.1.1 hmem
      simp [atStart, start, init, setWakeUpPolling, Kernel.unwatched] at hopened
  have hfirst : ∀ k < 1, (s₁.client.gEvents k).status ≠ 0 := by
    intro k hk
    obtain rfl : k = 0 := by omega
    rw [hx.reg.status]
    decide
  obtain ⟨s₂, y, hstep₂, hcareful₂, h₂, hmade₂⟩ := create_run (i := 1) h₁ hd
    ⟨by simp [dialSix], trivial⟩ (by decide) (by rw [hslot]; rfl) hfirst (entryOfLen 512)
  obtain ⟨raw, hmalloc⟩ := hmade₂.malloc
  have hdial := hmade₂.dial
  simp only [dialSix, Option.some.injEq, Prod.mk.injEq] at hmalloc
  simp only [dialSix, Dial.fd?, Option.some.injEq] at hdial
  have hslot₀ : s₂.client.gEvents 0 = s₁.client.gEvents 0 := hmade₂.frame (.slot 0) (by simp)
  refine ⟨s₂, _, x, y, ?_, ?_, h₂, ⟨by simp, hjc, ?_⟩, by simp, hmalloc.1.symm, hdial.symm,
    (congrArg MyEvent.callBack hmade₂.slot)⟩
  · rw [dialled, run_cons_ok hstep₁, run_cons_ok hstep₂, run_nil]
  · exact (steps_cons_ok hstep₁ _).2 ⟨hcareful₁, (steps_cons_ok hstep₂ _).2 ⟨hcareful₂, trivial⟩⟩
  · rw [hslot₀]
    exact (congrArg MyEvent.callBack hmade₁.slot)

/-- The first of two connections cannot be made; the second is made and kept. -/
def keptBehind : List KeepOp := dialled ++ .batch [(.ptr 0, unreachable)] :: keep 1

/-- The second is idle in slot 1, and slot 0 still refers to the first, which was freed. -/
theorem keptBehind_run :
    ∃ s T, run step atStart keptBehind = .ok s ∧ Steps step Careful atStart keptBehind ∧
      Pooled [1] T s.home s.client ∧ T 1 = .idle 1 6 true ∧ (s.client.gEvents 0).status = 0 ∧
      (s.client.gEvents 0).jc = some 0 ∧ 0 ∉ s.client.conns.allocated := by
  obtain ⟨s₂, T, x, y, hrun₂, hcareful₂, h₂, ⟨hT₀, hjc, hcb₀⟩, hT₁, hjc', hsock, hcb₁⟩ :=
    dialled_run
  have hx := h₂.serves hT₀
  -- the connection of slot 0 cannot be made
  obtain ⟨w₃, hrun₃, hw₃⟩ := release_spec hx.toAttached h₂.pool unreachable.now
  have hstep₃ : s₂.step (.batch [(.ptr 0, unreachable)]) = .ok ⟨w₃, s₂.home⟩ := by
    have hwrite : unreachable.writeEvent = false := rfl
    have hcb : s₂.client.connectCb 0 unreachable = .ok w₃ := by
      rw [connectCb_eq hx.toAttached, if_pos hwrite, hrun₃]
    simp only [step, dispatch, Client.callBack, hcb₀, hcb, ok_bind, pure_eq_ok]
  have hallowed : s₂.Careful (.batch [(.ptr 0, unreachable)]) :=
    ⟨reported_one hx.reg _, ⟨trivial, trivial⟩, trivial⟩
  have h₃ := h₂.handled hT₀ (Set.subset_univ _) hw₃
  have hjc₃ : (w₃.gEvents 0).jc = some 0 := by
    rw [releaseStreamFromConnect_jc hrun₃, hx.jc, hjc]
  have hfreed : 0 ∉ w₃.conns.allocated := hjc ▸ hw₃.freed
  -- that of slot 1 is kept
  have hT₃ : Function.update T 0 (Entry.of none) 1 = .serving y := by simpa using hT₁
  have hcb₃ : (w₃.gEvents 1).callBack = some .connectCb := by
    have hslot : w₃.gEvents 1 = s₂.client.gEvents 1 := hw₃.frame (.slot 1) (by simp)
    rw [hslot]
    exact hcb₁
  obtain ⟨s₄, hrun₄, hcareful₄, h₄, hframe, -⟩ := keep_run (s := ⟨w₃, s₂.home⟩) h₃ hT₃ hcb₃
  have hslot : s₄.client.gEvents 0 = w₃.gEvents 0 := hframe (.slot 0) (by simp)
  have hconn : Resource.Same (.conn 0) w₃ s₄.client := hframe (.conn 0) (by simp [hjc'])
  rw [hjc', hsock, List.nil_append] at h₄
  refine ⟨s₄, _, ?_, ?_, h₄, Function.update_self _ _ _, ?_, ?_,
    fun hmem => hfreed (hconn.1.1 hmem)⟩
  · rw [keptBehind, run_append hrun₂, run_cons_ok hstep₃, hrun₄]
  · exact (steps_append hrun₂ _).2 ⟨hcareful₂, (steps_cons_ok hstep₃ _).2 ⟨hallowed, hcareful₄⟩⟩
  · rw [hslot]
    exact hw₃.holds
  · rw [hslot]
    exact hjc₃

/-! ### The slot of an idle connection -/

/-- **A lookup finds the slot exactly when nothing stale is in front of it**: the connections of the
slots in use are allocated and on other descriptors. -/
theorem looksUp_iff (h : Pooled L T s.home s.client) : s.LooksUp op ↔ s.Clear op := by
  cases op with
  | sweep => exact Iff.rfl
  | batch => exact Iff.rfl
  | release => exact Iff.rfl
  | create entry d =>
    constructor
    · intro hlooks jc L' i hL' hhome k hk _
      obtain rfl : L = jc :: L' := h.lists.unique hL'
      obtain ⟨i', hi'⟩ := (h.listed jc).1 List.mem_cons_self
      obtain ⟨fd, b, hT⟩ := Entry.of_idleJc hi'
      have hw := h.waits hT
      obtain ⟨links, hget, -⟩ := getConnection_alive h.lists hw.alive s.client.kernel
      obtain ⟨i₁, hi₁, -, hevget⟩ := hlooks jc _ _ hget
      obtain rfl : i = i₁ := Option.some.inj (hhome.symm.trans hi₁)
      have hfd : (s.client.conns.jconnects jc).fd ≠ -1 := by
        rw [hw.connFd]
        have := hw.nonneg
        omega
      exact ((evget_eq_iff hfd).1 hevget).2.2 k hk
    · intro hclear jc C K hget
      cases L with
      | nil =>
        obtain ⟨links, hnil, -⟩ := getConnection_nil h.lists s.client.kernel
        rw [hnil] at hget
        cases hget
      | cons jc' L' =>
        obtain ⟨i, hi⟩ := (h.listed jc').1 List.mem_cons_self
        obtain ⟨fd, b, hT⟩ := Entry.of_idleJc hi
        have hw := h.waits hT
        obtain ⟨links, hget', -⟩ := getConnection_alive h.lists hw.alive s.client.kernel
        have hhome := h.home i jc' (Entry.jc_of_idleJc hi)
        obtain ⟨rfl, rfl, rfl⟩ : jc' = jc ∧ _ = C ∧ s.client.kernel = K := by
          simpa using hget'.symm.trans hget
        have hskips : ∀ k < i, Skips (s.client.conns.jconnects jc').fd k s.client := by
          intro k hk
          have hzero := hclear jc' L' i h.lists hhome k hk
          rw [hw.connFd] at hzero ⊢
          exact h.skips hT (by omega) hzero
        refine ⟨i, hhome, fun k hk p hp => ?_, ?_⟩
        · rcases Nat.lt_or_eq_of_le hk with hlt | rfl
          · exact (hskips k hlt p hp).1
          · rw [hw.slotJc, Option.some.injEq] at hp
            exact hp ▸ hw.allocated
        · have hfd : (s.client.conns.jconnects jc').fd ≠ -1 := by
            rw [hw.connFd]
            have := hw.nonneg
            omega
          exact (evget_eq_iff hfd).2 ⟨hw.slot, ⟨jc', hw.slotJc, hw.allocated, rfl⟩, hskips⟩

theorem stands_step (s : Keeping) (op : KeepOp) (h : s.Stands)
    (hop : s.Allowed op ∧ s.ReleasesAlive op ∧ s.Clear op) :
    ∃ s', s.step op = .ok s' ∧ s'.Stands := by
  obtain ⟨L, T, h⟩ := h
  obtain ⟨s', L', T', hrun, h', -⟩ := step_pooled h hop.1 hop.2.1 hop.2.2
  exact ⟨s', hrun, L', T', h'⟩

variable {raw : Ptr → Memory} {opened : Finset ℤ} {rd wr : ℤ} {ops : List KeepOp}

/-- **When the slot of an idle connection is found.**  A run in which a connection that is kept is
alive, and nothing stale is in front of the slot of a connection that is taken, does not fault, and
every lookup of it returns the slot of the connection without reading one that was freed.  In a run
that keeps live connections only, the second condition is the exact one. -/
theorem keepAlive_lookup (hops : Steps step Allowed (start raw opened rd wr) ops) :
    (Steps step (fun s op => s.ReleasesAlive op ∧ s.Clear op) (start raw opened rd wr) ops →
      (∃ s, run step (start raw opened rd wr) ops = .ok s) ∧
        Steps step LooksUp (start raw opened rd wr) ops) ∧
    (Steps step ReleasesAlive (start raw opened rd wr) ops →
      (Steps step LooksUp (start raw opened rd wr) ops ↔
        Steps step Clear (start raw opened rd wr) ops)) := by
  have hstart : (start raw opened rd wr).Stands := ⟨_, _, start_pooled raw opened rd wr⟩
  have hiff : Steps step ReleasesAlive (start raw opened rd wr) ops →
      (Steps step LooksUp (start raw opened rd wr) ops ↔
        Steps step Clear (start raw opened rd wr) ops) := by
    intro halive
    refine steps_iff_steps (I := Stands) (A := fun s op => s.Allowed op ∧ s.ReleasesAlive op)
      (fun s op h hop hclear => stands_step s op h ⟨hop.1, hop.2, hclear⟩) ?_ hstart
      (steps_and.2 ⟨hops, halive⟩)
    rintro s op ⟨L, T, h⟩ -
    exact looksUp_iff h
  refine ⟨fun hcareful => ?_, hiff⟩
  obtain ⟨halive, hclear⟩ := steps_and.1 hcareful
  refine ⟨?_, (hiff halive).2 hclear⟩
  obtain ⟨s, hrun, -⟩ := exists_run stands_step hstart (steps_and.2 ⟨hops, hcareful⟩)
  exact ⟨s, hrun⟩

/-- A transaction is created when the first connection was kept. -/
def keptTaken : List KeepOp := kept ++ [.create (entryOfLen 512) dialNone]

theorem keptTaken_careful : Steps step Careful atStart keptTaken := by
  obtain ⟨s, hrun, hcareful, h, -⟩ := kept_run
  refine (steps_append hrun _).2 ⟨hcareful, ⟨⟨dialNone_ok _ _, fun hL => ?_⟩, ⟨trivial, ?_⟩,
    trivial⟩, fun _ _ => trivial⟩
  · cases h.lists.unique hL
  · intro jc L i hL hhome k hk
    cases h.lists.unique hL
    have hzero : s.home 0 = some 0 := h.home 0 0 (by simp [Entry.jc])
    rw [hzero, Option.some.injEq] at hhome
    omega

theorem keepAlive_lookup_keptTaken :
    (∃ s, run step atStart keptTaken = .ok s) ∧ Steps step LooksUp atStart keptTaken := by
  obtain ⟨hallowed, hcareful⟩ := steps_and.1 keptTaken_careful
  exact (keepAlive_lookup hallowed).1 (steps_and.1 hcareful).1

/-- A transaction is created when the second connection was kept: the lookup of its slot reads the
first connection, which was freed. -/
theorem keptBehind_dangles :
    ∃ s, run step atStart keptBehind = .ok s ∧
      Steps step Allowed atStart (keptBehind ++ [.create (entryOfLen 512) dialNone]) ∧
      Steps step ReleasesAlive atStart (keptBehind ++ [.create (entryOfLen 512) dialNone]) ∧
      s.client.conns.Lists [1] ∧ (s.client.conns.jconnects 1).fd = 6 ∧ s.home 1 = some 1 ∧
      s.client.evget 6 = .error .danglingPointer ∧
      ¬ Steps step LooksUp atStart (keptBehind ++ [.create (entryOfLen 512) dialNone]) := by
  obtain ⟨s, T, hrun, hcareful, h, hT, hzero, hjc, hfreed⟩ := keptBehind_run
  have hw := h.waits hT
  have hhome : s.home 1 = some 1 := h.home 1 1 (by rw [hT]; rfl)
  obtain ⟨hallowed, hkept⟩ := steps_and.1 hcareful
  obtain ⟨halive, -⟩ := steps_and.1 (steps_and.1 hkept).1
  refine ⟨s, hrun, (steps_append hrun _).2 ⟨hallowed, ⟨dialNone_ok _ _, fun hL => ?_⟩,
    fun _ _ => trivial⟩, (steps_append hrun _).2 ⟨halive, trivial, fun _ _ => trivial⟩, h.lists,
    hw.connFd, hhome, evget_dangles (by norm_num) ⟨0, hjc, hfreed⟩, fun hlooks => ?_⟩
  · cases h.lists.unique hL
  · have hclear := (looksUp_iff h).1 ((steps_append hrun _).1 hlooks).2.1
    exact hfreed (hclear 1 [] 1 h.lists hhome 0 (by norm_num) hzero 0 hjc).1

/-! ### The list and the epoll set -/

/-- The connection is linked in `g_jconnect`. -/
def Linked (s : Keeping) (jc : Ptr) : Prop := ∃ L, s.client.conns.Lists L ∧ jc ∈ L

/-- Exactly one slot with status 1 refers to the connection, with `keepalive_cb`; the connection has
no stream and is alive. -/
def Watched (s : Keeping) (jc : Ptr) : Prop :=
  ∃ i < maxEvents, ((s.client.gEvents i).status = 1 ∧ (s.client.gEvents i).jc = some jc) ∧
    (∀ k < maxEvents, (s.client.gEvents k).status = 1 → (s.client.gEvents k).jc = some jc → k = i) ∧
    (s.client.gEvents i).callBack = some .keepaliveCb ∧
    (s.client.conns.jconnects jc).stream = none ∧ (s.client.conns.jconnects jc).isAlive = true

/-- The list and the slots agree on the idle connections, and the epoll set waits for the server to
close one of them. -/
def Agrees (s : Keeping) : Prop :=
  (∀ jc, s.Linked jc ↔ s.Watched jc) ∧
    ∀ jc, s.Linked jc → ∃ i, (s.client.gEvents i).callBack = some .keepaliveCb ∧
      (s.client.gEvents i).jc = some jc ∧
      s.client.kernel.interest (s.client.conns.jconnects jc).fd = some ⟨.ptr i, ⟨true, false⟩⟩

theorem linked_iff (h : Pooled L T s.home s.client) {jc : Ptr} :
    s.Linked jc ↔ ∃ i fd b, T i = .idle jc fd b := by
  constructor
  · rintro ⟨L', hL', hjc⟩
    obtain rfl : L = L' := h.lists.unique hL'
    obtain ⟨i, hi⟩ := (h.listed jc).1 hjc
    obtain ⟨fd, b, hT⟩ := Entry.of_idleJc hi
    exact ⟨i, fd, b, hT⟩
  · rintro ⟨i, fd, b, hT⟩
    exact ⟨L, h.lists, (h.listed jc).2 ⟨i, by rw [hT]; rfl⟩⟩

/-- A slot with status 1 that refers to a connection has it in the table. -/
theorem jc_of_status (h : Pooled L T s.home s.client) {i : ℕ} {jc : Ptr}
    (hi : (s.client.gEvents i).status = 1) (hjc : (s.client.gEvents i).jc = some jc) :
    (T i).jc = some jc := by
  rcases h.of_status hi with ⟨x, hT⟩ | ⟨p, fd, hT⟩
  · rw [(h.serves hT).jc] at hjc
    rw [hT]
    exact hjc
  · rw [(h.waits hT).slotJc] at hjc
    rw [hT]
    exact hjc

theorem watched_iff (h : Pooled L T s.home s.client) {jc : Ptr} :
    s.Watched jc ↔ ∃ i fd, T i = .idle jc fd true := by
  constructor
  · rintro ⟨i, -, ⟨hi, hjc⟩, -, hcb, -⟩
    rcases h.of_status hi with ⟨x, hT⟩ | ⟨p, fd, hT⟩
    · rcases (h.serves hT).callBack with hcb' | hcb'
      · rw [hcb'] at hcb
        cases hcb
      · rw [hcb'] at hcb
        cases hcb
    · have hp := jc_of_status h hi hjc
      rw [hT] at hp
      cases hp
      exact ⟨i, fd, hT⟩
  · rintro ⟨i, fd, hT⟩
    have hw := h.waits hT
    obtain ⟨hreg, hcb, -⟩ := hw.reg rfl
    refine ⟨i, hw.slot, ⟨hreg.status, hw.slotJc⟩, fun k _ hk hjc => ?_, hcb, hw.connStream,
      hw.alive⟩
    exact h.unique (jc_of_status h hk hjc) (by rw [hT]; rfl)

/-- **The list and the epoll set agree exactly when no connection is parked.** -/
theorem agrees_iff (h : Pooled L T s.home s.client) : s.Agrees ↔ ¬ Parked T := by
  constructor
  · rintro ⟨hagree, -⟩ ⟨i, jc, fd, hT⟩
    obtain ⟨j, fd', hT'⟩ := (watched_iff h).1 ((hagree jc).1 ((linked_iff h).2 ⟨i, fd, false, hT⟩))
    obtain rfl : i = j := h.unique (by rw [hT]; rfl) (by rw [hT']; rfl)
    rw [hT] at hT'
    cases hT'
  · intro hnot
    have hidle : ∀ jc, s.Linked jc → ∃ i fd, T i = .idle jc fd true := by
      intro jc hjc
      obtain ⟨i, fd, b, hT⟩ := (linked_iff h).1 hjc
      cases b with
      | true => exact ⟨i, fd, hT⟩
      | false => exact absurd ⟨i, jc, fd, hT⟩ hnot
    refine ⟨fun jc => ⟨fun hjc => (watched_iff h).2 (hidle jc hjc), fun hjc => ?_⟩,
      fun jc hjc => ?_⟩
    · obtain ⟨i, fd, hT⟩ := (watched_iff h).1 hjc
      exact (linked_iff h).2 ⟨i, fd, true, hT⟩
    · obtain ⟨i, fd, hT⟩ := hidle jc hjc
      have hw := h.waits hT
      obtain ⟨hreg, hcb, hmask⟩ := hw.reg rfl
      refine ⟨i, hcb, hw.slotJc, ?_⟩
      rw [hw.connFd, ← hw.slotFd, hreg.interest, hmask]

/-- **When the list and the epoll set agree.**  In a run in which a connection that is kept is
alive, nothing stale is in front of the slot of a connection that is taken, and no sweep finds a
slot due that watches an idle connection, they do in every state.  A run that meets the first two
has a state where they do not as soon as it does not meet the third. -/
theorem keepAlive_agrees (hops : Steps step Allowed (start raw opened rd wr) ops) :
    (Steps step (fun s op => (s.ReleasesAlive op ∧ s.Clear op) ∧ s.KeepsWatch op)
        (start raw opened rd wr) ops →
      (∃ s, run step (start raw opened rd wr) ops = .ok s) ∧
        Along step Agrees (start raw opened rd wr) ops) ∧
    (Steps step (fun s op => s.ReleasesAlive op ∧ s.Clear op) (start raw opened rd wr) ops →
      (Along step Agrees (start raw opened rd wr) ops ↔
        Steps step KeepsWatch (start raw opened rd wr) ops)) := by
  have hpooled := start_pooled raw opened rd wr
  have hstart : (start raw opened rd wr).Stands := ⟨_, _, hpooled⟩
  have hiff :
      Steps step (fun s op => s.ReleasesAlive op ∧ s.Clear op) (start raw opened rd wr) ops →
      (Along step Agrees (start raw opened rd wr) ops ↔
        Steps step KeepsWatch (start raw opened rd wr) ops) := by
    intro hcareful
    refine along_iff_steps stands_step ?_ hstart ((agrees_iff hpooled).2 ?_)
      (steps_and.2 ⟨hops, hcareful⟩)
    · rintro s op s' ⟨L, T, h⟩ hagrees ⟨hop, halive, hclear⟩ hrun
      obtain ⟨s'', L', T', hrun', h', hparked⟩ := step_pooled h hop halive hclear
      cases hrun.symm.trans hrun'
      rw [agrees_iff h', hparked ((agrees_iff h).1 hagrees), not_not]
    · rintro ⟨i, jc, fd, hi⟩
      cases hi
  refine ⟨fun hcareful => ?_, hiff⟩
  obtain ⟨hcareful, hkeeps⟩ := steps_and.1 hcareful
  refine ⟨?_, (hiff hcareful).2 hkeeps⟩
  obtain ⟨s, hrun, -⟩ := exists_run stands_step hstart (steps_and.2 ⟨hops, hcareful⟩)
  exact ⟨s, hrun⟩

theorem keepAlive_agrees_keptTaken :
    (∃ s, run step atStart keptTaken = .ok s) ∧ Along step Agrees atStart keptTaken := by
  obtain ⟨hallowed, hcareful⟩ := steps_and.1 keptTaken_careful
  exact (keepAlive_agrees hallowed).1 hcareful

/-- A sweep ten seconds after the first connection was kept: it is in the list, and nothing watches
it. -/
theorem kept_unwatched :
    ∃ s, run step atStart (kept ++ [.sweep 13]) = .ok s ∧
      Steps step Allowed atStart (kept ++ [.sweep 13]) ∧
      Steps step (fun s op => s.ReleasesAlive op ∧ s.Clear op) atStart (kept ++ [.sweep 13]) ∧
      s.Linked 0 ∧ ¬ s.Watched 0 ∧ s.client.kernel.interest 5 = none ∧
      ¬ Along step Agrees atStart (kept ++ [.sweep 13]) := by
  obtain ⟨s, hrun, hcareful, h, htickle, hactive⟩ := kept_run
  obtain ⟨hallowed, hkept⟩ := steps_and.1 hcareful
  have hw := h.waits (Function.update_self _ _ _)
  obtain ⟨hreg, -⟩ := hw.reg rfl
  have hdue : s.client.Due 13 s.client.tickleFd 0 := by
    refine ⟨hreg.status, ?_, ?_⟩
    · rw [hactive]
      norm_num
    · rw [htickle, hw.slotFd]
      norm_num
  obtain ⟨w', T', hsweep, h', hT'⟩ := expiresHouseKeeping_pooled h 13 s.client.tickleFd
  have hidle : T' 0 = .idle 0 5 false := by
    rw [hT' 0 (by decide), if_pos hdue, Function.update_self]
    rfl
  have hstep : s.step (.sweep 13) = .ok ⟨w', s.home⟩ := by
    simp only [step, hsweep, ok_bind, pure_eq_ok]
  have hrun' : run step atStart (kept ++ [.sweep 13]) = .ok ⟨w', s.home⟩ :=
    run_concat_ok.2 ⟨s, hrun, hstep⟩
  have hlinked : Linked ⟨w', s.home⟩ 0 := (linked_iff (s := ⟨w', s.home⟩) h').2 ⟨0, 5, false, hidle⟩
  have hnot : ¬ Watched ⟨w', s.home⟩ 0 := by
    intro hwatched
    obtain ⟨i, fd, hi⟩ := (watched_iff (s := ⟨w', s.home⟩) h').1 hwatched
    obtain rfl : 0 = i := h'.unique (by rw [hidle]; rfl) (by rw [hi]; rfl)
    rw [hidle] at hi
    cases hi
  refine ⟨⟨w', s.home⟩, hrun', (steps_append hrun _).2 ⟨hallowed, trivial, fun _ _ => trivial⟩,
    (steps_append hrun _).2 ⟨(steps_and.1 hkept).1, ⟨trivial, trivial⟩, fun _ _ => trivial⟩,
    hlinked, hnot, ((h'.waits hidle).parked rfl).2, fun halong => ?_⟩
  have hlast : Agrees ⟨w', s.home⟩ :=
    along_iff_prefix.1 halong _ _ (List.prefix_refl _) hrun'
  exact hnot ((hlast.1 0).1 hlinked)

end Keeping

end Jujube
