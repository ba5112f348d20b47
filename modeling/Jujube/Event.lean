import Jujube.Kernel
import Jujube.Stream

/-!
# `event.c`: one slot

A slot (`myevent_s`) couples a descriptor with the callback that serves it.  The functions of this
module work on one slot, given by its index and its contents, and on the epoll set; `close_stream`
also ends the stream of the connection the slot serves, which its caller has looked up.  `arg` is
the slot itself wherever the program sets it, `thandler` is never read: both are left out.

`MyEvent.Registered` is the state between `eventadd` and `eventdel`: `status` is 1 and the epoll
set has the slot's descriptor, with the slot and the slot's mask.
-/

namespace Jujube

open Pool

/-- `MAX_EVENTS` -/
def maxEvents : ℕ := 1024

/-- What a slot can be served by. -/
inductive Callback
  | acceptConn
  | connectCb
  | keepaliveCb
  | dataTransfer
  deriving DecidableEq, Repr

/-- `myevent_s`.  A slot that was never used is all zeroes. -/
structure MyEvent where
  fd : ℤ
  events : Mask
  callBack : Option Callback
  status : ℤ
  lastActive : ℤ
  jc : Option Ptr
  deriving DecidableEq

/-- What `epoll_wait` reports for a descriptor, what the system calls on it come to, and the
time. -/
structure Event where
  readEvent : Bool
  writeEvent : Bool
  reads : List ReadResult
  writes : List WriteResult
  now : ℤ

/-- The slots before their first use. -/
def MyEvent.zero : MyEvent := ⟨0, ⟨false, false⟩, none, 0, 0, none⟩

/-- `eventset`, for the connection `jc` on the descriptor `fd` -/
def eventset (jc : Option Ptr) (fd : ℤ) (callBack : Callback) (now : ℤ) : MyEvent where
  jc := jc
  fd := fd
  callBack := some callBack
  events := ⟨false, false⟩
  status := 0
  lastActive := now

/-- `event_reset_cb` -/
def eventResetCb (callBack : Callback) (ev : MyEvent) : MyEvent :=
  { ev with callBack := some callBack }

/-- `eventadd` on slot `i`.  A slot with status 1 keeps it, any other gets it. -/
def eventadd (i : ℕ) (events : Mask) (now : ℤ) (ev : MyEvent) (K : Kernel) : MyEvent × Kernel :=
  let op := if ev.status = 1 then EpollOp.mod else EpollOp.add
  ({ ev with lastActive := now, events := events, status := 1 },
    epollCtl op ev.fd ⟨.ptr i, events⟩ K)

/-- `eventdel` on slot `i` -/
def eventdel (i : ℕ) (ev : MyEvent) (K : Kernel) : MyEvent × Kernel :=
  if ev.status ≠ 1 then (ev, K)
  else
    let ev := { ev with status := 0 }
    (ev, epollCtl .del ev.fd ⟨.ptr i, ⟨false, false⟩⟩ K)

/-- `set_stream_event_in_out` on slot `i`, whose connection has the stream `s` -/
def setStreamEventInOut (i : ℕ) (s : TcpStream) (now : ℤ) (ev : MyEvent) (K : Kernel) :
    MyEvent × Kernel :=
  if s.serverSock < 0 then (ev, K)
  else
    eventadd i ⟨0 < bufFreeSpace s.outBuf, 0 < bufDataSize s.inBuf⟩ now ev K

/-- `close_stream` on slot `i`, whose connection has the stream `s` -/
def closeStream (i : ℕ) (s : TcpStream) (ev : MyEvent) (K : Kernel) (P : Pool) :
    Except Fault (MyEvent × Kernel × Pool) := do
  let (ev, K) :=
    if 0 ≤ s.serverSock then
      let (ev, K) := eventdel i ev K
      (ev, K.close ev.fd)
    else (ev, K)
  let P ← memFreeStream s P
  return (ev, K, P)

/-- The first slot that was free and is not any more. -/
def newSlot (gEvents gEvents' : ℕ → MyEvent) : Option ℕ :=
  (List.range maxEvents).find? fun i => (gEvents i).status = 0 ∧ (gEvents' i).status = 1

theorem newSlot_self (gEvents : ℕ → MyEvent) : newSlot gEvents gEvents = none := by
  unfold newSlot
  rw [List.find?_range_eq_none]
  intro i _
  simp only [Bool.not_eq_true', decide_eq_false_iff_not]
  omega

theorem newSlot_eq_some {gEvents gEvents' : ℕ → MyEvent} {i : ℕ} (hi : i < maxEvents)
    (hzero : (gEvents i).status = 0) (hone : (gEvents' i).status = 1)
    (hothers : ∀ j ≠ i, gEvents' j = gEvents j) : newSlot gEvents gEvents' = some i := by
  unfold newSlot
  rw [List.find?_range_eq_some]
  refine ⟨?_, List.mem_range.2 hi, fun j hj => ?_⟩
  · simp [hzero, hone]
  · rw [hothers j (by omega)]
    simp only [Bool.not_eq_true', decide_eq_false_iff_not]
    omega

/-! ### Registered slots -/

/-- The epoll set has slot `i` for its descriptor. -/
structure MyEvent.Registered (i : ℕ) (ev : MyEvent) (K : Kernel) : Prop where
  status : ev.status = 1
  opened : ev.fd ∈ K.opened
  interest : K.interest ev.fd = some ⟨.ptr i, ev.events⟩

variable {i : ℕ} {ev : MyEvent} {K : Kernel} {P : Pool} {s : TcpStream} {m : Mask} {now : ℤ}

@[simp] theorem eventadd_fst :
    (eventadd i m now ev K).1 = { ev with lastActive := now, events := m, status := 1 } := rfl

@[simp] theorem eventadd_opened : (eventadd i m now ev K).2.opened = K.opened := by
  simp [eventadd]

/-- `eventadd` registers slot `i` when it was registered, or when its descriptor was not. -/
theorem eventadd_interest
    (h : ev.Registered i K ∨ ev.status ≠ 1 ∧ ev.fd ∈ K.opened ∧ K.interest ev.fd = none) :
    (eventadd i m now ev K).2.interest = Function.update K.interest ev.fd (some ⟨.ptr i, m⟩) := by
  unfold eventadd
  rcases h with h | ⟨hst, hopen, hnone⟩
  · have hacc : K.Accepts ev.fd .mod := ⟨h.opened, by simp [h.interest]⟩
    rw [if_pos h.status]
    show (epollCtl .mod ev.fd ⟨.ptr i, m⟩ K).interest = _
    rw [epollCtl_of_accepts hacc, Kernel.watch_interest]
  · have hacc : K.Accepts ev.fd .add := ⟨hopen, hnone⟩
    rw [if_neg hst]
    show (epollCtl .add ev.fd ⟨.ptr i, m⟩ K).interest = _
    rw [epollCtl_of_accepts hacc, Kernel.watch_interest]

theorem eventadd_registered
    (h : ev.Registered i K ∨ ev.status ≠ 1 ∧ ev.fd ∈ K.opened ∧ K.interest ev.fd = none) :
    (eventadd i m now ev K).1.Registered i (eventadd i m now ev K).2 := by
  refine ⟨by simp, ?_, ?_⟩
  · rw [eventadd_opened, eventadd_fst]
    exact h.elim (·.opened) (·.2.1)
  · rw [eventadd_interest h, eventadd_fst, Function.update_self]

/-- `eventdel` takes a registered slot out of the epoll set. -/
theorem eventdel_of_registered (h : ev.Registered i K) :
    eventdel i ev K = ({ ev with status := 0 }, K.watch ev.fd none h.opened) := by
  have hacc : K.Accepts ev.fd .del := ⟨h.opened, by simp [h.interest]⟩
  unfold eventdel
  rw [if_neg (not_not.2 h.status)]
  show ({ ev with status := 0 }, epollCtl .del ev.fd ⟨.ptr i, ⟨false, false⟩⟩ K) = _
  rw [epollCtl_of_accepts hacc]

/-- `eventdel` keeps the connection of the slot. -/
@[simp] theorem eventdel_jc : (eventdel i ev K).1.jc = ev.jc := by
  unfold eventdel
  split <;> rfl

/-- `eventdel` leaves a slot alone that is not registered. -/
theorem eventdel_of_status (h : ev.status ≠ 1) : eventdel i ev K = (ev, K) := if_pos h

/-- `close_stream` deregisters the slot, closes its descriptor and gives back what the stream
holds. -/
theorem closeStream_spec (h : ev.Registered i K) (hsock : 0 ≤ s.serverSock) (hP : P.Ok)
    (hown : P.Owned s.footprint) :
    ∃ P', closeStream i s ev K P = .ok ({ ev with status := 0 }, K.close ev.fd, P') ∧ P'.Ok ∧
      P'.live = fun q => if q ∈ s.footprint then none else P.live q := by
  obtain ⟨P', hrun, hP', hlive⟩ := memFreeStream_spec hP hown
  refine ⟨P', ?_, hP', hlive⟩
  simp only [closeStream, if_pos hsock, eventdel_of_registered h, hrun, ok_bind, pure_eq_ok,
    Kernel.close_watch]

/-- `close_stream` on a slot that was deregistered before. -/
theorem closeStream_of_status (h : ev.status ≠ 1) (hsock : 0 ≤ s.serverSock) (hP : P.Ok)
    (hown : P.Owned s.footprint) :
    ∃ P', closeStream i s ev K P = .ok (ev, K.close ev.fd, P') ∧ P'.Ok ∧
      P'.live = fun q => if q ∈ s.footprint then none else P.live q := by
  obtain ⟨P', hrun, hP', hlive⟩ := memFreeStream_spec hP hown
  refine ⟨P', ?_, hP', hlive⟩
  simp only [closeStream, if_pos hsock, eventdel_of_status h, hrun, ok_bind, pure_eq_ok]

end Jujube
