import Jujube.ServerDecoder
import Jujube.ServerProcess
import Jujube.Foundation.Ownership

/-!
# The slots of the server and what they own

`data_transfer` changes the registration of no descriptor but its own (`dataTransfer_beside`).  A
slot is free, has the listening socket, or serves a connection; it then owns the slot, the
descriptor, the blocks of the stream and the connection itself (`serverOwn`), and what the table
says of it depends on nothing else (`Connection.Served.of_same`).
-/

namespace Jujube

open Bytes Pool Ownership Transition

/-! ### What `data_transfer` leaves alone -/

theorem epollCtl_interest_of_ne {op : EpollOp} {fd f : ℤ} {r : Registration} {K : Kernel}
    (h : f ≠ fd) : (epollCtl op fd r K).interest f = K.interest f := by
  by_cases hacc : K.Accepts fd op
  · rw [epollCtl_of_accepts hacc, Kernel.watch_interest, Function.update_of_ne h]
  · unfold epollCtl
    rw [dif_neg hacc]

/-- The slot keeps its descriptor and its callback, and no other descriptor is touched. -/
structure Server.Beside (c c' : Server) : Prop where
  slot : c'.slot = c.slot
  fd : c'.ev.fd = c.ev.fd
  callBack : c'.ev.callBack = c.ev.callBack
  opened : ∀ f ≠ c.ev.fd, (f ∈ c'.kernel.opened ↔ f ∈ c.kernel.opened)
  interest : ∀ f ≠ c.ev.fd, c'.kernel.interest f = c.kernel.interest f

namespace Server

variable {c c' c'' : Server}

theorem Beside.refl (c : Server) : c.Beside c := ⟨rfl, rfl, rfl, fun _ _ => Iff.rfl, fun _ _ => rfl⟩

theorem Beside.trans (h : c.Beside c') (h' : c'.Beside c'') : c.Beside c'' where
  slot := h'.slot.trans h.slot
  fd := h'.fd.trans h.fd
  callBack := h'.callBack.trans h.callBack
  opened f hf := (h'.opened f (h.fd ▸ hf)).trans (h.opened f hf)
  interest f hf := (h'.interest f (h.fd ▸ hf)).trans (h.interest f hf)

theorem call_eq_ok {α : Type*} {x : Except Fault α} {a : α} : c.call x = .ok a ↔ x = .ok a := by
  cases x with
  | ok b => rw [call_ok, Except.ok.injEq, Except.ok.injEq]
  | error f => simp

end Server

section Beside

variable {c c' : Server} {i : ℕ} {ev ev' : MyEvent} {K K' : Kernel} {P P' : Pool} {s : TcpStream}
  {x : Bool × Server} {n : ℤ}

theorem eventdel_frame (i : ℕ) (ev : MyEvent) (K : Kernel) :
    (eventdel i ev K).1.fd = ev.fd ∧ (eventdel i ev K).1.callBack = ev.callBack ∧
      (eventdel i ev K).2.opened = K.opened ∧
      ∀ f ≠ ev.fd, (eventdel i ev K).2.interest f = K.interest f := by
  unfold eventdel
  split
  · exact ⟨rfl, rfl, rfl, fun _ _ => rfl⟩
  · exact ⟨rfl, rfl, epollCtl_opened (r := ⟨.ptr i, ⟨false, false⟩⟩) _,
      fun f hf => epollCtl_interest_of_ne (r := ⟨.ptr i, ⟨false, false⟩⟩) hf⟩

theorem closeStream_frame (h : closeStream i s ev K P = .ok (ev', K', P')) :
    ev'.fd = ev.fd ∧ ev'.callBack = ev.callBack ∧
      (∀ f ≠ ev.fd, (f ∈ K'.opened ↔ f ∈ K.opened)) ∧
      ∀ f ≠ ev.fd, K'.interest f = K.interest f := by
  obtain ⟨hfd, hcb, hopened, hint⟩ := eventdel_frame i ev K
  by_cases hsock : 0 ≤ s.serverSock
  · simp only [closeStream, if_pos hsock] at h
    obtain ⟨P₁, -, h⟩ := bind_eq_ok.1 h
    cases h
    refine ⟨hfd, hcb, fun f hf => ?_, fun f hf => ?_⟩
    · rw [Kernel.close_opened, Finset.mem_erase, hopened, hfd]
      exact and_iff_right hf
    · rw [Kernel.close_interest, hfd, Function.update_of_ne hf, hint f hf]
  · simp only [closeStream, if_neg hsock] at h
    obtain ⟨P₁, -, h⟩ := bind_eq_ok.1 h
    cases h
    exact ⟨rfl, rfl, fun _ _ => Iff.rfl, fun _ _ => rfl⟩

theorem Server.closeStream_beside (h : c.closeStream = .ok c') : c.Beside c' := by
  unfold Server.closeStream at h
  obtain ⟨s, -, h⟩ := bind_eq_ok.1 h
  obtain ⟨⟨ev, K, P⟩, hclose, h⟩ := bind_eq_ok.1 h
  obtain ⟨hfd, hcb, hopened, hint⟩ := closeStream_frame (Server.call_eq_ok.1 hclose)
  cases h
  exact ⟨rfl, hfd, hcb, hopened, hint⟩

theorem Server.clearOutBuf_beside (h : c.clearOutBuf = .ok c') : c.Beside c' := by
  unfold Server.clearOutBuf at h
  obtain ⟨s, -, h⟩ := bind_eq_ok.1 h
  obtain ⟨⟨b, P⟩, -, h⟩ := bind_eq_ok.1 h
  cases h
  exact ⟨rfl, rfl, rfl, fun _ _ => Iff.rfl, fun _ _ => rfl⟩

theorem rejectFrame_beside (h : rejectFrame c = .ok c') : c.Beside c' := by
  obtain ⟨c₁, h₁, h⟩ := bind_eq_ok.1 h
  exact (Server.clearOutBuf_beside h₁).trans (Server.closeStream_beside h)

theorem collectData_beside (h : collectData rejectFrame c = .ok (n, c')) : c.Beside c' := by
  unfold collectData at h
  obtain ⟨s, -, h⟩ := bind_eq_ok.1 h
  obtain ⟨w, -, h⟩ := bind_eq_ok.1 h
  obtain ⟨d, -, h⟩ := bind_eq_ok.1 h
  obtain ⟨⟨r, w', P⟩, -, h⟩ := bind_eq_ok.1 h
  obtain ⟨c₁, h₁, h⟩ := bind_eq_ok.1 h
  have hclear : c.Beside c₁ := by
    have := Server.clearOutBuf_beside h₁
    exact ⟨this.slot, this.fd, this.callBack, this.opened, this.interest⟩
  split_ifs at h
  · obtain ⟨c₂, h₂, h⟩ := bind_eq_ok.1 h
    cases h
    exact hclear.trans (rejectFrame_beside h₂)
  · cases h
    exact hclear
  · cases h
    exact hclear

theorem doWork_beside (h : doWork c = .ok c') : c.Beside c' := by
  unfold doWork at h
  obtain ⟨s, -, h⟩ := bind_eq_ok.1 h
  obtain ⟨w, -, h⟩ := bind_eq_ok.1 h
  obtain ⟨e, -, h⟩ := bind_eq_ok.1 h
  cases h
  exact ⟨rfl, rfl, rfl, fun _ _ => Iff.rfl, fun _ _ => rfl⟩

theorem collectStage_beside (h : collectStage rejectFrame c = .ok x) : c.Beside x.2 := by
  unfold collectStage at h
  obtain ⟨⟨n, c₁⟩, h₁, h⟩ := bind_eq_ok.1 h
  have hcollect := collectData_beside h₁
  dsimp only at h
  split_ifs at h
  · obtain ⟨c₂, h₂, h⟩ := bind_eq_ok.1 h
    obtain ⟨c₃, h₃, h⟩ := bind_eq_ok.1 h
    cases h
    have hclose := Server.closeStream_beside h₃
    exact (hcollect.trans (doWork_beside h₂)).trans
      ⟨hclose.slot, hclose.fd, hclose.callBack, hclose.opened, hclose.interest⟩
  · cases h
    exact hcollect

theorem headerStage_beside (h : headerStage rejectFrame c = .ok x) : c.Beside x.2 := by
  unfold headerStage at h
  obtain ⟨s, -, h⟩ := bind_eq_ok.1 h
  split_ifs at h
  · cases h
    exact .refl c
  · obtain ⟨d, -, h⟩ := bind_eq_ok.1 h
    dsimp only at h
    split_ifs at h
    · obtain ⟨c₁, h₁, h⟩ := bind_eq_ok.1 h
      obtain ⟨c₂, h₂, h⟩ := bind_eq_ok.1 h
      cases h
      exact (Server.clearOutBuf_beside h₁).trans (Server.closeStream_beside h₂)
    · obtain ⟨⟨b, P⟩, -, h⟩ := bind_eq_ok.1 h
      obtain ⟨⟨w, P'⟩, -, h⟩ := bind_eq_ok.1 h
      have hcollect := collectStage_beside h
      exact ⟨hcollect.slot, hcollect.fd, hcollect.callBack, hcollect.opened, hcollect.interest⟩
    · obtain ⟨⟨b, P⟩, -, h⟩ := bind_eq_ok.1 h
      obtain ⟨⟨w, P'⟩, -, h⟩ := bind_eq_ok.1 h
      cases h
      exact ⟨rfl, rfl, rfl, fun _ _ => Iff.rfl, fun _ _ => rfl⟩

theorem frameStage_beside (h : frameStage rejectFrame c = .ok x) : c.Beside x.2 := by
  unfold frameStage at h
  obtain ⟨s, -, h⟩ := bind_eq_ok.1 h
  obtain ⟨P, -, h⟩ := bind_eq_ok.1 h
  dsimp only at h
  split_ifs at h
  · have hcollect := collectStage_beside h
    exact ⟨hcollect.slot, hcollect.fd, hcollect.callBack, hcollect.opened, hcollect.interest⟩
  · have hheader := headerStage_beside h
    exact ⟨hheader.slot, hheader.fd, hheader.callBack, hheader.opened, hheader.interest⟩
  · cases h
    exact ⟨rfl, rfl, rfl, fun _ _ => Iff.rfl, fun _ _ => rfl⟩

theorem readStage_beside {reads : List ReadResult} (h : readStage rejectFrame reads c = .ok x) :
    c.Beside x.2 := by
  unfold readStage at h
  obtain ⟨s, -, h⟩ := bind_eq_ok.1 h
  obtain ⟨-, -, h⟩ := bind_eq_ok.1 h
  obtain ⟨⟨r, s', P⟩, -, h⟩ := bind_eq_ok.1 h
  obtain ⟨⟨done, c₁⟩, h₁, h⟩ := bind_eq_ok.1 h
  have hfed : c.Beside c₁ := by
    split_ifs at h₁
    · obtain ⟨c₂, h₂, h₁⟩ := bind_eq_ok.1 h₁
      cases h₁
      have hclose := Server.closeStream_beside h₂
      exact ⟨hclose.slot, hclose.fd, hclose.callBack, hclose.opened, hclose.interest⟩
    · have hcollect := collectStage_beside h₁
      exact ⟨hcollect.slot, hcollect.fd, hcollect.callBack, hcollect.opened, hcollect.interest⟩
    · cases h₁
      exact ⟨rfl, rfl, rfl, fun _ _ => Iff.rfl, fun _ _ => rfl⟩
  dsimp only at h
  split_ifs at h
  · cases h
    exact hfed
  · exact hfed.trans (frameStage_beside h)

theorem writeStage_beside {writes : List WriteResult} (h : writeStage writes c = .ok x) :
    c.Beside x.2 := by
  unfold writeStage at h
  obtain ⟨s, -, h⟩ := bind_eq_ok.1 h
  obtain ⟨f, -, h⟩ := bind_eq_ok.1 h
  dsimp only at h
  split_ifs at h
  · obtain ⟨c₁, h₁, h⟩ := bind_eq_ok.1 h
    cases h
    have hclose := Server.closeStream_beside h₁
    exact ⟨hclose.slot, hclose.fd, hclose.callBack, hclose.opened, hclose.interest⟩
  · cases h
    exact ⟨rfl, rfl, rfl, fun _ _ => Iff.rfl, fun _ _ => rfl⟩

theorem setStreamEventInOut_frame (i : ℕ) (s : TcpStream) (now : ℤ) (ev : MyEvent) (K : Kernel) :
    (setStreamEventInOut i s now ev K).1.fd = ev.fd ∧
      (setStreamEventInOut i s now ev K).1.callBack = ev.callBack ∧
      (setStreamEventInOut i s now ev K).2.opened = K.opened ∧
      ∀ f ≠ ev.fd, (setStreamEventInOut i s now ev K).2.interest f = K.interest f := by
  unfold setStreamEventInOut
  split_ifs
  · exact ⟨rfl, rfl, rfl, fun _ _ => rfl⟩
  · exact ⟨rfl, rfl, eventadd_opened, fun f hf => epollCtl_interest_of_ne hf⟩

theorem Server.setEventInOut_beside {now : ℤ} (h : c.setEventInOut now = .ok c') :
    c.Beside c' := by
  unfold Server.setEventInOut at h
  obtain ⟨s, -, h⟩ := bind_eq_ok.1 h
  obtain ⟨hfd, hcb, hopened, hint⟩ :=
    setStreamEventInOut_frame c.slot s now c.ev c.kernel
  cases h
  exact ⟨rfl, hfd, hcb, fun f _ => iff_of_eq (congrArg (f ∈ ·) hopened), hint⟩

/-- **`data_transfer` leaves the rest of the epoll set alone**, and the slot's descriptor and
callback. -/
theorem dataTransfer_beside {e : Event} (h : dataTransfer rejectFrame e c = .ok c') :
    c.Beside c' := by
  unfold dataTransfer at h
  obtain ⟨s, -, h⟩ := bind_eq_ok.1 h
  obtain ⟨-, -, h⟩ := bind_eq_ok.1 h
  by_cases hnone : e.readEvent = false ∧ e.writeEvent = false
  · rw [if_pos hnone] at h
    exact Server.closeStream_beside h
  rw [if_neg hnone] at h
  obtain ⟨⟨done, c₁⟩, h₁, h⟩ := bind_eq_ok.1 h
  have hwrite : c.Beside c₁ := by
    split_ifs at h₁
    · exact writeStage_beside h₁
    · cases h₁
      exact .refl c
  dsimp only at h
  by_cases hdone : done = true
  · rw [if_pos hdone] at h
    cases h
    exact hwrite
  rw [if_neg hdone] at h
  obtain ⟨⟨done', c₂⟩, h₂, h⟩ := bind_eq_ok.1 h
  have hread : c₁.Beside c₂ := by
    split_ifs at h₂
    · exact readStage_beside h₂
    · cases h₂
      exact .refl c₁
  dsimp only at h
  split_ifs at h
  · cases h
    exact hwrite.trans hread
  · exact (hwrite.trans hread).trans (Server.setEventInOut_beside h)

end Beside

/-! ### The table -/

/-- What the server is made of. -/
inductive ServerResource
  | slot (i : ℕ)
  | fd (fd : ℤ)
  | block (p : Ptr)
  | conn (k : ℕ)

/-- What was reported to the decoder of connection `k`: the end of its time is a hangup. -/
def ServerProcess.inputs (k : ℕ) (p : ServerProcess) : List Input :=
  (p.events k).map fun o => o.elim .hangup Event.input

/-- Connection `k` is closed, and `do_work` was called for what its decoder delivered. -/
def ServerProcess.Finished (k : ℕ) (p : ServerProcess) : Prop :=
  ∃ r, run Decoder.step Decoder.init (p.inputs k) = .ok (.closed r) ∧ Delivered r (p.callsOf k)

namespace ServerResource

/-- The resource is in `w` what it was in `v`. -/
def Same : ServerResource → ServerProcess → ServerProcess → Prop
  | .slot i, v, w => w.gEvents i = v.gEvents i ∧ w.streams i = v.streams i ∧
      w.number i = v.number i ∧ w.tallies i = v.tallies i
  | .fd f, v, w => (f ∈ w.kernel.opened ↔ f ∈ v.kernel.opened) ∧
      w.kernel.interest f = v.kernel.interest f
  | .block p, v, w => w.pool.live p = v.pool.live p
  | .conn k, v, w => (k < w.accepted ↔ k < v.accepted) ∧ w.events k = v.events k ∧
      w.callsOf k = v.callsOf k

/-- The resource can be owned. -/
def Live : ServerResource → ServerProcess → Prop
  | .slot _, _ => True
  | .fd f, w => f ∈ w.kernel.opened
  | .block p, w => w.pool.live p ≠ none
  | .conn k, w => k < w.accepted

/-- The resource must be given back: a descriptor that is registered, a block that is live, a
connection that was accepted and is not finished. -/
def Used : ServerResource → ServerProcess → Prop
  | .slot _, _ => False
  | .fd f, w => w.kernel.interest f ≠ none
  | .block p, w => w.pool.live p ≠ none
  | .conn k, w => k < w.accepted ∧ ¬ w.Finished k

variable {r : ServerResource} {u v w : ServerProcess}

theorem Same.refl (r : ServerResource) (w : ServerProcess) : r.Same w w := by
  cases r <;> simp [Same]

theorem Same.trans (h : r.Same u v) (h' : r.Same v w) : r.Same u w := by
  cases r with
  | slot i => exact ⟨h'.1.trans h.1, h'.2.1.trans h.2.1, h'.2.2.1.trans h.2.2.1,
      h'.2.2.2.trans h.2.2.2⟩
  | fd f => exact ⟨h'.1.trans h.1, h'.2.trans h.2⟩
  | block p => exact Eq.trans h' h
  | conn k => exact ⟨h'.1.trans h.1, h'.2.1.trans h.2.1, h'.2.2.trans h.2.2⟩

theorem Used.of_same (h : r.Same v w) (hw : r.Used w) : r.Used v := by
  cases r with
  | slot i => exact hw
  | fd f =>
    have hint : w.kernel.interest f ≠ none := hw
    rwa [h.2] at hint
  | block p =>
    have hlive : w.pool.live p ≠ none := hw
    have hsame : w.pool.live p = v.pool.live p := h
    rwa [hsame] at hlive
  | conn k =>
    refine ⟨h.1.1 hw.1, fun hfin => hw.2 ?_⟩
    unfold ServerProcess.Finished ServerProcess.inputs
    rw [h.2.1, h.2.2]
    exact hfin

end ServerResource

/-- A connection under way: its number, its stream, and what its decoder has come to. -/
structure Connection where
  number : ℕ
  stream : TcpStream
  state : Decoder

/-- What a slot can be for. -/
inductive Occupant
  | free
  | listening (fd : ℤ)
  | serving (x : Connection)

/-- What slot `i` owns. -/
def serverOwn (i : ℕ) (o : Occupant) : Set ServerResource :=
  {r | r = .slot i ∨ match o with
    | .free => False
    | .listening fd => r = .fd fd
    | .serving x => r = .fd x.stream.serverSock ∨ r = .conn x.number ∨
        ∃ p ∈ x.stream.footprint, r = .block p}

/-- Slot `i` serves the connection. -/
structure Connection.Served (x : Connection) (i : ℕ) (w : ServerProcess) : Prop where
  slot : i < maxEvents
  reg : (w.gEvents i).Registered i w.kernel
  callBack : (w.gEvents i).callBack = some .dataTransfer
  fd : (w.gEvents i).fd = x.stream.serverSock
  nonneg : 0 ≤ x.stream.serverSock
  stream : w.streams i = some x.stream
  owned : w.pool.Owned x.stream.footprint
  carries : ∃ got, x.stream.Carries w.pool [] x.state.held got ∧ x.stream.Fits got x.state
  tally : w.tallies i = x.state.tally
  number : w.number i = x.number
  accepted : x.number < w.accepted
  decoded : run Decoder.step Decoder.init (w.inputs x.number) = .ok x.state
  quiet : w.callsOf x.number = []

/-- What the table says of slot `i`. -/
def serverHolds (i : ℕ) (o : Occupant) (w : ServerProcess) : Prop :=
  match o with
  | .free => (w.gEvents i).status = 0
  | .listening fd => i = maxEvents ∧ (w.gEvents i).Registered i w.kernel ∧
      (w.gEvents i).callBack = some .acceptConn ∧ (w.gEvents i).fd = fd
  | .serving x => x.Served i w

section Own

variable {i j k : ℕ} {x : Connection} {f : ℤ} {p : Ptr} {r : ServerResource}

theorem slot_mem_serverOwn (i : ℕ) (o : Occupant) : .slot i ∈ serverOwn i o := .inl rfl

@[simp] theorem mem_serverOwn_free : r ∈ serverOwn i .free ↔ r = .slot i := by simp [serverOwn]

@[simp] theorem mem_serverOwn_listening :
    r ∈ serverOwn i (.listening f) ↔ r = .slot i ∨ r = .fd f := by
  simp [serverOwn]

@[simp] theorem slot_mem_serverOwn_serving : .slot j ∈ serverOwn i (.serving x) ↔ j = i := by
  simp [serverOwn]

@[simp] theorem fd_mem_serverOwn_serving :
    .fd f ∈ serverOwn i (.serving x) ↔ f = x.stream.serverSock := by
  simp [serverOwn]

@[simp] theorem conn_mem_serverOwn_serving :
    .conn k ∈ serverOwn i (.serving x) ↔ k = x.number := by
  simp [serverOwn]

@[simp] theorem block_mem_serverOwn_serving :
    .block p ∈ serverOwn i (.serving x) ↔ p ∈ x.stream.footprint := by
  simp [serverOwn]

end Own

/-- What is said of a connection depends on what its slot owns. -/
theorem Connection.Served.of_same {x : Connection} {i : ℕ} {v w : ServerProcess}
    (h : x.Served i v) (hsame : ∀ r ∈ serverOwn i (.serving x), r.Same v w) : x.Served i w := by
  obtain ⟨hslot, hstream, hnumber, htally⟩ := hsame (.slot i) (by simp)
  have hfd := hsame (.fd x.stream.serverSock) (by simp)
  obtain ⟨hacc, hevents, hcalls⟩ := hsame (.conn x.number) (by simp)
  have hblock : ∀ p ∈ x.stream.footprint, w.pool.live p = v.pool.live p :=
    fun p hp => hsame (.block p) (by simpa using hp)
  obtain ⟨got, hcarries, hfits⟩ := h.carries
  have hreg : (w.gEvents i).Registered i w.kernel := by
    rw [hslot]
    refine ⟨h.reg.status, ?_, ?_⟩
    · rw [h.fd]
      exact hfd.1.2 (h.fd ▸ h.reg.opened)
    · rw [h.fd, hfd.2, ← h.fd]
      exact h.reg.interest
  exact {
    slot := h.slot
    reg := hreg
    callBack := by rw [hslot]; exact h.callBack
    fd := by rw [hslot]; exact h.fd
    nonneg := h.nonneg
    stream := hstream.trans h.stream
    owned := h.owned.of_live_eq hblock
    carries := ⟨got, hcarries.of_live_eq hblock, hfits⟩
    tally := htally.trans h.tally
    number := hnumber.trans h.number
    accepted := hacc.2 h.accepted
    decoded := by unfold ServerProcess.inputs; rw [hevents]; exact h.decoded
    quiet := hcalls.trans h.quiet }

/-- The table of the server. -/
def ServerProcess.slots : Discipline ServerProcess ServerResource ℕ Occupant where
  same := ServerResource.Same
  live := ServerResource.Live
  used := ServerResource.Used
  own := serverOwn
  holds := serverHolds
  same_refl := ServerResource.Same.refl
  same_trans := ServerResource.Same.trans
  used_of_same := ServerResource.Used.of_same
  holds_of_same := by
    intro i o v w h hsame
    cases o with
    | free =>
      have hslot := (hsame (.slot i) (slot_mem_serverOwn i .free)).1
      show (w.gEvents i).status = 0
      rw [hslot]
      exact h
    | listening fd =>
      obtain ⟨hi, hreg, hcb, hfd⟩ := h
      have hslot := (hsame (.slot i) (slot_mem_serverOwn i _)).1
      obtain ⟨hopened, hint⟩ := hsame (.fd fd) (by simp)
      refine ⟨hi, ⟨?_, ?_, ?_⟩, ?_, ?_⟩
      · rw [hslot]
        exact hreg.status
      · rw [hslot, hfd]
        exact hopened.2 (hfd ▸ hreg.opened)
      · rw [hslot, hfd, hint, ← hfd]
        exact hreg.interest
      · rw [hslot]
        exact hcb
      · rw [hslot]
        exact hfd
    | serving x => exact Connection.Served.of_same h hsame
  live_of_own := by
    intro i o w r h hr
    cases o with
    | free =>
      rw [mem_serverOwn_free.1 hr]
      trivial
    | listening fd =>
      obtain ⟨-, hreg, -, hfd⟩ := h
      rcases mem_serverOwn_listening.1 hr with rfl | rfl
      · trivial
      · exact hfd ▸ hreg.opened
    | serving x =>
      have hx : x.Served i w := h
      cases r with
      | slot j => trivial
      | fd f =>
        rw [fd_mem_serverOwn_serving] at hr
        subst hr
        exact hx.fd ▸ hx.reg.opened
      | block p => exact hx.owned.live p (block_mem_serverOwn_serving.1 hr)
      | conn k =>
        rw [conn_mem_serverOwn_serving] at hr
        exact hr ▸ hx.accepted

end Jujube
