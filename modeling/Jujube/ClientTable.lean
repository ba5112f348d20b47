import Jujube.Client
import Jujube.ConnectionList
import Jujube.Foundation.Ownership

/-!
# The slots of the client and what they own

A slot with status 1 serves a transaction: a connection and a stream on one descriptor.
`Client.slots` is the discipline of the table of transactions over the slots, the descriptors, the
connection records and the blocks of the pool.  `Handled` is what an operation on one slot does to
it: the stages of the callbacks and of `expires_house_keeping` each have one lemma.
-/

namespace Jujube

open Bytes Pool Connections Ownership

/-- What the client is made of. -/
inductive Resource
  | slot (i : ℕ)
  | fd (fd : ℤ)
  | conn (jc : Ptr)
  | block (p : Ptr)

namespace Resource

/-- The resource is in `w` what it was in `v`. -/
def Same : Resource → Client → Client → Prop
  | .slot i, v, w => w.gEvents i = v.gEvents i
  | .fd f, v, w => (f ∈ w.kernel.opened ↔ f ∈ v.kernel.opened) ∧
      w.kernel.interest f = v.kernel.interest f
  | .conn jc, v, w => (jc ∈ w.conns.allocated ↔ jc ∈ v.conns.allocated) ∧
      w.conns.jconnects jc = v.conns.jconnects jc
  | .block p, v, w => w.pool.live p = v.pool.live p ∧ w.streams p = v.streams p

/-- The resource can be owned. -/
def Live : Resource → Client → Prop
  | .slot _, _ => True
  | .fd f, w => f ∈ w.kernel.opened
  | .conn jc, w => jc ∈ w.conns.allocated
  | .block p, w => w.pool.live p ≠ none

/-- The resource must be given back: a descriptor that is registered for a slot, a record that was
allocated, a block that is live. -/
def Used : Resource → Client → Prop
  | .slot _, _ => False
  | .fd f, w => ∃ i m, w.kernel.interest f = some ⟨.ptr i, m⟩
  | .conn jc, w => jc ∈ w.conns.allocated
  | .block p, w => w.pool.live p ≠ none

variable {r : Resource} {u v w : Client}

theorem Same.refl (r : Resource) (w : Client) : r.Same w w := by
  cases r <;> simp [Same]

theorem Same.trans (h : r.Same u v) (h' : r.Same v w) : r.Same u w := by
  cases r with
  | slot i => exact Eq.trans h' h
  | fd f => exact ⟨h'.1.trans h.1, h'.2.trans h.2⟩
  | conn jc => exact ⟨h'.1.trans h.1, h'.2.trans h.2⟩
  | block p => exact ⟨h'.1.trans h.1, h'.2.trans h.2⟩

theorem Used.of_same (h : r.Same v w) (hw : r.Used w) : r.Used v := by
  cases r with
  | slot i => exact hw
  | fd f =>
    obtain ⟨i, m, him⟩ := hw
    exact ⟨i, m, h.2 ▸ him⟩
  | conn jc => exact h.1.1 hw
  | block p =>
    have hlive : w.pool.live p ≠ none := hw
    rwa [h.1] at hlive

end Resource

/-- A transaction under way. -/
structure Transaction where
  jc : Ptr
  stream : TcpStream

namespace Transaction

/-- The descriptor, the record and the blocks of a transaction. -/
def Owns (x : Transaction) : Resource → Prop
  | .slot _ => False
  | .fd f => f = x.stream.serverSock
  | .conn jc => jc = x.jc
  | .block p => p ∈ x.stream.footprint

/-- Slot `i` has the transaction: the slot, the connection, the stream and the epoll set agree. -/
structure Attached (x : Transaction) (i : ℕ) (w : Client) : Prop where
  slot : i < maxEvents
  reg : (w.gEvents i).Registered i w.kernel
  fd : (w.gEvents i).fd = x.stream.serverSock
  nonneg : 0 ≤ x.stream.serverSock
  jc : (w.gEvents i).jc = some x.jc
  allocated : x.jc ∈ w.conns.allocated
  connFd : (w.conns.jconnects x.jc).fd = x.stream.serverSock
  connStream : (w.conns.jconnects x.jc).stream = some x.stream.self
  stream : w.streams x.stream.self = some x.stream
  owned : w.pool.Owned x.stream.footprint

/-- Slot `i` serves the transaction: there is something left to write. -/
structure Serves (x : Transaction) (i : ℕ) (w : Client) : Prop extends x.Attached i w where
  callBack : (w.gEvents i).callBack = some .connectCb ∨ (w.gEvents i).callBack = some .dataTransfer
  epollout : (w.gEvents i).events.epollout = true
  carries : ∃ q ≠ [], x.stream.Carries w.pool q [] []

end Transaction

/-- What slot `i` owns. -/
def slotOwn (i : ℕ) (o : Option Transaction) : Set Resource :=
  {r | r = .slot i ∨ ∃ x ∈ o, x.Owns r}

/-- What the table says of slot `i`. -/
def slotHolds (i : ℕ) (o : Option Transaction) (w : Client) : Prop :=
  match o with
  | none => (w.gEvents i).status = 0
  | some x => x.Serves i w

section Own

variable {i j : ℕ} {x y : Transaction} {f : ℤ} {p : Ptr} {r : Resource}

theorem slot_mem_slotOwn (i : ℕ) (o : Option Transaction) : .slot i ∈ slotOwn i o := .inl rfl

@[simp] theorem mem_slotOwn_none : r ∈ slotOwn i none ↔ r = .slot i := by simp [slotOwn]

@[simp] theorem slot_mem_slotOwn_some : .slot j ∈ slotOwn i (some x) ↔ j = i := by
  simp [slotOwn, Transaction.Owns]

@[simp] theorem fd_mem_slotOwn_some : .fd f ∈ slotOwn i (some x) ↔ f = x.stream.serverSock := by
  simp [slotOwn, Transaction.Owns]

@[simp] theorem conn_mem_slotOwn_some : .conn p ∈ slotOwn i (some x) ↔ p = x.jc := by
  simp [slotOwn, Transaction.Owns]

@[simp] theorem block_mem_slotOwn_some :
    .block p ∈ slotOwn i (some x) ↔ p ∈ x.stream.footprint := by
  simp [slotOwn, Transaction.Owns]

theorem slotOwn_none_subset (o : Option Transaction) : slotOwn i none ⊆ slotOwn i o := by
  intro r hr
  rw [mem_slotOwn_none.1 hr]
  exact slot_mem_slotOwn i o

/-- A stream keeps its blocks and its descriptor. -/
theorem slotOwn_congr (hjc : x.jc = y.jc) (hsock : x.stream.serverSock = y.stream.serverSock)
    (hfoot : x.stream.footprint = y.stream.footprint) :
    slotOwn i (some x) = slotOwn i (some y) := by
  ext r
  cases r <;> simp [hjc, hsock, hfoot]

theorem TcpStream.self_mem_footprint (s : TcpStream) : s.self ∈ s.footprint := by
  simp [TcpStream.footprint]

end Own

namespace Transaction

variable {x : Transaction} {i : ℕ} {v w : Client} {r : Resource}

/-- What is said of a transaction depends on what its slot owns. -/
theorem Serves.of_same (h : x.Serves i v) (hsame : ∀ r ∈ slotOwn i (some x), r.Same v w) :
    x.Serves i w := by
  have hslot : w.gEvents i = v.gEvents i := hsame (.slot i) (by simp)
  have hfd := hsame (.fd x.stream.serverSock) (by simp)
  have hconn := hsame (.conn x.jc) (by simp)
  have hblock : ∀ p ∈ x.stream.footprint, w.pool.live p = v.pool.live p ∧
      w.streams p = v.streams p := fun p hp => hsame (.block p) (by simpa using hp)
  obtain ⟨q, hq, hcarries⟩ := h.carries
  have hreg : (w.gEvents i).Registered i w.kernel := by
    rw [hslot]
    refine ⟨h.reg.status, ?_, ?_⟩
    · rw [h.fd]
      exact hfd.1.2 (h.fd ▸ h.reg.opened)
    · rw [h.fd, hfd.2, ← h.fd]
      exact h.reg.interest
  refine ⟨⟨h.slot, hreg, ?_, h.nonneg, ?_, hconn.1.2 h.allocated, ?_, ?_, ?_, ?_⟩, ?_, ?_, q, hq,
    ?_⟩
  · rw [hslot]
    exact h.fd
  · rw [hslot]
    exact h.jc
  · rw [hconn.2]
    exact h.connFd
  · rw [hconn.2]
    exact h.connStream
  · rw [(hblock _ x.stream.self_mem_footprint).2]
    exact h.stream
  · exact h.owned.of_live_eq fun p hp => (hblock p hp).1
  · rw [hslot]
    exact h.callBack
  · rw [hslot]
    exact h.epollout
  · exact hcarries.of_live_eq fun p hp => (hblock p hp).1

theorem Attached.live (h : x.Attached i w) (hr : r ∈ slotOwn i (some x)) : r.Live w := by
  cases r with
  | slot j => trivial
  | fd f =>
    rw [fd_mem_slotOwn_some] at hr
    subst hr
    exact h.fd ▸ h.reg.opened
  | conn jc =>
    rw [conn_mem_slotOwn_some] at hr
    exact hr ▸ h.allocated
  | block p => exact h.owned.live p (block_mem_slotOwn_some.1 hr)

end Transaction

/-- A connection is marked alive when it is established, not before. -/
def Jconnect.Established (c : Jconnect) : Prop := c.isAlive = true → c.status = .connEstab

/-- The table of transactions. -/
def Client.slots : Discipline Client Resource ℕ (Option Transaction) where
  same := Resource.Same
  live := Resource.Live
  used := Resource.Used
  own := slotOwn
  holds := slotHolds
  same_refl := Resource.Same.refl
  same_trans := Resource.Same.trans
  used_of_same := Resource.Used.of_same
  holds_of_same := by
    intro i o v w h hsame
    cases o with
    | none =>
      have hslot : w.gEvents i = v.gEvents i := hsame (.slot i) (slot_mem_slotOwn i none)
      show (w.gEvents i).status = 0
      rw [hslot]
      exact h
    | some x => exact Transaction.Serves.of_same h hsame
  live_of_own := by
    intro i o w r h hr
    cases o with
    | none =>
      rw [mem_slotOwn_none.1 hr]
      trivial
    | some x => exact h.toAttached.live hr

namespace Client

/-- What the operations rely on besides the table: the pool is sound, and no connection is idle. -/
structure Sound (w : Client) : Prop where
  pool : w.pool.Ok
  conns : w.conns.Lists []
  checkpos : w.checkpos ≤ maxEvents

/-- An operation on slot `i` left it with `o`; it changed `R` and nothing else, and of `K` the slot
owns what is in use. -/
structure Served (K R : Set Resource) (i : ℕ) (o : Option Transaction) (v w : Client) : Prop where
  sound : w.Sound
  frame : slots.Frame R v w
  own : slotOwn i o ⊆ R
  holds : slotHolds i o w
  used : ∀ r ∈ R, r ∈ K → r.Used w → r ∈ slotOwn i o

/-- Nothing but `R` has changed, nor has the list of idle connections. -/
structure Within (R : Set Resource) (v w : Client) : Prop where
  frame : slots.Frame R v w
  links : w.conns.links = v.conns.links
  checkpos : w.checkpos = v.checkpos
  tickleFd : w.tickleFd = v.tickleFd
  established : ∀ jc, (v.conns.jconnects jc).Established → (w.conns.jconnects jc).Established

/-- An operation on slot `i`, which had the transaction `x`, left it with `o`; it changed what the
slot owned and nothing else, and of `K` the slot owns what is in use. -/
structure Handled (K : Set Resource) (x : Transaction) (i : ℕ) (o : Option Transaction)
    (v w : Client) : Prop extends Within (slotOwn i (some x)) v w where
  pool : w.pool.Ok
  own : slotOwn i o ⊆ slotOwn i (some x)
  holds : slotHolds i o w
  used : ∀ r ∈ slotOwn i (some x), r ∈ K → r.Used w → r ∈ slotOwn i o

variable {K K' R : Set Resource} {x : Transaction} {o : Option Transaction} {i : ℕ} {u v w : Client}
  {now : ℤ} {P : Pool} {s : TcpStream} {ev : MyEvent}

theorem Within.refl (R : Set Resource) (w : Client) : Within R w w :=
  ⟨.refl R w, rfl, rfl, rfl, fun _ h => h⟩

theorem Within.trans (h : Within R u v) (h' : Within R v w) : Within R u w :=
  ⟨h.frame.trans h'.frame, h'.links.trans h.links, h'.checkpos.trans h.checkpos,
    h'.tickleFd.trans h.tickleFd, fun jc hjc => h'.established jc (h.established jc hjc)⟩

/-- Something that the slot owns was changed before. -/
theorem Handled.after {y : Transaction} (hy : slotOwn i (some y) = slotOwn i (some x))
    (hf : Within (slotOwn i (some x)) u v) (h : Handled K y i o v w) : Handled K x i o u w := by
  have hw := h.toWithin
  have hown := h.own
  have hused := h.used
  rw [hy] at hw hown hused
  exact ⟨hf.trans hw, h.pool, hown, h.holds, hused⟩

/-- Fewer resources are asked for. -/
theorem Handled.mono (h : Handled K x i o v w) (hK : K' ⊆ K) : Handled K' x i o v w :=
  ⟨h.toWithin, h.pool, h.own, h.holds, fun r hr hrK => h.used r hr (hK hrK)⟩

/-- A slot that is left without a transaction has released its stream. -/
theorem Handled.released (h : Handled Set.univ x i none v w) :
    w.pool.live x.stream.self = none := by
  by_contra hlive
  have hmem : .block x.stream.self ∈ slotOwn i (some x) := by simp [x.stream.self_mem_footprint]
  cases mem_slotOwn_none.1 (h.used _ hmem trivial hlive)

/-- And its connection. -/
theorem Handled.freed (h : Handled Set.univ x i none v w) : x.jc ∉ w.conns.allocated := by
  intro hused
  have hmem : .conn x.jc ∈ slotOwn i (some x) := by simp
  cases mem_slotOwn_none.1 (h.used _ hmem trivial hused)

/-- With no idle connection, a client that handled something is as sound as it was. -/
theorem Handled.served (h : Handled K x i o v w) (hv : v.Sound) :
    Served K (slotOwn i (some x)) i o v w :=
  ⟨⟨h.pool, ⟨h.links ▸ hv.conns.ring, by simp⟩, h.checkpos ▸ hv.checkpos⟩, h.frame, h.own, h.holds,
    h.used⟩

/-- The parts of the state that the transaction of slot `i` does not own are as they were. -/
theorem frame_of (hslot : ∀ j ≠ i, w.gEvents j = v.gEvents j)
    (hfd : ∀ f ≠ x.stream.serverSock, (f ∈ w.kernel.opened ↔ f ∈ v.kernel.opened) ∧
      w.kernel.interest f = v.kernel.interest f)
    (hconn : ∀ jc ≠ x.jc, (jc ∈ w.conns.allocated ↔ jc ∈ v.conns.allocated) ∧
      w.conns.jconnects jc = v.conns.jconnects jc)
    (hblock : ∀ p ∉ x.stream.footprint, w.pool.live p = v.pool.live p ∧
      w.streams p = v.streams p) :
    slots.Frame (slotOwn i (some x)) v w := by
  intro r hr
  cases r with
  | slot j => exact hslot j (by simpa using hr)
  | fd f => exact hfd f (by simpa using hr)
  | conn jc => exact hconn jc (by simpa using hr)
  | block p => exact hblock p (by simpa using hr)

/-- A table that an operation on one slot has changed. -/
structure Inv (K : Set Resource) (T : ℕ → Option Transaction) (w : Client) : Prop where
  sound : w.Sound
  table : slots.Inv K T w

/-- **An operation on one slot keeps the table**, if what it changed was owned by the slot or by
nobody. -/
theorem Inv.served {T : ℕ → Option Transaction} (h : Inv K T v) (hs : Served K R i o v w)
    (hold : slotOwn i (T i) ⊆ R) (hR : ∀ r ∈ R, r ∈ slotOwn i (T i) ∨ ¬ r.Live v) :
    Inv K (Function.update T i o) w :=
  ⟨hs.sound, h.table.update hs.frame hold hR hs.own hs.holds hs.used⟩

end Client

end Jujube
