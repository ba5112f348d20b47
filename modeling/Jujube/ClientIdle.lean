import Jujube.ClientRun

/-!
# Connections that are kept alive

`release_stream_from_connect` with `OK_CONNECT` keeps a connection: it goes to the end of
`g_jconnect`, and its slot watches the descriptor with `keepalive_cb`.  The next transaction takes
it from there, and finds the slot by the descriptor.

A slot has an `Entry` then, one more kind than a `Transaction` or nothing, and `Client.entries` is
the discipline of the table of entries.  `Client.Pooled` is what the table, the list and the slots
that `eventset` was called on are to each other; `Turned` is what an operation does to one entry.
-/

namespace Jujube

open Bytes Pool Connections Ownership Transition

/-- What a slot is there for: nothing, a transaction, or an idle connection on the descriptor `fd`,
which is in the epoll set or not. -/
inductive Entry
  | vacant
  | serving (x : Transaction)
  | idle (jc : Ptr) (fd : ℤ) (watched : Bool)

/-- Slot `i` has an idle connection.  It waits for the server to close it, unless the slot was
deregistered. -/
structure Waits (jc : Ptr) (fd : ℤ) (watched : Bool) (i : ℕ) (w : Client) : Prop where
  slot : i < maxEvents
  slotJc : (w.gEvents i).jc = some jc
  slotFd : (w.gEvents i).fd = fd
  nonneg : 0 ≤ fd
  opened : fd ∈ w.kernel.opened
  allocated : jc ∈ w.conns.allocated
  connFd : (w.conns.jconnects jc).fd = fd
  connStream : (w.conns.jconnects jc).stream = none
  alive : (w.conns.jconnects jc).isAlive = true
  status : (w.conns.jconnects jc).status = .connEstab
  reg : watched = true → (w.gEvents i).Registered i w.kernel ∧
    (w.gEvents i).callBack = some .keepaliveCb ∧ (w.gEvents i).events = ⟨true, false⟩
  parked : watched = false → (w.gEvents i).status = 0 ∧ w.kernel.interest fd = none

namespace Entry

/-- The entry of a slot that serves a transaction, or none. -/
def of : Option Transaction → Entry
  | none => .vacant
  | some x => .serving x

/-- The connection of a slot. -/
def jc : Entry → Option Ptr
  | .vacant => none
  | .serving x => some x.jc
  | .idle jc _ _ => some jc

/-- The idle connection of a slot. -/
def idleJc : Entry → Option Ptr
  | .vacant | .serving _ => none
  | .idle jc _ _ => some jc

/-- What slot `i` owns. -/
def own (i : ℕ) : Entry → Set Resource
  | .vacant => slotOwn i none
  | .serving x => slotOwn i (some x)
  | .idle jc fd _ => {.slot i, .fd fd, .conn jc}

/-- What the table says of slot `i`. -/
def holds (i : ℕ) : Entry → Client → Prop
  | .vacant, w => (w.gEvents i).status = 0
  | .serving x, w => x.Serves i w
  | .idle jc fd watched, w => Waits jc fd watched i w

end Entry

section Entries

variable {jc : Ptr} {fd : ℤ} {b : Bool} {i j : ℕ} {e : Entry} {o : Option Transaction}
  {v w : Client} {r : Resource}

theorem Entry.own_of : (Entry.of o).own i = slotOwn i o := by
  cases o <;> rfl

theorem Entry.conn_mem_own (h : e.jc = some jc) : .conn jc ∈ e.own i := by
  cases e with
  | vacant => cases h
  | serving x =>
    cases h
    simp [own]
  | idle =>
    cases h
    simp [own]

theorem Entry.jc_of_idleJc (h : e.idleJc = some jc) : e.jc = some jc := by
  cases e with
  | vacant => cases h
  | serving x => cases h
  | idle => exact h

theorem Entry.of_idleJc (h : e.idleJc = some jc) : ∃ fd b, e = .idle jc fd b := by
  cases e with
  | vacant => cases h
  | serving x => cases h
  | idle p fd b =>
    cases h
    exact ⟨fd, b, rfl⟩

theorem Waits.of_same (h : Waits jc fd b i v)
    (hsame : ∀ r ∈ (Entry.idle jc fd b).own i, r.Same v w) : Waits jc fd b i w := by
  have hslot : w.gEvents i = v.gEvents i := hsame (.slot i) (by simp [Entry.own])
  have hfd : (fd ∈ w.kernel.opened ↔ fd ∈ v.kernel.opened) ∧
      w.kernel.interest fd = v.kernel.interest fd := hsame (.fd fd) (by simp [Entry.own])
  have hconn : (jc ∈ w.conns.allocated ↔ jc ∈ v.conns.allocated) ∧
      w.conns.jconnects jc = v.conns.jconnects jc := hsame (.conn jc) (by simp [Entry.own])
  have hopened : fd ∈ w.kernel.opened := hfd.1.2 h.opened
  refine ⟨h.slot, hslot ▸ h.slotJc, hslot ▸ h.slotFd, h.nonneg, hopened, hconn.1.2 h.allocated,
    hconn.2 ▸ h.connFd, hconn.2 ▸ h.connStream, hconn.2 ▸ h.alive, hconn.2 ▸ h.status,
    fun hb => ?_, fun hb => ?_⟩
  · obtain ⟨hreg, hcb, hmask⟩ := h.reg hb
    rw [hslot]
    refine ⟨⟨hreg.status, h.slotFd.symm ▸ hopened, ?_⟩, hcb, hmask⟩
    rw [h.slotFd, hfd.2, ← h.slotFd]
    exact hreg.interest
  · rw [hslot, hfd.2]
    exact h.parked hb

theorem Waits.live (h : Waits jc fd b i w) (hr : r ∈ (Entry.idle jc fd b).own i) : r.Live w := by
  rcases hr with rfl | rfl | rfl
  · trivial
  · exact h.opened
  · exact h.allocated

/-- The table of entries. -/
def Client.entries : Discipline Client Resource ℕ Entry where
  same := Resource.Same
  live := Resource.Live
  used := Resource.Used
  own := Entry.own
  holds := Entry.holds
  same_refl := Resource.Same.refl
  same_trans := Resource.Same.trans
  used_of_same := Resource.Used.of_same
  holds_of_same := by
    intro i e v w h hsame
    cases e with
    | vacant =>
      have hslot : w.gEvents i = v.gEvents i := hsame (.slot i) (slot_mem_slotOwn i none)
      show (w.gEvents i).status = 0
      rw [hslot]
      exact h
    | serving x => exact Transaction.Serves.of_same h hsame
    | idle jc fd b => exact Waits.of_same h hsame
  live_of_own := by
    intro i e w r h hr
    cases e with
    | vacant =>
      rw [mem_slotOwn_none.1 hr]
      trivial
    | serving x => exact h.toAttached.live hr
    | idle jc fd b => exact Waits.live h hr

end Entries

namespace Client

/-- The client stands for the table `T`: the idle connections of the table are those of the list
`L`, and `home` knows the slot of every connection. -/
structure Pooled (L : List Ptr) (T : ℕ → Entry) (home : Ptr → Option ℕ) (w : Client) : Prop where
  pool : w.pool.Ok
  checkpos : w.checkpos ≤ maxEvents
  established : ∀ jc, (w.conns.jconnects jc).Established
  ring : w.conns.links.Ring .gJconnect (L.map .jconnect)
  table : entries.Inv notRecords T w
  listed : ∀ jc, jc ∈ L ↔ ∃ i, (T i).idleJc = some jc
  home : ∀ i jc, (T i).jc = some jc → home jc = some i

/-- An operation on slot `i` turned its entry from `e` to `e'`, and `L` is the list then.  It
changed `R` and nothing else: what the slot owned, and what nobody did. -/
structure Turned (R : Set Resource) (e e' : Entry) (L : List Ptr) (i : ℕ) (v w : Client) :
    Prop where
  frame : entries.Frame R v w
  pool : w.pool.Ok
  checkpos : w.checkpos = v.checkpos
  tickleFd : w.tickleFd = v.tickleFd
  established : ∀ jc, (v.conns.jconnects jc).Established → (w.conns.jconnects jc).Established
  ring : w.conns.links.Ring .gJconnect (L.map .jconnect)
  old : e.own i ⊆ R
  mine : ∀ r ∈ R, r ∈ e.own i ∨ ¬ r.Live v
  own : e'.own i ⊆ R
  holds : e'.holds i w
  used : ∀ r ∈ R, r ∈ notRecords → r.Used w → r ∈ e'.own i

variable {L L' : List Ptr} {T : ℕ → Entry} {home home' : Ptr → Option ℕ} {v w w' : Client}
  {e e' : Entry} {R K : Set Resource} {i j k : ℕ} {jc : Ptr} {fd now exceptFd : ℤ} {b : Bool}
  {x : Transaction} {o : Option Transaction}

namespace Pooled

theorem holds (h : Pooled L T home w) (hT : T i = e) : e.holds i w := hT ▸ h.table.holds i

/-- Nobody else has the connection. -/
theorem unique (h : Pooled L T home w) (hi : (T i).jc = some jc) (hj : (T j).jc = some jc) :
    i = j :=
  h.table.owner_unique (r := .conn jc) (Entry.conn_mem_own hi) (Entry.conn_mem_own hj)

/-- **One entry is turned.**  Another connection that comes in, or goes out, is another one in the
list. -/
theorem turned (h : Pooled L T home v) (hT : T i = e) (ht : Turned R e e' L' i v w)
    (hL : ∀ jc, jc ∈ L' ↔ jc ∈ L ∧ e.idleJc ≠ some jc ∨ e'.idleJc = some jc)
    (hnew : ∀ jc, e'.jc = some jc → home' jc = some i)
    (hhome : ∀ j ≠ i, ∀ jc, (T j).jc = some jc → home' jc = home jc) :
    Pooled L' (Function.update T i e') home' w := by
  refine ⟨ht.pool, ht.checkpos ▸ h.checkpos, fun jc => ht.established jc (h.established jc),
    ht.ring, h.table.update ht.frame (hT ▸ ht.old) (hT ▸ ht.mine) ht.own ht.holds ht.used,
    fun jc => ?_,
    fun j jc hj => ?_⟩
  · rw [hL, h.listed]
    constructor
    · rintro (⟨⟨j, hj⟩, hne⟩ | he')
      · have hji : j ≠ i := by
          rintro rfl
          exact hne (hT ▸ hj)
        exact ⟨j, by rwa [Function.update_of_ne hji]⟩
      · exact ⟨i, by rwa [Function.update_self]⟩
    · rintro ⟨j, hj⟩
      by_cases hji : j = i
      · rw [hji, Function.update_self] at hj
        exact .inr hj
      · rw [Function.update_of_ne hji] at hj
        refine .inl ⟨⟨j, hj⟩, fun he => hji ?_⟩
        exact h.unique (Entry.jc_of_idleJc hj) (Entry.jc_of_idleJc (hT ▸ he))
  · by_cases hji : j = i
    · rw [hji, Function.update_self] at hj
      exact hji ▸ hnew jc hj
    · rw [Function.update_of_ne hji] at hj
      rw [hhome j hji jc hj]
      exact h.home j jc hj

end Pooled

/-- The records of the list are those of the idle entries, so they are allocated. -/
theorem Pooled.lists (h : Pooled L T home w) : w.conns.Lists L := by
  refine ⟨h.ring, fun jc hjc => ?_⟩
  obtain ⟨i, hi⟩ := (h.listed jc).1 hjc
  obtain ⟨fd, b, hT⟩ := Entry.of_idleJc hi
  exact (h.holds hT).allocated

/-! ### Slots with a transaction -/

/-- What a callback, or the timeout, does to the entry of a transaction. -/
theorem Handled.turned (h : Handled K x i o v w) (hK : notRecords ⊆ K)
    (hring : v.conns.links.Ring .gJconnect (L.map .jconnect)) :
    Turned (slotOwn i (some x)) (.serving x) (.of o) L i v w := by
  have hown := @Entry.own_of i o
  refine ⟨h.frame, h.pool, h.checkpos, h.tickleFd, h.established, h.links ▸ hring, subset_rfl,
    fun r hr => .inl hr, hown ▸ h.own, ?_, fun r hr hrK hused => hown ▸ h.used r hr (hK hrK) hused⟩
  cases o with
  | none => exact h.holds
  | some y => exact h.holds

/-- What becomes of a live connection that is released: the blocks of its stream are free, its slot
waits for the peer, and it is the last of the idle ones. -/
structure Kept (x : Transaction) (i : ℕ) (L : List Ptr) (now : ℤ) (w w' : Client) : Prop where
  pool : w'.pool.Ok
  live : w'.pool.live = fun q => if q ∈ x.stream.footprint then none else w.pool.live q
  streams : w'.streams = Function.update w.streams x.stream.self none
  slot : w'.gEvents i = { w.gEvents i with
    callBack := some .keepaliveCb, lastActive := now, events := ⟨true, false⟩, status := 1 }
  others : ∀ j ≠ i, w'.gEvents j = w.gEvents j
  reg : (w'.gEvents i).Registered i w'.kernel
  opened : w'.kernel.opened = w.kernel.opened
  interest : ∀ f ≠ x.stream.serverSock, w'.kernel.interest f = w.kernel.interest f
  conn : ∃ n, w'.conns.jconnects x.jc =
    { w.conns.jconnects x.jc with stream := none, requests := n }
  conns : ∀ jc ≠ x.jc, w'.conns.jconnects jc = w.conns.jconnects jc
  allocated : w'.conns.allocated = w.conns.allocated
  ring : w'.conns.links.Ring .gJconnect ((L ++ [x.jc]).map .jconnect)
  checkpos : w'.checkpos = w.checkpos
  tickleFd : w'.tickleFd = w.tickleFd

/-- `release_stream_from_connect` keeps a connection that is alive. -/
theorem release_kept (h : x.Attached i w) (hP : w.pool.Ok) (hL : w.conns.Lists L)
    (hnot : x.jc ∉ L) (halive : (w.conns.jconnects x.jc).isAlive = true) (now : ℤ) :
    ∃ w', w.releaseStreamFromConnect i okConnect now = .ok w' ∧ Kept x i L now w w' := by
  obtain ⟨P', hfree, hP', hlive⟩ := memFreeStream_spec hP h.owned
  have hfree' : freeTransactionStream x.stream w.pool = .ok P' :=
    (freeTransactionStream_eq _ _).trans hfree
  let c : Jconnect := { w.conns.jconnects x.jc with stream := none }
  let C : Connections := { w.conns with jconnects := Function.update w.conns.jconnects x.jc c }
  have hset : w.conns.set x.jc c = .ok C := set_of_mem h.allocated c
  have hlists : C.Lists L := ⟨hL.ring, hL.allocated⟩
  have hc : C.jconnects x.jc = c := Function.update_self _ _ _
  have hreset : (Jujube.eventResetCb .keepaliveCb (w.gEvents i)).Registered i w.kernel :=
    ⟨h.reg.status, h.reg.opened, h.reg.interest⟩
  let v : Client := { w with
    pool := P'
    streams := Function.update w.streams x.stream.self none
    conns := C }
  obtain ⟨ev, K, hadd, hev, hreg, hopened, hinterest⟩ := setEvent_eventadd (w := v) (.inl hreset)
    ⟨true, false⟩ now
  obtain ⟨n, links, hrel, hring⟩ := releaseConnection_alive (K := K)
    (show v.conns.Lists L from hlists) (show x.jc ∈ C.allocated from h.allocated) hnot
    (hc ▸ halive)
  rw [show v.conns.jconnects x.jc = c from hc] at hrel
  let w' : Client := { v with
    kernel := K
    conns := { C with
      jconnects := Function.update C.jconnects x.jc { c with requests := n }
      links := links
      connectPool := C.connectPool.inc }
    gEvents := Function.update w.gEvents i ev }
  have hslot : w'.gEvents i = ev := Function.update_self _ _ _
  refine ⟨w', ?_, ?_⟩
  · simp only [releaseStreamFromConnect, h.conn, ok_bind, h.connStream, h.stream, fetch_some,
      hfree', pure_eq_ok, okConnect, Bool.false_eq_true, if_false, Client.setConn]
    rw [show ({ w.conns.jconnects x.jc with stream := none } : Jconnect) = c from rfl, hset]
    simp only [ok_bind]
    rw [show Client.eventResetCb i .keepaliveCb v =
      v.setEvent i (Jujube.eventResetCb .keepaliveCb (w.gEvents i)) from rfl, hadd]
    simp only [hrel, ok_bind]
    rfl
  · exact {
      pool := hP'
      live := hlive
      streams := rfl
      slot := hslot.trans hev
      others := fun j hj => Function.update_of_ne hj _ _
      reg := hslot.symm ▸ hreg
      opened := hopened
      interest := fun f hf => hinterest f fun hf' => hf (hf'.trans h.fd)
      conn := ⟨n, Function.update_self _ _ _⟩
      conns := fun jc hjc => (Function.update_of_ne hjc _ _).trans (Function.update_of_ne hjc _ _)
      allocated := rfl
      ring := hring
      checkpos := rfl
      tickleFd := rfl }

/-- **`release_stream_from_connect` of a good connection**: the connection goes to the end of the
list, and its slot watches it. -/
theorem release_ok (h : x.Attached i w) (hP : w.pool.Ok) (hL : w.conns.Lists L) (hnot : x.jc ∉ L)
    (halive : (w.conns.jconnects x.jc).isAlive = true)
    (hest : (w.conns.jconnects x.jc).Established) (now : ℤ) :
    ∃ w', w.releaseStreamFromConnect i okConnect now = .ok w' ∧
      Turned (slotOwn i (some x)) (.serving x) (.idle x.jc x.stream.serverSock true) (L ++ [x.jc]) i
        w w' ∧ (w'.gEvents i).lastActive = now := by
  obtain ⟨w', hrun, hk⟩ := release_kept h hP hL hnot halive now
  obtain ⟨n, hrec⟩ := hk.conn
  have hfd : (w'.gEvents i).fd = x.stream.serverSock := by
    rw [hk.slot]
    exact h.fd
  refine ⟨w', hrun, ⟨frame_of hk.others (fun f hf => ⟨by rw [hk.opened], hk.interest f hf⟩)
    (fun jc hjc => ⟨by rw [hk.allocated], hk.conns jc hjc⟩) (fun p hp => ⟨?_, ?_⟩), hk.pool,
    hk.checkpos, hk.tickleFd, fun jc hjc => ?_, hk.ring, subset_rfl, fun r hr => .inl hr, ?_,
    ⟨h.slot, ?_, hfd, h.nonneg, ?_, ?_, ?_, ?_, ?_, ?_, fun _ => ⟨hk.reg, ?_, ?_⟩,
      fun hb => by cases hb⟩, fun r hr hrK hused => ?_⟩, by rw [hk.slot]⟩
  · rw [hk.live]
    exact if_neg hp
  · rw [hk.streams]
    apply Function.update_of_ne
    rintro rfl
    exact hp x.stream.self_mem_footprint
  · by_cases hjx : jc = x.jc
    · rw [hjx, hrec]
      exact hest
    · rwa [hk.conns jc hjx]
  · rintro r (rfl | rfl | rfl) <;> simp
  · rw [hk.slot]
    exact h.jc
  · exact hfd ▸ hk.reg.opened
  · rw [hk.allocated]
    exact h.allocated
  · rw [hrec]
    exact h.connFd
  · rw [hrec]
  · rw [hrec]
    exact halive
  · rw [hrec]
    exact hest halive
  · rw [hk.slot]
  · rw [hk.slot]
  · cases r with
    | slot j => exact absurd hused id
    | fd f => simp [Entry.own, fd_mem_slotOwn_some.1 hr]
    | conn jc => exact absurd hrK (conn_notMem_notRecords jc)
    | block p =>
      refine absurd ?_ hused
      show w'.pool.live p = none
      rw [hk.live]
      exact if_pos (block_mem_slotOwn_some.1 hr)

/-! ### Slots with an idle connection -/

/-- The parts of the state that an idle slot does not own are as they were. -/
theorem frame_of_idle (hslot : ∀ j ≠ i, w.gEvents j = v.gEvents j)
    (hfd : ∀ f ≠ fd, (f ∈ w.kernel.opened ↔ f ∈ v.kernel.opened) ∧
      w.kernel.interest f = v.kernel.interest f)
    (hconn : ∀ p ≠ jc, (p ∈ w.conns.allocated ↔ p ∈ v.conns.allocated) ∧
      w.conns.jconnects p = v.conns.jconnects p)
    (hblock : ∀ p, w.pool.live p = v.pool.live p ∧ w.streams p = v.streams p) :
    entries.Frame ((Entry.idle jc fd b).own i) v w := by
  intro r hr
  simp only [Entry.own, Set.mem_insert_iff, Set.mem_singleton_iff, not_or] at hr
  cases r with
  | slot j => exact hslot j (by simpa using hr.1)
  | fd f => exact hfd f (by simpa using hr.2.1)
  | conn p => exact hconn p (by simpa using hr.2.2)
  | block p => exact hblock p

/-- **`keepalive_cb`** takes the connection off the list, closes and frees it. -/
theorem keepaliveCb_spec (h : Waits jc fd true i w) (hP : w.pool.Ok)
    (hL : w.conns.Lists (L ++ jc :: L')) :
    ∃ w', w.keepaliveCb i = .ok w' ∧
      Turned ((Entry.idle jc fd true).own i) (.idle jc fd true) .vacant (L ++ L') i w w' := by
  obtain ⟨hreg, -, -⟩ := h.reg rfl
  have hdel := eventdel_of_registered hreg
  let c : Jconnect := { w.conns.jconnects jc with isAlive := false }
  let C : Connections := { w.conns with jconnects := Function.update w.conns.jconnects jc c }
  have hset : w.setConn jc c = .ok { w with conns := C } := setConn_of_mem h.allocated c
  have hlists : C.Lists (L ++ jc :: L') := ⟨hL.ring, hL.allocated⟩
  have hc : C.jconnects jc = c := Function.update_self _ _ _
  have hcfd : (C.jconnects jc).fd = (w.gEvents i).fd := by
    rw [hc, h.slotFd]
    exact h.connFd
  obtain ⟨links, hrel, hring⟩ := releaseKeepaliveConnection_spec
    (K := w.kernel.watch (w.gEvents i).fd none hreg.opened) hlists
  rw [hcfd, Kernel.close_watch] at hrel
  have hconn : w.conn (w.gEvents i).jc = .ok (jc, w.conns.jconnects jc) := by
    rw [Client.conn, h.slotJc, deref_some, ok_bind, get_of_mem h.allocated, ok_bind, pure_eq_ok]
  refine ⟨{ w with
      kernel := w.kernel.close (w.gEvents i).fd
      conns := { C with
        links := links
        allocated := C.allocated.erase jc
        connectPool := C.connectPool.dec }
      gEvents := Function.update w.gEvents i { w.gEvents i with status := 0 } }, ?_,
    frame_of_idle (fun j hj => Function.update_of_ne hj _ _) (fun f hf => ?_)
      (fun p hp => ⟨by simp [C, hp], Function.update_of_ne hp _ _⟩) (fun _ => ⟨rfl, rfl⟩), hP, rfl,
    rfl, fun p hp => ?_, hring, subset_rfl, fun r hr => .inl hr, ?_, ?_, fun r hr hrK hused => ?_⟩
  · simp only [keepaliveCb, hconn, ok_bind]
    rw [show ({ w.conns.jconnects jc with isAlive := false } : Jconnect) = c from rfl, hset]
    simp only [ok_bind, Client.eventdel, Client.setEvent, hdel, hrel, pure_eq_ok]
  · rw [h.slotFd]
    simp [hf]
  · by_cases hpj : p = jc
    · simp [C, c, hpj, Jconnect.Established]
    · simpa [C, hpj] using hp
  · intro r hr
    exact .inl (mem_slotOwn_none.1 hr)
  · show (Function.update w.gEvents i _ i).status = 0
    rw [Function.update_self]
  · rcases hr with rfl | rfl | rfl
    · exact slot_mem_slotOwn i none
    · obtain ⟨k, m, hkm⟩ := hused
      rw [h.slotFd] at hkm
      simp at hkm
    · exact absurd hrK (conn_notMem_notRecords jc)

/-- **The timeout of an idle connection** deregisters its slot, and leaves the connection in the
list. -/
theorem expireSlot_parks (h : Waits jc fd true i w) (hP : w.pool.Ok)
    (hring : w.conns.links.Ring .gJconnect (L.map .jconnect)) (hdue : w.Due now exceptFd i) :
    ∃ w', w.expireSlot now exceptFd i = .ok w' ∧
      Turned ((Entry.idle jc fd true).own i) (.idle jc fd true) (.idle jc fd false) L i w w' := by
  obtain ⟨K', hrun, hopened, -, hinterest⟩ := expireSlot_idle hdue (by
    intro p hp
    rw [h.slotJc, Option.some.injEq] at hp
    exact hp ▸ ⟨h.allocated, h.connStream⟩)
  rw [h.slotFd] at hinterest
  refine ⟨_, hrun, frame_of_idle (fun j hj => Function.update_of_ne hj _ _)
      (fun f hf => ⟨?_, ?_⟩) (fun _ _ => ⟨Iff.rfl, rfl⟩) (fun _ => ⟨rfl, rfl⟩), hP, rfl, rfl,
    fun _ hp => hp, hring, subset_rfl, fun r hr => .inl hr, subset_rfl,
    ⟨h.slot, ?_, ?_, h.nonneg, ?_, h.allocated, h.connFd, h.connStream, h.alive, h.status,
      fun hb => Bool.noConfusion hb, fun _ => ⟨?_, ?_⟩⟩, fun r hr _ _ => hr⟩
  · show f ∈ K'.opened ↔ _
    rw [hopened]
  · show K'.interest f = _
    rw [hinterest, Function.update_of_ne hf]
  · show (Function.update w.gEvents i _ i).jc = some jc
    rw [Function.update_self]
    exact h.slotJc
  · show (Function.update w.gEvents i _ i).fd = fd
    rw [Function.update_self]
    exact h.slotFd
  · show fd ∈ K'.opened
    exact hopened ▸ h.opened
  · show (Function.update w.gEvents i _ i).status = 0
    rw [Function.update_self]
  · show K'.interest fd = none
    rw [hinterest, Function.update_self]

/-! ### The slot of a descriptor -/

/-- `evget` passes over slot `k`: it has no connection, or one that is allocated and on another
descriptor. -/
def Skips (fd : ℤ) (k : ℕ) (w : Client) : Prop :=
  ∀ jc, (w.gEvents k).jc = some jc → jc ∈ w.conns.allocated ∧ (w.conns.jconnects jc).fd ≠ fd

/-- `evget` stops at slot `k`. -/
def Stops (fd : ℤ) (k : ℕ) (w : Client) : Prop :=
  ∃ jc, (w.gEvents k).jc = some jc ∧ jc ∈ w.conns.allocated ∧ (w.conns.jconnects jc).fd = fd

/-- `evget` reads a connection that was freed at slot `k`. -/
def Dangles (k : ℕ) (w : Client) : Prop :=
  ∃ jc, (w.gEvents k).jc = some jc ∧ jc ∉ w.conns.allocated

theorem skips_or_stops_or_dangles (fd : ℤ) (k : ℕ) (w : Client) :
    Skips fd k w ∨ Stops fd k w ∨ Dangles k w := by
  cases hjc : (w.gEvents k).jc with
  | none => exact .inl fun jc h => by rw [hjc] at h; cases h
  | some jc =>
    by_cases halloc : jc ∈ w.conns.allocated
    · by_cases heq : (w.conns.jconnects jc).fd = fd
      · exact .inr (.inl ⟨jc, hjc, halloc, heq⟩)
      · refine .inl fun p hp => ?_
        rw [hjc, Option.some.injEq] at hp
        exact hp ▸ ⟨halloc, heq⟩
    · exact .inr (.inr ⟨jc, hjc, halloc⟩)

theorem Skips.not_stops (h : Skips fd k w) : ¬ Stops fd k w := by
  rintro ⟨jc, hjc, -, heq⟩
  exact (h jc hjc).2 heq

theorem Dangles.not_skips (h : Dangles k w) : ¬ Skips fd k w := by
  obtain ⟨jc, hjc, hfreed⟩ := h
  exact fun hskip => hfreed (hskip jc hjc).1

theorem Dangles.not_stops (h : Dangles k w) : ¬ Stops fd k w := by
  obtain ⟨jc, hjc, hfreed⟩ := h
  rintro ⟨p, hp, halloc, -⟩
  rw [hjc, Option.some.injEq] at hp
  exact hfreed (hp ▸ halloc)

section

variable (hfd : fd ≠ -1) (is : List ℕ)
include hfd

theorem evgetLoop_of_skips (h : Skips fd k w) :
    w.evgetLoop fd (k :: is) = w.evgetLoop fd is := by
  simp only [evgetLoop, hfd, and_false, if_false, ne_eq, not_false_eq_true, if_true]
  cases hjc : (w.gEvents k).jc with
  | none => rfl
  | some jc =>
    obtain ⟨halloc, hne⟩ := h jc hjc
    simp only [get_of_mem halloc, ok_bind, if_neg hne]

theorem evgetLoop_of_stops (h : Stops fd k w) : w.evgetLoop fd (k :: is) = .ok (some k) := by
  obtain ⟨jc, hjc, halloc, heq⟩ := h
  simp only [evgetLoop, hfd, and_false, if_false, ne_eq, not_false_eq_true, if_true, hjc,
    get_of_mem halloc, ok_bind, heq, pure_eq_ok]

theorem evgetLoop_of_dangles (h : Dangles k w) :
    w.evgetLoop fd (k :: is) = .error .danglingPointer := by
  obtain ⟨jc, hjc, hfreed⟩ := h
  have hget : w.conns.get jc = .error .danglingPointer := if_neg hfreed
  simp only [evgetLoop, hfd, and_false, if_false, ne_eq, not_false_eq_true, if_true, hjc, hget,
    error_bind]

end

/-- `evget` of a descriptor returns the first slot it stops at, if it can read the connections of
those before. -/
theorem evget_eq_iff (hfd : fd ≠ -1) :
    w.evget fd = .ok (some i) ↔ i < maxEvents ∧ Stops fd i w ∧ ∀ k < i, Skips fd k w := by
  have key : ∀ n s, w.evgetLoop fd (List.range' s n) = .ok (some i) ↔
      s ≤ i ∧ i < s + n ∧ Stops fd i w ∧ ∀ k, s ≤ k → k < i → Skips fd k w := by
    intro n
    induction n with
    | zero =>
      intro s
      simp only [List.range'_zero, evgetLoop, pure_eq_ok, Except.ok.injEq, reduceCtorEq, false_iff]
      omega
    | succ n ih =>
      intro s
      rw [List.range'_succ]
      rcases skips_or_stops_or_dangles fd s w with hskip | hstop | hdangle
      · rw [evgetLoop_of_skips hfd _ hskip, ih]
        constructor
        · rintro ⟨hle, hlt, hstop, hall⟩
          refine ⟨by omega, by omega, hstop, fun k hk hki => ?_⟩
          by_cases hks : k = s
          · exact hks ▸ hskip
          · exact hall k (by omega) hki
        · rintro ⟨hle, hlt, hstop, hall⟩
          have hne : i ≠ s := by
            rintro rfl
            exact hskip.not_stops hstop
          exact ⟨by omega, by omega, hstop, fun k hk hki => hall k (by omega) hki⟩
      · rw [evgetLoop_of_stops hfd _ hstop, Except.ok.injEq, Option.some.injEq]
        constructor
        · rintro rfl
          exact ⟨le_rfl, by omega, hstop, fun k hk hki => by omega⟩
        · rintro ⟨hle, -, -, hall⟩
          by_contra hne
          exact (hall s le_rfl (by omega)).not_stops hstop
      · rw [evgetLoop_of_dangles hfd _ hdangle]
        refine iff_of_false (fun h => by cases h) ?_
        rintro ⟨hle, -, hstop, hall⟩
        by_cases hsi : s = i
        · exact hdangle.not_stops (hsi ▸ hstop)
        · exact hdangle.not_skips (hall s le_rfl (by omega))
  rw [evget, List.range_eq_range', key]
  constructor
  · rintro ⟨-, hlt, hstop, hall⟩
    exact ⟨by omega, hstop, fun k hk => hall k (Nat.zero_le k) hk⟩
  · rintro ⟨hlt, hstop, hall⟩
    exact ⟨Nat.zero_le i, by omega, hstop, fun k _ hk => hall k hk⟩

/-- `evget` of a descriptor follows the connection of slot 0 to a record that was freed. -/
theorem evget_dangles (hfd : fd ≠ -1) (h : Dangles 0 w) : w.evget fd = .error .danglingPointer := by
  rw [evget, List.range_eq_range', show maxEvents = 1023 + 1 from rfl, List.range'_succ]
  exact evgetLoop_of_dangles hfd _ h

/-- **`attach_stream_to_connect` of a connection of the list**, when `evget` comes to its slot: the
slot serves the transaction from then on. -/
theorem attach_taken (h : Waits x.jc x.stream.serverSock b i w)
    (hskip : ∀ k < i, Skips x.stream.serverSock k w)
    (hstream : w.streams x.stream.self = some x.stream) (howned : w.pool.Owned x.stream.footprint)
    (hcarries : ∃ q ≠ [], x.stream.Carries w.pool q [] []) (hP : w.pool.Ok) (now : ℤ) :
    ∃ w', w.attachStreamToConnect x.jc x.stream now = .ok w' ∧
      Handled Set.univ x i (some x) w w' := by
  have hconn : ((refer x w).conns.jconnects x.jc).fd = x.stream.serverSock := by
    simp only [refer, Function.update_self]
    exact h.connFd
  -- the slots in front are passed over as before: the connection itself is not theirs
  have hevget : (refer x w).evget x.stream.serverSock = .ok (some i) := by
    refine (evget_eq_iff (by have := h.nonneg; omega)).2
      ⟨h.slot, ⟨x.jc, h.slotJc, h.allocated, hconn⟩, fun k hk p hp => ?_⟩
    obtain ⟨hmem, hne⟩ := hskip k hk p hp
    have hpj : p ≠ x.jc := by
      rintro rfl
      exact hne h.connFd
    refine ⟨hmem, ?_⟩
    simpa only [refer, Function.update_of_ne hpj] using hne
  have hbefore : (Jujube.eventResetCb .dataTransfer (w.gEvents i)).Registered i w.kernel ∨
      (w.gEvents i).status ≠ 1 ∧ (w.gEvents i).fd ∈ w.kernel.opened ∧
        w.kernel.interest (w.gEvents i).fd = none := by
    cases b with
    | true =>
      obtain ⟨hreg, -⟩ := h.reg rfl
      exact .inl ⟨hreg.status, hreg.opened, hreg.interest⟩
    | false =>
      obtain ⟨hzero, hnone⟩ := h.parked rfl
      rw [hzero, h.slotFd]
      exact .inr ⟨by decide, h.opened, hnone⟩
  obtain ⟨w', hadd, -, hhandled⟩ := attach_slot
    (Jujube.eventResetCb .dataTransfer (w.gEvents i)) h.slot h.nonneg h.allocated h.connFd
    hstream howned hcarries hP h.slotFd h.slotJc (.inr rfl) hbefore now
  have hset : w.setConn x.jc { w.conns.jconnects x.jc with stream := some x.stream.self } =
      .ok (refer x w) := setConn_of_mem h.allocated _
  refine ⟨w', ?_, hhandled⟩
  simp only [attachStreamToConnect, get_of_mem h.allocated, ok_bind, hset]
  simp only [h.status, h.connFd, hevget, ok_bind, deref_some, pure_eq_ok]
  exact congrArg _ hadd

/-- **`create_transaction` on a connection of the list**, when `evget` comes to its slot. -/
theorem createTransaction_taken {links : Links ConnNode} (hP : w.pool.Ok)
    (hget : getConnection w.conns w.kernel =
      .ok (some jc, { w.conns with links := links }, w.kernel))
    (h : Waits jc fd b i w) (hskip : ∀ k < i, Skips fd k w) (entry : TransferLogEntry)
    (d : Dialling) :
    ∃ s w', w.createTransaction entry d = .ok w' ∧ s.serverSock = fd ∧
      (∀ p, (w.conns.jconnects p).Established → (w'.conns.jconnects p).Established) ∧
      Started ⟨jc, s⟩ i links w w' := by
  obtain ⟨s, P', hstream, hext, hcarries, rfl, -⟩ := newTransactionStream_spec hP fd
    (le 8 512) (read entry.gatherLogmsg 0 512)
    (by simp [cfgHttpBufSize]) (by simp [cfgHttpBufSize, maxExtMemBlock])
  let v : Client := { w with
    conns := { w.conns with links := links }
    pool := P'
    streams := Function.update w.streams s.self (some s) }
  have hv : Waits jc s.serverSock b i v :=
    ⟨h.slot, h.slotJc, h.slotFd, h.nonneg, h.opened, h.allocated, h.connFd, h.connStream, h.alive,
      h.status, h.reg, h.parked⟩
  obtain ⟨w', hattach, hhandled⟩ := attach_taken (x := ⟨jc, s⟩) hv hskip
    (Function.update_self _ _ _) hext.owned ⟨_, List.append_ne_nil_of_left_ne_nil
      (List.ne_nil_of_length_pos (by simp)) _, hcarries⟩ hext.ok d.now
  have hframe : slots.Frame (slotOwn i (some ⟨jc, s⟩)) w v := by
    refine frame_of (fun _ _ => rfl) (fun _ _ => ⟨Iff.rfl, rfl⟩) (fun _ _ => ⟨Iff.rfl, rfl⟩)
      fun p hp => ⟨hext.frame p hp, Function.update_of_ne ?_ _ _⟩
    rintro rfl
    exact hp s.self_mem_footprint
  refine ⟨s, w', ?_, rfl, hhandled.established, hframe.trans hhandled.frame, hext.new,
    hhandled.pool, hhandled.links, hhandled.checkpos, hhandled.tickleFd, hhandled.holds⟩
  have htake : w.takeConnection entry d =
      .ok (some jc, { w.conns with links := links }, w.kernel) := by
    simp only [takeConnection, hget, ok_bind, pure_eq_ok]
  have hgetv : Connections.get jc { w.conns with links := links } = .ok (w.conns.jconnects jc) :=
    get_of_mem h.allocated
  simp only [createTransaction, htake, ok_bind, hgetv, h.connFd, hstream]
  exact hattach

end Client

end Jujube
