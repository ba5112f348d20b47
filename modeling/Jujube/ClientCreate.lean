import Jujube.ClientCallbacks

/-!
# `create_transaction`

A transaction that finds no idle connection dials a new one and takes a slot for it (`Made`).
`attach_slot` is the part that a connection of the list goes through as well.  What is sent does not
depend on the length of the message: `createTransaction_sends_iff` says for which length it is the
message.
-/

namespace Jujube

open Bytes Pool Connections Ownership

/-- `connect` was called and did not fail. -/
def Dial.Connects : Dial → Prop
  | .inProgress _ | .connected _ => True
  | .noSocket | .blocking _ | .refused _ => False

namespace Client

/-- A new connection is made. -/
def Dialling.Connects (d : Dialling) : Prop := d.malloc ≠ none ∧ d.dial.Connects

variable {K : Set Resource} {T : ℕ → Option Transaction} {w w' : Client} {i : ℕ} {d : Dialling}
  {entry : TransferLogEntry} {C : Connections} {s : TcpStream} {p jc : Ptr} {now : ℤ}

/-- `create_connect_socket` fails, or there is a new connection. -/
theorem newConnection_fst (hd : d.Ok C w.kernel) (entry : TransferLogEntry) :
    (newConnection entry d C w.kernel).1 ≠ none ↔ d.Connects := by
  obtain ⟨malloc, dial, behind, now⟩ := d
  cases malloc with
  | none => simp [newConnection, Dialling.Connects]
  | some r =>
    have hpos : ∀ fd, dial.fd? = some fd → ¬ fd < 0 := fun fd hfd => not_lt.2 (hd.opened fd hfd).1
    cases dial with
    | noSocket => simp [newConnection, Dialling.Connects, Dial.Connects, createConnectSocket]
    | blocking fd => simp [newConnection, Dialling.Connects, Dial.Connects, createConnectSocket]
    | refused fd => simp [newConnection, Dialling.Connects, Dial.Connects, createConnectSocket]
    | inProgress fd =>
      simp [newConnection, Dialling.Connects, Dial.Connects, createConnectSocket, hpos fd rfl]
    | connected fd =>
      simp [newConnection, Dialling.Connects, Dial.Connects, createConnectSocket, hpos fd rfl]

/-- A new connection is what `malloc` and `socket` gave, and not alive yet. -/
theorem newConnection_made (d : Dialling) (C : Connections) (K : Kernel)
    (entry : TransferLogEntry) (jc : Ptr) (h : (newConnection entry d C K).1 = some jc) :
    (∃ raw, d.malloc = some (jc, raw)) ∧
      d.dial.fd? = some ((newConnection entry d C K).2.1.jconnects jc).fd ∧
      ((newConnection entry d C K).2.1.jconnects jc).isAlive = false := by
  obtain ⟨malloc, dial, behind, now⟩ := d
  cases malloc with
  | none => cases h
  | some r =>
    obtain ⟨p, raw⟩ := r
    simp only [newConnection] at h ⊢
    split_ifs at h ⊢ with hsock
    cases h
    refine ⟨⟨raw, rfl⟩, ?_, by simp⟩
    simp only [Function.update_self]
    cases dial with
    | noSocket => exact absurd (by simp [createConnectSocket]) hsock
    | blocking fd => exact absurd (by simp [createConnectSocket]) hsock
    | refused fd => exact absurd (by simp [createConnectSocket]) hsock
    | inProgress fd => simp [Dial.fd?, createConnectSocket]
    | connected fd => simp [Dial.fd?, createConnectSocket]

/-- With no idle connection, a connection is a new one. -/
theorem takeConnection_nil (hL : w.conns.Lists []) (entry : TransferLogEntry) (d : Dialling) :
    ∃ links, w.takeConnection entry d =
        .ok (newConnection entry d { w.conns with links := links } w.kernel) ∧
      links.Ring .gJconnect [] := by
  obtain ⟨links, hrun, hring⟩ := getConnection_nil hL w.kernel
  refine ⟨links, ?_, hring⟩
  rw [takeConnection, hrun]
  rfl

/-- When a new connection can be made, it is what `malloc` and `socket` gave. -/
theorem takeConnection_made (hL : w.conns.Lists []) (hd : d.Ok w.conns w.kernel)
    (hconnects : d.Connects) (entry : TransferLogEntry) :
    ∃ links jc c, w.takeConnection entry d = .ok (some jc,
        Connections.malloc jc c { w.conns with links := links }, w.kernel.openFd c.fd) ∧
      links.Ring .gJconnect [] ∧ jc ∉ w.conns.allocated ∧ c.status = .beginConn ∧ 0 ≤ c.fd ∧
      c.fd ∉ w.kernel.opened ∧ (∃ raw, d.malloc = some (jc, raw)) ∧ d.dial.fd? = some c.fd ∧
      c.isAlive = false := by
  obtain ⟨links, htake, hring⟩ := takeConnection_nil hL entry d
  have hd' : d.Ok { w.conns with links := links } w.kernel := ⟨hd.fresh, hd.opened⟩
  have hfst := newConnection_fst hd' entry
  have hspec := newConnection_spec hd' entry
  have hmade := newConnection_made d { w.conns with links := links } w.kernel entry
  generalize newConnection entry d { w.conns with links := links } w.kernel = r at *
  cases hspec with
  | nothing => exact absurd rfl (hfst.2 hconnects)
  | leaked => exact absurd rfl (hfst.2 hconnects)
  | @made jc c hjc hstatus hrange hfd =>
    have hget : (Connections.malloc jc c { w.conns with links := links }).jconnects jc = c :=
      Function.update_self _ _ _
    obtain ⟨hmalloc, hdial, hdead⟩ := hmade jc rfl
    rw [hget] at hdial hdead
    exact ⟨links, jc, c, htake, hring, hjc, hstatus, hrange.1, hfd, hmalloc, hdial, hdead⟩

/-! ### A slot for the transaction -/

/-- `evget` of no descriptor returns the first free slot. -/
theorem evget_first (hi : i < maxEvents) (hzero : (w.gEvents i).status = 0)
    (hfirst : ∀ k < i, (w.gEvents k).status ≠ 0) : w.evget (-1) = .ok (some i) := by
  have key : ∀ n s, s ≤ i → i < s + n → w.evgetLoop (-1) (List.range' s n) = .ok (some i) := by
    intro n
    induction n with
    | zero => intro s hs hlt; omega
    | succ n ih =>
      intro s hs hlt
      rw [List.range'_succ, evgetLoop]
      by_cases hsi : s = i
      · simp [hsi, hzero]
      · have hne := hfirst s (by omega)
        simp only [hne, false_and, if_false, ne_eq, not_true_eq_false]
        exact ih (s + 1) (by omega) (by omega)
  rw [evget, List.range_eq_range']
  exact key maxEvents 0 (Nat.zero_le i) (by omega)

/-- `evget` finds a free slot. -/
theorem evget_free (h : ∃ i < maxEvents, (w.gEvents i).status = 0) :
    ∃ i < maxEvents, w.evget (-1) = .ok (some i) ∧ (w.gEvents i).status = 0 := by
  obtain ⟨hlt, hzero⟩ := Nat.find_spec h
  refine ⟨Nat.find h, hlt, evget_first hlt hzero fun k hk hkzero => ?_, hzero⟩
  exact Nat.find_min h hk ⟨hk.trans hlt, hkzero⟩

/-- What is free does not depend on the connections. -/
theorem evget_free_congr (h : w.gEvents = w'.gEvents) : w.evget (-1) = w'.evget (-1) := by
  have key : ∀ is : List ℕ, w.evgetLoop (-1) is = w'.evgetLoop (-1) is := by
    intro is
    induction is with
    | nil => rfl
    | cons j is ih => simp only [evgetLoop, h, ih, ne_eq, not_true_eq_false, if_false]
  exact key _

/-- There is a connection that was just dialled, and a stream for it; no slot has them yet. -/
structure Dialled (x : Transaction) (w : Client) : Prop where
  nonneg : 0 ≤ x.stream.serverSock
  opened : x.stream.serverSock ∈ w.kernel.opened
  interest : w.kernel.interest x.stream.serverSock = none
  allocated : x.jc ∈ w.conns.allocated
  status : (w.conns.jconnects x.jc).status = .beginConn
  connFd : (w.conns.jconnects x.jc).fd = x.stream.serverSock
  stream : w.streams x.stream.self = some x.stream
  owned : w.pool.Owned x.stream.footprint
  carries : ∃ q ≠ [], x.stream.Carries w.pool q [] []

/-- The record of a transaction refers to its stream. -/
def refer (x : Transaction) (w : Client) : Client :=
  let c := { w.conns.jconnects x.jc with stream := some x.stream.self }
  { w with conns := { w.conns with jconnects := Function.update w.conns.jconnects x.jc c } }

/-- A slot that gets the contents `ev` and is registered for writing serves the transaction. -/
theorem attach_slot {x : Transaction} (ev : MyEvent) (hi : i < maxEvents)
    (hnonneg : 0 ≤ x.stream.serverSock) (hjc : x.jc ∈ w.conns.allocated)
    (hfd : (w.conns.jconnects x.jc).fd = x.stream.serverSock)
    (hstream : w.streams x.stream.self = some x.stream) (howned : w.pool.Owned x.stream.footprint)
    (hcarries : ∃ q ≠ [], x.stream.Carries w.pool q [] []) (hP : w.pool.Ok)
    (hevfd : ev.fd = x.stream.serverSock) (hevjc : ev.jc = some x.jc)
    (hcb : ev.callBack = some .connectCb ∨ ev.callBack = some .dataTransfer)
    (hbefore : ev.Registered i w.kernel ∨ ev.status ≠ 1 ∧ ev.fd ∈ w.kernel.opened ∧
      w.kernel.interest ev.fd = none) (now : ℤ) :
    ∃ w', ((refer x w).setEvent i ev).eventadd i ⟨false, true⟩ now = w' ∧
      w'.gEvents i = { ev with lastActive := now, events := ⟨false, true⟩, status := 1 } ∧
      Handled Set.univ x i (some x) w w' := by
  obtain ⟨ev', K, hadd, hev, hreg, hopened, hinterest⟩ :=
    setEvent_eventadd (w := refer x w) hbefore ⟨false, true⟩ now
  let w' : Client := { refer x w with
    kernel := K
    gEvents := Function.update w.gEvents i ev' }
  have hslot : w'.gEvents i = ev' := Function.update_self _ _ _
  have hconn : w'.conns.jconnects x.jc =
      { w.conns.jconnects x.jc with stream := some x.stream.self } := Function.update_self _ _ _
  have hother : ∀ p ≠ x.jc, w'.conns.jconnects p = w.conns.jconnects p := fun p hp =>
    Function.update_of_ne hp _ _
  have hframe : slots.Frame (slotOwn i (some x)) w w' :=
    frame_of (fun j hj => Function.update_of_ne hj _ _)
      (fun f hf => ⟨iff_of_eq (congrArg (f ∈ ·) hopened), hinterest f (hevfd ▸ hf)⟩)
      (fun p hp => ⟨Iff.rfl, hother p hp⟩) fun _ _ => ⟨rfl, rfl⟩
  refine ⟨w', hadd, hslot.trans hev, handled_some ⟨hframe, rfl, rfl, rfl, fun p hest => ?_⟩ hP rfl
    ⟨⟨hi, hslot ▸ hreg, ?_, hnonneg, ?_, hjc, ?_, ?_, hstream, howned⟩, ?_, ?_, hcarries⟩⟩
  · by_cases hp : p = x.jc
    · rw [hp] at hest ⊢
      rw [hconn]
      exact hest
    · rwa [hother p hp]
  · rw [hslot, hev]
    exact hevfd
  · rw [hslot, hev]
    exact hevjc
  · rw [hconn]
    exact hfd
  · rw [hconn]
  · rw [hslot, hev]
    exact hcb
  · rw [hslot, hev]

/-- **`attach_stream_to_connect` of a new connection** takes a free slot, which serves the
transaction from then on. -/
theorem attach_spec {x : Transaction} (hx : Dialled x w) (hP : w.pool.Ok)
    (hfree : ∃ i < maxEvents, (w.gEvents i).status = 0) (now : ℤ) :
    ∃ i w', w.attachStreamToConnect x.jc x.stream now = .ok w' ∧ w.evget (-1) = .ok (some i) ∧
      (w.gEvents i).status = 0 ∧
      w'.gEvents i = ⟨x.stream.serverSock, ⟨false, true⟩, some .connectCb, 1, now, some x.jc⟩ ∧
      Handled Set.univ x i (some x) w w' := by
  obtain ⟨i, hi, hevget, hzero⟩ := evget_free (w := refer x w) hfree
  have hsame : w.evget (-1) = (refer x w).evget (-1) := evget_free_congr rfl
  have hnew : (eventset (some x.jc) x.stream.serverSock .connectCb now).status ≠ 1 := by
    simp [eventset]
  obtain ⟨w', hadd, hslot, hhandled⟩ := attach_slot _ hi hx.nonneg hx.allocated hx.connFd hx.stream
    hx.owned hx.carries hP rfl rfl (.inl rfl) (.inr ⟨hnew, hx.opened, hx.interest⟩) now
  have hset : w.setConn x.jc { w.conns.jconnects x.jc with stream := some x.stream.self } =
      .ok (refer x w) := setConn_of_mem hx.allocated _
  refine ⟨i, w', ?_, hsame.trans hevget, hzero, hslot, hhandled⟩
  simp only [attachStreamToConnect, get_of_mem hx.allocated, ok_bind, hset]
  simp only [hx.status, hx.connFd, hevget, ok_bind, deref_some, pure_eq_ok, hadd]

/-- A transaction was started on slot `i`: its stream is new, and `links` is what is left of the
list of idle connections. -/
structure Started (x : Transaction) (i : ℕ) (links : Links ConnNode) (w w' : Client) : Prop where
  frame : slots.Frame (slotOwn i (some x)) w w'
  blocks : ∀ p ∈ x.stream.footprint, w.pool.live p = none
  pool : w'.pool.Ok
  links : w'.conns.links = links
  checkpos : w'.checkpos = w.checkpos
  tickleFd : w'.tickleFd = w.tickleFd
  serves : x.Serves i w'

/-- A transaction was started on a new connection, which `malloc` and `socket` gave, and the slot
that `evget` found; nobody owned what the slot owns then. -/
structure Made (entry : TransferLogEntry) (d : Dialling) (x : Transaction) (i : ℕ)
    (w w' : Client) : Prop extends Started x i w'.conns.links w w' where
  taken : ∃ C K, w.takeConnection entry d = .ok (some x.jc, C, K) ∧
    (C.jconnects x.jc).status = .beginConn
  malloc : ∃ raw, d.malloc = some (x.jc, raw)
  dial : d.dial.fd? = some x.stream.serverSock
  stream : ∃ P, newTransactionStream x.stream.serverSock (le 8 512)
    (read entry.gatherLogmsg 0 512) w.pool = .ok (x.stream, P)
  evget : w.evget (-1) = .ok (some i)
  free : (w.gEvents i).status = 0
  slot : w'.gEvents i =
    ⟨x.stream.serverSock, ⟨false, true⟩, some .connectCb, 1, d.now, some x.jc⟩
  fresh : ∀ r ∈ slotOwn i (some x), r = .slot i ∨ ¬ r.Live w
  established : ∀ p, (w.conns.jconnects p).Established → (w'.conns.jconnects p).Established
  ring : w'.conns.links.Ring .gJconnect []

/-- Before a slot is looked for, the connection was dialled and has a stream; both are new, and
nothing else is different. -/
structure Prepared (entry : TransferLogEntry) (d : Dialling) (x : Transaction) (w v : Client) :
    Prop where
  run : w.createTransaction entry d = v.attachStreamToConnect x.jc x.stream d.now
  dialled : Dialled x v
  pool : v.pool.Ok
  frame : ∀ i, slots.Frame (slotOwn i (some x)) w v
  blocks : ∀ p ∈ x.stream.footprint, w.pool.live p = none
  newFd : x.stream.serverSock ∉ w.kernel.opened
  newRecord : x.jc ∉ w.conns.allocated
  gEvents : v.gEvents = w.gEvents
  checkpos : v.checkpos = w.checkpos
  tickleFd : v.tickleFd = w.tickleFd
  ring : v.conns.links.Ring .gJconnect []
  taken : ∃ C K, w.takeConnection entry d = .ok (some x.jc, C, K) ∧
    (C.jconnects x.jc).status = .beginConn
  malloc : ∃ raw, d.malloc = some (x.jc, raw)
  dial : d.dial.fd? = some x.stream.serverSock
  stream : ∃ P, newTransactionStream x.stream.serverSock (le 8 512)
    (read entry.gatherLogmsg 0 512) w.pool = .ok (x.stream, P)
  established : ∀ p, (w.conns.jconnects p).Established → (v.conns.jconnects p).Established

/-- `create_transaction`, as far as `attach_stream_to_connect`. -/
theorem createTransaction_prepared (hP : w.pool.Ok) (hL : w.conns.Lists [])
    (hd : d.Ok w.conns w.kernel) (hconnects : d.Connects) (entry : TransferLogEntry) :
    ∃ x v, Prepared entry d x w v := by
  obtain ⟨links, jc, c, htake, hring, hjc, hstatus, hpos, hfd, hmalloc, hdial, hdead⟩ :=
    takeConnection_made hL hd hconnects entry
  obtain ⟨s, P', hstream, hext, hcarries, hsock, -⟩ := newTransactionStream_spec hP c.fd
    (le 8 512) (read entry.gatherLogmsg 0 512)
    (by simp [cfgHttpBufSize]) (by simp [cfgHttpBufSize, maxExtMemBlock])
  let v : Client := { w with
    conns := Connections.malloc jc c { w.conns with links := links }
    kernel := w.kernel.openFd c.fd
    pool := P'
    streams := Function.update w.streams s.self (some s) }
  have hjc' : jc ∈ (Connections.malloc jc c { w.conns with links := links }).allocated :=
    Finset.mem_insert_self _ _
  have hget : (Connections.malloc jc c { w.conns with links := links }).jconnects jc = c :=
    Function.update_self _ _ _
  have hdialled : Dialled ⟨jc, s⟩ v := by
    refine ⟨hsock ▸ hpos, ?_, ?_, hjc', ?_, ?_, Function.update_self _ _ _, hext.owned,
      _, ?_, hcarries⟩
    · exact hsock ▸ Finset.mem_insert_self _ _
    · show w.kernel.interest s.serverSock = none
      rw [hsock, Kernel.interest_eq_none hfd]
    · exact hget ▸ hstatus
    · exact hget ▸ hsock.symm
    · exact List.append_ne_nil_of_left_ne_nil (List.ne_nil_of_length_pos (by simp)) _
  have hframe : ∀ i, slots.Frame (slotOwn i (some ⟨jc, s⟩)) w v := by
    intro i
    refine frame_of (fun _ _ => rfl) (fun f hf => ⟨?_, rfl⟩) (fun jc' hne => ⟨?_, ?_⟩)
      fun p hp => ⟨hext.frame p hp, ?_⟩
    · simp [v, ← hsock, hf]
    · simp [v, Connections.malloc, hne]
    · exact Function.update_of_ne hne _ _
    · apply Function.update_of_ne
      rintro rfl
      exact hp s.self_mem_footprint
  refine ⟨⟨jc, s⟩, v, ?_, hdialled, hext.ok, hframe, hext.new, hsock.symm ▸ hfd, hjc, rfl, rfl, rfl,
    hring, ⟨_, _, htake, hget.symm ▸ hstatus⟩, hmalloc, hsock.symm ▸ hdial,
    ⟨P', hsock.symm ▸ hstream⟩, fun p hp => ?_⟩
  · simp only [createTransaction, htake, ok_bind, get_of_mem hjc', hget, hstream]
    rfl
  · by_cases hpj : p = jc
    · have hp' : v.conns.jconnects p = c := by rw [hpj]; exact hget
      rw [hp']
      simp [Jconnect.Established, hdead]
    · have hp' : v.conns.jconnects p = w.conns.jconnects p := Function.update_of_ne hpj _ _
      rwa [hp']

/-- **`create_transaction` on a new connection** takes a free slot. -/
theorem createTransaction_made (hP : w.pool.Ok) (hL : w.conns.Lists [])
    (hd : d.Ok w.conns w.kernel) (hconnects : d.Connects)
    (hfree : ∃ i < maxEvents, (w.gEvents i).status = 0) (entry : TransferLogEntry) :
    ∃ i x w', w.createTransaction entry d = .ok w' ∧ Made entry d x i w w' := by
  obtain ⟨x, v, hv⟩ := createTransaction_prepared hP hL hd hconnects entry
  obtain ⟨i, w', hattach, hevget, hzero, hslot, hhandled⟩ :=
    attach_spec hv.dialled hv.pool (hv.gEvents ▸ hfree) d.now
  refine ⟨i, x, w', hv.run.trans hattach, ⟨(hv.frame i).trans hhandled.frame, hv.blocks,
      hhandled.pool, rfl, hhandled.checkpos.trans hv.checkpos,
      hhandled.tickleFd.trans hv.tickleFd, hhandled.holds⟩, hv.taken, hv.malloc, hv.dial,
    hv.stream, (evget_free_congr hv.gEvents).symm.trans hevget, hv.gEvents ▸ hzero, hslot,
    fun r hr => ?_, fun p hp => hhandled.established p (hv.established p hp),
    hhandled.links.symm ▸ hv.ring⟩
  cases r with
  | slot j => exact .inl (by simpa using hr)
  | fd f => exact .inr (fd_mem_slotOwn_some.1 hr ▸ hv.newFd)
  | conn jc => exact .inr (conn_mem_slotOwn_some.1 hr ▸ hv.newRecord)
  | block p => exact .inr fun hlive => hlive (hv.blocks p (block_mem_slotOwn_some.1 hr))

/-! ### What is sent -/

/-- `attach_stream_to_connect` leaves pool and streams alone. -/
theorem attachStreamToConnect_frame (h : w.attachStreamToConnect jc s now = .ok w') :
    w'.pool = w.pool ∧ w'.streams = w.streams := by
  unfold attachStreamToConnect at h
  obtain ⟨c, -, h⟩ := bind_eq_ok.1 h
  obtain ⟨w₁, hset, h⟩ := bind_eq_ok.1 h
  have hw₁ : w₁.pool = w.pool ∧ w₁.streams = w.streams := by
    obtain ⟨C, -, hC⟩ := bind_eq_ok.1 hset
    cases hC
    exact ⟨rfl, rfl⟩
  obtain ⟨⟨i, w₂⟩, hslot, h⟩ := bind_eq_ok.1 h
  cases h
  have hw₂ : w₂.pool = w₁.pool ∧ w₂.streams = w₁.streams := by
    revert hslot
    cases c.status with
    | beginConn =>
      intro hslot
      obtain ⟨j, -, hj⟩ := bind_eq_ok.1 hslot
      cases hj
      exact ⟨rfl, rfl⟩
    | connEstab =>
      intro hslot
      obtain ⟨j, -, hj⟩ := bind_eq_ok.1 hslot
      cases hj
      exact ⟨rfl, rfl⟩
    | connClose =>
      intro hslot
      cases hslot
  exact ⟨hw₂.1.trans hw₁.1, hw₂.2.trans hw₁.2⟩

/-- **Whatever the message, the stream that a transaction gets has the length 512 and 512 bytes to
send.** -/
theorem createTransaction_stream (hP : w.pool.Ok) (hrun : w.createTransaction entry d = .ok w')
    (hs : w'.streams p = some s) (hnew : w.streams p ≠ some s) :
    s.inBuf.Holds w'.pool (le 8 512 ++ read entry.gatherLogmsg 0 512) := by
  unfold createTransaction at hrun
  obtain ⟨⟨conn, C, K⟩, -, hrun⟩ := bind_eq_ok.1 hrun
  cases conn with
  | none =>
    cases hrun
    exact absurd hs hnew
  | some jc =>
    obtain ⟨c, -, hrun⟩ := bind_eq_ok.1 hrun
    obtain ⟨s', P', hstream, -, hcarries, -, -⟩ := newTransactionStream_spec hP c.fd
      (le 8 512) (read entry.gatherLogmsg 0 512)
      (by simp [cfgHttpBufSize]) (by simp [cfgHttpBufSize, maxExtMemBlock])
    simp only [hstream, ok_bind] at hrun
    obtain ⟨hpool, hstreams⟩ := attachStreamToConnect_frame hrun
    simp only [hstreams, setStream, Function.update_apply] at hs
    split_ifs at hs with hp
    · cases hs
      rw [hpool]
      exact hcarries.inBuf
    · exact absurd hs hnew

/-- **When the message is sent.**  A stream that `create_transaction` attaches has the length of the
message and the message to send exactly when that length is 512. -/
theorem createTransaction_sends_iff (hP : w.pool.Ok)
    (hrun : w.createTransaction entry d = .ok w') (hs : w'.streams p = some s)
    (hnew : w.streams p ≠ some s) :
    s.inBuf.Holds w'.pool (le 8 entry.msgLen ++ read entry.gatherLogmsg 0 entry.msgLen) ↔
      entry.msgLen = 512 := by
  have hsent := createTransaction_stream hP hrun hs hnew
  constructor
  · intro h
    have hle := hsent.length.trans h.length.symm
    simp only [List.length_append, length_le, length_read] at hle
    omega
  · intro h
    rw [h]
    exact hsent

/-- A message of `n` bytes `a`. -/
def entryOfLen (n : ℕ) : TransferLogEntry :=
  ⟨⟨Octets.in6 ⟨192, 168, 104, 159⟩, useIpv4⟩, 9527, n, fun _ => 97⟩

/-- The client before its first transaction. -/
def fresh : Client := init (fun _ _ => 0) ∅ 3 4

theorem fresh_idle : fresh.conns.Lists [] := ⟨initListHead_ring _ _, by simp⟩

theorem dialFive_connects : dialFive.Connects := ⟨by simp [dialFive], trivial⟩

theorem dialFive_ok : dialFive.Ok fresh.conns fresh.kernel := by
  refine ⟨fun jc raw _ => Finset.notMem_empty jc, fun fd hfd => ?_⟩
  cases hfd
  refine ⟨by norm_num, by norm_num, ?_⟩
  simp [fresh, init, setWakeUpPolling, Kernel.unwatched]

/-- The first transaction gets slot 0, the record 0 and a stream in block 0, whatever the length of
its message: nothing reads it. -/
theorem fresh_createTransaction (n : ℕ) :
    ∃ w' s, fresh.createTransaction (entryOfLen n) dialFive = .ok w' ∧ w'.streams 0 = some s ∧
      (w'.gEvents 0).status = 1 ∧ (w'.gEvents 0).lastActive = 0 ∧ (w'.gEvents 0).fd = 5 ∧
      w'.tickleFd = 3 ∧ (w'.gEvents 0).jc = some 0 ∧ (w'.conns.jconnects 0).stream = some 0 ∧
      (w'.gEvents 0).callBack = some .connectCb := by
  have hzero : (fresh.gEvents 0).status = 0 := rfl
  obtain ⟨i, x, w', hrun, hmade⟩ := createTransaction_made (memModuleInit_ok _) fresh_idle
    dialFive_ok dialFive_connects ⟨0, by decide, hzero⟩ (entryOfLen n)
  obtain rfl : 0 = i := by
    have hevget := hmade.evget
    rw [evget_first (by decide) hzero (by simp)] at hevget
    simpa using hevget
  obtain ⟨raw, hmalloc⟩ := hmade.malloc
  have hdial := hmade.dial
  simp only [dialFive, Option.some.injEq, Prod.mk.injEq] at hmalloc
  simp only [dialFive, Dial.fd?, Option.some.injEq] at hdial
  have hself : x.stream.self = 0 := by
    obtain ⟨P, hstream⟩ := hmade.stream
    obtain ⟨P₁, halloc⟩ := newTransactionStream_self hstream
    exact memAlloc_of_empty (by decide) halloc
  have hslot := hmade.slot
  rw [← hmalloc.1, ← hdial] at hslot
  have hx := hmade.serves
  refine ⟨w', x.stream, hrun, hself ▸ hx.stream, ?_⟩
  have hconn := hx.connStream
  rw [← hmalloc.1, hself] at hconn
  rw [hslot]
  exact ⟨rfl, rfl, rfl, hmade.tickleFd, rfl, hconn, rfl⟩

theorem createTransaction_sends_iff_512 :
    ∃ w' s, fresh.createTransaction (entryOfLen 512) dialFive = .ok w' ∧ w'.streams 0 = some s ∧
      (s.inBuf.Holds w'.pool (le 8 512 ++ read (fun _ => 97) 0 512) ↔ 512 = 512) := by
  obtain ⟨w', s, hrun, hs, -⟩ := fresh_createTransaction 512
  refine ⟨w', s, hrun, hs, ?_⟩
  have hnew : fresh.streams 0 ≠ some s := by simp [fresh, init]
  exact createTransaction_sends_iff (memModuleInit_ok _) hrun hs hnew

/-- The message of `main_loop` has 140 bytes, and is not what is sent. -/
theorem createTransaction_sends_140 :
    ∃ w' s, fresh.createTransaction (entryOfLen 140) dialFive = .ok w' ∧ w'.streams 0 = some s ∧
      ¬ s.inBuf.Holds w'.pool (le 8 140 ++ read (fun _ => 97) 0 140) := by
  obtain ⟨w', s, hrun, hs, -⟩ := fresh_createTransaction 140
  refine ⟨w', s, hrun, hs, fun h => ?_⟩
  have hsent := createTransaction_stream (memModuleInit_ok _) hrun hs (by simp [fresh, init])
  have hle := hsent.length.trans h.length.symm
  simp only [List.length_append, length_le, length_read] at hle
  omega

/-! ### A connection that cannot be made -/

/-- A transaction whose connection cannot be made is given up. -/
theorem createTransaction_given_up (hL : w.conns.Lists []) (hd : d.Ok w.conns w.kernel)
    (hconnects : ¬ d.Connects) (entry : TransferLogEntry) :
    ∃ links C K, w.createTransaction entry d = .ok { w with conns := C, kernel := K } ∧
      links.Ring .gJconnect [] ∧
      NewConnection { w.conns with links := links } w.kernel (none, C, K) := by
  obtain ⟨links, htake, hring⟩ := takeConnection_nil hL entry d
  have hd' : d.Ok { w.conns with links := links } w.kernel := ⟨hd.fresh, hd.opened⟩
  have hnone : (newConnection entry d { w.conns with links := links } w.kernel).1 = none :=
    not_not.1 fun hne => hconnects ((newConnection_fst hd' entry).1 hne)
  have hspec := newConnection_spec hd' entry
  generalize newConnection entry d { w.conns with links := links } w.kernel = r at *
  obtain ⟨conn, C, K⟩ := r
  obtain rfl : conn = none := hnone
  refine ⟨links, C, K, ?_, hring, hspec⟩
  simp only [createTransaction, htake, ok_bind, pure_eq_ok]

/-- The descriptors, the connections, the streams, the slots and the idle connections of `w'` are
those of `w`. -/
structure AsBefore (w w' : Client) : Prop where
  opened : w'.kernel.opened = w.kernel.opened
  allocated : w'.conns.allocated = w.conns.allocated
  streams : w'.streams = w.streams
  blocks : w'.pool = w.pool
  gEvents : w'.gEvents = w.gEvents
  idle : ∀ L, w.conns.Lists L → w'.conns.Lists L

/-- What a failure of `create_connect_socket` leaves: the record that was allocated for the
connection, and the descriptor if `socket` had opened one. -/
structure Leaks (d : Dialling) (w w' : Client) : Prop where
  opened : w'.kernel.opened = w.kernel.opened ∪ d.dial.fd?.toFinset
  allocated : ∃ jc ∉ w.conns.allocated, w'.conns.allocated = insert jc w.conns.allocated
  streams : w'.streams = w.streams
  blocks : w'.pool = w.pool
  gEvents : w'.gEvents = w.gEvents
  idle : w'.conns.Lists []

theorem createTransaction_failed (hL : w.conns.Lists []) (entry : TransferLogEntry)
    (hd : d.Ok w.conns w.kernel) (hmalloc : d.malloc ≠ none) (hfail : ¬ d.dial.Connects) :
    ∃ w', w.createTransaction entry d = .ok w' ∧ Leaks d w w' := by
  obtain ⟨links, htake, hring⟩ := takeConnection_nil hL entry d
  obtain ⟨malloc, dial, behind, now⟩ := d
  obtain ⟨⟨jc, raw⟩, rfl⟩ := Option.ne_none_iff_exists'.1 hmalloc
  have hjc : jc ∉ w.conns.allocated := hd.fresh jc raw rfl
  have hnew : newConnection entry ⟨some (jc, raw), dial, behind, now⟩
      { w.conns with links := links } w.kernel =
        (none, Connections.malloc jc raw { w.conns with links := links },
          dial.fd?.elim w.kernel fun fd => w.kernel.openFd fd) := by
    cases dial with
    | noSocket => rfl
    | blocking fd => rfl
    | refused fd => rfl
    | inProgress fd => exact absurd trivial hfail
    | connected fd => exact absurd trivial hfail
  rw [hnew] at htake
  refine ⟨{ w with
      conns := Connections.malloc jc raw { w.conns with links := links }
      kernel := dial.fd?.elim w.kernel fun fd => w.kernel.openFd fd },
    by simp only [createTransaction, htake, ok_bind, pure_eq_ok], ?_,
    ⟨jc, hjc, rfl⟩, rfl, rfl, rfl, ⟨hring, by simp⟩⟩
  cases dial.fd? with
  | none => simp
  | some fd =>
    show insert fd w.kernel.opened = _
    ext f
    simp

theorem Leaks.not_asBefore (h : Leaks d w w') : ¬ AsBefore w w' := by
  intro hbefore
  obtain ⟨jc, hjc, hinsert⟩ := h.allocated
  rw [hbefore.allocated] at hinsert
  exact hjc (hinsert ▸ Finset.mem_insert_self jc _)

/-- **A connection that cannot be made is not cleaned up.**  Wherever `create_connect_socket` fails,
the record that was allocated for the connection stays behind, and an opened descriptor with it. -/
theorem createTransaction_failed_leaks (hL : w.conns.Lists []) (entry : TransferLogEntry)
    (hd : d.Ok w.conns w.kernel) (hmalloc : d.malloc ≠ none) (hfail : ¬ d.dial.Connects) :
    ∃ w', w.createTransaction entry d = .ok w' ∧ Leaks d w w' ∧ ¬ AsBefore w w' := by
  obtain ⟨w', hrun, hleaks⟩ := createTransaction_failed hL entry hd hmalloc hfail
  exact ⟨w', hrun, hleaks, hleaks.not_asBefore⟩

/-- A connection on descriptor 5 that is refused at once. -/
def dialRefused : Dialling := ⟨some (0, ⟨0, false, 0, .beginConn, none⟩), .refused 5, [], 0⟩

theorem dialRefused_ok : dialRefused.Ok fresh.conns fresh.kernel where
  fresh jc raw h := by simp [Client.fresh, init, initConnectPool]
  opened fd h := by
    cases h
    refine ⟨by decide, by decide, ?_⟩
    simp [Client.fresh, init, setWakeUpPolling, Kernel.unwatched]

theorem createTransaction_failed_leaks_refused :
    ∃ w', fresh.createTransaction (entryOfLen 512) dialRefused = .ok w' ∧
      Leaks dialRefused fresh w' ∧ ¬ AsBefore fresh w' :=
  createTransaction_failed_leaks fresh_idle _ dialRefused_ok (by simp [dialRefused])
    (by simp [dialRefused, Dial.Connects])

/-- The first connection is refused: descriptor 5 stays open, and a record allocated. -/
theorem createTransaction_refused :
    ∃ w', fresh.createTransaction (entryOfLen 512) dialRefused = .ok w' ∧
      ¬ AsBefore fresh w' ∧ 5 ∈ w'.kernel.opened ∧ 5 ∉ fresh.kernel.opened := by
  obtain ⟨w', hrun, hleaks⟩ := createTransaction_failed fresh_idle (entryOfLen 512) dialRefused_ok
    (by simp [dialRefused]) (by simp [dialRefused, Dial.Connects])
  refine ⟨w', hrun, hleaks.not_asBefore, ?_, (dialRefused_ok.opened 5 rfl).2.2⟩
  rw [hleaks.opened]
  simp [dialRefused, Dial.fd?]

/-! ### The table -/

/-- **`create_transaction`**, with no idle connection, dials.  When that fails a record may be left
behind; else a slot serves the new transaction. -/
theorem createTransaction_inv (h : Inv K T w) (entry : TransferLogEntry)
    (hd : d.Ok w.conns w.kernel)
    (hfree : d.Connects → ∃ i < maxEvents, (w.gEvents i).status = 0)
    (hK : ¬ d.Connects → ∀ jc, .conn jc ∉ K) :
    ∃ w' T', w.createTransaction entry d = .ok w' ∧ Inv K T' w' := by
  by_cases hconnects : d.Connects
  · obtain ⟨i, x, w', hrun, hmade⟩ :=
      createTransaction_made h.sound.pool h.sound.conns hd hconnects (hfree hconnects) entry
    have hnone : T i = none := by
      cases hT : T i with
      | none => rfl
      | some y =>
        have hserves : slotHolds i (some y) w := hT ▸ h.table.holds i
        have hone := hserves.reg.status
        rw [hmade.free] at hone
        cases hone
    have hsound : w'.Sound :=
      ⟨hmade.pool, ⟨hmade.ring, by simp⟩, hmade.checkpos ▸ h.sound.checkpos⟩
    refine ⟨w', Function.update T i (some x), hrun, h.served
      ⟨hsound, hmade.frame, subset_rfl, hmade.serves, fun r hr _ _ => hr⟩ ?_ fun r hr => ?_⟩
    · rw [hnone]
      exact slotOwn_none_subset _
    · rw [hnone, mem_slotOwn_none]
      exact hmade.fresh r hr
  obtain ⟨links, C, K', hrun, hring, hspec⟩ :=
    createTransaction_given_up h.sound.conns hd hconnects entry
  cases hspec with
  | nothing =>
    refine ⟨_, T, hrun, ⟨h.sound.pool, ⟨hring, by simp⟩, h.sound.checkpos⟩,
      h.table.frame (R := ∅) (fun r _ => ?_) (by simp) (by simp)⟩
    cases r <;> simp [slots, Resource.Same]
  | @leaked jc _ raw hjc hkernel =>
    have hint : K'.interest = w.kernel.interest := by
      rcases hkernel with rfl | ⟨fd, -, rfl⟩ <;> rfl
    have hopened : ∀ f ∈ w.kernel.opened, f ∈ K'.opened := by
      rcases hkernel with rfl | ⟨fd, -, rfl⟩
      · exact fun f hf => hf
      · exact fun f hf => Finset.mem_insert_of_mem hf
    refine ⟨_, T, hrun, ⟨h.sound.pool, ⟨hring, by simp⟩, h.sound.checkpos⟩,
      h.table.frame (R := {r | r = .conn jc ∨ ∃ f ∉ w.kernel.opened, r = .fd f})
        (fun r hr => ?_) ?_ ?_⟩
    · cases r with
      | slot i => rfl
      | fd f =>
        have hf : f ∈ w.kernel.opened := by simpa using hr
        exact ⟨iff_of_true (hopened f hf) hf, congrFun hint f⟩
      | conn jc' =>
        have hne : jc' ≠ jc := by simpa using hr
        exact ⟨by simp [Connections.malloc, hne], Function.update_of_ne hne _ _⟩
      | block p => exact ⟨rfl, rfl⟩
    · rintro r (rfl | ⟨f, hf, rfl⟩)
      · exact hjc
      · exact hf
    · rintro r (rfl | ⟨f, hf, rfl⟩) hrK hused
      · exact hK hconnects jc hrK
      · obtain ⟨i, m, him⟩ := hused
        have hnone : K'.interest f = none := by rw [hint, Kernel.interest_eq_none hf]
        rw [hnone] at him
        cases him

end Client

end Jujube
