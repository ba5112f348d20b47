import Mathlib.Data.List.GetD
import Jujube.ClientTransfer

/-!
# What the client writes to its connections

`Traffic` is a client with the history of its connections: they are numbered as they are dialled,
each for the frame of one transaction, and `sent` is what the calls of `write` took on each.
In every run, whatever the order of the events, what was written to a connection is the beginning
of its own frame: `client_traffic`.
-/

namespace Jujube

open Bytes Pool Ownership Transition

/-- What a transaction sends: the length 512 and the bytes of its message. -/
def TransferLogEntry.frame (entry : TransferLogEntry) : List UInt8 :=
  le 8 512 ++ read entry.gatherLogmsg 0 512

theorem TransferLogEntry.length_frame (entry : TransferLogEntry) : entry.frame.length = 520 := by
  unfold frame
  rw [List.length_append, length_le, length_read]

/-- A client, the frames its connections were dialled for, what was written to each so far, and the
connection that each slot had last. -/
structure Traffic where
  client : Client
  frames : List (List UInt8)
  sent : ℕ → List UInt8
  wire : ℕ → ℕ

/-- What the calls of `write` take in the callback of slot `i`: only `data_transfer` writes. -/
def Client.emitted (i : ℕ) (e : Event) (w : Client) : List UInt8 :=
  if (w.gEvents i).callBack = some .dataTransfer then w.written i e else []

namespace Traffic

/-- `create_transaction` -/
def create (entry : TransferLogEntry) (d : Client.Dialling) (t : Traffic) :
    Except Fault Traffic := do
  let w ← t.client.createTransaction entry d
  match newSlot t.client.gEvents w.gEvents with
  | none => return { t with client := w }
  | some i => return { t with
      client := w
      frames := t.frames ++ [entry.frame]
      wire := Function.update t.wire i t.frames.length }

/-- The callback of slot `i` -/
def callBack (i : ℕ) (e : Event) (t : Traffic) : Except Fault Traffic := do
  let w ← t.client.callBack i e
  let k := t.wire i
  return { t with
    client := w
    sent := Function.update t.sent k (t.sent k ++ t.client.emitted i e) }

/-- What `epoll_wait` returned, in order. -/
def dispatch : List (EpollData × Event) → Traffic → Except Fault Traffic
  | [], t => return t
  | (.fd _, _) :: es, t => dispatch es t
  | (.ptr i, e) :: es, t => do
    let t ← t.callBack i e
    dispatch es t

/-- One thing that the main loop does. -/
def step (t : Traffic) : ClientOp → Except Fault Traffic
  | .create entry d => t.create entry d
  | .sweep now => do
    let w ← t.client.expiresHouseKeeping now t.client.tickleFd
    return { t with client := w }
  | .batch es => t.dispatch es

/-- Before the first connection. -/
def init (raw : Ptr → Memory) (opened : Finset ℤ) (rd wr : ℤ) : Traffic where
  client := Client.init raw opened rd wr
  frames := []
  sent := fun _ => []
  wire := fun _ => 0

/-- The frame of connection `k`. -/
def frame (k : ℕ) (t : Traffic) : List UInt8 := t.frames.getD k []

end Traffic

instance (d : Dial) : Decidable d.Connects := by
  cases d <;> unfold Dial.Connects <;> infer_instance

instance (d : Client.Dialling) : Decidable d.Connects := by
  unfold Client.Dialling.Connects
  infer_instance

/-- The transaction that gets a connection, if there is one. -/
def ClientOp.dialled : ClientOp → List TransferLogEntry
  | .create entry d => if d.Connects then [entry] else []
  | .sweep _ | .batch _ => []

/-- The transactions of a run that get a connection, in order. -/
def dialledEntries (ops : List ClientOp) : List TransferLogEntry := ops.flatMap ClientOp.dialled

namespace Traffic

variable {t t' : Traffic} {T : ℕ → Option Transaction} {i j k : ℕ} {x y : Transaction}
  {w w' : Client} {q : List UInt8} {e : Event} {R : Set Resource} {o : Option Transaction}

/-- What the transaction of slot `i` has left to write is the rest of the frame of its
connection. -/
structure Carrying (t : Traffic) (i : ℕ) (x : Transaction) : Prop where
  wire : t.wire i < t.frames.length
  rest : ∃ q, x.stream.Carries t.client.pool q [] [] ∧ t.sent (t.wire i) ++ q = t.frame (t.wire i)

/-- The slots that serve transactions have different connections, and what was written to any
connection is the beginning of its frame. -/
structure Inv (T : ℕ → Option Transaction) (t : Traffic) : Prop where
  table : Client.Inv Client.notRecords T t.client
  carrying : ∀ i x, T i = some x → t.Carrying i x
  distinct : ∀ i j x y, T i = some x → T j = some y → t.wire i = t.wire j → i = j
  sent : ∀ k, t.sent k <+: t.frame k

theorem init_inv (raw : Ptr → Memory) (opened : Finset ℤ) (rd wr : ℤ) :
    Inv (fun _ => none) (init raw opened rd wr) where
  table := (Client.init_inv raw opened rd wr).mono (Set.subset_univ _)
  carrying i x h := by cases h
  distinct i j x y h := by cases h
  sent k := List.nil_prefix

/-! ### One slot -/

/-- What another slot has left to write is not touched by what changes the resources `R`. -/
theorem Inv.others (h : Inv T t) (hT : T j = some y) (hji : j ≠ i)
    (hframe : Client.slots.Frame R t.client w')
    (hR : ∀ r ∈ R, r ∈ slotOwn i (T i) ∨ ¬ r.Live t.client)
    (hcarries : y.stream.Carries t.client.pool q [] []) :
    y.stream.Carries w'.pool q [] [] := by
  refine hcarries.of_live_eq fun p hp => ?_
  have hdis := h.table.table.disjoint_frame hji hR
  have hmem : Resource.block p ∈ slotOwn j (T j) := by
    rw [hT]
    exact block_mem_slotOwn_some.2 hp
  have hsame : Resource.Same (.block p) t.client w' :=
    hframe _ (Set.disjoint_left.1 hdis hmem)
  exact hsame.1

/-- The callback of a slot writes the beginning of what is left, and leaves the rest. -/
theorem callBack_emits (h : x.Serves i w) (hcarries : x.stream.Carries w.pool q [] [])
    (hP : w.pool.Ok) (e : Event) :
    ∃ w' o n, w.callBack i e = .ok w' ∧ Client.Handled Set.univ x i o w w' ∧
      w.emitted i e = q.take n ∧
      ∀ y, o = some y → y.stream.Carries w'.pool (q.drop n) [] [] := by
  unfold Client.callBack Client.emitted
  rcases h.callBack with hcb | hcb
  · rw [hcb]
    by_cases hwrite : e.writeEvent = true
    · obtain ⟨w', hrun, ⟨hw', -, -, hcarries'⟩, -⟩ := Client.connectCb_goes h hcarries hP hwrite
      refine ⟨w', some x, 0, hrun, hw', by simp, ?_⟩
      rintro _ ⟨⟩
      exact hcarries'
    · obtain ⟨w', hrel, hw'⟩ := Client.release_spec h.toAttached hP e.now
      refine ⟨w', none, 0, ?_, hw', by simp, by simp⟩
      show w.connectCb i e = _
      rw [Client.connectCb_eq h.toAttached, if_pos (by simpa using hwrite), hrel]
  · rw [hcb, if_pos rfl, Transfer.written_eq h.toAttached hcarries hP]
    by_cases he : e.LeavesOpen q.length
    · obtain ⟨w', y, hrun, ⟨hw', -, -, hcarries'⟩, -⟩ := Client.dataTransfer_goes h hcarries hP he
      refine ⟨w', some y, _, hrun, hw', if_pos he.2.1, ?_⟩
      rintro _ ⟨⟩
      exact hcarries'
    · obtain ⟨w', hrun, hw'⟩ := Client.dataTransfer_ends h hcarries hP he
      refine ⟨w', none, if e.writeEvent then writeTaken q.length e.writes else 0, hrun, hw', ?_,
        by simp⟩
      split_ifs <;> simp

/-- One callback: the slot goes on with the rest of its frame, or is given up. -/
theorem callBack_inv (h : Inv T t) (hT : T i = some x) (e : Event) :
    ∃ t' T', t.callBack i e = .ok t' ∧ t.client.callBack i e = .ok t'.client ∧ Inv T' t' ∧
      t'.frames = t.frames ∧
      ∀ fd ≠ x.stream.serverSock, t'.client.kernel.interest fd = t.client.kernel.interest fd := by
  have hx := h.table.serves hT
  obtain ⟨hwire, q, hcarries, hsplit⟩ := h.carrying i x hT
  obtain ⟨w', o, n, hrun, hw', hemitted, hrest⟩ := callBack_emits hx hcarries h.table.sound.pool e
  obtain ⟨t', ht'⟩ : ∃ t' : Traffic, t' = { t with
      client := w'
      sent := Function.update t.sent (t.wire i) (t.sent (t.wire i) ++ q.take n) } := ⟨_, rfl⟩
  have hown : ∀ r ∈ slotOwn i (some x), r ∈ slotOwn i (T i) ∨ ¬ r.Live t.client := by
    rw [hT]
    exact fun r hr => .inl hr
  have hsent : t'.sent (t.wire i) ++ q.drop n = t.frame (t.wire i) := by
    rw [ht']
    simp only [Function.update_self, List.append_assoc, List.take_append_drop]
    exact hsplit
  have hother : ∀ k ≠ t.wire i, t'.sent k = t.sent k := by
    intro k hk
    rw [ht']
    exact Function.update_of_ne hk _ _
  have hframe : ∀ k, t'.frame k = t.frame k := by
    intro k
    rw [ht']
    rfl
  refine ⟨t', Function.update T i o, ?_, by rw [hrun, ht'], ⟨?_, fun j y hj => ?_,
    fun j l y z hj hl heq => ?_, fun k => ?_⟩, by rw [ht'], fun fd hfd => ?_⟩
  · unfold callBack
    rw [hrun, ok_bind, pure_eq_ok, hemitted, ht']
  · rw [ht']
    exact h.table.served ((hw'.mono (Set.subset_univ _)).served h.table.sound) (hT ▸ subset_rfl)
      hown
  · have hlen : t'.frames.length = t.frames.length := by rw [ht']
    have hwires : t'.wire = t.wire := by rw [ht']
    have hclient : t'.client = w' := by rw [ht']
    by_cases hji : j = i
    · subst hji
      rw [Function.update_self] at hj
      refine ⟨hwires ▸ hlen ▸ hwire, q.drop n, hclient ▸ hrest y hj, ?_⟩
      rw [hwires, hframe]
      exact hsent
    · rw [Function.update_of_ne hji] at hj
      obtain ⟨hwire', q', hcarries', hsplit'⟩ := h.carrying j y hj
      refine ⟨hwires ▸ hlen ▸ hwire', q', ?_, ?_⟩
      · rw [hclient]
        exact h.others hj hji hw'.frame hown hcarries'
      · rw [hwires, hframe, hother _ fun heq => hji (h.distinct j i y x hj hT heq)]
        exact hsplit'
  · have hback : ∀ m z, Function.update T i o m = some z → ∃ z', T m = some z' := by
      intro m z hm
      by_cases hmi : m = i
      · exact ⟨x, hmi ▸ hT⟩
      · rw [Function.update_of_ne hmi] at hm
        exact ⟨z, hm⟩
    obtain ⟨y', hj'⟩ := hback j y hj
    obtain ⟨z', hl'⟩ := hback l z hl
    rw [ht'] at heq
    exact h.distinct j l y' z' hj' hl' heq
  · rw [hframe]
    by_cases hk : k = t.wire i
    · rw [hk]
      exact ⟨_, hsent⟩
    · rw [hother k hk]
      exact h.sent k
  · rw [ht']
    have hsame : Resource.Same (.fd fd) t.client w' := hw'.frame (.fd fd) (by simpa using hfd)
    exact hsame.2

/-- A batch of events, in any order. -/
theorem dispatch_inv {es : List (EpollData × Event)} (h : Inv T t) (hes : t.client.Reported es) :
    ∃ t' T', t.dispatch es = .ok t' ∧ t.client.dispatch es = .ok t'.client ∧ Inv T' t' ∧
      t'.frames = t.frames := by
  obtain ⟨fds, hnodup, hreported⟩ := hes
  induction es generalizing t T fds with
  | nil => exact ⟨t, T, rfl, rfl, h, rfl⟩
  | cons y es ih =>
    cases hreported with
    | @cons fd _ fds _ hy hrest =>
      obtain ⟨hnotin, hnodup'⟩ := List.nodup_cons.1 hnodup
      obtain ⟨data, e⟩ := y
      cases data with
      | fd f => exact ih h fds hnodup' hrest
      | ptr i =>
        obtain ⟨m, hint⟩ := hy
        obtain ⟨x, hT, hsock⟩ := h.table.of_interest (Client.fd_mem_notRecords fd) hint
        obtain ⟨t₁, T₁, hrun, hclient, h₁, hframes, hkeep⟩ := callBack_inv h hT e
        rw [hsock] at hkeep
        obtain ⟨t', T', hrun', hclient', h', hframes'⟩ :=
          ih h₁ fds hnodup' (Client.reported_of_frame hkeep hnotin hrest)
        refine ⟨t', T', ?_, ?_, h', hframes'.trans hframes⟩
        · rw [dispatch, hrun, ok_bind, hrun']
        · rw [Client.dispatch, hclient, ok_bind, hclient']

/-- A sweep: the slots that are not due are left alone, with what they have left to write. -/
theorem sweep_inv (h : Inv T t) (now : ℤ) :
    ∃ t' T', t.step (.sweep now) = .ok t' ∧ t.client.step (.sweep now) = .ok t'.client ∧
      Inv T' t' ∧ t'.frames = t.frames := by
  have hsep := h.table.separate
  have hc := h.table.sound.checkpos
  obtain ⟨w', T', hrun, h', -, hT', hdue⟩ := Client.expiresHouseKeeping_inv h.table
    Client.conn_notMem_notRecords now t.client.tickleFd
  obtain ⟨v, hrun', -, hswept⟩ :=
    Client.expiresHouseKeeping_exact hsep hc now t.client.tickleFd
  obtain rfl : w' = v := Except.ok.inj (hrun.symm.trans hrun')
  have hkept : ∀ j y, T' j = some y → T j = some y := by
    intro j y hj
    rcases hT' j with heq | hnone
    · rw [← heq, hj]
    · rw [hnone] at hj
      cases hj
  refine ⟨{ t with client := w' }, T', ?_, hrun, ⟨h', fun j y hj => ?_,
    fun j l y z hj hl heq => h.distinct j l y z (hkept j y hj) (hkept l z hl) heq, h.sent⟩, rfl⟩
  · simp only [step, hrun, ok_bind, pure_eq_ok]
  · obtain ⟨hwire, q, hcarries, hsplit⟩ := h.carrying j y (hkept j y hj)
    refine ⟨hwire, q, hcarries.of_live_eq fun p hp => hswept.live p fun i hi s hs hps => ?_, hsplit⟩
    -- a slot that is due loses its transaction, so it is not this one
    obtain ⟨hi, hid⟩ := Finset.mem_filter.1 hi
    have hy := h.table.serves (hkept j y hj)
    have hij : i ≠ j := by
      rintro rfl
      rw [hdue i (Finset.mem_range.1 hi) hid] at hj
      cases hj
    have hdis := hsep.streams i (Finset.mem_range.1 hi) j hy.slot hij hid.1 hy.reg.status s hs
      y.stream (Client.slotStream_of_attached hy.toAttached)
    exact hdis hps hp

/-! ### New connections -/

/-- A stream that `create_transaction` makes has the whole frame to write. -/
theorem made_carries {entry : TransferLogEntry} {d : Client.Dialling} (hP : w.pool.Ok)
    (hL : w.conns.Lists []) (hd : d.Ok w.conns w.kernel) (hconnects : d.Connects)
    (hrun : w.createTransaction entry d = .ok w') (hmade : Client.Made entry d x i w w') :
    x.stream.Carries w'.pool entry.frame [] [] := by
  obtain ⟨links, jc, c, htake, -, -, -, -, -, -, hdial, -⟩ :=
    Client.takeConnection_made hL hd hconnects entry
  have hfd : c.fd = x.stream.serverSock := Option.some.inj (hdial.symm.trans hmade.dial)
  obtain ⟨P, hstream⟩ := hmade.stream
  rw [← hfd] at hstream
  obtain ⟨s, P', hstream', -, hcarries, -⟩ := newTransactionStream_spec hP c.fd (le 8 512)
    (read entry.gatherLogmsg 0 512) (by simp [cfgHttpBufSize])
    (by simp [cfgHttpBufSize, maxExtMemBlock])
  cases hstream.symm.trans hstream'
  have hget : Connections.get jc (Connections.malloc jc c { w.conns with links := links }) =
      .ok c := by
    rw [Connections.get_of_mem (Finset.mem_insert_self _ _)]
    exact congrArg _ (Function.update_self _ _ _)
  simp only [Client.createTransaction, htake, ok_bind, hget, hstream] at hrun
  rw [(Client.attachStreamToConnect_frame hrun).1]
  exact hcarries

/-- A slot that was not touched serves what it did. -/
theorem serves_eq (hx : x.Serves i w) (hy : y.Serves i w') (hev : w'.gEvents i = w.gEvents i)
    (hstreams : w'.streams = w.streams)
    (hconn : w'.conns.jconnects x.jc = w.conns.jconnects x.jc) : y = x := by
  have hjc : y.jc = x.jc := by
    have := hy.jc
    rw [hev, hx.jc, Option.some.injEq] at this
    exact this.symm
  have hself : y.stream.self = x.stream.self := by
    have := hy.connStream
    rw [hjc, hconn, hx.connStream, Option.some.injEq] at this
    exact this.symm
  have hstream : y.stream = x.stream := by
    have := hy.stream
    rw [hself, hstreams, hx.stream, Option.some.injEq] at this
    exact this.symm
  calc y = ⟨y.jc, y.stream⟩ := rfl
    _ = x := by rw [hjc, hstream]

/-- What is known of the frames when one more connection was dialled. -/
theorem Inv.sent_eq_nil (h : Inv T t) (hk : t.frames.length ≤ k) : t.sent k = [] := by
  have hprefix := h.sent k
  unfold frame at hprefix
  rwa [List.getD_eq_default _ _ hk, List.prefix_nil] at hprefix

/-- A connection that was dialled is one more connection. -/
theorem Inv.dialled {entry : TransferLogEntry} {d : Client.Dialling} (h : Inv T t)
    (hmade : Client.Made entry d x i t.client w')
    (hcarries : x.stream.Carries w'.pool entry.frame [] [])
    (ht' : t' = { t with
      client := w'
      frames := t.frames ++ [entry.frame]
      wire := Function.update t.wire i t.frames.length }) :
    Inv (Function.update T i (some x)) t' := by
  have hnone : T i = none := by
    by_contra hne
    obtain ⟨y, hT⟩ := Option.ne_none_iff_exists'.1 hne
    have hone := (h.table.serves hT).reg.status
    rw [hmade.free] at hone
    cases hone
  have hR : ∀ r ∈ slotOwn i (some x), r ∈ slotOwn i (T i) ∨ ¬ r.Live t.client := by
    rw [hnone]
    intro r hr
    rw [mem_slotOwn_none]
    exact hmade.fresh r hr
  have hlen : t'.frames.length = t.frames.length + 1 := by rw [ht', List.length_append]; rfl
  have hclient : t'.client = w' := by rw [ht']
  have hsent : t'.sent = t.sent := by rw [ht']
  have hold : ∀ k < t.frames.length, t'.frame k = t.frame k := by
    intro k hk
    rw [ht']
    exact List.getD_append _ _ _ _ hk
  have hlast : t'.frame t.frames.length = entry.frame := by
    rw [ht']
    unfold frame
    rw [List.getD_append_right _ _ _ _ le_rfl, Nat.sub_self]
    rfl
  have hwire : t'.wire i = t.frames.length := by
    rw [ht']
    exact Function.update_self _ _ _
  have hwires : ∀ j ≠ i, t'.wire j = t.wire j := by
    intro j hj
    rw [ht']
    exact Function.update_of_ne hj _ _
  have hback : ∀ j ≠ i, Function.update T i (some x) j = T j := fun j hj =>
    Function.update_of_ne hj _ _
  refine ⟨?_, fun j y hj => ?_, fun j l y z hj hl heq => ?_, fun k => ?_⟩
  · rw [hclient]
    refine h.table.served ⟨⟨hmade.pool, ⟨hmade.ring, by simp⟩,
      hmade.checkpos ▸ h.table.sound.checkpos⟩, hmade.frame, subset_rfl, hmade.serves,
        fun r hr _ _ => hr⟩ ?_ hR
    rw [hnone]
    exact slotOwn_none_subset _
  · by_cases hji : j = i
    · subst hji
      rw [Function.update_self] at hj
      cases hj
      refine ⟨by omega, entry.frame, hclient ▸ hcarries, ?_⟩
      rw [hwire, hsent, h.sent_eq_nil le_rfl, hlast, List.nil_append]
    · rw [hback j hji] at hj
      obtain ⟨hlt, q, hq, hsplit⟩ := h.carrying j y hj
      refine ⟨by rw [hwires j hji]; omega, q, ?_, ?_⟩
      · rw [hclient]
        exact h.others hj hji hmade.frame hR hq
      · rw [hwires j hji, hold _ hlt, hsent]
        exact hsplit
  · -- the new connection has the greatest number
    by_cases hji : j = i
    · by_cases hli : l = i
      · rw [hji, hli]
      · rw [hback l hli] at hl
        have hlt := (h.carrying l z hl).wire
        rw [hji, hwire, hwires l hli] at heq
        omega
    · rw [hback j hji] at hj
      by_cases hli : l = i
      · have hlt := (h.carrying j y hj).wire
        rw [hli, hwire, hwires j hji] at heq
        omega
      · rw [hback l hli] at hl
        rw [hwires j hji, hwires l hli] at heq
        exact h.distinct j l y z hj hl heq
  · rw [hsent]
    by_cases hk : k < t.frames.length
    · rw [hold k hk]
      exact h.sent k
    · rw [h.sent_eq_nil (not_lt.1 hk)]
      exact List.nil_prefix

/-- A connection that cannot be made is none. -/
theorem Inv.given_up {d : Client.Dialling} (h : Inv T t)
    (hd : d.Ok t.client.conns t.client.kernel) (hconnects : ¬ d.Connects)
    (entry : TransferLogEntry) :
    ∃ w' T', t.create entry d = .ok { t with client := w' } ∧
      t.client.createTransaction entry d = .ok w' ∧ Inv T' { t with client := w' } := by
  obtain ⟨links, C, K, hrun, -, hspec⟩ :=
    Client.createTransaction_given_up h.table.sound.conns hd hconnects entry
  obtain ⟨w', T', hrun', h'⟩ := Client.createTransaction_inv h.table entry hd
    (fun hc => absurd hc hconnects) fun _ => Client.conn_notMem_notRecords
  obtain rfl := Except.ok.inj (hrun.symm.trans hrun')
  have hsame : ∀ j y, T' j = some y → T j = some y := by
    intro j y hj
    have hy := h'.serves hj
    obtain ⟨x, hT⟩ := h.table.status_iff.1 hy.reg.status
    have hx := h.table.serves hT
    have hconn : C.jconnects x.jc = t.client.conns.jconnects x.jc := by
      cases hspec with
      | nothing => rfl
      | leaked raw hjc =>
        refine Function.update_of_ne ?_ _ _
        rintro rfl
        exact hjc hx.allocated
    rw [hT, serves_eq hx hy rfl rfl hconn]
  refine ⟨_, T', ?_, hrun, h', fun j y hj => ?_,
    fun j l y z hj hl => h.distinct j l y z (hsame j y hj) (hsame l z hl), h.sent⟩
  · simp only [create, hrun, ok_bind, newSlot_self, pure_eq_ok]
  · obtain ⟨hwire, hrest⟩ := h.carrying j y (hsame j y hj)
    exact ⟨hwire, hrest⟩

/-- **`create_transaction`**: a connection that is made is a new one, for the frame of the
transaction. -/
theorem create_inv {d : Client.Dialling} (h : Inv T t)
    (hd : d.Ok t.client.conns t.client.kernel)
    (hfree : d.Connects → ∃ i < maxEvents, (t.client.gEvents i).status = 0)
    (entry : TransferLogEntry) :
    ∃ t' T', t.create entry d = .ok t' ∧ t.client.createTransaction entry d = .ok t'.client ∧
      Inv T' t' ∧ t'.frames = t.frames ++ if d.Connects then [entry.frame] else [] := by
  by_cases hconnects : d.Connects
  · obtain ⟨i, x, w', hrun, hmade⟩ := Client.createTransaction_made h.table.sound.pool
      h.table.sound.conns hd hconnects (hfree hconnects) entry
    have hcarries := made_carries h.table.sound.pool h.table.sound.conns hd hconnects hrun hmade
    have hnew : newSlot t.client.gEvents w'.gEvents = some i :=
      newSlot_eq_some hmade.serves.slot hmade.free hmade.serves.reg.status fun j hj =>
        hmade.frame (.slot j) (by simpa using hj)
    refine ⟨_, _, ?_, hrun, h.dialled hmade hcarries rfl, by rw [if_pos hconnects]⟩
    simp only [create, hrun, ok_bind, hnew, pure_eq_ok]
  · obtain ⟨w', T', hcreate, hrun, h'⟩ := h.given_up hd hconnects entry
    exact ⟨_, T', hcreate, hrun, h', by rw [if_neg hconnects, List.append_nil]⟩

/-! ### Runs -/

/-- **One step** of the client is a step of its traffic. -/
theorem step_inv {op : ClientOp} (h : Inv T t) (hop : t.client.Allowed op) :
    ∃ t' T', t.step op = .ok t' ∧ t.client.step op = .ok t'.client ∧ Inv T' t' ∧
      t'.frames = t.frames ++ op.dialled.map TransferLogEntry.frame := by
  cases op with
  | create entry d =>
    obtain ⟨t', T', hrun, hclient, h', hframes⟩ := create_inv h hop.1 hop.2 entry
    refine ⟨t', T', hrun, hclient, h', hframes.trans ?_⟩
    simp only [ClientOp.dialled]
    split_ifs <;> rfl
  | sweep now =>
    obtain ⟨t', T', hrun, hclient, h', hframes⟩ := sweep_inv h now
    exact ⟨t', T', hrun, hclient, h', by rw [hframes]; exact (List.append_nil _).symm⟩
  | batch es =>
    obtain ⟨t', T', hrun, hclient, h', hframes⟩ := dispatch_inv h hop
    exact ⟨t', T', hrun, hclient, h', by rw [hframes]; exact (List.append_nil _).symm⟩

variable {ops : List ClientOp}

theorem run_inv (h : Inv T t) (hops : Steps Client.step Client.Allowed t.client ops) :
    ∃ t' T', run step t ops = .ok t' ∧ run Client.step t.client ops = .ok t'.client ∧ Inv T' t' ∧
      t'.frames = t.frames ++ (dialledEntries ops).map TransferLogEntry.frame := by
  induction ops generalizing t T with
  | nil => exact ⟨t, T, rfl, rfl, h, (List.append_nil _).symm⟩
  | cons op ops ih =>
    obtain ⟨t₁, T₁, hrun, hclient, h₁, hframes₁⟩ := step_inv h hops.1
    obtain ⟨t', T', hrun', hclient', h', hframes'⟩ := ih h₁ (hops.2 _ hclient)
    refine ⟨t', T', (run_cons_ok hrun ops).trans hrun', (run_cons_ok hclient ops).trans hclient',
      h', ?_⟩
    rw [hframes', hframes₁, List.append_assoc, ← List.map_append]
    rfl

variable {raw : Ptr → Memory} {opened : Finset ℤ} {rd wr : ℤ}

/-- **The frames are not mixed.**  In every run, in whatever order transactions are created, idle
slots are swept and events are reported, each transaction that gets a connection gets one of its
own, and what was written to a connection is the beginning of the frame of its transaction; of a
transaction under way the rest is still there. -/
theorem client_traffic
    (hops : Steps Client.step Client.Allowed (Client.init raw opened rd wr) ops) :
    ∃ t, run step (init raw opened rd wr) ops = .ok t ∧
      run Client.step (Client.init raw opened rd wr) ops = .ok t.client ∧
      t.frames = (dialledEntries ops).map TransferLogEntry.frame ∧
      (∀ k, t.sent k <+: t.frame k) ∧
      (∀ i, (t.client.gEvents i).status = 1 → ∃ (x : Transaction) (q : List UInt8),
        x.Serves i t.client ∧ x.stream.Carries t.client.pool q [] [] ∧
          t.wire i < t.frames.length ∧ t.sent (t.wire i) ++ q = t.frame (t.wire i)) ∧
      ∀ i j, (t.client.gEvents i).status = 1 → (t.client.gEvents j).status = 1 →
        t.wire i = t.wire j → i = j := by
  obtain ⟨t, T, hrun, hclient, h, hframes⟩ :=
    run_inv (t := init raw opened rd wr) (init_inv raw opened rd wr) hops
  refine ⟨t, hrun, hclient, hframes, h.sent, fun i hi => ?_, fun i j hi hj => ?_⟩
  · obtain ⟨x, hT⟩ := h.table.status_iff.1 hi
    obtain ⟨hwire, q, hcarries, hsplit⟩ := h.carrying i x hT
    exact ⟨x, q, h.table.serves hT, hcarries, hwire, hsplit⟩
  · obtain ⟨x, hTi⟩ := h.table.status_iff.1 hi
    obtain ⟨y, hTj⟩ := h.table.status_iff.1 hj
    exact h.distinct i j x y hTi hTj

/-- The first 100 bytes of the one frame were written. -/
theorem client_traffic_partlyWritten :
    ∃ t, run step (init (fun _ _ => 0) ∅ 3 4) Client.partlyWritten = .ok t ∧
      t.frames = [(Client.entryOfLen 512).frame] ∧ (t.client.gEvents 0).status = 1 ∧ t.wire 0 = 0 ∧
      (t.sent 0).length = 100 ∧ t.sent 0 <+: (Client.entryOfLen 512).frame := by
  obtain ⟨w, x, q, hsteps, hrun, hx, hcarries, hlen⟩ := Client.partlyWritten_run
  obtain ⟨t, htraffic, hclient, hframes, -, hserving, -⟩ := client_traffic hsteps
  obtain rfl : w = t.client := Except.ok.inj (hrun.symm.trans hclient)
  have hone : t.frames = [(Client.entryOfLen 512).frame] := hframes
  have hframe : t.frame 0 = (Client.entryOfLen 512).frame := by
    unfold frame
    rw [hone]
    rfl
  obtain ⟨y, q', hy, hcarries', hwire, hsplit⟩ := hserving 0 hx.reg.status
  obtain rfl : y = x := serves_eq hx hy rfl rfl rfl
  have hzero : t.wire 0 = 0 := by
    rw [hone, List.length_singleton] at hwire
    omega
  rw [hzero, hframe] at hsplit
  refine ⟨t, htraffic, hone, hx.reg.status, hzero, ?_, ⟨q', hsplit⟩⟩
  have hq' : q'.length = 420 := by
    rw [hcarries'.inBuf.length, ← hcarries.inBuf.length, hlen]
  have hsum := congrArg List.length hsplit
  rw [List.length_append, TransferLogEntry.length_frame] at hsum
  omega

end Traffic

end Jujube
