import Mathlib.Data.List.TakeWhile
import Jujube.Client
import Jujube.ConnectionList
import Jujube.Foundation.Transition

/-!
# Runs of the connection pool

The callers of `connection.c`: `create_transaction` takes a connection from the pool or makes a new
one, its user marks it alive or dead and releases it, and `keepalive_cb` gives up an idle one.
`PoolSession` adds to the pool what the callers know, the connections in use.

`current_total` is meant to be the number of idle connections.  `connectPool_counts_iff` is the
exact condition on a run under which it is.
-/

namespace Jujube

open Transition Connections

/-- The pool, the descriptors, and the connections in use, the latest first. -/
structure PoolSession where
  conns : Connections
  kernel : Kernel
  inUse : List Ptr

/-- A call of the pool by its users. -/
inductive PoolOp
  | get
  | create (entry : TransferLogEntry) (d : Client.Dialling)
  | mark (jc : Ptr) (isAlive : Bool)
  | release (jc : Ptr)
  | releaseKeepalive (jc : Ptr)

namespace PoolSession

/-- After `init_connect_pool`. -/
def init (K : Kernel) : PoolSession := ⟨initConnectPool, K, []⟩

/-- One call. -/
def step (s : PoolSession) : PoolOp → Except Fault PoolSession
  | .get => do
    let (conn, C, K) ← getConnection s.conns s.kernel
    return ⟨C, K, conn.toList ++ s.inUse⟩
  | .create entry d =>
    let (conn, C, K) := Client.newConnection entry d s.conns s.kernel
    return ⟨C, K, conn.toList ++ s.inUse⟩
  | .mark jc isAlive => do
    let c ← s.conns.get jc
    let C ← s.conns.set jc { c with isAlive := isAlive }
    return ⟨C, s.kernel, s.inUse⟩
  | .release jc => do
    let (C, K) ← releaseConnection jc s.conns s.kernel
    return ⟨C, K, s.inUse.erase jc⟩
  | .releaseKeepalive jc => do
    let (C, K) ← releaseKeepaliveConnection jc s.conns s.kernel
    return ⟨C, K, s.inUse⟩

/-- What the users may do: release what they use, give up what is idle, and mark what there is. -/
def Allowed (s : PoolSession) : PoolOp → Prop
  | .get => True
  | .create _ d => d.Ok s.conns s.kernel
  | .mark jc _ => jc ∈ s.conns.allocated
  | .release jc => jc ∈ s.inUse
  | .releaseKeepalive jc => ∃ L, s.conns.Lists L ∧ jc ∈ L

/-- `current_total` is what `get_connection_statiscs` prints, and it never was decremented at 0. -/
def Counts (s : PoolSession) : Prop :=
  getConnectionStatiscs s.conns = .ok (s.conns.connectPool.currentTotal.toNat : ℤ) ∧
    s.conns.connectPool.underflows = 0

/-- No live connection is taken from the pool, and no dead one is released. -/
def Counted (s : PoolSession) : PoolOp → Prop
  | .get => ∀ L, s.conns.Lists L → ∀ p ∈ L, (s.conns.jconnects p).isAlive = false
  | .release jc => (s.conns.jconnects jc).isAlive = true
  | .create .. | .mark .. | .releaseKeepalive _ => True

/-- The descriptor of a connection. -/
def fdOf (s : PoolSession) (p : Ptr) : ℤ := (s.conns.jconnects p).fd

/-- The idle connections are `L`; they and those in use are allocated, and have descriptors of
their own. -/
structure Inv (s : PoolSession) (L : List Ptr) : Prop where
  lists : s.conns.Lists L
  used : ∀ p ∈ s.inUse, p ∈ s.conns.allocated
  fds : ((s.inUse ++ L).map s.fdOf).Nodup
  range : ∀ p ∈ s.inUse ++ L, 0 ≤ s.fdOf p ∧ s.fdOf p < 2 ^ 31
  opened : ∀ p ∈ s.inUse ++ L, s.fdOf p ∈ s.kernel.opened

variable {s s' : PoolSession} {L R : List Ptr} {jc p : Ptr}

theorem init_inv (K : Kernel) : (init K).Inv [] where
  lists := ⟨initListHead_ring _ _, by simp⟩
  used p hp := by simp [init] at hp
  fds := by simp [init]
  range p hp := by simp [init] at hp
  opened p hp := by simp [init] at hp

theorem Inv.allocated (h : s.Inv L) (hp : p ∈ s.inUse ++ L) : p ∈ s.conns.allocated := by
  rcases List.mem_append.1 hp with hp | hp
  · exact h.used p hp
  · exact h.lists.allocated p hp

theorem Inv.nodup (h : s.Inv L) : (s.inUse ++ L).Nodup := List.Nodup.of_map _ h.fds

/-- There are fewer idle connections than the counter can count. -/
theorem Inv.length_le (h : s.Inv L) : L.length ≤ 2 ^ 31 := by
  have hnd : (L.map s.fdOf).Nodup :=
    h.fds.sublist ((List.sublist_append_right s.inUse L).map s.fdOf)
  have hsub : (L.map s.fdOf).toFinset ⊆ Finset.Ico (0 : ℤ) (2 ^ 31) := by
    intro fd hfd
    obtain ⟨p, hp, rfl⟩ := List.mem_map.1 (List.mem_toFinset.1 hfd)
    exact Finset.mem_Ico.2 (h.range p (List.mem_append_right _ hp))
  have hcard := Finset.card_le_card hsub
  rw [List.toFinset_card_of_nodup hnd, List.length_map, Int.card_Ico] at hcard
  exact hcard

/-- The counter against the list. -/
theorem Inv.counts_iff (h : s.Inv L) : s.Counts ↔
    s.conns.connectPool.currentTotal.toNat = L.length ∧ s.conns.connectPool.underflows = 0 := by
  unfold Counts
  rw [getConnectionStatiscs_spec h.lists, Except.ok.injEq, Nat.cast_inj, eq_comm]

/-- The connections after some of them moved and others were given up: those that are left are
among those from before, with the same descriptors, and these are still open. -/
theorem Inv.of_subperm (h : s.Inv L) (hlists : s'.conns.Lists R)
    (hsub : List.Subperm (s'.inUse ++ R) (s.inUse ++ L))
    (hused : ∀ p ∈ s'.inUse, p ∈ s'.conns.allocated)
    (hfd : ∀ p ∈ s'.inUse ++ R, s'.fdOf p = s.fdOf p)
    (hopen : ∀ p ∈ s'.inUse ++ R, s.fdOf p ∈ s'.kernel.opened) : s'.Inv R := by
  have hmap : (s'.inUse ++ R).map s'.fdOf = (s'.inUse ++ R).map s.fdOf :=
    List.map_congr_left hfd
  refine ⟨hlists, hused, ?_, fun p hp => ?_, fun p hp => ?_⟩
  · rw [hmap]
    obtain ⟨l, hl, hls⟩ := hsub
    exact (hl.map s.fdOf).nodup_iff.1 (h.fds.sublist (hls.map s.fdOf))
  · rw [hfd p hp]
    exact h.range p (hsub.subset hp)
  · rw [hfd p hp]
    exact hopen p hp

/-- Closing one descriptor leaves those of the other connections open. -/
theorem Inv.mem_close (h : s.Inv L) (hjc : jc ∈ s.inUse ++ L) (hp : p ∈ s.inUse ++ L)
    (hne : p ≠ jc) : s.fdOf p ∈ (s.kernel.close (s.fdOf jc)).opened := by
  refine Finset.mem_erase.2 ⟨fun heq => hne ?_, h.opened p hp⟩
  exact List.inj_on_of_nodup_map h.fds hp hjc heq

/-- Closing the descriptors of some connections leaves the others open. -/
theorem mem_closeAll {l : List Ptr} {K : Kernel} {fd : ℤ} (hfd : fd ∈ K.opened)
    (hne : ∀ q ∈ l, s.fdOf q ≠ fd) :
    fd ∈ (l.foldl (fun K q => K.close (s.conns.jconnects q).fd) K).opened := by
  induction l generalizing K with
  | nil => exact hfd
  | cons q l ih =>
    refine ih (Finset.mem_erase.2 ⟨?_, hfd⟩) fun r hr => hne r (by simp [hr])
    exact (hne q (by simp)).symm

/-- `get_connection` -/
theorem step_get (h : s.Inv L) :
    ∃ s', s.step .get = .ok s' ∧ s'.Inv (L.dropWhile s.conns.dead).tail ∧
      s'.conns.connectPool =
        ConnectPool.dec^[(L.takeWhile s.conns.dead).length] s.conns.connectPool := by
  obtain ⟨links, hrun, hring, -⟩ := getConnection_spec h.lists s.kernel
  set D := L.takeWhile s.conns.dead with hD
  set T := L.dropWhile s.conns.dead with hT
  have hL : L = D ++ T := (List.takeWhile_append_dropWhile).symm
  have hsplit : T.head?.toList ++ T.tail = T := by cases T <;> rfl
  have hnd : (s.inUse ++ (D ++ T)).Nodup := hL ▸ h.nodup
  -- what is left was not among the dead
  have hperm : ((T.head?.toList ++ s.inUse) ++ T.tail).Perm (s.inUse ++ T) := by
    rw [List.append_assoc]
    refine (List.perm_append_comm_assoc _ _ _).trans ?_
    rw [hsplit]
  have hmem : ∀ p ∈ (T.head?.toList ++ s.inUse) ++ T.tail, p ∈ s.inUse ++ L ∧ p ∉ D := by
    intro p hp
    have hp' : p ∈ s.inUse ++ T := hperm.mem_iff.1 hp
    rw [List.nodup_append, List.nodup_append] at hnd
    refine ⟨?_, fun hpD => ?_⟩
    · rw [hL]
      simp only [List.mem_append] at hp' ⊢
      tauto
    · rcases List.mem_append.1 hp' with hu | ht
      · exact hnd.2.2 p hu p (List.mem_append_left _ hpD) rfl
      · exact hnd.2.1.2.2 p hpD p ht rfl
  let C : Connections := { s.conns with
    links := links
    allocated := s.conns.allocated.filter (· ∉ D)
    connectPool := ConnectPool.dec^[D.length] s.conns.connectPool }
  let K := D.foldl (fun K p => K.close (s.conns.jconnects p).fd) s.kernel
  have halloc : ∀ p ∈ (T.head?.toList ++ s.inUse) ++ T.tail, p ∈ C.allocated := by
    intro p hp
    exact Finset.mem_filter.2 ⟨h.allocated (hmem p hp).1, (hmem p hp).2⟩
  have hsub : List.Subperm ((T.head?.toList ++ s.inUse) ++ T.tail) (s.inUse ++ L) := by
    refine hperm.subperm.trans ?_
    rw [hL]
    exact ((List.sublist_append_right D T).append_left s.inUse).subperm
  refine ⟨⟨C, K, T.head?.toList ++ s.inUse⟩, by simp only [step, hrun, ok_bind, pure_eq_ok, C, K],
    h.of_subperm ⟨hring, fun p hp => halloc p (List.mem_append_right _ hp)⟩ hsub
      (fun p hp => halloc p (List.mem_append_left _ hp)) (fun p hp => rfl) fun p hp => ?_, rfl⟩
  apply mem_closeAll (h.opened p (hmem p hp).1)
  intro q hq heq
  have hqL : q ∈ s.inUse ++ L := by
    rw [hL]
    simp [hq]
  have hqp : q = p := List.inj_on_of_nodup_map h.fds hqL (hmem p hp).1 heq
  exact (hmem p hp).2 (hqp ▸ hq)

/-- A record and some descriptors more, which nothing uses. -/
theorem Inv.of_malloc (h : s.Inv L) {K : Kernel} (raw : Jconnect) (hjc : jc ∉ s.conns.allocated)
    (hK : s.kernel.opened ⊆ K.opened) : Inv ⟨s.conns.malloc jc raw, K, s.inUse⟩ L := by
  have hne : ∀ p ∈ s.inUse ++ L, p ≠ jc := fun p hp hpj => hjc (hpj ▸ h.allocated hp)
  exact h.of_subperm
    ⟨h.lists.ring, fun p hp => Finset.mem_insert_of_mem (h.lists.allocated p hp)⟩
    (List.Subperm.refl _) (fun p hp => Finset.mem_insert_of_mem (h.used p hp))
    (fun p hp => congrArg Jconnect.fd (Function.update_of_ne (hne p hp) _ _))
    fun p hp => hK (h.opened p hp)

/-- A new connection in use. -/
theorem Inv.of_made (h : s.Inv L) {c : Jconnect} (hjc : jc ∉ s.conns.allocated)
    (hfd : 0 ≤ c.fd ∧ c.fd < 2 ^ 31) (hnew : c.fd ∉ s.kernel.opened) :
    Inv ⟨s.conns.malloc jc c, s.kernel.openFd c.fd, jc :: s.inUse⟩ L := by
  have hold := h.of_malloc (K := s.kernel.openFd c.fd) c hjc (Finset.subset_insert _ _)
  set t : PoolSession := ⟨s.conns.malloc jc c, s.kernel.openFd c.fd, jc :: s.inUse⟩
  have hself : t.fdOf jc = c.fd := congrArg Jconnect.fd (Function.update_self _ _ _)
  have hsame : ∀ p ∈ s.inUse ++ L, t.fdOf p = s.fdOf p := by
    intro p hp
    have hne : p ≠ jc := fun hpj => hjc (hpj ▸ h.allocated hp)
    exact congrArg Jconnect.fd (Function.update_of_ne hne _ _)
  refine ⟨hold.lists, fun p hp => ?_, ?_, fun p hp => ?_, fun p hp => ?_⟩
  · rcases List.mem_cons.1 hp with rfl | hp
    · exact Finset.mem_insert_self _ _
    · exact hold.used p hp
  · show ((jc :: (s.inUse ++ L)).map t.fdOf).Nodup
    rw [List.map_cons, List.nodup_cons, hself]
    refine ⟨fun hmem => ?_, hold.fds⟩
    obtain ⟨p, hp, heq⟩ := List.mem_map.1 hmem
    rw [hsame p hp] at heq
    exact hnew (heq ▸ h.opened p hp)
  · rcases List.mem_cons.1 hp with rfl | hp
    · rw [hself]
      exact hfd
    · exact hold.range p hp
  · rcases List.mem_cons.1 hp with rfl | hp
    · rw [hself]
      exact Finset.mem_insert_self _ _
    · exact hold.opened p hp

/-- A new connection, made by `create_transaction`, or not. -/
theorem step_create (h : s.Inv L) {entry : TransferLogEntry} {d : Client.Dialling}
    (hd : d.Ok s.conns s.kernel) :
    ∃ s', s.step (.create entry d) = .ok s' ∧ s'.Inv L ∧
      s'.conns.connectPool = s.conns.connectPool := by
  have hnew := Client.newConnection_spec hd entry
  simp only [step, pure_eq_ok]
  cases hnew' : Client.newConnection entry d s.conns s.kernel with
  | mk conn r =>
    rw [hnew'] at hnew
    cases hnew with
    | nothing => exact ⟨s, rfl, h, rfl⟩
    | @leaked jc K' raw hjc hK =>
      refine ⟨_, rfl, h.of_malloc raw hjc ?_, rfl⟩
      rcases hK with rfl | ⟨fd, -, rfl⟩
      · exact Finset.Subset.refl _
      · exact Finset.subset_insert _ _
    | made hjc _ hfd hfresh => exact ⟨_, rfl, h.of_made hjc hfd hfresh, rfl⟩

/-- A change of a record that leaves its descriptor alone. -/
theorem Inv.of_update (h : s.Inv L) {c : Jconnect} (hc : c.fd = s.fdOf jc) :
    Inv ⟨{ s.conns with jconnects := Function.update s.conns.jconnects jc c }, s.kernel,
      s.inUse⟩ L := by
  refine h.of_subperm ⟨h.lists.ring, h.lists.allocated⟩ (List.Subperm.refl _) h.used (fun p _ => ?_)
    h.opened
  show (Function.update s.conns.jconnects jc c p).fd = s.fdOf p
  by_cases hp : p = jc
  · rw [hp, Function.update_self, hc]
  · rw [Function.update_of_ne hp]
    rfl

theorem step_mark (h : s.Inv L) (hjc : jc ∈ s.conns.allocated) (isAlive : Bool) :
    ∃ s', s.step (.mark jc isAlive) = .ok s' ∧ s'.Inv L ∧
      s'.conns.connectPool = s.conns.connectPool := by
  refine ⟨_, ?_, h.of_update (c := { s.conns.jconnects jc with isAlive := isAlive }) rfl, rfl⟩
  simp only [step, get_of_mem hjc, set_of_mem hjc, ok_bind, pure_eq_ok]

/-- A connection that is closed and freed. -/
theorem Inv.of_free (h : s.Inv L) (hjc : jc ∈ s.inUse ++ L) {C : Connections} {U : List Ptr}
    (hring : C.links.Ring .gJconnect (R.map .jconnect))
    (halloc : C.allocated = s.conns.allocated.erase jc)
    (hfd : ∀ p, (C.jconnects p).fd = s.fdOf p) (hperm : (jc :: (U ++ R)).Perm (s.inUse ++ L)) :
    Inv ⟨C, s.kernel.close (s.fdOf jc), U⟩ R := by
  have hnd : (jc :: (U ++ R)).Nodup := hperm.nodup_iff.2 h.nodup
  have hmem : ∀ p ∈ U ++ R, p ∈ s.inUse ++ L ∧ p ≠ jc := fun p hp =>
    ⟨hperm.mem_iff.1 (List.mem_cons_of_mem _ hp), fun hpj => (List.nodup_cons.1 hnd).1 (hpj ▸ hp)⟩
  have hall : ∀ p ∈ U ++ R, p ∈ C.allocated := by
    intro p hp
    rw [halloc]
    exact Finset.mem_erase.2 ⟨(hmem p hp).2, h.allocated (hmem p hp).1⟩
  exact h.of_subperm ⟨hring, fun p hp => hall p (List.mem_append_right _ hp)⟩
    ((List.sublist_cons_self jc (U ++ R)).subperm.trans hperm.subperm)
    (fun p hp => hall p (List.mem_append_left _ hp)) (fun p _ => hfd p)
    fun p hp => h.mem_close hjc (hmem p hp).1 (hmem p hp).2

theorem step_release_dead (h : s.Inv L) (hjc : jc ∈ s.inUse)
    (hdead : (s.conns.jconnects jc).isAlive = false) :
    ∃ s', s.step (.release jc) = .ok s' ∧ s'.Inv L ∧
      s'.conns.connectPool = s.conns.connectPool.dec := by
  obtain ⟨n, hrun⟩ := releaseConnection_dead (K := s.kernel) (h.used jc hjc) hdead
  let C : Connections := { s.conns with
    allocated := s.conns.allocated.erase jc
    jconnects := Function.update s.conns.jconnects jc { s.conns.jconnects jc with requests := n }
    connectPool := s.conns.connectPool.dec }
  refine ⟨⟨C, s.kernel.close (s.fdOf jc), s.inUse.erase jc⟩, ?_, ?_, rfl⟩
  · simp only [step, hrun, ok_bind, pure_eq_ok]
    rfl
  · refine h.of_free (C := C) (List.mem_append_left _ hjc) h.lists.ring rfl (fun p => ?_) ?_
    · show (Function.update s.conns.jconnects jc _ p).fd = s.fdOf p
      by_cases hp : p = jc
      · rw [hp, Function.update_self]
        rfl
      · rw [Function.update_of_ne hp]
        rfl
    · exact ((List.perm_cons_erase hjc).symm.append_right L)

theorem step_release_alive (h : s.Inv L) (hjc : jc ∈ s.inUse)
    (halive : (s.conns.jconnects jc).isAlive = true) :
    ∃ s', s.step (.release jc) = .ok s' ∧ s'.Inv (L ++ [jc]) ∧
      s'.conns.connectPool = s.conns.connectPool.inc := by
  have hnot : jc ∉ L := fun hL => (List.nodup_append.1 h.nodup).2.2 jc hjc jc hL rfl
  obtain ⟨n, links, hrun, hring⟩ :=
    releaseConnection_alive (K := s.kernel) h.lists (h.used jc hjc) hnot halive
  have hperm : (s.inUse.erase jc ++ (L ++ [jc])).Perm (s.inUse ++ L) := by
    rw [← List.append_assoc]
    exact (List.perm_append_singleton _ _).trans
      ((List.perm_cons_erase hjc).symm.append_right L)
  let C : Connections := { s.conns with
    jconnects := Function.update s.conns.jconnects jc { s.conns.jconnects jc with requests := n }
    links := links
    connectPool := s.conns.connectPool.inc }
  refine ⟨⟨C, s.kernel, s.inUse.erase jc⟩, ?_, ?_, rfl⟩
  · simp only [step, hrun, ok_bind, pure_eq_ok]
    rfl
  · have h' := h.of_update (c := { s.conns.jconnects jc with requests := n }) rfl
    refine h'.of_subperm ⟨hring, fun p hp => ?_⟩ hperm.subperm
      (fun p hp => h.used p (List.mem_of_mem_erase hp)) (fun p _ => rfl)
      fun p hp => h'.opened p (hperm.mem_iff.1 hp)
    exact h.allocated (hperm.mem_iff.1 (List.mem_append_right _ hp))

theorem step_releaseKeepalive (h : s.Inv (L ++ jc :: R)) :
    ∃ s', s.step (.releaseKeepalive jc) = .ok s' ∧ s'.Inv (L ++ R) ∧
      s'.conns.connectPool = s.conns.connectPool.dec := by
  obtain ⟨links, hrun, hring⟩ := releaseKeepaliveConnection_spec (K := s.kernel) h.lists
  let C : Connections := { s.conns with
    links := links
    allocated := s.conns.allocated.erase jc
    connectPool := s.conns.connectPool.dec }
  refine ⟨⟨C, s.kernel.close (s.fdOf jc), s.inUse⟩, ?_, ?_, rfl⟩
  · simp only [step, hrun, ok_bind, pure_eq_ok]
    rfl
  · refine h.of_free (C := C) (by simp) hring rfl (fun p => rfl) ?_
    exact List.perm_middle.symm.trans ((List.perm_middle.symm).append_left s.inUse |>.trans
      (by simp))

/-- **One call** does not fault and keeps the invariant. -/
theorem step_inv (h : s.Inv L) {op : PoolOp} (hop : s.Allowed op) :
    ∃ s', s.step op = .ok s' ∧ ∃ R, s'.Inv R := by
  cases op with
  | get =>
    obtain ⟨s', hs', h', -⟩ := step_get h
    exact ⟨s', hs', _, h'⟩
  | create entry d =>
    obtain ⟨s', hs', h', -⟩ := step_create h hop
    exact ⟨s', hs', _, h'⟩
  | mark jc isAlive =>
    obtain ⟨s', hs', h', -⟩ := step_mark h hop isAlive
    exact ⟨s', hs', _, h'⟩
  | release jc =>
    cases halive : (s.conns.jconnects jc).isAlive with
    | false =>
      obtain ⟨s', hs', h', -⟩ := step_release_dead h hop halive
      exact ⟨s', hs', _, h'⟩
    | true =>
      obtain ⟨s', hs', h', -⟩ := step_release_alive h hop halive
      exact ⟨s', hs', _, h'⟩
  | releaseKeepalive jc =>
    obtain ⟨R, hR, hjc⟩ := hop
    obtain ⟨A, B, rfl⟩ := List.append_of_mem (h.lists.unique hR ▸ hjc)
    obtain ⟨s', hs', h', -⟩ := step_releaseKeepalive h
    exact ⟨s', hs', _, h'⟩

theorem dead_iff : s.conns.dead p = true ↔ (s.conns.jconnects p).isAlive = false := by
  simp [dead]

/-- Only dead connections are idle, in terms of the walk of `get_connection`. -/
theorem Inv.counted_get_iff (h : s.Inv L) :
    s.Counted .get ↔ L.dropWhile s.conns.dead = [] := by
  rw [List.dropWhile_eq_nil_iff]
  constructor
  · intro hall p hp
    exact dead_iff.2 (hall L h.lists p hp)
  · intro hall R hR p hp
    exact dead_iff.1 (hall p (h.lists.unique hR ▸ hp))

/-- **One call keeps the count exactly when it is counted**: taking a live connection and releasing
a dead one are not. -/
theorem step_counts_iff (h : s.Inv L) (hs : s.Counts) {op : PoolOp} (hop : s.Allowed op)
    (hrun : s.step op = .ok s') : s'.Counts ↔ s.Counted op := by
  obtain ⟨htotal, hunder⟩ := h.counts_iff.1 hs
  -- a call that touches neither the list nor the counter
  have hsame : ∀ t : PoolSession, t.Inv L → t.conns.connectPool = s.conns.connectPool →
      t.Counts := fun t ht hpool => ht.counts_iff.2 (by rw [hpool]; exact ⟨htotal, hunder⟩)
  cases op with
  | get =>
    obtain ⟨t, ht, hinv, hpool⟩ := step_get h
    cases hrun.symm.trans ht
    have hlen : (L.takeWhile s.conns.dead).length + (L.dropWhile s.conns.dead).length =
        L.length := by
      rw [← List.length_append, List.takeWhile_append_dropWhile]
    obtain ⟨hdec, hdecu⟩ := ConnectPool.dec_iterate (p := s.conns.connectPool)
      (n := (L.takeWhile s.conns.dead).length) (by omega)
    rw [hinv.counts_iff, hpool, hdec, hdecu, h.counted_get_iff, List.length_tail,
      ← List.length_eq_zero_iff]
    omega
  | create entry d =>
    obtain ⟨t, ht, hinv, hpool⟩ := step_create h hop
    cases hrun.symm.trans ht
    exact iff_of_true (hsame _ hinv hpool) trivial
  | mark jc isAlive =>
    obtain ⟨t, ht, hinv, hpool⟩ := step_mark h hop isAlive
    cases hrun.symm.trans ht
    exact iff_of_true (hsame _ hinv hpool) trivial
  | release jc =>
    cases halive : (s.conns.jconnects jc).isAlive with
    | false =>
      obtain ⟨t, ht, hinv, hpool⟩ := step_release_dead h hop halive
      cases hrun.symm.trans ht
      refine iff_of_false (fun hcount => ?_) (by simp [Counted, halive])
      obtain ⟨htotal', hunder'⟩ := hinv.counts_iff.1 hcount
      rw [hpool] at htotal' hunder'
      by_cases hzero : s.conns.connectPool.currentTotal = 0
      · simp [ConnectPool.dec, hzero] at hunder'
      · have hpos : 1 ≤ s.conns.connectPool.currentTotal.toNat := by
          rw [Nat.one_le_iff_ne_zero]
          exact fun h0 => hzero (UInt32.toNat_inj.1 h0)
        have hdec := (ConnectPool.dec_toNat hpos).1
        omega
    | true =>
      obtain ⟨t, ht, hinv, hpool⟩ := step_release_alive h hop halive
      cases hrun.symm.trans ht
      refine iff_of_true (hinv.counts_iff.2 ?_) halive
      have hle := h.length_le
      rw [hpool, ConnectPool.inc_toNat (by omega), htotal, List.length_append]
      exact ⟨rfl, hunder⟩
  | releaseKeepalive jc =>
    obtain ⟨R, hR, hjc⟩ := hop
    obtain ⟨A, B, rfl⟩ := List.append_of_mem (h.lists.unique hR ▸ hjc)
    obtain ⟨t, ht, hinv, hpool⟩ := step_releaseKeepalive h
    cases hrun.symm.trans ht
    have hpos : 1 ≤ s.conns.connectPool.currentTotal.toNat := by
      rw [htotal, List.length_append, List.length_cons]
      omega
    obtain ⟨hdec, hdecu⟩ := ConnectPool.dec_toNat hpos
    refine iff_of_true (hinv.counts_iff.2 ?_) trivial
    rw [hpool, hdec, hdecu, htotal]
    simp only [List.length_append, List.length_cons]
    omega

/-- **When the counter is right.**  A run of the pool from `init_connect_pool` does not fault, and
in all its states `current_total` is the number of idle connections, never having been counted
down at 0, exactly when no call of `get_connection` finds a live connection to take and no call of
`release_connection` is of a dead one. -/
theorem connectPool_counts_iff (K : Kernel) (ops : List PoolOp)
    (hops : Steps step Allowed (init K) ops) :
    (∃ s, run step (init K) ops = .ok s) ∧
      (Along step Counts (init K) ops ↔ Steps step Counted (init K) ops) := by
  have hinit : (init K).Counts := (init_inv K).counts_iff.2 ⟨rfl, rfl⟩
  have hI : ∀ (s : PoolSession) op, (∃ L, s.Inv L) → s.Allowed op →
      ∃ s', s.step op = .ok s' ∧ ∃ L, s'.Inv L :=
    fun s op ⟨L, h⟩ hop => step_inv h hop
  refine ⟨?_, along_iff_steps hI ?_ ⟨_, init_inv K⟩ hinit hops⟩
  · obtain ⟨s, hs, -⟩ := exists_run hI ⟨_, init_inv K⟩ hops
    exact ⟨s, hs⟩
  · rintro s op s' ⟨L, h⟩ hcount hop hrun
    exact step_counts_iff h hcount hop hrun

theorem dialFive_ok : Client.dialFive.Ok initConnectPool (.unwatched ∅) := by
  refine ⟨fun jc raw h => by simp [initConnectPool], fun fd h => ?_⟩
  cases h
  exact ⟨by norm_num, by norm_num, Finset.notMem_empty _⟩

/-- A connection is made and released while it is dead. -/
def deadRelease : List PoolOp :=
  [.create ⟨jujubeInAddrInit, 0, 0, fun _ => 0⟩ Client.dialFive, .release 0]

theorem deadRelease_allowed : Steps step Allowed (init (.unwatched ∅)) deadRelease := by
  refine ⟨dialFive_ok, fun s hs => ⟨?_, fun _ _ => trivial⟩⟩
  cases hs
  show 0 ∈ [0]
  simp

theorem connectPool_counts_iff_dead :
    (∃ s, run step (init (.unwatched ∅)) deadRelease = .ok s) ∧
      (Along step Counts (init (.unwatched ∅)) deadRelease ↔
        Steps step Counted (init (.unwatched ∅)) deadRelease) :=
  connectPool_counts_iff _ _ deadRelease_allowed

/-- The release counts down from 0, with no connection in the list before or after. -/
theorem connectPool_wraps :
    Steps step Allowed (init (.unwatched ∅)) deadRelease ∧
      ∃ s, run step (init (.unwatched ∅)) deadRelease = .ok s ∧
        getConnectionStatiscs s.conns = .ok 0 ∧
        s.conns.connectPool.currentTotal.toNat = 4294967295 ∧
        s.conns.connectPool.underflows = 1 := by
  refine ⟨deadRelease_allowed, _, rfl, ?_, ?_, ?_⟩
  · decide +kernel
  · decide +kernel
  · decide +kernel

end PoolSession

end Jujube
