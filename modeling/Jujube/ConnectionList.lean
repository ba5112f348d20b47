import Mathlib.Data.List.TakeWhile
import Jujube.Connection
import Jujube.ListSequences

/-!
# What the operations do to the pool of idle connections

`Connections.Lists C L`: the records `L`, all of them allocated, are what `g_jconnect` links.  One
lemma for each function of `connection.c`; the loops of `get_connection` end, and take off the list
what stands in front of the first live connection.
-/

namespace Jujube

open CircularList

namespace Connections

/-- The idle connections, in order. -/
structure Lists (C : Connections) (L : List Ptr) : Prop where
  ring : C.links.Ring .gJconnect (L.map .jconnect)
  allocated : ∀ p ∈ L, p ∈ C.allocated

/-- A record is dead. -/
def dead (C : Connections) (p : Ptr) : Bool := !(C.jconnects p).isAlive

variable {C : Connections} {K : Kernel} {L I : List Ptr} {jc p : Ptr}

theorem Lists.nodup (h : C.Lists L) : L.Nodup := List.Nodup.of_map _ h.ring.nodup_nodes

theorem Lists.unique {R : List Ptr} (h : C.Lists L) (h' : C.Lists R) : L = R := by
  have hinj : Function.Injective ConnNode.jconnect := fun a b hab => by cases hab; rfl
  exact List.map_injective_iff.2 hinj (h.ring.unique h'.ring)

/-- The list has no more nodes than there are records. -/
theorem Lists.length_lt (h : C.Lists L) : L.length < C.bound := by
  rw [bound, Nat.lt_succ_iff, ← List.toFinset_card_of_nodup h.nodup]
  exact Finset.card_le_card fun p hp => h.allocated p (List.mem_toFinset.1 hp)

theorem get_of_mem (h : jc ∈ C.allocated) : C.get jc = .ok (C.jconnects jc) := if_pos h

theorem set_of_mem (h : jc ∈ C.allocated) (c : Jconnect) :
    C.set jc c = .ok { C with jconnects := Function.update C.jconnects jc c } := if_pos h

theorem free_of_mem (h : jc ∈ C.allocated) :
    C.free jc = .ok { C with allocated := C.allocated.erase jc } := if_pos h

end Connections

open Connections

variable {C : Connections} {K : Kernel} {L I : List Ptr} {jc p : Ptr}

/-- `get_connection_statiscs` counts the list. -/
theorem getConnectionStatiscs_spec (h : C.Lists L) :
    getConnectionStatiscs C = .ok (L.length : ℤ) := by
  have key : ∀ (l : List Ptr) (a : ConnNode) (n : ℕ) (i : ℤ),
      Seg C.links.next C.links.prev a (l.map .jconnect) .gJconnect → (∀ p ∈ l, p ∈ C.allocated) →
      l.length < n → statiscsLoop C n i (C.links.next a) = .ok (i + l.length) := by
    intro l
    induction l with
    | nil =>
      intro a n i hseg _ hn
      obtain ⟨n, rfl⟩ := Nat.exists_eq_succ_of_ne_zero (by omega : n ≠ 0)
      have hnext : C.links.next a = some .gJconnect := hseg.1
      simp [statiscsLoop, hnext]
    | cons p l ih =>
      intro a n i hseg halloc hn
      obtain ⟨n, rfl⟩ := Nat.exists_eq_succ_of_ne_zero (by omega : n ≠ 0)
      have hnext : C.links.next a = some (.jconnect p) := hseg.1.1
      have hp : p ∈ C.allocated := halloc p (by simp)
      have hrest := ih (.jconnect p) n (i + 1) hseg.2 (fun q hq => halloc q (by simp [hq]))
        (by simpa using hn)
      rw [hnext, statiscsLoop, if_neg (by simp)]
      simp only [entryOf, get_of_mem hp, ok_bind, hrest, List.length_cons]
      congr 1
      push_cast
      ring
  rw [getConnectionStatiscs, key L .gJconnect C.bound 0 h.ring.seg h.allocated h.length_lt,
    zero_add]

/-- The heads of the two lists of `get_connection`: the idle connections, and the dead ones. -/
def connHeads (idle : Bool) : ConnNode := if idle then .gJconnect else .invaildConn

/-- What they link. -/
def connNodes (L I : List Ptr) (idle : Bool) : List ConnNode :=
  (if idle then L else I).map .jconnect

theorem update_connNodes_idle (l : List Ptr) :
    Function.update (connNodes L I) true (l.map .jconnect) = connNodes l I := by
  funext b
  cases b <;> rfl

theorem update_connNodes_dead (l : List Ptr) :
    Function.update (connNodes L I) false (l.map .jconnect) = connNodes L l := by
  funext b
  cases b <;> rfl

/-- Where `get_connection` starts: it has set up an empty second list. -/
theorem Connections.Lists.represents (h : C.Lists L) :
    (initListHead .invaildConn C.links).Represents connHeads (connNodes L []) := by
  constructor
  · intro b
    cases b with
    | false => exact initListHead_ring _ _
    | true =>
      refine h.ring.of_sameOff (initListHead_sameOff _ _) fun x hx => ?_
      simp only [List.mem_cons, List.mem_map] at hx
      rcases hx with rfl | ⟨q, -, rfl⟩ <;> simp
  · intro b c hbc x hb hc
    cases b <;> cases c <;> simp [connHeads, connNodes] at hb hc hbc
    · simp [hb] at hc
    · simp [hc] at hb

/-- The first loop of `get_connection`: the list loses its records up to the first live one. -/
theorem takeLoop_spec {n : ℕ} (R : C.links.Represents connHeads (connNodes L I))
    (halloc : ∀ p ∈ L, p ∈ C.allocated) (hn : L.length < n) :
    ∃ links, takeLoop n (C.links.next .gJconnect) C =
        .ok ((L.dropWhile C.dead).head?, { C with links := links }) ∧
      links.Represents connHeads
        (connNodes (L.dropWhile C.dead).tail (I ++ L.takeWhile C.dead)) ∧
      ∀ p, (L.dropWhile C.dead).head? = some p → links.next (.jconnect p) = none := by
  induction L generalizing C I n with
  | nil =>
    obtain ⟨n, rfl⟩ := Nat.exists_eq_succ_of_ne_zero (by omega : n ≠ 0)
    have hnext : C.links.next .gJconnect = some .gJconnect := (R.ring true).next_head
    exact ⟨C.links, by simp [takeLoop, hnext], by simpa using R, by simp⟩
  | cons p L ih =>
    obtain ⟨n, rfl⟩ := Nat.exists_eq_succ_of_ne_zero (by omega : n ≠ 0)
    have hring : C.links.Ring .gJconnect ([] ++ .jconnect p :: L.map .jconnect) := R.ring true
    have hnext : C.links.next .gJconnect = some (.jconnect p) := hring.next_head
    have hp : p ∈ C.allocated := halloc p (by simp)
    have hmem : ConnNode.jconnect p ∈ connNodes (p :: L) I true := List.mem_cons_self
    have hseq : Function.update (connNodes (p :: L) I) true
        ((connNodes (p :: L) I true).erase (.jconnect p)) = connNodes L I := by
      rw [show connNodes (p :: L) I true = .jconnect p :: L.map .jconnect from rfl,
        List.erase_cons_head, update_connNodes_idle]
    obtain ⟨m₁, hdel, R₁, hnone, -⟩ := R.listDel hmem
    have hunlinked := R.unlinked_erase hmem
    rw [hseq] at R₁ hunlinked
    rw [hnext, takeLoop, if_neg (by simp)]
    by_cases hdead : C.dead p = true
    · have halive : (C.jconnects p).isAlive = false := by simpa [dead] using hdead
      obtain ⟨m₂, hrun₂, R₂⟩ := R₁.listAddTail false hunlinked
      have hadd : listAddTail (.jconnect p) .invaildConn m₁ = .ok m₂ := hrun₂
      rw [show connNodes L I false ++ [.jconnect p] = (I ++ [p]).map .jconnect by simp [connNodes],
        update_connNodes_dead] at R₂
      have hnext₂ : C.links.next (.jconnect p) = m₂.next .gJconnect :=
        hring.neighbours.2.trans (R₂.ring true).next_head.symm
      obtain ⟨links, hrun, R', hfirst⟩ := ih (C := { C with links := m₂ }) (n := n) R₂
        (fun q hq => halloc q (by simp [hq])) (by simpa using hn)
      have hdrop : (p :: L).dropWhile C.dead = L.dropWhile C.dead := by
        rw [List.dropWhile_cons_of_pos hdead]
      have htake : I ++ (p :: L).takeWhile C.dead = I ++ [p] ++ L.takeWhile C.dead := by
        rw [List.takeWhile_cons_of_pos hdead, List.append_assoc, List.singleton_append]
      refine ⟨links, ?_, ?_, ?_⟩
      · simp only [entryOf, get_of_mem hp, hdel, ok_bind, if_pos halive, hadd, hnext₂, hdrop]
        exact hrun
      · rw [hdrop, htake]
        exact R'
      · rw [hdrop]
        exact hfirst
    · have halive : ¬ (C.jconnects p).isAlive = false := by simpa [dead] using hdead
      refine ⟨m₁, ?_, ?_, ?_⟩
      · simp only [entryOf, get_of_mem hp, hdel, ok_bind, if_neg halive, pure_eq_ok,
          List.dropWhile_cons_of_neg hdead, List.head?_cons]
      · rw [List.dropWhile_cons_of_neg hdead, List.takeWhile_cons_of_neg hdead, List.append_nil]
        exact R₁
      · intro r hr
        rw [List.dropWhile_cons_of_neg hdead, List.head?_cons, Option.some.injEq] at hr
        exact hr ▸ hnone

/-- The second loop of `get_connection`: the records are freed and their descriptors closed. -/
theorem closeLoop_spec {n : ℕ} {a : ConnNode}
    (hseg : Seg C.links.next C.links.prev a (I.map .jconnect) .invaildConn) (hnd : I.Nodup)
    (halloc : ∀ p ∈ I, p ∈ C.allocated) (hn : I.length < n) :
    closeLoop n (C.links.next a) C K = .ok ({ C with
        allocated := C.allocated.filter (· ∉ I)
        connectPool := ConnectPool.dec^[I.length] C.connectPool },
      I.foldl (fun K p => K.close (C.jconnects p).fd) K) := by
  induction I generalizing C K n a with
  | nil =>
    obtain ⟨n, rfl⟩ := Nat.exists_eq_succ_of_ne_zero (by omega : n ≠ 0)
    have hnext : C.links.next a = some .invaildConn := hseg.1
    simp [closeLoop, hnext]
  | cons p I ih =>
    obtain ⟨n, rfl⟩ := Nat.exists_eq_succ_of_ne_zero (by omega : n ≠ 0)
    have hnext : C.links.next a = some (.jconnect p) := hseg.1.1
    have hp : p ∈ C.allocated := halloc p (by simp)
    obtain ⟨hpI, hnd'⟩ := List.nodup_cons.1 hnd
    have hrest := ih (C := decTotal { C with allocated := C.allocated.erase p })
      (K := K.close (C.jconnects p).fd) (n := n) (a := .jconnect p) hseg.2 hnd'
      (fun q hq => Finset.mem_erase.2 ⟨fun h => hpI (h ▸ hq), halloc q (by simp [hq])⟩)
      (by simpa using hn)
    have hfilter : (C.allocated.erase p).filter (· ∉ I) = C.allocated.filter (· ∉ p :: I) := by
      ext q
      simp only [Finset.mem_filter, Finset.mem_erase, List.mem_cons]
      tauto
    rw [hnext, closeLoop, if_neg (by simp)]
    simp only [entryOf, get_of_mem hp, free_of_mem hp, ok_bind]
    refine Eq.trans hrest ?_
    simp only [decTotal, hfilter, List.length_cons, Function.iterate_succ_apply, List.foldl_cons]

/-- **`get_connection`** ends: it returns the first live connection, which is in no list then, and
leaves what stands behind it; the dead ones in front of it are closed and freed, and counted
down. -/
theorem getConnection_spec (hL : C.Lists L) (K : Kernel) :
    ∃ links, getConnection C K = .ok ((L.dropWhile C.dead).head?, { C with
          links := links
          allocated := C.allocated.filter (· ∉ L.takeWhile C.dead)
          connectPool := ConnectPool.dec^[(L.takeWhile C.dead).length] C.connectPool },
        (L.takeWhile C.dead).foldl (fun K p => K.close (C.jconnects p).fd) K) ∧
      links.Ring .gJconnect ((L.dropWhile C.dead).tail.map .jconnect) ∧
      ∀ p, (L.dropWhile C.dead).head? = some p → links.next (.jconnect p) = none := by
  obtain ⟨links, hrun, R, hfirst⟩ := takeLoop_spec (C := { C with
    links := initListHead .invaildConn C.links }) (I := []) hL.represents hL.allocated hL.length_lt
  have hsub : (L.takeWhile C.dead).Sublist L := List.takeWhile_sublist _
  have hclose := closeLoop_spec (C := { C with links := links }) (K := K) (n := C.bound)
    (a := .invaildConn) (R.ring false).seg (hL.nodup.sublist hsub)
    (fun p hp => hL.allocated p (hsub.subset hp)) (lt_of_le_of_lt hsub.length_le hL.length_lt)
  refine ⟨links, ?_, R.ring true, hfirst⟩
  calc getConnection C K
      = takeLoop C.bound ((initListHead .invaildConn C.links).next .gJconnect)
            { C with links := initListHead .invaildConn C.links } >>= fun x =>
          closeLoop C.bound (x.2.links.next .invaildConn) x.2 K >>= fun y =>
            .ok (x.1, y.1, y.2) := rfl
    _ = closeLoop C.bound (links.next .invaildConn) { C with links := links } K >>= fun y =>
          .ok ((L.dropWhile C.dead).head?, y.1, y.2) := congrArg (· >>= _) hrun
    _ = _ := congrArg (· >>= _) hclose

/-- With no idle connections there is nothing to take. -/
theorem getConnection_nil (hL : C.Lists []) (K : Kernel) :
    ∃ links, getConnection C K = .ok (none, { C with links := links }, K) ∧
      links.Ring .gJconnect [] := by
  obtain ⟨links, hrun, hg, -⟩ := getConnection_spec hL K
  refine ⟨links, ?_, hg⟩
  simpa using hrun

/-- A live connection at the front is taken. -/
theorem getConnection_alive (hL : C.Lists (jc :: L)) (halive : (C.jconnects jc).isAlive = true)
    (K : Kernel) :
    ∃ links, getConnection C K = .ok (some jc, { C with links := links }, K) ∧
      links.Ring .gJconnect (L.map .jconnect) := by
  obtain ⟨links, hrun, hring, -⟩ := getConnection_spec hL K
  have hdead : ¬ C.dead jc = true := by simp [dead, halive]
  rw [List.takeWhile_cons_of_neg hdead, List.dropWhile_cons_of_neg hdead] at hrun
  rw [List.dropWhile_cons_of_neg hdead, List.tail_cons] at hring
  refine ⟨links, ?_, hring⟩
  simpa using hrun

/-- A pool splits at its first live connection, if it has one. -/
theorem Connections.split_first (C : Connections) (L : List Ptr) :
    L = L.takeWhile C.dead ++ ((L.dropWhile C.dead).head?.toList ++ (L.dropWhile C.dead).tail) := by
  cases h : L.dropWhile C.dead with
  | nil => rw [List.head?_nil, Option.toList_none, List.tail_nil, List.append_nil, List.append_nil,
      List.takeWhile_eq_self_iff.2 (List.dropWhile_eq_nil_iff.1 h)]
  | cons p R => rw [List.head?_cons, Option.toList_some, List.tail_cons, List.singleton_append, ← h,
      List.takeWhile_append_dropWhile]

/-- What stands in front of the first live connection is dead. -/
theorem Connections.dead_of_mem_takeWhile (h : p ∈ L.takeWhile C.dead) :
    (C.jconnects p).isAlive = false := by
  have hdead := List.mem_takeWhile_imp h
  simpa [dead] using hdead

theorem Connections.alive_of_head? (h : (L.dropWhile C.dead).head? = some p) :
    (C.jconnects p).isAlive = true := by
  have hnot := List.head?_dropWhile_not C.dead L
  rw [h] at hnot
  simpa [dead] using hnot

/-- **`get_connection` takes the first live connection.**  The pool splits into the dead
connections `front`, the one that is returned, if any, and what stays; `front` is closed and freed,
each connection once, and nothing else; the returned connection is a node of no list. -/
theorem getConnection_takes_first (hL : C.Lists L) (K : Kernel) :
    ∃ front conn rest C' K', getConnection C K = .ok (conn, C', K') ∧
      L = front ++ (conn.toList ++ rest) ∧
      (∀ p ∈ front, (C.jconnects p).isAlive = false) ∧
      (∀ p, conn = some p → (C.jconnects p).isAlive = true ∧ p ∈ C'.allocated ∧
        ∀ h l, C'.links.Ring h l → .jconnect p ∉ h :: l) ∧
      (conn = none → rest = []) ∧
      C'.Lists rest ∧
      C'.allocated = C.allocated.filter (· ∉ front) ∧
      C'.jconnects = C.jconnects ∧
      K'.closed = K.closed ++ front.map (fun p => (C.jconnects p).fd) ∧
      K'.opened = K.opened.filter (· ∉ front.map fun p => (C.jconnects p).fd) ∧
      ∀ fd ∉ front.map (fun p => (C.jconnects p).fd), K'.interest fd = K.interest fd := by
  obtain ⟨links, hrun, hring, hfirst⟩ := getConnection_spec hL K
  obtain ⟨hopened, hinterest, hclosed⟩ :=
    Kernel.close_foldl (fun p => (C.jconnects p).fd) (L.takeWhile C.dead) K
  have hsplit := C.split_first L
  have hnodup := hL.nodup
  -- what is not in front of the first live connection is not freed
  have hkept : ∀ p ∈ (L.dropWhile C.dead).head?.toList ++ (L.dropWhile C.dead).tail,
      p ∈ C.allocated.filter (· ∉ L.takeWhile C.dead) := by
    intro p hp
    rw [hsplit, List.nodup_append] at hnodup
    refine Finset.mem_filter.2 ⟨hL.allocated p ?_, fun hfront => hnodup.2.2 p hfront p hp rfl⟩
    rw [hsplit]
    exact List.mem_append_right _ hp
  refine ⟨_, _, _, _, _, hrun, hsplit, fun p hp => dead_of_mem_takeWhile hp, fun p hp => ?_,
    fun hnone => ?_, ⟨hring, fun p hp => hkept p (List.mem_append_right _ hp)⟩, rfl, rfl,
    hclosed, hopened, fun fd hfd => ?_⟩
  · refine ⟨alive_of_head? hp, hkept p ?_, fun h l hR hmem => ?_⟩
    · rw [hp]
      exact List.mem_append_left _ (by simp)
    · exact hR.seg.next_ne_none hmem (hfirst p hp)
  · rw [List.head?_eq_none_iff.1 hnone, List.tail_nil]
  · rw [hinterest]
    exact if_neg hfd

/-- Three idle connections, the second of which is alive. -/
def threeIdle : Connections where
  connectPool := ⟨10, 60, 100, 3, 0⟩
  links := ⟨fun
      | .gJconnect => some (.jconnect 0)
      | .jconnect p => if p = 2 then some .gJconnect else some (.jconnect (p + 1))
      | .invaildConn => none,
    fun
      | .gJconnect => some (.jconnect 2)
      | .jconnect p => if p = 0 then some .gJconnect else some (.jconnect (p - 1))
      | .invaildConn => none⟩
  allocated := {0, 1, 2}
  jconnects := fun p => ⟨5 + p, p = 1, 0, .connEstab, none⟩

theorem threeIdle_lists : threeIdle.Lists [0, 1, 2] where
  ring := ⟨by decide, by simp [threeIdle, Seg, Linked]⟩
  allocated := by decide

theorem getConnection_takes_first_threeIdle :
    ∃ C' K', getConnection threeIdle (.unwatched {5, 6, 7}) = .ok (some 1, C', K') := by
  obtain ⟨front, conn, rest, C', K', hrun, hL, hdead, halive, hnone, -⟩ :=
    getConnection_takes_first threeIdle_lists (.unwatched {5, 6, 7})
  have h1 : (1 : Ptr) ∈ front ++ (conn.toList ++ rest) := hL ▸ by decide
  cases conn with
  | none =>
    rw [hnone rfl, List.append_nil, Option.toList_none, List.append_nil] at h1
    exact absurd (hdead 1 h1) (by decide)
  | some p =>
    have hp : p = 1 := by simpa [threeIdle] using (halive p rfl).1
    exact ⟨C', K', hp ▸ hrun⟩

/-- **`release_connection`** of a dead connection closes and frees it, and counts it down whether
or not it was ever in the list. -/
theorem releaseConnection_dead (hjc : jc ∈ C.allocated) (hdead : (C.jconnects jc).isAlive = false) :
    ∃ n, releaseConnection jc C K = .ok ({ C with
        allocated := C.allocated.erase jc
        jconnects := Function.update C.jconnects jc { C.jconnects jc with requests := n }
        connectPool := C.connectPool.dec }, K.close (C.jconnects jc).fd) := by
  refine ⟨(C.jconnects jc).requests + 1, ?_⟩
  have hjc' : jc ∈ (⟨C.connectPool, C.links, C.allocated, Function.update C.jconnects jc
      { C.jconnects jc with requests := (C.jconnects jc).requests + 1 }⟩ : Connections).allocated :=
    hjc
  simp only [releaseConnection, get_of_mem hjc, set_of_mem hjc, ok_bind, if_pos hdead,
    free_of_mem hjc', pure_eq_ok, decTotal]

/-- **`release_connection`** of a live connection puts it at the end of the list. -/
theorem releaseConnection_alive (hL : C.Lists L) (hjc : jc ∈ C.allocated) (hnot : jc ∉ L)
    (halive : (C.jconnects jc).isAlive = true) :
    ∃ n links, releaseConnection jc C K = .ok ({ C with
        jconnects := Function.update C.jconnects jc { C.jconnects jc with requests := n }
        links := links
        connectPool := C.connectPool.inc }, K) ∧
      links.Ring .gJconnect ((L ++ [jc]).map .jconnect) := by
  have hnode : ConnNode.jconnect jc ∉ ConnNode.gJconnect :: L.map .jconnect := by
    simpa using hnot
  obtain ⟨links, hadd, hR, -⟩ := listAddTail_spec hL.ring hnode
  refine ⟨(C.jconnects jc).requests + 1, links, ?_, by simpa using hR⟩
  simp only [releaseConnection, get_of_mem hjc, set_of_mem hjc, ok_bind,
    if_neg (show ¬ (C.jconnects jc).isAlive = false by simp [halive]), incTotal, hadd, pure_eq_ok]

/-- **`release_keepalive_connection`** takes a connection out of the list, closes and frees it. -/
theorem releaseKeepaliveConnection_spec {R : List Ptr} (hL : C.Lists (L ++ jc :: R)) :
    ∃ links, releaseKeepaliveConnection jc C K = .ok ({ C with
        links := links
        allocated := C.allocated.erase jc
        connectPool := C.connectPool.dec }, K.close (C.jconnects jc).fd) ∧
      links.Ring .gJconnect ((L ++ R).map .jconnect) := by
  have hjc : jc ∈ C.allocated := hL.allocated jc (by simp)
  have hring : C.links.Ring .gJconnect (L.map .jconnect ++ .jconnect jc :: R.map .jconnect) := by
    simpa using hL.ring
  obtain ⟨links, hdel, hR, -⟩ := listDel_spec hring
  refine ⟨links, ?_, by simpa using hR⟩
  have hjc' : jc ∈ (⟨C.connectPool, links, C.allocated, C.jconnects⟩ : Connections).allocated := hjc
  simp only [releaseKeepaliveConnection, get_of_mem hjc, hdel, ok_bind, free_of_mem hjc',
    pure_eq_ok, decTotal]

/-! ### The counter -/

/-- Counting down above 0. -/
theorem ConnectPool.dec_toNat {p : ConnectPool} (h : 1 ≤ p.currentTotal.toNat) :
    p.dec.currentTotal.toNat = p.currentTotal.toNat - 1 ∧ p.dec.underflows = p.underflows := by
  have hne : p.currentTotal ≠ 0 := by
    intro h0
    rw [h0] at h
    simp at h
  have hle : (1 : UInt32) ≤ p.currentTotal := UInt32.le_iff_toNat_le.2 h
  refine ⟨?_, by simp [ConnectPool.dec, hne]⟩
  rw [ConnectPool.dec, UInt32.toNat_sub_of_le _ _ hle]
  rfl

/-- Counting down as often as the counter allows. -/
theorem ConnectPool.dec_iterate {n : ℕ} {p : ConnectPool} (h : n ≤ p.currentTotal.toNat) :
    (ConnectPool.dec^[n] p).currentTotal.toNat = p.currentTotal.toNat - n ∧
      (ConnectPool.dec^[n] p).underflows = p.underflows := by
  induction n generalizing p with
  | zero => exact ⟨rfl, rfl⟩
  | succ n ih =>
    obtain ⟨hdec, hund⟩ := ConnectPool.dec_toNat (p := p) (by omega)
    obtain ⟨htotal, hunder⟩ := ih (p := p.dec) (by omega)
    rw [Function.iterate_succ_apply]
    exact ⟨by omega, hunder.trans hund⟩

theorem ConnectPool.inc_toNat {p : ConnectPool} (h : p.currentTotal.toNat + 1 < 2 ^ 32) :
    p.inc.currentTotal.toNat = p.currentTotal.toNat + 1 := by
  rw [ConnectPool.inc, UInt32.toNat_add]
  exact Nat.mod_eq_of_lt h

end Jujube
