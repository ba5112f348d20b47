import Jujube.ListSequences
import Jujube.Mem

/-!
# The pool invariant

`Pool.Inv P U F` ties the concrete pool to two pieces of bookkeeping that the program does not
keep: the sequence `U` behind `MEM_USED_LIST` and the sequences `F i` behind `MemPools[i]`.
Every operation has one lemma that says how it moves a block between them.

`Pool.live`, a partial map from blocks to their contents, is what the rest of the program needs
to know about the pool.  On it `mem_alloc` is the choice of a free name and a zeroed block
(`memAlloc_spec`), `mem_free` an erasure (`memFree_spec`), a store a pointwise update
(`Pool.store_spec`); none of them does anything to another live block.
-/

namespace Jujube

open Bytes

/-- What holds of a block wherever it is: its class is the one its `obj_size` searches to, it has
the bytes of that class and one more, and that one is the guard. -/
structure MemEntry.Ok (e : MemEntry) : Prop where
  cls : sizeClass e.objSize < memTypeMax
  room : e.room = blockSize (sizeClass e.objSize) + 1
  guard : e.obj (blockSize (sizeClass e.objSize)) = guardByte

theorem MemEntry.Ok.capacity {e : MemEntry} (h : e.Ok) :
    e.capacity = blockSize (sizeClass e.objSize) := by
  rw [MemEntry.capacity, h.room, Nat.add_sub_cancel]

namespace Pool

/-- The class of a block, `MEM_TYPE_MAX` where there is none. -/
def classOf (P : Pool) (p : Ptr) : ℕ :=
  ((P.heap p).map fun e => sizeClass e.objSize).getD memTypeMax

/-- `U` is the sequence of the live blocks and `F i` that of the free blocks of class `i`. -/
structure Inv (P : Pool) (U : List Ptr) (F : ℕ → List Ptr) : Prop where
  usedRing : P.links.Ring .memUsedList (U.map .entry)
  poolRing : ∀ i < memTypeMax, P.links.Ring (.memPools i) ((F i).map .entry)
  dom : ∀ p, (P.heap p).isSome ↔ p < P.malloced
  entryOk : ∀ p e, P.heap p = some e → e.Ok
  place : ∀ p e, P.heap p = some e →
    (p ∈ U ∧ e.refcount = 1) ∨ (p ∈ F (sizeClass e.objSize) ∧ e.refcount = 0)
  used : ∀ p ∈ U, ∃ e, P.heap p = some e ∧ e.refcount = 1
  pooled : ∀ i < memTypeMax, ∀ p ∈ F i,
    ∃ e, P.heap p = some e ∧ e.refcount = 0 ∧ sizeClass e.objSize = i
  statUsed : ∀ i < memTypeMax, (P.memStat i).blocksUsed = (U.countP fun p => P.classOf p = i : ℕ)
  statFree : ∀ i < memTypeMax, (P.memStat i).blocksFree = ((F i).length : ℕ)

/-- A pool that some bookkeeping fits. -/
def Ok (P : Pool) : Prop := ∃ U F, P.Inv U F

variable {P : Pool} {U : List Ptr} {F : ℕ → List Ptr} {p q : Ptr} {e : MemEntry} {i j : ℕ}

namespace Inv

theorem notMem_pool (h : P.Inv U F) (hp : p ∈ U) (hi : i < memTypeMax) : p ∉ F i := by
  intro hf
  obtain ⟨e, he, hr⟩ := h.used p hp
  obtain ⟨e', he', hr', -⟩ := h.pooled i hi p hf
  cases he.symm.trans he'
  omega

theorem class_unique (h : P.Inv U F) (hi : i < memTypeMax) (hj : j < memTypeMax)
    (hpi : p ∈ F i) (hpj : p ∈ F j) : i = j := by
  obtain ⟨e, he, -, rfl⟩ := h.pooled i hi p hpi
  obtain ⟨e', he', -, rfl⟩ := h.pooled j hj p hpj
  cases he.symm.trans he'
  rfl

theorem lt_malloced (h : P.Inv U F) (hp : P.heap p = some e) : p < P.malloced :=
  (h.dom p).1 (by simp [hp])

/-- The number of a block that is there is no new one. -/
theorem lt_malloced_iff (h : P.Inv U F) (hp : P.heap p = some e) (q : Ptr) :
    q < P.malloced ↔ q < P.malloced ∨ q = p := by
  have hlt := h.lt_malloced hp
  constructor
  · exact .inl
  · rintro (hq | rfl)
    · exact hq
    · exact hlt

theorem used_lt (h : P.Inv U F) (hp : p ∈ U) : p < P.malloced := by
  obtain ⟨e, he, -⟩ := h.used p hp
  exact h.lt_malloced he

theorem pooled_lt (h : P.Inv U F) (hi : i < memTypeMax) (hp : p ∈ F i) : p < P.malloced := by
  obtain ⟨e, he, -⟩ := h.pooled i hi p hp
  exact h.lt_malloced he

theorem nodup_used (h : P.Inv U F) : U.Nodup := List.Nodup.of_map _ h.usedRing.nodup_nodes

theorem nodup_pool (h : P.Inv U F) (hi : i < memTypeMax) : (F i).Nodup :=
  List.Nodup.of_map _ (h.poolRing i hi).nodup_nodes

end Inv

/-- The classes after one block was replaced. -/
theorem classOf_of_heap {P' : Pool} (hh : P'.heap = Function.update P.heap p (some e)) (q : Ptr) :
    P'.classOf q = if q = p then sizeClass e.objSize else P.classOf q := by
  unfold classOf
  rw [hh]
  split_ifs with hq
  · subst hq; simp
  · rw [Function.update_of_ne hq]

/-- A block that was written with the `obj_size` it had leaves the classes as they were. -/
theorem classOf_same {P' : Pool} {e' : MemEntry} (he : P.heap p = some e)
    (hh : P'.heap = Function.update P.heap p (some e')) (hsize : e'.objSize = e.objSize) :
    P'.classOf = P.classOf := by
  funext q
  rw [classOf_of_heap hh]
  split_ifs with hq
  · simp [hq, classOf, he, hsize]
  · rfl

/-! ### The lists -/

/-- The heads: `MEM_USED_LIST`, and the list of each class. -/
def listHeads : Option (Fin memTypeMax) → MemNode
  | none => .memUsedList
  | some i => .memPools i

/-- The nodes of the lists, when `U` is the sequence of the live blocks and `F i` that of the free
blocks of class `i`. -/
def listNodes (U : List Ptr) (F : ℕ → List Ptr) : Option (Fin memTypeMax) → List MemNode
  | none => U.map .entry
  | some i => (F i).map .entry

theorem update_listNodes_used (V : List Ptr) :
    Function.update (listNodes U F) none (V.map .entry) = listNodes V F := by
  funext k
  cases k with
  | none => exact Function.update_self _ _ _
  | some i => exact Function.update_of_ne (Option.some_ne_none i) _ _

theorem update_listNodes_free (hi : i < memTypeMax) (l : List Ptr) :
    Function.update (listNodes U F) (some ⟨i, hi⟩) (l.map .entry) =
      listNodes U (Function.update F i l) := by
  funext k
  cases k with
  | none => exact Function.update_of_ne (Option.some_ne_none _).symm _ _
  | some j =>
    by_cases hj : j = ⟨i, hi⟩
    · subst hj
      rw [Function.update_self, listNodes, Function.update_self]
    · have hne : (j : ℕ) ≠ i := fun e => hj (Fin.ext e)
      rw [Function.update_of_ne (fun e => hj (Option.some.inj e)), listNodes, listNodes,
        Function.update_of_ne hne]

/-- A block is in no list when it is neither live nor free. -/
theorem unlinked_entry (hU : p ∉ U) (hF : ∀ i < memTypeMax, p ∉ F i) :
    Unlinked listHeads (listNodes U F) (.entry p) := by
  intro k
  cases k with
  | none => simpa [listHeads, listNodes] using hU
  | some i => simpa [listHeads, listNodes] using hF i i.2

/-- No two of the lists share a block. -/
theorem Inv.represents (h : P.Inv U F) : P.links.Represents listHeads (listNodes U F) := by
  constructor
  · intro k
    cases k with
    | none => exact h.usedRing
    | some i => exact h.poolRing i i.2
  · -- the heads differ, so that a common node is a block
    have hblock : ∀ k j, k ≠ j → ∀ x, x ∈ listHeads k :: listNodes U F k →
        x ∈ listHeads j :: listNodes U F j → ∃ q, x = .entry q := by
      intro k j hkj x hk hj
      cases x with
      | entry q => exact ⟨q, rfl⟩
      | memUsedList => cases k <;> cases j <;> simp [listHeads, listNodes] at hk hj hkj
      | memPools i =>
        cases k <;> cases j <;> simp [listHeads, listNodes] at hk hj hkj
        exact absurd (Fin.ext (hk.symm.trans hj)) hkj
    intro k j hkj x hk hj
    obtain ⟨q, rfl⟩ := hblock k j hkj x hk hj
    cases k with
    | none =>
      cases j with
      | none => exact hkj rfl
      | some j =>
        have hqU : q ∈ U := by simpa [listHeads, listNodes] using hk
        exact h.notMem_pool hqU j.2 (by simpa [listHeads, listNodes] using hj)
    | some i =>
      have hqF : q ∈ F i := by simpa [listHeads, listNodes] using hk
      cases j with
      | none => exact h.notMem_pool (by simpa [listHeads, listNodes] using hj) i.2 hqF
      | some j =>
        have hqF' : q ∈ F j := by simpa [listHeads, listNodes] using hj
        exact hkj (congrArg some (Fin.ext (h.class_unique i.2 j.2 hqF hqF')))

/-! ### One block -/

/-- What is in the heap after one block was written. -/
theorem heap_cases {P' : Pool} {e' : MemEntry} (hh : P'.heap = Function.update P.heap p (some e))
    (hq : P'.heap q = some e') : (q = p ∧ e' = e) ∨ (q ≠ p ∧ P.heap q = some e') := by
  rw [hh] at hq
  by_cases hqp : q = p
  · subst hqp
    rw [Function.update_self] at hq
    cases hq
    exact .inl ⟨rfl, rfl⟩
  · rw [Function.update_of_ne hqp] at hq
    exact .inr ⟨hqp, hq⟩

/-- **The bookkeeping after one block was written**: where the others are has not changed, and the
block is where its `refcount` says. -/
theorem Inv.replace (h : P.Inv U F) {P' : Pool} {V : List Ptr} {G : ℕ → List Ptr}
    (hh : P'.heap = Function.update P.heap p (some e)) (he : e.Ok)
    (hdom : ∀ q, q < P'.malloced ↔ q < P.malloced ∨ q = p)
    (hV : ∀ q, q ≠ p → (q ∈ V ↔ q ∈ U))
    (hG : ∀ i < memTypeMax, ∀ q, q ≠ p → (q ∈ G i ↔ q ∈ F i))
    (href : e.refcount = 1 ∨ e.refcount = 0) (hused : p ∈ V ↔ e.refcount = 1)
    (hfree : ∀ i < memTypeMax, p ∈ G i ↔ e.refcount = 0 ∧ sizeClass e.objSize = i)
    (hR : P'.links.Represents listHeads (listNodes V G))
    (hsu : ∀ i < memTypeMax, (P'.memStat i).blocksUsed = (V.countP fun q => P'.classOf q = i : ℕ))
    (hsf : ∀ i < memTypeMax, (P'.memStat i).blocksFree = ((G i).length : ℕ)) : P'.Inv V G where
  usedRing := hR.ring none
  poolRing i hi := hR.ring (some ⟨i, hi⟩)
  dom q := by
    rw [hdom q, hh]
    by_cases hq : q = p
    · simp [hq]
    · rw [Function.update_of_ne hq, h.dom q]
      simp [hq]
  entryOk q e' he' := by
    rcases heap_cases hh he' with ⟨rfl, rfl⟩ | ⟨-, he'⟩
    · exact he
    · exact h.entryOk q e' he'
  place q e' he' := by
    rcases heap_cases hh he' with ⟨rfl, rfl⟩ | ⟨hq, he'⟩
    · rcases href with h1 | h0
      · exact .inl ⟨hused.2 h1, h1⟩
      · exact .inr ⟨(hfree _ he.cls).2 ⟨h0, rfl⟩, h0⟩
    · rw [hV q hq, hG _ (h.entryOk q e' he').cls q hq]
      exact h.place q e' he'
  used q hq := by
    rw [hh]
    by_cases hqp : q = p
    · subst hqp
      exact ⟨e, Function.update_self _ _ _, hused.1 hq⟩
    · rw [Function.update_of_ne hqp]
      exact h.used q ((hV q hqp).1 hq)
  pooled i hi q hq := by
    rw [hh]
    by_cases hqp : q = p
    · subst hqp
      exact ⟨e, Function.update_self _ _ _, (hfree i hi).1 hq⟩
    · rw [Function.update_of_ne hqp]
      exact h.pooled i hi q ((hG i hi q hqp).1 hq)
  statUsed := hsu
  statFree := hsf

/-! ### Initialisation -/

theorem initListHead_foldl (n : ℕ) (m : Links MemNode) :
    ∀ i < n, ((List.range n).foldl (fun m i => initListHead (.memPools i) m) m).Ring
      (.memPools i) [] := by
  induction n with
  | zero => omega
  | succ n ih =>
    intro i hi
    rw [List.range_succ, List.foldl_append, List.foldl_cons, List.foldl_nil]
    rcases Nat.lt_succ_iff_lt_or_eq.1 hi with hlt | rfl
    · refine (ih i hlt).of_sameOff (initListHead_sameOff _ _) ?_
      simp
      omega
    · exact initListHead_ring _ _

/-- `mem_module_init` sets up an empty pool. -/
theorem memModuleInit_inv (raw : Ptr → Memory) :
    (memModuleInit raw).Inv [] (fun _ => []) where
  usedRing := initListHead_ring _ _
  poolRing i hi := by
    refine (initListHead_foldl memTypeMax _ i hi).of_sameOff (initListHead_sameOff _ _) ?_
    simp
  dom p := by simp [memModuleInit]
  entryOk p e he := by simp [memModuleInit] at he
  place p e he := by simp [memModuleInit] at he
  used p hp := by simp at hp
  pooled i _ p hp := by simp at hp
  statUsed i _ := by simp [memModuleInit]
  statFree i _ := by simp [memModuleInit]

theorem memModuleInit_ok (raw : Ptr → Memory) : (memModuleInit raw).Ok :=
  ⟨_, _, memModuleInit_inv raw⟩

/-! ### Allocation -/

/-- `memset(me->obj, 0, 1 << (i+4))` stays within the block and in front of the guard. -/
theorem clear_spec (hroom : e.room = blockSize i + 1) :
    ∃ e', e.poke 0 (List.replicate (blockSize i) 0) = .ok e' ∧ e'.objSize = e.objSize ∧
      e'.refcount = e.refcount ∧ e'.module = e.module ∧ e'.room = e.room ∧
      (∀ k < blockSize i, e'.obj k = 0) ∧ e'.obj (blockSize i) = e.obj (blockSize i) := by
  refine ⟨{ e with obj := write e.obj 0 (List.replicate (blockSize i) 0) }, ?_, rfl, rfl, rfl, rfl,
    fun k hk => ?_, ?_⟩
  · rw [MemEntry.poke, if_pos (by simp [hroom])]
  · have hin : write e.obj 0 (List.replicate (blockSize i) 0) (0 + k) = _ :=
      write_of_inside (by simpa using hk)
    rw [Nat.zero_add] at hin
    exact hin.trans (List.getElem_replicate _)
  · show write e.obj 0 (List.replicate (blockSize i) 0) (blockSize i) = _
    exact write_of_outside (.inr (by rw [List.length_replicate, Nat.zero_add]))

/-- What a block looks like when `mem_alloc` returns it. -/
structure Fresh (e : MemEntry) (module : Option String) (size : ℕ) : Prop where
  ok : e.Ok
  cls : sizeClass e.objSize = sizeClass size
  module : e.module = module
  refcount : e.refcount = 1
  zero : ∀ k < blockSize (sizeClass size), e.obj k = 0

/-- The bookkeeping of an allocation: block `p`, not live before, is in front of `U` and in no
`F i` any more. -/
theorem Inv.admit (h : P.Inv U F) {P' : Pool} {G : ℕ → List Ptr} (hp : p ∉ U)
    (hh : P'.heap = Function.update P.heap p (some e)) (he : e.Ok) (hr : e.refcount = 1)
    (hdom : ∀ q, q < P'.malloced ↔ q < P.malloced ∨ q = p)
    (hG : ∀ i < memTypeMax, ∀ q, q ∈ G i ↔ q ∈ F i ∧ q ≠ p)
    (hR : P'.links.Represents listHeads (listNodes (p :: U) G))
    (hsu : ∀ i, (P'.memStat i).blocksUsed =
      (P.memStat i).blocksUsed + if i = sizeClass e.objSize then 1 else 0)
    (hsf : ∀ i < memTypeMax, (P'.memStat i).blocksFree = ((G i).length : ℕ)) :
    P'.Inv (p :: U) G := by
  refine h.replace hh he hdom (fun q hq => by simp [hq]) (fun i hi q hq => ?_) (.inl hr)
    (iff_of_true List.mem_cons_self hr) (fun i hi => iff_of_false ?_ ?_) hR (fun i hi => ?_) hsf
  · rw [hG i hi q]
    exact and_iff_left hq
  · exact fun hmem => ((hG i hi p).1 hmem).2 rfl
  · omega
  · have hU' : U.countP (fun q => P'.classOf q = i) = U.countP fun q => P.classOf q = i := by
      apply List.countP_congr
      intro q hq
      have hqp : q ≠ p := fun e => hp (e ▸ hq)
      simp [classOf_of_heap hh, hqp]
    rw [hsu, h.statUsed i hi, List.countP_cons, hU', classOf_of_heap hh, if_pos rfl]
    by_cases hc : sizeClass e.objSize = i
    · simp [hc]
    · simp [hc, Ne.symm hc]

/-- `list_add` puts a block that is in no list in front of `MEM_USED_LIST`. -/
theorem lists_admit {m : Links MemNode} (R : m.Represents listHeads (listNodes U F))
    (hp : Unlinked listHeads (listNodes U F) (.entry p)) :
    ∃ m', listAdd (.entry p) .memUsedList m = .ok m' ∧
      m'.Represents listHeads (listNodes (p :: U) F) := by
  obtain ⟨m', hrun, R'⟩ := R.listAdd none hp
  rw [show MemNode.entry p :: listNodes U F none = (p :: U).map .entry from rfl,
    update_listNodes_used] at R'
  exact ⟨m', hrun, R'⟩

/-- The block that `malloc` made joins the live ones. -/
theorem memAllocFresh_spec (h : P.Inv U F) (module : Option String) {size : ℕ}
    (hs : sizeClass size < memTypeMax) :
    ∃ P' e, memAllocFresh module size (sizeClass size) P = .ok (P.malloced, P') ∧
      P'.Inv (P.malloced :: U) F ∧ P.malloced ∉ U ∧
      P'.heap = Function.update P.heap P.malloced (some e) ∧
      P'.malloced = P.malloced + 1 ∧ Fresh e module size := by
  have hnU : P.malloced ∉ U := fun hp => lt_irrefl _ (h.used_lt hp)
  have hnF : ∀ i < memTypeMax, P.malloced ∉ F i := fun i hi hp =>
    lt_irrefl _ (h.pooled_lt hi hp)
  -- the two stores into the new block: the guard byte and the zeroes
  obtain ⟨e, he, hsize, href, hmod, hroom, hzero, hguard⟩ :=
    clear_spec (e := ⟨size, 1, module, blockSize (sizeClass size) + 1,
      write (P.raw P.malloced) (blockSize (sizeClass size)) [guardByte]⟩)
      (i := sizeClass size) rfl
  have hg : e.obj (blockSize (sizeClass size)) = guardByte := by
    rw [hguard]
    exact write_of_inside (d := [guardByte]) (k := 0) (by simp)
  have hfresh : Fresh e module size :=
    ⟨⟨by rw [hsize]; exact hs, by rw [hroom, hsize], by rw [hsize]; exact hg⟩, by rw [hsize],
      hmod, href, hzero⟩
  obtain ⟨m', hm', hR⟩ := lists_admit h.represents (unlinked_entry hnU hnF)
  refine ⟨⟨P.raw, P.malloced + 1, Function.update P.heap P.malloced (some e), m',
    Function.update P.memStat (sizeClass size) ⟨(P.memStat (sizeClass size)).blocksUsed + 1,
      (P.memStat (sizeClass size)).blocksFree⟩⟩,
    e, ?_, h.admit hnU rfl hfresh.ok href (fun q => ?_) (fun i hi q => ?_) hR
    (fun i => ?_) (fun i hi => ?_), hnU, rfl, rfl, hfresh⟩
  · have hpoke : (⟨size, 1, none, blockSize (sizeClass size) + 1, P.raw P.malloced⟩ :
        MemEntry).poke (blockSize (sizeClass size)) [guardByte] = .ok ⟨size, 1, none,
          blockSize (sizeClass size) + 1,
          write (P.raw P.malloced) (blockSize (sizeClass size)) [guardByte]⟩ := by
      simp [MemEntry.poke]
    simp only [memAllocFresh, hpoke, ok_bind, hm', he, pure_eq_ok]
  · simp only
    omega
  · have hne : q ∈ F i → q ≠ P.malloced := fun hq e => hnF i hi (e ▸ hq)
    tauto
  · simp only [hsize]
    by_cases hi : i = sizeClass size
    · simp [hi]
    · simp [hi]
  · by_cases hc : i = sizeClass size
    · subst hc
      simpa using h.statFree _ hi
    · simpa [hc] using h.statFree i hi

/-- Without its first block, a pool list has the others. -/
theorem Inv.mem_tail (h : P.Inv U F) {c : ℕ} {rest : List Ptr} (hc : c < memTypeMax)
    (hp : F c = p :: rest) (hi : i < memTypeMax) (q : Ptr) :
    q ∈ Function.update F c rest i ↔ q ∈ F i ∧ q ≠ p := by
  have hpF : p ∈ F c := by simp [hp]
  have hprest : p ∉ rest := by
    have hnodup := h.nodup_pool hc
    rw [hp] at hnodup
    exact (List.nodup_cons.1 hnodup).1
  by_cases hic : i = c
  · subst hic
    have hne : q ∈ rest → q ≠ p := fun hq e => hprest (e ▸ hq)
    rw [Function.update_self, hp, List.mem_cons]
    tauto
  · have hne : q ∈ F i → q ≠ p := fun hq e => hic (h.class_unique hi hc (e ▸ hq) hpF)
    rw [Function.update_of_ne hic]
    tauto

/-- `list_del` takes the first block out of the list of its class. -/
theorem lists_take {m : Links MemNode} (R : m.Represents listHeads (listNodes U F)) {c : ℕ}
    {rest : List Ptr} (hc : c < memTypeMax) (hp : F c = p :: rest) :
    ∃ m', listDel (.entry p) m = .ok m' ∧
      m'.Represents listHeads (listNodes U (Function.update F c rest)) ∧
      Unlinked listHeads (listNodes U (Function.update F c rest)) (.entry p) := by
  have hnodes : listNodes U F (some ⟨c, hc⟩) = (p :: rest).map .entry := by rw [listNodes, hp]
  have hmem : MemNode.entry p ∈ listNodes U F (some ⟨c, hc⟩) := by
    rw [hnodes]
    exact List.mem_cons_self
  have hseq : Function.update (listNodes U F) (some ⟨c, hc⟩)
      ((listNodes U F (some ⟨c, hc⟩)).erase (.entry p)) =
        listNodes U (Function.update F c rest) := by
    rw [hnodes, List.map_cons, List.erase_cons_head, update_listNodes_free]
  obtain ⟨m', hrun, R', -, -⟩ := R.listDel hmem
  exact ⟨m', hrun, hseq ▸ R', hseq ▸ R.unlinked_erase hmem⟩

/-- The first block of a pool list joins the live ones. -/
theorem memAllocReuse_spec (h : P.Inv U F) (module : Option String) {size : ℕ} {rest : List Ptr}
    (hs : sizeClass size < memTypeMax) (hp : F (sizeClass size) = p :: rest) :
    ∃ P' e, memAllocReuse module (sizeClass size) P = .ok (p, P') ∧
      P'.Inv (p :: U) (Function.update F (sizeClass size) rest) ∧ p ∉ U ∧
      P'.heap = Function.update P.heap p (some e) ∧ P'.malloced = P.malloced ∧
      Fresh e module size := by
  have hpF : p ∈ F (sizeClass size) := by simp [hp]
  have hnU : p ∉ U := fun hpU => h.notMem_pool hpU hs hpF
  have hG : ∀ i < memTypeMax, ∀ q, q ∈ Function.update F (sizeClass size) rest i ↔
      q ∈ F i ∧ q ≠ p := fun i hi => h.mem_tail hs hp hi
  obtain ⟨e₀, he₀, hr₀, hc₀⟩ := h.pooled _ hs p hpF
  have hok₀ := h.entryOk p e₀ he₀
  obtain ⟨m₁, hm₁, R₁, hunlinked⟩ := lists_take h.represents hs hp
  obtain ⟨m₂, hm₂, R₂⟩ := lists_admit R₁ hunlinked
  obtain ⟨e, he, hsize, href, hmod, hroom, hzero, hguard⟩ :=
    clear_spec (e := { e₀ with module := module, refcount := e₀.refcount + 1 })
      (i := sizeClass size) (by rw [hok₀.room, hc₀])
  have hcls : sizeClass e.objSize = sizeClass size := by rw [hsize, hc₀]
  have hfresh : Fresh e module size := by
    refine ⟨⟨by rw [hcls]; exact hs, ?_, ?_⟩, hcls, hmod, by rw [href, hr₀]; rfl, hzero⟩
    · rw [hroom, hcls]
      exact hc₀ ▸ hok₀.room
    · rw [hcls, hguard]
      exact hc₀ ▸ hok₀.guard
  refine ⟨⟨P.raw, P.malloced, Function.update P.heap p (some e), m₂,
    Function.update P.memStat (sizeClass size) ⟨(P.memStat (sizeClass size)).blocksUsed + 1,
      (P.memStat (sizeClass size)).blocksFree - 1⟩⟩,
    e, ?_, h.admit hnU rfl hfresh.ok hfresh.refcount (h.lt_malloced_iff he₀) hG R₂
    (fun i => ?_) (fun i hi => ?_), hnU, rfl, rfl, hfresh⟩
  · have hring := h.poolRing _ hs
    rw [hp, List.map_cons] at hring
    have hnext : P.links.next (.memPools (sizeClass size)) = some (.entry p) := hring.next_head
    have href1 : e₀.refcount + 1 = 1 := by omega
    simp only [memAllocReuse, hnext, containerOfDlist, ok_bind, hm₁, he₀, fetch_some, hm₂,
      assert_of href1, he, pure_eq_ok]
  · by_cases hi : i = sizeClass size
    · simp [hi, hcls]
    · simp [hi, hcls]
  · by_cases hc : i = sizeClass size
    · subst hc
      simp only [Function.update_self, h.statFree _ hi, hp, List.length_cons]
      push_cast
      ring
    · simpa [hc] using h.statFree i hi

/-- `mem_alloc` puts one block in front of `U`: the first of its class's pool list, or the next
one of `malloc` when that list is empty. -/
theorem memAlloc_inv (h : P.Inv U F) (module : Option String) {size : ℕ}
    (hs : size ≤ maxExtMemBlock) :
    ∃ p P' e G, memAlloc module size P = .ok (p, P') ∧ P'.Inv (p :: U) G ∧ p ∉ U ∧
      P'.heap = Function.update P.heap p (some e) ∧ Fresh e module size ∧
      ((F (sizeClass size) = [] ∧ P'.malloced = P.malloced + 1 ∧ G = F) ∨
        ∃ rest, F (sizeClass size) = p :: rest ∧ P'.malloced = P.malloced ∧
          G = Function.update F (sizeClass size) rest) := by
  have hc := sizeClass_lt hs
  have hempty := listEmpty_iff (h.poolRing _ hc)
  cases hF : F (sizeClass size) with
  | nil =>
    obtain ⟨P', e, hrun, hinv, hp, hheap, hm, hfresh⟩ := memAllocFresh_spec h module hc
    refine ⟨_, P', e, F, ?_, hinv, hp, hheap, hfresh, .inl ⟨rfl, hm, rfl⟩⟩
    simp only [memAlloc, assert_of hs, assert_of hc, ok_bind, hempty.2 (by simp [hF]), if_true,
      hrun]
  | cons p rest =>
    obtain ⟨P', e, hrun, hinv, hp, hheap, hm, hfresh⟩ := memAllocReuse_spec h module hc hF
    refine ⟨p, P', e, _, ?_, hinv, hp, hheap, hfresh, .inr ⟨rest, rfl, hm, rfl⟩⟩
    have hne : listEmpty (.memPools (sizeClass size)) P.links = false := by
      rw [Bool.eq_false_iff, ne_eq, hempty]
      simp [hF]
    simp only [memAlloc, assert_of hs, assert_of hc, ok_bind, hne, Bool.false_eq_true, if_false,
      hrun]

/-! ### Release -/

/-- The bookkeeping of a release: block `p` leaves `U` for the end of the list of its class. -/
theorem Inv.retire (h : P.Inv U F) {P' : Pool} (hp : p ∈ U) (he : P.heap p = some e)
    (hh : P'.heap = Function.update P.heap p (some { e with refcount := 0 }))
    (hm : P'.malloced = P.malloced)
    (hR : P'.links.Represents listHeads (listNodes (U.erase p)
      (Function.update F (sizeClass e.objSize) (F (sizeClass e.objSize) ++ [p]))))
    (hsu : ∀ i, (P'.memStat i).blocksUsed =
      (P.memStat i).blocksUsed - if i = sizeClass e.objSize then 1 else 0)
    (hsf : ∀ i, (P'.memStat i).blocksFree =
      (P.memStat i).blocksFree + if i = sizeClass e.objSize then 1 else 0) :
    P'.Inv (U.erase p)
      (Function.update F (sizeClass e.objSize) (F (sizeClass e.objSize) ++ [p])) := by
  have hok := h.entryOk p e he
  refine h.replace hh ⟨hok.cls, hok.room, hok.guard⟩ (hm ▸ h.lt_malloced_iff he)
    (fun q hq => List.mem_erase_of_ne hq) (fun i hi q hq => ?_) (.inr rfl)
    (iff_of_false h.nodup_used.not_mem_erase (by simp)) (fun i hi => ?_) hR (fun i hi => ?_)
    (fun i hi => ?_)
  · by_cases hc : i = sizeClass e.objSize
    · subst hc
      simp [hq]
    · rw [Function.update_of_ne hc]
  · by_cases hc : i = sizeClass e.objSize
    · subst hc
      simp
    · rw [Function.update_of_ne hc]
      exact iff_of_false (h.notMem_pool hp hi) fun h0 => hc h0.2.symm
  · have hpc : P.classOf p = sizeClass e.objSize := by simp [classOf, he]
    rw [classOf_same he hh rfl, hsu, h.statUsed i hi, List.countP_erase, hpc]
    by_cases hc : sizeClass e.objSize = i
    · have hpos : 0 < U.countP fun q => P.classOf q = i :=
        List.countP_pos_iff.2 ⟨p, hp, by simp [hpc, hc]⟩
      simp only [hc, hp, decide_true, and_self, if_true]
      omega
    · simp [hc, Ne.symm hc]
  · rw [hsf, h.statFree i hi]
    by_cases hc : i = sizeClass e.objSize
    · subst hc
      simp
    · simp [hc]

/-- `list_del` takes a block out of `MEM_USED_LIST`, and `list_add_tail` puts it at the end of a
pool list. -/
theorem Inv.lists_retire (h : P.Inv U F) (hp : p ∈ U) {c : ℕ} (hc : c < memTypeMax) :
    ∃ m₁ m₂, listDel (.entry p) P.links = .ok m₁ ∧
      listAddTail (.entry p) (.memPools c) m₁ = .ok m₂ ∧
      m₂.Represents listHeads (listNodes (U.erase p) (Function.update F c (F c ++ [p]))) := by
  have hinj : Function.Injective MemNode.entry := fun a b hab => by cases hab; rfl
  have hmem : MemNode.entry p ∈ listNodes U F none := List.mem_map_of_mem hp
  have hseq : Function.update (listNodes U F) none ((listNodes U F none).erase (.entry p)) =
      listNodes (U.erase p) F := by
    rw [listNodes, ← List.map_erase hinj, update_listNodes_used]
  obtain ⟨m₁, hm₁, R₁, -, -⟩ := h.represents.listDel hmem
  have hunlinked := h.represents.unlinked_erase hmem
  rw [hseq] at R₁ hunlinked
  obtain ⟨m₂, hm₂, R₂⟩ := R₁.listAddTail (some ⟨c, hc⟩) hunlinked
  rw [listNodes, show (F c).map .entry ++ [MemNode.entry p] = (F c ++ [p]).map .entry by simp,
    update_listNodes_free] at R₂
  exact ⟨m₁, m₂, hm₁, hm₂, R₂⟩

/-- `mem_free` moves a live block to the end of the list of its class. -/
theorem memFree_inv (h : P.Inv U F) (hp : p ∈ U) (he : P.heap p = some e) :
    ∃ P', memFree p P = .ok P' ∧
      P'.Inv (U.erase p)
        (Function.update F (sizeClass e.objSize) (F (sizeClass e.objSize) ++ [p])) ∧
      P'.heap = Function.update P.heap p (some { e with refcount := 0 }) ∧
      P'.malloced = P.malloced := by
  have hok := h.entryOk p e he
  have hr : e.refcount = 1 := by
    obtain ⟨e', he', hr'⟩ := h.used p hp
    cases he.symm.trans he'
    exact hr'
  obtain ⟨m₁, m₂, hm₁, hm₂, hR⟩ := h.lists_retire hp hok.cls
  refine ⟨⟨P.raw, P.malloced, Function.update P.heap p (some { e with refcount := 0 }), m₂,
    Function.update P.memStat (sizeClass e.objSize)
      ⟨(P.memStat (sizeClass e.objSize)).blocksUsed - 1,
        (P.memStat (sizeClass e.objSize)).blocksFree + 1⟩⟩,
    ?_, h.retire hp he rfl rfl hR (fun i => ?_) (fun i => ?_), rfl, rfl⟩
  · have hpeek : e.peek (blockSize (sizeClass e.objSize)) = .ok guardByte := by
      rw [MemEntry.peek, if_pos (by rw [hok.room]; omega), hok.guard]
    have hsub : e.refcount - 1 = 0 := by omega
    simp only [memFree, he, fetch_some, ok_bind, assert_of hok.cls, hpeek, assert_of trivial,
      hsub, hm₁, hm₂, pure_eq_ok]
  · by_cases hc : i = sizeClass e.objSize <;> simp [hc]
  · by_cases hc : i = sizeClass e.objSize <;> simp [hc]

/-! ### The live blocks -/

/-- The live blocks are those of `MEM_USED_LIST`. -/
theorem Inv.live_eq_some_iff (h : P.Inv U F) : P.live p = some e ↔ p ∈ U ∧ P.heap p = some e := by
  unfold live
  constructor
  · intro hl
    obtain ⟨e', he', hr⟩ := Option.bind_eq_some_iff.1 hl
    split_ifs at hr with hr1
    · cases hr
      refine ⟨?_, he'⟩
      rcases h.place p e he' with ⟨hU, -⟩ | ⟨-, h0⟩
      · exact hU
      · omega
  · rintro ⟨hU, he⟩
    obtain ⟨e', he', hr⟩ := h.used p hU
    cases he.symm.trans he'
    simp [he, hr]

theorem Inv.live_eq_none_iff (h : P.Inv U F) : P.live p = none ↔ p ∉ U := by
  constructor
  · intro hl hU
    obtain ⟨e, he, -⟩ := h.used p hU
    rw [h.live_eq_some_iff.2 ⟨hU, he⟩] at hl
    cases hl
  · intro hU
    rw [Option.eq_none_iff_forall_not_mem]
    exact fun e he => hU (h.live_eq_some_iff.1 he).1

/-- The live blocks after a heap update. -/
theorem live_of_heap {P' : Pool} (hh : P'.heap = Function.update P.heap p (some e)) :
    P'.live = Function.update P.live p (if e.refcount = 1 then some e else none) := by
  funext q
  unfold live
  rw [hh]
  by_cases hq : q = p
  · subst hq
    simp
  · rw [Function.update_of_ne hq, Function.update_of_ne hq]

theorem Ok.entryOk (h : P.Ok) (hl : P.live p = some e) : e.Ok ∧ e.refcount = 1 := by
  obtain ⟨U, F, h⟩ := h
  obtain ⟨hU, he⟩ := h.live_eq_some_iff.1 hl
  obtain ⟨e', he', hr⟩ := h.used p hU
  cases he.symm.trans he'
  exact ⟨h.entryOk p e he, hr⟩

theorem Ok.capacity_pos (h : P.Ok) (hl : P.live p = some e) : 0 < e.capacity := by
  rw [(h.entryOk hl).1.capacity]
  exact blockSize_pos _

/-- When the class of the size has no block, `mem_alloc` gets the next new one. -/
theorem memAlloc_of_empty {module : Option String} {size : ℕ}
    (hempty : listEmpty (.memPools (sizeClass size)) P.links = true)
    (h : memAlloc module size P = .ok (p, P')) : p = P.malloced := by
  unfold memAlloc at h
  obtain ⟨-, -, h⟩ := bind_eq_ok.1 h
  obtain ⟨-, -, h⟩ := bind_eq_ok.1 h
  rw [if_pos hempty] at h
  unfold memAllocFresh at h
  obtain ⟨_, -, h⟩ := bind_eq_ok.1 h
  obtain ⟨_, -, h⟩ := bind_eq_ok.1 h
  obtain ⟨_, -, h⟩ := bind_eq_ok.1 h
  cases h
  rfl

/-- **What `mem_alloc` does to the live blocks**: one more, under a name no live block has, with
room for what was asked and nothing but zeroes in it. -/
theorem memAlloc_spec (h : P.Ok) (module : Option String) {size : ℕ} (hs : size ≤ maxExtMemBlock) :
    ∃ p P' e, memAlloc module size P = .ok (p, P') ∧ P'.Ok ∧ P.live p = none ∧
      P'.live = Function.update P.live p (some e) ∧ Fresh e module size := by
  obtain ⟨U, F, h⟩ := h
  obtain ⟨p, P', e, G, hrun, hinv, hp, hheap, hfresh, -⟩ := memAlloc_inv h module hs
  refine ⟨p, P', e, hrun, ⟨_, _, hinv⟩, h.live_eq_none_iff.2 hp, ?_, hfresh⟩
  rw [live_of_heap hheap, if_pos hfresh.refcount]

/-- **What `mem_free` does to the live blocks**: one less. -/
theorem memFree_spec (h : P.Ok) (hl : P.live p = some e) :
    ∃ P', memFree p P = .ok P' ∧ P'.Ok ∧ P'.live = Function.update P.live p none := by
  obtain ⟨U, F, h⟩ := h
  obtain ⟨hU, he⟩ := h.live_eq_some_iff.1 hl
  obtain ⟨P', hrun, hinv, hheap, -⟩ := memFree_inv h hU he
  refine ⟨P', hrun, ⟨_, _, hinv⟩, ?_⟩
  rw [live_of_heap hheap]
  rfl

/-- `blocks_used` depends on the live blocks only. -/
theorem Ok.blocksUsed_eq {P' : Pool} (h : P.Ok) (h' : P'.Ok) (hl : P'.live = P.live)
    (hi : i < memTypeMax) : (P'.memStat i).blocksUsed = (P.memStat i).blocksUsed := by
  obtain ⟨U, F, h⟩ := h
  obtain ⟨U', F', h'⟩ := h'
  have hperm : U'.Perm U := (List.perm_ext_iff_of_nodup h'.nodup_used h.nodup_used).2 fun p => by
    rw [← not_iff_not, ← h'.live_eq_none_iff, ← h.live_eq_none_iff, hl]
  have hclass : ∀ p ∈ U', decide (P'.classOf p = i) = true ↔ decide (P.classOf p = i) = true := by
    intro p hp
    obtain ⟨e, he, -⟩ := h'.used p hp
    have hlive : P.live p = some e := by
      rw [← hl]
      exact h'.live_eq_some_iff.2 ⟨hp, he⟩
    simp [classOf, he, (h.live_eq_some_iff.1 hlive).2]
  rw [h'.statUsed i hi, h.statUsed i hi, List.countP_congr hclass, hperm.countP_eq]

/-! ### Stores and loads of the owner -/

/-- The owner of a block cannot break the bookkeeping: its stores end in front of the guard. -/
theorem Inv.setEntry (h : P.Inv U F) (hl : P.live p = some e) {off : ℕ} {d : List UInt8}
    (hb : off + d.length ≤ e.capacity) :
    (P.setEntry p { e with obj := write e.obj off d }).Inv U F := by
  obtain ⟨hU, he⟩ := h.live_eq_some_iff.1 hl
  have hok := h.entryOk p e he
  have hr : e.refcount = 1 := by
    obtain ⟨e', he', hr⟩ := h.used p hU
    cases he.symm.trans he'
    exact hr
  have hguard : write e.obj off d (blockSize (sizeClass e.objSize)) = guardByte := by
    rw [hok.capacity] at hb
    exact (write_of_outside (.inr hb)).trans hok.guard
  refine h.replace rfl ⟨hok.cls, hok.room, hguard⟩ (h.lt_malloced_iff he) (fun _ _ => Iff.rfl)
    (fun _ _ _ _ => Iff.rfl) (.inl hr) (iff_of_true hU hr) (fun i hi => ?_) h.represents
    (fun i hi => ?_) h.statFree
  · have hr0 : e.refcount ≠ 0 := by omega
    exact iff_of_false (h.notMem_pool hU hi) fun h0 => hr0 h0.1
  · have hheap : (P.setEntry p { e with obj := write e.obj off d }).heap =
        Function.update P.heap p (some { e with obj := write e.obj off d }) := rfl
    rw [classOf_same he hheap rfl]
    exact h.statUsed i hi

/-- **What a store does to the live blocks**: it changes the stored bytes of its own block. -/
theorem store_eq (hl : P.live p = some e) {off : ℕ} {d : List UInt8}
    (hb : off + d.length ≤ e.capacity) :
    P.store p off d = .ok (P.setEntry p { e with obj := write e.obj off d }) := by
  rw [store, hl, fetch_some, ok_bind, if_pos hb]
  rfl

theorem store_spec (h : P.Ok) (hl : P.live p = some e) {off : ℕ} {d : List UInt8}
    (hb : off + d.length ≤ e.capacity) :
    ∃ P', P.store p off d = .ok P' ∧ P'.Ok ∧
      P'.live = Function.update P.live p (some { e with obj := write e.obj off d }) := by
  have hr := (h.entryOk hl).2
  obtain ⟨U, F, h⟩ := h
  refine ⟨_, store_eq hl hb, ⟨U, F, h.setEntry hl hb⟩, ?_⟩
  rw [live_of_heap rfl]
  simp [hr]

theorem load_spec (hl : P.live p = some e) {off n : ℕ} (hb : off + n ≤ e.capacity) :
    P.load p off n = .ok (read e.obj off n) := by
  simp [load, hl, hb]

/-! ### Reallocation -/

/-- The block that `mem_realloc` returns: fresh, with the old bytes copied in when both guards of
the copy hold. -/
def reallocEntry (e₁ e : MemEntry) (oldSize newSize : ℕ) : MemEntry :=
  if oldSize ≤ e.objSize ∧ oldSize ≤ newSize then
    { e₁ with obj := write e₁.obj 0 (read e.obj 0 oldSize) }
  else
    e₁

/-- `mem_realloc` is an allocation under the same module, a copy and a release. -/
theorem memRealloc_inv (h : P.Inv U F) (hp : p ∈ U) (he : P.heap p = some e) (oldSize : ℕ)
    {newSize : ℕ} (hs : newSize ≤ maxExtMemBlock) :
    ∃ q P' e₁ G, memRealloc p oldSize newSize P = .ok (q, P') ∧ P'.Inv (q :: U.erase p) G ∧
      q ∉ U ∧ Fresh e₁ e.module newSize ∧
      P'.heap = Function.update
        (Function.update P.heap q (some (reallocEntry e₁ e oldSize newSize)))
        p (some { e with refcount := 0 }) := by
  obtain ⟨q, P₁, e₁, G, hrun, hinv, hq, hheap, hfresh, -⟩ := memAlloc_inv h e.module hs
  have hqp : p ≠ q := fun hpq => hq (hpq ▸ hp)
  have he₁ : P₁.heap p = some e := by rw [hheap, Function.update_of_ne hqp, he]
  have hq₁ : P₁.live q = some e₁ := hinv.live_eq_some_iff.2 ⟨by simp, by simp [hheap]⟩
  have hp₁ : P₁.live p = some e := hinv.live_eq_some_iff.2 ⟨by simp [hp], he₁⟩
  have hok := h.entryOk p e he
  -- the copy reads inside the old block and writes inside the new one
  have hcopy : ∃ P₂, (if oldSize ≤ e.objSize ∧ oldSize ≤ newSize then
        P₁.load p 0 oldSize >>= P₁.store q 0
      else
        pure P₁) = .ok P₂ ∧ P₂.Inv (q :: U) G ∧
      P₂.heap = Function.update P.heap q (some (reallocEntry e₁ e oldSize newSize)) := by
    by_cases hc : oldSize ≤ e.objSize ∧ oldSize ≤ newSize
    · have hread : oldSize ≤ e.capacity := by
        rw [hok.capacity]
        exact hc.1.trans (le_blockSize_sizeClass hok.cls)
      have hwrite : oldSize ≤ e₁.capacity := by
        rw [hfresh.ok.capacity, hfresh.cls]
        exact hc.2.trans (le_blockSize_sizeClass (sizeClass_lt hs))
      refine ⟨P₁.setEntry q { e₁ with obj := write e₁.obj 0 (read e.obj 0 oldSize) }, ?_,
        hinv.setEntry hq₁ (by simpa using hwrite), ?_⟩
      · rw [if_pos hc, load_spec hp₁ (by simpa using hread)]
        simp [store, hq₁, hwrite]
      · simp [setEntry, hheap, reallocEntry, hc]
    · exact ⟨P₁, by rw [if_neg hc]; rfl, hinv, by rw [hheap, reallocEntry, if_neg hc]⟩
  obtain ⟨P₂, hrun₂, hinv₂, hheap₂⟩ := hcopy
  have he₂ : P₂.heap p = some e := by rw [hheap₂, Function.update_of_ne hqp, he]
  obtain ⟨P₃, hrun₃, hinv₃, hheap₃, -⟩ := memFree_inv hinv₂ (List.mem_cons_of_mem q hp) he₂
  rw [List.erase_cons_tail (by simpa using hqp.symm)] at hinv₃
  refine ⟨q, P₃, e₁, _, ?_, hinv₃, hq, hfresh, by rw [hheap₃, hheap₂]⟩
  simp only [memRealloc, he, fetch_some, ok_bind, hrun, he₁]
  rw [hrun₂]
  simp only [ok_bind, hrun₃, pure_eq_ok]

/-- **What `mem_realloc` does to the live blocks**: the old one is gone, and under a name no live
block has there is a new one. -/
theorem memRealloc_spec (h : P.Ok) (hl : P.live p = some e) (oldSize : ℕ) {newSize : ℕ}
    (hs : newSize ≤ maxExtMemBlock) :
    ∃ q P' e₁, memRealloc p oldSize newSize P = .ok (q, P') ∧ P'.Ok ∧ P.live q = none ∧
      Fresh e₁ e.module newSize ∧ P'.live = Function.update
        (Function.update P.live q (some (reallocEntry e₁ e oldSize newSize))) p none := by
  obtain ⟨U, F, h⟩ := h
  obtain ⟨hU, he⟩ := h.live_eq_some_iff.1 hl
  obtain ⟨q, P', e₁, G, hrun, hinv, hq, hfresh, hheap⟩ := memRealloc_inv h hU he oldSize hs
  refine ⟨q, P', e₁, hrun, ⟨_, _, hinv⟩, h.live_eq_none_iff.2 hq, hfresh, ?_⟩
  let P₁ : Pool := { P with
    heap := Function.update P.heap q (some (reallocEntry e₁ e oldSize newSize)) }
  have hr : (reallocEntry e₁ e oldSize newSize).refcount = 1 := by
    unfold reallocEntry
    split_ifs <;> exact hfresh.refcount
  have hl₁ : P₁.live = Function.update P.live q (some (reallocEntry e₁ e oldSize newSize)) := by
    have hheap₁ : P₁.heap =
        Function.update P.heap q (some (reallocEntry e₁ e oldSize newSize)) := rfl
    rw [live_of_heap hheap₁, if_pos hr]
  rw [live_of_heap (P := P₁) hheap, hl₁]
  rfl

end Pool

end Jujube
