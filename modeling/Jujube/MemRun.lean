import Jujube.MemInvariant
import Jujube.Foundation.Transition

/-!
# Runs of the pool

The callers of `mem.c`, as far as the pool can tell: they allocate, they free and reallocate
blocks they own, and they store into them.  `Session` adds to the pool what the callers know,
the blocks handed out and not yet given back, each with the size it was asked for and the module
it was asked under.

`PoolExact` is the representation invariant in terms of that history; `memRun_exact` proves it
after every run.
-/

namespace Jujube

open Transition Pool

/-- A block as its owner knows it. -/
structure Owned where
  block : Ptr
  size : ℕ
  module : Option String

deriving instance DecidableEq for Owned

/-- A call of the pool, or a store of an owner. -/
inductive MemOp
  | alloc (module : Option String) (size : ℕ)
  | free (block : Ptr)
  | realloc (block : Ptr) (oldSize newSize : ℕ)
  | store (block : Ptr) (off : ℕ) (d : List UInt8)

/-- The pool and the blocks its callers own, the latest first. -/
structure Session where
  pool : Pool
  owned : List Owned

namespace Session

/-- The blocks owned. -/
def blocks (s : Session) : List Ptr := s.owned.map Owned.block

/-- The module of the owner of a block. -/
def moduleOf (s : Session) (p : Ptr) : Option String :=
  (s.owned.find? fun o => decide (o.block = p)).bind Owned.module

/-- The owners after a block was given back. -/
def dropOwner (s : Session) (p : Ptr) : List Owned := s.owned.filter fun o => decide (o.block ≠ p)

/-- After `mem_module_init`. -/
def init (raw : Ptr → Bytes.Memory) : Session := ⟨memModuleInit raw, []⟩

/-- What a caller may do: sizes up to `MAX_EXT_MEM_BLOCK`, only blocks it owns, and stores
inside the capacity of their class. -/
def Allowed (s : Session) : MemOp → Prop
  | .alloc _ size => size ≤ maxExtMemBlock
  | .free p => p ∈ s.blocks
  | .realloc p _ newSize => p ∈ s.blocks ∧ newSize ≤ maxExtMemBlock
  | .store p off d => p ∈ s.blocks ∧ off + d.length ≤ blockSize (s.pool.classOf p)

instance (s : Session) : (op : MemOp) → Decidable (s.Allowed op)
  | .alloc _ size => inferInstanceAs (Decidable (size ≤ maxExtMemBlock))
  | .free p => inferInstanceAs (Decidable (p ∈ s.blocks))
  | .realloc p _ newSize => inferInstanceAs (Decidable (p ∈ s.blocks ∧ newSize ≤ maxExtMemBlock))
  | .store p off d =>
    inferInstanceAs (Decidable (p ∈ s.blocks ∧ off + d.length ≤ blockSize (s.pool.classOf p)))

/-- One call. -/
def step (s : Session) : MemOp → Except Fault Session
  | .alloc module size => do
    let (p, P) ← memAlloc module size s.pool
    return ⟨P, ⟨p, size, module⟩ :: s.owned⟩
  | .free p => do
    let P ← memFree p s.pool
    return ⟨P, s.dropOwner p⟩
  | .realloc p oldSize newSize => do
    let (q, P) ← memRealloc p oldSize newSize s.pool
    return ⟨P, ⟨q, newSize, s.moduleOf p⟩ :: s.dropOwner p⟩
  | .store p off d => do
    let P ← s.pool.store p off d
    return ⟨P, s.owned⟩

/-- Where a block can be. -/
inductive Place
  | live
  | free (i : ℕ)

/-- Block `p` is in that place, the free lists being `F`. -/
def InPlace (s : Session) (F : ℕ → List Ptr) (p : Ptr) : Place → Prop
  | .live => p ∈ s.blocks
  | .free i => i < memTypeMax ∧ p ∈ F i

/-- The representation invariant of the pool: `F i` is what `MemPools[i]` links. -/
structure PoolExact (s : Session) (F : ℕ → List Ptr) : Prop where
  /-- every block ever obtained from `malloc` is in exactly one place -/
  onePlace : ∀ p < s.pool.malloced, ∃! pl, s.InPlace F p pl
  /-- and only those are anywhere -/
  onlyMalloced : ∀ p pl, s.InPlace F p pl → p < s.pool.malloced
  /-- once -/
  nodupLive : s.blocks.Nodup
  nodupFree : ∀ i < memTypeMax, (F i).Nodup
  /-- `MemPools[i]` links exactly the free blocks of class `i` -/
  poolRing : ∀ i < memTypeMax, s.pool.links.Ring (.memPools i) ((F i).map .entry)
  /-- `MEM_USED_LIST` links exactly the live blocks -/
  usedRing : s.pool.links.Ring .memUsedList (s.blocks.map .entry)
  /-- a free block is in the list of the least class its `obj_size` fits -/
  freeEntry : ∀ i < memTypeMax, ∀ p ∈ F i, ∃ e, s.pool.heap p = some e ∧ e.refcount = 0 ∧
    e.objSize ≤ 2 ^ (i + 4) ∧ (∀ j < i, 2 ^ (j + 4) < e.objSize) ∧ e.capacity = 2 ^ (i + 4) ∧
    e.obj (2 ^ (i + 4)) = guardByte
  /-- a live block has the capacity of the least class its `obj_size` fits, at least the size
  its owner asked for, and the module of its owner -/
  liveEntry : ∀ o ∈ s.owned, ∃ e, s.pool.heap o.block = some e ∧ e.refcount = 1 ∧
    e.module = o.module ∧ ∃ i < memTypeMax, s.pool.classOf o.block = i ∧
      e.objSize ≤ 2 ^ (i + 4) ∧ (∀ j < i, 2 ^ (j + 4) < e.objSize) ∧ e.capacity = 2 ^ (i + 4) ∧
      o.size ≤ e.capacity ∧ e.obj (2 ^ (i + 4)) = guardByte
  /-- `blocks_used` counts the live blocks of the class -/
  blocksUsed : ∀ i < memTypeMax, (s.pool.memStat i).blocksUsed =
    (s.blocks.countP fun p => s.pool.classOf p = i : ℕ)
  /-- `blocks_free` counts the free ones -/
  blocksFree : ∀ i < memTypeMax, (s.pool.memStat i).blocksFree = ((F i).length : ℕ)

/-- What the steps keep: the bookkeeping of the pool is that of the owners. -/
structure Inv (s : Session) (F : ℕ → List Ptr) : Prop where
  pool : s.pool.Inv s.blocks F
  owner : ∀ o ∈ s.owned, ∃ e, s.pool.heap o.block = some e ∧ e.module = o.module ∧
    o.size ≤ blockSize (sizeClass e.objSize)

variable {s : Session} {F : ℕ → List Ptr} {p : Ptr}

/-! ### What a call that succeeds does -/

section Step

variable {P : Pool}

theorem step_alloc {module : Option String} {size : ℕ}
    (h : memAlloc module size s.pool = .ok (p, P)) :
    s.step (.alloc module size) = .ok ⟨P, ⟨p, size, module⟩ :: s.owned⟩ := by
  rw [step, h]
  rfl

theorem step_free (h : memFree p s.pool = .ok P) :
    s.step (.free p) = .ok ⟨P, s.dropOwner p⟩ := by
  rw [step, h]
  rfl

theorem step_realloc {q : Ptr} {oldSize newSize : ℕ}
    (h : memRealloc p oldSize newSize s.pool = .ok (q, P)) :
    s.step (.realloc p oldSize newSize) =
      .ok ⟨P, ⟨q, newSize, s.moduleOf p⟩ :: s.dropOwner p⟩ := by
  rw [step, h]
  rfl

theorem step_store {off : ℕ} {d : List UInt8} (h : s.pool.store p off d = .ok P) :
    s.step (.store p off d) = .ok ⟨P, s.owned⟩ := by
  rw [step, h]
  rfl

end Step

/-! ### The invariant -/

theorem init_inv (raw : Ptr → Bytes.Memory) : (init raw).Inv (fun _ => []) :=
  ⟨memModuleInit_inv raw, by simp [init]⟩

theorem dropOwner_blocks (h : s.blocks.Nodup) (p : Ptr) :
    (s.dropOwner p).map Owned.block = s.blocks.erase p := by
  rw [h.erase_eq_filter, dropOwner, blocks, List.filter_map]
  congr 1
  apply List.filter_congr
  intro o _
  simp [bne, beq_eq_decide]

theorem mem_dropOwner {o : Owned} : o ∈ s.dropOwner p ↔ o ∈ s.owned ∧ o.block ≠ p := by
  simp [dropOwner]

/-- The module of an owned block is the one its header carries. -/
theorem Inv.moduleOf_eq (h : s.Inv F) {e : MemEntry} (hp : p ∈ s.blocks)
    (he : s.pool.heap p = some e) : s.moduleOf p = e.module := by
  unfold moduleOf
  cases hf : s.owned.find? fun o => decide (o.block = p) with
  | none =>
    obtain ⟨o, ho, hop⟩ := List.mem_map.1 hp
    have := List.find?_eq_none.1 hf o ho
    simp [hop] at this
  | some o =>
    have hop : o.block = p := by simpa using List.find?_some hf
    obtain ⟨e', he', hm, -⟩ := h.owner o (List.mem_of_find?_eq_some hf)
    rw [hop] at he'
    cases he.symm.trans he'
    exact hm.symm

/-- What an owner stores fits in front of the guard of its block. -/
theorem Inv.storable (h : s.Inv F) {off : ℕ} {d : List UInt8} (hop : s.Allowed (.store p off d)) :
    ∃ e, s.pool.heap p = some e ∧ s.pool.live p = some e ∧ off + d.length ≤ e.capacity := by
  obtain ⟨hp, hb⟩ := hop
  obtain ⟨e, he, -⟩ := h.pool.used p hp
  refine ⟨e, he, h.pool.live_eq_some_iff.2 ⟨hp, he⟩, ?_⟩
  rw [(h.pool.entryOk p e he).capacity]
  simpa [classOf, he] using hb

/-- **One allowed call keeps the invariant and raises no assertion.** -/
theorem step_inv (h : s.Inv F) {op : MemOp} (hop : s.Allowed op) :
    ∃ s', s.step op = .ok s' ∧ ∃ F', s'.Inv F' := by
  have hnd := h.pool.nodup_used
  cases op with
  | alloc module size =>
    obtain ⟨p, P', e, G, hrun, hinv, hp, hheap, hfresh, -⟩ := memAlloc_inv h.pool module hop
    refine ⟨_, step_alloc hrun, G, hinv, ?_⟩
    intro o ho
    rcases List.mem_cons.1 ho with rfl | ho
    · refine ⟨e, by simp [hheap], hfresh.module, ?_⟩
      rw [hfresh.cls]
      exact le_blockSize_sizeClass (sizeClass_lt hop)
    · have hne : o.block ≠ p := fun hop => hp (hop ▸ List.mem_map_of_mem ho)
      obtain ⟨e', he', hrest⟩ := h.owner o ho
      exact ⟨e', by simp [hheap, hne, he'], hrest⟩
  | free p =>
    obtain ⟨e, he, -⟩ := h.pool.used p hop
    obtain ⟨P', hrun, hinv, hheap, -⟩ := memFree_inv h.pool hop he
    rw [← dropOwner_blocks hnd] at hinv
    refine ⟨_, step_free hrun, _, hinv, ?_⟩
    intro o ho
    obtain ⟨ho, hne⟩ := mem_dropOwner.1 ho
    obtain ⟨e', he', hrest⟩ := h.owner o ho
    exact ⟨e', by simp [hheap, hne, he'], hrest⟩
  | realloc p oldSize newSize =>
    obtain ⟨hp, hs⟩ := hop
    obtain ⟨e, he, -⟩ := h.pool.used p hp
    obtain ⟨q, P', e₁, G, hrun, hinv, hq, hfresh, hheap⟩ :=
      memRealloc_inv h.pool hp he oldSize hs
    have hqp : q ≠ p := fun hqp => hq (hqp ▸ hp)
    have hmod : (reallocEntry e₁ e oldSize newSize).module = e.module := by
      unfold reallocEntry
      split_ifs <;> exact hfresh.module
    have hcls : sizeClass (reallocEntry e₁ e oldSize newSize).objSize = sizeClass newSize := by
      unfold reallocEntry
      split_ifs <;> exact hfresh.cls
    rw [← dropOwner_blocks hnd] at hinv
    refine ⟨_, step_realloc hrun, G, hinv, ?_⟩
    intro o ho
    rcases List.mem_cons.1 ho with rfl | ho
    · refine ⟨reallocEntry e₁ e oldSize newSize, by simp [hheap, hqp], ?_, ?_⟩
      · rw [hmod, h.moduleOf_eq hp he]
      · rw [hcls]
        exact le_blockSize_sizeClass (sizeClass_lt hs)
    · obtain ⟨ho, hne⟩ := mem_dropOwner.1 ho
      have hoq : o.block ≠ q := fun hoq => hq (hoq ▸ List.mem_map_of_mem ho)
      obtain ⟨e', he', hrest⟩ := h.owner o ho
      exact ⟨e', by simp [hheap, hne, hoq, he'], hrest⟩
  | store p off d =>
    obtain ⟨e, he, hl, hcap⟩ := h.storable hop
    refine ⟨_, step_store (store_eq hl hcap), F, h.pool.setEntry hl hcap, ?_⟩
    intro o ho
    obtain ⟨e', he', hm, hsz⟩ := h.owner o ho
    by_cases hop : o.block = p
    · rw [hop] at he' ⊢
      cases he.symm.trans he'
      exact ⟨_, Function.update_self _ _ _, hm, hsz⟩
    · exact ⟨e', by simp [setEntry, hop, he'], hm, hsz⟩

/-- The invariant says where every block is and what it looks like. -/
theorem Inv.exact (h : s.Inv F) : s.PoolExact F where
  onePlace p hp := by
    obtain ⟨e, he⟩ := Option.isSome_iff_exists.1 ((h.pool.dom p).2 hp)
    have hc := (h.pool.entryOk p e he).cls
    rcases h.pool.place p e he with ⟨hU, -⟩ | ⟨hF, -⟩
    · refine ⟨.live, hU, fun pl hpl => ?_⟩
      cases pl with
      | live => rfl
      | free i => exact absurd hpl.2 (h.pool.notMem_pool hU hpl.1)
    · refine ⟨.free _, ⟨hc, hF⟩, fun pl hpl => ?_⟩
      cases pl with
      | live => exact absurd hF (h.pool.notMem_pool hpl hc)
      | free i => rw [h.pool.class_unique hpl.1 hc hpl.2 hF]
  onlyMalloced p pl hpl := by
    cases pl with
    | live => exact h.pool.used_lt hpl
    | free i => exact h.pool.pooled_lt hpl.1 hpl.2
  nodupLive := h.pool.nodup_used
  nodupFree i hi := h.pool.nodup_pool hi
  poolRing := h.pool.poolRing
  usedRing := h.pool.usedRing
  freeEntry i hi p hp := by
    obtain ⟨e, he, hr, hc⟩ := h.pool.pooled i hi p hp
    have hok := h.pool.entryOk p e he
    obtain ⟨hle, hlt⟩ := (sizeClass_eq_iff hi).1 hc
    have hcap := hok.capacity
    have hguard := hok.guard
    simp only [hc, blockSize_eq] at hle hlt hcap hguard
    exact ⟨e, he, hr, hle, hlt, hcap, hguard⟩
  liveEntry o ho := by
    obtain ⟨e, he, hm, hsz⟩ := h.owner o ho
    obtain ⟨e', he', hr⟩ := h.pool.used o.block (List.mem_map_of_mem ho)
    cases he.symm.trans he'
    have hok := h.pool.entryOk o.block e he
    obtain ⟨hle, hlt⟩ := (sizeClass_eq_iff hok.cls).1 rfl
    have hcap := hok.capacity
    have hguard := hok.guard
    rw [← hcap] at hsz
    simp only [blockSize_eq] at hle hlt hcap hguard
    exact ⟨e, he, hr, hm, _, hok.cls, by simp [classOf, he], hle, hlt, hcap, hsz, hguard⟩
  blocksUsed := h.pool.statUsed
  blocksFree := h.pool.statFree

/-- The invariant holds after any calls the callers may make. -/
theorem run_inv {raw : Ptr → Bytes.Memory} {ops : List MemOp}
    (hops : Steps step Allowed (init raw) ops) (hrun : run step (init raw) ops = .ok s) :
    ∃ F, s.Inv F := by
  obtain ⟨t, ht, hF⟩ := exists_run (I := fun s : Session => ∃ F, s.Inv F)
    (fun s op ⟨F, h⟩ hop => step_inv h hop) ⟨_, init_inv raw⟩ hops
  cases hrun.symm.trans ht
  exact hF

end Session

end Jujube
