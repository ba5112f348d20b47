import Jujube.Foundation.Regions
import Jujube.MemRun

/-!
# The pool as an allocator of fresh zeroed regions

`Pool.contents` forgets everything about the pool but what the owners of its blocks can read.  On
it the calls of `mem.c` are those of an allocator that has no free lists, no size headers and no
memory of previous owners: `memRun_refines` proves this of every run.

The copy of `mem_realloc` is not what such an allocator would do: it is guarded by the `obj_size` of
the block, which is the size the block was first asked for.  `memRealloc_preserves_iff` says when it
preserves the data.
-/

namespace Jujube

open Bytes Transition Pool Regions

/-- What the owner of a block can read. -/
def MemEntry.contents (e : MemEntry) : List UInt8 := read e.obj 0 e.capacity

/-- What the owners of the allocated blocks can read. -/
def Pool.contents (P : Pool) : Regions.State Ptr := fun p => (P.live p).map MemEntry.contents

variable {P P' : Pool} {p q : Ptr} {e e₁ : MemEntry} {oldSize newSize : ℕ}

@[simp] theorem MemEntry.length_contents : e.contents.length = e.capacity := length_read

theorem Pool.contents_of_live (hl : P.live p = some e) : P.contents p = some e.contents := by
  simp [contents, hl]

/-- The contents after one block was replaced. -/
theorem Pool.contents_update {o : Option MemEntry} (h : P'.live = Function.update P.live p o) :
    P'.contents = Function.update P.contents p (o.map MemEntry.contents) := by
  funext r
  unfold contents
  rw [h]
  by_cases hr : r = p
  · subst hr
    simp
  · rw [Function.update_of_ne hr, Function.update_of_ne hr]

/-- A block from `mem_alloc` has nothing but zeroes in it. -/
theorem Pool.Fresh.contents {module : Option String} {size : ℕ} (h : Fresh e module size) :
    e.contents = zeroes (2 ^ (sizeClass size + 4)) := by
  have hcap : e.capacity = blockSize (sizeClass size) := by rw [h.ok.capacity, h.cls]
  rw [MemEntry.contents, hcap, read_replicate h.zero, blockSize_eq]
  rfl

/-- The number of bytes that `mem_realloc` copies. -/
def copied (e : MemEntry) (oldSize newSize : ℕ) : ℕ :=
  if oldSize ≤ e.objSize ∧ oldSize ≤ newSize then oldSize else 0

theorem copied_le_new (e : MemEntry) (hs : newSize ≤ maxExtMemBlock) :
    copied e oldSize newSize ≤ 2 ^ (sizeClass newSize + 4) := by
  unfold copied
  split_ifs with h
  · rw [← blockSize_eq]
    exact h.2.trans (le_blockSize_sizeClass (sizeClass_lt hs))
  · exact Nat.zero_le _

theorem copied_le_old (h : e.Ok) : copied e oldSize newSize ≤ e.capacity := by
  unfold copied
  split_ifs with hc
  · rw [h.capacity]
    exact hc.1.trans (le_blockSize_sizeClass h.cls)
  · exact Nat.zero_le _

/-- What is in the block that `mem_realloc` returns. -/
theorem contents_reallocEntry {module : Option String} (he : e.Ok) (h : Fresh e₁ module newSize)
    (hs : newSize ≤ maxExtMemBlock) :
    (reallocEntry e₁ e oldSize newSize).contents = e.contents.take (copied e oldSize newSize) ++
      zeroes (2 ^ (sizeClass newSize + 4) - copied e oldSize newSize) := by
  have hnew : copied e oldSize newSize ≤ 2 ^ (sizeClass newSize + 4) := copied_le_new e hs
  have hold : copied e oldSize newSize ≤ e.capacity := copied_le_old he
  have hcap : e₁.capacity = 2 ^ (sizeClass newSize + 4) := by
    rw [h.ok.capacity, h.cls, blockSize_eq]
  have hzero := h.contents
  unfold copied reallocEntry at *
  split_ifs at * with hc
  · have hwrite : 0 + (read e.obj 0 oldSize).length ≤ e₁.capacity := by
      rw [length_read, Nat.zero_add, hcap]
      exact hnew
    calc MemEntry.contents { e₁ with obj := write e₁.obj 0 (read e.obj 0 oldSize) }
        = read (write e₁.obj 0 (read e.obj 0 oldSize)) 0 e₁.capacity := rfl
      _ = [] ++ (read e.obj 0 oldSize ++ e₁.contents.drop (0 + oldSize)) := by
          rw [read_write_inside hwrite, length_read]
          rfl
      _ = e.contents.take oldSize ++ zeroes (2 ^ (sizeClass newSize + 4) - oldSize) := by
          rw [List.nil_append, Nat.zero_add, hzero, MemEntry.contents, take_read hold, zeroes,
            List.drop_replicate]
          rfl
  · simpa using hzero

/-! ### One call -/

/-- `mem_alloc` gives its caller a region that was not in use, with zeroes in it. -/
theorem memAlloc_refines (hP : P.Ok) (module : Option String) {size : ℕ}
    (hs : size ≤ maxExtMemBlock) :
    ∃ p P', memAlloc module size P = .ok (p, P') ∧
      Regions.Step P.contents (.alloc (2 ^ (sizeClass size + 4)) p) P'.contents := by
  obtain ⟨p, P', e, hrun, -, hnone, hP', hfresh⟩ := memAlloc_spec hP module hs
  have hA : P.contents p = none := by simp [contents, hnone]
  refine ⟨p, P', hrun, ?_⟩
  rw [contents_update hP', Option.map_some, hfresh.contents]
  exact .alloc _ hA

/-- `mem_free` takes one region out of use. -/
theorem memFree_refines (hP : P.Ok) (hl : P.live p = some e) :
    ∃ P', memFree p P = .ok P' ∧ Regions.Step P.contents (.free p) P'.contents := by
  obtain ⟨P', hrun, -, hP'⟩ := memFree_spec hP hl
  refine ⟨P', hrun, ?_⟩
  rw [contents_update hP']
  exact .free (contents_of_live hl)

/-- `mem_realloc` exchanges one region for another. -/
theorem memRealloc_refines (hP : P.Ok) (hl : P.live p = some e) (oldSize : ℕ)
    (hs : newSize ≤ maxExtMemBlock) :
    ∃ q P', memRealloc p oldSize newSize P = .ok (q, P') ∧ Regions.Step P.contents
      (.realloc p (copied e oldSize newSize) (2 ^ (sizeClass newSize + 4)) q) P'.contents := by
  obtain ⟨q, P', e₁, hrun, -, hnone, hfresh, hP'⟩ := memRealloc_spec hP hl oldSize hs
  have hA : P.contents q = none := by simp [contents, hnone]
  have he := (hP.entryOk hl).1
  have hcontents : P'.contents = Function.update (Function.update P.contents q
      (some (reallocEntry e₁ e oldSize newSize).contents)) p none := by
    funext r
    simp only [contents, hP', Function.update_apply]
    split_ifs <;> rfl
  refine ⟨q, P', hrun, ?_⟩
  rw [hcontents, contents_reallocEntry he hfresh hs]
  refine .realloc (contents_of_live hl) hA ?_ (copied_le_new e hs)
  rw [MemEntry.length_contents]
  exact copied_le_old he

/-- A store changes the region it is made to. -/
theorem store_refines (hP : P.Ok) (hl : P.live p = some e) {off : ℕ} {d : List UInt8}
    (hb : off + d.length ≤ e.capacity) :
    ∃ P', P.store p off d = .ok P' ∧ Regions.Step P.contents (.store p off d) P'.contents := by
  obtain ⟨P', hrun, -, hP'⟩ := store_spec hP hl hb
  have hcontents : MemEntry.contents { e with obj := write e.obj off d } =
      splice e.contents off d := read_write_inside hb
  refine ⟨P', hrun, ?_⟩
  rw [contents_update hP', Option.map_some, hcontents]
  exact .store (contents_of_live hl) (by rwa [MemEntry.length_contents])

namespace Session

variable {s s' : Session} {F : ℕ → List Ptr} {op : MemOp}

/-- A call of the pool, and the call of the allocator of regions that it is: the size is that of the
class, and the answer is any. -/
inductive Answers : MemOp → Regions.Call Ptr → Prop
  | alloc (module : Option String) (size : ℕ) (p : Ptr) :
    Answers (.alloc module size) (.alloc (2 ^ (sizeClass size + 4)) p)
  | free (p : Ptr) : Answers (.free p) (.free p)
  | realloc (p : Ptr) (oldSize newSize k : ℕ) (q : Ptr) :
    Answers (.realloc p oldSize newSize) (.realloc p k (2 ^ (sizeClass newSize + 4)) q)
  | store (p : Ptr) (off : ℕ) (d : List UInt8) : Answers (.store p off d) (.store p off d)

/-- In this state the regions in use are the blocks owned, the next call of the pool is a call of
the allocator of regions, and every guard byte is in place. -/
structure Exclusive (s : Session) : Prop where
  inUse : ∀ p, s.pool.contents p ≠ none ↔ p ∈ s.blocks
  alloc : ∀ module size, size ≤ maxExtMemBlock → ∃ p P', memAlloc module size s.pool = .ok (p, P') ∧
    Regions.Step s.pool.contents (.alloc (2 ^ (sizeClass size + 4)) p) P'.contents
  free : ∀ p ∈ s.blocks, ∃ P', memFree p s.pool = .ok P' ∧
    Regions.Step s.pool.contents (.free p) P'.contents
  realloc : ∀ p ∈ s.blocks, ∀ oldSize newSize, newSize ≤ maxExtMemBlock →
    ∃ k q P', memRealloc p oldSize newSize s.pool = .ok (q, P') ∧
      Regions.Step s.pool.contents (.realloc p k (2 ^ (sizeClass newSize + 4)) q) P'.contents
  guard : ∀ p e, s.pool.heap p = some e → e.obj (2 ^ (sizeClass e.objSize + 4)) = guardByte

/-- The owned blocks are live. -/
theorem Inv.live (h : s.Inv F) (hp : p ∈ s.blocks) : ∃ e, s.pool.live p = some e := by
  obtain ⟨e, he, -⟩ := h.pool.used p hp
  exact ⟨e, h.pool.live_eq_some_iff.2 ⟨hp, he⟩⟩

theorem Inv.exclusive (h : s.Inv F) : s.Exclusive := by
  have hP : s.pool.Ok := ⟨_, _, h.pool⟩
  refine ⟨fun p => ?_, fun module size => memAlloc_refines hP module, fun p hp => ?_,
    fun p hp oldSize newSize hs => ?_, fun p e he => ?_⟩
  · rw [contents, ne_eq, Option.map_eq_none_iff, h.pool.live_eq_none_iff, not_not]
  · obtain ⟨e, he⟩ := h.live hp
    exact memFree_refines hP he
  · obtain ⟨e, he⟩ := h.live hp
    exact ⟨_, memRealloc_refines hP he oldSize hs⟩
  · rw [← blockSize_eq]
    exact (h.pool.entryOk p e he).guard

/-- One allowed call is a call of the allocator of regions. -/
theorem step_refines (h : s.Inv F) (hop : s.Allowed op) (hstep : s.step op = .ok s') :
    ∃ c, Answers op c ∧ Regions.Step s.pool.contents c s'.pool.contents := by
  have hP : s.pool.Ok := ⟨_, _, h.pool⟩
  cases op with
  | alloc module size =>
    obtain ⟨p, P', hrun, hR⟩ := memAlloc_refines hP module hop
    cases hstep.symm.trans (step_alloc hrun)
    exact ⟨_, .alloc module size p, hR⟩
  | free p =>
    obtain ⟨e, he⟩ := h.live hop
    obtain ⟨P', hrun, hR⟩ := memFree_refines hP he
    cases hstep.symm.trans (step_free hrun)
    exact ⟨_, .free p, hR⟩
  | realloc p oldSize newSize =>
    obtain ⟨e, he⟩ := h.live hop.1
    obtain ⟨q, P', hrun, hR⟩ := memRealloc_refines hP he oldSize hop.2
    cases hstep.symm.trans (step_realloc hrun)
    exact ⟨_, .realloc p oldSize newSize _ q, hR⟩
  | store p off d =>
    obtain ⟨e, -, he, hb⟩ := h.storable hop
    obtain ⟨P', hrun, hR⟩ := store_refines hP he hb
    cases hstep.symm.trans (step_store hrun)
    exact ⟨_, .store p off d, hR⟩

/-- The abstraction of the initial pool has no regions. -/
theorem contents_init (raw : Ptr → Memory) : (init raw).pool.contents = fun _ => none := rfl

/-- **The pool is an allocator of fresh zeroed regions.**  Any calls its callers may make, one after
the other, are calls of such an allocator, and so is any call they make next. -/
theorem memRun_refines (raw : Ptr → Memory) (ops : List MemOp)
    (hops : Steps step Allowed (init raw) ops) :
    ∃ s calls, run step (init raw) ops = .ok s ∧ List.Forall₂ Answers ops calls ∧
      Runs Regions.Step (fun _ => none) calls s.pool.contents ∧ s.Exclusive := by
  have hstep : ∀ (s : Session) op, (∃ F, s.Inv F) → s.Allowed op → ∃ s', s.step op = .ok s' ∧
      (∃ F, s'.Inv F) ∧ ∃ c, Answers op c ∧ Regions.Step s.pool.contents c s'.pool.contents := by
    rintro s op ⟨F, h⟩ hop
    obtain ⟨s', hs', hI⟩ := step_inv h hop
    exact ⟨s', hs', hI, step_refines h hop hs'⟩
  obtain ⟨s, calls, hrun, ⟨F, hF⟩, hanswers, hruns⟩ := exists_runs hstep ⟨_, init_inv raw⟩ hops
  rw [contents_init] at hruns
  exact ⟨s, calls, hrun, hanswers, hruns, hF.exclusive⟩

/-- A block is used again, and grown into another class. -/
theorem memRun_refines_reuse :
    ∃ s calls, run step (init fun _ _ => 7)
        [.alloc none 17, .store 0 0 [1], .free 0, .alloc none 32, .realloc 0 32 64] = .ok s ∧
      List.Forall₂ Answers
        [.alloc none 17, .store 0 0 [1], .free 0, .alloc none 32, .realloc 0 32 64] calls ∧
      Runs Regions.Step (fun _ => none) calls s.pool.contents ∧ s.Exclusive :=
  memRun_refines _ _ (by decide +kernel)

/-! ### Reallocation -/

/-- `q` has the `n` bytes of `p` and then zeroes, and `p` was freed. -/
structure Preserved (P : Pool) (p : Ptr) (n newSize : ℕ) (q : Ptr) (P' : Pool) : Prop where
  data : ∃ c c', P.contents p = some c ∧ P'.contents q = some c' ∧ c'.take n = c.take n ∧
    c'.drop n = zeroes (2 ^ (sizeClass newSize + 4) - n)
  freed : P'.live p = none

/-- When `mem_realloc` preserves the `n` bytes of a block that has room for them. -/
theorem preserved_iff {n : ℕ} (hP : P.Ok) (hl : P.live p = some e) (hroom : n ≤ e.capacity)
    (hn : n ≤ newSize) (hs : newSize ≤ maxExtMemBlock) :
    ∃ q P', memRealloc p n newSize P = .ok (q, P') ∧
      (Preserved P p n newSize q P' ↔ n ≤ e.objSize ∨ e.contents.take n = zeroes n) := by
  obtain ⟨q, P', e₁, hrun, -, hnone, hfresh, hP'⟩ := memRealloc_spec hP hl n hs
  have hqp : q ≠ p := by
    rintro rfl
    rw [hnone] at hl
    cases hl
  have hq : P'.contents q = some (reallocEntry e₁ e n newSize).contents :=
    contents_of_live (by rw [hP', Function.update_of_ne hqp, Function.update_self])
  rw [contents_reallocEntry (hP.entryOk hl).1 hfresh hs] at hq
  have hfreed : P'.live p = none := by rw [hP', Function.update_self]
  have hsize : n ≤ 2 ^ (sizeClass newSize + 4) := by
    rw [← blockSize_eq]
    exact hn.trans (le_blockSize_sizeClass (sizeClass_lt hs))
  refine ⟨q, P', hrun, ?_⟩
  by_cases hc : n ≤ e.objSize
  · rw [copied, if_pos ⟨hc, hn⟩] at hq
    have hlen : (e.contents.take n).length = n := by simp [hroom]
    exact iff_of_true ⟨⟨_, _, contents_of_live hl, hq, List.take_left' hlen, List.drop_left' hlen⟩,
      hfreed⟩ (.inl hc)
  · rw [copied, if_neg (fun h => hc h.1), List.take_zero, List.nil_append, Nat.sub_zero] at hq
    constructor
    · intro h
      obtain ⟨c, c', hp, hq', htake, -⟩ := h.data
      rw [contents_of_live hl] at hp
      rw [hq] at hq'
      cases hp
      cases hq'
      rw [take_zeroes hsize] at htake
      exact .inr htake.symm
    · intro h
      refine ⟨⟨_, _, contents_of_live hl, hq, ?_, List.drop_replicate⟩, hfreed⟩
      rw [take_zeroes hsize, h.resolve_left hc]

/-- **When `mem_realloc` preserves the data.**  After any calls of the pool, a block that was last
asked for with `n` bytes keeps them exactly when the size that was asked for when `malloc` made it
was at least `n`, or when they are all zeroes. -/
theorem memRealloc_preserves_iff (raw : Ptr → Memory) (ops : List MemOp)
    (hops : Steps step Allowed (init raw) ops) (hrun : run step (init raw) ops = .ok s) {o : Owned}
    (ho : o ∈ s.owned) (he : s.pool.live o.block = some e) {newSize : ℕ} (hn : o.size ≤ newSize)
    (hs : newSize ≤ maxExtMemBlock) :
    (∃ q P', memRealloc o.block o.size newSize s.pool = .ok (q, P') ∧
        Preserved s.pool o.block o.size newSize q P') ↔
      o.size ≤ e.objSize ∨ e.contents.take o.size = zeroes o.size := by
  obtain ⟨F, hF⟩ := run_inv hops hrun
  have hP : s.pool.Ok := ⟨_, _, hF.pool⟩
  obtain ⟨e', he', -, hsize⟩ := hF.owner o ho
  cases ((hF.pool.live_eq_some_iff.1 he).2).symm.trans he'
  have hroom : o.size ≤ e.capacity := by rwa [(hP.entryOk he).1.capacity]
  obtain ⟨q, P', hrealloc, hiff⟩ := preserved_iff hP he hroom hn hs
  rw [← hiff]
  constructor
  · rintro ⟨q', P'', hrealloc', h⟩
    cases hrealloc.symm.trans hrealloc'
    exact h
  · exact fun h => ⟨q, P', hrealloc, h⟩

/-- The calls that end with a block in use for more than it was first asked for. -/
def grownBlock : List MemOp := [.alloc none 17, .free 0, .alloc none 32, .store 0 0 [1]]

theorem grownBlock_run :
    ∃ s e, run step (init fun _ _ => 0) grownBlock = .ok s ∧ s.owned = [⟨0, 32, none⟩] ∧
      s.pool.live 0 = some e ∧ e.objSize = 17 ∧ e.room = 33 ∧ e.contents.take 32 ≠ zeroes 32 := by
  obtain ⟨s, hrun, hcheck⟩ := exists_run_of_any step (init fun _ _ => 0) grownBlock
    (fun s => decide (s.owned = [⟨0, 32, none⟩]) && (s.pool.live 0).any fun e : MemEntry =>
      decide (e.objSize = 17 ∧ e.room = 33 ∧ e.contents.take 32 ≠ zeroes 32))
    (by decide +kernel)
  obtain ⟨howned, hentry⟩ := Bool.and_eq_true_iff.1 hcheck
  obtain ⟨e, he, hentry⟩ := (Option.any_eq_true _ _).1 hentry
  exact ⟨s, e, hrun, of_decide_eq_true howned, he, of_decide_eq_true hentry⟩

theorem memRealloc_preserves_iff_grownBlock :
    ∃ s e, run step (init fun _ _ => 0) grownBlock = .ok s ∧ s.pool.live 0 = some e ∧
      ((∃ q P', memRealloc 0 32 64 s.pool = .ok (q, P') ∧ Preserved s.pool 0 32 64 q P') ↔
        32 ≤ e.objSize ∨ e.contents.take 32 = zeroes 32) := by
  obtain ⟨s, e, hrun, howned, he, -⟩ := grownBlock_run
  have ho : (⟨0, 32, none⟩ : Owned) ∈ s.owned := by simp [howned]
  exact ⟨s, e, hrun, he, memRealloc_preserves_iff _ _ (by decide +kernel) hrun ho he
    (show 32 ≤ 64 by decide) (by decide)⟩

/-- A block that was made for 17 bytes is in use for 32: reallocated to 64, it loses them. -/
theorem memRealloc_loses_grownBlock :
    ∃ s, run step (init fun _ _ => 0) grownBlock = .ok s ∧ s.owned = [⟨0, 32, none⟩] ∧
      ¬ ∃ q P', memRealloc 0 32 64 s.pool = .ok (q, P') ∧ Preserved s.pool 0 32 64 q P' := by
  obtain ⟨s, e, hrun, howned, he, hobj, hroom, hdata⟩ := grownBlock_run
  refine ⟨s, hrun, howned, ?_⟩
  obtain ⟨F, hF⟩ := run_inv (by decide +kernel) hrun
  have hP : s.pool.Ok := ⟨_, _, hF.pool⟩
  obtain ⟨q, P', hrealloc, hiff⟩ := preserved_iff hP he (n := 32)
    (by rw [MemEntry.capacity, hroom]) (show 32 ≤ 64 by decide) (by decide)
  rintro ⟨q', P'', hrealloc', h⟩
  cases hrealloc.symm.trans hrealloc'
  rcases hiff.1 h with hle | hzero
  · omega
  · exact hdata hzero

end Session

end Jujube
