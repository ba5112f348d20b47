import Jujube.MemRun

/-!
# `mem_check_mod_count`

It walks `MEM_USED_LIST`, counts the blocks of a module and leaves in `*objsize` the first
`obj_size` of theirs that is not 0.  The count is that of the live blocks whose latest `mem_alloc`
named the module.  The size is not theirs: `mem_alloc` writes `module` whenever it hands a block
out, and `obj_size` only when the block comes from `malloc`.

`Pool.objSizes` is what the headers say; every operation has one lemma about it.
`memCheckModCount_iff` says when the size that is reported is one that a live block of the module
was asked for with.
-/

namespace Jujube

open Transition Pool

/-- The body of the loop: `count` and `*objsize` after one more entry of `MEM_USED_LIST`.  The
`int64_t` can count more blocks than memory has room for. -/
def countEntry (P : Pool) (module : String) : ℤ × ℤ → MemNode → Except Fault (ℤ × ℤ)
  | (count, objsize), cursor => do
    let q ← containerOfDlist (some cursor)
    let e ← fetch (P.heap q)
    if e.module = some module then
      -- `*objsize` is an `int`
      return (count + 1, if 0 = objsize then (e.objSize : ℤ).bmod (2 ^ 32) else objsize)
    else
      return (count, objsize)

/-- `mem_check_mod_count`: the count, and what is in `*objsize` after the call.  There are no more
live blocks than were ever obtained from `malloc`. -/
def memCheckModCount (module : Option String) (objsize : ℤ) (P : Pool) : Except Fault (ℤ × ℤ) :=
  match module with
  | none => return (0, objsize)
  | some module =>
    listForEach .memUsedList P.links (countEntry P module) (P.malloced + 1) (0, objsize)

/-! ### What the headers say -/

namespace Pool

/-- The `obj_size` of every block. -/
def objSizes (P : Pool) (p : Ptr) : Option ℕ := (P.heap p).map MemEntry.objSize

variable {P P' : Pool} {p q : Ptr} {e e' : MemEntry}

theorem objSizes_update (hh : P'.heap = Function.update P.heap p (some e)) :
    P'.objSizes = Function.update P.objSizes p (some e.objSize) := by
  funext r
  unfold objSizes
  rw [hh]
  by_cases hr : r = p
  · rw [hr, Function.update_self, Function.update_self, Option.map_some]
  · rw [Function.update_of_ne hr, Function.update_of_ne hr]

/-- A header that was written back with the `obj_size` it had. -/
theorem objSizes_same (hh : P'.heap = Function.update P.heap p (some e')) (he : P.heap p = some e)
    (hsize : e'.objSize = e.objSize) : P'.objSizes = P.objSizes := by
  have hp : P.objSizes p = some e.objSize := by rw [objSizes, he, Option.map_some]
  rw [objSizes_update hh, hsize, ← hp, Function.update_eq_self]

theorem poke_objSize {off : ℕ} {d : List UInt8} (h : e.poke off d = .ok e') :
    e'.objSize = e.objSize := by
  unfold MemEntry.poke at h
  split_ifs at h
  cases h
  rfl

/-- A block from `malloc` has the size it was asked for with in its header. -/
theorem memAllocFresh_objSizes {module : Option String} {size i : ℕ}
    (h : memAllocFresh module size i P = .ok (p, P')) :
    P'.objSizes = Function.update P.objSizes p (some size) := by
  unfold memAllocFresh at h
  obtain ⟨e₁, hguard, h⟩ := bind_eq_ok.1 h
  obtain ⟨_, -, h⟩ := bind_eq_ok.1 h
  obtain ⟨e₂, hclear, h⟩ := bind_eq_ok.1 h
  have hsize : e₂.objSize = size := (poke_objSize hclear).trans (poke_objSize hguard)
  cases h
  rw [objSizes_update rfl, hsize]

/-- A block that is used again keeps the size in its header. -/
theorem memAllocReuse_objSizes {module : Option String} {i : ℕ}
    (h : memAllocReuse module i P = .ok (p, P')) :
    P.links.next (.memPools i) = some (.entry p) ∧ P'.objSizes = P.objSizes := by
  unfold memAllocReuse at h
  obtain ⟨me, hme, h⟩ := bind_eq_ok.1 h
  obtain ⟨_, -, h⟩ := bind_eq_ok.1 h
  obtain ⟨e, he, h⟩ := bind_eq_ok.1 h
  obtain ⟨_, -, h⟩ := bind_eq_ok.1 h
  obtain ⟨_, -, h⟩ := bind_eq_ok.1 h
  obtain ⟨e', hclear, h⟩ := bind_eq_ok.1 h
  have hsize := poke_objSize hclear
  cases h
  refine ⟨?_, objSizes_same rfl (fetch_eq_ok.1 he) hsize⟩
  unfold containerOfDlist at hme
  split at hme
  · rename_i hnext
    cases hme
    exact hnext
  · cases hme
  · cases hme

/-- **What `mem_alloc` does to the headers**: it writes the size of a block from `malloc`, and
leaves that of a block from a list of free ones. -/
theorem memAlloc_objSizes {module : Option String} {size : ℕ}
    (h : memAlloc module size P = .ok (p, P')) :
    (P'.objSizes = Function.update P.objSizes p (some size)) ∨
      (P.links.next (.memPools (sizeClass size)) = some (.entry p) ∧ P'.objSizes = P.objSizes) := by
  unfold memAlloc at h
  obtain ⟨-, -, h⟩ := bind_eq_ok.1 h
  obtain ⟨-, -, h⟩ := bind_eq_ok.1 h
  split_ifs at h
  · exact .inl (memAllocFresh_objSizes h)
  · exact .inr (memAllocReuse_objSizes h)

theorem memFree_objSizes (h : memFree p P = .ok P') : P'.objSizes = P.objSizes := by
  unfold memFree at h
  obtain ⟨e, he, h⟩ := bind_eq_ok.1 h
  obtain ⟨_, -, h⟩ := bind_eq_ok.1 h
  obtain ⟨_, -, h⟩ := bind_eq_ok.1 h
  obtain ⟨_, -, h⟩ := bind_eq_ok.1 h
  obtain ⟨_, -, h⟩ := bind_eq_ok.1 h
  obtain ⟨_, -, h⟩ := bind_eq_ok.1 h
  obtain ⟨_, -, h⟩ := bind_eq_ok.1 h
  cases h
  exact objSizes_same rfl (fetch_eq_ok.1 he) rfl

theorem store_objSizes {off : ℕ} {d : List UInt8} (h : P.store p off d = .ok P') :
    P'.objSizes = P.objSizes := by
  unfold store at h
  obtain ⟨e, he, h⟩ := bind_eq_ok.1 h
  obtain ⟨e₀, he₀, hlive⟩ := Option.bind_eq_some_iff.1 (fetch_eq_ok.1 he)
  split_ifs at h hlive
  cases h
  cases hlive
  exact objSizes_same rfl he₀ rfl

/-- `mem_realloc` leaves the headers as its `mem_alloc` does. -/
theorem memRealloc_objSizes {oldSize newSize : ℕ}
    (h : memRealloc p oldSize newSize P = .ok (q, P')) :
    ∃ module P₁, memAlloc module newSize P = .ok (q, P₁) ∧ P'.objSizes = P₁.objSizes := by
  unfold memRealloc at h
  obtain ⟨me, -, h⟩ := bind_eq_ok.1 h
  obtain ⟨⟨q', P₁⟩, halloc, h⟩ := bind_eq_ok.1 h
  obtain ⟨me', -, h⟩ := bind_eq_ok.1 h
  obtain ⟨P₂, hcopy, h⟩ := bind_eq_ok.1 h
  obtain ⟨P₃, hfree, h⟩ := bind_eq_ok.1 h
  cases h
  have hcopied : P₂.objSizes = P₁.objSizes := by
    split_ifs at hcopy
    · obtain ⟨_, -, hstore⟩ := bind_eq_ok.1 hcopy
      exact store_objSizes hstore
    · cases hcopy
      rfl
  exact ⟨me.module, P₁, halloc, (memFree_objSizes hfree).trans hcopied⟩

/-- No `obj_size` is more than `MAX_EXT_MEM_BLOCK`. -/
theorem objSize_le (h : e.Ok) : e.objSize ≤ maxExtMemBlock :=
  (le_blockSize_sizeClass h.cls).trans (blockSize_le h.cls)

end Pool

/-! ### The loop -/

/-- The first of the sizes that is not 0, or 0. -/
def firstSize (sizes : List ℕ) : ℕ := (sizes.find? fun n => decide (n ≠ 0)).getD 0

@[simp] theorem firstSize_nil : firstSize [] = 0 := rfl

theorem firstSize_cons (n : ℕ) (sizes : List ℕ) :
    firstSize (n :: sizes) = if n = 0 then firstSize sizes else n := by
  by_cases hn : n = 0
  · simp [firstSize, hn]
  · simp [firstSize, hn]

/-- Some of the sizes is the first one that is not 0, unless there are none. -/
theorem firstSize_mem {sizes : List ℕ} (h : sizes ≠ []) : firstSize sizes ∈ sizes := by
  induction sizes with
  | nil => exact absurd rfl h
  | cons n sizes ih =>
    rw [firstSize_cons]
    split_ifs with hn
    · by_cases hnil : sizes = []
      · simp [hnil, hn]
      · exact List.mem_cons_of_mem n (ih hnil)
    · exact List.mem_cons_self

namespace Session

variable {s s' : Session} {F : ℕ → List Ptr} {op : MemOp} {module : String}

/-- Those of the blocks whose latest `mem_alloc` named the module. -/
def named (module : String) (l : List Owned) : List Owned :=
  l.filter fun o => decide (o.module = some module)

theorem named_cons (module : String) (o : Owned) (l : List Owned) :
    named module (o :: l) =
      if o.module = some module then o :: named module l else named module l := by
  by_cases hm : o.module = some module
  · simp [named, hm]
  · simp [named, hm]

/-- The live blocks whose latest `mem_alloc` named the module, the latest first. -/
def ofModule (s : Session) (module : String) : List Owned := named module s.owned

/-- What the header of an owned block says its size is. -/
def headerSize (s : Session) (o : Owned) : ℕ := (s.pool.objSizes o.block).getD 0

/-- One round of the loop. -/
theorem countEntry_spec (h : s.Inv F) {o : Owned} (ho : o ∈ s.owned) (count objsize : ℤ) :
    countEntry s.pool module (count, objsize) (.entry o.block) =
      .ok (if o.module = some module then
        (count + 1, if 0 = objsize then (s.headerSize o : ℤ) else objsize)
      else (count, objsize)) := by
  obtain ⟨e, he, hmodule, -⟩ := h.owner o ho
  have hheader : s.headerSize o = e.objSize := by
    rw [headerSize, objSizes, he, Option.map_some, Option.getD_some]
  have hint : (e.objSize : ℤ).bmod (2 ^ 32) = e.objSize := by
    have hle := objSize_le (h.pool.entryOk _ e he)
    unfold maxExtMemBlock at hle
    exact Int.bmod_eq_of_le (by omega) (by omega)
  simp only [countEntry, containerOfDlist, he, fetch_some, ok_bind, hmodule, hint, hheader]
  split_ifs <;> rfl

/-- The rounds of the loop over some of the owned blocks. -/
theorem countEntry_foldlM (h : s.Inv F) {l : List Owned} (hl : ∀ o ∈ l, o ∈ s.owned)
    (count objsize : ℤ) :
    (l.map fun o => MemNode.entry o.block).foldlM (countEntry s.pool module) (count, objsize) =
      .ok (count + (named module l).length,
        if 0 = objsize then (firstSize ((named module l).map s.headerSize) : ℤ) else objsize) := by
  induction l generalizing count objsize with
  | nil =>
    by_cases hz : 0 = objsize
    · subst hz
      simp [named]
    · simp [named, hz]
  | cons o l ih =>
    have ih := ih fun o ho => hl o (List.mem_cons_of_mem _ ho)
    rw [List.map_cons, List.foldlM_cons, countEntry_spec h (hl o List.mem_cons_self), ok_bind,
      named_cons]
    by_cases hm : o.module = some module
    · rw [if_pos hm, if_pos hm, ih, List.map_cons, firstSize_cons, List.length_cons]
      refine congrArg Except.ok (Prod.ext ?_ ?_)
      · push_cast
        ring
      · by_cases hz : 0 = objsize
        · subst hz
          by_cases hn : s.headerSize o = 0
          · simp [hn]
          · have hne : (0 : ℤ) ≠ s.headerSize o := fun e => hn (by exact_mod_cast e.symm)
            simp [hn, hne]
        · simp [hz]
    · rw [if_neg hm, if_neg hm, ih]

/-- What `mem_check_mod_count` reports of a module: how many blocks it has, and the first
`obj_size` of theirs that is not 0. -/
theorem Inv.memCheckModCount_eq (h : s.Inv F) (module : String) :
    memCheckModCount (some module) 0 s.pool =
      .ok ((s.ofModule module).length, firstSize ((s.ofModule module).map s.headerSize)) := by
  have hlength : (s.blocks.map MemNode.entry).length < s.pool.malloced + 1 := by
    have hsub : s.blocks ⊆ List.range s.pool.malloced := fun p hp =>
      List.mem_range.2 (h.pool.used_lt hp)
    have hle := (h.pool.nodup_used.subperm hsub).length_le
    rw [List.length_range] at hle
    rw [List.length_map]
    exact Nat.lt_succ_of_le hle
  have hblocks : s.blocks.map MemNode.entry = s.owned.map fun o => MemNode.entry o.block := by
    rw [blocks, List.map_map]
    rfl
  rw [memCheckModCount, listForEach_spec h.pool.usedRing _ hlength, hblocks,
    countEntry_foldlM h (fun o ho => ho), if_pos rfl, zero_add]
  rfl

/-! ### When the report is right -/

/-- The report on the module is right: it counts its live blocks, and where there are some the size
is one that such a block was asked for with. -/
def Reported (s : Session) (module : String) : Prop :=
  ∃ count objsize, memCheckModCount (some module) 0 s.pool = .ok (count, objsize) ∧
    count = (s.ofModule module).length ∧ (0 < count → ∃ o ∈ s.ofModule module, objsize = o.size)

/-- The module has no live blocks, or the first `obj_size` of theirs that is not 0, the latest
block first, is a size that one of them was asked for with. -/
def SizeAsked (s : Session) (module : String) : Prop :=
  s.ofModule module = [] ∨
    ∃ o ∈ s.ofModule module, o.size = firstSize ((s.ofModule module).map s.headerSize)

/-- Exactly then the report is right. -/
theorem Inv.reported_iff (h : s.Inv F) : s.Reported module ↔ s.SizeAsked module := by
  constructor
  · rintro ⟨count, objsize, hrun, hcount, hsize⟩
    cases (h.memCheckModCount_eq module).symm.trans hrun
    by_cases hnil : s.ofModule module = []
    · exact .inl hnil
    · obtain ⟨o, ho, heq⟩ := hsize (by exact_mod_cast List.length_pos_iff.2 hnil)
      exact .inr ⟨o, ho, by exact_mod_cast heq.symm⟩
  · intro hasked
    refine ⟨_, _, h.memCheckModCount_eq module, rfl, fun hpos => ?_⟩
    rcases hasked with hnil | ⟨o, ho, hsize⟩
    · rw [hnil] at hpos
      exact absurd hpos (lt_irrefl _)
    · exact ⟨o, ho, by rw [hsize]⟩

/-- The free block that `mem_alloc` would hand out for this size. -/
def firstFree (s : Session) (size : ℕ) : Option Ptr :=
  match s.pool.links.next (.memPools (sizeClass size)) with
  | some (.entry p) => some p
  | _ => none

/-- A call that is handed a free block asks for the size that is in its header. -/
def SameSize (s : Session) : MemOp → Prop
  | .alloc _ size | .realloc _ _ size => ∀ p ∈ s.firstFree size, s.pool.objSizes p = some size
  | _ => True

instance (s : Session) : (op : MemOp) → Decidable (s.SameSize op)
  | .alloc _ size | .realloc _ _ size =>
    inferInstanceAs (Decidable (∀ p ∈ s.firstFree size, s.pool.objSizes p = some size))
  | .free _ | .store _ _ _ => inferInstanceAs (Decidable True)

/-- The headers say what the blocks were asked for with. -/
def SizesKept (s : Session) : Prop := ∀ o ∈ s.owned, s.pool.objSizes o.block = some o.size

/-- A block that is handed out is none of the live ones. -/
theorem Inv.memAlloc_notMem (h : s.Inv F) {asked : Option String} {size : ℕ} {p : Ptr} {P : Pool}
    (hs : size ≤ maxExtMemBlock) (hrun : memAlloc asked size s.pool = .ok (p, P)) :
    p ∉ s.blocks := by
  obtain ⟨p', P', e, G, hrun', -, hp, -⟩ := memAlloc_inv h.pool asked hs
  cases hrun.symm.trans hrun'
  exact hp

/-- A block that is handed out with the right size in its header. -/
theorem SizesKept.alloc (hk : s.SizesKept) {asked : Option String} {size : ℕ} {p : Ptr} {P : Pool}
    (hrun : memAlloc asked size s.pool = .ok (p, P)) (hp : p ∉ s.blocks)
    (hsame : ∀ p ∈ s.firstFree size, s.pool.objSizes p = some size) :
    P.objSizes p = some size ∧ ∀ o ∈ s.owned, P.objSizes o.block = some o.size := by
  rcases memAlloc_objSizes hrun with hnew | ⟨hnext, hold⟩
  · rw [hnew]
    refine ⟨Function.update_self _ _ _, fun o ho => ?_⟩
    have hne : o.block ≠ p := fun e => hp (e ▸ List.mem_map_of_mem ho)
    rw [Function.update_of_ne hne]
    exact hk o ho
  · rw [hold]
    exact ⟨hsame p (by rw [firstFree, hnext]; rfl), hk⟩

/-- **One call**: the headers go on saying what the blocks were asked for with. -/
theorem step_sizesKept (h : s.Inv F) (hk : s.SizesKept) (hop : s.Allowed op) (hsame : s.SameSize op)
    (hstep : s.step op = .ok s') : s'.SizesKept := by
  cases op with
  | alloc asked size =>
    obtain ⟨⟨p, P⟩, hrun, hstep⟩ := bind_eq_ok.1 hstep
    cases hstep
    obtain ⟨hp, hrest⟩ := hk.alloc hrun (h.memAlloc_notMem hop hrun) hsame
    intro o ho
    rcases List.mem_cons.1 ho with rfl | ho
    · exact hp
    · exact hrest o ho
  | free p =>
    obtain ⟨P, hrun, hstep⟩ := bind_eq_ok.1 hstep
    cases hstep
    intro o ho
    show P.objSizes o.block = some o.size
    rw [memFree_objSizes hrun]
    exact hk o (mem_dropOwner.1 ho).1
  | realloc p oldSize newSize =>
    obtain ⟨⟨q, P⟩, hrun, hstep⟩ := bind_eq_ok.1 hstep
    cases hstep
    obtain ⟨asked, P₁, halloc, hsizes⟩ := memRealloc_objSizes hrun
    obtain ⟨hq, hrest⟩ := hk.alloc halloc (h.memAlloc_notMem hop.2 halloc) hsame
    intro o ho
    show P.objSizes o.block = some o.size
    rw [hsizes]
    rcases List.mem_cons.1 ho with rfl | ho
    · exact hq
    · exact hrest o (mem_dropOwner.1 ho).1
  | store p off d =>
    obtain ⟨P, hrun, hstep⟩ := bind_eq_ok.1 hstep
    cases hstep
    intro o ho
    show P.objSizes o.block = some o.size
    rw [store_objSizes hrun]
    exact hk o ho

/-- With the right sizes in the headers, every report is right. -/
theorem SizesKept.sizeAsked (hk : s.SizesKept) (module : String) : s.SizeAsked module := by
  by_cases hnil : s.ofModule module = []
  · exact .inl hnil
  · have hmap : (s.ofModule module).map s.headerSize = (s.ofModule module).map Owned.size := by
      refine List.map_congr_left fun o ho => ?_
      rw [headerSize, hk o (List.mem_of_mem_filter ho), Option.getD_some]
    obtain ⟨o, ho, hsize⟩ := List.mem_map.1 (firstSize_mem (mt List.map_eq_nil_iff.1 hnil))
    exact .inr ⟨o, ho, by rw [hmap]; exact hsize⟩

/-- **When the memory report on a module is right.**  After any calls of the pool,
`mem_check_mod_count` counts the live blocks whose latest `mem_alloc` named the module.  The size it
reports is one that they were asked for with exactly when the first `obj_size` in their headers that
is not 0 is; so it is in every run in which a block that is used again is asked for with the size
that is in its header. -/
theorem memCheckModCount_iff (raw : Ptr → Bytes.Memory) (ops : List MemOp)
    (hops : Steps step Allowed (init raw) ops) :
    ∃ s, run step (init raw) ops = .ok s ∧
      (∀ module, ∃ objsize,
        memCheckModCount (some module) 0 s.pool = .ok ((s.ofModule module).length, objsize)) ∧
      (∀ module, s.Reported module ↔ s.SizeAsked module) ∧
      (Steps step SameSize (init raw) ops → ∀ module, s.Reported module) := by
  obtain ⟨s, hrun, F, h⟩ := exists_run (I := fun s : Session => ∃ F, s.Inv F)
    (fun s op ⟨F, h⟩ hop => step_inv h hop) ⟨_, init_inv raw⟩ hops
  refine ⟨s, hrun, fun module => ⟨_, h.memCheckModCount_eq module⟩, fun _ => h.reported_iff,
    fun hsame module => h.reported_iff.2 (SizesKept.sizeAsked ?_ module)⟩
  have hkeeps : (∃ F, s.Inv F) ∧ s.SizesKept := by
    refine run_keeps (I := fun s : Session => (∃ F, s.Inv F) ∧ s.SizesKept) ?_
      ⟨⟨_, init_inv raw⟩, by simp [SizesKept, init]⟩ (steps_and.2 ⟨hops, hsame⟩) hrun
    rintro s op s' ⟨⟨F, h⟩, hk⟩ ⟨hop, hsame⟩ hstep
    obtain ⟨s'', hstep', hinv⟩ := step_inv h hop
    cases hstep.symm.trans hstep'
    exact ⟨hinv, step_sizesKept h hk hop hsame hstep⟩
  exact hkeeps.2

/-- The calls that end with a block that was made for 100 bytes in use for 100 again. -/
def reused : List MemOp := [.alloc (some "in") 100, .free 0, .alloc (some "out") 100]

theorem memCheckModCount_iff_reused :
    Steps step SameSize (init fun _ _ => 0) reused ∧
    ∃ s, run step (init fun _ _ => 0) reused = .ok s ∧ s.owned = [⟨0, 100, some "out"⟩] ∧
      s.Reported "in" ∧ s.Reported "out" := by
  have hsame : Steps step SameSize (init fun _ _ => 0) reused := by decide +kernel
  obtain ⟨s, hrun, -, -, hreported⟩ := memCheckModCount_iff (fun _ _ => 0) reused
    (by decide +kernel)
  obtain ⟨s', hrun', howned⟩ := exists_run_of_any step (init fun _ _ => 0) reused
    (fun s => decide (s.owned = [⟨0, 100, some "out"⟩])) (by decide +kernel)
  cases hrun.symm.trans hrun'
  exact ⟨hsame, s, hrun, of_decide_eq_true howned, hreported hsame "in", hreported hsame "out"⟩

/-- The calls that end with a block that was made for 100 bytes in use for 120. -/
def recycled : List MemOp := [.alloc (some "in") 100, .free 0, .alloc (some "out") 120]

/-- The one block of the module was asked for with 120 bytes, and the report says 100. -/
theorem memCheckModCount_stale :
    Steps step Allowed (init fun _ _ => 0) recycled ∧
    ∃ s, run step (init fun _ _ => 0) recycled = .ok s ∧ s.owned = [⟨0, 120, some "out"⟩] ∧
      memCheckModCount (some "out") 0 s.pool = .ok (1, 100) ∧ ¬ s.Reported "out" := by
  obtain ⟨s, hrun, hcheck⟩ := exists_run_of_any step (init fun _ _ => 0) recycled
    (fun s => decide (s.owned = [⟨0, 120, some "out"⟩] ∧
      memCheckModCount (some "out") 0 s.pool = .ok (1, 100)))
    (by decide +kernel)
  obtain ⟨howned, hreport⟩ := of_decide_eq_true hcheck
  refine ⟨by decide +kernel, s, hrun, howned, hreport, ?_⟩
  rintro ⟨count, objsize, hreport', -, hsize⟩
  cases hreport.symm.trans hreport'
  obtain ⟨o, ho, hsize⟩ := hsize (by decide)
  have hmem : o = ⟨0, 120, some "out"⟩ := by
    have hin := List.mem_of_mem_filter ho
    rwa [howned, List.mem_singleton] at hin
  rw [hmem] at hsize
  exact absurd hsize (by decide)

end Session

end Jujube
