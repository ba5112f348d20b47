import Jujube.ListHead
import Jujube.Foundation.Bytes

/-!
# `mem.c`: the memory pool

Seventeen size classes, `16 B` to `1 MiB`.  A freed block goes to the list of its class and is
handed out again from there; nothing is ever returned to `malloc`.  This is the build with
`DEBUG_MEM_CHECK` (the one the Makefile makes), in which `MEM_USED_LIST` links the live blocks.

A block is named by the number of the `malloc` call that made it.  `Pool` is everything `mem.c`
reads or writes: the `mem_entry_t` of every block with the bytes behind it, the list links, the
heads and the statistics.  The bytes `malloc` hands out are arbitrary (`raw`).  The mutex is left
out: the program has one thread.
-/

namespace Jujube

open Bytes

/-- The number of a block. -/
abbrev Ptr := ℕ

/-- `MAX_EXT_MEM_BLOCK` -/
def maxExtMemBlock : ℕ := 1024 * 1024

/-- `MEM_TYPE_MAX` -/
def memTypeMax : ℕ := 17

/-- `1 << (i+4)`: the bytes a block of class `i` has for its owner. -/
def blockSize (i : ℕ) : ℕ := 1 <<< (i + 4)

/-- The byte behind every block. -/
def guardByte : UInt8 := 0xf

/-- The search loop of `mem_alloc` and `mem_free`: the first class that `size` fits, or
`MEM_TYPE_MAX`. -/
def sizeClass (size : ℕ) : ℕ :=
  ((List.range memTypeMax).find? fun i => decide (size ≤ blockSize i)).getD memTypeMax

/-- `mem_entry_t`, with what `malloc` gave from `obj` on: `room` bytes. -/
structure MemEntry where
  objSize : ℕ
  refcount : ℤ
  module : Option String
  room : ℕ
  obj : Memory

/-- `mem_stat_t` -/
structure MemStat where
  blocksUsed : ℤ
  blocksFree : ℤ
  deriving DecidableEq

/-- The nodes of the lists: the heads `MemPools[i]` and `MEM_USED_LIST`, and the blocks. -/
inductive MemNode
  | memPools (i : ℕ)
  | memUsedList
  | entry (me : Ptr)
  deriving DecidableEq

/-- The state of `mem.c`. -/
structure Pool where
  raw : Ptr → Memory
  malloced : ℕ
  heap : Ptr → Option MemEntry
  links : Links MemNode
  memStat : ℕ → MemStat

namespace MemEntry

/-- The bytes between `obj` and the guard byte. -/
def capacity (e : MemEntry) : ℕ := e.room - 1

/-- A store behind `obj`, within the bytes that `malloc` gave. -/
def poke (e : MemEntry) (off : ℕ) (d : List UInt8) : Except Fault MemEntry :=
  if off + d.length ≤ e.room then .ok { e with obj := write e.obj off d } else .error .outOfBounds

/-- A load of one byte behind `obj`. -/
def peek (e : MemEntry) (off : ℕ) : Except Fault UInt8 :=
  if off < e.room then .ok (e.obj off) else .error .outOfBounds

end MemEntry

/-- `mem_module_init` -/
def memModuleInit (raw : Ptr → Memory) : Pool where
  raw := raw
  malloced := 0
  heap := fun _ => none
  links := initListHead .memUsedList <|
    (List.range memTypeMax).foldl (fun m i => initListHead (.memPools i) m)
      ⟨fun _ => none, fun _ => none⟩
  memStat := fun _ => ⟨0, 0⟩

/-- `container_of_dlist(node, mem_entry_t)` -/
def containerOfDlist : Option MemNode → Except Fault Ptr
  | some (.entry me) => .ok me
  | some _ => .error .danglingPointer
  | none => .error .nullPointer

/-- `mem_alloc` when `MemPools[i]` is empty: a new block from `malloc`. -/
def memAllocFresh (module : Option String) (size i : ℕ) (P : Pool) :
    Except Fault (Ptr × Pool) := do
  let me := P.malloced
  let e : MemEntry := ⟨size, 1, none, blockSize i + 1, P.raw me⟩
  let e ← e.poke (blockSize i) [guardByte]
  let e := { e with module := module }
  let links ← listAdd (.entry me) .memUsedList P.links
  let stat := P.memStat i
  let e ← e.poke 0 (List.replicate (blockSize i) 0)
  return (me, { P with
    malloced := me + 1
    heap := Function.update P.heap me (some e)
    links := links
    memStat := Function.update P.memStat i ⟨stat.blocksUsed + 1, stat.blocksFree⟩ })

/-- `mem_alloc` when `MemPools[i]` has a block: its first one.  `obj_size` is not rewritten. -/
def memAllocReuse (module : Option String) (i : ℕ) (P : Pool) : Except Fault (Ptr × Pool) := do
  let me ← containerOfDlist (P.links.next (.memPools i))
  let links ← listDel (.entry me) P.links
  let e ← fetch (P.heap me)
  let e := { e with module := module }
  let links ← listAdd (.entry me) .memUsedList links
  let stat := P.memStat i
  let e := { e with refcount := e.refcount + 1 }
  assert .memAllocRefcount (e.refcount = 1)
  let e ← e.poke 0 (List.replicate (blockSize i) 0)
  return (me, { P with
    heap := Function.update P.heap me (some e)
    links := links
    memStat := Function.update P.memStat i ⟨stat.blocksUsed + 1, stat.blocksFree - 1⟩ })

/-- `mem_alloc` -/
def memAlloc (module : Option String) (size : ℕ) (P : Pool) : Except Fault (Ptr × Pool) := do
  assert .memAllocSize (size ≤ maxExtMemBlock)
  let i := sizeClass size
  assert .memAllocClass (i < memTypeMax)
  if listEmpty (.memPools i) P.links then
    memAllocFresh module size i P
  else
    memAllocReuse module i P

/-- `mem_free` -/
def memFree (buf : Ptr) (P : Pool) : Except Fault Pool := do
  let e ← fetch (P.heap buf)
  let i := sizeClass e.objSize
  assert .memFreeClass (i < memTypeMax)
  let guard ← e.peek (blockSize i)
  assert .memFreeGuard (guard = guardByte)
  let e := { e with refcount := e.refcount - 1 }
  assert .memFreeRefcount (e.refcount = 0)
  let links ← listDel (.entry buf) P.links
  let links ← listAddTail (.entry buf) (.memPools i) links
  let stat := P.memStat i
  return { P with
    heap := Function.update P.heap buf (some e)
    links := links
    memStat := Function.update P.memStat i ⟨stat.blocksUsed - 1, stat.blocksFree + 1⟩ }

namespace Pool

/-- The block behind a pointer, as long as it is allocated. -/
def live (P : Pool) (p : Ptr) : Option MemEntry :=
  (P.heap p).bind fun e => if e.refcount = 1 then some e else none

/-- Replace what is in a block. -/
def setEntry (P : Pool) (p : Ptr) (e : MemEntry) : Pool :=
  { P with heap := Function.update P.heap p (some e) }

/-- The owner of an allocated block stores into it, in front of the guard byte. -/
def store (P : Pool) (p : Ptr) (off : ℕ) (d : List UInt8) : Except Fault Pool := do
  let e ← fetch (P.live p)
  if off + d.length ≤ e.capacity then
    return P.setEntry p { e with obj := write e.obj off d }
  else
    throw .outOfBounds

/-- The owner of an allocated block loads from it. -/
def load (P : Pool) (p : Ptr) (off n : ℕ) : Except Fault (List UInt8) := do
  let e ← fetch (P.live p)
  if off + n ≤ e.capacity then
    return read e.obj off n
  else
    throw .outOfBounds

end Pool

/-- `mem_realloc` -/
def memRealloc (buf : Ptr) (oldSize newSize : ℕ) (P : Pool) : Except Fault (Ptr × Pool) := do
  let me ← fetch (P.heap buf)
  let (newBuf, P) ← memAlloc me.module newSize P
  let me ← fetch (P.heap buf)
  let P ← (if oldSize ≤ me.objSize ∧ oldSize ≤ newSize then
      P.load buf 0 oldSize >>= P.store newBuf 0
    else
      pure P)
  let P ← memFree buf P
  return (newBuf, P)

/-! ### Size classes -/

theorem blockSize_eq (i : ℕ) : blockSize i = 2 ^ (i + 4) := by
  rw [blockSize, Nat.one_shiftLeft]

theorem blockSize_pos (i : ℕ) : 0 < blockSize i := by
  rw [blockSize_eq]
  positivity

theorem blockSize_le {i : ℕ} (hi : i < memTypeMax) : blockSize i ≤ maxExtMemBlock := by
  rw [blockSize_eq]
  have hle : i + 4 ≤ 20 := by
    unfold memTypeMax at hi
    omega
  have : 2 ^ (i + 4) ≤ 2 ^ 20 := Nat.pow_le_pow_right (by norm_num) hle
  simpa [maxExtMemBlock] using this

/-- The search loop stops at the least class that the size fits. -/
theorem sizeClass_eq_iff {size i : ℕ} (hi : i < memTypeMax) :
    sizeClass size = i ↔ size ≤ blockSize i ∧ ∀ j < i, blockSize j < size := by
  unfold sizeClass
  cases h : (List.range memTypeMax).find? fun i => decide (size ≤ blockSize i) with
  | none =>
    rw [List.find?_range_eq_none] at h
    have := h i hi
    simp only [Bool.not_eq_true', decide_eq_false_iff_not] at this
    simp only [Option.getD_none]
    constructor
    · omega
    · tauto
  | some k =>
    rw [List.find?_range_eq_some] at h
    simp only [decide_eq_true_eq, List.mem_range, Bool.not_eq_true', decide_eq_false_iff_not,
      not_le] at h
    simp only [Option.getD_some]
    constructor
    · rintro rfl
      exact ⟨h.1, h.2.2⟩
    · rintro ⟨h1, h2⟩
      rcases lt_trichotomy k i with hlt | heq | hgt
      · exact absurd h.1 (not_le.2 (h2 k hlt))
      · exact heq
      · exact absurd h1 (not_le.2 (h.2.2 i hgt))

theorem sizeClass_le (size : ℕ) : sizeClass size ≤ memTypeMax := by
  unfold sizeClass
  cases h : (List.range memTypeMax).find? fun i => decide (size ≤ blockSize i) with
  | none => simp
  | some k => exact (List.mem_range.1 (List.mem_of_find?_eq_some h)).le

/-- Every size up to `MAX_EXT_MEM_BLOCK` has a class. -/
theorem sizeClass_lt {size : ℕ} (h : size ≤ maxExtMemBlock) : sizeClass size < memTypeMax := by
  apply lt_of_le_of_ne (sizeClass_le size)
  intro hc
  unfold sizeClass at hc
  cases hf : (List.range memTypeMax).find? fun i => decide (size ≤ blockSize i) with
  | none =>
    rw [List.find?_range_eq_none] at hf
    have := hf 16 (by decide)
    simp only [Bool.not_eq_true', decide_eq_false_iff_not] at this
    exact this h
  | some k =>
    rw [hf, Option.getD_some] at hc
    have := List.mem_range.1 (List.mem_of_find?_eq_some hf)
    omega

theorem le_blockSize_sizeClass {size : ℕ} (h : sizeClass size < memTypeMax) :
    size ≤ blockSize (sizeClass size) :=
  ((sizeClass_eq_iff h).1 rfl).1

end Jujube
