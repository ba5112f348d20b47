import Jujube.MemInvariant

/-!
# `buf.c`: byte buffers

A `buf_t` is consumed at the front (`buf_pick`, a `memmove`) and extended at the end (`buf_put`,
which moves to a larger block when the bytes do not fit).  Lengths are `size_t`: sums and
differences are taken modulo `2^64`.

`Buf.Holds b P q` says that the buffer `b` stands for the bytes `q`.  Each operation has one
lemma: what it does to `q`, and that of the live blocks it only touches its own (`Swaps`).
-/

namespace Jujube

open Bytes Pool

/-- The range of `size_t`. -/
def sizeMod : ℕ := 2 ^ 64

/-- `a + b` in `size_t` -/
def sizeAdd (a b : ℕ) : ℕ := (a + b) % sizeMod

/-- `a - b` in `size_t` -/
def sizeSub (a b : ℕ) : ℕ := (a + (sizeMod - b % sizeMod)) % sizeMod

/-- `buf_t`.  `self` is the block the structure itself was allocated in. -/
structure Buf where
  self : Ptr
  buffer : Ptr
  bufLen : ℕ
  dataLen : ℕ
  deriving DecidableEq

/-- `buf_free_space` -/
def bufFreeSpace (b : Buf) : ℕ := sizeSub b.bufLen b.dataLen

/-- `buf_data_size` -/
def bufDataSize (b : Buf) : ℕ := b.dataLen

/-- `clear_space` -/
def clearSpace (b : Buf) (P : Pool) : Except Fault (Buf × Pool) := do
  let P ← P.store b.buffer 0 [0]
  return ({ b with dataLen := 0 }, P)

/-- `buf_pick` -/
def bufPick (len : ℕ) (b : Buf) (P : Pool) : Except Fault (Buf × Pool) := do
  assert .bufPickLen (len ≤ b.dataLen)
  let b := { b with dataLen := b.dataLen - len }
  if 0 < b.dataLen then do
    let d ← P.load b.buffer len b.dataLen
    let P ← P.store b.buffer 0 d
    return (b, P)
  else
    return (b, P)

/-- `buf_realloc` -/
def bufRealloc (len : ℕ) (b : Buf) (P : Pool) : Except Fault (ℤ × Buf × Pool) := do
  let (n, P) ← memAlloc (some "buf") (sizeAdd b.bufLen len) P
  let d ← P.load b.buffer 0 b.dataLen
  let P ← P.store n 0 d
  let P ← memFree b.buffer P
  return (0, { b with buffer := n, bufLen := sizeAdd b.bufLen len }, P)

/-- The second half of `buf_put`: `memcpy` to the end of the data. -/
def bufAppend (d : List UInt8) (b : Buf) (P : Pool) : Except Fault (ℤ × Buf × Pool) := do
  let P ← P.store b.buffer b.dataLen d
  return (0, { b with dataLen := sizeAdd b.dataLen d.length }, P)

/-- `buf_put` of the bytes `d` -/
def bufPut (d : List UInt8) (b : Buf) (P : Pool) : Except Fault (ℤ × Buf × Pool) := do
  if bufFreeSpace b < d.length then do
    let (r, b, P) ← bufRealloc d.length b P
    if r < 0 then
      return (-1, b, P)
    else
      bufAppend d b P
  else
    bufAppend d b P

/-! ### What a buffer stands for -/

/-- The buffer's block is live, its first `data_len` bytes are `q`, and
`data_len <= buf_len <=` the capacity of the block. -/
structure Buf.HoldsIn (b : Buf) (e : MemEntry) (q : List UInt8) : Prop where
  data : read e.obj 0 b.dataLen = q
  fits : b.dataLen ≤ b.bufLen
  room : b.bufLen ≤ e.capacity

/-- The buffer stands for the bytes `q`. -/
def Buf.Holds (b : Buf) (P : Pool) (q : List UInt8) : Prop :=
  ∃ e, P.live b.buffer = some e ∧ b.HoldsIn e q

/-- Block `p` was given up for block `p'`, or `p` was stored into; no other live block changed. -/
def Pool.Swaps (P P' : Pool) (p p' : Ptr) : Prop :=
  ∃ e', P'.live = Function.update (Function.update P.live p none) p' (some e') ∧
    (p' = p ∨ P.live p' = none)

variable {P P' : Pool} {p p' r : Ptr} {e : MemEntry} {b : Buf} {q : List UInt8}

/-- The other live blocks are as they were. -/
theorem Pool.Swaps.live_of_ne (h : P.Swaps P' p p') (hr : r ≠ p) (hl : P.live r ≠ none) :
    P'.live r = P.live r := by
  obtain ⟨e', he', hp'⟩ := h
  have hrp' : r ≠ p' := by
    rintro rfl
    exact hp'.elim hr hl
  rw [he', Function.update_of_ne hrp', Function.update_of_ne hr]

/-- A block that was stored into is the only one that has changed. -/
theorem Pool.Swaps.live_of_ne_self (h : P.Swaps P' p p) (hr : r ≠ p) : P'.live r = P.live r := by
  obtain ⟨e', he', -⟩ := h
  rw [he', Function.update_of_ne hr, Function.update_of_ne hr]

/-- The new block is none of the others. -/
theorem Pool.Swaps.ne (h : P.Swaps P' p p') (hr : r ≠ p) (hl : P.live r ≠ none) : r ≠ p' := by
  obtain ⟨e', -, hp'⟩ := h
  rintro rfl
  exact hp'.elim hr hl

theorem Pool.Swaps.trans {P'' : Pool} {p'' : Ptr} (h : P.Swaps P' p p') (h' : P'.Swaps P'' p' p'') :
    P.Swaps P'' p p'' := by
  obtain ⟨e₁, he₁, hp₁⟩ := h
  obtain ⟨e₂, he₂, hp₂⟩ := h'
  refine ⟨e₂, ?_, ?_⟩
  · rw [he₂, he₁]
    funext r
    by_cases hr : r = p''
    · simp [hr]
    · by_cases hr' : r = p'
      · subst hr'
        have hgone : Function.update P.live p none r = none := by
          by_cases hrp : r = p
          · simp [hrp]
          · rw [Function.update_of_ne hrp]
            exact hp₁.resolve_left hrp
        simp [hr, hgone]
      · simp [hr, hr']
  · by_cases hp : p'' = p
    · exact .inl hp
    · refine .inr ?_
      rcases hp₂ with rfl | hnone
      · exact hp₁.resolve_left hp
      · by_cases hpp : p'' = p'
        · exact hpp ▸ hp₁.resolve_left (hpp ▸ hp)
        · rwa [he₁, Function.update_of_ne hpp, Function.update_of_ne hp] at hnone

/-- A block that was only stored into. -/
theorem Pool.swaps_self {e' : MemEntry} (h : P'.live = Function.update P.live p (some e')) :
    P.Swaps P' p p :=
  ⟨e', by rw [h, Function.update_idem], .inl rfl⟩

theorem Pool.Swaps.refl (hl : P.live p ≠ none) : P.Swaps P p p := by
  obtain ⟨e, he⟩ := Option.ne_none_iff_exists'.1 hl
  have hsame : P.live = Function.update P.live p (some e) := by
    rw [← he, Function.update_eq_self]
  exact swaps_self hsame

/-- No block has more than `MAX_EXT_MEM_BLOCK` bytes. -/
theorem Pool.Ok.capacity_le (h : P.Ok) (hl : P.live p = some e) : e.capacity ≤ maxExtMemBlock := by
  have hok := (h.entryOk hl).1
  rw [hok.capacity]
  exact blockSize_le hok.cls

theorem sizeAdd_of_le {a b : ℕ} (h : a + b ≤ maxExtMemBlock) : sizeAdd a b = a + b := by
  refine Nat.mod_eq_of_lt (lt_of_le_of_lt h ?_)
  norm_num [maxExtMemBlock, sizeMod]

theorem sizeSub_of_le {a b : ℕ} (h : b ≤ a) (ha : a ≤ maxExtMemBlock) : sizeSub a b = a - b := by
  have hmax : maxExtMemBlock < sizeMod := by norm_num [maxExtMemBlock, sizeMod]
  unfold sizeSub
  rw [Nat.mod_eq_of_lt (by omega : b < sizeMod)]
  rw [show a + (sizeMod - b) = (a - b) + sizeMod by omega, Nat.add_mod_right,
    Nat.mod_eq_of_lt (by omega)]

theorem Buf.HoldsIn.length (h : b.HoldsIn e q) : q.length = b.dataLen := by
  rw [← h.data, length_read]

theorem Buf.HoldsIn.le_capacity (h : b.HoldsIn e q) : b.dataLen ≤ e.capacity :=
  h.fits.trans h.room

theorem Buf.Holds.length (h : b.Holds P q) : q.length = b.dataLen := h.choose_spec.2.length

/-- `buf_free_space` does not underflow. -/
theorem Buf.Holds.freeSpace (h : b.Holds P q) (hP : P.Ok) :
    bufFreeSpace b = b.bufLen - b.dataLen ∧ b.dataLen ≤ b.bufLen := by
  obtain ⟨e, hl, H⟩ := h
  exact ⟨sizeSub_of_le H.fits (H.room.trans (hP.capacity_le hl)), H.fits⟩

/-- A buffer keeps its bytes through anything that leaves its block alone. -/
theorem Buf.Holds.of_live_eq (h : b.Holds P q) (hl : P'.live b.buffer = P.live b.buffer) :
    b.Holds P' q := by
  obtain ⟨e, he, H⟩ := h
  exact ⟨e, hl.trans he, H⟩

/-- A load of the first bytes. -/
theorem Buf.Holds.load_take (h : b.Holds P q) {n : ℕ} (hn : n ≤ b.dataLen) :
    P.load b.buffer 0 n = .ok (q.take n) := by
  obtain ⟨e, hl, H⟩ := h
  have hload : 0 + n ≤ e.capacity := by
    have := H.le_capacity
    omega
  rw [load_spec hl hload, ← H.data, take_read hn]

/-- A load of all the bytes. -/
theorem Buf.Holds.load_all (h : b.Holds P q) : P.load b.buffer 0 b.dataLen = .ok q := by
  rw [h.load_take le_rfl, ← h.length, List.take_length]

theorem Buf.Holds.live_ne_none (h : b.Holds P q) : P.live b.buffer ≠ none := by
  obtain ⟨e, he, -⟩ := h
  simp [he]

/-! ### The operations -/

/-- `buffer[0] = 0` stays within any block. -/
theorem store_nul_spec (hP : P.Ok) (hl : P.live p = some e) :
    ∃ P', P.store p 0 [0] = .ok P' ∧ P'.Ok ∧
      P'.live = Function.update P.live p (some { e with obj := write e.obj 0 [0] }) :=
  store_spec hP hl (hP.capacity_pos hl)

/-- `clear_space` empties the buffer. -/
theorem clearSpace_spec (hP : P.Ok) (H : b.Holds P q) :
    ∃ P', clearSpace b P = .ok ({ b with dataLen := 0 }, P') ∧ P'.Ok ∧
      Buf.Holds { b with dataLen := 0 } P' [] ∧ P.Swaps P' b.buffer b.buffer := by
  obtain ⟨e, hl, H⟩ := H
  obtain ⟨P', hrun, hP', hlive⟩ := store_nul_spec hP hl
  refine ⟨P', by simp [clearSpace, hrun], hP', ⟨{ e with obj := write e.obj 0 [0] }, ?_, ?_⟩,
    swaps_self hlive⟩
  · rw [hlive, Function.update_self]
  · exact ⟨rfl, Nat.zero_le _, H.room⟩

/-- `buf_pick` drops the first bytes. -/
theorem bufPick_spec (hP : P.Ok) (H : b.Holds P q) {n : ℕ} (hn : n ≤ b.dataLen) :
    ∃ P', bufPick n b P = .ok ({ b with dataLen := b.dataLen - n }, P') ∧ P'.Ok ∧
      Buf.Holds { b with dataLen := b.dataLen - n } P' (q.drop n) ∧
      P.Swaps P' b.buffer b.buffer := by
  obtain ⟨e, hl, H⟩ := H
  have hdrop : q.drop n = read e.obj n (b.dataLen - n) := by
    rw [← H.data, drop_read hn, Nat.zero_add]
  by_cases hpos : 0 < b.dataLen - n
  · have hload : n + (b.dataLen - n) ≤ e.capacity := by
      have := H.le_capacity
      omega
    have hstore : 0 + (read e.obj n (b.dataLen - n)).length ≤ e.capacity := by
      rw [length_read]
      omega
    obtain ⟨P', hrun, hP', hlive⟩ := store_spec hP hl hstore
    refine ⟨P', ?_, hP', ⟨{ e with obj := write e.obj 0 (read e.obj n (b.dataLen - n)) }, ?_, ?_⟩,
      swaps_self hlive⟩
    · simp only [bufPick, assert_of hn, ok_bind, if_pos hpos, load_spec hl hload, hrun, pure_eq_ok]
    · rw [hlive, Function.update_self]
    · refine ⟨?_, ?_, H.room⟩
      · show read (write e.obj 0 (read e.obj n (b.dataLen - n))) 0 (b.dataLen - n) = q.drop n
        rw [read_write_read, hdrop]
      · have := H.fits
        show b.dataLen - n ≤ b.bufLen
        omega
  · refine ⟨P, ?_, hP, ⟨e, hl, ?_, ?_, H.room⟩, Swaps.refl (by simp [hl])⟩
    · simp only [bufPick, assert_of hn, ok_bind, if_neg hpos, pure_eq_ok]
    · rw [hdrop]
      have : b.dataLen - n = 0 := by omega
      simp [this]
    · have := H.fits
      show b.dataLen - n ≤ b.bufLen
      omega

/-- `buf_realloc` moves the bytes to a block with `len` more of room. -/
theorem bufRealloc_spec (hP : P.Ok) (H : b.Holds P q) {len : ℕ}
    (hlen : b.bufLen + len ≤ maxExtMemBlock) :
    ∃ b' P', bufRealloc len b P = .ok (0, b', P') ∧ P'.Ok ∧ b'.Holds P' q ∧
      P.Swaps P' b.buffer b'.buffer ∧ b'.self = b.self ∧ b'.bufLen = b.bufLen + len ∧
      b'.dataLen = b.dataLen := by
  have hdata := H.length
  have hroom := (H.freeSpace hP).2
  obtain ⟨n, P₁, e₁, hrun₁, hP₁, hn, hlive₁, hfresh⟩ := memAlloc_spec hP (some "buf") hlen
  have hnb : b.buffer ≠ n := fun h => H.live_ne_none (h ▸ hn)
  have hcap₁ : b.bufLen + len ≤ e₁.capacity := by
    rw [hfresh.ok.capacity, hfresh.cls]
    exact le_blockSize_sizeClass (sizeClass_lt hlen)
  have H₁ : b.Holds P₁ q := H.of_live_eq (by rw [hlive₁, Function.update_of_ne hnb])
  obtain ⟨P₂, hrun₂, hP₂, hlive₂⟩ :=
    store_spec hP₁ (by rw [hlive₁, Function.update_self]) (show 0 + q.length ≤ e₁.capacity by omega)
  obtain ⟨e, hl₂, -⟩ : b.Holds P₂ q := H₁.of_live_eq (by rw [hlive₂, Function.update_of_ne hnb])
  obtain ⟨P₃, hrun₃, hP₃, hlive₃⟩ := memFree_spec hP₂ hl₂
  have hlive : P₃.live = Function.update (Function.update P.live b.buffer none) n
      (some { e₁ with obj := write e₁.obj 0 q }) := by
    rw [hlive₃, hlive₂, hlive₁, Function.update_idem, Function.update_comm hnb]
  refine ⟨{ b with buffer := n, bufLen := b.bufLen + len }, P₃, ?_, hP₃,
    ⟨{ e₁ with obj := write e₁.obj 0 q }, ?_, ?_, ?_, hcap₁⟩,
    ⟨_, hlive, .inr hn⟩, rfl, rfl, rfl⟩
  · simp only [bufRealloc, sizeAdd_of_le hlen, hrun₁, ok_bind, H₁.load_all, hrun₂, hrun₃,
      pure_eq_ok]
  · rw [hlive, Function.update_self]
  · show read (write e₁.obj 0 q) 0 b.dataLen = q
    rw [← hdata, read_write]
  · show b.dataLen ≤ b.bufLen + len
    omega

/-- Bytes that fit, stored behind the others. -/
theorem store_end_spec (hP : P.Ok) (H : b.Holds P q) {d : List UInt8}
    (hd : b.dataLen + d.length ≤ b.bufLen) :
    ∃ P', P.store b.buffer b.dataLen d = .ok P' ∧ P'.Ok ∧
      Buf.Holds { b with dataLen := sizeAdd b.dataLen d.length } P' (q ++ d) ∧
      P.Swaps P' b.buffer b.buffer ∧ sizeAdd b.dataLen d.length = b.dataLen + d.length := by
  obtain ⟨e, hl, H⟩ := H
  have hsum : sizeAdd b.dataLen d.length = b.dataLen + d.length :=
    sizeAdd_of_le (hd.trans (H.room.trans (hP.capacity_le hl)))
  obtain ⟨P', hrun, hP', hlive⟩ := store_spec hP hl (hd.trans H.room)
  rw [hsum]
  refine ⟨P', hrun, hP', ⟨{ e with obj := write e.obj b.dataLen d }, ?_, ?_, hd, H.room⟩,
    swaps_self hlive, rfl⟩
  · rw [hlive, Function.update_self]
  · show read (write e.obj b.dataLen d) 0 (b.dataLen + d.length) = q ++ d
    rw [read_write_append, H.data]

/-- A byte stored behind the data is not part of it. -/
theorem store_behind_spec (hP : P.Ok) (H : b.Holds P q) (hfree : b.dataLen < b.bufLen) (x : UInt8) :
    ∃ P', P.store b.buffer b.dataLen [x] = .ok P' ∧ P'.Ok ∧ b.Holds P' q ∧
      P.Swaps P' b.buffer b.buffer := by
  obtain ⟨e, hl, H⟩ := H
  have hroom : b.dataLen + [x].length ≤ e.capacity := by
    have := H.room
    rw [List.length_singleton]
    omega
  obtain ⟨P', hrun, hP', hlive⟩ := store_spec hP hl hroom
  refine ⟨P', hrun, hP', ⟨{ e with obj := write e.obj b.dataLen [x] }, ?_, ?_, H.fits, H.room⟩,
    swaps_self hlive⟩
  · rw [hlive, Function.update_self]
  · show read (write e.obj b.dataLen [x]) 0 b.dataLen = q
    rw [read_write_of_le le_rfl, H.data]

/-- The second half of `buf_put`, when the bytes fit. -/
theorem bufAppend_spec (hP : P.Ok) (H : b.Holds P q) {d : List UInt8}
    (hd : b.dataLen + d.length ≤ b.bufLen) :
    ∃ P', bufAppend d b P = .ok (0, { b with dataLen := b.dataLen + d.length }, P') ∧ P'.Ok ∧
      Buf.Holds { b with dataLen := b.dataLen + d.length } P' (q ++ d) ∧
      P.Swaps P' b.buffer b.buffer := by
  obtain ⟨P', hrun, hP', H', hS, hsum⟩ := store_end_spec hP H hd
  rw [hsum] at H'
  exact ⟨P', by simp only [bufAppend, hrun, ok_bind, pure_eq_ok, hsum], hP', H', hS⟩

/-- Where a growth is needed, the larger size has a class. -/
def PutFits (d : List UInt8) (b : Buf) : Prop :=
  bufFreeSpace b < d.length → b.bufLen + d.length ≤ maxExtMemBlock

/-- `buf_put` returns 0 with the bytes behind the others, in the same block when they fit and in
one larger by their number otherwise. -/
theorem bufPut_spec (hP : P.Ok) (H : b.Holds P q) {d : List UInt8} (hd : PutFits d b) :
    ∃ b' P', bufPut d b P = .ok (0, b', P') ∧ P'.Ok ∧ b'.Holds P' (q ++ d) ∧
      P.Swaps P' b.buffer b'.buffer ∧ b'.self = b.self ∧
      b'.bufLen = if b.bufLen - b.dataLen < d.length then b.bufLen + d.length else b.bufLen := by
  obtain ⟨hfree, hfits⟩ := H.freeSpace hP
  by_cases hgrow : bufFreeSpace b < d.length
  · obtain ⟨b₁, P₁, hrun₁, hP₁, H₁, hS₁, hself, hlen, hdata⟩ := bufRealloc_spec hP H (hd hgrow)
    have hroom : b₁.dataLen + d.length ≤ b₁.bufLen := by omega
    obtain ⟨P₂, hrun₂, hP₂, H₂, hS₂⟩ := bufAppend_spec hP₁ H₁ hroom
    refine ⟨_, P₂, ?_, hP₂, H₂, hS₁.trans hS₂, hself, ?_⟩
    · simp [bufPut, hgrow, hrun₁, hrun₂]
    · rw [if_pos (hfree ▸ hgrow)]
      exact hlen
  · have hroom : b.dataLen + d.length ≤ b.bufLen := by omega
    obtain ⟨P₂, hrun₂, hP₂, H₂, hS₂⟩ := bufAppend_spec hP H hroom
    refine ⟨_, P₂, ?_, hP₂, H₂, hS₂, rfl, ?_⟩
    · simp [bufPut, hgrow, hrun₂]
    · rw [if_neg (hfree ▸ hgrow)]

end Jujube
