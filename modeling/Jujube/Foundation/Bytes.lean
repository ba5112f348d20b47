import Mathlib.Tactic

/-!
# Byte memory and little-endian numbers

A memory is a function from offsets to bytes; what may be accessed is decided by whoever owns it.

* `read m off n`, `write m off d`: a range of bytes, as `memcpy` and `memset` see it.  An
  overlapping move is `write m to (read m from n)`: the source is the memory before the move;
* `le w n`, `ofLe`: the `w` bytes of a number, least significant first, and back.
-/

namespace Bytes

/-- A byte at every offset. -/
abbrev Memory := ℕ → UInt8

/-- The `n` bytes from `off` on. -/
def read (m : Memory) (off n : ℕ) : List UInt8 := (List.range n).map fun k => m (off + k)

/-- The memory after storing `d` from `off` on. -/
def write (m : Memory) (off : ℕ) (d : List UInt8) : Memory := fun k =>
  if off ≤ k then d.getD (k - off) (m k) else m k

variable {m : Memory} {off n : ℕ} {d : List UInt8}

@[simp] theorem length_read : (read m off n).length = n := by simp [read]

@[simp] theorem read_zero : read m off 0 = [] := rfl

theorem getElem_read {k : ℕ} (hk : k < (read m off n).length) :
    (read m off n)[k] = m (off + k) := by
  simp [read]

theorem read_add (a b : ℕ) : read m off (a + b) = read m off a ++ read m (off + a) b := by
  simp [read, List.range_add, Nat.add_assoc]

theorem take_read {k : ℕ} (hk : k ≤ n) : (read m off n).take k = read m off k := by
  simp [read, ← List.map_take, List.take_range, hk]

theorem drop_read {k : ℕ} (hk : k ≤ n) : (read m off n).drop k = read m (off + k) (n - k) := by
  obtain ⟨r, rfl⟩ := Nat.exists_eq_add_of_le hk
  rw [read_add, List.drop_left' length_read, Nat.add_sub_cancel_left]

/-- A range reads the same in two memories that agree on it. -/
theorem read_congr {m' : Memory} (h : ∀ k, off ≤ k → k < off + n → m' k = m k) :
    read m' off n = read m off n := by
  refine List.map_congr_left fun k hk => h _ (by omega) ?_
  have := List.mem_range.1 hk
  omega

theorem write_of_outside {k : ℕ} (h : k < off ∨ off + d.length ≤ k) : write m off d k = m k := by
  unfold write
  split_ifs with hk
  · rw [List.getD_eq_getElem?_getD, List.getElem?_eq_none (by omega), Option.getD_none]
  · rfl

theorem write_of_inside {k : ℕ} (hk : k < d.length) : write m off d (off + k) = d[k] := by
  simp [write, hk]

/-- What was stored is read back. -/
@[simp] theorem read_write : read (write m off d) off d.length = d := by
  apply List.ext_getElem (by simp)
  intro k hk _
  rw [getElem_read, write_of_inside (by simpa using hk)]

/-- What was copied is what was there before. -/
theorem read_write_read (m' : Memory) (a : ℕ) :
    read (write m off (read m' a n)) off n = read m' a n := by
  have h : read (write m off (read m' a n)) off (read m' a n).length = _ := read_write
  rwa [length_read] at h

/-- A range in front of the stored one is not affected. -/
theorem read_write_of_le (h : n ≤ off) : read (write m off d) 0 n = read m 0 n :=
  read_congr fun _ _ hk => write_of_outside (by omega)

/-- Storing behind a prefix extends it. -/
theorem read_write_append : read (write m n d) 0 (n + d.length) = read m 0 n ++ d := by
  rw [read_add, read_write_of_le le_rfl, Nat.zero_add, read_write]

/-- Storing inside a range replaces the stored part of it. -/
theorem read_write_inside (h : off + d.length ≤ n) :
    read (write m off d) 0 n =
      (read m 0 n).take off ++ (d ++ (read m 0 n).drop (off + d.length)) := by
  obtain ⟨r, rfl⟩ := Nat.exists_eq_add_of_le h
  have hbehind : read (write m off d) (off + d.length) r = read m (off + d.length) r :=
    read_congr fun _ hk _ => write_of_outside (by omega)
  rw [take_read (by omega), drop_read (by omega), Nat.add_sub_cancel_left, read_add,
    read_write_append, Nat.zero_add, hbehind, List.append_assoc]

theorem read_replicate {b : UInt8} (h : ∀ k < n, m k = b) : read m 0 n = List.replicate n b := by
  refine List.eq_replicate_iff.2 ⟨length_read, fun x hx => ?_⟩
  obtain ⟨k, hk, rfl⟩ := List.mem_map.1 hx
  exact h _ (by simpa using hk)

/-! ### Little-endian numbers -/

/-- The `w` low bytes of a number, least significant first. -/
def le : ℕ → ℕ → List UInt8
  | 0, _ => []
  | w + 1, n => UInt8.ofNat n :: le w (n / 256)

/-- The number some bytes stand for, least significant first. -/
def ofLe : List UInt8 → ℕ
  | [] => 0
  | b :: bs => b.toNat + 256 * ofLe bs

@[simp] theorem length_le (w n : ℕ) : (le w n).length = w := by
  induction w generalizing n with
  | zero => rfl
  | succ w ih => simp [le, ih]

/-- Encoding keeps a number modulo its width. -/
theorem ofLe_le (w n : ℕ) : ofLe (le w n) = n % 256 ^ w := by
  induction w generalizing n with
  | zero => simp [le, ofLe, Nat.mod_one]
  | succ w ih =>
    have hb : (UInt8.ofNat n).toNat = n % 256 := by simp
    rw [le, ofLe, ih, hb, Nat.pow_succ', Nat.mod_mul]

theorem ofLe_le_of_lt {w n : ℕ} (h : n < 256 ^ w) : ofLe (le w n) = n := by
  rw [ofLe_le, Nat.mod_eq_of_lt h]

end Bytes
