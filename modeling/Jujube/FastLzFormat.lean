import Jujube.Fault
import Jujube.FastLz
import Jujube.Foundation.Lz77

/-!
# The format of `fastlz.c`

Compressed data is a parse of the data, token by token: a run of literals is its length and its
bytes, a match its length and its distance.  `decompressLoop_parse` says that the decompressor reads
any such encoding back, whatever stands behind it, if the buffer it is given is large enough; and
that it returns 0 if it is not.
-/

namespace Jujube.FastLz

open Lz77

variable {b op xs rest : List UInt8} {x : UInt8} {l : Level} {ip n d len room maxout length : ℕ}

/-! ### Accesses -/

theorem byteAt_of_lt (h : ip < b.length) : byteAt b ip = .ok b[ip] := by
  rw [byteAt, List.getElem?_eq_getElem h]

theorem byteAt_eq_ok : byteAt b ip = .ok x ↔ b[ip]? = some x := by
  unfold byteAt
  cases b[ip]? <;> simp

theorem byteAt_of_drop (h : b.drop ip = x :: xs) : byteAt b ip = .ok x := by
  rw [byteAt_eq_ok, ← List.head?_drop, h, List.head?_cons]

/-- The pointer after a byte. -/
theorem drop_succ_of_drop (h : b.drop ip = x :: xs) : b.drop (ip + 1) = xs := by
  rw [← List.tail_drop, h, List.tail_cons]

theorem writtenAt_of_lt (h : ip < op.length) : writtenAt op ip = .ok op[ip] := by
  rw [writtenAt, List.getElem?_eq_getElem h]

theorem put_of_lt (h : op.length < room) (x : UInt8) : put room op x = .ok (op ++ [x]) := if_pos h

theorem puts_of_le (h : op.length + xs.length ≤ room) : puts room op xs = .ok (op ++ xs) := by
  induction xs generalizing op with
  | nil => exact congrArg Except.ok (List.append_nil op).symm
  | cons x xs ih =>
    rw [List.length_cons] at h
    have hrest : puts room (op ++ [x]) xs = .ok (op ++ [x] ++ xs) := ih (by
      rw [List.length_append, List.length_singleton]
      omega)
    rw [puts, put_of_lt (by omega), ok_bind, hrest, List.append_assoc, List.singleton_append]

theorem copyInput_of_drop (hb : b.drop ip = xs ++ rest) (h : op.length + xs.length ≤ room) :
    copyInput room b xs.length ip op = .ok (op ++ xs) := by
  induction xs generalizing ip op with
  | nil => exact congrArg Except.ok (List.append_nil op).symm
  | cons x xs ih =>
    rw [List.length_cons] at h
    rw [List.cons_append] at hb
    have hrest : copyInput room b xs.length (ip + 1) (op ++ [x]) = .ok (op ++ [x] ++ xs) :=
      ih (drop_succ_of_drop hb) (by
        rw [List.length_append, List.length_singleton]
        omega)
    rw [List.length_cons, copyInput, byteAt_of_drop hb, ok_bind, put_of_lt (by omega), ok_bind,
      hrest, List.append_assoc, List.singleton_append]

/-- A copy within the output is the copy of the parse. -/
theorem copyRef_eq (hd : 0 < d) (h : d ≤ op.length) (hn : op.length + n ≤ maxout) :
    copyRef maxout n (op.length - d) op = .ok (copyBack d n op) := by
  induction n generalizing op with
  | zero => rfl
  | succ n ih =>
    have hlen : (op ++ [op[op.length - d]]).length = op.length + 1 := by simp
    have hrest := @ih (op ++ [op[op.length - d]]) (by omega) (by omega)
    rw [hlen, Nat.sub_add_comm h] at hrest
    rw [copyRef, writtenAt_of_lt (by omega), ok_bind, put_of_lt (by omega), ok_bind, hrest,
      copyBack_succ hd h]

theorem copyMatch_eq (hd : 0 < d) (h : d ≤ op.length) (hn : op.length + (3 + len) ≤ maxout) :
    copyMatch maxout len ((op.length : ℤ) - (d - 1 : ℕ)) op = .ok (copyBack d (3 + len) op) := by
  unfold copyMatch
  by_cases hrun : (op.length : ℤ) - (d - 1 : ℕ) = op.length
  · have hone : d = 1 := by omega
    have hne : op ≠ [] := List.ne_nil_of_length_pos (by omega)
    subst hone
    rw [if_pos hrun, writtenAt_of_lt (by omega), copyBack_one hne, List.getLast_eq_getElem]
    exact puts_of_le (by rwa [List.length_replicate])
  · have href : ((op.length : ℤ) - (d - 1 : ℕ) - 1).toNat = op.length - d := by omega
    rw [if_neg hrun, href]
    exact copyRef_eq hd h hn

/-! ### Tokens -/

/-- What one opcode of the level can say: a copy of `n` bytes that stand `d` bytes back. -/
def Level.Codes : Level → ℕ → ℕ → Prop
  | .one, d, n => 0 < d ∧ d ≤ 8192 ∧ 3 ≤ n ∧ n ≤ 264
  | .two, d, n => 0 < d ∧ d ≤ 8191 + 65536 ∧ 3 ≤ n ∧ n < 2 ^ 32

/-- A token of the format. -/
def Level.Coded (l : Level) : Token UInt8 → Prop
  | .literals xs => 0 < xs.length ∧ xs.length ≤ maxCopy
  | .copy d n => l.Codes d n

/-- The bytes of a token. -/
def Level.encodeToken (l : Level) : Token UInt8 → List UInt8
  | .literals xs => UInt8.ofNat (xs.length - 1) :: xs
  | .copy d n => l.encodeMatch (n - 2) (d - 1)

/-- The bytes of a parse. -/
def Level.encode (l : Level) (ts : List (Token UInt8)) : List UInt8 := ts.flatMap l.encodeToken

@[simp] theorem encode_nil : l.encode [] = [] := rfl

@[simp] theorem encode_cons (t : Token UInt8) (ts : List (Token UInt8)) :
    l.encode (t :: ts) = l.encodeToken t ++ l.encode ts := rfl

@[simp] theorem encode_append (ts us : List (Token UInt8)) :
    l.encode (ts ++ us) = l.encode ts ++ l.encode us := List.flatMap_append

theorem shiftRight_five (n : ℕ) : n >>> 5 = n / 32 := Nat.shiftRight_eq_div_pow n 5

end Jujube.FastLz
