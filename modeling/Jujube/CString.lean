import Mathlib.Data.List.TakeWhile
import Jujube.Fault
import Jujube.Foundation.Decimal

/-!
# Strings in arrays of characters

A `char *` is the list of the characters from there to the end of the array it points into; the
string is what stands in front of the first NUL.  A loop that moves its pointer forward is a
function on that list, and reading from the empty list is the fault of reading behind the array.

The functions of the C library take or give the characters of a string, without its NUL.
-/

namespace Jujube

open Decimal

/-- What can stop a function on a string. -/
inductive TextFault
  /-- a read behind the end of the array -/
  | readPast
  /-- a write behind the end of the array -/
  | writePast
  /-- an `int` counts beyond `INT_MAX` -/
  | signedOverflow
  /-- the value of a call is used that returned none -/
  | noValue
  deriving DecidableEq, Repr

/-- The characters of a text. -/
def ascii (s : String) : List UInt8 := s.toList.map fun c => UInt8.ofNat c.toNat

/-- `'.'` -/
def dot : UInt8 := 46

/-- `'0'` -/
def zero : UInt8 := 48

/-- `' '` and `'\t'` -/
def IsBlank (c : UInt8) : Prop := c = 32 ∨ c = 9

instance (c : UInt8) : Decidable (IsBlank c) := inferInstanceAs (Decidable (_ ∨ _))

/-- `i++` on an `int` that is not negative -/
def incr (i : ℕ) : Except TextFault ℕ :=
  if i + 1 < 2 ^ 31 then .ok (i + 1) else .error .signedOverflow

/-- `*p` -/
def peek : List UInt8 → Except TextFault UInt8
  | [] => .error .readPast
  | c :: _ => .ok c

/-- The string at a pointer, as `strlen` goes through it. -/
def cstr : List UInt8 → Except TextFault (List UInt8)
  | [] => .error .readPast
  | c :: cs =>
    if c = 0 then return []
    else do
      let s ← cstr cs
      return c :: s

/-- `strncpy`: the `n` bytes that are written. -/
def strncpy (n : ℕ) (s : List UInt8) : List UInt8 := s.take n ++ List.replicate (n - s.length) 0

/-- `strchr`: what stands in front of the first `c`, and what stands behind it. -/
def strchr (c : UInt8) : List UInt8 → Option (List UInt8 × List UInt8)
  | [] => none
  | b :: bs =>
    if b = c then some ([], bs)
    else if b = 0 then none
    else (strchr c bs).map fun r => (b :: r.1, r.2)

/-- `isspace` -/
def IsSpace (c : UInt8) : Prop := c = 32 ∨ 9 ≤ c.toNat ∧ c.toNat ≤ 13

instance (c : UInt8) : Decidable (IsSpace c) := inferInstanceAs (Decidable (_ ∨ _))

/-- `strtol` to base 10, between `LONG_MIN` and `LONG_MAX` -/
def strtol (s : List UInt8) : ℤ :=
  let s := s.dropWhile (IsSpace ·)
  let digits := if s.head? = some 45 ∨ s.head? = some 43 then s.tail else s
  let v : ℤ := value (digits.takeWhile (IsDigit ·))
  if s.head? = some 45 then max (-v) (-2 ^ 63) else min v (2 ^ 63 - 1)

/-- `atoi`, which is `(int) strtol` -/
def atoi (s : List UInt8) : ℤ := (strtol s).bmod (2 ^ 32)

/-- `sprintf` of a text to the begin of an array. -/
def sprintf (dst text : List UInt8) : Except TextFault (List UInt8) :=
  if text.length < dst.length then .ok (text ++ 0 :: dst.drop (text.length + 1))
  else .error .writePast

/-! ### Strings that are there -/

variable {c : UInt8} {s f rest : List UInt8} {i n : ℕ}

theorem incr_of_lt (h : i + 1 < 2 ^ 31) : incr i = .ok (i + 1) := if_pos h

theorem incr_eq_ok {j : ℕ} : incr i = .ok j ↔ i + 1 < 2 ^ 31 ∧ i + 1 = j := by
  unfold incr
  split_ifs with h
  · simp only [Except.ok.injEq, h, true_and]
  · simp only [h, false_and]

@[simp] theorem cstr_append (h : 0 ∉ s) (rest : List UInt8) : cstr (s ++ 0 :: rest) = .ok s := by
  induction s with
  | nil => rfl
  | cons c s ih =>
    rw [List.mem_cons, not_or] at h
    rw [List.cons_append, cstr, if_neg (Ne.symm h.1), ih h.2]
    rfl

theorem strchr_eq_none (hc : c ∉ s) (h : 0 ∉ s) (hne : c ≠ 0) (rest : List UInt8) :
    strchr c (s ++ 0 :: rest) = none := by
  induction s with
  | nil => rw [List.nil_append, strchr, if_neg (Ne.symm hne), if_pos rfl]
  | cons b s ih =>
    rw [List.mem_cons, not_or] at hc h
    rw [List.cons_append, strchr, if_neg (Ne.symm hc.1), if_neg (Ne.symm h.1), ih hc.2 h.2]
    rfl

theorem strchr_append (hc : c ∉ f) (h : 0 ∉ f) (rest : List UInt8) :
    strchr c (f ++ c :: rest) = some (f, rest) := by
  induction f with
  | nil => simp [strchr]
  | cons b f ih =>
    rw [List.mem_cons, not_or] at hc h
    rw [List.cons_append, strchr, if_neg (Ne.symm hc.1), if_neg (Ne.symm h.1), ih hc.2 h.2]
    rfl

/-- The copy with a NUL behind it begins with what fits of the string. -/
theorem strncpy_append (n : ℕ) (s : List UInt8) :
    ∃ pad, strncpy n s ++ [0] = s.take n ++ 0 :: pad := by
  refine ⟨List.replicate (n - s.length) 0, ?_⟩
  rw [strncpy, List.append_assoc, ← List.replicate_succ', List.replicate_succ]

/-- `atoi` of digits. -/
theorem atoi_of_digits (h : ∀ c ∈ s, IsDigit c) :
    atoi s = (min (value s : ℤ) (2 ^ 63 - 1)).bmod (2 ^ 32) := by
  have hdigits : s.takeWhile (IsDigit ·) = s := List.takeWhile_eq_self_iff.2 (by simpa using h)
  cases s with
  | nil => rfl
  | cons c cs =>
    have hc := h c List.mem_cons_self
    have hspace : ¬ IsSpace c := by
      rintro (rfl | hs)
      · exact absurd hc (by decide)
      · have := hc.1
        omega
    have hminus : c ≠ 45 := by
      rintro rfl
      exact absurd hc (by decide)
    have hplus : c ≠ 43 := by
      rintro rfl
      exact absurd hc (by decide)
    rw [atoi, strtol]
    simp only [List.dropWhile_cons, hspace, decide_false, List.head?_cons, Option.some.injEq,
      hminus, hplus, or_self, if_false, hdigits, Bool.false_eq_true]

end Jujube
