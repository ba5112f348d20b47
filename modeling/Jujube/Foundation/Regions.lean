import Mathlib.Tactic

/-!
# An allocator of fresh zeroed regions

What an allocator is for, and nothing of how it works: some regions are in use, each with its
contents.  A call names the region it is answered with, so a step is a relation.

* `alloc n p`: the region `p`, which was not in use, with `n` zeroes in it;
* `free p`: the region `p` is not in use any more;
* `realloc p k n q`: `free p` and `alloc n q` with the first `k` bytes of `p` in front;
* `store p off d`: the owner of `p` stores `d` from `off` on.
-/

namespace Regions

variable {ι : Type*}

/-- The regions in use, each with its contents. -/
abbrev State (ι : Type*) := ι → Option (List UInt8)

/-- A call with its answer. -/
inductive Call (ι : Type*)
  | alloc (n : ℕ) (p : ι)
  | free (p : ι)
  | realloc (p : ι) (k n : ℕ) (q : ι)
  | store (p : ι) (off : ℕ) (d : List UInt8)

/-- The contents of a fresh region. -/
def zeroes (n : ℕ) : List UInt8 := List.replicate n 0

/-- The contents after `d` was stored from `off` on. -/
def splice (c : List UInt8) (off : ℕ) (d : List UInt8) : List UInt8 :=
  c.take off ++ (d ++ c.drop (off + d.length))

/-- What a call does: it changes the regions it names and no other. -/
inductive Step [DecidableEq ι] : State ι → Call ι → State ι → Prop
  | alloc {A : State ι} {p : ι} (n : ℕ) (fresh : A p = none) :
    Step A (.alloc n p) (Function.update A p (some (zeroes n)))
  | free {A : State ι} {p : ι} {c : List UInt8} (used : A p = some c) :
    Step A (.free p) (Function.update A p none)
  | realloc {A : State ι} {p q : ι} {c : List UInt8} {k n : ℕ} (used : A p = some c)
    (fresh : A q = none) (hc : k ≤ c.length) (hn : k ≤ n) :
    Step A (.realloc p k n q)
      (Function.update (Function.update A q (some (c.take k ++ zeroes (n - k)))) p none)
  | store {A : State ι} {p : ι} {c : List UInt8} {off : ℕ} {d : List UInt8} (used : A p = some c)
    (fits : off + d.length ≤ c.length) :
    Step A (.store p off d) (Function.update A p (some (splice c off d)))

@[simp] theorem length_zeroes (n : ℕ) : (zeroes n).length = n := List.length_replicate

theorem take_zeroes {a b : ℕ} (h : a ≤ b) : (zeroes b).take a = zeroes a := by
  rw [zeroes, List.take_replicate, Nat.min_eq_left h, zeroes]

end Regions
