import Jujube.FastLzFormat

/-!
# The decompressor of `fastlz.c` on any bytes

The header calls decompression memory safe.  Writing is: whatever the data, nothing is written
behind the output buffer and nothing is copied that was not written (`fastlzDecompress_safe`).
Reading is not: the bytes of a match are read without a look at the end of the data, and on level 2
a length goes on for as long as there are bytes 255.
-/

namespace Jujube.FastLz

open Lz77

variable {b op : List UInt8} {l : Level} {ip k len n room maxout length : ℕ} {ref : ℤ}

theorem byteAt_of_length_le (h : b.length ≤ ip) : byteAt b ip = .error .readPast := by
  rw [byteAt, List.getElem?_eq_none h]

/-- The level that the first byte says. -/
def Level.Announced (b : List UInt8) : Level → Prop
  | .one => ∃ x, b[0]? = some x ∧ x.toNat / 32 = 0
  | .two => ∃ x, b[0]? = some x ∧ x.toNat / 32 = 1

/-- Data that no match can lead out of the readable bytes: two of them stand behind it, or, on
level 2, one that is not 255 and three more. -/
def Level.Guarded (b : List UInt8) (length : ℕ) : Level → Prop
  | .one => length + 2 ≤ b.length
  | .two => ∃ i, length ≤ i ∧ i + 3 < b.length ∧ b[i]? ≠ some 255

/-- The loop over a length ends behind the first byte that is not 255. -/
theorem lenLoop_cases (hip : ip ≤ b.length) (hk : b.length < ip + k) (len : ℕ) :
    (∃ i len', lenLoop b k ip len = .ok (i + 1, len') ∧ ip ≤ i ∧ i < b.length ∧
      b[i]? ≠ some 255 ∧ ∀ j, ip ≤ j → b[j]? ≠ some 255 → i ≤ j) ∨
    (lenLoop b k ip len = .error .readPast ∧ ∀ i, ip ≤ i → i < b.length → b[i]? = some 255) := by
  induction k generalizing ip len with
  | zero => omega
  | succ k ih =>
    rw [lenLoop]
    by_cases hin : ip < b.length
    · have hat : b[ip]? = some b[ip] := List.getElem?_eq_getElem hin
      rw [byteAt_of_lt hin, ok_bind]
      by_cases hcode : b[ip] = 255
      · rw [if_pos hcode]
        rw [hcode] at hat
        rcases @ih (ip + 1) (by omega) (by omega) ((len + b[ip].toNat) % 2 ^ 32) with
          ⟨i, len', hrun, hle, hi, hne, hfirst⟩ | ⟨hrun, hall⟩
        · refine .inl ⟨i, len', hrun, by omega, hi, hne, fun j hj hnej => hfirst j ?_ hnej⟩
          rcases Nat.eq_or_lt_of_le hj with rfl | hj
          · exact absurd hat hnej
          · exact hj
        · refine .inr ⟨hrun, fun i hi hb => ?_⟩
          rcases Nat.eq_or_lt_of_le hi with rfl | hi
          · exact hat
          · exact hall i hi hb
      · rw [if_neg hcode]
        exact .inl ⟨ip, _, rfl, le_rfl, hin, fun h => hcode (Option.some.inj (hat.symm.trans h)),
          fun j hj _ => hj⟩
    · rw [byteAt_of_length_le (not_lt.1 hin)]
      exact .inr ⟨rfl, fun i hi hb => by omega⟩

theorem byteAt_cases (b : List UInt8) (ip : ℕ) :
    (ip < b.length ∧ ∃ x, byteAt b ip = .ok x) ∨
      (b.length ≤ ip ∧ byteAt b ip = .error .readPast) := by
  rcases Nat.lt_or_ge ip b.length with h | h
  · exact .inl ⟨h, _, byteAt_of_lt h⟩
  · exact .inr ⟨h, byteAt_of_length_le h⟩

/-- How far the length of a match goes on level 2: not behind what guards the data. -/
theorem length_cases {p : Prop} [Decidable p] (hip : ip ≤ length) (hlen : length ≤ b.length)
    (len : ℕ) :
    (∃ ip' len', (if p then lenLoop b (b.length + 1) ip len else return (ip, len)) =
        .ok (ip', len') ∧ ip ≤ ip' ∧ ∀ i, length ≤ i → b[i]? ≠ some 255 → ip' ≤ i + 1) ∨
    ((if p then lenLoop b (b.length + 1) ip len else return (ip, len)) = .error .readPast ∧
      ¬ Level.two.Guarded b length) := by
  by_cases hp : p
  · rw [if_pos hp]
    rcases lenLoop_cases (b := b) (k := b.length + 1) (hip.trans hlen) (by omega) len with
      ⟨i, len', hrun, hle, -, -, hfirst⟩ | ⟨hrun, hall⟩
    · exact .inl ⟨i + 1, len', hrun, by omega, fun j hj hne =>
        Nat.succ_le_succ (hfirst j (hip.trans hj) hne)⟩
    · exact .inr ⟨hrun, fun ⟨i, hi, hb, hne⟩ => hne (hall i (hip.trans hi) (by omega))⟩
  · rw [if_neg hp]
    exact .inl ⟨ip, len, rfl, le_rfl, fun i hi _ => by omega⟩

/-- **A match is read** from bytes that are there, or reading it goes behind them. -/
theorem readMatch_cases (l : Level) (ctrl op : ℕ) (hip : ip ≤ length) (hlen : length ≤ b.length) :
    (∃ ip' len ref, readMatch l b ctrl ip op = .ok (ip', len, ref) ∧ ip < ip' ∧ ref ≤ op) ∨
    (readMatch l b ctrl ip op = .error .readPast ∧ ¬ l.Guarded b length) := by
  cases l with
  | one =>
    have hunguarded : b.length < length + 2 → ¬ Level.one.Guarded b length := Nat.not_le.2
    unfold readMatch
    by_cases hlong : (ctrl >>> 5) - 1 = 7 - 1
    · rcases byteAt_cases b ip with ⟨-, x, hx⟩ | ⟨hend, hx⟩
      · rcases byteAt_cases b (ip + 1) with ⟨-, y, hy⟩ | ⟨hend, hy⟩
        · simp only [if_pos hlong, hx, hy, ok_bind, pure_eq_ok]
          exact .inl ⟨_, _, _, rfl, by omega, by omega⟩
        · simp only [if_pos hlong, hx, hy, ok_bind, pure_eq_ok, error_bind]
          exact .inr ⟨trivial, hunguarded (by omega)⟩
      · simp only [if_pos hlong, hx, error_bind]
        exact .inr ⟨trivial, hunguarded (by omega)⟩
    · rcases byteAt_cases b ip with ⟨-, x, hx⟩ | ⟨hend, hx⟩
      · simp only [if_neg hlong, hx, ok_bind, pure_eq_ok]
        exact .inl ⟨_, _, _, rfl, by omega, by omega⟩
      · simp only [if_neg hlong, hx, ok_bind, pure_eq_ok, error_bind]
        exact .inr ⟨trivial, hunguarded (by omega)⟩
  | two =>
    unfold readMatch
    rcases length_cases (p := (ctrl >>> 5) - 1 = 7 - 1) hip hlen ((ctrl >>> 5) - 1) with
      ⟨ip', len', hrun, hle, hend⟩ | ⟨hrun, hguard⟩
    · -- at most three bytes are read behind the length
      have hunguarded : b.length ≤ ip' + 2 → ¬ Level.two.Guarded b length :=
        fun hb ⟨i, hi, hib, hne⟩ => by
          have := hend i hi hne
          omega
      simp only [hrun, ok_bind]
      rcases byteAt_cases b ip' with ⟨-, x, hx⟩ | ⟨hend, hx⟩
      · by_cases hfar : x = 255 ∧ (ctrl &&& 31) <<< 8 = 31 <<< 8
        · rcases byteAt_cases b (ip' + 1) with ⟨-, y, hy⟩ | ⟨hend, hy⟩
          · rcases byteAt_cases b (ip' + 2) with ⟨-, z, hz⟩ | ⟨hend, hz⟩
            · simp only [hx, hy, hz, if_pos hfar, ok_bind, pure_eq_ok]
              exact .inl ⟨_, _, _, rfl, by omega, by omega⟩
            · simp only [hx, hy, hz, if_pos hfar, ok_bind, error_bind]
              exact .inr ⟨trivial, hunguarded (by omega)⟩
          · simp only [hx, hy, if_pos hfar, ok_bind, error_bind]
            exact .inr ⟨trivial, hunguarded (by omega)⟩
        · simp only [hx, if_neg hfar, ok_bind, pure_eq_ok]
          exact .inl ⟨_, _, _, rfl, by omega, by omega⟩
      · simp only [hx, error_bind]
        exact .inr ⟨trivial, hunguarded (by omega)⟩
    · simp only [hrun, error_bind]
      exact .inr ⟨trivial, hguard⟩

theorem copyInput_eq (hb : ip + n ≤ b.length) (h : op.length + n ≤ room) :
    ∃ xs, copyInput room b n ip op = .ok (op ++ xs) ∧ xs.length = n := by
  have hlen : ((b.drop ip).take n).length = n := by
    rw [List.length_take, List.length_drop]
    omega
  have hdrop : b.drop ip = (b.drop ip).take n ++ (b.drop ip).drop n :=
    (List.take_append_drop n _).symm
  have hcopy : copyInput room b ((b.drop ip).take n).length ip op = _ :=
    copyInput_of_drop hdrop (by omega)
  rw [hlen] at hcopy
  exact ⟨_, hcopy, hlen⟩

/-- A match that starts in the output is copied from what was written. -/
theorem copyMatch_cases (hle : ref ≤ op.length) (hstart : ¬ ref - 1 < 0)
    (hroom : ¬ maxout < op.length + len + 3) :
    ∃ op', copyMatch maxout len ref op = .ok op' ∧ op'.length = op.length + (3 + len) := by
  obtain ⟨d, hd⟩ : ∃ d : ℕ, ref = (op.length : ℤ) - (d : ℕ) := ⟨(op.length - ref).toNat, by omega⟩
  have hpos : 0 < d + 1 := Nat.succ_pos d
  have hd' : d + 1 ≤ op.length := by omega
  have hcopy : copyMatch maxout len ((op.length : ℤ) - (d + 1 - 1 : ℕ)) op = _ :=
    copyMatch_eq hpos hd' (by omega)
  rw [Nat.add_sub_cancel, ← hd] at hcopy
  exact ⟨_, hcopy, length_copyBack hpos hd' _⟩

/-- The decompressor from a control byte on: it returns 0 or how much it has written, which the
buffer has room for; or a match that is not guarded has led it out of the data. -/
theorem decompressLoop_safe (hop : op.length ≤ maxout) (hip : ip ≤ length)
    (hlen : length ≤ b.length) (hk : length < ip + k) (ctrl : ℕ) :
    (∃ r w, decompressLoop l b length maxout k ctrl ip op = .ok (r, w) ∧ w.length ≤ maxout ∧
      (r = 0 ∨ r = w.length)) ∨
    (decompressLoop l b length maxout k ctrl ip op = .error .readPast ∧ ¬ l.Guarded b length) := by
  induction k generalizing ctrl ip op with
  | zero => omega
  | succ k ih =>
    -- what follows a token
    have hnext : ∀ {ip' : ℕ} {op' : List UInt8}, op'.length ≤ maxout → ip < ip' → ip' < length →
        ∀ ctrl', (∃ r w, decompressLoop l b length maxout k ctrl' (ip' + 1) op' = .ok (r, w) ∧
          w.length ≤ maxout ∧ (r = 0 ∨ r = w.length)) ∨
        (decompressLoop l b length maxout k ctrl' (ip' + 1) op' = .error .readPast ∧
          ¬ l.Guarded b length) :=
      fun hop' hlt hin ctrl' => ih hop' (by omega) (by omega) ctrl'
    rw [decompressLoop]
    by_cases hctrl : 32 ≤ ctrl
    · rw [if_pos hctrl]
      rcases readMatch_cases l ctrl op.length hip hlen with
        ⟨ip', len, ref, hread, hlt, href⟩ | ⟨hread, hguard⟩
      · simp only [hread, ok_bind]
        by_cases hroom : maxout < op.length + len + 3
        · rw [if_pos hroom]
          exact .inl ⟨0, op, rfl, hop, .inl rfl⟩
        · rw [if_neg hroom]
          by_cases hstart : ref - 1 < 0
          · rw [if_pos hstart]
            exact .inl ⟨0, op, rfl, hop, .inl rfl⟩
          · rw [if_neg hstart]
            obtain ⟨op', hcopy, hlen'⟩ := copyMatch_cases href hstart hroom
            by_cases hin : ip' < length
            · rw [if_pos hin, byteAt_of_lt (by omega), ok_bind, hcopy, ok_bind]
              exact hnext (by omega) hlt hin _
            · rw [if_neg hin, hcopy, ok_bind]
              exact .inl ⟨_, op', rfl, by omega, .inr rfl⟩
      · simp only [hread, error_bind]
        exact .inr ⟨trivial, hguard⟩
    · rw [if_neg hctrl]
      by_cases hroom : maxout < op.length + (ctrl + 1)
      · exact .inl ⟨0, op, by simp only [if_pos hroom]; rfl, hop, .inl rfl⟩
      · by_cases hend : length < ip + (ctrl + 1)
        · exact .inl ⟨0, op, by simp only [if_neg hroom, if_pos hend]; rfl, hop, .inl rfl⟩
        · obtain ⟨xs, hcopy, hxs⟩ := copyInput_eq
            (show ip + (ctrl + 1) ≤ b.length by omega)
            (show op.length + (ctrl + 1) ≤ maxout by omega)
          have hlen' : (op ++ xs).length = op.length + (ctrl + 1) := by rw [List.length_append, hxs]
          simp only [if_neg hroom, if_neg hend, hcopy, ok_bind]
          by_cases hin : ip + (ctrl + 1) < length
          · rw [if_pos hin, byteAt_of_lt (by omega), ok_bind]
            exact hnext (by omega) (by omega) hin _
          · rw [if_neg hin]
            exact .inl ⟨_, op ++ xs, rfl, by omega, .inr rfl⟩

theorem decompressor_safe (hpos : 0 < length) (hlen : length ≤ b.length) (l : Level)
    (maxout : ℕ) :
    (∃ r w, decompressor l b length maxout = .ok (r, w) ∧ w.length ≤ maxout ∧
      (r = 0 ∨ r = w.length)) ∨
    (decompressor l b length maxout = .error .readPast ∧ ¬ l.Guarded b length) := by
  rw [decompressor, byteAt_of_lt (hpos.trans_le hlen), ok_bind]
  exact decompressLoop_safe (Nat.zero_le maxout) hpos hlen (by omega) _

/-- **Decompression of any bytes** stops, and what it writes stays inside the output buffer and is
never copied from what was not written.  It returns 0 or how much it wrote.  All that can go wrong
is a read behind the data, and only where that is not guarded: on level 1 by two more bytes, on
level 2 by a byte that is not 255 and three more. -/
theorem fastlzDecompress_safe (hpos : 0 < length) (hlen : length ≤ b.length) (maxout : ℕ) :
    (∃ r w, fastlzDecompress b length maxout = .ok (r, w) ∧ w.length ≤ maxout ∧
      (r = 0 ∨ r = w.length)) ∨
    (fastlzDecompress b length maxout = .error .readPast ∧
      ∃ l : Level, l.Announced b ∧ ¬ l.Guarded b length) := by
  have hfirst : b[0]? = some b[0] := List.getElem?_eq_getElem (hpos.trans_le hlen)
  rw [fastlzDecompress, byteAt_of_lt (hpos.trans_le hlen), ok_bind, shiftRight_five]
  by_cases hone : b[0].toNat / 32 + 1 = 1
  · simp only [if_pos hone]
    refine (decompressor_safe hpos hlen .one maxout).imp_right ?_
    rintro ⟨hrun, hguard⟩
    exact ⟨hrun, .one, ⟨_, hfirst, by omega⟩, hguard⟩
  · by_cases htwo : b[0].toNat / 32 + 1 = 2
    · simp only [if_neg hone, if_pos htwo]
      refine (decompressor_safe hpos hlen .two maxout).imp_right ?_
      rintro ⟨hrun, hguard⟩
      exact ⟨hrun, .two, ⟨_, hfirst, by omega⟩, hguard⟩
    · simp only [if_neg hone, if_neg htwo]
      exact .inl ⟨0, [], rfl, Nat.zero_le maxout, .inl rfl⟩

/-- One byte, and a match of three: with two bytes behind the data it is guarded, and the buffer of
three bytes has no room for the match. -/
theorem fastlzDecompress_safe_short :
    fastlzDecompress [0, 65, 32, 0, 0, 0] 4 3 = .ok (0, [65]) ∧
    ((∃ r w, fastlzDecompress [0, 65, 32, 0, 0, 0] 4 3 = .ok (r, w) ∧ w.length ≤ 3 ∧
      (r = 0 ∨ r = w.length)) ∨
    (fastlzDecompress [0, 65, 32, 0, 0, 0] 4 3 = .error .readPast ∧
      ∃ l : Level, l.Announced [0, 65, 32, 0, 0, 0] ∧
        ¬ l.Guarded [0, 65, 32, 0, 0, 0] 4)) :=
  ⟨by decide, fastlzDecompress_safe (by decide) (by decide) 3⟩

/-- On level 2 no number of bytes behind the data is enough of a guard: three bytes of data, the
last of which announces a match with a long length, make the decompressor read all of them. -/
theorem fastlzDecompress_readPast (n : ℕ) (hmaxout : 0 < maxout) :
    fastlzDecompress ([32, 65, 224] ++ List.replicate n 255) 3 maxout = .error .readPast := by
  obtain ⟨b, hb⟩ : ∃ b : List UInt8, b = [32, 65, 224] ++ List.replicate n 255 := ⟨_, rfl⟩
  have hlen : b.length = n + 3 := by
    rw [hb, List.length_append, List.length_replicate]
    exact Nat.add_comm 3 n
  have hat : ∀ i, 3 ≤ i → i < b.length → b[i]? = some 255 := by
    intro i hi hib
    rw [hb, List.getElem?_append_right hi, List.getElem?_replicate, if_pos]
    show i - 3 < n
    omega
  have hloop : lenLoop b (b.length + 1) 3 6 = .error .readPast := by
    rcases lenLoop_cases (show 3 ≤ b.length by omega)
      (show b.length < 3 + (b.length + 1) by omega) 6 with
      ⟨i, -, -, hi, hib, hne, -⟩ | ⟨hrun, -⟩
    · exact absurd (hat i hi hib) hne
    · exact hrun
  have h₀ : byteAt b 0 = .ok 32 := by
    rw [hb]
    rfl
  have h₁ : byteAt b 1 = .ok 65 := by
    rw [hb]
    rfl
  have h₂ : byteAt b 2 = .ok 224 := by
    rw [hb]
    rfl
  have hmatch : ∀ op, readMatch .two b 224 3 op = .error .readPast := by
    intro op
    have hlong : 224 >>> 5 - 1 = 7 - 1 := by decide
    simp only [readMatch, if_pos hlong]
    rw [show 224 >>> 5 - 1 = 6 from rfl, hloop, error_bind]
  have hlast : decompressLoop .two b 3 maxout 3 224 3 [65] = .error .readPast := by
    rw [decompressLoop, if_pos (by decide), hmatch, error_bind]
  have hcopy : copyInput maxout b 1 1 [] = .ok [65] := by
    rw [copyInput, h₁, ok_bind, put_of_lt hmaxout, ok_bind]
    rfl
  have hroom : ¬ maxout < ([] : List UInt8).length + 1 := by
    rw [List.length_nil]
    omega
  have hfirst : decompressLoop .two b 3 maxout 4 0 1 [] = .error .readPast := by
    rw [decompressLoop, if_neg (by decide)]
    simp only [if_neg hroom, hcopy, ok_bind]
    rw [if_neg (by decide), if_pos (by decide), h₂]
    exact hlast
  rw [← hb, fastlzDecompress, h₀]
  show decompressor .two b 3 maxout = .error .readPast
  rw [decompressor, h₀]
  exact hfirst

end Jujube.FastLz
