import Mathlib.Tactic

/-!
# Decimal numerals as bytes

* `decimal n`, `decimalInt z`: the shortest numeral of a number, in ASCII;
* `value ds`: the number that some digits stand for, leading zeros or not;
* `value_decimal`, `length_decimal_le`: the shortest numeral stands for its number, and no digits of
  the same value are fewer.
-/

namespace Decimal

/-- The digits `0` to `9`. -/
def IsDigit (c : UInt8) : Prop := 48 ≤ c.toNat ∧ c.toNat ≤ 57

instance (c : UInt8) : Decidable (IsDigit c) := inferInstanceAs (Decidable (_ ∧ _))

/-- The number that some digits stand for. -/
def value (ds : List UInt8) : ℕ := ds.foldl (fun v c => 10 * v + (c.toNat - 48)) 0

/-- The numeral of a number. -/
def decimal (n : ℕ) : List UInt8 := (Nat.toDigits 10 n).map fun c => UInt8.ofNat c.toNat

/-- The numeral of a number that may be negative. -/
def decimalInt (z : ℤ) : List UInt8 :=
  if z < 0 then 45 :: decimal z.natAbs else decimal z.natAbs

variable {n : ℕ} {c : UInt8} {ds es : List UInt8}

/-! ### The value of digits -/

@[simp] theorem value_nil : value [] = 0 := rfl

theorem value_foldl (v : ℕ) (ds : List UInt8) :
    ds.foldl (fun v c => 10 * v + (c.toNat - 48)) v = v * 10 ^ ds.length + value ds := by
  induction ds generalizing v with
  | nil => simp
  | cons c ds ih =>
    rw [value, List.foldl_cons, List.foldl_cons, ih, ih, List.length_cons]
    ring

theorem value_append (ds es : List UInt8) :
    value (ds ++ es) = value ds * 10 ^ es.length + value es := by
  rw [value, List.foldl_append, value_foldl, ← value]

theorem value_singleton (c : UInt8) : value [c] = c.toNat - 48 := by simp [value]

theorem value_cons (c : UInt8) (ds : List UInt8) :
    value (c :: ds) = (c.toNat - 48) * 10 ^ ds.length + value ds := by
  rw [← List.singleton_append, value_append, value_singleton]

/-- The value of digits is bounded by how many they are. -/
theorem value_lt (h : ∀ c ∈ ds, IsDigit c) : value ds < 10 ^ ds.length := by
  induction ds with
  | nil => simp
  | cons c ds ih =>
    have hc : c.toNat - 48 ≤ 9 := by
      have := (h c List.mem_cons_self).2
      omega
    have hds := ih fun d hd => h d (List.mem_cons_of_mem c hd)
    have hmul := Nat.mul_le_mul_right (10 ^ ds.length) hc
    rw [value_cons, List.length_cons, pow_succ]
    omega

/-- Leading zeros do not count. -/
theorem value_dropWhile (ds : List UInt8) : value (ds.dropWhile (· = 48)) = value ds := by
  induction ds with
  | nil => rfl
  | cons c ds ih =>
    rw [List.dropWhile_cons]
    split_ifs with hc
    · rw [ih, value_cons, of_decide_eq_true hc]
      simp
    · rfl

/-! ### The shortest numeral -/

theorem decimal_ne_nil (n : ℕ) : decimal n ≠ [] := by simp [decimal]

theorem length_decimal_pos (n : ℕ) : 0 < (decimal n).length :=
  List.length_pos_of_ne_nil (decimal_ne_nil n)

theorem length_decimal_le_iff {k : ℕ} (hk : 0 < k) : (decimal n).length ≤ k ↔ n < 10 ^ k := by
  rw [decimal, List.length_map]
  exact Nat.length_toDigits_le_iff (by norm_num) hk

/-- A last digit is appended. -/
theorem decimal_eq (n : ℕ) :
    decimal n = if n < 10 then [UInt8.ofNat (48 + n)]
      else decimal (n / 10) ++ [UInt8.ofNat (48 + n % 10)] := by
  unfold decimal
  rw [Nat.toDigits_eq_if (by norm_num)]
  split_ifs with hn
  · simp [Nat.toNat_digitChar_of_lt_ten hn]
  · simp [Nat.toNat_digitChar_of_lt_ten (Nat.mod_lt n (by norm_num : 0 < 10))]

theorem toNat_digit (h : n < 10) : (UInt8.ofNat (48 + n)).toNat = 48 + n := by
  rw [UInt8.toNat_ofNat', Nat.mod_eq_of_lt (by omega)]

theorem isDigit_of_mem_decimal (n : ℕ) : ∀ c ∈ decimal n, IsDigit c := by
  have hdigit : ∀ m < 10, IsDigit (UInt8.ofNat (48 + m)) := by
    intro m hm
    rw [IsDigit, toNat_digit hm]
    omega
  induction n using Nat.strong_induction_on with
  | _ n ih =>
    rw [decimal_eq]
    split_ifs with hn
    · simpa using hdigit n hn
    · intro c hc
      rcases List.mem_append.1 hc with hc | hc
      · exact ih (n / 10) (by omega) c hc
      · rw [List.mem_singleton.1 hc]
        exact hdigit _ (Nat.mod_lt n (by norm_num))

/-- **The numeral of a number stands for it.** -/
@[simp] theorem value_decimal (n : ℕ) : value (decimal n) = n := by
  induction n using Nat.strong_induction_on with
  | _ n ih =>
    rw [decimal_eq]
    split_ifs with hn
    · rw [value_singleton, toNat_digit hn]
      omega
    · rw [value_append, value_singleton, ih (n / 10) (by omega),
        toNat_digit (Nat.mod_lt n (by norm_num)), List.length_singleton]
      omega

/-- **No digits of the same value are fewer.** -/
theorem length_decimal_le (h : ∀ c ∈ ds, IsDigit c) (hne : ds ≠ []) :
    (decimal (value ds)).length ≤ ds.length :=
  (length_decimal_le_iff (List.length_pos_of_ne_nil hne)).2 (value_lt h)

theorem decimalInt_natCast (n : ℕ) : decimalInt n = decimal n := by
  rw [decimalInt, if_neg (by omega), Int.natAbs_natCast]

theorem decimalInt_of_nonneg {z : ℤ} (h : 0 ≤ z) : decimalInt z = decimal z.toNat := by
  obtain ⟨n, rfl⟩ := Int.eq_ofNat_of_zero_le h
  rw [decimalInt_natCast, Int.toNat_natCast]

end Decimal
