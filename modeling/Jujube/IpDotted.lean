import Jujube.IpScan

/-!
# What `dotted_to_ipaddr` reads

Only a text of four digit runs separated by dots (`DottedFields`, the first run may be empty) gets
past the scans.  The numbers are read from the first 19 characters of it, each as an `int`.

* `DottedQuad s o`: the text `s` is a dotted quad for the bytes `o`;
* `dottedToIpaddr_iff`: for which texts the function does what it is for.
-/

namespace Jujube

open Decimal

/-- Four texts with dots between them. -/
def dotJoin (f₁ f₂ f₃ f₄ : List UInt8) : List UInt8 :=
  f₁ ++ dot :: (f₂ ++ dot :: (f₃ ++ dot :: f₄))

/-- A text of digits. -/
def Digits (f : List UInt8) : Prop := ∀ c ∈ f, IsDigit c

instance (f : List UInt8) : Decidable (Digits f) := List.decidableBAll IsDigit f

/-- Four digit runs with dots between them; the first run may be empty. -/
structure DottedFields (s f₁ f₂ f₃ f₄ : List UInt8) : Prop where
  text : s = dotJoin f₁ f₂ f₃ f₄
  digits₁ : Digits f₁
  digits₂ : Digits f₂
  digits₃ : Digits f₃
  digits₄ : Digits f₄
  nonempty₂ : f₂ ≠ []
  nonempty₃ : f₃ ≠ []
  nonempty₄ : f₄ ≠ []

/-- A dotted quad: four numbers up to 255, which may have leading zeros. -/
def DottedQuad (s : List UInt8) (o : Octets) : Prop :=
  ∃ f₁ f₂ f₃ f₄, DottedFields s f₁ f₂ f₃ f₄ ∧ f₁ ≠ [] ∧ value f₁ = o.a.toNat ∧
    value f₂ = o.b.toNat ∧ value f₃ = o.c.toNat ∧ value f₄ = o.d.toNat

/-- The number is a byte when 32 bits are left of it, and it fits a `long`. -/
def InByte (f : List UInt8) : Prop := value f < 2 ^ 63 ∧ value f % 2 ^ 32 ≤ 255

instance (f : List UInt8) : Decidable (InByte f) := inferInstanceAs (Decidable (_ ∧ _))

/-- That byte. -/
def byteOf (f : List UInt8) : UInt8 := UInt8.ofNat (myAtoi f).toNat

/-- What the copy has of the last number: the copy has 19 characters. -/
def kept (f₁ f₂ f₃ f₄ : List UInt8) : List UInt8 :=
  f₄.take (16 - (f₁.length + f₂.length + f₃.length))

/-- The conversion accepts the numbers that it finds. -/
def Converts (f₁ f₂ f₃ f₄ : List UInt8) : Prop :=
  InByte f₁ ∧ InByte f₂ ∧ InByte f₃ ∧ kept f₁ f₂ f₃ f₄ ≠ [] ∧ InByte (kept f₁ f₂ f₃ f₄)

/-- The bytes that it makes of them. -/
def converted (f₁ f₂ f₃ f₄ : List UInt8) : Octets :=
  ⟨byteOf f₁, byteOf f₂, byteOf f₃, byteOf (kept f₁ f₂ f₃ f₄)⟩

variable {s f f₁ f₂ f₃ f₄ g₁ g₂ g₃ g₄ t rest pad arr : List UInt8} {o ipaddr : Octets} {i n k : ℕ}

/-! ### Digits -/

theorem Digits.dot_notMem (h : Digits f) : dot ∉ f := fun hd => absurd (h dot hd) (by decide)

theorem Digits.nul_notMem (h : Digits f) : 0 ∉ f := fun h0 => absurd (h 0 h0) (by decide)

theorem Digits.take (h : Digits f) (n : ℕ) : Digits (f.take n) :=
  fun c hc => h c (List.mem_of_mem_take hc)

theorem Digits.takeWhile (h : Digits f) (rest : List UInt8) :
    (f ++ 0 :: rest).takeWhile (IsDigit ·) = f := by
  rw [List.takeWhile_append_of_pos fun c hc => decide_eq_true (h c hc),
    List.takeWhile_cons_of_neg (by decide), List.append_nil]

/-- `my_atoi` of digits. -/
theorem myAtoi_of_digits (h : Digits f) :
    myAtoi f = (min (value f : ℤ) (2 ^ 63 - 1)).bmod (2 ^ 32) := by
  have hdrop : Digits (f.dropWhile (· = zero)) := fun c hc => h c (f.dropWhile_subset _ hc)
  have hvalue : value (f.dropWhile (· = zero)) = value f := value_dropWhile f
  by_cases hnil : f.dropWhile (· = zero) = []
  · rw [← hvalue, hnil]
    exact if_pos hnil
  · rw [← hvalue, ← atoi_of_digits hdrop]
    exact if_neg hnil

/-- That is what is left of it as an `int`. -/
theorem inByte_iff (h : Digits f) : InByte f ↔ ¬ (myAtoi f < 0 ∨ 255 < myAtoi f) := by
  rw [InByte, myAtoi_of_digits h, Int.bmod_def]
  omega

/-- A number up to 255 is read as it is. -/
theorem myAtoi_of_le (h : Digits f) (hle : value f ≤ 255) : myAtoi f = value f := by
  rw [myAtoi_of_digits h, min_eq_left (by omega), Int.bmod_eq_of_le_mul_two (by omega) (by omega)]

theorem inByte_of_le (hle : value f ≤ 255) : InByte f := ⟨by omega, by omega⟩

theorem byteOf_toNat (h : Digits f) (hb : InByte f) : ((byteOf f).toNat : ℤ) = myAtoi f := by
  rw [inByte_iff h] at hb
  rw [byteOf, UInt8.toNat_ofNat', Nat.mod_eq_of_lt (by omega), Int.toNat_of_nonneg (by omega)]

theorem byteOf_of_le (h : Digits f) (hle : value f ≤ 255) : (byteOf f).toNat = value f := by
  have hbyte := byteOf_toNat h (inByte_of_le hle)
  rw [myAtoi_of_le h hle] at hbyte
  exact_mod_cast hbyte

/-! ### The conversion -/

/-- One round of the conversion, in a text cut to `k` characters. -/
theorem dottedNumbers_succ (hf : Digits f) (v : List ℤ) :
    dottedNumbers (n + 1) i ((f ++ dot :: t).take k ++ 0 :: pad) v ipaddr =
      if f.length < k ∧ InByte f then
        dottedNumbers n (i + 1) (t.take (k - 1 - f.length) ++ 0 :: pad) (v ++ [myAtoi f])
          (ipaddr.set i (byteOf f))
      else (none, ipaddr) := by
  rw [dottedNumbers, List.take_append]
  by_cases hk : f.length < k
  · obtain ⟨m, rfl⟩ := Nat.exists_eq_add_of_lt hk
    rw [List.take_of_length_le hk.le, show f.length + m + 1 - f.length = m + 1 by omega,
      List.take_succ_cons, List.append_assoc, List.cons_append,
      strchr_append hf.dot_notMem hf.nul_notMem,
      show f.length + m + 1 - 1 - f.length = m by omega]
    by_cases hb : InByte f
    · rw [if_pos ⟨hk, hb⟩]
      exact if_neg ((inByte_iff hf).1 hb)
    · rw [if_neg fun h => hb h.2]
      exact if_pos (not_not.1 (mt (inByte_iff hf).2 hb))
  · have hcut := hf.take k
    rw [if_neg fun h => hk h.1, Nat.sub_eq_zero_of_le (not_lt.1 hk), List.take_zero,
      List.append_nil, strchr_eq_none hcut.dot_notMem hcut.nul_notMem (by decide)]

/-- All rounds of it: the last number is behind the third dot. -/
theorem dottedNumbers_dotJoin (h₁ : Digits f₁) (h₂ : Digits f₂) (h₃ : Digits f₃)
    (f₄ pad : List UInt8) (ipaddr : Octets) :
    dottedNumbers 3 0 ((dotJoin f₁ f₂ f₃ f₄).take 19 ++ 0 :: pad) [] ipaddr =
      (some (kept f₁ f₂ f₃ f₄ ++ 0 :: pad, [myAtoi f₁, myAtoi f₂, myAtoi f₃]),
        ((ipaddr.set 0 (byteOf f₁)).set 1 (byteOf f₂)).set 2 (byteOf f₃)) ∧
        InByte f₁ ∧ InByte f₂ ∧ InByte f₃ ∨
    (dottedNumbers 3 0 ((dotJoin f₁ f₂ f₃ f₄).take 19 ++ 0 :: pad) [] ipaddr).1 = none ∧
      ¬ Converts f₁ f₂ f₃ f₄ := by
  -- where the third dot is cut off, nothing of the last number is left
  have hcut : 16 ≤ f₁.length + f₂.length + f₃.length → kept f₁ f₂ f₃ f₄ = [] := fun h => by
    rw [kept, Nat.sub_eq_zero_of_le h, List.take_zero]
  rw [dotJoin, dottedNumbers_succ h₁]
  split_ifs with hf₁
  · rw [dottedNumbers_succ h₂]
    split_ifs with hf₂
    · rw [dottedNumbers_succ h₃]
      split_ifs with hf₃
      · refine .inl ⟨?_, hf₁.2, hf₂.2, hf₃.2⟩
        have hrest : 19 - 1 - f₁.length - 1 - f₂.length - 1 - f₃.length =
            16 - (f₁.length + f₂.length + f₃.length) := by omega
        rw [dottedNumbers, hrest]
        rfl
      · refine .inr ⟨rfl, fun h => hf₃ ⟨?_, h.2.2.1⟩⟩
        by_contra hlen
        exact h.2.2.2.1 (hcut (by omega))
    · refine .inr ⟨rfl, fun h => hf₂ ⟨?_, h.2.1⟩⟩
      by_contra hlen
      exact h.2.2.2.1 (hcut (by omega))
  · refine .inr ⟨rfl, fun h => hf₁ ⟨?_, h.1⟩⟩
    by_contra hlen
    exact h.2.2.2.1 (hcut (by omega))

theorem decimalInt_myAtoi (h : Digits f) (hb : InByte f) :
    decimalInt (myAtoi f) = decimal (byteOf f).toNat := by
  rw [← byteOf_toNat h hb, decimalInt_natCast]

theorem intercalate_dot (f₁ f₂ f₃ f₄ : List UInt8) :
    [dot].intercalate [f₁, f₂, f₃, f₄] = dotJoin f₁ f₂ f₃ f₄ := by
  simp [List.intercalate, List.intersperse, dotJoin]

/-- **The conversion accepts** and writes the text anew. -/
theorem dottedBytes_of_converts (h₁ : Digits f₁) (h₂ : Digits f₂) (h₃ : Digits f₃)
    (h₄ : Digits f₄) (h : Converts f₁ f₂ f₃ f₄) (arr : List UInt8) (ipaddr : Octets) :
    dottedBytes arr (strncpy 19 (dotJoin f₁ f₂ f₃ f₄) ++ [0]) ipaddr =
      (sprintf arr (converted f₁ f₂ f₃ f₄).text >>= fun d =>
        .ok ⟨1, d, converted f₁ f₂ f₃ f₄⟩) := by
  obtain ⟨pad, hpad⟩ := strncpy_append 19 (dotJoin f₁ f₂ f₃ f₄)
  have hkept : Digits (kept f₁ f₂ f₃ f₄) := h₄.take _
  obtain ⟨hb₁, hb₂, hb₃, hne, hb₄⟩ := h
  rcases dottedNumbers_dotJoin h₁ h₂ h₃ f₄ pad ipaddr with
    ⟨hrun, -⟩ | ⟨-, hnot⟩
  · simp only [dottedBytes, hpad, hrun, hkept.takeWhile, if_neg hne,
      if_neg ((inByte_iff hkept).1 hb₄)]
    simp only [List.cons_append, List.nil_append, List.map_cons, List.map_nil,
      decimalInt_myAtoi h₁ hb₁, decimalInt_myAtoi h₂ hb₂, decimalInt_myAtoi h₃ hb₃,
      decimalInt_myAtoi hkept hb₄, intercalate_dot]
    rfl
  · exact absurd ⟨hb₁, hb₂, hb₃, hne, hb₄⟩ hnot

/-- **The conversion refuses.** -/
theorem dottedBytes_of_not_converts (h₁ : Digits f₁) (h₂ : Digits f₂) (h₃ : Digits f₃)
    (h₄ : Digits f₄) (h : ¬ Converts f₁ f₂ f₃ f₄) (arr : List UInt8) (ipaddr : Octets) :
    ∃ a, dottedBytes arr (strncpy 19 (dotJoin f₁ f₂ f₃ f₄) ++ [0]) ipaddr = .ok ⟨-1, arr, a⟩ := by
  obtain ⟨pad, hpad⟩ := strncpy_append 19 (dotJoin f₁ f₂ f₃ f₄)
  have hkept : Digits (kept f₁ f₂ f₃ f₄) := h₄.take _
  unfold dottedBytes
  rw [hpad]
  rcases dottedNumbers_dotJoin h₁ h₂ h₃ f₄ pad ipaddr with
    ⟨hrun, hb₁, hb₂, hb₃⟩ | ⟨hnone, -⟩
  · simp only [hrun, hkept.takeWhile]
    by_cases hne : kept f₁ f₂ f₃ f₄ = []
    · exact ⟨_, if_pos hne⟩
    · rw [if_neg hne]
      refine ⟨_, if_pos ?_⟩
      by_contra hbyte
      exact h ⟨hb₁, hb₂, hb₃, hne, (inByte_iff hkept).2 hbyte⟩
  · generalize dottedNumbers 3 0 ((dotJoin f₁ f₂ f₃ f₄).take 19 ++ 0 :: pad) [] ipaddr = r at hnone
    obtain ⟨x, a⟩ := r
    obtain rfl : x = none := hnone
    exact ⟨a, rfl⟩

/-! ### The texts that get there -/

/-- Splitting a text at its first dot. -/
theorem exists_dot_split (hs : ∀ c ∈ s, IsDigit c ∨ c = dot) (hcount : s.count dot = n + 1) :
    ∃ f t, s = f ++ dot :: t ∧ Digits f ∧ (∀ c ∈ t, IsDigit c ∨ c = dot) ∧ t.count dot = n := by
  induction s with
  | nil => simp at hcount
  | cons c s ih =>
    by_cases hc : c = dot
    · subst hc
      refine ⟨[], s, rfl, by simp [Digits], fun d hd => hs d (List.mem_cons_of_mem _ hd), ?_⟩
      simpa using hcount
    · rw [List.count_cons_of_ne hc] at hcount
      obtain ⟨f, t, rfl, hf, ht, hn⟩ := ih (fun d hd => hs d (List.mem_cons_of_mem c hd)) hcount
      have hdigit : IsDigit c := (hs c List.mem_cons_self).resolve_right hc
      exact ⟨c :: f, t, rfl, List.forall_mem_cons.2 ⟨hdigit, hf⟩, ht, hn⟩

/-- Three dots make four runs. -/
theorem exists_dotJoin (hs : ∀ c ∈ s, IsDigit c ∨ c = dot) (hcount : s.count dot = 3) :
    ∃ f₁ f₂ f₃ f₄, s = dotJoin f₁ f₂ f₃ f₄ ∧ Digits f₁ ∧ Digits f₂ ∧ Digits f₃ ∧ Digits f₄ := by
  obtain ⟨f₁, t₁, rfl, h₁, ht₁, hn₁⟩ := exists_dot_split hs hcount
  obtain ⟨f₂, t₂, rfl, h₂, ht₂, hn₂⟩ := exists_dot_split ht₁ hn₁
  obtain ⟨f₃, t₃, rfl, h₃, ht₃, hn₃⟩ := exists_dot_split ht₂ hn₂
  refine ⟨f₁, f₂, f₃, t₃, rfl, h₁, h₂, h₃, fun c hc => (ht₃ c hc).resolve_right ?_⟩
  rintro rfl
  exact List.count_eq_zero.1 hn₃ hc

theorem adjacent_digits_append (hf : Digits f) :
    Adjacent (f ++ dot :: t) ↔ t.head? = some dot ∨ Adjacent t := by
  induction f with
  | nil =>
    cases t with
    | nil => exact iff_of_false (fun h => by simpa using h.length_le) (by simp [Adjacent])
    | cons d u =>
      rw [List.nil_append, adjacent_dot_cons, List.head?_cons, Option.some.injEq]
      by_cases hd : d = dot
      · simp [hd]
      · rw [adjacent_cons_of_ne hd]
  | cons c f ih =>
    have hc : c ≠ dot := fun hc => hf.dot_notMem (by simp [hc])
    rw [List.cons_append, adjacent_cons_of_ne hc, ih fun d hd => hf d (List.mem_cons_of_mem c hd)]

theorem Digits.not_adjacent (hf : Digits f) : ¬ Adjacent f := fun h =>
  hf.dot_notMem (h.subset (by simp))

/-- The first character of a run that is there is no dot. -/
theorem head?_digits_append (hf : Digits f) :
    (f ++ dot :: t).head? = some dot ↔ f = [] := by
  cases f with
  | nil => simp
  | cons c f =>
    refine iff_of_false (fun h => ?_) (by simp)
    cases h
    exact hf.dot_notMem List.mem_cons_self

theorem head?_digits (hf : Digits f) : f.head? ≠ some dot := fun h =>
  hf.dot_notMem (List.mem_of_mem_head? h)

/-- Two dots stand side by side where an inner run is empty. -/
theorem adjacent_dotJoin (h₁ : Digits f₁) (h₂ : Digits f₂) (h₃ : Digits f₃) (h₄ : Digits f₄) :
    Adjacent (dotJoin f₁ f₂ f₃ f₄) ↔ f₂ = [] ∨ f₃ = [] := by
  rw [dotJoin, adjacent_digits_append h₁, adjacent_digits_append h₂, adjacent_digits_append h₃,
    head?_digits_append h₂, head?_digits_append h₃]
  simp [head?_digits h₄, h₄.not_adjacent]

namespace DottedFields

theorem mem (h : DottedFields s f₁ f₂ f₃ f₄) : ∀ c ∈ s, IsDigit c ∨ c = dot := by
  intro c hc
  rw [h.text, dotJoin] at hc
  simp only [List.mem_append, List.mem_cons] at hc
  rcases hc with hc | hc | hc | hc | hc | hc | hc
  · exact .inl (h.digits₁ c hc)
  · exact .inr hc
  · exact .inl (h.digits₂ c hc)
  · exact .inr hc
  · exact .inl (h.digits₃ c hc)
  · exact .inr hc
  · exact .inl (h.digits₄ c hc)

theorem nul_notMem (h : DottedFields s f₁ f₂ f₃ f₄) : 0 ∉ s := fun h0 =>
  (h.mem 0 h0).elim (by decide) (by decide)

theorem count (h : DottedFields s f₁ f₂ f₃ f₄) : s.count dot = 3 := by
  rw [h.text, dotJoin]
  simp [List.count_eq_zero.2 h.digits₁.dot_notMem, List.count_eq_zero.2 h.digits₂.dot_notMem,
    List.count_eq_zero.2 h.digits₃.dot_notMem, List.count_eq_zero.2 h.digits₄.dot_notMem]

theorem not_adjacent (h : DottedFields s f₁ f₂ f₃ f₄) : ¬ Adjacent s := by
  rw [h.text, adjacent_dotJoin h.digits₁ h.digits₂ h.digits₃ h.digits₄]
  exact fun h' => h'.elim h.nonempty₂ h.nonempty₃

theorem getLast? (h : DottedFields s f₁ f₂ f₃ f₄) : s.getLast? ≠ some dot := by
  have hlast : s.getLast? = f₄.getLast? := by
    have hs : s = (f₁ ++ dot :: (f₂ ++ dot :: (f₃ ++ [dot]))) ++ f₄ := by
      rw [h.text, dotJoin]
      simp
    rw [hs, List.getLast?_append, List.getLast?_eq_some_getLast h.nonempty₄, Option.some_or]
  rw [hlast]
  exact fun h' => h.digits₄.dot_notMem (List.mem_of_getLast? h')

theorem ne_nil (h : DottedFields s f₁ f₂ f₃ f₄) : s ≠ [] := by
  rintro rfl
  simpa using h.count

/-- The runs of a text are determined. -/
theorem unique (h : DottedFields s f₁ f₂ f₃ f₄) (h' : DottedFields s g₁ g₂ g₃ g₄) :
    f₁ = g₁ ∧ f₂ = g₂ ∧ f₃ = g₃ ∧ f₄ = g₄ := by
  have hsplit : ∀ {f g t u : List UInt8}, Digits f → Digits g → f ++ dot :: t = g ++ dot :: u →
      f = g ∧ t = u := by
    intro f g t u hf hg heq
    have hf' := strchr_append hf.dot_notMem hf.nul_notMem t
    rw [heq, strchr_append hg.dot_notMem hg.nul_notMem] at hf'
    simpa [eq_comm] using hf'
  have heq : dotJoin f₁ f₂ f₃ f₄ = dotJoin g₁ g₂ g₃ g₄ := h.text.symm.trans h'.text
  obtain ⟨rfl, heq₂⟩ := hsplit h.digits₁ h'.digits₁ heq
  obtain ⟨rfl, heq₃⟩ := hsplit h.digits₂ h'.digits₂ heq₂
  obtain ⟨rfl, heq₄⟩ := hsplit h.digits₃ h'.digits₃ heq₃
  exact ⟨rfl, rfl, rfl, heq₄⟩

/-- Such a text passes the scans. -/
theorem scanned (h : DottedFields s f₁ f₂ f₃ f₄) (hlen : s.length < 2 ^ 31) (rest : List UInt8)
    (ipaddr : Octets) : dottedToIpaddr (s ++ 0 :: rest) ipaddr =
      dottedBytes (s ++ 0 :: rest) (strncpy 19 s ++ [0]) ipaddr := by
  have hword : ∀ c ∈ s, c ≠ 0 ∧ ¬ IsBlank c := by
    intro c hc
    refine ⟨fun h0 => h.nul_notMem (h0 ▸ hc), ?_⟩
    rintro (rfl | rfl)
    · exact (h.mem _ hc).elim (by decide) (by decide)
    · exact (h.mem _ hc).elim (by decide) (by decide)
  have hblank := checkBlank_word (b := []) (by simp) hword h.ne_nil rest
  rw [List.nil_append, if_pos hlen] at hblank
  have hdigits : digitsAndDots 0 s = .ok true :=
    digitsAndDots_eq_true_iff.2 ⟨h.mem, .inl (by rwa [Nat.zero_add])⟩
  simp only [dottedToIpaddr, hblank, ok_bind, if_true, checkSymbol_append h.nul_notMem, h.count,
    doubleDot_append rest s h.nul_notMem, if_neg h.not_adjacent, if_neg h.getLast?,
    cstr_append h.nul_notMem, hdigits]
  norm_num

end DottedFields

/-! ### Accepted and refused -/

/-- Neither is 1 returned nor the text written to. -/
def Dismissed (arr : List UInt8) (x : Except TextFault Dotted) : Prop :=
  x = .error .readPast ∨ x = .error .signedOverflow ∨ ∃ r, x = .ok r ∧ r.ret ≠ 1 ∧ r.dotted = arr

theorem Dismissed.of_refused (arr : List UInt8) (ipaddr : Octets) :
    Dismissed arr (.ok ⟨-1, arr, ipaddr⟩) := .inr (.inr ⟨_, rfl, by norm_num, rfl⟩)

/-- A scan that stops does so at the end of the array or at a count. -/
theorem onlyReadPast_doubleDot : ∀ p : List UInt8, ∀ e, doubleDot p = .error e → e = .readPast
  | [], e, h => by
    cases h
    rfl
  | [c], e, h => by
    simp only [doubleDot] at h
    split_ifs at h <;> cases h <;> rfl
  | c :: d :: p, e, h => by
    simp only [doubleDot] at h
    split_ifs at h
    · cases h
    · cases h
    · exact onlyReadPast_doubleDot p e h
    · exact onlyReadPast_doubleDot (d :: p) e h

/-- A step that stops dismisses the text; else it is up to what follows. -/
theorem dismissed_bind {α : Type} {x : Except TextFault α} {k : α → Except TextFault Dotted}
    {C : Prop} (herror : ∀ e, x = .error e → e = .readPast ∨ e = .signedOverflow)
    (hok : ∀ a, x = .ok a → Dismissed arr (k a) ∨ C) : Dismissed arr (x >>= k) ∨ C := by
  cases hx : x with
  | error e =>
    refine .inl ?_
    rcases herror e hx with rfl | rfl
    · exact .inl rfl
    · exact .inr (.inl rfl)
  | ok a => exact hok a hx

/-- What the scans leave: three dots, no two side by side, and digits. -/
theorem dottedFields_of_scans (h : 0 ∉ s) (hcount : s.count dot = 3)
    (hdouble : doubleDot (s ++ 0 :: rest) = .ok false) (hclean : digitsAndDots 0 s = .ok true) :
    ∃ f₁ f₂ f₃ f₄, s = dotJoin f₁ f₂ f₃ f₄ ∧ s.length < 2 ^ 31 ∧ Digits f₁ ∧ Digits f₂ ∧
      Digits f₃ ∧ Digits f₄ ∧ f₂ ≠ [] ∧ f₃ ≠ [] := by
  obtain ⟨hmem, hlen⟩ := digitsAndDots_eq_true_iff.1 hclean
  obtain ⟨f₁, f₂, f₃, f₄, rfl, h₁, h₂, h₃, h₄⟩ := exists_dotJoin hmem hcount
  have hadj : ¬ Adjacent (dotJoin f₁ f₂ f₃ f₄) := fun hadj => by
    rw [doubleDot_append rest _ h, if_pos hadj] at hdouble
    cases hdouble
  rw [adjacent_dotJoin h₁ h₂ h₃ h₄, not_or] at hadj
  refine ⟨f₁, f₂, f₃, f₄, rfl, ?_, h₁, h₂, h₃, h₄, hadj.1, hadj.2⟩
  rcases hlen with hlt | hnil
  · rwa [Nat.zero_add] at hlt
  · rw [hnil]
    norm_num

/-- **What becomes of a text**: it is dismissed, or it is made of four runs, shorter than 2 GiB, and
its numbers are converted. -/
theorem dottedToIpaddr_cases (h : 0 ∉ s) (rest : List UInt8) (ipaddr : Octets) :
    Dismissed (s ++ 0 :: rest) (dottedToIpaddr (s ++ 0 :: rest) ipaddr) ∨
      ∃ f₁ f₂ f₃ f₄, DottedFields s f₁ f₂ f₃ f₄ ∧ s.length < 2 ^ 31 ∧ Converts f₁ f₂ f₃ f₄ := by
  have hrefused := fun a => Dismissed.of_refused (s ++ 0 :: rest) a
  unfold dottedToIpaddr
  refine dismissed_bind (fun e he => .inr (onlyOverflows_checkBlank h rest e he)) fun blank _ => ?_
  by_cases hblank : blank = 1
  swap
  · rw [if_neg hblank]
    exact .inl (.inr (.inr ⟨_, rfl, hblank, rfl⟩))
  rw [if_pos hblank, checkSymbol_append h]
  refine dismissed_bind (fun e he => ?_) fun symbol hsymbol => ?_
  · split_ifs at he
    cases he
    exact .inr rfl
  split_ifs at hsymbol
  obtain rfl : s.count dot = symbol := Except.ok.inj hsymbol
  by_cases hcount : s.count dot = 3
  swap
  · rw [if_pos hcount]
    exact .inl (hrefused ipaddr)
  rw [if_neg (not_not.2 hcount)]
  refine dismissed_bind (fun e he => .inl (onlyReadPast_doubleDot _ e he)) fun double hdouble => ?_
  cases double with
  | true => exact .inl (hrefused ipaddr)
  | false =>
    rw [if_neg Bool.false_ne_true, cstr_append h, ok_bind]
    refine dismissed_bind (fun e he => .inr (onlyOverflows_digitsAndDots 0 s e he))
      fun clean hclean => ?_
    cases clean with
    | false => exact .inl (hrefused ipaddr)
    | true =>
      obtain ⟨f₁, f₂, f₃, f₄, rfl, hlen, h₁, h₂, h₃, h₄, hne₂, hne₃⟩ :=
        dottedFields_of_scans h hcount hdouble hclean
      by_cases hconv : Converts f₁ f₂ f₃ f₄
      · have hne₄ : f₄ ≠ [] := by
          rintro rfl
          exact hconv.2.2.2.1 List.take_nil
        exact .inr ⟨f₁, f₂, f₃, f₄, ⟨rfl, h₁, h₂, h₃, h₄, hne₂, hne₃, hne₄⟩, hlen, hconv⟩
      · obtain ⟨a, ha⟩ := dottedBytes_of_not_converts h₁ h₂ h₃ h₄ hconv
          (dotJoin f₁ f₂ f₃ f₄ ++ 0 :: rest) ipaddr
        rw [if_pos rfl, ha]
        exact .inl (hrefused a)

/-- The text of some bytes is no longer than any dotted quad for them. -/
theorem DottedQuad.length_text_le (h : DottedQuad s o) : o.text.length ≤ s.length := by
  obtain ⟨f₁, f₂, f₃, f₄, hf, hne, h₁, h₂, h₃, h₄⟩ := h
  have hle₁ := length_decimal_le hf.digits₁ hne
  have hle₂ := length_decimal_le hf.digits₂ hf.nonempty₂
  have hle₃ := length_decimal_le hf.digits₃ hf.nonempty₃
  have hle₄ := length_decimal_le hf.digits₄ hf.nonempty₄
  rw [h₁] at hle₁
  rw [h₂] at hle₂
  rw [h₃] at hle₃
  rw [h₄] at hle₄
  rw [hf.text, dotJoin, Octets.text]
  simp only [List.length_append, List.length_cons]
  omega

/-- A text of four runs is a dotted quad when the first run is there and every value is a byte. -/
theorem DottedFields.quad_iff (h : DottedFields s f₁ f₂ f₃ f₄) :
    (∃ o, DottedQuad s o) ↔ f₁ ≠ [] ∧ value f₁ ≤ 255 ∧ value f₂ ≤ 255 ∧ value f₃ ≤ 255 ∧
      value f₄ ≤ 255 := by
  constructor
  · rintro ⟨o, g₁, g₂, g₃, g₄, hg, hne, h₁, h₂, h₃, h₄⟩
    obtain ⟨rfl, rfl, rfl, rfl⟩ := h.unique hg
    rw [h₁, h₂, h₃, h₄]
    have hle : ∀ b : UInt8, b.toNat ≤ 255 := fun b => Nat.le_of_lt_succ b.toNat_lt
    exact ⟨hne, hle _, hle _, hle _, hle _⟩
  · rintro ⟨hne, h₁, h₂, h₃, h₄⟩
    exact ⟨⟨byteOf f₁, byteOf f₂, byteOf f₃, byteOf f₄⟩, f₁, f₂, f₃, f₄, h, hne,
      (byteOf_of_le h.digits₁ h₁).symm, (byteOf_of_le h.digits₂ h₂).symm,
      (byteOf_of_le h.digits₃ h₃).symm, (byteOf_of_le h.digits₄ h₄).symm⟩

/-- What the copy has of a number is no more than the number. -/
theorem value_kept_le (f₁ f₂ f₃ f₄ : List UInt8) : value (kept f₁ f₂ f₃ f₄) ≤ value f₄ := by
  obtain ⟨u, hu⟩ := List.take_prefix (16 - (f₁.length + f₂.length + f₃.length)) f₄
  rw [← kept] at hu
  have hvalue := value_append (kept f₁ f₂ f₃ f₄) u
  rw [hu] at hvalue
  have hpos := Nat.le_mul_of_pos_right (value (kept f₁ f₂ f₃ f₄)) (Nat.pow_pos (n := u.length)
    (show 0 < 10 by norm_num))
  omega

/-- A dotted quad that is not cut is converted. -/
theorem converts_of_le (h₁ : value f₁ ≤ 255)
    (h₂ : value f₂ ≤ 255) (h₃ : value f₃ ≤ 255) (h₄ : value f₄ ≤ 255) :
    Converts f₁ f₂ f₃ f₄ ↔ kept f₁ f₂ f₃ f₄ ≠ [] := by
  have hkept : InByte (kept f₁ f₂ f₃ f₄) := inByte_of_le ((value_kept_le f₁ f₂ f₃ f₄).trans h₄)
  exact ⟨fun hc => hc.2.2.2.1, fun hne =>
    ⟨inByte_of_le h₁, inByte_of_le h₂, inByte_of_le h₃, hne, hkept⟩⟩

/-- A text that is read wrong.  Either it is a dotted quad, and the copy has none of its last number
or another value for it, or it has 2 GiB; or it is none, and what the copy has of it is four numbers
of which bytes are left. -/
def Misread (s : List UInt8) : Prop :=
  ∃ f₁ f₂ f₃ f₄, DottedFields s f₁ f₂ f₃ f₄ ∧
    ((∃ o, DottedQuad s o) ∧ (kept f₁ f₂ f₃ f₄ = [] ∨ value (kept f₁ f₂ f₃ f₄) ≠ value f₄ ∨
        2 ^ 31 ≤ s.length) ∨
      (¬ ∃ o, DottedQuad s o) ∧ s.length < 2 ^ 31 ∧ Converts f₁ f₂ f₃ f₄)

/-- What is expected of `dotted_to_ipaddr` on a text: it returns 1 exactly for a dotted quad, gives
the bytes of it and writes it anew, as a text that is not longer. -/
structure ReadsQuads (s rest : List UInt8) (ipaddr : Octets) : Prop where
  accepts : (∃ r, dottedToIpaddr (s ++ 0 :: rest) ipaddr = .ok r ∧ r.ret = 1) ↔
    ∃ o, DottedQuad s o
  gives : ∀ r o, dottedToIpaddr (s ++ 0 :: rest) ipaddr = .ok r → r.ret = 1 → DottedQuad s o →
    r.ipaddr = o ∧ r.dotted = o.text ++ 0 :: (s ++ 0 :: rest).drop (o.text.length + 1) ∧
      o.text.length ≤ s.length
  inside : dottedToIpaddr (s ++ 0 :: rest) ipaddr ≠ .error .writePast

namespace DottedFields

theorem run_of_converts (h : DottedFields s f₁ f₂ f₃ f₄) (hlen : s.length < 2 ^ 31)
    (hconv : Converts f₁ f₂ f₃ f₄) (rest : List UInt8) (ipaddr : Octets) :
    dottedToIpaddr (s ++ 0 :: rest) ipaddr =
      (sprintf (s ++ 0 :: rest) (converted f₁ f₂ f₃ f₄).text >>= fun d =>
        .ok ⟨1, d, converted f₁ f₂ f₃ f₄⟩) := by
  rw [h.scanned hlen, ← dottedBytes_of_converts h.digits₁ h.digits₂ h.digits₃ h.digits₄ hconv,
    ← h.text]

/-- A conversion returns 1, or it writes behind the array. -/
theorem run_cases (h : DottedFields s f₁ f₂ f₃ f₄) (hlen : s.length < 2 ^ 31)
    (hconv : Converts f₁ f₂ f₃ f₄) (rest : List UInt8) (ipaddr : Octets) :
    (∃ d, dottedToIpaddr (s ++ 0 :: rest) ipaddr = .ok ⟨1, d, converted f₁ f₂ f₃ f₄⟩) ∨
      dottedToIpaddr (s ++ 0 :: rest) ipaddr = .error .writePast := by
  rw [h.run_of_converts hlen hconv, sprintf]
  split_ifs
  · exact .inl ⟨_, rfl⟩
  · exact .inr rfl

/-- The bytes of a dotted quad are found when the copy has the value of its last number. -/
theorem converted_eq_iff (h : DottedFields s f₁ f₂ f₃ f₄) (ho : DottedQuad s o) :
    converted f₁ f₂ f₃ f₄ = o ↔ value (kept f₁ f₂ f₃ f₄) = value f₄ := by
  obtain ⟨-, hle₁, hle₂, hle₃, hle₄⟩ := h.quad_iff.1 ⟨o, ho⟩
  obtain ⟨g₁, g₂, g₃, g₄, hg, -, h₁, h₂, h₃, h₄⟩ := ho
  obtain ⟨rfl, rfl, rfl, rfl⟩ := h.unique hg
  have hd : (byteOf (kept f₁ f₂ f₃ f₄)).toNat = value (kept f₁ f₂ f₃ f₄) :=
    byteOf_of_le (h.digits₄.take _) ((value_kept_le f₁ f₂ f₃ f₄).trans hle₄)
  rw [Octets.ext_iff]
  simp only [converted, ← UInt8.toNat_inj, byteOf_of_le h.digits₁ hle₁,
    byteOf_of_le h.digits₂ hle₂, byteOf_of_le h.digits₃ hle₃, h₁, h₂, h₃, true_and]
  rw [← h₄, hd]

end DottedFields

/-- A dotted quad of which the copy has the value is read. -/
theorem DottedQuad.run (ho : DottedQuad s o) (h : DottedFields s f₁ f₂ f₃ f₄)
    (hlen : s.length < 2 ^ 31) (hne : kept f₁ f₂ f₃ f₄ ≠ [])
    (hvalue : value (kept f₁ f₂ f₃ f₄) = value f₄) (rest : List UInt8) (ipaddr : Octets) :
    dottedToIpaddr (s ++ 0 :: rest) ipaddr =
      .ok ⟨1, o.text ++ 0 :: (s ++ 0 :: rest).drop (o.text.length + 1), o⟩ := by
  obtain ⟨-, hle₁, hle₂, hle₃, hle₄⟩ := h.quad_iff.1 ⟨o, ho⟩
  have hconv := (converts_of_le hle₁ hle₂ hle₃ hle₄).2 hne
  have hfits : o.text.length < (s ++ 0 :: rest).length := by
    have := ho.length_text_le
    rw [List.length_append, List.length_cons]
    omega
  rw [h.run_of_converts hlen hconv, (h.converted_eq_iff ho).2 hvalue, sprintf, if_pos hfits,
    ok_bind]

/-- A text of four runs is not read wrong when it is read whole. -/
theorem DottedFields.not_misread (h : DottedFields s f₁ f₂ f₃ f₄) (hlen : s.length < 2 ^ 31)
    (hquad : ∃ o, DottedQuad s o) (hne : kept f₁ f₂ f₃ f₄ ≠ [])
    (hvalue : value (kept f₁ f₂ f₃ f₄) = value f₄) : ¬ Misread s := by
  rintro ⟨g₁, g₂, g₃, g₄, hg, hg'⟩
  obtain ⟨rfl, rfl, rfl, rfl⟩ := h.unique hg
  rcases hg' with ⟨-, hnil | hother | hbig⟩ | ⟨hno, -⟩
  · exact hne hnil
  · exact hother hvalue
  · exact absurd hlen (not_lt.2 hbig)
  · exact hno hquad

/-- What is converted is right unless it is read wrong. -/
theorem DottedFields.readsQuads_iff (h : DottedFields s f₁ f₂ f₃ f₄) (hlen : s.length < 2 ^ 31)
    (hconv : Converts f₁ f₂ f₃ f₄) (rest : List UInt8) (ipaddr : Octets) :
    ReadsQuads s rest ipaddr ↔ ¬ Misread s := by
  have hcases := h.run_cases hlen hconv rest ipaddr
  by_cases hquad : ∃ o, DottedQuad s o
  · obtain ⟨o, ho⟩ := hquad
    by_cases hvalue : value (kept f₁ f₂ f₃ f₄) = value f₄
    · have hok := ho.run h hlen hconv.2.2.2.1 hvalue rest ipaddr
      refine iff_of_true ⟨iff_of_true ⟨_, hok, rfl⟩ ⟨o, ho⟩, fun r o' hr _ ho' => ?_, by simp [hok]⟩
        (h.not_misread hlen ⟨o, ho⟩ hconv.2.2.2.1 hvalue)
      have hoo : o = o' := by
        rw [← (h.converted_eq_iff ho).2 hvalue, (h.converted_eq_iff ho').2 hvalue]
      cases hok.symm.trans hr
      exact ⟨hoo, hoo ▸ rfl, ho'.length_text_le⟩
    · refine iff_of_false (fun hreads => ?_)
        (not_not.2 ⟨f₁, f₂, f₃, f₄, h, .inl ⟨⟨o, ho⟩, .inr (.inl hvalue)⟩⟩)
      rcases hcases with ⟨d, hd⟩ | hpast
      · exact hvalue ((h.converted_eq_iff ho).1 (hreads.gives _ o hd rfl ho).1)
      · exact hreads.inside hpast
  · refine iff_of_false (fun hreads => ?_)
      (not_not.2 ⟨f₁, f₂, f₃, f₄, h, .inr ⟨hquad, hlen, hconv⟩⟩)
    rcases hcases with ⟨d, hd⟩ | hpast
    · exact hquad (hreads.accepts.1 ⟨_, hd, rfl⟩)
    · exact hreads.inside hpast

theorem Dismissed.not_accepted {x : Except TextFault Dotted} (h : Dismissed arr x) :
    ¬ ∃ r, x = .ok r ∧ r.ret = 1 := by
  rintro ⟨r, rfl, hone⟩
  rcases h with hpast | hover | ⟨r', hr', hne, -⟩
  · cases hpast
  · cases hover
  · cases hr'
    exact hne hone

theorem Dismissed.ne_writePast {x : Except TextFault Dotted} (h : Dismissed arr x) :
    x ≠ .error .writePast := by
  rintro rfl
  rcases h with hpast | hover | ⟨r, hr, -⟩
  · cases hpast
  · cases hover
  · cases hr

/-- To dismiss a text is right unless it is a dotted quad. -/
theorem Dismissed.readsQuads_iff
    (h : Dismissed (s ++ 0 :: rest) (dottedToIpaddr (s ++ 0 :: rest) ipaddr)) :
    ReadsQuads s rest ipaddr ↔ ¬ ∃ o, DottedQuad s o := by
  constructor
  · exact fun hreads hquad => h.not_accepted (hreads.accepts.2 hquad)
  · exact fun hno => ⟨iff_of_false h.not_accepted hno,
      fun r o hr hone _ => absurd ⟨r, hr, hone⟩ h.not_accepted, h.ne_writePast⟩

/-- **`dotted_to_ipaddr` accepts exactly the dotted quads**, and does with them what it is for, on
exactly the texts that are not read wrong. -/
theorem dottedToIpaddr_iff (h : 0 ∉ s) (rest : List UInt8) (ipaddr : Octets) :
    ReadsQuads s rest ipaddr ↔ ¬ Misread s := by
  by_cases hrun : ∃ f₁ f₂ f₃ f₄, DottedFields s f₁ f₂ f₃ f₄ ∧ s.length < 2 ^ 31 ∧
      Converts f₁ f₂ f₃ f₄
  · obtain ⟨f₁, f₂, f₃, f₄, hf, hlen, hconv⟩ := hrun
    exact hf.readsQuads_iff hlen hconv rest ipaddr
  have hdismissed := (dottedToIpaddr_cases h rest ipaddr).resolve_right hrun
  rw [hdismissed.readsQuads_iff, not_iff_not]
  constructor
  · rintro ⟨o, ho⟩
    obtain ⟨f₁, f₂, f₃, f₄, hf, -⟩ := id ho
    refine ⟨f₁, f₂, f₃, f₄, hf, .inl ⟨⟨o, ho⟩, ?_⟩⟩
    by_contra hwhole
    rw [not_or, not_or, not_not, not_le] at hwhole
    exact hdismissed.not_accepted ⟨_, ho.run hf hwhole.2.2 hwhole.1 hwhole.2.1 rest ipaddr, rfl⟩
  · rintro ⟨f₁, f₂, f₃, f₄, hf, ⟨hquad, -⟩ | ⟨-, hlen, hconv⟩⟩
    · exact hquad
    · exact absurd ⟨f₁, f₂, f₃, f₄, hf, hlen, hconv⟩ hrun

/-- `1.2.3.4` -/
theorem dottedToIpaddr_iff_one :
    ReadsQuads (ascii "1.2.3.4") [] ⟨0, 0, 0, 0⟩ ↔ ¬ Misread (ascii "1.2.3.4") :=
  dottedToIpaddr_iff (by decide) [] ⟨0, 0, 0, 0⟩

/-- `4294967297` is read as 1. -/
theorem dottedToIpaddr_wraps :
    (∃ r, dottedToIpaddr (ascii "4294967297.2.3.4" ++ 0 :: []) ⟨0, 0, 0, 0⟩ = .ok r ∧ r.ret = 1 ∧
      r.ipaddr = ⟨1, 2, 3, 4⟩) ∧ ¬ ReadsQuads (ascii "4294967297.2.3.4") [] ⟨0, 0, 0, 0⟩ := by
  have hf : DottedFields (ascii "4294967297.2.3.4") (ascii "4294967297") (ascii "2") (ascii "3")
      (ascii "4") :=
    ⟨by decide, by decide, by decide, by decide, by decide, by decide, by decide, by decide⟩
  have hrun : ∃ r, dottedToIpaddr (ascii "4294967297.2.3.4" ++ 0 :: []) ⟨0, 0, 0, 0⟩ = .ok r ∧
      r.ret = 1 ∧ r.ipaddr = ⟨1, 2, 3, 4⟩ :=
    ⟨⟨1, ascii "1.2.3.4" ++ 0 :: (ascii "97.2.3.4" ++ [0]), ⟨1, 2, 3, 4⟩⟩, by decide +kernel, rfl,
      rfl⟩
  refine ⟨hrun, fun hreads => ?_⟩
  obtain ⟨r, hr, hone, -⟩ := hrun
  exact absurd (hf.quad_iff.1 (hreads.accepts.1 ⟨r, hr, hone⟩)).2.1 (by decide)

end Jujube
