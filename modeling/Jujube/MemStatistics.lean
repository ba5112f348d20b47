import Jujube.CString
import Jujube.Mem

/-!
# `statistics_mem_info`

It prints a line for every class that has blocks, and their total, into a buffer of `buff_sz` bytes.
How far it got is `cur_sz`, an `int` that is advanced by what the lines would take and compared with
a `size_t`; the program is built without optimisation, where both wrap.

The calls of `snprintf` are recorded.  Those of a buffer with three bytes or more stay in it, those
of a smaller one as long as there is one line at most (`statisticsMemInfo_contained_iff`).
-/

namespace Jujube

open Bytes Decimal

/-- An `int`. -/
def int32 (z : ℤ) : ℤ := z.bmod (2 ^ 32)

/-- A `size_t` or a `u_int64_t`. -/
def word64 (z : ℤ) : ℕ := (z % 2 ^ 64).toNat

/-- `offsetof(mem_entry_t, obj)` -/
def offsetofObj : ℕ := 40

/-- A call of `snprintf`: where it writes, how many bytes it may, and the text. -/
structure Snprintf where
  off : ℤ
  size : ℕ
  text : List UInt8
  deriving DecidableEq

/-- What it stores: as much of the text as fits, and a NUL. -/
def Snprintf.store (c : Snprintf) (buff : Memory) : Memory :=
  if c.size = 0 then buff else write buff c.off.toNat (c.text.take (c.size - 1) ++ [0])

/-- What `statistics_mem_info` works on, and the calls of `snprintf` so far. -/
structure Statistics where
  curSz : ℤ
  totalMemSz : ℕ
  buff : Memory
  calls : List Snprintf

/-- `cur_sz += snprintf(buff+cur_sz, buff_sz-cur_sz, ..)` -/
def Statistics.print (buffSz : UInt64) (text : List UInt8) (st : Statistics) : Statistics :=
  let c : Snprintf := ⟨st.curSz, word64 (buffSz.toNat - st.curSz), text⟩
  { st with
    curSz := int32 (st.curSz + text.length)
    buff := c.store st.buff
    calls := st.calls ++ [c] }

/-- `blocks` -/
def statBlocks (stat : MemStat) : ℤ := int32 (stat.blocksUsed + stat.blocksFree)

/-- `"%d: %lu,%d,%d\n"` -/
def statLine (i curMemBlockSz : ℕ) (stat : MemStat) : List UInt8 :=
  decimal (blockSize i) ++ ascii ": " ++ decimal curMemBlockSz ++ ascii "," ++
    decimalInt stat.blocksUsed ++ ascii "," ++ decimalInt stat.blocksFree ++ ascii "\n"

/-- `"Total size:%lu "` -/
def statTotal (totalMemSz : ℕ) : List UInt8 :=
  ascii "Total size:" ++ decimal totalMemSz ++ ascii " "

/-- The line of class `i`. -/
def statReport (memStat : ℕ → MemStat) (buffSz : UInt64) (i : ℕ) (st : Statistics) : Statistics :=
  let blocks := statBlocks (memStat i)
  if 0 < blocks then
    let curMemBlockSz := word64 (blocks * (blockSize i + offsetofObj))
    { st with totalMemSz := word64 (st.totalMemSz + curMemBlockSz) }.print buffSz
      (statLine i curMemBlockSz (memStat i))
  else st

/-- The loop of `statistics_mem_info` over the classes that are left. -/
def statLoop (memStat : ℕ → MemStat) (buffSz : UInt64) : List ℕ → Statistics → Statistics
  | [], st => st
  | i :: is, st =>
    let st := statReport memStat buffSz i st
    if word64 (buffSz.toNat - 3) < word64 st.curSz then st
    else statLoop memStat buffSz is st

/-- `statistics_mem_info`, which returns `curSz` -/
def statisticsMemInfo (memStat : ℕ → MemStat) (buff : Memory) (buffSz : UInt64) : Statistics :=
  let st := statLoop memStat buffSz (List.range memTypeMax) ⟨0, 0, buff, []⟩
  if word64 st.curSz < buffSz.toNat then st.print buffSz (statTotal st.totalMemSz) else st

/-- Every call stays in the buffer, with no wrap-around, and what is behind it is as it was. -/
structure Contained (buff : Memory) (buffSz : UInt64) (st : Statistics) : Prop where
  calls : ∀ c ∈ st.calls, 0 ≤ c.off ∧ c.off ≤ buffSz.toNat ∧ (c.size : ℤ) = buffSz.toNat - c.off
  outside : ∀ k, buffSz.toNat ≤ k → st.buff k = buff k

variable {memStat : ℕ → MemStat} {buff : Memory} {buffSz : UInt64} {st : Statistics}
  {text : List UInt8} {i n : ℕ} {is : List ℕ}

/-! ### Numbers that do not wrap -/

theorem int32_of_lt {z : ℤ} (h0 : 0 ≤ z) (h : z < 2 ^ 31) : int32 z = z :=
  Int.bmod_eq_of_le (by omega) (by omega)

theorem word64_of_lt {z : ℤ} (h0 : 0 ≤ z) (h : z < 2 ^ 64) : (word64 z : ℤ) = z := by
  rw [word64, Int.emod_eq_of_lt h0 h, Int.toNat_of_nonneg h0]

theorem word64_lt (z : ℤ) : word64 z < 2 ^ 64 := by
  rw [word64]
  omega

/-- The counters are those of `int`s that are not negative. -/
def MemStat.Counts (stat : MemStat) : Prop :=
  (0 ≤ stat.blocksUsed ∧ stat.blocksUsed < 2 ^ 31) ∧ 0 ≤ stat.blocksFree ∧ stat.blocksFree < 2 ^ 31

/-! ### The length of a line -/

theorem length_decimal_lt {k : ℕ} (hk : 0 < k) (h : n < 10 ^ k) :
    0 < (decimal n).length ∧ (decimal n).length ≤ k :=
  ⟨length_decimal_pos n, (length_decimal_le_iff hk).2 h⟩

theorem length_statLine (hi : i < memTypeMax) {sz : ℕ} (hsz : sz < 2 ^ 64) {stat : MemStat}
    (h : stat.Counts) :
    8 ≤ (statLine i sz stat).length ∧ (statLine i sz stat).length ≤ 60 := by
  obtain ⟨⟨hu0, hu⟩, hf0, hf⟩ := h
  have hblock : blockSize i < 10 ^ 7 := by
    rw [blockSize_eq]
    calc 2 ^ (i + 4) ≤ 2 ^ 20 := Nat.pow_le_pow_right (by norm_num) (by
          rw [memTypeMax] at hi
          omega)
      _ < 10 ^ 7 := by norm_num
  have h1 := length_decimal_lt (by norm_num) hblock
  have h2 : 0 < (decimal sz).length ∧ (decimal sz).length ≤ 20 :=
    length_decimal_lt (by norm_num) (hsz.trans (by norm_num))
  have hint : ∀ z : ℤ, 0 ≤ z → z < 2 ^ 31 →
      0 < (decimalInt z).length ∧ (decimalInt z).length ≤ 10 := by
    intro z hz0 hz
    rw [decimalInt_of_nonneg hz0]
    exact length_decimal_lt (by norm_num) (by omega)
  have h3 := hint _ hu0 hu
  have h4 := hint _ hf0 hf
  have hcolon : (ascii ": ").length = 2 := rfl
  have hcomma : (ascii ",").length = 1 := rfl
  have hnewline : (ascii "\n").length = 1 := rfl
  simp only [statLine, List.length_append, hcolon, hcomma, hnewline]
  omega

/-! ### One call -/

/-- A call from within the buffer stays in it. -/
theorem Contained.print (h : Contained buff buffSz st) (h0 : 0 ≤ st.curSz)
    (hle : st.curSz ≤ buffSz.toNat) (text : List UInt8) :
    Contained buff buffSz (st.print buffSz text) := by
  have hsize : (word64 (buffSz.toNat - st.curSz) : ℤ) = buffSz.toNat - st.curSz :=
    word64_of_lt (by omega) (by have := buffSz.toNat_lt; omega)
  refine ⟨fun c hc => ?_, fun k hk => ?_⟩
  · rcases List.mem_append.1 hc with hc | hc
    · exact h.calls c hc
    · rw [List.mem_singleton.1 hc]
      exact ⟨h0, hle, hsize⟩
  · show Snprintf.store _ st.buff k = buff k
    rw [Snprintf.store]
    split_ifs with hzero
    · exact h.outside k hk
    · rw [write_of_outside, h.outside k hk]
      refine .inr ?_
      simp only [List.length_append, List.length_take, List.length_singleton]
      simp only at hzero
      omega

theorem curSz_print (h0 : 0 ≤ st.curSz) (h : st.curSz + text.length < 2 ^ 31) :
    (st.print buffSz text).curSz = st.curSz + text.length :=
  int32_of_lt (by omega) h

/-! ### The loop -/

/-- `cur_sz` is far from wrapping while `is` are left. -/
structure Small (is : List ℕ) (st : Statistics) : Prop where
  nonneg : 0 ≤ st.curSz
  room : st.curSz + 60 * is.length ≤ 60 * memTypeMax

/-- A class is left out, or its line is printed. -/
theorem statReport_cases (buffSz : UInt64) (hi : i < memTypeMax) (h : (memStat i).Counts)
    (hst : Small (i :: is) st) :
    (¬ 0 < statBlocks (memStat i) ∧ statReport memStat buffSz i st = st) ∨
    (0 < statBlocks (memStat i) ∧ ∃ total text, 8 ≤ text.length ∧ text.length ≤ 60 ∧
      statReport memStat buffSz i st = { st with totalMemSz := total }.print buffSz text ∧
      (statReport memStat buffSz i st).curSz = st.curSz + text.length) := by
  have hroom := hst.room
  rw [List.length_cons, memTypeMax] at hroom
  by_cases hb : 0 < statBlocks (memStat i)
  · obtain ⟨hlow, hhigh⟩ := length_statLine hi
      (word64_lt (statBlocks (memStat i) * (blockSize i + offsetofObj))) h
    have heq : statReport memStat buffSz i st = _ := if_pos hb
    refine .inr ⟨hb, _, _, hlow, hhigh, heq, ?_⟩
    rw [heq]
    exact curSz_print hst.nonneg (by
      show st.curSz + _ < _
      omega)
  · exact .inl ⟨hb, if_neg hb⟩

theorem Small.report (buffSz : UInt64) (hi : i < memTypeMax) (h : (memStat i).Counts)
    (hst : Small (i :: is) st) :
    Small is (statReport memStat buffSz i st) := by
  have h0 := hst.nonneg
  have hroom := hst.room
  rw [List.length_cons] at hroom
  rcases statReport_cases buffSz hi h hst with ⟨-, heq⟩ | ⟨-, _, text, -, hhigh, -, hcur⟩
  · rw [heq]
    exact ⟨h0, by omega⟩
  · exact ⟨by omega, by omega⟩

theorem Small.word64_eq (hst : Small is st) : (word64 st.curSz : ℤ) = st.curSz := by
  have hroom := hst.room
  rw [memTypeMax] at hroom
  exact word64_of_lt hst.nonneg (by omega)

theorem Small.done (hst : Small is st) : Small [] st :=
  ⟨hst.nonneg, by
    have := hst.room
    rw [List.length_nil]
    omega⟩

/-! ### Three bytes or more -/

/-- The loop goes on only as long as the next line starts in the buffer. -/
theorem statLoop_contained (h3 : 3 ≤ buffSz.toNat) (hcounts : ∀ i ∈ is, (memStat i).Counts)
    (his : ∀ i ∈ is, i < memTypeMax) (hst : Small is st) (hle : st.curSz ≤ buffSz.toNat - 3)
    (h : Contained buff buffSz st) :
    Contained buff buffSz (statLoop memStat buffSz is st) ∧
      Small [] (statLoop memStat buffSz is st) := by
  induction is generalizing st with
  | nil => exact ⟨h, hst⟩
  | cons i is ih =>
    have hi := his i List.mem_cons_self
    have hcount := hcounts i List.mem_cons_self
    have hsmall := hst.report buffSz hi hcount
    have hreport : Contained buff buffSz (statReport memStat buffSz i st) := by
      rcases statReport_cases buffSz hi hcount hst with ⟨-, heq⟩ | ⟨-, total, _, -, -,
        heq, -⟩
      · rw [heq]
        exact h
      · rw [heq]
        have htotal : Contained buff buffSz { st with totalMemSz := total } :=
          ⟨h.calls, h.outside⟩
        exact htotal.print hst.nonneg (hle.trans (by omega)) _
    have hlimit : (word64 (buffSz.toNat - 3) : ℤ) = buffSz.toNat - 3 :=
      word64_of_lt (by omega) (by have := buffSz.toNat_lt; omega)
    have hcur := hsmall.word64_eq
    rw [statLoop]
    split_ifs with hbreak
    · exact ⟨hreport, hsmall.done⟩
    · exact ih (fun j hj => hcounts j (List.mem_cons_of_mem i hj))
        (fun j hj => his j (List.mem_cons_of_mem i hj)) hsmall (by omega) hreport

/-! ### Fewer than three -/

/-- A buffer that not even one line fits, after `n` lines. -/
structure Crowded (buff : Memory) (buffSz : UInt64) (n : ℕ) (st : Statistics) : Prop where
  first : n = 0 → st.curSz = 0
  later : 0 < n → buffSz.toNat < st.curSz
  contained : n ≤ 1 → Contained buff buffSz st
  behind : 1 < n → ∃ c ∈ st.calls, buffSz.toNat < c.off

/-- The second line is the first that starts behind the buffer. -/
theorem Crowded.print (h : Crowded buff buffSz n st) (h0 : 0 ≤ st.curSz)
    (hcur : (st.print buffSz text).curSz = st.curSz + text.length)
    (hlen : buffSz.toNat < text.length) : Crowded buff buffSz (n + 1) (st.print buffSz text) where
  first hn := by omega
  later _ := by omega
  contained hn := by
    have hn0 : n = 0 := by omega
    exact (h.contained (by omega)).print h0 (by rw [h.first hn0]; omega) text
  behind hn := ⟨_, List.mem_append_right _ (List.mem_singleton.2 rfl), h.later (by omega)⟩

/-- The break test wraps, and the loop goes through all classes. -/
theorem statLoop_crowded (h3 : buffSz.toNat < 3) (hcounts : ∀ i ∈ is, (memStat i).Counts)
    (his : ∀ i ∈ is, i < memTypeMax) (hst : Small is st) (h : Crowded buff buffSz n st) :
    Crowded buff buffSz (n + is.countP fun i => 0 < statBlocks (memStat i))
        (statLoop memStat buffSz is st) ∧
      Small [] (statLoop memStat buffSz is st) := by
  induction is generalizing st n with
  | nil => exact ⟨h, hst⟩
  | cons i is ih =>
    have hi := his i List.mem_cons_self
    have hcount := hcounts i List.mem_cons_self
    have hsmall := hst.report buffSz hi hcount
    have hbreak : ¬ word64 (buffSz.toNat - 3) < word64 (statReport memStat buffSz i st).curSz := by
      have hlimit : 2 ^ 64 - 3 ≤ word64 (buffSz.toNat - 3) := by
        rw [word64]
        omega
      have hcur := hsmall.word64_eq
      have hroom := hsmall.room
      rw [memTypeMax] at hroom
      omega
    rw [statLoop, if_neg hbreak, List.countP_cons]
    have hrest := fun m (hm : Crowded buff buffSz m (statReport memStat buffSz i st)) =>
      ih (fun j hj => hcounts j (List.mem_cons_of_mem i hj))
        (fun j hj => his j (List.mem_cons_of_mem i hj)) hsmall hm
    rcases statReport_cases buffSz hi hcount hst with ⟨hb, heq⟩ | ⟨hb, total, text,
      hlow, -, heq, hcur⟩
    · rw [if_neg (by simpa using hb), Nat.add_zero]
      exact hrest n (heq.symm ▸ h)
    · rw [if_pos (by simpa using hb), ← Nat.add_assoc, Nat.add_right_comm]
      refine hrest (n + 1) ?_
      rw [heq] at hcur ⊢
      have htotal : Crowded buff buffSz n { st with totalMemSz := total } :=
        ⟨h.first, h.later, fun hn => ⟨(h.contained hn).calls, (h.contained hn).outside⟩, h.behind⟩
      exact htotal.print hst.nonneg hcur (by omega)

/-! ### The whole function -/

/-- **When the statistics stay in their buffer.**  Every `snprintf` starts within the buffer and is
given what is left of it, and nothing is written behind, exactly when there are three bytes or at
most one class has blocks. -/
theorem statisticsMemInfo_contained_iff (hcounts : ∀ i < memTypeMax, (memStat i).Counts)
    (buff : Memory) (buffSz : UInt64) :
    Contained buff buffSz (statisticsMemInfo memStat buff buffSz) ↔
      3 ≤ buffSz.toNat ∨
        ((List.range memTypeMax).countP fun i => 0 < statBlocks (memStat i)) ≤ 1 := by
  have his : ∀ i ∈ List.range memTypeMax, i < memTypeMax := fun i hi => List.mem_range.1 hi
  have hcounts' : ∀ i ∈ List.range memTypeMax, (memStat i).Counts :=
    fun i hi => hcounts i (his i hi)
  have hsmall : Small (List.range memTypeMax) ⟨0, 0, buff, []⟩ :=
    ⟨le_rfl, by rw [List.length_range, zero_add]⟩
  have hstart : Contained buff buffSz ⟨0, 0, buff, []⟩ := ⟨by simp, fun _ _ => rfl⟩
  rw [statisticsMemInfo]
  by_cases h3 : 3 ≤ buffSz.toNat
  · obtain ⟨h, hdone⟩ := statLoop_contained h3 hcounts' his hsmall (by
      show (0 : ℤ) ≤ _
      omega) hstart
    refine iff_of_true ?_ (.inl h3)
    have hcur := hdone.word64_eq
    split_ifs with hroom
    · exact h.print hdone.nonneg (by omega) _
    · exact h
  · have hnone : Crowded buff buffSz 0 ⟨0, 0, buff, []⟩ :=
      ⟨fun _ => rfl, fun hn => absurd hn (by norm_num), fun _ => hstart,
        fun hn => absurd hn (by norm_num)⟩
    obtain ⟨h, hdone⟩ := statLoop_crowded (by omega) hcounts' his hsmall hnone
    rw [Nat.zero_add] at h
    have hcur := hdone.word64_eq
    rw [or_iff_right h3]
    by_cases hn : ((List.range memTypeMax).countP fun i => 0 < statBlocks (memStat i)) ≤ 1
    · refine iff_of_true ?_ hn
      split_ifs with hroom
      · -- there is room for the total only where no line was printed
        exact (h.contained hn).print hdone.nonneg (by omega) _
      · exact h.contained hn
    · refine iff_of_false (fun hcontained => ?_) hn
      have hlater := h.later (by omega)
      rw [if_neg (by omega)] at hcontained
      obtain ⟨c, hc, hlt⟩ := h.behind (by omega)
      have hle := (hcontained.calls c hc).2.1
      omega

/-- A block each in the two smallest classes. -/
def twoBlocks (i : ℕ) : MemStat := if i < 2 then ⟨1, 0⟩ else ⟨0, 0⟩

theorem statisticsMemInfo_contained_iff_two :
    Contained (fun _ => 0) 100 (statisticsMemInfo twoBlocks (fun _ => 0) 100) := by
  have hcounts : ∀ i < memTypeMax, (twoBlocks i).Counts := by
    intro i _
    unfold twoBlocks
    split_ifs <;> exact ⟨by norm_num, by norm_num⟩
  exact (statisticsMemInfo_contained_iff hcounts (fun _ => 0) 100).2 (.inl (by decide))

/-- In a buffer of one byte the second line starts ten bytes behind it, and its size wraps. -/
theorem statisticsMemInfo_overruns :
    ∃ c ∈ (statisticsMemInfo twoBlocks (fun _ => 0) 1).calls, c.off = 11 ∧ c.size = 2 ^ 64 - 10 ∧
      (statisticsMemInfo twoBlocks (fun _ => 0) 1).buff 11 ≠ 0 := by
  have hcalls : (statisticsMemInfo twoBlocks (fun _ => 0) 1).calls =
      [⟨0, 1, ascii "16: 56,1,0\n"⟩, ⟨11, 2 ^ 64 - 10, ascii "32: 72,1,0\n"⟩] := by
    decide +kernel
  exact ⟨⟨11, 2 ^ 64 - 10, ascii "32: 72,1,0\n"⟩, by simp [hcalls], rfl, rfl, by decide +kernel⟩

end Jujube
