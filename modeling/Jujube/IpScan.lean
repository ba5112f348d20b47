import Jujube.Ip
import Mathlib.Data.List.Infix

/-!
# The scans of a text

What each loop of `ip.c` makes of a string, with a NUL and anything behind it: the words and the
dots of it are counted, and it is searched for two dots side by side and for anything but digits and
dots.  Of these only `doubleDot` can leave the string.
-/

namespace Jujube

open Decimal

variable {s w f t rest pad : List UInt8} {c symbol : UInt8} {i j k n : ℕ}

/-- The longest beginning of a text whose characters all have a property. -/
theorem exists_span (p : UInt8 → Prop) [DecidablePred p] (s : List UInt8) :
    ∃ a b, s = a ++ b ∧ (∀ c ∈ a, p c) ∧ ∀ c ∈ b.head?, ¬ p c := by
  induction s with
  | nil => exact ⟨[], [], rfl, by simp, by simp⟩
  | cons c s ih =>
    by_cases hc : p c
    · obtain ⟨a, b, rfl, ha, hb⟩ := ih
      exact ⟨c :: a, b, rfl, List.forall_mem_cons.2 ⟨hc, ha⟩, hb⟩
    · exact ⟨[], c :: s, rfl, by simp, by simpa using hc⟩

/-! ### The scans -/

theorem skipBlanks_append (h : 0 ∉ s) (rest : List UInt8) :
    skipBlanks (s ++ 0 :: rest) = .ok (s.dropWhile (IsBlank ·) ++ 0 :: rest) := by
  induction s with
  | nil => simp [skipBlanks]
  | cons c s ih =>
    rw [List.mem_cons, not_or] at h
    rw [List.cons_append, skipBlanks, List.dropWhile_cons]
    by_cases hc : IsBlank c
    · rw [if_pos ⟨Ne.symm h.1, hc⟩, if_pos (decide_eq_true hc), ih h.2]
    · rw [if_neg fun hb => hc hb.2, if_neg (by simpa using hc)]
      rfl

/-- A word is counted at its first character; more of them do not fit into an `int`. -/
theorem countWords_word (hw : ∀ c ∈ w, c ≠ 0 ∧ ¬ IsBlank c) (hk : 1 ≤ k) :
    countWords i k (w ++ t) =
      if k + w.length < 2 ^ 31 ∨ w = [] then countWords i (k + w.length) t
      else .error .signedOverflow := by
  induction w generalizing k with
  | nil => simp
  | cons c w ih =>
    obtain ⟨hc, hblank⟩ := hw c List.mem_cons_self
    have hw' := fun d hd => hw d (List.mem_cons_of_mem c hd)
    rw [List.cons_append, countWords, if_neg hc, if_pos hblank]
    by_cases hlt : k + 1 < 2 ^ 31
    · rw [incr_of_lt hlt, ok_bind, if_neg (by omega), pure_eq_ok, ok_bind, ih hw' (by omega)]
      rw [List.length_cons, Nat.add_assoc, Nat.add_comm 1]
      refine if_congr ?_ rfl rfl
      cases w <;> simp
      omega
    · rw [incr, if_neg hlt, error_bind, if_neg]
      simp
      omega

theorem countWords_le (h : 0 ∉ s) (hrun : countWords i k (s ++ 0 :: rest) = .ok j) : i ≤ j := by
  induction s generalizing i k with
  | nil =>
    simp [countWords] at hrun
    omega
  | cons c s ih =>
    rw [List.mem_cons, not_or] at h
    rw [List.cons_append, countWords, if_neg (Ne.symm h.1)] at hrun
    by_cases hblank : IsBlank c
    · rw [if_neg (not_not.2 hblank)] at hrun
      exact ih h.2 hrun
    · rw [if_pos hblank] at hrun
      obtain ⟨k', -, hrun⟩ := bind_eq_ok.1 hrun
      obtain ⟨i', hi', hrun⟩ := bind_eq_ok.1 hrun
      have hle := ih h.2 hrun
      split_ifs at hi'
      · have := incr_eq_ok.1 hi'
        omega
      · cases hi'
        exact hle

/-- A character that is not blank starts a word, behind a blank. -/
theorem countWords_lt (h : 0 ∉ s) (hs : ∃ c ∈ s, ¬ IsBlank c)
    (hrun : countWords i 0 (s ++ 0 :: rest) = .ok j) : i + 1 ≤ j := by
  induction s with
  | nil => simp at hs
  | cons c s ih =>
    rw [List.mem_cons, not_or] at h
    rw [List.cons_append, countWords, if_neg (Ne.symm h.1)] at hrun
    by_cases hblank : IsBlank c
    · rw [if_neg (not_not.2 hblank)] at hrun
      refine ih h.2 ?_ hrun
      obtain ⟨d, hd, hnot⟩ := hs
      rcases List.mem_cons.1 hd with rfl | hd
      · exact absurd hblank hnot
      · exact ⟨d, hd, hnot⟩
    · rw [if_pos hblank, incr_of_lt (by norm_num), ok_bind, if_pos rfl] at hrun
      obtain ⟨i', hi', hrun⟩ := bind_eq_ok.1 hrun
      have hle := countWords_le h.2 hrun
      have := incr_eq_ok.1 hi'
      omega

/-- The first word of a text. -/
theorem countWords_start (hw : ∀ c ∈ w, c ≠ 0 ∧ ¬ IsBlank c) (hne : w ≠ []) :
    countWords 0 0 (w ++ t) =
      if w.length < 2 ^ 31 then countWords 1 w.length t else .error .signedOverflow := by
  obtain ⟨c, v, rfl⟩ := List.exists_cons_of_ne_nil hne
  obtain ⟨hc, hblank⟩ := hw c List.mem_cons_self
  rw [List.cons_append, countWords, if_neg hc, if_pos hblank, incr_of_lt (by norm_num), ok_bind,
    if_pos rfl, ok_bind, Nat.zero_add,
    countWords_word (fun d hd => hw d (List.mem_cons_of_mem c hd)) le_rfl, List.length_cons,
    Nat.add_comm 1]
  refine if_congr ?_ rfl rfl
  cases v <;> simp

/-- Nothing but a count that does not fit stops these scans. -/
def OnlyOverflows {α : Type*} (x : Except TextFault α) : Prop :=
  ∀ e, x = .error e → e = .signedOverflow

theorem OnlyOverflows.bind {α β : Type} {x : Except TextFault α} {g : α → Except TextFault β}
    (h : OnlyOverflows x) (hg : ∀ a, x = .ok a → OnlyOverflows (g a)) :
    OnlyOverflows (x >>= g) := by
  cases x with
  | ok a => exact hg a rfl
  | error e => exact fun e' he' => h e' (by cases he'; rfl)

theorem onlyOverflows_ok {α : Type*} (a : α) : OnlyOverflows (.ok a) := fun e he => by cases he

theorem onlyOverflows_incr (i : ℕ) : OnlyOverflows (incr i) := by
  unfold incr
  split_ifs
  · exact onlyOverflows_ok _
  · rintro e he
    cases he
    rfl

theorem onlyOverflows_countWords (h : 0 ∉ s) (i k : ℕ) (rest : List UInt8) :
    OnlyOverflows (countWords i k (s ++ 0 :: rest)) := by
  induction s generalizing i k with
  | nil => exact onlyOverflows_ok i
  | cons c s ih =>
    rw [List.mem_cons, not_or] at h
    rw [List.cons_append, countWords, if_neg (Ne.symm h.1)]
    by_cases hblank : IsBlank c
    · rw [if_neg (not_not.2 hblank)]
      exact ih h.2 i 0
    · rw [if_pos hblank]
      refine (onlyOverflows_incr k).bind fun k' _ => OnlyOverflows.bind ?_ fun i' _ => ih h.2 i' k'
      split_ifs
      · exact onlyOverflows_incr i
      · exact onlyOverflows_ok i

theorem onlyOverflows_checkBlank (h : 0 ∉ s) (rest : List UInt8) :
    OnlyOverflows (checkBlank (s ++ 0 :: rest)) := by
  have hdrop : 0 ∉ s.dropWhile (IsBlank ·) := fun hc => h (s.dropWhile_subset _ hc)
  obtain ⟨c, cs, hcs⟩ : ∃ c cs, s ++ 0 :: rest = c :: cs := by cases s <;> simp
  unfold checkBlank getStrNum
  rw [skipBlanks_append h, ok_bind, hcs]
  simp only [peek, ok_bind]
  split_ifs
  · exact onlyOverflows_ok _
  · refine (onlyOverflows_countWords hdrop 0 0 rest).bind fun num _ => ?_
    split_ifs <;> exact onlyOverflows_ok _

theorem countWords_of_checkBlank (h : 0 ∉ s) (hrun : checkBlank (s ++ 0 :: rest) = .ok 1) :
    countWords 0 0 (s.dropWhile (IsBlank ·) ++ 0 :: rest) = .ok 1 := by
  obtain ⟨c, cs, hcs⟩ : ∃ c cs, s ++ 0 :: rest = c :: cs := by cases s <;> simp
  unfold checkBlank getStrNum at hrun
  rw [skipBlanks_append h, ok_bind, hcs] at hrun
  simp only [peek, ok_bind] at hrun
  split_ifs at hrun
  · cases hrun
  · obtain ⟨num, hnum, hrun⟩ := bind_eq_ok.1 hrun
    split_ifs at hrun with h0 h1
    · cases hrun
    · rw [hnum, h1]
    · cases hrun

/-- A text of one word. -/
theorem checkBlank_word {b : List UInt8} (hb : ∀ c ∈ b, IsBlank c)
    (hw : ∀ c ∈ w, c ≠ 0 ∧ ¬ IsBlank c) (hne : w ≠ []) (rest : List UInt8) :
    checkBlank (b ++ w ++ 0 :: rest) =
      if w.length < 2 ^ 31 then .ok 1 else .error .signedOverflow := by
  have hb0 : 0 ∉ b := fun h => absurd (hb 0 h) (by decide)
  have hw0 : 0 ∉ w := fun h => (hw 0 h).1 rfl
  have h0 : 0 ∉ b ++ w := by simp [hb0, hw0]
  obtain ⟨c, v, rfl⟩ := List.exists_cons_of_ne_nil hne
  have hdrop : (b ++ c :: v).dropWhile (IsBlank ·) = c :: v := by
    rw [List.dropWhile_append_of_pos (by simpa using hb), List.dropWhile_cons_of_neg]
    simpa using (hw c List.mem_cons_self).2
  obtain ⟨d, ds, hds⟩ : ∃ d ds, b ++ c :: v ++ 0 :: rest = d :: ds := by cases b <;> simp
  have hd : d ≠ 0 := by
    have hmem : d ∈ b ++ c :: v := by
      cases b with
      | nil =>
        cases hds
        exact List.mem_cons_self
      | cons a b =>
        cases hds
        exact List.mem_cons_self
    rintro rfl
    exact h0 hmem
  unfold checkBlank getStrNum
  rw [skipBlanks_append h0, hdrop, ok_bind, countWords_start hw hne, hds]
  simp only [peek, ok_bind, if_neg hd]
  split_ifs
  · rfl
  · rfl

theorem countSymbol_append (h : 0 ∉ s) (i : ℕ) (rest : List UInt8) :
    countSymbol symbol i (s ++ 0 :: rest) =
      if i + s.count symbol < 2 ^ 31 ∨ s.count symbol = 0 then .ok (i + s.count symbol)
      else .error .signedOverflow := by
  induction s generalizing i with
  | nil => simp [countSymbol]
  | cons c s ih =>
    rw [List.mem_cons, not_or] at h
    rw [List.cons_append, countSymbol, if_neg (Ne.symm h.1)]
    by_cases hc : c = symbol
    · subst hc
      rw [if_pos rfl, List.count_cons_self]
      by_cases hlt : i + 1 < 2 ^ 31
      · rw [incr_of_lt hlt, ok_bind, ih h.2, Nat.add_assoc, Nat.add_comm 1]
        refine if_congr ?_ rfl rfl
        omega
      · rw [incr, if_neg hlt, error_bind, if_neg]
        omega
    · rw [if_neg hc, List.count_cons_of_ne hc, ih h.2]

/-- The dots of a text are counted. -/
theorem checkSymbol_append (h : 0 ∉ s) (rest : List UInt8) :
    checkSymbol (s ++ 0 :: rest) symbol =
      if s.count symbol < 2 ^ 31 then .ok (s.count symbol) else .error .signedOverflow := by
  rw [checkSymbol, countSymbol_append h, Nat.zero_add]
  refine if_congr ?_ rfl rfl
  omega

/-- Two dots stand side by side. -/
def Adjacent (s : List UInt8) : Prop := [dot, dot] <:+: s

instance (s : List UInt8) : Decidable (Adjacent s) := inferInstanceAs (Decidable (_ <:+: _))

theorem adjacent_cons_of_ne (hc : c ≠ dot) : Adjacent (c :: s) ↔ Adjacent s := by
  unfold Adjacent
  rw [List.infix_cons_iff]
  simp [Ne.symm hc]

theorem adjacent_dot_cons {d : UInt8} : Adjacent (dot :: d :: s) ↔ d = dot ∨ Adjacent s := by
  by_cases hd : d = dot
  · subst hd
    simp only [true_or, iff_true]
    exact ⟨[], s, rfl⟩
  · rw [Adjacent, List.infix_cons_iff, ← Adjacent, adjacent_cons_of_ne hd]
    simp [Ne.symm hd, hd]

theorem doubleDot_nul (rest : List UInt8) : doubleDot (0 :: rest) = .ok false := by
  rw [doubleDot.eq_def]
  rfl

/-- **The search for two dots**: a dot at the end leads over the NUL, to what is behind it. -/
theorem doubleDot_append (rest : List UInt8) : ∀ s : List UInt8, 0 ∉ s →
    doubleDot (s ++ 0 :: rest) =
      if Adjacent s then .ok true
      else if s.getLast? = some dot then doubleDot rest
      else .ok false
  | [], _ => by simp [doubleDot_nul, Adjacent]
  | [c], h => by
    have hc : c ≠ 0 := by simpa [eq_comm] using h
    have hadj : ¬ Adjacent [c] := fun hinf => by simpa using hinf.length_le
    by_cases hdot : c = dot
    · subst hdot
      simp [doubleDot, hc, hadj, show (0 : UInt8) ≠ dot by decide]
    · simp [doubleDot, doubleDot_nul, hc, hdot, hadj]
  | c :: d :: s, h => by
    have hc : c ≠ 0 := fun hc => h (by simp [hc])
    have hds : 0 ∉ d :: s := fun hd => h (List.mem_cons_of_mem c hd)
    have hs : 0 ∉ s := fun hs => hds (List.mem_cons_of_mem d hs)
    by_cases hdot : c = dot
    · subst hdot
      simp only [List.cons_append, doubleDot, if_neg hc, if_true, adjacent_dot_cons]
      by_cases hd : d = dot
      · simp [hd]
      · rw [if_neg hd, doubleDot_append rest s hs]
        cases s with
        | nil => simp [hd, Adjacent]
        | cons e s => simp [hd]
    · have ih := doubleDot_append rest (d :: s) hds
      rw [List.cons_append] at ih
      simp only [List.cons_append, doubleDot, if_neg hc, if_neg hdot] at ih ⊢
      rw [ih]
      simp [adjacent_cons_of_ne hdot]

theorem digitsAndDots_eq_true_iff :
    digitsAndDots i s = .ok true ↔
      (∀ c ∈ s, IsDigit c ∨ c = dot) ∧ (i + s.length < 2 ^ 31 ∨ s = []) := by
  induction s generalizing i with
  | nil => simp [digitsAndDots]
  | cons c s ih =>
    rw [digitsAndDots]
    by_cases hc : ¬ IsDigit c ∧ c ≠ dot
    · rw [if_pos hc]
      refine iff_of_false (by simp) fun h => ?_
      rcases h.1 c List.mem_cons_self with hd | hd
      · exact hc.1 hd
      · exact hc.2 hd
    · have hc' : IsDigit c ∨ c = dot := by tauto
      rw [if_neg hc]
      by_cases hlt : i + 1 < 2 ^ 31
      · rw [incr_of_lt hlt, ok_bind, ih, List.forall_mem_cons, List.length_cons]
        have hlen : i + 1 + s.length < 2 ^ 31 ∨ s = [] ↔
            i + (s.length + 1) < 2 ^ 31 ∨ c :: s = [] := by
          cases s <;> simp <;> omega
        tauto
      · rw [incr, if_neg hlt, error_bind]
        refine iff_of_false (by simp) fun h => ?_
        simp only [List.length_cons, reduceCtorEq, or_false] at h
        omega

theorem onlyOverflows_digitsAndDots (i : ℕ) (s : List UInt8) :
    OnlyOverflows (digitsAndDots i s) := by
  induction s generalizing i with
  | nil => exact onlyOverflows_ok _
  | cons c s ih =>
    rw [digitsAndDots]
    split_ifs
    · exact onlyOverflows_ok _
    · exact (onlyOverflows_incr i).bind fun j _ => ih j

end Jujube
