import Jujube.IpDotted

/-!
# Reading behind the NUL

A dot at the end of the text leads `doubleDot` over the NUL.  Here the array ends with that NUL, so
that a read behind it is a fault; `checkHostIpv4_reads_iff` says for which texts there is one.
-/

namespace Jujube

open Decimal

variable {s b w t rest arr buf : List UInt8} {o ipaddr raw : Octets}

/-- A text that ends in a dot: one word, with nothing but blanks in front of it, with three dots of
which no two stand side by side. -/
structure Overruns (s : List UInt8) : Prop where
  word : ∃ b t, s = b ++ (t ++ [dot]) ∧ (∀ c ∈ b, IsBlank c) ∧ (∀ c ∈ t, ¬ IsBlank c) ∧
    t.length + 1 < 2 ^ 31
  count : s.count dot = 3
  notAdjacent : ¬ Adjacent s

/-- A text of one word that does not end in a blank has blanks in front of the word only. -/
theorem exists_word_of_checkBlank (h : 0 ∉ s) (hlast : s.getLast? = some dot)
    (hrun : checkBlank (s ++ 0 :: rest) = .ok 1) :
    ∃ b w, s = b ++ w ∧ (∀ c ∈ b, IsBlank c) ∧ (∀ c ∈ w, ¬ IsBlank c) ∧ w.length < 2 ^ 31 := by
  obtain ⟨b, p, rfl, hb, hp⟩ := exists_span IsBlank s
  obtain ⟨w, q, rfl, hw, hq⟩ := exists_span (fun c => ¬ IsBlank c) p
  refine ⟨b, w ++ q, rfl, hb, ?_⟩
  have hb0 : 0 ∉ w ++ q := fun h0 => h (List.mem_append_right b h0)
  have hdot : dot ∈ w ++ q := by
    refine (List.mem_append.1 (List.mem_of_getLast? hlast)).resolve_left fun hd => ?_
    exact absurd (hb dot hd) (by decide)
  have hdrop : (b ++ (w ++ q)).dropWhile (IsBlank ·) = w ++ q := by
    rw [List.dropWhile_append_of_pos fun c hc => decide_eq_true (hb c hc)]
    cases hwq : w ++ q with
    | nil => rfl
    | cons c u =>
      rw [List.dropWhile_cons_of_neg]
      simpa using hp c (by simp [hwq])
  have hwne : w ≠ [] := by
    rintro rfl
    obtain ⟨c, u, rfl⟩ := List.exists_cons_of_ne_nil (List.ne_nil_of_mem hdot)
    exact hq c rfl (hp c rfl)
  have hcount := countWords_of_checkBlank h hrun
  rw [hdrop, List.append_assoc, countWords_start
    (fun c hc => ⟨fun h0 => hb0 (h0 ▸ List.mem_append_left q hc), hw c hc⟩) hwne] at hcount
  split_ifs at hcount with hlen
  cases q with
  | nil => exact ⟨by simpa using hw, by simpa using hlen⟩
  | cons c u =>
    -- a second word would be counted
    exfalso
    have hblank : IsBlank c := not_not.1 (hq c rfl)
    have hc0 : c ≠ 0 := fun h0 => hb0 (by simp [h0])
    have hu0 : 0 ∉ u := fun h0 => hb0 (by simp [h0])
    have hu : dot ∈ u := by
      rw [List.getLast?_append, List.getLast?_append] at hlast
      cases u with
      | nil =>
        cases hlast
        exact absurd hblank (by decide)
      | cons d v =>
        refine List.mem_of_getLast? ?_
        simpa using hlast
    rw [List.cons_append, countWords, if_neg hc0, if_neg (not_not.2 hblank)] at hcount
    have := countWords_lt hu0 ⟨dot, hu, by decide⟩ hcount
    omega

/-- The conversion reads nothing but its copy. -/
theorem dottedBytes_ne_readPast : dottedBytes arr buf ipaddr ≠ .error .readPast := by
  unfold dottedBytes
  generalize dottedNumbers 3 0 buf [] ipaddr = r
  obtain ⟨_ | ⟨p, validip⟩, addrp⟩ := r
  · simp
  · dsimp only
    split_ifs
    · simp
    · simp
    · unfold sprintf
      split_ifs
      · simp
      · simp

/-- Only `dotted_to_ipaddr` can read behind the array. -/
theorem checkHostIpv4_eq_readPast :
    checkHostIpv4 arr raw = .error .readPast ↔ dottedToIpaddr arr raw = .error .readPast := by
  unfold checkHostIpv4
  cases dottedToIpaddr arr raw with
  | error e => simp
  | ok r =>
    rw [ok_bind]
    dsimp only
    split_ifs <;> simp

/-- The step over the NUL is the only read behind it. -/
theorem dottedToIpaddr_eq_readPast (h : 0 ∉ s) :
    dottedToIpaddr (s ++ [0]) ipaddr = .error .readPast ↔
      checkBlank (s ++ [0]) = .ok 1 ∧ s.count dot = 3 ∧ ¬ Adjacent s ∧
        s.getLast? = some dot := by
  have hdouble := doubleDot_append [] s h
  constructor
  · intro hrun
    unfold dottedToIpaddr at hrun
    rcases bind_eq_error.1 hrun with hstop | ⟨blank, hblank, hrun⟩
    · cases onlyOverflows_checkBlank h [] _ hstop
    split_ifs at hrun with hone
    · rcases bind_eq_error.1 hrun with hstop | ⟨symbol, hsymbol, hrun⟩
      · rw [checkSymbol_append h] at hstop
        split_ifs at hstop
        cases hstop
      rw [checkSymbol_append h] at hsymbol
      split_ifs at hsymbol
      cases hsymbol
      split_ifs at hrun with hthree
      · cases hrun
      refine ⟨by rw [hblank, hone], not_not.1 hthree, ?_⟩
      rw [hdouble] at hrun
      by_cases hadj : Adjacent s
      · rw [if_pos hadj] at hrun
        cases hrun
      by_cases hlast : s.getLast? = some dot
      · exact ⟨hadj, hlast⟩
      rw [if_neg hadj, if_neg hlast, ok_bind, if_neg (by simp), cstr_append h, ok_bind] at hrun
      rcases bind_eq_error.1 hrun with hstop | ⟨clean, -, hrun⟩
      · cases onlyOverflows_digitsAndDots 0 s _ hstop
      split_ifs at hrun
      · exact absurd hrun dottedBytes_ne_readPast
      · cases hrun
    · cases hrun
  · rintro ⟨hblank, hcount, hadj, hlast⟩
    rw [if_neg hadj, if_pos hlast] at hdouble
    simp only [dottedToIpaddr, hblank, ok_bind, if_true, checkSymbol_append h, hcount, hdouble]
    norm_num [doubleDot]

/-- **The scans leave the string** exactly on a text that ends in a dot and has got there: the NUL
behind the dot is stepped over. -/
theorem checkHostIpv4_reads_iff (h : 0 ∉ s) (raw : Octets) :
    checkHostIpv4 (s ++ [0]) raw ≠ .error .readPast ↔ ¬ Overruns s := by
  rw [not_iff_not, checkHostIpv4_eq_readPast, dottedToIpaddr_eq_readPast h]
  constructor
  · rintro ⟨hblank, hcount, hadj, hlast⟩
    obtain ⟨b, w, rfl, hb, hw, hlen⟩ := exists_word_of_checkBlank h hlast hblank
    have hne : w ≠ [] := by
      rintro rfl
      rw [List.append_nil] at hlast
      exact absurd (hb dot (List.mem_of_getLast? hlast)) (by decide)
    obtain ⟨t, c, rfl⟩ := (List.eq_nil_or_concat' w).resolve_left hne
    obtain rfl : c = dot := by simpa [← List.append_assoc] using hlast
    exact ⟨⟨b, t, rfl, hb, fun d hd => hw d (List.mem_append_left _ hd), by simpa using hlen⟩,
      hcount, hadj⟩
  · rintro ⟨⟨b, t, rfl, hb, ht, hlen⟩, hcount, hadj⟩
    have hword : ∀ c ∈ t ++ [dot], c ≠ 0 ∧ ¬ IsBlank c := by
      intro c hc
      refine ⟨fun h0 => h (h0 ▸ List.mem_append_right b hc), ?_⟩
      rcases List.mem_append.1 hc with hc | hc
      · exact ht c hc
      · rw [List.mem_singleton.1 hc]
        decide
    have hblank := checkBlank_word hb hword (by simp) []
    rw [if_pos (by simpa using hlen)] at hblank
    exact ⟨hblank, hcount, hadj, by simp⟩

theorem checkHostIpv4_reads_iff_one :
    checkHostIpv4 (ascii "1.2.3.4" ++ [0]) ⟨0, 0, 0, 0⟩ ≠ .error .readPast ↔
      ¬ Overruns (ascii "1.2.3.4") :=
  checkHostIpv4_reads_iff (by decide) _

/-- The NUL behind `1.2.3.` is stepped over. -/
theorem checkHostIpv4_reads_past :
    0 ∉ ascii "1.2.3." ∧
      checkHostIpv4 (ascii "1.2.3." ++ [0]) ⟨0, 0, 0, 0⟩ = .error .readPast := by
  decide +kernel

end Jujube
