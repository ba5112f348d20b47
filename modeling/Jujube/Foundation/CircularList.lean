import Mathlib.Tactic

/-!
# Circular doubly linked lists

A ring is a head node and a sequence of further nodes, linked forwards and backwards so that the
last node leads back to the head.  Links are two partial functions on the nodes, and every
operation is a few pointwise updates of them.

* `Seg next prev a l b`: from `a` through the nodes of `l` to `b`, every link in both directions;
* `IsRing next prev h l`: the ring with head `h` and the distinct nodes `l`;
* `IsRing.insertFirst`, `IsRing.insertLast`, `IsRing.remove`: what the updates of an insertion or
  of a removal do to the sequence;
* `IsRing.congr`: a ring only depends on the links of its own nodes.
-/

namespace CircularList

variable {α : Type*}

/-- `a` and `b` are neighbours, in both directions. -/
def Linked (next prev : α → Option α) (a b : α) : Prop :=
  next a = some b ∧ prev b = some a

/-- The nodes `l` lie in this order between `a` and `b`. -/
def Seg (next prev : α → Option α) : α → List α → α → Prop
  | a, [], b => Linked next prev a b
  | a, x :: l, b => Linked next prev a x ∧ Seg next prev x l b

/-- A ring: the head `h` and, in order, the nodes `l`. -/
structure IsRing (next prev : α → Option α) (h : α) (l : List α) : Prop where
  nodup : (h :: l).Nodup
  seg : Seg next prev h l h

variable {next prev next' prev' : α → Option α} {a b h n x : α} {l r : List α}

/-! ### Segments -/

theorem seg_append_cons :
    Seg next prev a (l ++ x :: r) b ↔ Seg next prev a l x ∧ Seg next prev x r b := by
  induction l generalizing a with
  | nil => rfl
  | cons y l ih => simp only [List.cons_append, Seg, ih, and_assoc]

/-- A segment only reads the forward links of its start and nodes, and the backward links of its
nodes and end. -/
theorem Seg.congr (hn : ∀ x ∈ a :: l, next' x = next x) (hp : ∀ x ∈ l ++ [b], prev' x = prev x)
    (hs : Seg next prev a l b) : Seg next' prev' a l b := by
  induction l generalizing a with
  | nil =>
    refine ⟨?_, ?_⟩
    · rw [hn a (by simp)]; exact hs.1
    · rw [hp b (by simp)]; exact hs.2
  | cons y l ih =>
    refine ⟨⟨?_, ?_⟩, ih (fun z hz => hn z (by simp at hz ⊢; tauto))
      (fun z hz => hp z (by simp at hz ⊢; tauto)) hs.2⟩
    · rw [hn a (by simp)]; exact hs.1.1
    · rw [hp y (by simp)]; exact hs.1.2

/-- A segment whose last link is redirected to another end. -/
theorem Seg.redirect (hs : Seg next prev a l n) (hn : next' (l.getLastD a) = some b)
    (hp : prev' b = some (l.getLastD a)) (hn' : ∀ x ∈ (a :: l).dropLast, next' x = next x)
    (hp' : ∀ x ∈ l, prev' x = prev x) : Seg next' prev' a l b := by
  induction l generalizing a with
  | nil => exact ⟨hn, hp⟩
  | cons y l ih =>
    rw [List.getLastD_cons] at hn hp
    refine ⟨⟨?_, ?_⟩, ih hs.2 hn hp (fun z hz => hn' z ?_) (fun z hz => hp' z (by simp [hz]))⟩
    · rw [hn' a (by simp)]; exact hs.1.1
    · rw [hp' y (by simp)]; exact hs.1.2
    · rw [List.dropLast_cons_cons]; exact List.mem_cons_of_mem _ hz

/-- The first link of a segment. -/
theorem Seg.next_start (hs : Seg next prev a l b) : next a = some (l.headD b) := by
  cases l with
  | nil => exact hs.1
  | cons y l => exact hs.1.1

/-- No forward link of a segment is missing. -/
theorem Seg.next_ne_none (hs : Seg next prev a l b) (hx : x ∈ a :: l) : next x ≠ none := by
  induction l generalizing a with
  | nil =>
    have hxa : x = a := by simpa using hx
    rw [hxa, hs.1]
    exact Option.some_ne_none b
  | cons y l ih =>
    rcases List.mem_cons.1 hx with rfl | hx
    · rw [hs.1.1]
      exact Option.some_ne_none y
    · exact ih hs.2 hx

/-- The last link of a segment. -/
theorem Seg.prev_end (hs : Seg next prev a l b) : prev b = some (l.getLastD a) := by
  rcases List.eq_nil_or_concat l with rfl | ⟨r, y, rfl⟩
  · exact hs.2
  · rw [List.concat_eq_append, seg_append_cons] at hs
    rw [List.concat_eq_append, List.getLastD_concat]
    exact hs.2.2

/-! ### Rings -/

/-- A head that is its own neighbour is the ring of no nodes. -/
theorem isRing_nil (hn : next h = some h) (hp : prev h = some h) : IsRing next prev h [] :=
  ⟨by simp, hn, hp⟩

namespace IsRing

theorem next_head (H : IsRing next prev h l) : next h = some (l.headD h) := H.seg.next_start

theorem prev_head (H : IsRing next prev h l) : prev h = some (l.getLastD h) := H.seg.prev_end

theorem head_notMem (H : IsRing next prev h l) : h ∉ l := (List.nodup_cons.1 H.nodup).1

theorem nodup_nodes (H : IsRing next prev h l) : l.Nodup := (List.nodup_cons.1 H.nodup).2

/-- The head leads to itself exactly when the ring has no nodes. -/
theorem next_head_eq_self_iff (H : IsRing next prev h l) : next h = some h ↔ l = [] := by
  rw [H.next_head]
  cases l with
  | nil => simp
  | cons y l =>
    have hy : y ≠ h := fun e => H.head_notMem (by simp [e])
    simp [hy]

/-- The links determine the nodes. -/
theorem unique (H : IsRing next prev h l) (H' : IsRing next prev h r) : l = r := by
  have key : ∀ {a l r}, Seg next prev a l h → Seg next prev a r h → h ∉ l → h ∉ r → l = r := by
    intro a l
    induction l generalizing a with
    | nil =>
      intro r hl hr _ hhr
      cases r with
      | nil => rfl
      | cons y r =>
        have hy : some h = some y := hl.1.symm.trans hr.1.1
        cases hy
        simp at hhr
    | cons x l ih =>
      intro r hl hr hhl hhr
      cases r with
      | nil =>
        have hx : some x = some h := hl.1.1.symm.trans hr.1
        cases hx
        simp at hhl
      | cons y r =>
        have hxy : some x = some y := hl.1.1.symm.trans hr.1.1
        cases hxy
        simp only [List.mem_cons, not_or] at hhl hhr
        rw [ih hl.2 hr.2 hhl.2 hhr.2]
  exact key H.seg H'.seg H.head_notMem H'.head_notMem

/-- A ring only depends on the links of its own nodes. -/
theorem congr (H : IsRing next prev h l)
    (hl : ∀ x ∈ h :: l, next' x = next x ∧ prev' x = prev x) : IsRing next' prev' h l := by
  refine ⟨H.nodup, H.seg.congr (fun x hx => (hl x hx).1) (fun x hx => (hl x ?_).2)⟩
  simp only [List.mem_append, List.mem_singleton] at hx
  rcases hx with hx | rfl <;> simp [*]

/-- The nodes on either side of a position of the ring: the links around it. -/
theorem neighbours (H : IsRing next prev h (l ++ n :: r)) :
    prev n = some (l.getLastD h) ∧ next n = some (r.headD h) :=
  ⟨(seg_append_cons.1 H.seg).1.prev_end, (seg_append_cons.1 H.seg).2.next_start⟩

/-- In a list without repetitions the last element is not among the others. -/
theorem ne_getLastD_of_mem_dropLast (hnd : (h :: l).Nodup) (hx : x ∈ (h :: l).dropLast) :
    x ≠ l.getLastD h := by
  rcases List.eq_nil_or_concat l with rfl | ⟨r, y, rfl⟩
  · simp at hx
  · rw [List.concat_eq_append, ← List.cons_append] at hnd hx
    rw [List.dropLast_concat] at hx
    rw [List.concat_eq_append, List.getLastD_concat]
    exact (List.nodup_append.1 hnd).2.2 x hx y (by simp)

variable [DecidableEq α]

/-- Linking a new node between the head and the first node. -/
theorem insertFirst (H : IsRing next prev h l) (hn : n ∉ h :: l) :
    IsRing (Function.update (Function.update next n (some (l.headD h))) h (some n))
      (Function.update (Function.update prev (l.headD h) (some n)) n (some h)) h (n :: l) := by
  have hnh : n ≠ h := fun e => hn (by simp [e])
  have hnl : n ∉ l := fun e => hn (by simp [e])
  refine ⟨?_, ⟨by simp, by simp⟩, ?_⟩
  · have := H.nodup
    simp only [List.nodup_cons, List.mem_cons] at this ⊢
    exact ⟨by tauto, hnl, this.2⟩
  cases l with
  | nil => exact ⟨by simp [hnh], by simp [hnh.symm]⟩
  | cons y l =>
    have hny : n ≠ y := fun e => hnl (by simp [e])
    have hyh : y ≠ h := fun e => H.head_notMem (by simp [e])
    have hyl := (List.nodup_cons.1 H.nodup_nodes).1
    refine ⟨⟨by simp [hnh], by simp [hny.symm]⟩, H.seg.2.congr (fun z hz => ?_) (fun z hz => ?_)⟩
    · have hzn : z ≠ n := fun e => hnl (e ▸ hz)
      have hzh : z ≠ h := fun e => H.head_notMem (e ▸ hz)
      simp [hzn, hzh]
    · have hzn : z ≠ n := by
        rintro rfl
        simp only [List.mem_append, List.mem_singleton] at hz
        exact hz.elim (fun e => hnl (by simp [e])) hnh
      have hzy : z ≠ y := by
        rintro rfl
        simp only [List.mem_append, List.mem_singleton] at hz
        exact hz.elim hyl hyh
      simp [hzn, hzy]

/-- Linking a new node between the last node and the head. -/
theorem insertLast (H : IsRing next prev h l) (hn : n ∉ h :: l) :
    IsRing (Function.update (Function.update next n (some h)) (l.getLastD h) (some n))
      (Function.update (Function.update prev h (some n)) n (some (l.getLastD h))) h
      (l ++ [n]) := by
  have hnh : n ≠ h := fun e => hn (by simp [e])
  have hlast : l.getLastD h ≠ n := fun e => hn (by rw [← e]; exact List.getLastD_mem_cons)
  have hnd : (h :: l ++ [n]).Nodup := List.nodup_append_comm.1 (List.nodup_cons.2 ⟨hn, H.nodup⟩)
  refine ⟨hnd, ?_⟩
  rw [seg_append_cons]
  refine ⟨H.seg.redirect (by simp) (by simp) (fun z hz => ?_) (fun z hz => ?_),
    by rw [Function.update_of_ne hlast.symm, Function.update_self], by simp [hnh.symm]⟩
  · have hzn : z ≠ n := fun e => hn (e ▸ List.mem_of_mem_dropLast hz)
    rw [Function.update_of_ne (ne_getLastD_of_mem_dropLast H.nodup hz), Function.update_of_ne hzn]
  · have hzn : z ≠ n := fun e => hn (by simp [← e, hz])
    have hzh : z ≠ h := fun e => H.head_notMem (e ▸ hz)
    simp [hzn, hzh]

/-- Linking the neighbours of a node to each other takes it out. -/
theorem remove (H : IsRing next prev h (l ++ n :: r)) :
    IsRing (Function.update next (l.getLastD h) (some (r.headD h)))
      (Function.update prev (r.headD h) (some (l.getLastD h))) h (l ++ r) := by
  have hnd : (h :: (l ++ r)).Nodup := by
    refine H.nodup.sublist (List.Sublist.cons_cons h ?_)
    exact List.Sublist.append_left (List.sublist_cons_self n r) l
  have hl : (h :: l).Nodup := hnd.sublist (List.Sublist.cons_cons h (List.sublist_append_left l r))
  have hrest : ∀ z ∈ h :: l, z ∉ r := fun z hz hzr =>
    (List.nodup_append.1 (List.cons_append ▸ hnd : ((h :: l) ++ r).Nodup)).2.2 z hz z hzr rfl
  obtain ⟨hsl, hsr⟩ := seg_append_cons.1 H.seg
  refine ⟨hnd, ?_⟩
  cases r with
  | nil =>
    rw [List.append_nil]
    refine hsl.redirect (by simp) (by simp) (fun z hz => ?_) (fun z hz => ?_)
    · rw [Function.update_of_ne (ne_getLastD_of_mem_dropLast hl hz)]
    · have hzh : z ≠ h := fun e => (List.nodup_cons.1 hl).1 (e ▸ hz)
      simp [hzh]
  | cons q r =>
    have hqr : q ∉ r ∧ q ≠ h := by simp only [List.nodup_cons, List.nodup_append] at hnd; grind
    rw [seg_append_cons]
    refine ⟨hsl.redirect (by simp) (by simp) (fun z hz => ?_) (fun z hz => ?_),
      hsr.2.congr (fun z hz => ?_) (fun z hz => ?_)⟩
    · rw [Function.update_of_ne (ne_getLastD_of_mem_dropLast hl hz)]
    · have hzq : z ≠ q := fun e => hrest z (by simp [hz]) (by simp [e])
      simp [hzq]
    · have hzl : z ≠ l.getLastD h := fun e =>
        hrest z (by rw [e]; exact List.getLastD_mem_cons) hz
      rw [Function.update_of_ne hzl]
    · have hzq : z ≠ q := by
        rintro rfl
        simp only [List.mem_append, List.mem_singleton] at hz
        exact hz.elim hqr.1 hqr.2
      simp [hzq]

end IsRing

end CircularList
