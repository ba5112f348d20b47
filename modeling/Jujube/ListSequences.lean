import Jujube.ListHead

/-!
# The lists of a heap as sequences

Several heads stand in one heap, each for a sequence of its own (`Links.Represents`).  An operation
writes to the nodes of one list, and to a node that is in none: it changes one sequence of the
family, and every other head stands for what it stood for (`Links.Represents.update`).
-/

namespace Jujube

open CircularList

variable {α ι : Type} [DecidableEq α] {m m' : Links α} {head : ι → α} {seq : ι → List α}
  {i : ι} {n : α} {l s : List α}

/-- The heads stand for the sequences, and no two lists share a node. -/
structure Links.Represents (m : Links α) (head : ι → α) (seq : ι → List α) : Prop where
  ring : ∀ i, m.Ring (head i) (seq i)
  disjoint : Pairwise fun i j => List.Disjoint (head i :: seq i) (head j :: seq j)

/-- The node is in none of the lists. -/
def Unlinked (head : ι → α) (seq : ι → List α) (n : α) : Prop := ∀ j, n ∉ head j :: seq j

omit [DecidableEq α] in
/-- What an insertion writes to: the nodes of the list, and the new one. -/
theorem Unlinked.touched (hn : Unlinked head seq n) (i : ι) :
    ∀ x ∈ n :: head i :: seq i, x ∈ head i :: seq i ∨ Unlinked head seq x := by
  intro x hx
  rcases List.mem_cons.1 hx with rfl | hx
  · exact .inr hn
  · exact .inl hx

namespace Links.Represents

omit [DecidableEq α] in
/-- The nodes of a list are in no other. -/
theorem notMem_of_ne (R : m.Represents head seq) {j : ι} (hij : j ≠ i) (hn : n ∈ head i :: seq i) :
    n ∉ head j :: seq j :=
  fun hj => R.disjoint hij hj hn

/-- A member that is taken out is in none of the lists. -/
theorem unlinked_erase [DecidableEq ι] (R : m.Represents head seq) (hn : n ∈ seq i) :
    Unlinked head (Function.update seq i ((seq i).erase n)) n := by
  intro j
  by_cases hj : j = i
  · subst hj
    have hhead : n ≠ head j := fun e => (R.ring j).head_notMem (e ▸ hn)
    rw [Function.update_self, List.mem_cons, not_or]
    exact ⟨hhead, (R.ring j).nodup_nodes.not_mem_erase⟩
  · rw [Function.update_of_ne hj]
    exact R.notMem_of_ne hj (List.mem_cons_of_mem _ hn)

omit [DecidableEq α] in
/-- **An operation on one list.**  It writes to `s`, nodes of its own list or of none, and leaves a
list of such nodes. -/
theorem update [DecidableEq ι] (R : m.Represents head seq) (S : SameOff m m' s)
    (hs : ∀ x ∈ s, x ∈ head i :: seq i ∨ Unlinked head seq x) (H : m'.Ring (head i) l)
    (hl : ∀ x ∈ l, x ∈ head i :: seq i ∨ Unlinked head seq x) :
    m'.Represents head (Function.update seq i l) := by
  -- what the operation may touch is in no other list
  have hother : ∀ j, j ≠ i → ∀ x, x ∈ head i :: seq i ∨ Unlinked head seq x →
      x ∉ head j :: seq j := by
    rintro j hj x (hx | hx)
    · exact R.notMem_of_ne hj hx
    · exact hx j
  have hnew : ∀ x ∈ head i :: l, x ∈ head i :: seq i ∨ Unlinked head seq x := by
    intro x hx
    rcases List.mem_cons.1 hx with rfl | hx
    · exact .inl List.mem_cons_self
    · exact hl x hx
  constructor
  · intro j
    by_cases hj : j = i
    · subst hj
      rwa [Function.update_self]
    · rw [Function.update_of_ne hj]
      exact (R.ring j).of_sameOff S fun x hx hxs => hother j hj x (hs x hxs) hx
  · intro j k hjk
    by_cases hj : j = i
    · subst hj
      rw [Function.update_self, Function.update_of_ne (Ne.symm hjk)]
      exact fun x hx hxk => hother k (Ne.symm hjk) x (hnew x hx) hxk
    · rw [Function.update_of_ne hj]
      by_cases hk : k = i
      · subst hk
        rw [Function.update_self]
        exact fun x hxj hx => hother j hj x (hnew x hx) hxj
      · rw [Function.update_of_ne hk]
        exact R.disjoint hjk

section Operations

variable [DecidableEq ι]

/-- `list_add` -/
theorem listAdd (R : m.Represents head seq) (i : ι) (hn : Unlinked head seq n) :
    ∃ m', Jujube.listAdd n (head i) m = .ok m' ∧
      m'.Represents head (Function.update seq i (n :: seq i)) := by
  obtain ⟨m', hrun, H, S⟩ := listAdd_spec (R.ring i) (hn i)
  refine ⟨m', hrun, R.update S (hn.touched i) H fun x hx => hn.touched i x ?_⟩
  simp only [List.mem_cons] at hx ⊢
  tauto

/-- `list_add_tail` -/
theorem listAddTail (R : m.Represents head seq) (i : ι) (hn : Unlinked head seq n) :
    ∃ m', Jujube.listAddTail n (head i) m = .ok m' ∧
      m'.Represents head (Function.update seq i (seq i ++ [n])) := by
  obtain ⟨m', hrun, H, S⟩ := listAddTail_spec (R.ring i) (hn i)
  refine ⟨m', hrun, R.update S (hn.touched i) H fun x hx => hn.touched i x ?_⟩
  simp only [List.mem_append, List.mem_cons] at hx ⊢
  tauto

/-- `list_del` -/
theorem listDel (R : m.Represents head seq) (hn : n ∈ seq i) :
    ∃ m', Jujube.listDel n m = .ok m' ∧
      m'.Represents head (Function.update seq i ((seq i).erase n)) ∧
      m'.next n = none ∧ m'.prev n = none := by
  obtain ⟨l, r, hsplit⟩ := List.append_of_mem hn
  have hring := R.ring i
  have hnl : n ∉ l := by
    have hnodup := hring.nodup_nodes
    rw [hsplit, List.nodup_append] at hnodup
    exact fun hl => hnodup.2.2 n hl n List.mem_cons_self rfl
  have herase : (seq i).erase n = l ++ r := by
    rw [hsplit, List.erase_append_right _ hnl, List.erase_cons_head]
  rw [hsplit] at hring
  obtain ⟨m', hrun, H, hnext, hprev, S⟩ := listDel_spec hring
  rw [← hsplit] at S
  refine ⟨m', hrun, ?_, hnext, hprev⟩
  rw [← herase] at H
  exact R.update S (fun x hx => .inl hx) H
    fun x hx => .inl (List.mem_cons_of_mem _ (List.mem_of_mem_erase hx))

end Operations

end Links.Represents

/-- **The lists of a heap are sequences.**  In a heap in which the heads stand for sequences,
`list_add` and `list_add_tail` of a node that is in none of them put it in front and at the end of
one, `list_del` takes out a member and clears its links, and every other head stands for the
sequence that it stood for.  `list_empty` and `list_is_singular` tell whether there are no nodes
and whether there is one; `list_for_each` runs its body on the nodes in their order, and ends. -/
theorem listHead_sequences [DecidableEq ι] (R : m.Represents head seq) (i : ι) :
    (∀ n, Unlinked head seq n →
      (∃ m', listAdd n (head i) m = .ok m' ∧
        m'.Represents head (Function.update seq i (n :: seq i))) ∧
      ∃ m', listAddTail n (head i) m = .ok m' ∧
        m'.Represents head (Function.update seq i (seq i ++ [n]))) ∧
    (∀ n ∈ seq i, ∃ m', listDel n m = .ok m' ∧
      m'.Represents head (Function.update seq i ((seq i).erase n)) ∧
      m'.next n = none ∧ m'.prev n = none) ∧
    (listEmpty (head i) m = true ↔ seq i = []) ∧
    (listIsSingular (head i) m = true ↔ (seq i).length = 1) ∧
    ∀ (σ : Type) (body : σ → α → Except Fault σ) (s : σ) (k : ℕ), (seq i).length < k →
      listForEach (head i) m body k s = (seq i).foldlM body s := by
  refine ⟨fun n hn => ⟨R.listAdd i hn, R.listAddTail i hn⟩, fun n hn => R.listDel hn,
    listEmpty_iff (R.ring i), listIsSingular_iff (R.ring i), fun σ body s k hk => ?_⟩
  exact listForEach_spec (R.ring i) body hk s

/-- A list of one node and one of none, and a node that is in neither. -/
theorem listHead_sequences_two :
    ∃ m' : Links (Fin 4),
      listAddTail 3 0 ⟨![some 2, some 1, some 0, none], ![some 2, some 1, some 0, none]⟩ = .ok m' ∧
      m'.Represents ![0, 1] (Function.update ![[2], []] 0 [2, 3]) := by
  have R : Links.Represents
      ⟨![some 2, some 1, some 0, none], ![some 2, some 1, some 0, none]⟩
      (![0, 1] : Fin 2 → Fin 4) ![[2], []] := by
    refine ⟨Fin.forall_fin_two.2 ⟨⟨by decide, ⟨rfl, rfl⟩, rfl, rfl⟩, ⟨by decide, rfl, rfl⟩⟩, ?_⟩
    intro i j hij
    fin_cases i <;> fin_cases j <;> simp at hij ⊢
  exact ((listHead_sequences R 0).1 3 (by unfold Unlinked; decide)).2

end Jujube
