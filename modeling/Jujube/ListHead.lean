import Jujube.Fault
import Jujube.Foundation.CircularList

/-!
# `list.h`: intrusive circular lists

`struct list_head` is two pointers inside a larger object.  `Links α` holds the `next` and `prev`
fields of all nodes of one kind `α` (heads and entries), `none` being the null pointer.  The
operations make the assignments of the source in their order and fault where the source follows
a null pointer.

`Links.Ring m h l` says that the head `h` stands for the sequence `l`; each operation has one
lemma that says what it does to the sequence and which links it leaves alone (`SameOff`).
-/

namespace Jujube

open CircularList

/-- The `next` and `prev` fields of the nodes. -/
structure Links (α : Type) where
  next : α → Option α
  prev : α → Option α

variable {α : Type} [DecidableEq α]

namespace Links

/-- `a->next = b` -/
def setNext (m : Links α) (a : α) (b : Option α) : Links α :=
  { m with next := Function.update m.next a b }

/-- `a->prev = b` -/
def setPrev (m : Links α) (a : α) (b : Option α) : Links α :=
  { m with prev := Function.update m.prev a b }

/-- The head `h` stands for the sequence `l`. -/
def Ring (m : Links α) (h : α) (l : List α) : Prop := IsRing m.next m.prev h l

end Links

/-! ### The operations -/

/-- `INIT_LIST_HEAD` -/
def initListHead (list : α) (m : Links α) : Links α :=
  (m.setNext list (some list)).setPrev list (some list)

/-- `__list_add`: insert between two known consecutive entries. -/
def listAddBetween (pnew : α) (prev next : Option α) (m : Links α) : Except Fault (Links α) := do
  let n ← deref next
  let m := m.setPrev n (some pnew)
  let m := m.setNext pnew next
  let m := m.setPrev pnew prev
  let p ← deref prev
  return m.setNext p (some pnew)

/-- `list_add` -/
def listAdd (pnew head : α) (m : Links α) : Except Fault (Links α) :=
  listAddBetween pnew (some head) (m.next head) m

/-- `list_add_tail` -/
def listAddTail (pnew head : α) (m : Links α) : Except Fault (Links α) :=
  listAddBetween pnew (m.prev head) (some head) m

/-- `__list_del`: make the neighbours point to each other. -/
def listDelBetween (prev next : Option α) (m : Links α) : Except Fault (Links α) := do
  let n ← deref next
  let m := m.setPrev n prev
  let p ← deref prev
  return m.setNext p next

/-- `list_del` -/
def listDel (entry : α) (m : Links α) : Except Fault (Links α) := do
  let m ← listDelBetween (m.prev entry) (m.next entry) m
  return (m.setNext entry none).setPrev entry none

/-- `list_empty` -/
def listEmpty (head : α) (m : Links α) : Bool := m.next head = some head

/-- `list_is_singular` -/
def listIsSingular (head : α) (m : Links α) : Bool :=
  !listEmpty head m && decide (m.next head = m.prev head)

/-- The rounds of `list_for_each`, `n` of them at most: the body gets the node at `pos`, and only
reads the links. -/
def forEachLoop {σ : Type} (head : α) (m : Links α) (body : σ → α → Except Fault σ) :
    ℕ → Option α → σ → Except Fault σ
  | 0, _, _ => .error .endlessLoop
  | n + 1, pos, s =>
    if pos = some head then
      return s
    else do
      let p ← deref pos
      let s ← body s p
      forEachLoop head m body n (m.next p) s

/-- `list_for_each` -/
def listForEach {σ : Type} (head : α) (m : Links α) (body : σ → α → Except Fault σ) (n : ℕ)
    (s : σ) : Except Fault σ :=
  forEachLoop head m body n (m.next head) s

/-! ### What they do to the sequences -/

/-- The two agree on every node outside `s`. -/
def SameOff (m m' : Links α) (s : List α) : Prop :=
  ∀ x ∉ s, m'.next x = m.next x ∧ m'.prev x = m.prev x

variable {m m' : Links α} {h n : α} {l r s : List α}

omit [DecidableEq α] in
/-- The rings none of whose nodes were touched are still there. -/
theorem Links.Ring.of_sameOff (H : m.Ring h l) (S : SameOff m m' s)
    (hs : ∀ x ∈ h :: l, x ∉ s) : m'.Ring h l :=
  H.congr fun x hx => S x (hs x hx)

theorem initListHead_ring (h : α) (m : Links α) : (initListHead h m).Ring h [] :=
  isRing_nil (by simp [initListHead, Links.setNext, Links.setPrev])
    (by simp [initListHead, Links.setNext, Links.setPrev])

theorem initListHead_sameOff (h : α) (m : Links α) : SameOff m (initListHead h m) [h] := by
  intro x hx
  have hx : x ≠ h := by simpa using hx
  simp [initListHead, Links.setNext, Links.setPrev, hx]

theorem listEmpty_iff (H : m.Ring h l) : listEmpty h m = true ↔ l = [] := by
  rw [listEmpty, decide_eq_true_eq, H.next_head_eq_self_iff]

theorem listIsSingular_iff (H : m.Ring h l) : listIsSingular h m = true ↔ l.length = 1 := by
  have hempty := listEmpty_iff H
  rw [listIsSingular, Bool.and_eq_true, Bool.not_eq_true', Bool.eq_false_iff, ne_eq, hempty,
    decide_eq_true_eq, H.next_head, H.prev_head, Option.some_inj]
  cases l with
  | nil => simp
  | cons x l =>
    cases l with
    | nil => simp
    | cons y l =>
      -- the first node is not also the last one
      have hx : x ∉ y :: l := (List.nodup_cons.1 H.nodup_nodes).1
      have hne : x ≠ (x :: y :: l).getLastD h := by
        rw [List.getLastD_cons, List.getLastD_cons]
        exact fun e => hx (by rw [e]; exact List.getLastD_mem_cons)
      simpa using hne

/-- The rounds from behind `a` on run the body on the nodes up to the head, in their order. -/
theorem forEachLoop_spec {σ : Type} (body : σ → α → Except Fault σ) {a : α} {k : ℕ}
    (hs : Seg m.next m.prev a l h) (hh : h ∉ l) (hk : l.length < k) (s : σ) :
    forEachLoop h m body k (m.next a) s = l.foldlM body s := by
  induction l generalizing a k s with
  | nil =>
    obtain ⟨k, rfl⟩ := Nat.exists_eq_succ_of_ne_zero (Nat.ne_zero_of_lt hk)
    rw [hs.next_start, forEachLoop]
    exact if_pos rfl
  | cons x l ih =>
    obtain ⟨k, rfl⟩ := Nat.exists_eq_succ_of_ne_zero (Nat.ne_zero_of_lt hk)
    obtain ⟨hxh, hhl⟩ := not_or.1 fun hmem => hh (List.mem_cons.2 hmem)
    have hpos : m.next a = some x := hs.next_start
    have hne : some x ≠ some h := fun e => hxh (Option.some_inj.1 e).symm
    rw [hpos, forEachLoop, if_neg hne, deref_some, ok_bind, List.foldlM_cons]
    exact bind_congr fun s' => ih hs.2 hhl (Nat.lt_of_succ_lt_succ hk) s'

/-- `list_for_each` runs its body on the nodes of the list, in their order, and ends. -/
theorem listForEach_spec {σ : Type} (H : m.Ring h l) (body : σ → α → Except Fault σ) {k : ℕ}
    (hk : l.length < k) (s : σ) : listForEach h m body k s = l.foldlM body s :=
  forEachLoop_spec body H.seg H.head_notMem hk s

/-- `list_add` puts a new node in front. -/
theorem listAdd_spec (H : m.Ring h l) (hn : n ∉ h :: l) :
    ∃ m', listAdd n h m = .ok m' ∧ m'.Ring h (n :: l) ∧ SameOff m m' (n :: h :: l) := by
  refine ⟨⟨_, _⟩, ?_, H.insertFirst hn, ?_⟩
  · rw [listAdd, H.next_head]
    rfl
  · intro x hx
    simp only [List.mem_cons, not_or] at hx
    have hq : x ≠ l.headD h := by
      rintro rfl
      cases l with
      | nil => simp at hx
      | cons y l => simp at hx
    constructor
    · exact (Function.update_of_ne hx.2.1 _ _).trans (Function.update_of_ne hx.1 _ _)
    · exact (Function.update_of_ne hx.1 _ _).trans (Function.update_of_ne hq _ _)

/-- `list_add_tail` puts a new node at the end. -/
theorem listAddTail_spec (H : m.Ring h l) (hn : n ∉ h :: l) :
    ∃ m', listAddTail n h m = .ok m' ∧ m'.Ring h (l ++ [n]) ∧ SameOff m m' (n :: h :: l) := by
  refine ⟨⟨_, _⟩, ?_, H.insertLast hn, ?_⟩
  · rw [listAddTail, H.prev_head]
    rfl
  · intro x hx
    have hp : x ≠ l.getLastD h := fun e => hx <| by
      have : x ∈ h :: l := by rw [e]; exact List.getLastD_mem_cons
      exact List.mem_cons_of_mem n this
    simp only [List.mem_cons, not_or] at hx
    constructor
    · exact (Function.update_of_ne hp _ _).trans (Function.update_of_ne hx.1 _ _)
    · exact (Function.update_of_ne hx.1 _ _).trans (Function.update_of_ne hx.2.1 _ _)

/-- `list_del` takes a node out and clears its links. -/
theorem listDel_spec (H : m.Ring h (l ++ n :: r)) :
    ∃ m', listDel n m = .ok m' ∧ m'.Ring h (l ++ r) ∧ m'.next n = none ∧ m'.prev n = none ∧
      SameOff m m' (h :: (l ++ n :: r)) := by
  obtain ⟨hp, hq⟩ := H.neighbours
  have hR := H.remove
  have hn : n ∉ h :: (l ++ r) := by
    have := H.nodup
    simp only [List.nodup_cons, List.nodup_append, List.mem_append, List.mem_cons] at this ⊢
    grind
  refine ⟨⟨Function.update (Function.update m.next (l.getLastD h) (some (r.headD h))) n none,
    Function.update (Function.update m.prev (r.headD h) (some (l.getLastD h))) n none⟩,
    ?_, hR.congr fun x hx => ?_, ?_, ?_, ?_⟩
  · rw [listDel, hp, hq]
    rfl
  · have hx : x ≠ n := fun e => hn (e ▸ hx)
    exact ⟨Function.update_of_ne hx _ _, Function.update_of_ne hx _ _⟩
  · exact Function.update_self _ _ _
  · exact Function.update_self _ _ _
  · intro x hx
    have hxn : x ≠ n := by rintro rfl; simp at hx
    have hxp : x ≠ l.getLastD h := fun e => hx <| by
      have : x ∈ h :: l := by rw [e]; exact List.getLastD_mem_cons
      simp only [List.mem_cons, List.mem_append] at this ⊢
      tauto
    have hxq : x ≠ r.headD h := fun e => hx <| by
      cases r with
      | nil => simp [e]
      | cons y r => simp [e]
    constructor
    · exact (Function.update_of_ne hxn _ _).trans (Function.update_of_ne hxp _ _)
    · exact (Function.update_of_ne hxn _ _).trans (Function.update_of_ne hxq _ _)

end Jujube
