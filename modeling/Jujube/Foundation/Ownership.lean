import Mathlib.Tactic
import Mathlib.Order.CompletePartialOrder

/-!
# Tables whose entries own what they use

A state is made of resources.  A table gives each index an entry, an entry owns some resources, no
two entries own the same one, and what is said of an entry depends on what it owns and on nothing
else.  A step that serves one index may then change what its entry owns and take what nobody owns:
the other entries are as they were.  Nothing here knows what the resources are.

* `Discipline`: what the resources are to the states and to the entries;
* `Discipline.Frame R s t`: `t` is `s` but for the resources in `R`;
* `Discipline.Inv K T s`: the state stands for the table `T`, and every resource of `K` that is
  in use is owned by an entry;
* `Discipline.Inv.update`, `Discipline.Inv.frame`: the rules for a step that serves one index,
  and for a step that serves none.
-/

namespace Ownership

/-- What the resources `ρ` are to the states `σ` and to the entries `ο` of a table over `ι`:
`same r s t` says that `r` is in `t` what it was in `s`, `live r s` that it can be owned. -/
structure Discipline (σ ρ ι ο : Type*) where
  same : ρ → σ → σ → Prop
  live : ρ → σ → Prop
  used : ρ → σ → Prop
  own : ι → ο → Set ρ
  holds : ι → ο → σ → Prop
  same_refl : ∀ r s, same r s s
  same_trans : ∀ {r s t u}, same r s t → same r t u → same r s u
  used_of_same : ∀ {r s t}, same r s t → used r t → used r s
  holds_of_same : ∀ {i o s t}, holds i o s → (∀ r ∈ own i o, same r s t) → holds i o t
  live_of_own : ∀ {i o s r}, holds i o s → r ∈ own i o → live r s

namespace Discipline

variable {σ ρ ι ο : Type*} {D : Discipline σ ρ ι ο} {s t u : σ} {K R R' : Set ρ} {T : ι → ο}

/-- Nothing but `R` has changed. -/
def Frame (D : Discipline σ ρ ι ο) (R : Set ρ) (s t : σ) : Prop := ∀ r ∉ R, D.same r s t

theorem Frame.refl (R : Set ρ) (s : σ) : D.Frame R s s := fun r _ => D.same_refl r s

theorem Frame.trans (h : D.Frame R s t) (h' : D.Frame R t u) : D.Frame R s u :=
  fun r hr => D.same_trans (h r hr) (h' r hr)

theorem Frame.mono (h : D.Frame R s t) (hR : R ⊆ R') : D.Frame R' s t :=
  fun r hr => h r fun hmem => hr (hR hmem)

/-- The state stands for the table: every entry holds, no two own the same resource, and what is
in use of `K` is owned. -/
structure Inv (D : Discipline σ ρ ι ο) (K : Set ρ) (T : ι → ο) (s : σ) : Prop where
  holds : ∀ i, D.holds i (T i) s
  disjoint : Pairwise fun i j => Disjoint (D.own i (T i)) (D.own j (T j))
  covered : ∀ r ∈ K, D.used r s → ∃ i, r ∈ D.own i (T i)

/-- There is at most one owner. -/
theorem Inv.owner_unique (h : D.Inv K T s) {i j : ι} {r : ρ} (hi : r ∈ D.own i (T i))
    (hj : r ∈ D.own j (T j)) : i = j := by
  by_contra hij
  exact Set.disjoint_left.1 (h.disjoint hij) hi hj

/-- Nobody else owns what a step that serves `i` may change. -/
theorem Inv.disjoint_frame (h : D.Inv K T s) {i j : ι} (hij : j ≠ i)
    (hR : ∀ r ∈ R, r ∈ D.own i (T i) ∨ ¬ D.live r s) : Disjoint (D.own j (T j)) R := by
  rw [Set.disjoint_left]
  intro r hj hr
  rcases hR r hr with hi | hdead
  · exact hij (h.owner_unique hj hi)
  · exact hdead (D.live_of_own (h.holds j) hj)

/-- **A step that serves no index** changes what nobody owns, and uses none of it. -/
theorem Inv.frame (h : D.Inv K T s) (hframe : D.Frame R s t) (hR : ∀ r ∈ R, ¬ D.live r s)
    (hused : ∀ r ∈ R, r ∈ K → ¬ D.used r t) : D.Inv K T t := by
  refine ⟨fun i => D.holds_of_same (h.holds i) fun r hr => hframe r fun hrR => ?_, h.disjoint,
    fun r hrK hr => ?_⟩
  · exact hR r hrR (D.live_of_own (h.holds i) hr)
  · have hrR : r ∉ R := fun hrR => hused r hrR hrK hr
    exact h.covered r hrK (D.used_of_same (hframe r hrR) hr)

variable [DecidableEq ι]

/-- **A step that serves one index.**  It changes what the entry owns and what nobody owns, and
leaves an entry that owns all of it that is in use then. -/
theorem Inv.update (h : D.Inv K T s) {i : ι} {o : ο} (hframe : D.Frame R s t)
    (hold : D.own i (T i) ⊆ R) (hR : ∀ r ∈ R, r ∈ D.own i (T i) ∨ ¬ D.live r s)
    (hnew : D.own i o ⊆ R) (ho : D.holds i o t)
    (hused : ∀ r ∈ R, r ∈ K → D.used r t → r ∈ D.own i o) :
    D.Inv K (Function.update T i o) t := by
  have hdis : ∀ {j}, j ≠ i → Disjoint (D.own j (T j)) R := fun hj => h.disjoint_frame hj hR
  refine ⟨fun j => ?_, fun j k hjk => ?_, fun r hrK hr => ?_⟩
  · by_cases hj : j = i
    · subst hj
      rwa [Function.update_self]
    · rw [Function.update_of_ne hj]
      exact D.holds_of_same (h.holds j) fun r hr =>
        hframe r (Set.disjoint_left.1 (hdis hj) hr)
  · show Disjoint (D.own j (Function.update T i o j)) (D.own k (Function.update T i o k))
    by_cases hj : j = i
    · subst hj
      rw [Function.update_self, Function.update_of_ne (Ne.symm hjk)]
      exact ((hdis (Ne.symm hjk)).mono_right hnew).symm
    · rw [Function.update_of_ne hj]
      by_cases hk : k = i
      · subst hk
        rw [Function.update_self]
        exact (hdis hj).mono_right hnew
      · rw [Function.update_of_ne hk]
        exact h.disjoint hjk
  · by_cases hrR : r ∈ R
    · exact ⟨i, by rw [Function.update_self]; exact hused r hrR hrK hr⟩
    · obtain ⟨j, hj⟩ := h.covered r hrK (D.used_of_same (hframe r hrR) hr)
      have hji : j ≠ i := by
        rintro rfl
        exact hrR (hold hj)
      exact ⟨j, by rwa [Function.update_of_ne hji]⟩

end Discipline

end Ownership
