import Mathlib.Tactic

/-!
# Descriptors and the epoll set

What the program relies on of the system: a descriptor is open or not; the epoll set maps some of
the open descriptors to what was registered for them; `close` takes the descriptor out of the set.
`epoll_ctl` fails, and changes nothing, on a descriptor that is not open, on adding one that is
registered and on changing or removing one that is not.  The program looks at none of these
results.
-/

namespace Jujube

/-- The `EPOLLIN` and `EPOLLOUT` bits of an event mask. -/
structure Mask where
  epollin : Bool
  epollout : Bool
  deriving DecidableEq, Repr

/-- `epoll_data_t`: a pointer to a slot, given by its index, or a descriptor. -/
inductive EpollData
  | ptr (slot : ℕ)
  | fd (fd : ℤ)
  deriving DecidableEq, Repr

/-- `struct epoll_event`: what is registered for a descriptor. -/
structure Registration where
  data : EpollData
  events : Mask
  deriving DecidableEq, Repr

/-- The open descriptors and the epoll set.  `closed` is the history of the calls of `close`, the
first one first: no result depends on it. -/
@[ext]
structure Kernel where
  opened : Finset ℤ
  interest : ℤ → Option Registration
  closed : List ℤ
  registered : ∀ fd, interest fd ≠ none → fd ∈ opened

/-- Some open descriptors, and nothing registered for them. -/
def Kernel.unwatched (opened : Finset ℤ) : Kernel := ⟨opened, fun _ => none, [], by simp⟩

/-- The epoll set has `r` for an open descriptor from now on. -/
def Kernel.watch (fd : ℤ) (r : Option Registration) (K : Kernel) (h : fd ∈ K.opened) : Kernel where
  opened := K.opened
  interest := Function.update K.interest fd r
  closed := K.closed
  registered f hf := by
    by_cases hfd : f = fd
    · exact hfd ▸ h
    · rw [Function.update_of_ne hfd] at hf
      exact K.registered f hf

inductive EpollOp
  | add
  | mod
  | del

/-- When `epoll_ctl` accepts the operation. -/
def Kernel.Accepts (K : Kernel) (fd : ℤ) : EpollOp → Prop
  | .add => fd ∈ K.opened ∧ K.interest fd = none
  | .mod | .del => fd ∈ K.opened ∧ K.interest fd ≠ none

instance (K : Kernel) (fd : ℤ) (op : EpollOp) : Decidable (K.Accepts fd op) := by
  cases op <;> unfold Kernel.Accepts <;> infer_instance

theorem Kernel.Accepts.opened {K : Kernel} {fd : ℤ} {op : EpollOp} (h : K.Accepts fd op) :
    fd ∈ K.opened := by
  cases op <;> exact h.1

/-- `epoll_ctl` -/
def epollCtl (op : EpollOp) (fd : ℤ) (r : Registration) (K : Kernel) : Kernel :=
  if h : K.Accepts fd op then
    match op with
    | .add | .mod => K.watch fd (some r) h.opened
    | .del => K.watch fd none h.opened
  else K

/-- `socket` and `accept` open a descriptor. -/
def Kernel.openFd (fd : ℤ) (K : Kernel) : Kernel where
  opened := insert fd K.opened
  interest := K.interest
  closed := K.closed
  registered f hf := Finset.mem_insert_of_mem (K.registered f hf)

/-- `close` -/
def Kernel.close (fd : ℤ) (K : Kernel) : Kernel where
  opened := K.opened.erase fd
  interest := Function.update K.interest fd none
  closed := K.closed ++ [fd]
  registered f hf := by
    by_cases hfd : f = fd
    · simp [hfd] at hf
    · rw [Function.update_of_ne hfd] at hf
      exact Finset.mem_erase.2 ⟨hfd, K.registered f hf⟩

section Lemmas

variable {K : Kernel} {fd : ℤ} {r : Registration}

@[simp] theorem Kernel.watch_opened {o : Option Registration} (h : fd ∈ K.opened) :
    (K.watch fd o h).opened = K.opened := rfl

@[simp] theorem Kernel.watch_interest {o : Option Registration} (h : fd ∈ K.opened) :
    (K.watch fd o h).interest = Function.update K.interest fd o := rfl

@[simp] theorem Kernel.watch_closed {o : Option Registration} (h : fd ∈ K.opened) :
    (K.watch fd o h).closed = K.closed := rfl

@[simp] theorem Kernel.openFd_opened : (K.openFd fd).opened = insert fd K.opened := rfl

@[simp] theorem Kernel.openFd_interest : (K.openFd fd).interest = K.interest := rfl

@[simp] theorem Kernel.openFd_closed : (K.openFd fd).closed = K.closed := rfl

@[simp] theorem Kernel.close_opened : (K.close fd).opened = K.opened.erase fd := rfl

@[simp] theorem Kernel.close_interest :
    (K.close fd).interest = Function.update K.interest fd none := rfl

@[simp] theorem Kernel.close_closed : (K.close fd).closed = K.closed ++ [fd] := rfl

/-- Nothing is registered for a descriptor that is not open. -/
theorem Kernel.interest_eq_none (h : fd ∉ K.opened) : K.interest fd = none := by
  by_contra hne
  exact h (K.registered fd hne)

/-- Closing a descriptor takes it out of the epoll set in any case. -/
theorem Kernel.close_watch {o : Option Registration} (h : fd ∈ K.opened) :
    (K.watch fd o h).close fd = K.close fd := by
  ext1
  · rfl
  · exact Function.update_idem _ _ _
  · rfl

theorem epollCtl_of_accepts {op : EpollOp} (h : K.Accepts fd op) :
    epollCtl op fd r K = K.watch fd
      (match op with
        | .add | .mod => some r
        | .del => none) h.opened := by
  unfold epollCtl
  rw [dif_pos h]
  cases op <;> rfl

@[simp] theorem epollCtl_opened (op : EpollOp) : (epollCtl op fd r K).opened = K.opened := by
  by_cases h : K.Accepts fd op
  · rw [epollCtl_of_accepts h, Kernel.watch_opened]
  · unfold epollCtl
    rw [dif_neg h]

@[simp] theorem epollCtl_closed (op : EpollOp) : (epollCtl op fd r K).closed = K.closed := by
  by_cases h : K.Accepts fd op
  · rw [epollCtl_of_accepts h, Kernel.watch_closed]
  · unfold epollCtl
    rw [dif_neg h]

/-- Closing some descriptors, one after the other. -/
theorem Kernel.close_foldl {α : Type*} (f : α → ℤ) (l : List α) (K : Kernel) :
    (l.foldl (fun K a => K.close (f a)) K).opened = K.opened.filter (· ∉ l.map f) ∧
      (l.foldl (fun K a => K.close (f a)) K).interest =
        (fun fd => if fd ∈ l.map f then none else K.interest fd) ∧
      (l.foldl (fun K a => K.close (f a)) K).closed = K.closed ++ l.map f := by
  induction l generalizing K with
  | nil => simp
  | cons a l ih =>
    obtain ⟨hopened, hinterest, hclosed⟩ := ih (K.close (f a))
    refine ⟨?_, ?_, ?_⟩
    · rw [List.foldl_cons, hopened]
      ext fd
      simp only [close_opened, Finset.mem_filter, Finset.mem_erase, List.map_cons, List.mem_cons]
      tauto
    · rw [List.foldl_cons, hinterest]
      funext fd
      simp only [close_interest, Function.update_apply, List.map_cons, List.mem_cons]
      split_ifs <;> tauto
    · rw [List.foldl_cons, hclosed]
      simp

end Lemmas

end Jujube
