import Mathlib.Tactic

/-!
# What can stop the program

A C function is a Lean function into `Except Fault`: its result and the state it leaves, or the
fault it stops at.  A failed `assert` is one of these (`NDEBUG` is set nowhere), and so are the
accesses whose effect C leaves undefined.
-/

namespace Jujube

/-- The assertions of the source, each under the function it stands in. -/
inductive Assertion
  /-- `mem_alloc`: `size <= MAX_EXT_MEM_BLOCK` -/
  | memAllocSize
  /-- `mem_alloc`: `i < MEM_TYPE_MAX` -/
  | memAllocClass
  /-- `mem_alloc`: `me->refcount == 1` -/
  | memAllocRefcount
  /-- `mem_free`: `i < MEM_TYPE_MAX` -/
  | memFreeClass
  /-- `mem_free`: the byte behind the block is still `0xf` -/
  | memFreeGuard
  /-- `mem_free`: `me->refcount == 0` -/
  | memFreeRefcount
  /-- `buf_pick`: `b->data_len >= len` -/
  | bufPickLen
  /-- `data_transfer` of the server: `sock == s->server_sock` -/
  | serverSock
  /-- `data_transfer` of the server: `buf_data_size(s->out_buf) == 0` -/
  | serverOutBufEmpty
  /-- `connect_cb`: `sock == s->server_sock` -/
  | connectCbSock
  /-- `data_transfer` of the client: `sock == s->server_sock` -/
  | clientSock
  /-- `set_stream_event_in_out`: `s` -/
  | eventStream
  deriving DecidableEq, Repr

/-- A fault. -/
inductive Fault
  | assertFailed (a : Assertion)
  /-- a null pointer is followed -/
  | nullPointer
  /-- a pointer to something that is not (or no longer) allocated is followed -/
  | danglingPointer
  /-- an access outside the bytes of a block -/
  | outOfBounds
  /-- a walk over a list goes on after all its nodes -/
  | endlessLoop
  deriving DecidableEq, Repr

/-- `assert(p)`. -/
def assert (a : Assertion) (p : Prop) [Decidable p] : Except Fault Unit :=
  if p then .ok () else .error (.assertFailed a)

/-- Follow a pointer that may be null. -/
def deref {α : Type*} : Option α → Except Fault α
  | some a => .ok a
  | none => .error .nullPointer

/-- Follow a pointer to an object that may have been freed. -/
def fetch {α : Type*} : Option α → Except Fault α
  | some a => .ok a
  | none => .error .danglingPointer

section Lemmas

universe u

variable {α β : Type u} {ε : Type*}

@[simp] theorem ok_bind (a : α) (f : α → Except ε β) : (Except.ok a >>= f) = f a := rfl

@[simp] theorem error_bind (e : ε) (f : α → Except ε β) : (Except.error e >>= f) = .error e := rfl

@[simp] theorem pure_eq_ok (a : α) : (pure a : Except ε α) = .ok a := rfl

/-- A computation that ends has ended at every step. -/
theorem bind_eq_ok {x : Except ε α} {f : α → Except ε β} {b : β} :
    (x >>= f) = .ok b ↔ ∃ a, x = .ok a ∧ f a = .ok b := by
  cases x with
  | error e => simp
  | ok a => simp

/-- A computation that stops has stopped at some step. -/
theorem bind_eq_error {x : Except ε α} {f : α → Except ε β} {e : ε} :
    (x >>= f) = .error e ↔ x = .error e ∨ ∃ a, x = .ok a ∧ f a = .error e := by
  cases x with
  | error e' => simp
  | ok a => simp

@[simp] theorem bind_ok (x : Except ε α) : (x >>= Except.ok) = x := by cases x <;> rfl

theorem assert_of {a : Assertion} {p : Prop} [Decidable p] (h : p) : assert a p = .ok () :=
  if_pos h

theorem assert_of_not {a : Assertion} {p : Prop} [Decidable p] (h : ¬ p) :
    assert a p = .error (.assertFailed a) :=
  if_neg h

@[simp] theorem deref_some (a : α) : deref (some a) = .ok a := rfl

@[simp] theorem deref_none : deref (none : Option α) = .error .nullPointer := rfl

@[simp] theorem fetch_some (a : α) : fetch (some a) = .ok a := rfl

@[simp] theorem fetch_none : fetch (none : Option α) = .error .danglingPointer := rfl

theorem deref_eq_ok {o : Option α} {a : α} : deref o = .ok a ↔ o = some a := by
  cases o <;> simp

theorem fetch_eq_ok {o : Option α} {a : α} : fetch o = .ok a ↔ o = some a := by
  cases o <;> simp

end Lemmas

end Jujube
