import Jujube.ServerDecoder

/-!
# A buffer is a queue

Over any run of `buf_put`, `buf_pick` and `clear_space` on a buffer of a new stream, or on a new
`work_buf`, the buffer stands for the queue of what was put and not yet picked.

* `BufState.step_refines`, `BufState.run_refines`: the refinement, for one use and for a run;
* `buf_queue`: what that means for the bytes, the lengths and the rest of the pool.
-/

namespace Jujube

open Bytes Pool Transition

variable {P : Pool} {b : Buf} {q : List UInt8}

/-- A use of a buffer. -/
inductive BufOp
  | put (d : List UInt8)
  | pick (n : ℕ)
  | clear

/-- The abstract queue. -/
def queueStep (q : List UInt8) : BufOp → List UInt8
  | .put d => q ++ d
  | .pick n => q.drop n
  | .clear => []

/-- A buffer, the pool its bytes live in, and what `buf_put` returned so far. -/
structure BufState where
  buf : Buf
  pool : Pool
  rets : List ℤ

/-- One use. -/
def BufState.step (s : BufState) : BufOp → Except Fault BufState
  | .put d => do
    let (r, b, P) ← bufPut d s.buf s.pool
    return ⟨b, P, r :: s.rets⟩
  | .pick n => do
    let (b, P) ← bufPick n s.buf s.pool
    return ⟨b, P, s.rets⟩
  | .clear => do
    let (b, P) ← clearSpace s.buf s.pool
    return ⟨b, P, s.rets⟩

/-- The callers' side: nothing is picked that is not there, and no buffer outgrows the largest
block. -/
def BufState.Allowed (s : BufState) : BufOp → Prop
  | .put d => PutFits d s.buf
  | .pick n => n ≤ bufDataSize s.buf
  | .clear => True

/-- The buffer stands for `q`, every `buf_put` returned 0, and the blocks that were live in `P₀`
are as they were then, the buffer's own excepted. -/
structure BufState.Refines (P₀ : Pool) (p₀ : Ptr) (s : BufState) (q : List UInt8) : Prop where
  ok : s.pool.Ok
  holds : s.buf.Holds s.pool q
  rets : ∀ r ∈ s.rets, r = 0
  swaps : P₀.Swaps s.pool p₀ s.buf.buffer

/-- **One use of the buffer is the same use of the queue.** -/
theorem BufState.step_refines {P₀ : Pool} {p₀ : Ptr} {s : BufState} (h : s.Refines P₀ p₀ q)
    {op : BufOp} (hop : s.Allowed op) :
    ∃ s', s.step op = .ok s' ∧ s'.Refines P₀ p₀ (queueStep q op) := by
  cases op with
  | put d =>
    obtain ⟨b', P', hrun, hP', H', hS, -⟩ := bufPut_spec h.ok h.holds hop
    refine ⟨⟨b', P', 0 :: s.rets⟩, by simp [step, hrun], hP', H', ?_, h.swaps.trans hS⟩
    intro r hr
    rcases List.mem_cons.1 hr with rfl | hr
    · rfl
    · exact h.rets r hr
  | pick n =>
    obtain ⟨P', hrun, hP', H', hS⟩ := bufPick_spec h.ok h.holds hop
    exact ⟨⟨_, P', s.rets⟩, by simp [step, hrun], hP', H', h.rets, h.swaps.trans hS⟩
  | clear =>
    obtain ⟨P', hrun, hP', H', hS⟩ := clearSpace_spec h.ok h.holds
    exact ⟨⟨_, P', s.rets⟩, by simp [step, hrun], hP', H', h.rets, h.swaps.trans hS⟩

/-- **A run of the buffer is the run of the queue.** -/
theorem BufState.run_refines {P₀ : Pool} {p₀ : Ptr} {s : BufState} (h : s.Refines P₀ p₀ q)
    {ops : List BufOp} (hops : Steps step Allowed s ops) :
    ∃ s', run step s ops = .ok s' ∧ s'.Refines P₀ p₀ (ops.foldl queueStep q) := by
  induction ops generalizing s q with
  | nil => exact ⟨s, rfl, h⟩
  | cons op ops ih =>
    obtain ⟨s₁, hs₁, h₁⟩ := step_refines h hops.1
    obtain ⟨s₂, hs₂, h₂⟩ := ih h₁ (hops.2 s₁ hs₁)
    exact ⟨s₂, by rw [run_cons_ok hs₁, hs₂], h₂⟩

/-- The buffers the program makes: those of a new stream, and a new `work_buf`. -/
inductive Buf.Built : Buf → Pool → Prop
  | inBuf {P₀ P : Pool} {sock : ℤ} {s : TcpStream} :
    P₀.Ok → streamCreate sock P₀ = .ok (s, P) → Built s.inBuf P
  | outBuf {P₀ P : Pool} {sock : ℤ} {s : TcpStream} :
    P₀.Ok → streamCreate sock P₀ = .ok (s, P) → Built s.outBuf P
  | workBuf {P₀ P : Pool} {b : Buf} : P₀.Ok → allocWorkBuff P₀ = .ok (b, P) → Built b P

/-- A new buffer is the empty queue. -/
theorem Buf.Built.refines (h : b.Built P) :
    BufState.Refines P b.buffer ⟨b, P, []⟩ [] := by
  have hnew : ∀ {b : Buf}, P.Ok → b.Holds P [] → BufState.Refines P b.buffer ⟨b, P, []⟩ [] :=
    fun hP H => ⟨hP, H, by simp, Swaps.refl H.live_ne_none⟩
  cases h with
  | @inBuf P₀ _ sock s hP hrun =>
    obtain ⟨s', P', hrun', hs⟩ := streamCreate_spec hP sock
    cases hrun.symm.trans hrun'
    exact hnew hs.extends_.ok hs.inBuf
  | @outBuf P₀ _ sock s hP hrun =>
    obtain ⟨s', P', hrun', hs⟩ := streamCreate_spec hP sock
    cases hrun.symm.trans hrun'
    exact hnew hs.extends_.ok hs.outBuf
  | workBuf hP hrun =>
    obtain ⟨w, P', hrun', hE, H, -⟩ := allocWorkBuff_spec (Extends.refl hP)
    cases hrun.symm.trans hrun'
    exact hnew hE.ok H

/-- The buffer's block has the queue in front, within `buf_len`, which is within the block; no
free space was lost, every `buf_put` returned 0, and no other block that was live in `P` when the
buffer was the block `p` has changed. -/
structure BufState.IsQueue (P : Pool) (p : Ptr) (s : BufState) (q : List UInt8) : Prop where
  block : ∃ e, s.pool.live s.buf.buffer = some e ∧ read e.obj 0 s.buf.dataLen = q ∧
    s.buf.dataLen ≤ s.buf.bufLen ∧ s.buf.bufLen ≤ e.capacity
  free : bufFreeSpace s.buf = s.buf.bufLen - s.buf.dataLen
  rets : ∀ r ∈ s.rets, r = 0
  others : ∀ r, r ≠ p → P.live r ≠ none → s.pool.live r = P.live r

/-- **Any run of a new buffer is the run of a queue**, none of its operations leaves the buffer's
block, and none fails. -/
theorem buf_queue (hb : b.Built P) (ops : List BufOp)
    (hops : Steps BufState.step BufState.Allowed ⟨b, P, []⟩ ops) :
    ∃ s, run BufState.step ⟨b, P, []⟩ ops = .ok s ∧
      s.IsQueue P b.buffer (ops.foldl queueStep []) := by
  obtain ⟨s, hs, h⟩ := BufState.run_refines hb.refines hops
  obtain ⟨e, he, H⟩ := id h.holds
  exact ⟨s, hs, ⟨e, he, H.data, H.fits, H.room⟩, (h.holds.freeSpace h.ok).1, h.rets,
    fun r hr hl => h.swaps.live_of_ne hr hl⟩

/-- Two bytes are put into the `in_buf` of a new stream, and one of them is picked. -/
theorem buf_queue_two :
    ∃ b P, b.Built P ∧ ∃ s, run BufState.step ⟨b, P, []⟩ [.put [1, 2], .pick 1] = .ok s ∧
      s.IsQueue P b.buffer [2] := by
  obtain ⟨s, P, hs, hcreated⟩ := streamCreate_spec (memModuleInit_ok fun _ _ => 0) 5
  have hb : s.inBuf.Built P := .inBuf (memModuleInit_ok fun _ _ => 0) hs
  have hput : BufState.Allowed ⟨s.inBuf, P, []⟩ (.put [1, 2]) := fun _ => by
    show s.inBuf.bufLen + 2 ≤ maxExtMemBlock
    rw [hcreated.inLen]
    decide
  refine ⟨s.inBuf, P, hb, buf_queue hb [.put [1, 2], .pick 1] ⟨hput, fun t ht => ⟨?_, ?_⟩⟩⟩
  · obtain ⟨t', ht', h⟩ := BufState.step_refines hb.refines hput
    cases ht.symm.trans ht'
    show 1 ≤ t.buf.dataLen
    rw [← h.holds.length]
    decide
  · exact fun _ _ => trivial

end Jujube
