import Jujube.Foundation.Transition
import Jujube.Stream

/-!
# `stream_flush_out`

The calls of `write` are handed the front of `in_buf` and take some of it: what they took and what
stays is what was there (`Wrote`).  How much they take depends on the number of bytes and on the
answers of `write` only (`writeTaken`).

`Sending` is a stream whose `in_buf` is filled and flushed any number of times.
-/

namespace Jujube

open Bytes Pool Transition

variable {P P' : Pool} {s : TcpStream} {q : List UInt8}

/-- How many of `n` bytes the calls of `write` take. -/
def writeTaken : ℕ → List WriteResult → ℕ
  | _, [] => 0
  | n, w :: ws =>
    if 0 < n then
      match w with
      | .eintr => writeTaken n ws
      | .accept k => min (k + 1) n + writeTaken (n - min (k + 1) n) ws
      | .eagain | .zero | .error => 0
    else 0

/-- One of the calls of `write` fails, and not because of an interrupt or `EAGAIN`. -/
def writeFails : ℕ → List WriteResult → Bool
  | _, [] => false
  | n, w :: ws =>
    if 0 < n then
      match w with
      | .eintr => writeFails n ws
      | .accept k => writeFails (n - min (k + 1) n) ws
      | .error => true
      | .eagain | .zero => false
    else false

/-- The bytes that calls of `write` took. -/
def accepted (calls : List (List UInt8 × ℕ)) : List UInt8 := calls.flatMap fun c => c.1.take c.2

/-- Each call of `write` was handed the front of what was left of `q` when it was made. -/
def Handed : List UInt8 → List (List UInt8 × ℕ) → Prop
  | _, [] => True
  | q, c :: cs => c.1 <+: q ∧ c.2 ≤ c.1.length ∧ Handed (q.drop c.2) cs

/-- `k` bytes were taken off the front of `in_buf`, which stood for `q`; nothing else changed, and
the result is `t + k` or that of a failed `write`. -/
structure Flushed (s : TcpStream) (P : Pool) (q : List UInt8) (t : ℤ) (k : ℕ) (res : Flush) :
    Prop where
  ok : res.pool.Ok
  stream : res.stream = { s with inBuf := { s.inBuf with dataLen := s.inBuf.dataLen - k } }
  holds : res.stream.inBuf.Holds res.pool (q.drop k)
  swaps : P.Swaps res.pool s.inBuf.buffer s.inBuf.buffer
  ret : res.ret = t + k ∨ res.ret = -1

/-- Leaving the loop before the next byte. -/
theorem flushed_stop (hP : P.Ok) (H : s.inBuf.Holds P q) {ret t : ℤ}
    {calls : List (List UInt8 × ℕ)} (hret : ret = t ∨ ret = -1) :
    Flushed s P q t 0 ⟨ret, s, P, calls⟩ :=
  ⟨hP, rfl, H, Swaps.refl H.live_ne_none, by simpa using hret⟩

/-- What the loop of `stream_flush_out` did with `n` bytes to go: `calls` are the calls of `write`
it made. -/
structure Wrote (s : TcpStream) (P : Pool) (q : List UInt8) (t : ℤ) (n : ℕ)
    (writes : List WriteResult) (calls : List (List UInt8 × ℕ)) (res : Flush) : Prop
    extends Flushed s P q t (writeTaken n writes) res where
  handed : Handed q calls
  accepted : accepted calls = q.take (writeTaken n writes)
  result : res.ret = if writeFails n writes then -1 else t + writeTaken n writes
  failed : writeFails n writes = true →
    ∃ pre post, writes = pre ++ .error :: post ∧ calls.length = pre.length + 1

theorem writeTaken_le (n : ℕ) (writes : List WriteResult) : writeTaken n writes ≤ n := by
  induction writes generalizing n with
  | nil => exact Nat.zero_le n
  | cons w ws ih =>
    by_cases hn : 0 < n
    · cases w with
      | accept k =>
        have := ih (n - min (k + 1) n)
        simp only [writeTaken, if_pos hn]
        omega
      | eintr => simpa only [writeTaken, if_pos hn] using ih n
      | _ => simp [writeTaken]
    · simp [writeTaken, hn]

/-- Without errors, no call of `write` fails. -/
theorem writeFails_eq_false {writes : List WriteResult} (h : .error ∉ writes) (n : ℕ) :
    writeFails n writes = false := by
  induction writes generalizing n with
  | nil => rfl
  | cons w ws ih =>
    obtain ⟨hw, hws⟩ := not_or.1 (fun hmem => h (List.mem_cons.2 hmem))
    by_cases hn : 0 < n
    · cases w with
      | accept k => simpa only [writeFails, if_pos hn] using ih hws _
      | eintr => simpa only [writeFails, if_pos hn] using ih hws n
      | error => exact absurd rfl hw
      | _ => simp [writeFails]
    · simp [writeFails, hn]

section

variable {n r k : ℕ} {t ret : ℤ} {w : WriteResult} {ws : List WriteResult} {d : List UInt8}
  {calls new : List (List UInt8 × ℕ)} {res : Flush}

/-- The loop is left after a call of `write` that took nothing. -/
theorem Wrote.stop (hP : P.Ok) (H : s.inBuf.Holds P q) (hd : d <+: q) (hret : ret = t ∨ ret = -1)
    (htaken : writeTaken n (w :: ws) = 0)
    (hresult : ret = if writeFails n (w :: ws) then -1 else t + writeTaken n (w :: ws))
    (hfails : writeFails n (w :: ws) = true → w = .error) :
    Wrote s P q t n (w :: ws) [(d, 0)] ⟨ret, s, P, calls⟩ := by
  refine ⟨htaken ▸ flushed_stop hP H hret, ⟨hd, Nat.zero_le _, trivial⟩, ?_, hresult,
    fun h => ⟨[], ws, by rw [hfails h, List.nil_append], rfl⟩⟩
  rw [htaken]
  rfl

/-- `write` was interrupted, and the loop goes on. -/
theorem Wrote.eintr (hpos : 0 < n) (hd : d <+: q) (h : Wrote s P q t n ws new res) :
    Wrote s P q t n (.eintr :: ws) ((d, 0) :: new) res := by
  have htaken : writeTaken n (.eintr :: ws) = writeTaken n ws := by simp [writeTaken, hpos]
  have hfails : writeFails n (.eintr :: ws) = writeFails n ws := by simp [writeFails, hpos]
  refine ⟨htaken ▸ h.toFlushed, ⟨hd, Nat.zero_le _, h.handed⟩, ?_, ?_, fun hfail => ?_⟩
  · rw [htaken, ← h.accepted]
    rfl
  · rw [h.result, hfails, htaken]
  · obtain ⟨pre, post, hws, hlength⟩ := h.failed (hfails ▸ hfail)
    exact ⟨.eintr :: pre, post, by rw [hws]; rfl, by simp [hlength]⟩

/-- `write` took `r` bytes, and the loop goes on with the rest. -/
theorem Wrote.accept (hpos : 0 < n) (hn : n ≤ q.length) (hr : r = min (k + 1) n)
    (hS : P.Swaps P' s.inBuf.buffer s.inBuf.buffer)
    (h : Wrote { s with inBuf := { s.inBuf with dataLen := s.inBuf.dataLen - r } } P' (q.drop r)
      (t + r) (n - r) ws new res) :
    Wrote s P q t n (.accept k :: ws) ((q.take n, r) :: new) res := by
  have hrn : r ≤ n := hr ▸ Nat.min_le_right _ _
  have htaken : writeTaken n (.accept k :: ws) = r + writeTaken (n - r) ws := by
    simp [writeTaken, hpos, hr]
  have hfails : writeFails n (.accept k :: ws) = writeFails (n - r) ws := by
    simp [writeFails, hpos, hr]
  have hlen : (q.take n).length = n := by rw [List.length_take, Nat.min_eq_left hn]
  refine ⟨⟨h.ok, ?_, ?_, hS.trans h.swaps, ?_⟩,
    ⟨List.take_prefix n q, by rwa [hlen], h.handed⟩, ?_, ?_, fun hfail => ?_⟩
  · rw [h.stream, htaken]
    simp only [Nat.sub_sub]
  · rw [htaken, ← List.drop_drop]
    exact h.holds
  · have := h.ret
    rw [htaken]
    push_cast at this ⊢
    omega
  · calc Jujube.accepted ((q.take n, r) :: new)
        = (q.take n).take r ++ Jujube.accepted new := rfl
      _ = q.take r ++ (q.drop r).take (writeTaken (n - r) ws) := by
          rw [List.take_take, Nat.min_eq_left hrn, h.accepted]
      _ = q.take (writeTaken n (.accept k :: ws)) := by rw [htaken, List.take_add]
  · rw [h.result, hfails, htaken]
    push_cast
    split_ifs
    · rfl
    · ring
  · obtain ⟨pre, post, hws, hlength⟩ := h.failed (hfails ▸ hfail)
    exact ⟨.accept k :: pre, post, by rw [hws]; rfl, by simp [hlength]⟩

end

/-- The loop of `stream_flush_out` takes bytes off the front of `in_buf`, as many as the calls of
`write` take of what it was told. -/
theorem flushLoop_spec (hP : P.Ok) (H : s.inBuf.Holds P q) {n : ℕ} (hn : n ≤ q.length) (t : ℤ)
    (calls : List (List UInt8 × ℕ)) (writes : List WriteResult) :
    ∃ new res, flushLoop n t s P calls writes = .ok res ∧ res.calls = calls ++ new ∧
      Wrote s P q t n writes new res := by
  induction writes generalizing s P q n t calls with
  | nil =>
    exact ⟨[], _, rfl, (List.append_nil _).symm, flushed_stop hP H (.inl rfl), trivial, rfl,
      by simp [writeFails, writeTaken], by simp [writeFails]⟩
  | cons w ws ih =>
    by_cases hpos : 0 < n
    swap
    · have htaken : writeTaken n (w :: ws) = 0 := by simp [writeTaken, hpos]
      have hfails : writeFails n (w :: ws) = false := by simp [writeFails, hpos]
      refine ⟨[], ⟨t, s, P, calls⟩, ?_, (List.append_nil _).symm,
        htaken ▸ flushed_stop hP H (.inl rfl), trivial, by rw [htaken]; rfl,
        by simp [hfails, htaken], by simp [hfails]⟩
      simp only [flushLoop, if_neg (show ¬ (0 : ℤ) < n by omega), pure_eq_ok]
    have hlen := H.length
    -- `write` is handed the first `n` bytes
    have hload : P.load s.inBuf.buffer 0 n = .ok (q.take n) := H.load_take (by omega)
    have hd : q.take n <+: q := List.take_prefix n q
    simp only [flushLoop, if_pos (show (0 : ℤ) < n by omega), Int.toNat_natCast, hload, ok_bind,
      pure_eq_ok]
    cases w with
    | eagain =>
      exact ⟨_, _, rfl, rfl, .stop hP H hd (.inl rfl) (by simp [writeTaken])
        (by simp [writeFails, writeTaken]) (by simp [writeFails])⟩
    | zero =>
      exact ⟨_, _, rfl, rfl, .stop hP H hd (.inl rfl) (by simp [writeTaken])
        (by simp [writeFails, writeTaken]) (by simp [writeFails])⟩
    | error =>
      exact ⟨_, _, rfl, rfl, .stop hP H hd (.inr rfl) (by simp [writeTaken])
        (by simp [writeFails, hpos]) (fun _ => rfl)⟩
    | eintr =>
      obtain ⟨new, res, hrun, hcalls, hres⟩ := ih hP H hn t (calls ++ [(q.take n, 0)])
      exact ⟨_, res, hrun, by rw [hcalls, List.append_assoc]; rfl, hres.eintr hpos hd⟩
    | accept k =>
      have hlength : (q.take n).length = n := by rw [List.length_take, Nat.min_eq_left hn]
      obtain ⟨r, hr⟩ : ∃ r, r = min (k + 1) n := ⟨_, rfl⟩
      have hrn : r ≤ n := hr ▸ Nat.min_le_right _ _
      obtain ⟨P₁, hpick, hP₁, H₁, hS₁⟩ := bufPick_spec hP H (n := r) (by omega)
      obtain ⟨new, res, hrun, hcalls, hres⟩ := ih
        (s := { s with inBuf := { s.inBuf with dataLen := s.inBuf.dataLen - r } }) hP₁ H₁
        (n := n - r) (by rw [List.length_drop]; omega) (t + r) (calls ++ [(q.take n, r)])
      refine ⟨_, res, ?_, by rw [hcalls, List.append_assoc]; rfl, hres.accept hpos hn hr hS₁⟩
      simp only [hlength, ← hr, hpick, ok_bind]
      rw [← hrun, Nat.cast_sub hrn]

/-- A value that an `int` can have. -/
def IsInt (n : ℤ) : Prop := -2 ^ 31 ≤ n ∧ n < 2 ^ 31

/-- How many of `n` bytes `stream_flush_out(s, size)` is after. -/
def flushSize (size : ℤ) (n : ℕ) : ℕ := if 0 < size ∧ size ≤ n then size.toNat else n

theorem flushSize_le (size : ℤ) (n : ℕ) : flushSize size n ≤ n := by
  unfold flushSize
  split_ifs <;> omega

/-- `stream_flush_out` runs its loop, for as many bytes as it is after. -/
theorem streamFlushOut_spec (hP : P.Ok) (H : s.inBuf.Holds P q) (hsock : 0 ≤ s.serverSock)
    {size : ℤ} (hsize : IsInt size) (writes : List WriteResult) :
    ∃ res, streamFlushOut s size writes P = .ok res ∧
      Wrote s P q 0 (flushSize size q.length) writes res.calls res := by
  obtain ⟨hlow, hhigh⟩ := hsize
  have hlen := H.length
  have hint : toInt (bufDataSize s.inBuf) = (q.length : ℤ) := by
    obtain ⟨e, hl, H'⟩ := id H
    have := H'.le_capacity
    have := hP.capacity_le hl
    have hmax : maxExtMemBlock = 2 ^ 20 := by norm_num [maxExtMemBlock]
    unfold toInt bufDataSize
    rw [Int.bmod_eq_of_le (by omega) (by omega)]
    omega
  -- the comparison with a `size_t` only matters for a positive size
  have hsz : 0 < size → toSize size = size.toNat := fun hpos => by
    rw [toSize, Int.emod_eq_of_lt hpos.le (by norm_num [sizeMod]; omega)]
  have hcur : (if bufDataSize s.inBuf < toSize size ∨ size ≤ 0 then toInt (bufDataSize s.inBuf)
      else size) = (flushSize size q.length : ℕ) := by
    rw [hint]
    unfold flushSize
    by_cases hpos : 0 < size
    · rw [hsz hpos, bufDataSize]
      split_ifs <;> omega
    · rw [if_pos (.inr (not_lt.1 hpos)), if_neg (fun h => hpos h.1)]
  obtain ⟨new, res, hrun, hcalls, hres⟩ :=
    flushLoop_spec hP H (flushSize_le size q.length) 0 [] writes
  refine ⟨res, ?_, ?_⟩
  · rw [streamFlushOut, if_neg (by omega)]
    simp only [hcur]
    exact hrun
  · rw [hcalls]
    exact hres

/-- `stream_flush_out(s, -1)` is after everything in `in_buf`. -/
theorem streamFlushOut_all (hP : P.Ok) (H : s.inBuf.Holds P q) (hsock : 0 ≤ s.serverSock)
    (writes : List WriteResult) :
    ∃ res, streamFlushOut s (-1) writes P = .ok res ∧
      Wrote s P q 0 q.length writes res.calls res := by
  have hall : flushSize (-1) q.length = q.length := by simp [flushSize]
  rw [← hall]
  exact streamFlushOut_spec hP H hsock ⟨by norm_num, by norm_num⟩ writes

/-- A stream with nothing to send is left as it is. -/
theorem streamFlushOut_empty (H : s.inBuf.Holds P []) (hsock : 0 ≤ s.serverSock)
    (writes : List WriteResult) : streamFlushOut s (-1) writes P = .ok ⟨0, s, P, []⟩ := by
  have h0 : s.inBuf.dataLen = 0 := by simpa using H.length.symm
  rw [streamFlushOut, if_neg (by omega)]
  simp only [or_true, if_true, bufDataSize, h0, show (-1 : ℤ) ≤ 0 by omega]
  cases writes <;> rfl

/-! ### Conservation -/

/-- What holds of one call of `stream_flush_out`, `in_buf` having stood for `q`: `write` took as
many bytes from the front of `q` as its answers `writes` say, what it took and what stays is `q`,
and the result is the number of bytes taken or that of a failed `write`, the last one that was
called. -/
structure Conserved (q : List UInt8) (size : ℤ) (writes : List WriteResult) (res : Flush) :
    Prop where
  handed : Handed q res.calls
  answers : accepted res.calls = q.take (writeTaken (flushSize size q.length) writes)
  split : ∃ rest, res.stream.inBuf.Holds res.pool rest ∧ accepted res.calls ++ rest = q
  taken : 0 ≤ res.ret → res.ret = (accepted res.calls).length ∧ res.ret ≤ q.length ∧
    (0 < size → res.ret ≤ size)
  failed : res.ret < 0 → res.ret = -1 ∧
    ∃ pre post, writes = pre ++ .error :: post ∧ res.calls.length = pre.length + 1

theorem Wrote.conserved {size : ℤ} {writes : List WriteResult} {res : Flush}
    (h : Wrote s P q 0 (flushSize size q.length) writes res.calls res) :
    Conserved q size writes res := by
  have hsize := flushSize_le size q.length
  have htaken := writeTaken_le (flushSize size q.length) writes
  have hresult := h.result
  refine ⟨h.handed, h.accepted, ⟨_, h.holds, ?_⟩, fun hret => ?_, fun hret => ?_⟩
  · rw [h.accepted, List.take_append_drop]
  · split_ifs at hresult
    · omega
    · rw [h.accepted, List.length_take, hresult, Nat.min_eq_left (htaken.trans hsize)]
      refine ⟨by omega, by omega, fun hpos => ?_⟩
      have hle : (flushSize size q.length : ℤ) ≤ size := by
        unfold flushSize
        split_ifs <;> omega
      omega
  · split_ifs at hresult with hfails
    · exact ⟨hresult, h.failed hfails⟩
    · omega

/-- A stream in use, and what was written from it. -/
structure Sending where
  stream : TcpStream
  pool : Pool
  sent : List UInt8

/-- What is done with it. -/
inductive SendOp
  | put (d : List UInt8)
  | flush (size : ℤ) (writes : List WriteResult)

/-- The bytes that are put into `in_buf`. -/
def SendOp.data : SendOp → List UInt8
  | .put d => d
  | .flush _ _ => []

namespace Sending

/-- `buf_put` to `in_buf`, or `stream_flush_out` -/
def step (x : Sending) : SendOp → Except Fault Sending
  | .put d => do
    let (_, b, P) ← bufPut d x.stream.inBuf x.pool
    return { x with stream := { x.stream with inBuf := b }, pool := P }
  | .flush size writes => do
    let f ← streamFlushOut x.stream size writes x.pool
    return ⟨f.stream, f.pool, x.sent ++ accepted f.calls⟩

/-- The buffer does not outgrow the largest block, and a size is an `int`. -/
def Allowed (x : Sending) : SendOp → Prop
  | .put d => PutFits d x.stream.inBuf
  | .flush size _ => IsInt size

/-- What was sent and what is in `in_buf` is `total`. -/
structure Sends (x : Sending) (total : List UInt8) : Prop where
  ok : x.pool.Ok
  sock : 0 ≤ x.stream.serverSock
  split : ∃ rest, x.stream.inBuf.Holds x.pool rest ∧ x.sent ++ rest = total

variable {x : Sending} {total : List UInt8}

theorem step_sends (h : x.Sends total) {op : SendOp} (hop : x.Allowed op) :
    ∃ y, x.step op = .ok y ∧ y.Sends (total ++ op.data) := by
  obtain ⟨rest, H, htotal⟩ := h.split
  cases op with
  | put d =>
    obtain ⟨b, P, hrun, hP, H', -⟩ := bufPut_spec h.ok H hop
    refine ⟨{ x with stream := { x.stream with inBuf := b }, pool := P }, by simp [step, hrun], hP,
      h.sock, rest ++ d, H', ?_⟩
    rw [← List.append_assoc, htotal, SendOp.data]
  | flush size writes =>
    obtain ⟨f, hrun, hf⟩ := streamFlushOut_spec h.ok H h.sock hop writes
    obtain ⟨rest', H', hsplit⟩ := hf.conserved.split
    refine ⟨⟨f.stream, f.pool, x.sent ++ accepted f.calls⟩, by simp [step, hrun], hf.ok, ?_,
      rest', H', ?_⟩
    · rw [hf.stream]
      exact h.sock
    · rw [List.append_assoc, hsplit, htotal, SendOp.data, List.append_nil]

theorem run_sends (h : x.Sends total) {ops : List SendOp} (hops : Steps step Allowed x ops) :
    ∃ y, run step x ops = .ok y ∧ y.Sends (total ++ ops.flatMap SendOp.data) := by
  induction ops generalizing x total with
  | nil => exact ⟨x, rfl, by simpa using h⟩
  | cons op ops ih =>
    obtain ⟨y, hy, hsends⟩ := step_sends h hops.1
    obtain ⟨z, hz, hsends'⟩ := ih hsends (hops.2 y hy)
    refine ⟨z, by rw [run_cons_ok hy, hz], ?_⟩
    rwa [List.append_assoc, ← List.flatMap_cons] at hsends'

end Sending

/-- **`stream_flush_out` loses and duplicates nothing**, in one call and over any number of calls
with bytes put into `in_buf` between them: what was sent and what is in `in_buf` is all that was
ever put there, in order. -/
theorem streamFlushOut_conserves (hP : P.Ok) (H : s.inBuf.Holds P q) (hsock : 0 ≤ s.serverSock) :
    (∀ size writes, IsInt size → ∃ res, streamFlushOut s size writes P = .ok res ∧
      Conserved q size writes res) ∧
    ∀ ops, Steps Sending.step Sending.Allowed ⟨s, P, []⟩ ops →
      ∃ x rest, run Sending.step ⟨s, P, []⟩ ops = .ok x ∧ x.stream.inBuf.Holds x.pool rest ∧
        x.sent ++ rest = q ++ ops.flatMap SendOp.data := by
  constructor
  · intro size writes hsize
    obtain ⟨res, hrun, hres⟩ := streamFlushOut_spec hP H hsock hsize writes
    exact ⟨res, hrun, hres.conserved⟩
  · intro ops hops
    obtain ⟨x, hrun, hx⟩ := Sending.run_sends (x := ⟨s, P, []⟩) ⟨hP, hsock, q, H, rfl⟩ hops
    obtain ⟨rest, H', hsplit⟩ := hx.split
    exact ⟨x, rest, hrun, H', hsplit⟩

/-- A new stream on descriptor 5, with three bytes put into it and one of them taken. -/
theorem streamFlushOut_conserves_three :
    ∃ s P x rest, streamCreate 5 (memModuleInit fun _ _ => 0) = .ok (s, P) ∧
      run Sending.step ⟨s, P, []⟩ [.put [1, 2, 3], .flush 2 [.accept 0, .eagain]] = .ok x ∧
      x.stream.inBuf.Holds x.pool rest ∧ x.sent ++ rest = [1, 2, 3] := by
  obtain ⟨s, P, hs, hcreated⟩ := streamCreate_spec (memModuleInit_ok fun _ _ => 0) 5
  have hput : Sending.Allowed ⟨s, P, []⟩ (.put [1, 2, 3]) := fun _ => by
    show s.inBuf.bufLen + 3 ≤ maxExtMemBlock
    rw [hcreated.inLen]
    decide
  have hops : Steps Sending.step Sending.Allowed ⟨s, P, []⟩
      [.put [1, 2, 3], .flush 2 [.accept 0, .eagain]] :=
    ⟨hput, fun _ _ => ⟨⟨by norm_num, by norm_num⟩, fun _ _ => trivial⟩⟩
  obtain ⟨x, rest, hrun, H, hsplit⟩ := (streamFlushOut_conserves hcreated.extends_.ok hcreated.inBuf
    (by rw [hcreated.sock]; norm_num)).2 _ hops
  exact ⟨s, P, x, rest, hs, hrun, H, hsplit⟩

end Jujube
