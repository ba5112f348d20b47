import Jujube.ClientRun

/-!
# `data_transfer` and the bytes of a frame

A transaction under way, and the events that are delivered to it until its stream is released.
`Transfer` logs what the calls of `write` take meanwhile.  A readable event gives the transaction up
at once, so that the bytes that are still queued are lost: `dataTransfer_delivers_iff`.
-/

namespace Jujube

open Bytes Pool Ownership Transition Client

/-- A client, and what the calls of `write` have taken from the stream of one of its slots. -/
structure Transfer where
  client : Client
  sent : List UInt8

/-- What the calls of `write` take when `data_transfer` is called for slot `i`. -/
def Client.written (i : ℕ) (e : Event) (w : Client) : List UInt8 :=
  let flush : Except Fault Flush := do
    let (_, c) ← w.conn (w.gEvents i).jc
    let s ← w.stream c.stream
    streamFlushOut s (-1) e.writes w.pool
  match flush with
  | .ok f => if e.writeEvent then accepted f.calls else []
  | .error _ => []

namespace Transfer

/-- `data_transfer` for slot `i` -/
def step (i : ℕ) (t : Transfer) (e : Event) : Except Fault Transfer := do
  let w ← t.client.dataTransfer i e
  return ⟨w, t.sent ++ t.client.written i e⟩

/-- An event for the stream `p`, which was not released, with a flag and without an error or the end
of the input. -/
structure Clean (p : Ptr) (t : Transfer) (e : Event) : Prop where
  live : t.client.pool.live p ≠ none
  flag : e.readEvent = true ∨ e.writeEvent = true
  writes : .error ∉ e.writes
  reads : .error ∉ e.reads ∧ .eof ∉ e.reads

/-- The stream `p`, which had `q` to send, is not released before all of it was sent. -/
def Delivered (p : Ptr) (q : List UInt8) (t : Transfer) : Prop :=
  t.client.pool.live p = none → t.sent = q

/-- A readable event comes with a writable one, and the calls of `write` take all that the stream
`p` still has to send. -/
def ReadsLast (p : Ptr) (t : Transfer) (e : Event) : Prop :=
  e.readEvent = true → ∀ s, t.client.streams p = some s →
    e.writeEvent = true ∧ writeTaken (bufDataSize s.inBuf) e.writes = bufDataSize s.inBuf

/-- The stream `p` was released, or slot `i` still has the rest of `q` to send. -/
def Sends (i : ℕ) (p : Ptr) (q : List UInt8) (t : Transfer) : Prop :=
  t.client.pool.live p = none ∨ ∃ (x : Transaction) (r : List UInt8), x.stream.self = p ∧
    x.Serves i t.client ∧ x.stream.Carries t.client.pool r [] [] ∧ t.client.pool.Ok ∧
    t.sent ++ r = q

variable {i : ℕ} {p : Ptr} {q r : List UInt8} {t : Transfer} {w : Client} {x : Transaction}
  {e : Event}

theorem written_eq (h : x.Attached i w) (hcarries : x.stream.Carries w.pool r [] [])
    (hP : w.pool.Ok) (e : Event) :
    w.written i e = if e.writeEvent then r.take (writeTaken r.length e.writes) else [] := by
  obtain ⟨f, hflush, hf, -⟩ := h.flush hcarries hP e.writes
  simp only [Client.written, h.conn, h.fetchStream, ok_bind, hflush, hf.accepted]

/-- An event that leaves the transaction open: what the calls of `write` did not take is still
there. -/
theorem step_goes (hx : x.Serves i t.client) (hcarries : x.stream.Carries t.client.pool r [] [])
    (hP : t.client.pool.Ok) (he : e.LeavesOpen r.length) :
    ∃ (w' : Client) (y : Transaction),
      step i t e = .ok ⟨w', t.sent ++ r.take (writeTaken r.length e.writes)⟩ ∧ y.Serves i w' ∧
        y.stream.self = x.stream.self ∧ w'.pool.Ok ∧
        y.stream.Carries w'.pool (r.drop (writeTaken r.length e.writes)) [] [] := by
  obtain ⟨w', y, hrun, ⟨hw', -, hself, hcarries'⟩, -⟩ := Client.dataTransfer_goes hx hcarries hP he
  refine ⟨w', y, ?_, hw'.holds, hself, hw'.pool, hcarries'⟩
  rw [step, hrun, ok_bind, pure_eq_ok, written_eq hx.toAttached hcarries hP e, if_pos he.2.1]

/-- Any other event: the stream is released. -/
theorem step_ends (hx : x.Serves i t.client) (hcarries : x.stream.Carries t.client.pool r [] [])
    (hP : t.client.pool.Ok) (he : ¬ e.LeavesOpen r.length) :
    ∃ w', step i t e = .ok ⟨w', t.sent ++ t.client.written i e⟩ ∧
      w'.pool.live x.stream.self = none := by
  obtain ⟨w', hrun, hw'⟩ := Client.dataTransfer_ends hx hcarries hP he
  exact ⟨w', by rw [step, hrun, ok_bind, pure_eq_ok], hw'.released⟩

/-- What was taken is the rest exactly when the calls of `write` took all of it. -/
theorem written_eq_iff (hx : x.Serves i t.client)
    (hcarries : x.stream.Carries t.client.pool r [] []) (hP : t.client.pool.Ok) :
    t.client.written i e = r ↔ e.writeEvent = true ∧ writeTaken r.length e.writes = r.length := by
  have hle := writeTaken_le r.length e.writes
  have hpos : 0 < r.length := by
    obtain ⟨q', hq', hcarries'⟩ := hx.carries
    rw [hcarries.inBuf.length, ← hcarries'.inBuf.length]
    exact List.length_pos_of_ne_nil hq'
  rw [written_eq hx.toAttached hcarries hP]
  by_cases hwrite : e.writeEvent = true
  · rw [if_pos hwrite, List.take_eq_self_iff]
    exact ⟨fun hall => ⟨hwrite, by omega⟩, fun h => h.2.ge⟩
  · rw [if_neg hwrite]
    constructor
    · rintro rfl
      exact absurd hpos (lt_irrefl 0)
    · exact fun h => absurd h.1 hwrite

/-- **One event** does not fault; the stream is released too early exactly when the event is
readable and something is left to send. -/
theorem step_sends (h : Sends i p q t) (he : Clean p t e) :
    ∃ t', step i t e = .ok t' ∧ Sends i p q t' ∧ (Delivered p q t' ↔ ReadsLast p t e) := by
  rcases h with hdead | ⟨x, r, rfl, hx, hcarries, hP, hsplit⟩
  · exact absurd hdead he.live
  have hlast : ReadsLast x.stream.self t e ↔ (e.readEvent = true →
      e.writeEvent = true ∧ writeTaken r.length e.writes = r.length) := by
    simp only [ReadsLast, hx.stream, Option.some.injEq, forall_eq', bufDataSize,
      ← hcarries.inBuf.length]
  rw [hlast]
  by_cases hopen : e.LeavesOpen r.length
  · obtain ⟨w', y, hrun, hy, hself, hP', hcarries'⟩ := step_goes hx hcarries hP hopen
    have hlive : w'.pool.live x.stream.self ≠ none :=
      hself ▸ hy.owned.live _ y.stream.self_mem_footprint
    refine ⟨_, hrun, .inr ⟨y, _, hself, hy, hcarries', hP', ?_⟩, fun _ hread => ?_,
      fun _ hdead => absurd hdead hlive⟩
    · rw [List.append_assoc, List.take_append_drop, hsplit]
    · rw [hopen.1] at hread
      cases hread
  · obtain ⟨w', hrun, hdead⟩ := step_ends hx hcarries hP hopen
    refine ⟨_, hrun, .inl hdead, ?_⟩
    have hsent : Delivered x.stream.self q ⟨w', t.sent ++ t.client.written i e⟩ ↔
        t.client.written i e = r := by
      rw [← hsplit]
      exact ⟨fun hd => List.append_cancel_left (hd hdead), fun hr _ => congrArg _ hr⟩
    rw [hsent, written_eq_iff hx hcarries hP]
    refine ⟨fun hall _ => hall, fun hall => ?_⟩
    by_cases hread : e.readEvent = true
    · exact hall hread
    · -- a write that leaves nothing
      have hwrite : e.writeEvent = true := he.flag.resolve_left hread
      have hle := writeTaken_le r.length e.writes
      refine ⟨hwrite, le_antisymm hle (not_lt.1 fun hlt => hopen ⟨?_, hwrite, ?_, hlt⟩)⟩
      · simpa using hread
      · exact writeFails_eq_false he.writes _

/-- Runs of events for one transaction. -/
theorem run_delivers_iff (hx : x.Serves i w) (hcarries : x.stream.Carries w.pool q [] [])
    (hP : w.pool.Ok) {es : List Event} (hes : Steps (step i) (Clean x.stream.self) ⟨w, []⟩ es) :
    (∃ t, run (step i) ⟨w, []⟩ es = .ok t) ∧
      (Along (step i) (Delivered x.stream.self q) ⟨w, []⟩ es ↔
        Steps (step i) (ReadsLast x.stream.self) ⟨w, []⟩ es) := by
  have hI : ∀ t e, Sends i x.stream.self q t → Clean x.stream.self t e →
      ∃ t', step i t e = .ok t' ∧ Sends i x.stream.self q t' := by
    intro t e h he
    obtain ⟨t', hrun, h', -⟩ := step_sends h he
    exact ⟨t', hrun, h'⟩
  have hinit : Sends i x.stream.self q ⟨w, []⟩ := .inr ⟨x, q, rfl, hx, hcarries, hP, rfl⟩
  have hlive : w.pool.live x.stream.self ≠ none := hx.owned.live _ x.stream.self_mem_footprint
  refine ⟨?_, along_iff_steps hI ?_ hinit (fun hdead => absurd hdead hlive) hes⟩
  · obtain ⟨t, hrun, -⟩ := exists_run hI hinit hes
    exact ⟨t, hrun⟩
  · intro t e t' h _ he hrun
    obtain ⟨t'', hrun', -, hiff⟩ := step_sends h he
    cases hrun.symm.trans hrun'
    exact hiff

variable {raw : Ptr → Memory} {opened : Finset ℤ} {rd wr : ℤ} {ops : List ClientOp}

/-- **When a frame is sent before its stream is released.**  A transaction under way, in any state
that the client comes to, and any events for it without an error: no stream is released before all
that it had to send was taken by `write`, exactly when no readable event comes while something is
left to send. -/
theorem dataTransfer_delivers_iff
    (hops : Steps Client.step Client.Allowed (Client.init raw opened rd wr) ops)
    (hrun : run Client.step (Client.init raw opened rd wr) ops = .ok w)
    (hi : (w.gEvents i).status = 1) :
    ∃ (x : Transaction) (q : List UInt8), x.Serves i w ∧ x.stream.Carries w.pool q [] [] ∧ q ≠ [] ∧
      ∀ es, Steps (step i) (Clean x.stream.self) ⟨w, []⟩ es →
        (∃ t, run (step i) ⟨w, []⟩ es = .ok t) ∧
          (Along (step i) (Delivered x.stream.self q) ⟨w, []⟩ es ↔
            Steps (step i) (ReadsLast x.stream.self) ⟨w, []⟩ es) := by
  obtain ⟨w', hrun', T, h⟩ := exists_run Client.step_keeps (Client.init_table raw opened rd wr) hops
  cases hrun.symm.trans hrun'
  obtain ⟨x, hT⟩ := h.status_iff.1 hi
  have hx := h.serves hT
  obtain ⟨q, hq, hcarries⟩ := hx.carries
  exact ⟨x, q, hx, hcarries, hq, fun es hes => run_delivers_iff hx hcarries h.sound.pool hes⟩

theorem dataTransfer_delivers_iff_first :
    ∃ w, run Client.step fresh [.create (entryOfLen 512) dialFive] = .ok w ∧
      ∃ (x : Transaction) (q : List UInt8), x.Serves 0 w ∧ x.stream.Carries w.pool q [] [] ∧
        q ≠ [] ∧ ∀ es, Steps (step 0) (Clean x.stream.self) ⟨w, []⟩ es →
          (∃ t, run (step 0) ⟨w, []⟩ es = .ok t) ∧
            (Along (step 0) (Delivered x.stream.self q) ⟨w, []⟩ es ↔
              Steps (step 0) (ReadsLast x.stream.self) ⟨w, []⟩ es) := by
  obtain ⟨w, -, hcreate, -, hstatus, -⟩ := fresh_createTransaction 512
  have hstep : fresh.step (.create (entryOfLen 512) dialFive) = .ok w := hcreate
  have hrun : run Client.step fresh [.create (entryOfLen 512) dialFive] = .ok w := by
    rw [run_cons_ok hstep, run_nil]
  have hops : Steps Client.step Client.Allowed fresh [.create (entryOfLen 512) dialFive] :=
    ⟨dialFive_allowed, fun _ _ => trivial⟩
  exact ⟨w, hrun, dataTransfer_delivers_iff hops hrun hstatus⟩

/-- The server says something. -/
def answer : Event := ⟨true, false, [.data ⟨[65], by simp, by norm_num [midHttpBufSize]⟩], [], 3⟩

/-- The server says something after 100 of 520 bytes, and the stream is released with the rest. -/
theorem answer_loses_rest :
    ∃ (w : Client) (x : Transaction) (q : List UInt8) (t : Transfer),
      Steps Client.step Client.Allowed fresh frameQueued ∧
      run Client.step fresh frameQueued = .ok w ∧ x.Serves 0 w ∧
      (w.gEvents 0).callBack = some .dataTransfer ∧ x.stream.Carries w.pool q [] [] ∧
      Steps (step 0) (Clean x.stream.self) ⟨w, []⟩ [partialWrite, answer] ∧
      run (step 0) ⟨w, []⟩ [partialWrite, answer] = .ok t ∧
      t.client.pool.live x.stream.self = none ∧ q.length = 520 ∧ t.sent.length = 100 := by
  obtain ⟨w, x, q, hsteps, hrun, hP, hx, hcb, hcarries, hlen⟩ := frameQueued_run
  have htaken : writeTaken 520 [.accept 99, .eagain] = 100 := by decide
  have hopen : partialWrite.LeavesOpen q.length := by
    rw [hlen]
    decide
  obtain ⟨w₁, y, hstep₁, hy, hself, hP₁, hcarries₁⟩ :=
    step_goes (t := ⟨w, []⟩) hx hcarries hP hopen
  have hclosed : ∀ n, ¬ answer.LeavesOpen n := fun n h => by cases h.1
  obtain ⟨w₂, hstep₂, hdead⟩ := step_ends (t := ⟨w₁, _⟩) hy hcarries₁ hP₁ (hclosed _)
  rw [hself] at hdead
  have hlive : w.pool.live x.stream.self ≠ none := hx.owned.live _ x.stream.self_mem_footprint
  have hlive₁ : w₁.pool.live x.stream.self ≠ none :=
    hself ▸ hy.owned.live _ y.stream.self_mem_footprint
  have hwritten : w₁.written 0 answer = [] := by
    rw [written_eq hy.toAttached hcarries₁ hP₁]
    rfl
  refine ⟨w, x, q, _, hsteps, hrun, hx, hcb, hcarries, ⟨⟨hlive, ?_, ?_, ?_⟩, ?_⟩,
    by rw [run_cons_ok hstep₁, run_cons_ok hstep₂, run_nil], hdead, hlen, ?_⟩
  · exact .inr rfl
  · simp [partialWrite]
  · simp [partialWrite]
  · intro t ht
    cases hstep₁.symm.trans ht
    exact ⟨⟨hlive₁, .inl rfl, by simp [answer], by simp [answer]⟩, fun _ _ => trivial⟩
  · rw [hwritten, List.append_nil, List.nil_append, List.length_take, hlen]
    exact htaken ▸ rfl

end Transfer

end Jujube
