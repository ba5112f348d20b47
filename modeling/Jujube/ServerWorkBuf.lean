import Jujube.ServerFraming

/-!
# How large `work_buf` gets

`buf_put` grows a buffer by all of a chunk that does not fit.  The body of a frame fits as long as
it is not longer than announced, and once it is `reply_body_size_left` is negative and nothing is
collected any more: `work_buf` is moved once at most, to a block that `mem_alloc` has
(`server_workBuf_bounded`).
-/

namespace Jujube

open Bytes Pool Transition

/-- What holds of `work_buf` on a connection whose peer has sent these bytes. -/
structure Server.WorkBufBounded (c : Server) (bytes : List UInt8) : Prop where
  /-- it is moved at most once -/
  once : c.workReallocs ≤ 1
  /-- and only for bytes behind the body that was announced -/
  behind : 0 < c.workReallocs → 8 + ofLe (bytes.take 8) < bytes.length
  /-- the length announced is `content_len` -/
  content : ∀ s w, c.stream = some s → s.workBuf = some w → s.contentLen = ofLe (bytes.take 8)
  /-- as long as nothing came behind the body, it is as it was made -/
  room : ∀ s w, c.stream = some s → s.workBuf = some w → 0 ≤ s.replyBodySizeLeft →
    w.bufLen = logMaxLen ∧ (w.dataLen : ℤ) ≤ s.contentLen ∧ c.workReallocs = 0
  /-- and it is never larger than with one read more -/
  bound : ∀ s w, c.stream = some s → s.workBuf = some w → w.bufLen ≤ logMaxLen + midHttpBufSize

variable {P₀ : Pool} {c c' : Server} {es : List Event} {t : Decoder} {len : ℕ}
  {got held : List UInt8}

/-- What was collected was received behind the length. -/
theorem After.body_received {is : List Input} (h : After is (.body len got held)) :
    len = ofLe ((chunks is).flatten.take 8) ∧ len ≤ logMaxLen ∧
      8 + got.length ≤ (chunks is).flatten.length := by
  obtain ⟨-, cs, hcs, hopen, hlen, hgot, -⟩ := h
  have h8 := hopen.length_le
  refine ⟨?_, ?_, ?_⟩
  · rw [hlen, ← announced_append hopen.first (chunk held), ← hcs]
    rfl
  · rw [hlen]
    exact hopen.valid.2
  · rw [hcs, List.flatten_append, List.length_append, hgot, List.length_drop]
    omega

theorem received_append (es fs : List Event) :
    received (es ++ fs) = received es ++ received fs := by
  rw [received, received, received, readsOf, List.flatMap_append, List.flatten_append]
  rfl

theorem received_eq (es : List Event) :
    received es = (chunks (es.map Event.input)).flatten := by
  rw [received, readsOf_eq]

/-- `work_buf` was moved for bytes behind the body: this is known while the connection is open, and
closing it moves nothing. -/
theorem Server.reallocs_behind (hc : c.Accepted P₀) (hrun : c.run es = .ok c') :
    0 < c'.workReallocs → 8 + ofLe ((received es).take 8) < (received es).length := by
  induction es using List.reverseRecOn generalizing c' with
  | nil =>
    cases hrun
    intro hpos
    cases hc.sim with
    | served quiet =>
      have htally : c.tally = (0, 0) := quiet.tally
      exact absurd (Prod.mk.inj htally).2 hpos.ne'
  | append_singleton es e ih =>
    obtain ⟨c₁, hrun₁, hstep⟩ := run_concat_ok.1 hrun
    rcases Server.run_cases hc es with ⟨c₂, t, hrun₂, ht, hsim⟩ | ⟨hrun₂, -⟩
    swap
    · cases hrun₁.symm.trans hrun₂
    cases hrun₁.symm.trans hrun₂
    obtain ⟨x, hx, hm⟩ := Server.step_spec hsim e
    cases (hx rejectFrame).symm.trans hstep
    cases ht' : t.step e.input with
    | error _ => rw [ht'] at hm; cases hm
    | ok t' =>
      rw [ht'] at hm
      cases hm with
      | ok hstepSim =>
        have hafter : After ((es ++ [e]).map Event.input) t' := by
          rw [List.map_append]
          exact (after_run ht).step ht'
        intro hpos
        by_cases hclosed : t'.IsClosed
        · rw [hstepSim.unmoved hclosed] at hpos
          have hbefore := ih hrun₁ hpos
          rw [received_append, List.take_append_of_le_length (by omega), List.length_append]
          omega
        · cases hstepSim.sim with
          | closed => exact absurd trivial hclosed
          | served quiet hopen hfits =>
            cases t' with
            | header held =>
              exact absurd (Prod.mk.inj quiet.tally).2 hpos.ne'
            | body len got held =>
              obtain ⟨hlen, hmax, hrec⟩ := hafter.body_received
              have hlong : logMaxLen < got.length := by
                by_contra hshort
                have htally := quiet.tally
                rw [Decoder.tally_body (not_lt.1 hshort)] at htally
                exact absurd (Prod.mk.inj htally).2 hpos.ne'
              rw [received_eq, ← hlen]
              omega
            | closed r => exact absurd trivial hclosed

/-- What the state of a connection says about `work_buf`. -/
theorem Server.workBufBounded_of_run (hc : c.Accepted P₀) (hrun : c.run es = .ok c') :
    c'.WorkBufBounded (received es) := by
  rcases Server.run_cases hc es with ⟨c₁, t, hrun₁, ht, hsim⟩ | ⟨hrun₁, -⟩
  swap
  · cases hrun.symm.trans hrun₁
  cases hrun.symm.trans hrun₁
  have hbehind := Server.reallocs_behind hc hrun
  cases hsim with
  | closed hclosed _ honce =>
    refine ⟨honce.2, hbehind, ?_, ?_, ?_⟩ <;>
    · intro s w hs
      rw [hclosed.stream] at hs
      cases hs
  | @served t s got quiet hopen hfits =>
    have honce : c'.tally ≤ (1, 1) := quiet.tally ▸ t.tally_le
    cases t with
    | closed r => exact absurd hfits id
    | header held =>
      obtain ⟨-, hwait⟩ := hfits
      refine ⟨honce.2, hbehind, ?_, ?_, ?_⟩ <;>
      · intro s' w hs hw
        cases hs.symm.trans hopen.stream
        rw [hwait.workBuf] at hw
        cases hw
    | body len got' held =>
      obtain ⟨rfl, -, v, hcounts⟩ := hfits
      obtain ⟨hlen, hmax, -⟩ := (after_run ht).body_received
      rw [← received_eq] at hlen
      -- the stream and the buffer are those of the simulation
      have hself : ∀ s' w, c'.stream = some s' → s'.workBuf = some w → s' = s ∧ w = v := by
        intro s' w hs hw
        cases hs.symm.trans hopen.stream
        cases hw.symm.trans hcounts.workBuf
        exact ⟨rfl, rfl⟩
      refine ⟨honce.2, hbehind, ?_, ?_, ?_⟩
      · intro s' w hs hw
        obtain ⟨rfl, rfl⟩ := hself s' w hs hw
        rw [hcounts.content, hlen]
      · intro s' w hs hw hleft
        obtain ⟨rfl, rfl⟩ := hself s' w hs hw
        rw [hcounts.left] at hleft
        have hgot : got.length ≤ len := by omega
        have hdata := (hopen.stands.carries.work w hcounts.workBuf).length
        refine ⟨hcounts.room hgot, ?_, ?_⟩
        · rw [hcounts.content]
          omega
        · have htally := quiet.tally
          rw [Decoder.tally_body (hgot.trans hmax)] at htally
          exact (Prod.mk.inj htally).2
      · intro s' w hs hw
        obtain ⟨rfl, rfl⟩ := hself s' w hs hw
        exact hcounts.bound

/-- **`work_buf` is bounded.**  For any bytes, any reads and any events: in every state of the run
it has its first size and holds no more than was announced, as long as `reply_body_size_left` is
not negative; it is moved at most once, for bytes behind the body, and never too large for
`mem_alloc`, whose assertions do not fail. -/
theorem server_workBuf_bounded (hc : c.Accepted P₀) (es : List Event) :
    (∀ pre c', pre <+: es → c.run pre = .ok c' → c'.WorkBufBounded (received pre)) ∧
      ∀ a, c.run es = .error a → a.fault = .assertFailed .serverOutBufEmpty := by
  refine ⟨fun pre c' _ hrun => Server.workBufBounded_of_run hc hrun, fun a ha => ?_⟩
  rcases Server.run_cases hc es with ⟨c', -, hrun, -⟩ | ⟨hrun, -⟩
  · cases ha.symm.trans hrun
  · cases ha.symm.trans hrun
    rfl

/-- A byte behind the frame, in the same read. -/
theorem server_workBuf_bounded_one :
    ∃ c, Server.Accepted (memModuleInit fun _ _ => 0) c ∧
      ∀ pre c', pre <+: frameAndByte → c.run pre = .ok c' → c'.WorkBufBounded (received pre) := by
  obtain ⟨c, hc⟩ := Server.exists_accepted (memModuleInit_ok fun _ _ => 0)
  exact ⟨c, hc, (server_workBuf_bounded hc frameAndByte).1⟩

end Jujube
