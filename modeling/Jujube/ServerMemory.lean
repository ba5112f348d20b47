import Jujube.PoolGrowth
import Jujube.ServerResources

/-!
# How much memory the server gets

The pool gives nothing back to the system, so what the server has got from `malloc` is what its
connections held at the worst moment.  A connection holds the blocks of its stream, those of
`work_buf`, and, when more than a frame was received, the one that `work_buf` is moved to
(`connBlocks`).  There are at most `MAX_EVENTS` connections at a time, however many come and go
(`server_memory`).
-/

namespace Jujube

open Bytes Pool Ownership Transition

/-- The blocks that `alloc_work_buff` takes. -/
def workBlocks : ℕ → ℕ :=
  Pi.single (sizeClass sizeofBuf) 1 + Pi.single (sizeClass logMaxLen) 1

/-- The blocks that `work_buf` may be moved to. -/
def movedBlocks : ℕ → ℕ :=
  Pi.single (sizeClass midHttpBufSize) 1 + Pi.single (sizeClass (logMaxLen + midHttpBufSize)) 1

/-- What a connection holds of each class at the most. -/
def connBlocks : ℕ → ℕ := streamBlocks + (workBlocks + movedBlocks)

example : (List.range memTypeMax).map connBlocks =
    [0, 3, 0, 0, 1, 0, 0, 0, 0, 1, 0, 1, 2, 1, 0, 0, 0] := by decide

/-- The bytes of the blocks of a connection. -/
theorem sum_connBlocks :
    ∑ i ∈ Finset.range memTypeMax, connBlocks i * blockSize i = 303456 := by decide

/-- The blocks of the stream of a connection. -/
def TcpStream.Held (P : Pool) (s : TcpStream) : Prop :=
  s.Sized logMaxLen (logMaxLen + midHttpBufSize) P

/-- `work_buf` is moved to a block of one of two classes. -/
theorem single_le_movedBlocks {size : ℕ} (hlt : logMaxLen < size)
    (hle : size ≤ logMaxLen + midHttpBufSize) : Pi.single (sizeClass size) 1 ≤ movedBlocks := by
  have hmid : sizeClass midHttpBufSize = 12 := by decide
  have hmost : sizeClass (logMaxLen + midHttpBufSize) = 13 := by decide
  have hsize : sizeClass size = 12 ∨ sizeClass size = 13 := by
    have hlt' : 32768 < size := hlt
    have hle' : size ≤ 98304 := hle
    by_cases hsmall : size ≤ 65536
    · refine .inl ((sizeClass_eq_iff (by decide)).2 ⟨?_, fun j hj => ?_⟩)
      · rw [blockSize_eq]
        omega
      · rw [blockSize_eq]
        have hpow : 2 ^ (j + 4) ≤ 2 ^ 15 := Nat.pow_le_pow_right (by norm_num) (by omega)
        omega
    · refine .inr ((sizeClass_eq_iff (by decide)).2 ⟨?_, fun j hj => ?_⟩)
      · rw [blockSize_eq]
        omega
      · rw [blockSize_eq]
        have hpow : 2 ^ (j + 4) ≤ 2 ^ 16 := Nat.pow_le_pow_right (by norm_num) (by omega)
        omega
  unfold movedBlocks
  rw [hmid, hmost]
  rcases hsize with hsize | hsize
  · rw [hsize]
    exact le_self_add
  · rw [hsize]
    exact le_add_self

/-! ### One connection -/

/-- An operation of a connection took no more than `n`, and the connection holds no more than it
may. -/
structure Server.Grown (n : ℕ → ℕ) (c c' : Server) : Prop where
  pool : c.pool.Grows n c'.pool
  held : ∀ s, c'.stream = some s → s.Held c'.pool

section Connection

variable {c c₁ c' : Server} {s : TcpStream} {n m : ℕ → ℕ} {r : ℤ} {x : Bool × Server}

theorem Server.Grown.trans (h : Server.Grown n c c₁) (h' : Server.Grown m c₁ c') :
    Server.Grown (n + m) c c' :=
  ⟨h.pool.trans h'.pool, h'.held⟩

theorem Server.Grown.trans_zero (h : Server.Grown n c c₁) (h' : Server.Grown 0 c₁ c') :
    Server.Grown n c c' :=
  ⟨h.pool.trans_zero h'.pool, h'.held⟩

theorem Server.Grown.mono (h : Server.Grown n c c') (hnm : n ≤ m) : Server.Grown m c c' :=
  ⟨h.pool.mono hnm, h.held⟩

theorem closeStream_grows {i : ℕ} {ev ev' : MyEvent} {K K' : Kernel} {P P' : Pool} (hP : P.Ok)
    (h : closeStream i s ev K P = .ok (ev', K', P')) : P.Grows 0 P' := by
  unfold closeStream at h
  obtain ⟨P₁, hfree, h⟩ := bind_eq_ok.1 h
  cases h
  exact memFreeStream_grows hP hfree

theorem Server.closeStream_grown (hP : c.pool.Ok) (h : c.closeStream = .ok c') :
    Server.Grown 0 c c' := by
  unfold Server.closeStream at h
  obtain ⟨s, -, h⟩ := bind_eq_ok.1 h
  obtain ⟨⟨ev, K, P⟩, hclose, h⟩ := bind_eq_ok.1 h
  cases h
  exact ⟨closeStream_grows hP (Server.call_eq_ok.1 hclose), by rintro s ⟨⟩⟩

theorem Server.clearOutBuf_grown (hP : c.pool.Ok) (hs : ∀ s, c.stream = some s → s.Held c.pool)
    (h : c.clearOutBuf = .ok c') : Server.Grown 0 c c' := by
  unfold Server.clearOutBuf at h
  obtain ⟨s, hstream, h⟩ := bind_eq_ok.1 h
  obtain ⟨⟨b, P⟩, hclear, h⟩ := bind_eq_ok.1 h
  cases h
  obtain ⟨hgrows, rfl⟩ := clearSpace_grows hP (Server.call_eq_ok.1 hclear)
  have hheld := (hs s (fetch_eq_ok.1 (Server.call_eq_ok.1 hstream))).of_kept hgrows.kept
  refine ⟨hgrows, ?_⟩
  rintro s' ⟨⟩
  exact { hheld with }

theorem rejectFrame_grown (hP : c.pool.Ok) (hs : ∀ s, c.stream = some s → s.Held c.pool)
    (h : rejectFrame c = .ok c') : Server.Grown 0 c c' := by
  obtain ⟨c₁, h₁, h⟩ := bind_eq_ok.1 h
  have hclear := Server.clearOutBuf_grown hP hs h₁
  exact hclear.trans_zero (Server.closeStream_grown hclear.pool.ok h)

/-- `collect_data` moves `work_buf` at the most. -/
theorem collectData_grown (hP : c.pool.Ok) (hstream : c.stream = some s) (hs : s.Held c.pool)
    (hout : s.outBuf.dataLen ≤ midHttpBufSize) (hw : ∀ w, s.workBuf = some w → w.bufLen = logMaxLen)
    (h : collectData rejectFrame c = .ok (r, c')) : Server.Grown movedBlocks c c' := by
  unfold collectData at h
  obtain ⟨s', hs', h⟩ := bind_eq_ok.1 h
  cases (fetch_eq_ok.1 (Server.call_eq_ok.1 hs')).symm.trans hstream
  obtain ⟨w, hderef, h⟩ := bind_eq_ok.1 h
  obtain ⟨d, hload, h⟩ := bind_eq_ok.1 h
  obtain ⟨⟨r', w', P⟩, hput, h⟩ := bind_eq_ok.1 h
  obtain ⟨c₁, h₁, h⟩ := bind_eq_ok.1 h
  have hwork : s.workBuf = some w := deref_eq_ok.1 (Server.call_eq_ok.1 hderef)
  have hlen : d.length = s.outBuf.dataLen := length_load (Server.call_eq_ok.1 hload)
  have hmoved : c.pool.Grows movedBlocks P ∧ P.MadeFor (sizeClass sizeofBuf) w'.self ∧
      ∃ size, logMaxLen ≤ size ∧ size ≤ logMaxLen + midHttpBufSize ∧
        P.MadeFor (sizeClass size) w'.buffer := by
    have hself := hs.workBuf w hwork
    rcases bufPut_grows hP (Server.call_eq_ok.1 hput) with
      ⟨hfits, hgrows, hself', hmade⟩ | ⟨hgrows, hself', hbuffer⟩
    · have hsize : sizeAdd w.bufLen d.length = logMaxLen + d.length := by
        rw [hw w hwork]
        refine Nat.mod_eq_of_lt ?_
        have hsmall : logMaxLen + midHttpBufSize < sizeMod := by decide
        omega
      rw [hsize] at hgrows hmade
      have hlt : logMaxLen < logMaxLen + d.length := by omega
      have hle : logMaxLen + d.length ≤ logMaxLen + midHttpBufSize := by omega
      refine ⟨hgrows.mono (single_le_movedBlocks hlt hle), ?_, _, hlt.le, hle, hmade⟩
      rw [hself']
      exact hgrows.kept _ _ hself
    · obtain ⟨size, hleast, hmost, hmade⟩ := hs.workData w hwork
      refine ⟨hgrows.mono zero_le, hself' ▸ hgrows.kept _ _ hself, size, hleast, hmost, ?_⟩
      rw [hbuffer]
      exact hgrows.kept _ _ hmade
  obtain ⟨hgrows, hself, hdata⟩ := hmoved
  have hclear := Server.clearOutBuf_grown hgrows.ok (fun s' hs' => ?_) h₁
  · have hcollect : Server.Grown movedBlocks c c₁ :=
      ⟨hgrows.trans_zero hclear.pool, hclear.held⟩
    split_ifs at h
    · obtain ⟨c₂, h₂, h⟩ := bind_eq_ok.1 h
      cases h
      exact hcollect.trans_zero (rejectFrame_grown hcollect.pool.ok hcollect.held h₂)
    · cases h
      exact hcollect
    · cases h
      exact hcollect
  · cases hs'
    have hheld := hs.of_kept hgrows.kept
    exact {
      hheld with
      workBuf := by rintro _ ⟨⟩; exact hself
      workData := by rintro _ ⟨⟩; exact hdata }

theorem doWork_grown (hP : c.pool.Ok) (hs : ∀ s, c.stream = some s → s.Held c.pool)
    (h : doWork c = .ok c') : Server.Grown 0 c c' := by
  unfold doWork at h
  obtain ⟨s, -, h⟩ := bind_eq_ok.1 h
  obtain ⟨w, -, h⟩ := bind_eq_ok.1 h
  obtain ⟨e, -, h⟩ := bind_eq_ok.1 h
  cases h
  exact ⟨.refl hP, hs⟩

theorem collectStage_grown (hP : c.pool.Ok) (hstream : c.stream = some s) (hs : s.Held c.pool)
    (hout : s.outBuf.dataLen ≤ midHttpBufSize) (hw : ∀ w, s.workBuf = some w → w.bufLen = logMaxLen)
    (h : collectStage rejectFrame c = .ok x) : Server.Grown movedBlocks c x.2 := by
  unfold collectStage at h
  obtain ⟨⟨r, c₁⟩, h₁, h⟩ := bind_eq_ok.1 h
  have hcollect := collectData_grown hP hstream hs hout hw h₁
  dsimp only at h
  split_ifs at h
  · obtain ⟨c₂, h₂, h⟩ := bind_eq_ok.1 h
    obtain ⟨c₃, h₃, h⟩ := bind_eq_ok.1 h
    cases h
    have hwork := hcollect.trans_zero (doWork_grown hcollect.pool.ok hcollect.held h₂)
    have hclose := Server.closeStream_grown (c := { c₂ with qps := c₂.qps + 1 }) hwork.pool.ok h₃
    exact ⟨hwork.pool.trans_zero hclose.pool, hclose.held⟩
  · cases h
    exact hcollect

theorem allocWorkBuff_grows {P P' : Pool} {w : Buf} (hP : P.Ok)
    (h : allocWorkBuff P = .ok (w, P')) :
    P.Grows workBlocks P' ∧ w.bufLen = logMaxLen ∧ P'.MadeFor (sizeClass sizeofBuf) w.self ∧
      P'.MadeFor (sizeClass logMaxLen) w.buffer := by
  obtain ⟨⟨p₁, P₁⟩, h₁, h⟩ := bind_eq_ok.1 h
  obtain ⟨P₂, h₂, h⟩ := bind_eq_ok.1 h
  obtain ⟨⟨p₃, P₃⟩, h₃, h⟩ := bind_eq_ok.1 h
  obtain ⟨P₄, h₄, h⟩ := bind_eq_ok.1 h
  cases h
  obtain ⟨g₁, m₁⟩ := memAlloc_grows hP h₁
  have g₂ := store_grows g₁.ok h₂
  obtain ⟨g₃, m₃⟩ := memAlloc_grows g₂.ok h₃
  have g₄ := store_grows g₃.ok h₄
  exact ⟨((g₁.trans_zero g₂).trans g₃).trans_zero g₄, rfl,
    g₄.kept _ _ (g₃.kept _ _ (g₂.kept _ _ m₁)), g₄.kept _ _ m₃⟩

/-- Where a frame begins, `work_buf` is made, and may be moved at once. -/
theorem headerStage_grown (hP : c.pool.Ok) (hstream : c.stream = some s) (hs : s.Held c.pool)
    (hout : s.outBuf.dataLen ≤ midHttpBufSize) (h : headerStage rejectFrame c = .ok x) :
    Server.Grown (workBlocks + movedBlocks) c x.2 := by
  have hheld : ∀ s, c.stream = some s → s.Held c.pool := by
    intro s' hs'
    cases hs'.symm.trans hstream
    exact hs
  unfold headerStage at h
  obtain ⟨s', hs', h⟩ := bind_eq_ok.1 h
  cases (fetch_eq_ok.1 (Server.call_eq_ok.1 hs')).symm.trans hstream
  split_ifs at h
  · cases h
    exact ⟨(Grows.refl hP).mono zero_le, hheld⟩
  obtain ⟨d, -, h⟩ := bind_eq_ok.1 h
  dsimp only at h
  by_cases hbad : logMaxLen < ofLe d ∨ ofLe d = 0
  · rw [if_pos hbad] at h
    obtain ⟨c₁, h₁, h⟩ := bind_eq_ok.1 h
    obtain ⟨c₂, h₂, h⟩ := bind_eq_ok.1 h
    cases h
    have hclear := Server.clearOutBuf_grown hP hheld h₁
    exact (hclear.trans_zero (Server.closeStream_grown hclear.pool.ok h₂)).mono zero_le
  rw [if_neg hbad] at h
  obtain ⟨⟨b, P⟩, hpick, h⟩ := bind_eq_ok.1 h
  obtain ⟨⟨w, P'⟩, halloc, h⟩ := bind_eq_ok.1 h
  obtain ⟨h₁, rfl⟩ := bufPick_grows hP (Server.call_eq_ok.1 hpick)
  obtain ⟨h₂, hlen, hself, hdata⟩ := allocWorkBuff_grows h₁.ok (Server.call_eq_ok.1 halloc)
  have h₁₂ := h₁.zero_trans h₂
  have hmade := hs.of_kept h₁₂.kept
  dsimp only at h
  split_ifs at h
  · have hcollect := collectStage_grown (by exact h₁₂.ok) rfl
      { hmade with
        workBuf := by rintro _ ⟨⟩; exact hself
        workData := by
          rintro _ ⟨⟩
          exact ⟨logMaxLen, le_rfl, Nat.le_add_right _ _, hdata⟩ }
      ((Nat.sub_le _ _).trans hout) (by rintro _ ⟨⟩; exact hlen) h
    exact ⟨h₁₂.trans hcollect.pool, hcollect.held⟩
  · cases h
    refine ⟨h₁₂.mono le_self_add, ?_⟩
    rintro _ ⟨⟩
    exact {
      hmade with
      workBuf := by rintro _ ⟨⟩; exact hself
      workData := by
        rintro _ ⟨⟩
        exact ⟨logMaxLen, le_rfl, Nat.le_add_right _ _, hdata⟩ }

theorem frameStage_grown (hP : c.pool.Ok) (hstream : c.stream = some s) (hs : s.Held c.pool)
    (hout : s.outBuf.dataLen ≤ midHttpBufSize)
    (hw : ∀ w, s.workBuf = some w → 0 < s.replyBodySizeLeft → w.bufLen = logMaxLen)
    (h : frameStage rejectFrame c = .ok x) :
    Server.Grown (workBlocks + movedBlocks) c x.2 := by
  unfold frameStage at h
  obtain ⟨s', hs', h⟩ := bind_eq_ok.1 h
  cases (fetch_eq_ok.1 (Server.call_eq_ok.1 hs')).symm.trans hstream
  obtain ⟨P, hstore, h⟩ := bind_eq_ok.1 h
  have h₁ : c.pool.Grows 0 P := by
    split_ifs at hstore
    · exact store_grows hP (Server.call_eq_ok.1 hstore)
    · cases hstore
      exact .refl hP
  have hmade := hs.of_kept h₁.kept
  dsimp only at h
  split_ifs at h with hleft
  · have hcollect := collectStage_grown (c := { c with pool := P }) h₁.ok hstream hmade hout
      (fun w hsome => hw w hsome hleft) h
    exact ⟨(h₁.zero_trans hcollect.pool).mono le_add_self, hcollect.held⟩
  · have hheader := headerStage_grown (c := { c with pool := P }) h₁.ok hstream hmade hout h
    exact ⟨h₁.zero_trans hheader.pool, hheader.held⟩
  · cases h
    refine ⟨h₁.mono zero_le, fun s' hs' => ?_⟩
    cases hs'.symm.trans hstream
    exact hmade

/-- A read event: what fails has read nothing, and what was read fits `out_buf`. -/
theorem readStage_grown {reads : List ReadResult} (hP : c.pool.Ok) (hstream : c.stream = some s)
    (hs : s.Held c.pool) (hout : s.outBuf.bufLen = midHttpBufSize)
    (hw : ∀ w, s.workBuf = some w → 0 < s.replyBodySizeLeft → w.bufLen = logMaxLen)
    (h : readStage rejectFrame reads c = .ok x) :
    Server.Grown (workBlocks + movedBlocks) c x.2 := by
  unfold readStage at h
  obtain ⟨s', hs', h⟩ := bind_eq_ok.1 h
  cases (fetch_eq_ok.1 (Server.call_eq_ok.1 hs')).symm.trans hstream
  obtain ⟨_, hempty, h⟩ := bind_eq_ok.1 h
  have hzero : s.outBuf.dataLen = 0 := by
    by_contra hne
    have hne' : ¬ bufDataSize s.outBuf = 0 := hne
    rw [Server.call_eq_ok, assert_of_not hne'] at hempty
    cases hempty
  obtain ⟨⟨r, s₁, P⟩, hfeed, h⟩ := bind_eq_ok.1 h
  obtain ⟨h₁, n, hn⟩ := streamFeedOut_grows hP (Server.call_eq_ok.1 hfeed)
  have hmade := hs.of_kept h₁.kept
  have hle : n ≤ midHttpBufSize := by
    have hfits := hn.fits
    rw [hzero] at hfits
    have hfree : bufFreeSpace s.outBuf = midHttpBufSize := by
      rw [bufFreeSpace, hout, hzero]
      decide
    rw [hfree] at hfits
    omega
  have hfailed := hn.failed
  obtain ⟨i, z, hs₁⟩ := hn.stream
  obtain ⟨⟨done, c₁⟩, hdone, h⟩ := bind_eq_ok.1 h
  have hmade₁ : s₁.Held P := by
    rw [hs₁]
    exact { hmade with }
  have hlen₁ : s₁.outBuf.dataLen = n := by rw [hs₁]
  have hfed : Server.Grown 0 c c₁ ∧ (done = false → c₁.stream = some s₁) := by
    split_ifs at hdone with hneg hsize
    · obtain ⟨c₂, hclose, hdone⟩ := bind_eq_ok.1 hdone
      cases hdone
      have hclosed := Server.closeStream_grown (by exact h₁.ok) hclose
      exact ⟨⟨h₁.trans_zero hclosed.pool, hclosed.held⟩, by rintro ⟨⟩⟩
    · exact absurd (hlen₁.trans ((hfailed hneg).trans hzero)) hsize
    · cases hdone
      refine ⟨⟨h₁, ?_⟩, fun _ => rfl⟩
      rintro _ ⟨⟩
      exact hmade₁
  dsimp only at h
  split_ifs at h with hd
  · cases h
    exact hfed.1.mono zero_le
  · have hstream₁ := hfed.2 (by simpa using hd)
    have hframe := frameStage_grown hfed.1.pool.ok hstream₁ (hfed.1.held s₁ hstream₁)
      (hlen₁ ▸ hle) (by rw [hs₁]; exact hw) h
    exact ⟨hfed.1.pool.zero_trans hframe.pool, hframe.held⟩

/-- A write event takes nothing. -/
theorem writeStage_grown {writes : List WriteResult} (hP : c.pool.Ok) (hstream : c.stream = some s)
    (hs : s.Held c.pool) (h : writeStage writes c = .ok x) :
    Server.Grown 0 c x.2 ∧ (x.1 = false →
      ∃ n, x.2.stream = some { s with inBuf := { s.inBuf with dataLen := n } }) := by
  unfold writeStage at h
  obtain ⟨s', hs', h⟩ := bind_eq_ok.1 h
  cases (fetch_eq_ok.1 (Server.call_eq_ok.1 hs')).symm.trans hstream
  obtain ⟨f, hflush, h⟩ := bind_eq_ok.1 h
  obtain ⟨h₁, n, hn⟩ := streamFlushOut_grows hP (Server.call_eq_ok.1 hflush)
  have hmade := hs.of_kept h₁.kept
  dsimp only at h
  split_ifs at h
  · obtain ⟨c₁, hclose, h⟩ := bind_eq_ok.1 h
    cases h
    have hclosed := Server.closeStream_grown (by exact h₁.ok) hclose
    exact ⟨⟨h₁.trans_zero hclosed.pool, hclosed.held⟩, by rintro ⟨⟩⟩
  · cases h
    refine ⟨⟨h₁, ?_⟩, fun _ => ⟨n, congrArg some hn⟩⟩
    rintro _ ⟨⟩
    rw [hn]
    exact { hmade with }

/-- **`data_transfer`** takes `work_buf` and the block it is moved to, and no more. -/
theorem dataTransfer_grown {e : Event} (hP : c.pool.Ok) (hstream : c.stream = some s)
    (hs : s.Held c.pool) (hout : s.outBuf.bufLen = midHttpBufSize)
    (hw : ∀ w, s.workBuf = some w → 0 < s.replyBodySizeLeft → w.bufLen = logMaxLen)
    (h : dataTransfer rejectFrame e c = .ok c') :
    Server.Grown (workBlocks + movedBlocks) c c' := by
  unfold dataTransfer at h
  obtain ⟨s', -, h⟩ := bind_eq_ok.1 h
  obtain ⟨_, -, h⟩ := bind_eq_ok.1 h
  by_cases hnone : e.readEvent = false ∧ e.writeEvent = false
  · rw [if_pos hnone] at h
    exact (Server.closeStream_grown hP h).mono zero_le
  rw [if_neg hnone] at h
  obtain ⟨⟨done, c₁⟩, h₁, h⟩ := bind_eq_ok.1 h
  have hwrite : Server.Grown 0 c c₁ ∧ (done = false →
      ∃ n, c₁.stream = some { s with inBuf := { s.inBuf with dataLen := n } }) := by
    split_ifs at h₁
    · exact writeStage_grown hP hstream hs h₁
    · cases h₁
      refine ⟨⟨.refl hP, fun s' hs' => ?_⟩, fun _ => ⟨s.inBuf.dataLen, hstream⟩⟩
      cases hs'.symm.trans hstream
      exact hs
  dsimp only at h
  by_cases hdone : done = true
  · rw [if_pos hdone] at h
    cases h
    exact hwrite.1.mono zero_le
  rw [if_neg hdone] at h
  obtain ⟨n, hstream₁⟩ := hwrite.2 (by simpa using hdone)
  obtain ⟨⟨done', c₂⟩, h₂, h⟩ := bind_eq_ok.1 h
  have hread : Server.Grown (workBlocks + movedBlocks) c c₂ := by
    split_ifs at h₂
    · have hread := readStage_grown hwrite.1.pool.ok hstream₁ (hwrite.1.held _ hstream₁) hout hw h₂
      exact ⟨hwrite.1.pool.zero_trans hread.pool, hread.held⟩
    · cases h₂
      exact hwrite.1.mono zero_le
  dsimp only at h
  split_ifs at h
  · cases h
    exact hread
  · unfold Server.setEventInOut at h
    obtain ⟨s₂, -, h⟩ := bind_eq_ok.1 h
    cases h
    exact ⟨hread.pool, hread.held⟩

end Connection

/-! ### What a connection holds -/

/-- A block counts for its class and for no other. -/
theorem Pool.MadeFor.count {P : Pool} {p : Ptr} {j : ℕ} (h : P.MadeFor j p) (i : ℕ) :
    (if decide (P.MadeFor i p) = true then 1 else 0) = (Pi.single j 1 : ℕ → ℕ) i := by
  rw [Pi.single_apply]
  by_cases hij : i = j
  · rw [if_pos hij, if_pos (decide_eq_true (hij ▸ h))]
  · rw [if_neg hij, if_neg fun hi => hij ((of_decide_eq_true hi).unique h)]

/-- A connection holds no more than `connBlocks`. -/
theorem TcpStream.Held.countP_le {P : Pool} {s : TcpStream} (h : s.Held P) (i : ℕ) :
    (s.footprint.countP fun p => P.MadeFor i p) ≤ connBlocks i := by
  have hself := h.self.count i
  have hinBuf := h.inBuf.count i
  have hinData := h.inData.count i
  have houtBuf := h.outBuf.count i
  have houtData := h.outData.count i
  unfold TcpStream.footprint connBlocks streamBlocks
  cases hw : s.workBuf with
  | none =>
    simp only [List.countP_cons, List.countP_nil, List.nil_append, hself, hinBuf, hinData, houtBuf,
      houtData, Pi.add_apply]
    omega
  | some w =>
    have hwork := (h.workBuf w hw).count i
    obtain ⟨size, hleast, hmost, hmade⟩ := h.workData w hw
    have hdata := hmade.count i
    have hle : (Pi.single (sizeClass size) 1 : ℕ → ℕ) i ≤
        (Pi.single (sizeClass logMaxLen) 1 : ℕ → ℕ) i + movedBlocks i := by
      rcases hleast.eq_or_lt with heq | hlt
      · rw [← heq]
        exact Nat.le_add_right _ _
      · exact (single_le_movedBlocks hlt hmost i).trans (Nat.le_add_left _ _)
    simp only [workBlocks, List.countP_cons, List.countP_nil, List.cons_append, List.nil_append,
      hself, hinBuf, hinData, houtBuf, houtData, hwork, hdata, Pi.add_apply]
    omega

/-! ### All connections -/

namespace ServerProcess

variable {p p' : ServerProcess} {x : Connection} {T : ℕ → Occupant} {o : Occupant} {i : ℕ}
  {n : ℕ → ℕ} {y : EpollData × ServerEvent}

/-- The slots of the connections under way. -/
def busySlots (p : ServerProcess) : Finset ℕ :=
  (Finset.range maxEvents).filter fun i => (p.gEvents i).status = 1

theorem card_busySlots_le (p : ServerProcess) : p.busySlots.card ≤ maxEvents :=
  (Finset.card_filter_le _ _).trans_eq (Finset.card_range _)

/-- The blocks of the connection of a slot. -/
def slotBlocks (p : ServerProcess) (i : ℕ) : List Ptr :=
  ((p.streams i).map TcpStream.footprint).getD []

/-- The connections hold no more than they may, and the server never got more from `malloc`. -/
structure Fed (T : ℕ → Occupant) (p : ServerProcess) : Prop where
  held : ∀ i x, T i = .serving x → x.stream.Held p.pool
  mallocs : ∀ i < memTypeMax, p.pool.mallocs i ≤ (maxEvents + 1) * connBlocks i

/-- A block in use is held by a connection under way. -/
theorem Inv.mem_slotBlocks {q : Ptr} (h : Inv T p) (hq : p.pool.live q ≠ none) :
    ∃ i ∈ p.busySlots, q ∈ p.slotBlocks i := by
  rcases h.owner (r := .block q) hq with ⟨-, fd, hfd, -⟩ | ⟨i, x, -, hx, hmem⟩
  · cases hfd
  · refine ⟨i, Finset.mem_filter.2 ⟨Finset.mem_range.2 hx.slot, hx.reg.status⟩, ?_⟩
    rw [slotBlocks, hx.stream]
    exact block_mem_serverOwn_serving.1 hmem

/-- What is in use is held by the connections under way. -/
theorem Inv.used_le (h : Inv T p) (hheld : ∀ i x, T i = .serving x → x.stream.Held p.pool)
    (hi : i < memTypeMax) :
    (p.pool.memStat i).blocksUsed ≤ (p.busySlots.card * connBlocks i : ℕ) := by
  obtain ⟨U, F, hinv⟩ := h.pool
  have hlive : ∀ q ∈ U, p.pool.live q ≠ none := by
    intro q hq
    obtain ⟨e, he, -⟩ := hinv.used q hq
    rw [hinv.live_eq_some_iff.2 ⟨hq, he⟩]
    exact Option.some_ne_none e
  have hsub : (U.filter fun q => p.pool.MadeFor i q).toFinset ⊆ p.busySlots.biUnion fun j =>
      ((p.slotBlocks j).filter fun q => p.pool.MadeFor i q).toFinset := fun q hq => by
    rw [List.mem_toFinset, List.mem_filter] at hq
    simp only [Finset.mem_biUnion, List.mem_toFinset, List.mem_filter, hq.2, and_true]
    exact h.mem_slotBlocks (hlive q hq.1)
  have hcard := (Finset.card_le_card hsub).trans
    (Finset.card_biUnion_le_card_mul p.busySlots _ (connBlocks i) fun j hj => ?_)
  · rw [List.toFinset_card_of_nodup (hinv.nodup_used.filter _)] at hcard
    rw [hinv.blocksUsed_eq hi, List.countP_eq_length_filter]
    exact_mod_cast hcard
  · obtain ⟨hlt, hstatus⟩ := Finset.mem_filter.1 hj
    obtain ⟨x, hT, hx⟩ := (h.of_status hstatus).resolve_left fun heq =>
      (Finset.mem_range.1 hlt).ne heq.1
    have hcount := (hheld j x hT).countP_le i
    rw [List.countP_eq_length_filter] at hcount
    rw [slotBlocks, hx.stream]
    exact (List.toFinset_card_le _).trans hcount

/-- An operation on one slot that takes no more than a connection may hold. -/
theorem Fed.grows (hf : Fed T p) (h : Inv T p) (hg : p.pool.Grows n p'.pool) (hn : n ≤ connBlocks)
    (ho : ∀ x, o = .serving x → x.stream.Held p'.pool) : Fed (Function.update T i o) p' := by
  refine ⟨fun j x hj => ?_, fun k hk => ?_⟩
  · by_cases hji : j = i
    · rw [hji, Function.update_self] at hj
      exact ho x hj
    · rw [Function.update_of_ne hji] at hj
      exact (hf.held j x hj).of_kept hg.kept
  · have hmallocs := hg.mallocs k hk
    have hbefore := hf.mallocs k hk
    have hused := h.used_le hf.held hk
    have htaken : n k ≤ connBlocks k := hn k
    have hbusy : p.busySlots.card * connBlocks k ≤ maxEvents * connBlocks k :=
      Nat.mul_le_mul_right _ p.card_busySlots_le
    rw [Nat.succ_mul] at hbefore ⊢
    omega

/-- What gives blocks back only. -/
theorem Fed.grows_zero {T' : ℕ → Occupant} (hf : Fed T p) (h : Inv T p)
    (hg : p.pool.Grows 0 p'.pool) (hT : ∀ i x, T' i = .serving x → T i = .serving x) :
    Fed T' p' := by
  have hf' := hf.grows (i := maxEvents) (o := T maxEvents) h hg zero_le fun x hx =>
    (hf.held maxEvents x hx).of_kept hg.kept
  rw [Function.update_eq_self] at hf'
  exact ⟨fun i x hi => hf'.held i x (hT i x hi), hf'.mallocs⟩

/-- `data_transfer` -/
theorem transfer_grows {e : Event} (hx : x.Served i p) (hP : p.pool.Ok)
    (hs : x.stream.Held p.pool) (h : p.transfer i e = .ok p') :
    p.pool.Grows (workBlocks + movedBlocks) p'.pool ∧
      ∀ s, p'.streams i = some s → s.Held p'.pool := by
  obtain ⟨got, hcarries, hfits⟩ := hx.carries
  have hw : ∀ w, x.stream.workBuf = some w → 0 < x.stream.replyBodySizeLeft →
      w.bufLen = logMaxLen := by
    intro w hw hleft
    cases hstate : x.state with
    | header held =>
      rw [hstate] at hfits
      rw [hfits.2.workBuf] at hw
      cases hw
    | body len got' held =>
      rw [hstate] at hfits
      obtain ⟨-, -, w', hc⟩ := hfits
      cases hc.workBuf.symm.trans hw
      have hcount := hc.left
      exact hc.room (by omega)
    | closed r =>
      rw [hstate] at hfits
      exact absurd hfits id
  unfold transfer at h
  split at h
  · rename_i c hrun
    cases h
    have hgrown := dataTransfer_grown (c := p.view i) hP hx.stream hs hcarries.outLen hw hrun
    refine ⟨hgrown.pool, fun s hs' => hgrown.held s ?_⟩
    rw [← hs']
    exact (Function.update_self i c.stream p.streams).symm
  · cases h

/-- `accept_conn` -/
theorem accept_fed (h : Inv T p) (hf : Fed T p) {a : Accept} (ha : New a p.kernel) :
    ∃ p' T', p.accept a = .ok p' ∧ Inv T' p' ∧ Fed T' p' := by
  obtain ⟨_ | cfd, fcntl, now⟩ := a
  · exact ⟨p, T, accept_none fcntl now p, h, hf⟩
  obtain ⟨hpos, hnew⟩ := ha cfd rfl
  by_cases hleak : p.freeSlot = none ∨ fcntl = false
  · exact ⟨_, T, accept_leaks hleak cfd now, h.openFd hnew, hf.held, hf.mallocs⟩
  rw [not_or, Bool.not_eq_false] at hleak
  obtain ⟨hsome, rfl⟩ := hleak
  obtain ⟨i, hi⟩ := Option.ne_none_iff_exists'.1 hsome
  obtain ⟨s, P, hcreate, -⟩ := streamCreate_spec h.pool cfd
  obtain ⟨p', x, hrun, hp', -⟩ := accept_takes h hpos hnew hi now
  have hmade : p'.pool = P ∧ p'.streams i = some s := by
    have haccept := hrun
    unfold accept at haccept
    rw [acceptConn_eq now hcreate hi] at haccept
    dsimp only at haccept
    split at haccept <;>
    · cases haccept
      exact ⟨rfl, Function.update_self _ _ _⟩
  obtain ⟨hgrows, hsized⟩ := streamCreate_grows h.pool hcreate
  rw [← hmade.1] at hgrows hsized
  refine ⟨p', _, hrun, hp', hf.grows h hgrows le_self_add fun y hy => ?_⟩
  cases hy
  have hserved : serverHolds i (Function.update T i (.serving x) i) p' := hp'.table.holds i
  rw [Function.update_self] at hserved
  have hx : x.Served i p' := hserved
  cases hx.stream.symm.trans hmade.2
  exact hsized

/-- One callback. -/
theorem callBack_fed (h : Inv T p) (hf : Fed T p) (hy : p.Ready y) (hrun : p.callBack y = .ok p') :
    ∃ T', Inv T' p' ∧ Fed T' p' := by
  obtain ⟨d, e⟩ := y
  obtain ⟨⟨f, m, hint⟩, hacc⟩ := hy
  obtain ⟨i, rfl, ⟨-, hcb⟩ | ⟨x, hT, hx, -⟩⟩ := h.of_interest hint
  · obtain ⟨p₁, T', haccept, h', hf'⟩ := accept_fed h hf hacc
    have hcall : p.callBack (.ptr i, e) = .ok p₁ := by
      simp only [callBack, hcb, haccept]
    cases hcall.symm.trans hrun
    exact ⟨T', h', hf'⟩
  · have hcall : p.callBack (.ptr i, e) = p.transfer i e.toEvent := by
      simp only [callBack, hx.callBack]
    rw [hcall] at hrun
    obtain ⟨hgrows, hheld⟩ := transfer_grows hx h.pool (hf.held i x hT) hrun
    rcases transfer_spec hx h.pool e.toEvent with ⟨p₁, o, htransfer, ht⟩ | ⟨herror, -⟩
    · cases htransfer.symm.trans hrun
      have h' := h.turned ht.toTurned (hT ▸ Set.subset_union_left) fun r hr => by
        rw [hT]
        exact hr.elim .inl (ht.taken r)
      refine ⟨_, h', hf.grows h hgrows le_add_self fun x' hx' => ?_⟩
      have hholds : serverHolds i o p' := ht.holds
      rw [hx'] at hholds
      exact hheld _ hholds.stream
    · cases herror.symm.trans hrun

/-- The timeout gives back. -/
theorem expireSlot_grows {now : ℤ} (hP : p.pool.Ok) (h : p.expireSlot now i = .ok p') :
    p.pool.Grows 0 p'.pool := by
  unfold expireSlot at h
  dsimp only at h
  split_ifs at h
  · cases h
    exact .refl hP
  · split at h
    · cases h
      exact .refl hP
    · split at h
      · rename_i hclose
        cases h
        exact closeStream_grows hP hclose
      · cases h
  · cases h
    exact .refl hP

theorem expireLoop_grows {now : ℤ} {k c : ℕ} (hP : p.pool.Ok)
    (h : expireLoop now k c p = .ok p') : p.pool.Grows 0 p'.pool := by
  induction k generalizing c p with
  | zero =>
    cases h
    exact .refl hP
  | succ k ih =>
    obtain ⟨p₁, h₁, h⟩ := bind_eq_ok.1 h
    have hslot := expireSlot_grows hP h₁
    exact hslot.trans_zero (ih hslot.ok h)

/-- One step of the main loop. -/
theorem step_fed (h : Inv T p) (hf : Fed T p) {op : ServerOp} (hop : p.Allowed op)
    (hrun : p.step op = .ok p') : ∃ T', Inv T' p' ∧ Fed T' p' := by
  cases op with
  | tick now =>
    obtain ⟨p₁, htick, ht⟩ := tick_swept h now
    cases htick.symm.trans hrun
    refine ⟨_, ht.inv, hf.grows_zero h ?_ fun i x hi => ?_⟩
    · unfold tick at htick
      split_ifs at htick
      · exact expireLoop_grows (p := { p with qps := 0, nextTime := now + 10 }) h.pool htick
      · exact expireLoop_grows h.pool htick
    · split_ifs at hi
      exact hi
  | batch es =>
    exact run_keeps (I := fun p => ∃ T, Inv T p ∧ Fed T p)
      (fun _ _ _ ⟨_, h, hf⟩ hy hcall => callBack_fed h hf hy hcall) ⟨T, h, hf⟩
      (steps_ready h hop.1 hop.2) hrun

variable {raw : Ptr → Memory} {opened : Finset ℤ} {lfd now : ℤ} {ops : List ServerOp}

theorem init_fed (hlfd : lfd ∉ opened) :
    ∃ T, Inv T (init raw opened lfd now) ∧ Fed T (init raw opened lfd now) := by
  obtain ⟨T, h, -⟩ := init_inv raw hlfd now
  refine ⟨T, h, fun i x hT => ?_, fun i _ => ?_⟩
  · have hholds : serverHolds i (T i) (init raw opened lfd now) := h.table.holds i
    rw [hT] at hholds
    have hx : x.Served i (init raw opened lfd now) := hholds
    cases hx.stream
  · exact Nat.zero_le _

/-- **The memory of the server.**  In every run, whatever the clients send and however many come: of
each class, no more is in use than the connections under way may hold, nothing without them; what
the pool got from `malloc` is in use or in its lists, and is never more than `MAX_EVENTS`
connections hold and one more takes, in all some 311 million bytes. -/
theorem server_memory (hlfd : lfd ∉ opened)
    (hops : Steps step Allowed (init raw opened lfd now) ops)
    (hp : run step (init raw opened lfd now) ops = .ok p) :
    (∀ i < memTypeMax,
      (p.pool.memStat i).blocksUsed ≤ (p.busySlots.card * connBlocks i : ℕ) ∧
      (p.pool.memStat i).blocksUsed + (p.pool.memStat i).blocksFree = p.pool.mallocs i ∧
      p.pool.mallocs i ≤ (maxEvents + 1) * connBlocks i) ∧
    ∑ i ∈ Finset.range memTypeMax, p.pool.mallocs i * blockSize i ≤ (maxEvents + 1) * 303456 := by
  obtain ⟨T, h, hf⟩ : ∃ T, Inv T p ∧ Fed T p :=
    run_keeps (I := fun p => ∃ T, Inv T p ∧ Fed T p)
      (fun _ _ _ ⟨_, h, hf⟩ hop hstep => step_fed h hf hop hstep) (init_fed hlfd) hops hp
  obtain ⟨U, F, hinv⟩ := h.pool
  refine ⟨fun i hi => ⟨h.used_le hf.held hi, hinv.statSum hi, hf.mallocs i hi⟩, ?_⟩
  calc ∑ i ∈ Finset.range memTypeMax, p.pool.mallocs i * blockSize i
      ≤ ∑ i ∈ Finset.range memTypeMax, (maxEvents + 1) * (connBlocks i * blockSize i) := by
        refine Finset.sum_le_sum fun i hi => ?_
        rw [← Nat.mul_assoc]
        exact Nat.mul_le_mul_right _ (hf.mallocs i (Finset.mem_range.1 hi))
    _ = (maxEvents + 1) * 303456 := by
        rw [← Finset.mul_sum, sum_connBlocks]

/-- One client is served from the blocks of one connection. -/
theorem server_memory_oneClient :
    ∃ p, run step start [.batch [oneClient]] = .ok p ∧ p.busySlots = {0} ∧
      (∀ i < memTypeMax, (p.pool.memStat i).blocksUsed ≤ (connBlocks i : ℕ) ∧
        (p.pool.memStat i).blocksUsed + (p.pool.memStat i).blocksFree = p.pool.mallocs i ∧
        p.pool.mallocs i ≤ (maxEvents + 1) * connBlocks i) ∧
      ∑ i ∈ Finset.range memTypeMax, p.pool.mallocs i * blockSize i ≤ 311042400 := by
  obtain ⟨p, T, x, hcall, -, -, -, -, -, -, htakes⟩ := start_accepts
  have hbusy : p.busySlots = {0} := by
    ext i
    rw [busySlots, Finset.mem_filter, Finset.mem_range, Finset.mem_singleton]
    constructor
    · rintro ⟨hi, hstatus⟩
      by_contra hne
      rw [(htakes.others i hne).1] at hstatus
      have hzero : (start.gEvents i).status = 0 := by
        simp [start, init, Function.update_of_ne hi.ne, MyEvent.zero]
      rw [hzero] at hstatus
      cases hstatus
    · rintro rfl
      exact ⟨htakes.slot, htakes.registered.status⟩
  obtain ⟨hclasses, htotal⟩ := server_memory (by decide) oneClient_allowed (oneClient_run hcall)
  rw [hbusy, Finset.card_singleton] at hclasses
  refine ⟨p, oneClient_run hcall, hbusy, fun i hi => ?_, htotal⟩
  have hclass := hclasses i hi
  rwa [one_mul] at hclass

end ServerProcess

end Jujube
