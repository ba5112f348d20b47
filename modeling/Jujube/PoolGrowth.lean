import Jujube.MemPeak
import Jujube.Stream

/-!
# What an operation may take from the pool

`P.Grows n P'` says of an operation that at no moment of it more than `n i` blocks of class `i` are
in use besides those before it, so that the pool goes to `malloc` for no more than that.  Operations
in a row need what they need together (`Pool.Grows.trans`).
-/

namespace Jujube

open Bytes Pool

namespace Pool

variable {P P' P'' : Pool} {U U' : List Ptr} {F F' : ℕ → List Ptr} {p q : Ptr} {i j : ℕ}
  {n m : ℕ → ℕ} {size off : ℕ} {module : Option String} {d : List UInt8}

/-- From `P` to `P'` at most `n i` blocks of class `i` were taken. -/
structure Grows (n : ℕ → ℕ) (P P' : Pool) : Prop where
  ok : P'.Ok
  used : ∀ i < memTypeMax, (P'.memStat i).blocksUsed ≤ (P.memStat i).blocksUsed + n i
  mallocs : ∀ i < memTypeMax,
    (P'.mallocs i : ℤ) ≤ max (P.mallocs i : ℤ) ((P.memStat i).blocksUsed + n i)
  kept : ∀ i p, P.MadeFor i p → P'.MadeFor i p

namespace Grows

theorem refl (hP : P.Ok) : Grows 0 P P :=
  ⟨hP, fun _ _ => by simp, fun _ _ => by simp, fun _ _ h => h⟩

theorem mono (h : Grows n P P') (hnm : n ≤ m) : Grows m P P' := by
  refine ⟨h.ok, fun i hi => ?_, fun i hi => ?_, h.kept⟩
  · have hused := h.used i hi
    have hle : n i ≤ m i := hnm i
    omega
  · have hmallocs := h.mallocs i hi
    have hle : n i ≤ m i := hnm i
    omega

/-- One operation after the other. -/
theorem trans (h : Grows n P P') (h' : Grows m P' P'') : Grows (n + m) P P'' := by
  refine ⟨h'.ok, fun i hi => ?_, fun i hi => ?_, fun i p hp => h'.kept i p (h.kept i p hp)⟩
  · have hfirst := h.used i hi
    have hsecond := h'.used i hi
    rw [Pi.add_apply]
    push_cast
    omega
  · have hused := h.used i hi
    have hfirst := h.mallocs i hi
    have hsecond := h'.mallocs i hi
    rw [Pi.add_apply]
    push_cast
    omega

theorem trans_zero (h : Grows n P P') (h' : Grows 0 P' P'') : Grows n P P'' := by
  simpa using h.trans h'

theorem zero_trans (h : Grows 0 P P') (h' : Grows n P' P'') : Grows n P P'' := by
  simpa using h.trans h'

end Grows

/-- `blocks_used` counts the live blocks of a class. -/
theorem Inv.blocksUsed_eq (h : P.Inv U F) (hi : i < memTypeMax) :
    (P.memStat i).blocksUsed = (U.countP fun p => P.MadeFor i p : ℕ) := by
  rw [h.statUsed i hi]
  refine congrArg _ (List.countP_congr fun p hp => ?_)
  obtain ⟨e, he, -⟩ := h.used p hp
  simp only [decide_eq_true_eq, h.madeFor_iff he, classOf, he, Option.map_some, Option.getD_some]

/-- A block is of one class. -/
theorem MadeFor.unique (hi : P.MadeFor i p) (hj : P.MadeFor j p) : i = j := by
  unfold MadeFor at hi hj
  rw [hi, Option.some.injEq, Nat.add_right_cancel_iff] at hj
  exact blockSize_injective hj

/-- Blocks that are live in both pools are of the same classes in both. -/
theorem Inv.countP_kept (h : P.Inv U F) (hkeep : ∀ i p, P.MadeFor i p → P'.MadeFor i p) (i : ℕ) :
    (U.countP fun p => P'.MadeFor i p) = U.countP fun p => P.MadeFor i p := by
  refine List.countP_congr fun p hp => ?_
  obtain ⟨e, he, -⟩ := h.used p hp
  have hmade : P.MadeFor (sizeClass e.objSize) p := (h.madeFor_iff he).2 rfl
  simp only [decide_eq_true_eq]
  constructor
  · intro hi
    rwa [hi.unique (hkeep _ p hmade)]
  · exact hkeep i p

/-- An operation that leaves the blocks where they are, or puts some of them back. -/
theorem Inv.grows_zero (h : P.Inv U F) (h' : P'.Inv U' F') (hr : P.SameRooms P')
    (hU : U'.Sublist U) : Grows 0 P P' := by
  have hkeep : ∀ i p, P.MadeFor i p → P'.MadeFor i p := fun i p hp => hr.madeFor.2 hp
  refine ⟨⟨U', F', h'⟩, fun i hi => ?_, fun i hi => ?_, hkeep⟩
  · have hle : (U'.countP fun p => P'.MadeFor i p) ≤ U.countP fun p => P'.MadeFor i p :=
      hU.countP_le
    rw [h.countP_kept hkeep] at hle
    rw [h'.blocksUsed_eq hi, h.blocksUsed_eq hi]
    simpa using hle
  · rw [h.mallocs_congr h' hr]
    exact le_max_left _ _

/-! ### The operations of the pool -/

/-- `mem_alloc` takes a block of the class of the size. -/
theorem memAlloc_grows (hP : P.Ok) (h : memAlloc module size P = .ok (p, P')) :
    Grows (Pi.single (sizeClass size) 1) P P' ∧ P'.MadeFor (sizeClass size) p := by
  have hs : size ≤ maxExtMemBlock := by
    by_contra hs
    rw [memAlloc, assert_of_not hs] at h
    cases h
  obtain ⟨U, F, hinv⟩ := hP
  obtain ⟨q, Q, G, hrun, hinv', hkeep, hmallocs⟩ := memAlloc_mallocs hinv module hs
  obtain ⟨q', Q', e, G', hrun', -, -, hheap, hfresh, -⟩ := memAlloc_inv hinv module hs
  cases hrun.symm.trans h
  cases hrun.symm.trans hrun'
  have he : P'.heap p = some e := by rw [hheap, Function.update_self]
  have hself : ∀ i, P'.MadeFor i p ↔ sizeClass size = i := fun i => by
    rw [hinv'.madeFor_iff he, hfresh.cls]
  have hused : ∀ i < memTypeMax, (P'.memStat i).blocksUsed =
      (P.memStat i).blocksUsed + (Pi.single (sizeClass size) 1 : ℕ → ℕ) i := by
    intro i hi
    rw [hinv'.blocksUsed_eq hi, hinv.blocksUsed_eq hi, List.countP_cons, hinv.countP_kept hkeep,
      Pi.single_apply]
    by_cases hsize : sizeClass size = i
    · simp [(hself i).2 hsize, hsize]
    · simp [mt (hself i).1 hsize, Ne.symm hsize]
  refine ⟨⟨⟨_, _, hinv'⟩, fun i hi => (hused i hi).le, fun i hi => ?_, hkeep⟩, (hself _).2 rfl⟩
  rw [hmallocs i hi, ← hused i hi, hinv'.blocksUsed_eq hi]
  exact_mod_cast le_rfl

/-- `mem_free` gives one back. -/
theorem memFree_grows (hP : P.Ok) (h : memFree p P = .ok P') : Grows 0 P P' := by
  obtain ⟨U, F, hinv⟩ := hP
  have hp : p ∈ U := by
    unfold memFree at h
    obtain ⟨e, he, h⟩ := bind_eq_ok.1 h
    obtain ⟨_, -, h⟩ := bind_eq_ok.1 h
    obtain ⟨_, -, h⟩ := bind_eq_ok.1 h
    obtain ⟨_, -, h⟩ := bind_eq_ok.1 h
    obtain ⟨_, hcount, -⟩ := bind_eq_ok.1 h
    rw [fetch_eq_ok] at he
    rcases hinv.place p e he with ⟨hU, -⟩ | ⟨-, hzero⟩
    · exact hU
    · rw [assert_of_not (by simp [hzero])] at hcount
      cases hcount
  obtain ⟨e, he, -⟩ := hinv.used p hp
  obtain ⟨Q, hrun, hinv', hheap, -⟩ := memFree_inv hinv hp he
  cases hrun.symm.trans h
  exact hinv.grows_zero hinv' (sameRooms_update he hheap rfl) List.erase_sublist

theorem length_load {k : ℕ} (h : P.load p off k = .ok d) : d.length = k := by
  obtain ⟨e, -, h⟩ := bind_eq_ok.1 h
  split_ifs at h
  cases h
  exact length_read

/-- A store takes none. -/
theorem store_grows (hP : P.Ok) (h : P.store p off d = .ok P') : Grows 0 P P' := by
  obtain ⟨U, F, hinv⟩ := hP
  obtain ⟨e, hl, h⟩ := bind_eq_ok.1 h
  rw [fetch_eq_ok] at hl
  split_ifs at h with hb
  cases h
  exact hinv.grows_zero (hinv.setEntry hl hb)
    (sameRooms_update (hinv.live_eq_some_iff.1 hl).2 rfl rfl) (List.Sublist.refl U)

end Pool

variable {P P' : Pool} {b b' : Buf} {s s' : TcpStream} {d : List UInt8} {len : ℕ} {i : ℕ} {r t : ℤ}

/-! ### Buffers -/

theorem clearSpace_grows (hP : P.Ok) (h : clearSpace b P = .ok (b', P')) :
    P.Grows 0 P' ∧ b' = { b with dataLen := 0 } := by
  obtain ⟨P₁, hstore, h⟩ := bind_eq_ok.1 h
  cases h
  exact ⟨store_grows hP hstore, rfl⟩

theorem bufPick_grows (hP : P.Ok) (h : bufPick len b P = .ok (b', P')) :
    P.Grows 0 P' ∧ b' = { b with dataLen := b.dataLen - len } := by
  obtain ⟨_, -, h⟩ := bind_eq_ok.1 h
  dsimp only at h
  split_ifs at h
  · obtain ⟨d, -, h⟩ := bind_eq_ok.1 h
    obtain ⟨P₁, hstore, h⟩ := bind_eq_ok.1 h
    cases h
    exact ⟨store_grows hP hstore, rfl⟩
  · cases h
    exact ⟨.refl hP, rfl⟩

/-- `buf_realloc` takes the new block before it gives the old one back. -/
theorem bufRealloc_grows (hP : P.Ok) (h : bufRealloc len b P = .ok (r, b', P')) :
    P.Grows (Pi.single (sizeClass (sizeAdd b.bufLen len)) 1) P' ∧ b'.self = b.self ∧
      P'.MadeFor (sizeClass (sizeAdd b.bufLen len)) b'.buffer := by
  obtain ⟨⟨n, P₁⟩, halloc, h⟩ := bind_eq_ok.1 h
  obtain ⟨d, -, h⟩ := bind_eq_ok.1 h
  obtain ⟨P₂, hstore, h⟩ := bind_eq_ok.1 h
  obtain ⟨P₃, hfree, h⟩ := bind_eq_ok.1 h
  cases h
  obtain ⟨h₁, hmade⟩ := memAlloc_grows hP halloc
  have h₂ := store_grows h₁.ok hstore
  have h₃ := memFree_grows h₂.ok hfree
  exact ⟨(h₁.trans_zero h₂).trans_zero h₃, rfl, h₃.kept _ _ (h₂.kept _ _ hmade)⟩

theorem bufAppend_grows (hP : P.Ok) (h : bufAppend d b P = .ok (r, b', P')) :
    P.Grows 0 P' ∧ b'.self = b.self ∧ b'.buffer = b.buffer := by
  obtain ⟨P₁, hstore, h⟩ := bind_eq_ok.1 h
  cases h
  exact ⟨store_grows hP hstore, rfl, rfl⟩

/-- `buf_put` takes a block when the bytes do not fit. -/
theorem bufPut_grows (hP : P.Ok) (h : bufPut d b P = .ok (r, b', P')) :
    (bufFreeSpace b < d.length ∧
        P.Grows (Pi.single (sizeClass (sizeAdd b.bufLen d.length)) 1) P' ∧ b'.self = b.self ∧
        P'.MadeFor (sizeClass (sizeAdd b.bufLen d.length)) b'.buffer) ∨
      P.Grows 0 P' ∧ b'.self = b.self ∧ b'.buffer = b.buffer := by
  unfold bufPut at h
  split_ifs at h with hfits
  · obtain ⟨⟨r₁, b₁, P₁⟩, hrealloc, h⟩ := bind_eq_ok.1 h
    obtain ⟨h₁, hself, hmade⟩ := bufRealloc_grows hP hrealloc
    dsimp only at h
    split_ifs at h
    · cases h
      exact .inl ⟨hfits, h₁, hself, hmade⟩
    · obtain ⟨h₂, hself', hbuffer⟩ := bufAppend_grows h₁.ok h
      rw [← hbuffer] at hmade
      exact .inl ⟨hfits, h₁.trans_zero h₂, hself'.trans hself, h₂.kept _ _ hmade⟩
  · exact .inr (bufAppend_grows hP h)

/-! ### Streams -/

/-- The blocks that `stream_create` takes. -/
def streamBlocks : ℕ → ℕ :=
  Pi.single (sizeClass sizeofTcpStream) 1 + Pi.single (sizeClass sizeofBuf) 1 +
    Pi.single (sizeClass cfgHttpBufSize) 1 + Pi.single (sizeClass sizeofBuf) 1 +
    Pi.single (sizeClass midHttpBufSize) 1

/-- The blocks of a stream are of the classes they were asked for in: this is not known of the data
of `work_buf`, which may have been moved, to a block for at most `most` bytes. -/
structure TcpStream.Sized (least most : ℕ) (P : Pool) (s : TcpStream) : Prop where
  self : P.MadeFor (sizeClass sizeofTcpStream) s.self
  inBuf : P.MadeFor (sizeClass sizeofBuf) s.inBuf.self
  inData : P.MadeFor (sizeClass cfgHttpBufSize) s.inBuf.buffer
  outBuf : P.MadeFor (sizeClass sizeofBuf) s.outBuf.self
  outData : P.MadeFor (sizeClass midHttpBufSize) s.outBuf.buffer
  workBuf : ∀ w, s.workBuf = some w → P.MadeFor (sizeClass sizeofBuf) w.self
  workData : ∀ w, s.workBuf = some w →
    ∃ size, least ≤ size ∧ size ≤ most ∧ P.MadeFor (sizeClass size) w.buffer

variable {least most : ℕ}

/-- The blocks are the same, and they stay of their classes. -/
theorem TcpStream.Sized.of_kept (h : s.Sized least most P)
    (hkeep : ∀ i p, P.MadeFor i p → P'.MadeFor i p) : s.Sized least most P' where
  self := hkeep _ _ h.self
  inBuf := hkeep _ _ h.inBuf
  inData := hkeep _ _ h.inData
  outBuf := hkeep _ _ h.outBuf
  outData := hkeep _ _ h.outData
  workBuf w hw := hkeep _ _ (h.workBuf w hw)
  workData w hw := by
    obtain ⟨size, hleast, hmost, hmade⟩ := h.workData w hw
    exact ⟨size, hleast, hmost, hkeep _ _ hmade⟩

theorem streamCreate_grows {sock : ℤ} (hP : P.Ok) (h : streamCreate sock P = .ok (s, P')) :
    P.Grows streamBlocks P' ∧ s.Sized least most P' := by
  obtain ⟨⟨p₁, P₁⟩, h₁, h⟩ := bind_eq_ok.1 h
  obtain ⟨⟨p₂, P₂⟩, h₂, h⟩ := bind_eq_ok.1 h
  obtain ⟨⟨p₃, P₃⟩, h₃, h⟩ := bind_eq_ok.1 h
  obtain ⟨P₄, h₄, h⟩ := bind_eq_ok.1 h
  obtain ⟨⟨p₅, P₅⟩, h₅, h⟩ := bind_eq_ok.1 h
  obtain ⟨⟨p₆, P₆⟩, h₆, h⟩ := bind_eq_ok.1 h
  cases h
  obtain ⟨g₁, m₁⟩ := memAlloc_grows hP h₁
  obtain ⟨g₂, m₂⟩ := memAlloc_grows g₁.ok h₂
  obtain ⟨g₃, m₃⟩ := memAlloc_grows g₂.ok h₃
  have g₄ := store_grows g₃.ok h₄
  obtain ⟨g₅, m₅⟩ := memAlloc_grows g₄.ok h₅
  obtain ⟨g₆, m₆⟩ := memAlloc_grows g₅.ok h₆
  refine ⟨((((g₁.trans g₂).trans g₃).trans_zero g₄).trans g₅).trans g₆, ?_, ?_, ?_, ?_, m₆, ?_, ?_⟩
  · exact g₆.kept _ _ (g₅.kept _ _ (g₄.kept _ _ (g₃.kept _ _ (g₂.kept _ _ m₁))))
  · exact g₆.kept _ _ (g₅.kept _ _ (g₄.kept _ _ (g₃.kept _ _ m₂)))
  · exact g₆.kept _ _ (g₅.kept _ _ (g₄.kept _ _ m₃))
  · exact g₆.kept _ _ m₅
  · rintro w ⟨⟩
  · rintro w ⟨⟩

/-- The loop of `stream_flush_out` takes no block, and moves none. -/
theorem flushLoop_grows {cur : ℤ} {calls : List (List UInt8 × ℕ)} {ws : List WriteResult}
    {f : Flush} (hP : P.Ok) (h : flushLoop cur t s P calls ws = .ok f) :
    P.Grows 0 f.pool ∧ ∃ n, f.stream = { s with inBuf := { s.inBuf with dataLen := n } } := by
  induction ws generalizing cur t s P calls with
  | nil =>
    cases h
    exact ⟨.refl hP, s.inBuf.dataLen, rfl⟩
  | cons w ws ih =>
    unfold flushLoop at h
    split_ifs at h
    swap
    · cases h
      exact ⟨.refl hP, s.inBuf.dataLen, rfl⟩
    obtain ⟨d, -, h⟩ := bind_eq_ok.1 h
    cases w with
    | eintr => exact ih hP h
    | eagain =>
      cases h
      exact ⟨.refl hP, s.inBuf.dataLen, rfl⟩
    | error =>
      cases h
      exact ⟨.refl hP, s.inBuf.dataLen, rfl⟩
    | zero =>
      cases h
      exact ⟨.refl hP, s.inBuf.dataLen, rfl⟩
    | accept k =>
      obtain ⟨⟨b, P₁⟩, hpick, h⟩ := bind_eq_ok.1 h
      obtain ⟨h₁, rfl⟩ := bufPick_grows hP hpick
      obtain ⟨h₂, n, hn⟩ := ih h₁.ok h
      exact ⟨h₁.trans_zero h₂, n, hn⟩

theorem streamFlushOut_grows {size : ℤ} {ws : List WriteResult} {f : Flush} (hP : P.Ok)
    (h : streamFlushOut s size ws P = .ok f) :
    P.Grows 0 f.pool ∧ ∃ n, f.stream = { s with inBuf := { s.inBuf with dataLen := n } } := by
  unfold streamFlushOut at h
  by_cases hsock : s.serverSock < 0
  · rw [if_pos hsock] at h
    cases h
    exact ⟨.refl hP, s.inBuf.dataLen, rfl⟩
  · rw [if_neg hsock] at h
    exact flushLoop_grows hP h

/-- What `stream_feed_out` may do to a stream: `n` bytes are read into the room of `out_buf`. -/
structure TcpStream.Received (s s' : TcpStream) (r : ℤ) (n : ℕ) : Prop where
  stream : ∃ i c, s' = { s with
    dataIn := i, serverClosed := c, outBuf := { s.outBuf with dataLen := n } }
  fits : n = s.outBuf.dataLen ∨ n ≤ s.outBuf.dataLen + bufFreeSpace s.outBuf
  failed : r < 0 → n = s.outBuf.dataLen

theorem feedLoop_grows {rs : List ReadResult} (hP : P.Ok) (ht : 0 ≤ t)
    (h : feedLoop t s P rs = .ok (r, s', P')) : P.Grows 0 P' ∧ ∃ n, s.Received s' r n := by
  -- nothing was read
  have hnone : ∀ i c r', s.Received { s with dataIn := i, serverClosed := c } r' s.outBuf.dataLen :=
    fun i c _ => ⟨⟨i, c, rfl⟩, .inl rfl, fun _ => rfl⟩
  induction rs with
  | nil =>
    unfold feedLoop at h
    split_ifs at h <;>
    · cases h
      exact ⟨.refl hP, _, hnone _ _ _⟩
  | cons a rs ih =>
    unfold feedLoop at h
    split_ifs at h
    swap
    · cases h
      exact ⟨.refl hP, _, hnone _ _ _⟩
    cases a with
    | eintr => exact ih h
    | eagain =>
      cases h
      exact ⟨.refl hP, _, hnone _ _ _⟩
    | error =>
      cases h
      exact ⟨.refl hP, _, hnone _ _ _⟩
    | eof =>
      cases h
      exact ⟨.refl hP, _, hnone _ _ _⟩
    | data c =>
      obtain ⟨P₁, hstore, h⟩ := bind_eq_ok.1 h
      cases h
      have hlen : (c.bytes.take (bufFreeSpace s.outBuf)).length ≤ bufFreeSpace s.outBuf := by
        rw [List.length_take]
        exact min_le_left _ _
      refine ⟨store_grows hP hstore, _, ⟨s.dataIn, s.serverClosed, rfl⟩, .inr ?_, fun hneg => ?_⟩
      · exact (Nat.mod_le _ _).trans (Nat.add_le_add_left hlen _)
      · omega

theorem streamFeedOut_grows {rs : List ReadResult} (hP : P.Ok)
    (h : streamFeedOut s rs P = .ok (r, s', P')) : P.Grows 0 P' ∧ ∃ n, s.Received s' r n := by
  unfold streamFeedOut at h
  split_ifs at h
  · cases h
    exact ⟨.refl hP, s.outBuf.dataLen, ⟨s.dataIn, s.serverClosed, rfl⟩, .inl rfl, fun _ => rfl⟩
  · exact feedLoop_grows hP le_rfl h

/-- The end of a stream only gives blocks back. -/
theorem memFreeStream_grows (hP : P.Ok) (h : memFreeStream s P = .ok P') : P.Grows 0 P' := by
  rw [memFreeStream_eq] at h
  generalize s.footprint = l at h
  induction l generalizing P with
  | nil =>
    cases h
    exact .refl hP
  | cons p l ih =>
    rw [List.foldlM_cons] at h
    obtain ⟨P₁, hfree, h⟩ := bind_eq_ok.1 h
    have h₁ := memFree_grows hP hfree
    exact h₁.trans_zero (ih h₁.ok h)

end Jujube
