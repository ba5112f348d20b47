import Jujube.ServerDecoder

/-!
# What the server makes of a byte stream

The results about one accepted connection, over every run: which calls of `do_work` it makes, and
when a peer can stop the server.  All of them are read off the decoder that the server is
(`Server.run_spec`); what they depend on is where the reads begin and end.

* `readsOf`, `received`: the reads of a run, and their bytes;
* `Server.Delivers`: the run makes one call of `do_work`, with the message;
* `Server.delivers_iff`: when it does, for the reads of a frame and whatever follows it.
-/

namespace Jujube

open Bytes Pool Transition

/-- A read event at which `read` brings bytes, or finds none yet. -/
def Event.Succeeds (e : Event) : Prop :=
  e.readEvent = true ∧ firstRead e.reads ≠ .eof ∧ firstRead e.reads ≠ .error

/-- The event is the end of the connection: it has no flag, or `read` finds the end of the bytes or
fails. -/
def Event.Ends (e : Event) : Prop :=
  (e.readEvent = false ∧ e.writeEvent = false) ∨
    (e.readEvent = true ∧ (firstRead e.reads = .eof ∨ firstRead e.reads = .error))

/-- The bytes an event brings. -/
def Event.read (e : Event) : List (List UInt8) :=
  if e.readEvent then
    match firstRead e.reads with
    | .data c => [c.bytes]
    | _ => []
  else []

/-- The successful reads of a run, in order. -/
def readsOf (es : List Event) : List (List UInt8) := es.flatMap Event.read

/-- The bytes of a run. -/
def received (es : List Event) : List UInt8 := (readsOf es).flatten

/-- The calls of `do_work` in the run: one, with the message `m` and its length. -/
def Server.Delivers (c : Server) (es : List Event) (m : List UInt8) : Prop :=
  ∃ w, worksOf (c.run es) = [w] ∧ w.len = m.length ∧ w.buffer.take m.length = m

/-- After the run the stream is closed, and so is its descriptor. -/
def Server.ClosedAfter (c : Server) (es : List Event) : Prop :=
  ∃ c', c.run es = .ok c' ∧ c'.stream = none ∧ c'.ev.fd ∉ c'.kernel.opened

/-- A read event that brings the bytes of `d`. -/
def Event.ofRead (d : Chunk) : Event := ⟨true, false, [.data d], [], 0⟩

variable {P₀ P₁ P₂ : Pool} {c c₁ c₂ : Server} {es es₁ es₂ : List Event} {e : Event}
  {m t : List UInt8}

/-! ### The events of the server are the inputs of the decoder -/

theorem readsOf_eq (es : List Event) : readsOf es = chunks (es.map Event.input) := by
  induction es with
  | nil => rfl
  | cons e es ih =>
    rw [readsOf, List.flatMap_cons, ← readsOf, ih, List.map_cons]
    unfold Event.read Event.input
    cases e.readEvent
    · cases e.writeEvent <;> rfl
    · cases firstRead e.reads with
      | data c => simp [ReadResult.input, chunks, chunk_of_ne_nil c.nonempty]
      | eintr => rfl
      | eagain => rfl
      | eof => rfl
      | error => rfl

theorem Event.input_isRead : e.input.IsRead ↔ e.readEvent = true := by
  unfold Event.input
  cases e.readEvent
  · cases e.writeEvent <;> simp [Input.IsRead]
  · simp [ReadResult.input_isRead]

theorem Event.ends_iff : e.Ends ↔ e.input = .hangup ∨ e.input = .ended := by
  unfold Event.Ends Event.input
  cases e.readEvent
  · cases e.writeEvent <;> simp
  · cases firstRead e.reads <;> simp [ReadResult.input]

theorem Event.Succeeds.not_ends (h : e.Succeeds) : ¬ e.Ends := by
  rintro (h' | h')
  · rw [h.1] at h'
    exact absurd h'.1 (by simp)
  · exact h'.2.elim h.2.1 h.2.2

theorem ended_map_iff : Ended (es.map Event.input) ↔ ∃ e ∈ es, e.Ends := by
  simp only [Ended, List.mem_map, Event.ends_iff]
  constructor
  · rintro (⟨e, he, h⟩ | ⟨e, he, h⟩)
    · exact ⟨e, he, .inl h⟩
    · exact ⟨e, he, .inr h⟩
  · rintro ⟨e, he, h | h⟩
    · exact .inl ⟨e, he, h⟩
    · exact .inr ⟨e, he, h⟩

/-- How a run of an accepted connection ends: both it and the decoder go on, or both stop. -/
theorem Server.run_cases (hc : c.Accepted P₀) (es : List Event) :
    (∃ c' t, c.run es = .ok c' ∧ Transition.run Decoder.step Decoder.init (es.map Event.input) =
      .ok t ∧ c'.Sim P₀ t) ∨
    (c.run es = .error ⟨.assertFailed .serverOutBufEmpty, []⟩ ∧
      Transition.run Decoder.step Decoder.init (es.map Event.input) = .error ()) := by
  have hm := (Server.run_spec hc.sim es).2
  cases hrun : c.run es with
  | ok c' =>
    cases ht : Transition.run Decoder.step Decoder.init (es.map Event.input) with
    | ok t =>
      rw [hrun, ht] at hm
      cases hm with
      | ok hsim => exact .inl ⟨c', t, rfl, rfl, hsim⟩
    | error _ => rw [hrun, ht] at hm; cases hm
  | error a =>
    cases ht : Transition.run Decoder.step Decoder.init (es.map Event.input) with
    | ok t => rw [hrun, ht] at hm; cases hm
    | error _ =>
      rw [hrun, ht] at hm
      cases hm with
      | error ha => exact .inr ⟨congrArg _ ha, rfl⟩

/-- The calls of `do_work` are what the decoder delivered: a call means that it is closed, with
the body of the frame. -/
theorem Server.works_cases (hc : c.Accepted P₀) {w : Work} {ws : List Work}
    (hw : worksOf (c.run es) = w :: ws) :
    ∃ c' m, c.run es = .ok c' ∧ c'.Closed P₀ ∧ ws = [] ∧ w.len = m.length ∧
      w.buffer.take m.length = m ∧
      Transition.run Decoder.step Decoder.init (es.map Event.input) = .ok (.closed (some m)) := by
  rcases Server.run_cases hc es with ⟨c', t, hrun, ht, hsim⟩ | ⟨hrun, -⟩
  · rw [hrun] at hw
    cases hsim with
    | served quiet => simp [worksOf, quiet.works] at hw
    | @closed r hclosed hdel =>
      cases r with
      | none =>
        have hnil : c'.works = [] := hdel
        simp [worksOf, hnil] at hw
      | some m =>
        obtain ⟨w', hws, hlen, hbuf⟩ := hdel
        rw [worksOf, hws] at hw
        cases hw
        exact ⟨c', m, hrun, hclosed, rfl, hlen, hbuf, ht⟩
  · rw [hrun] at hw
    simp [worksOf] at hw

theorem Server.Delivers.closedAfter (hc : c.Accepted P₀) (h : c.Delivers es m) :
    c.ClosedAfter es := by
  obtain ⟨w, hw, -⟩ := h
  obtain ⟨c', -, hrun, hclosed, -⟩ := Server.works_cases hc hw
  exact ⟨c', hrun, hclosed.stream, hclosed.opened⟩

/-- The message is delivered exactly when the decoder delivers it. -/
theorem Server.delivers_iff_decoder (hc : c.Accepted P₀) : c.Delivers es m ↔
    Transition.run Decoder.step Decoder.init (es.map Event.input) = .ok (.closed (some m)) := by
  constructor
  · rintro ⟨w, hw, hlen, hbuf⟩
    obtain ⟨c', m', -, -, -, hlen', hbuf', ht⟩ := Server.works_cases hc hw
    have hmm : m'.length = m.length := by
      rw [hlen] at hlen'
      exact_mod_cast hlen'.symm
    rw [ht, ← hbuf', hmm, hbuf]
  · intro ht
    rcases Server.run_cases hc es with ⟨c', t, hrun, ht', hsim⟩ | ⟨-, ht'⟩
    · cases ht.symm.trans ht'
      cases hsim with
      | served _ _ hfits => exact absurd hfits id
      | closed hclosed hdel =>
        obtain ⟨w, hws, hlen, hbuf⟩ := hdel
        exact ⟨w, by rw [hrun, worksOf, hws], hlen, hbuf⟩
    · cases ht.symm.trans ht'

/-! ### A frame and what follows it -/

/-- The reads of a frame announce the length of its message. -/
theorem announced_frame (hm : m.length ≤ logMaxLen)
    (hrec : received es = le 8 m.length ++ m ++ t) : announced (readsOf es) = m.length := by
  have hlt : m.length < 256 ^ 8 := lt_of_le_of_lt hm (by norm_num [logMaxLen])
  unfold announced
  rw [show (readsOf es).flatten = le 8 m.length ++ m ++ t from hrec, List.append_assoc,
    List.take_left' (length_le 8 _), ofLe_le_of_lt hlt]

/-- **A message is delivered exactly when the first read has its whole length and some read ends
where its frame ends.** -/
theorem Server.delivers_iff (hc : c.Accepted P₀) (hm : 1 ≤ m.length) (hm' : m.length ≤ logMaxLen)
    (hes : ∀ e ∈ es, e.Succeeds) (hrec : received es = le 8 m.length ++ m ++ t) :
    c.Delivers es m ↔
      8 ≤ ((readsOf es).headD []).length ∧ Boundary (readsOf es) (8 + m.length) := by
  have hend : ¬ Ended (es.map Event.input) := by
    rw [ended_map_iff]
    rintro ⟨e, he, h⟩
    exact (hes e he).not_ends h
  have hann := announced_frame hm' hrec
  have hbody : bodyOf (readsOf es) = m := by
    unfold bodyOf
    rw [hann, show (readsOf es).flatten = le 8 m.length ++ m ++ t from hrec, List.append_assoc,
      List.drop_left' (length_le 8 _), List.take_left]
  rw [Server.delivers_iff_decoder hc, Jujube.delivers_iff hend, ← readsOf_eq, hann, hbody]
  constructor
  · rintro ⟨hopen, hbound, -⟩
    exact ⟨hopen.first, hbound⟩
  · rintro ⟨hfirst, hbound⟩
    exact ⟨⟨hfirst, hann ▸ ⟨hm, hm'⟩⟩, hbound, rfl⟩

/-- **The frame alone**: the message is delivered, and the stream closed then, exactly when the
first read has the whole length. -/
theorem frame_delivered_iff (hc : c.Accepted P₀) (hm : 1 ≤ m.length) (hm' : m.length ≤ logMaxLen)
    (hes : ∀ e ∈ es, e.Succeeds) (hrec : received es = le 8 m.length ++ m) :
    c.Delivers es m ∧ c.ClosedAfter es ↔ 8 ≤ ((readsOf es).headD []).length := by
  have hrec' : received es = le 8 m.length ++ m ++ [] := by rw [hrec, List.append_nil]
  have hend : Boundary (readsOf es) (8 + m.length) := by
    refine ⟨readsOf es, List.prefix_refl _, ?_⟩
    rw [show (readsOf es).flatten = le 8 m.length ++ m from hrec, List.length_append, length_le]
  constructor
  · rintro ⟨h, -⟩
    exact ((Server.delivers_iff hc hm hm' hes hrec').1 h).1
  · intro h
    have hdel := (Server.delivers_iff hc hm hm' hes hrec').2 ⟨h, hend⟩
    exact ⟨hdel, hdel.closedAfter hc⟩

/-- A frame of three bytes, cut behind the first and behind the second of them; in between a read
event finds nothing yet. -/
def framePieces : List Event :=
  [.ofRead ⟨le 8 3 ++ [97], by decide, by decide⟩, ⟨true, false, [.eagain], [], 0⟩,
    .ofRead ⟨[98], by decide, by decide⟩, .ofRead ⟨[99], by decide, by decide⟩]

theorem frame_delivered_iff_pieces :
    ∃ c, Server.Accepted (memModuleInit fun _ _ => 0) c ∧
      readsOf framePieces = [le 8 3 ++ [97], [98], [99]] ∧
      c.Delivers framePieces [97, 98, 99] ∧ c.ClosedAfter framePieces := by
  obtain ⟨c, hc⟩ := Server.exists_accepted (memModuleInit_ok fun _ _ => 0)
  have hes : ∀ e ∈ framePieces, e.Succeeds := by
    simp [framePieces, Event.ofRead, Event.Succeeds, firstRead]
  exact ⟨c, hc, by decide,
    (frame_delivered_iff hc (by decide) (by decide) hes (by decide)).2 (by decide)⟩

/-- A frame of one byte, with one byte in the first read. -/
def splitLength : List Event :=
  [.ofRead ⟨[1], by decide, by decide⟩, .ofRead ⟨[0, 0, 0, 0, 0, 0, 0, 97], by decide, by decide⟩]

/-- A frame whose length arrives in two reads is not delivered: the first of them is left in
`out_buf`, and the second read event stops the server. -/
theorem frame_split_in_length :
    ∃ c, Server.Accepted (memModuleInit fun _ _ => 0) c ∧ (∀ e ∈ splitLength, e.Succeeds) ∧
      received splitLength = le 8 1 ++ [97] ∧
      c.run splitLength = .error ⟨.assertFailed .serverOutBufEmpty, []⟩ ∧
      ¬ (c.Delivers splitLength [97] ∧ c.ClosedAfter splitLength) := by
  obtain ⟨c, hc⟩ := Server.exists_accepted (memModuleInit_ok fun _ _ => 0)
  have hdec : Transition.run Decoder.step Decoder.init (splitLength.map Event.input) =
      .error () := by decide
  refine ⟨c, hc, by simp [splitLength, Event.ofRead, Event.Succeeds, firstRead], by decide, ?_, ?_⟩
  · rcases Server.run_cases hc splitLength with ⟨c', t, -, ht, -⟩ | ⟨hrun, -⟩
    · cases ht.symm.trans hdec
    · exact hrun
  · rintro ⟨h, -⟩
    cases ((Server.delivers_iff_decoder hc).1 h).symm.trans hdec

/-! ### Any byte stream -/

/-- **What a run hands to `do_work`**, for any bytes, any reads and any events: at most one call,
for the message that the first bytes announce and only when all of it was received, with the
length announced and the bytes of the message.  The three counters agree in every state, and no
run takes the branch of `collect_data` for a body that is not as long as announced: it can stand
for anything. -/
theorem server_framing_safe (hc : c.Accepted P₀) (es : List Event) :
    (worksOf (c.run es)).length ≤ 1 ∧
    (∀ w ∈ worksOf (c.run es), ∃ L, L = ofLe ((received es).take 8) ∧ 1 ≤ L ∧ L ≤ logMaxLen ∧
      8 + L ≤ (received es).length ∧ w.len = L ∧
      w.buffer.take L = ((received es).drop 8).take L) ∧
    (∀ pre c' s, pre <+: es → c.run pre = .ok c' → c'.stream = some s →
      s.contentLen = s.dataRecved + s.replyBodySizeLeft) ∧
    (∀ mismatch, Transition.run (Server.step mismatch) c es = c.run es) := by
  refine ⟨?_, ?_, ?_, (Server.run_spec hc.sim es).1⟩
  · cases hw : worksOf (c.run es) with
    | nil => simp
    | cons w ws =>
      obtain ⟨-, -, -, -, rfl, -⟩ := Server.works_cases hc hw
      simp
  · intro w hw
    obtain ⟨v, ws, hvw⟩ := List.exists_cons_of_ne_nil (List.ne_nil_of_mem hw)
    obtain ⟨-, m, -, -, rfl, hlen, hbuf, ht⟩ := Server.works_cases hc hvw
    rw [hvw, List.mem_singleton] at hw
    subst hw
    obtain ⟨hopen, ⟨p, hp, hplen⟩, hm⟩ := (after_run ht).delivered
    rw [← readsOf_eq] at hopen hp hplen hm
    have hle : 8 + announced (readsOf es) ≤ (received es).length := by
      have := hp.flatten.length_le
      unfold received
      omega
    have hmlen : m.length = announced (readsOf es) := by
      rw [hm, bodyOf, List.length_take, List.length_drop]
      change min _ ((received es).length - 8) = _
      omega
    refine ⟨announced (readsOf es), rfl, hopen.valid.1, hopen.valid.2, hle, ?_, ?_⟩
    · rw [hlen, hmlen]
    · have hbody : w.buffer.take (announced (readsOf es)) = bodyOf (readsOf es) := by
        rw [← hmlen, hbuf, hm]
      exact hbody
  · intro pre c' s _ hrun hs
    rcases Server.run_cases hc pre with ⟨c₁, t, hrun₁, -, hsim⟩ | ⟨hrun₁, -⟩
    · cases hrun.symm.trans hrun₁
      cases hsim with
      | closed hclosed => simp [hclosed.stream] at hs
      | @served t s₁ got _ hopen hfits =>
        cases hs.symm.trans hopen.stream
        cases t with
        | header held => rw [hfits.2.left, hfits.2.recved, hfits.2.content, add_zero]
        | body len got' held =>
          obtain ⟨-, -, w, hcounts⟩ := hfits
          rw [hcounts.content, hcounts.recved, hcounts.left]
          ring
        | closed r => exact absurd hfits id
    · cases hrun.symm.trans hrun₁

/-- A frame of one byte in one read, and a byte behind it in the next. -/
def frameThenByte : List Event :=
  [.ofRead ⟨le 8 1 ++ [97], by decide, by decide⟩, .ofRead ⟨[98], by decide, by decide⟩]

/-- One call is made, for the byte of the frame; the byte behind it is in none. -/
theorem server_framing_safe_one :
    ∃ c w, Server.Accepted (memModuleInit fun _ _ => 0) c ∧
      worksOf (c.run frameThenByte) = [w] ∧ w.len = 1 ∧ w.buffer.take 1 = [97] ∧
      (∀ pre c' s, pre <+: frameThenByte → c.run pre = .ok c' → c'.stream = some s →
        s.contentLen = s.dataRecved + s.replyBodySizeLeft) ∧
      (∀ mismatch, Transition.run (Server.step mismatch) c frameThenByte =
        c.run frameThenByte) := by
  obtain ⟨c, hc⟩ := Server.exists_accepted (memModuleInit_ok fun _ _ => 0)
  obtain ⟨w, hw, -⟩ : c.Delivers frameThenByte [97] :=
    (Server.delivers_iff_decoder hc).2 (by decide)
  obtain ⟨-, hcall, hcounts, hmismatch⟩ := server_framing_safe hc frameThenByte
  obtain ⟨L, hL, -, -, -, hlen, hbuf⟩ := hcall w (by rw [hw]; exact List.mem_singleton_self w)
  obtain rfl : L = 1 := hL.trans (by decide)
  exact ⟨c, w, hc, hw, hlen, hbuf.trans (by decide), hcounts, hmismatch⟩

/-! ### Bytes behind the frame -/

/-- **Two runs over the same frame and what follows it** both deliver the message exactly when in
both of them some read ends where the frame ends. -/
theorem frame_end_delivered_iff (hc₁ : c₁.Accepted P₁) (hc₂ : c₂.Accepted P₂) (hm : 1 ≤ m.length)
    (hm' : m.length ≤ logMaxLen) (hes₁ : ∀ e ∈ es₁, e.Succeeds) (hes₂ : ∀ e ∈ es₂, e.Succeeds)
    (hrec₁ : received es₁ = le 8 m.length ++ m ++ t)
    (hrec₂ : received es₂ = le 8 m.length ++ m ++ t)
    (hfirst₁ : 8 ≤ ((readsOf es₁).headD []).length)
    (hfirst₂ : 8 ≤ ((readsOf es₂).headD []).length) :
    c₁.Delivers es₁ m ∧ c₂.Delivers es₂ m ↔
      Boundary (readsOf es₁) (8 + m.length) ∧ Boundary (readsOf es₂) (8 + m.length) := by
  rw [Server.delivers_iff hc₁ hm hm' hes₁ hrec₁, Server.delivers_iff hc₂ hm hm' hes₂ hrec₂]
  exact and_congr (and_iff_right hfirst₁) (and_iff_right hfirst₂)

/-- The bytes of `frameThenByte` in one read. -/
def frameAndByte : List Event := [.ofRead ⟨le 8 1 ++ [97, 98], by decide, by decide⟩]

theorem frame_end_delivered_iff_one :
    ∃ c, Server.Accepted (memModuleInit fun _ _ => 0) c ∧
      (c.Delivers frameThenByte [97] ∧ c.Delivers frameAndByte [97] ↔
        Boundary (readsOf frameThenByte) 9 ∧ Boundary (readsOf frameAndByte) 9) := by
  obtain ⟨c, hc⟩ := Server.exists_accepted (memModuleInit_ok fun _ _ => 0)
  refine ⟨c, hc, frame_end_delivered_iff (t := [98]) hc hc (by decide) (by decide) ?_ ?_
    (by decide) (by decide) (by decide) (by decide)⟩
  · simp [frameThenByte, Event.ofRead, Event.Succeeds, firstRead]
  · simp [frameAndByte, Event.ofRead, Event.Succeeds, firstRead]

/-- One byte behind the frame, in the same read as its last byte, and nothing is delivered; in a
read of its own, and the message is. -/
theorem frame_end_in_read :
    ∃ c, Server.Accepted (memModuleInit fun _ _ => 0) c ∧
      (∀ e ∈ frameThenByte, e.Succeeds) ∧ (∀ e ∈ frameAndByte, e.Succeeds) ∧
      received frameThenByte = le 8 1 ++ [97] ++ [98] ∧
      received frameAndByte = le 8 1 ++ [97] ++ [98] ∧
      8 ≤ ((readsOf frameThenByte).headD []).length ∧
      8 ≤ ((readsOf frameAndByte).headD []).length ∧
      c.Delivers frameThenByte [97] ∧ worksOf (c.run frameAndByte) = [] ∧
      ¬ c.Delivers frameAndByte [97] := by
  obtain ⟨c, hc⟩ := Server.exists_accepted (memModuleInit_ok fun _ _ => 0)
  have hdec : Transition.run Decoder.step Decoder.init (frameAndByte.map Event.input) =
      .ok (.body 1 [97, 98] []) := by decide
  refine ⟨c, hc, by simp [frameThenByte, Event.ofRead, Event.Succeeds, firstRead],
    by simp [frameAndByte, Event.ofRead, Event.Succeeds, firstRead], by decide, by decide,
    by decide, by decide, (Server.delivers_iff_decoder hc).2 (by decide), ?_, fun h => ?_⟩
  · rcases Server.run_cases hc frameAndByte with ⟨c', t, hrun, ht, hsim⟩ | ⟨-, ht⟩
    · cases ht.symm.trans hdec
      cases hsim with
      | served quiet => rw [hrun, worksOf, quiet.works]
    · cases ht.symm.trans hdec
  · cases ((Server.delivers_iff_decoder hc).1 h).symm.trans hdec

/-! ### Stopping the server -/

/-- **A peer stops the server, through a failed assertion, exactly with a read event after stray
reads**: reads that brought less than the length so far, or that went on after one that ended
beyond the frame, on a connection that nothing has ended. -/
theorem server_never_aborts_iff (hc : c.Accepted P₀) (es : List Event) :
    (∀ a ws, c.run es ≠ .error ⟨.assertFailed a, ws⟩) ↔
      ¬ ∃ pre e post, es = pre ++ e :: post ∧ e.readEvent = true ∧ (∀ e' ∈ pre, ¬ e'.Ends) ∧
        Stray (readsOf pre) := by
  have hdec : (∀ a ws, c.run es ≠ .error ⟨.assertFailed a, ws⟩) ↔
      Transition.run Decoder.step Decoder.init (es.map Event.input) ≠ .error () := by
    rcases Server.run_cases hc es with ⟨c', t, hrun, ht, -⟩ | ⟨hrun, ht⟩
    · simp [hrun, ht]
    · simp [hrun, ht]
  rw [hdec, Ne, not_iff_not, run_eq_error_iff]
  constructor
  · rintro ⟨pre', i, post', heq, hread, hend, hstray⟩
    obtain ⟨pre, rest, rfl, rfl, hrest⟩ := List.map_eq_append_iff.1 heq
    obtain ⟨e, post, rfl, rfl, rfl⟩ := List.map_eq_cons_iff.1 hrest
    refine ⟨pre, e, post, rfl, Event.input_isRead.1 hread, ?_, ?_⟩
    · intro e' he' hends
      exact hend (ended_map_iff.2 ⟨e', he', hends⟩)
    · rwa [readsOf_eq]
  · rintro ⟨pre, e, post, rfl, hread, hend, hstray⟩
    refine ⟨pre.map Event.input, e.input, post.map Event.input, by simp,
      Event.input_isRead.2 hread, ?_, ?_⟩
    · rw [ended_map_iff]
      rintro ⟨e', he', hends⟩
      exact hend e' he' hends
    · rwa [← readsOf_eq]

theorem server_never_aborts_iff_one :
    ∃ c, Server.Accepted (memModuleInit fun _ _ => 0) c ∧
      ((∀ a ws, c.run frameThenByte ≠ .error ⟨.assertFailed a, ws⟩) ↔
        ¬ ∃ pre e post, frameThenByte = pre ++ e :: post ∧ e.readEvent = true ∧
          (∀ e' ∈ pre, ¬ e'.Ends) ∧ Stray (readsOf pre)) := by
  obtain ⟨c, hc⟩ := Server.exists_accepted (memModuleInit_ok fun _ _ => 0)
  exact ⟨c, hc, server_never_aborts_iff hc frameThenByte⟩

/-- A byte, and then a read event that finds nothing. -/
theorem server_aborts_after_byte :
    ∃ c, Server.Accepted (memModuleInit fun _ _ => 0) c ∧
      c.run [.ofRead ⟨[1], by decide, by decide⟩, ⟨true, false, [.eagain], [], 0⟩] =
        .error ⟨.assertFailed .serverOutBufEmpty, []⟩ := by
  obtain ⟨c, hc⟩ := Server.exists_accepted (memModuleInit_ok fun _ _ => 0)
  have hdec : Transition.run Decoder.step Decoder.init
      ([Event.ofRead ⟨[1], by decide, by decide⟩, ⟨true, false, [.eagain], [], 0⟩].map
        Event.input) = .error () := by decide
  refine ⟨c, hc, ?_⟩
  rcases Server.run_cases hc _ with ⟨c', t, -, ht, -⟩ | ⟨hrun, -⟩
  · cases ht.symm.trans hdec
  · exact hrun

end Jujube
