import Jujube.ClientTraffic
import Jujube.ServerRun

/-!
# From `create_transaction` to `do_work`

A run of the client and a run of the server, and the connections between them.  TCP promises that
what the server reads on a connection is the beginning of what the client wrote to it (`Link`); how
the bytes are cut into reads, and when anything happens, is not promised.  Then every call of
`do_work` has the message of a transaction of its own (`messages_end_to_end`), and the server is
stopped exactly by a first read that is shorter than the length (`server_stops_iff`).
-/

namespace Jujube

open Bytes Transition

/-- Connection `k` of the server is the other end of connection `origin k` of the client, and what
was read on it is the beginning of what was written.  Where nothing was read there is nothing to
promise. -/
structure Link (t : Traffic) (p : ServerProcess) (origin : ℕ → ℕ) : Prop where
  injective : Set.InjOn origin {k | p.reads k ≠ []}
  bytes : ∀ k, (p.reads k).flatten <+: t.sent (origin k)

variable {entry : TransferLogEntry} {d m : List UInt8} {ops : List ClientOp} {t : Traffic}
  {p : ServerProcess} {origin : ℕ → ℕ} {n k : ℕ}

/-! ### The frame of a transaction -/

/-- Any beginning of a frame that has its length announces 512 bytes. -/
theorem TransferLogEntry.ofLe_take (hd : d <+: entry.frame) (h8 : 8 ≤ d.length) :
    ofLe (d.take 8) = 512 := by
  have htake : d.take 8 = le 8 512 := by
    rw [List.prefix_iff_eq_take.1 hd, List.take_take, min_eq_left h8]
    exact List.take_left' (length_le 8 512)
  rw [htake, ofLe_le_of_lt (by norm_num)]

/-- The frames of a client that has come from a run are those of its transactions. -/
theorem Traffic.frame_eq (hframes : t.frames = (dialledEntries ops).map TransferLogEntry.frame)
    (hn : t.frame n ≠ []) :
    ∃ entry, (dialledEntries ops)[n]? = some entry ∧ t.frame n = entry.frame := by
  unfold Traffic.frame at hn ⊢
  rw [hframes, List.getD_eq_getElem?_getD, List.getElem?_map] at hn ⊢
  cases hentry : (dialledEntries ops)[n]? with
  | none =>
    rw [hentry] at hn
    exact absurd rfl hn
  | some entry => exact ⟨entry, rfl, rfl⟩

/-- What was read on a connection is the beginning of the frame of a transaction. -/
theorem Link.reads (hlink : Link t p origin)
    (hframes : t.frames = (dialledEntries ops).map TransferLogEntry.frame)
    (hsent : ∀ k, t.sent k <+: t.frame k) (hne : (p.reads k).flatten ≠ []) :
    ∃ entry, (dialledEntries ops)[origin k]? = some entry ∧ t.frame (origin k) = entry.frame ∧
      (p.reads k).flatten <+: entry.frame := by
  have hprefix := (hlink.bytes k).trans (hsent (origin k))
  have hframe : t.frame (origin k) ≠ [] := by
    intro hnil
    rw [hnil, List.prefix_nil] at hprefix
    exact hne hprefix
  obtain ⟨entry, hentry, heq⟩ := Traffic.frame_eq hframes hframe
  exact ⟨entry, hentry, heq, heq ▸ hprefix⟩

/-! ### What `do_work` is handed -/

/-- A call of `do_work` has the message of the transaction whose frame was written to the
connection, all of it. -/
theorem Link.call (hlink : Link t p origin)
    (hframes : t.frames = (dialledEntries ops).map TransferLogEntry.frame)
    (hsent : ∀ k, t.sent k <+: t.frame k)
    (hdel : Delivered (ServerProcess.outcome (p.decoder k)) (p.callsOf k)) {w : Work}
    (hw : w ∈ p.callsOf k) :
    ∃ entry, (dialledEntries ops)[origin k]? = some entry ∧ w.len = 512 ∧
      w.buffer.take 512 = read entry.gatherLogmsg 0 512 ∧ t.sent (origin k) = entry.frame := by
  obtain ⟨-, hcalls, -⟩ := ServerProcess.calls_spec hdel
  obtain ⟨L, hL, -, hle, hlen, hbuf⟩ := hcalls w hw
  obtain ⟨entry, hentry, hframe, hprefix⟩ := hlink.reads hframes hsent (k := k)
    (List.ne_nil_of_length_pos (by omega))
  obtain rfl : L = 512 := hL.trans (TransferLogEntry.ofLe_take hprefix (by omega))
  have hall : (p.reads k).flatten = entry.frame :=
    hprefix.eq_of_length_le (by rw [entry.length_frame]; omega)
  refine ⟨entry, hentry, by exact_mod_cast hlen, ?_, ?_⟩
  · rw [hbuf, hall, TransferLogEntry.frame, List.drop_left' (length_le 8 512)]
    exact List.take_of_length_le (by rw [length_read])
  · have hsent' := hframe ▸ hsent (origin k)
    refine hsent'.eq_of_length_le ?_
    rw [← hall]
    exact (hlink.bytes k).length_le

theorem ServerProcess.count_calls (k : ℕ) (p : ServerProcess) :
    (p.calls.map Prod.fst).count k = (p.callsOf k).length := by
  unfold callsOf
  induction p.calls with
  | nil => rfl
  | cons c cs ih =>
    rw [List.map_cons, List.filterMap_cons]
    by_cases hk : c.1 = k
    · rw [hk, List.count_cons_self, ih, if_pos rfl]
      rfl
    · rw [List.count_cons_of_ne hk, ih, if_neg hk]

/-- No two calls of `do_work` are for one connection of the client. -/
theorem Link.nodup (hlink : Link t p origin)
    (hdel : ∀ k, Delivered (ServerProcess.outcome (p.decoder k)) (p.callsOf k)) :
    (p.calls.map fun c => origin c.1).Nodup := by
  have hread : ∀ k ∈ p.calls.map Prod.fst, p.reads k ≠ [] := by
    intro k hk hnil
    have hpos := List.count_pos_iff.2 hk
    rw [ServerProcess.count_calls] at hpos
    obtain ⟨w, hw⟩ := List.exists_mem_of_length_pos hpos
    obtain ⟨-, hcalls, -⟩ := ServerProcess.calls_spec (hdel k)
    obtain ⟨L, -, -, hle, -⟩ := hcalls w hw
    rw [hnil, List.flatten_nil, List.length_nil] at hle
    omega
  have hnodup : (p.calls.map Prod.fst).Nodup := by
    rw [List.nodup_iff_count_le_one]
    intro k
    rw [ServerProcess.count_calls]
    exact (ServerProcess.calls_spec (hdel k)).1
  have hmap := hnodup.map_on fun k hk l hl heq => hlink.injective (hread k hk) (hread l hl) heq
  rwa [List.map_map] at hmap

/-- When all of a frame was read and nothing ended the connection, only the first read matters. -/
theorem Link.call_iff (hlink : Link t p origin)
    (hframes : t.frames = (dialledEntries ops).map TransferLogEntry.frame)
    (hsent : ∀ k, t.sent k <+: t.frame k)
    (hdel : Delivered (ServerProcess.outcome (p.decoder k)) (p.callsOf k)) (hlasts : p.Lasts k)
    (hall : (p.reads k).flatten = t.frame (origin k)) :
    p.callsOf k ≠ [] ↔ 8 ≤ ((p.reads k).headD []).length := by
  rw [(ServerProcess.calls_spec hdel).2.2 hlasts]
  constructor
  · exact fun h => h.1.first
  · intro hfirst
    have hlen : 8 ≤ (p.reads k).flatten.length := by
      cases hreads : p.reads k with
      | nil =>
        rw [hreads] at hfirst
        exact absurd hfirst (by decide)
      | cons c cs =>
        rw [hreads] at hfirst
        rw [List.flatten_cons, List.length_append]
        exact Nat.le_add_right_of_le hfirst
    obtain ⟨entry, -, hframe, hprefix⟩ := hlink.reads hframes hsent (k := k)
      (List.ne_nil_of_length_pos (by omega))
    have hann : announced (p.reads k) = 512 := TransferLogEntry.ofLe_take hprefix hlen
    rw [hann]
    refine ⟨⟨hfirst, hann ▸ by decide⟩, p.reads k, List.prefix_refl _, ?_⟩
    rw [hall, hframe, entry.length_frame]

/-- The only stray reads on a connection of the client are a first read that is too short. -/
theorem Link.stray_iff (hlink : Link t p origin)
    (hframes : t.frames = (dialledEntries ops).map TransferLogEntry.frame)
    (hsent : ∀ k, t.sent k <+: t.frame k) {cs : List (List UInt8)} (hcs : cs <+: p.reads k) :
    Stray cs ↔ cs ≠ [] ∧ (cs.headD []).length < 8 := by
  constructor
  · rintro (hshort | ⟨hopen, -, hlt⟩)
    · exact hshort
    · have hle := (List.dropLast_prefix cs).flatten.length_le
      have hcs' := hcs.flatten
      obtain ⟨entry, -, -, hprefix⟩ := hlink.reads hframes hsent (k := k) (by
        refine List.ne_nil_of_length_pos ?_
        have := hcs'.length_le
        omega)
      have hann : announced cs = 512 :=
        TransferLogEntry.ofLe_take (hcs'.trans hprefix) hopen.length_le
      have hlen := (hcs'.trans hprefix).length_le
      rw [entry.length_frame] at hlen
      omega
  · exact .inl

/-! ### The two programs -/

section Runs

variable {raw raw' : Ptr → Memory} {opened opened' : Finset ℤ} {rd wr lfd now : ℤ}
  {sops : List ServerOp} {r : Except Crash ServerProcess}

/-- What is known of the traffic of a run of the client. -/
theorem Traffic.run_frames
    (hclient : Steps Client.step Client.Allowed (Client.init raw opened rd wr) ops)
    (ht : run Traffic.step (Traffic.init raw opened rd wr) ops = .ok t) :
    t.frames = (dialledEntries ops).map TransferLogEntry.frame ∧ ∀ k, t.sent k <+: t.frame k := by
  obtain ⟨t', T, hrun, -, h, hframes⟩ :=
    Traffic.run_inv (t := Traffic.init raw opened rd wr) (Traffic.init_inv raw opened rd wr) hclient
  cases hrun.symm.trans ht
  exact ⟨hframes, h.sent⟩

/-- **End to end.**  Whatever the two programs do, and however the bytes are cut into reads: every
call of `do_work` has the message of the transaction whose connection it is, after all of its frame
was written; no transaction is handled twice; and a frame that was read to its end, on a connection
that lasts, is handled exactly when the first read had the whole length. -/
theorem messages_end_to_end
    (hclient : Steps Client.step Client.Allowed (Client.init raw opened rd wr) ops)
    (ht : run Traffic.step (Traffic.init raw opened rd wr) ops = .ok t) (hlfd : lfd ∉ opened')
    (hserver : Steps ServerProcess.step ServerProcess.Allowed
      (ServerProcess.init raw' opened' lfd now) sops)
    (hr : run ServerProcess.step (ServerProcess.init raw' opened' lfd now) sops = r)
    (hlink : Link t (ServerProcess.final r) origin) :
    (∀ k, ∀ w ∈ (ServerProcess.final r).callsOf k,
      ∃ entry, (dialledEntries ops)[origin k]? = some entry ∧ w.len = 512 ∧
        w.buffer.take 512 = read entry.gatherLogmsg 0 512 ∧ t.sent (origin k) = entry.frame) ∧
    ((ServerProcess.final r).calls.map fun c => origin c.1).Nodup ∧
    ∀ k, (ServerProcess.final r).Lasts k →
      ((ServerProcess.final r).reads k).flatten = t.frame (origin k) →
      ((ServerProcess.final r).callsOf k ≠ [] ↔
        8 ≤ (((ServerProcess.final r).reads k).headD []).length) := by
  obtain ⟨hframes, hsent⟩ := Traffic.run_frames hclient ht
  have hdel := ServerProcess.final_decodes hlfd hserver hr
  exact ⟨fun k w hw => hlink.call hframes hsent (hdel k) hw, hlink.nodup hdel,
    fun k hlasts hall => hlink.call_iff hframes hsent (hdel k) hlasts hall⟩

/-- **What stops the server**: with clients of this program at the other ends, exactly a read event
after a first read of fewer than 8 bytes, on a connection that nothing has ended. -/
theorem server_stops_iff
    (hclient : Steps Client.step Client.Allowed (Client.init raw opened rd wr) ops)
    (ht : run Traffic.step (Traffic.init raw opened rd wr) ops = .ok t) (hlfd : lfd ∉ opened')
    (hserver : Steps ServerProcess.step ServerProcess.Allowed
      (ServerProcess.init raw' opened' lfd now) sops)
    (hr : run ServerProcess.step (ServerProcess.init raw' opened' lfd now) sops = r)
    (hlink : Link t (ServerProcess.final r) origin) :
    (∃ a, r = .error a) ↔
      ∃ k pre i post, (ServerProcess.final r).inputs k = pre ++ i :: post ∧ i.IsRead ∧
        ¬ Ended pre ∧ chunks pre ≠ [] ∧ ((chunks pre).headD []).length < 8 := by
  obtain ⟨hframes, hsent⟩ := Traffic.run_frames hclient ht
  rw [(ServerProcess.final_stops hlfd hserver hr).1]
  refine exists_congr fun k => ?_
  unfold ServerProcess.decoder
  rw [run_eq_error_iff]
  refine exists_congr fun pre => exists_congr fun i => exists_congr fun post =>
    and_congr_right fun hinputs => and_congr_right fun _ => and_congr_right fun _ => ?_
  refine hlink.stray_iff hframes hsent (k := k) ?_
  rw [ServerProcess.reads_eq, hinputs, chunks_append]
  exact List.prefix_append _ _

end Runs

/-! ### A message on its way -/

/-- A transaction gets its connection, and its frame is written at once. -/
def frameWritten : List ClientOp :=
  Client.frameQueued ++ [.batch [(.ptr 0, ⟨false, true, [], [.accept 519], 2⟩)]]

theorem frameWritten_run :
    ∃ t, Steps Client.step Client.Allowed Client.fresh frameWritten ∧
      run Traffic.step (Traffic.init (fun _ _ => 0) ∅ 3 4) frameWritten = .ok t ∧
      t.sent 0 = (Client.entryOfLen 512).frame := by
  obtain ⟨w, x, q, hsteps, hrun, hP, hx, hcb, hcarries, hlen⟩ := Client.frameQueued_run
  obtain ⟨t, T, htraffic, hclient, h, hframes⟩ :=
    Traffic.run_inv (t := Traffic.init (fun _ _ => 0) ∅ 3 4) (Traffic.init_inv _ _ _ _) hsteps
  obtain rfl : w = t.client := Except.ok.inj (hrun.symm.trans hclient)
  obtain ⟨y, hT⟩ := h.table.status_iff.1 hx.reg.status
  obtain ⟨hwire, q', hcarries', hsplit⟩ := h.carrying 0 y hT
  obtain rfl : y = x := Traffic.serves_eq hx (h.table.serves hT) rfl rfl rfl
  have hframes' : t.frames = [(Client.entryOfLen 512).frame] := hframes
  have hzero : t.wire 0 = 0 := by
    rw [hframes', List.length_singleton] at hwire
    omega
  have hframe : t.frame 0 = (Client.entryOfLen 512).frame := by
    unfold Traffic.frame
    rw [hframes']
    rfl
  rw [hzero, hframe] at hsplit
  -- nothing was written yet
  have hnil : t.sent 0 = [] := by
    have hq' : q'.length = 520 := by
      rw [hcarries'.inBuf.length, ← hcarries.inBuf.length, hlen]
    have hsum := congrArg List.length hsplit
    rw [List.length_append, TransferLogEntry.length_frame] at hsum
    exact List.length_eq_zero_iff.1 (by omega)
  rw [hnil, List.nil_append] at hsplit
  subst hsplit
  obtain ⟨t', T', hcall, -, -, -, -⟩ :=
    Traffic.callBack_inv h hT ⟨false, true, [], [.accept 519], 2⟩
  have hsent : t'.sent 0 = (Client.entryOfLen 512).frame := by
    unfold Traffic.callBack at hcall
    obtain ⟨w', -, hcall⟩ := bind_eq_ok.1 hcall
    cases hcall
    have htaken : writeTaken 520 [.accept 519] = 520 := by decide
    simp only [Client.emitted, if_pos hcb, Transfer.written_eq hx.toAttached hcarries' hP, hzero,
      Function.update_self, hnil, TransferLogEntry.length_frame, htaken, if_true, List.nil_append]
    exact List.take_of_length_le (by rw [TransferLogEntry.length_frame])
  refine ⟨t', (steps_append hrun _).2
    ⟨hsteps, Client.reported_one hx.reg _, fun _ _ => trivial⟩, ?_, hsent⟩
  rw [frameWritten, run_append htraffic]
  refine run_cons_ok ?_ []
  simp only [Traffic.step, Traffic.dispatch, hcall, ok_bind, pure_eq_ok]

/-- The frame, in one read. -/
def frameChunk : Chunk := ⟨(Client.entryOfLen 512).frame, by
  rw [← List.length_pos_iff_ne_nil, TransferLogEntry.length_frame]
  decide, by
  rw [TransferLogEntry.length_frame]
  decide⟩

/-- A client of the server comes, and its frame is read. -/
def frameRead : List ServerOp := ServerProcess.oneEvent (.ofRead frameChunk)

theorem frameRead_link (hsent : t.sent 0 = (Client.entryOfLen 512).frame)
    (hevents : p.events 0 = [some (.ofRead frameChunk)]) (hother : ∀ k ≠ 0, p.events k = []) :
    Link t p id ∧ p.reads 0 = [(Client.entryOfLen 512).frame] ∧ p.Lasts 0 := by
  have hzero : p.reads 0 = [(Client.entryOfLen 512).frame] := by
    unfold ServerProcess.reads
    rw [hevents]
    rfl
  refine ⟨⟨Function.injective_id.injOn, fun k => ?_⟩, hzero, fun o ho => ?_⟩
  · by_cases hk : k = 0
    · rw [hk, hzero, id, hsent, List.flatten_cons, List.flatten_nil, List.append_nil]
    · unfold ServerProcess.reads
      rw [hother k hk]
      exact List.nil_prefix
  · rw [hevents, List.mem_singleton] at ho
    refine ⟨_, ho, ?_⟩
    rintro (⟨h, -⟩ | ⟨-, h | h⟩) <;> cases h

/-- `do_work` is called, with the 512 bytes of the message. -/
theorem messages_end_to_end_frame :
    ∃ p w, run ServerProcess.step ServerProcess.start frameRead = .ok p ∧ w ∈ p.callsOf 0 ∧
      w.len = 512 ∧ w.buffer.take 512 = read (Client.entryOfLen 512).gatherLogmsg 0 512 := by
  obtain ⟨t, hclient, ht, hsent⟩ := frameWritten_run
  obtain ⟨p, hp, hevents, hother⟩ := ServerProcess.oneEvent_run frameChunk
  obtain ⟨hlink, hreads, hlasts⟩ := frameRead_link hsent hevents hother
  obtain ⟨hcalls, -, hiff⟩ := messages_end_to_end hclient ht (by decide)
    (ServerProcess.oneEvent_allowed _) hp hlink
  have hframe : t.frame 0 = (Client.entryOfLen 512).frame := by
    unfold Traffic.frame
    rw [(Traffic.run_frames hclient ht).1]
    rfl
  have hall : (p.reads 0).flatten = t.frame 0 := by
    rw [hreads, hframe, List.flatten_cons, List.flatten_nil, List.append_nil]
  have hfirst : 8 ≤ ((p.reads 0).headD []).length := by
    rw [hreads, List.headD_cons, TransferLogEntry.length_frame]
    decide
  obtain ⟨w, hw⟩ := List.exists_mem_of_ne_nil _ ((hiff 0 hlasts hall).2 hfirst)
  obtain ⟨entry, hentry, hlen, hbuf, -⟩ := hcalls 0 w hw
  cases hentry
  exact ⟨p, w, hp, hw, hlen, hbuf⟩

theorem server_stops_iff_frame :
    ∃ p, run ServerProcess.step ServerProcess.start frameRead = .ok p ∧
      ¬ ∃ k pre i post, p.inputs k = pre ++ i :: post ∧ i.IsRead ∧ ¬ Ended pre ∧
        chunks pre ≠ [] ∧ ((chunks pre).headD []).length < 8 := by
  obtain ⟨t, hclient, ht, hsent⟩ := frameWritten_run
  obtain ⟨p, hp, hevents, hother⟩ := ServerProcess.oneEvent_run frameChunk
  obtain ⟨hlink, -, -⟩ := frameRead_link hsent hevents hother
  have hiff := server_stops_iff hclient ht (by decide) (ServerProcess.oneEvent_allowed _) hp hlink
  exact ⟨p, hp, fun h => by cases (hiff.2 h).choose_spec⟩

end Jujube
