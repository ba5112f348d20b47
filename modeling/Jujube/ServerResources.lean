import Jujube.ServerSweep

/-!
# What the server holds

Whatever the clients do, the descriptors that are open are those the process was started with, the
listening socket, one for each connection under way, and those that `accept_conn` got and did
nothing with (`server_descriptors`).
-/

namespace Jujube

open Pool Ownership Transition

namespace ServerProcess

variable {p p' : ServerProcess} {x : Connection} {T T' : ℕ → Occupant} {B : Finset ℤ} {l : List ℤ}
  {i : ℕ} {f : ℤ} {e : Event} {y : EpollData × ServerEvent} {o : Occupant}

/-! ### Descriptors -/

/-- The descriptor that `accept_conn` gets and does nothing with: no slot is free, or `fcntl`
fails. -/
def refused (p : ServerProcess) (y : EpollData × ServerEvent) : List ℤ :=
  match y.1 with
  | .ptr i =>
    if (p.gEvents i).callBack = some .acceptConn ∧
        (p.freeSlot = none ∨ y.2.accept.fcntl = false) then
      y.2.accept.cfd.toList
    else []
  | .fd _ => []

/-- Those of one step of the main loop. -/
def refusals (p : ServerProcess) : ServerOp → List ℤ
  | .tick _ => []
  | .batch es => trail callBack refused p es

/-- What is open is `B`, what was refused, and what the table owns, and these are apart. -/
structure Opens (B : Finset ℤ) (l : List ℤ) (T : ℕ → Occupant) (p : ServerProcess) : Prop where
  opened : ∀ f, f ∈ p.kernel.opened ↔ f ∈ B ∨ f ∈ l ∨ ∃ i, .fd f ∈ serverOwn i (T i)
  apart : ∀ i f, .fd f ∈ serverOwn i (T i) → f ∉ B ∧ f ∉ l
  nodup : l.Nodup
  new : ∀ f ∈ l, f ∉ B

/-- What is owned after slot `i` was given to `o`. -/
theorem exists_own_update {r : ServerResource} :
    (∃ j, r ∈ serverOwn j (Function.update T i o j)) ↔
      r ∈ serverOwn i o ∨ ∃ j ≠ i, r ∈ serverOwn j (T j) := by
  constructor
  · rintro ⟨j, hj⟩
    by_cases hji : j = i
    · subst hji
      rw [Function.update_self] at hj
      exact .inl hj
    · rw [Function.update_of_ne hji] at hj
      exact .inr ⟨j, hji, hj⟩
  · rintro (hi | ⟨j, hji, hj⟩)
    · exact ⟨i, by rwa [Function.update_self]⟩
    · exact ⟨j, by rwa [Function.update_of_ne hji]⟩

/-- A descriptor that was not open is opened: it is refused, or a slot owns it. -/
theorem Opens.refuse (ho : p.Opens B l T) (hnew : f ∉ p.kernel.opened) :
    Opens B (l ++ [f]) T { p with kernel := p.kernel.openFd f } := by
  have hold := (ho.opened f).not.1 hnew
  push Not at hold
  refine ⟨fun g => ?_, fun i g hg => ?_, ?_, fun g hg => ?_⟩
  · rw [Kernel.openFd_opened, Finset.mem_insert, ho.opened, List.mem_append, List.mem_singleton]
    tauto
  · obtain ⟨hB, hl⟩ := ho.apart i g hg
    refine ⟨hB, fun hmem => ?_⟩
    rcases List.mem_append.1 hmem with hmem | hmem
    · exact hl hmem
    · rw [List.mem_singleton.1 hmem] at hg
      exact hold.2.2 i hg
  · exact List.nodup_append.2 ⟨ho.nodup, List.nodup_singleton f, fun a ha b hb => by
      rw [List.mem_singleton.1 hb]
      rintro rfl
      exact hold.2.1 ha⟩
  · rcases List.mem_append.1 hg with hg | hg
    · exact ho.new g hg
    · rw [List.mem_singleton.1 hg]
      exact hold.1

/-- `accept_conn` -/
theorem accept_opens (h : Inv T p) (ho : p.Opens B l T) {a : Accept} (ha : New a p.kernel) :
    ∃ p' T', p.accept a = .ok p' ∧ Inv T' p' ∧
      p'.Opens B (l ++ if p.freeSlot = none ∨ a.fcntl = false then a.cfd.toList else []) T' := by
  obtain ⟨_ | cfd, fcntl, now⟩ := a
  · refine ⟨p, T, accept_none fcntl now p, h, ?_⟩
    simpa using ho
  obtain ⟨hpos, hnew⟩ := ha cfd rfl
  by_cases hleak : p.freeSlot = none ∨ fcntl = false
  · rw [if_pos hleak]
    exact ⟨_, T, accept_leaks hleak cfd now, h.openFd hnew, ho.refuse hnew⟩
  · rw [if_neg hleak, List.append_nil]
    rw [not_or, Bool.not_eq_false] at hleak
    obtain ⟨hsome, rfl⟩ := hleak
    obtain ⟨i, hi⟩ := Option.ne_none_iff_exists'.1 hsome
    obtain ⟨p', x, hrun, hp', htakes, -, hopened, -⟩ := accept_takes h hpos hnew hi now
    have hold := (ho.opened cfd).not.1 hnew
    push Not at hold
    have hfree : T i = .free := h.eq_free htakes.free
    have hsock : x.stream.serverSock = cfd := by
      have hserved : serverHolds i (Function.update T i (.serving x) i) p' := hp'.table.holds i
      rw [Function.update_self] at hserved
      have hx : x.Served i p' := hserved
      rw [← hx.fd, htakes.fd]
    have hother : ∀ j f, .fd f ∈ serverOwn j (T j) → j ≠ i := by
      rintro j f hf rfl
      rw [hfree] at hf
      cases mem_serverOwn_free.1 hf
    refine ⟨p', _, hrun, hp', fun f => ?_, fun j f hf => ?_, ho.nodup, ho.new⟩
    · rw [hopened, Finset.mem_insert, ho.opened, exists_own_update, fd_mem_serverOwn_serving, hsock]
      have hrest : (∃ j ≠ i, .fd f ∈ serverOwn j (T j)) ↔ ∃ j, .fd f ∈ serverOwn j (T j) :=
        ⟨fun ⟨j, _, hj⟩ => ⟨j, hj⟩, fun ⟨j, hj⟩ => ⟨j, hother j f hj, hj⟩⟩
      rw [hrest]
      exact or_left_comm.trans (or_congr_right or_left_comm)
    · rcases exists_own_update.1 ⟨j, hf⟩ with hmem | ⟨k, -, hk⟩
      · rw [fd_mem_serverOwn_serving.1 hmem, hsock]
        exact ⟨hold.1, hold.2.1⟩
      · exact ho.apart k f hk

/-- `data_transfer` -/
theorem Opens.handled (ho : p.Opens B l T) (h : Inv T p) (hT : T i = .serving x)
    (hx : x.Served i p) (h' : Inv (Function.update T i o) p') (ht : Handled x i o p p') :
    p'.Opens B l (Function.update T i o) := by
  have hsock : .fd x.stream.serverSock ∈ serverOwn i (T i) := by
    rw [hT]
    exact fd_mem_serverOwn_serving.2 rfl
  refine ⟨fun f => ?_, fun j f hf => ?_, ho.nodup, ho.new⟩
  · rw [exists_own_update]
    by_cases hf : f = x.stream.serverSock
    · subst hf
      obtain ⟨hB, hl⟩ := ho.apart i _ hsock
      constructor
      · exact fun hmem => .inr (.inr (.inl (ht.closed hmem)))
      · rintro (hmem | hmem | hmem | ⟨j, hji, hj⟩)
        · exact absurd hmem hB
        · exact absurd hmem hl
        · have hholds := h'.table.holds i
          rw [Function.update_self] at hholds
          exact slots.live_of_own hholds hmem
        · exact absurd (h.table.owner_unique hj hsock) hji
    · have hnot : ∀ r, .fd f ∈ serverOwn i r → r = T i ∨ r = o → False := by
        rintro r hr (rfl | rfl)
        · rw [hT, fd_mem_serverOwn_serving] at hr
          exact hf hr
        · exact hf (ht.sock f hr)
      have hsame : ServerResource.Same (.fd f) p p' := by
        refine ht.frame (.fd f) ?_
        rintro (hmem | hmem)
        · exact hf (fd_mem_serverOwn_serving.1 hmem)
        · exact hf (ht.sock f hmem)
      rw [hsame.1, ho.opened]
      refine or_congr_right (or_congr_right ⟨fun ⟨j, hj⟩ => ?_, ?_⟩)
      · refine .inr ⟨j, ?_, hj⟩
        rintro rfl
        exact hnot _ hj (.inl rfl)
      · rintro (hmem | ⟨j, -, hj⟩)
        · exact absurd (.inr rfl) (hnot _ hmem)
        · exact ⟨j, hj⟩
  · rcases exists_own_update.1 ⟨j, hf⟩ with hmem | ⟨k, -, hk⟩
    · rw [ht.sock f hmem]
      exact ho.apart i _ hsock
    · exact ho.apart k f hk

/-- A round of the main loop. -/
theorem Opens.swept {D : Finset ℕ} (ho : p.Opens B l T) (h : Inv T p) (ht : Swept D T p p')
    (hD : ∀ i ∈ D, ∃ x, T i = .serving x) :
    p'.Opens B l fun i => if i ∈ D then .free else T i := by
  have hown : ∀ j f, .fd f ∈ serverOwn j (if j ∈ D then .free else T j) ↔
      j ∉ D ∧ .fd f ∈ serverOwn j (T j) := by
    intro j f
    split_ifs with hj
    · exact iff_of_false (fun hf => by cases mem_serverOwn_free.1 hf) fun hf => hf.1 hj
    · exact (and_iff_right hj).symm
  refine ⟨fun f => ?_, fun j f hf => ho.apart j f ((hown j f).1 hf).2, ho.nodup, ho.new⟩
  simp only [hown]
  by_cases hf : ∃ i ∈ D, .fd f ∈ serverOwn i (T i)
  · obtain ⟨i, hi, hmem⟩ := hf
    obtain ⟨x, hx⟩ := hD i hi
    obtain ⟨hB, hl⟩ := ho.apart i f hmem
    refine iff_of_false ?_ ?_
    · have hsock : f = x.stream.serverSock := by
        rw [hx] at hmem
        exact fd_mem_serverOwn_serving.1 hmem
      rw [hsock]
      exact ht.closed i hi x hx
    · rintro (hmem' | hmem' | ⟨j, hj, hmem'⟩)
      · exact hB hmem'
      · exact hl hmem'
      · exact hj (h.table.owner_unique hmem hmem' ▸ hi)
  · rw [(ht.frame (.fd f) hf : ServerResource.Same (.fd f) p p').1, ho.opened]
    refine or_congr_right (or_congr_right (exists_congr fun j => ?_))
    exact (and_iff_right_of_imp fun hmem hj => hf ⟨j, hj, hmem⟩).symm

/-- One callback. -/
theorem callBack_opens (h : Inv T p) (ho : p.Opens B l T) (hy : p.Ready y)
    (hrun : p.callBack y = .ok p') :
    ∃ T', Inv T' p' ∧ p'.Opens B (l ++ p.refused y) T' := by
  obtain ⟨d, e⟩ := y
  obtain ⟨⟨f, m, hint⟩, hacc⟩ := hy
  obtain ⟨i, rfl, ⟨-, hcb⟩ | ⟨x, hT, hx, -⟩⟩ := h.of_interest hint
  · obtain ⟨p₁, T', haccept, h', ho'⟩ := accept_opens h ho hacc
    have hcall : p.callBack (.ptr i, e) = .ok p₁ := by
      simp only [callBack, hcb, haccept]
    cases hcall.symm.trans hrun
    refine ⟨T', h', ?_⟩
    have hrefused : p.refused (.ptr i, e) =
        if p.freeSlot = none ∨ e.accept.fcntl = false then e.accept.cfd.toList else [] := by
      simp only [refused, hcb, true_and]
    rw [hrefused]
    exact ho'
  · have hcall : p.callBack (.ptr i, e) = p.transfer i e.toEvent := by
      simp only [callBack, hx.callBack]
    have hrefused : p.refused (.ptr i, e) = [] := by
      simp [refused, hx.callBack]
    rw [hcall] at hrun
    rw [hrefused, List.append_nil]
    rcases transfer_spec hx h.pool e.toEvent with ⟨p₁, o, htransfer, ht⟩ | ⟨herror, -⟩
    · cases htransfer.symm.trans hrun
      have h' := h.turned ht.toTurned (hT ▸ Set.subset_union_left) fun r hr => by
        rw [hT]
        exact hr.elim .inl (ht.taken r)
      exact ⟨_, h', ho.handled h hT hx h' ht⟩
    · cases herror.symm.trans hrun

/-- One step of the main loop. -/
theorem step_opens (h : Inv T p) (ho : p.Opens B l T) {op : ServerOp} (hop : p.Allowed op)
    (hrun : p.step op = .ok p') : ∃ T', Inv T' p' ∧ p'.Opens B (l ++ p.refusals op) T' := by
  cases op with
  | tick now =>
    obtain ⟨p₁, htick, ht⟩ := tick_swept h now
    cases htick.symm.trans hrun
    refine ⟨_, ht.inv, ?_⟩
    rw [refusals, List.append_nil]
    refine ho.swept h ht fun i hi => ?_
    obtain ⟨hlt, hdue⟩ := Finset.mem_filter.1 hi
    obtain ⟨x, hT, -⟩ := (h.of_status hdue.1).resolve_left fun heq =>
      (Finset.mem_range.1 hlt).ne heq.1
    exact ⟨x, hT⟩
  | batch es =>
    exact run_trail (I := fun l p => ∃ T, Inv T p ∧ p.Opens B l T)
      (fun _ _ _ _ ⟨_, h, ho⟩ hy hcall => callBack_opens h ho hy hcall) ⟨T, h, ho⟩
      (steps_ready h hop.1 hop.2) hrun

variable {raw : Ptr → Bytes.Memory} {opened : Finset ℤ} {lfd now : ℤ} {ops : List ServerOp}

/-- The descriptor that a slot owns is the one it is in use for. -/
theorem Inv.fd_mem_iff (h : Inv T p) :
    .fd f ∈ serverOwn i (T i) ↔ (p.gEvents i).status = 1 ∧ (p.gEvents i).fd = f := by
  have hholds : serverHolds i (T i) p := h.table.holds i
  cases hT : T i with
  | free =>
    rw [hT] at hholds
    have hzero : (p.gEvents i).status = 0 := hholds
    simp [hzero]
  | listening g =>
    rw [hT] at hholds
    obtain ⟨-, hreg, -, hfd⟩ := hholds
    simp [hreg.status, hfd, eq_comm]
  | serving x =>
    rw [hT] at hholds
    have hx : x.Served i p := hholds
    simp [hx.reg.status, hx.fd, eq_comm]

/-- At the start the listening socket is open, and what the process was started with. -/
theorem init_opens (hlfd : lfd ∉ opened) :
    ∃ T, Inv T (init raw opened lfd now) ∧ (init raw opened lfd now).Opens opened [] T := by
  obtain ⟨T, h, hmax⟩ := init_inv raw hlfd now
  have hopened : (init raw opened lfd now).kernel.opened = insert lfd opened := by
    unfold init
    exact @eventadd_opened maxEvents _ _ _ now
  have hown : ∀ i f, .fd f ∈ serverOwn i (T i) ↔ i = maxEvents ∧ f = lfd := by
    intro i f
    by_cases hi : i = maxEvents
    · rw [hi, hmax, mem_serverOwn_listening]
      simp
    · have hzero : ((init raw opened lfd now).gEvents i).status = 0 := by
        show (Function.update (fun _ => MyEvent.zero) maxEvents _ i).status = 0
        rw [Function.update_of_ne hi]
        rfl
      rw [h.eq_free hzero, mem_serverOwn_free]
      simp [hi]
  refine ⟨T, h, fun f => ?_, fun i f hf => ?_, List.nodup_nil, by simp⟩
  · simp only [hown, hopened, Finset.mem_insert, List.not_mem_nil, false_or, exists_eq_left]
    exact or_comm
  · rw [((hown i f).1 hf).2]
    exact ⟨hlfd, List.not_mem_nil⟩

/-- **The descriptors of the server.**  In every run, whatever is reported and accepted: open are
the descriptors the process was started with, the ones of the slots in use, and those that
`accept_conn` did nothing with, and these are all different. -/
theorem server_descriptors (hlfd : lfd ∉ opened)
    (hops : Steps step Allowed (init raw opened lfd now) ops)
    (hp : run step (init raw opened lfd now) ops = .ok p) :
    (∀ f, f ∈ p.kernel.opened ↔ f ∈ opened ∨
      f ∈ trail step refusals (init raw opened lfd now) ops ∨
        ∃ i, (p.gEvents i).status = 1 ∧ (p.gEvents i).fd = f) ∧
    (∀ i, (p.gEvents i).status = 1 → (p.gEvents i).fd ∉ opened ∧
      (p.gEvents i).fd ∉ trail step refusals (init raw opened lfd now) ops) ∧
    (∀ f ∈ trail step refusals (init raw opened lfd now) ops, f ∉ opened) ∧
    (trail step refusals (init raw opened lfd now) ops).Nodup := by
  obtain ⟨T, h, ho⟩ : ∃ T, Inv T p ∧
      p.Opens opened ([] ++ trail step refusals (init raw opened lfd now) ops) T :=
    run_trail (I := fun l p => ∃ T, Inv T p ∧ p.Opens opened l T)
      (fun _ _ _ _ ⟨_, h, ho⟩ hop hstep => step_opens h ho hop hstep) (init_opens hlfd) hops hp
  rw [List.nil_append] at ho
  refine ⟨fun f => ?_, fun i hi => ho.apart i _ (h.fd_mem_iff.2 ⟨hi, rfl⟩), ho.new,
    ho.nodup⟩
  rw [ho.opened]
  exact or_congr_right (or_congr_right (exists_congr fun i => h.fd_mem_iff))

/-- A client for which `fcntl` fails. -/
def refusedClient : EpollData × ServerEvent :=
  (.ptr maxEvents, ⟨⟨true, false, [], [], 0⟩, ⟨some 6, false, 0⟩⟩)

/-- The process after it came. -/
def afterRefused : ServerProcess := { start with kernel := start.kernel.openFd 6 }

theorem start_refuses : start.callBack refusedClient = .ok afterRefused := by
  show start.accept ⟨some 6, false, 0⟩ = .ok afterRefused
  exact accept_leaks (.inr rfl) 6 0

theorem afterRefused_freeSlot : afterRefused.freeSlot = some 0 := start_freeSlot

/-- It comes first, and then one that gets a slot. -/
def twoClients : List ServerOp := [.batch [refusedClient], .batch [oneClient]]

theorem twoClients_run :
    ∃ p, Steps step Allowed start twoClients ∧ run step start twoClients = .ok p ∧
      trail step refusals start twoClients = [6] ∧ (p.gEvents 0).status = 1 ∧
      (p.gEvents 0).fd = 5 := by
  obtain ⟨T, h, -⟩ := init_inv (fun _ _ => 0) (show (3 : ℤ) ∉ ({4} : Finset ℤ) by decide) 0
  have hinv : Inv T afterRefused := h.openFd (by decide)
  obtain ⟨p, x, haccept, -, htakes, -⟩ := accept_takes hinv (show (0 : ℤ) ≤ 5 by decide)
    (by decide) afterRefused_freeSlot 0
  have hcall : afterRefused.callBack oneClient = .ok p := haccept
  have hstep := step_batch_one start_refuses
  refine ⟨p, (steps_cons_ok hstep _).2 ⟨@allowed_batch_one start maxEvents 3 ⟨true, false⟩ _ rfl ?_,
    @allowed_batch_one afterRefused maxEvents 3 ⟨true, false⟩ _ rfl ?_, fun _ _ => trivial⟩, ?_, ?_,
    htakes.registered.status, htakes.fd⟩
  · rintro cfd ⟨⟩
    exact ⟨by decide, by decide⟩
  · rintro cfd ⟨⟩
    exact ⟨by decide, by decide⟩
  · rw [twoClients, run_cons_ok hstep, run_cons_ok (step_batch_one hcall), run_nil]
  · have hlistens : (start.gEvents maxEvents).callBack = some .acceptConn := rfl
    rw [twoClients, trail_cons_ok hstep, trail_cons_ok (step_batch_one hcall), refusals, refusals,
      trail_cons_ok start_refuses, trail_cons_ok hcall]
    simp [trail, refused, refusedClient, oneClient, afterRefused_freeSlot, hlistens]

/-- The descriptor 6 stays open, and no slot has it. -/
theorem server_descriptors_twoClients :
    trail step refusals start twoClients = [6] ∧
    ∃ p, run step start twoClients = .ok p ∧ 5 ∈ p.kernel.opened ∧ 6 ∈ p.kernel.opened ∧
      (∀ f, f ∈ p.kernel.opened ↔ f = 4 ∨ f = 6 ∨
        ∃ i, (p.gEvents i).status = 1 ∧ (p.gEvents i).fd = f) ∧
      (∀ i, (p.gEvents i).status = 1 → (p.gEvents i).fd ≠ 4 ∧ (p.gEvents i).fd ≠ 6) ∧
      ∀ f ∈ trail step refusals start twoClients, f ≠ 4 := by
  obtain ⟨p, hops, hrun, hrefused, hstatus, hfd⟩ := twoClients_run
  obtain ⟨hopened, hslots, hnew, -⟩ := server_descriptors (by decide) hops hrun
  rw [← start] at hopened hslots hnew
  simp only [hrefused, Finset.mem_singleton, List.mem_singleton] at hopened hslots
  refine ⟨hrefused, p, hrun, (hopened 5).2 (.inr (.inr ⟨0, hstatus, hfd⟩)),
    (hopened 6).2 (.inr (.inl rfl)), hopened, hslots, fun f hf => ?_⟩
  exact Finset.notMem_singleton.1 (hnew f hf)

end ServerProcess

end Jujube
