import Jujube.Foundation.Bytes
import Jujube.Foundation.Transition

/-!
# A decoder of one frame

What the server makes of the bytes of one connection, without the buffers: a frame is eight bytes
of length, least significant first, and that many bytes of body, and the decoder takes whole reads.

* `Decoder`: waiting for the length, collecting the body, or closed; `held` are bytes that were
  read and left where the next read expects nothing, so that the next read is the end of the
  decoder (`step` is an error);
* `After is s`: what `s` says about the inputs `is` so far;
* `run_eq_error_iff`: the inputs at which the decoder ends that way;
* `delivers_iff`: the inputs on which a body is delivered, when nothing but reads happens.

The statements are about the reads (`chunks`): where they begin and end is what decides.
-/

namespace Jujube

open Bytes Transition

/-- The longest body. -/
def maxBody : ℕ := 1024 * 32

/-- A length that is accepted. -/
def ValidLen (len : ℕ) : Prop := 1 ≤ len ∧ len ≤ maxBody

instance (len : ℕ) : Decidable (ValidLen len) := by unfold ValidLen; infer_instance

/-- The decoder: the length is awaited; `got` of `len` bytes are there; nothing more is awaited. -/
inductive Decoder
  | header (held : List UInt8)
  | body (len : ℕ) (got held : List UInt8)
  | closed (delivered : Option (List UInt8))
  deriving DecidableEq

/-- What can happen to the decoder.  A read of no bytes is one that found nothing. -/
inductive Input
  | hangup
  | idle
  | read (d : List UInt8)
  | ended
  deriving DecidableEq

namespace Decoder

def held : Decoder → List UInt8
  | header held | body _ _ held => held
  | closed _ => []

def IsClosed : Decoder → Prop
  | closed _ => True
  | _ => False

instance (s : Decoder) : Decidable s.IsClosed := by cases s <;> unfold IsClosed <;> infer_instance

/-- More of the body. -/
def collect (len : ℕ) (got d : List UInt8) : Decoder :=
  if (got ++ d).length = len then closed (some (got ++ d)) else body len (got ++ d) []

/-- A read when nothing is held. -/
def read : Decoder → List UInt8 → Decoder
  | header _, d =>
    if d.length < 8 then header d
    else if ValidLen (ofLe (d.take 8)) then collect (ofLe (d.take 8)) [] (d.drop 8)
    else closed none
  | body len got _, d => if got.length < len then collect len got d else body len got d
  | closed r, _ => closed r

theorem read_header (held d : List UInt8) : read (header held) d =
    if d.length < 8 then header d
    else if ValidLen (ofLe (d.take 8)) then collect (ofLe (d.take 8)) [] (d.drop 8)
    else closed none := rfl

theorem read_body (len : ℕ) (got held d : List UInt8) : read (body len got held) d =
    if got.length < len then collect len got d else body len got d := rfl

/-- One input. -/
def step (s : Decoder) (i : Input) : Except Unit Decoder :=
  if s.IsClosed then .ok s
  else match i with
    | .hangup => .ok (closed none)
    | .idle => .ok s
    | .read d => if s.held = [] then .ok (s.read d) else .error ()
    | .ended => if s.held = [] then .ok (closed none) else .error ()

/-- A new decoder. -/
def init : Decoder := header []

end Decoder

/-! ### The reads of a run -/

/-- A read, unless it found nothing. -/
def chunk (d : List UInt8) : List (List UInt8) := if d = [] then [] else [d]

/-- The reads that found something. -/
def chunks : List Input → List (List UInt8)
  | [] => []
  | .read d :: is => chunk d ++ chunks is
  | _ :: is => chunks is

/-- The connection was given up, or ended by the peer. -/
def Ended (is : List Input) : Prop := Input.hangup ∈ is ∨ Input.ended ∈ is

/-- The length the bytes announce. -/
def announced (cs : List (List UInt8)) : ℕ := ofLe (cs.flatten.take 8)

/-- The first read has the whole length, and the length is accepted. -/
structure Opened (cs : List (List UInt8)) : Prop where
  first : 8 ≤ (cs.headD []).length
  valid : ValidLen (announced cs)

/-- Some read ends at offset `n`. -/
def Boundary (cs : List (List UInt8)) (n : ℕ) : Prop := ∃ p, p <+: cs ∧ p.flatten.length = n

/-- The reads leave bytes behind: less than the length, or something after a read that went beyond
the frame. -/
def Stray (cs : List (List UInt8)) : Prop :=
  (cs ≠ [] ∧ (cs.headD []).length < 8) ∨
    (Opened cs ∧ ¬ Boundary cs (8 + announced cs) ∧
      8 + announced cs < cs.dropLast.flatten.length)

variable {cs cs' : List (List UInt8)} {is : List Input} {d : List UInt8} {s s' : Decoder}

@[simp] theorem chunk_nil : chunk [] = [] := rfl

theorem chunk_of_ne_nil (h : d ≠ []) : chunk d = [d] := if_neg h

@[simp] theorem flatten_chunk (d : List UInt8) : (chunk d).flatten = d := by
  by_cases h : d = [] <;> simp [chunk, h]

@[simp] theorem chunks_append (is js : List Input) :
    chunks (is ++ js) = chunks is ++ chunks js := by
  induction is with
  | nil => rfl
  | cons i is ih => cases i <;> simp [chunks, ih]

theorem ended_append (is js : List Input) : Ended (is ++ js) ↔ Ended is ∨ Ended js := by
  simp only [Ended, List.mem_append]
  tauto

/-- What the reads announce is settled by the first one, when it has eight bytes. -/
theorem announced_append (h : 8 ≤ (cs.headD []).length) (cs' : List (List UInt8)) :
    announced (cs ++ cs') = announced cs := by
  unfold announced
  rw [List.flatten_append, List.take_append_of_le_length]
  cases cs with
  | nil => simp at h
  | cons d ds =>
    have hd : 8 ≤ d.length := h
    simp only [List.flatten_cons, List.length_append]
    omega

theorem headD_append (h : cs ≠ []) (cs' : List (List UInt8)) :
    (cs ++ cs').headD [] = cs.headD [] := by
  cases cs with
  | nil => exact absurd rfl h
  | cons d ds => rfl

theorem Opened.ne_nil (h : Opened cs) : cs ≠ [] := by
  rintro rfl
  have := h.first
  simp at this

theorem Opened.length_le (h : Opened cs) : 8 ≤ cs.flatten.length := by
  have hfirst := h.first
  cases cs with
  | nil => exact absurd rfl h.ne_nil
  | cons d ds =>
    have hd : 8 ≤ d.length := hfirst
    simp only [List.flatten_cons, List.length_append]
    omega

theorem Opened.append (h : Opened cs) (cs' : List (List UInt8)) : Opened (cs ++ cs') := by
  refine ⟨?_, ?_⟩
  · rw [headD_append h.ne_nil]
    exact h.first
  · rw [announced_append h.first]
    exact h.valid

theorem Boundary.append {n : ℕ} (h : Boundary cs n) (cs' : List (List UInt8)) :
    Boundary (cs ++ cs') n := by
  obtain ⟨p, hp, hn⟩ := h
  exact ⟨p, hp.trans (List.prefix_append cs cs'), hn⟩

/-- Where the first reads go beyond `n`, the later ones make no boundary at `n`. -/
theorem Boundary.of_append {n : ℕ} (h : Boundary (cs ++ cs') n) (hn : n < cs.flatten.length) :
    Boundary cs n := by
  obtain ⟨p, hp, rfl⟩ := h
  rcases List.prefix_or_prefix_of_prefix hp (List.prefix_append cs cs') with hpc | hcp
  · exact ⟨p, hpc, rfl⟩
  · have := hcp.flatten.length_le
    omega

/-- Reads that end before `n`, all but the last, have a boundary at `n` only at their end. -/
theorem boundary_iff {n : ℕ} (h : cs.dropLast.flatten.length < n) :
    Boundary cs n ↔ cs.flatten.length = n := by
  constructor
  · rintro ⟨p, hp, rfl⟩
    by_cases hnil : cs = []
    · subst hnil
      rw [List.prefix_nil.1 hp]
    · rw [← List.dropLast_concat_getLast hnil] at hp
      rcases List.prefix_concat_iff.1 hp with rfl | hp
      · rw [List.dropLast_concat_getLast hnil]
      · have := hp.flatten.length_le
        omega
  · intro hn
    exact ⟨cs, List.prefix_refl cs, hn⟩

/-! ### What a decoder says about its inputs -/

/-- What the state of the decoder says about the inputs so far. -/
def After (is : List Input) : Decoder → Prop
  | .header held => ¬ Ended is ∧ held.length < 8 ∧ chunks is = chunk held
  | .body len got held => ¬ Ended is ∧ ∃ cs, chunks is = cs ++ chunk held ∧ Opened cs ∧
      len = announced cs ∧ got = cs.flatten.drop 8 ∧ cs.dropLast.flatten.length < 8 + len ∧
      got.length ≠ len ∧ (held ≠ [] → len < got.length)
  | .closed none => Ended is ∨
      ∃ cs, cs <+: chunks is ∧ 8 ≤ (cs.headD []).length ∧ ¬ ValidLen (announced cs)
  | .closed (some m) => ∃ cs, cs <+: chunks is ∧ Opened cs ∧
      cs.flatten.length = 8 + announced cs ∧ m = cs.flatten.drop 8

/-- More inputs do not undo what a closed decoder stands for. -/
theorem After.closed_append {r : Option (List UInt8)} (h : After is (.closed r)) (js : List Input) :
    After (is ++ js) (.closed r) := by
  have hpre : chunks is <+: chunks (is ++ js) := by
    rw [chunks_append]
    exact List.prefix_append _ _
  cases r with
  | none =>
    rcases h with h | ⟨cs, hcs, hfirst, hlen⟩
    · exact .inl ((ended_append is js).2 (.inl h))
    · exact .inr ⟨cs, hcs.trans hpre, hfirst, hlen⟩
  | some m =>
    obtain ⟨cs, hcs, hopen, hlen, hm⟩ := h
    exact ⟨cs, hcs.trans hpre, hopen, hlen, hm⟩

/-- A decoder that is not closed was not ended. -/
theorem After.not_ended (h : After is s) (hs : ¬ s.IsClosed) : ¬ Ended is := by
  cases s with
  | header held => exact h.1
  | body len got held => exact h.1
  | closed r => exact absurd trivial hs

theorem not_ended_concat {i : Input} (h : ¬ Ended is) (hi : i ≠ .hangup ∧ i ≠ .ended) :
    ¬ Ended (is ++ [i]) := by
  rw [ended_append]
  rintro (h' | h' | h')
  · exact h h'
  · exact hi.1 (List.mem_singleton.1 h').symm
  · exact hi.2 (List.mem_singleton.1 h').symm

/-- A decoder that is not closed is closed by a hangup, or by the end of the bytes. -/
theorem After.ended_concat {i : Input} (hi : i = .hangup ∨ i = .ended) :
    After (is ++ [i]) (.closed none) := by
  refine .inl ((ended_append is [i]).2 (.inr ?_))
  rcases hi with rfl | rfl
  · exact .inl (List.mem_singleton.2 rfl)
  · exact .inr (List.mem_singleton.2 rfl)

/-- An input that brings no bytes and does not end the connection changes nothing. -/
theorem After.of_chunks_eq {i : Input} (h : After is s) (hs : ¬ s.IsClosed)
    (hi : i ≠ .hangup ∧ i ≠ .ended) (hc : chunks (is ++ [i]) = chunks is) :
    After (is ++ [i]) s := by
  have hend := not_ended_concat (h.not_ended hs) hi
  cases s with
  | header held => exact ⟨hend, h.2.1, hc.trans h.2.2⟩
  | body len got held =>
    obtain ⟨-, cs, hcs, hrest⟩ := h
    exact ⟨hend, cs, hc.trans hcs, hrest⟩
  | closed r => exact absurd trivial hs

/-- Bytes that are collected. -/
theorem After.collect {len : ℕ} {got : List UInt8} (hend : ¬ Ended is) (hcs : chunks is = cs)
    (hopen : Opened cs) (hlen : len = announced cs) (hgot : got ++ d = cs.flatten.drop 8)
    (hlast : cs.dropLast.flatten.length < 8 + len) : After is (Decoder.collect len got d) := by
  have h8 := hopen.length_le
  unfold Decoder.collect
  split_ifs with hfull
  · refine ⟨cs, by rw [hcs], hopen, ?_, hgot⟩
    rw [hgot, List.length_drop] at hfull
    omega
  · exact ⟨hend, cs, by simp [hcs], hopen, hlen, hgot, hlast, hfull, fun h => absurd rfl h⟩

/-- Bytes that are read before a length was. -/
theorem After.read_header {d : List UInt8} (h : After is (.header [])) :
    After (is ++ [.read d]) ((Decoder.header []).read d) := by
  have hend := not_ended_concat (i := .read d) (h.not_ended id) (by simp)
  have hcs : chunks (is ++ [.read d]) = chunk d := by
    have hchunks : chunks (is ++ [.read d]) = chunks is ++ chunk d := by simp [chunks]
    rw [hchunks, h.2.2]
    rfl
  rw [Decoder.read_header]
  split_ifs with hshort hvalid
  · exact ⟨hend, hshort, hcs⟩
  · have hd : chunk d = [d] := chunk_of_ne_nil (by rintro rfl; simp at hshort)
    have hann : announced [d] = ofLe (d.take 8) := by simp [announced]
    refine After.collect hend hcs ?_ ?_ ?_ ?_
    · rw [hd]
      exact ⟨not_lt.1 hshort, hann ▸ hvalid⟩
    · rw [hd, hann]
    · simp
    · simp [hd]
  · have hd : chunk d = [d] := chunk_of_ne_nil (by rintro rfl; simp at hshort)
    refine .inr ⟨[d], by rw [hcs, hd], not_lt.1 hshort, ?_⟩
    simpa [announced] using hvalid

/-- Bytes that are read into a body. -/
theorem After.read_body {d got : List UInt8} {len : ℕ} (h : After is (.body len got [])) :
    After (is ++ [.read d]) ((Decoder.body len got []).read d) := by
  have hend := not_ended_concat (i := .read d) (h.not_ended id) (by simp)
  obtain ⟨-, cs, hcs, hopen, hlen, hgot, hlast, hne, -⟩ := h
  have hcs' : chunks (is ++ [.read d]) = cs ++ chunk d := by
    have hchunks : chunks (is ++ [.read d]) = chunks is ++ chunk d := by simp [chunks]
    rw [hchunks, hcs, chunk_nil, List.append_nil]
  rw [Decoder.read_body]
  split_ifs with hmore
  · have h8 := hopen.length_le
    refine After.collect hend hcs' (hopen.append _) ?_ ?_ ?_
    · rw [announced_append hopen.first, hlen]
    · rw [hgot, List.flatten_append, flatten_chunk, List.drop_append_of_le_length h8]
    · by_cases hd : d = []
      · simpa [hd] using hlast
      · rw [chunk_of_ne_nil hd, List.dropLast_concat]
        rw [hgot, List.length_drop] at hmore
        omega
  · refine ⟨hend, cs, hcs', hopen, hlen, hgot, hlast, hne, fun _ => ?_⟩
    omega

/-- **One input.** -/
theorem After.step {i : Input} (h : After is s) (hs' : s.step i = .ok s') :
    After (is ++ [i]) s' := by
  unfold Decoder.step at hs'
  by_cases hclosed : s.IsClosed
  · rw [if_pos hclosed] at hs'
    cases hs'
    cases s with
    | closed r => exact h.closed_append [i]
    | header held => exact absurd hclosed id
    | body len got held => exact absurd hclosed id
  rw [if_neg hclosed] at hs'
  cases i with
  | hangup =>
    cases hs'
    exact After.ended_concat (.inl rfl)
  | idle =>
    cases hs'
    exact h.of_chunks_eq hclosed (by simp) (by simp [chunks])
  | ended =>
    by_cases hheld : s.held = []
    · simp only [hheld, if_true] at hs'
      cases hs'
      exact After.ended_concat (.inr rfl)
    · simp only [hheld, if_false] at hs'
      cases hs'
  | read d =>
    by_cases hheld : s.held = []
    swap
    · simp only [hheld, if_false] at hs'
      cases hs'
    simp only [hheld, if_true] at hs'
    cases hs'
    cases s with
    | closed r => exact absurd trivial hclosed
    | header held =>
      obtain rfl : held = [] := hheld
      exact h.read_header
    | body len got held =>
      obtain rfl : held = [] := hheld
      exact h.read_body

/-- **A run.** -/
theorem after_run (h : run Decoder.step Decoder.init is = .ok s) : After is s := by
  induction is using List.reverseRecOn generalizing s with
  | nil =>
    cases h
    exact ⟨fun h => by simp [Ended] at h, by simp, rfl⟩
  | append_singleton is i ih =>
    obtain ⟨t, ht, hi⟩ := run_concat_ok.1 h
    exact (ih ht).step hi

/-! ### Where it ends badly -/

/-- A read event. -/
def Input.IsRead : Input → Prop
  | .read _ | .ended => True
  | _ => False

theorem Decoder.step_eq_error {i : Input} :
    s.step i = .error () ↔ i.IsRead ∧ ¬ s.IsClosed ∧ s.held ≠ [] := by
  unfold Decoder.step
  by_cases hclosed : s.IsClosed
  · simp [hclosed]
  · cases i <;> by_cases hheld : s.held = [] <;> simp [hclosed, hheld, Input.IsRead]

/-- The decoder holds bytes exactly after stray reads. -/
theorem After.held_iff (h : After is s) :
    ¬ s.IsClosed ∧ s.held ≠ [] ↔ ¬ Ended is ∧ Stray (chunks is) := by
  cases s with
  | header held =>
    obtain ⟨hend, hshort, hcs⟩ := h
    refine ⟨fun h => ⟨hend, .inl ?_⟩, fun h => ⟨id, ?_⟩⟩
    · have hheld : held ≠ [] := h.2
      rw [hcs, chunk_of_ne_nil hheld]
      exact ⟨by simp, hshort⟩
    · show held ≠ []
      rintro rfl
      rw [hcs] at h
      rcases h.2 with h | h
      · exact h.1 rfl
      · exact h.1.ne_nil rfl
  | body len got held =>
    obtain ⟨hend, cs, hcs, hopen, rfl, rfl, hlast, hne, hheld⟩ := h
    have h8 := hopen.length_le
    rw [List.length_drop] at hne hheld
    have hann : announced (chunks is) = announced cs := by
      rw [hcs, announced_append hopen.first]
    refine ⟨fun h => ⟨hend, .inr ⟨hcs ▸ hopen.append _, ?_, ?_⟩⟩, fun h => ⟨id, ?_⟩⟩
    · have hnil : held ≠ [] := h.2
      have hlt := hheld hnil
      rw [hann, hcs]
      intro hbound
      have := (boundary_iff hlast).1 (hbound.of_append (by omega))
      omega
    · have hnil : held ≠ [] := h.2
      have hlt := hheld hnil
      rw [hann, hcs, chunk_of_ne_nil hnil, List.dropLast_concat]
      omega
    · show held ≠ []
      rintro rfl
      rw [chunk_nil, List.append_nil] at hcs
      rw [hcs] at h
      rcases h.2 with h | h
      · have := hopen.first
        omega
      · omega
  | closed r =>
    refine ⟨fun h => absurd trivial h.1, fun ⟨hend, hstray⟩ => ?_⟩
    cases r with
    | none =>
      rcases h with h | ⟨cs, ⟨r, hr⟩, hfirst, hlen⟩
      · exact absurd h hend
      · have hne : cs ≠ [] := by
          rintro rfl
          simp at hfirst
        rw [← hr] at hstray
        rcases hstray with hstray | hstray
        · rw [headD_append hne] at hstray
          omega
        · refine absurd hstray.1.valid ?_
          rwa [announced_append hfirst]
    | some m =>
      obtain ⟨cs, ⟨r, hr⟩, hopen, hlen, -⟩ := h
      rw [← hr] at hstray
      rcases hstray with hstray | hstray
      · rw [headD_append hopen.ne_nil] at hstray
        have := hopen.first
        omega
      · refine absurd ?_ hstray.2.1
        rw [announced_append hopen.first]
        exact ⟨cs, List.prefix_append _ _, hlen⟩

/-- **The decoder ends badly exactly at a read after stray reads.** -/
theorem run_eq_error_iff : run Decoder.step Decoder.init is = .error () ↔
    ∃ pre i post, is = pre ++ i :: post ∧ i.IsRead ∧ ¬ Ended pre ∧ Stray (chunks pre) := by
  constructor
  · intro h
    obtain ⟨pre, i, post, s, rfl, hpre, hi⟩ := run_eq_error.1 h
    obtain ⟨hread, hs⟩ := Decoder.step_eq_error.1 hi
    exact ⟨pre, i, post, rfl, hread, (after_run hpre).held_iff.1 hs⟩
  · rintro ⟨pre, i, post, rfl, hread, hstray⟩
    cases hpre : run Decoder.step Decoder.init pre with
    | error e => exact run_append_error hpre _
    | ok s =>
      have hi := Decoder.step_eq_error.2 ⟨hread, (after_run hpre).held_iff.2 hstray⟩
      rw [run_append hpre, run_cons_error hi]

/-! ### What is delivered -/

/-- The body of the frame. -/
def bodyOf (cs : List (List UInt8)) : List UInt8 := (cs.flatten.drop 8).take (announced cs)

/-- What a closed decoder delivered is the body of the frame, of which a read was the end. -/
theorem After.delivered {m : List UInt8} (h : After is (.closed (some m))) :
    Opened (chunks is) ∧ Boundary (chunks is) (8 + announced (chunks is)) ∧
      m = bodyOf (chunks is) := by
  obtain ⟨cs, ⟨r, hr⟩, hopen, hlen, rfl⟩ := h
  have h8 := hopen.length_le
  unfold bodyOf
  rw [← hr, announced_append hopen.first]
  refine ⟨hopen.append r, ⟨cs, List.prefix_append _ _, hlen⟩, ?_⟩
  rw [List.flatten_append, List.drop_append_of_le_length h8, List.take_left']
  rw [List.length_drop]
  omega

/-- When some read ends where the frame ends, the reads up to any point are not stray. -/
theorem Opened.not_stray {pre : List (List UInt8)} (hopen : Opened cs)
    (hbound : Boundary cs (8 + announced cs)) (hpre : pre <+: cs) : ¬ Stray pre := by
  obtain ⟨r, rfl⟩ := hpre
  rintro (⟨hne, hshort⟩ | ⟨hopen', hnb, hlt⟩)
  · have := hopen.first
    rw [headD_append hne] at this
    omega
  · rw [announced_append hopen'.first] at hbound
    have := (List.dropLast_prefix pre).flatten.length_le
    exact hnb (hbound.of_append (by omega))

/-- **When nothing but reads happens, the body is delivered exactly when the first read has the
length and some read ends where the frame ends.** -/
theorem delivers_iff {m : List UInt8} (hend : ¬ Ended is) :
    run Decoder.step Decoder.init is = .ok (.closed (some m)) ↔
      Opened (chunks is) ∧ Boundary (chunks is) (8 + announced (chunks is)) ∧
        m = bodyOf (chunks is) := by
  constructor
  · intro h
    exact (after_run h).delivered
  · rintro ⟨hopen, hbound, rfl⟩
    cases hrun : run Decoder.step Decoder.init is with
    | error e =>
      obtain ⟨pre, i, post, rfl, -, -, hstray⟩ := run_eq_error_iff.1 hrun
      refine absurd hstray (hopen.not_stray hbound ?_)
      rw [chunks_append]
      exact List.prefix_append _ _
    | ok s =>
      have hafter := after_run hrun
      cases s with
      | header held =>
        obtain ⟨-, hshort, hcs⟩ := hafter
        have := hopen.first
        rw [hcs] at this
        by_cases hheld : held = []
        · simp [hheld] at this
        · rw [chunk_of_ne_nil hheld, List.headD_cons] at this
          omega
      | body len got held =>
        obtain ⟨-, cs, hcs, hopen', rfl, rfl, hlast, hne, hheld⟩ := hafter
        have h8 := hopen'.length_le
        rw [List.length_drop] at hne hheld
        rw [hcs, announced_append hopen'.first] at hbound
        have hbound' : Boundary cs (8 + announced cs) := by
          by_cases hnil : held = []
          · simpa [hnil] using hbound
          · have := hheld hnil
            exact hbound.of_append (by omega)
        have := (boundary_iff hlast).1 hbound'
        omega
      | closed r =>
        cases r with
        | none =>
          rcases hafter with h | ⟨cs, ⟨r, hr⟩, hfirst, hlen⟩
          · exact absurd h hend
          · have hvalid := hopen.valid
            rw [← hr, announced_append hfirst] at hvalid
            exact absurd hvalid hlen
        | some m => rw [hafter.delivered.2.2]

end Jujube
