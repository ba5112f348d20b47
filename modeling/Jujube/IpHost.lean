import Jujube.IpDotted

/-!
# What `check_host_ip_and_get_verion` comes to

What `inet_pton` accepts as IPv4 is read again by `dotted_to_ipaddr`, to the same bytes and the same
text, so the result is that of `inet_pton` and of the checks.  The address is copied out before the
checks: `checkHost_rejected_iff` says when a refused one is not seen.
-/

namespace Jujube

open Decimal

variable {s rest : List UInt8} {o raw : Octets} {I : InetPton} {jaddr : JujubeInAddr}

/-- The IPv4 addresses that are refused. -/
def Octets.Forbidden (o : Octets) : Prop := o.a = 0 ∨ 223 < o.a ∨ o.d = 255 ∨ o.a = 127

instance (o : Octets) : Decidable o.Forbidden := inferInstanceAs (Decidable (_ ∨ _))

/-- The text is an address, and one that is refused. -/
inductive InetPton.Refused (I : InetPton) (s : List UInt8) : JujubeInAddr → Prop
  | ipv4 {o : Octets} (text : I.inet s = some o) (forbidden : o.Forbidden) :
    Refused I s ⟨o.in6, useIpv4⟩
  | ipv6 {b : In6Addr} (notIpv4 : I.inet s = none) (text : I.inet6 s = some b)
    (forbidden : b = in6Unspecified ∨ b = in6Loopback) : Refused I s ⟨b, useIpv6⟩

/-! ### `inet_pton` and `dotted_to_ipaddr` -/

/-- A byte as a decimal number without leading zeros. -/
def readOctet (f : List UInt8) : Option UInt8 :=
  if f = decimal (value f) ∧ value f ≤ 255 then some (UInt8.ofNat (value f)) else none

/-- `inet_pton` for `AF_INET` -/
def inetPton4 (s : List UInt8) : Option Octets :=
  match s.splitOn dot with
  | [f₁, f₂, f₃, f₄] => do
    let a ← readOctet f₁
    let b ← readOctet f₂
    let c ← readOctet f₃
    let d ← readOctet f₄
    return ⟨a, b, c, d⟩
  | _ => none

theorem digits_decimal (n : ℕ) : Digits (decimal n) := isDigit_of_mem_decimal n

theorem readOctet_eq_some {f : List UInt8} {b : UInt8} :
    readOctet f = some b ↔ f = decimal b.toNat := by
  unfold readOctet
  split_ifs with h
  · have htoNat : (UInt8.ofNat (value f)).toNat = value f := by
      rw [UInt8.toNat_ofNat', Nat.mod_eq_of_lt (by omega)]
    constructor
    · rintro hb
      cases hb
      rw [htoNat]
      exact h.1
    · rintro rfl
      simp
  · refine iff_of_false (by simp) ?_
    rintro rfl
    refine h ⟨by rw [value_decimal], ?_⟩
    rw [value_decimal]
    exact Nat.le_of_lt_succ b.toNat_lt

theorem inetPton4_iff (s : List UInt8) (o : Octets) : inetPton4 s = some o ↔ s = o.text := by
  constructor
  · intro h
    unfold inetPton4 at h
    split at h
    · rename_i f₁ f₂ f₃ f₄ hsplit
      simp only [Option.bind_eq_bind, Option.bind_eq_some_iff, Option.pure_def,
        Option.some.injEq] at h
      obtain ⟨a, ha, b, hb, c, hc, d, hd, rfl⟩ := h
      have hjoin : [dot].intercalate (s.splitOn dot) = s := List.intercalate_splitOn dot
      rw [hsplit, intercalate_dot] at hjoin
      rw [← hjoin, readOctet_eq_some.1 ha, readOctet_eq_some.1 hb, readOctet_eq_some.1 hc,
        readOctet_eq_some.1 hd]
      rfl
    · cases h
  · rintro rfl
    have hsplit : o.text.splitOn dot = [decimal o.a.toNat, decimal o.b.toNat, decimal o.c.toNat,
        decimal o.d.toNat] := by
      have hjoin : o.text = [dot].intercalate [decimal o.a.toNat, decimal o.b.toNat,
          decimal o.c.toNat, decimal o.d.toNat] := (intercalate_dot _ _ _ _).symm
      rw [hjoin]
      exact List.splitOn_intercalate dot (by simp [(digits_decimal _).dot_notMem]) (by simp)
    have hread : ∀ b : UInt8, readOctet (decimal b.toNat) = some b := fun b =>
      readOctet_eq_some.2 rfl
    rw [inetPton4, hsplit]
    simp [hread]

theorem length_text_le (o : Octets) : o.text.length ≤ 15 := by
  have hle : ∀ b : UInt8, (decimal b.toNat).length ≤ 3 := fun b =>
    (length_decimal_le_iff (by norm_num)).2 (b.toNat_lt.trans (by norm_num))
  have ha := hle o.a
  have hb := hle o.b
  have hc := hle o.c
  have hd := hle o.d
  rw [Octets.text]
  simp only [List.length_append, List.length_cons]
  omega

/-- What `inet_pton` accepts has four runs. -/
theorem text_fields (o : Octets) : DottedFields o.text (decimal o.a.toNat) (decimal o.b.toNat)
    (decimal o.c.toNat) (decimal o.d.toNat) :=
  ⟨rfl, digits_decimal _, digits_decimal _, digits_decimal _, digits_decimal _,
    decimal_ne_nil _, decimal_ne_nil _, decimal_ne_nil _⟩

theorem text_quad (o : Octets) : DottedQuad o.text o :=
  ⟨_, _, _, _, text_fields o, decimal_ne_nil _, value_decimal _, value_decimal _, value_decimal _,
    value_decimal _⟩

/-- **What `inet_pton` accepts, `dotted_to_ipaddr` reads to the same bytes**, and writes the text
that is there. -/
theorem dottedToIpaddr_text (o : Octets) (rest : List UInt8) (ipaddr : Octets) :
    dottedToIpaddr (o.text ++ 0 :: rest) ipaddr = .ok ⟨1, o.text ++ 0 :: rest, o⟩ := by
  have hlen := length_text_le o
  -- the copy has room for all of it
  have hkept : kept (decimal o.a.toNat) (decimal o.b.toNat) (decimal o.c.toNat)
      (decimal o.d.toNat) = decimal o.d.toNat := by
    refine List.take_of_length_le ?_
    rw [Octets.text] at hlen
    simp only [List.length_append, List.length_cons] at hlen
    omega
  have hrun := (text_quad o).run (text_fields o) (by omega) (hkept.symm ▸ decimal_ne_nil _)
    (by rw [hkept]) rest ipaddr
  rw [hrun, ← List.drop_drop, List.drop_left]
  rfl

/-! ### The result -/

theorem checkHostIpv4_text (o : Octets) (rest : List UInt8) (raw : Octets) :
    checkHostIpv4 (o.text ++ 0 :: rest) raw =
      .ok (if o.Forbidden then -1 else 1, o.text ++ 0 :: rest) := by
  rw [checkHostIpv4, dottedToIpaddr_text, ok_bind, if_pos rfl]
  by_cases hf : o.Forbidden
  · rw [if_pos hf]
    exact if_pos hf
  · rw [if_neg hf]
    exact if_neg hf

/-- **What `check_host_ip_and_get_verion` returns and leaves.** -/
theorem checkHostIpAndGetVerion_eq (I : InetPton) (h : 0 ∉ s) (rest : List UInt8)
    (jaddr : JujubeInAddr) (raw : Octets) :
    checkHostIpAndGetVerion I (s ++ 0 :: rest) jaddr raw = .ok
      (match I.inet s, I.inet6 s with
        | some o, _ => ⟨if o.Forbidden then -1 else 0, s ++ 0 :: rest, ⟨o.in6, useIpv4⟩⟩
        | none, some b => ⟨checkHostIpv6 ⟨b, useIpv6⟩, s ++ 0 :: rest, ⟨b, useIpv6⟩⟩
        | none, none => ⟨-1, s ++ 0 :: rest, jaddr⟩) := by
  unfold checkHostIpAndGetVerion
  rw [cstr_append h, ok_bind]
  cases hinet : I.inet s with
  | some o =>
    obtain rfl := (I.inet_iff s o).1 hinet
    have hpton : jujubePton I afInet o.text jujubeInAddrInit = (1, ⟨o.in6, noneIp⟩) := by
      simp [jujubePton, InetPton.pton, hinet, jujubeInAddrInit]
    have hcheck : checkHostIp (o.text ++ 0 :: rest) ⟨o.in6, useIpv4⟩ raw =
        .ok (if o.Forbidden then -1 else 0, o.text ++ 0 :: rest) := by
      rw [checkHostIp, if_pos (show useIpv4 &&& useIpv4 ≠ 0 by decide), checkHostIpv4_text]
      by_cases hf : o.Forbidden
      · simp [hf]
      · simp [hf]
    simp only [hpton, if_true, ne_eq, not_true_eq_false, if_false, hcheck, ok_bind, pure_eq_ok]
  | none =>
    have hpton : jujubePton I afInet s jujubeInAddrInit = (0, jujubeInAddrInit) := by
      simp [jujubePton, InetPton.pton, hinet]
    cases hinet6 : I.inet6 s with
    | some b =>
      have hpton6 : jujubePton I afInet6 s jujubeInAddrInit = (1, ⟨b, noneIp⟩) := by
        simp [jujubePton, InetPton.pton, hinet6, jujubeInAddrInit, afInet, afInet6]
      have hcheck : checkHostIp (s ++ 0 :: rest) ⟨b, useIpv6⟩ raw =
          .ok (checkHostIpv6 ⟨b, useIpv6⟩, s ++ 0 :: rest) := by
        rw [checkHostIp, if_neg (show ¬ useIpv6 &&& useIpv4 ≠ 0 by decide),
          if_pos (show useIpv6 &&& useIpv6 ≠ 0 by decide)]
        rfl
      simp [hpton, hpton6, hcheck]
    | none =>
      have hpton6 : jujubePton I afInet6 s jujubeInAddrInit = (0, jujubeInAddrInit) := by
        simp [jujubePton, InetPton.pton, hinet6, afInet, afInet6]
      simp [hpton, hpton6]

theorem Octets.not_forbidden_iff (o : Octets) :
    ¬ o.Forbidden ↔ 1 ≤ o.a ∧ o.a ≤ 223 ∧ o.a ≠ 127 ∧ o.d ≠ 255 := by
  rw [Octets.Forbidden, not_or, not_or, not_or, UInt8.not_lt]
  have hpos : ¬ o.a = 0 ↔ 1 ≤ o.a := by
    rw [UInt8.le_iff_toNat_le, ← UInt8.toNat_inj]
    simp
    omega
  tauto

theorem checkHostIpv6_eq_zero_iff (a : JujubeInAddr) :
    checkHostIpv6 a = 0 ↔ a.inxAddr ≠ in6Unspecified ∧ a.inxAddr ≠ in6Loopback := by
  unfold checkHostIpv6
  split_ifs with hu hl
  · simp [hu]
  · simp [hl]
  · simp [hu, hl]

theorem checkHostIpv6_neg_iff (a : JujubeInAddr) :
    checkHostIpv6 a < 0 ↔ a.inxAddr = in6Unspecified ∨ a.inxAddr = in6Loopback := by
  unfold checkHostIpv6
  split_ifs with hu hl
  · simp [hu]
  · simp [hl]
  · simp [hu, hl]

/-- **Host addresses.**  The result is 0 for the IPv4 texts and the IPv6 texts whose addresses are
not refused; then `*jaddr` is what `inet_pton` gave.  `dotted_to_ipaddr` agrees with `inet_pton`
on IPv4, a value that is not there is never used, and the text stays as it is. -/
theorem checkHostIpAndGetVerion_spec (I : InetPton) (h : 0 ∉ s) (rest : List UInt8)
    (jaddr : JujubeInAddr) (raw : Octets) :
    ∃ r, checkHostIpAndGetVerion I (s ++ 0 :: rest) jaddr raw = .ok r ∧
      (r.ret = 0 ↔
        (∃ o : Octets, s = o.text ∧ 1 ≤ o.a ∧ o.a ≤ 223 ∧ o.a ≠ 127 ∧ o.d ≠ 255) ∨
        (∀ o : Octets, s ≠ o.text) ∧
          ∃ b, I.inet6 s = some b ∧ b ≠ in6Unspecified ∧ b ≠ in6Loopback) ∧
      (r.ret = 0 → (∀ o, I.inet s = some o → r.jaddr = ⟨o.in6, useIpv4⟩) ∧
        (I.inet s = none → ∀ b, I.inet6 s = some b → r.jaddr = ⟨b, useIpv6⟩)) ∧
      (∀ o, I.inet s = some o → ∀ ipaddr, dottedToIpaddr (s ++ 0 :: rest) ipaddr =
        .ok ⟨1, s ++ 0 :: rest, o⟩) ∧
      r.serverIp = s ++ 0 :: rest := by
  refine ⟨_, checkHostIpAndGetVerion_eq I h rest jaddr raw, ?_⟩
  have hdotted : ∀ o, I.inet s = some o → ∀ ipaddr, dottedToIpaddr (s ++ 0 :: rest) ipaddr =
      .ok ⟨1, s ++ 0 :: rest, o⟩ := by
    intro o ho ipaddr
    obtain rfl := (I.inet_iff s o).1 ho
    exact dottedToIpaddr_text o rest ipaddr
  cases hinet : I.inet s with
  | some o =>
    have hs := (I.inet_iff s o).1 hinet
    refine ⟨?_, fun _ => ⟨?_, by simp⟩, hinet ▸ hdotted, rfl⟩
    · have hret : (if o.Forbidden then (-1 : ℤ) else 0) = 0 ↔ ¬ o.Forbidden := by
        split_ifs with hf <;> simp [hf]
      refine hret.trans (o.not_forbidden_iff.trans ⟨fun hf => .inl ⟨o, hs, hf⟩, ?_⟩)
      rintro (⟨o', hs', hf⟩ | ⟨hno, -⟩)
      · rw [(I.inet_iff s o').2 hs', Option.some.injEq] at hinet
        exact hinet ▸ hf
      · exact absurd hs (hno o)
    · rintro o' ho'
      cases ho'
      rfl
  | none =>
    have hno : ∀ o : Octets, s ≠ o.text := fun o ho => by
      rw [(I.inet_iff s o).2 ho] at hinet
      cases hinet
    cases hinet6 : I.inet6 s with
    | some b =>
      refine ⟨(checkHostIpv6_eq_zero_iff _).trans ⟨fun hb => .inr ⟨hno, b, rfl, hb⟩, ?_⟩,
        fun _ => ⟨by simp, fun _ b' hb' => ?_⟩, by simp, rfl⟩
      · rintro (⟨o, ho, -⟩ | ⟨-, b', hb', hgood⟩)
        · exact absurd ho (hno o)
        · cases hb'
          exact hgood
      · cases hb'
        rfl
    | none =>
      refine ⟨iff_of_false (by norm_num) ?_, fun hret => absurd hret (by norm_num), by simp, rfl⟩
      rintro (⟨o, ho, -⟩ | ⟨-, b, hb, -⟩)
      · exact hno o ho
      · cases hb

/-- The library, as far as the texts below go. -/
def plainPton : InetPton where
  inet := inetPton4
  inet6 s := if s = ascii "::1" then some in6Loopback
    else if s = ascii "::100" then some ⟨List.replicate 14 0 ++ [1, 0], rfl⟩ else none
  inet_iff := inetPton4_iff

theorem checkHostIpAndGetVerion_spec_one :
    ∃ r, checkHostIpAndGetVerion plainPton (ascii "1.2.3.4" ++ 0 :: []) jujubeInAddrInit
      ⟨0, 0, 0, 0⟩ = .ok r ∧ r.serverIp = ascii "1.2.3.4" ++ 0 :: [] := by
  obtain ⟨r, hr, -, -, -, hs⟩ :=
    checkHostIpAndGetVerion_spec plainPton (s := ascii "1.2.3.4") (by decide) [] jujubeInAddrInit
      ⟨0, 0, 0, 0⟩
  exact ⟨r, hr, hs⟩

/-! ### Refused addresses -/

/-- **An address that is refused is copied out before it is.**  `*jaddr` stays as it was, whenever
the result is negative, exactly when the text is no address that is refused or that address is there
already. -/
theorem checkHost_rejected_iff (I : InetPton) (h : 0 ∉ s) (rest : List UInt8)
    (jaddr : JujubeInAddr) (raw : Octets) :
    ∃ r, checkHostIpAndGetVerion I (s ++ 0 :: rest) jaddr raw = .ok r ∧
      ((r.ret < 0 → r.jaddr = jaddr) ↔ ∀ a, I.Refused s a → jaddr = a) := by
  refine ⟨_, checkHostIpAndGetVerion_eq I h rest jaddr raw, ?_⟩
  cases hinet : I.inet s with
  | some o =>
    have hret : (if o.Forbidden then (-1 : ℤ) else 0) < 0 ↔ o.Forbidden := by
      split_ifs with hf <;> simp [hf]
    constructor
    · rintro hleft a (⟨ho, hf⟩ | ⟨hnone, -⟩)
      · cases hinet.symm.trans ho
        exact (hleft (hret.2 hf)).symm
      · cases hinet.symm.trans hnone
    · exact fun hall hneg => (hall _ (.ipv4 hinet (hret.1 hneg))).symm
  | none =>
    cases hinet6 : I.inet6 s with
    | some b =>
      constructor
      · rintro hleft a (⟨ho, -⟩ | ⟨-, hb, hf⟩)
        · cases hinet.symm.trans ho
        · cases hinet6.symm.trans hb
          exact (hleft ((checkHostIpv6_neg_iff _).2 hf)).symm
      · exact fun hall hneg =>
          (hall _ (.ipv6 hinet hinet6 ((checkHostIpv6_neg_iff _).1 hneg))).symm
    | none =>
      refine iff_of_true (fun _ => rfl) ?_
      rintro a (⟨ho, -⟩ | ⟨-, hb, -⟩)
      · cases hinet.symm.trans ho
      · cases hinet6.symm.trans hb

theorem checkHost_rejected_iff_one :
    ∃ r, checkHostIpAndGetVerion plainPton (ascii "127.0.0.1" ++ 0 :: []) jujubeInAddrInit
        ⟨0, 0, 0, 0⟩ = .ok r ∧ ((r.ret < 0 → r.jaddr = jujubeInAddrInit) ↔
      ∀ a, plainPton.Refused (ascii "127.0.0.1") a → jujubeInAddrInit = a) :=
  checkHost_rejected_iff plainPton (by decide) [] jujubeInAddrInit ⟨0, 0, 0, 0⟩

/-- `127.0.0.1` is refused, and left in `*jaddr`. -/
theorem checkHost_rejected_loopback :
    ∃ r, checkHostIpAndGetVerion plainPton (ascii "127.0.0.1" ++ 0 :: []) jujubeInAddrInit
        ⟨0, 0, 0, 0⟩ = .ok r ∧ r.ret < 0 ∧ r.jaddr = ⟨Octets.in6 ⟨127, 0, 0, 1⟩, useIpv4⟩ ∧
      r.jaddr ≠ jujubeInAddrInit := by
  exact ⟨⟨-1, ascii "127.0.0.1" ++ 0 :: [], ⟨Octets.in6 ⟨127, 0, 0, 1⟩, useIpv4⟩⟩,
    by decide +kernel, by decide, rfl, by decide⟩

end Jujube
