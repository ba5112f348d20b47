import Jujube.Comm
import Jujube.IpHost

/-!
# The socket address that `connect` is given

`create_connect_socket` fills a zeroed `sockaddr_storage`, and `connect_nonb` passes its first 16
bytes.  Against that stand the two layouts (`SockAddr`, `encode`, `decode`): a `sockaddr_in` has 16
bytes, a `sockaddr_in6` has 28.
-/

namespace Jujube

open Bytes

/-- A `sockaddr_in` or a `sockaddr_in6`.  A port is the number in its two bytes, as it stands. -/
inductive SockAddr
  | in4 (port : UInt16) (addr : Octets) (zero : {b : List UInt8 // b.length = 8})
  | in6 (port : UInt16) (flowinfo : UInt32) (addr : In6Addr) (scopeId : UInt32)
  deriving DecidableEq

namespace SockAddr

/-- The bytes of a socket address. -/
def encode : SockAddr → List UInt8
  | in4 port o zero => le 2 afInet ++ (le 2 port.toNat ++ ([o.a, o.b, o.c, o.d] ++ zero))
  | in6 port flowinfo addr scopeId =>
    le 2 afInet6 ++ (le 2 port.toNat ++ (le 4 flowinfo.toNat ++ (addr ++ le 4 scopeId.toNat)))

/-- The socket address that some bytes are, all of them. -/
def decode (b : List UInt8) : Option SockAddr :=
  if h : ofLe (b.take 2) = afInet ∧ b.length = 16 then
    some (.in4 (.ofNat (ofLe ((b.drop 2).take 2))) ⟨b[4], b[5], b[6], b[7]⟩
      ⟨b.drop 8, by simp [h.2]⟩)
  else if h : ofLe (b.take 2) = afInet6 ∧ b.length = 28 then
    some (.in6 (.ofNat (ofLe ((b.drop 2).take 2))) (.ofNat (ofLe ((b.drop 4).take 4)))
      ⟨(b.drop 8).take 16, by simp [h.2]⟩ (.ofNat (ofLe (b.drop 24))))
  else none

theorem ofLe_port (port : UInt16) : UInt16.ofNat (ofLe (le 2 port.toNat)) = port := by
  rw [ofLe_le_of_lt port.toNat_lt, UInt16.ofNat_toNat]

theorem ofLe_word (n : UInt32) : UInt32.ofNat (ofLe (le 4 n.toNat)) = n := by
  rw [ofLe_le_of_lt n.toNat_lt, UInt32.ofNat_toNat]

/-- A socket address is read back from its bytes. -/
theorem decode_encode (x : SockAddr) : decode x.encode = some x := by
  cases x with
  | in4 port o zero =>
    have hlen : (encode (in4 port o zero)).length = 16 := by simp [encode, zero.2]
    rw [decode, dif_pos ⟨by simp [encode, le, ofLe, afInet], hlen⟩]
    have hport : ((encode (in4 port o zero)).drop 2).take 2 = le 2 port.toNat := by
      simp [encode, le]
    simp only [hport, ofLe_port]
    simp [encode, le]
  | in6 port flowinfo addr scopeId =>
    have hlen : (encode (in6 port flowinfo addr scopeId)).length = 28 := by simp [encode, addr.2]
    rw [decode, dif_neg (by rw [hlen]; simp), dif_pos ⟨by simp [encode, le, ofLe, afInet6], hlen⟩]
    have hport : ((encode (in6 port flowinfo addr scopeId)).drop 2).take 2 = le 2 port.toNat := by
      simp [encode, le]
    have hflow : ((encode (in6 port flowinfo addr scopeId)).drop 4).take 4 =
        le 4 flowinfo.toNat := by
      simp [encode, le]
    have haddr : ((encode (in6 port flowinfo addr scopeId)).drop 8).take 16 = addr := by
      simp [encode, le, addr.2]
    have hscope : (encode (in6 port flowinfo addr scopeId)).drop 24 = le 4 scopeId.toNat := by
      simp [encode, le, addr.2]
    simp only [hport, hflow, haddr, hscope, ofLe_port, ofLe_word]

/-- A `sockaddr_in6` is not read from fewer bytes than it has. -/
theorem decode_ne_in6 {b : List UInt8} (hlen : b.length = 16) (port : UInt16) (flowinfo : UInt32)
    (addr : In6Addr) (scopeId : UInt32) : decode b ≠ some (in6 port flowinfo addr scopeId) := by
  rw [decode]
  split_ifs with h4 h6
  · simp
  · omega
  · simp

end SockAddr

/-- The IPv4 address in the union. -/
def In6Addr.octets (b : In6Addr) : Octets :=
  ⟨b.1.getD 0 0, b.1.getD 1 0, b.1.getD 2 0, b.1.getD 3 0⟩

/-- The socket address of a host and a port. -/
def JujubeInAddr.sockAddr (a : JujubeInAddr) (port : UInt16) : SockAddr :=
  if a.flag = useIpv4 then .in4 port (In6Addr.octets a.inxAddr) ⟨List.replicate 8 0, rfl⟩
  else .in6 port 0 a.inxAddr 0

/-- A successful check leaves an address with the flag of its family. -/
theorem jaddr_of_checked {I : InetPton} {s rest : List UInt8} {jaddr : JujubeInAddr}
    {raw : Octets} {r : HostCheck} (h : 0 ∉ s)
    (hr : checkHostIpAndGetVerion I (s ++ 0 :: rest) jaddr raw = .ok r) (hret : r.ret = 0) :
    (∃ o : Octets, r.jaddr = ⟨o.in6, useIpv4⟩) ∨ ∃ b, r.jaddr = ⟨b, useIpv6⟩ := by
  rw [checkHostIpAndGetVerion_eq I h rest jaddr raw, Except.ok.injEq] at hr
  subst hr
  cases hinet : I.inet s with
  | some o => exact .inl ⟨o, rfl⟩
  | none =>
    cases hinet6 : I.inet6 s with
    | some b => exact .inr ⟨b, rfl⟩
    | none => simp [hinet, hinet6] at hret

/-- `connect` is given the first bytes of what was filled in. -/
theorem passed_eq {peeraddr : Memory} {a : JujubeInAddr} {behind : List UInt8} {ipFlag port : ℕ}
    {d : Dial} {K : Kernel} {b : List UInt8}
    (hb : (createConnectSocket peeraddr a behind ipFlag port d K).passed = some b) :
    b = read (fillPeeraddr peeraddr a behind ipFlag port) 0 sizeofSockaddr := by
  cases d with
  | noSocket => cases hb
  | blocking fd => cases hb
  | refused fd => exact (Option.some.inj hb).symm
  | inProgress fd => exact (Option.some.inj hb).symm
  | connected fd => exact (Option.some.inj hb).symm

/-- With IPv4 what is copied is the union, no more. -/
theorem fillPeeraddr_ipv4 (peeraddr : Memory) (a : JujubeInAddr) (behind : List UInt8)
    (port : ℕ) : fillPeeraddr peeraddr a behind useIpv4 port =
      write (write (write peeraddr 0 (le 2 2)) 2 (le 2 port)) 4 a.inxAddr := by
  have htake : (a.bytes ++ behind).take 16 = a.inxAddr := by
    rw [JujubeInAddr.bytes, List.append_assoc, List.take_left' a.inxAddr.2]
  rw [fillPeeraddr, if_pos rfl, htake]

/-- With IPv6 it goes beyond the union: the byte behind the 16 of the address is the flag. -/
theorem fillPeeraddr_ipv6_flag (peeraddr : Memory) (b : In6Addr) (flag : ℕ)
    (behind : List UInt8) (port : ℕ) :
    fillPeeraddr peeraddr ⟨b, flag⟩ behind useIpv6 port 24 = UInt8.ofNat flag := by
  have hcopied : ((JujubeInAddr.bytes ⟨b, flag⟩ ++ behind).take 28)[16]? =
      some (UInt8.ofNat flag) := by
    rw [List.getElem?_take_of_lt (by norm_num), JujubeInAddr.bytes, List.append_assoc,
      List.getElem?_append_right (by rw [b.2]), b.2]
    rfl
  rw [fillPeeraddr, if_neg (by decide)]
  show List.getD _ 16 _ = _
  rw [List.getD_eq_getElem?_getD, hcopied, Option.getD_some]

/-- With IPv4 the whole `sockaddr_in` is passed. -/
theorem passed_ipv4 (o : Octets) (behind : List UInt8) (port : UInt16) :
    read (fillPeeraddr (fun _ => 0) ⟨o.in6, useIpv4⟩ behind useIpv4 port.toNat) 0 sizeofSockaddr =
      (JujubeInAddr.sockAddr ⟨o.in6, useIpv4⟩ port).encode := by
  have hfamily : read (write (fun _ => 0) 0 (le 2 2)) 0 2 = le 2 2 := by
    have h : read (write (fun _ => 0) 0 (le 2 2)) 0 (le 2 2).length = _ := read_write
    rwa [length_le] at h
  have hport : read (write (write (fun _ => 0) 0 (le 2 2)) 2 (le 2 port.toNat)) 0 (2 + 2) =
      le 2 2 ++ le 2 port.toNat := by
    have h := read_write_append (m := write (fun _ => 0) 0 (le 2 2)) (n := 2)
      (d := le 2 port.toNat)
    rwa [length_le, hfamily] at h
  rw [fillPeeraddr_ipv4]
  -- the last of the bytes copied are behind the 16
  rw [← take_read (show sizeofSockaddr ≤ 4 + (o.in6).1.length by rw [o.in6.2]; decide),
    read_write_append, hport]
  rfl

/-- **What `connect` is given.**  For every address that passed the check and every port, the bytes
are the complete socket address, and only the union went into it, exactly when the address is
IPv4. -/
theorem createConnectSocket_encodes_iff {I : InetPton} {s : List UInt8} (h : 0 ∉ s)
    (rest : List UInt8) (jaddr : JujubeInAddr) (raw : Octets) {r : HostCheck}
    (hr : checkHostIpAndGetVerion I (s ++ 0 :: rest) jaddr raw = .ok r) (hret : r.ret = 0)
    (port : UInt16) (behind : List UInt8) (d : Dial) (K : Kernel) {b : List UInt8}
    (hb : (createConnectSocket (fun _ => 0) r.jaddr behind r.jaddr.flag port.toNat d K).passed =
      some b) :
    (SockAddr.decode b = some (r.jaddr.sockAddr port) ∧
      ∀ (flag : ℕ) (behind' : List UInt8),
        fillPeeraddr (fun _ => 0) ⟨r.jaddr.inxAddr, flag⟩ behind' r.jaddr.flag port.toNat =
          fillPeeraddr (fun _ => 0) r.jaddr behind r.jaddr.flag port.toNat) ↔
      r.jaddr.flag = useIpv4 := by
  have hbytes := passed_eq hb
  obtain ⟨o, ho⟩ | ⟨a, ha⟩ := jaddr_of_checked h hr hret
  · rw [ho] at hbytes ⊢
    refine iff_of_true ⟨?_, fun flag behind' => ?_⟩ rfl
    · rw [hbytes, passed_ipv4, SockAddr.decode_encode]
    · rw [fillPeeraddr_ipv4, fillPeeraddr_ipv4]
  · rw [ha] at hbytes ⊢
    refine iff_of_false ?_ (show ¬ useIpv6 = useIpv4 by decide)
    rintro ⟨hdecode, -⟩
    refine SockAddr.decode_ne_in6 ?_ port 0 a 0 (hdecode.trans ?_)
    · rw [hbytes, length_read, sizeofSockaddr]
    · rw [JujubeInAddr.sockAddr, if_neg (show ¬ useIpv6 = useIpv4 by decide)]

theorem createConnectSocket_encodes_iff_one :
    ∃ (r : HostCheck) (b : List UInt8), r.jaddr = ⟨Octets.in6 ⟨1, 2, 3, 4⟩, useIpv4⟩ ∧
      (createConnectSocket (fun _ => 0) r.jaddr [] r.jaddr.flag (14117 : UInt16).toNat
        (.inProgress 5) (.unwatched ∅)).passed = some b ∧
      SockAddr.decode b = some (r.jaddr.sockAddr 14117) := by
  have hr : checkHostIpAndGetVerion plainPton (ascii "1.2.3.4" ++ 0 :: []) jujubeInAddrInit
      ⟨0, 0, 0, 0⟩ = .ok ⟨0, ascii "1.2.3.4" ++ 0 :: [],
        ⟨Octets.in6 ⟨1, 2, 3, 4⟩, useIpv4⟩⟩ := by
    decide +kernel
  exact ⟨_, _, rfl, rfl, ((createConnectSocket_encodes_iff (by decide) [] _ _ hr rfl 14117 []
    (.inProgress 5) (.unwatched ∅) rfl).2 rfl).1⟩

/-- For `::100` no socket address is passed, and the scope of the one filled in is the flag. -/
theorem createConnectSocket_cuts_ipv6 :
    ∃ r, checkHostIpAndGetVerion plainPton (ascii "::100" ++ 0 :: []) jujubeInAddrInit
        ⟨0, 0, 0, 0⟩ = .ok r ∧ r.ret = 0 ∧
      (∃ b, (createConnectSocket (fun _ => 0) r.jaddr [] r.jaddr.flag (14117 : UInt16).toNat
        (.inProgress 5) (.unwatched ∅)).passed = some b ∧ SockAddr.decode b = none) ∧
      (createConnectSocket (fun _ => 0) r.jaddr [] r.jaddr.flag (14117 : UInt16).toNat
        (.inProgress 5) (.unwatched ∅)).peeraddr 24 = 4 := by
  refine ⟨⟨0, ascii "::100" ++ 0 :: [], ⟨⟨List.replicate 14 0 ++ [1, 0], rfl⟩, useIpv6⟩⟩,
    by decide +kernel, rfl, ⟨_, rfl, by decide +kernel⟩, ?_⟩
  exact fillPeeraddr_ipv6_flag (fun _ => 0) ⟨List.replicate 14 0 ++ [1, 0], rfl⟩ useIpv6 []
    (UInt16.toNat 14117)

end Jujube
