import Jujube.CString
import Jujube.Foundation.Bytes

/-!
# `ip.c`: the text of an address

`check_host_ip_and_get_verion` reads an address with `inet_pton`, copies it to the caller and then
checks it.  An IPv4 address is read once more for that, from its text, by `dotted_to_ipaddr`, which
also writes the text anew.

`inet_pton` is a parameter (`InetPton`): what it accepts as IPv4 is known, IPv6 is not looked into.
The arrays are the caller's, `raw` is what `tempip` has in it at first.  The pointers are never
null.
-/

namespace Jujube

open Bytes Decimal

/-- `NONE_IP` -/
def noneIp : ℕ := 1

/-- `USE_IPV4` -/
def useIpv4 : ℕ := 2

/-- `USE_IPV6` -/
def useIpv6 : ℕ := 4

/-- `AF_INET` -/
def afInet : ℕ := 2

/-- `AF_INET6` -/
def afInet6 : ℕ := 10

/-- `struct in6_addr` -/
abbrev In6Addr := {b : List UInt8 // b.length = 16}

/-- `struct jujube_in_addr`: the union of the addresses, as large as the larger of them, and the
flag. -/
structure JujubeInAddr where
  inxAddr : In6Addr
  flag : ℕ
  deriving DecidableEq

/-- The bytes of the structure. -/
def JujubeInAddr.bytes (a : JujubeInAddr) : List UInt8 := a.inxAddr ++ le 4 a.flag

/-- `::` -/
def in6Unspecified : In6Addr := ⟨List.replicate 16 0, rfl⟩

/-- `::1` -/
def in6Loopback : In6Addr := ⟨List.replicate 15 0 ++ [1], rfl⟩

/-- The four bytes of an IPv4 address, as they stand in memory. -/
@[ext]
structure Octets where
  a : UInt8
  b : UInt8
  c : UInt8
  d : UInt8
  deriving DecidableEq, Repr

namespace Octets

/-- `addrp[i] = b` -/
def set (o : Octets) (i : ℕ) (b : UInt8) : Octets :=
  match i with
  | 0 => { o with a := b }
  | 1 => { o with b := b }
  | 2 => { o with c := b }
  | _ => { o with d := b }

/-- The bytes in front of a cleared `struct in6_addr`. -/
def in6 (o : Octets) : In6Addr := ⟨[o.a, o.b, o.c, o.d] ++ List.replicate 12 0, rfl⟩

/-- Four decimal numbers without leading zeros, separated by single dots. -/
def text (o : Octets) : List UInt8 :=
  decimal o.a.toNat ++ dot :: (decimal o.b.toNat ++ dot ::
    (decimal o.c.toNat ++ dot :: decimal o.d.toNat))

end Octets

/-- `inet_pton` for the two families. -/
structure InetPton where
  inet : List UInt8 → Option Octets
  inet6 : List UInt8 → Option In6Addr
  inet_iff : ∀ s o, inet s = some o ↔ s = o.text

/-- `inet_pton` into a cleared `struct in6_addr`. -/
def InetPton.pton (I : InetPton) (family : ℕ) (ip : List UInt8) : Option In6Addr :=
  if family = afInet then (I.inet ip).map Octets.in6 else I.inet6 ip

/-- `jujube_in_addr_init` -/
def jujubeInAddrInit : JujubeInAddr := ⟨⟨List.replicate 16 0, rfl⟩, noneIp⟩

/-- `jujube_pton` -/
def jujubePton (I : InetPton) (family : ℕ) (ip : List UInt8) (jaddr : JujubeInAddr) :
    ℤ × JujubeInAddr :=
  if ¬ (family = afInet ∨ family = afInet6) then (-1, jaddr)
  else
    match I.pton family ip with
    | none => (0, jaddr)
    | some in6Val => (1, { jaddr with inxAddr := in6Val })

/-! ### `dotted_to_ipaddr` -/

/-- The first loop of `get_str_num`. -/
def skipBlanks : List UInt8 → Except TextFault (List UInt8)
  | [] => .error .readPast
  | c :: cs => if c ≠ 0 ∧ IsBlank c then skipBlanks cs else return c :: cs

/-- The second loop of `get_str_num`. -/
def countWords (i blank : ℕ) : List UInt8 → Except TextFault ℕ
  | [] => .error .readPast
  | c :: cs =>
    if c = 0 then return i
    else if ¬ IsBlank c then do
      let blank ← incr blank
      let i ← (if blank = 1 then incr i else return i)
      countWords i blank cs
    else countWords i 0 cs

/-- `get_str_num` -/
def getStrNum (buf : List UInt8) : Except TextFault ℕ := do
  let p ← skipBlanks buf
  countWords 0 0 p

/-- `check_blank` -/
def checkBlank (instr : List UInt8) : Except TextFault ℤ := do
  let c ← peek instr
  if c = 0 then return 0
  else do
    let num ← getStrNum instr
    if num = 0 then return 0
    else if num = 1 then return 1
    else return -1

/-- The loop of `check_symbol`. -/
def countSymbol (symbol : UInt8) (i : ℕ) : List UInt8 → Except TextFault ℕ
  | [] => .error .readPast
  | c :: cs =>
    if c = 0 then return i
    else if c = symbol then do
      let i ← incr i
      countSymbol symbol i cs
    else countSymbol symbol i cs

/-- `check_symbol` -/
def checkSymbol (instr : List UInt8) (symbol : UInt8) : Except TextFault ℕ :=
  countSymbol symbol 0 instr

/-- `my_atoi`, of a string -/
def myAtoi (p : List UInt8) : ℤ :=
  let p := p.dropWhile (· = zero)
  if p = [] then 0 else atoi p

/-- The loop of `dotted_to_ipaddr` that looks for two dots: `true` is its `return -1`.  After a dot
the pointer moves twice, whatever it moves over. -/
def doubleDot : List UInt8 → Except TextFault Bool
  | [] => .error .readPast
  | c :: cs =>
    if c = 0 then return false
    else if c = dot then
      match cs with
      | [] => .error .readPast
      | d :: ds => if d = dot then return true else doubleDot ds
    else doubleDot cs

/-- The loop of `dotted_to_ipaddr` over `strlen(dotted)` characters: `false` is its `return -1`. -/
def digitsAndDots (i : ℕ) : List UInt8 → Except TextFault Bool
  | [] => return true
  | c :: cs =>
    if ¬ IsDigit c ∧ c ≠ dot then return false
    else do
      let i ← incr i
      digitsAndDots i cs

/-- `n` rounds of the loop of `dotted_to_ipaddr` over the numbers in front of a dot, the first of
them number `i`: `none` is its `return -1`, else there is `p` and what is in `validip`. -/
def dottedNumbers : ℕ → ℕ → List UInt8 → List ℤ → Octets → Option (List UInt8 × List ℤ) × Octets
  | 0, _, p, validip, addrp => (some (p, validip), addrp)
  | n + 1, i, p, validip, addrp =>
    match strchr dot p with
    | none => (none, addrp)
    | some (number, rest) =>
      let onebyte := myAtoi number
      if onebyte < 0 ∨ 255 < onebyte then (none, addrp)
      else
        dottedNumbers n (i + 1) rest (validip ++ [onebyte])
          (addrp.set i (UInt8.ofNat onebyte.toNat))

/-- What `dotted_to_ipaddr` leaves: its result, the array of the text, and `*ipaddr`. -/
structure Dotted where
  ret : ℤ
  dotted : List UInt8
  ipaddr : Octets
  deriving DecidableEq

/-- `dotted_to_ipaddr`, once the text is copied to `buf` and has passed its checks. -/
def dottedBytes (dotted buf : List UInt8) (ipaddr : Octets) : Except TextFault Dotted :=
  match dottedNumbers 3 0 buf [] ipaddr with
  | (none, addrp) => return ⟨-1, dotted, addrp⟩
  | (some (p, validip), addrp) =>
    let number := p.takeWhile (IsDigit ·)
    if number = [] then return ⟨-1, dotted, addrp⟩
    else
      let onebyte := myAtoi number
      if onebyte < 0 ∨ 255 < onebyte then return ⟨-1, dotted, addrp⟩
      else do
        let numbers := (validip ++ [onebyte]).map decimalInt
        let dotted ← sprintf dotted ([dot].intercalate numbers)
        return ⟨1, dotted, addrp.set 3 (UInt8.ofNat onebyte.toNat)⟩

/-- `dotted_to_ipaddr` -/
def dottedToIpaddr (dotted : List UInt8) (ipaddr : Octets) : Except TextFault Dotted := do
  let blank ← checkBlank dotted
  if blank = 1 then do
    let symbol ← checkSymbol dotted dot
    if symbol ≠ 3 then return ⟨-1, dotted, ipaddr⟩
    else do
      let double ← doubleDot dotted
      if double then return ⟨-1, dotted, ipaddr⟩
      else do
        let s ← cstr dotted
        let buf := strncpy 19 s ++ [0]
        let clean ← digitsAndDots 0 s
        if clean then dottedBytes dotted buf ipaddr
        else return ⟨-1, dotted, ipaddr⟩
  else return ⟨blank, dotted, ipaddr⟩

/-! ### The checks -/

/-- `check_host_ipv4`, and the array of the text.  It returns nothing where `dotted_to_ipaddr`
returns neither 1 nor -1. -/
def checkHostIpv4 (ip : List UInt8) (raw : Octets) : Except TextFault (ℤ × List UInt8) := do
  let r ← dottedToIpaddr ip raw
  if r.ret = 1 then
    let p := r.ipaddr
    if p.a = 0 ∨ 223 < p.a ∨ p.d = 255 ∨ p.a = 127 then return (-1, r.dotted)
    else return (1, r.dotted)
  else if r.ret = -1 then return (-1, r.dotted)
  else .error .noValue

/-- `check_host_ipv6` -/
def checkHostIpv6 (jaddr : JujubeInAddr) : ℤ :=
  if jaddr.inxAddr = in6Unspecified then -1
  else if jaddr.inxAddr = in6Loopback then -2
  else 0

/-- `check_host_ip`, and the array of the text -/
def checkHostIp (serverIp : List UInt8) (jaddr : JujubeInAddr) (raw : Octets) :
    Except TextFault (ℤ × List UInt8) :=
  if jaddr.flag &&& useIpv4 ≠ 0 then do
    let (ret, serverIp) ← checkHostIpv4 serverIp raw
    if ret ≠ 1 then return (-1, serverIp) else return (0, serverIp)
  else if jaddr.flag &&& useIpv6 ≠ 0 then return (checkHostIpv6 jaddr, serverIp)
  else return (0, serverIp)

/-- What `check_host_ip_and_get_verion` leaves: its result, the array of the text, and `*jaddr`. -/
structure HostCheck where
  ret : ℤ
  serverIp : List UInt8
  jaddr : JujubeInAddr
  deriving DecidableEq

/-- `check_host_ip_and_get_verion`.  Where it jumps to its end the first `ret` is not 1. -/
def checkHostIpAndGetVerion (I : InetPton) (serverIp : List UInt8) (jaddr : JujubeInAddr)
    (raw : Octets) : Except TextFault HostCheck := do
  let s ← cstr serverIp
  let (ret, tmpAddr) := jujubePton I afInet s jujubeInAddrInit
  let (ret, tmpAddr) :=
    if ret = 1 then (ret, { tmpAddr with flag := useIpv4 })
    else if ret = 0 then
      let (ret, tmpAddr) := jujubePton I afInet6 s tmpAddr
      if ret ≠ 1 then (-1, tmpAddr) else (ret, { tmpAddr with flag := useIpv6 })
    else (-2, tmpAddr)
  if ret ≠ 1 then return ⟨ret, serverIp, jaddr⟩
  else do
    let jaddr := tmpAddr
    let (ret, serverIp) ← checkHostIp serverIp jaddr raw
    return ⟨ret, serverIp, jaddr⟩

end Jujube
