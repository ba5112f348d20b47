import Mathlib.Tactic

/-!
# `fastlz.c`

The compressor and the decompressor that the program is built with.  The file includes itself twice
and so defines both functions for each `FASTLZ_LEVEL`; here the level is a parameter.

A buffer that is read is the list of the bytes that may be read, from its start on: the input, and
what happens to stand behind it.  A pointer into it is an offset.  A buffer that is written is the
list of the bytes in front of the pointer, and its size bounds the list.  The hash table has offsets
of the input, all 0 at first.  Byte accesses are those of `FASTLZ_STRICT_ALIGN`, which is defined
wherever a pointer has eight bytes, and `FASTLZ_SAFE` is defined everywhere.

A loop has as many rounds as its first argument; that these are enough is proved, not assumed
(`BufferFault.endlessLoop`).
-/

namespace Jujube.FastLz

/-- What can stop a function on buffers. -/
inductive BufferFault
  /-- a read behind the end of a buffer -/
  | readPast
  /-- a write behind the end of a buffer -/
  | writePast
  /-- a read of output that was not written -/
  | readUnwritten
  /-- a loop goes on after all its rounds -/
  | endlessLoop
  deriving DecidableEq, Repr

/-- `FASTLZ_LEVEL` -/
inductive Level
  | one
  | two
  deriving DecidableEq, Repr

/-- `MAX_COPY` -/
def maxCopy : ℕ := 32

/-- `MAX_LEN` -/
def maxLen : ℕ := 264

/-- `MAX_DISTANCE` -/
def Level.maxDistance : Level → ℕ
  | .one => 8192
  | .two => 8191

/-- `b[i]` -/
def byteAt (b : List UInt8) (i : ℕ) : Except BufferFault UInt8 :=
  match b[i]? with
  | some x => .ok x
  | none => .error .readPast

/-- `*op++ = x`, in a buffer of `room` bytes -/
def put (room : ℕ) (op : List UInt8) (x : UInt8) : Except BufferFault (List UInt8) :=
  if op.length < room then .ok (op ++ [x]) else .error .writePast

/-- `*op++ = x` for one byte after the other -/
def puts (room : ℕ) (op : List UInt8) : List UInt8 → Except BufferFault (List UInt8)
  | [] => return op
  | x :: xs => do
    let op ← put room op x
    puts room op xs

/-- `*op++ = *ip++`, `n` times -/
def copyInput (room : ℕ) (b : List UInt8) :
    ℕ → ℕ → List UInt8 → Except BufferFault (List UInt8)
  | 0, _, op => return op
  | n + 1, ip, op => do
    let x ← byteAt b ip
    let op ← put room op x
    copyInput room b n (ip + 1) op

/-- `for (len -= 7; len >= 255; len -= 255) *op++ = 255; *op++ = len;`, from the subtraction on -/
def lenBytes (len : ℕ) : List UInt8 :=
  if 255 ≤ len then 255 :: lenBytes (len - 255) else [UInt8.ofNat len]
termination_by len

/-- "encode the match", on level 1 -/
def encodeMatch1 (len distance : ℕ) : List UInt8 :=
  if maxLen - 2 < len then
    [UInt8.ofNat ((7 <<< 5) + (distance >>> 8)), UInt8.ofNat (maxLen - 2 - 7 - 2),
      UInt8.ofNat (distance &&& 255)] ++ encodeMatch1 (len - (maxLen - 2)) distance
  else if len < 7 then
    [UInt8.ofNat ((len <<< 5) + (distance >>> 8)), UInt8.ofNat (distance &&& 255)]
  else
    [UInt8.ofNat ((7 <<< 5) + (distance >>> 8)), UInt8.ofNat (len - 7),
      UInt8.ofNat (distance &&& 255)]
termination_by len
decreasing_by simp only [maxLen] at *; omega

/-- "encode the match", on level 2 -/
def encodeMatch2 (len distance : ℕ) : List UInt8 :=
  if distance < Level.two.maxDistance then
    if len < 7 then
      [UInt8.ofNat ((len <<< 5) + (distance >>> 8)), UInt8.ofNat (distance &&& 255)]
    else
      UInt8.ofNat ((7 <<< 5) + (distance >>> 8)) ::
        (lenBytes (len - 7) ++ [UInt8.ofNat (distance &&& 255)])
  else
    -- far away, but not yet in the another galaxy...
    let distance := distance - Level.two.maxDistance
    if len < 7 then
      [UInt8.ofNat ((len <<< 5) + 31), 255, UInt8.ofNat (distance >>> 8),
        UInt8.ofNat (distance &&& 255)]
    else
      UInt8.ofNat ((7 <<< 5) + 31) :: (lenBytes (len - 7) ++
        [255, UInt8.ofNat (distance >>> 8), UInt8.ofNat (distance &&& 255)])

/-- "encode the match" -/
def Level.encodeMatch : Level → ℕ → ℕ → List UInt8
  | .one => encodeMatch1
  | .two => encodeMatch2

/-- The variables of the main loop.  `op` is what stands in front of the pointer. -/
structure Encoder where
  ip : ℕ
  op : List UInt8
  htab : ℕ → ℕ
  copy : ℕ

/-- "marker for fastlz2" -/
def Level.mark : Level → List UInt8 → List UInt8
  | .one, op => op
  | .two, op => op.modifyHead fun x => x ||| 32

/-- `do { code = *ip++; len += code; } while (code == 255);`: `ip` and `len`. -/
def lenLoop (b : List UInt8) : ℕ → ℕ → ℕ → Except BufferFault (ℕ × ℕ)
  | 0, _, _ => .error .endlessLoop
  | k + 1, ip, len => do
    let code ← byteAt b ip
    let len := (len + code.toNat) % 2 ^ 32
    if code = 255 then lenLoop b k (ip + 1) len else return (ip + 1, len)

/-- What a control byte for a match announces, `op` bytes having been written: `ip`, `len` and
`ref`. -/
def readMatch (l : Level) (b : List UInt8) (ctrl ip op : ℕ) :
    Except BufferFault (ℕ × ℕ × ℤ) := do
  let ofs := (ctrl &&& 31) <<< 8
  let len := (ctrl >>> 5) - 1
  match l with
  | .one => do
    let (ip, len) ← (if len = 7 - 1 then do
        let code ← byteAt b ip
        return (ip + 1, len + code.toNat)
      else return (ip, len))
    let code ← byteAt b ip
    return (ip + 1, len, (op : ℤ) - ofs - code.toNat)
  | .two => do
    let (ip, len) ← (if len = 7 - 1 then lenLoop b (b.length + 1) ip len else return (ip, len))
    let code ← byteAt b ip
    -- match from 16-bit distance
    if code = 255 ∧ ofs = 31 <<< 8 then do
      let hi ← byteAt b (ip + 1)
      let lo ← byteAt b (ip + 2)
      let ofs := (hi.toNat <<< 8) + lo.toNat
      return (ip + 3, len, (op : ℤ) - ofs - Level.two.maxDistance)
    else return (ip + 1, len, (op : ℤ) - ofs - code.toNat)

/-- `*ref` in the output -/
def writtenAt (op : List UInt8) (ref : ℕ) : Except BufferFault UInt8 :=
  match op[ref]? with
  | some x => .ok x
  | none => .error .readUnwritten

/-- `*op++ = *ref++`, `n` times, in the output itself -/
def copyRef (maxout : ℕ) : ℕ → ℕ → List UInt8 → Except BufferFault (List UInt8)
  | 0, _, op => return op
  | n + 1, ref, op => do
    let x ← writtenAt op ref
    let op ← put maxout op x
    copyRef maxout n (ref + 1) op

/-- The copy of a match. -/
def copyMatch (maxout len : ℕ) (ref : ℤ) (op : List UInt8) : Except BufferFault (List UInt8) := do
  if ref = op.length then do
    -- optimize copy for a run
    let x ← writtenAt op (op.length - 1)
    puts maxout op (List.replicate (3 + len) x)
  else copyRef maxout (3 + len) (ref - 1).toNat op

/-- The main loop, from `ctrl` on: what is returned, and what was written. -/
def decompressLoop (l : Level) (b : List UInt8) (length maxout : ℕ) :
    ℕ → ℕ → ℕ → List UInt8 → Except BufferFault (ℕ × List UInt8)
  | 0, _, _, _ => .error .endlessLoop
  | k + 1, ctrl, ip, op =>
    if 32 ≤ ctrl then do
      let (ip, len, ref) ← readMatch l b ctrl ip op.length
      if maxout < op.length + len + 3 then return (0, op)
      else if ref - 1 < 0 then return (0, op)
      -- the next control byte is read before the copy
      else if ip < length then do
        let next ← byteAt b ip
        let op ← copyMatch maxout len ref op
        decompressLoop l b length maxout k next.toNat (ip + 1) op
      else do
        let op ← copyMatch maxout len ref op
        return (op.length, op)
    else
      let n := ctrl + 1
      if maxout < op.length + n then return (0, op)
      else if length < ip + n then return (0, op)
      else do
        let op ← copyInput maxout b n ip op
        let ip := ip + n
        if ip < length then do
          let next ← byteAt b ip
          decompressLoop l b length maxout k next.toNat (ip + 1) op
        else return (op.length, op)

/-- `FASTLZ_DECOMPRESSOR` -/
def decompressor (l : Level) (b : List UInt8) (length maxout : ℕ) :
    Except BufferFault (ℕ × List UInt8) := do
  let ctrl ← byteAt b 0
  decompressLoop l b length maxout (length + 1) (ctrl.toNat &&& 31) 1 []

/-! ### The interface -/

/-- `fastlz_decompress`: what is returned, and what was written to a buffer of `maxout` bytes -/
def fastlzDecompress (b : List UInt8) (length maxout : ℕ) :
    Except BufferFault (ℕ × List UInt8) := do
  -- magic identifier for compression level
  let magic ← byteAt b 0
  let level := (magic.toNat >>> 5) + 1
  if level = 1 then decompressor .one b length maxout
  else if level = 2 then decompressor .two b length maxout
  -- unknown level, trigger error
  else return (0, [])

end Jujube.FastLz
