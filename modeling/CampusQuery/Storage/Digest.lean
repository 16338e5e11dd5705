/-!
Digests of bytes: SHA-1, and the name-based identifiers of version 5 that are made with it.
-/

namespace CampusQuery.Storage

/-- Lower-case hexadecimal, two digits a byte. -/
def hex (bytes : List UInt8) : List Char :=
  bytes.flatMap fun b => [Nat.digitChar (b.toNat / 16), Nat.digitChar (b.toNat % 16)]

/-- `x` turned left by `n` bits. -/
def turnLeft (x n : UInt32) : UInt32 :=
  (x <<< n) ||| (x >>> (32 - n))

/-- The `n` low bytes of a number, the highest first. -/
def bigEndian (n value : Nat) : List UInt8 :=
  (List.range n).reverse.map fun i => .ofNat (value >>> (8 * i))

/-- The number that four bytes write, the highest first. -/
def word (bytes : List UInt8) : UInt32 :=
  bytes.foldl (fun acc b => acc * 256 + b.toUInt32) 0

/-- Consecutive pieces of `n` elements; the last one may be shorter. -/
def pieces {α : Type} (n fuel : Nat) (l : List α) : List (List α) :=
  match fuel, l with
  | 0, _ | _, [] => []
  | fuel + 1, l => l.take n :: pieces n fuel (l.drop n)

/-- The message with a one bit, zeros, and its length in bits, in blocks of sixty-four bytes. -/
def padded (message : List UInt8) : List UInt8 :=
  let zeros := (119 - message.length % 64) % 64
  message ++ 0x80 :: List.replicate zeros 0 ++ bigEndian 8 (8 * message.length)

/-- The eighty words of a block, from sixteen. -/
def schedule (words : Array UInt32) : Array UInt32 :=
  (List.range 64).foldl (fun w i =>
    let mixed := w.getD (i + 13) 0 ^^^ w.getD (i + 8) 0 ^^^ w.getD (i + 2) 0 ^^^ w.getD i 0
    w.push (turnLeft mixed 1)) words

/-- The five words of a digest in the making. -/
structure DigestState where
  a : UInt32
  b : UInt32
  c : UInt32
  d : UInt32
  e : UInt32

namespace DigestState

def start : DigestState :=
  ⟨0x67452301, 0xEFCDAB89, 0x98BADCFE, 0x10325476, 0xC3D2E1F0⟩

/-- One of the eighty steps of a block, with its word. -/
def step (s : DigestState) (i : Nat) (w : UInt32) : DigestState :=
  let (f, k) :=
    if i < 20 then ((s.b &&& s.c) ||| (~~~s.b &&& s.d), 0x5A827999)
    else if i < 40 then (s.b ^^^ s.c ^^^ s.d, 0x6ED9EBA1)
    else if i < 60 then ((s.b &&& s.c) ||| (s.b &&& s.d) ||| (s.c &&& s.d), 0x8F1BBCDC)
    else (s.b ^^^ s.c ^^^ s.d, 0xCA62C1D6)
  ⟨turnLeft s.a 5 + f + s.e + k + w, s.a, turnLeft s.b 30, s.c, s.d⟩

/-- A block of sixty-four bytes. -/
def block (s : DigestState) (bytes : List UInt8) : DigestState :=
  let words := schedule ((pieces 4 16 bytes).map word).toArray
  let t := (List.range 80).foldl (fun t i => t.step i (words.getD i 0)) s
  ⟨s.a + t.a, s.b + t.b, s.c + t.c, s.d + t.d, s.e + t.e⟩

/-- The twenty bytes of the digest. -/
def bytes (s : DigestState) : List UInt8 :=
  [s.a, s.b, s.c, s.d, s.e].flatMap fun w => bigEndian 4 w.toNat

end DigestState

/-- The SHA-1 digest of a message. -/
def sha1 (message : List UInt8) : List UInt8 :=
  let message := padded message
  ((pieces 64 message.length message).foldl DigestState.block .start).bytes

/-- The namespace for object identifiers. -/
def objectNamespace : List UInt8 :=
  [0x6B, 0xA7, 0xB8, 0x12, 0x9D, 0xAD, 0x11, 0xD1, 0x80, 0xB4, 0x00, 0xC0, 0x4F, 0xD4, 0x30, 0xC8]

/-- The identifier of version 5 of a name: the front of the digest of namespace and name, marked
with version and variant. -/
def nameIdentifier (name : List UInt8) : List UInt8 :=
  ((sha1 (objectNamespace ++ name)).take 16).mapIdx fun i b =>
    if i = 6 then (b &&& 0x0F) ||| 0x50 else if i = 8 then (b &&& 0x3F) ||| 0x80 else b

/-- The digest of `abc`. -/
example : String.ofList (hex (sha1 "abc".toUTF8.data.toList)) =
    "a9993e364706816aba3e25717850c26c9cd0d89d" := by decide +kernel

example : (sha1 (List.replicate 64 0x61)).length = 20 := by decide +kernel

end CampusQuery.Storage
