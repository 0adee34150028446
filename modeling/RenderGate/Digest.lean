/-!
# Digests

The BLAKE3 hash of a sequence of bytes, 32 bytes long.  The input is cut into chunks of 1024 bytes,
each chunk is compressed block by block, and the chaining values of the chunks are joined in a
binary tree whose left part always holds the largest power of two of chunks that leaves some for
the right part.
-/

namespace RenderGate.Digest

/-- The chaining value that every tree starts from. -/
def start : Vector UInt32 8 :=
  #v[0x6A09E667, 0xBB67AE85, 0x3C6EF372, 0xA54FF53A, 0x510E527F, 0x9B05688C, 0x1F83D9AB, 0x5BE0CD19]

/-- Where each word of the message goes between two rounds. -/
def permutation : Vector (Fin 16) 16 := #v[2, 6, 3, 10, 7, 0, 4, 13, 1, 11, 12, 5, 9, 14, 15, 8]

def chunkStart : UInt32 := 1

def chunkEnd : UInt32 := 2

/-- A block that joins two chaining values. -/
def parent : UInt32 := 4

def root : UInt32 := 8

def rotateRight (x k : UInt32) : UInt32 := (x >>> k) ||| (x <<< (32 - k))

/-- Mixes two words of the message into a column or diagonal of the state. -/
def quarter (s : Vector UInt32 16) (a b c d : Fin 16) (x y : UInt32) : Vector UInt32 16 :=
  let va := s[a] + s[b] + x
  let vd := rotateRight (s[d] ^^^ va) 16
  let vc := s[c] + vd
  let vb := rotateRight (s[b] ^^^ vc) 12
  let va := va + vb + y
  let vd := rotateRight (vd ^^^ va) 8
  let vc := vc + vd
  let vb := rotateRight (vb ^^^ vc) 7
  (((s.set a va).set b vb).set c vc).set d vd

/-- One round: the four columns, then the four diagonals. -/
def round (s m : Vector UInt32 16) : Vector UInt32 16 :=
  let s := quarter s 0 4 8 12 m[0] m[1]
  let s := quarter s 1 5 9 13 m[2] m[3]
  let s := quarter s 2 6 10 14 m[4] m[5]
  let s := quarter s 3 7 11 15 m[6] m[7]
  let s := quarter s 0 5 10 15 m[8] m[9]
  let s := quarter s 1 6 11 12 m[10] m[11]
  let s := quarter s 2 7 8 13 m[12] m[13]
  quarter s 3 4 9 14 m[14] m[15]

/-- The given number of rounds, with the message permuted between them. -/
def rounds : Nat → Vector UInt32 16 → Vector UInt32 16 → Vector UInt32 16
  | 0, s, _ => s
  | 1, s, m => round s m
  | n + 1, s, m => rounds n (round s m) (permutation.map fun i => m[i])

structure Block where
  chaining : Vector UInt32 8
  message : Vector UInt32 16
  counter : UInt64
  length : UInt32
  flags : UInt32

def Block.compress (b : Block) (flags : UInt32) : Vector UInt32 8 :=
  let tail : Vector UInt32 8 :=
    #v[start[0], start[1], start[2], start[3], b.counter.toUInt32, (b.counter >>> 32).toUInt32,
      b.length, b.flags ||| flags]
  let s := rounds 7 (b.chaining ++ tail) b.message
  Vector.ofFn fun i : Fin 8 => s[i.val] ^^^ s[i.val + 8]

/-- The word in little-endian order at a place of the input, which is continued by zeros. -/
def wordAt (bytes : ByteArray) (place : Nat) : UInt32 :=
  let byte (i : Nat) : UInt32 := (bytes[place + i]?.getD 0).toUInt32
  byte 0 ||| (byte 1 <<< 8) ||| (byte 2 <<< 16) ||| (byte 3 <<< 24)

def messageAt (bytes : ByteArray) (place : Nat) : Vector UInt32 16 :=
  Vector.ofFn fun i : Fin 16 => wordAt bytes (place + 4 * i.val)

/-- The block of a chunk that starts at a place of the input and ends before `stop`. -/
def blockAt (bytes : ByteArray) (index : Nat) (chaining : Vector UInt32 8) (place stop : Nat)
    (flags : UInt32) : Block :=
  { chaining := chaining
    message := messageAt bytes place
    counter := index.toUInt64
    length := (min 64 (stop - place)).toUInt32
    flags := flags }

/-- The last block of a chunk of which `blocks + 1` blocks are left. -/
def chunkFrom (bytes : ByteArray) (index stop : Nat) :
    Nat → Vector UInt32 8 → Nat → UInt32 → Block
  | 0, chaining, place, flags => blockAt bytes index chaining place stop (flags ||| chunkEnd)
  | blocks + 1, chaining, place, flags =>
      let next := (blockAt bytes index chaining place stop flags).compress 0
      chunkFrom bytes index stop blocks next (place + 64) 0

def chunk (bytes : ByteArray) (index : Nat) : Block :=
  let place := 1024 * index
  let stop := min (place + 1024) bytes.size
  chunkFrom bytes index stop ((stop - place - 1) / 64) start place chunkStart

def join (left right : Block) : Block :=
  { chaining := start
    message := left.compress 0 ++ right.compress 0
    counter := 0
    length := 64
    flags := parent }

/-- The largest power of two below a number greater than one. -/
def leftShare (count : Nat) : Nat := Nat.pow 2 (count - 1).log2

theorem leftShare_lt {count : Nat} (h : 1 < count) : leftShare count < count := by
  have hle : leftShare count ≤ count - 1 := Nat.log2_self_le (by omega)
  omega

theorem leftShare_pos (count : Nat) : 0 < leftShare count := Nat.two_pow_pos _

def subtree (bytes : ByteArray) (first count : Nat) : Block :=
  if _ : 1 < count then
    join (subtree bytes first (leftShare count))
      (subtree bytes (first + leftShare count) (count - leftShare count))
  else chunk bytes first
termination_by count
decreasing_by
  · exact leftShare_lt (by assumption)
  · have := leftShare_pos count
    omega

/-- The four bytes of a word in little-endian order. -/
def bytesOf (w : UInt32) : List UInt8 :=
  [w.toUInt8, (w >>> 8).toUInt8, (w >>> 16).toUInt8, (w >>> 24).toUInt8]

def hash (bytes : ByteArray) : List UInt8 :=
  ((subtree bytes 0 ((bytes.size + 1023) / 1024)).compress root).toList.flatMap bytesOf

def hexByte (b : UInt8) : List Char :=
  let digit (n : Nat) : Char := if n < 10 then Char.ofNat (48 + n) else Char.ofNat (87 + n)
  [digit (b.toNat / 16), digit (b.toNat % 16)]

/-- The hash of a text in UTF-8, as 64 hexadecimal digits. -/
def ofText (text : String) : String := String.ofList ((hash text.toUTF8).flatMap hexByte)

end RenderGate.Digest
