import DiscCleaner.Lib.BigEndian

/-!
# DiscCleaner — the pattern generator of the boot payload (`dc-baremetal/chacha.rs`)

ChaCha20 on sixteen 32-bit words. A buffer of zeros that the cipher is applied to holds the
keystream.
-/

namespace DiscCleaner

open ByteLib

namespace Baremetal

abbrev ChaChaWords := Vector UInt32 16

structure ChaCha20 where
  state : ChaChaWords
  block : Bytes
  pos : Nat

def rotateLeft (x : UInt32) (n : UInt32) : UInt32 := (x <<< n) ||| (x >>> (32 - n))

/-- The quarter round on the words `a`, `b`, `c`, `d`. -/
def quarter (s : ChaChaWords) (a b c d : Fin 16) : ChaChaWords :=
  let s := s.set a (s[a] + s[b])
  let s := s.set d (rotateLeft (s[d] ^^^ s[a]) 16)
  let s := s.set c (s[c] + s[d])
  let s := s.set b (rotateLeft (s[b] ^^^ s[c]) 12)
  let s := s.set a (s[a] + s[b])
  let s := s.set d (rotateLeft (s[d] ^^^ s[a]) 8)
  let s := s.set c (s[c] + s[d])
  s.set b (rotateLeft (s[b] ^^^ s[c]) 7)

/-- Column rounds, then diagonal rounds. -/
def doubleRound (s : ChaChaWords) : ChaChaWords :=
  let s := quarter s 0 4 8 12
  let s := quarter s 1 5 9 13
  let s := quarter s 2 6 10 14
  let s := quarter s 3 7 11 15
  let s := quarter s 0 5 10 15
  let s := quarter s 1 6 11 12
  let s := quarter s 2 7 8 13
  quarter s 3 4 9 14

namespace ChaCha20

def wordAt (bs : Bytes) (i : Nat) : UInt32 := UInt32.ofNat (ofLe (slice bs (4 * i) 4))

def new (key : Block 32) (nonce : Block 12) (counter : UInt32) : ChaCha20 where
  state := #v[0x61707865, 0x3320646e, 0x79622d32, 0x6b206574,
    wordAt key.bytes 0, wordAt key.bytes 1, wordAt key.bytes 2, wordAt key.bytes 3,
    wordAt key.bytes 4, wordAt key.bytes 5, wordAt key.bytes 6, wordAt key.bytes 7,
    counter, wordAt nonce.bytes 0, wordAt nonce.bytes 1, wordAt nonce.bytes 2]
  block := List.replicate 64 0
  pos := 64

/-- The next block: ten double rounds and the state added to them. -/
def refill (c : ChaCha20) : ChaCha20 :=
  let working := (List.range 10).foldl (fun s _ => doubleRound s) c.state
  { state := c.state.set 12 (c.state[12] + 1)
    block := (working.zipWith (· + ·) c.state).toList.flatMap fun w => le32 w.toNat
    pos := 0 }

/-- Combine a buffer with the keystream. -/
def apply (c : ChaCha20) : Bytes → Bytes × ChaCha20
  | [] => ([], c)
  | b :: bs =>
    let c := if c.pos = 64 then c.refill else c
    let (rest, c') := apply { c with pos := c.pos + 1 } bs
    ((b ^^^ c.block.getD c.pos 0) :: rest, c')

theorem apply_length (c : ChaCha20) (bs : Bytes) : (c.apply bs).1.length = bs.length := by
  induction bs generalizing c with
  | nil => rfl
  | cons b bs ih => rw [apply, List.length_cons, List.length_cons, ih]

end ChaCha20

/-- The key and nonce of the known-answer test. -/
def katKey : Block 32 := ⟨(List.range 32).map UInt8.ofNat, rfl⟩

def katNonce : Block 12 := ⟨[0, 0, 0, 9, 0, 0, 0, 0x4a, 0, 0, 0, 0], rfl⟩

example : ((ChaCha20.new katKey katNonce 1).apply (List.replicate 16 0)).1
    = [0x10, 0xf1, 0xe7, 0xe4, 0xd1, 0x3b, 0x59, 0x15, 0x50, 0x0f, 0xdd, 0x1f, 0xa3, 0x20, 0x71,
      0xc4] := by decide +kernel

/-- A page of zeros that the cipher was applied to. -/
def keystream (key : Block 32) (nonce : Block 12) (n : Nat) : Bytes :=
  ((ChaCha20.new key nonce 0).apply (List.replicate n 0)).1

@[simp] theorem keystream_length (key : Block 32) (nonce : Block 12) (n : Nat) :
    (keystream key nonce n).length = n := by
  rw [keystream, ChaCha20.apply_length, List.length_replicate]

/-- The nonce of a chunk: its first sector, little-endian in 8 bytes, then four zeros. -/
def lbaNonce (lba : Nat) : Block 12 where
  bytes := le32 lba ++ le32 (lba / 2 ^ 32) ++ List.replicate 4 0
  size := rfl

end Baremetal

end DiscCleaner
