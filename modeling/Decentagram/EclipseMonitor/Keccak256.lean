import Decentagram.EclipseMonitor.DataTypes

/-! # Keccak-256

The permutation on 25 words and the sponge on the bytes they consist of.
-/

namespace Decentagram.Eth

namespace Keccak

def rho : List UInt64 :=
  [1, 3, 6, 10, 15, 21, 28, 36, 45, 55, 2, 14, 27, 41, 56, 8, 25, 43, 62, 18, 39, 61, 20, 44]

def pi : List Nat :=
  [10, 7, 11, 17, 18, 3, 5, 16, 8, 21, 24, 4, 15, 23, 19, 13, 12, 2, 20, 14, 22, 9, 6, 1]

def rc : List UInt64 :=
  [0x1, 0x8082, 0x800000000000808a, 0x8000000080008000, 0x808b, 0x80000001, 0x8000000080008081,
   0x8000000000008009, 0x8a, 0x88, 0x80008009, 0x8000000a, 0x8000808b, 0x800000000000008b,
   0x8000000000008089, 0x8000000000008003, 0x8000000000008002, 0x8000000000000080, 0x800a,
   0x800000008000000a, 0x8000000080008081, 0x8000000000008080, 0x80000001, 0x8000000080008008]

def rol (x s : UInt64) : UInt64 := x <<< s ||| x >>> (64 - s)

abbrev Words := List UInt64

def theta (a : Words) : Words :=
  let b := (List.range 5).map fun x =>
    (List.range 5).foldl (fun b y => b ^^^ a.getD (x + 5 * y) 0) 0
  (List.range 25).map fun i =>
    a.getD i 0 ^^^ (b.getD ((i + 4) % 5) 0 ^^^ rol (b.getD ((i + 1) % 5) 0) 1)

def rhoPi (a : Words) : Words :=
  ((pi.zip rho).foldl (fun (a, t) (place, shift) => (a.set place (rol t shift), a.getD place 0))
    (a, a.getD 1 0)).1

def chi (a : Words) : Words :=
  (List.range 25).map fun i =>
    let y := i / 5 * 5
    a.getD i 0 ^^^ (~~~ a.getD (y + (i + 1) % 5) 0 &&& a.getD (y + (i + 2) % 5) 0)

def iota (a : Words) (constant : UInt64) : Words := a.set 0 (a.getD 0 0 ^^^ constant)

def permute (a : Words) : Words := rc.foldl (fun a constant => iota (chi (rhoPi (theta a))) constant) a

/-- The bytes of a word, the lowest first. -/
def wordBytes (word : UInt64) : Bytes :=
  (List.range 8).map fun i => (word >>> UInt64.ofNat (8 * i)).toUInt8

def bytesWord (bytes : Bytes) : UInt64 :=
  bytes.foldr (fun byte word => word <<< 8 ||| byte.toUInt64) 0

def words (state : Bytes) : Words := (List.range 25).map fun i => bytesWord ((state.drop (8 * i)).take 8)

def keccakf (state : Bytes) : Bytes := (permute (words state)).flatMap wordBytes

/-- The bytes are added to the first ones of the state. -/
def xorin : Bytes → Bytes → Bytes
  | dst :: state, src :: bytes => (dst ^^^ src) :: xorin state bytes
  | state, _ => state

def rate : Nat := 136

/-- `FoldP` with the number of blocks to go: the state, and what is left of the input. -/
def foldP : Nat → Bytes → Bytes → Bytes × Bytes
  | 0, state, input => (state, input)
  | blocks + 1, state, input =>
    foldP blocks (keccakf (xorin state (input.take rate))) (input.drop rate)

def xorAt (state : Bytes) (place : Nat) (byte : UInt8) : Bytes :=
  state.set place (state.getD place 0 ^^^ byte)

end Keccak

open Keccak in
def keccak256 (input : Bytes) : Hash :=
  let (state, input) := foldP (input.length / rate) (List.replicate 200 0) input
  let state := xorAt (xorAt state input.length 0x01) (rate - 1) 0x80
  let state := keccakf (xorin state input)
  Vector.ofFn fun i => state.getD i 0

end Decentagram.Eth
