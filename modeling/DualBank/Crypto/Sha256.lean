import Mathlib.Logic.Basic

/-!
# SHA-256

The streaming implementation of `bootloader/src/sha256.c`.  Of the 64-byte buffer
of the context the model keeps the `datalen` bytes that are in use: the others are
overwritten before they are read.
-/

namespace DualBank

def rotr (x n : UInt32) : UInt32 := (x >>> n) ||| (x <<< (32 - n))

def ch (x y z : UInt32) : UInt32 := (x &&& y) ^^^ (~~~x &&& z)
def maj (x y z : UInt32) : UInt32 := (x &&& y) ^^^ (x &&& z) ^^^ (y &&& z)
def ep0 (x : UInt32) : UInt32 := rotr x 2 ^^^ rotr x 13 ^^^ rotr x 22
def ep1 (x : UInt32) : UInt32 := rotr x 6 ^^^ rotr x 11 ^^^ rotr x 25
def sig0 (x : UInt32) : UInt32 := rotr x 7 ^^^ rotr x 18 ^^^ (x >>> 3)
def sig1 (x : UInt32) : UInt32 := rotr x 17 ^^^ rotr x 19 ^^^ (x >>> 10)

/-- The round constants `K`. -/
def sha256K : List UInt32 := [
  0x428a2f98, 0x71374491, 0xb5c0fbcf, 0xe9b5dba5, 0x3956c25b, 0x59f111f1,
  0x923f82a4, 0xab1c5ed5, 0xd807aa98, 0x12835b01, 0x243185be, 0x550c7dc3,
  0x72be5d74, 0x80deb1fe, 0x9bdc06a7, 0xc19bf174, 0xe49b69c1, 0xefbe4786,
  0x0fc19dc6, 0x240ca1cc, 0x2de92c6f, 0x4a7484aa, 0x5cb0a9dc, 0x76f988da,
  0x983e5152, 0xa831c66d, 0xb00327c8, 0xbf597fc7, 0xc6e00bf3, 0xd5a79147,
  0x06ca6351, 0x14292967, 0x27b70a85, 0x2e1b2138, 0x4d2c6dfc, 0x53380d13,
  0x650a7354, 0x766a0abb, 0x81c2c92e, 0x92722c85, 0xa2bfe8a1, 0xa81a664b,
  0xc24b8b70, 0xc76c51a3, 0xd192e819, 0xd6990624, 0xf40e3585, 0x106aa070,
  0x19a4c116, 0x1e376c08, 0x2748774c, 0x34b0bcb5, 0x391c0cb3, 0x4ed8aa4a,
  0x5b9cca4f, 0x682e6ff3, 0x748f82ee, 0x78a5636f, 0x84c87814, 0x8cc70208,
  0x90befffa, 0xa4506ceb, 0xbef9a3f7, 0xc67178f2]

/-- The eight words of `state`. -/
structure Sha256State where
  a : UInt32
  b : UInt32
  c : UInt32
  d : UInt32
  e : UInt32
  f : UInt32
  g : UInt32
  h : UInt32
deriving DecidableEq

/-- `sha256_ctx_t`; `datalen` is the length of `data`. -/
structure Sha256Ctx where
  data : List UInt8
  bitlen : UInt64
  state : Sha256State
deriving DecidableEq

/-- The first sixteen words of the schedule, big-endian. -/
def sha256Load : List UInt8 → List UInt32
  | b₀ :: b₁ :: b₂ :: b₃ :: bs =>
    ((b₀.toUInt32 <<< 24) ||| (b₁.toUInt32 <<< 16) ||| (b₂.toUInt32 <<< 8) ||| b₃.toUInt32) ::
      sha256Load bs
  | _ => []

/-- `n` further words of the schedule. -/
def sha256Extend : Nat → List UInt32 → List UInt32
  | 0, m => m
  | n + 1, m =>
    let i := m.length
    sha256Extend n (m ++ [sig1 (m.getD (i - 2) 0) + m.getD (i - 7) 0 +
      sig0 (m.getD (i - 15) 0) + m.getD (i - 16) 0])

/-- One round. -/
def sha256Round (s : Sha256State) (k m : UInt32) : Sha256State :=
  let t1 := s.h + ep1 s.e + ch s.e s.f s.g + k + m
  let t2 := ep0 s.a + maj s.a s.b s.c
  ⟨t1 + t2, s.a, s.b, s.c, s.d + t1, s.e, s.f, s.g⟩

def sha256Transform (s : Sha256State) (data : List UInt8) : Sha256State :=
  let m := sha256Extend 48 (sha256Load data)
  let r := (sha256K.zip m).foldl (fun r km ↦ sha256Round r km.1 km.2) s
  ⟨s.a + r.a, s.b + r.b, s.c + r.c, s.d + r.d, s.e + r.e, s.f + r.f, s.g + r.g, s.h + r.h⟩

def sha256Init : Sha256Ctx where
  data := []
  bitlen := 0
  state := ⟨0x6a09e667, 0xbb67ae85, 0x3c6ef372, 0xa54ff53a,
    0x510e527f, 0x9b05688c, 0x1f83d9ab, 0x5be0cd19⟩

/-- One turn of the loop of `sha256_update`. -/
def sha256Push (ctx : Sha256Ctx) (b : UInt8) : Sha256Ctx :=
  let data := ctx.data ++ [b]
  if data.length = 64 then
    { data := [], bitlen := ctx.bitlen + 512, state := sha256Transform ctx.state data }
  else { ctx with data := data }

def sha256Update (ctx : Sha256Ctx) : List UInt8 → Sha256Ctx
  | [] => ctx
  | b :: bs => sha256Update (sha256Push ctx b) bs

/-- The eight length bytes of the last block. -/
def be64 (w : UInt64) : List UInt8 :=
  [(w >>> 56).toUInt8, (w >>> 48).toUInt8, (w >>> 40).toUInt8, (w >>> 32).toUInt8,
    (w >>> 24).toUInt8, (w >>> 16).toUInt8, (w >>> 8).toUInt8, w.toUInt8]

/-- The four output bytes of a state word. -/
def be32 (w : UInt32) : List UInt8 :=
  [((w >>> 24) &&& 0xFF).toUInt8, ((w >>> 16) &&& 0xFF).toUInt8,
    ((w >>> 8) &&& 0xFF).toUInt8, (w &&& 0xFF).toUInt8]

def sha256Final (ctx : Sha256Ctx) : List UInt8 :=
  let bitlen := ctx.bitlen + ctx.data.length.toUInt64 * 8
  let s :=
    if ctx.data.length < 56 then
      sha256Transform ctx.state
        (ctx.data ++ [0x80] ++ List.replicate (55 - ctx.data.length) 0 ++ be64 bitlen)
    else
      sha256Transform
        (sha256Transform ctx.state
          (ctx.data ++ [0x80] ++ List.replicate (63 - ctx.data.length) 0))
        (List.replicate 56 0 ++ be64 bitlen)
  be32 s.a ++ be32 s.b ++ be32 s.c ++ be32 s.d ++ be32 s.e ++ be32 s.f ++ be32 s.g ++ be32 s.h

/-- The one-shot hash. -/
def sha256 (data : List UInt8) : List UInt8 := sha256Final (sha256Update sha256Init data)

/-- Feeding a message in two pieces is feeding it whole. -/
theorem sha256Update_append (ctx : Sha256Ctx) (xs ys : List UInt8) :
    sha256Update ctx (xs ++ ys) = sha256Update (sha256Update ctx xs) ys := by
  induction xs generalizing ctx with
  | nil => rfl
  | cons x xs ih => exact ih (sha256Push ctx x)

@[simp] theorem length_sha256 (data : List UInt8) : (sha256 data).length = 32 := by
  simp [sha256, sha256Final, be32]

end DualBank
