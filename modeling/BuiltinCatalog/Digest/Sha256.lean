import BuiltinCatalog.Text.Basic

namespace BuiltinCatalog.Sha256

abbrev Word := UInt32

def rotate (x n : Word) : Word := (x >>> n) ||| (x <<< (32 - n))

def choose (x y z : Word) : Word := (x &&& y) ^^^ (~~~x &&& z)

def majority (x y z : Word) : Word := (x &&& y) ^^^ (x &&& z) ^^^ (y &&& z)

def sum₀ (x : Word) : Word := rotate x 2 ^^^ rotate x 13 ^^^ rotate x 22

def sum₁ (x : Word) : Word := rotate x 6 ^^^ rotate x 11 ^^^ rotate x 25

def sigma₀ (x : Word) : Word := rotate x 7 ^^^ rotate x 18 ^^^ (x >>> 3)

def sigma₁ (x : Word) : Word := rotate x 17 ^^^ rotate x 19 ^^^ (x >>> 10)

/-- The fractional parts of the cube roots of the first 64 primes. -/
def roundWords : List Word := [
  0x428a2f98, 0x71374491, 0xb5c0fbcf, 0xe9b5dba5, 0x3956c25b, 0x59f111f1, 0x923f82a4, 0xab1c5ed5,
  0xd807aa98, 0x12835b01, 0x243185be, 0x550c7dc3, 0x72be5d74, 0x80deb1fe, 0x9bdc06a7, 0xc19bf174,
  0xe49b69c1, 0xefbe4786, 0x0fc19dc6, 0x240ca1cc, 0x2de92c6f, 0x4a7484aa, 0x5cb0a9dc, 0x76f988da,
  0x983e5152, 0xa831c66d, 0xb00327c8, 0xbf597fc7, 0xc6e00bf3, 0xd5a79147, 0x06ca6351, 0x14292967,
  0x27b70a85, 0x2e1b2138, 0x4d2c6dfc, 0x53380d13, 0x650a7354, 0x766a0abb, 0x81c2c92e, 0x92722c85,
  0xa2bfe8a1, 0xa81a664b, 0xc24b8b70, 0xc76c51a3, 0xd192e819, 0xd6990624, 0xf40e3585, 0x106aa070,
  0x19a4c116, 0x1e376c08, 0x2748774c, 0x34b0bcb5, 0x391c0cb3, 0x4ed8aa4a, 0x5b9cca4f, 0x682e6ff3,
  0x748f82ee, 0x78a5636f, 0x84c87814, 0x8cc70208, 0x90befffa, 0xa4506ceb, 0xbef9a3f7, 0xc67178f2]

structure State where
  a : Word
  b : Word
  c : Word
  d : Word
  e : Word
  f : Word
  g : Word
  h : Word
  deriving DecidableEq, Repr

namespace State

/-- The fractional parts of the square roots of the first eight primes. -/
def initial : State :=
  ⟨0x6a09e667, 0xbb67ae85, 0x3c6ef372, 0xa54ff53a, 0x510e527f, 0x9b05688c, 0x1f83d9ab, 0x5be0cd19⟩

def round (s : State) (k w : Word) : State :=
  let t₁ := s.h + sum₁ s.e + choose s.e s.f s.g + k + w
  let t₂ := sum₀ s.a + majority s.a s.b s.c
  ⟨t₁ + t₂, s.a, s.b, s.c, s.d + t₁, s.e, s.f, s.g⟩

def add (s t : State) : State :=
  ⟨s.a + t.a, s.b + t.b, s.c + t.c, s.d + t.d, s.e + t.e, s.f + t.f, s.g + t.g, s.h + t.h⟩

def words (s : State) : List Word := [s.a, s.b, s.c, s.d, s.e, s.f, s.g, s.h]

end State

def wordsOf : Text → List Word
  | a :: b :: c :: d :: rest =>
    ((a.toUInt32 <<< 24) ||| (b.toUInt32 <<< 16) ||| (c.toUInt32 <<< 8) ||| d.toUInt32) :: wordsOf rest
  | _ => []

def extend : Nat → List Word → List Word
  | 0, ws => ws
  | n + 1, ws =>
    extend n ((sigma₁ (ws.getD 1 0) + ws.getD 6 0 + sigma₀ (ws.getD 14 0) + ws.getD 15 0) :: ws)

def schedule (block : Text) : List Word := (extend 48 (wordsOf block).reverse).reverse

def compress (s : State) (block : Text) : State :=
  s.add ((roundWords.zip (schedule block)).foldl (fun s (k, w) => s.round k w) s)

def lengthBytes (t : Text) : Text :=
  [56, 48, 40, 32, 24, 16, 8, 0].map fun n => UInt8.ofNat ((8 * t.length) >>> n)

def padded (t : Text) : Text :=
  t ++ 0x80 :: (List.replicate ((119 - t.length % 64) % 64) 0 ++ lengthBytes t)

def blocks : Nat → State → Text → State
  | 0, s, _ => s
  | n + 1, s, t => blocks n (compress s (t.take 64)) (t.drop 64)

def bytesOf (w : Word) : Text := ([24, 16, 8, 0] : List Word).map fun n => (w >>> n).toUInt8

def digest (t : Text) : Text :=
  let p := padded t
  (blocks (p.length / 64) State.initial p).words.flatMap bytesOf

end BuiltinCatalog.Sha256
