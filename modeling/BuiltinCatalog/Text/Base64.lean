import BuiltinCatalog.Text.Basic

namespace BuiltinCatalog.Text

def digit64 (n : Nat) : Byte :=
  if n < 26 then UInt8.ofNat (65 + n)
  else if n < 52 then UInt8.ofNat (71 + n)
  else if n < 62 then UInt8.ofNat (n - 4)
  else if n = 62 then 43 else 47

def value64? (b : Byte) : Option Nat :=
  if isUpper b then some (b.toNat - 65)
  else if isLower b then some (b.toNat - 71)
  else if isDigit b then some (b.toNat + 4)
  else if b = 43 then some 62
  else if b = 47 then some 63
  else none

def toBase64 : Text → Text
  | a :: b :: c :: rest =>
    let n := a.toNat * 65536 + b.toNat * 256 + c.toNat
    digit64 (n / 262144) :: digit64 (n / 4096 % 64) :: digit64 (n / 64 % 64) :: digit64 (n % 64) ::
      toBase64 rest
  | [a, b] =>
    let n := a.toNat * 1024 + b.toNat * 4
    [digit64 (n / 4096), digit64 (n / 64 % 64), digit64 (n % 64), 61]
  | [a] =>
    let n := a.toNat * 16
    [digit64 (n / 64), digit64 (n % 64), 61, 61]
  | [] => []

def ofDigits64? : Text → Option Text
  | [] => some []
  | a :: b :: c :: d :: rest => do
    let a ← value64? a
    let b ← value64? b
    if c = 61 then
      if d = 61 ∧ rest = [] then some [UInt8.ofNat ((a * 64 + b) / 16)] else none
    else
      let c ← value64? c
      if d = 61 then
        if rest = [] then
          let n := (a * 4096 + b * 64 + c) / 4
          some [UInt8.ofNat (n / 256), UInt8.ofNat (n % 256)]
        else none
      else
        let d ← value64? d
        let n := a * 262144 + b * 4096 + c * 64 + d
        let tail ← ofDigits64? rest
        some (UInt8.ofNat (n / 65536) :: UInt8.ofNat (n / 256 % 256) :: UInt8.ofNat (n % 256) :: tail)
  | _ => none

def ofBase64? (t : Text) : Option Text := ofDigits64? (t.filter fun b => b != 10 && b != 13)

end BuiltinCatalog.Text
