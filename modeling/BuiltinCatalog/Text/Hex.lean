import BuiltinCatalog.Text.Basic

namespace BuiltinCatalog.Text

def hexDigit (n : Nat) : Byte := UInt8.ofNat (if n < 10 then 48 + n else 87 + n)

def hexValue? (b : Byte) : Option Nat :=
  if isDigit b then some (b.toNat - 48)
  else if 97 ≤ b && b ≤ 102 then some (b.toNat - 87)
  else if 65 ≤ b && b ≤ 70 then some (b.toNat - 55)
  else none

def hexNat (n : Nat) : (width : Nat) → Text
  | 0 => []
  | width + 1 => hexNat (n / 16) width ++ [hexDigit (n % 16)]

def ofHex? (t : Text) : Option Nat :=
  t.foldl (fun n b => do return (← n) * 16 + (← hexValue? b)) (some 0)

def digitOf? (base : Nat) (b : Byte) : Option Nat := (hexValue? b).filter (· < base)

def digits? (base : Nat) (t : Text) : Option Nat :=
  if t.isEmpty then none
  else t.foldlM (fun n b => (digitOf? base b).map (n * base + ·)) 0

def hex (t : Text) : Text := t.flatMap fun b => hexNat b.toNat 2

end BuiltinCatalog.Text
