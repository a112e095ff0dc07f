import SourceIndex.Bytes
/-!
# Base 64

Bytes written with 64 letters: three bytes make four letters, and equal signs fill the last group.
-/

namespace SourceIndex.Text.Base64

def letter (value : Nat) : Char :=
  if value < 26 then Char.ofNat (65 + value)
  else if value < 52 then Char.ofNat (71 + value)
  else if value < 62 then Char.ofNat (value - 4)
  else if value = 62 then '+'
  else '/'

def encodeAfter (done : List Char) : Bytes → List Char
  | a :: b :: c :: rest =>
    let n := a.toNat * 0x10000 + b.toNat * 0x100 + c.toNat
    encodeAfter
      (letter (n % 64) :: letter (n / 64 % 64) :: letter (n / 4096 % 64) :: letter (n / 262144) ::
        done)
      rest
  | [a, b] =>
    let n := a.toNat * 0x10000 + b.toNat * 0x100
    ('=' :: letter (n / 64 % 64) :: letter (n / 4096 % 64) :: letter (n / 262144) :: done).reverse
  | [a] =>
    let n := a.toNat * 0x10000
    ('=' :: '=' :: letter (n / 4096 % 64) :: letter (n / 262144) :: done).reverse
  | [] => done.reverse

def encode (data : Bytes) : String := String.ofList (encodeAfter [] data)

end SourceIndex.Text.Base64
