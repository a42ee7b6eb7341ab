/-! # Reading UTF-8

The characters of a slice of bytes; bytes that belong to no whole character are dropped. -/

namespace StubCatalog.Text

def isContinuation (b : UInt8) : Bool := 0x80 ≤ b && b < 0xC0

/-- What the first byte of a character says: the number of bytes that follow, the range of the first
of them, and the bits that it holds itself. -/
structure Lead where
  following : Nat
  low : UInt8 := 0x80
  high : UInt8 := 0xBF
  bits : Nat

def lead? (b : UInt8) : Option Lead :=
  let n := b.toNat
  if 0xC2 ≤ n && n ≤ 0xDF then some { following := 1, bits := n - 0xC0 }
  else if n == 0xE0 then some { following := 2, low := 0xA0, bits := 0 }
  else if n == 0xED then some { following := 2, high := 0x9F, bits := 0xD }
  else if 0xE1 ≤ n && n ≤ 0xEF then some { following := 2, bits := n - 0xE0 }
  else if n == 0xF0 then some { following := 3, low := 0x90, bits := 0 }
  else if n == 0xF4 then some { following := 3, high := 0x8F, bits := 4 }
  else if 0xF1 ≤ n && n ≤ 0xF3 then some { following := 3, bits := n - 0xF0 }
  else none

/-- The bytes that go on with a character, at most `count` of them, the first one in a range. -/
def continuationRun (lead : Lead) (bytes : List UInt8) : List UInt8 :=
  match bytes with
  | [] => []
  | b :: rest =>
    if lead.low ≤ b && b ≤ lead.high then
      b :: (rest.take (lead.following - 1)).takeWhile isContinuation
    else []

def codePoint (lead : Lead) (run : List UInt8) : Nat :=
  run.foldl (fun n b => n * 64 + (b.toNat - 0x80)) lead.bits

def decodeBytes (bytes : List UInt8) : List Char :=
  match bytes with
  | [] => []
  | b :: rest =>
    if b < 0x80 then Char.ofNat b.toNat :: decodeBytes rest
    else match lead? b with
      | none => decodeBytes rest
      | some lead =>
        let run := continuationRun lead rest
        let behind := decodeBytes (rest.drop run.length)
        if run.length == lead.following then Char.ofNat (codePoint lead run) :: behind else behind
termination_by bytes.length
decreasing_by all_goals simp; try omega

def slice (bytes : ByteArray) (start stop : Nat) : String :=
  String.ofList (decodeBytes (bytes.extract start stop).toList)

end StubCatalog.Text
