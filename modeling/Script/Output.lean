import Script.Text.Utf8

/-! Where printed text goes: a stream of bytes that may be limited in size. -/

namespace Script

inductive OutputFault where
  | full
  | flush
  deriving Repr, DecidableEq

def OutputFault.message : OutputFault → String
  | .full => "output full"
  | .flush => "flush failed"

/-- The bytes written so far, how many are accepted in all, and whether they can be flushed. -/
structure Output where
  written : Array UInt8
  capacity : Option Nat
  flushable : Bool

namespace Output

def unlimited : Output := ⟨#[], none, true⟩

/-- The part of some bytes for which there is room. -/
def fitting (output : Output) (bytes : List UInt8) : List UInt8 :=
  match output.capacity with
  | none => bytes
  | some capacity => bytes.take (capacity - output.written.size)

/-- Keeps what fits. -/
def write (output : Output) (bytes : List UInt8) : Output :=
  { output with written := output.written ++ output.fitting bytes }

theorem toList_write (output : Output) (bytes : List UInt8) :
    (output.write bytes).written.toList = output.written.toList ++ output.fitting bytes := by
  simp [write]

/-- Whether all of some bytes fit. -/
def accepts (output : Output) (bytes : List UInt8) : Bool :=
  match output.capacity with
  | none => true
  | some capacity => bytes.length ≤ capacity - output.written.size

/-- The text written from the byte at `start` on, where a character cut short shows as the
replacement character. -/
def textFrom (output : Output) (start : Nat) : String :=
  Utf8.decodeLenient (output.written.toList.drop start)

end Output
end Script
