import IttyBittyServer.Memory

/-! The buffer in which the proxy gathers an image before it is compressed: the pointer, what
realloc and memcpy make of it, and the bytes that the compress call passes on. -/
namespace IttyBittyServer.ImageBuffer
open Memory

/- A local variable has no value before it is given one. -/
inductive Pointer where
  | indeterminate | null | object (bytes : List UInt8)
  deriving DecidableEq, Repr

/- Allocation succeeds. A pointer without a value has no result. -/
def realloc : Pointer → Int → Option (List UInt8)
  | .indeterminate,_ => none
  | .null,n => some (List.replicate n.toNat 0)
  | .object b,n => some (b.take n.toNat ++ List.replicate (n.toNat - b.length) 0)

def freed : Pointer → Bool
  | .indeterminate => false
  | .null | .object _ => true

def passed (p : Pointer) (n : Int) : Option (List UInt8) :=
  match p with
  | .object b => read b 0 n
  | .indeterminate | .null => if n = 0 then some [] else none

def buffered (imgBuffer : Pointer) (bytesReceived : Int) (inputBuffer : List UInt8) : Option (List UInt8) := do
  let imgBuffer ← realloc imgBuffer bytesReceived
  memcpy imgBuffer (bytesReceived - inputBuffer.length) inputBuffer 0 inputBuffer.length

@[simp] theorem bufferedIndeterminate (n : Int) (chunk : List UInt8) : buffered .indeterminate n chunk = none := rfl

end IttyBittyServer.ImageBuffer
