import FastNet.Blocks
import FastNet.Loop
import FastNet.Numerals

/-!
`FastBuffer`: bytes in an array of the object itself or in a block of the heap, read from
an offset. Allocations succeed; what a fresh block holds is arbitrary.
-/

namespace FastNet

open Loop Numeral Block

/-- The members of the class. The empty block stands for `nullptr`. -/
structure FastBuffer where
  stackBuffer : Bytes
  heapBuffer : Bytes
  size : Nat
  capacity : Nat
  readOffset : Nat
  usingHeap : Bool

namespace FastBuffer

def kStackSize : Nat := 4096

def kMaxSize : Nat := 64*1024*1024

/-- How a call can fail: with an exception, or by an access outside a block. -/
inductive Failure where
  | lengthError
  | outOfRange
  | fault
  deriving DecidableEq

def orFault {α : Type} : Option α → Outcome Failure α
  | some a => .ret a
  | none => .threw .fault

def fresh : FastBuffer where
  stackBuffer := List.replicate kStackSize 0
  heapBuffer := []
  size := 0
  capacity := kStackSize
  readOffset := 0
  usingHeap := false

def base (b : FastBuffer) : Bytes := if b.usingHeap then b.heapBuffer else b.stackBuffer

def withBase (b : FastBuffer) (bytes : Bytes) : FastBuffer :=
  if b.usingHeap then { b with heapBuffer := bytes } else { b with stackBuffer := bytes }

/-- The bytes from `data()` to `end()`. -/
def contents (b : FastBuffer) : Bytes := slice b.base b.readOffset b.size

/-- Bytes are written to `data() + offset`. -/
def store (b : FastBuffer) (offset : Nat) (bytes : Bytes) : Outcome Failure FastBuffer :=
  (orFault (write b.base (b.readOffset+offset) bytes)).map b.withBase

/-- `len` bytes of the buffer are moved from `data() + source` to `data() + target`. -/
def moveData (b : FastBuffer) (target source len : Nat) : Outcome Failure FastBuffer :=
  (orFault (move b.base (b.readOffset+target) b.base (b.readOffset+source) len)).map b.withBase

def clear (b : FastBuffer) : FastBuffer := { b with size := 0, readOffset := 0 }

def releaseHeap (b : FastBuffer) : FastBuffer :=
  if b.usingHeap then { b with heapBuffer := [], usingHeap := false, capacity := kStackSize, readOffset := 0 } else b

def reset (b : FastBuffer) : FastBuffer := b.clear.releaseHeap

def validateRequestedSize (requestedSize : Nat) : Outcome Failure Unit :=
  if kMaxSize < requestedSize then .threw .lengthError else .ret ()

def compact (b : FastBuffer) : Outcome Failure FastBuffer :=
  if b.readOffset = 0 ∨ b.size = 0 then .ret { b with readOffset := 0 }
  else (orFault (move b.base 0 b.base b.readOffset b.size)).map
    (fun bytes => { b.withBase bytes with readOffset := 0 })

def growTurn (requiredCapacity newCapacity : Nat) : Except Failure (Turn Nat Nat) :=
  if newCapacity < requiredCapacity then
    .ok (.again (if newCapacity ≤ kMaxSize/2 then newCapacity*2 else kMaxSize))
  else .ok (.leave newCapacity)

def grownCapacity (b : FastBuffer) (requiredCapacity : Nat) : Outcome Failure Nat :=
  (run (growTurn requiredCapacity) (requiredCapacity+1) (if b.capacity = 0 then kStackSize else b.capacity)).map
    (fun newCapacity =>
      let newCapacity := if kMaxSize < newCapacity then kMaxSize else newCapacity
      if newCapacity < requiredCapacity then requiredCapacity else newCapacity)

/-- A new block; `garbage` is what its bytes happen to be. -/
def allocateAligned (garbage : Nat → UInt8) (size : Nat) : Bytes := (List.range size).map garbage

def reallocate (garbage : Nat → UInt8) (b : FastBuffer) (newCapacity : Nat) : Outcome Failure FastBuffer :=
  (if 0 < b.size then orFault (move (allocateAligned garbage newCapacity) 0 b.base b.readOffset b.size)
    else .ret (allocateAligned garbage newCapacity)).map (fun newBuffer =>
      { b.releaseHeap with heapBuffer := newBuffer, capacity := newCapacity, usingHeap := true })

def ensureCapacity (garbage : Nat → UInt8) (b : FastBuffer) (requiredCapacity : Nat) : Outcome Failure FastBuffer :=
  (validateRequestedSize requiredCapacity).bind (fun _ =>
    if requiredCapacity ≤ sizeSub b.capacity b.readOffset then .ret b
    else if requiredCapacity ≤ b.capacity ∧ 0 < b.readOffset then b.compact
    else b.compact.bind (fun b =>
      (b.grownCapacity requiredCapacity).bind (fun newCapacity => reallocate garbage b newCapacity)))

def resize (garbage : Nat → UInt8) (b : FastBuffer) (newSize : Nat) (fill : UInt8) : Outcome Failure FastBuffer :=
  (validateRequestedSize newSize).bind (fun _ =>
    (ensureCapacity garbage b newSize).bind (fun b =>
      (if b.size < newSize then b.store b.size (List.replicate (newSize-b.size) fill) else .ret b).map
        (fun b => { b with size := newSize })))

def reserve (garbage : Nat → UInt8) (b : FastBuffer) (newCapacity : Nat) : Outcome Failure FastBuffer :=
  (validateRequestedSize newCapacity).bind (fun _ => ensureCapacity garbage b newCapacity)

def moveToStack (b : FastBuffer) : Outcome Failure FastBuffer :=
  if b.usingHeap then
    (if 0 < b.size then orFault (move b.stackBuffer 0 b.base b.readOffset b.size) else .ret b.stackBuffer).map
      (fun stackBuffer =>
        { b with stackBuffer, heapBuffer := [], capacity := kStackSize, usingHeap := false, readOffset := 0 })
  else .ret b

def shrinkToFit (garbage : Nat → UInt8) (b : FastBuffer) : Outcome Failure FastBuffer :=
  if !b.usingHeap then .ret b
  else if b.size ≤ kStackSize then b.moveToStack
  else if b.size = b.capacity then .ret b
  else (orFault (move (allocateAligned garbage b.size) 0 b.heapBuffer 0 b.size)).map
    (fun newBuffer => { b with heapBuffer := newBuffer, capacity := b.size })

def pushBack (garbage : Nat → UInt8) (b : FastBuffer) (byte : UInt8) : Outcome Failure FastBuffer :=
  (ensureCapacity garbage b (sizeAdd b.size 1)).bind (fun b =>
    (b.store b.size [byte]).map (fun b => { b with size := b.size+1 }))

def popBack (b : FastBuffer) : FastBuffer := if 0 < b.size then { b with size := b.size-1 } else b

/-- Where the bytes of a call come from: from nowhere, from other memory, or from the buffer
itself, `offset` behind `data()`. -/
inductive Source where
  | null : Nat → Source
  | outside : Bytes → Source
  | inside : Nat → Nat → Source

def Source.len : Source → Nat
  | .null n => n
  | .outside bytes => bytes.length
  | .inside _ n => n

def Source.isNull : Source → Bool
  | .null _ => true
  | _ => false

/-- The source when the buffer has got room. A pointer into the buffer, `offset` below
`oldSize`, is taken from the new `data()`; another one into its old memory is lost. -/
def Source.fetch (oldSize : Nat) (b : FastBuffer) : Source → Outcome Failure Bytes
  | .null _ => .threw .fault
  | .outside bytes => .ret bytes
  | .inside offset n =>
    if offset < oldSize then orFault (read b.base (b.readOffset+offset) n) else .threw .fault

def append (garbage : Nat → UInt8) (b : FastBuffer) (src : Source) : Outcome Failure FastBuffer :=
  if src.isNull ∨ src.len = 0 then .ret b
  else (validateRequestedSize (sizeAdd b.size src.len)).bind (fun _ =>
    (ensureCapacity garbage b (sizeAdd b.size src.len)).bind (fun b' =>
      (src.fetch b.size b').bind (fun bytes =>
        (b'.store b.size bytes).map (fun b' => { b' with size := sizeAdd b.size src.len }))))

def appendFill (garbage : Nat → UInt8) (b : FastBuffer) (count : Nat) (fill : UInt8) : Outcome Failure FastBuffer :=
  if count = 0 then .ret b
  else (validateRequestedSize (sizeAdd b.size count)).bind (fun _ =>
    (ensureCapacity garbage b (sizeAdd b.size count)).bind (fun b' =>
      (b'.store b.size (List.replicate count fill)).map (fun b' => { b' with size := sizeAdd b.size count })))

def assign (garbage : Nat → UInt8) (b : FastBuffer) (src : Source) : Outcome Failure FastBuffer :=
  if src.isNull ∨ src.len = 0 then .ret b.clear
  else (validateRequestedSize src.len).bind (fun _ =>
    (ensureCapacity garbage b src.len).bind (fun b' =>
      (src.fetch b.size b').bind (fun bytes =>
        (b'.store 0 bytes).map (fun b' => { b' with size := src.len }))))

def eraseFront (b : FastBuffer) (len : Nat) : Outcome Failure FastBuffer :=
  if b.size ≤ len then .ret b.clear
  else
    let b := { b with readOffset := b.readOffset+len, size := b.size-len }
    if b.capacity/2 < b.readOffset then b.compact else .ret b

def Source.toVector (b : FastBuffer) : Source → Outcome Failure Bytes
  | .null _ => .ret []
  | .outside bytes => .ret bytes
  | .inside offset n => orFault (read b.base (b.readOffset+offset) n)

def insert (garbage : Nat → UInt8) (b : FastBuffer) (offset : Nat) (range : Source) : Outcome Failure FastBuffer :=
  if b.size < offset then .threw .outOfRange
  else (range.toVector b).bind (fun temp =>
    if temp = [] then .ret b
    else (validateRequestedSize (sizeAdd b.size temp.length)).bind (fun _ =>
      (ensureCapacity garbage b (sizeAdd b.size temp.length)).bind (fun b' =>
        (b'.moveData (offset+temp.length) offset (b'.size-offset)).bind (fun b' =>
          (b'.store offset temp).map (fun b' => { b' with size := b'.size+temp.length })))))

/-- `moveFrom`: the target and what is left of the other. -/
def moveFrom (b other : FastBuffer) : Outcome Failure (FastBuffer × FastBuffer) :=
  let left := { other with size := 0, capacity := kStackSize, usingHeap := false, readOffset := 0 }
  let b := { b with
    size := other.size, capacity := other.capacity, usingHeap := other.usingHeap, readOffset := other.readOffset }
  if other.usingHeap then .ret ({ b with heapBuffer := other.heapBuffer },{ left with heapBuffer := [] })
  else if 0 < other.size then
    (orFault (move b.stackBuffer 0 other.stackBuffer other.readOffset other.size)).map
      (fun stackBuffer => ({ b with stackBuffer, readOffset := 0 },left))
  else .ret (b,left)

def moveAssign (b other : FastBuffer) : Outcome Failure (FastBuffer × FastBuffer) := moveFrom b.releaseHeap other

/-- `swap` of two different buffers. -/
def swap (b other : FastBuffer) : Outcome Failure (FastBuffer × FastBuffer) :=
  if b.usingHeap ∧ other.usingHeap then
    .ret (
      { b with
        heapBuffer := other.heapBuffer, size := other.size, capacity := other.capacity, readOffset := other.readOffset },
      { other with heapBuffer := b.heapBuffer, size := b.size, capacity := b.capacity, readOffset := b.readOffset })
  else
    (moveFrom fresh other).bind (fun (tmp,other) =>
      (moveAssign other b).bind (fun (other,b) =>
        (moveAssign b tmp).map (fun (b,_) => (b,other))))

end FastBuffer

end FastNet
