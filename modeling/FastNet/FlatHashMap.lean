import FastNet.Loop
import FastNet.Numerals
import FastNet.RobinHood

/-!
`FlatHashMap`: a table with open addressing in which a pair that is further from its home
takes the slot of one that is nearer. A slot keeps the distance in a byte; an insertion
whose distance reaches `kPslMax` gives up with a pair in hand. The memory for a table is
taken to be there, so that the sizes of tables are numbers without a bound; destructors are
not modelled.
-/

namespace FastNet

open Loop Numeral

/-- The members of the class, and the hash function that it was made with. -/
structure FlatHashMap (K V : Type) extends RobinHood.Table K V where
  capacity : Nat
  mask : Nat
  size : Nat
  hash : K → UInt64

namespace FlatHashMap

variable {K V : Type}

def kEmpty : Nat := 0

def kPslMax : Nat := 255

def nextPow2 (n : Nat) : Nat :=
  if n = 0 then 1
  else
    let n := n-1
    let n := n ||| n >>> 1
    let n := n ||| n >>> 2
    let n := n ||| n >>> 4
    let n := n ||| n >>> 8
    let n := n ||| n >>> 16
    let n := n ||| n >>> 32
    sizeAdd n 1

def slotOf (m : FlatHashMap K V) (hash : Nat) : Nat := hash &&& m.mask

def hashOf (m : FlatHashMap K V) (key : K) : Nat :=
  let h := m.hash key
  let h := h ^^^ (h >>> 32)
  let h := h*0x9e3779b97f4a7c15
  let h := h ^^^ (h >>> 32)
  h.toNat

def blank (capacity : Nat) (hash : K → UInt64) : FlatHashMap K V where
  psl := fun _ => kEmpty
  kv := fun _ => none
  capacity
  mask := capacity-1
  size := 0
  hash

/-- The constructor; `rehash` finds nothing to move. -/
def construct (initialCapacity : UInt64) (hash : K → UInt64) : FlatHashMap K V :=
  blank (nextPow2 (max initialCapacity.toNat 4)) hash

section Lookup

variable [DecidableEq K]

/-- The loop of `findSlot`; `turns` are left until `++dist` is `kPslMax`. -/
def findLoop (m : FlatHashMap K V) (key : K) : Nat → Nat → Nat → Option Nat
  | 0, _, _ => none
  | turns+1, slot, dist =>
    let psl := m.psl slot
    if psl = kEmpty then none
    else if psl < dist then none
    else if psl = dist ∧ (m.kv slot).map Prod.fst = some key then some slot
    else m.findLoop key turns (m.slotOf (slot+1)) (dist+1)

/-- The slot of a key; `none` is `npos`. -/
def findSlot (m : FlatHashMap K V) (key : K) : Option Nat :=
  if m.capacity = 0 then none else m.findLoop key (kPslMax-1) (m.slotOf (m.hashOf key)) 1

/-- The value that `find` points to; `none` when it is `end()`. -/
def lookup (m : FlatHashMap K V) (key : K) : Option V :=
  (m.findSlot key).bind (fun slot => (m.kv slot).map Prod.snd)

end Lookup

/-- The variables of `insertUnchecked` at the head of its loop. -/
structure Carry (K V : Type) where
  map : FlatHashMap K V
  slot : Nat
  dist : Nat
  key : K
  value : V
  firstInsertSlot : Option Nat

/-- How `insertUnchecked` ends: with the slot it returns, `none` for `npos`, and the pair in
hand when a distance has reached `kPslMax`. -/
structure Insertion (K V : Type) where
  map : FlatHashMap K V
  slot : Option Nat
  overflow : List (K × V)

def withTable (m : FlatHashMap K V) (t : RobinHood.Table K V) : FlatHashMap K V := { m with toTable := t }

def Carry.exchange (c : Carry K V) : Carry K V :=
  match c.map.kv c.slot with
  | some (key,value) =>
    { c with
      map := c.map.withTable (c.map.put c.slot c.dist (c.key,c.value)), dist := c.map.psl c.slot, key, value,
      firstInsertSlot := some (c.firstInsertSlot.getD c.slot) }
  | none => c

def insertTurn (c : Carry K V) : Except Empty (Turn (Carry K V) (Insertion K V)) :=
  let psl := c.map.psl c.slot
  if psl = kEmpty then
    .ok (.leave {
      map := { c.map.withTable (c.map.put c.slot c.dist (c.key,c.value)) with size := c.map.size+1 },
      slot := some (c.firstInsertSlot.getD c.slot), overflow := [] })
  else
    let c := if psl < c.dist then c.exchange else c
    let c := { c with slot := c.map.slotOf (c.slot+1), dist := c.dist+1 }
    if c.dist = kPslMax then
      .ok (.leave { map := c.map, slot := c.firstInsertSlot, overflow := [(c.key,c.value)] })
    else .ok (.again c)

def insertUnchecked (m : FlatHashMap K V) (key : K) (value : V) : Outcome Empty (Insertion K V) :=
  run insertTurn m.capacity
    { map := m, slot := m.slotOf (m.hashOf key), dist := 1, key, value, firstInsertSlot := none }

def occupied (m : FlatHashMap K V) : List (K × V) :=
  (List.range m.capacity).filterMap (fun i => if m.psl i = kEmpty then none else m.kv i)

/-- The loops of `rehash` and of the copies: one pair after the other. -/
def insertAll (m : FlatHashMap K V) : List (K × V) → Outcome Empty (FlatHashMap K V × List (K × V))
  | [] => .ret (m,[])
  | e :: rest => (m.insertUnchecked e.1 e.2).bind (fun r =>
      (r.map.insertAll rest).map (fun p => (p.1,r.overflow ++ p.2)))

def rehash (m : FlatHashMap K V) (newCapacity : Nat) : Outcome Empty (FlatHashMap K V × List (K × V)) :=
  (blank newCapacity m.hash).insertAll m.occupied

/-- The capacity behind `growIfNeeded`. -/
def grownCapacity (m : FlatHashMap K V) : Nat :=
  if m.capacity*3/4 < m.size+1 then (if m.capacity = 0 then 8 else m.capacity*2) else m.capacity

def growIfNeeded (m : FlatHashMap K V) : Outcome Empty (FlatHashMap K V × List (K × V)) :=
  if m.capacity*3/4 < m.size+1 then m.rehash (if m.capacity = 0 then 8 else m.capacity*2) else .ret (m,[])

def reserve (m : FlatHashMap K V) (n : Nat) : Outcome Empty (FlatHashMap K V × List (K × V)) :=
  let needed := sizeAdd (n*4 % 2^64) 2/3
  if m.capacity < needed then m.rehash (nextPow2 needed) else .ret (m,[])

/-- What `emplace` and `operator[]` come to: the map, the position, whether it is new, and
the pairs that were in hand when a distance reached `kPslMax`. -/
structure Emplaced (K V : Type) where
  map : FlatHashMap K V
  slot : Option Nat
  inserted : Bool
  overflow : List (K × V)

section Modifiers

variable [DecidableEq K]

def emplace (m : FlatHashMap K V) (key : K) (value : V) : Outcome Empty (Emplaced K V) :=
  match m.findSlot key with
  | some existingSlot => .ret { map := m, slot := some existingSlot, inserted := false, overflow := [] }
  | none => m.growIfNeeded.bind (fun grown =>
      (grown.1.insertUnchecked key value).map (fun r =>
        { map := r.map, slot := r.slot, inserted := true, overflow := grown.2 ++ r.overflow }))

/-- `operator[]`: the same with a default value. -/
def insertOrGet [Inhabited V] (m : FlatHashMap K V) (key : K) : Outcome Empty (Emplaced K V) :=
  m.emplace key default

def assignAt (m : FlatHashMap K V) (slot : Nat) (value : V) : FlatHashMap K V :=
  m.withTable { m.toTable with kv := Function.update m.kv slot ((m.kv slot).map (fun e => (e.1,value))) }

end Modifiers

def shiftTurn (s : FlatHashMap K V × Nat) : Except Empty (Turn (FlatHashMap K V × Nat) (FlatHashMap K V)) :=
  let (m,current) := s
  let next := m.slotOf (current+1)
  if m.psl next ≤ 1 then .ok (.leave (m.withTable (m.vacate current)))
  else .ok (.again (m.withTable (m.pull current next),next))

def backwardShiftErase (m : FlatHashMap K V) (slot : Nat) : Outcome Empty (FlatHashMap K V) :=
  run shiftTurn m.capacity (m,slot)

/-- `while (idx < capacity_ && psl_[idx] == kEmpty) ++idx`. -/
def skipEmpty (m : FlatHashMap K V) : Nat → Nat → Nat
  | 0, idx => idx
  | turns+1, idx => if idx < m.capacity ∧ m.psl idx = kEmpty then m.skipEmpty turns (idx+1) else idx

/-- The first occupied slot from `idx` on, or the end. -/
def occupiedFrom (m : FlatHashMap K V) (idx : Nat) : Nat := m.skipEmpty m.capacity idx

/-- The slots between an iterator and the end, as `operator++` comes to them. -/
def walk (m : FlatHashMap K V) : Nat → Nat → List Nat
  | 0, _ => []
  | turns+1, idx => if idx = m.capacity then [] else idx :: m.walk turns (m.occupiedFrom (idx+1))

/-- From `begin` to `end`. -/
def iteration (m : FlatHashMap K V) : List (Option (K × V)) :=
  (m.walk m.capacity (m.occupiedFrom 0)).map m.kv

/-- `erase(iterator)`: the map, and the position of the iterator that is returned. -/
def eraseAt (m : FlatHashMap K V) (idx : Nat) : Outcome Empty (FlatHashMap K V × Nat) :=
  if idx = m.capacity then .ret (m,m.capacity)
  else (m.backwardShiftErase idx).map (fun m' => ({ m' with size := m'.size-1 },m'.occupiedFrom idx))

/-- `erase(key)`: the map, and the number of pairs erased. -/
def erase [DecidableEq K] (m : FlatHashMap K V) (key : K) : Outcome Empty (FlatHashMap K V × Nat) :=
  match m.findSlot key with
  | none => .ret (m,0)
  | some slot => (m.backwardShiftErase slot).map (fun m' => ({ m' with size := m'.size-1 },1))

def clear (m : FlatHashMap K V) : FlatHashMap K V :=
  { m with
    psl := fun i => if i < m.capacity then kEmpty else m.psl i
    kv := fun i => if i < m.capacity ∧ m.psl i ≠ kEmpty then none else m.kv i
    size := 0 }

def copyFrom (m other : FlatHashMap K V) : Outcome Empty (FlatHashMap K V × List (K × V)) :=
  let m := { m.clear with hash := other.hash }
  if other.capacity = 0 then .ret (blank 0 other.hash,[])
  else if m.capacity = other.capacity then m.insertAll other.occupied
  else (m.rehash other.capacity).bind (fun p => (p.1.insertAll other.occupied).map (fun q => (q.1,p.2 ++ q.2)))

/-- What a map that has been moved from is left with; its hash function may be moved away. -/
def movedFrom (hash : K → UInt64) : FlatHashMap K V := blank 0 hash

end FlatHashMap

end FastNet
