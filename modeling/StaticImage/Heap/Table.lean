import StaticImage.Heap.Hash

/-!
Hash tables with chains inside the slots. A key stands at its main position unless a key of the
same bucket was there first; then it stands in a free slot, taken from the top of the table, and
is linked behind that key. Removal leaves an empty slot, compaction drops all of them.
-/

namespace StaticImage

structure Entry where
  key : Value
  value : Value
  next : UInt32
  deriving DecidableEq, Repr

structure Table where
  slots : Array (Option Entry)
  count : Nat
  /-- No slot at or above this one is free. -/
  lastFree : Nat
  deriving DecidableEq, Repr

def chainEnd : UInt32 := 0xFFFFFF

def Entry.isLast (e : Entry) : Bool :=
  e.next = chainEnd

def Entry.link (e : Entry) : Int :=
  if e.isLast then -1 else e.next.toNat

inductive TableError where
  | nilKey
  deriving DecidableEq, Repr

def TableError.message : TableError → String
  | nilKey => "map key cannot be nil"

namespace Table

def sized (size : Nat) : Table :=
  ⟨Array.replicate size none, 0, size⟩

def empty : Table :=
  sized 0

def size (t : Table) : Nat :=
  t.slots.size

def entryAt? (t : Table) (slot : Nat) : Option Entry :=
  (t.slots[slot]?).join

def entries (t : Table) : List Entry :=
  t.slots.toList.filterMap id

def mainPosition (t : Table) (key : Datum) : Nat :=
  key.hash.toNat % t.size

/-- Follows a chain to the entry of `key`; the second part is the slot before it, if any. -/
def follow (t : Table) (key : Datum) :
    (steps : Nat) → (slot : Nat) → (before : Option Nat) → Option (Nat × Option Nat)
  | 0, _, _ => none
  | steps + 1, slot, before =>
    match t.entryAt? slot with
    | none => none
    | some e =>
      if e.key.data = key then some (slot, before)
      else if e.isLast then none
      else t.follow key steps e.next.toNat (some slot)

/-- The slot of a key and the one before it in its chain; a chain is no longer than the table. -/
def locate? (t : Table) (key : Datum) : Option (Nat × Option Nat) :=
  t.follow key t.size (t.mainPosition key) none

def find? (t : Table) (key : Value) : Option Value := do
  let (slot, _) ← t.locate? key.data
  let e ← t.entryAt? slot
  some e.value

def freeBelow (t : Table) : (bound : Nat) → Option Nat
  | 0 => none
  | slot + 1 => if (t.entryAt? slot).isNone then some slot else t.freeBelow slot

def setSlot (t : Table) (slot : Nat) (e : Option Entry) : Table :=
  { t with slots := t.slots.setIfInBounds slot e }

def setNext (t : Table) (slot : Nat) (next : UInt32) : Table :=
  match t.entryAt? slot with
  | none => t
  | some e => t.setSlot slot (some { e with next := next })

def predecessor (t : Table) (target : Nat) : (steps : Nat) → (slot : Nat) → Nat
  | 0, slot => slot
  | steps + 1, slot =>
    match t.entryAt? slot with
    | none => slot
    | some e => if e.next.toNat = target then slot else t.predecessor target steps e.next.toNat

def place (t : Table) (key value : Value) : Table :=
  let main := t.mainPosition key.data
  match t.entryAt? main with
  | none => { t.setSlot main (some ⟨key, value, chainEnd⟩) with count := t.count + 1 }
  | some occupant =>
    match t.freeBelow t.lastFree with
    | none => { t with lastFree := 0 }
    | some free =>
      let home := t.mainPosition occupant.key.data
      let t := { t with count := t.count + 1, lastFree := free }
      let link := UInt32.ofNat free
      if home = main then
        (t.setSlot free (some ⟨key, value, occupant.next⟩)).setNext main link
      else
        ((t.setNext (t.predecessor main t.size home) link).setSlot free (some occupant)).setSlot
          main (some ⟨key, value, chainEnd⟩)

def placeAll (t : Table) (entries : List Entry) : Table :=
  entries.foldl (fun t e => t.place e.key e.value) t

def resize (t : Table) (size : Nat) : Table :=
  if size < t.count then t else (sized size).placeAll t.entries

def grow (t : Table) : Table :=
  if t.size ≤ t.count then t.resize (max (2 * t.size) 2) else t

/-- Sets the value of a key; the first part is the value it replaces. -/
def insert (t : Table) (key value : Value) : Except TableError (Option Value × Table) :=
  if key.isNil then .error .nilKey
  else
    match t.locate? key.data with
    | some (slot, _) =>
      match t.entryAt? slot with
      | some e => .ok (some e.value, t.setSlot slot (some { e with value := value }))
      | none => .ok (none, t)
    | none => .ok (none, t.grow.place key value)

def clear (t : Table) (slot : Nat) : Table :=
  { t.setSlot slot none with count := t.count - 1, lastFree := max t.lastFree (slot + 1) }

def remove (t : Table) (key : Value) : Option Value × Table :=
  match t.locate? key.data with
  | none => (none, t)
  | some (slot, before) =>
    match t.entryAt? slot with
    | none => (none, t)
    | some e =>
      match before with
      | some before => (some e.value, (t.setNext before e.next).clear slot)
      | none =>
        if e.isLast then (some e.value, t.clear slot)
        else
          -- the second entry of the chain takes the main position
          let second := e.next.toNat
          (some e.value, (t.setSlot slot (t.entryAt? second)).clear second)

/-- A table without free slots stays as it is, any other shrinks to its entries. -/
def compact (t : Table) : Table :=
  if t.count = t.size then t else t.resize t.count

def ofList (entries : List (Value × Value)) : Except TableError Table :=
  entries.foldlM (fun t e => (t.insert e.1 e.2).map Prod.snd) empty

end Table

end StaticImage
