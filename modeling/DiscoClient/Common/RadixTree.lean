import DiscoClient.Common.SysDef
import Mathlib.Data.Finset.Card
import Mathlib.Data.Finset.Range
import Mathlib.Logic.Function.Basic

/-! The radix tree of lib/dms-radix-tree.c, which the cache pools and the space manager's cache rest
on: digits of six bits, a height that follows the largest key, and nodes that are allocated with
no preloaded ones to fall back on. -/
namespace DiscoClient.RadixTree
variable {α β : Type}

def mapShift : Nat := 6
def mapSize : Nat := 64
def indexBits : Nat := 64

/-- __maxindex, which fills the table height_to_maxindex. -/
def maxindex (height : Nat) : Nat :=
  if indexBits ≤ height * mapShift then 2 ^ 64 - 1
  else ((2 ^ 64 - 1) >>> (indexBits - height * mapShift - 1)) >>> 1

/-- The slot that a key takes in a node whose children have height h. -/
def offset (h index : Nat) : Nat := (index >>> (h * mapShift)) &&& (mapSize - 1)

structure Node (β : Type) where
  count : Nat
  slots : Nat → Option β

/-- What a slot points to: the item itself at height 0, a node above. -/
@[reducible] def Cell (α : Type) : Nat → Type
  | 0 => α
  | h + 1 => Node (Cell α h)

structure Root (α : Type) where
  height : Nat
  rnode : Option (Cell α height)

def Root.init : Root α := ⟨0, none⟩

def Node.empty : Node β := ⟨0, fun _ => none⟩

/-- A slot gets a pointer; the count follows if it had none. -/
def Node.put (node : Node β) (i : Nat) (child : Option β) : Node β where
  count := if (node.slots i).isNone && child.isSome then node.count + 1 else node.count
  slots := Function.update node.slots i child

/-- The node of a slot, allocated if there is none; the list says which allocations succeed. -/
def nodeFor (slot : Option (Node β)) (mem : List Bool) : Option (Node β) × List Bool :=
  match slot with
  | some node => (some node, mem)
  | none => (if mem.headD true then some .empty else none, mem.tail)

/-- The search for the new height in radix_tree_extend; the table has twelve entries. -/
def heightFor (index : Nat) : Nat → Nat → Nat
  | 0, height => height
  | n + 1, height => if maxindex height < index then heightFor index n (height + 1) else height

/-- The loop of radix_tree_extend: what it has put on top of the tree stays when it fails. -/
def growLoop : Nat → Root α → List Bool → Root α × Bool × List Bool
  | 0, root, mem => (root, true, mem)
  | n + 1, root, mem =>
    if mem.headD true then
      growLoop n ⟨root.height + 1, some (⟨1, Function.update (fun _ => none) 0 root.rnode⟩ : Node _)⟩ mem.tail
    else (root, false, mem.tail)

def extend (root : Root α) (index : Nat) (mem : List Bool) : Root α × Bool × List Bool :=
  let height := heightFor index 12 (root.height + 1)
  match root.rnode with
  | none => (⟨height, none⟩, true, mem)
  | some _ => growLoop (height - root.height) root mem

/-- The way down of an insertion. Each node is linked as soon as it is there, so those above
one that could not be allocated stay in the tree. The answer is none for -ENOMEM, or what was replaced. -/
def insertAt (index : Nat) (item : α) : (h : Nat) → Option (Cell α h) → List Bool →
    Option (Cell α h) × Option (Option α)
  | 0, slot, _ => (some item, some slot)
  | h + 1, slot, mem =>
    match nodeFor slot mem with
    | (none, _) => (none, none)
    | (some node, mem) =>
      let r := insertAt index item h (node.slots (offset h index)) mem
      (some (node.put (offset h index) r.1), r.2)

/-- The item is stored once the tree is high enough. -/
def place (index : Nat) (item : α) : Root α × Bool × List Bool → Root α × Option (Option α)
  | (root, true, mem) =>
    let r := insertAt index item root.height root.rnode mem
    (⟨root.height, r.1⟩, r.2)
  | (root, false, _) => (root, none)

/-- dms_radix_tree_insert -/
def Root.insert (root : Root α) (index : Nat) (item : α) (mem : List Bool) : Root α × Option (Option α) :=
  place index item (if maxindex root.height < index then extend root index mem else (root, true, mem))

/-- What the way up of a deletion leaves of a node, given what is left of its child. -/
def Node.left (node : Node β) (i : Nat) : Option β → Option (Node β)
  | some child => some ⟨node.count, Function.update node.slots i (some child)⟩
  | none => if node.count - 1 = 0 then none else some ⟨node.count - 1, Function.update node.slots i none⟩

/-- The item of a key, and what is left of the cell without it. -/
def deleteAt (index : Nat) : (h : Nat) → Cell α h → Option (α × Option (Cell α h))
  | 0, item => some (item, none)
  | h + 1, (node : Node (Cell α h)) =>
    match node.slots (offset h index) with
    | none => none
    | some child => (deleteAt index h child).map fun r => (r.1, node.left (offset h index) r.2)

/-- radix_tree_shrink -/
def shrink : (h : Nat) → Cell α h → Root α
  | 0, item => ⟨0, some item⟩
  | h + 1, (node : Node (Cell α h)) =>
    match node.slots 0 with
    | some child => if node.count = 1 then shrink h child else ⟨h + 1, some node⟩
    | none => ⟨h + 1, some node⟩

/-- Whether the node whose count stopped the way up is the root itself. -/
def cutAtRoot (index : Nat) : (h : Nat) → Cell α h → Bool
  | 0, _ => false
  | h + 1, (node : Node (Cell α h)) => (node.slots (offset h index)).isNone

def afterDelete (index h : Nat) : Option (Cell α h) → Root α
  | none => .init
  | some left => if cutAtRoot index h left then shrink h left else ⟨h, some left⟩

/-- dms_radix_tree_delete -/
def Root.delete (root : Root α) (index : Nat) : Root α × Option α :=
  if maxindex root.height < index then (root, none)
  else
    match root.rnode.bind (deleteAt index root.height) with
    | none => (root, none)
    | some (item, left) => (afterDelete index root.height left, some item)

/-- A loop of __lookup above the bottom: the first child from slot i on, with the index that goes
with it; no child if the node has none left or the index wraps around. -/
def seekSlot (h : Nat) (slots : Nat → Option β) : Nat → Nat → Nat → Option β × Nat
  | 0, _, index => (none, index)
  | n + 1, i, index =>
    match slots i with
    | some child => (some child, index)
    | none =>
      let next := (index - index % 2 ^ (h * mapShift) + 2 ^ (h * mapShift)) % 2 ^ 64
      if next = 0 then (none, 0) else seekSlot h slots n (i + 1) next

/-- The loop of __lookup at the bottom, with the items found so far. -/
def grabItems (slots : Nat → Option α) (maxItems : Nat) : Nat → Nat → Nat → List α → List α × Nat
  | 0, _, index, found => (found, index)
  | n + 1, i, index, found =>
    let next := (index + 1) % 2 ^ 64
    match slots i with
    | none => grabItems slots maxItems n (i + 1) next found
    | some item =>
      if (found ++ [item]).length = maxItems then (found ++ [item], next)
      else grabItems slots maxItems n (i + 1) next (found ++ [item])

/-- __lookup below a node: the items, and the index to go on from. -/
def lookupNode (maxItems : Nat) : (h : Nat) → Node (Cell α h) → Nat → List α × Nat
  | 0, node, index => grabItems node.slots maxItems (mapSize - offset 0 index) (offset 0 index) index []
  | h + 1, node, index =>
    match seekSlot (h + 1) node.slots (mapSize - offset (h + 1) index) (offset (h + 1) index) index with
    | (none, next) => ([], next)
    | (some child, next) => lookupNode maxItems h child next

/-- __lookup. There is no result if it reads the slots of a node that is not there. -/
def lookup : (h : Nat) → Option (Cell α h) → Nat → Nat → Option (List α × Nat)
  | 0, slot, index, _ => some (if index = 0 then slot.toList else [], index)
  | h + 1, slot, index, maxItems => slot.map fun node => lookupNode maxItems h node index

/-- The loop of dms_radix_tree_gang_lookup. -/
def gangLoop (root : Root α) (maxItems : Nat) : Nat → Nat → List α → Option (List α)
  | 0, _, _ => none
  | n + 1, cur, found =>
    if found.length < maxItems ∧ cur ≤ maxindex root.height then
      match lookup root.height root.rnode cur (maxItems - found.length) with
      | none => none
      | some (items, next) =>
        if next = 0 then some (found ++ items) else gangLoop root maxItems n next (found ++ items)
    else some found

/-- dms_radix_tree_gang_lookup. Each round of its loop goes on from a larger index, so 2^64 rounds and
the test that ends the last are enough. -/
def Root.gangLookup (root : Root α) (first maxItems : Nat) : Option (List α) :=
  gangLoop root maxItems (2 ^ 64 + 1) first []

end DiscoClient.RadixTree
