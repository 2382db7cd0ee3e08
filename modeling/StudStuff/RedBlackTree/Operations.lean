import StudStuff.RedBlackTree.Node

/-!
# The member functions of `RedBlackTree`

The code of `red_black_tree.h`, statement by statement, in the order of the file. Every mirrored
pair of the source (`RotateLeft` and `RotateRight`, the two halves of `InsertFixup` and of
`RemoveFixup`) is one program with a `Side`, and the members of the pair are that program at
`.left` and `.right`. Loops take the bound `fuel`; the proofs show that it is never reached.

`FindNode`, the bound queries, `Erase` and everything below them is `noexcept` in the source: an
exception there ends the program, so only `Insert` and `CopyRecursive` count throwing operations.
-/

set_option autoImplicit false
set_option relaxedAutoImplicit false

namespace StudStuff.RedBlackTree

variable {Key : Type}

/-! ### Rotations and transplantation -/

/-- The statement that the rotations and `Transplant` share: `y` becomes the child that `x` is of
`x->parent`, or the root when `x` has no parent. -/
def relink (x y : Ptr) : TreeM Key Unit := do
  if (← read x).parent = .nil then
    setRoot y
  else if x = (← read (← read x).parent).left then
    setChild (← read x).parent .left y
  else
    setChild (← read x).parent .right y

/-- `if (child != nil_) child->parent = parent;`. -/
def adopt (child parent : Ptr) : TreeM Key Unit :=
  if child ≠ .nil then setParent child parent else pure ()

/-- `x` falls down to a side, and its child on the other side moves up to its place. -/
def rotate (side : Side) (x : Ptr) : TreeM Key Unit := do
  let y := (← read x).child side.flip
  require (y ≠ .nil) .nilPivot
  -- Step 1: the inner child of y becomes the child of x
  setChild x side.flip ((← read y).child side)
  adopt ((← read y).child side) x
  -- Step 2: y moves up to the position of x
  setParent y (← read x).parent
  relink x y
  -- Step 3: x becomes the child of y
  setChild y side x
  setParent x y

/-- `RotateLeft`. -/
def rotateLeft (x : Ptr) : TreeM Key Unit := rotate .left x

/-- `RotateRight`. -/
def rotateRight (y : Ptr) : TreeM Key Unit := rotate .right y

/-- `Transplant`: node `v` takes the place of node `u` under the parent of `u`. -/
def transplant (u v : Ptr) : TreeM Key Unit := do
  relink u v
  setParent v (← read u).parent

/-! ### Descents and iterators -/

/-- `while (node->left != nil_) node = node->left;`. -/
def descendLeft (sentinel : Ptr) : ℕ → Ptr → TreeM Key Ptr
  | 0, _ => fault .outOfFuel
  | bound + 1, node => do
    if (← read node).left ≠ sentinel then
      descendLeft sentinel bound (← read node).left
    else
      return node

/-- `GetMinimum`: the leftmost node of a subtree. -/
def getMinimum (node : Ptr) : TreeM Key Ptr := do
  if node = .nil then
    return .nil
  else
    descendLeft .nil (← fuel) node

/-- `while (parent != nil_ && node == parent->right) { node = parent; parent = parent->parent; }`,
then `return parent`. -/
def climbRight (sentinel : Ptr) : ℕ → Ptr → Ptr → TreeM Key Ptr
  | 0, _, _ => fault .outOfFuel
  | bound + 1, node, parent => do
    if parent = sentinel then
      return parent
    else if node = (← read parent).right then
      climbRight sentinel bound parent (← read parent).parent
    else
      return parent

/-- `node->right != nil_ && node->right->data == node->data`. -/
def hasRightDuplicate (params : Params Key) (sentinel node : Ptr) : TreeM Key Bool := do
  if (← read node).right = sentinel then
    return false
  else
    return params.eq (← read (← read node).right).data (← read node).data

/-- `BasicIterator::GetSuccessor`. -/
def getSuccessor (params : Params Key) (sentinel node : Ptr) : TreeM Key Ptr := do
  if node = sentinel then
    return sentinel
  else if (← read node).right ≠ sentinel then
    let node := (← read node).right
    if ← hasRightDuplicate params sentinel node then
      return (← read node).right
    else
      descendLeft sentinel (← fuel) node
  else
    climbRight sentinel (← fuel) node (← read node).parent

/-- `BasicIterator::operator++`. -/
def Iterator.increment (params : Params Key) (it : Iterator) : TreeM Key Iterator := do
  return { it with node := ← getSuccessor params it.nil it.node }

/-- `while (node->right != nil_) node = node->right;`. -/
def descendRight (sentinel : Ptr) : ℕ → Ptr → TreeM Key Ptr
  | 0, _ => fault .outOfFuel
  | bound + 1, node => do
    if (← read node).right ≠ sentinel then
      descendRight sentinel bound (← read node).right
    else
      return node

/-- `while (parent != nil_ && node == parent->left) { node = parent; parent = parent->parent; }`,
then `return parent`. -/
def climbLeft (sentinel : Ptr) : ℕ → Ptr → Ptr → TreeM Key Ptr
  | 0, _, _ => fault .outOfFuel
  | bound + 1, node, parent => do
    if parent = sentinel then
      return parent
    else if node = (← read parent).left then
      climbLeft sentinel bound parent (← read parent).parent
    else
      return parent

/-- `BasicIterator::GetPredecessor`. -/
def getPredecessor (sentinel node : Ptr) : TreeM Key Ptr := do
  if node = sentinel then
    return sentinel
  else if (← read node).left ≠ sentinel then
    descendRight sentinel (← fuel) (← read node).left
  else
    climbLeft sentinel (← fuel) node (← read node).parent

/-- `BasicIterator::operator--`. -/
def Iterator.decrement (it : Iterator) : TreeM Key Iterator := do
  return { it with node := ← getPredecessor it.nil it.node }

/-- `begin()`. -/
def begin : TreeM Key Iterator := do
  return ⟨← getMinimum (← get).root, .nil⟩

/-- `end()`. -/
def endIterator : Iterator := ⟨.nil, .nil⟩

/-- `operator*`. -/
def Iterator.deref (it : Iterator) : TreeM Key Key := do
  return (← read it.node).data

/-- The loop of `FindNode`. -/
def findNodeLoop (params : Params Key) (key : Key) : ℕ → Ptr → TreeM Key Ptr
  | 0, _ => fault .outOfFuel
  | bound + 1, current => do
    if current = .nil then
      return .nil
    else
      let curKey := (← read current).data
      if params.comp key curKey then
        findNodeLoop params key bound (← read current).left
      else if params.comp curKey key then
        findNodeLoop params key bound (← read current).right
      else
        return current

/-- `FindNode`. -/
def findNode (params : Params Key) (key : Key) : TreeM Key Ptr := do
  findNodeLoop params key (← fuel) (← get).root

/-- `Find`: the one-argument constructor makes the node its own sentinel. -/
def find (params : Params Key) (key : Key) : TreeM Key Iterator := do
  let node ← findNode params key
  return ⟨node, node⟩

/-- The loop of `LowerBoundImpl`. -/
def lowerBoundLoop (params : Params Key) (key : Key) : ℕ → Ptr → Ptr → TreeM Key Ptr
  | 0, _, _ => fault .outOfFuel
  | bound + 1, current, result => do
    if current = .nil then
      return result
    else if params.comp (← read current).data key then
      lowerBoundLoop params key bound (← read current).right result
    else
      lowerBoundLoop params key bound (← read current).left current

/-- `LowerBoundImpl`. -/
def lowerBoundImpl (params : Params Key) (key : Key) : TreeM Key Ptr := do
  lowerBoundLoop params key (← fuel) (← get).root .nil

/-- The loop of `UpperBoundImpl`. -/
def upperBoundLoop (params : Params Key) (key : Key) : ℕ → Ptr → Ptr → TreeM Key Ptr
  | 0, _, _ => fault .outOfFuel
  | bound + 1, current, result => do
    if current = .nil then
      return result
    else if params.comp key (← read current).data then
      upperBoundLoop params key bound (← read current).left current
    else
      upperBoundLoop params key bound (← read current).right result

/-- `UpperBoundImpl`. -/
def upperBoundImpl (params : Params Key) (key : Key) : TreeM Key Ptr := do
  upperBoundLoop params key (← fuel) (← get).root .nil

/-- `LowerBound`. -/
def lowerBound (params : Params Key) (key : Key) : TreeM Key Iterator := do
  let result ← lowerBoundImpl params key
  return if result ≠ .nil then ⟨result, .nil⟩ else endIterator

/-- `UpperBound`. -/
def upperBound (params : Params Key) (key : Key) : TreeM Key Iterator := do
  let result ← upperBoundImpl params key
  return if result ≠ .nil then ⟨result, .nil⟩ else endIterator

/-- `EqualRange`. -/
def equalRange (params : Params Key) (key : Key) : TreeM Key (Iterator × Iterator) := do
  let first ← lowerBound params key
  let last ← upperBound params key
  return (first, last)

/-- `empty()`. -/
def empty : TreeM Key Bool := do return (← get).root = .nil

/-- `size()`. -/
def size : TreeM Key ℕ := do return (← get).size

/-! ### Insertion -/

/-- Case 2b of `InsertFixup`: the node is an outer grandchild. -/
def insertFixupOuter (side : Side) (parent grandpa : Ptr) : TreeM Key Unit := do
  require (grandpa ≠ .nil) .nilGrandparent
  setColor parent .black
  setColor grandpa .red
  rotate side.flip grandpa

/-- The body of the loop of `InsertFixup` when the parent is the child of the grandparent on
`side`. It returns the node to go on with. -/
def insertFixupSide (side : Side) (node parent grandpa : Ptr) : TreeM Key Ptr := do
  let uncle := (← read grandpa).child side.flip
  if (← read uncle).color = .red then
    -- Case 1: red uncle
    setColor parent .black
    setColor uncle .black
    setColor grandpa .red
    return grandpa
  else if node = (← read parent).child side.flip then
    -- Case 2a: node is an inner child
    let node := parent
    rotate side node
    let parent := (← read node).parent
    let grandpa := (← read parent).parent
    insertFixupOuter side parent grandpa
    return node
  else
    insertFixupOuter side parent grandpa
    return node

/-- The loop of `InsertFixup`. -/
def insertFixupLoop : ℕ → Ptr → TreeM Key Unit
  | 0, _ => fault .outOfFuel
  | bound + 1, node => do
    if (← read (← read node).parent).color = .red then
      let parent := (← read node).parent
      let grandpa := (← read parent).parent
      require (grandpa ≠ .nil) .nilGrandparent
      if parent = (← read grandpa).left then
        insertFixupLoop bound (← insertFixupSide .left node parent grandpa)
      else
        insertFixupLoop bound (← insertFixupSide .right node parent grandpa)
    else
      return ()

/-- `InsertFixup`. -/
def insertFixup (node : Ptr) : TreeM Key Unit := do
  insertFixupLoop (← fuel) node
  setColor (← get).root .black

/-- The search loop of `Insert`: the node to insert under, or nothing when an equivalent key is
met. -/
def insertDescend (params : Params Key) (val : Key) : ℕ → Ptr → Ptr → TreeM Key (Option Ptr)
  | 0, _, _ => fault .outOfFuel
  | bound + 1, current, parent => do
    if current = .nil then
      return some parent
    else
      mayThrow
      let curData := (← read current).data
      mayThrow
      if params.comp val curData then
        insertDescend params val bound (← read current).left current
      else
        mayThrow
        if params.comp curData val then
          insertDescend params val bound (← read current).right current
        else
          return none

/-- The rest of `Insert` once the place is found. -/
def insertUnder (params : Params Key) (val : Key) (parent : Ptr) : TreeM Key Iterator := do
  let node ← newNode params val
  setChild node .right .nil
  setChild node .left .nil
  setParent node parent
  setSize ((← get).size + 1)
  mayThrow
  if params.comp (← read node).data (← read parent).data then
    setChild parent .left node
  else
    setChild parent .right node
  insertFixup node
  return ⟨node, .nil⟩

/-- `Insert`. -/
def insert (params : Params Key) (val : Key) : TreeM Key Iterator := do
  if ← empty then
    setRoot (← newNode params val)
    setSize ((← get).size + 1)
    setColor (← get).root .black
    setChild (← get).root .right .nil
    setChild (← get).root .left .nil
    setParent (← get).root .nil
    return ⟨(← get).root, .nil⟩
  else
    match ← insertDescend params val (← fuel) (← get).root .nil with
    | none => return endIterator
    | some parent => insertUnder params val parent

/-! ### Removal -/

/-- `x->parent->right` or `x->parent->left`: the sibling of a node that is the child on `side`. -/
def sibling (side : Side) (x : Ptr) : TreeM Key Ptr := do
  let w := (← read (← read x).parent).child side.flip
  require (w ≠ .nil) .nilSibling
  return w

/-- Case 1 of `RemoveFixup`: a red sibling is rotated away. It returns the sibling to go on
with. -/
def removeFixupRedSibling (side : Side) (x : Ptr) : TreeM Key Ptr := do
  let w ← sibling side x
  if (← read w).color = .red then
    setColor w .black
    setColor (← read x).parent .red
    rotate side (← read x).parent
    sibling side x
  else
    return w

/-- Case 3 of `RemoveFixup`: a black outer nephew is replaced by the red inner one. It returns the
sibling to go on with. -/
def removeFixupInner (side : Side) (x w : Ptr) : TreeM Key Ptr := do
  if (← read ((← read w).child side.flip)).color = .black then
    setColor ((← read w).child side) .black
    setColor w .red
    rotate side.flip w
    sibling side x
  else
    return w

/-- Case 4 of `RemoveFixup`: the outer nephew is red. -/
def removeFixupOuter (side : Side) (x w : Ptr) : TreeM Key Unit := do
  setColor w (← read (← read x).parent).color
  setColor ((← read w).child side.flip) .black
  setColor (← read x).parent .black
  rotate side (← read x).parent

/-- Cases 2 to 4 of `RemoveFixup`: the sibling `w` is black. It returns the node to go on with. -/
def removeFixupBlackSibling (side : Side) (x w : Ptr) : TreeM Key Ptr := do
  if (← read ((← read w).child side)).color = .black ∧
      (← read ((← read w).child side.flip)).color = .black then
    -- Case 2
    setColor w .red
    return (← read x).parent
  else
    removeFixupOuter side x (← removeFixupInner side x w)
    return (← get).root

/-- The body of the loop of `RemoveFixup` when `x` is the child on `side`. It returns the node to
go on with. -/
def removeFixupSide (side : Side) (x : Ptr) : TreeM Key Ptr := do
  removeFixupBlackSibling side x (← removeFixupRedSibling side x)

/-- The loop of `RemoveFixup`. It returns the node it stops at. -/
def removeFixupLoop : ℕ → Ptr → TreeM Key Ptr
  | 0, _ => fault .outOfFuel
  | bound + 1, x => do
    if x ≠ (← get).root ∧ (← read x).color = .black then
      if x = (← read (← read x).parent).left then
        removeFixupLoop bound (← removeFixupSide .left x)
      else
        removeFixupLoop bound (← removeFixupSide .right x)
    else
      return x

/-- `RemoveFixup`. -/
def removeFixup (x : Ptr) : TreeM Key Unit := do
  setColor (← removeFixupLoop (← fuel) x) .black

/-- The first part of `RemoveOne` when the node has two children: its successor takes its place.
It returns the child that replaced the successor and the colour the successor had. -/
def removeTwoChildren (node : Ptr) : TreeM Key (Ptr × Color) := do
  let y ← getMinimum (← read node).right
  let originalColor := (← read y).color
  let x := (← read y).right
  if (← read y).parent = node then
    setParent x y
  else
    transplant y (← read y).right
    setChild y .right (← read node).right
    setParent (← read y).right y
  transplant node y
  setChild y .left (← read node).left
  setParent (← read y).left y
  setColor y (← read node).color
  return (x, originalColor)

/-- The first part of `RemoveOne`: take a node out of the tree. It returns the child that took
the freed place and the colour that went missing. -/
def detach (node : Ptr) : TreeM Key (Ptr × Color) := do
  if (← read node).left = .nil then
    let originalColor := (← read node).color
    let x := (← read node).right
    transplant node (← read node).right
    return (x, originalColor)
  else if (← read node).right = .nil then
    let originalColor := (← read node).color
    let x := (← read node).left
    transplant node (← read node).left
    return (x, originalColor)
  else
    removeTwoChildren node

/-- `RemoveOne`. -/
def removeOne (node : Ptr) : TreeM Key Unit := do
  if node = .nil then
    return ()
  else
    let (x, originalColor) ← detach node
    deleteNode node
    setSize ((← get).size - 1)
    if originalColor = .black then
      removeFixup x
    else
      return ()

/-- `Erase`, and `Remove(ConstIterator)`, which calls it. -/
def erase (params : Params Key) (pos : Iterator) : TreeM Key Iterator := do
  if pos = endIterator then
    return endIterator
  else
    let next ← (Iterator.mk pos.node .nil).increment params
    removeOne pos.node
    return next

/-- The loop of `Remove(value_type)`. -/
def removeLoop (params : Params Key) (last : Iterator) : ℕ → Iterator → ℕ → TreeM Key ℕ
  | 0, _, _ => fault .outOfFuel
  | bound + 1, first, removedCnt => do
    if first ≠ last then
      removeLoop params last bound (← erase params first) (removedCnt + 1)
    else
      return removedCnt

/-- `Remove(value_type)`. -/
def remove (params : Params Key) (key : Key) : TreeM Key ℕ := do
  let (first, last) ← equalRange params key
  removeLoop params last (← fuel) first 0

/-! ### Clearing and copying -/

/-- `ClearRecursive`. -/
def clearRecursive : ℕ → Ptr → TreeM Key Unit
  | 0, _ => fault .outOfFuel
  | bound + 1, node => do
    if node = .nil then
      return ()
    else
      clearRecursive bound (← read node).left
      clearRecursive bound (← read node).right
      deleteNode node

/-- `Clear`. -/
def clear : TreeM Key Unit := do
  clearRecursive (← fuel) (← get).root
  setRoot .nil
  setSize 0

/-- `try { body } catch (...) { handler; throw; }`. -/
def onThrow {α : Type} (body : TreeM Key α) (handler : TreeM Key Unit) : TreeM Key α := fun s ↦
  match body s with
  | .error .thrown s' => (handler >>= fun _ ↦ throw Stop.thrown) s'
  | result => result

/-- `CopyRecursive`. The handler runs with the value `new_node` has when the exception is
raised, which is still null when it is `new` that throws. -/
def copyRecursive (params : Params Key) : ℕ → Ptr → Ptr → TreeM Key Ptr
  | 0, _, _ => fault .outOfFuel
  | bound + 1, node, parent => do
    if node = .nil then
      return .nil
    else
      let newNode ← onThrow (do newNode params (← read node).data)
        (do clearRecursive (← fuel) .null)
      onThrow (do
          setColor newNode (← read node).color
          setParent newNode parent
          setChild newNode .left (← copyRecursive params bound (← read node).left newNode)
          setChild newNode .right (← copyRecursive params bound (← read node).right newNode))
        (do clearRecursive (← fuel) newNode)
      return newNode

end StudStuff.RedBlackTree
