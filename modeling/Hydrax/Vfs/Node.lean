import Hydrax.LinkedList
import Hydrax.Vfs.Path

/-!
# The virtual file system

The functions of `kernel/vfs.c` that work on the tree of nodes. Nodes are kept in a store indexed by
their address, and a null pointer is `0`. The children of a node are a list: `ptr` points to the
first, and `next` of each to the one after it.

The root of the tree has a second list of children, those of the root of the mounted file system.

A function that a node brings along (`open`, `readdir`, `finddir`, `stat`) is a function of the
arguments here. A call of one that is not there stops the machine. Every function that takes a lock
gives it back before it returns, so the locks are left out.
-/

namespace Hydrax.Vfs

def fsFile : BitVec 32 := 1
def fsDirectory : BitVec 32 := 2
def fsChardevice : BitVec 32 := 3

def enoent : Int := -7
def enomem : Int := -8

def modeTypeDirectory : Nat := 1
def modeTypeChardevice : Nat := 8

def maxPathNodes : Nat := 64

/-- `struct dirent`, as far as `vfs_readdir` writes it. -/
structure Dirent where
  name : List Char
  ino : Nat
  deriving DecidableEq, Repr

/-- `struct stat`. -/
structure Stat where
  stDev : Nat := 0
  stIno : Nat := 0
  stMode : Nat := 0
  stNlink : Nat := 0
  stUid : UInt32 := 0
  stGid : UInt32 := 0
  stRdev : Nat := 0
  stSize : Nat := 0
  stAtime : Nat := 0
  stMtime : Nat := 0
  stCtime : Nat := 0
  stBlksize : Nat := 0
  stBlocks : Nat := 0
  deriving DecidableEq, Repr

/-- `vfs_node_t`, as far as the tree is concerned. A name is null-terminated. -/
structure Node where
  name : List Char := []
  uid : UInt32 := 0
  gid : UInt32 := 0
  flags : BitVec 32 := 0
  inode : Nat := 0
  length : Nat := 0
  refs : Nat := 0
  openOp : Option (List Char → Nat) := none
  readdirOp : Option (Nat → Option Dirent) := none
  finddirOp : Option (Option (List Char) → Nat) := none
  statOp : Option (Option (List Char) → Option Stat) := none
  parent : Nat := 0
  ptr : Nat := 0
  next : Nat := 0

/-- A node without the links to its first child and its next sibling. -/
def Node.unlinked (n : Node) : Node := { n with ptr := 0, next := 0 }

/-- The variables of `vfs.c`, what it uses of the current task, and what `malloc` answers. -/
structure State where
  nodes : Nat → Node := fun _ => {}
  root : Nat := 0
  rootMount : Nat := 0
  rootNodes : Nat := 0
  cwd : Nat := 0
  errno : Int := 0
  mallocs : Nat := 0
  mallocOk : Nat → Bool := fun _ => true

namespace State

variable (s : State)

def malloc : Bool × State := (s.mallocOk s.mallocs, { s with mallocs := s.mallocs + 1 })

/-- Change the node at `n`. -/
def modify (n : Nat) (f : Node → Node) : State :=
  { s with nodes := Function.update s.nodes n (f (s.nodes n)) }

@[simp] theorem modify_self (n : Nat) (f : Node → Node) : (s.modify n f).nodes n = f (s.nodes n) :=
  Function.update_self ..

@[simp] theorem modify_of_ne {n x : Nat} (f : Node → Node) (h : x ≠ n) :
    (s.modify n f).nodes x = s.nodes x :=
  Function.update_of_ne h ..

theorem modify_view {α : Type} (view : Node → α) {f : Node → Node} {n : Nat}
    (hf : view (f (s.nodes n)) = view (s.nodes n)) (x : Nat) :
    view ((s.modify n f).nodes x) = view (s.nodes x) := by
  by_cases h : x = n
  · subst h
    rw [modify_self, hf]
  · rw [modify_of_ne _ _ h]

/-- "node->parent = x". -/
def setParent (n x : Nat) : State := s.modify n (fun node => { node with parent := x })

/-- "node->ptr = x". -/
def setPtr (n x : Nat) : State := s.modify n (fun node => { node with ptr := x })

/-- "node->next = x". -/
def setNext (n x : Nat) : State := s.modify n (fun node => { node with next := x })

section Fields

variable (n x y : Nat)

@[simp] theorem setParent_parent :
    ((s.setParent n x).nodes y).parent = if y = n then x else (s.nodes y).parent := by
  by_cases h : y = n <;> simp [setParent, h]

@[simp] theorem setParent_ptr : ((s.setParent n x).nodes y).ptr = (s.nodes y).ptr :=
  s.modify_view Node.ptr rfl y

@[simp] theorem setParent_next : ((s.setParent n x).nodes y).next = (s.nodes y).next :=
  s.modify_view Node.next rfl y

@[simp] theorem setPtr_ptr :
    ((s.setPtr n x).nodes y).ptr = if y = n then x else (s.nodes y).ptr := by
  by_cases h : y = n <;> simp [setPtr, h]

@[simp] theorem setPtr_parent : ((s.setPtr n x).nodes y).parent = (s.nodes y).parent :=
  s.modify_view Node.parent rfl y

@[simp] theorem setPtr_next : ((s.setPtr n x).nodes y).next = (s.nodes y).next :=
  s.modify_view Node.next rfl y

@[simp] theorem setNext_next :
    ((s.setNext n x).nodes y).next = if y = n then x else (s.nodes y).next := by
  by_cases h : y = n <;> simp [setNext, h]

@[simp] theorem setNext_parent : ((s.setNext n x).nodes y).parent = (s.nodes y).parent :=
  s.modify_view Node.parent rfl y

@[simp] theorem setNext_ptr : ((s.setNext n x).nodes y).ptr = (s.nodes y).ptr :=
  s.modify_view Node.ptr rfl y

end Fields

/-- "node->refs++". -/
def retain (n : Nat) : State := s.modify n (fun node => { node with refs := incr node.refs })

end State

/-! ## Nodes of a directory -/

/-- The loop that seeks a name. `strcmp` is not made for a null pointer. -/
def findName (nodes : Nat → Node) (name : Option (List Char)) : Nat → Nat → Except Stop Nat
  | 0, _ => .error .hang
  | fuel + 1, tmp =>
    if tmp = 0 then .ok 0
    else
      match name with
      | none => .error .nullDeref
      | some w =>
        if (nodes tmp).name = w then .ok tmp else findName nodes name fuel (nodes tmp).next

/-- `vfs_finddir`. -/
def finddir (s : State) (node : Nat) (name : Option (List Char)) : Except Stop Nat :=
  let node := if node = 0 then s.root else node
  match (s.nodes node).finddirOp with
  | some f => .ok (f name)
  | none =>
    if (s.nodes node).flags &&& 7 = fsDirectory then do
      let tmp ← findName s.nodes name listFuel (s.nodes node).ptr
      if tmp ≠ 0 then return tmp
      else if node = s.root then
        if s.rootMount = 0 then .error .nullDeref
        else findName s.nodes name listFuel (s.nodes s.rootMount).ptr
      else return 0
    else .error .nullDeref

def lastFrom (nodes : Nat → Node) : Nat → Nat → Except Stop Nat
  | 0, _ => .error .hang
  | fuel + 1, tmp =>
    if (nodes tmp).next = 0 then .ok tmp else lastFrom nodes fuel (nodes tmp).next

/-- A node is put behind the last child of its parent. -/
def appendNode (s : State) (parent node : Nat) : Except Stop State :=
  if (s.nodes parent).ptr = 0 then .ok (s.setPtr parent node)
  else do
    let tmp ← lastFrom s.nodes listFuel (s.nodes parent).ptr
    return s.setNext tmp node

/-- `vfs_mknod`. -/
def mknod (s : State) (parent node : Nat) : Except Stop (Int × State) := do
  assert (node ≠ 0)
  assert ((s.nodes node).next = 0)
  let parent := if parent = 0 then s.root else parent
  if (s.nodes parent).flags &&& fsDirectory = 0 then return (-1, s)
  else
    let s ← appendNode (s.setParent node parent) parent node
    return (0, { s with rootNodes := if parent = s.root then incr s.rootNodes else s.rootNodes })

/-- The loop that seeks a node and the one before it. -/
def seekSibling (nodes : Nat → Node) (node : Nat) : Nat → Nat → Nat → Except Stop (Nat × Nat)
  | 0, _, _ => .error .hang
  | fuel + 1, tmp, sibling =>
    if tmp = 0 ∨ tmp = node then .ok (tmp, sibling)
    else seekSibling nodes node fuel (nodes tmp).next tmp

/-- A node is taken out of the list of its parent, where it comes after `sibling`. -/
def unlinkNode (s : State) (node sibling : Nat) : State :=
  let next := (s.nodes node).next
  let s :=
    if sibling = 0 then s.setPtr (s.nodes node).parent next else s.setNext sibling next
  s.setNext node 0

/-- `vfs_rmnod`. -/
def rmnod (s : State) (node : Nat) : Except Stop (Int × State) := do
  assert (node ≠ 0)
  assert ((s.nodes node).parent ≠ 0)
  if (s.nodes (s.nodes node).parent).ptr = 0 then return (-1, s)
  else
    let (tmp, sibling) ← seekSibling s.nodes node listFuel (s.nodes (s.nodes node).parent).ptr 0
    if tmp = 0 then return (-1, s)
    else return (0, unlinkNode s node sibling)

/-- The loop of `vfs_readdir`, over as many nodes as are to be skipped. -/
def skipNodes (nodes : Nat → Node) : Nat → Nat → Option Nat
  | 0, tmp => some tmp
  | n + 1, tmp => if (nodes tmp).next = 0 then none else skipNodes nodes n (nodes tmp).next

def nodeAt (nodes : Nat → Node) (ptr index : Nat) : Option Nat :=
  if ptr = 0 then none else skipNodes nodes index ptr

/-- What `vfs_readdir` says of a node. -/
def direntOf (node : Node) : Dirent := { name := node.name, ino := node.inode }

/-- `vfs_readdir`. -/
def readdir (s : State) (node index : Nat) : Except Stop (Option Dirent) :=
  let node := if node = 0 then s.root else node
  match (s.nodes node).readdirOp with
  | some f => .ok (f index)
  | none =>
    if node ≠ s.root ∨ index < s.rootNodes then
      .ok ((nodeAt s.nodes (s.nodes node).ptr index).map (fun n => direntOf (s.nodes n)))
    else if s.rootMount = 0 then .error .nullDeref
    else
      .ok ((nodeAt s.nodes (s.nodes s.rootMount).ptr (index - s.rootNodes)).map
        (fun n => direntOf (s.nodes n)))

/-! ## Paths -/

/-- What `vfs_open` does with a component at a node: the node it gets to, or null. -/
def enter (s : State) (node : Nat) (name : List Char) : Except Stop Nat :=
  if name = ['.', '.'] then
    if node = s.root then .ok 0
    else if (s.nodes node).parent = 0 then .error .assertFailed
    else .ok (s.nodes node).parent
  else if name = ['.'] then .ok node
  else
    match (s.nodes node).openOp with
    | some f => .ok (f name)
    | none => finddir s node (some name)

/-- The loops of `vfs_open`, one component at a time. -/
def openLoop (s : State) (filename : List Char) :
    Nat → Nat → Nat → List Char → Except Stop (Nat × State)
  | 0, _, _, _ => .error .hang
  | fuel + 1, node, i, name => do
      let tmp ← enter s node name
      if tmp = 0 then
        let s := { s with errno := enoent }
        return (0, if name = ['.', '.'] then s else s.retain node)
      else
        match getPathLevel filename i with
        | none => return (tmp, s.retain tmp)
        | some name => openLoop s filename fuel tmp (i + 1) name

/-- The node that `vfs_open` starts at. -/
def startNode (s : State) (filename : List Char) : Nat :=
  let node := if filename.head? = some '/' then s.root else s.cwd
  if node = 0 then s.root else node

def vfsOpen (s : State) (filename : List Char) : Except Stop (Nat × State) := do
  assert (filename.length ≤ maxPath)
  let node := startNode s filename
  let (ok, s) := s.malloc
  if ok then
    match getPathLevel filename 0 with
    | none => return (s.root, s.retain s.root)
    | some name => openLoop s filename (maxPath + 2) node 1 name
  else return (0, { s with errno := enomem })

/-- What `vfs_stat` says of a node. -/
def statOf (node : Node) : Stat :=
  { stUid := node.uid, stGid := node.gid, stSize := node.length
    stMode := (if node.flags &&& 7 = fsDirectory then modeTypeDirectory else 0) +
      (if node.flags &&& 7 = fsChardevice then modeTypeChardevice else 0) }

/-- The loop of `vfs_stat`. -/
def statLoop (s : State) (path : List Char) :
    Nat → Nat → Nat → Option (List Char) → Except Stop (Option Stat × State)
  | 0, _, _, _ => .error .hang
  | fuel + 1, node, i, name =>
    match (s.nodes node).statOp with
    | some f => .ok (f name, s)
    | none => do
        let tmp ← finddir s node name
        if tmp = 0 then return (none, { s with errno := enoent })
        else
          match getPathLevel path i with
          | none => return (some (statOf (s.nodes tmp)), s)
          | some name => statLoop s path fuel tmp (i + 1) (some name)

def vfsStat (s : State) (node : Nat) (path : Option (List Char)) :
    Except Stop (Option Stat × State) := do
  match if node = 0 then none else (s.nodes node).statOp with
  | some f => return (f path, s)
  | none =>
    match path with
    | none =>
      if node = 0 then return (none, { s with errno := enoent })
      else return (some (statOf (s.nodes node)), s)
    | some path =>
      let (ok, s) := s.malloc
      if ok then
        assert (path.length ≤ maxPath)
        statLoop s path (maxPath + 2) s.root 1 (getPathLevel path 0)
      else return (none, { s with errno := enomem })

/-- The loop of `vfs_get_path`, that notes the nodes on the way up. The names come out in the order
in which they are written. -/
def climb (s : State) : Nat → Nat → List (List Char) → Except Stop (List (List Char))
  | 0, _, _ => .error .outOfBounds
  | fuel + 1, node, ns =>
    let ns := (s.nodes node).name :: ns
    let node := (s.nodes node).parent
    if node = 0 then .error .assertFailed
    else if node = s.root then .ok ns
    else climb s fuel node ns

def vfsGetPath (s : State) (node : Nat) : Except Stop (List Char) := do
  assert (node ≠ 0)
  if node = s.root then return ['/']
  else
    let ns ← climb s maxPathNodes node []
    return join ns

end Hydrax.Vfs
