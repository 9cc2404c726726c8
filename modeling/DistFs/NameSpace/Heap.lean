import DistFs.CText.Decimal
import DistFs.NameSpace.Paths

/-!
# The name-space tree of `dd.c`

The node heap and the functions that search and change it, translated from `dd.c`.  A call that
dereferences a null or a freed pointer, runs a loop for ever or overflows `nodeno` does not return;
here it yields an error.  Every loop is bounded by the number of cells ever allocated.  The arrays
that strings are copied into are those of `Arrays`.
-/

namespace DistFs.NameSpace

open CText

/-- `REP`: the number of replicas a node records. -/
abbrev REP : ℕ := 5

instance REP_neZero : NeZero REP := ⟨by decide⟩

/-- `SERV_PATH`: the size of the fields that hold the name of a data node. -/
def SERV_PATH : ℕ := 100

/-- Why a call does not return. -/
inductive Fault where
  | null
  | dangling
  | overflow
  | fuel
deriving DecidableEq, Repr

/-- `datadef`. -/
structure Datadef where
  nno : ℤ
  pno : ℤ
  fname : CString
  dname : Fin REP → CString
  loc : CString
  dflag : ℤ
  dsync : Fin REP → ℤ
deriving DecidableEq

/-- Heap addresses.  Null pointers are `none`. -/
abbrev Addr := ℕ

/-- `node`. -/
structure Node where
  data : Datadef
  next : Option Addr
  prev : Option Addr
  fold : Option Addr
deriving DecidableEq

/-- The globals `head` and `nodeno`, and the node heap: `brk` is the next unused address. -/
structure State where
  heap : Addr → Option Node
  brk : Addr
  head : Option Addr
  nodeno : ℤ

/-- The globals of a process that has just started. -/
def State.fresh : State := ⟨fun _ => none, 0, none, 0⟩

/-- What stands in the slots for data nodes that are not used. -/
def none_ : CString := .lit "none"

/-- The `loc` of the root, and its data node. -/
def root_ : CString := .lit "Root"

namespace State

/-- `*p`. -/
def deref (s : State) : Option Addr → Except Fault Node
  | none => .error .null
  | some a =>
      match s.heap a with
      | none => .error .dangling
      | some n => .ok n

/-- `malloc`: the next address, filled with a node. -/
def malloc (s : State) (n : Node) : State :=
  { s with heap := Function.update s.heap s.brk (some n), brk := s.brk + 1 }

/-- A write to some fields of the node at `a`. -/
def write (s : State) (a : Addr) (f : Node → Node) : State :=
  { s with heap := Function.update s.heap a ((s.heap a).map f) }

/-- `free`: the node at `a` may not be read any more. -/
def free (s : State) (a : Addr) : State := { s with heap := Function.update s.heap a none }

end State

theorem heap_write (s : State) (a b : Addr) (f : Node → Node) :
    (s.write a f).heap b = (s.heap b).map fun n => if b = a then f n else n := by
  unfold State.write
  by_cases here : b = a
  · subst here
    simp
  · simp [here]

theorem heap_free (s : State) (a b : Addr) :
    (s.free a).heap b = if b = a then none else s.heap b :=
  Function.update_apply s.heap a none b

theorem deref_eq_ok {s : State} {r : Option Addr} {n : Node} (h : s.deref r = .ok n) :
    ∃ a, r = some a ∧ s.heap a = some n := by
  cases r with
  | none => cases h
  | some a =>
    refine ⟨a, rfl, ?_⟩
    unfold State.deref at h
    cases found : s.heap a with
    | none => simp [found] at h
    | some m => simpa [found] using h

/-- `create_node`: a cell with the given data and null links. -/
def create_node (vdata : Datadef) (s : State) : State := s.malloc ⟨vdata, none, none, none⟩

/-- `ninitialize`.  `junk` is what `malloc` left in `dsync`, which the function does not set. -/
def ninitialize (junk : Fin REP → ℤ) (s : State) : State :=
  let data : Datadef :=
    { nno := 1, pno := 0, fname := home, dname := fun i => if i = 0 then root_ else none_,
      loc := root_, dflag := 1, dsync := fun i => toInt (junk i) }
  { s.malloc ⟨data, none, none, none⟩ with head := some s.brk, nodeno := 1 }

/-- The tree of a process that has just called `ninitialize`. -/
abbrev initialTree (junk : Fin REP → ℤ) : State := ninitialize junk .fresh

/-! ## Search -/

/-- The sibling loops of `searchloc`: the first node from `temp` on that is called `name`. -/
def searchsiblings (s : State) (name : CString) : ℕ → Option Addr → Except Fault (Option Addr)
  | 0, _ => .error .fuel
  | _ + 1, none => .ok none
  | fuel + 1, some a => do
      let n ← s.deref (some a)
      if n.data.fname = name then return some a
      searchsiblings s name fuel n.next

/-- `searchloc`, with one unit of fuel for each slash of the path. -/
def searchloc (s : State) : ℕ → Option Addr → CString → Except Fault (Option Addr)
  | 0, _, _ => .error .fuel
  | fuel + 1, temp, vpath => do
      if findfch vpath.bytes slash ≠ -1 then
        match ← searchsiblings s (parserpath vpath) (s.brk + 1) temp with
        | none => return none
        | some a =>
            let n ← s.deref (some a)
            searchloc s fuel n.fold (removepath vpath)
      else if vpath = home then return s.head
      else
        let n ← s.deref temp
        if n.data.fname = home then
          let h ← s.deref s.head
          searchsiblings s vpath (s.brk + 1) h.fold
        else searchsiblings s vpath (s.brk + 1) temp

/-- `search`. -/
def search (s : State) (vpath : CString) : Except Fault (Option Addr) :=
  if vpath = home then .ok s.head
  else searchloc s (vpath.bytes.length + 1) s.head vpath

/-- The last loop of `searchlast`: the end of a chain of siblings. -/
def lastsibling (s : State) : ℕ → Option Addr → Except Fault (Option Addr)
  | 0, _ => .error .fuel
  | fuel + 1, tnode => do
      let n ← s.deref tnode
      if n.next ≠ none then lastsibling s fuel n.next else return tnode

/-- `searchlast`: the node to which a new child of the folder `tpath` is linked. -/
def searchlast (s : State) (tpath : CString) : Except Fault (Option Addr) := do
  let tnode ← search s tpath
  let n ← s.deref tnode
  if n.fold = none then return tnode
  lastsibling s (s.brk + 1) n.fold

/-! ## Insertion -/

/-- The largest `int`. -/
def INT_MAX : ℤ := 2 ^ 31 - 1

/-- `addnode`: returns the new node and the state after the call. -/
def addnode (vpath : CString) (vdata : Datadef) (s : State) : Except Fault (Addr × State) := do
  let newnode := s.brk
  let s := create_node vdata s
  let tnode ← searchlast s vpath
  let n ← s.deref tnode
  let some t := tnode | .error .null
  let s := if n.data.dflag = 1 then s.write t fun n => { n with fold := some newnode }
    else s.write t fun n => { n with next := some newnode }
  let s := s.write newnode fun n => { n with prev := some t }
  if s.nodeno ≥ INT_MAX then .error .overflow
  let s := { s with nodeno := s.nodeno + 1 }
  let parent ← s.deref (some t)
  let s := s.write newnode fun n =>
    { n with data := { n.data with pno := parent.data.nno, nno := s.nodeno } }
  return (newnode, s)

/-- The record that `addfile` and `addfolder` hand to `addnode`. -/
def newdata (fname dname loc : CString) (dflag : ℤ) : Datadef :=
  { nno := 0, pno := 0, fname := fname, dname := fun i => if i = 0 then dname else none_,
    loc := loc, dflag := dflag, dsync := fun i => if i = 0 then 1 else 0 }

/-- `addfile`: a file under the path `loc`. -/
def addfile (fname dname loc : CString) (s : State) : Except Fault (Addr × State) :=
  addnode loc (newdata fname dname loc 0) s

/-- `addfolder`: a folder under the path `loc`. -/
def addfolder (fname dname loc : CString) (s : State) : Except Fault (Addr × State) :=
  addnode loc (newdata fname dname loc 1) s

/-! ## Removal -/

/-- What `removefile` and `removefold` share: the node that `vpath` names is unlinked from its two
neighbours.  Returns its address. -/
def unlink (vpath : CString) (s : State) : Except Fault (Addr × State) := do
  let tnode ← search s vpath
  let n ← s.deref tnode
  let p ← s.deref n.prev
  let (some t, some prev) := (tnode, n.prev) | .error .null
  let s := if p.data.dflag = 1 then s.write prev fun p => { p with fold := n.next }
    else s.write prev fun p => { p with next := n.next }
  let _ ← s.deref n.next
  let some next := n.next | .error .null
  let s := s.write next fun m => { m with prev := some prev }
  return (t, s)

/-- `removefile`: the node is unlinked and freed. -/
def removefile (vpath : CString) (s : State) : Except Fault State := do
  let (t, s) ← unlink vpath s
  return s.free t

mutual

/-- `removefold`.  The folder is unlinked and its children are removed by their `loc`. -/
def removefold : ℕ → CString → State → Except Fault State
  | 0, _, _ => .error .fuel
  | fuel + 1, vpath, s => do
      let (t, s) ← unlink vpath s
      let n ← s.deref (some t)
      removechildren fuel n.fold s

/-- The loop of `removefold` over the children from `temp` on, and the last child behind it. -/
def removechildren : ℕ → Option Addr → State → Except Fault State
  | 0, _, _ => .error .fuel
  | fuel + 1, temp, s => do
      let n ← s.deref temp
      if n.next ≠ none then
        let s ← if n.data.dflag = 1 then removefold fuel n.data.loc s else removefile n.data.loc s
        removechildren fuel n.next s
      else if n.data.dflag = 1 then removefold fuel n.data.loc s
      else removefile n.data.loc s

end

/-! ## Runs -/

/-- A call that changes the tree. -/
inductive Op where
  | addfile (fname dname loc : CString)
  | addfolder (fname dname loc : CString)
  | removefile (vpath : CString)
  | removefold (vpath : CString)
deriving DecidableEq

/-- The insertions. -/
def Op.isAdd : Op → Bool
  | .addfile .. | .addfolder .. => true
  | .removefile _ | .removefold _ => false

/-- The state after a call that returns. -/
def Op.run : Op → State → Except Fault State
  | .addfile f d l, s => Prod.snd <$> NameSpace.addfile f d l s
  | .addfolder f d l, s => Prod.snd <$> NameSpace.addfolder f d l s
  | .removefile p, s => NameSpace.removefile p s
  | .removefold p, s => NameSpace.removefold (2 * s.brk + 2) p s

/-- A sequence of calls that all return. -/
def runOps (ops : List Op) (s : State) : Except Fault State := ops.foldlM (fun s op => op.run s) s

/-- The state after calls that all return from the initialisation on. -/
def stateAfter (ops : List Op) : State :=
  match runOps ops (initialTree fun _ => 0) with
  | .ok s => s
  | .error _ => .fresh

theorem runOps_stateAfter {ops : List Op}
    (h : (runOps ops (initialTree fun _ => 0)).toBool = true) :
    runOps ops (initialTree fun _ => 0) = .ok (stateAfter ops) := by
  obtain ⟨s, hs⟩ := ok_of_toBool h
  rw [stateAfter, hs]

end DistFs.NameSpace
