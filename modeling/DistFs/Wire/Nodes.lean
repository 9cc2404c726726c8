import DistFs.Registry.Config
import DistFs.Wire.Command

/-!
# Data nodes and replicas

The two lists of `list.c` that the name node consults: the data nodes, and for each path the nodes
that hold a replica.  `filenode_insert` does not set `next` of the cell it allocates; it is read as
null here, as in memory fresh from the system.
-/

namespace DistFs.Wire

open CText Registry

/-- `DATANODE_DIR`. -/
def DATANODE_DIR : List Byte := str "/tmp/CS545/datanode"

/-- The size of the arrays `rep` and `replica`. -/
instance fifty_neZero : NeZero (50 : ℕ) := ⟨by decide⟩

/-- `filelist`: `rep i` is 0 when `replica i` is unused, 1 when it is in step, more when it is
behind. -/
structure Filelist where
  name : List Byte
  rep : Fin 50 → ℕ
  replica : Fin 50 → List Byte

/-- The lists `dlist` and `sfile`, and the configuration file. -/
structure Tables extends NodeList where
  sfile : List Filelist

/-- The test of `filelist_search`: the name as it stands or without a closing slash. -/
def Filelist.named (name : List Byte) (f : Filelist) : Bool :=
  f.name == name || f.name == (if name.getLast? = some 47 then name.dropLast else name)

/-- `filelist_search`: the first entry with the name. -/
def filelist_search (t : Tables) (name : List Byte) : Option Filelist :=
  t.sfile.find? (Filelist.named name)

/-- `getRepcreatenum`: the first unused replica. -/
def getRepcreatenum (f : Filelist) : Option (Fin 50) :=
  (List.finRange 50).find? fun i => f.rep i = 0

/-- The loops of `getRepfetchnum` and `getRepfetchnum1`: the first replica that is `wanted` and
whose node answers. -/
def fetchnum (net : Net) (t : Tables) (f : Filelist) (wanted : ℕ → Bool) :
    List (Fin 50) → Except Fault (Option (Fin 50))
  | [] => .ok none
  | i :: rest =>
      if wanted (f.rep i) then
        match datanode_search t.toNodeList (f.replica i) with
        | none => .error .null
        | some dn => if net.alive dn.node then .ok (some i) else fetchnum net t f wanted rest
      else fetchnum net t f wanted rest

/-- `getRepfetchnum`: among the replicas that are in step. -/
def getRepfetchnum (net : Net) (t : Tables) (f : Filelist) : Except Fault (Option (Fin 50)) :=
  fetchnum net t f (· == 1) (List.finRange 50)

/-- `getRepfetchnum1`: among the replicas that are behind. -/
def getRepfetchnum1 (net : Net) (t : Tables) (f : Filelist) : Except Fault (Option (Fin 50)) :=
  fetchnum net t f (1 < ·) (List.finRange 50)

/-- `getfiledn`: the data node for a path, if any, and the lists after the call. -/
def getfiledn (net : Net) (t : Tables) (name : List Byte) :
    Except Fault (Option (List Byte) × Tables) :=
  match filelist_search t name with
  | none => do
      let (found, r) ← fetch_datanode net.alive t.toNodeList
      return (found.map Datanode.node, { t with toNodeList := r })
  | some f => do
      match ← getRepfetchnum net t f with
      | some i => return (some (f.replica i), t)
      | none =>
          match ← getRepfetchnum1 net t f with
          | some i => return (some (f.replica i), t)
          | none => return (none, t)

/-- What `check_nodealive` answers in a call of `getfiledn`: its loops probe the node of a slot at
most once, and so does `fetch_datanode` with the nodes of the list. -/
structure Answers where
  slot : Fin 50 → List Byte → Bool
  node : List Byte → Bool

/-- The loops of `getRepfetchnum` and `getRepfetchnum1` under any answers. -/
def Answers.fetchnum (a : Answers) (t : Tables) (f : Filelist) (wanted : ℕ → Bool) :
    List (Fin 50) → Except Fault (Option (Fin 50))
  | [] => .ok none
  | i :: rest =>
      if wanted (f.rep i) then
        match datanode_search t.toNodeList (f.replica i) with
        | none => .error .null
        | some dn => if a.slot i dn.node then .ok (some i) else a.fetchnum t f wanted rest
      else a.fetchnum t f wanted rest

/-- `getfiledn` under any answers. -/
def Answers.getfiledn (a : Answers) (t : Tables) (name : List Byte) :
    Except Fault (Option (List Byte) × Tables) :=
  match filelist_search t name with
  | none => do
      let (found, r) ← fetch_datanode a.node t.toNodeList
      return (found.map Datanode.node, { t with toNodeList := r })
  | some f => do
      match ← a.fetchnum t f (· == 1) (List.finRange 50) with
      | some i => return (some (f.replica i), t)
      | none =>
          match ← a.fetchnum t f (1 < ·) (List.finRange 50) with
          | some i => return (some (f.replica i), t)
          | none => return (none, t)

/-- The answers of a network that does not change during the call. -/
def Net.answers (net : Net) : Answers := ⟨fun _ => net.alive, net.alive⟩

theorem fetchnum_answers (net : Net) (t : Tables) (f : Filelist) (wanted : ℕ → Bool)
    (is : List (Fin 50)) : fetchnum net t f wanted is = net.answers.fetchnum t f wanted is := by
  induction is with
  | nil => rfl
  | cons i rest ih =>
    rw [fetchnum, Answers.fetchnum, ih]
    rfl

theorem getfiledn_answers (net : Net) (t : Tables) (name : List Byte) :
    getfiledn net t name = net.answers.getfiledn t name := by
  simp only [getfiledn, Answers.getfiledn, getRepfetchnum, getRepfetchnum1, fetchnum_answers]
  rfl

/-- Replica `i` of a file is present on `dn`. -/
def Filelist.present (f : Filelist) (i : Fin 50) (dn : List Byte) : Filelist :=
  { f with rep := Function.update f.rep i 1, replica := Function.update f.replica i dn }

/-- `filenode_insert`: one more replica of `name`, on `dn`.  A file has room for fifty. -/
def filenode_insert (name dn : List Byte) (t : Tables) : Except Fault Tables :=
  if 100 ≤ dn.length then .error .overflow
  else
    match filelist_search t name with
    | none =>
        if 100 ≤ name.length then .error .overflow
        else
          let f : Filelist := ⟨name, fun _ => 0, fun _ => []⟩
          .ok { t with sfile := t.sfile ++ [f.present 0 dn] }
    | some f =>
        match getRepcreatenum f with
        | none => .error .overflow
        | some i =>
            let position := t.sfile.findIdx (Filelist.named name)
            .ok { t with sfile := t.sfile.modify position fun f => f.present i dn }

/-- `datanode_insert`: a data node that reports is entered, or marked alive again. -/
def datanode_insert (name ip : List Byte) (alive : ℤ) (t : Tables) : Except Fault Tables := do
  let t ← filenode_insert DATANODE_DIR name { t with dlist := entered name ip alive t.dlist }
  let (r, _) ← datanode_filewrite t.toNodeList
  return { t with toNodeList := r }

end DistFs.Wire
