import DistFs.CText.Memory
import DistFs.Wire.Operations

/-!
# Reply buffers in memory

What `receiveresponse_client` does to the memory of the client between its two assignments to
`clientreceive_success`: `memset` and `recvfrom` write from the first byte of a reply buffer on, with
lengths of their own.  The globals lie anywhere, but apart from each other.
-/

namespace DistFs.Wire

open CText

/-! ## The globals -/

/-- The globals of `global.h` next to which a reply is received. -/
inductive Global where
  | replybuf (b : Replybuf)
  | datanode_namenode
  | pingsuccess
  | clientreceive_success
deriving DecidableEq, Repr

namespace Global

/-- The size of each global. -/
def size : Global → ℕ
  | .replybuf b => b.size
  | .datanode_namenode => 100
  | .pingsuccess | .clientreceive_success => 4

/-- The globals in the order of `global.h`. -/
def all : List Global :=
  [.replybuf .getattr_buf, .replybuf .readdir_buf, .replybuf (.retbuf .access),
    .replybuf (.retbuf .open_), .replybuf (.retbuf .read), .replybuf (.retbuf .write),
    .replybuf (.retbuf .mknod), .replybuf (.retbuf .truncate), .replybuf .mkdir_buf,
    .replybuf (.retbuf .unlink), .replybuf (.retbuf .rmdir), .replybuf .statvfs_retbuf,
    .replybuf .rename_buf, .replybuf .chmod_buf, .datanode_namenode, .pingsuccess,
    .clientreceive_success]

theorem mem_all (g : Global) : g ∈ all := by
  cases g with
  | replybuf b =>
    cases b with
    | retbuf b => cases b <;> decide
    | _ => decide
  | _ => decide

end Global

/-- Where the globals lie in memory. -/
structure Layout where
  base : Global → ℕ
  apart : ∀ g h, g ≠ h → (Block.mk (base g) g.size).Apart ⟨base h, h.size⟩

namespace Layout

/-- The memory of a global. -/
def block (place : Layout) (g : Global) : Block := ⟨place.base g, g.size⟩

/-- The globals one behind the other, in the order of `global.h`. -/
def declared : Layout where
  base g := ((Global.all.takeWhile (· ≠ g)).map Global.size).sum
  apart g h other := by
    have pairs : ∀ g ∈ Global.all, ∀ h ∈ Global.all, g ≠ h →
        (Block.mk ((Global.all.takeWhile (· ≠ g)).map Global.size).sum g.size).Apart
          ⟨((Global.all.takeWhile (· ≠ h)).map Global.size).sum, h.size⟩ := by
      decide +kernel
    exact pairs g (Global.mem_all g) h (Global.mem_all h) other

end Layout

/-! ## Receiving -/

namespace Replybuf

/-- The length that `receiveresponse_client` passes to `memset`: 0 where it calls none. -/
def clearing : Replybuf → ℕ
  | .getattr_buf => 1000
  | .readdir_buf => 10000
  | .retbuf .access | .retbuf .open_ | .retbuf .read | .retbuf .write | .retbuf .mknod => 0
  | .retbuf .truncate | .retbuf .unlink | .retbuf .rmdir => 100
  | .statvfs_retbuf => 1000
  | .mkdir_buf => 10000
  | .chmod_buf => 10
  | .rename_buf => 10

/-- The length that it passes to `recvfrom`. -/
def receiving : Replybuf → ℕ
  | .getattr_buf => 1000
  | .readdir_buf => 10000
  | .retbuf .read => 10000
  | .retbuf .access | .retbuf .open_ | .retbuf .write | .retbuf .mknod => 100
  | .retbuf .truncate | .retbuf .unlink | .retbuf .rmdir => 100
  | .statvfs_retbuf => 1000
  | .mkdir_buf => 10000
  | .chmod_buf => 10
  | .rename_buf => 10

end Replybuf

/-- The reply buffer of the branch that the chain of `strcmp` calls takes. -/
def replybufOf (COMMAND_NAME : List Byte) : Option Replybuf :=
  (Command.ofText COMMAND_NAME).bind Command.replybuf

/-- `memset` and `recvfrom` on a reply buffer. -/
def Layout.receive (place : Layout) (b : Replybuf) (reply : List Byte) (m : Memory) : Memory :=
  (m.store (place.base (.replybuf b)) (List.replicate b.clearing 0)).store
    (place.base (.replybuf b)) (reply.take b.receiving)

/-- `receiveresponse_client` for the datagram `reply`. -/
def Layout.receiveresponse_client (place : Layout) (COMMAND_NAME reply : List Byte) (m : Memory) :
    Memory :=
  match replybufOf COMMAND_NAME with
  | none => m
  | some b => place.receive b reply m

/-- Only the buffer of the operation is written, and every other global stays as it was. -/
def Confined (COMMAND_NAME reply : List Byte) : Prop :=
  ∀ (place : Layout) (m : Memory),
    (∀ a, (∀ b, replybufOf COMMAND_NAME = some b → ¬ (place.block (.replybuf b)).Contains a) →
      place.receiveresponse_client COMMAND_NAME reply m a = m a) ∧
    ∀ g, (∀ b, replybufOf COMMAND_NAME = some b → g ≠ .replybuf b) →
      (place.receiveresponse_client COMMAND_NAME reply m).contents (place.block g) =
        m.contents (place.block g)

/-- Both lengths stay below the size of the buffer. -/
def Replybuf.Holds (b : Replybuf) (reply : List Byte) : Prop :=
  b.clearing ≤ b.size ∧ (reply.take b.receiving).length ≤ b.size

section Receive

variable {place : Layout} {b : Replybuf} {reply : List Byte} {m m' : Memory} {a : ℕ}

theorem receive_outside (holds : b.Holds reply)
    (outside : ¬ (place.block (.replybuf b)).Contains a) : place.receive b reply m a = m a := by
  obtain ⟨clears, receives⟩ := holds
  unfold Block.Contains Layout.block at outside
  dsimp only [Global.size] at outside
  unfold Layout.receive
  rw [Memory.store_outside, Memory.store_outside]
  · unfold Block.Contains
    dsimp only
    rw [List.length_replicate]
    omega
  · unfold Block.Contains
    dsimp only
    omega

/-- The first byte behind a buffer that is too small no longer depends on what it was. -/
theorem receive_behind (long : ¬ b.Holds reply) (m m' : Memory) :
    place.receive b reply m (place.base (.replybuf b) + b.size) =
      place.receive b reply m' (place.base (.replybuf b) + b.size) := by
  unfold Layout.receive
  by_cases clears : b.clearing ≤ b.size
  · apply Memory.store_inside
    have receives : ¬ (reply.take b.receiving).length ≤ b.size := fun receives =>
      long ⟨clears, receives⟩
    constructor
    · exact Nat.le_add_right _ _
    · dsimp only
      omega
  · apply Memory.store_congr
    apply Memory.store_inside
    constructor
    · exact Nat.le_add_right _ _
    · dsimp only
      rw [List.length_replicate]
      omega

/-- The lengths that `receiveresponse_client` uses are right but for two buffers. -/
theorem holds_iff (b : Replybuf) (reply : List Byte) :
    b.Holds reply ↔ b ≠ .mkdir_buf ∧ (b = .retbuf .read → reply.length ≤ 4096) := by
  unfold Replybuf.Holds
  rw [List.length_take]
  cases b with
  | retbuf b =>
    cases b <;> simp [Replybuf.clearing, Replybuf.receiving, Replybuf.size, Retbuf.size]
  | _ => simp [Replybuf.clearing, Replybuf.receiving, Replybuf.size]

/-- Only in front of the reply to `mkdir` is more cleared than the buffer holds. -/
theorem Replybuf.clearing_le (b : Replybuf) : b.clearing ≤ b.size ↔ b ≠ .mkdir_buf := by
  cases b with
  | retbuf b => cases b <;> decide
  | _ => decide

end Receive

/-! ## Confinement -/

/-- The branch for a command with the name of the operation. -/
theorem replybufOf_text (c : Command) : replybufOf c.text = c.replybuf := by
  unfold replybufOf
  rw [Command.ofText_text]
  rfl

theorem replybufOf_eq {COMMAND_NAME : List Byte} {b : Replybuf}
    (branch : replybufOf COMMAND_NAME = some b) :
    ∃ c : Command, COMMAND_NAME = c.text ∧ c.replybuf = some b := by
  unfold replybufOf at branch
  cases found : Command.ofText COMMAND_NAME with
  | none =>
    rw [found] at branch
    cases branch
  | some c =>
    rw [found] at branch
    exact ⟨c, Command.ofText_eq_some found, branch⟩

/-- An operation writes only its own buffer if and only if that buffer holds what is written. -/
theorem confined_iff_holds (COMMAND_NAME reply : List Byte) :
    Confined COMMAND_NAME reply ↔
      ∀ b, replybufOf COMMAND_NAME = some b → b.Holds reply := by
  constructor
  · intro confined b branch
    by_contra long
    have kept (m : Memory) : Layout.declared.receive b reply m
        (Layout.declared.base (.replybuf b) + b.size) =
          m (Layout.declared.base (.replybuf b) + b.size) := by
      have outside := (confined Layout.declared m).1
        (Layout.declared.base (.replybuf b) + b.size)
      unfold Layout.receiveresponse_client at outside
      rw [branch] at outside
      apply outside
      intro b' same
      cases same
      exact fun inside => absurd inside.2 (Nat.lt_irrefl _)
    have same := @receive_behind .declared b reply long (fun _ => 0) (fun _ => 1)
    rw [kept, kept] at same
    exact absurd same (by decide)
  · intro holds place m
    have outside (a : ℕ)
        (other : ∀ b, replybufOf COMMAND_NAME = some b →
          ¬ (place.block (.replybuf b)).Contains a) :
        place.receiveresponse_client COMMAND_NAME reply m a = m a := by
      unfold Layout.receiveresponse_client
      cases branch : replybufOf COMMAND_NAME with
      | none => rfl
      | some b => exact receive_outside (holds b branch) (other b branch)
    refine ⟨outside, fun g other => ?_⟩
    apply Memory.contents_congr
    intro a inside
    apply outside
    intro b branch
    exact (place.apart (.replybuf b) g (other b branch).symm).not_contains inside

/-- A reply is received in the buffer of its operation and nowhere else, except for `mkdir` and for
long replies to `read`. -/
theorem confined_iff (COMMAND_NAME reply : List Byte) :
    Confined COMMAND_NAME reply ↔
      COMMAND_NAME ≠ Command.text .mkdir ∧
        (COMMAND_NAME = Command.text .read → reply.length ≤ 4096) := by
  rw [confined_iff_holds]
  constructor
  · intro holds
    constructor
    · rintro rfl
      have := (holds_iff _ _).1 (holds .mkdir_buf (replybufOf_text .mkdir))
      exact this.1 rfl
    · rintro rfl
      have := (holds_iff _ _).1 (holds (.retbuf .read) (replybufOf_text .read))
      exact this.2 rfl
  · rintro ⟨noMkdir, short⟩ b branch
    obtain ⟨c, rfl, buffer⟩ := replybufOf_eq branch
    rw [holds_iff]
    constructor
    · rintro rfl
      cases c <;> cases buffer
      exact noMkdir rfl
    · rintro rfl
      cases c <;> cases buffer
      exact short rfl

/-- The answer to a successful `mkdir` clears the buffer of `unlink`, among others. -/
theorem mkdirReply_spills : ¬ Confined (Command.text .mkdir) (sendresponse_mkdir 0 0) := by
  intro confined
  have kept := (confined .declared fun _ => 1).2 (.replybuf (.retbuf .unlink)) (by
    intro b branch
    rw [replybufOf_text] at branch
    cases branch
    decide)
  have first := congrArg List.head? kept
  revert first
  unfold Layout.receiveresponse_client
  rw [replybufOf_text]
  decide

/-- A file of 4090 bytes, read whole, spills over too. -/
example : 4096 < (sendresponse_read (some (4090, List.replicate 4090 120)) 0).length := by
  decide +kernel

end DistFs.Wire
