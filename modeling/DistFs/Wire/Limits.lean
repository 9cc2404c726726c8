import DistFs.Wire.Requests

/-!
# Requests and the buffers on their way

A request passes through `my_path`, the buffer of `sendcommand`, `buf2` of the name node, the buffer
of `sendcommand` again and the receive buffer of the data node.  No operation refuses a request:
each writes what it has to say, and only its length decides whether it stays inside these buffers.
-/

namespace DistFs.Wire

open CText

namespace Op

/-- The characters that an operation appends to its (first) path in `my_path`. -/
def appended : Op → ℕ
  | .getattr _ | .readdir _ | .unlink _ | .rmdir _ | .statfs _ => 0
  | .access _ x | .mkdir _ x | .chmod _ x | .truncate _ x | .open_ _ x => (snprintf 10 x).length + 1
  | .mknod _ x y => (snprintf 10 x).length + (snprintf 10 y).length + 3
  | .read _ x y => (snprintf 10 x).length + (snprintf 10 y).length + 2
  | .rename _ to_ => tmp_path.length + to_.bytes.length + 1
  | .write _ buf x y => (snprintf 10 x).length + (snprintf 10 y).length + (cstr buf).length + 3

/-- The length of the request. -/
def requestLength (op : Op) : ℕ := tmp_path.length + op.path.bytes.length + op.appended

/-- The request is built inside `my_path` and composed inside the buffer of `sendcommand`; the name
node puts the host in front of it inside `buf2` and composes the message inside the buffer of
`sendcommand`; and the data node receives all of this in its 1000 bytes. -/
def PassesWhole (host : Host) (op : Op) : Prop :=
  ∃ r, op.request = .ok r ∧ ∀ net namenode dn, net.known namenode = true → net.known dn = true →
    ∃ M datagram, sendcommand net namenode r.path r.command = .ok (some M) ∧
      (host.name ++ comma :: cstr M).length < 1000 ∧
      sendcommand net dn (host.name ++ comma :: cstr M) r.command = .ok (some datagram) ∧
      datagram = framed r.command host M ∧ datagram.take 1000 = datagram

/-- `my_path` has room for the request; behind the two command names, the host and three commas the
datagram has room for a `write`. -/
def InBounds (host : Host) : Op → Prop
  | .write path buf size offset =>
      (write path buf size offset).requestLength + host.name.length + 13 < 1000
  | op => op.requestLength < 100

end Op

section Limits

variable {net : Net} {host : Host} {op : Op} {r : Request}

/-- The command of a request always fits a buffer of 1000 bytes that the request fits. -/
theorem sendcommand_length {node path d : List Byte} {cmd : Command}
    (h : sendcommand net node path cmd = .ok (some d)) : d.length < 1000 := by
  rw [sendcommand] at h
  split_ifs at h with unknown fits
  · cases h
  · cases h
    exact fits

/-- The buffer of an operation and the length of what it puts there. -/
theorem request_shape (op : Op) : ∃ c p,
    op.request = request (if op.command = .write then 10000 else 100) c p ∧
      p.length = op.requestLength ∧ (op.command = .write → c = .write) := by
  cases op with
  | getattr | readdir | unlink | rmdir | statfs =>
    refine ⟨_, _, rfl, ?_, by simp [Op.command]⟩
    simp only [Op.requestLength, Op.appended, Op.path, my_path, List.length_append, Nat.add_zero]
  | access | mkdir | chmod | open_ | rename =>
    refine ⟨_, _, rfl, ?_, by simp [Op.command]⟩
    simp only [Op.requestLength, Op.appended, Op.path, my_path, List.length_append,
      List.length_cons]
  | truncate | mknod | read | write =>
    refine ⟨_, _, rfl, ?_, by simp [Op.command]⟩
    simp only [Op.requestLength, Op.appended, Op.path, my_path, List.length_append,
      List.length_cons, List.length_nil]
    omega

/-- A request that fits all buffers between the programs. -/
theorem passesWhole_of_fits (built : op.request = .ok r)
    (fits : (framed r.command host (r.command.text ++ comma :: r.path)).length < 1000) :
    op.PassesWhole host := by
  refine ⟨r, built, fun net namenode dn knownName knownData => ?_⟩
  have noNul := message_noNul built
  have whole := fits
  rw [framed_length] at whole
  have message : (r.command.text ++ comma :: r.path).length < 1000 := by omega
  have buf2 : (host.name ++ comma :: (r.command.text ++ comma :: r.path)).length < 1000 := by
    rw [List.length_append, List.length_cons]
    omega
  refine ⟨r.command.text ++ comma :: r.path, framed r.command host _, sendcommand_ok knownName message,
    ?_, ?_, rfl, List.take_of_length_le fits.le⟩
  · rwa [cstr_of_noNul noNul]
  · rw [cstr_of_noNul noNul]
    exact sendcommand_ok knownData fits

/-- A datagram that gets through was composed inside the last buffer. -/
theorem fits_of_passesWhole (passes : op.PassesWhole host) : ∃ r, op.request = .ok r ∧
    (framed r.command host (r.command.text ++ comma :: r.path)).length < 1000 := by
  obtain ⟨r, built, hops⟩ := passes
  obtain ⟨M, datagram, sent, -, forwarded, rfl, -⟩ := hops upNet [] [] rfl rfl
  obtain rfl := sendcommand_eq sent
  exact ⟨r, built, sendcommand_length forwarded⟩

/-- A request gets to the data node whole if and only if its length is in bounds. -/
theorem passesWhole_iff (host : Host) (op : Op) : op.PassesWhole host ↔ op.InBounds host := by
  obtain ⟨c, p, shape, length, writes⟩ := request_shape op
  by_cases write : op.command = .write
  · rw [if_pos write, writes write] at shape
    have name : Command.text .write = [119, 114, 105, 116, 101] := by decide
    have five : (Command.text .write).length = 5 := by rw [name]; rfl
    have bound : op.InBounds host ↔ op.requestLength + host.name.length + 13 < 1000 := by
      cases op with
      | write => rfl
      | _ => cases write
    have total : (framed .write host (Command.text .write ++ comma :: p)).length =
        op.requestLength + host.name.length + 13 := by
      rw [framed_length, List.length_append, List.length_cons, five, length]
      omega
    rw [bound, ← total]
    constructor
    · intro passes
      obtain ⟨r, built, fits⟩ := fits_of_passesWhole passes
      rw [shape, request_eq_ok] at built
      rwa [built.2] at fits
    · intro fits
      have small : p.length < 10000 := by
        rw [total] at fits
        omega
      exact passesWhole_of_fits (shape.trans (request_eq_ok.2 ⟨small, rfl⟩)) fits
  · rw [if_neg write] at shape
    have bound : op.InBounds host ↔ op.requestLength < 100 := by
      cases op with
      | write => exact absurd rfl write
      | _ => rfl
    rw [bound, ← length]
    constructor
    · rintro ⟨r, built, -⟩
      rw [shape, request_eq_ok] at built
      exact built.1
    · intro small
      have built := shape.trans (request_eq_ok.2 ⟨small, rfl⟩)
      exact passesWhole_of_fits built (framed_fits host built write)

end Limits

/-- A write of a thousand bytes. -/
def longWrite : Op := .write ⟨str "/f", by decide +kernel⟩ (List.replicate 1000 120) 1000 0

/-- Its path fits the request of `my_getattr`, and its payload is not longer than allowed. -/
theorem longWrite_overflows : (∃ r, my_getattr longWrite.path = .ok r) ∧
    ¬ longWrite.PassesWhole oneHost := by
  constructor
  · refine ⟨_, request_eq_ok.2 ⟨?_, rfl⟩⟩
    decide
  · intro passes
    obtain ⟨r, built, fits⟩ := fits_of_passesWhole passes
    obtain ⟨c, p, shape, length, -⟩ := request_shape longWrite
    rw [shape, request_eq_ok] at built
    rw [built.2, framed_length, List.length_append, List.length_cons, length] at fits
    have long : 1000 ≤ longWrite.requestLength := by decide +kernel
    omega

/-- A rename between two paths of fifty characters on the data node. -/
def longRename : Op :=
  .rename ⟨str "/aaaaaaaaaabbbbbbbbbbcccccccccc", by decide +kernel⟩
    ⟨str "/aaaaaaaaaabbbbbbbbbbdddddddddd", by decide +kernel⟩

example : longRename.request = .error .overflow := by
  decide

end DistFs.Wire
