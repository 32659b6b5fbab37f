import Lyr.Fs.TmpfsFile

set_option autoImplicit false

namespace Lyr.Fs

open Lyr.Lib Lyr.Mm

section Read

variable {outside : Nat → Prop} {s : Tmpfs} (owned : s.Owned outside) {id : Nat} {node : TmpfsNode} (found : s.nodes id = some node)
include owned found

theorem read_page_op {pos length : Nat} (fits : pos % 4096 + length ≤ 4096) :
    readPage s node (pos / 4096) (pos % 4096) length = .ok (loadBytes (s.byteAt id) pos length) := by
  have within : ∀ i, i < length → (pos + i) / 4096 = pos / 4096 ∧ (pos + i) % 4096 = pos % 4096 + i := by omega
  have hole : s.pageAt id (pos / 4096) = none → List.replicate length 0 = loadBytes (s.byteAt id) pos length := by
    intro empty
    apply List.ext_getElem
    · rw [List.length_replicate, load_bytes_length]
    intro i _ short
    rw [load_bytes_length] at short
    simp [loadBytes, byte_at_hole (by rw [(within i short).1]; exact empty)]
  rw [readPage]
  split
  · cases mine : node.pages with
    | none =>
      have cap := owned.null id node found mine
      have fits := owned.capped id node found
      omega
    | some a =>
      obtain ⟨entries, stored⟩ := Option.ne_none_iff_exists'.mp (owned.pointer id node a found mine)
      have here : s.pageAt id (pos / 4096) = entries (pos / 4096) := by
        rw [page_at_node _ found, Tmpfs.entries, mine, Option.bind_some, stored, Option.bind_some]
      rw [(array_ok s (some a) entries).mpr ⟨a, rfl, stored⟩]
      simp only [bind, Except.bind]
      cases entry : entries (pos / 4096) with
      | none => exact congrArg Except.ok (hole (here.trans entry))
      | some page =>
        refine congrArg Except.ok (load_bytes_congr (fun i inside => ?_))
        obtain ⟨block, place⟩ := within i inside
        rw [byte_at_page (by rw [block, here, entry]), place, Nat.add_assoc]
  refine congrArg Except.ok (hole ?_)
  cases here : s.pageAt id (pos / 4096) with
  | none => rfl
  | some p =>
    have := owned.counted id node _ p found here
    omega

theorem read_loop_op {fuel : Nat} (pos todo : Nat) (enough : todo ≤ fuel) (small : pos + todo < 2 ^ 64) :
    readLoop s node fuel pos todo = .ok (loadBytes (s.byteAt id) pos todo) := by
  induction fuel generalizing pos todo with
  | zero =>
    obtain rfl : todo = 0 := by omega
    rfl
  | succ fuel ih =>
    rw [readLoop]
    split
    · rename_i empty
      rw [empty, load_bytes_zero]
    have taken := chunk_le 4096 pos todo
    have some := chunk_pos 4096 pos todo (by omega) (by omega)
    have within : pos % 4096 + chunk 4096 pos todo ≤ 4096 := by
      rw [chunk]
      omega
    simp only [read_page_op owned found within, bind, Except.bind]
    rw [Nat.mod_eq_of_lt (by omega), ih _ _ (by omega) (by omega)]
    refine congrArg Except.ok ?_
    rw [← load_bytes_add, show chunk 4096 pos todo + (todo - chunk 4096 pos todo) = todo by omega]

end Read

variable {outside : Nat → Prop} {id : Nat}

theorem tmpfs_read_op {s : Tmpfs} (owned : s.Owned outside) {f : ByteFile} (holds : Holds s id f)
    (small : f.size < 2 ^ 64) (off len : Nat) : tmpfsRead s id off len = .ok (.ok (f.read off len)) := by
  obtain ⟨node, found, regular, size⟩ := holds.node
  rw [tmpfsRead, node_found found]
  simp only [bind, Except.bind, regular, Bool.not_true, Bool.false_eq_true, if_false]
  rw [ByteFile.read, ← size, ← show s.byteAt id = f.byte from funext holds.bytes]
  split
  · rw [show min len (node.size - off) = 0 by omega, load_bytes_zero]
  · rw [read_loop_op owned found off _ (Nat.le_refl _) (by omega)]

inductive FileCall where
  | write (off : Nat) (data : List UInt8)
  | truncate (size : Nat)
  | read (off len : Nat)
deriving DecidableEq, Repr

def FileCall.step (id : Nat) (state : Tmpfs × ByteFile) : FileCall → Result (Tmpfs × ByteFile)
  | .write off data => do
    let (s, _) ← tmpfsWrite state.1 contractInPlace id off data
    .ok (s, state.2.write off data)
  | .truncate size => do
    let (s, _) ← tmpfsTruncate state.1 contractInPlace id size
    .ok (s, state.2.truncate size)
  | .read off len => do
    let _ ← tmpfsRead state.1 id off len
    .ok state

def FileCall.Small : FileCall → Prop
  | .write off data => off + data.length < 2 ^ 63
  | .truncate size => size < 2 ^ 63
  | .read off len => off + len < 2 ^ 63

instance (call : FileCall) : Decidable call.Small :=
  match call with
  | .write .. | .truncate _ | .read .. => Nat.decLt _ _

structure Agrees (id : Nat) (state : Tmpfs × ByteFile) : Prop where
  reads : ∀ off len, tmpfsRead state.1 id off len = .ok (.ok (state.2.read off len))
  tail : ∀ node k, state.1.nodes id = some node → node.size ≤ k → state.1.byteAt id k = 0

structure Backed (outside : Nat → Prop) (id : Nat) (state : Tmpfs × ByteFile) : Prop where
  owned : state.1.Owned outside
  holds : Holds state.1 id state.2
  small : state.2.size < 2 ^ 63

theorem backed_agrees (state : Tmpfs × ByteFile) (backed : Backed outside id state) : Agrees id state := by
  refine ⟨tmpfs_read_op backed.owned backed.holds (by have := backed.small; omega), fun node k found beyond => ?_⟩
  obtain ⟨known, stored, _, size⟩ := backed.holds.node
  cases found.symm.trans stored
  rw [backed.holds.bytes]
  exact state.2.beyond k (by omega)

theorem file_call_op {state : Tmpfs × ByteFile} {call : FileCall} (backed : Backed outside id state)
    (small : call.Small) : Ends (call.step id state) (Backed outside id) (fun failure => failure = .outOfMemory) := by
  have fits := backed.small
  cases call with
  | write off data =>
    refine ends_bind (tmpfs_write_op backed.owned contract_moves backed.holds (Nat.le_of_lt small)) ?_
    rintro ⟨s, result⟩ ⟨updated, _⟩
    exact ⟨updated.owned, updated.holds, Nat.max_lt.mpr ⟨fits, small⟩⟩
  | truncate size =>
    refine ends_bind (tmpfs_truncate_op backed.owned contract_moves backed.holds (Nat.le_of_lt small)) ?_
    rintro ⟨s, result⟩ ⟨updated, _⟩
    exact ⟨updated.owned, updated.holds, small⟩
  | read off len =>
    rw [FileCall.step, tmpfs_read_op backed.owned backed.holds (by omega) off len]
    exact backed

theorem tmpfs_refines_byte_file (outside : Nat → Prop) (s : Tmpfs) (id : Nat) (f : ByteFile) (owned : s.Owned outside)
    (holds : Holds s id f)
    (small : f.size < 2 ^ 63) (calls : List FileCall) (offsets : ∀ call ∈ calls, call.Small) :
    Always (FileCall.step id) (Agrees id) (s, f) calls ∧
      Ends (run (FileCall.step id) (s, f) calls) (Agrees id) (fun failure => failure = .outOfMemory) := by
  have start : Backed outside id (s, f) := ⟨owned, holds, small⟩
  exact ends_run (fun state call backed short => file_call_op backed short) start backed_agrees (permitted_all (s, f) offsets)

def freshFile : Tmpfs where
  machine :=
    { maxPfn := 7
      free := [1, 2, 3, 4]
      used := fun _ => none
      mem := fun _ => 0
      kernelPtable := 0
      mmioRegions := [] }
  nodes id := if id = 0 then some ⟨vfsSIfreg, 0, 0, 0, 1, 1, none, [], [], none, 0, 0, page_cap_zero⟩ else none
  arrays _ := none
  nextNode := 1
  nextArray := 0

theorem fresh_file_owned : freshFile.Owned (fun _ => False) := by
  refine bare_owned (fun _ => rfl) (fun id node found => ?_) ⟨by decide, by decide, fun _ _ => rfl, fun p use used => by cases used⟩
    (fun p => ⟨fun used => used rfl, False.elim⟩) (fun id below => if_neg (by simp only [freshFile] at below; omega))
  by_cases first : id = 0
  · simp only [freshFile, if_pos first, Option.some.injEq] at found
    exact found ▸ ⟨rfl, rfl, rfl⟩
  · simp [freshFile, first] at found

def fileCalls : List FileCall := [.write 4094 [1, 2, 3, 4], .truncate 4095, .truncate 9000, .write 4096 [7], .read 4090 8]

theorem file_calls_refine :
    Always (FileCall.step 0) (Agrees 0) (freshFile, ByteFile.empty) fileCalls ∧
      Ends (run (FileCall.step 0) (freshFile, ByteFile.empty) fileCalls) (Agrees 0) (fun failure => failure = .outOfMemory) :=
  tmpfs_refines_byte_file (fun _ => False) freshFile 0 ByteFile.empty fresh_file_owned
    ⟨⟨_, rfl, by decide, rfl⟩, fun _ => rfl⟩ (by decide) fileCalls (by decide)

example : (run (FileCall.step 0) (freshFile, ByteFile.empty) fileCalls).map (fun state => state.2.read 4090 8) =
    .ok [0, 0, 0, 0, 1, 0, 7, 0] := by decide +kernel

end Lyr.Fs
