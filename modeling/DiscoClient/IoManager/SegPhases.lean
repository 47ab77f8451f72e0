import DiscoClient.IoManager.SegRequest
import DiscoClient.Lib.Countdown

namespace DiscoClient

namespace SegCall

def commitOf : SegCall → Option (Bool × Nat)
  | .commitUser r n => some (r, n)
  | .ioDone _ => none

def doneLbs : SegCall → Option Nat
  | .commitUser _ _ => none
  | .ioDone n => some n

@[simp] theorem commitOf_commitUser (r : Bool) (n : Nat) : commitOf (.commitUser r n) = some (r, n) := rfl

@[simp] theorem commitOf_ioDone (n : Nat) : commitOf (.ioDone n) = none := rfl

@[simp] theorem doneLbs_commitUser (r : Bool) (n : Nat) : doneLbs (.commitUser r n) = none := rfl

@[simp] theorem doneLbs_ioDone (n : Nat) : doneLbs (.ioDone n) = some n := rfl

end SegCall

namespace SegReq

def commits (s : SegReq) : List Nat := (s.calls.filterMap SegCall.commitOf).map Prod.snd

/-- The LB counts the segment has called ioReq_IODone_endfn with. -/
def dones (s : SegReq) : List Nat := s.calls.filterMap SegCall.doneLbs

def invalLeft (s : SegReq) : List Nat :=
  ((s.metaData.drop s.invalIdx).filter fun md => !md.isValid).map (·.numHbids)

def undelivered (s : SegReq) : List Nat := s.reads ++ s.invalLeft

def LoopIdle (s : SegReq) : Prop :=
  ∀ i, s.invalIdx ≤ i → i < s.invalEnd → ∃ md, s.metaData[i]? = some md ∧ md.isValid = true

def Quiet (s : SegReq) : Prop :=
  s.acquiring = false ∧ s.reads = [] ∧ s.ciUsers = [] ∧ s.ends = [] ∧ s.invalEnd ≤ s.invalIdx

structure Acquiring (s : SegReq) : Prop where
  acquiring : s.acquiring = true
  stat : s.stat = if s.opcode = .read then .rAcqMD else .wAcqMD
  dir : s.opcode = .write → s.dirTrue = .write
  reads : s.reads = []
  ciUsers : s.ciUsers = []
  ends : s.ends = []
  loop : s.invalIdx = s.invalEnd
  ciUser : s.ciUser = false
  userRemain : s.ciUserRemain = s.lbLen
  mdsRemain : s.ciMdsRemain = s.lbLen
  result : s.ciUserResult = true
  calls : s.calls = []
  fault : s.fault = false
  single : s.opcode = .read → s.dirTrue = .write → s.lbLen = 1

structure Delivering (taken : Nat) (s : SegReq) : Prop where
  acquiring : s.acquiring = false
  stat : s.stat = .rUD
  ciUser : s.ciUser = false
  userRemain : s.ciUserRemain = s.undelivered.sum + taken
  mdsRemain : s.ciMdsRemain = if s.dirTrue = .read then s.ciUserRemain else s.lbLen
  result : s.dirTrue = .write → s.ciUserResult = true
  reads_pos : ∀ a ∈ s.reads, 0 < a
  ciUsers : s.ciUsers = []
  ends : s.ends = []
  calls : s.calls = []
  cover : (s.metaData.map (·.numHbids)).sum = s.lbLen
  loop_le : s.invalIdx ≤ s.invalEnd
  loop_end : s.invalEnd = s.metaData.length ∨ s.invalEnd = 0 ∧ s.invalLeft = []
  fault : s.fault = false
  single : s.dirTrue = .write → s.lbLen = 1 ∧ (s.reads = [] ∨ s.invalEnd = 0)

structure Writing (s : SegReq) : Prop where
  acquiring : s.acquiring = false
  reads : s.reads = []
  stat : s.stat = if s.ends = [] then .ci2IoR else .wUD
  ciUser : s.ciUser = decide (s.ciUsers = [])
  userRemain : s.ciUserRemain = s.ciUsers.sum
  mdsRemain : s.ciMdsRemain = s.ends.sum
  ciUsers_pos : ∀ a ∈ s.ciUsers, 0 < a
  ends_pos : ∀ a ∈ s.ends, 0 < a
  commits : s.commits = if s.ciUsers = [] then [s.lbLen] else []
  dones : s.dones = if s.ends = [] then [s.lbLen] else []
  loop : s.LoopIdle
  fault : s.fault = false

structure Finished (s : SegReq) : Prop where
  acquiring : s.acquiring = false
  reads : s.reads = []
  ciUsers : s.ciUsers = []
  ends : s.ends = []
  commits : s.commits = [s.lbLen]
  dones : s.dones = [s.lbLen]
  loop : s.LoopIdle
  fault : s.fault = false

inductive Phase (s : SegReq) : Prop where
  | acquiring (h : s.Acquiring)
  | reading (h : s.Delivering 0) (hne : s.undelivered ≠ [])
  | writing (h : s.Writing)
  | finished (h : s.Finished)

theorem invalLeft_pos (s : SegReq) : ∀ a ∈ s.invalLeft, 0 < a := by
  intro a ha
  obtain ⟨md, -, rfl⟩ := List.mem_map.mp ha
  exact md.pos

theorem start_acquiring {lbLen : Nat} {dir : IoDir} (isOvw : Bool) {is4KAlign : Bool}
    (hsingle : dir = .write → is4KAlign = false → lbLen = 1) : (start lbLen dir isOvw is4KAlign).Acquiring := by
  have hread : (start lbLen dir isOvw is4KAlign).opcode = .read → dir = .write → is4KAlign = false := by
    cases dir <;> cases is4KAlign <;> simp [start]
  cases dir <;> cases is4KAlign <;>
    exact ⟨rfl, rfl, by simp [start], rfl, rfl, rfl, rfl, rfl, rfl, rfl, rfl, rfl, rfl,
      fun hop hdir => hsingle hdir (hread hop hdir)⟩

end SegReq
end DiscoClient
