import Mathlib.Data.List.Basic

/-! The state machines of free-space and allocated-space chunks: metadata_manager/space_chunk_fsm.c. -/
namespace DiscoClient

/-- fschunk_TRevent_t. -/
inductive FsChunkEvent where
  | allocSpace
  | allocDone
  | invalidateSpace
  | reportFree
  | cleanSpace
  deriving DecidableEq, Repr

/-- fschunk_action_t. -/
inductive FsChunkAction where
  | noAction
  | doAlloc
  | doInval
  | doReport
  | doClean
  | doRetry
  deriving DecidableEq, Repr

/-- fschunk_stat_t. -/
inductive FsChunkStat where
  | init
  | free
  | allocating
  | invalidated
  | reporting
  | removable
  deriving DecidableEq, Repr

/-- fs_chunkStat_fsm_t. -/
structure FsChunkFsm where
  chunkStat : FsChunkStat
  numAllocating : Int
  deriving DecidableEq, Repr

def initFschunkStateFsm : FsChunkFsm := ⟨.free, 0⟩

def updateFschunkState (f : FsChunkFsm) (event : FsChunkEvent) : FsChunkFsm × FsChunkAction :=
  match f.chunkStat, event with
  | .free, .allocSpace => (⟨.allocating, f.numAllocating + 1⟩, .doAlloc)
  | .free, .invalidateSpace => ({ f with chunkStat := .invalidated }, .doInval)
  | .allocating, .allocSpace => (⟨.allocating, f.numAllocating + 1⟩, .doAlloc)
  | .allocating, .allocDone =>
    if f.numAllocating - 1 = 0 then (⟨.free, f.numAllocating - 1⟩, .noAction)
    else (⟨.allocating, f.numAllocating - 1⟩, .noAction)
  | .allocating, .invalidateSpace => (f, .doRetry)
  | .invalidated, .reportFree => ({ f with chunkStat := .reporting }, .doReport)
  | .reporting, .cleanSpace => ({ f with chunkStat := .removable }, .doClean)
  | _, _ => (f, .noAction)

/-- aschunk_TRevent_t. -/
inductive AsChunkEvent where
  | commit
  | flushSpace
  | cleanSpace
  deriving DecidableEq, Repr

/-- aschunk_action_t. -/
inductive AsChunkAction where
  | noAction
  | doCommit
  | doFlush
  | doClean
  deriving DecidableEq, Repr

/-- aschunk_stat_t. -/
inductive AsChunkStat where
  | init
  | allocated
  | committed
  | flushing
  | removable
  deriving DecidableEq, Repr

def updateAschunkState : AsChunkStat → AsChunkEvent → AsChunkStat × AsChunkAction
  | .allocated, .commit => (.committed, .doCommit)
  | .committed, .flushSpace => (.flushing, .doFlush)
  | .flushing, .cleanSpace => (.removable, .doClean)
  | st, _ => (st, .noAction)

end DiscoClient
