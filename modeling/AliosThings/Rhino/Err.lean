import Mathlib.Init

/-!
# Status codes of the Rhino kernel

`kstat_t` of `k_err.h`, without the `RHINO_` prefix. The numeric values play no
part in the kernel's logic, only their being distinct does.
-/

namespace AliosThings.Rhino

inductive Kstat where
  | success
  | sysFatalErr
  | sysSpErr
  | running
  | stopped
  | invParam
  | nullPtr
  | invAlign
  | kobjTypeErr
  | kobjDelErr
  | mmPoolSizeErr
  | noMem
  | ringbufFull
  | ringbufEmpty
  | schedDisable
  | schedAlreadyEnabled
  | schedLockCountOvf
  | invSchedWay
  | taskInvStackSize
  | taskNotSuspended
  | taskDelNotAllowed
  | taskSuspendNotAllowed
  | suspendedCountOvf
  | beyondMaxPri
  | priChgNotAllowed
  | invTaskState
  | idleTaskExist
  | noPendWait
  | blkAbort
  | blkTimeout
  | blkDel
  | blkInvState
  | blkPoolSizeErr
  | noThisEventOpt
  | bufQueueSizeZero
  | bufQueueFull
  | bufQueueMsgSizeOverflow
  | queueFull
  | queueNotFull
  | semOvf
  | semTaskWaiting
  | mutexNotReleasedByOwner
  | mutexOwnerNested
  | mutexNestedOvf
  | notCalledByIntrpt
  | workqueueExist
  | workqueueWorkExist
  | workqueueWorkRunning
  deriving DecidableEq, Repr

end AliosThings.Rhino
