import ATCortex.Impl.RingBuffer
import ATCortex.Impl.Stack

/-!
This module contains the data types of `include/ATCortex.h`, `send_msg_handle.h`, `urc_handle.h` and
`extern_msg_handle.c`.
-/

namespace ATCortex

abbrev atcRxBufferSize : Nat := 256
abbrev atcRxLineMaxSize : Nat := 256
abbrev atcRxResponseMax : Nat := 512
abbrev atcPromptStackMaxDepth : Nat := 20

abbrev sendQueueDepth : Nat := 6
abbrev externalApiQueueDepth : Nat := 5

/--
`ATC_TIMEOUT_MAX`: wait forever.
-/
abbrev atcTimeoutMax : UInt32 := 0xFFFFFFFF

inductive AtcResult where
  | success
  | error
  | timeout
  | hardwareError
  deriving DecidableEq, Repr

/--
A non `NULL` pointer to a block of `atc_malloc`, together with what the block contains. A pointer
that may be `NULL` is an `Option`.
-/
structure Block (α : Type) where
  addr : Nat
  val : α
  deriving DecidableEq, Repr

/--
A non `NULL` `atc_cmd_response_handler_t`: `sync_response_handler` or a function of the caller.
-/
inductive ResponseHandler where
  | sync
  | user (id : Nat)
  deriving DecidableEq, Repr

inductive SendTaskStatus where
  | lineRecv
  | prompt
  | binary
  deriving DecidableEq, Repr

/--
`struct send_task`. Semaphores are named by a number, `sync_send_result`, `sync_response_buf` and
`sync_response_length` by the index of a variable of the caller.
-/
structure SendTask where
  data : Option (Block (List Byte)) := none
  length : Nat := 0
  responseHandler : Option ResponseHandler := none
  timeout : UInt32 := 0
  timestamp : UInt32 := 0
  semaphore : Option Nat := none
  syncSendResult : Option Nat := none
  syncResponseBuf : Option Nat := none
  syncResponseLength : Option Nat := none
  prompt : Option (Block (List Byte)) := none
  promptLen : Nat := 0
  needRecvLen : Nat := 0
  status : SendTaskStatus := .lineRecv
  deriving DecidableEq, Repr

/--
`struct urc_handler_entry`, `prefixChars` is its `char prefix[32]`.
-/
structure UrcHandlerEntry where
  id : Int
  prefixChars : Vector Byte 32
  handler : Option Nat
  deriving DecidableEq, Repr

/--
A node of `urc_handler_list` with the entry its `data` points to.
-/
structure UrcNode where
  addr : Nat
  entry : Block UrcHandlerEntry
  deriving DecidableEq, Repr

/--
The block a message of the external API queue carries: `struct urc_register_msg` or
`struct urc_unregister_msg`. `outId` and `outResult` are variables of the caller.
-/
inductive MsgData where
  | urcRegister (entry : UrcHandlerEntry) (outId : Nat)
  | urcUnregister (id : Int) (outResult : Nat)
  deriving DecidableEq, Repr

structure Msg where
  data : Block MsgData
  semaphore : Option Nat
  deriving DecidableEq, Repr

/--
`struct atc_context`. The two queues are FIFO lists, oldest message first.
-/
structure Context where
  rxBuffer : RingBuffer atcRxBufferSize
  externalApiQueue : List Msg
  sendQueue : List SendTask
  urcHandlerList : List UrcNode
  urcNextId : Int
  currentSendTask : Option (Block SendTask)
  lineBuffer : Vector Byte atcRxLineMaxSize
  lineBufferIndex : Nat
  response : Vector Byte atcRxResponseMax
  responseLength : Nat
  byteStack : Stack atcPromptStackMaxDepth
  deriving DecidableEq, Repr

end ATCortex
