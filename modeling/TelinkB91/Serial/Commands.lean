import TelinkB91.Serial.Transmit

/-!
# Serial — commands of the MCU

A frame is a command: its identifier, the length of its parameters and the parameters.
`bls_uart_handler` gets a pointer to the frame and a length, and does not look at that length.  Each
command reads the parameters it has, and some hand a part of the frame to the stack: advertising
data, an address, a name, the data of a notification.

The handler runs in `Parse`, which keeps the offsets that were read.  What the stack answers is an
input.

* `Cmd.frame_iff`: what one command needs of a frame.
* `commands_in_frame_iff`: the bytes used are those received just when the frame is as long as its
  command needs, and a notification has its handle.
* `reply_in_retPara`: the event that answers is inside its buffer.
* `notify_behind`: a notification that has one parameter.
-/

namespace TelinkB91.Serial
open ByteMemory Fifo Ring

abbrev U16 := BitVec 16

/-- The commands of `spp.h`, and the others. -/
inductive Cmd where
  | setAdvIntv
  | setAdvData
  | setAdvEnable
  | getBufSize
  | setAdvType
  | setAdvAddrType
  | addWhiteLstEntry
  | delWhiteLstEntry
  | rstWhiteLst
  | setFltPolicy
  | setDevName
  | getConnPara
  | setConnPara
  | getCurState
  | terminate
  | restartMod
  | setAdvDirectAddr
  | sendNotifyData
  | other
  deriving DecidableEq, Repr

/-- The command of an identifier. -/
def Cmd.ofId (sppCmd : U16) : Cmd :=
  if sppCmd = 0xFF01#16 then .setAdvIntv
  else if sppCmd = 0xFF02#16 then .setAdvData
  else if sppCmd = 0xFF0A#16 then .setAdvEnable
  else if sppCmd = 0xFF0C#16 then .getBufSize
  else if sppCmd = 0xFF0D#16 then .setAdvType
  else if sppCmd = 0xFF0E#16 then .setAdvAddrType
  else if sppCmd = 0xFF19#16 then .setAdvDirectAddr
  else if sppCmd = 0xFF0F#16 then .addWhiteLstEntry
  else if sppCmd = 0xFF10#16 then .delWhiteLstEntry
  else if sppCmd = 0xFF11#16 then .rstWhiteLst
  else if sppCmd = 0xFF12#16 then .setFltPolicy
  else if sppCmd = 0xFF13#16 then .setDevName
  else if sppCmd = 0xFF14#16 then .getConnPara
  else if sppCmd = 0xFF15#16 then .setConnPara
  else if sppCmd = 0xFF16#16 then .getCurState
  else if sppCmd = 0xFF17#16 then .terminate
  else if sppCmd = 0xFF18#16 then .restartMod
  else if sppCmd = 0xFF1C#16 then .sendNotifyData
  else .other

/-- A call of the stack.  A pointer into the frame is an offset. -/
inductive StackCall where
  | setAdvInterval (intervalMin intervalMax : U16)
  | setAdvData (data : Nat) (len : U8)
  | setAdvEnable (advEnable : U8)
  | readBufferSize
  | whiteListAdd (type : U8) (addr : Nat)
  | whiteListDelete (type : U8) (addr : Nat)
  | whiteListReset
  | setAdvFilterPolicy (advFilterPolicy : U8)
  | setDeviceName (pName : Nat) (len : U8)
  | getConnectionParameters
  | requestConnParamUpdate (minInterval maxInterval latency timeout : U16)
  | getCurrentState
  | terminateConnection (reason : U8)
  | pushHandleValueNotify (connHandle attHandle : U16) (p : Nat) (len : Int)
  deriving DecidableEq, Repr

/-- The part of the frame that a call gets, by its offset and length.  An address has six bytes. -/
def StackCall.part : StackCall → Option (Nat × Int)
  | .setAdvData data len => some (data, len.toNat)
  | .whiteListAdd _ addr | .whiteListDelete _ addr => some (addr, 6)
  | .setDeviceName pName len => some (pName, len.toNat)
  | .pushHandleValueNotify _ _ p len => some (p, len)
  | _ => none

/-- What the stack answers: the result of the call, `r[2]` of the buffer size, the parameters of the
connection and the state. -/
structure Answers where
  status : U8
  bufferNum : U8
  interval : U16
  latency : U16
  timeout : U16
  state : U8

/-- What a command leaves: `paramLen` and the first bytes of `param`, the calls it has made, and
whether `spp_cmd_restart_flag` is set. -/
structure Reply where
  paramLen : U8
  param : List U8
  calls : List StackCall
  restart : Bool

def bleSuccess : U8 := 0#8

/-- `HCI_ERR_INVALID_HCI_CMD_PARAMS`. -/
def hciErrInvalidHciCmdParams : U8 := 0x12#8

/-- `HCI_ERR_REMOTE_USER_TERM_CONN`. -/
def hciErrRemoteUserTermConn : U8 := 0x13#8

/-- `LL_ERR_CONNECTION_NOT_ESTABLISH`. -/
def llErrConnectionNotEstablish : U8 := 0x80#8

/-- `BLS_CONN_HANDLE`. -/
def blsConnHandle : U16 := 0x40#16

/-- The default reply, with a status. -/
def Reply.of (status : U8) (calls : List StackCall) : Reply := ⟨3#8, [status], calls, false⟩

/-! ### The handler -/

/-- The offsets that were read, in order. -/
abbrev Parse := StateM (List Nat)

/-- `p[i]`. -/
def byteAt (p : Memory) (i : Nat) : Parse U8 := fun reads => (p i, reads ++ [i])

/-- Two bytes, the low one first. -/
def wordAt (p : Memory) (i : Nat) : Parse U16 := do
  let lo ← byteAt p i
  let hi ← byteAt p (i + 1)
  return lo.setWidth 16 ||| hi.setWidth 16 <<< 8

/-- The offset of `cmdPara[i]`. -/
def para (i : Nat) : Nat := 4 + i

/-- `pCmd->paramLen`. -/
def paramLen (p : Memory) : Parse U16 := wordAt p 2

/-- The branch of a command. -/
def Cmd.run (a : Answers) (p : Memory) : Cmd → Parse Reply
  | .setAdvIntv => do
      let interval ← byteAt p (para 0)
      return .of a.status [.setAdvInterval (interval.setWidth 16) (interval.setWidth 16)]
  | .setAdvData => do
      let len ← paramLen p
      return .of a.status [.setAdvData (para 0) (len.setWidth 8)]
  | .setAdvEnable => do
      let advEnable ← byteAt p (para 0)
      return .of a.status [.setAdvEnable advEnable]
  | .getBufSize => return ⟨4#8, [a.status, a.bufferNum], [.readBufferSize], false⟩
  | .setAdvType | .setAdvAddrType | .setAdvDirectAddr | .other => return .of bleSuccess []
  | .addWhiteLstEntry => do
      let type ← byteAt p (para 0)
      return .of a.status [.whiteListAdd type (para 1)]
  | .delWhiteLstEntry => do
      let type ← byteAt p (para 0)
      return .of a.status [.whiteListDelete type (para 1)]
  | .rstWhiteLst => return .of a.status [.whiteListReset]
  | .setFltPolicy => do
      let policy ← byteAt p (para 0)
      return .of a.status [.setAdvFilterPolicy policy]
  | .setDevName => do
      let len ← byteAt p 2
      return .of a.status [.setDeviceName (para 0) len]
  | .getConnPara =>
      if a.interval ≠ 0#16 then
        return ⟨9#8, [bleSuccess, a.interval.setWidth 8, (a.interval >>> 8).setWidth 8,
          a.latency.setWidth 8, (a.latency >>> 8).setWidth 8, a.timeout.setWidth 8,
          (a.timeout >>> 8).setWidth 8], [.getConnectionParameters], false⟩
      else return ⟨9#8, [llErrConnectionNotEstablish], [.getConnectionParameters], false⟩
  | .setConnPara => do
      let intervalMin ← wordAt p (para 0)
      let intervalMax ← wordAt p (para 2)
      let latency ← wordAt p (para 4)
      let timeout ← wordAt p (para 6)
      return .of bleSuccess [.requestConnParamUpdate intervalMin intervalMax latency timeout]
  | .getCurState => return ⟨4#8, [bleSuccess, a.state], [.getCurrentState], false⟩
  | .terminate => return .of bleSuccess [.terminateConnection hciErrRemoteUserTermConn]
  | .restartMod => return ⟨3#8, [bleSuccess], [], true⟩
  | .sendNotifyData => do
      let len ← paramLen p
      if len > 42#16 then return .of hciErrInvalidHciCmdParams []
      else do
        let handle ← wordAt p (para 0)
        let len ← paramLen p
        return .of a.status
          [.pushHandleValueNotify blsConnHandle handle (para 2) ((len.toNat : Int) - 2)]

/-- The bytes of `retPara` for a command, before the zeros: token, `paramLen`, `eventId`,
`param`. -/
def retPara (sppCmd : U16) (r : Reply) : List U8 :=
  let eventId := sppCmd &&& 0x3ff#16 ||| 0x400#16
  [0xFF#8, r.paramLen, eventId.setWidth 8, (eventId >>> 8).setWidth 8] ++ r.param

/-- What a frame makes the handler do: the offsets it reads, the reply, and the event it sends. -/
structure Handled where
  reads : List Nat
  reply : Reply
  pEvt : List U8

/-- `bls_uart_handler` up to `spp_send_data`.  The length of the frame is not used. -/
def blsUartHandler (a : Answers) (p : Memory) : Handled :=
  let parse : Parse (U16 × Reply) := do
    let sppCmd ← wordAt p 0
    let reply ← (Cmd.ofId sppCmd).run a p
    return (sppCmd, reply)
  let ((sppCmd, reply), reads) := parse []
  ⟨reads, reply, retPara sppCmd reply⟩

/-- `bls_uart_handler`. -/
def Tx.handleCommand (s : Tx) (a : Answers) (p : Memory) : Tx :=
  (sppSendData s hciFlagEventTlkModule fun i => (blsUartHandler a p).pEvt[i]?.getD 0#8).1

/-! ### What is used of the frame -/

/-- Only the first `n` bytes are used: the offsets read are below `n`, and so is what the stack
gets, which has no negative length. -/
structure InFrame (h : Handled) (n : Int) : Prop where
  reads : ∀ i ∈ h.reads, (i : Int) < n
  parts : ∀ c ∈ h.reply.calls, ∀ s, c.part = some s → 0 ≤ s.2 ∧ s.1 + s.2 ≤ n

/-- The identifier and the length in a frame. -/
def idOf (p : Memory) : U16 := (p 0).setWidth 16 ||| (p 1).setWidth 16 <<< 8

def paramLenOf (p : Memory) : U16 := (p 2).setWidth 16 ||| (p 3).setWidth 16 <<< 8

/-- The frame has the bytes that its command uses.  A notification that is not refused has the two
bytes of its handle. -/
def Cmd.Enough (p : Memory) (n : Int) : Cmd → Prop
  | .setAdvIntv | .setAdvEnable | .setFltPolicy => 5 ≤ n
  | .setAdvData => 4 + ((paramLenOf p).toNat % 256 : Nat) ≤ n
  | .addWhiteLstEntry | .delWhiteLstEntry => 11 ≤ n
  | .setDevName => 4 + ((p 2).toNat : Int) ≤ n
  | .setConnPara => 12 ≤ n
  | .sendNotifyData => if paramLenOf p > 42#16 then 4 ≤ n
      else 2 ≤ (paramLenOf p).toNat ∧ 4 + ((paramLenOf p).toNat : Int) ≤ n
  | _ => 2 ≤ n

instance (p : Memory) (n : Int) : (c : Cmd) → Decidable (c.Enough p n)
  | .sendNotifyData => by unfold Cmd.Enough; infer_instance
  | .setAdvIntv | .setAdvEnable | .setFltPolicy | .setAdvData | .addWhiteLstEntry
  | .delWhiteLstEntry | .setDevName | .setConnPara | .getBufSize | .setAdvType | .setAdvAddrType
  | .rstWhiteLst | .getConnPara | .getCurState | .terminate | .restartMod | .setAdvDirectAddr
  | .other => inferInstanceAs (Decidable (_ ≤ _))

/-- The frame of a command, with the two bytes of the identifier read. -/
def Cmd.handled (a : Answers) (p : Memory) (c : Cmd) : Handled :=
  ⟨(c.run a p [0, 1]).2, (c.run a p [0, 1]).1, retPara (idOf p) (c.run a p [0, 1]).1⟩

theorem blsUartHandler_eq (a : Answers) (p : Memory) :
    blsUartHandler a p = (Cmd.ofId (idOf p)).handled a p := rfl

/-- By the offsets and the parts. -/
theorem inFrame_iff {h : Handled} {n : Int} (reads : List Nat) (parts : List (Nat × Int))
    (hreads : h.reads = reads) (hparts : h.reply.calls.filterMap StackCall.part = parts) :
    InFrame h n ↔ (∀ i ∈ reads, (i : Int) < n) ∧ ∀ s ∈ parts, 0 ≤ s.2 ∧ s.1 + s.2 ≤ n := by
  subst hreads hparts
  constructor
  · rintro ⟨hreads, hparts⟩
    refine ⟨hreads, fun s hs => ?_⟩
    obtain ⟨c, hc, hcs⟩ := List.mem_filterMap.mp hs
    exact hparts c hc s hcs
  · rintro ⟨hreads, hparts⟩
    exact ⟨hreads, fun c hc s hcs => hparts s (List.mem_filterMap.mpr ⟨c, hc, hcs⟩)⟩

section commands

variable {a : Answers} {p : Memory} {n : Int}

/-- A command that reads no parameter. -/
theorem inFrame_id {h : Handled} (hreads : h.reads = [0, 1])
    (hparts : h.reply.calls.filterMap StackCall.part = []) : InFrame h n ↔ 2 ≤ n := by
  rw [inFrame_iff _ _ hreads hparts]
  simp
  omega

/-- A command that reads the first one. -/
theorem inFrame_first {h : Handled} (hreads : h.reads = [0, 1, 4])
    (hparts : h.reply.calls.filterMap StackCall.part = []) : InFrame h n ↔ 5 ≤ n := by
  rw [inFrame_iff _ _ hreads hparts]
  simp
  omega

/-- A command that reads the type of an address and hands the address on. -/
theorem inFrame_address {h : Handled} (hreads : h.reads = [0, 1, 4])
    (hparts : h.reply.calls.filterMap StackCall.part = [(5, 6)]) : InFrame h n ↔ 11 ≤ n := by
  rw [inFrame_iff _ _ hreads hparts]
  simp
  omega

theorem inFrame_advData : InFrame (Cmd.setAdvData.handled a p) n ↔ Cmd.setAdvData.Enough p n := by
  have hlen : ((paramLenOf p).setWidth 8).toNat = (paramLenOf p).toNat % 256 :=
    BitVec.toNat_setWidth ..
  rw [inFrame_iff [0, 1, 2, 3] [(4, ((paramLenOf p).setWidth 8).toNat)] rfl rfl, hlen, Cmd.Enough]
  simp
  omega

theorem inFrame_devName : InFrame (Cmd.setDevName.handled a p) n ↔ Cmd.setDevName.Enough p n := by
  rw [inFrame_iff [0, 1, 2] [(4, (p 2).toNat)] rfl rfl, Cmd.Enough]
  simp
  omega

theorem inFrame_connPara :
    InFrame (Cmd.setConnPara.handled a p) n ↔ Cmd.setConnPara.Enough p n := by
  rw [inFrame_iff [0, 1, 4, 5, 6, 7, 8, 9, 10, 11] [] rfl rfl, Cmd.Enough]
  simp
  omega

/-- The connection is asked for, and nothing is read. -/
theorem inFrame_getConnPara :
    InFrame (Cmd.getConnPara.handled a p) n ↔ Cmd.getConnPara.Enough p n := by
  have hrun : ∃ r, Cmd.getConnPara.run a p [0, 1] = (r, [0, 1]) ∧
      r.calls = [.getConnectionParameters] := by
    rw [Cmd.run]
    split_ifs
    · exact ⟨_, rfl, rfl⟩
    · exact ⟨_, rfl, rfl⟩
  obtain ⟨r, hrun, hcalls⟩ := hrun
  refine inFrame_id ?_ ?_
  · rw [Cmd.handled, hrun]
  · rw [Cmd.handled, hrun, hcalls]
    rfl

/-- A notification that is refused is not looked at further. -/
theorem run_notify_long (h : paramLenOf p > 42#16) : Cmd.sendNotifyData.run a p [0, 1] =
    (.of hciErrInvalidHciCmdParams [], [0, 1, 2, 3]) :=
  congrFun (if_pos h) [0, 1, 2, 3]

theorem run_notify (h : ¬paramLenOf p > 42#16) : Cmd.sendNotifyData.run a p [0, 1] =
    (.of a.status
      [.pushHandleValueNotify blsConnHandle ((p 4).setWidth 16 ||| (p 5).setWidth 16 <<< 8) 6
        (((paramLenOf p).toNat : Int) - 2)], [0, 1, 2, 3, 4, 5, 2, 3]) :=
  congrFun (if_neg h) [0, 1, 2, 3]

theorem inFrame_notify :
    InFrame (Cmd.sendNotifyData.handled a p) n ↔ Cmd.sendNotifyData.Enough p n := by
  rw [Cmd.Enough]
  split_ifs with hlong
  · have hparts : (Cmd.sendNotifyData.handled a p).reply.calls.filterMap StackCall.part = [] := by
      rw [Cmd.handled, run_notify_long hlong]
      rfl
    rw [inFrame_iff [0, 1, 2, 3] _ (by rw [Cmd.handled, run_notify_long hlong]) hparts]
    simp
    omega
  · have hparts : (Cmd.sendNotifyData.handled a p).reply.calls.filterMap StackCall.part =
        [(6, ((paramLenOf p).toNat : Int) - 2)] := by
      rw [Cmd.handled, run_notify hlong]
      rfl
    rw [inFrame_iff [0, 1, 2, 3, 4, 5, 2, 3] _ (by rw [Cmd.handled, run_notify hlong]) hparts]
    simp
    omega

/-- **One command.** -/
theorem Cmd.frame_iff (c : Cmd) : InFrame (c.handled a p) n ↔ c.Enough p n := by
  cases c with
  | setAdvIntv | setAdvEnable | setFltPolicy => exact inFrame_first rfl rfl
  | setAdvData => exact inFrame_advData
  | addWhiteLstEntry | delWhiteLstEntry => exact inFrame_address rfl rfl
  | setDevName => exact inFrame_devName
  | setConnPara => exact inFrame_connPara
  | sendNotifyData => exact inFrame_notify
  | getConnPara => exact inFrame_getConnPara
  | getBufSize | setAdvType | setAdvAddrType | setAdvDirectAddr | rstWhiteLst | getCurState
  | terminate | restartMod | other => exact inFrame_id rfl rfl

end commands

/-! ### The answer -/

/-- All of the parameters is sent, and it is no more than nine bytes with the identifier. -/
structure Reply.Short (r : Reply) : Prop where
  sent : r.param.length + 2 ≤ r.paramLen.toNat
  short : r.paramLen.toNat ≤ 9

theorem Reply.short_of (status : U8) (calls : List StackCall) : (Reply.of status calls).Short :=
  ⟨le_rfl, Nat.le_of_ble_eq_true rfl⟩

theorem Cmd.short_reply (a : Answers) (p : Memory) (c : Cmd) : (c.run a p [0, 1]).1.Short := by
  cases c with
  | getConnPara =>
      rw [Cmd.run]
      split_ifs
      · exact ⟨le_rfl, le_rfl⟩
      · exact ⟨Nat.le_of_ble_eq_true rfl, le_rfl⟩
  | sendNotifyData =>
      by_cases hlong : paramLenOf p > 42#16
      · rw [run_notify_long hlong]
        exact Reply.short_of _ _
      · rw [run_notify hlong]
        exact Reply.short_of _ _
  | getBufSize | getCurState | restartMod => exact ⟨le_rfl, Nat.le_of_ble_eq_true rfl⟩
  | _ => exact Reply.short_of _ _

/-- The event is inside the 20 bytes of `retPara`, with all of it that is sent. -/
theorem reply_in_retPara (a : Answers) (p : Memory) :
    (blsUartHandler a p).pEvt.length ≤ 20 ∧ (blsUartHandler a p).reply.paramLen.toNat + 2 ≤ 20 := by
  have hshort : (blsUartHandler a p).reply.Short := Cmd.short_reply a p _
  obtain ⟨hsent, hle⟩ := hshort
  have hlength : (blsUartHandler a p).pEvt.length = (blsUartHandler a p).reply.param.length + 4 :=
    rfl
  omega

/-- **Every frame is answered.**  Where the transmitter has a free slot, the event is accepted. -/
theorem reply_accepted {s : Tx} (hsize : s.sys.fifo.size = sppTxfifoSize)
    (hspace : occupied s.sys.fifo.rptr s.sys.fifo.wptr < s.sys.fifo.num) (a : Answers)
    (p : Memory) : ∃ e, (s.handleCommand a p).accepted = s.accepted ++ [e] ∧
      e.length = (blsUartHandler a p).reply.paramLen.toNat + 2 := by
  have hlen : (blsUartHandler a p).pEvt[1]?.getD 0#8 = (blsUartHandler a p).reply.paramLen := rfl
  have hroom : (blsUartHandler a p).reply.paramLen.toNat + 4 < s.sys.fifo.size := by
    have hle := (reply_in_retPara a p).2
    have hlt : (20 : Nat) + 2 < sppTxfifoSize := by decide
    omega
  have hheader : hciFlagEventTlkModule &&& hciFlagEventTlkModule ≠ 0#32 := by decide
  refine ⟨eventAt fun i => (blsUartHandler a p).pEvt[i]?.getD 0#8, ?_, ?_⟩
  · rw [Tx.handleCommand, sppSendData_accepted hheader hspace hroom]
  · rw [length_eventAt, hlen]

/-- **The bytes of a frame.**  The handler uses the first `n` bytes at `p`, and no others, just when
they are enough for the command that they begin with. -/
theorem commands_in_frame_iff (a : Answers) (p : Memory) (n : Int) :
    InFrame (blsUartHandler a p) n ↔ (Cmd.ofId (idOf p)).Enough p n := by
  rw [blsUartHandler_eq]
  exact Cmd.frame_iff _

/-- The stack answers with zeros. -/
def Answers.zero : Answers := ⟨0#8, 0#8, 0#16, 0#16, 0#16, 0#8⟩

/-- The frame `bs` in its slot. -/
def frameOf (bs : List U8) : Memory := fun i => bs[i]?.getD 0#8

/-- **A notification with one parameter.**  Half of its handle is behind the frame, and the length
of its data is -1. -/
theorem notify_behind : ¬∀ (a : Answers) (frame : List U8),
    InFrame (blsUartHandler a (frameOf frame)) frame.length := by
  intro h
  have hreads := (h .zero [0x1C#8, 0xFF#8, 1#8, 0#8, 0x11#8]).reads 5 (by decide)
  exact absurd hreads (by decide)

end TelinkB91.Serial
