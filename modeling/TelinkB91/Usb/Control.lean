import TelinkB91.Lib.ByteMemory
import TelinkB91.Lib.Runs

/-!
# Usb — control transfers

A SETUP packet is answered in packets of eight bytes, one after the SETUP and one in each DATA
stage.  What is still to be sent is kept in `g_response` and `g_response_len`, which outlive the
transfer.  `usb_prepare_desc_data` clears them before it looks for the descriptor;
`usb_handle_std_intf_req` does not, so that a request for which it finds none is answered with what
an earlier transfer has left.

* `stage_setup`, `stage_data`: the packets of a request for a descriptor.
* `answers_alike_iff`: the answer is the same after all histories just when the request is for the
  device, or names a descriptor of an interface, or asks for nothing.
* `left_over`: two histories that are answered differently.

The build is the one of `default_config.h`, without audio interfaces, Microsoft descriptors and
custom reports; which HID interfaces it has is left open.
-/

namespace TelinkB91.Usb.Control
open Runs ByteMemory

abbrev U8 := BitVec 8

abbrev U16 := BitVec 16

/-- `USB_Request_Hdr_t`. -/
structure RequestHdr where
  requestType : U8
  request : U8
  value : U16
  index : U16
  length : U16
  deriving DecidableEq, Repr

def RequestHdr.valueL (p : RequestHdr) : U8 := p.value.setWidth 8

def RequestHdr.valueH (p : RequestHdr) : U8 := (p.value >>> 8).setWidth 8

def RequestHdr.indexL (p : RequestHdr) : U8 := p.index.setWidth 8

/-- Where a descriptor lies, and its size. -/
structure Desc where
  addr : Nat
  size : U16
  deriving DecidableEq, Repr

/-- An interface of the class HID: its number, its HID descriptor and its report descriptor. -/
structure HidIntf where
  number : U8
  hid : Desc
  report : Desc
  deriving DecidableEq, Repr

/-- The descriptors of a build, and the memory they lie in. -/
structure Build where
  memory : Nat → U8
  /-- `usbdesc_get_device`. -/
  deviceDesc : Nat
  configurationDesc : Desc
  languageDesc : Desc
  vendorDesc : Desc
  productDesc : Desc
  serialDesc : Desc
  /-- The interfaces that the `USB_..._ENABLE` switches and `AUDIO_HOGP` turn on. -/
  mouse : Option HidIntf
  keyboard : Option HidIntf
  audioHogp : Option HidIntf
  somatic : Option HidIntf

/-- `sizeof(USB_Descriptor_Device_t)`. -/
def deviceDescSize : U16 := 18#16

def dtypeDevice : U8 := 0x01#8

def dtypeConfiguration : U8 := 0x02#8

def dtypeString : U8 := 0x03#8

def usbStringLanguage : U8 := 0#8

def usbStringVendor : U8 := 1#8

def usbStringProduct : U8 := 2#8

def usbStringSerial : U8 := 3#8

def hidDtypeHid : U8 := 0x21#8

def hidDtypeReport : U8 := 0x22#8

/-- `REQ_GetDescriptor`. -/
def reqGetDescriptor : U8 := 6#8

/-- The values of `RequestType`: direction, type and recipient. -/
def inStdDevice : U8 := 0x80#8

def inStdIntf : U8 := 0x81#8

def outClassIntf : U8 := 0x21#8

def outClassEndp : U8 := 0x22#8

def inClassIntf : U8 := 0xA1#8

def inClassEndp : U8 := 0xA2#8

def outStdIntf : U8 := 0x01#8

/-- `FLD_EP_DAT_ACK` and `FLD_EP_DAT_STALL`. -/
inductive Ctrl where
  | ack
  | stall
  deriving DecidableEq, Repr

/-- The variables of `usb.c`.  `ep` is what has been written to the endpoint since its pointer was
reset. -/
structure CtrlEp where
  hostKeyboardStatus : U8
  controlRequest : RequestHdr
  gResponse : Nat
  gResponseLen : U16
  gStall : Bool
  usbMouseReportProto : U8
  gRate : U8
  ep : List U8
  deriving DecidableEq, Repr

def CtrlEp.boot : CtrlEp := ⟨0#8, ⟨0#8, 0#8, 0#16, 0#16, 0#16⟩, 0, 0#16, false, 0#8, 0#8, []⟩

/-- `usbhw_write_ctrl_ep_data`. -/
def CtrlEp.write (s : CtrlEp) (data : U8) : CtrlEp := { s with ep := s.ep ++ [data] }

/-- `usbhw_reset_ctrl_ep_ptr`. -/
def CtrlEp.resetPtr (s : CtrlEp) : CtrlEp := { s with ep := [] }

/-- The loop of `usb_send_response`. -/
def sendLoop (b : Build) (s : CtrlEp) : Nat → CtrlEp
  | 0 => s
  | n + 1 =>
      sendLoop b { s.write (b.memory s.gResponse) with gResponse := s.gResponse + 1 } n

/-- `usb_send_response`. -/
def usbSendResponse (b : Build) (s : CtrlEp) : CtrlEp :=
  let n := if s.gResponseLen < 8#16 then s.gResponseLen else 8#16
  let s := { s with gResponseLen := s.gResponseLen - n }
  sendLoop b s.resetPtr n.toNat

/-- `g_response` and `g_response_len` set to a descriptor. -/
def CtrlEp.respond (s : CtrlEp) (d : Desc) : CtrlEp :=
  { s with gResponse := d.addr, gResponseLen := d.size }

/-- No more is sent than the host asks for. -/
def CtrlEp.clip (s : CtrlEp) : CtrlEp :=
  if s.controlRequest.length < s.gResponseLen then
    { s with gResponseLen := s.controlRequest.length }
  else s

/-- The `switch` of `usb_prepare_desc_data`. -/
def stdDeviceDesc (b : Build) (p : RequestHdr) : Option Desc :=
  if p.valueH = dtypeDevice then some ⟨b.deviceDesc, deviceDescSize⟩
  else if p.valueH = dtypeConfiguration then some b.configurationDesc
  else if p.valueH = dtypeString then
    if p.valueL = usbStringLanguage then some b.languageDesc
    else if p.valueL = usbStringVendor then some b.vendorDesc
    else if p.valueL = usbStringProduct then some b.productDesc
    else if p.valueL = usbStringSerial then some b.serialDesc
    else none
  else none

/-- `usb_prepare_desc_data`. -/
def usbPrepareDescData (b : Build) (s : CtrlEp) : CtrlEp :=
  let s := s.respond ⟨0, 0#16⟩
  let s :=
    match stdDeviceDesc b s.controlRequest with
    | some d => s.respond d
    | none => { s with gStall := true }
  s.clip

/-- `if (index_l == USB_INTF_...)`, for an interface of the build. -/
def HidIntf.at (i : Option HidIntf) (p : RequestHdr) : Option HidIntf :=
  i.filter fun i => p.indexL = i.number

/-- The `HID_DTYPE_HID` case: a later interface overrides an earlier one. -/
def hidDesc (b : Build) (p : RequestHdr) : Option Desc :=
  [b.mouse, b.keyboard, b.keyboard.bind fun _ => b.audioHogp, b.somatic].foldl
    (fun r i => (HidIntf.at i p).map HidIntf.hid <|> r) none

/-- The `HID_DTYPE_Report` case: the first interface counts. -/
def reportDesc (b : Build) (p : RequestHdr) : Option Desc :=
  ((HidIntf.at b.keyboard p).map HidIntf.report) <|> ((HidIntf.at b.mouse p).map HidIntf.report) <|>
    ((HidIntf.at b.audioHogp p).map HidIntf.report) <|>
      ((HidIntf.at b.somatic p).map HidIntf.report)

/-- `usb_handle_std_intf_req`.  Only the report case stalls, and no case clears the response. -/
def usbHandleStdIntfReq (b : Build) (s : CtrlEp) : CtrlEp :=
  let p := s.controlRequest
  let s :=
    if p.valueH = hidDtypeHid then
      match hidDesc b p with
      | some d => s.respond d
      | none => s
    else if p.valueH = hidDtypeReport then
      match reportDesc b p with
      | some d => s.respond d
      | none => { s with gStall := true }
    else s
  s.clip

/-- `usb_handle_out_class_intf_req`.  `data` is read from the endpoint in a DATA stage. -/
def usbHandleOutClassIntfReq (s : CtrlEp) (data : Option U8) : CtrlEp :=
  let p := s.controlRequest
  if p.request = 0x09#8 then
    -- `HID_REQ_SetReport`, by the type of the report
    if p.valueH = 0#8 ∨ p.valueH = 1#8 then s
    else if p.valueH = 2#8 then { s with hostKeyboardStatus := data.getD s.hostKeyboardStatus }
    else if p.valueH = 3#8 then { s with gStall := true }
    else { s with gStall := true }
  else if p.request = 0x0A#8 then
    -- `HID_REQ_SetIdle`
    { s with gRate := p.valueH }
  else if p.request = 0x0B#8 then
    -- `HID_REQ_SetProtocol`
    { s with usbMouseReportProto := p.valueL }
  else { s with gStall := true }

/-- `usb_handle_in_class_intf_req`. -/
def usbHandleInClassIntfReq (s : CtrlEp) : CtrlEp :=
  let p := s.controlRequest
  if p.request = 0x00#8 then s.write 0x00#8
  else if p.request = 0x01#8 then s
  else if p.request = 0x02#8 then s.write s.gRate
  else if p.request = 0x03#8 then s.write s.usbMouseReportProto
  else { s with gStall := true }

/-- `usb_handle_request`.  `data` is `none` for `USB_IRQ_SETUP_REQ`, and for `USB_IRQ_DATA_REQ`
the first byte in the endpoint. -/
def usbHandleRequest (b : Build) (s : CtrlEp) (data : Option U8) : CtrlEp :=
  let p := s.controlRequest
  let s := s.resetPtr
  if p.requestType = inStdDevice then
    if p.request = reqGetDescriptor then
      usbSendResponse b (if data.isNone then usbPrepareDescData b s else s)
    else s
  else if p.requestType = inStdIntf then
    if p.request = reqGetDescriptor then
      usbSendResponse b (if data.isNone then usbHandleStdIntfReq b s else s)
    else s
  else if p.requestType = outClassIntf then usbHandleOutClassIntfReq s data
  else if p.requestType = outClassEndp then s
  else if p.requestType = inClassIntf then usbHandleInClassIntfReq s
  else if p.requestType = inClassEndp then s
  else if p.requestType = outStdIntf then s
  else { s with gStall := true }

/-- The interrupts of the control endpoint: a SETUP packet, a DATA stage with the first byte in the
endpoint, and a STATUS stage. -/
inductive Stage where
  | setup (p : RequestHdr)
  | data (byte : U8)
  | status
  deriving DecidableEq, Repr

/-- The bytes written to the endpoint and the answer given. -/
abbrev Answer := List U8 × Ctrl

/-- `usbhw_write_ctrl_ep_ctrl`, by `g_stall`. -/
def CtrlEp.ctrl (s : CtrlEp) : Ctrl := if s.gStall then .stall else .ack

/-- `usb_handle_ctl_ep_setup`, `usb_handle_ctl_ep_data` and `usb_handle_ctl_ep_status`. -/
def stage (b : Build) (s : CtrlEp) : Stage → CtrlEp × Answer
  | .setup p =>
      let s := usbHandleRequest b { s.resetPtr with controlRequest := p, gStall := false } none
      (s, (s.ep, s.ctrl))
  | .data byte =>
      let s := usbHandleRequest b { s.resetPtr with gStall := false } (some byte)
      (s, (s.ep, s.ctrl))
  | .status => (s, ([], s.ctrl))

/-! ### Requests for a descriptor -/

/-- A request for a descriptor, to the device or to an interface. -/
def RequestHdr.GetDescriptor (p : RequestHdr) : Prop :=
  (p.requestType = inStdDevice ∨ p.requestType = inStdIntf) ∧ p.request = reqGetDescriptor

instance (p : RequestHdr) : Decidable p.GetDescriptor :=
  inferInstanceAs (Decidable ((_ ∨ _) ∧ _))

/-- `g_response` and `g_response_len` are set for the SETUP packet in `control_request`. -/
def prepare (b : Build) (s : CtrlEp) : CtrlEp :=
  if s.controlRequest.requestType = inStdDevice then usbPrepareDescData b s
  else usbHandleStdIntfReq b s

/-- The bytes of the next packet. -/
def packetLen (len : U16) : Nat := if len < 8#16 then len.toNat else 8

theorem sendLoop_eq (b : Build) (s : CtrlEp) (n : Nat) : sendLoop b s n =
    { s with
      gResponse := s.gResponse + n
      ep := s.ep ++ read b.memory s.gResponse n } := by
  induction n generalizing s with
  | zero =>
      rw [sendLoop, read_zero, List.append_nil]
      rfl
  | succ n ih =>
      rw [sendLoop, ih, read_succ]
      simp only [CtrlEp.write, List.append_assoc, List.singleton_append, Nat.add_assoc,
        Nat.add_comm 1 n]

/-- One packet of the response. -/
theorem usbSendResponse_eq (b : Build) (s : CtrlEp) : usbSendResponse b s =
    { s with
      gResponse := s.gResponse + packetLen s.gResponseLen
      gResponseLen := s.gResponseLen - BitVec.ofNat 16 (packetLen s.gResponseLen)
      ep := read b.memory s.gResponse (packetLen s.gResponseLen) } := by
  rw [usbSendResponse, packetLen]
  split
  · rw [sendLoop_eq, BitVec.ofNat_toNat, BitVec.setWidth_eq]
    rfl
  · rw [sendLoop_eq]
    rfl

/-- The packet after a SETUP. -/
theorem stage_setup {b : Build} {s : CtrlEp} {p : RequestHdr} (hp : p.GetDescriptor) :
    ∃ s₁, s₁ = prepare b { s with controlRequest := p, gStall := false, ep := [] } ∧
      stage b s (.setup p) =
        (usbSendResponse b s₁, ((usbSendResponse b s₁).ep, (usbSendResponse b s₁).ctrl)) := by
  refine ⟨_, rfl, ?_⟩
  obtain ⟨hdevice | hintf, hget⟩ := hp
  · simp [stage, usbHandleRequest, prepare, hdevice, hget, CtrlEp.resetPtr]
  · simp [stage, usbHandleRequest, prepare, hintf, hget, CtrlEp.resetPtr, inStdIntf, inStdDevice]

/-- The packet in a DATA stage. -/
theorem stage_data {b : Build} {s : CtrlEp} (hp : s.controlRequest.GetDescriptor) (byte : U8) :
    stage b s (.data byte) =
      (usbSendResponse b { s with gStall := false, ep := [] },
        ((usbSendResponse b { s with gStall := false, ep := [] }).ep, .ack)) := by
  have hctrl : (usbSendResponse b { s with gStall := false, ep := [] }).ctrl = .ack := by
    rw [usbSendResponse_eq]
    rfl
  obtain ⟨hdevice | hintf, hget⟩ := hp
  · simp [stage, usbHandleRequest, hdevice, hget, CtrlEp.resetPtr, hctrl]
  · simp [stage, usbHandleRequest, hintf, hget, CtrlEp.resetPtr, inStdIntf, inStdDevice, hctrl]

/-! ### Two histories -/

/-- The answers to a SETUP packet and the DATA stages after it, when `history` came before. -/
def answers (b : Build) (history : List Stage) (p : RequestHdr) (ds : List U8) : List Answer :=
  outputs (stage b) (runFrom (fun s i => (stage b s i).1) CtrlEp.boot history)
    (.setup p :: ds.map .data)

/-- The device has a descriptor for the request: it goes to the device, or it names a HID or report
descriptor of an interface. -/
def Named (b : Build) (p : RequestHdr) : Prop :=
  p.requestType = inStdDevice ∨ (p.valueH = hidDtypeHid ∧ (hidDesc b p).isSome) ∨
    (p.valueH = hidDtypeReport ∧ (reportDesc b p).isSome)

instance (b : Build) (p : RequestHdr) : Decidable (Named b p) :=
  inferInstanceAs (Decidable (_ ∨ (_ ∧ _) ∨ (_ ∧ _)))

/-- The next packets will be the same. -/
structure Alike (s t : CtrlEp) : Prop where
  request : s.controlRequest = t.controlRequest
  get : s.controlRequest.GetDescriptor
  stall : s.gStall = t.gStall
  len : s.gResponseLen = t.gResponseLen
  response : s.gResponse = t.gResponse ∨ s.gResponseLen = 0#16

variable {b : Build} {s t : CtrlEp}

theorem Alike.send (h : Alike s t) :
    Alike (usbSendResponse b s) (usbSendResponse b t) ∧
    (usbSendResponse b s).ep = (usbSendResponse b t).ep ∧
    (usbSendResponse b s).ctrl = (usbSendResponse b t).ctrl := by
  obtain ⟨hrequest, hget, hstall, hlen, hresponse⟩ := h
  rw [usbSendResponse_eq, usbSendResponse_eq]
  refine ⟨⟨hrequest, hget, hstall, ?_, ?_⟩, ?_, ?_⟩
  · dsimp only
    rw [hlen]
  · dsimp only
    rcases hresponse with hresponse | hnone
    · rw [hresponse, hlen]
      exact .inl rfl
    · rw [hnone]
      exact .inr rfl
  · dsimp only
    rcases hresponse with hresponse | hnone
    · rw [hresponse, hlen]
    · rw [← hlen, hnone]
      rfl
  · rw [CtrlEp.ctrl, CtrlEp.ctrl, hstall]

/-- **DATA stages** that go on alike are answered alike. -/
theorem Alike.data (h : Alike s t) {ds ds' : List U8} (hlen : ds.length = ds'.length) :
    outputs (stage b) s (ds.map .data) = outputs (stage b) t (ds'.map .data) := by
  induction ds generalizing s t ds' with
  | nil =>
      rw [List.eq_nil_of_length_eq_zero hlen.symm]
      rfl
  | cons d ds ih =>
      obtain ⟨d', ds', rfl⟩ : ∃ d' l, ds' = d' :: l := by
        cases ds' with
        | nil => exact absurd hlen (Nat.succ_ne_zero _)
        | cons d' l => exact ⟨d', l, rfl⟩
      have hget : t.controlRequest.GetDescriptor := h.request ▸ h.get
      have hclean : Alike { s with gStall := false, ep := [] }
          { t with gStall := false, ep := [] } :=
        ⟨h.request, h.get, rfl, h.len, h.response⟩
      obtain ⟨hnext, hep, -⟩ := hclean.send (b := b)
      rw [List.map_cons, List.map_cons, outputs, outputs, stage_data h.get, stage_data hget]
      dsimp only
      rw [hep, ih hnext (Nat.succ.inj hlen)]

/-! ### The response to a request -/

@[simp] theorem CtrlEp.clip_controlRequest : s.clip.controlRequest = s.controlRequest := by
  rw [clip]
  split <;> rfl

@[simp] theorem CtrlEp.clip_gStall : s.clip.gStall = s.gStall := by
  rw [clip]
  split <;> rfl

@[simp] theorem CtrlEp.clip_gResponse : s.clip.gResponse = s.gResponse := by
  rw [clip]
  split <;> rfl

theorem CtrlEp.clip_gResponseLen : s.clip.gResponseLen =
    if s.controlRequest.length < s.gResponseLen then s.controlRequest.length
    else s.gResponseLen := by
  rw [clip]
  split <;> rfl

theorem Alike.clip (h : Alike s t) : Alike s.clip t.clip := by
  refine ⟨?_, ?_, ?_, ?_, ?_⟩
  · simpa using h.request
  · simpa using h.get
  · simpa using h.stall
  · rw [CtrlEp.clip_gResponseLen, CtrlEp.clip_gResponseLen, h.request, h.len]
  · rcases h.response with hresponse | hnone
    · exact .inl (by simpa using hresponse)
    · refine .inr ?_
      rw [CtrlEp.clip_gResponseLen, hnone]
      simp

/-- A host that asks for nothing gets nothing. -/
theorem Alike.clip_zero (hrequest : s.controlRequest = t.controlRequest)
    (hget : s.controlRequest.GetDescriptor) (hstall : s.gStall = t.gStall)
    (hzero : s.controlRequest.length = 0#16) : Alike s.clip t.clip := by
  have hnone (u : CtrlEp) (hu : u.controlRequest.length = 0#16) : u.clip.gResponseLen = 0#16 := by
    rw [CtrlEp.clip_gResponseLen, hu]
    split
    · rfl
    · rename_i hle
      exact BitVec.le_zero_iff.mp (BitVec.not_lt.mp hle)
  refine ⟨by simpa using hrequest, by simpa using hget, by simpa using hstall, ?_, ?_⟩
  · rw [hnone s hzero, hnone t (hrequest ▸ hzero)]
  · exact .inr (hnone s hzero)

/-- **The response to a request.**  It does not depend on what was left before when the request
names a descriptor, or asks for nothing. -/
theorem Alike.prepare (hrequest : s.controlRequest = t.controlRequest)
    (hget : s.controlRequest.GetDescriptor) (hstall : s.gStall = t.gStall)
    (h : Named b s.controlRequest ∨ s.controlRequest.length = 0#16) :
    Alike (prepare b s) (prepare b t) := by
  rw [Control.prepare, Control.prepare, ← hrequest]
  split
  · rename_i hdevice
    rw [usbPrepareDescData, usbPrepareDescData]
    refine Alike.clip ?_
    dsimp only [CtrlEp.respond]
    rw [← hrequest]
    cases stdDeviceDesc b s.controlRequest with
    | none => exact ⟨rfl, hget, rfl, rfl, .inl rfl⟩
    | some d => exact ⟨rfl, hget, hstall, rfl, .inl rfl⟩
  · rename_i hintf
    rw [usbHandleStdIntfReq, usbHandleStdIntfReq, ← hrequest]
    rcases h with hnamed | hzero
    · refine Alike.clip ?_
      rcases hnamed with hdevice | ⟨hhid, hdesc⟩ | ⟨hreport, hdesc⟩
      · exact absurd hdevice hintf
      · obtain ⟨d, hd⟩ := Option.isSome_iff_exists.mp hdesc
        rw [if_pos hhid, if_pos hhid, hd]
        exact ⟨hrequest, hget, hstall, rfl, .inl rfl⟩
      · obtain ⟨d, hd⟩ := Option.isSome_iff_exists.mp hdesc
        have hnot : s.controlRequest.valueH ≠ hidDtypeHid := by
          rw [hreport]
          decide
        rw [if_neg hnot, if_neg hnot, if_pos hreport, if_pos hreport, hd]
        exact ⟨hrequest, hget, hstall, rfl, .inl rfl⟩
    · split_ifs with hhid hreport
      · cases hidDesc b s.controlRequest with
        | none => exact .clip_zero hrequest hget hstall hzero
        | some d => exact .clip_zero hrequest hget hstall hzero
      · cases reportDesc b s.controlRequest with
        | none =>
            refine Alike.clip_zero ?_ hget rfl hzero
            exact hrequest.trans hrequest.symm
        | some d => exact .clip_zero hrequest hget hstall hzero
      · exact .clip_zero hrequest hget hstall hzero

/-- An answer to a request that names a descriptor, or asks for nothing, is the same from all
states. -/
theorem outputs_alike {p : RequestHdr} (hp : p.GetDescriptor)
    (h : Named b p ∨ p.length = 0#16) (s t : CtrlEp) {ds ds' : List U8}
    (hlen : ds.length = ds'.length) :
    outputs (stage b) s (.setup p :: ds.map .data) =
      outputs (stage b) t (.setup p :: ds'.map .data) := by
  obtain ⟨s₁, hs₁, hs⟩ := stage_setup (b := b) (s := s) hp
  obtain ⟨t₁, ht₁, ht⟩ := stage_setup (b := b) (s := t) hp
  have halike : Alike s₁ t₁ := by
    rw [hs₁, ht₁]
    exact Alike.prepare rfl hp rfl h
  obtain ⟨hnext, hep, hctrl⟩ := halike.send (b := b)
  rw [outputs, outputs, hs, ht]
  dsimp only
  rw [hep, hctrl, hnext.data hlen]

/-- A response that is longer than asked for, or as long, is not empty. -/
theorem packet_ne_nil {s : CtrlEp} (h : s.gResponseLen ≠ 0#16) :
    (usbSendResponse b s).ep ≠ [] := by
  have hpos : 0 < packetLen s.gResponseLen := by
    rw [packetLen]
    split
    · exact Nat.pos_of_ne_zero fun hz => h (BitVec.eq_of_toNat_eq hz)
    · exact Nat.zero_lt_succ 7
  rw [usbSendResponse_eq]
  intro hnil
  have hlen := congrArg List.length hnil
  rw [length_read] at hlen
  exact absurd hlen (Nat.ne_of_gt hpos)

/-- A request for which nothing is found goes on with what was left. -/
theorem prepare_unnamed {s : CtrlEp} (h : ¬Named b s.controlRequest) :
    (prepare b s).gResponseLen = s.clip.gResponseLen := by
  rw [Named] at h
  push Not at h
  obtain ⟨hintf, hhid, hreport⟩ := h
  rw [Control.prepare, if_neg hintf, usbHandleStdIntfReq]
  by_cases h₁ : s.controlRequest.valueH = hidDtypeHid
  · have hnone : hidDesc b s.controlRequest = none := by simpa using hhid h₁
    rw [if_pos h₁, hnone]
  · rw [if_neg h₁]
    by_cases h₂ : s.controlRequest.valueH = hidDtypeReport
    · have hnone : reportDesc b s.controlRequest = none := by simpa using hreport h₂
      rw [if_pos h₂, hnone, CtrlEp.clip_gResponseLen, CtrlEp.clip_gResponseLen]
    · rw [if_neg h₂]

/-- The host asks for the device descriptor and gives up after the first packet. -/
def getDevice : RequestHdr := ⟨inStdDevice, reqGetDescriptor, 0x0100#16, 0#16, 18#16⟩

theorem left_by_getDevice (b : Build) :
    (stage b CtrlEp.boot (.setup getDevice)).1.gResponseLen = 10#16 := by
  obtain ⟨s₁, hs₁, hs⟩ := stage_setup (b := b) (s := CtrlEp.boot) (p := getDevice) (by decide)
  have hlen : s₁.gResponseLen = 18#16 := by
    rw [hs₁]
    rfl
  rw [hs, usbSendResponse_eq, hlen]
  rfl

/-- **Answers that depend only on the request.**  A request for a descriptor is answered alike after
all histories just when it goes to the device, names a HID or report descriptor that an interface
has, or asks for no bytes. -/
theorem answers_alike_iff (b : Build) (p : RequestHdr) (n : Nat) (hp : p.GetDescriptor) :
    (∀ (h₁ h₂ : List Stage) (ds₁ ds₂ : List U8), ds₁.length = n → ds₂.length = n →
      answers b h₁ p ds₁ = answers b h₂ p ds₂) ↔ Named b p ∨ p.length = 0#16 := by
  constructor
  · intro hall
    by_contra hnot
    push Not at hnot
    obtain ⟨hunnamed, hasks⟩ := hnot
    -- After a reset nothing is left; after `getDevice` ten bytes are.
    have heq := hall [] [.setup getDevice] (List.replicate n 0#8) (List.replicate n 0#8)
      List.length_replicate List.length_replicate
    have hfirst := congrArg (fun l => l.head?.map Prod.fst) heq
    obtain ⟨s₁, hs₁, hs⟩ := stage_setup (b := b) (s := CtrlEp.boot) hp
    obtain ⟨t₁, ht₁, ht⟩ := stage_setup (b := b)
      (s := (stage b CtrlEp.boot (.setup getDevice)).1) hp
    have hempty : (usbSendResponse b s₁).ep = [] := by
      have hlen : s₁.gResponseLen = 0#16 := by
        rw [hs₁, prepare_unnamed hunnamed, CtrlEp.clip_gResponseLen]
        exact if_neg (by simp [CtrlEp.boot])
      rw [usbSendResponse_eq, hlen]
      rfl
    have hsome : (usbSendResponse b t₁).ep ≠ [] := by
      refine packet_ne_nil ?_
      rw [ht₁, prepare_unnamed hunnamed, CtrlEp.clip_gResponseLen]
      dsimp only
      rw [left_by_getDevice]
      split
      · exact hasks
      · decide
    simp only [answers, outputs, runFrom_nil, runFrom_cons, hs, ht, List.head?_cons,
      Option.map_some, Option.some.injEq] at hfirst
    exact hsome (hfirst.symm.trans hempty)
  · intro h h₁ h₂ ds₁ ds₂ hlen₁ hlen₂
    exact outputs_alike hp h _ _ (hlen₁.trans hlen₂.symm)

/-- A build with a keyboard and a mouse. -/
def kmBuild : Build where
  memory := fun a => BitVec.ofNat 8 a
  deviceDesc := 0
  configurationDesc := ⟨18, 59#16⟩
  languageDesc := ⟨77, 4#16⟩
  vendorDesc := ⟨81, 14#16⟩
  productDesc := ⟨95, 20#16⟩
  serialDesc := ⟨115, 14#16⟩
  mouse := some ⟨1#8, ⟨61, 9#16⟩, ⟨129, 90#16⟩⟩
  keyboard := some ⟨0#8, ⟨36, 9#16⟩, ⟨219, 65#16⟩⟩
  audioHogp := none
  somatic := none

/-- The device descriptor, with two DATA stages. -/
theorem answers_alike_getDevice :
    getDevice.GetDescriptor ∧ ∀ (h₁ h₂ : List Stage) (ds₁ ds₂ : List U8),
      ds₁.length = 2 → ds₂.length = 2 →
        answers kmBuild h₁ getDevice ds₁ = answers kmBuild h₂ getDevice ds₂ :=
  ⟨by decide, (answers_alike_iff kmBuild getDevice 2 (by decide)).mpr (.inl (.inl rfl))⟩

/-- The host asks an interface for its physical descriptor. -/
def getPhysical : RequestHdr := ⟨inStdIntf, reqGetDescriptor, 0x2300#16, 0#16, 8#16⟩

/-- **The rest of an abandoned transfer.**  After a reset the request is answered with an empty
packet, and after `getDevice` with the next eight bytes of the device descriptor. -/
theorem left_over :
    getPhysical.GetDescriptor ∧ answers kmBuild [] getPhysical [] = [([], .ack)] ∧
    answers kmBuild [.setup getDevice] getPhysical [] = [(read kmBuild.memory 8 8, .ack)] ∧
    answers kmBuild [] getPhysical [] ≠ answers kmBuild [.setup getDevice] getPhysical [] := by
  decide +kernel

end TelinkB91.Usb.Control
