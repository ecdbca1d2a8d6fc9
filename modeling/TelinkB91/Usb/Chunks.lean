import TelinkB91.Lib.Framing
import TelinkB91.Usb.Control

/-!
# Usb — the packets of a descriptor

The answer to a request for a descriptor of the device is cut into packets of eight bytes: one for
the SETUP packet and one for each DATA stage.

* `chunks_data`: what the DATA stages send of the response that is left.
* `descriptor_in_chunks`: the packets of a transfer, for all lengths the host may ask for.
-/

namespace TelinkB91.Usb.Control
open Runs ByteMemory Framing

/-- What is written to the endpoint for a SETUP packet and in each of the DATA stages after it. -/
def packets (b : Build) (s : CtrlEp) (p : RequestHdr) (ds : List U8) : List (List U8) :=
  (outputs (stage b) s (.setup p :: ds.map .data)).map Prod.fst

/-- The bytes of the response that are still to be sent. -/
def CtrlEp.rest (b : Build) (s : CtrlEp) : List U8 :=
  read b.memory s.gResponse s.gResponseLen.toNat

theorem packetLen_eq (len : U16) : packetLen len = min 8 len.toNat := by
  rw [packetLen]
  split
  · rename_i hlt
    exact (Nat.min_eq_right (Nat.le_of_lt hlt)).symm
  · rename_i hge
    exact (Nat.min_eq_left (BitVec.not_lt.mp hge)).symm

/-- A packet takes the front of the response. -/
theorem ep_usbSendResponse (b : Build) (s : CtrlEp) :
    (usbSendResponse b s).ep = (s.rest b).take 8 := by
  rw [usbSendResponse_eq, CtrlEp.rest, take_read, packetLen_eq]

theorem rest_usbSendResponse (b : Build) (s : CtrlEp) :
    (usbSendResponse b s).rest b = (s.rest b).drop 8 := by
  have hle : BitVec.ofNat 16 (packetLen s.gResponseLen) ≤ s.gResponseLen := by
    rw [packetLen_eq, BitVec.le_def, BitVec.toNat_ofNat]
    exact Nat.le_trans (Nat.mod_le _ _) (Nat.min_le_right _ _)
  rw [CtrlEp.rest, CtrlEp.rest, drop_read, usbSendResponse_eq]
  dsimp only
  rw [BitVec.toNat_sub_of_le hle, packetLen_eq, BitVec.toNat_ofNat]
  rcases Nat.le_total 8 s.gResponseLen.toNat with h | h
  · rw [Nat.min_eq_left h]
  · have hmod : s.gResponseLen.toNat % 2 ^ 16 = s.gResponseLen.toNat :=
      Nat.mod_eq_of_lt s.gResponseLen.isLt
    rw [Nat.min_eq_right h, hmod, Nat.sub_self, Nat.sub_eq_zero_of_le h, read_zero, read_zero]

/-- **The DATA stages** send what is left, eight bytes in each. -/
theorem chunks_data {b : Build} {s : CtrlEp} (hp : s.controlRequest.GetDescriptor) (ds : List U8) :
    (outputs (stage b) s (ds.map .data)).map Prod.fst = chunks 8 (s.rest b) ds.length := by
  induction ds generalizing s with
  | nil => rfl
  | cons d ds ih =>
      have hnext : (usbSendResponse b { s with gStall := false, ep := [] }).controlRequest =
          s.controlRequest := by
        rw [usbSendResponse_eq]
      rw [List.map_cons, outputs, List.map_cons, stage_data hp, List.length_cons, chunks]
      dsimp only
      rw [ih (hnext.symm ▸ hp), ep_usbSendResponse, rest_usbSendResponse]
      rfl

theorem toNat_clip (s : CtrlEp) : s.clip.gResponseLen.toNat =
    min s.gResponseLen.toNat s.controlRequest.length.toNat := by
  rw [CtrlEp.clip_gResponseLen]
  split
  · rename_i hlt
    exact (Nat.min_eq_right (Nat.le_of_lt hlt)).symm
  · rename_i hge
    exact (Nat.min_eq_left (BitVec.not_lt.mp hge)).symm

/-- What a request to the device prepares: the descriptor, but no more than is asked for. -/
theorem rest_prepare {b : Build} {s : CtrlEp} {d : Desc}
    (hdevice : s.controlRequest.requestType = inStdDevice)
    (hd : stdDeviceDesc b s.controlRequest = some d) :
    (prepare b s).rest b =
      read b.memory d.addr (min d.size.toNat s.controlRequest.length.toNat) := by
  have hprepare : prepare b s = (s.respond d).clip := by
    rw [prepare, if_pos hdevice, usbPrepareDescData]
    dsimp only [CtrlEp.respond]
    rw [hd]
  rw [hprepare, CtrlEp.rest, CtrlEp.clip_gResponse, toNat_clip]
  rfl

/-- The packets of a transfer are those of the descriptor. -/
theorem packets_eq {b : Build} {p : RequestHdr} {d : Desc} (hdevice : p.requestType = inStdDevice)
    (hget : p.request = reqGetDescriptor) (hd : stdDeviceDesc b p = some d) (s : CtrlEp)
    (ds : List U8) : packets b s p ds =
      chunks 8 (read b.memory d.addr (min d.size.toNat p.length.toNat)) (ds.length + 1) := by
  have hp : p.GetDescriptor := ⟨.inl hdevice, hget⟩
  obtain ⟨s₁, hs₁, hs⟩ := stage_setup (b := b) (s := s) hp
  have hrequest : s₁.controlRequest = p := by
    rw [hs₁, prepare, if_pos hdevice, usbPrepareDescData, CtrlEp.clip_controlRequest]
    dsimp only [CtrlEp.respond]
    rw [hd]
  have hrest : s₁.rest b = read b.memory d.addr (min d.size.toNat p.length.toNat) := by
    rw [hs₁]
    exact rest_prepare hdevice hd
  have hnext : (usbSendResponse b s₁).controlRequest = p := by
    rw [usbSendResponse_eq]
    exact hrequest
  rw [packets, outputs, List.map_cons, hs]
  dsimp only
  rw [chunks_data (hnext.symm ▸ hp), ep_usbSendResponse, rest_usbSendResponse, hrest]
  rfl

/-- **A descriptor in packets.**  From every state, whatever length the host asks for and however
many DATA stages follow: the packets are the first bytes of the descriptor, as many as the host asks
for and there are.  None has more than eight bytes, those before a packet that is not empty have
eight, and behind the end they are empty.  Nothing but those bytes of the memory is read. -/
theorem descriptor_in_chunks (b : Build) (s : CtrlEp) (p : RequestHdr) (d : Desc) (ds : List U8)
    (hdevice : p.requestType = inStdDevice) (hget : p.request = reqGetDescriptor)
    (hd : stdDeviceDesc b p = some d) :
    let n := min d.size.toNat p.length.toNat
    let out := packets b s p ds
    out.length = ds.length + 1 ∧
    out.flatten = (read b.memory d.addr n).take (8 * (ds.length + 1)) ∧
    (n ≤ 8 * (ds.length + 1) → out.flatten = read b.memory d.addr n) ∧
    (∀ c ∈ out, c.length ≤ 8) ∧
    (∀ (i j : Nat) (c c' : List U8), i < j → out[i]? = some c → out[j]? = some c' → c' ≠ [] →
      c.length = 8) ∧
    (∀ (i : Nat) (c : List U8), n ≤ 8 * i → out[i]? = some c → c = []) ∧
    (∀ m, (∀ x, d.addr ≤ x → x < d.addr + n → m x = b.memory x) →
      packets { b with memory := m } s p ds = out) := by
  intro n out
  have hout : out = chunks 8 (read b.memory d.addr n) (ds.length + 1) :=
    packets_eq hdevice hget hd s ds
  have hflat : out.flatten = (read b.memory d.addr n).take (8 * (ds.length + 1)) := by
    rw [hout, flatten_chunks]
  refine ⟨?_, hflat, ?_, ?_, ?_, ?_, ?_⟩
  · rw [hout, length_chunks]
  · intro henough
    rw [hflat]
    exact List.take_of_length_le (by rw [length_read]; exact henough)
  · intro c hc
    rw [hout] at hc
    exact length_chunk hc
  · intro i j c c' hij hi hj hne
    rw [hout] at hi hj
    exact chunk_full hij hi hj hne
  · intro i c hend hi
    rw [hout] at hi
    exact chunk_nil hi (by rw [length_read]; exact hend)
  · intro m hm
    rw [hout, packets_eq (b := { b with memory := m }) hdevice hget hd s ds]
    exact congrArg (chunks 8 · _) (read_congr hm)

/-- The device descriptor, of which the host asks for 18 bytes, after a transfer that was given up.
There are three packets, of 8, 8 and 2 bytes, and an empty one. -/
theorem descriptor_in_chunks_device :
    let s := (stage kmBuild CtrlEp.boot (.setup getDevice)).1
    (packets kmBuild s getDevice [0#8, 0#8, 0#8]).map List.length = [8, 8, 2, 0] ∧
    (packets kmBuild s getDevice [0#8, 0#8, 0#8]).flatten = read kmBuild.memory 0 18 := by
  have hchunks := descriptor_in_chunks kmBuild (stage kmBuild CtrlEp.boot (.setup getDevice)).1
    getDevice ⟨0, deviceDescSize⟩ [0#8, 0#8, 0#8] rfl rfl rfl
  exact ⟨by decide +kernel, hchunks.2.2.1 (by decide)⟩

end TelinkB91.Usb.Control
