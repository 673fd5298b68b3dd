import Liquorice.Fcs
import Liquorice.Lib.Framing
import Liquorice.Lib.SendQueue

/-!
# PPP in HDLC-like framing on a serial line

A model of `lib/ppp_ahdlc/ppp_ahdlc.c`. The receiver (`pppAhdlcRecvU8`) collects the octets of a
frame with their running checksum. When a flag ends the frame it is handed on if the checksum is
right, or the first octet is, or the second one is. The send side is the queue of netbufs, each with
the set of control characters to be escaped that was in force when it was queued, and the thread
that sends them.

`pppAhdlc_roundTrip` is the round trip over a queue and a thread. It rests on `fcs_residue`: the
checksum over a frame and its own complement is always the same. `pppAhdlcRecv_sound` says for which
octets between two flags what is handed on is a good frame; `runt_delivered` that it is not always
one.
-/

namespace Liquorice.PppAhdlc

open Run

/-- Maximum receive packet size. -/
def mru : Nat := 1500

def pppFlag : UInt8 := 0x7e

def pppEsc : UInt8 := 0x7d

/-! ## The receiver -/

/-- The receive part of a `struct ppp_ahdlc_instance`. -/
structure Instance where
  /-- A client is attached (`pai_client`). -/
  paiClient : Bool
  paiRecvEsc : Bool
  paiRecvOctets : Nat
  paiRecvIgnore : Bool
  paiRecvCrc : UInt16
  paiRecvPacket : Nat → UInt8
  /-- What is in the buffers that `membuf_alloc` is going to return. -/
  membufs : Nat → Nat → UInt8

/-- The part of a netbuf that `pac_recv` gets; `addr_t` has 32 bits. -/
structure Packet where
  nbDatalink : Nat → UInt8
  nbDatalinkSize : UInt32

/-- The octets at `nb_datalink`. -/
def Packet.bytes (nb : Packet) :
    List UInt8 := (List.range nb.nbDatalinkSize.toNat).map nb.nbDatalink

namespace Instance

/-- `pai->pai_recv_packet = membuf_alloc(MRU, NULL)` -/
def allocPacket (pai : Instance) : Instance :=
  { pai with paiRecvPacket := pai.membufs 0, membufs := fun n => pai.membufs (n + 1) }

/-- What is done at every flag. -/
def restart (pai : Instance) : Instance :=
  { pai with paiRecvOctets := 0, paiRecvEsc := false, paiRecvIgnore := false, paiRecvCrc := 0xffff }

/-- `pai->pai_recv_packet[pai->pai_recv_octets++] = ch`, the test for a packet that is too long, and
the checksum. -/
def storeOctet (pai : Instance) (ch : UInt8) : Instance :=
  let octets := (pai.paiRecvOctets + 1) % 0x10000
  { pai with
    paiRecvPacket := Function.update pai.paiRecvPacket pai.paiRecvOctets ch
    paiRecvOctets := octets
    paiRecvIgnore := pai.paiRecvIgnore || decide (mru ≤ octets)
    paiRecvCrc := updateCrc pai.paiRecvCrc ch }

/-- The test of a frame that has ended. -/
def accepts (pai : Instance) : Bool :=
  pai.paiRecvCrc = 0xf0b8 || pai.paiRecvPacket 0 = 0xff || pai.paiRecvPacket 1 = 0x03

/-- The netbuf built from the receive buffer: without address, control and checksum. -/
def packet (pai : Instance) : Packet :=
  { nbDatalink := fun i => pai.paiRecvPacket (2 + i)
    nbDatalinkSize := UInt32.ofNat pai.paiRecvOctets - 4 }

/-- The octets collected in the receive buffer. -/
def octets (pai : Instance) : List UInt8 := (List.range pai.paiRecvOctets).map pai.paiRecvPacket

end Instance

/-- `ppp_ahdlc_recv_u8()`: the state behind an octet, and the packet passed to `pac_recv` if there
is one. -/
def pppAhdlcRecvU8 (pai : Instance) (ch : UInt8) : Instance × Option Packet :=
  if ch = pppFlag then
    if pai.paiRecvIgnore = false ∧ pai.paiRecvOctets ≠ 0 ∧ pai.accepts then
      (pai.allocPacket.restart, if pai.paiClient then some pai.packet else none)
    else (pai.restart, none)
  else if pai.paiRecvIgnore then (pai, none)
  else if ch = pppEsc then
    if pai.paiRecvEsc then ({ pai with paiRecvIgnore := true }, none)
    else ({ pai with paiRecvEsc := true }, none)
  else if pai.paiRecvEsc then ({ pai with paiRecvEsc := false }.storeOctet (ch ^^^ 0x20), none)
  else (pai.storeOctet ch, none)

/-- `ppp_ahdlc_instance_alloc()`: until the first flag everything is ignored. The checksum is not
set. -/
def pppAhdlcInstanceAlloc (membufs : Nat → Nat → UInt8) (crc : UInt16) : Instance :=
  { paiClient := false, paiRecvEsc := false, paiRecvOctets := 0, paiRecvIgnore := true,
    paiRecvCrc := crc, paiRecvPacket := membufs 0, membufs := fun n => membufs (n + 1) }

/-- `ppp_ahdlc_client_attach()` -/
def pppAhdlcClientAttach (pai : Instance) : Instance := { pai with paiClient := true }

/-- The framing of PPP on an asynchronous line. -/
def framing : Framing where
  flag := pppFlag
  esc := pppEsc
  unescape ch := some (ch ^^^ 0x20)
  limit := mru
  esc_ne_flag := by decide

/-- What the receiver has collected. -/
def Instance.view (pai : Instance) : Framing.Rx :=
  { data := pai.octets, escaped := pai.paiRecvEsc, ignore := pai.paiRecvIgnore }

/-- With a client: while the frame is not ignored, the buffer has room for the next octet and the
checksum is the one of the octets collected. -/
structure Instance.Inv (pai : Instance) : Prop where
  client : pai.paiClient
  room : pai.paiRecvIgnore = false → pai.paiRecvOctets < mru
  crc : pai.paiRecvIgnore = false → pai.paiRecvCrc = crcOf pai.octets

/-! ### The receiver against the framing -/

namespace Instance

variable {pai : Instance} {ch : UInt8}

theorem octets_storeOctet (h : pai.paiRecvOctets < mru) (ch : UInt8) :
    (pai.storeOctet ch).paiRecvOctets = pai.paiRecvOctets + 1 ∧
      (pai.storeOctet ch).octets = pai.octets ++ [ch] := by
  have hoctets : (pai.paiRecvOctets + 1) % 0x10000 = pai.paiRecvOctets + 1 :=
    Nat.mod_eq_of_lt (by unfold mru at h; omega)
  refine ⟨hoctets, ?_⟩
  simp only [octets, storeOctet, hoctets]
  exact Framing.map_range_update _ _ _

theorem view_storeOctet (h : pai.paiRecvOctets < mru) (hignore : pai.paiRecvIgnore = false)
    (hesc : pai.paiRecvEsc = false) : (pai.storeOctet ch).view = framing.store pai.view ch := by
  obtain ⟨hoctets, hdata⟩ := octets_storeOctet h ch
  have hlength : pai.octets.length = pai.paiRecvOctets := by simp [octets]
  have hover : (pai.storeOctet ch).paiRecvIgnore = decide (mru ≤ pai.paiRecvOctets + 1) := by
    rw [← hoctets]
    simp [storeOctet, hignore]
  rw [view, hdata, hover, Framing.store, show pai.view.data = pai.octets from rfl, hlength]
  exact congrArg (fun e => ({ data := _, escaped := e, ignore := _ } : Framing.Rx)) hesc

theorem Inv.storeOctet (h : pai.Inv) (hignore : pai.paiRecvIgnore = false) (ch : UInt8) :
    (pai.storeOctet ch).Inv := by
  obtain ⟨hoctets, hdata⟩ := octets_storeOctet (h.room hignore) ch
  refine ⟨h.client, ?_, ?_⟩
  · intro hstored
    have hlt : ¬ mru ≤ (pai.storeOctet ch).paiRecvOctets := by
      simp only [Instance.storeOctet, Bool.or_eq_false_iff, decide_eq_false_iff_not] at hstored
      exact hstored.2
    exact Nat.not_le.1 hlt
  intro _
  rw [hdata, crcOf, List.foldl_append]
  show updateCrc pai.paiRecvCrc ch = _
  rw [h.crc hignore]
  rfl

/-- What an octet other than the flag does. -/
def perform (pai : Instance) : Framing.Act → Instance
  | .skip => pai
  | .escape => { pai with paiRecvEsc := true }
  | .reject => { pai with paiRecvIgnore := true }
  | .store b => { pai with paiRecvEsc := false }.storeOctet b

end Instance

section Recv

variable {pai : Instance} {ch : UInt8}

/-- The code decides what to do with an octet as the framing does. -/
theorem pppAhdlcRecvU8_of_ne (hch : ch ≠ pppFlag) : pppAhdlcRecvU8 pai ch =
    (pai.perform (framing.act pai.paiRecvEsc pai.paiRecvIgnore ch), none) := by
  rw [pppAhdlcRecvU8, if_neg hch, Framing.act]
  by_cases hignore : pai.paiRecvIgnore
  · rw [if_pos hignore, if_pos hignore]
    rfl
  rw [if_neg hignore, if_neg hignore]
  by_cases hesc : ch = pppEsc
  · rw [if_pos hesc, if_pos (show ch = framing.esc from hesc)]
    split <;> rfl
  rw [if_neg hesc, if_neg (show ¬ ch = framing.esc from hesc)]
  by_cases he : pai.paiRecvEsc
  · rw [if_pos he, if_pos he]
    rfl
  · have hclear : { pai with paiRecvEsc := false } = pai := by rw [← Bool.eq_false_iff.2 he]
    rw [if_neg he, if_neg he, Instance.perform, hclear]

theorem view_perform (h : pai.Inv) (ch : UInt8) :
    (pai.perform (framing.act pai.paiRecvEsc pai.paiRecvIgnore ch)).view =
    framing.recv pai.view ch := by
  have hact : framing.recv pai.view ch =
    framing.perform pai.view (framing.act pai.paiRecvEsc pai.paiRecvIgnore ch) := rfl
  rw [hact]
  cases hcase : framing.act pai.paiRecvEsc pai.paiRecvIgnore ch with
  | skip => rfl
  | escape => rfl
  | reject => rfl
  | store b =>
    have hignore := Framing.act_store hcase
    exact Instance.view_storeOctet (h.room hignore) hignore rfl

theorem inv_perform (h : pai.Inv) (ch : UInt8) :
    (pai.perform (framing.act pai.paiRecvEsc pai.paiRecvIgnore ch)).Inv := by
  cases hcase : framing.act pai.paiRecvEsc pai.paiRecvIgnore ch with
  | skip => exact h
  | escape => exact ⟨h.client, h.room, h.crc⟩
  | reject => exact ⟨h.client, nofun, nofun⟩
  | store b =>
    have hclear : ({ pai with paiRecvEsc := false } : Instance).Inv := ⟨h.client, h.room, h.crc⟩
    exact hclear.storeOctet (Framing.act_store hcase) b

theorem view_pppAhdlcRecvU8_flag (pai : Instance) : (pppAhdlcRecvU8 pai pppFlag).1.view = {} := by
  rw [pppAhdlcRecvU8, if_pos rfl]
  split <;> rfl

/-- A flag brings any state into the invariant. -/
theorem inv_pppAhdlcRecvU8_flag (h : pai.paiClient) : (pppAhdlcRecvU8 pai pppFlag).1.Inv := by
  have hroom : 0 < mru := by decide
  rw [pppAhdlcRecvU8, if_pos rfl]
  split
  · exact ⟨h, fun _ => hroom, fun _ => rfl⟩
  · exact ⟨h, fun _ => hroom, fun _ => rfl⟩

/-- What is handed on of a frame: address, control and checksum are taken off. -/
def payload (p : List UInt8) : List UInt8 := (p.drop 2).take (p.length - 4)

theorem length_octets (pai : Instance) : pai.octets.length = pai.paiRecvOctets := by
  simp [Instance.octets]

theorem getElem?_octets {i : Nat} (h : i < pai.paiRecvOctets) :
    pai.octets[i]? = some (pai.paiRecvPacket i) := by
  simp [Instance.octets, h]

/-- The netbuf for a frame that has room for address, control and checksum. -/
theorem packet_bytes (h : pai.paiRecvOctets < mru) (hoctets : 4 ≤ pai.paiRecvOctets) :
    pai.packet.nbDatalinkSize.toNat = pai.octets.length - 4 ∧
      pai.packet.bytes = payload pai.octets := by
  have hsize : pai.packet.nbDatalinkSize.toNat = pai.paiRecvOctets - 4 := by
    unfold mru at h
    have hofNat : (UInt32.ofNat pai.paiRecvOctets).toNat = pai.paiRecvOctets :=
      UInt32.toNat_ofNat_of_lt' (by unfold UInt32.size; omega)
    rw [Instance.packet, UInt32.toNat_sub_of_le, hofNat]
    · rfl
    · rw [UInt32.le_iff_toNat_le, hofNat]
      exact hoctets
  refine ⟨by rw [hsize, length_octets], ?_⟩
  apply List.ext_getElem?
  intro i
  rw [Packet.bytes, hsize, payload, length_octets, List.getElem?_take, List.getElem?_drop]
  by_cases hi : i < pai.paiRecvOctets - 4
  · rw [if_pos hi, getElem?_octets (by omega)]
    simp [Instance.packet, hi]
  · rw [if_neg hi]
    simp [hi]

/-- The three tests of the code are those of the octets collected; behind a single octet the code
reads what the buffer held before. -/
theorem accepts_iff (h : pai.Inv) (hignore : pai.paiRecvIgnore = false)
    (hne : pai.paiRecvOctets ≠ 0) :
    pai.accepts ↔ crcOf pai.octets = 0xf0b8 ∨ pai.octets[0]? = some 0xff ∨
      (pai.octets ++ [pai.paiRecvPacket 1])[1]? = some 0x03 := by
  have hsecond : (pai.octets ++ [pai.paiRecvPacket 1])[1]? = some (pai.paiRecvPacket 1) := by
    by_cases hone : pai.paiRecvOctets = 1
    · simp [Instance.octets, hone]
    · rw [List.getElem?_append_left (by rw [length_octets]; omega), getElem?_octets (by omega)]
  rw [getElem?_octets (by omega), hsecond, ← h.crc hignore]
  simp [Instance.accepts, or_assoc]

/-- What is handed on of a frame with nothing in it, or with room for address, control and
checksum. -/
def deliver (p : List UInt8) : Option (List UInt8) :=
  if p = [] then none
  else if crcOf p = 0xf0b8 ∨ p[0]? = some 0xff ∨ p[1]? = some 0x03 then some (payload p)
  else none

theorem pppAhdlcRecvU8_flag_out (h : pai.Inv) {p : List UInt8} (hp : pai.view = { data := p })
    (hknown : p = [] ∨ 4 ≤ p.length) :
    (pppAhdlcRecvU8 pai pppFlag).2.map Packet.bytes = deliver p := by
  obtain rfl : pai.octets = p := congrArg Framing.Rx.data hp
  have hignore : pai.paiRecvIgnore = false := congrArg Framing.Rx.ignore hp
  rw [pppAhdlcRecvU8, if_pos rfl, deliver]
  rcases hknown with hnil | hlen
  · have hzero : pai.paiRecvOctets = 0 := by rw [← length_octets, hnil]; rfl
    rw [if_pos hnil, if_neg (fun hc => hc.2.1 hzero)]
    rfl
  have hne : pai.octets ≠ [] := List.ne_nil_of_length_pos (by omega)
  have hsecond : (pai.octets ++ [pai.paiRecvPacket 1])[1]? = pai.octets[1]? :=
    List.getElem?_append_left (by omega)
  rw [length_octets] at hlen
  have haccepts := accepts_iff h hignore (by omega)
  rw [hsecond] at haccepts
  rw [if_neg hne]
  by_cases hacc : pai.accepts
  · rw [if_pos ⟨hignore, by omega, hacc⟩, if_pos (haccepts.1 hacc), if_pos h.client]
    exact congrArg some (packet_bytes (h.room hignore) hlen).2
  · rw [if_neg (fun hc => hacc hc.2.2), if_neg (fun hc => hacc (haccepts.2 hc))]
    rfl

end Recv

/-- The receiver of `ppp_ahdlc.c` as a receiver of frames. -/
def receiver : Receiver framing Instance Packet (List UInt8) where
  step := pppAhdlcRecvU8
  view := Instance.view
  Inv := Instance.Inv
  out := Packet.bytes
  deliver := deliver
  Known p := p = [] ∨ 4 ≤ p.length
  recv_view h hch := by rw [pppAhdlcRecvU8_of_ne hch]; exact view_perform h _
  recv_inv h hch := by rw [pppAhdlcRecvU8_of_ne hch]; exact inv_perform h _
  recv_out hch := by rw [pppAhdlcRecvU8_of_ne hch]
  flag_view := view_pppAhdlcRecvU8_flag
  flag_inv h := inv_pppAhdlcRecvU8_flag h.client
  flag_out h hp hknown := pppAhdlcRecvU8_flag_out h hp hknown
  empty_known := Or.inl rfl
  empty_out := rfl

/-- The receiver over a sequence of octets. -/
def pppAhdlcRecv (pai : Instance) (bs : List UInt8) : Instance × List Packet := receiver.feed pai bs

/-! ## Frames that are handed on -/

/-- The octets between two flags are a good frame, and the packet is made of it: it is not cut off
behind an escape, long enough, with the right address, control and checksum. -/
def GoodFrame (raw : List UInt8) (nb : Packet) : Prop :=
  ∃ octets, framing.unstuff raw = some octets ∧ 4 ≤ octets.length ∧ octets.take 2 = [0xff, 0x03] ∧
    crcOf octets = 0xf0b8 ∧ nb.nbDatalinkSize.toNat = octets.length - 4 ∧ nb.bytes = payload octets

/-- The octets between two flags are read as none that are collected, they pass none of the three
tests, or they pass them all, are long enough and not cut off behind an escape. The receive buffer
had `stale` as its second octet, which is tested when only one octet is collected. -/
def Unanimous (stale : UInt8) (raw : List UInt8) : Prop :=
  let r := framing.collect {} raw
  r.ignore = true ∨ r.data = [] ∨
    ¬ (crcOf r.data = 0xf0b8 ∨ r.data[0]? = some 0xff ∨ (r.data ++ [stale])[1]? = some 0x03) ∨
    (crcOf r.data = 0xf0b8 ∧ r.data.take 2 = [0xff, 0x03] ∧ 4 ≤ r.data.length ∧ r.escaped = false)

theorem pppAhdlcClientAttach_inv (membufs : Nat → Nat → UInt8) (crc : UInt16) :
    (pppAhdlcClientAttach (pppAhdlcInstanceAlloc membufs crc)).Inv :=
  ⟨rfl, nofun, nofun⟩

/-- A packet is handed on only at a flag that ends a frame which passed the test. -/
theorem pppAhdlcRecvU8_some {pai : Instance} (hclient : pai.paiClient) {ch : UInt8}
    {nb : Packet} : (pppAhdlcRecvU8 pai ch).2 = some nb ↔ ch = pppFlag ∧
      pai.paiRecvIgnore = false ∧ pai.paiRecvOctets ≠ 0 ∧ pai.accepts ∧ nb = pai.packet := by
  by_cases hch : ch = pppFlag
  · rw [pppAhdlcRecvU8, if_pos hch]
    split
    · next hframe => simp [hch, hframe, eq_comm]
    · next hframe =>
      refine ⟨nofun, ?_⟩
      rintro ⟨-, hignore, hoctets, haccepts, -⟩
      exact absurd ⟨hignore, hoctets, haccepts⟩ hframe
  · rw [pppAhdlcRecvU8_of_ne hch]
    exact ⟨nofun, fun h => absurd h.1 hch⟩

/-- A frame that is handed on is a good one exactly if the tests are unanimous. -/
theorem goodFrame_iff {pai : Instance} (h : pai.Inv) {raw : List UInt8}
    (hview : pai.view = framing.collect {} raw) :
    (∀ nb, (pppAhdlcRecvU8 pai pppFlag).2 = some nb → GoodFrame raw nb) ↔
      Unanimous (pai.paiRecvPacket 1) raw := by
  have hempty : pai.octets = [] ↔ pai.paiRecvOctets = 0 := by
    rw [← List.length_eq_zero_iff, length_octets]
  simp only [Unanimous, ← hview, Instance.view, pppAhdlcRecvU8_some h.client]
  constructor
  · intro hgood
    by_cases hignore : pai.paiRecvIgnore
    · exact Or.inl hignore
    rw [Bool.not_eq_true] at hignore
    by_cases hoctets : pai.paiRecvOctets = 0
    · exact Or.inr (Or.inl (hempty.2 hoctets))
    by_cases haccepts : pai.accepts
    · obtain ⟨octets, hunstuff, hlen, htake, hcrc, -⟩ :=
        hgood _ ⟨trivial, hignore, hoctets, haccepts, rfl⟩
      -- a frame that is cut off behind an escape stands for nothing
      obtain ⟨hesc, rfl⟩ : pai.paiRecvEsc = false ∧ pai.octets = octets :=
        Framing.data_of_unstuff (hview.symm.trans (by rw [Instance.view, hignore])) hunstuff
      exact Or.inr (Or.inr (Or.inr ⟨hcrc, htake, hlen, hesc⟩))
    · rw [← accepts_iff h hignore hoctets]
      exact Or.inr (Or.inr (Or.inl haccepts))
  · rintro htests nb ⟨-, hignore, hoctets, haccepts, rfl⟩
    rw [← accepts_iff h hignore hoctets, hempty] at htests
    obtain ⟨hcrc, htake, hlen, hesc⟩ := ((htests.resolve_left (by simp [hignore])).resolve_left
      hoctets).resolve_left (not_not.2 haccepts)
    have hdata : framing.collect {} raw = { data := pai.octets } := by
      rw [← hview, Instance.view, hignore, hesc]
    obtain ⟨octets, heq, hunstuff⟩ := Framing.unstuff_of_collect raw [] pai.octets hdata
    obtain rfl : pai.octets = octets := heq
    obtain ⟨hsize, hbytes⟩ :=
      packet_bytes (h.room hignore) (by rwa [← length_octets])
    exact ⟨pai.octets, hunstuff, hlen, htake, hcrc, hsize, hbytes⟩

/-- **When what is handed on is a good frame.** For any stream since a client attached, a packet is
handed on only at a flag, for the octets back to the flag before; and for those the packet is a good
frame exactly if the tests of the receiver are unanimous about them. -/
theorem pppAhdlcRecv_sound (membufs : Nat → Nat → UInt8) (crc : UInt16) :
    let recv := pppAhdlcRecv (pppAhdlcClientAttach (pppAhdlcInstanceAlloc membufs crc))
    (∀ stream ch nb, (pppAhdlcRecvU8 (recv stream).1 ch).2 = some nb →
      ch = pppFlag ∧ ∃ before raw, stream = before ++ pppFlag :: raw ∧ pppFlag ∉ raw) ∧
    ∀ before raw, pppFlag ∉ raw →
      let pai := (recv (before ++ pppFlag :: raw)).1
      ((∀ nb, (pppAhdlcRecvU8 pai pppFlag).2 = some nb → GoodFrame raw nb) ↔
        Unanimous (pai.paiRecvPacket 1) raw) := by
  intro recv
  have hstart := pppAhdlcClientAttach_inv membufs crc
  refine ⟨fun stream ch nb hnb => ?_, fun before raw hraw => ?_⟩
  · have hinv : (recv stream).1.Inv := receiver.feed_inv hstart stream
    obtain ⟨hch, hignore, -⟩ := (pppAhdlcRecvU8_some hinv.client).1 hnb
    refine ⟨hch, ?_⟩
    rcases receiver.feed_last hstart stream with ⟨-, hfirst⟩ | ⟨before, raw, hstream, hraw, -⟩
    · -- Before the first flag everything is ignored.
      rw [Framing.collect_ignore (show Framing.Rx.ignore _ = true from rfl)] at hfirst
      exact absurd (hignore.symm.trans (congrArg Framing.Rx.ignore hfirst)) Bool.false_ne_true
    · exact ⟨before, raw, hstream, hraw⟩
  · intro pai
    refine goodFrame_iff (receiver.feed_inv hstart _) ?_
    have hbefore := receiver.feed_inv hstart before
    have hcollect := receiver.feed_collect (receiver.flag_inv hbefore) hraw
    rw [receiver.flag_view] at hcollect
    rw [Receiver.feed_append]
    exact hcollect.1

/-- Between two flags the single octet 0xff: it is handed on, with a size that has wrapped
around. -/
theorem runt_delivered :
    let pai := (pppAhdlcRecv (pppAhdlcClientAttach (pppAhdlcInstanceAlloc (fun _ _ => 0) 0))
      [0x7e, 0xff]).1
    (pppAhdlcRecvU8 pai 0x7e).2 = some pai.packet ∧ pai.packet.nbDatalinkSize = 0xfffffffd ∧
      ¬ GoodFrame [0xff] pai.packet := by
  refine ⟨rfl, by decide, ?_⟩
  rintro ⟨octets, hunstuff, hoctets, -⟩
  obtain rfl : [0xff] = octets := Option.some.inj hunstuff
  exact absurd hoctets (by decide)

/-! ## The send side -/

/-- The layers of a netbuf that the driver sends. -/
structure Netbuf where
  nbDatalink : List UInt8
  nbNetwork : List UInt8
  nbTransport : List UInt8
  nbApplication : List UInt8
  deriving DecidableEq

/-- All octets of the packet. -/
def Netbuf.bytes (nb : Netbuf) : List UInt8 :=
  nb.nbDatalink ++ nb.nbNetwork ++ nb.nbTransport ++ nb.nbApplication

/-- What was sent, and the checksum so far. -/
structure Line where
  sent : List UInt8
  crc : UInt16

/-- An octet on the line, escaped if it has to be. -/
def stuff (accm : UInt32) (ch : UInt8) : List UInt8 :=
  if ch = pppFlag ∨ ch = pppEsc ∨ (ch < 0x20 ∧ accm &&& ((1 : UInt32) <<< ch.toUInt32) ≠ 0) then
    [pppEsc, ch ^^^ 0x20]
  else [ch]

/-- `send_u8()` -/
def sendU8 (accm : UInt32) (line : Line) (ch : UInt8) : Line :=
  { sent := line.sent ++ stuff accm ch, crc := updateCrc line.crc ch }

/-- `ppp_ahdlc_send_sequence()`: the count is a `u16_t`. -/
def pppAhdlcSendSequence (accm : UInt32) (line : Line) (buf : List UInt8) : Line :=
  (buf.take (buf.length % 0x10000)).foldl (sendU8 accm) line

/-- What `ppp_ahdlc_send_thread()` sends for a netbuf and its hint. -/
def pppAhdlcSendPacket : Netbuf × UInt32 → List UInt8
  | (nb, accm) =>
    let line := sendU8 accm (sendU8 accm { sent := [pppFlag], crc := 0xffff } 0xff) 0x03
    let line := pppAhdlcSendSequence accm line nb.nbDatalink
    let line := pppAhdlcSendSequence accm line nb.nbNetwork
    let line := if nb.nbTransport.length ≠ 0 then pppAhdlcSendSequence accm line nb.nbTransport
      else line
    let line :=
      if nb.nbApplication.length ≠ 0 then pppAhdlcSendSequence accm line nb.nbApplication else line
    let crc := ~~~line.crc
    let line := sendU8 accm { line with crc := 0 } (crc &&& 0xff).toUInt8
    let line := sendU8 accm { line with crc := 0 }
      ((crc >>> (8 : UInt16)) &&& (0xff : UInt16)).toUInt8
    line.sent ++ [pppFlag]

/-- The send part of a `struct ppp_ahdlc_instance`; a queued netbuf has the control characters to be
escaped for it as its hint. -/
structure Sender (α : Type) where
  paiAccm : UInt32
  paiSendQueue : SendQueue α (Netbuf × UInt32)

section Sender

variable {α : Type} [DecidableEq α] [Fintype α]

/-- What happens on the send side. -/
inductive SendEvent (α : Type) where
  | setAccm (accm : UInt32)
  | sendNetbuf (a : α) (nb : Netbuf)
  | thread (take : Bool)

/-- `ppp_ahdlc_set_accm()` -/
def pppAhdlcSetAccm (s : Sender α) (accm : UInt32) : Sender α := { s with paiAccm := accm }

/-- `ppp_ahdlc_send_netbuf()` for the netbuf at the address `a`. -/
def pppAhdlcSendNetbuf (s : Sender α) (a : α) (nb : Netbuf) : Sender α :=
  { s with paiSendQueue := s.paiSendQueue.put a (nb, s.paiAccm) }

/-- `ppp_ahdlc_send_thread()` takes a netbuf from the queue, or sends an octet. -/
def pppAhdlcSendThread (s : Sender α) (take : Bool) : Sender α :=
  { s with
    paiSendQueue := if take then s.paiSendQueue.take pppAhdlcSendPacket else s.paiSendQueue.emit }

def sendStep (s : Sender α) : SendEvent α → Sender α
  | .setAccm accm => pppAhdlcSetAccm s accm
  | .sendNetbuf a nb => pppAhdlcSendNetbuf s a nb
  | .thread take => pppAhdlcSendThread s take

/-- A netbuf is queued only when it is not in the queue. -/
def SendFree (s : Sender α) : SendEvent α → Prop
  | .sendNetbuf a _ => a ∉ s.paiSendQueue.cells
  | _ => True

instance (s : Sender α) (e : SendEvent α) : Decidable (SendFree s e) := by
  induction e using SendEvent.casesOn <;> unfold SendFree <;> infer_instance

/-- The send side that `ppp_ahdlc_instance_alloc()` sets up. -/
def newSender (next : α → Option α) (item : α → Netbuf × UInt32) : Sender α :=
  { paiAccm := 0xffffffff, paiSendQueue := SendQueue.new next item }

theorem sendStep_inv (s : Sender α) (e : SendEvent α) (he : SendFree s e)
    (h : s.paiSendQueue.Inv pppAhdlcSendPacket) :
    (sendStep s e).paiSendQueue.Inv pppAhdlcSendPacket := by
  cases e with
  | setAccm accm => exact h
  | sendNetbuf a nb => exact h.put he _
  | thread take =>
    cases take with
    | true => exact h.take
    | false => exact h.emit

/-- A step of the thread as an event of the send side. -/
def threadEvent : SendQueue.Event α (Netbuf × UInt32) → SendEvent α
  | .take => .thread true
  | _ => .thread false

theorem exec_threadEvent {ts : List (SendQueue.Event α (Netbuf × UInt32))}
    (hts : ∀ e ∈ ts, e.IsThread) (s : Sender α) :
    (exec sendStep s (ts.map threadEvent)).paiSendQueue =
      exec (SendQueue.step pppAhdlcSendPacket) s.paiSendQueue ts := by
  induction ts generalizing s with
  | nil => rfl
  | cons e ts ih =>
    have hhead := hts e List.mem_cons_self
    have htail := ih fun e' he' => hts e' (List.mem_cons_of_mem _ he')
    cases e with
    | put a p => exact hhead.elim
    | take => exact htail _
    | emit => exact htail _

end Sender

/-! ### A packet on the line is a frame -/

/-- The octets of the frame for a packet: address, control, the packet, and the complement of the
checksum. -/
def frame (nb : Netbuf) : List UInt8 :=
  let p := [0xff, 0x03] ++ nb.bytes
  p ++ [(~~~(crcOf p) &&& 0xff).toUInt8,
    (((~~~(crcOf p)) >>> (8 : UInt16)) &&& (0xff : UInt16)).toUInt8]

theorem stuff_encodes (accm : UInt32) : framing.Encodes (stuff accm) := by
  have hxor : ∀ a b : UInt8, a ^^^ 0x20 = b → a = b ^^^ 0x20 := by
    intro a b h
    rw [← h, UInt8.xor_assoc, UInt8.xor_self, UInt8.xor_zero]
  intro b
  unfold stuff
  split
  · next hspecial =>
    have hb : b = pppFlag ∨ b = pppEsc ∨ b < 0x20 := hspecial.imp_right (Or.imp_right And.left)
    refine Or.inr ⟨b ^^^ 0x20, rfl, ?_, ?_, ?_⟩
    · intro hflag
      rw [hxor _ _ hflag] at hb
      exact absurd hb (by decide)
    · intro hesc
      rw [hxor _ _ hesc] at hb
      exact absurd hb (by decide)
    · exact congrArg some (hxor _ _ rfl).symm
  · next hplain =>
    rw [not_or, not_or] at hplain
    exact Or.inl ⟨rfl, hplain.1, hplain.2.1⟩

theorem foldl_sendU8 (accm : UInt32) (line : Line) (p : List UInt8) :
    p.foldl (sendU8 accm) line =
      { sent := line.sent ++ p.flatMap (stuff accm), crc := p.foldl updateCrc line.crc } := by
  induction p generalizing line with
  | nil => simp
  | cons b p ih => simp [ih, sendU8]

theorem pppAhdlcSendSequence_eq (accm : UInt32) (line : Line) {buf : List UInt8}
    (h : buf.length < 0x10000) :
    pppAhdlcSendSequence accm line buf = buf.foldl (sendU8 accm) line := by
  rw [pppAhdlcSendSequence, Nat.mod_eq_of_lt h, List.take_length]

theorem pppAhdlcSendPacket_eq {nb : Netbuf} (accm : UInt32) (h : nb.bytes.length < 0x10000) :
    pppAhdlcSendPacket (nb, accm) = framing.sent (stuff accm) (frame nb) := by
  simp only [Netbuf.bytes, List.length_append] at h
  have hseq : ∀ (buf : List UInt8) line, buf.length < 0x10000 →
      (if buf.length ≠ 0 then pppAhdlcSendSequence accm line buf else line) =
        buf.foldl (sendU8 accm) line := by
    intro buf line hbuf
    by_cases hzero : buf.length = 0
    · rw [if_neg (not_not.2 hzero), List.length_eq_zero_iff.1 hzero]
      rfl
    · rw [if_pos hzero, pppAhdlcSendSequence_eq accm line hbuf]
  -- All that precedes the checksum is sent as one sequence.
  have hbody : ∀ line, nb.nbApplication.foldl (sendU8 accm) (nb.nbTransport.foldl (sendU8 accm)
      (nb.nbNetwork.foldl (sendU8 accm) (nb.nbDatalink.foldl (sendU8 accm)
        (sendU8 accm (sendU8 accm line 0xff) 0x03)))) =
      ([0xff, 0x03] ++ nb.bytes).foldl (sendU8 accm) line := by
    intro line
    simp [Netbuf.bytes]
  simp only [pppAhdlcSendPacket]
  rw [hseq _ _ (by omega), hseq _ _ (by omega), pppAhdlcSendSequence_eq _ _ (by omega),
    pppAhdlcSendSequence_eq _ _ (by omega), hbody, foldl_sendU8]
  simp [Framing.sent, frame, sendU8, framing, crcOf]

theorem crcOf_frame (nb : Netbuf) : crcOf (frame nb) = 0xf0b8 := by
  rw [frame, crcOf, List.foldl_append]
  exact fcs_residue _

theorem deliver_frame (nb : Netbuf) : deliver (frame nb) = some nb.bytes := by
  have hlength : (frame nb).length = nb.bytes.length + 4 := by simp [frame]
  have hpayload : payload (frame nb) = nb.bytes := by
    rw [payload, hlength]
    simp [frame]
  have hne : frame nb ≠ [] := List.ne_nil_of_length_pos (by omega)
  rw [deliver, if_neg hne, if_pos (Or.inl (crcOf_frame nb)), hpayload]

/-! ## Transparency -/

theorem not_mem_stuff {accm : UInt32} {c : UInt8} (hc : c < 0x20)
    (hmap : accm &&& ((1 : UInt32) <<< c.toUInt32) ≠ 0) (ch : UInt8) : c ∉ stuff accm ch := by
  have hxor : ∀ n < 32, ¬ n ^^^ 32 < 32 := by decide
  unfold stuff
  split
  · rename_i hspecial
    have hne : c ≠ pppEsc := UInt8.ne_of_lt (UInt8.lt_trans hc (by decide))
    simp only [List.mem_cons, hne, List.not_mem_nil, or_false, false_or]
    rintro rfl
    rcases hspecial with rfl | rfl | ⟨hch, -⟩
    · exact absurd hc (by decide)
    · exact absurd hc (by decide)
    · exact hxor ch.toNat hch hc
  · rename_i hplain
    rw [List.mem_singleton]
    rintro rfl
    exact hplain (.inr (.inr ⟨hc, hmap⟩))

/-- All that is sent are flags, and octets that are escaped if they have to be. -/
theorem mem_pppAhdlcSendPacket {nb : Netbuf} {accm : UInt32} {c : UInt8}
    (h : c ∈ pppAhdlcSendPacket (nb, accm)) : c = pppFlag ∨ ∃ ch, c ∈ stuff accm ch := by
  simp only [pppAhdlcSendPacket, pppAhdlcSendSequence, foldl_sendU8, sendU8] at h
  split at h <;> split at h <;> simp only [List.mem_append, List.mem_flatMap, List.mem_singleton]
    at h <;> grind

/-- **Transparency.** A control character that is in the map of every netbuf queued never goes over
the line, whatever is queued and however the calls and the thread interleave. -/
theorem control_never_sent {α : Type} [DecidableEq α] [Fintype α] (next : α → Option α)
    (item : α → Netbuf × UInt32) (es : List (SendEvent α)) (c : UInt8) (hc : c < 0x20)
    (hfree : Along sendStep SendFree (newSender next item) es) :
    let q := (exec sendStep (newSender next item) es).paiSendQueue
    (∀ p ∈ q.queued, p.2 &&& ((1 : UInt32) <<< c.toUInt32) ≠ 0) → c ∉ q.wire := by
  intro q hmap hmem
  obtain ⟨l, -, hqueued, hsent⟩ : q.Inv pppAhdlcSendPacket :=
    exec_invariant sendStep_inv (SendQueue.inv_new pppAhdlcSendPacket next item) hfree
  have hwire := List.mem_append_left q.sending hmem
  rw [hsent, List.mem_flatMap] at hwire
  obtain ⟨p, hp, hcp⟩ := hwire
  rcases mem_pppAhdlcSendPacket hcp with rfl | ⟨ch, hch⟩
  · exact absurd hc (by decide)
  · exact not_mem_stuff hc (hmap p (hqueued ▸ List.mem_append_left _ hp)) ch hch

/-- XON, which the map of `ppp_ahdlc_instance_alloc()` has. -/
theorem control_never_sent_xon :
    0x11 ∉ (exec sendStep (newSender (fun _ : Bool => none) fun _ => (⟨[], [], [], []⟩, 0))
      (.sendNetbuf false ⟨[0x11], [], [], []⟩ :: .thread true ::
        List.replicate 10 (.thread false))).paiSendQueue.wire :=
  control_never_sent _ _ _ 0x11 (by decide) (by decide) (by decide)

/-! ## Round trip -/

/-- **Round trip.** Netbufs are queued, when they are not in the queue, the set of control
characters to be escaped is changed and the thread sends, in any interleaving; the thread can always
go on until all that was queued is sent. Whenever it is between two packets, a receiver with a
client, in any state, gets from the line at most one packet of its own, from what it had before the
first flag, and then exactly the packets the thread took, in the order in which they were queued. -/
theorem pppAhdlc_roundTrip {α : Type} [DecidableEq α] [Fintype α] (pai : Instance)
    (hclient : pai.paiClient) (next : α → Option α) (item : α → Netbuf × UInt32)
    (es : List (SendEvent α)) (hfree : Along sendStep SendFree (newSender next item) es)
    (hsize : ∀ p ∈ (exec sendStep (newSender next item) es).paiSendQueue.queued,
      p.1.bytes.length ≤ mru - 5) :
    let s := exec sendStep (newSender next item) es
    let q := s.paiSendQueue
    (∃ ts : List (SendEvent α), (∀ e ∈ ts, ∃ take, e = .thread take) ∧
      (exec sendStep s ts).paiSendQueue.sending = [] ∧
      (exec sendStep s ts).paiSendQueue.taken = q.queued) ∧
    (q.sending = [] → q.queued = q.taken ++ q.cells.map q.item ∧
      ∃ extra : List (List UInt8), extra.length ≤ 1 ∧
        extra = (pppAhdlcRecv pai (q.wire.take 1)).2.map Packet.bytes ∧
        (pppAhdlcRecv pai q.wire).2.map Packet.bytes = extra ++ q.taken.map fun p =>
            p.1.bytes) := by
  intro s q
  have hq : q.Inv pppAhdlcSendPacket :=
    exec_invariant sendStep_inv (SendQueue.inv_new pppAhdlcSendPacket next item) hfree
  refine ⟨?_, ?_⟩
  · obtain ⟨ts, hts, hsending, htaken⟩ := hq.drains
    refine ⟨ts.map threadEvent, ?_, ?_, ?_⟩
    · intro e he
      obtain ⟨e', -, rfl⟩ := List.mem_map.1 he
      cases e' <;> exact ⟨_, rfl⟩
    · rw [exec_threadEvent hts]
      exact hsending
    · rw [exec_threadEvent hts]
      exact htaken
  · intro hidle
    refine ⟨hq.queued_eq, ?_⟩
    have htaken : ∀ p ∈ q.taken, p.1.bytes.length ≤ mru - 5 := by
      intro p hp
      apply hsize
      change p ∈ q.queued
      rw [hq.queued_eq]
      exact List.mem_append_left _ hp
    have hlength : ∀ p ∈ q.taken, (frame p.1).length < mru ∧ 4 ≤ (frame p.1).length := by
      intro p hp
      have := htaken p hp
      simp only [frame, List.length_append, List.length_cons, List.length_nil, mru] at this ⊢
      omega
    have hwire : q.wire = q.taken.flatMap fun p => framing.sent (stuff p.2) (frame p.1) := by
      rw [hq.wire_eq hidle]
      exact List.flatMap_congr fun p hp =>
        pppAhdlcSendPacket_eq p.2 (Nat.lt_of_le_of_lt (htaken p hp) (by decide))
    have hsent := receiver.feed_sent (fun p => stuff p.2)
      (fun p : Netbuf × UInt32 => frame p.1) q.taken
      (fun p _ => stuff_encodes p.2) (fun p hp => (hlength p hp).1)
        (fun p hp => Or.inr (hlength p hp).2)
      (inv_pppAhdlcRecvU8_flag hclient)
    have hdeliver : (q.taken.filterMap fun p => receiver.deliver (frame p.1)) =
        q.taken.map fun p => p.1.bytes := by
      rw [← List.filterMap_eq_map]
      exact List.filterMap_congr fun p _ => deliver_frame p.1
    rw [hdeliver, ← hwire] at hsent
    refine ⟨_, ?_, ?_, hsent⟩
    · split
      · exact Nat.zero_le _
      · cases (receiver.step pai framing.flag).2.map receiver.out <;> simp
    · rw [hwire]
      change _ = List.map receiver.out (receiver.feed pai _).2
      cases q.taken with
      | nil => rfl
      | cons p ps =>
        cases hout : (receiver.step pai framing.flag).2 <;> simp [Framing.sent, Receiver.feed, hout]

/-- Two netbufs with different sets of control characters; the second one is queued while the first
one is sent. -/
def twoPackets : List (SendEvent Bool) :=
  [.sendNetbuf false ⟨[0x00, 0x21], [0x7e], [], []⟩, .thread true, .setAccm 0,
    .sendNetbuf true ⟨[0xc0, 0x21], [], [0x05], []⟩] ++ List.replicate 16 (.thread false) ++
    [.thread true] ++ List.replicate 12 (.thread false)

theorem pppAhdlc_roundTrip_twoPackets :
    let pai := pppAhdlcClientAttach (pppAhdlcInstanceAlloc (fun _ _ => 0) 0)
    let s := exec sendStep (newSender (fun _ => none) fun _ => (⟨[], [], [], []⟩, 0)) twoPackets
    ∃ extra : List (List UInt8), extra.length ≤ 1 ∧
      (pppAhdlcRecv pai s.paiSendQueue.wire).2.map Packet.bytes =
        extra ++ [[0x00, 0x21, 0x7e], [0xc0, 0x21, 0x05]] :=
  ((pppAhdlc_roundTrip (pppAhdlcClientAttach (pppAhdlcInstanceAlloc (fun _ _ => 0) 0)) rfl
    (fun _ => none) (fun _ => (⟨[], [], [], []⟩, 0)) twoPackets (by decide) (by decide)).2
    (by decide)).2.imp fun _ h => ⟨h.1, h.2.2⟩

end Liquorice.PppAhdlc
