import Liquorice.Lib.Framing
import Liquorice.Lib.SendQueue

/-!
# The SLIP driver

A model of `lib/slip/slip.c`. The receiver (`slipRecvU8`) is called for each octet from the serial
line; it collects a packet in a buffer from `membuf_alloc`, whose contents are whatever was there
before. The send side is the queue of netbufs with the thread that sends them (`Lib.SendQueue`).

The main result is `slip_roundTrip`: behind any noise the packets that were queued come out of the
receiver, once each and in order, and the receive buffer is only written where it has room.
-/

namespace Liquorice.Slip

open Run

/-- Maximum receive packet size. -/
def mru : Nat := 576

def slipEnd : UInt8 := 0xc0

def slipEsc : UInt8 := 0xdb

/-! ## The receiver -/

/-- The receive part of a `struct slip_instance`. -/
structure Instance where
  /-- A client is attached (`idi_client`). -/
  idiClient : Bool
  siRecvEsc : Bool
  siRecvOctets : Nat
  siRecvIgnore : Bool
  siRecvPacket : Nat → UInt8
  /-- What is in the buffers that `membuf_alloc` is going to return. -/
  membufs : Nat → Nat → UInt8
  /-- The indices at which a receive buffer was ever written. -/
  writes : List Nat

namespace Instance

/-- `si->si_recv_packet = membuf_alloc(MRU, NULL)` -/
def allocPacket (si : Instance) : Instance :=
  { si with siRecvPacket := si.membufs 0, membufs := fun n => si.membufs (n + 1) }

/-- What is done at every END. -/
def restart (si : Instance) : Instance :=
  { si with siRecvOctets := 0, siRecvEsc := false, siRecvIgnore := false }

/-- `si->si_recv_packet[si->si_recv_octets++] = ch`, and the test for a packet that is too long. -/
def storeOctet (si : Instance) (ch : UInt8) : Instance :=
  let octets := (si.siRecvOctets + 1) % 0x10000
  { si with
    siRecvPacket := Function.update si.siRecvPacket si.siRecvOctets ch
    siRecvOctets := octets
    siRecvIgnore := si.siRecvIgnore || decide (mru ≤ octets)
    writes := si.writes ++ [si.siRecvOctets] }

/-- The octets of the netbuf that is built from the receive buffer. -/
def nbNetwork (si : Instance) : List UInt8 := (List.range si.siRecvOctets).map si.siRecvPacket

end Instance

/-- `slip_recv_u8()`: the state behind an octet, and the packet passed to `idc_recv` if there is
one. -/
def slipRecvU8 (si : Instance) (ch : UInt8) : Instance × Option (List UInt8) :=
  if ch = slipEnd then
    if si.siRecvIgnore = false ∧ si.siRecvOctets ≠ 0 then
      (si.allocPacket.restart, if si.idiClient then some si.nbNetwork else none)
    else (si.restart, none)
  else if si.siRecvIgnore then (si, none)
  else if ch = slipEsc then
    if si.siRecvEsc then ({ si with siRecvIgnore := true }, none)
    else ({ si with siRecvEsc := true }, none)
  else if si.siRecvEsc then
    if ch = 0xdc then ({ si with siRecvEsc := false }.storeOctet slipEnd, none)
    else if ch = 0xdd then ({ si with siRecvEsc := false }.storeOctet slipEsc, none)
    -- An octet that must not follow an escape: the escape flag stays set.
    else ({ si with siRecvIgnore := true }, none)
  else (si.storeOctet ch, none)

/-- `slip_instance_alloc()`: until the first END everything is ignored. -/
def slipInstanceAlloc (membufs : Nat → Nat → UInt8) : Instance :=
  { idiClient := false, siRecvEsc := false, siRecvOctets := 0, siRecvIgnore := true,
    siRecvPacket := membufs 0, membufs := fun n => membufs (n + 1), writes := [] }

/-- `slip_client_attach()` -/
def slipClientAttach (si : Instance) : Instance := { si with idiClient := true }

/-- The framing of SLIP. -/
def framing : Framing where
  flag := slipEnd
  esc := slipEsc
  unescape ch := if ch = 0xdc then some slipEnd else if ch = 0xdd then some slipEsc else none
  limit := mru
  esc_ne_flag := by decide

/-- What the receiver has collected. -/
def Instance.view (si : Instance) : Framing.Rx :=
  { data := si.nbNetwork, escaped := si.siRecvEsc, ignore := si.siRecvIgnore }

/-- With a client: the buffer has room for the next octet that is not ignored, and it was only
written within its size. -/
structure Instance.Inv (si : Instance) : Prop where
  client : si.idiClient
  octets : si.siRecvOctets ≤ mru
  room : si.siRecvIgnore = false → si.siRecvOctets < mru
  writes : ∀ i ∈ si.writes, i < mru

namespace Instance

variable {si : Instance} {ch : UInt8}

theorem octets_storeOctet (h : si.siRecvOctets < mru) (ch : UInt8) :
    (si.storeOctet ch).siRecvOctets = si.siRecvOctets + 1 :=
  Nat.mod_eq_of_lt (by unfold mru at h; omega)

/-- The packet is longer by the octet that was stored. -/
theorem nbNetwork_storeOctet (h : si.siRecvOctets < mru) :
    (si.storeOctet ch).nbNetwork = si.nbNetwork ++ [ch] := by
  rw [nbNetwork, octets_storeOctet h ch]
  exact Framing.map_range_update _ _ _

/-- Storing an octet, with the escape flag cleared, is what the framing says. -/
theorem view_storeOctet (h : si.siRecvOctets < mru) (hignore : si.siRecvIgnore = false)
    (hesc : si.siRecvEsc = false) : (si.storeOctet ch).view = framing.store si.view ch := by
  have hoctets : (si.siRecvOctets + 1) % 0x10000 = si.siRecvOctets + 1 := octets_storeOctet h ch
  rw [view, nbNetwork_storeOctet h]
  simp [Framing.store, view, nbNetwork, storeOctet, framing, hignore, hesc, hoctets]

theorem Inv.storeOctet (h : si.Inv) (hignore : si.siRecvIgnore = false) (ch : UInt8) :
    (si.storeOctet ch).Inv := by
  have hroom := h.room hignore
  have hoctets := octets_storeOctet hroom ch
  refine ⟨h.client, by omega, ?_, ?_⟩
  · intro hstored
    rw [hoctets]
    simp only [Instance.storeOctet] at hstored hoctets
    simp only [hoctets, Bool.or_eq_false_iff, decide_eq_false_iff_not] at hstored
    omega
  intro i hi
  rcases List.mem_append.1 hi with hi | hi
  · exact h.writes i hi
  · rw [List.mem_singleton.1 hi]
    exact hroom

/-- What an octet other than END does. -/
def perform (si : Instance) : Framing.Act → Instance
  | .skip => si
  | .escape => { si with siRecvEsc := true }
  | .reject => { si with siRecvIgnore := true }
  | .store b => { si with siRecvEsc := false }.storeOctet b

end Instance

/-! ### The receiver against the framing -/

section Recv

variable {si : Instance} {ch : UInt8}

/-- The code decides what to do with an octet as the framing does. -/
theorem slipRecvU8_of_ne (hch : ch ≠ slipEnd) :
    slipRecvU8 si ch = (si.perform (framing.act si.siRecvEsc si.siRecvIgnore ch), none) := by
  rw [slipRecvU8, if_neg hch, Framing.act]
  by_cases hignore : si.siRecvIgnore
  · rw [if_pos hignore, if_pos hignore]
    rfl
  rw [if_neg hignore, if_neg hignore]
  by_cases hesc : ch = slipEsc
  · rw [if_pos hesc, if_pos (show ch = framing.esc from hesc)]
    split <;> rfl
  rw [if_neg hesc, if_neg (show ¬ ch = framing.esc from hesc)]
  by_cases he : si.siRecvEsc
  · rw [if_pos he, if_pos he]
    by_cases hdc : ch = 0xdc
    · simp [framing, hdc, Instance.perform]
    by_cases hdd : ch = 0xdd
    · simp [framing, hdd, Instance.perform]
    simp [framing, hdc, hdd, Instance.perform]
  · have hclear : { si with siRecvEsc := false } = si := by rw [← Bool.eq_false_iff.2 he]
    rw [if_neg he, if_neg he, Instance.perform, hclear]

theorem view_perform (h : si.Inv) (ch : UInt8) :
    (si.perform (framing.act si.siRecvEsc si.siRecvIgnore ch)).view = framing.recv si.view ch := by
  have hact : framing.recv si.view ch =
    framing.perform si.view (framing.act si.siRecvEsc si.siRecvIgnore ch) := rfl
  rw [hact]
  cases hcase : framing.act si.siRecvEsc si.siRecvIgnore ch with
  | skip => rfl
  | escape => rfl
  | reject => rfl
  | store b =>
    have hignore := Framing.act_store hcase
    exact Instance.view_storeOctet (h.room hignore) hignore rfl

theorem inv_perform (h : si.Inv) (ch : UInt8) :
    (si.perform (framing.act si.siRecvEsc si.siRecvIgnore ch)).Inv := by
  cases hcase : framing.act si.siRecvEsc si.siRecvIgnore ch with
  | skip => exact h
  | escape => exact ⟨h.client, h.octets, h.room, h.writes⟩
  | reject => exact ⟨h.client, h.octets, nofun, h.writes⟩
  | store b =>
    have hclear : ({ si with siRecvEsc := false } : Instance).Inv :=
      ⟨h.client, h.octets, h.room, h.writes⟩
    exact hclear.storeOctet (Framing.act_store hcase) b

theorem view_slipRecvU8_end (si : Instance) : (slipRecvU8 si slipEnd).1.view = {} := by
  rw [slipRecvU8, if_pos rfl]
  split <;> rfl

theorem inv_slipRecvU8_end (h : si.Inv) : (slipRecvU8 si slipEnd).1.Inv := by
  have hroom : 0 < mru := by decide
  rw [slipRecvU8, if_pos rfl]
  split
  · exact ⟨h.client, Nat.zero_le _, fun _ => hroom, h.writes⟩
  · exact ⟨h.client, Nat.zero_le _, fun _ => hroom, h.writes⟩

/-- What is passed to the client at an END: all that was collected, if that is not ignored. -/
def handOver (r : Framing.Rx) : Option (List UInt8) := if r.ignore = false ∧ r.data ≠ []
    then some r.data else none

theorem slipRecvU8_end_out (h : si.Inv) : (slipRecvU8 si slipEnd).2 = handOver si.view := by
  have hempty : si.nbNetwork = [] ↔ si.siRecvOctets = 0 := by simp [Instance.nbNetwork]
  rw [slipRecvU8, if_pos rfl, h.client, handOver]
  simp only [Instance.view, ne_eq, hempty]
  split <;> rfl

end Recv

/-- The receiver of `slip.c` as a receiver of frames. -/
def receiver : Receiver framing Instance (List UInt8) (List UInt8) where
  step := slipRecvU8
  view := Instance.view
  Inv := Instance.Inv
  out := id
  deliver p := if p = [] then none else some p
  Known _ := True
  recv_view h hch := by rw [slipRecvU8_of_ne hch]; exact view_perform h _
  recv_inv h hch := by rw [slipRecvU8_of_ne hch]; exact inv_perform h _
  recv_out hch := by rw [slipRecvU8_of_ne hch]
  flag_view := view_slipRecvU8_end
  flag_inv := inv_slipRecvU8_end
  flag_out h hp _ := by
    rw [Option.map_id, id, show framing.flag = slipEnd from rfl, slipRecvU8_end_out h, hp]
    simp [handOver, ite_not]
  empty_known := trivial
  empty_out := rfl

/-! ## The send side -/

/-- The layers of a netbuf that the driver sends. -/
structure Netbuf where
  nbNetwork : List UInt8
  nbTransport : List UInt8
  nbApplication : List UInt8
  deriving DecidableEq

/-- All octets of the packet. -/
def Netbuf.bytes (nb : Netbuf) : List UInt8 := nb.nbNetwork ++ nb.nbTransport ++ nb.nbApplication

/-- The body of the loop of `slip_send_sequence()`. -/
def slipSendOctet (ch : UInt8) : List UInt8 :=
  if ch = slipEnd then [slipEsc, 0xdc] else if ch = slipEsc then [slipEsc, 0xdd] else [ch]

/-- `slip_send_sequence()`: the count is a `u16_t`. -/
def slipSendSequence (buf : List UInt8) : List UInt8 :=
  (buf.take (buf.length % 0x10000)).flatMap slipSendOctet

/-- What `slip_send_thread()` sends for a netbuf. -/
def slipSendPacket (nb : Netbuf) : List UInt8 :=
  [slipEnd] ++ slipSendSequence nb.nbNetwork
    ++ (if nb.nbTransport.length ≠ 0 then slipSendSequence nb.nbTransport else [])
    ++ (if nb.nbApplication.length ≠ 0 then slipSendSequence nb.nbApplication else [])
    ++ [slipEnd]

/-- A step of the send side: `slip_send_netbuf()` for a netbuf at an address, or one of the
thread. -/
def sendStep {α : Type} [DecidableEq α] [Fintype α] :
    SendQueue α Netbuf → SendQueue.Event α Netbuf → SendQueue α Netbuf :=
  SendQueue.step slipSendPacket

theorem slipSendOctet_encodes : framing.Encodes slipSendOctet := by
  intro b
  unfold slipSendOctet
  by_cases hend : b = slipEnd
  · exact Or.inr ⟨0xdc, by rw [if_pos hend]; rfl, by decide, by decide, by rw [hend]; rfl⟩
  by_cases hesc : b = slipEsc
  · exact Or.inr
      ⟨0xdd, by rw [if_neg hend, if_pos hesc]; rfl, by decide, by decide, by rw [hesc]; rfl⟩
  exact Or.inl ⟨by rw [if_neg hend, if_neg hesc], hend, hesc⟩

theorem slipSendSequence_eq {buf : List UInt8} (h : buf.length < 0x10000) :
    slipSendSequence buf = buf.flatMap slipSendOctet := by
  rw [slipSendSequence, Nat.mod_eq_of_lt h, List.take_length]

/-- A packet is sent as one frame. -/
theorem slipSendPacket_eq {nb : Netbuf} (h : nb.bytes.length < 0x10000) :
    slipSendPacket nb = framing.sent slipSendOctet nb.bytes := by
  simp only [Netbuf.bytes, List.length_append] at h
  have hempty : ∀ buf : List UInt8, buf.length < 0x10000 →
      (if buf.length ≠ 0 then slipSendSequence buf else []) = buf.flatMap slipSendOctet := by
    intro buf hbuf
    by_cases hzero : buf.length = 0
    · rw [if_neg (not_not.2 hzero), List.length_eq_zero_iff.1 hzero]
      rfl
    · rw [if_pos hzero, slipSendSequence_eq hbuf]
  rw [slipSendPacket, slipSendSequence_eq (by omega), hempty _ (by omega), hempty _ (by omega)]
  simp [Framing.sent, Netbuf.bytes, framing]

/-! ## Round trip -/

/-- The receiver over a sequence of octets. -/
def slipRecv (si : Instance) (bs : List UInt8) : Instance × List (List UInt8) := receiver.feed si bs

theorem slipClientAttach_inv (membufs : Nat → Nat → UInt8) :
    (slipClientAttach (slipInstanceAlloc membufs)).Inv :=
  ⟨rfl, Nat.zero_le _, nofun, nofun⟩

/-- Noise and packets in a row: the packets come out behind what the noise gave up to the first
END. -/
theorem slipRecv_sent {si : Instance} (h : si.Inv) (g : List UInt8) (nbs : List Netbuf)
    (hsize : ∀ nb ∈ nbs, 1 ≤ nb.bytes.length ∧ nb.bytes.length < mru) :
    let wire := nbs.flatMap fun nb => framing.sent slipSendOctet nb.bytes
    (slipRecv si (g ++ wire)).2 = (slipRecv si (g ++ wire.take 1)).2 ++ nbs.map Netbuf.bytes := by
  intro wire
  have hg : (receiver.feed si g).1.Inv := receiver.feed_inv h g
  have hsent := receiver.feed_sent (fun _ => slipSendOctet) Netbuf.bytes nbs
    (fun _ _ => slipSendOctet_encodes) (fun nb hnb => (hsize nb hnb).2) (fun _ _ => trivial)
    (receiver.flag_inv hg)
  have hdeliver : (nbs.filterMap fun nb => receiver.deliver nb.bytes) = nbs.map Netbuf.bytes := by
    rw [← List.filterMap_eq_map]
    apply List.filterMap_congr
    intro nb hnb
    have hne : nb.bytes ≠ [] := List.ne_nil_of_length_pos (hsize nb hnb).1
    simp [receiver, hne]
  have hfirst : (receiver.feed (receiver.feed si g).1 (wire.take 1)).2 = if nbs = [] then [] else
      ((receiver.step (receiver.feed si g).1 framing.flag).2.map id).toList := by
    cases nbs with
    | nil => rfl
    | cons nb nbs => simp [wire, Framing.sent, Receiver.feed]
  rw [slipRecv, slipRecv, Receiver.feed_append, Receiver.feed_append, hfirst, List.append_assoc,
    ← hdeliver]
  exact congrArg _ ((List.map_id _).symm.trans hsent)

/-- **Round trip and resynchronisation.** The receiver has got any `stream` since a client attached.
It is within its buffer. Buffers are queued, when they are not in the queue, and sent in any
interleaving; the thread can always go on until all that was queued is sent. Whenever it is between
two packets, some noise `g` and what it has sent give what the noise and the first END give, and
then exactly the packets it took, in the order in which they were queued. -/
theorem slip_roundTrip {α : Type} [DecidableEq α] [Fintype α] (membufs : Nat → Nat → UInt8)
    (stream g : List UInt8) (next : α → Option α) (item : α → Netbuf)
    (es : List (SendQueue.Event α Netbuf))
    (hfree : Along sendStep SendQueue.Free (SendQueue.new next item) es)
    (hsize : ∀ nb ∈ (exec sendStep (SendQueue.new next item) es).queued,
      1 ≤ nb.bytes.length ∧ nb.bytes.length ≤ mru - 1) :
    let si := (slipRecv (slipClientAttach (slipInstanceAlloc membufs)) stream).1
    let q := exec sendStep (SendQueue.new next item) es
    (si.siRecvOctets ≤ mru ∧ ∀ i ∈ si.writes, i < mru) ∧
    (∃ ts : List (SendQueue.Event α Netbuf), (∀ e ∈ ts, e.IsThread) ∧
      (exec sendStep q ts).sending = [] ∧ (exec sendStep q ts).taken = q.queued) ∧
    (q.sending = [] → q.queued = q.taken ++ q.cells.map q.item ∧
      (slipRecv si (g ++ q.wire)).2 = (slipRecv si (g ++ q.wire.take 1)).2 ++
          q.taken.map Netbuf.bytes) := by
  intro si q
  have hsi : si.Inv := receiver.feed_inv (slipClientAttach_inv membufs) stream
  have hq : q.Inv slipSendPacket := SendQueue.inv_exec _ next item hfree
  refine ⟨⟨hsi.octets, hsi.writes⟩, ?_, ?_⟩
  · exact hq.drains
  intro hidle
  have htaken : ∀ nb ∈ q.taken, 1 ≤ nb.bytes.length ∧ nb.bytes.length < mru := by
    intro nb hnb
    have hmem : nb ∈ q.queued := by
      rw [hq.queued_eq]
      exact List.mem_append_left _ hnb
    have := hsize nb hmem
    unfold mru at this ⊢
    omega
  refine ⟨hq.queued_eq, ?_⟩
  have hwire : q.wire = q.taken.flatMap fun nb => framing.sent slipSendOctet nb.bytes := by
    rw [hq.wire_eq hidle]
    exact List.flatMap_congr fun nb hnb =>
      slipSendPacket_eq (Nat.lt_trans (htaken nb hnb).2 (by decide))
  rw [hwire]
  exact slipRecv_sent hsi g q.taken htaken

/-- Two netbufs; the second one is queued while the first one is sent. -/
def twoPackets : List (SendQueue.Event Bool Netbuf) :=
  [.put false ⟨[0xc0], [], [0x01]⟩, .take, .emit, .put true ⟨[0x45], [0xdb], []⟩]
    ++ List.replicate 4 .emit ++ [.take] ++ List.replicate 5 .emit

theorem slip_roundTrip_twoPackets :
    let si := (slipRecv (slipClientAttach (slipInstanceAlloc fun _ _ => 0)) [0xc0, 0x07]).1
    let q := exec sendStep (SendQueue.new (fun _ => none) fun _ => ⟨[], [], []⟩) twoPackets
    (slipRecv si ([0xdb] ++ q.wire)).2 =
      (slipRecv si ([0xdb] ++ q.wire.take 1)).2 ++ [[0xc0, 0x01], [0x45, 0xdb]] :=
  ((slip_roundTrip (fun _ _ => 0) [0xc0, 0x07] [0xdb] (fun _ => none)
    (fun _ => ⟨[], [], []⟩) twoPackets
    (by decide) (by decide)).2.2 (by decide)).2

/-- A netbuf is queued again while it waits in front of another one, and the thread sends all there
is. -/
def requeued : List (SendQueue.Event Bool Netbuf) :=
  [.put false ⟨[0x01], [], []⟩, .put true ⟨[0x02], [], []⟩, .put false ⟨[0x01], [], []⟩, .take]
    ++ List.replicate 3 .emit ++ [.take]

/-- **A netbuf that is queued again cuts the queue behind itself.** Of three packets one is sent. -/
theorem slip_requeued_lost :
    let si := slipClientAttach (slipInstanceAlloc fun _ _ => 0)
    let q := exec sendStep (SendQueue.new (fun _ => none) fun _ => ⟨[], [], []⟩) requeued
    q.queued.map Netbuf.bytes = [[0x01], [0x02], [0x01]] ∧ q.sending = [] ∧ q.cells = [] ∧
      (slipRecv si q.wire).2 = [[0x01]] := by
  decide

/-! ## Streams of any kind -/

/-- Octets that stand for others are the encoding of those. -/
theorem eq_of_unstuff {raw p : List UInt8} (hend : slipEnd ∉ raw)
    (h : framing.unstuff raw = some p) :
    raw = p.flatMap slipSendOctet := by
  fun_induction framing.unstuff raw generalizing p with
  | case1 => cases h; rfl
  | case2 => cases h
  | case3 ch bs ih =>
    simp only [Option.bind_eq_bind, Option.bind_eq_some_iff] at h
    obtain ⟨b, hb, q, hq, hp⟩ := h
    cases hp
    have hch : slipSendOctet b = [slipEsc, ch] := by
      simp only [framing] at hb
      grind [slipSendOctet, slipEnd, slipEsc]
    rw [List.flatMap_cons, hch, ← ih (by simp_all) hq]
    rfl
  | case4 ch bs hch ih =>
    simp only [Option.bind_eq_bind, Option.bind_eq_some_iff] at h
    obtain ⟨q, hq, hp⟩ := h
    cases hp
    rw [List.mem_cons, not_or] at hend
    have hplain : slipSendOctet ch = [ch] := by
      rw [slipSendOctet, if_neg fun h => hend.1 h.symm, if_neg (show ¬ ch = slipEsc from hch)]
    rw [List.flatMap_cons, hplain, ← ih hend.2 hq]
    rfl

/-- A segment is handed over exactly if it is the encoding of a packet that is not empty and shorter
than the limit, or such an encoding with an escape behind it. -/
theorem handOver_iff {seg : List UInt8} (hend : slipEnd ∉ seg) (p : List UInt8) :
    handOver (framing.collect {} seg) = some p ↔ p ≠ [] ∧ p.length < mru ∧
      (seg = slipSendSequence p ∨ seg = slipSendSequence p ++ [slipEsc]) := by
  constructor
  · intro h
    obtain ⟨⟨hignore, hne⟩, hp⟩ := (Option.ite_none_right_eq_some ..).mp h
    obtain rfl := Option.some.inj hp
    have hlt := Framing.length_collect (by decide) hignore
    rw [slipSendSequence_eq (Nat.lt_trans hlt (by decide))]
    have hencoded : ∀ raw, slipEnd ∉ raw →
        framing.collect {} raw = { data := (framing.collect {} seg).data } →
        raw = (framing.collect {} seg).data.flatMap slipSendOctet := by
      intro raw hraw hcollect
      obtain ⟨q, hq, hunstuff⟩ := Framing.unstuff_of_collect raw [] _ hcollect
      rw [show (framing.collect {} seg).data = q from hq]
      exact eq_of_unstuff hraw hunstuff
    refine ⟨hne, hlt, ?_⟩
    cases hescaped : (framing.collect {} seg).escaped with
    | false => exact Or.inl (hencoded seg hend (Framing.Rx.ext rfl hescaped hignore))
    | true =>
      obtain ⟨front, hfront, hcollect⟩ := Framing.collect_escaped hescaped hignore
      rw [← hencoded front (fun hmem => hend (by simp [hfront, hmem])) hcollect]
      exact Or.inr hfront
  · rintro ⟨hne, hlt, hseg⟩
    have hcollect := slipSendOctet_encodes.collect_octets [] p (by simpa [framing] using hlt)
    rw [slipSendSequence_eq (Nat.lt_trans hlt (by decide))] at hseg
    rcases hseg with rfl | rfl
    · rw [hcollect]
      exact if_pos ⟨rfl, hne⟩
    · rw [Framing.collect_append, hcollect]
      exact if_pos ⟨rfl, hne⟩

/-- No encoding ends with an escape. -/
theorem slipSendSequence_ne {p q : List UInt8} (hp : p.length < mru) (hq : q.length < mru) :
    slipSendSequence p ++ [slipEsc] ≠ slipSendSequence q := by
  have hcollect : ∀ p : List UInt8, p.length < mru →
      framing.collect {} (slipSendSequence p) = { data := p } := by
    intro p hlt
    rw [slipSendSequence_eq (Nat.lt_trans hlt (by decide))]
    exact slipSendOctet_encodes.collect_octets [] p (by simpa [framing] using hlt)
  intro heq
  have hescaped := congrArg (fun seg => (framing.collect {} seg).escaped) heq
  simp only [Framing.collect_append, hcollect p hp, hcollect q hq] at hescaped
  exact absurd hescaped
    (by simp [Framing.collect, Framing.recv, Framing.act, Framing.perform, framing])

/-- Behind the first END the segments are handed over one by one; what precedes it is ignored. -/
theorem slipRecv_segments (membufs : Nat → Nat → UInt8) (stream : List UInt8) :
    (slipRecv (slipClientAttach (slipInstanceAlloc membufs)) stream).2 =
      (Framing.segments slipEnd [] stream).tail.filterMap fun seg =>
        handOver (framing.collect {} seg) := by
  have hempty : (slipClientAttach (slipInstanceAlloc membufs)).view =
      framing.collect { ignore := true } [] := rfl
  have hfirst := receiver.feed_segments (fun _ => slipRecvU8_end_out) (slipClientAttach_inv membufs)
    hempty stream
  have hflag : framing.flag = slipEnd := rfl
  rw [slipRecv, hfirst, hflag]
  cases Framing.segments slipEnd [] stream with
  | nil => rfl
  | cons seg segs =>
    simp only [Framing.collect_ignore]
    rfl

/-- **When decoding is canonical.** Of the segments between two ENDs exactly the encodings of
packets that are not empty and shorter than the limit are passed to the client, as these packets and
in the order of the stream, unless one of the segments is such an encoding with an escape behind it;
and if one is, they are not. -/
theorem slip_canonical (membufs : Nat → Nat → UInt8) (stream : List UInt8) :
    let segs := (Framing.segments slipEnd [] stream).tail
    (∃ decode : List UInt8 → Option (List UInt8),
      (∀ seg ∈ segs, ∀ p, decode seg = some p ↔
        p ≠ [] ∧ p.length < mru ∧ seg = slipSendSequence p) ∧
      (slipRecv (slipClientAttach (slipInstanceAlloc membufs)) stream).2 = segs.filterMap decode) ↔
    ∀ seg ∈ segs, ∀ p, p ≠ [] → p.length < mru → seg ≠ slipSendSequence p ++ [slipEsc] := by
  intro segs
  have hend : ∀ seg ∈ segs, slipEnd ∉ seg := fun seg hseg =>
    Framing.notMem_segments List.not_mem_nil (List.mem_of_mem_tail hseg)
  rw [slipRecv_segments]
  constructor
  · rintro ⟨decode, hdecode, hout⟩ seg hseg p hne hlt rfl
    have hle : ∀ seg ∈ segs, ∀ p, decode seg = some p →
        handOver (framing.collect {} seg) = some p := by
      intro seg hseg p hp
      obtain ⟨hne, hlt, heq⟩ := (hdecode seg hseg p).1 hp
      exact (handOver_iff (hend seg hseg) p).2 ⟨hne, hlt, Or.inl heq⟩
    -- the code hands over a packet for this segment, which is the encoding of none
    have hsame := Framing.filterMap_inj hle hout.symm _ hseg
    rw [(handOver_iff (hend _ hseg) p).2 ⟨hne, hlt, Or.inr rfl⟩] at hsame
    obtain ⟨-, -, heq⟩ := (hdecode _ hseg p).1 hsame
    exact slipSendSequence_ne hlt hlt heq
  · intro hesc
    refine ⟨fun seg => handOver (framing.collect {} seg), fun seg hseg p => ?_, rfl⟩
    rw [handOver_iff (hend seg hseg)]
    constructor
    · rintro ⟨hne, hlt, heq | heq⟩
      · exact ⟨hne, hlt, heq⟩
      · exact absurd heq (hesc seg hseg p hne hlt)
    · rintro ⟨hne, hlt, heq⟩
      exact ⟨hne, hlt, Or.inl heq⟩

/-- An escape directly before an END is dropped, and what precedes it passed to the client. -/
theorem slip_truncated_delivered :
    (slipRecv (slipClientAttach (slipInstanceAlloc fun _ _ => 0)) [0xc0, 0x01, 0xdb, 0xc0]).2 =
    [[0x01]] ∧
      [0x01, 0xdb] ≠ slipSendSequence [0x01] := by
  decide

end Liquorice.Slip
