import Liquorice.Ipcp.Buffers
import Liquorice.Lib.Run

/-!
# The restart timer of IPCP

`ppp_ip_instance_alloc` makes the LCP instance the argument of the timer, and `ipcp_tick_timeout`
takes its argument for an IPCP instance. On the i386 both records begin with a lock of 12 octets;
the fields of the IPCP record that the callback uses are then octets of `pi_accm` and
`pi_local_magic_number` in the LCP record. Nothing sets the argument again, so that no expiry in any
run reaches the IPCP instance.
-/

namespace Liquorice.Ipcp

open Threads Threads.Prog Pii Run
open Lcp

/-- The instances of a link. -/
inductive Instance where
  | lcp | ipcp
  deriving DecidableEq

/-- A PPP link that carries IP. -/
structure Link where
  pi : Ppp
  pii : Pii
  /-- `pii_timeout_timer->os_arg` -/
  osArg : Instance

/-- `ppp_client_attach` -/
def pppClientAttach (pi : Ppp) (pc : Client) : Ppp :=
  if pi.piClientList.any (·.pcProtocol = pc.pcProtocol) then pi
  else { pi with piClientList := pc :: pi.piClientList }

/-- `ppp_ip_instance_alloc` -/
def pppIpInstanceAlloc (pi : Ppp) : Link where
  pi := pppClientAttach (pppClientAttach pi ⟨0x0021, false⟩) ⟨0x8021, true⟩
  pii := {}
  osArg := .lcp

/-- `ipcp_link_up` -/
def ipcpLinkUp : M := do
  handleEvent .up
  handleEvent .open

/-- `ipcp_tick_timeout` with the IPCP instance. -/
def ipcpTickTimeout : M := do
  modify fun s => { s with piiIdent := s.piiIdent - 1 }
  let s ← read
  handleEvent (if s.piiRestartCounter ≠ 0 then .toP else .toM)

/-- What an expiry of the timer comes to. -/
inductive Expiry where
  /-- The callback has returned. -/
  | returned (l : Link)
  /-- The callback is about to read `ppp_trans[t][column]` for the LCP instance. What `handle_event`
  does from there on is up to the memory behind the table and behind `pi_accm_usage`, which is taken
  for a timer. -/
  | astray (t : Trigger) (column : UInt8) (l : Link)

/-- `ipcp_tick_timeout` with the LCP instance: `pii_ident` is octet 2 of `pi_accm`, `pii_state` its
octet 1, and `pii_restart_counter` is octet 0 of `pi_local_magic_number`. -/
def tickTimeoutLcp (l : Link) : Expiry :=
  let ident := (l.pi.piAccm >>> 16).toUInt8 - 1
  let accm := l.pi.piAccm &&& (0xff00ffff : UInt32) ||| ident.toUInt32 <<< 16
  .astray (if l.pi.piLocalMagicNumber.toUInt8 ≠ 0 then .toP else .toM) (accm >>> 8).toUInt8
    { l with pi := { l.pi with piAccm := accm } }

/-- `oneshot_tick` has found the timer expired and taken it off the list. -/
def Link.expires (l : Link) : Expiry :=
  let l := { l with pii := l.pii.timerDetach }
  match l.osArg with
  | .ipcp => .returned { l with pii := (ipcpTickTimeout.complete l.pii).1 }
  | .lcp => tickTimeoutLcp l

/-- What happens on a link. -/
inductive Event where
  | lcp (e : Lcp.Event)
  /-- A packet for `ipcp_recv_netbuf`. -/
  | packet (p : Packet)
  /-- The timer expires. What the callback leaves of the two records, once astray, is anything. -/
  | expires (pi : Ppp) (pii : Pii)

/-- How often LCP has called `ipcp_link_up`. -/
def linkUpCalls (pi : Ppp) : Nat := pi.log.count (.linkUp 0x8021)

def Link.step (l : Link) : Event → Link
  | .lcp e =>
    let pi := Lcp.step l.pi e
    { l with
      pi := pi
      pii := Nat.repeat (fun pii => (ipcpLinkUp.complete pii).1)
        (linkUpCalls pi - linkUpCalls l.pi) l.pii }
  | .packet p => { l with pii := receive l.pii p }
  | .expires pi pii =>
    match l.expires with
    | .returned l' => l'
    | .astray _ _ l' => { l' with pi := pi, pii := pii }

theorem Link.expires_lcp {l : Link} (harg : l.osArg = .lcp) :
    l.expires = tickTimeoutLcp { l with pii := l.pii.timerDetach } := by
  simp [Link.expires, harg]

/-- The argument of the timer is what `ppp_ip_instance_alloc` has made it. -/
theorem Link.step_osArg {l : Link} (e : Event) (harg : l.osArg = .lcp) :
    (l.step e).osArg = .lcp := by
  cases e with
  | lcp e => exact harg
  | packet p => exact harg
  | expires pi pii =>
    rw [Link.step, Link.expires_lcp harg]
    exact harg

/-- Octet 2 of a word in which it has been replaced. -/
theorem octet_replaced (x : UInt32) (y : UInt8) :
    ((x &&& (0xff00ffff : UInt32) ||| y.toUInt32 <<< 16) >>> 16).toUInt8 = y := by
  apply UInt8.eq_of_toBitVec_eq
  simp only [UInt32.toBitVec_toUInt8, UInt32.toBitVec_shiftRight, UInt32.toBitVec_or,
    UInt32.toBitVec_and,
    UInt32.toBitVec_shiftLeft, UInt8.toBitVec_toUInt32]
  ext i hi
  have hmask : (0xff00ffff#32).getLsbD (16 + i) = false := by
    match i, hi with
    | 0, _ | 1, _ | 2, _ | 3, _ | 4, _ | 5, _ | 6, _ | 7, _ => rfl
  simp
  grind

/-- **No expiry of the IPCP restart timer reaches IPCP.** In every run, whatever the callback has
done to the two records at the expiries before, the next one counts an octet of `pi_accm` down and
goes astray with the LCP instance; no event has then been raised on the IPCP instance, which has
only lost its timer. -/
theorem no_expiry_reaches_ipcp (pi : Ppp) (es : List Event) :
    let l := exec Link.step (pppIpInstanceAlloc pi) es
    ∃ t column accm, accm ≠ l.pi.piAccm ∧ l.expires =
      .astray t column { l with pi := { l.pi with piAccm := accm }, pii := l.pii.timerDetach } := by
  intro l
  have hstep : ∀ (l : Link) (e : Event), l.osArg = .lcp → (l.step e).osArg = .lcp := fun _ =>
    Link.step_osArg
  have harg : l.osArg = .lcp := exec_preserves hstep rfl es
  rw [Link.expires_lcp harg]
  refine ⟨_, _, _, fun heq => ?_, rfl⟩
  have hoctet := congrArg (fun x : UInt32 => (x >>> 16).toUInt8) heq
  simp only [octet_replaced] at hoctet
  -- no octet is its own predecessor
  have hnat := congrArg UInt8.toNat hoctet
  rw [UInt8.toNat_sub, UInt8.toNat_one] at hnat
  omega

/-- The link when LCP has been opened by two packets of the peer and IPCP has sent its first
request. -/
def opening : Link :=
  exec Link.step (pppIpInstanceAlloc (Lcp.pppInstanceAlloc []))
    [.lcp (.packet (.ofData 2 1 [])), .lcp (.packet (.ofData 1 7 []))]

/-- **The first expiry misses IPCP**: it counts an octet of `pi_accm` down, looks for column 255 of
a table that has ten, and IPCP still waits with the request that it has sent. -/
theorem expires_misses_ipcp :
    opening.pi.piState = .opened ∧ opening.pii.piiState = .reqSent ∧
      opening.pii.piiRestartCounter = 9 ∧
      opening.pii.piiTimeoutTimer = 1 ∧ opening.pi.piAccm = 0xffffffff ∧
      opening.expires = .astray .toM 255
        { opening with
          pi := { opening.pi with piAccm := 0xfffeffff }
          pii := opening.pii.timerDetach } := by
  have haccm : opening.pi.piAccm = 0xffffffff := by decide +kernel
  have hmagic : opening.pi.piLocalMagicNumber = 0 := by decide +kernel
  have harg : opening.osArg = .lcp := by decide +kernel
  refine ⟨by decide +kernel, by decide +kernel, by decide +kernel, by decide +kernel, haccm, ?_⟩
  rw [Link.expires_lcp harg]
  simp only [tickTimeoutLcp, haccm, hmagic]
  rfl

end Liquorice.Ipcp
