import Liquorice.Ipcp.Buffers
import Liquorice.Lcp.Accm
import Liquorice.Lcp.Frame
import Liquorice.Lcp.Requests

/-!
# The values that a request sets

The options of a Configure-Request take effect one by one while the reply is built. A request that
is refused leaves a value alone exactly if the last option in it that would be acceptable repeats
the value; in OPENED, which such a request ends, if the value is the default
(`refused_request_keeps`, `refused_request_sets`).

The check of the MRU, `mru >= 64 || mru <= 1500`, lets every number pass. With an MRU below 16 the
length of a Protocol-Reject wraps around (`protocolReject_wraps`); it fits if the peer keeps to the
range (`protocolReject_fits`).
-/

namespace Liquorice.Lcp

open Run Threads Threads.Prog Ppp

variable {s : Ppp} {p : Packet} {o : UInt8 × List UInt8}

/-! ## Requests -/

/-- The number in an MRU option. -/
def mruOption (o : UInt8 × List UInt8) : Option UInt16 :=
  if o.1 = 1 ∧ o.2.length = 2 then some (word16 o.2) else none

/-- The numbers in the MRU options of a packet. -/
def Packet.mrus (p : Packet) : List UInt16 := p.options.filterMap mruOption

/-- The values that are negotiated. -/
def Ppp.values (s : Ppp) : UInt16 × UInt32 := (s.piMru, s.piAccm)

theorem mem_mrus (ho : o ∈ p.options) (h : o.1 = 1 ∧ o.2.length = 2) : word16 o.2 ∈ p.mrus :=
  List.mem_filterMap.mpr ⟨o, ho, if_pos h⟩

theorem mem_accms (ho : o ∈ p.options) (h : o.1 = 2 ∧ o.2.length = 4) : word32 o.2 ∈ p.accms :=
  List.mem_filterMap.mpr ⟨o, ho, if_pos h⟩

section Options

variable {P : UInt16 × UInt32 → Prop} (hmru : ∀ m ∈ p.mrus, ∀ v, P v → P (m, v.2))
  (haccm : ∀ m ∈ p.accms, m &&& accmMask = accmMask → ∀ v, P v → P (v.1, m)) (h : P s.values)

include hmru haccm h

/-- What the acceptable options of a request keep, `lcp_check_request` keeps. -/
theorem lcpCheckRequest_keeps : P ((lcpCheckRequest p s).mru, (lcpCheckRequest p s).accm) := by
  refine checkRequest_options (P := fun c : Check => P (c.mru, c.accm)) ?_ ?_ h
  · exact fun c opt hc => hc
  intro o ho c hc
  rw [checkOption]
  split
  · rename_i hopt
    dsimp only
    split
    · rename_i hlen
      exact hmru _ (mem_mrus ho ⟨hopt, hlen.1⟩) _ hc
    · exact hc
  split
  · rename_i hopt
    dsimp only
    split
    · rename_i hlen
      exact haccm _ (mem_accms ho ⟨hopt, hlen.1⟩) hlen.2 _ hc
    · exact hc
  · exact hc

/-- What the acceptable options of an acknowledgement keep, `lcp_check_ack` keeps. -/
theorem lcpCheckAck_keeps : P (lcpCheckAck p s).values := by
  rw [lcpCheckAck, checkReply_eq]
  refine List.foldlRecOn p.options _ (motive := fun s' : Ppp => P s'.values) h ?_
  intro s' hs' o ho
  rw [ackOption]
  split
  · rename_i hopt
    dsimp only
    split
    · exact hmru _ (mem_mrus ho hopt) _ hs'
    · exact hs'
  split
  · rename_i hopt
    dsimp only
    split
    · rename_i hmask
      exact haccm _ (mem_accms ho hopt) hmask _ hs'
    · exact hs'
  · exact hs'

end Options

/-! ## Actions -/

/-- A simple action leaves the values alone, but for the one that goes back to the defaults. -/
theorem values_act_simple {a : Action} (ha : a.parts = [a]) (s : Ppp) :
    (act a s).values = if a = .tld then (1500, 0xffffffff) else s.values := by
  cases a with
  | tld =>
    have hcomplete : act .tld s = { s.defaultOptions with piPhase := .terminate } := rfl
    rw [hcomplete, defaultOptions, implementOptions_frame]
    rfl
  | tlu =>
    have hcomplete : act .tlu s = ((linkUps s.implementOptions.piClientList).complete
        { s.implementOptions with piPhase := .network }).1 := rfl
    rw [hcomplete, complete_linkUps, implementOptions_frame]
    rfl
  | scr =>
    rw [act, handleAction, complete_scr]
    split <;> rfl
  | str =>
    rw [act, handleAction, complete_str]
    split <;> rfl
  | sca | scn | sta | ser | tls | tlf | irc | zrc => rfl
  | _ => exact absurd ha (by decide)

theorem values_foldl_act {l : List Action} (hl : ∀ a ∈ l, a.parts = [a]) (s : Ppp) :
    (l.foldl (fun s a => act a s) s).values = if .tld ∈ l then (1500, 0xffffffff)
    else s.values := by
  induction l generalizing s with
  | nil => rfl
  | cons a l ih =>
    rw [List.foldl_cons, ih fun b hb => hl b (List.mem_cons_of_mem a hb),
      values_act_simple (hl a List.mem_cons_self)]
    simp only [List.mem_cons, eq_comm (a := Action.tld)]
    by_cases ha : a = .tld <;> simp [ha]

theorem values_handleEvent (t : Trigger) (s : Ppp) : ((handleEvent t).complete s).1.values =
    if .tld ∈ (pppTrans t s.piState).1.parts then (1500, 0xffffffff) else s.values := by
  have hacted : (acted t s).values =
      if .tld ∈ (pppTrans t s.piState).1.parts then (1500, 0xffffffff) else s.values := by
    rw [acted, act_parts]
    exact values_foldl_act (fun a ha => parts_simple ha) _
  rw [complete_handleEvent]
  split
  · exact hacted
  · exact hacted

/-! ## Requests that are refused -/

/-- The address in an address option of IPCP. -/
def addrOption (o : UInt8 × List UInt8) : Option UInt32 :=
  if o.1 = 3 ∧ o.2.length = 4 then some (word32 o.2) else none

/-- The acceptable map of an ACCM option. -/
def acceptableAccm (o : UInt8 × List UInt8) : Option UInt32 := (accmOption o).filter fun m =>
    m &&& accmMask = accmMask

/-- The last option that is acceptable sets a value. -/
theorem values_lcpCheckRequest : (lcpCheckRequest p s).mru = p.mrus.getLastD s.piMru ∧
    (lcpCheckRequest p s).accm = (p.options.filterMap acceptableAccm).getLastD s.piAccm := by
  constructor
  · rw [lcpCheckRequest]
    refine checkRequest_getLastD (fun c : Check => c.mru) ?_ ?_ _
    · exact fun _ _ => rfl
    intro c o
    simp only [checkOption, mruOption, mru_passes, and_true]
    by_cases hopt : o.1 = 1
    · by_cases hlen : o.2.length = 2 <;> simp [hopt, hlen]
    · simp only [hopt, if_false, false_and, Option.getD_none]
      split
      · split <;> rfl
      · rfl
  · rw [lcpCheckRequest]
    refine checkRequest_getLastD (fun c : Check => c.accm) ?_ ?_ _
    · exact fun _ _ => rfl
    intro c o
    simp only [checkOption, acceptableAccm, accmOption]
    by_cases hopt : o.1 = 2
    · by_cases hlen : o.2.length = 4
      · by_cases hmask : word32 o.2 &&& accmMask =
          accmMask <;> simp [hopt, hlen, hmask, Option.filter]
      · simp [hopt, hlen]
    · simp only [hopt, if_false, false_and, Option.filter_none, Option.getD_none]
      split
      · split <;> rfl
      · rfl

theorem addr_ipcpCheckRequest {s : Ipcp.Pii} :
    (Ipcp.ipcpCheckRequest p s).addr = (p.options.filterMap addrOption).getLastD
    s.piiRemoteIpAddr := by
  rw [Ipcp.ipcpCheckRequest]
  refine checkRequest_getLastD (fun c : Ipcp.Check => c.addr) ?_ ?_ _
  · exact fun _ _ => rfl
  intro c o
  simp only [Ipcp.checkOption, addrOption]
  split
  · split <;> simp_all
  · simp_all

theorem remoteIpAddr_act (a : Action) (s : Ipcp.Pii) :
    (Ipcp.act a s).piiRemoteIpAddr = s.piiRemoteIpAddr := by
  rw [Ipcp.act_parts]
  refine List.foldlRecOn _ _ (motive := fun s' : Ipcp.Pii => s'.piiRemoteIpAddr = s.piiRemoteIpAddr)
    rfl ?_
  intro s' hs' b hb
  rw [← hs']
  cases b with
  | scr =>
    rw [Ipcp.act, Ipcp.handleAction, Ipcp.complete_scr]
    split <;> rfl
  | str =>
    rw [Ipcp.act, Ipcp.handleAction, Ipcp.complete_str]
    split <;> rfl
  | none | sca | scn | sta | ser | scj | tlu | tld | tls | tlf | irc | zrc => rfl
  | _ => exact absurd (parts_simple hb) (by decide)

theorem remoteIpAddr_handleEvent (t : Trigger) (s : Ipcp.Pii) :
    ((Ipcp.handleEvent t).complete s).1.piiRemoteIpAddr = s.piiRemoteIpAddr := by
  rw [Ipcp.complete_handleEvent]
  split
  · exact remoteIpAddr_act _ s
  · exact remoteIpAddr_act _ s

/-- Only in OPENED does a refused request take the layer down. -/
theorem tld_mem_rcrM (st : State) : .tld ∈ (pppTrans .rcrM st).1.parts ↔ st = .opened := by
  cases st <;> decide

theorem values_refused (hcode : p.rcode = 1) (hlen : p.rlen.toNat ≤ p.nbNetworkSize)
    (hrefused : (lcpCheckRequest p s).parseState ≠ .ack) : (step s (.packet p)).values =
      if s.piState = .opened then (1500, 0xffffffff)
      else (p.mrus.getLastD s.piMru, (p.options.filterMap acceptableAccm).getLastD s.piAccm) := by
  rcases step_handled s (.packet p) with hignores | ⟨t, s₁, hraises, heq⟩
  · generalize step s (.packet p) = s' at hignores ⊢
    cases hignores <;> grind
  rw [heq]
  cases hraises with
  | confReq p _ _ c hc =>
    subst hc
    rw [if_neg hrefused, values_handleEvent, ← values_lcpCheckRequest.1, ← values_lcpCheckRequest.2]
    exact if_congr (tld_mem_rcrM _) rfl rfl
  | _ => grind

/-- **A request that is refused changes nothing** exactly if the last acceptable option for a value
repeats it; in OPENED, which is left with the default values, exactly if these were set. -/
theorem refused_request_keeps (p : Packet) (hcode : p.rcode = 1)
    (hlen : p.rlen.toNat ≤ p.nbNetworkSize) :
    (∀ s : Ppp, (lcpCheckRequest p s).parseState ≠ .ack →
      ((step s (.packet p)).piMru = s.piMru ∧ (step s (.packet p)).piAccm = s.piAccm ↔
        if s.piState = .opened then s.piMru = 1500 ∧ s.piAccm = 0xffffffff
        else p.mrus.getLastD s.piMru = s.piMru ∧
          (p.options.filterMap acceptableAccm).getLastD s.piAccm = s.piAccm)) ∧
    ∀ s : Ipcp.Pii, (Ipcp.ipcpCheckRequest p s).parseState ≠ .ack →
      ((Ipcp.receive s p).piiRemoteIpAddr = s.piiRemoteIpAddr ↔
        (p.options.filterMap addrOption).getLastD s.piiRemoteIpAddr = s.piiRemoteIpAddr) := by
  constructor
  · intro s hrefused
    have hvalues := values_refused hcode hlen hrefused
    rw [Ppp.values] at hvalues
    split at hvalues
    · rename_i hopened
      obtain ⟨hmru, haccm⟩ := Prod.mk.inj hvalues
      rw [hmru, haccm, if_pos hopened, eq_comm, eq_comm (a := s.piAccm)]
    · rename_i hopened
      obtain ⟨hmru, haccm⟩ := Prod.mk.inj hvalues
      rw [hmru, haccm, if_neg hopened]
  · intro s _
    rw [Ipcp.receive, Ipcp.ipcpRecvNetbuf, if_neg (Nat.not_lt.mpr hlen),
      Ipcp.recvCode, if_pos hcode]
    have haddr := remoteIpAddr_handleEvent
      (if (Ipcp.ipcpCheckRequest p s).parseState = .ack then .rcrP else .rcrM)
      { s.allocSend (packet (Ipcp.ipcpCheckRequest p s).code p.rid
          (Ipcp.ipcpCheckRequest p s).options) with
        piiParseState := (Ipcp.ipcpCheckRequest p s).parseState
        piiRemoteIpAddr := (Ipcp.ipcpCheckRequest p s).addr }
    rw [← addr_ipcpCheckRequest]
    exact iff_of_eq (congrArg (· = s.piiRemoteIpAddr) haddr)

/-- A request that sets the MRU, sets it back, and has an option that is unknown; and one that
repeats an address. -/
theorem refused_request_keeps_repeated :
    (step (pppInstanceAlloc [])
      (.packet (.ofData 1 7 [1, 4, 3, 0xe8, 1, 4, 0x05, 0xdc, 9, 2]))).piMru = 1500 ∧
      (Ipcp.receive {} (.ofData 1 7 [3, 6, 0, 0, 0, 0, 9, 2])).piiRemoteIpAddr = 0 := by
  have hlcp :=
    (refused_request_keeps (.ofData 1 7 [1, 4, 3, 0xe8, 1, 4, 0x05, 0xdc, 9, 2]) rfl (by decide)).1
    (pppInstanceAlloc []) (by decide)
  have hipcp := (refused_request_keeps (.ofData 1 7 [3, 6, 0, 0, 0, 0, 9, 2]) rfl (by decide)).2 {}
    (by decide)
  exact ⟨(hlcp.mpr (by decide)).1, hipcp.mpr (by decide)⟩

/-- Requests that set a value before an option that is unknown: they are rejected, and the value
stays set. -/
theorem refused_request_sets :
    let mru : Packet := .ofData 1 7 [1, 4, 0x03, 0xe8, 9, 2]
    let addr : Packet := .ofData 1 7 [3, 6, 10, 0, 0, 1, 9, 2]
    (lcpCheckRequest mru (pppInstanceAlloc [])).code = 4 ∧ (pppInstanceAlloc []).piMru = 1500 ∧
      (step (pppInstanceAlloc []) (.packet mru)).piMru = 1000 ∧
      (Ipcp.ipcpCheckRequest addr {}).code = 4 ∧ (Ipcp.receive {} addr).piiRemoteIpAddr =
          0x0a000001 := by
  decide

/-! ## Protocol-Rejects -/

/-- The Protocol-Reject that `ppp_recv_netbuf` builds for a frame with `nb_datalink_size` `n` whose
protocol has no client. -/
def protocolReject (s : Ppp) (n : UInt32) (mem : Nat → UInt8) : Option (List UInt8) :=
  if protocol mem = 0xc021 ∨ s.piClientList.any (·.pcProtocol = protocol mem) then none
  else
    let len := rejectLen s (n - 2)
    some ([8, mem 3] ++ be16 (len + 6) ++ [mem 0, mem 1] ++ octets mem 2 len.toNat)

/-- The MRU options of requests and acknowledgements keep to the range that was meant. -/
def Ranged (_s : Ppp) : Event → Prop
  | .packet p => (p.rcode = 1 ∨ p.rcode = 2) → ∀ m ∈ p.mrus, 64 ≤ m ∧ m ≤ 1500
  | _ => True

def Sane (s : Ppp) : Prop := 64 ≤ s.piMru ∧ s.piMru ≤ 1500

theorem Sane.handleEvent (h : Sane s) (t : Trigger) : Sane ((handleEvent t).complete s).1 := by
  have hvalues := values_handleEvent t s
  unfold Sane
  split at hvalues
  · have hmru : ((Lcp.handleEvent t).complete s).1.piMru = 1500 := congrArg Prod.fst hvalues
    rw [hmru]
    decide
  · have hmru : ((Lcp.handleEvent t).complete s).1.piMru = s.piMru := congrArg Prod.fst hvalues
    rw [hmru]
    exact h

theorem Sane.raises {e : Event} {t : Trigger} {s₁ : Ppp} (h : Sane s) (hranged : Ranged s e)
    (hraises : Raises s e t s₁) :
    Sane s₁ := by
  cases hraises with
  | confReq p hlen hcode c hc =>
    subst hc
    exact lcpCheckRequest_keeps (P := fun v => 64 ≤ v.1 ∧ v.1 ≤ 1500)
      (fun m hm _ _ => hranged (.inl hcode) m hm)
      (fun _ _ _ _ hv => hv) h
  | confAck p hlen hcode =>
    exact lcpCheckAck_keeps (P := fun v => 64 ≤ v.1 ∧ v.1 ≤ 1500)
      (fun m hm _ _ => hranged (.inr hcode) m hm)
      (fun _ _ _ _ hv => hv) h
  | confRej p =>
    refine checkReply_induction (P := Sane) ?_ _ _ _ h
    intro s' opt body hs'
    rw [rejectOption]
    split
    · exact hs'
    split <;> exact hs'
  | _ => exact h

theorem Sane.step (h : Sane s) {e : Event} (hranged : Ranged s e) : Sane (step s e) := by
  have hhandled := step_handled s e
  generalize Lcp.step s e = s' at hhandled ⊢
  rcases hhandled with hignores | ⟨t, s₁, hraises, rfl⟩
  · cases hignores <;> exact h
  · exact (h.raises hranged hraises).handleEvent t

theorem sane_pppInstanceAlloc (clients : List Client) : Sane (pppInstanceAlloc clients) := by
  have hmru : (pppInstanceAlloc clients).piMru = 1500 := rfl
  rw [Sane, hmru]
  decide

/-- **The MRU stays between 64 and 1500**, and so a Protocol-Reject fits its buffer and the MRU and
copies no more than was received, as long as the MRU options of the peer keep to that range and the
frame holds its protocol. -/
theorem protocolReject_fits (clients : List Client) (es : List Event)
    (hrun : Along step Ranged (pppInstanceAlloc clients) es) :
    let s := exec step (pppInstanceAlloc clients) es
    64 ≤ s.piMru ∧ s.piMru ≤ 1500 ∧ ∀ (n : UInt32) (mem : Nat → UInt8) (q : List UInt8),
      2 ≤ n → n ≤ 1500 →
      protocolReject s n mem = some q → ∃ len, q.length = len + 6 ∧ q.drop 6 = octets mem 2 len ∧
        len + 6 ≤ 1500 ∧ len + 2 ≤ n.toNat ∧ len + 6 ≤ s.piMru.toNat := by
  intro s
  have hsane : Sane s := exec_invariant (fun _ _ hok h => h.step hok)
    (sane_pppInstanceAlloc clients) hrun
  refine ⟨hsane.1, hsane.2, ?_⟩
  intro n mem q hlow hhigh hq
  rw [protocolReject] at hq
  split at hq
  · cases hq
  obtain rfl := Option.some.inj hq
  have hmru : 64 ≤ s.piMru.toNat := UInt16.le_iff_toNat_le.mp hsane.1
  have hmru' : s.piMru.toNat ≤ 1500 := UInt16.le_iff_toNat_le.mp hsane.2
  have hn : n.toNat ≤ 1500 := UInt32.le_iff_toNat_le.mp hhigh
  have htwo : 2 ≤ n.toNat := UInt32.le_iff_toNat_le.mp hlow
  have hnetwork : (n - 2).toNat = n.toNat - 2 := UInt32.toNat_sub_of_le _ _ hlow
  have hcopied : (rejectLen s (n - 2)).toNat ≤ (n - 2).toNat :=
    toNat_rejectLen (by omega) (by omega)
  have hroom : (rejectLen s (n - 2)).toNat + 16 ≤ s.piMru.toNat := by
    have hsub : (s.piMru - 16).toNat = s.piMru.toNat - 16 :=
      UInt16.toNat_sub_of_le _ _ (UInt16.le_trans (by decide) hsane.1)
    rw [rejectLen]
    split <;> omega
  exact ⟨(rejectLen s (n - 2)).toNat, by simp [octets, be16], rfl, by omega, by omega, by omega⟩

/-- A frame of the protocol 0x1234. -/
def strangeFrame (i : Nat) : UInt8 := [0x12, 0x34, 1, 2, 3, 4].getD i 0

/-- A peer that asks for an MRU of 576. -/
theorem protocolReject_fits_ranged :
    (exec step (pppInstanceAlloc []) [.packet (.ofData 1 7 [1, 4, 0x02, 0x40])]).piMru = 576 ∧
      ∃ len, [8, 2, 0, 10, 0x12, 0x34, 1, 2, 3, 4].drop 6 = octets strangeFrame 2 len ∧
        len + 2 ≤ 6 := by
  have hfits := protocolReject_fits [] [.packet (.ofData 1 7 [1, 4, 0x02, 0x40])]
    ⟨fun _ => List.forall_mem_singleton.mpr (by decide), trivial⟩
  obtain ⟨len, -, hdrop, -, hlen, -⟩ :=
    hfits.2.2 6 strangeFrame [8, 2, 0, 10, 0x12, 0x34, 1, 2, 3, 4] (by decide)
    (by decide) (by decide)
  exact ⟨rfl, len, hdrop, hlen⟩

/-- An MRU of 10 is acknowledged, and of four octets of information 65530 are copied. -/
theorem protocolReject_wraps :
    let s := exec step (pppInstanceAlloc []) [.packet (.ofData 1 7 [1, 4, 0, 10])]
    (lcpCheckRequest (.ofData 1 7 [1, 4, 0, 10]) (pppInstanceAlloc [])).code = 2 ∧ s.piMru = 10 ∧
      protocolReject s 6 strangeFrame ≠ none ∧ rejectLen s 4 = 65530 := by
  refine ⟨by decide, by decide, nofun, by decide⟩

end Liquorice.Lcp
