import Liquorice.Tcp.Table

/-!
# Send sequence numbers at rest

Where nothing is outstanding, everything sent is acknowledged: in a new socket, in a listener, and
in ESTABLISHED and CLOSE_WAIT whenever no retransmission is timed; during the handshake the SYN is
what is not acknowledged. That is so as long as no SYN without an ACK arrives in SYN_SENT, for which
a second SYN takes a number, and no ACK arrives at a listener, whose own numbers it moves apart.
-/

namespace Liquorice.Tcp

open Threads Threads.Prog Socket

variable {allow : Occasion → Prop} {s s' : Socket}

/-- What is not acknowledged where nothing is outstanding. -/
structure Numbers (s : Socket) : Prop where
  fresh : s.allocRef ∨ s.tsState = .listen → s.tsSndUna = s.tsSndNxt
  syn : s.tsState = .synSent ∨ s.tsState = .synReceived → s.tsSndUna + 1 = s.tsSndNxt
  rest : s.tsState = .established ∨ s.tsState = .closeWait → s.retransTiming = false →
    s.tsSndUna = s.tsSndNxt

/-- The occasions on which the numbers survive. -/
structure Spared (allow : Occasion → Prop) : Prop where
  simultaneousOpen : ¬ allow .simultaneousOpen
  strayAck : ¬ allow .strayAck

section

open scoped Unfolded

attribute [local simp] TcpState.receives TcpState.acks

/-- A socket that is not bound sends nothing. -/
theorem Unbound.numbers (h : Unbound s) (hmove : Move allow s s') :
    s'.tsSndUna = s.tsSndUna ∧ s'.tsSndNxt = s.tsSndNxt := by
  have hstate := h.state
  cases hmove with
  | note => exact ⟨rfl, rfl⟩
  | close => simp
  | _ => exfalso; simp_all [h.wait, h.ackTimer]

/-- Only an ACK moves the numbers of a listener apart. -/
theorem Move.level (hmove : Move allow s s') (hallow : ¬ allow .strayAck)
    (h : s.tsState = .listen → s.tsSndUna = s.tsSndNxt) (hlisten : s'.tsState = .listen) :
    s'.tsSndUna = s'.tsSndNxt := by
  cases hmove with
  | note => exact h hlisten
  -- a listener takes no acknowledgement
  | acked hstate => rcases hstate with h | h | h | h | h | h <;> simp_all
  | ackedIdle hstate | sendNext hstate => rcases hstate with h | h | h <;> simp_all
  | _ => simp_all

theorem Numbers.move (h : Numbers s) (hquiet : Quiet s) (hallow : Spared allow)
    (hmove : Move allow s s') :
    Numbers s' where
  fresh := by
    rintro (halloc | hlisten)
    · rw [hmove.allocRef] at halloc
      obtain ⟨huna, hnxt⟩ := (hquiet.unbound halloc).numbers hmove
      rw [huna, hnxt]
      exact h.fresh (.inl halloc)
    · exact hmove.level hallow.strayAck (fun hst => h.fresh (.inr hst)) hlisten
  syn := by
    have hsyn := h.syn
    cases hmove with
    | note => exact hsyn
    | acked hstate => rcases hstate with h | h | h | h | h | h <;> simp_all
    | ackedIdle hstate | sendNext hstate => rcases hstate with h | h | h <;> simp_all
    | _ => simp_all [hallow.simultaneousOpen, hallow.strayAck]
  rest := by
    have hrest := h.rest
    have hsyn := h.syn
    cases hmove with
    | note => exact hrest
    | acked hstate hmeasured hle hlt =>
      -- what is acknowledged in part is outstanding
      intro hst htiming
      have huna : s.tsSndUna = s.tsSndNxt := hrest hst htiming
      exact absurd (UInt32.lt_of_le_of_lt (huna ▸ hle) hlt) (UInt32.lt_irrefl _)
    | _ => simp_all [hallow.simultaneousOpen, hallow.strayAck]

end

/-- New sockets have sent nothing, and those that are bound for a connection a SYN. -/
theorem numbers_rule (hallow : Spared allow) : Rule allow Numbers where
  unused := ⟨fun _ => rfl, nofun, nofun⟩
  listening clash := by cases clash <;> exact ⟨fun _ => rfl, nofun, nofun⟩
  connecting := ⟨nofun, fun _ => rfl, nofun⟩
  requested s nb hlisten h := ⟨fun _ => h.fresh (.inr hlisten), nofun, nofun⟩
  accepting s clash hunbound hclash h := by
    have huna : s.tsSndUna + 1 = s.tsSndNxt + 1 := by rw [h.fresh (.inl hunbound.allocRef)]
    cases clash <;> exact ⟨nofun, fun _ => huna, nofun⟩
  rejected s hunbound h := by
    have hstate : s.sendRst.tsState = .closed := by simp [sendRst, transmit, hunbound.state]
    refine ⟨fun hor => ?_, fun hor => ?_, fun hor => ?_⟩
    · have hlisten : s.sendRst.tsState = .listen := hor.resolve_left nofun
      exact absurd (hstate.symm.trans hlisten) nofun
    · rcases hor with h | h <;> exact absurd (hstate.symm.trans h) nofun
    · rcases hor with h | h <;> exact absurd (hstate.symm.trans h) nofun
  move s s' hquiet hmove h := h.move hquiet hallow hmove

end Liquorice.Tcp
