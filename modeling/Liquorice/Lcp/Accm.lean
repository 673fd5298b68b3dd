import Liquorice.Lcp.Agreement
import Liquorice.PppAhdlc

/-!
# The map of characters to be escaped

`pi_accm` is set from the peer's requests and from the acknowledgements of our own, and goes to the
framer when OPENED is entered. A request that is acknowledged leaves its map there; an
acknowledgement that comes behind it overwrites it. So the framer escapes what the peer has asked
for if the map in the acknowledgement covers `pi_accm` (`accm_honoured`), and not in general
(`accm_overwritten`).
-/

namespace Liquorice.Lcp

open Run Threads Threads.Prog Ppp

variable {s : Ppp} {t : Trigger} {st : State} {p : Packet} {stack : Nat → UInt8}

/-- The map of an ACCM option. -/
def accmOption (o : UInt8 × List UInt8) : Option UInt32 :=
  if o.1 = 2 ∧ o.2.length = 4 then some (word32 o.2) else none

/-- The maps in the ACCM options of a packet. -/
def Packet.accms (p : Packet) : List UInt32 := p.options.filterMap accmOption

/-- The map `m` has a 1 where `v` has one. -/
def Covers (m v : UInt32) : Prop := v &&& m = v
  deriving Decidable

/-- The LCP instance, with the last Configure-Request that was answered with a Configure-Ack. -/
structure Link extends ppp : Ppp where
  acked : Option Packet := none

/-- A Configure-Request is answered with a Configure-Ack. -/
def acks (s : Ppp) (p : Packet) : Bool :=
  p.rcode = 1 ∧ s.log.countP (Entry.sends 2) < (step s (.packet p)).log.countP (Entry.sends 2)

/-- An event, with the request that it has acknowledged. -/
def Link.step (l : Link) (e : Event) : Link where
  ppp := Lcp.step l.ppp e
  acked :=
    match e with
    | .packet p => if acks l.ppp p then some p else l.acked
    | _ => l.acked

/-- A request has one ACCM option at most, and the ACCM options of an acknowledgement that opens the
link cover `pi_accm`. -/
def Link.Covering (l : Link) : Event → Prop
  | .packet p => (p.rcode = 1 → p.accms.length ≤ 1) ∧
      (p.rcode = 2 → p.rid = l.piIdent → l.piState = .ackSent → ∀ m ∈ p.accms, Covers m l.piAccm)
  | _ => True

instance (l : Link) (e : Event) : Decidable (l.Covering e) :=
  match e with
  | .packet p =>
    have : Decidable (∀ m ∈ p.accms, Covers m l.piAccm) := List.decidableBAll _ p.accms
    inferInstanceAs (Decidable (_ ∧ _))
  | .up | .open | .timeout => isTrue trivial

/-! ## Maps -/

theorem Covers.trans {m v w : UInt32} (h : Covers m v) (h' : Covers v w) : Covers m w := by
  unfold Covers at h h' ⊢
  rw [← h', UInt32.and_assoc, h]

theorem covers_all (v : UInt32) : Covers 0xffffffff v := by
  unfold Covers
  exact UInt32.and_neg_one

/-- What the peer asks for is escaped under a map that covers it. -/
theorem Covers.stuff {m v : UInt32} (h : Covers m v) {ch : UInt8} (hch : ch < 0x20)
    (hv : v &&& ((1 : UInt32) <<< ch.toUInt32) ≠ 0) :
    PppAhdlc.stuff m ch = [PppAhdlc.pppEsc, ch ^^^ 0x20] := by
  have hm : m &&& ((1 : UInt32) <<< ch.toUInt32) ≠ 0 := by
    intro hzero
    apply hv
    rw [← h, UInt32.and_assoc, hzero, UInt32.and_zero]
  rw [PppAhdlc.stuff, if_pos (.inr (.inr ⟨hch, hm⟩))]

/-! ## Options -/

/-- An acceptable option of a request sets the map if it is an ACCM option, and the request is
acceptable only if the options before it are. -/
theorem checkOption_ack {c : Check} {opt : UInt8} {body : List UInt8}
    (h : (checkOption stack c opt body).parseState = .ack) :
    c.parseState = .ack ∧ (checkOption stack c opt body).accm =
      (accmOption (opt, body)).getD c.accm := by
  rw [checkOption] at h ⊢
  split at h
  · -- an MRU option
    rename_i hopt
    have hnone : accmOption (opt, body) = none := if_neg fun h =>
      absurd (hopt.symm.trans h.1) (by decide)
    rw [if_pos hopt, hnone]
    dsimp only at h ⊢
    split at h
    · rename_i hmru
      rw [if_pos hmru]
      exact ⟨Reply.frameAck_parseState.symm.trans h, rfl⟩
    · exact absurd h Reply.frameNak_parseState
  rename_i hopt
  rw [if_neg hopt]
  split at h
  · rename_i hopt₂
    rw [if_pos hopt₂]
    dsimp only at h ⊢
    split at h
    · rename_i haccm
      have hsome : accmOption (opt, body) = some (word32 body) := if_pos ⟨hopt₂, haccm.1⟩
      rw [if_pos haccm, hsome]
      exact ⟨Reply.frameAck_parseState.symm.trans h, rfl⟩
    · exact absurd h Reply.frameNak_parseState
  · rw [Reply.frameRej_parseState] at h
    cases h

theorem foldl_checkOption_ack (l : List (UInt8 × List UInt8)) (c : Check)
    (h : (l.foldl (fun c o => checkOption stack c o.1 o.2) c).parseState = .ack) :
    c.parseState = .ack ∧ (l.foldl (fun c o => checkOption stack c o.1 o.2) c).accm =
      (l.filterMap accmOption).getLastD c.accm := by
  induction l generalizing c with
  | nil => exact ⟨h, rfl⟩
  | cons o l ih =>
    obtain ⟨hack, haccm⟩ := ih _ h
    obtain ⟨hack', haccm'⟩ := checkOption_ack hack
    refine ⟨hack', ?_⟩
    rw [List.foldl_cons, haccm, haccm', List.filterMap_cons]
    cases accmOption o with
    | none => rfl
    | some m => rw [Option.getD_some, List.getLastD_cons]

/-- **An acceptable request leaves its last map in `pi_accm`.** -/
theorem lcpCheckRequest_ack (h : (lcpCheckRequest p s).parseState = .ack) :
    (lcpCheckRequest p s).accm = p.accms.getLastD s.piAccm := by
  have heq := checkRequest_eq (p := p) (fun c opt => { c with toReply := c.frameRej opt [] })
    (checkOption p.stack)
    p.sz 0 p.sz { mru := s.piMru, accm := s.piAccm }
  rcases heq with heq | ⟨opt, heq⟩
  · rw [lcpCheckRequest, heq] at h ⊢
    exact (foldl_checkOption_ack _ _ h).2
  · rw [lcpCheckRequest, heq, Reply.frameRej_parseState] at h
    cases h

/-- An acknowledgement whose maps cover `pi_accm` leaves a map that covers it. -/
theorem covers_lcpCheckAck (h : ∀ m ∈ p.accms, Covers m s.piAccm) :
    Covers (lcpCheckAck p s).piAccm s.piAccm := by
  have hself : Covers s.piAccm s.piAccm := UInt32.and_self
  rw [lcpCheckAck, checkReply_eq]
  refine List.foldlRecOn p.options _ (motive := fun s' : Ppp => Covers s'.piAccm s.piAccm) hself ?_
  intro s' hs' o ho
  rw [ackOption]
  split
  · dsimp only
    split <;> exact hs'
  split
  · rename_i hopt
    dsimp only
    split
    · exact h _ (List.mem_filterMap.mpr ⟨o, ho, if_pos hopt⟩)
    · exact hs'
  · exact hs'

/-- A Configure-Reject leaves the maps alone. -/
theorem piAccm_lcpCheckReject : (lcpCheckReject p s).piAccm = s.piAccm := by
  refine checkReply_induction (P := fun s' : Ppp => s'.piAccm = s.piAccm) ?_ _ _ _ rfl
  intro s' opt body hs'
  rw [rejectOption]
  split
  · exact hs'
  split <;> exact hs'

/-! ## The table -/

/-- What happens to the maps when OPENED is entered, while it lasts, and else. -/
theorem trans_accms (t : Trigger) (st : State) (m : UInt32 × Usage × UInt32) :
    ((pppTrans t st).2 = .opened → st ≠ .opened →
      (pppTrans t st).1.allAccms m = (m.1, m.2.1, if m.2.1 = .ack then m.1 else m.2.2)) ∧
    ((pppTrans t st).2 = .opened → st = .opened → (pppTrans t st).1.allAccms m = m) ∧
    ((pppTrans t st).2 ≠ .opened → st ≠ .opened → (pppTrans t st).1.allAccms m = m) ∧
    ((pppTrans t st).2 ≠ .opened → st = .opened →
      (pppTrans t st).1.allAccms m = (0xffffffff, .ack, 0xffffffff)) := by
  cases t <;> cases st <;> simp [pppTrans, row, Action.allAccms, Action.parts, Action.accms]

/-- Without a request from the peer, ACK_SENT is only kept, and OPENED is kept or entered by an
acknowledgement in ACK_SENT. -/
theorem trans_unrequested (ht : t.requested = false) :
    ((pppTrans t st).2 = .ackSent → st = .ackSent ∧ t ≠ .rca) ∧
      ((pppTrans t st).2 = .opened → st = .opened ∨ st = .ackSent ∧ t = .rca) := by
  revert ht
  cases t <;> cases st <;> decide

/-! ## Events -/

/-- Every map of the request that was acknowledged last is covered. -/
def Honours (m : UInt32) (acked : Option Packet) : Prop := ∀ p, acked = some p →
    ∀ v ∈ p.accms, Covers m v

theorem honours_all (acked : Option Packet) : Honours 0xffffffff acked :=
    fun _ _ v _ => covers_all v

/-- What holds of the maps between events. -/
structure Link.Honoured (l : Link) : Prop where
  default : l.piState ≠ .opened → l.pasAccm = 0xffffffff
  ackSent : l.piState = .ackSent → Honours l.piAccm l.acked
  opened : l.piState = .opened → Honours l.pasAccm l.acked

variable {l : Link} {e : Event} {s₁ : Ppp}

/-- The map for the framer is left alone before `handle_event`. -/
theorem Raises.pasAccm (h : Raises s e t s₁) : s₁.pasAccm = s.pasAccm := by
  cases h with
  | confAck =>
    rw [lcpCheckAck_frame]
    rfl
  | confRej =>
    rw [lcpCheckReject_frame]
    rfl
  | _ => rfl

/-- Only requests and acknowledgements set `pi_accm`. -/
theorem Raises.piAccm (h : Raises s e t s₁) (ht : t.requested = false) (hrca : t ≠ .rca) :
    s₁.piAccm = s.piAccm := by
  cases h with
  | confReq => split at ht <;> cases ht
  | confAck => exact absurd rfl hrca
  | confRej => exact piAccm_lcpCheckReject
  | _ => rfl

/-- A packet that raises no request is none. -/
theorem Raises.acked (h : Raises l.ppp e t s₁) (ht : t.requested = false) :
    (l.step e).acked = l.acked := by
  cases e with
  | packet p =>
    have hcode : p.rcode ≠ 1 := fun hcode => by
      rw [h.requested hcode] at ht
      cases ht
    have hacks : acks l.ppp p = false := decide_eq_false fun h => hcode h.1
    simp [Link.step, hacks]
  | _ => rfl

/-- A request that is acknowledged is sent a Configure-Ack for. -/
theorem Raises.acks (h : Raises s (.packet p) .rcrP s₁)
    (hstep : Lcp.step s (.packet p) = ((handleEvent .rcrP).complete s₁).1)
    (hsca : .sca ∈ (pppTrans .rcrP s.piState).1.parts) (hcode : p.rcode = 1) : acks s p := by
  obtain ⟨hstate, -, -, hnoted⟩ := h.frame
  obtain ⟨id, options, hpacket, -⟩ := h.prepared
  rw [← hstate] at hsca
  obtain ⟨new, hlog, hmem⟩ := sent_mem_handleEvent hsca rfl
  have hsent : (Entry.sent s₁.sendPacket).sends 2 := by
    rw [hpacket]
    rfl
  have hpos : 0 < new.countP (Entry.sends 2) := List.countP_pos_iff.mpr ⟨_, hmem, hsent⟩
  refine decide_eq_true ⟨hcode, ?_⟩
  rw [hstep, hlog, hnoted, noted, List.countP_append, List.countP_cons]
  simp only [List.cons_append, List.nil_append, List.countP_cons, Entry.sends]
  omega

/-- A request that is acknowledged is the last one, and `pi_accm` is its map. -/
theorem Raises.acked_request (h : Raises l.ppp e .rcrP s₁)
    (hstep : Lcp.step l.ppp e = ((handleEvent .rcrP).complete s₁).1)
    (hsca : .sca ∈ (pppTrans .rcrP l.piState).1.parts) (he : l.Covering e) :
    Honours s₁.piAccm (l.step e).acked := by
  have hraises := h
  generalize ht : Trigger.rcrP = t at h
  cases h with
  | confReq p hlen hcode c hc =>
    split at ht
    · rename_i hack
      have hacks := hraises.acks hstep hsca hcode
      intro p' hp' v hv
      obtain rfl : p = p' := by
        simp only [Link.step, hacks, if_true] at hp'
        exact Option.some.inj hp'
      have haccm : c.accm = p.accms.getLastD l.piAccm := hc ▸ lcpCheckRequest_ack (hc ▸ hack)
      -- there is one map at most
      have hone : p.accms.length = 1 := le_antisymm (he.1 hcode) (List.length_pos_of_mem hv)
      obtain ⟨w, hw⟩ := List.length_eq_one_iff.mp hone
      rw [hw] at hv haccm
      obtain rfl := List.mem_singleton.mp hv
      show Covers c.accm v
      rw [haccm]
      exact UInt32.and_self
    · cases ht
  | timeout | codeRej | protRej => split at ht <;> cases ht
  | _ => cases ht

/-- An acknowledgement keeps what `pi_accm` covers. -/
theorem Raises.honours_ack (h : Raises l.ppp e .rca s₁) (hstate : l.piState = .ackSent)
    (he : l.Covering e) (hl : Honours l.piAccm l.acked) : Honours s₁.piAccm l.acked := by
  intro p' hp' v hv
  refine Covers.trans ?_ (hl p' hp' v hv)
  generalize ht : Trigger.rca = t at h
  cases h with
  | confAck p hlen hcode hid => exact covers_lcpCheckAck (he.2 hcode hid hstate)
  | timeout | confReq | codeRej | protRej => split at ht <;> cases ht
  | _ => cases ht

/-- `handle_event` keeps what holds of the maps. -/
theorem Link.Honoured.raises (h : l.Honoured) (he : l.Covering e) (hraises : Raises l.ppp e t s₁)
    (hstep : Lcp.step l.ppp e = ((handleEvent t).complete s₁).1) : (l.step e).Honoured := by
  obtain ⟨hstate, -, -, -⟩ := hraises.frame
  have hpas := hraises.pasAccm
  have hnext : (l.step e).piState = (pppTrans t l.piState).2 := by
    show (Lcp.step l.ppp e).piState = _
    rw [hstep, complete_handleEvent, hstate]
  have haccms : (l.step e).accms = (pppTrans t l.piState).1.allAccms s₁.accms := by
    show (Lcp.step l.ppp e).accms = _
    rw [hstep, complete_handleEvent, ← hstate]
    have hact := accms_act (pppTrans t s₁.piState).1 (s₁.note (.raised t))
    split <;> exact hact
  obtain ⟨hentry, hstay, hout, hleave⟩ := trans_accms t l.piState s₁.accms
  have hpiAccm : (l.step e).piAccm = (l.step e).accms.1 := rfl
  have hpasAccm : (l.step e).pasAccm = (l.step e).accms.2.2 := rfl
  rw [haccms] at hpiAccm hpasAccm
  refine ⟨?_, ?_, ?_⟩
  · rw [hnext]
    intro hne
    by_cases hopened : l.piState = .opened
    · rw [hpasAccm, hleave hne hopened]
    · rw [hpasAccm, hout hne hopened]
      exact hpas.trans (h.default hopened)
  · rw [hnext]
    intro hsent
    have hne : (pppTrans t l.piState).2 ≠ .opened := hsent ▸ (by decide)
    by_cases hopened : l.piState = .opened
    · rw [hpiAccm, hleave hne hopened]
      exact honours_all _
    rw [hpiAccm, hout hne hopened]
    have hanswered : (pppTrans t l.piState).2.answered := hsent ▸ rfl
    rcases trans_answered hanswered with ⟨rfl, hsca⟩ | ⟨ht, -, -⟩
    · exact hraises.acked_request hstep hsca he
    obtain ⟨hwas, hrca⟩ := (trans_unrequested ht).1 hsent
    rw [hraises.acked ht]
    show Honours s₁.piAccm l.acked
    rw [hraises.piAccm ht hrca]
    exact h.ackSent hwas
  · rw [hnext]
    intro hopen
    have hanswered : (pppTrans t l.piState).2.answered := hopen ▸ rfl
    by_cases hopened : l.piState = .opened
    · -- OPENED is kept, without a request
      rcases trans_answered hanswered with ⟨rfl, -⟩ | ⟨ht, -, -⟩
      · rw [hopened] at hopen
        cases hopen
      rw [hpasAccm, hstay hopen hopened, hraises.acked ht]
      show Honours s₁.pasAccm l.acked
      rw [hpas]
      exact h.opened hopened
    -- the framer is given `pi_accm`, or keeps the default
    rw [hpasAccm, hentry hopen hopened]
    dsimp only
    split
    · rcases trans_answered hanswered with ⟨rfl, hsca⟩ | ⟨ht, -, -⟩
      · exact hraises.acked_request hstep hsca he
      · rcases (trans_unrequested ht).2 hopen with hopened' | ⟨hwas, rfl⟩
        · exact absurd hopened' hopened
        · rw [hraises.acked ht]
          exact hraises.honours_ack hwas he (h.ackSent hwas)
    · show Honours s₁.pasAccm _
      rw [hpas, h.default hopened]
      exact honours_all _

theorem Link.Honoured.step (h : l.Honoured) (he : l.Covering e) : (l.step e).Honoured := by
  rcases step_handled l.ppp e with hignores | ⟨t, s₁, hraises, hstep⟩
  · -- what is ignored is not acknowledged
    have hsame : (Lcp.step l.ppp e).piState = l.piState ∧ (Lcp.step l.ppp e).accms = l.accms ∧
        (Lcp.step l.ppp e).log.countP (Entry.sends 2) = l.log.countP (Entry.sends 2) := by
      generalize Lcp.step l.ppp e = s' at hignores
      cases hignores with
      | timeout | long => exact ⟨rfl, rfl, rfl⟩
      | other | discard => exact ⟨rfl, rfl, List.countP_cons_of_neg Bool.false_ne_true⟩
    obtain ⟨hstate, haccms, hcount⟩ := hsame
    have hacked : (l.step e).acked = l.acked := by
      cases e with
      | packet p =>
        have hacks : acks l.ppp p = false := decide_eq_false fun h =>
          absurd hcount (Nat.ne_of_gt h.2)
        simp [Link.step, hacks]
      | _ => rfl
    have hpiAccm : (l.step e).piAccm = l.piAccm := congrArg (·.1) haccms
    have hpasAccm : (l.step e).pasAccm = l.pasAccm := congrArg (·.2.2) haccms
    refine ⟨?_, ?_, ?_⟩
    · rw [hpasAccm]
      exact fun hs => h.default (hstate ▸ hs)
    · rw [hpiAccm, hacked]
      exact fun hs => h.ackSent (hstate ▸ hs)
    · rw [hpasAccm, hacked]
      exact fun hs => h.opened (hstate ▸ hs)
  · exact h.raises he hraises hstep

/-! ## Runs -/

/-- An instance that has acknowledged nothing. -/
def Link.start (clients : List Client) : Link := { ppp := pppInstanceAlloc clients }

theorem honoured_start (clients : List Client) : (Link.start clients).Honoured := by
  have hstate : (Link.start clients).piState = .reqSent := rfl
  refine ⟨fun _ => rfl, ?_, ?_⟩
  · rw [hstate]
    exact fun h => by cases h
  · rw [hstate]
    exact fun h => by cases h

/-- **The framer escapes what the peer has asked for.** If no request has two ACCM options and the
acknowledgements that open the link cover `pi_accm`, then in OPENED the map of the framer covers the
maps of the last request that was acknowledged, so that each character in them is escaped. -/
theorem accm_honoured (clients : List Client) (es : List Event)
    (hrun : Along Link.step Link.Covering (.start clients) es) :
    let l := exec Link.step (.start clients) es
    l.piState = .opened → ∀ p, l.acked = some p → ∀ v ∈ p.accms,
      Covers l.pasAccm v ∧ ∀ ch : UInt8, ch < 0x20 → v &&& ((1 : UInt32) <<< ch.toUInt32) ≠ 0 →
        PppAhdlc.stuff l.pasAccm ch = [PppAhdlc.pppEsc, ch ^^^ 0x20] := by
  intro l hopened p hp v hv
  have hstep : ∀ l e, Link.Covering l e → l.Honoured → (l.step e).Honoured :=
    fun l e he h => h.step he
  have hhonoured : l.Honoured := exec_invariant hstep (honoured_start clients) hrun
  have hcovers : Covers l.pasAccm v := hhonoured.opened hopened p hp v hv
  exact ⟨hcovers, fun ch hch hbit => hcovers.stuff hch hbit⟩

/-- A Configure-Request or Configure-Ack with one ACCM option. -/
def accmPacket (rcode rid : UInt8) (accm : UInt32) :
    Packet := .ofData rcode rid ([2, 6] ++ be32 accm)

/-- The peer asks for `0xff0f0f0f` and acknowledges our first request. -/
def negotiation : List Event :=
    [.packet (accmPacket 1 7 0xff0f0f0f), .packet (accmPacket 2 1 0xffffffff)]

theorem accm_honoured_negotiation :
    (exec Link.step (.start []) negotiation).piState = .opened ∧
      0xff0f0f0f ∈ (accmPacket 1 7 0xff0f0f0f).accms ∧
      Covers (exec Link.step (.start []) negotiation).pasAccm 0xff0f0f0f := by
  have hrun : Along Link.step Link.Covering (.start []) negotiation := by decide +kernel
  have hopened : (exec Link.step (.start []) negotiation).piState = .opened := rfl
  have hacked : (exec Link.step (.start []) negotiation).acked = some (accmPacket 1 7 0xff0f0f0f) :=
    rfl
  have hmem : 0xff0f0f0f ∈ (accmPacket 1 7 0xff0f0f0f).accms := by decide +kernel
  have hcovers := accm_honoured [] negotiation hrun hopened _ hacked _ hmem
  exact ⟨hopened, hmem, hcovers.1⟩

/-- The options of our request after the peer has asked for `0xff0f0f0f`. -/
def lateOptions : List UInt8 := [1, 4] ++ be16 1500 ++ [2, 6] ++ be32 0xff0f0f0f

/-- The peer asks for `0xff0f0f0f`, our request is sent again and asks for the same, the peer asks
for `0xffffffff` and then acknowledges the request that was sent again: the framer does not escape
what the peer has asked for last. -/
theorem accm_overwritten :
    let l := exec Link.step (.start []) [.packet (accmPacket 1 7 0xff0f0f0f), .timeout,
      .packet (accmPacket 1 8 0xffffffff), .packet (.ofData 2 1 lateOptions)]
    Entry.sent (packet 1 1 lateOptions) ∈ l.log ∧ l.piState = .opened ∧
      l.acked.map Packet.accms = some [0xffffffff] ∧ l.pasAccm = 0xff0f0f0f ∧
      ¬ Covers l.pasAccm 0xffffffff ∧ PppAhdlc.stuff l.pasAccm 0x04 = [0x04] := by
  exact ⟨by decide +kernel, rfl, by decide +kernel, rfl, by decide +kernel, by decide +kernel⟩

end Liquorice.Lcp
