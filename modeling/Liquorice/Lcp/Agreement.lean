import Liquorice.Lcp.Actions
import Liquorice.Lib.Run

/-!
# OPENED means agreement

The states say what has been agreed on: in ACK_RCVD and OPENED the peer has acknowledged the last
request of this side (`Acked`), and in ACK_SENT and OPENED this side has acknowledged the last
request of the peer (`Answered`). Each entry of the table keeps this, and the phase is the network
phase in OPENED only. The clients are told when OPENED is entered.
-/

namespace Liquorice.Lcp

open Run Threads Threads.Prog Ppp

variable {s : Ppp} {a : Action} {log : List Entry} {x : Entry} {l : List Action} {id : UInt8}
  {P : List Entry → Prop} {options : List UInt8}

/-- A Configure-Request was received. -/
def Entry.requests : Entry → Bool
  | .received rcode _ => rcode = 1
  | _ => false

/-- Neither a Configure-Request was received nor a Configure-Nak or Configure-Reject sent. -/
def Entry.quiet (x : Entry) : Bool := !x.requests && !x.sends 3 && !x.sends 4

/-- A Configure-Ack was accepted after the last Configure-Request that was sent. -/
def Acked (log : List Entry) : Prop :=
  ∃ post id rest, log = post ++ .raised .rca :: .received 2 id :: rest ∧ ∀ x ∈ post,
    x.sends 1 = false

/-- The last Configure-Request received is the one with the identifier `id`, and no Configure-Nak or
Configure-Reject was sent since. -/
def Current (id : UInt8) (log : List Entry) : Prop :=
  ∃ post rest, log = post ++ .received 1 id :: rest ∧ ∀ x ∈ post, x.quiet

/-- The last Configure-Request received was answered with a Configure-Ack, and no Configure-Nak or
Configure-Reject was sent since. -/
def Answered (log : List Entry) : Prop :=
  ∃ post id options mid rest, log = post ++ .sent (packet 2 id options) :: mid ++
    .received 1 id :: rest ∧
    ∀ x ∈ post ++ mid, x.quiet

/-! ## The log -/

theorem Acked.cons (h : Acked log) (hx : x.sends 1 = false) : Acked (x :: log) := by
  obtain ⟨post, id, rest, rfl, hpost⟩ := h
  refine ⟨x :: post, id, rest, rfl, ?_⟩
  intro y hy
  rcases List.mem_cons.mp hy with rfl | hy
  · exact hx
  · exact hpost y hy

theorem Current.cons (h : Current id log) (hx : x.quiet) : Current id (x :: log) := by
  obtain ⟨post, rest, rfl, hpost⟩ := h
  refine ⟨x :: post, rest, rfl, ?_⟩
  intro y hy
  rcases List.mem_cons.mp hy with rfl | hy
  · exact hx
  · exact hpost y hy

theorem Answered.cons (h : Answered log) (hx : x.quiet) : Answered (x :: log) := by
  obtain ⟨post, id, options, mid, rest, rfl, hpost⟩ := h
  refine ⟨x :: post, id, options, mid, rest, rfl, ?_⟩
  intro y hy
  rcases List.mem_cons.mp hy with rfl | hy
  · exact hx
  · exact hpost y hy

theorem Current.answered (h : Current id log) : Answered (.sent (packet 2 id options) :: log) := by
  obtain ⟨post, rest, rfl, hpost⟩ := h
  exact ⟨[], id, options, post, rest, rfl, hpost⟩

/-- A property of logs that entries of one kind keep is kept by any number of them. -/
theorem append_of_cons {q : Entry → Prop} (hcons : ∀ x log, q x → P log → P (x :: log))
    {new : List Entry} (hnew : ∀ x ∈ new, q x) (h : P log) : P (new ++ log) := by
  induction new with
  | nil => exact h
  | cons x new ih =>
    exact hcons x _ (hnew x (List.mem_cons_self ..))
      (ih fun y hy => hnew y (List.mem_cons_of_mem _ hy))

/-! ## Actions and the log -/

/-- What an action that sends no request adds to the log, it adds without a Configure-Request. -/
theorem acked_adds {p : Action} (hscr : p ≠ .scr)
    (hsend : p.replies → s.sendPacket.head? ≠ some 1) :
    ∀ x ∈ p.adds s, x.sends 1 = false := by
  intro x hx
  cases p with
  | scr => exact absurd rfl hscr
  | tlu =>
    obtain ⟨pc, -, rfl⟩ := List.mem_map.mp (List.mem_reverse.mp hx)
    rfl
  | str =>
    rw [Action.adds] at hx
    split at hx
    · obtain rfl := List.mem_singleton.mp hx
      rfl
    · cases hx
  | sca | scn | sta | ser =>
    obtain rfl := List.mem_singleton.mp hx
    exact decide_eq_false (hsend rfl)
  | _ => cases hx

/-- What an action adds to the log is quiet, if a reply that it sends is. -/
theorem quiet_adds {p : Action} (hsend : p.replies → (Entry.sent s.sendPacket).quiet) :
    ∀ x ∈ p.adds s, x.quiet := by
  intro x hx
  cases p with
  | tlu =>
    obtain ⟨pc, -, rfl⟩ := List.mem_map.mp (List.mem_reverse.mp hx)
    rfl
  | str | scr =>
    rw [Action.adds] at hx
    split at hx
    · obtain rfl := List.mem_singleton.mp hx
      rfl
    · cases hx
  | sca | scn | sta | ser =>
    obtain rfl := List.mem_singleton.mp hx
    exact hsend rfl
  | _ => cases hx

theorem acked_act (ha : Action.scr ∉ a.parts)
    (hsend : ∀ p ∈ a.parts, p.replies → s.sendPacket.head? ≠ some 1) (h : Acked s.log) :
    Acked (act a s).log := by
  rw [act_parts]
  refine (acts_induction (P := fun s' => s'.sendPacket = s.sendPacket ∧ Acked s'.log)
    (fun _ => parts_simple) ?_ ⟨rfl, h⟩).2
  rintro p hp s₁ s₂ hacts ⟨hpacket₁, hacked₁⟩
  have hpacket₂ : s₂.sendPacket = s₁.sendPacket := congrArg (·.2.2) hacts.fixed
  refine ⟨hpacket₂.trans hpacket₁, ?_⟩
  rw [hacts.log]
  exact append_of_cons (fun x log hx h => h.cons hx)
    (acked_adds (ne_of_mem_of_not_mem hp ha) (hpacket₁ ▸ hsend p hp)) hacked₁

/-- What quiet entries keep, actions whose reply is quiet keep. -/
theorem quiet_acts (hP : ∀ x log, x.quiet → P log → P (x :: log))
    (hl : ∀ p ∈ l, p.parts = [p])
    (hsend : ∀ p ∈ l, p.replies → (Entry.sent s.sendPacket).quiet) (h : P s.log) :
    P (acts l s).log := by
  refine (acts_induction (P := fun s' => s'.sendPacket = s.sendPacket ∧ P s'.log) hl ?_ ⟨rfl, h⟩).2
  rintro p hp s₁ s₂ hacts ⟨hpacket₁, h₁⟩
  have hpacket₂ : s₂.sendPacket = s₁.sendPacket := congrArg (·.2.2) hacts.fixed
  refine ⟨hpacket₂.trans hpacket₁, ?_⟩
  rw [hacts.log]
  exact append_of_cons hP (quiet_adds (hpacket₁ ▸ hsend p hp)) h₁

/-- Actions that send the Configure-Ack for the last request. -/
theorem answered_acts (hl : ∀ p ∈ l, p.parts = [p])
    (hsca : .sca ∈ l) (hpacket : s.sendPacket = packet 2 id options) (h : Current id s.log) :
    Answered (acts l s).log := by
  have hquiet : (Entry.sent s.sendPacket).quiet := by
    rw [hpacket]
    rfl
  induction l generalizing s with
  | nil => cases hsca
  | cons p l ih =>
    have hacts := act_acts (hl p (List.mem_cons_self ..)) s
    have hpacket' : (act p s).sendPacket = s.sendPacket := congrArg (·.2.2) hacts.fixed
    have hl' : ∀ q ∈ l, q.parts = [q] := fun q hq => hl q (List.mem_cons_of_mem _ hq)
    rcases List.mem_cons.mp hsca with rfl | hsca
    · -- the acknowledgement is sent now, and what follows is quiet
      have hanswered : Answered (act .sca s).log := by
        rw [hacts.log]
        show Answered (.sent s.sendPacket :: s.log)
        exact hpacket ▸ h.answered
      exact quiet_acts (s := act .sca s)
        (fun x log hx h => h.cons hx) hl' (fun _ _ _ => hpacket' ▸ hquiet)
        hanswered
    · refine ih hl' hsca (hpacket'.trans hpacket) ?_ (hpacket' ▸ hquiet)
      rw [hacts.log]
      exact append_of_cons (fun x log hx h => h.cons hx) (quiet_adds fun _ => hquiet) h

/-! ## The table -/

/-- The states in which the peer has acknowledged the last request of this side. -/
def State.acked : State → Bool
  | .ackRcvd | .opened => true
  | _ => false

/-- The states in which this side has acknowledged the last request of the peer. -/
def State.answered : State → Bool
  | .ackSent | .opened => true
  | _ => false

/-- A Configure-Request was received. -/
def Trigger.requested : Trigger → Bool
  | .rcrP | .rcrM => true
  | _ => false

variable {t : Trigger} {st : State}

/-- The peer's acknowledgement is still there, or it has just come, and no request is sent. -/
theorem trans_acked (h : (pppTrans t st).2.acked) :
    .scr ∉ (pppTrans t st).1.parts ∧ (t = .rca ∨ st.acked) ∧
      ∀ p ∈ (pppTrans t st).1.parts, p.replies → t.requested ∨ t = .rxr := by
  revert h
  cases t <;> cases st <;> decide

/-- The acknowledgement of this side has just been sent, or it is still valid and no request was
received. -/
theorem trans_answered (h : (pppTrans t st).2.answered) :
    t = .rcrP ∧ .sca ∈ (pppTrans t st).1.parts ∨
      t.requested = false ∧ (st.answered) ∧
        ∀ p ∈ (pppTrans t st).1.parts, p.replies → t = .rxr := by
  revert h
  cases t <;> cases st <;> decide

/-- The phase follows the state. -/
theorem trans_phase (ph : Phase) (h : ph = .network ↔ st = .opened) :
    (pppTrans t st).1.phases ph = .network ↔ (pppTrans t st).2 = .opened := by
  revert h
  cases t <;> cases st <;> cases ph <;> decide

/-- The clients are told when OPENED is entered. -/
theorem trans_tlu (t : Trigger) (st : State) :
    (pppTrans t st).1.parts.count .tlu = if st ≠ .opened ∧ (pppTrans t st).2 = .opened
    then 1 else 0 := by
  cases t <;> cases st <;> decide

/-! ## Events -/

/-- What is agreed on in a state. -/
structure Agreed (s : Ppp) : Prop where
  acked : s.piState.acked → Acked s.log
  answered : s.piState.answered → Answered s.log
  phase : s.piPhase = .network ↔ s.piState = .opened

/-- What was received and what `pi_send` holds when `handle_event` is called. -/
def Prepared (s : Ppp) : Trigger → Prop
  | .rcrP => ∃ id options, s.sendPacket = packet 2 id options ∧ Current id s.log
  | .rcrM => ∃ id options, s.sendPacket = packet 3 id options ∨ s.sendPacket = packet 4 id options
  | .rca => ∃ id rest, s.log = .received 2 id :: rest
  | .rxr => ∃ id data, s.sendPacket = packet 10 id data
  | _ => True

/-- The reply that is sent while the peer's acknowledgement stands is no Configure-Request. -/
theorem Prepared.no_request (h : Prepared s t) (ht : t.requested ∨ t = .rxr) :
    s.sendPacket.head? ≠ some 1 := by
  cases t with
  | rcrP =>
    obtain ⟨id, options, hpacket, -⟩ := h
    rw [hpacket]
    simp [packet]
  | rcrM =>
    obtain ⟨id, options, hpacket | hpacket⟩ := h
    · rw [hpacket]
      simp [packet]
    · rw [hpacket]
      simp [packet]
  | rxr =>
    obtain ⟨id, data, hpacket⟩ := h
    rw [hpacket]
    simp [packet]
  | _ => simp [Trigger.requested] at ht

/-- `handle_event` keeps what is agreed on. A request that was just received is not yet answered. -/
theorem agreed_handleEvent (hacked : s.piState.acked → Acked s.log)
    (hanswered : t.requested = false → s.piState.answered → Answered s.log)
    (hphase : s.piPhase = .network ↔ s.piState = .opened) (hprep : Prepared s t) :
    Agreed ((handleEvent t).complete s).1 := by
  rw [complete_handleEvent]
  -- what stops the timer changes nothing that matters here
  suffices h : ((pppTrans t s.piState).2.acked → Acked (acted t s).log) ∧
      ((pppTrans t s.piState).2.answered → Answered (acted t s).log) ∧
      ((acted t s).piPhase = .network ↔ (pppTrans t s.piState).2 = .opened) by
    split
    · exact ⟨h.1, h.2.1, h.2.2⟩
    · exact ⟨h.1, h.2.1, h.2.2⟩
  refine ⟨?_, ?_, ?_⟩
  · intro hnext
    obtain ⟨hscr, hcause, hreplies⟩ := trans_acked hnext
    refine acked_act hscr (fun p hp hreply => hprep.no_request (hreplies p hp hreply)) ?_
    show Acked (.raised t :: s.log)
    rcases hcause with rfl | hstate
    · obtain ⟨id, rest, hlog⟩ := hprep
      exact ⟨[], id, rest, hlog ▸ rfl, fun _ h => by cases h⟩
    · exact (hacked hstate).cons rfl
  · intro hnext
    rw [acted, act_parts]
    rcases trans_answered hnext with ⟨rfl, hsca⟩ | ⟨ht, hstate, hreplies⟩
    · obtain ⟨id, options, hpacket, hcurrent⟩ := hprep
      exact answered_acts (fun _ => parts_simple) hsca hpacket (hcurrent.cons rfl)
    refine quiet_acts (fun x log hx h => h.cons hx)
      (fun _ => parts_simple) ?_ ((hanswered ht hstate).cons rfl)
    intro p hp hreply
    obtain rfl := hreplies p hp hreply
    obtain ⟨id, data, hpacket⟩ := hprep
    show (Entry.sent s.sendPacket).quiet = true
    rw [hpacket]
    rfl
  · rw [acted, phase_act]
    exact trans_phase s.piPhase hphase

theorem Raises.prepared {e : Event} {s₁ : Ppp} (h : Raises s e t s₁) : Prepared s₁ t := by
  cases h with
  | timeout => split <;> trivial
  | confReq p hlen hcode c hc =>
    have hcoded : c.code = c.parseState.code := hc ▸ lcpCheckRequest_code
    split
    · rename_i hack
      refine ⟨p.rid, c.options, ?_, [], s.log, rfl, fun _ h => by cases h⟩
      rw [hack] at hcoded
      exact hcoded ▸ sendPacket_allocSend
    rename_i hack
    refine ⟨p.rid, c.options, ?_⟩
    cases hparse : c.parseState with
    | ack => exact absurd hparse hack
    | nak =>
      rw [hparse] at hcoded
      exact .inl (hcoded ▸ sendPacket_allocSend)
    | rej =>
      rw [hparse] at hcoded
      exact .inr (hcoded ▸ sendPacket_allocSend)
  | confAck p => exact ⟨p.rid, s.log, congrArg Ppp.log besideOptions_lcpCheckAck⟩
  | codeRej => split <;> trivial
  | protRej => split <;> trivial
  | echoReq p => exact ⟨s.piIdent, be32 s.piLocalMagicNumber, sendPacket_allocSend⟩
  | _ => trivial

/-- A Configure-Request is handled as such. -/
theorem Raises.requested {p : Packet} {s₁ : Ppp} (h : Raises s (.packet p) t s₁)
    (hcode : p.rcode = 1) :
    t.requested := by
  cases h with
  | confReq => split <;> rfl
  | unknown _ _ hcode' =>
    rw [hcode] at hcode'
    exact absurd hcode' (by decide)
  | confRej _ _ hcode' =>
    rw [hcode] at hcode'
    exact absurd hcode' (by decide)
  | confAck _ _ hcode' | termReq _ _ hcode' | termAck _ _ hcode' | codeRej _ _ hcode'
  | protRej _ _ hcode'
  | echoReq _ _ hcode' =>
    rw [hcode] at hcode'
    exact absurd hcode' (by decide)

theorem Agreed.step (h : Agreed s) (e : Event) : Agreed (step s e) := by
  have hhandled := step_handled s e
  generalize Lcp.step s e = s' at hhandled ⊢
  rcases hhandled with hignores | ⟨t, s₁, hraises, rfl⟩
  · -- what is ignored is no request, so that the answer stands
    cases hignores with
    | timeout | long => exact h
    | other p hlen hcode =>
      refine ⟨fun hs => (h.acked hs).cons rfl, fun hs => (h.answered hs).cons ?_, h.phase⟩
      rcases hcode with hcode | hcode | hcode | hcode <;> rw [hcode] <;> rfl
    | discard p hlen hcode =>
      refine ⟨fun hs => (h.acked hs).cons rfl, fun hs => (h.answered hs).cons ?_, h.phase⟩
      rcases hcode with hcode | hcode <;> rw [hcode] <;> rfl
  · obtain ⟨hstate, hphase, -, hlog⟩ := hraises.frame
    refine agreed_handleEvent ?_ ?_ ?_ hraises.prepared
    · rw [hstate, hlog]
      intro hs
      cases e with
      | packet p => exact (h.acked hs).cons rfl
      | _ => exact h.acked hs
    · rw [hstate, hlog]
      intro ht hs
      cases e with
      | packet p =>
        refine (h.answered hs).cons ?_
        have hcode : p.rcode ≠ 1 := fun hcode => by
          have hreq := hraises.requested hcode
          rw [ht] at hreq
          cases hreq
        simp [Entry.quiet, Entry.requests, Entry.sends, hcode]
      | _ => exact h.answered hs
    · rw [hstate, hphase]
      exact h.phase

/-! ## The clients -/

/-- A client was told that the link is up. -/
def Entry.isLinkUp : Entry → Bool
  | .linkUp _ => true
  | _ => false

theorem linkUpEntries_isLinkUp (l : List Client) :
    (linkUpEntries l).reverse.filter Entry.isLinkUp = (linkUpEntries l).reverse := by
  apply List.filter_eq_self.mpr
  intro x hx
  obtain ⟨pc, -, rfl⟩ := List.mem_map.mp (List.mem_reverse.mp hx)
  rfl

/-- Each this-layer-up tells the clients, and no other action does. -/
theorem adds_isLinkUp (p : Action) (s : Ppp) :
    (p.adds s).filter Entry.isLinkUp = if p = .tlu then (linkUpEntries s.piClientList).reverse
    else [] := by
  cases p with
  | tlu => exact linkUpEntries_isLinkUp s.piClientList
  | scr | str =>
    rw [Action.adds]
    split <;> rfl
  | _ => rfl

/-- The log with the calls of `pc_link_up` among the new entries. -/
def Tells (calls : List Entry) (log log' : List Entry) : Prop :=
  ∃ new, log' = new ++ log ∧ new.filter Entry.isLinkUp = calls

theorem Tells.refl : Tells [] log log := ⟨[], rfl, rfl⟩

theorem Tells.trans {calls calls' log' log'' : List Entry} (h : Tells calls log log')
    (h' : Tells calls' log' log'') : Tells (calls' ++ calls) log log'' := by
  obtain ⟨new, rfl, rfl⟩ := h
  obtain ⟨new', rfl, rfl⟩ := h'
  exact ⟨new' ++ new, by rw [List.append_assoc], List.filter_append ..⟩

theorem Tells.cons {calls log' : List Entry} (h : Tells calls log log') (hx : x.isLinkUp = false) :
    Tells calls log (x :: log') := by
  have hone : Tells [] log' (x :: log') := ⟨[x], rfl, by simp [hx]⟩
  exact h.trans hone

theorem tells_acts (hl : ∀ p ∈ l, p.parts = [p]) (htlu : l.count .tlu ≤ 1) (s : Ppp) :
    Tells (if l.count .tlu = 1 then (linkUpEntries s.piClientList).reverse else []) s.log
      (acts l s).log := by
  induction l generalizing s with
  | nil => exact Tells.refl
  | cons p l ih =>
    have hacts := act_acts (hl p (List.mem_cons_self ..)) s
    have hclients : (act p s).piClientList = s.piClientList := congrArg (·.2.1) hacts.fixed
    have hhead : Tells _ s.log (act p s).log := ⟨_, hacts.log, adds_isLinkUp p s⟩
    rw [List.count_cons] at htlu ⊢
    have htail := ih (fun q hq => hl q (List.mem_cons_of_mem _ hq)) (by omega) (act p s)
    have hboth := hhead.trans htail
    rw [hclients] at hboth
    by_cases hp : p = .tlu
    · subst hp
      have hcount : l.count .tlu = 0 := by
        simp only [beq_self_eq_true, if_true] at htlu
        omega
      simpa [acts, hcount] using hboth
    · simpa [acts, hp] using hboth

/-- `handle_event` tells the clients if it enters OPENED. -/
theorem tells_handleEvent (t : Trigger) (s : Ppp) :
    Tells (if s.piState ≠ .opened ∧ (pppTrans t s.piState).2 = .opened then
      (linkUpEntries s.piClientList).reverse else []) s.log ((handleEvent t).complete s).1.log := by
  have hcount := trans_tlu t s.piState
  have htells := tells_acts (l := (pppTrans t s.piState).1.parts) (fun _ => parts_simple)
    (by rw [hcount]; split <;> decide) (s.note (.raised t))
  have hraised : Tells [] s.log (s.note (.raised t)).log := Tells.refl.cons rfl
  have hboth := hraised.trans htells
  rw [List.append_nil, ← act_parts, hcount] at hboth
  rw [complete_handleEvent]
  have hlog :
      (if (pppTrans t s.piState).2.stopsTimer then (acted t s).timerDetach else acted t s).log =
      (acted t s).log := by
    split <;> rfl
  rw [hlog]
  split at hboth
  · rename_i hentry
    rw [if_pos hentry]
    exact hboth
  · rename_i hentry
    rw [if_neg hentry]
    exact hboth

theorem tells_step (s : Ppp) (e : Event) :
    Tells (if s.piState ≠ .opened ∧ (step s e).piState = .opened then
      (linkUpEntries s.piClientList).reverse else []) s.log (step s e).log := by
  have hhandled := step_handled s e
  generalize step s e = s' at hhandled ⊢
  rcases hhandled with hignores | ⟨t, s₁, hraises, rfl⟩
  · have hsame : s'.piState = s.piState ∧ Tells [] s.log s'.log := by
      cases hignores with
      | timeout | long => exact ⟨rfl, Tells.refl⟩
      | other | discard => exact ⟨rfl, Tells.refl.cons rfl⟩
    rw [hsame.1, if_neg fun h => h.1 h.2]
    exact hsame.2
  obtain ⟨hstate, -, hclients, hlog⟩ := hraises.frame
  have hbefore : Tells [] s.log s₁.log := by
    rw [hlog]
    cases e with
    | packet p => exact Tells.refl.cons rfl
    | _ => exact Tells.refl
  have hnext : ((handleEvent t).complete s₁).1.piState = (pppTrans t s.piState).2 := by
    rw [complete_handleEvent, hstate]
  have hboth := hbefore.trans (tells_handleEvent t s₁)
  rw [List.append_nil, hstate, hclients] at hboth
  rw [hnext]
  exact hboth

/-- The clients that are attached stay. -/
theorem piClientList_step (s : Ppp) (e : Event) : (step s e).piClientList = s.piClientList := by
  have hhandled := step_handled s e
  generalize step s e = s' at hhandled ⊢
  rcases hhandled with hignores | ⟨t, s₁, hraises, rfl⟩
  · cases hignores <;> rfl
  obtain ⟨-, -, hclients, -⟩ := hraises.frame
  have hact : (acted t s₁).piClientList = s₁.piClientList :=
    congrArg (·.2.1) (fixed_act (pppTrans t s₁.piState).1 (s₁.note (.raised t)))
  rw [complete_handleEvent]
  split
  · exact hact.trans hclients
  · exact hact.trans hclients

/-! ## Runs -/

theorem agreed_pppInstanceAlloc (clients : List Client) : Agreed (pppInstanceAlloc clients) := by
  have hstate : (pppInstanceAlloc clients).piState = .reqSent := rfl
  have hphase : (pppInstanceAlloc clients).piPhase = .dead := rfl
  constructor
  · simp [hstate, State.acked]
  · simp [hstate, State.answered]
  · simp [hstate, hphase]

/-- **OPENED means that both sides have agreed.** However the events go, in OPENED the last request
of this side was acknowledged, and so was the last one of the peer; the network phase is what OPENED
is; and the clients are told that the link is up when OPENED is entered, each once, and never
else. -/
theorem opened_agreed (clients : List Client) (es : List Event) :
    let s := exec step (pppInstanceAlloc clients) es
    (s.piState = .opened → Acked s.log ∧ Answered s.log) ∧
      (s.piPhase = .network ↔ s.piState = .opened) ∧
      (∀ x ∈ (pppInstanceAlloc clients).log, x.isLinkUp = false) ∧
      ∀ e, Tells (if s.piState ≠ .opened ∧ (step s e).piState = .opened then
        (linkUpEntries clients).reverse else []) s.log (step s e).log := by
  intro s
  have hagreed : Agreed s := exec_preserves (fun s e h => h.step e)
    (agreed_pppInstanceAlloc clients) es
  have hstep : ∀ s e, s.piClientList = clients → (step s e).piClientList = clients :=
    fun s e h => (piClientList_step s e).trans h
  have hclients : s.piClientList = clients := exec_preserves hstep rfl es
  have hstart : ((pppInstanceAlloc clients).log.all fun x => !x.isLinkUp) = true := rfl
  refine ⟨?_, hagreed.phase, ?_, ?_⟩
  · intro hopened
    exact ⟨hagreed.acked (hopened ▸ rfl), hagreed.answered (hopened ▸ rfl)⟩
  · intro x hx
    simpa using List.all_eq_true.mp hstart x hx
  · intro e
    exact hclients ▸ tells_step s e

/-- OPENED is reached: a request without options, and an acknowledgement of the first request of
this side. -/
example :
    (exec step (pppInstanceAlloc []) [.packet (.ofData 1 7 []), .packet (.ofData 2 1 [])]).piState =
    .opened := by
  rfl

end Liquorice.Lcp
