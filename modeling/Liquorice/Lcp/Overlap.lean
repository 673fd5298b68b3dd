import Liquorice.Lcp.Actions
import Liquorice.Lib.Pairs

/-!
# Events that overlap

Two events are handled by two threads, which take turns at the windows of `handle_action`. The
`view` of a state is what `handle_event` decides on and stores. The module says for which events the
view in the end is that of handling the events one after the other (`Compatible`).

While an event is in a window, the others may have left the view as it was; then the event makes of
the view what it would have made of it anyway (`Makes`). An event that changes nothing and comes to
no window can therefore run in any window of another event. The other way to be compatible is to
lead to one and the same state by replies only, which leave the rest of the view alone.
-/

namespace Liquorice.Lcp

open Threads Threads.Prog Run Ppp

/-- What `handle_event` decides on and stores. -/
structure View where
  piState : State
  piPhase : Phase
  piRestartCounter : UInt8
  piTimeoutTimer : Nat
  deriving DecidableEq

def view (s : Ppp) : View := ⟨s.piState, s.piPhase, s.piRestartCounter, s.piTimeoutTimer⟩

/-! ## The call of `handle_event` that an event leads to -/

/-- What `lcp_check_request` makes of the options of a packet; it does not depend on the
instance. -/
def Packet.usage (p : Packet) : Usage := (lcpCheckRequest p {}).parseState

/-- What a packet is for the table if it is heeded; one that is cut off is dropped. -/
def Packet.trigger (p : Packet) : Option Trigger :=
  if p.rlen.toNat > p.nbNetworkSize then none
  else if p.rcode = 1 then some (if p.usage = .ack then .rcrP else .rcrM)
  else if p.rcode = 2 then some .rca
  else if p.rcode = 3 ∨ p.rcode = 4 then some .rcn
  else if p.rcode = 5 then some .rtr
  else if p.rcode = 6 then some .rta
  else if p.rcode = 7 then some (if p.behind 0 ≤ 8 then .rxjM else .rxjP)
  else if p.rcode = 8 then some (if word16 [p.behind 0, p.behind 1] = 0xc021 then .rxjM else .rxjP)
  else if p.rcode = 9 then some .rxr
  else if p.rcode = 10 ∨ p.rcode = 11 then none
  else some .ruc

/-- A packet is not the reply to another request. -/
def Packet.heeded (p : Packet) (piIdent : UInt8) : Prop :=
  p.rcode = 2 ∨ p.rcode = 3 ∨ p.rcode = 4 ∨ p.rcode = 6 → p.rid = piIdent
  deriving Decidable

/-- What an event is for the table; the restart counter decides it for an expiry. -/
def Event.trigger : Event → Option Trigger
  | .up => some .up
  | .open => some .open
  | .packet p => p.trigger
  | .timeout => none

/-- The event calls `handle_event`. -/
def Event.heeded (piIdent : UInt8) : Event → Prop
  | .packet p => p.heeded piIdent
  | _ => True

/-- The table has only entries in `P` for the event, which is not an expiry. -/
def Event.leads (P : Action → State → Bool) (st : State) : Event → Bool
  | .timeout => false
  | e => e.trigger.all fun t => P (pppTrans t st).1 (pppTrans t st).2

/-- Nothing is done. -/
def Action.idle : Action → Bool
  | .none | .scj => true
  | _ => false

/-- Nothing is done but for a reply. -/
def Action.quiet (a : Action) : Bool := a.idle || a.replies

/-- The lock is not given away. -/
def Action.brief : Action → Bool
  | .none | .scj | .tld | .tls | .tlf | .irc | .zrc => true
  | _ => false

/-- The event has no row in the table, or it changes nothing and is handled without a window, in a
state in which the timer is not stopped. A reply that matches no request is not idle: the other
event may change `pi_ident` in front of its window. -/
def Event.idle (st : State) (e : Event) : Bool :=
  e.leads (fun a st' => !st.stopsTimer && a.idle && decide (st' = st)) st

/-- The event only sends a reply, leads to the state `st'`, and would not lead out of it. -/
def Event.quiet (st st' : State) (e : Event) : Bool :=
  e.leads (fun a st₁ => a.quiet && decide (st₁ = st')) st && e.leads
    (fun a st₁ => a.quiet && decide (st₁ = st')) st'

/-- The two events can overlap. -/
def Compatible (st : State) (e₁ e₂ : Event) : Prop :=
  e₁.idle st = true ∨ e₂.idle st ∨
    (∃ st', e₁.quiet st st' ∧ e₂.quiet st st') ∨
    (e₁.leads (fun a _ => a.brief) st ∧ e₂.leads (fun a _ => a.brief) st)

section Usage

variable {p : Packet} {body : List UInt8}

/-- What `lcp_check_request` makes of one more option. -/
def Usage.frame (u : Usage) (opt : UInt8) (body : List UInt8) : Usage :=
  if opt = 1 then
    if body.length = 2 ∧ (word16 body ≥ 64 ∨ word16 body ≤ 1500) then u else if u = .ack
      then .nak else u
  else if opt = 2 then
    if body.length = 4 ∧ word32 body &&& accmMask = accmMask then u else if u = .ack
      then .nak else u
  else .rej

theorem Reply.frameNak_usage {r : Reply} {opt : UInt8} :
    (r.frameNak opt body).parseState = if r.parseState = .ack then .nak else r.parseState := by
  rw [frameNak]
  split
  · split <;> rfl
  · split <;> rfl

theorem checkOption_usage {stack : Nat → UInt8} {c : Check} {opt : UInt8} :
    (checkOption stack c opt body).parseState = c.parseState.frame opt body := by
  rw [checkOption, Usage.frame]
  split
  · dsimp only
    split
    · exact Reply.frameAck_parseState
    · exact Reply.frameNak_usage
  split
  · dsimp only
    split
    · exact Reply.frameAck_parseState
    · exact Reply.frameNak_usage
  · exact Reply.frameRej_parseState

/-- What the options make of a part of the reply, the loop makes of it. -/
theorem checkRequest_map {γ δ : Type} (π : γ → δ) {rej : γ → UInt8 → γ}
    {f : γ → UInt8 → List UInt8 → γ} {rej' : δ → UInt8 → δ} {f' : δ → UInt8 → List UInt8 → δ}
    (hrej : ∀ c opt, π (rej c opt) = rej' (π c) opt)
    (hf : ∀ c opt body, π (f c opt body) = f' (π c) opt body) (rounds buf sz : Nat) (c : γ) :
    π (checkRequest rej f p rounds buf sz c) = checkRequest rej' f' p rounds buf sz (π c) := by
  induction rounds generalizing buf sz c with
  | zero => rfl
  | succ rounds ih =>
    rw [checkRequest, checkRequest]
    split
    · rfl
    dsimp only
    split
    · exact hrej ..
    · rw [ih, hf]

theorem lcpCheckRequest_usage (s : Ppp) : (lcpCheckRequest p s).parseState = p.usage := by
  have hmap : ∀ s : Ppp, (lcpCheckRequest p s).parseState =
      checkRequest (fun _ _ => .rej) Usage.frame p p.sz 0 p.sz .ack := fun s =>
    checkRequest_map (fun c : Check => c.parseState) (fun _ _ => Reply.frameRej_parseState)
      (fun _ _ _ => checkOption_usage) _ _ _ _
  rw [Packet.usage, hmap, hmap]

end Usage

variable {s s' s₁ : Ppp} {e : Event} {t : Trigger}

/-- An event that calls `handle_event` does it as its packet says, and leaves the view alone before;
only an Echo-Request changes `pi_ident`. -/
theorem Raises.trigger (h : Raises s e t s₁) (he : e ≠ .timeout) :
    e.trigger = some t ∧ e.heeded s.piIdent ∧ view s₁ = view s ∧
      (t ≠ .rxr → s₁.piIdent = s.piIdent) := by
  cases h with
  | up | «open» => exact ⟨rfl, trivial, rfl, fun _ => rfl⟩
  | timeout => exact absurd rfl he
  | confReq p hlen hcode c hc =>
    refine ⟨?_, by simp [Event.heeded, Packet.heeded, hcode], rfl, fun _ => rfl⟩
    rw [hc, lcpCheckRequest_usage, Event.trigger, Packet.trigger, if_neg (Nat.not_lt.mpr hlen),
      if_pos hcode]
  | confAck p hlen hcode hid =>
    rw [lcpCheckAck_frame]
    refine ⟨?_, fun _ => hid, rfl, fun _ => rfl⟩
    simp [Event.trigger, Packet.trigger, Nat.not_lt.mpr hlen, hcode]
  | confRej p hlen hcode hid =>
    rw [lcpCheckReject_frame]
    refine ⟨?_, fun _ => hid, rfl, fun _ => rfl⟩
    rcases hcode with hcode | hcode <;> simp
      [Event.trigger, Packet.trigger, Nat.not_lt.mpr hlen, hcode]
  | termAck p hlen hcode hid =>
    refine ⟨?_, fun _ => hid, rfl, fun _ => rfl⟩
    simp [Event.trigger, Packet.trigger, Nat.not_lt.mpr hlen, hcode]
  | termReq p hlen hcode | codeRej p hlen hcode | protRej p hlen hcode =>
    refine ⟨?_, by simp [Event.heeded, Packet.heeded, hcode], rfl, fun _ => rfl⟩
    simp [Event.trigger, Packet.trigger, Nat.not_lt.mpr hlen, hcode]
  | echoReq p hlen hcode =>
    refine ⟨?_, by simp [Event.heeded, Packet.heeded, hcode], rfl, fun h => absurd rfl h⟩
    simp [Event.trigger, Packet.trigger, Nat.not_lt.mpr hlen, hcode]
  | unknown p hlen hcode =>
    have hne : ∀ c : UInt8, 1 ≤ c ∧ c ≤ 11 → p.rcode ≠ c := by
      rintro c ⟨h₁, h₁₁⟩ rfl
      rcases hcode with hcode | hcode
      · rw [hcode] at h₁
        exact absurd h₁ (by decide)
      · exact absurd hcode (UInt8.not_lt.mpr h₁₁)
    refine ⟨?_, ?_, rfl, fun _ => rfl⟩
    · simp (disch := decide) [Event.trigger, Packet.trigger, Nat.not_lt.mpr hlen, hne]
    · simp (disch := decide) [Event.heeded, Packet.heeded, hne]

/-- An event that does not call `handle_event` is not heeded or has no row in the table. -/
theorem Ignores.trigger (h : Ignores s e s') (he : e ≠ .timeout) :
    (e.trigger = none ∨ ¬ e.heeded s.piIdent) ∧ view s' = view s ∧ s'.piIdent = s.piIdent := by
  cases h with
  | timeout => exact absurd rfl he
  | long p hlen => exact ⟨.inl (if_pos hlen), rfl, rfl⟩
  | other p hlen hcode hid => exact ⟨.inr fun h => hid (h hcode), rfl, rfl⟩
  | discard p hlen hcode =>
    refine ⟨.inl ?_, rfl, rfl⟩
    rcases hcode with hcode | hcode <;> simp
      [Event.trigger, Packet.trigger, Nat.not_lt.mpr hlen, hcode]

/-! ## What an event makes of the view -/

/-- The contract of a thread in whose windows the others leave the view alone. -/
def undisturbed (st : State) : Contract Ppp where
  inv s := s.piState = st
  rely s s' := view s' = view s
  guar _ _ := True
  idle _ := True
  rely_trans h h' := h'.trans h
  guar_refl _ := trivial
  guar_trans _ _ := trivial
  idle_stable _ _ := trivial

/-- Undisturbed, the program makes `g v` of the view `v`, and it comes to its windows in the state
`st`. -/
def Makes (st : State) (m : M) (g : View → View) : Prop :=
  ∀ s, s.piState = st → Holds (undisturbed st) m
    (fun _ s' => view s' = g (view s) ∧ s'.piState = st) s

section Makes

variable {st : State} {m m' : M} {g g' : View → View}

theorem makes_pure : Makes st (pure ()) id := fun _ hs => holds_pure ⟨rfl, hs⟩

theorem makes_modify {f : Ppp → Ppp}
    (hf : ∀ s, view (f s) = g (view s) ∧ (f s).piState = s.piState) :
    Makes st (modify f) g := fun s hs => holds_modify trivial ⟨(hf s).1, (hf s).2.trans hs⟩

theorem makes_unlocked : Makes st unlocked id := by
  intro s hs
  exact holds_unlocked hs fun s' hs' hview => ⟨hview, hs'⟩

theorem makes_bind (h : Makes st m g) (h' : Makes st m' g') : Makes st (do m; m') (g' ∘ g) := by
  intro s hs
  refine holds_bind ((h s hs).mono ?_)
  rintro - s₁ ⟨hview, hs₁⟩
  exact (h' s₁ hs₁).mono fun _ s₂ h₂ => ⟨by rw [h₂.1, hview]; rfl, h₂.2⟩

/-- A program that begins with a look at the state. -/
theorem makes_read {k : Ppp → M}
    (h : ∀ s, s.piState = st → Holds (undisturbed st) (k s)
      (fun _ s' => view s' = g (view s) ∧ s'.piState = st) s) :
    Makes st (do let s ← read; k s) g :=
  fun s hs => holds_bind (holds_read (h s hs))

theorem makes_note (x : Entry) : Makes st (modify (note · x)) id := makes_modify fun _ => ⟨rfl, rfl⟩

theorem makes_lcpSendNetbuf (packet : List UInt8) : Makes st (lcpSendNetbuf packet) id :=
  makes_bind makes_unlocked (makes_bind (makes_note _) makes_unlocked)

theorem makes_sendReply (a : Action) : Makes st (sendReply a) id := by
  refine makes_read fun s => ?_
  have huse : Makes st (modify fun s => { s with uses := .sent a s.piSend s.sendPacket :: s.uses })
    id :=
    makes_modify fun _ => ⟨rfl, rfl⟩
  have hderef : Makes st (modify derefSend) id := makes_modify fun _ => ⟨rfl, rfl⟩
  exact makes_bind huse (makes_bind (makes_lcpSendNetbuf _) hderef) s

theorem makes_linkUps (l : List Client) : Makes st (linkUps l) id := by
  induction l with
  | nil => exact makes_pure
  | cons pc l ih =>
    rw [linkUps]
    split
    · exact makes_bind (makes_bind (makes_note _) makes_unlocked) ih
    · exact ih

/-- What a request makes of the view. -/
def View.request (v : View) : View :=
  if v.piRestartCounter > 0 then
    { v with
      piRestartCounter := v.piRestartCounter - 1
      piTimeoutTimer := v.piTimeoutTimer - 1 + 1 }
  else v

theorem makes_request (packet : Ppp → List UInt8) :
    Makes st (do
      let s ← read
      if s.piRestartCounter > 0 then
        modify fun s =>
          { s with
            piRestartCounter := s.piRestartCounter - 1
            piIdent := s.piIdent + 1 }.timerRestart
        lcpSendNetbuf (packet s)) View.request := by
  refine makes_read fun s hs => ?_
  split
  · rename_i h
    have hrestart : Makes st
        (modify fun s =>
          { s with
            piRestartCounter := s.piRestartCounter - 1
            piIdent := s.piIdent + 1 }.timerRestart)
        fun v => { v with
          piRestartCounter := v.piRestartCounter - 1,
          piTimeoutTimer := v.piTimeoutTimer - 1 + 1 } :=
      makes_modify fun _ => ⟨rfl, rfl⟩
    have hrequest : View.request (view s) = { view s with
        piRestartCounter := s.piRestartCounter - 1,
        piTimeoutTimer := s.piTimeoutTimer - 1 + 1 } := if_pos h
    rw [hrequest]
    exact makes_bind hrestart (makes_lcpSendNetbuf (packet s)) s hs
  · rename_i h
    have hrequest : View.request (view s) = view s := if_neg h
    rw [hrequest]
    exact makes_pure s hs

theorem makes_tlu : Makes st tlu fun v => { v with piPhase := .network } := by
  refine makes_bind (makes_modify fun s => ?_) (makes_read fun s => makes_linkUps s.piClientList s)
  rw [implementOptions_frame]
  exact ⟨rfl, rfl⟩

theorem makes_tld : Makes st tld fun v => { v with piPhase := .terminate } := by
  refine makes_modify fun s => ?_
  rw [defaultOptions, implementOptions_frame]
  exact ⟨rfl, rfl⟩

theorem makes_irc : Makes st irc fun v =>
    { v with piRestartCounter := if v.piPhase = .terminate then 2 else 10 } :=
  makes_modify fun _ => ⟨rfl, rfl⟩

theorem makes_zrc : Makes st (handleAction .zrc) fun v =>
    { v with piRestartCounter := 0, piTimeoutTimer := v.piTimeoutTimer - 1 + 1 } :=
  makes_modify fun _ => ⟨rfl, rfl⟩

/-- **What an action makes of the view depends on the view only.** -/
theorem exists_makes_handleAction (st : State) (a : Action) : ∃ g, Makes st (handleAction a) g := by
  have hscr : Makes st scr View.request := makes_request _
  have hstr : Makes st str View.request := makes_request _
  cases a with
  | none | scj => exact ⟨_, makes_pure⟩
  | tlu => exact ⟨_, makes_tlu⟩
  | tld => exact ⟨_, makes_tld⟩
  | tls => exact ⟨fun v => { v with piPhase := .establish }, makes_modify fun _ => ⟨rfl, rfl⟩⟩
  | tlf => exact ⟨fun v => { v with piPhase := .dead }, makes_modify fun _ => ⟨rfl, rfl⟩⟩
  | irc => exact ⟨_, makes_irc⟩
  | zrc => exact ⟨_, makes_zrc⟩
  | scr => exact ⟨_, hscr⟩
  | str => exact ⟨_, hstr⟩
  | sca | scn | sta | ser => exact ⟨_, makes_sendReply _⟩
  | tldScr => exact ⟨_, makes_bind makes_tld hscr⟩
  | ircTlu => exact ⟨_, makes_bind makes_irc makes_tlu⟩
  | ircScr => exact ⟨_, makes_bind makes_irc hscr⟩
  | ircStr => exact ⟨_, makes_bind makes_irc hstr⟩
  | scaTlu => exact ⟨_, makes_bind (makes_sendReply _) makes_tlu⟩
  | tldIrcStr => exact ⟨_, makes_bind makes_tld (makes_bind makes_irc hstr)⟩
  | tldScrSca | tldScrScn => exact ⟨_, makes_bind makes_tld (makes_bind hscr (makes_sendReply _))⟩
  | tldZrcSta => exact ⟨_, makes_bind makes_tld (makes_bind makes_zrc (makes_sendReply _))⟩
  | ircScrSca | ircScrScn => exact ⟨_, makes_bind makes_irc (makes_bind hscr (makes_sendReply _))⟩

/-- What `handle_event` stores when the action is done. -/
def View.store (st' : State) (v : View) : View :=
  { v with
    piState := st'
    piTimeoutTimer := if st'.stopsTimer then v.piTimeoutTimer - 1 else v.piTimeoutTimer }

theorem view_store (st' : State) (s : Ppp) :
    view { (if st'.stopsTimer then s.timerDetach else s) with piState := st' } =
      (view s).store st' := by
  rw [View.store]
  split <;> rfl

theorem exists_makes_handleEvent (st : State) (t : Trigger) :
    ∃ g : View → View, ∀ s, s.piState = st →
    Holds (undisturbed st) (handleEvent t) (fun _ s' => view s' = g (view s)) s := by
  obtain ⟨g, hg⟩ := exists_makes_handleAction st (pppTrans t st).1
  refine ⟨fun v => (g v).store (pppTrans t st).2, fun s hs => ?_⟩
  subst hs
  refine holds_bind (holds_modify trivial (holds_bind (holds_read ?_)))
  refine holds_bind ((hg (s.note (.raised t)) rfl).mono ?_)
  rintro - s₁ ⟨hview, -⟩
  refine holds_bind (holds_modify trivial (holds_modify trivial ?_))
  rw [view_store, hview]
  rfl

/-- What an expiry makes of the view, if the calls of `handle_event` make `gP` and `gM` of it. -/
def View.expire (gP gM : View → View) (v : View) : View :=
  if v.piTimeoutTimer > 0 then
    (if v.piRestartCounter ≠ 0 then gP else gM) { v with piTimeoutTimer := v.piTimeoutTimer - 1 }
  else v

theorem makes_oneshotExpires {st : State} {gP gM : View → View}
    (hP : ∀ s, s.piState = st → Holds (undisturbed st) (handleEvent .toP)
      (fun _ s' => view s' = gP (view s)) s) (hM : ∀ s, s.piState = st → Holds (undisturbed st)
      (handleEvent .toM) (fun _ s' => view s' = gM (view s)) s) (hs : s.piState = st) :
    Holds (undisturbed st) oneshotExpires (fun _ s' => view s' = (view s).expire gP gM) s := by
  refine holds_bind
    (holds_read (holds_ite (fun htimer => ?_) fun htimer => holds_pure (if_neg htimer).symm))
  have hexpire : (view s).expire gP gM =
      (if s.piRestartCounter ≠ 0 then gP else gM)
        { view s with piTimeoutTimer := s.piTimeoutTimer - 1 } := if_pos htimer
  rw [hexpire]
  refine holds_bind (holds_modify trivial (holds_bind (holds_unlocked hs fun s' hs' hview => ?_)))
  refine holds_bind (holds_modify trivial (holds_bind (holds_read ?_)))
  -- nobody has touched the counter in the window before the call back
  have hcounter : s'.piRestartCounter = s.piRestartCounter := congrArg View.piRestartCounter hview
  have hview' : view { s' with piIdent := s'.piIdent - 1 } =
    { view s with piTimeoutTimer := s.piTimeoutTimer - 1 } :=
    hview
  by_cases hc : s.piRestartCounter ≠ 0
  · rw [if_pos (hcounter ▸ hc), if_pos hc, ← hview']
    exact hP _ hs'
  · rw [if_neg (hcounter ▸ hc), if_neg hc, ← hview']
    exact hM _ hs'

/-- **What an event makes of the view depends on the view and `pi_ident` only.** -/
theorem exists_makes_program (st : State) (ident : UInt8) (e : Event) :
    ∃ g : View → View, ∀ s, s.piState = st →
    s.piIdent = ident → Holds (undisturbed st) e.program (fun _ s' => view s' = g (view s)) s := by
  by_cases he : e = .timeout
  · subst he
    obtain ⟨gP, hP⟩ := exists_makes_handleEvent st .toP
    obtain ⟨gM, hM⟩ := exists_makes_handleEvent st .toM
    exact ⟨View.expire gP gM, fun s hs _ => makes_oneshotExpires hP hM hs⟩
  by_cases hraised : ∃ t, e.trigger = some t ∧ e.heeded ident
  · obtain ⟨t, htrigger, hheeded⟩ := hraised
    obtain ⟨g, hg⟩ := exists_makes_handleEvent st t
    refine ⟨g, fun s hs hident => ?_⟩
    subst hident
    rcases run_starts s he with ⟨s', hignores, -⟩ | ⟨t', s₁, hraises, hrun⟩
    · rcases (hignores.trigger he).1 with hnone | hnot
      · rw [hnone] at htrigger
        cases htrigger
      · exact absurd hheeded hnot
    obtain ⟨htrigger', -, hview, -⟩ := hraises.trigger he
    obtain rfl : t' = t := Option.some.inj (htrigger'.symm.trans htrigger)
    rw [← hview]
    exact Holds.of_run hrun trivial (hg s₁ ((congrArg View.piState hview).trans hs))
  · refine ⟨id, fun s hs hident => ?_⟩
    subst hident
    rcases run_starts s he with ⟨s', hignores, hrun⟩ | ⟨t', s₁, hraises, -⟩
    · exact Holds.of_run hrun trivial (holds_pure (hignores.trigger he).2.1)
    · obtain ⟨htrigger', hheeded, -⟩ := hraises.trigger he
      exact absurd ⟨t', htrigger', hheeded⟩ hraised

end Makes

/-! ## Events without a window -/

theorem windows_handleAction {a : Action} (ha : a.brief) {k : Unit → M}
    (hk : ∀ s, (k ()).windows s = []) (s : Ppp) : (handleAction a >>= k).windows s = [] := by
  cases a with
  | none | scj | tld | tls | tlf | irc | zrc => exact hk _
  | _ => cases ha

theorem windows_handleEvent (h : (pppTrans t s.piState).1.brief) : (handleEvent t).windows s = [] :=
  windows_handleAction h (fun _ => rfl) _

theorem Event.leads_iff {P : Action → State → Bool} {st : State} : e.leads P st ↔
    e ≠ .timeout ∧ ∀ t, e.trigger = some t → P (pppTrans t st).1 (pppTrans t st).2 := by
  cases e with
  | timeout => exact ⟨fun h => Bool.noConfusion h, fun h => absurd rfl h.1⟩
  | _ => simp [Event.leads, Option.all_eq_true]

/-- A brief event has no window. -/
theorem windows_program (h : e.leads (fun a _ => a.brief) s.piState) :
    e.program.windows s = [] := by
  obtain ⟨he, hbrief⟩ := Event.leads_iff.mp h
  rcases run_starts s he with ⟨s', -, hrun⟩ | ⟨t, s₁, hraises, hrun⟩
  · exact windows_of_run hrun
  obtain ⟨htrigger, -, hview, -⟩ := hraises.trigger he
  have hstate : s₁.piState = s.piState := congrArg View.piState hview
  rw [windows_of_run hrun]
  apply windows_handleEvent
  rw [hstate]
  exact hbrief t htrigger

/-- What an idle event does to the view: nothing. -/
theorem Event.idle_step (h : e.idle s.piState) : e.leads (fun a _ => a.brief) s.piState ∧
    view (step s e) = view s ∧ (e.trigger ≠ some .rxr → (step s e).piIdent = s.piIdent) := by
  obtain ⟨he, hidle⟩ := Event.leads_iff.mp h
  have hentry : ∀ t, e.trigger = some t → s.piState.stopsTimer = false ∧
      (pppTrans t s.piState).1.idle ∧ (pppTrans t s.piState).2 = s.piState := by
    intro t ht
    simpa [and_assoc] using hidle t ht
  refine ⟨Event.leads_iff.mpr ⟨he, fun t ht => ?_⟩, ?_⟩
  · have ha := (hentry t ht).2.1
    generalize (pppTrans t s.piState).1 = a at ha
    cases a with
    | none | scj => rfl
    | _ => cases ha
  rcases run_starts s he with ⟨s', hignores, hrun⟩ | ⟨t, s₁, hraises, hrun⟩
  · have hstep : step s e = s' := congrArg Prod.fst (complete_of_run hrun)
    rw [hstep]
    exact ⟨(hignores.trigger he).2.1, fun _ => (hignores.trigger he).2.2⟩
  obtain ⟨htrigger, -, hview, hident⟩ := hraises.trigger he
  obtain ⟨hstops, ha, hnext⟩ := hentry t htrigger
  have hstate : s₁.piState = s.piState := congrArg View.piState hview
  rw [← hstate] at ha hnext hstops
  have hstep : step s e = { s₁ with log := .raised t :: s₁.log } := by
    rw [step, complete_of_run hrun, complete_handleEvent, hnext, hstops,
      if_neg Bool.false_ne_true, acted]
    generalize (pppTrans t s₁.piState).1 = a at ha
    cases a with
    | none | scj => rfl
    | _ => cases ha
  rw [hstep]
  exact ⟨hview, fun hrxr => hident fun h => hrxr (h ▸ htrigger)⟩

/-! ## Replies that lead to one state -/

/-- The contract of a thread that turns the view `v` into `v'` if `raised`, while others may do the
same. -/
def settling (v v' : View) (ident : UInt8) (raised : Prop) : Contract Ppp where
  inv s := (view s = v ∨ view s = v') ∧ (v ≠ v' → s.piIdent = ident)
  rely s s' := view s = v' → view s' = v'
  guar s s' := view s = v' → view s' = v'
  idle s := raised → view s = v'
  rely_trans h h' := fun hs => h' (h hs)
  guar_refl _ := fun hs => hs
  guar_trans h h' := fun hs => h' (h hs)
  idle_stable h h' := fun hr => h (h' hr)

section Settling

variable {v v' : View} {ident : UInt8} {raised : Prop}

theorem holds_quiet_action {a : Action} (ha : a.quiet) (h : (settling v v' ident raised).inv s) :
    Holds (settling v v' ident raised) (handleAction a)
      (fun _ s' => (settling v v' ident raised).inv s') s := by
  have hreply : Holds (settling v v' ident raised) (sendReply a)
      (fun _ s' => (settling v v' ident raised).inv s') s := by
    refine holds_bind (holds_read (holds_bind (holds_modify (fun hs => hs) (holds_bind ?_))))
    refine holds_bind (holds_unlocked h fun s₁ h₁ _ => holds_bind (holds_modify (fun hs => hs) ?_))
    exact holds_unlocked h₁ fun s₂ h₂ _ => holds_modify (fun hs => hs) h₂
  cases a with
  | none | scj => exact holds_pure h
  | sca | scn | sta | ser => exact hreply
  | _ => cases ha

/-- The state of the view is one of the two. -/
theorem settling_state {P : State → Prop} (h : (settling v v' ident raised).inv s)
    (hv : P v.piState) (hv' : P v'.piState) :
    P s.piState := by
  rcases h.1 with rfl | rfl
  · exact hv
  · exact hv'

theorem holds_quiet_handleEvent (hv : v.store v'.piState = v') (hv' : v'.store v'.piState = v')
    (htable : ∀ st, st = v.piState ∨ st = v'.piState → (pppTrans t st).1.quiet ∧
      (pppTrans t st).2 = v'.piState) (h : (settling v v' ident raised).inv s) :
    Holds (settling v v' ident raised) (handleEvent t)
      (fun _ s' => (settling v v' ident raised).inv s' ∧ (settling v v' ident raised).idle s')
      s := by
  obtain ⟨hquiet, hnext⟩ : (pppTrans t s.piState).1.quiet ∧ (pppTrans t s.piState).2 = v'.piState :=
    settling_state (P := fun st => (pppTrans t st).1.quiet = true ∧ (pppTrans t st).2 = v'.piState)
      h
      (htable _ (.inl rfl)) (htable _ (.inr rfl))
  refine holds_bind (holds_modify (fun hs => hs) (holds_bind (holds_read ?_)))
  refine holds_bind ((holds_quiet_action hquiet (s := s.note (.raised t)) h).mono ?_)
  rintro - s₁ h₁
  have hstate : (s.note (.raised t)).piState = s.piState := rfl
  rw [hstate, hnext]
  -- the timer is not on the list any more if it is stopped a second time
  have htimer : view s₁ = v' → view (if v'.piState.stopsTimer then s₁.timerDetach else s₁) =
      v' := by
    intro hs₁
    have hstore : (view s₁).store v'.piState = view s₁ := by rw [hs₁, hv']
    split
    · rename_i hstops
      rw [View.store, if_pos hstops] at hstore
      have htimer : s₁.piTimeoutTimer - 1 = s₁.piTimeoutTimer := congrArg View.piTimeoutTimer hstore
      rw [← hs₁, view, view, timerDetach, htimer]
    · exact hs₁
  have hstore :
      view { (if v'.piState.stopsTimer then s₁.timerDetach else s₁) with piState := v'.piState } =
      v' := by
    rw [view_store]
    rcases h₁.1 with hs₁ | hs₁
    · rw [hs₁, hv]
    · rw [hs₁, hv']
  refine holds_bind
    (holds_modify htimer
    (holds_modify (fun _ => hstore) ⟨⟨.inr hstore, fun hne => ?_⟩, fun _ => hstore⟩))
  have hident : (if v'.piState.stopsTimer then s₁.timerDetach else s₁).piIdent =
    s₁.piIdent := by split <;> rfl
  exact hident.trans (h₁.2 hne)

/-- An Echo-Request does not lead to another state. -/
theorem pppTrans_rxr (st : State) : (pppTrans .rxr st).2 = st := by cases st <;> rfl

theorem holds_quiet_program (hv : v.store v'.piState = v') (hv' : v'.store v'.piState = v')
    (he : e.quiet v.piState v'.piState) (hraised : raised ↔ (e.trigger ≠ none ∧ e.heeded ident))
    (heq : v.piState = v'.piState → v = v') (h : (settling v v' ident raised).inv s) :
    Holds (settling v v' ident raised) e.program
      (fun _ s' => (settling v v' ident raised).inv s' ∧ (settling v v' ident raised).idle s')
      s := by
  obtain ⟨hleads, hleads'⟩ : e.leads (fun a st₁ => a.quiet && decide (st₁ = v'.piState)) v.piState ∧
      e.leads (fun a st₁ => a.quiet && decide (st₁ = v'.piState)) v'.piState := by
    simpa [Event.quiet] using he
  obtain ⟨htimeout, hentry⟩ := Event.leads_iff.mp hleads
  obtain ⟨-, hentry'⟩ := Event.leads_iff.mp hleads'
  rcases run_starts s htimeout with ⟨s', hignores, hrun⟩ | ⟨t, s₁, hraises, hrun⟩
  · obtain ⟨hnot, hview, hident⟩ := hignores.trigger htimeout
    refine Holds.of_run hrun (fun hs => hview.trans hs) (holds_pure ⟨⟨?_, ?_⟩, ?_⟩)
    · rw [hview]
      exact h.1
    · intro hne
      exact hident.trans (h.2 hne)
    intro hr
    by_cases hne : v = v'
    · rw [hview]
      exact h.1.elim (fun hs => hs.trans hne) id
    · obtain ⟨hsome, hheeded⟩ := hraised.mp hr
      rw [← h.2 hne] at hheeded
      exact (hnot.elim hsome fun hnot => hnot hheeded).elim
  · obtain ⟨htrigger, -, hview, hident⟩ := hraises.trigger htimeout
    have htable : ∀ st, st = v.piState ∨ st = v'.piState →
        (pppTrans t st).1.quiet ∧ (pppTrans t st).2 = v'.piState := by
      rintro st (rfl | rfl)
      · simpa using hentry t htrigger
      · simpa using hentry' t htrigger
    refine Holds.of_run hrun (fun hs => hview.trans hs)
      (holds_quiet_handleEvent hv hv' htable ⟨?_, fun hne => ?_⟩)
    · rw [hview]
      exact h.1
    · -- only an Echo-Request changes `pi_ident`, and it leads to the same state
      refine (hident fun hrxr => hne (heq ?_)).trans (h.2 hne)
      rw [← (htable _ (.inl rfl)).2, hrxr, pppTrans_rxr]

end Settling

/-! ## Two events -/

/-- Two threads handle the two events, and take turns as the schedule says. -/
def overlap (s : Ppp) (e₁ e₂ : Event) (schedule : List Bool) : Pool Bool Ppp :=
  exec Pool.resume (pair s e₁.program e₂.program) schedule

/-- Both threads have ended. -/
def Ended (p : Pool Bool Ppp) : Prop := p.threads false = none ∧ p.threads true = none

/-- The view is that of handling the two events one after the other. -/
def Serial (s : Ppp) (e₁ e₂ : Event) (s' : Ppp) : Prop :=
  view s' = view (step (step s e₁) e₂) ∨ view s' = view (step (step s e₂) e₁)
  deriving Decidable

section Overlap

variable {e₁ e₂ : Event} {schedule : List Bool}

theorem Ended.threads {p : Pool Bool Ppp} (h : Ended p) (b : Bool) : p.threads b = none := by
  cases b with
  | false => exact h.1
  | true => exact h.2

theorem serial_of_windows_nil (h₁ : e₁.program.windows s = []) (h₂ : e₂.program.windows s = [])
    (hend : Ended (overlap s e₁ e₂ schedule)) :
    Serial s e₁ e₂ (overlap s e₁ e₂ schedule).shared := by
  have hnone : ∀ w ∈ e₁.program.windows s, e₂.program.windows w.2 = [] := by
    rw [h₁]
    exact fun _ h => absurd h List.not_mem_nil
  rcases exec_pair h₂ hnone schedule hend.threads with hout | hout | ⟨w, hw, -⟩
  · exact .inl (congrArg view hout)
  · exact .inr (congrArg view hout)
  · rw [h₁] at hw
    exact absurd hw List.not_mem_nil

/-- Storing the state that is there changes nothing. -/
theorem Timed.store_self (hs : Timed s) : (view s).store s.piState = view s := by
  rw [View.store]
  split
  · rename_i hstops
    have htimer : s.piTimeoutTimer = 0 := hs.2 hstops
    simp [view, htimer]
  · rfl

theorem Timed.store_store (hs : Timed s) (st' : State) :
    ((view s).store st').store st' = (view s).store st' := by
  have htimer : s.piTimeoutTimer ≤ 1 := hs.1
  simp only [View.store, view, View.mk.injEq, true_and]
  split <;> omega

theorem view_echo (hs : Timed s) (he : e.trigger = some .rxr) : view (step s e) = view s := by
  have hleads : e.leads (fun a st₁ => a.quiet && decide (st₁ = s.piState)) s.piState := by
    refine Event.leads_iff.mpr ⟨?_, fun t ht => ?_⟩
    · rintro rfl
      cases he
    · obtain rfl : Trigger.rxr = t := Option.some.inj (he.symm.trans ht)
      cases s.piState <;> rfl
  have hquiet : e.quiet s.piState s.piState := by
    rw [Event.quiet, hleads]
    rfl
  let C : Contract Ppp := settling (view s)
    (view s) s.piIdent (e.trigger ≠ none ∧ e.heeded s.piIdent)
  have hholds : Holds C e.program (fun _ s' => C.inv s' ∧ C.idle s') s :=
    holds_quiet_program hs.store_self hs.store_self hquiet Iff.rfl (fun _ => rfl)
      ⟨.inl rfl, fun _ => rfl⟩
  exact (hholds.complete fun _ h => h).2.1.1.elim id id

/-- **An idle event may be handled in any window.** -/
theorem serial_idle (hs : Timed s) (h₂ : e₂.idle s.piState)
    (hend : Ended (overlap s e₁ e₂ schedule)) :
    Serial s e₁ e₂ (overlap s e₁ e₂ schedule).shared := by
  obtain ⟨g, hg⟩ := exists_makes_program s.piState s.piIdent e₁
  have hrefl : ∀ s₁, (undisturbed s.piState).rely s₁ s₁ := fun _ => rfl
  have hstep : ∀ s', s'.piState = s.piState → s'.piIdent = s.piIdent →
    view (step s' e₁) = g (view s') :=
    fun s' hstate hident => ((hg s' hstate hident).complete hrefl).2
  have hwindows : ∀ w ∈ e₁.program.windows s, w.2.piState = s.piState ∧
      ∀ s', s'.piState = s.piState → view s' = view w.2 → view (w.1.complete s').1 =
          g (view s) := by
    intro w hw
    obtain ⟨hstate, hwp⟩ := wp_windows hrefl (hg s rfl rfl s trivial) hw
    refine ⟨hstate, fun s' hs' hview => ?_⟩
    obtain ⟨-, -, -, hcomplete⟩ := wp_complete hrefl (hwp s' hs' hview)
    exact hcomplete
  have hbrief : ∀ w ∈ e₁.program.windows s, e₂.program.windows w.2 = [] := fun w hw =>
    windows_program ((hwindows w hw).1 ▸ (Event.idle_step h₂).1)
  rcases exec_pair (windows_program (Event.idle_step h₂).1) hbrief schedule hend.threads with hout
    | hout | ⟨w, hw, hout⟩
  · exact .inl (congrArg view hout)
  · exact .inr (congrArg view hout)
  obtain ⟨hstate, hrest⟩ := hwindows w hw
  obtain ⟨-, hview, -⟩ := Event.idle_step (s := w.2) (hstate ▸ h₂)
  have hresult : view (overlap s e₁ e₂ schedule).shared = g (view s) := by
    rw [overlap, hout]
    exact hrest _ ((congrArg View.piState hview).trans hstate) hview
  by_cases hecho : e₂.trigger = some .rxr
  · -- as if the Echo-Request came last, since it changes `pi_ident`
    refine .inl ?_
    rw [hresult, view_echo (hs.step e₁) hecho, hstep s rfl rfl]
  -- as if the idle event came first
  obtain ⟨-, hview₂, hident₂⟩ := Event.idle_step h₂
  refine .inr ?_
  rw [hresult, hstep _ (congrArg View.piState hview₂) (hident₂ hecho), hview₂]

/-- **Replies that lead to one state may overlap.** -/
theorem serial_quiet (hs : Timed s) {st' : State} (h₁ : e₁.quiet s.piState st')
    (h₂ : e₂.quiet s.piState st') (hend : Ended (overlap s e₁ e₂ schedule)) :
    Serial s e₁ e₂ (overlap s e₁ e₂ schedule).shared := by
  let raised : Bool → Prop := fun b => (cond b e₂ e₁).trigger ≠ none ∧
    (cond b e₂ e₁).heeded s.piIdent
  let C : Bool → Contract Ppp := fun b => settling (view s)
    ((view s).store st') s.piIdent (raised b)
  have hself : s.piState = st' → view s = (view s).store st' := fun h => h ▸ hs.store_self.symm
  have hquiet : ∀ b, (cond b e₂ e₁).quiet s.piState st' := fun b => by
    cases b with
    | false => exact h₁
    | true => exact h₂
  have hholds : ∀ b s', (C b).inv s' → Holds (C b)
    (cond b e₂ e₁).program (fun _ s' => (C b).inv s' ∧ (C b).idle s') s' :=
    fun b s' h => holds_quiet_program rfl (hs.store_store st') (hquiet b) Iff.rfl hself h
  have hstart : ∀ b, (C b).inv s := fun _ => ⟨.inl rfl, fun _ => rfl⟩
  by_cases hraised : ∃ b, raised b
  · -- one of them leads to the state, in whatever order
    have hfits : Fits C := ⟨fun _ _ _ h => h, fun _ _ _ _ _ h => h⟩
    have hok : Ok C (overlap s e₁ e₂ schedule) := by
      refine exec_preserves (fun p b hp => Ok.resume hfits (fun _ h => h) hp)
        ⟨hstart, fun b hb => ?_, fun b m hm => ?_⟩ schedule
      · cases hb
      · obtain rfl : (cond b e₂ e₁).program = m := by
          cases b <;> exact Option.some.inj hm
        exact fun s' hinv _ => hholds b s' hinv s' fun h => h
    have hstep : ∀ b s', (C b).inv s' → (C b).inv (step s' (cond b e₂ e₁)) ∧
        (C b).idle (step s' (cond b e₂ e₁)) ∧
        (C b).guar s' (step s' (cond b e₂ e₁)) := by
      intro b s' h
      obtain ⟨hguar, hinv, hidle⟩ := (hholds b s' h).complete fun _ h => h
      exact ⟨hinv, hidle, hguar⟩
    obtain ⟨hinv, hidle, -⟩ := hstep false s (hstart false)
    obtain ⟨-, hidle', hguar'⟩ := hstep true _ hinv
    obtain ⟨b, hb⟩ := hraised
    refine .inl (Eq.trans (b := (view s).store st') (hok.idle b (hend.threads b) hb) ?_)
    cases b with
    | false => exact (hguar' (hidle hb)).symm
    | true => exact (hidle' hb).symm
  · -- neither of them calls `handle_event`
    have hwindows : ∀ b, (cond b e₂ e₁).program.windows s = [] := by
      intro b
      obtain ⟨htimeout, -⟩ := Event.leads_iff.mp (Bool.and_eq_true_iff.mp (hquiet b)).1
      rcases run_starts s htimeout with ⟨s', -, hrun⟩ | ⟨t, s₁, hraises, -⟩
      · exact windows_of_run hrun
      · obtain ⟨htrigger, hheeded, -⟩ := hraises.trigger htimeout
        exact absurd ⟨b, htrigger ▸ Option.some_ne_none t, hheeded⟩ hraised
    exact serial_of_windows_nil (hwindows false) (hwindows true) hend

theorem Serial.symm {s' : Ppp} (h : Serial s e₁ e₂ s') : Serial s e₂ e₁ s' := Or.symm h

/-- The schedule with the threads in the other places. -/
theorem overlap_swap : (overlap s e₁ e₂ schedule).swap = overlap s e₂ e₁ (schedule.map not) := by
  rw [overlap, exec_swap, swap_pair]
  rfl

theorem serial_of_compatible (hs : Timed s) (hc : Compatible s.piState e₁ e₂)
    (hend : Ended (overlap s e₁ e₂ schedule)) :
    Serial s e₁ e₂ (overlap s e₁ e₂ schedule).shared := by
  rcases hc with h₁ | h₂ | ⟨st', h₁, h₂⟩ | ⟨h₁, h₂⟩
  · have hend' : Ended (overlap s e₂ e₁ (schedule.map not)) := by
      rw [← overlap_swap]
      exact hend.symm
    have hserial := serial_idle hs h₁ hend'
    rw [← overlap_swap] at hserial
    exact hserial.symm
  · exact serial_idle hs h₂ hend
  · exact serial_quiet hs h₁ h₂ hend
  · exact serial_of_windows_nil (windows_program h₁) (windows_program h₂) hend

end Overlap

/-- **Compatible events are atomic.** -/
theorem events_atomic (clients : List Client) (es : List Event) (e₁ e₂ : Event)
    (schedule : List Bool) (hc : Compatible (exec step (pppInstanceAlloc clients) es).piState e₁ e₂)
    (hend : Ended (overlap (exec step (pppInstanceAlloc clients) es) e₁ e₂ schedule)) :
    Serial (exec step (pppInstanceAlloc clients) es) e₁ e₂
      (overlap (exec step (pppInstanceAlloc clients) es) e₁ e₂ schedule).shared := by
  have htimed : Timed (exec step (pppInstanceAlloc clients) es) :=
    exec_preserves (fun _ e h => h.step e) (timed_pppInstanceAlloc clients) es
  exact serial_of_compatible htimed hc hend

/-- A Configure-Request that comes twice is acknowledged twice, also if the first one is still being
dealt with. -/
theorem events_atomic_twice :
    Serial (pppInstanceAlloc []) (.packet (.ofData 1 7 [])) (.packet (.ofData 1 7 []))
      (overlap (pppInstanceAlloc []) (.packet (.ofData 1 7 [])) (.packet (.ofData 1 7 []))
        [false, true, true, false, false, true]).shared :=
  events_atomic [] [] _ _ _ (.inr (.inr (.inl ⟨.ackSent, by decide +kernel, by decide +kernel⟩)))
    ⟨rfl, rfl⟩

/-- The peer has acknowledged the request, and the timer expires while its own request is being
acknowledged. The expiry takes one from the restart counter, and nothing of what it does to the
state is left. -/
theorem expiry_overlaps :
    ∃ (es : List Event) (e₁ e₂ : Event) (schedule : List Bool),
      Ended (overlap (exec step (pppInstanceAlloc []) es) e₁ e₂ schedule) ∧
      view (overlap (exec step (pppInstanceAlloc []) es) e₁ e₂ schedule).shared =
        ⟨.opened, .network, 9, 0⟩ ∧
      view (step (step (exec step (pppInstanceAlloc []) es) e₁) e₂) = ⟨.opened, .network, 10, 0⟩ ∧
      view (step (step (exec step (pppInstanceAlloc []) es) e₂) e₁) = ⟨.ackSent, .dead, 9, 1⟩ ∧
      ¬ Serial (exec step (pppInstanceAlloc []) es) e₁ e₂
        (overlap (exec step (pppInstanceAlloc []) es) e₁ e₂ schedule).shared :=
  ⟨[.packet (.ofData 2 1 [])], .packet (.ofData 1 7 []), .timeout,
    [false, true, true, true, true, false, false],
    ⟨rfl, rfl⟩, by decide +kernel, by decide +kernel, by decide +kernel, by decide +kernel⟩

end Liquorice.Lcp
