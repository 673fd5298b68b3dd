import Liquorice.Lcp.Options

/-!
# What the actions do

The compound actions are made of simple ones (`Action.parts`). For a simple action that is taken to
completion, this module says what it adds to the log (`adds`) and what it does to the phase; it
leaves `pi_state`, the clients and the packet in `pi_send` alone.
-/

namespace Liquorice.Lcp

open Threads Threads.Prog Ppp

variable {s : Ppp} {a : Action} {t : Trigger} {s₁ : Ppp} {e : Event} {p : Action}

/-- The simple actions of a compound one. -/
def Action.parts : Action → List Action
  | .none | .scj => []
  | .tldScr => [.tld, .scr]
  | .ircTlu => [.irc, .tlu]
  | .ircScr => [.irc, .scr]
  | .ircStr => [.irc, .str]
  | .scaTlu => [.sca, .tlu]
  | .tldIrcStr => [.tld, .irc, .str]
  | .tldScrSca => [.tld, .scr, .sca]
  | .tldScrScn => [.tld, .scr, .scn]
  | .tldZrcSta => [.tld, .zrc, .sta]
  | .ircScrSca => [.irc, .scr, .sca]
  | .ircScrScn => [.irc, .scr, .scn]
  | a => [a]

/-- The action is taken to completion. -/
def act (a : Action) (s : Ppp) : Ppp := ((handleAction a).complete s).1

/-- Actions are taken one after the other. -/
def acts (l : List Action) (s : Ppp) : Ppp := l.foldl (fun s a => act a s) s

theorem act_parts (a : Action) (s : Ppp) : act a s = acts a.parts s := by
  cases a <;> simp only [act, acts, Action.parts, List.foldl_cons, List.foldl_nil, handleAction,
    complete_bind] <;> rfl

/-- A packet with the code `c` was sent. -/
def Entry.sends (c : UInt8) : Entry → Bool
  | .sent q => q.head? = some c
  | _ => false

/-- The actions that send what is in `pi_send`. -/
def Action.replies : Action → Bool
  | .sca | .scn | .sta | .ser => true
  | _ => false

/-- The clients that are told that the link is up. -/
def linkUpEntries (l : List Client) : List Entry := (l.filter Client.notified).map fun pc =>
    .linkUp pc.pcProtocol

/-- What a simple action adds to the log, the latest first. -/
def Action.adds (a : Action) (s : Ppp) : List Entry :=
  match a with
  | .tlu => (linkUpEntries s.piClientList).reverse
  | .scr => if s.piRestartCounter > 0 then [.sent (packet 1 (s.piIdent + 1) s.reqOptions)] else []
  | .str => if s.piRestartCounter > 0 then [.sent (packet 5 s.piIdent [])] else []
  | .sca | .scn | .sta | .ser => [.sent s.sendPacket]
  | _ => []

/-- What a simple action makes of the phase. -/
def Action.phase (a : Action) (ph : Phase) : Phase :=
  match a with
  | .tlu => .network
  | .tld => .terminate
  | .tls => .establish
  | .tlf => .dead
  | _ => ph

/-- A Configure-Request or Terminate-Request is sent if the restart counter allows it. -/
def Action.requests (a : Action) (s : Ppp) : Bool :=
  match a with
  | .scr | .str => s.piRestartCounter > 0
  | _ => false

/-- What a simple action makes of `pi_ident`. -/
def Action.ident (a : Action) (s : Ppp) : UInt8 := if a.requests s then s.piIdent + 1 else s.piIdent

/-- What a simple action makes of the restart counter. -/
def Action.counter (a : Action) (s : Ppp) : UInt8 :=
  match a with
  | .irc => restartMax s
  | .zrc => 0
  | a => if a.requests s then s.piRestartCounter - 1 else s.piRestartCounter

/-- What a simple action makes of the timer. -/
def Action.timer (a : Action) (s : Ppp) : Nat :=
  match a with
  | .zrc => s.piTimeoutTimer - 1 + 1
  | a => if a.requests s then s.piTimeoutTimer - 1 + 1 else s.piTimeoutTimer

/-- `pi_accm`, `pi_accm_usage` and the map that the framer was given. -/
def Ppp.accms (s : Ppp) : UInt32 × Usage × UInt32 := (s.piAccm, s.piAccmUsage, s.pasAccm)

/-- What a simple action makes of the maps. -/
def Action.accms (a : Action) (m : UInt32 × Usage × UInt32) : UInt32 × Usage × UInt32 :=
  match a with
  | .tlu => (m.1, m.2.1, if m.2.1 = .ack then m.1 else m.2.2)
  | .tld => (0xffffffff, .ack, 0xffffffff)
  | _ => m

/-! ## The loop over the clients -/

theorem complete_linkUps (l : List Client) (s : Ppp) :
    ((linkUps l).complete s).1 = { s with log := (linkUpEntries l).reverse ++ s.log } := by
  induction l generalizing s with
  | nil => rfl
  | cons pc l ih =>
    by_cases h : pc.notified
    · have hstep : ((linkUps (pc :: l)).complete s).1 =
          ((linkUps l).complete (s.note (.linkUp pc.pcProtocol))).1 := by
        rw [linkUps, if_pos h]
        rfl
      rw [hstep, ih]
      simp [linkUpEntries, h, note]
    have hstep : ((linkUps (pc :: l)).complete s).1 = ((linkUps l).complete s).1 := by
      rw [linkUps, if_neg h]
    rw [hstep, ih]
    simp [linkUpEntries, h]

/-! ## What a simple action does -/

theorem implementOptions_frame :
    s.implementOptions = { s with pasAccm := s.implementOptions.pasAccm } := by
  rw [implementOptions]
  split <;> rfl

/-- What no action changes: `pi_state`, the clients and the packet in `pi_send`. -/
def fixed (s : Ppp) : State × List Client × List UInt8 := (s.piState, s.piClientList, s.sendPacket)

/-- What a simple action does with the netbuf in `pi_send`. -/
def Action.using (a : Action) (s : Ppp) : List Use :=
  if a.replies then [.released s.piSend, .sent a s.piSend s.sendPacket] else []

/-- What a simple action leaves alone, and what it does to the rest. -/
structure Acts (a : Action) (s s' : Ppp) : Prop where
  fixed : fixed s' = fixed s
  log : s'.log = a.adds s ++ s.log
  phase : s'.piPhase = a.phase s.piPhase
  ident : s'.piIdent = a.ident s
  counter : s'.piRestartCounter = a.counter s
  timer : s'.piTimeoutTimer = a.timer s
  accm : s'.accms = a.accms s.accms
  send : s'.piSend = s.piSend ∧ s'.nextNetbuf = s.nextNetbuf
  uses : s'.uses = a.using s ++ s.uses

theorem acts_sendReply (ha : a.replies) : Acts a s ((sendReply a).complete s).1 := by
  cases a with
  | sca | scn | sta | ser => exact ⟨rfl, rfl, rfl, rfl, rfl, rfl, rfl, ⟨rfl, rfl⟩, rfl⟩
  | _ => cases ha

theorem acts_tlu : Acts .tlu s (tlu.complete s).1 := by
  have hcomplete : (tlu.complete s).1 = ((linkUps s.implementOptions.piClientList).complete
      { s.implementOptions with piPhase := .network }).1 := rfl
  rw [hcomplete, complete_linkUps, implementOptions_frame]
  refine ⟨rfl, rfl, rfl, rfl, rfl, rfl, ?_, ⟨rfl, rfl⟩, rfl⟩
  show (s.piAccm, s.piAccmUsage, s.implementOptions.pasAccm) = _
  rw [implementOptions]
  split
  · rename_i h
    simp [Action.accms, accms, h]
  · rename_i h
    simp [Action.accms, accms, h]

theorem acts_tld : Acts .tld s (tld.complete s).1 := by
  have hcomplete : (tld.complete s).1 = { s.defaultOptions with piPhase := .terminate } := rfl
  rw [hcomplete, defaultOptions, implementOptions_frame]
  exact ⟨rfl, rfl, rfl, rfl, rfl, rfl, rfl, ⟨rfl, rfl⟩, rfl⟩

theorem complete_scr : (scr.complete s).1 =
    if s.piRestartCounter > 0 then
      { s with
        piRestartCounter := s.piRestartCounter - 1
        piIdent := s.piIdent + 1 }.timerRestart.note (.sent (packet 1 (s.piIdent + 1) s.reqOptions))
    else s := by
  rw [scr, complete_read_bind]
  split <;> rfl

theorem complete_str : (str.complete s).1 =
    if s.piRestartCounter > 0 then
      { s with
        piRestartCounter := s.piRestartCounter - 1
        piIdent := s.piIdent + 1 }.timerRestart.note (.sent (packet 5 s.piIdent []))
    else s := by
  rw [str, complete_read_bind]
  split <;> rfl

/-- A request takes one from the restart counter and restarts the timer. -/
theorem acts_request {packet : List UInt8}
    (hrequests : a.requests s = decide (s.piRestartCounter > 0))
    (hadds : a.adds s = if s.piRestartCounter > 0 then [.sent packet] else [])
    (hphase : a.phase s.piPhase = s.piPhase)
    (hcounter : a.counter s = if a.requests s then s.piRestartCounter - 1 else s.piRestartCounter)
    (htimer : a.timer s = if a.requests s then s.piTimeoutTimer - 1 + 1 else s.piTimeoutTimer)
    (haccm : a.accms s.accms = s.accms) (huses : a.using s = []) :
    Acts a s
      (if s.piRestartCounter > 0 then
        { s with
          piRestartCounter := s.piRestartCounter - 1
          piIdent := s.piIdent + 1 }.timerRestart.note (.sent packet)
      else s) := by
  have hident : a.ident s = if a.requests s then s.piIdent + 1 else s.piIdent := rfl
  by_cases h : s.piRestartCounter > 0
  · rw [if_pos h] at hadds ⊢
    rw [hrequests, decide_eq_true h, if_pos rfl] at hident hcounter htimer
    exact ⟨rfl, hadds ▸ rfl, hphase.symm, hident.symm, hcounter.symm, htimer.symm, haccm.symm,
      ⟨rfl, rfl⟩, huses ▸ rfl⟩
  · rw [if_neg h] at hadds ⊢
    rw [hrequests, decide_eq_false h, if_neg Bool.false_ne_true] at hident hcounter htimer
    exact ⟨rfl, hadds ▸ rfl, hphase.symm, hident.symm, hcounter.symm, htimer.symm, haccm.symm,
      ⟨rfl, rfl⟩, huses ▸ rfl⟩

theorem acts_scr : Acts .scr s (scr.complete s).1 := by
  rw [complete_scr]
  exact acts_request rfl rfl rfl rfl rfl rfl rfl

theorem acts_str : Acts .str s (str.complete s).1 := by
  rw [complete_str]
  exact acts_request rfl rfl rfl rfl rfl rfl rfl

/-- **What each simple action does.** -/
theorem act_acts (ha : a.parts = [a]) (s : Ppp) : Acts a s (act a s) := by
  cases a with
  | tlu => exact acts_tlu
  | tld => exact acts_tld
  | scr => exact acts_scr
  | str => exact acts_str
  | sca | scn | sta | ser => exact acts_sendReply rfl
  | tls | tlf | irc | zrc => exact ⟨rfl, rfl, rfl, rfl, rfl, rfl, rfl, ⟨rfl, rfl⟩, rfl⟩
  | _ => exact absurd ha (by decide)

/-- The parts of an action are simple. -/
theorem parts_simple (hp : p ∈ a.parts) : p.parts = [p] := by
  revert hp
  revert p
  cases a <;> decide

theorem sendPacket_allocSend {packet : List UInt8} : (s.allocSend packet).sendPacket = packet := by
  simp [sendPacket, allocSend]

/-! ## Sequences of actions -/

/-- What every simple action of a sequence keeps, the sequence keeps. -/
theorem acts_induction {P : Ppp → Prop} {l : List Action} (hl : ∀ p ∈ l, p.parts = [p])
    (hstep : ∀ p ∈ l, ∀ s s', Acts p s s' → P s → P s') (h : P s) : P (acts l s) := by
  induction l generalizing s with
  | nil => exact h
  | cons p l ih =>
    have hp := List.mem_cons_self (a := p) (l := l)
    have hhead : P (act p s) := hstep p hp s _ (act_acts (hl p hp) s) h
    exact ih (fun q hq => hl q (List.mem_cons_of_mem _ hq))
      (fun q hq => hstep q (List.mem_cons_of_mem _ hq)) hhead

theorem fixed_act (a : Action) (s : Ppp) : fixed (act a s) = fixed s := by
  rw [act_parts]
  exact acts_induction (P := fun s' => fixed s' = fixed s) (fun _ => parts_simple)
    (fun _ _ _ _ hacts h => hacts.fixed.trans h) rfl

/-- What the action `a` adds to the log while `pi_send` holds the packet `q`. -/
def Entry.Emitted (a : Action) (q : List UInt8) : Entry → Prop
  | .sent r => (r = q ∧ ∃ p ∈ a.parts, p.replies) ∨ r.head? = some 1 ∨ r.head? = some 5
  | .linkUp _ => True
  | _ => False

theorem emitted_adds (hp : p ∈ a.parts) (s : Ppp) : ∀ x ∈ p.adds s, x.Emitted a s.sendPacket := by
  intro x hx
  cases p with
  | tlu =>
    obtain ⟨pc, -, rfl⟩ := List.mem_map.mp (List.mem_reverse.mp hx)
    trivial
  | scr =>
    rw [Action.adds] at hx
    split at hx
    · obtain rfl := List.mem_singleton.mp hx
      exact .inr (.inl rfl)
    · cases hx
  | str =>
    rw [Action.adds] at hx
    split at hx
    · obtain rfl := List.mem_singleton.mp hx
      exact .inr (.inr rfl)
    · cases hx
  | sca | scn | sta | ser =>
    obtain rfl := List.mem_singleton.mp hx
    exact .inl ⟨rfl, _, hp, rfl⟩
  | _ => cases hx

theorem log_act (a : Action) (s : Ppp) :
    ∃ new, (act a s).log = new ++ s.log ∧ ∀ x ∈ new, x.Emitted a s.sendPacket := by
  rw [act_parts]
  refine (acts_induction (P := fun s' => s'.sendPacket = s.sendPacket ∧
    ∃ new, s'.log = new ++ s.log ∧ ∀ x ∈ new, x.Emitted a s.sendPacket) (fun _ => parts_simple) ?_
    ⟨rfl, [], rfl, fun _ h => absurd h List.not_mem_nil⟩).2
  rintro p hp s₁ s₂ hacts ⟨hpacket, new, hlog, hnew⟩
  have hpacket₂ : s₂.sendPacket = s₁.sendPacket := congrArg (·.2.2) hacts.fixed
  refine ⟨hpacket₂.trans hpacket, p.adds s₁ ++ new, ?_, ?_⟩
  · rw [hacts.log, hlog, List.append_assoc]
  intro x hx
  rcases List.mem_append.mp hx with hx | hx
  · exact hpacket ▸ emitted_adds hp s₁ x hx
  · exact hnew x hx

/-- A reply among the parts of an action is sent. -/
theorem sent_mem_act (hp : p ∈ a.parts) (hreplies : p.replies) (s : Ppp) :
    ∃ new, (act a s).log = new ++ s.log ∧ .sent s.sendPacket ∈ new := by
  obtain ⟨pre, post, hparts⟩ := List.append_of_mem hp
  have hsimple : ∀ q ∈ a.parts, q.parts = [q] := fun _ => parts_simple
  rw [act_parts, hparts, acts, List.foldl_append, List.foldl_cons]
  rw [hparts] at hsimple
  have hgrows : ∀ (l : List Action), (∀ q ∈ l, q.parts = [q]) → ∀ s : Ppp,
      (acts l s).sendPacket = s.sendPacket ∧ ∃ new, (acts l s).log = new ++ s.log := by
    intro l hl s
    refine acts_induction (P := fun s' => s'.sendPacket = s.sendPacket ∧
      ∃ new, s'.log = new ++ s.log) hl ?_
      ⟨rfl, [], rfl⟩
    rintro q - s₁ s₂ hacts ⟨hpacket, new, hlog⟩
    have hpacket₂ : s₂.sendPacket = s₁.sendPacket := congrArg (·.2.2) hacts.fixed
    exact ⟨hpacket₂.trans hpacket, q.adds s₁ ++ new, by rw [hacts.log, hlog, List.append_assoc]⟩
  obtain ⟨hpacket, new, hlog⟩ := hgrows pre (fun q hq => hsimple q (by simp [hq])) s
  have hacts := act_acts (hsimple p (by simp)) (acts pre s)
  obtain ⟨-, new', hlog'⟩ := hgrows post (fun q hq => hsimple q (by simp [hq])) (act p (acts pre s))
  have hadds : p.adds (acts pre s) = [.sent s.sendPacket] := by
    rw [← hpacket]
    cases p with
    | sca | scn | sta | ser => rfl
    | _ => cases hreplies
  refine ⟨new' ++ .sent s.sendPacket :: new, ?_, by simp⟩
  show (acts post (act p (acts pre s))).log = _
  rw [hlog', hacts.log, hadds, hlog]
  simp

/-- What each simple action makes of a part of the state, a compound one makes of it step by
step. -/
theorem fold_act {β : Type} (f : Ppp → β) (g : Action → β → β)
    (hstep : ∀ p s s', Acts p s s' → f s' = g p (f s)) (a : Action) (s : Ppp) :
    f (act a s) = a.parts.foldl (fun b p => g p b) (f s) := by
  have hfold : ∀ (l : List Action) (s : Ppp), (∀ p ∈ l, p.parts = [p]) →
      f (acts l s) = l.foldl (fun b p => g p b) (f s) := by
    intro l
    induction l with
    | nil => exact fun _ _ => rfl
    | cons p l ih =>
      intro s hl
      have hhead : f (act p s) = g p (f s) :=
        hstep p s _ (act_acts (hl p (List.mem_cons_self ..)) s)
      rw [List.foldl_cons, ← hhead]
      exact ih (act p s) fun q hq => hl q (List.mem_cons_of_mem _ hq)
  rw [act_parts]
  exact hfold a.parts s fun _ => parts_simple

/-- What an action makes of the maps. -/
def Action.allAccms (a : Action) (m : UInt32 × Usage × UInt32) : UInt32 × Usage × UInt32 :=
  a.parts.foldl (fun m p => p.accms m) m

theorem accms_act (a : Action) (s : Ppp) : (act a s).accms = a.allAccms s.accms :=
  fold_act Ppp.accms Action.accms (fun _ _ _ hacts => hacts.accm) a s

/-- What an action makes of the phase. -/
def Action.phases (a : Action) (ph : Phase) : Phase := a.parts.foldl (fun ph p => p.phase ph) ph

theorem phase_act (a : Action) (s : Ppp) : (act a s).piPhase = a.phases s.piPhase :=
  fold_act Ppp.piPhase Action.phase (fun _ _ _ hacts => hacts.phase) a s

/-! ## Events -/

/-- The state behind the action of an event, before `handle_event` stores the next state. -/
def acted (t : Trigger) (s : Ppp) : Ppp := act (pppTrans t s.piState).1 (s.note (.raised t))

/-- `handle_event` to completion. -/
theorem complete_handleEvent (t : Trigger) (s : Ppp) :
    ((handleEvent t).complete s).1 =
      { (if (pppTrans t s.piState).2.stopsTimer then (acted t s).timerDetach else acted t s) with
        piState := (pppTrans t s.piState).2 } := by
  rw [handleEvent, complete_modify_bind, complete_read_bind, complete_bind]
  rfl

/-- What `handle_event` adds to the log. -/
theorem log_handleEvent (t : Trigger) (s : Ppp) :
    ∃ new, ((handleEvent t).complete s).1.log = new ++ .raised t :: s.log ∧ ∀ x ∈ new,
      x.Emitted (pppTrans t s.piState).1 s.sendPacket := by
  obtain ⟨new, hlog, hnew⟩ := log_act (pppTrans t s.piState).1 (s.note (.raised t))
  refine ⟨new, ?_, hnew⟩
  rw [complete_handleEvent]
  split
  · exact hlog
  · exact hlog

/-- A reply among the parts of the action is sent. -/
theorem sent_mem_handleEvent (hp : p ∈ (pppTrans t s.piState).1.parts)
    (hreplies : p.replies) :
    ∃ new, ((handleEvent t).complete s).1.log = new ++ .raised t :: s.log ∧
      .sent s.sendPacket ∈ new := by
  obtain ⟨new, hlog, hnew⟩ := sent_mem_act hp hreplies (s.note (.raised t))
  refine ⟨new, ?_, hnew⟩
  rw [complete_handleEvent]
  split
  · exact hlog
  · exact hlog

theorem sendPacket_handleEvent (t : Trigger) (s : Ppp) :
    ((handleEvent t).complete s).1.sendPacket = s.sendPacket := by
  have hact : (acted t s).sendPacket = s.sendPacket :=
    congrArg (·.2.2) (fixed_act (pppTrans t s.piState).1 (s.note (.raised t)))
  rw [complete_handleEvent]
  split
  · exact hact
  · exact hact

/-- What an event changes before it calls `handle_event`, and the event that it calls it with. -/
inductive Raises (s : Ppp) : Event → Trigger → Ppp → Prop
  | up : Raises s .up .up s
  | open : Raises s .open .open s
  | timeout (h : s.piTimeoutTimer > 0) :
    Raises s .timeout (if s.piRestartCounter ≠ 0 then .toP else .toM)
      { s.timerDetach with piIdent := s.piIdent - 1 }
  | confReq (p : Packet) (hlen : p.rlen.toNat ≤ p.nbNetworkSize) (hcode : p.rcode = 1) (c : Check)
      (hc : c = lcpCheckRequest p s) :
    Raises s (.packet p) (if c.parseState = .ack then .rcrP else .rcrM)
      { (s.note (.received 1 p.rid)).allocSend (packet c.code p.rid c.options) with
        piParseState := c.parseState, piMru := c.mru, piAccm := c.accm }
  | confAck (p : Packet) (hlen : p.rlen.toNat ≤ p.nbNetworkSize) (hcode : p.rcode = 2)
      (hid : p.rid = s.piIdent) :
    Raises s (.packet p) .rca (lcpCheckAck p (s.note (.received 2 p.rid)))
  | confRej (p : Packet) (hlen : p.rlen.toNat ≤ p.nbNetworkSize) (hcode : p.rcode = 3 ∨ p.rcode = 4)
      (hid : p.rid = s.piIdent) :
    Raises s (.packet p) .rcn (lcpCheckReject p ((s.note (.received p.rcode p.rid)).allocSend []))
  | termReq (p : Packet) (hlen : p.rlen.toNat ≤ p.nbNetworkSize) (hcode : p.rcode = 5) :
    Raises s (.packet p) .rtr ((s.note (.received 5 p.rid)).allocSend (packet 6 p.rid []))
  | termAck (p : Packet) (hlen : p.rlen.toNat ≤ p.nbNetworkSize) (hcode : p.rcode = 6)
      (hid : p.rid = s.piIdent) :
    Raises s (.packet p) .rta (s.note (.received 6 p.rid))
  | codeRej (p : Packet) (hlen : p.rlen.toNat ≤ p.nbNetworkSize) (hcode : p.rcode = 7) :
    Raises s (.packet p) (if p.behind 0 ≤ 8 then .rxjM else .rxjP) (s.note (.received 7 p.rid))
  | protRej (p : Packet) (hlen : p.rlen.toNat ≤ p.nbNetworkSize) (hcode : p.rcode = 8) :
    Raises s (.packet p) (if word16 [p.behind 0, p.behind 1] = 0xc021 then .rxjM else .rxjP)
      (s.note (.received 8 p.rid))
  | echoReq (p : Packet) (hlen : p.rlen.toNat ≤ p.nbNetworkSize) (hcode : p.rcode = 9) :
    Raises s (.packet p) .rxr
      { (s.note (.received 9 p.rid)).allocSend
          (packet 10 s.piIdent (be32 s.piLocalMagicNumber)) with
        piIdent := s.piIdent + 1 }
  | unknown (p : Packet) (hlen : p.rlen.toNat ≤ p.nbNetworkSize)
      (hcode : p.rcode = 0 ∨ p.rcode > 11) :
    Raises s (.packet p) .ruc (s.note (.received p.rcode p.rid))

/-- What an event changes that does not call `handle_event`. -/
inductive Ignores (s : Ppp) : Event → Ppp → Prop
  | timeout (h : s.piTimeoutTimer = 0) : Ignores s .timeout s
  | long (p : Packet) (hlen : p.rlen.toNat > p.nbNetworkSize) : Ignores s (.packet p) s
  | other (p : Packet) (hlen : p.rlen.toNat ≤ p.nbNetworkSize)
      (hcode : p.rcode = 2 ∨ p.rcode = 3 ∨ p.rcode = 4 ∨ p.rcode = 6) (hid : p.rid ≠ s.piIdent) :
    Ignores s (.packet p) (s.note (.received p.rcode p.rid))
  | discard (p : Packet) (hlen : p.rlen.toNat ≤ p.nbNetworkSize)
      (hcode : p.rcode = 10 ∨ p.rcode = 11) :
    Ignores s (.packet p) (s.note (.received p.rcode p.rid))

/-- What an event notes when it is looked at. -/
def noted : Event → List Entry
  | .packet p => [.received p.rcode p.rid]
  | _ => []

/-- What comes before `handle_event` leaves `pi_state`, the phase and the clients alone, and notes a
packet at most. -/
theorem Raises.frame (h : Raises s e t s₁) :
    s₁.piState = s.piState ∧ s₁.piPhase = s.piPhase ∧ s₁.piClientList = s.piClientList ∧
      s₁.log = noted e ++ s.log := by
  cases h with
  | up | «open» | timeout => exact ⟨rfl, rfl, rfl, rfl⟩
  | confAck p hlen hcode =>
    rw [lcpCheckAck_frame, noted, hcode]
    exact ⟨rfl, rfl, rfl, rfl⟩
  | confRej p =>
    rw [lcpCheckReject_frame]
    exact ⟨rfl, rfl, rfl, rfl⟩
  | unknown p => exact ⟨rfl, rfl, rfl, rfl⟩
  | confReq p hlen hcode | termReq p hlen hcode | termAck p hlen hcode | codeRej p hlen hcode
  | protRej p hlen hcode | echoReq p hlen hcode =>
    rw [noted, hcode]
    exact ⟨rfl, rfl, rfl, rfl⟩

/-- What `pi_send` holds when an event calls `handle_event`. -/
def replyTo (s : Ppp) : Event → List UInt8
  | .packet p =>
    if p.rcode = 1 then packet (lcpCheckRequest p s).code p.rid (lcpCheckRequest p s).options
    else if p.rcode = 3 ∨ p.rcode = 4 then []
    else if p.rcode = 5 then packet 6 p.rid []
    else if p.rcode = 9 then packet 10 s.piIdent (be32 s.piLocalMagicNumber)
    else s.sendPacket
  | _ => s.sendPacket

theorem Raises.sendPacket (h : Raises s e t s₁) : s₁.sendPacket = replyTo s e := by
  cases h with
  | up | «open» | timeout => rfl
  | confReq p hlen hcode c hc =>
    rw [replyTo, if_pos hcode, ← hc]
    exact sendPacket_allocSend
  | confAck p hlen hcode =>
    have hreply : replyTo s (.packet p) = s.sendPacket := by simp [replyTo, hcode]
    rw [lcpCheckAck_frame, hreply]
    rfl
  | confRej p hlen hcode =>
    have hcode₁ : p.rcode ≠ 1 := fun h => by
      rw [h] at hcode
      exact absurd hcode (by decide)
    rw [replyTo, if_neg hcode₁, if_pos hcode, lcpCheckReject_frame]
    exact sendPacket_allocSend
  | termReq p hlen hcode =>
    have hreply : replyTo s (.packet p) = packet 6 p.rid [] := by simp [replyTo, hcode]
    exact hreply ▸ sendPacket_allocSend
  | echoReq p hlen hcode =>
    have hreply : replyTo s (.packet p) = packet 10 s.piIdent (be32 s.piLocalMagicNumber) := by
      simp [replyTo, hcode]
    exact hreply ▸ sendPacket_allocSend
  | termAck p hlen hcode | codeRej p hlen hcode | protRej p hlen hcode =>
    have hreply : replyTo s (.packet p) = s.sendPacket := by simp [replyTo, hcode]
    exact hreply.symm
  | unknown p hlen hcode =>
    have hcodes : p.rcode ≠ 1 ∧ ¬ (p.rcode = 3 ∨ p.rcode = 4) ∧ p.rcode ≠ 5 ∧
      p.rcode ≠ 9 := by grind
    have hreply : replyTo s (.packet p) = s.sendPacket := by simp [replyTo, hcodes]
    exact hreply.symm

/-- The two kinds of events. -/
def Handled (s : Ppp) (e : Event) (s' : Ppp) : Prop :=
  Ignores s e s' ∨ ∃ t s₁, Raises s e t s₁ ∧ s' = ((handleEvent t).complete s₁).1

/-- How an event begins that is not an expiry: it ends before its first window, or it runs as
`handle_event` does. -/
def Starts (s : Ppp) (e : Event) (r : Ppp × (Unit ⊕ M)) : Prop :=
  (∃ s', Ignores s e s' ∧ r = (pure () : M).run s') ∨ ∃ t s₁, Raises s e t s₁ ∧
    r = (handleEvent t).run s₁

theorem run_ifIdent {p : Packet} {m : M} :
    (ifIdent p m).run s = if p.rid = s.piIdent then m.run s else (s, .inl ()) := by
  have hread : (ifIdent p m).run s = (if p.rid = s.piIdent then m else pure ()).run s := rfl
  rw [hread]
  split <;> rfl

/-- A reply that is looked at for its identifier only. -/
theorem starts_ifIdent {p : Packet} {m : M} (hlen : p.rlen.toNat ≤ p.nbNetworkSize)
    (hcode : p.rcode = 2 ∨ p.rcode = 3 ∨ p.rcode = 4 ∨ p.rcode = 6)
    (hraises : p.rid = s.piIdent → Raises s (.packet p) t s₁)
    (hrun : m.run (s.note (.received p.rcode p.rid)) = (handleEvent t).run s₁) :
    Starts s (.packet p) ((ifIdent p m).run (s.note (.received p.rcode p.rid))) := by
  rw [run_ifIdent, hrun]
  split
  · rename_i hid
    exact .inr ⟨t, s₁, hraises hid, rfl⟩
  · rename_i hid
    exact .inl ⟨_, .other p hlen hcode hid, rfl⟩

theorem starts_recvCode {p : Packet} (hlen : p.rlen.toNat ≤ p.nbNetworkSize) :
    Starts s (.packet p) ((recvCode p).run (s.note (.received p.rcode p.rid))) := by
  rw [recvCode]
  split
  · rename_i hcode
    rw [hcode]
    exact .inr ⟨_, _, .confReq p hlen hcode _ rfl, rfl⟩
  split
  · rename_i hcode
    refine starts_ifIdent hlen (.inl hcode) (.confAck p hlen hcode) ?_
    rw [hcode]
    rfl
  split
  · rename_i hcode
    exact starts_ifIdent hlen (hcode.elim (.inr ∘ .inl) (.inr ∘ .inr ∘ .inl))
      (.confRej p hlen hcode) rfl
  split
  · rename_i hcode
    rw [hcode]
    exact .inr ⟨_, _, .termReq p hlen hcode, rfl⟩
  split
  · rename_i hcode
    refine starts_ifIdent hlen (.inr (.inr (.inr hcode))) (.termAck p hlen hcode) ?_
    rw [hcode]
  split
  · rename_i hcode
    rw [hcode]
    exact .inr ⟨_, _, .codeRej p hlen hcode, rfl⟩
  split
  · rename_i hcode
    rw [hcode]
    exact .inr ⟨_, _, .protRej p hlen hcode, rfl⟩
  split
  · rename_i hcode
    rw [hcode]
    exact .inr ⟨_, _, .echoReq p hlen hcode, rfl⟩
  split
  · rename_i hcode
    exact .inl ⟨_, .discard p hlen hcode, rfl⟩
  · refine .inr ⟨_, _, .unknown p hlen ?_, rfl⟩
    -- every code from 1 to 11 has been dealt with
    grind

theorem run_starts (s : Ppp) (he : e ≠ .timeout) : Starts s e (e.program.run s) := by
  cases e with
  | up => exact .inr ⟨_, _, .up, rfl⟩
  | «open» => exact .inr ⟨_, _, .open, rfl⟩
  | packet p =>
    rw [Event.program, lcpRecvNetbuf]
    split
    · rename_i hlen
      exact .inl ⟨_, .long p hlen, rfl⟩
    · rename_i hlen
      exact starts_recvCode (Nat.not_lt.mp hlen)
  | timeout => exact absurd rfl he

/-- **What an event does.** -/
theorem step_handled (s : Ppp) (e : Event) : Handled s e (step s e) := by
  by_cases he : e = .timeout
  · subst he
    rw [step, Event.program, oneshotExpires, complete_read_bind]
    split
    · rename_i htimer
      exact .inr ⟨_, _, .timeout htimer, rfl⟩
    · rename_i htimer
      exact .inl (.timeout (Nat.eq_zero_of_not_pos htimer))
  rcases run_starts s he with ⟨s', hignores, hrun⟩ | ⟨t, s₁, hraises, hrun⟩
  · rw [step, complete_of_run hrun]
    exact .inl hignores
  · rw [step, complete_of_run hrun]
    exact .inr ⟨t, s₁, hraises, rfl⟩

/-! ## The restart timer -/

/-- The timer is on the list once at most, and not at all in the states that do not need it. -/
def Timed (s : Ppp) : Prop := s.piTimeoutTimer ≤ 1 ∧ (s.piState.stopsTimer → s.piTimeoutTimer = 0)

/-- An action keeps the timer on the list once at most. -/
theorem timer_act (a : Action) (h : s.piTimeoutTimer ≤ 1) : (act a s).piTimeoutTimer ≤ 1 := by
  rw [act_parts]
  refine acts_induction (P := fun s => s.piTimeoutTimer ≤ 1) (fun _ => parts_simple) ?_ h
  intro p _ s₁ s₂ hacts h₁
  rw [hacts.timer]
  -- a timer that is restarted is on the list once
  have hrestart : s₁.piTimeoutTimer - 1 + 1 ≤ 1 := by omega
  unfold Action.timer
  split
  · exact hrestart
  · split
    · exact hrestart
    · exact h₁

theorem timed_handleEvent (t : Trigger) (h : s.piTimeoutTimer ≤ 1) :
    Timed ((handleEvent t).complete s).1 := by
  have hacted : (acted t s).piTimeoutTimer ≤ 1 := timer_act _ h
  rw [complete_handleEvent]
  split
  · have hdetached : (acted t s).piTimeoutTimer - 1 = 0 := by omega
    exact ⟨Nat.le_trans (Nat.le_of_eq hdetached) (Nat.zero_le 1), fun _ => hdetached⟩
  · rename_i hstops
    exact ⟨hacted, fun hstops' => absurd hstops' hstops⟩

theorem Raises.timer (h : Raises s e t s₁) : s₁.piTimeoutTimer ≤ s.piTimeoutTimer := by
  cases h with
  | timeout => exact Nat.sub_le ..
  | confAck p =>
    rw [lcpCheckAck_frame]
    exact Nat.le_refl _
  | confRej p =>
    rw [lcpCheckReject_frame]
    exact Nat.le_refl _
  | _ => exact Nat.le_refl _

theorem Timed.step (h : Timed s) (e : Event) : Timed (step s e) := by
  have hhandled := step_handled s e
  generalize Lcp.step s e = s' at hhandled ⊢
  rcases hhandled with hignores | ⟨t, s₁, hraises, rfl⟩
  · cases hignores <;> exact h
  · exact timed_handleEvent t (Nat.le_trans hraises.timer h.1)

theorem timed_pppInstanceAlloc (clients : List Client) : Timed (pppInstanceAlloc clients) :=
  ⟨Nat.le_refl 1, fun h => Bool.noConfusion h⟩

end Liquorice.Lcp
