import Liquorice.Lcp.Actions
import Liquorice.Lib.Run

/-!
# Identifiers

A reply to a request of this side is looked at if its identifier is `pi_ident`, which is meant to be
the identifier of the last request. It is, as long as nothing but Configure-Requests has changed it
since the last of them (`fresh`): an Echo-Request and a Terminate-Request count it up behind the
packet they send, and an expiry counts it down even if nothing is sent again. An Echo-Reply carries
`pi_ident` and not the identifier of the request.
-/

namespace Liquorice.Lcp

open Run Threads Threads.Prog Ppp

variable {s : Ppp} {t : Trigger} {e : Event} {log : List Entry}

/-- A packet with the code `c` was received. -/
def Entry.receives (c : UInt8) : Entry → Bool
  | .received rcode _ => rcode = c
  | _ => false

/-- The identifier of a packet. -/
def Entry.id? : Entry → Option UInt8
  | .sent q => q[1]?
  | .received _ rid => some rid
  | _ => none

/-- The identifier of the last packet with the code `c` that was sent. -/
def lastSent (c : UInt8) (log : List Entry) :
    Option UInt8 := (log.find? (Entry.sends c)).bind Entry.id?

/-- The identifier of the last packet with the code `c` that was received. -/
def lastReceived (c : UInt8) (log : List Entry) :
    Option UInt8 := (log.find? (Entry.receives c)).bind Entry.id?

/-- The entries that `pi_ident` has been changed for, Configure-Requests apart: a Terminate-Request
was sent, an Echo-Request received, or the timer has expired without a retry. -/
def Entry.disturbs : Entry → Bool
  | .sent q => q.head? = some 5
  | .received rcode _ => rcode = 9
  | .raised t => t = .toM
  | .linkUp _ => false

/-- A Configure-Request was sent, and nothing has disturbed `pi_ident` since. -/
def fresh : List Entry → Bool
  | [] => false
  | x :: log => x.sends 1 || (!x.disturbs && fresh log)

/-- The event drives the automaton. -/
def Drives (s : Ppp) (e : Event) : Prop := ∃ new t, (step s e).log = new ++ s.log ∧ .raised t ∈ new

/-- Replies drive the automaton exactly if they are replies to the last request, and an Echo-Reply
has the identifier of the last Echo-Request. -/
structure Matches (s : Ppp) (e : Event) : Prop where
  conf : ∀ p, e = .packet p → p.rcode = 2 ∨ p.rcode = 3 ∨ p.rcode = 4 →
    (Drives s e ↔ lastSent 1 s.log = some p.rid)
  term : ∀ p, e = .packet p → p.rcode = 6 → (Drives s e ↔ lastSent 5 s.log = some p.rid)
  echo : ∀ new q, (step s e).log = new ++ s.log → .sent q ∈ new → q.head? = some 10 →
    q[1]? = lastReceived 9 (step s e).log

/-- The packet is as long as it says; a reply to a Configure-Request comes while nothing has
disturbed `pi_ident`; a Terminate-Ack has the identifier `pi_ident` exactly if it has that of the
last Terminate-Request; an Echo-Request that is answered has the identifier `pi_ident`. One that is
not answered leaves its Echo-Reply in `pi_send`, where a Configure-Ack in CLOSED or STOPPED, which
sends what it finds there, must not find it. -/
def Regular (s : Ppp) : Event → Prop
  | .packet p => p.rlen.toNat ≤ p.nbNetworkSize ∧
      (p.rcode = 2 ∨ p.rcode = 3 ∨ p.rcode = 4 → fresh s.log) ∧
      (p.rcode = 6 → (p.rid = s.piIdent ↔ lastSent 5 s.log = some p.rid)) ∧
      (p.rcode = 9 → s.piState = .opened → p.rid = s.piIdent) ∧
      (p.rcode = 2 → s.piState = .closed ∨ s.piState = .stopped →
        s.sendPacket.head? = some 10 → s.sendPacket[1]? = lastReceived 9 s.log)
  | _ => True

instance : Decidable (Regular s e) := by
  induction e using Event.casesOn <;> unfold Regular <;> infer_instance

/-! ## The log -/

variable {x : Entry} {id : UInt8} {new : List Entry} {c : UInt8}

theorem lastSent_cons (hx : x.sends c = false) : lastSent c (x :: log) = lastSent c log := by
  simp [lastSent, hx]

theorem lastReceived_cons (hx : x.receives c = false) :
    lastReceived c (x :: log) = lastReceived c log := by
  simp [lastReceived, hx]

/-- `pi_ident` is the identifier of the last Configure-Request, unless it was disturbed. -/
def Tracks (id : UInt8) (log : List Entry) : Prop := fresh log = true → lastSent 1 log = some id

theorem Tracks.cons (h : Tracks id log) (hx : x.sends 1 = false) : Tracks id (x :: log) := by
  intro hfresh
  rw [lastSent_cons hx]
  apply h
  rw [fresh, hx, Bool.false_or, Bool.and_eq_true] at hfresh
  exact hfresh.2

theorem Tracks.append (h : Tracks id log) (hnew : ∀ x ∈ new, x.sends 1 = false) :
    Tracks id (new ++ log) := by
  induction new with
  | nil => exact h
  | cons x new ih =>
    have htail := ih fun y hy => hnew y (List.mem_cons_of_mem _ hy)
    exact htail.cons (hnew x (List.mem_cons_self ..))

/-- What disturbs `pi_ident` may leave it at anything. -/
theorem tracks_disturbs (hx : x.disturbs) (hsent : x.sends 1 = false) : Tracks id (x :: log) := by
  intro hfresh
  rw [fresh, hx, hsent] at hfresh
  exact absurd hfresh Bool.false_ne_true

/-- A Configure-Request is sent with the new `pi_ident`. -/
theorem tracks_request {options : List UInt8} : Tracks id (.sent (packet 1 id options) :: log) :=
  fun _ => rfl

/-! ## Actions -/

variable {p : Action} {s' : Ppp}

/-- A request that is sent is the last one, or is a Terminate-Request. -/
theorem tracks_of_requests (hacts : Acts p s s') (h : p.requests s) : Tracks s'.piIdent s'.log := by
  have hident : s'.piIdent = s.piIdent + 1 := by
    rw [hacts.ident, Action.ident, if_pos h]
  rw [hacts.log, hident]
  cases p with
  | scr =>
    have hcounter : s.piRestartCounter > 0 := of_decide_eq_true h
    rw [Action.adds, if_pos hcounter]
    exact tracks_request
  | str =>
    have hcounter : s.piRestartCounter > 0 := of_decide_eq_true h
    rw [Action.adds, if_pos hcounter]
    exact tracks_disturbs rfl rfl
  | _ => cases h

theorem Tracks.acts (h : Tracks s.piIdent s.log) (hsend : s.sendPacket.head? ≠ some 1)
    (hacts : Acts p s s') :
    Tracks s'.piIdent s'.log := by
  by_cases hrequests : p.requests s
  · exact tracks_of_requests hacts hrequests
  have hident : s'.piIdent = s.piIdent := by
    rw [hacts.ident, Action.ident, if_neg hrequests]
  rw [hacts.log, hident]
  refine h.append fun x hx => ?_
  cases p with
  | scr | str =>
    rw [Action.adds, if_neg fun hcounter => hrequests (decide_eq_true hcounter)] at hx
    cases hx
  | tlu =>
    obtain ⟨pc, -, rfl⟩ := List.mem_map.mp (List.mem_reverse.mp hx)
    rfl
  | sca | scn | sta | ser =>
    obtain rfl := List.mem_singleton.mp hx
    exact decide_eq_false hsend
  | _ => cases hx

theorem tracks_act (a : Action) (hsend : s.sendPacket.head? ≠ some 1) (h : Tracks s.piIdent s.log) :
    Tracks (act a s).piIdent (act a s).log := by
  rw [act_parts]
  refine (acts_induction (P := fun s' => s'.sendPacket.head? ≠ some 1 ∧ Tracks s'.piIdent s'.log)
    (fun _ => parts_simple) ?_ ⟨hsend, h⟩).2
  rintro p - s₁ s₂ hacts ⟨hsend₁, h₁⟩
  have hpacket : s₂.sendPacket = s₁.sendPacket := congrArg (·.2.2) hacts.fixed
  exact ⟨hpacket ▸ hsend₁, h₁.acts hsend₁ hacts⟩

/-- A retry sends the request again. -/
theorem trans_toP {st : State} (h : st.stopsTimer = false) :
    (pppTrans .toP st).1 = .scr ∨ (pppTrans .toP st).1 = .str := by
  revert h
  cases st <;> decide

/-- `pi_ident` is tracked before `handle_event`, unless the timer has expired; then the request is
sent again, or the expiry is noted. -/
theorem tracks_handleEvent (hsend : s.sendPacket.head? ≠ some 1)
    (h : t ≠ .toP → t ≠ .toM → Tracks s.piIdent s.log)
    (hretry : t = .toP → s.piState.stopsTimer = false ∧ s.piRestartCounter > 0) :
    Tracks ((handleEvent t).complete s).1.piIdent ((handleEvent t).complete s).1.log := by
  have hacted : Tracks (acted t s).piIdent (acted t s).log := by
    by_cases htoP : t = .toP
    · subst htoP
      obtain ⟨hstate, hcounter⟩ := hretry rfl
      rw [acted]
      rcases trans_toP hstate with ha | ha
      · rw [ha]
        exact tracks_of_requests (act_acts rfl _) (decide_eq_true hcounter)
      · rw [ha]
        exact tracks_of_requests (act_acts rfl _) (decide_eq_true hcounter)
    refine tracks_act _ hsend ?_
    show Tracks s.piIdent (.raised t :: s.log)
    by_cases htoM : t = .toM
    · exact tracks_disturbs (decide_eq_true htoM) rfl
    · exact (h htoP htoM).cons rfl
  rw [complete_handleEvent]
  split
  · exact hacted
  · exact hacted

/-! ## Events -/

/-- What holds of `pi_ident` and `pi_send` between events. -/
structure Identified (s : Ppp) : Prop where
  timed : Timed s
  reply : s.sendPacket.head? ≠ some 1
  tracks : Tracks s.piIdent s.log

variable {s₁ : Ppp}

/-- What `pi_send` is given is no Configure-Request. -/
theorem head_replyTo_ne_one (hs : s.sendPacket.head? ≠ some 1) : (replyTo s e).head? ≠ some 1 := by
  cases e with
  | packet q =>
    rw [replyTo]
    split
    · rw [lcpCheckRequest_code]
      cases (lcpCheckRequest q s).parseState <;> simp [packet, Usage.code]
    split
    · simp
    split
    · simp [packet]
    split
    · simp [packet]
    · exact hs
  | _ => exact hs

theorem Raises.tracks (h : Raises s e t s₁) (hs : Tracks s.piIdent s.log) (htoP : t ≠ .toP)
    (htoM : t ≠ .toM) :
    Tracks s₁.piIdent s₁.log := by
  cases h with
  | up | «open» => exact hs
  | timeout =>
    split at htoP
    · exact absurd rfl htoP
    · rename_i hcounter
      rw [if_neg hcounter] at htoM
      exact absurd rfl htoM
  | confAck q =>
    rw [lcpCheckAck_frame]
    exact hs.cons rfl
  | confRej q =>
    rw [lcpCheckReject_frame]
    exact hs.cons rfl
  | echoReq q => exact tracks_disturbs rfl rfl
  | _ => exact hs.cons rfl

/-- An expiry is a retry where the timer runs. -/
theorem Raises.retry (h : Raises s e .toP s₁) (hs : Timed s) :
    s₁.piState.stopsTimer = false ∧ s₁.piRestartCounter > 0 := by
  generalize ht : Trigger.toP = t at h
  cases h with
  | timeout htimer =>
    split at ht
    · rename_i hcounter
      refine ⟨?_, UInt8.pos_iff_ne_zero.mpr hcounter⟩
      rw [Bool.eq_false_iff]
      intro hstops
      have hzero := hs.2 hstops
      omega
    · cases ht
  | confReq | codeRej | protRej => split at ht <;> cases ht
  | _ => cases ht

theorem lastReceived_append {a : Action} {q : List UInt8} (hnew : ∀ x ∈ new, x.Emitted a q) :
    lastReceived c (new ++ log) = lastReceived c log := by
  induction new with
  | nil => rfl
  | cons x new ih =>
    have hx := hnew x (List.mem_cons_self ..)
    have hreceives : x.receives c = false := by
      cases x with
      | received => exact hx.elim
      | _ => rfl
    rw [List.cons_append, lastReceived_cons hreceives]
    exact ih fun y hy => hnew y (List.mem_cons_of_mem _ hy)

/-- What is in `pi_send` is sent for the packets that put their reply there, for an Echo-Request in
OPENED, and for a Configure-Ack in CLOSED or STOPPED, which puts nothing there. -/
theorem trans_replies {st : State} (hp : p ∈ (pppTrans t st).1.parts) (hreplies : p.replies) :
    t = .rcrP ∨ t = .rcrM ∨ t = .rcn ∨ t = .rtr ∨ t = .rxr ∧ st = .opened ∨
      t = .rca ∧ (st = .closed ∨ st = .stopped) := by
  have htable : ∀ p ∈ (pppTrans t st).1.parts, p.replies → t = .rcrP ∨ t = .rcrM ∨ t = .rcn ∨
      t = .rtr ∨ t = .rxr ∧ st = .opened ∨ t = .rca ∧ (st = .closed ∨ st = .stopped) := by
    cases t <;> cases st <;> decide
  exact htable p hp hreplies

/-- An Echo-Reply that is sent has the identifier of the last Echo-Request. -/
theorem Raises.echoed (h : Raises s e t s₁) (he : Regular s e)
    (hp : p ∈ (pppTrans t s₁.piState).1.parts) (hreplies : p.replies)
    (hhead : s₁.sendPacket.head? = some 10) : s₁.sendPacket[1]? = lastReceived 9 s₁.log := by
  obtain ⟨hstate, -, -, -⟩ := h.frame
  have htable := trans_replies hp hreplies
  rw [hstate] at htable
  cases h with
  | echoReq q hlen hcode =>
    obtain ⟨-, -, -, hecho, -⟩ := he
    have hopened : s.piState = .opened := by simpa using htable
    have hid : some s.piIdent = some q.rid := congrArg some (hecho hcode hopened).symm
    exact (congrArg (·[1]?) sendPacket_allocSend).trans hid
  | confAck q hlen hcode =>
    obtain ⟨-, -, -, -, hack⟩ := he
    have hclosed : s.piState = .closed ∨ s.piState = .stopped := by simpa using htable
    rw [lcpCheckAck_frame] at hhead ⊢
    exact hack hcode hclosed hhead
  -- what the packet has put into `pi_send` is no Echo-Reply
  | confReq q hlen hcode c hc =>
    subst hc
    have hten := (congrArg List.head? sendPacket_allocSend).symm.trans hhead
    have hcode : (lcpCheckRequest q s).code ≠ 10 := by
      rw [lcpCheckRequest_code]
      cases (lcpCheckRequest q s).parseState <;> decide
    exact absurd (Option.some.inj hten) hcode
  | confRej q =>
    rw [lcpCheckReject_frame] at hhead
    cases (congrArg List.head? sendPacket_allocSend).symm.trans hhead
  | termReq q => cases (congrArg List.head? sendPacket_allocSend).symm.trans hhead
  | up | «open» | termAck | unknown => simp at htable
  | timeout | codeRej | protRej => split at htable <;> simp at htable

theorem Identified.step (h : Identified s) (e : Event) : Identified (step s e) := by
  have htimed := h.timed.step e
  have hhandled := step_handled s e
  generalize Lcp.step s e = s' at hhandled htimed ⊢
  rcases hhandled with hignores | ⟨t, s₁, hraises, rfl⟩
  · cases hignores with
    | timeout | long => exact h
    | other q | discard q => exact ⟨htimed, h.reply, h.tracks.cons rfl⟩
  · have hreply : s₁.sendPacket.head? ≠ some 1 := hraises.sendPacket ▸ head_replyTo_ne_one h.reply
    have hsend := sendPacket_handleEvent t s₁
    refine ⟨htimed, hsend ▸ hreply, tracks_handleEvent hreply (hraises.tracks h.tracks) ?_⟩
    rintro rfl
    exact hraises.retry h.timed

theorem identified_pppInstanceAlloc (clients : List Client) :
    Identified (pppInstanceAlloc clients) := by
  have hsend : (pppInstanceAlloc clients).sendPacket = [] := rfl
  refine ⟨timed_pppInstanceAlloc clients, ?_, fun _ => rfl⟩
  simp [hsend]

/-! ## What drives the automaton -/

theorem Ignores.not_drives (h : Ignores s e (step s e)) : ¬ Drives s e := by
  rintro ⟨new, t, hlog, ht⟩
  -- what is ignored adds a received packet to the log, or nothing
  have hadds : ∃ old, (∀ x ∈ old, ∃ c id, x = .received c id) ∧ (step s e).log = old ++ s.log := by
    generalize step s e = s' at h
    cases h with
    | timeout | long => exact ⟨[], fun _ h => absurd h List.not_mem_nil, rfl⟩
    | other q | discard q =>
      exact ⟨[.received q.rcode q.rid], fun x hx => ⟨_, _, List.mem_singleton.mp hx⟩, rfl⟩
  obtain ⟨old, hold, hlog'⟩ := hadds
  obtain rfl : new = old := List.append_cancel_right (hlog.symm.trans hlog')
  obtain ⟨c, id, hx⟩ := hold _ ht
  cases hx

theorem Raises.drives (h : Raises s e t s₁) (hstep : step s e = ((handleEvent t).complete s₁).1) :
    Drives s e := by
  obtain ⟨new, hlog, -⟩ := log_handleEvent t s₁
  obtain ⟨-, -, -, hnoted⟩ := h.frame
  refine ⟨new ++ .raised t :: noted e, t, ?_, by simp⟩
  rw [hstep, hlog, hnoted]
  simp

/-- A reply drives the automaton if its identifier is `pi_ident`. -/
theorem drives_iff {q : Packet} (hlen : q.rlen.toNat ≤ q.nbNetworkSize)
    (hcode : q.rcode = 2 ∨ q.rcode = 3 ∨ q.rcode = 4 ∨ q.rcode = 6) :
    Drives s (.packet q) ↔ q.rid = s.piIdent := by
  rcases step_handled s (.packet q) with hignores | ⟨t, s₁, hraises, hstep⟩
  · refine iff_of_false hignores.not_drives ?_
    generalize step s (.packet q) = s' at hignores
    cases hignores with
    | long _ hlong => exact absurd hlen (Nat.not_le.mpr hlong)
    | other _ _ _ hid => exact hid
    | discard _ _ hcode' => grind
  refine iff_of_true (hraises.drives hstep) ?_
  cases hraises with
  | confAck _ _ _ hid | confRej _ _ _ hid | termAck _ _ _ hid => exact hid
  | confReq _ _ hcode' | termReq _ _ hcode' | codeRej _ _ hcode' | protRej _ _ hcode'
  | echoReq _ _ hcode'
  | unknown _ _ hcode' => grind

/-! ## Runs -/

theorem Identified.conf (h : Identified s) {q : Packet} (he : Regular s (.packet q))
    (hcode : q.rcode = 2 ∨ q.rcode = 3 ∨ q.rcode = 4) :
    Drives s (.packet q) ↔ lastSent 1 s.log = some q.rid := by
  obtain ⟨hlen, hfresh, -⟩ := he
  have hlast : lastSent 1 s.log = some s.piIdent := h.tracks (hfresh hcode)
  have hdrives := drives_iff (s := s) hlen (by grind)
  rw [hdrives, hlast, Option.some_inj]
  exact eq_comm

theorem Regular.echo (he : Regular s e) {q : List UInt8}
    (hlog : (Lcp.step s e).log = new ++ s.log) (hq : .sent q ∈ new) (hhead : q.head? = some 10) :
    q[1]? = lastReceived 9 (Lcp.step s e).log := by
  have hhandled := step_handled s e
  generalize Lcp.step s e = s' at hhandled hlog ⊢
  rcases hhandled with hignores | ⟨t, s₁, hraises, rfl⟩
  · -- nothing was sent
    cases hignores with
    | timeout | long =>
      obtain rfl : new = [] := List.append_left_eq_self.mp hlog.symm
      cases hq
    | other q' | discard q' =>
      obtain rfl : new = [.received q'.rcode q'.rid] := List.append_cancel_right hlog.symm
      cases List.mem_singleton.mp hq
  -- an Echo-Reply that was sent is what `pi_send` holds
  obtain ⟨new', hlog', hnew'⟩ := log_handleEvent t s₁
  obtain ⟨-, -, -, hnoted⟩ := hraises.frame
  have hnew : new = new' ++ .raised t :: noted e := by
    rw [hlog', hnoted] at hlog
    exact List.append_cancel_right (hlog.symm.trans (by simp))
  rw [hnew] at hq
  have hsent : q = s₁.sendPacket ∧ ∃ p ∈ (pppTrans t s₁.piState).1.parts, p.replies := by
    rcases List.mem_append.mp hq with hq | hq
    · rcases hnew' _ hq with hq | hq | hq
      · exact hq
      · rw [hq] at hhead
        cases hhead
      · rw [hq] at hhead
        cases hhead
    rcases List.mem_cons.mp hq with hq | hq
    · cases hq
    · cases e with
      | packet q' => cases List.mem_singleton.mp hq
      | _ => cases hq
  obtain ⟨rfl, p, hp, hreplies⟩ := hsent
  rw [hlog', lastReceived_append hnew']
  exact (hraises.echoed he hp hreplies hhead).trans (lastReceived_cons rfl).symm

/-- **Replies match requests.** In a run of events that are regular where they happen, the replies
that drive the automaton are those to the last request, and Echo-Replies carry the identifier of the
Echo-Request. -/
theorem identifiers_match (clients : List Client) (es : List Event)
    (hrun : Along step Regular (pppInstanceAlloc clients) es) (e : Event)
    (he : Regular (exec step (pppInstanceAlloc clients) es) e) :
    Matches (exec step (pppInstanceAlloc clients) es) e := by
  have hstep : ∀ s e, Regular s e → Identified s → Identified (step s e) :=
    fun s e _ h => h.step e
  have hident := exec_invariant hstep (identified_pppInstanceAlloc clients) hrun
  generalize exec step (pppInstanceAlloc clients) es = s at he hident ⊢
  refine ⟨?_, ?_, ?_⟩
  · rintro q rfl hcode
    exact hident.conf he hcode
  · rintro q rfl hcode
    obtain ⟨hlen, -, hterm, -⟩ := he
    exact (drives_iff hlen (by grind)).trans (hterm hcode)
  · intro new q hlog hq hhead
    exact he.echo hlog hq hhead

theorem identifiers_match_confAck :
    Regular (exec step (pppInstanceAlloc []) [.packet (.ofData 1 7 [])])
      (.packet (.ofData 2 1 [])) ∧
      Matches (exec step (pppInstanceAlloc []) [.packet (.ofData 1 7 [])])
        (.packet (.ofData 2 1 [])) := by
  have hrequest : Regular (pppInstanceAlloc []) (.packet (.ofData 1 7 [])) := by decide
  have hack : Regular (exec step (pppInstanceAlloc []) [.packet (.ofData 1 7 [])])
    (.packet (.ofData 2 1 [])) := by decide
  exact ⟨hack, identifiers_match [] [.packet (.ofData 1 7 [])] ⟨hrequest, trivial⟩ _ hack⟩

/-- In OPENED, the Echo-Request with the identifier 77 is answered with the identifier 1. -/
theorem echoReply_mismatched :
    ¬ Matches (exec step (pppInstanceAlloc []) [.packet (.ofData 1 7 []), .packet (.ofData 2 1 [])])
      (.packet (.ofData 9 77 [])) := by
  intro h
  have hid := h.echo [.sent (packet 10 1 (be32 0)), .raised .rxr, .received 9 77] _ rfl
    (List.mem_cons_self ..) rfl
  exact absurd hid (by decide)

end Liquorice.Lcp
