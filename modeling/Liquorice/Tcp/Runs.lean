import Liquorice.Tcp.Frames
import Liquorice.Tcp.Receive

/-!
# Runs of a host

Every thread of a host keeps its contract, so that the invariant holds in every state of every run
(`ok_step`). The marks of the log are set by the notes only (`framed_step`), so that a run in
which nothing bad happens keeps them clear.
-/

namespace Liquorice.Tcp

open Run Threads Threads.Prog Socket

variable {s : Socket} {h : Host} {e : Event}

attribute [local simp] allocated consock

/-! ## The first state -/

theorem inv_allocated : Inv allocated := by
  refine ⟨⟨?_, ?_, ?_, fun _ => ?_, fun _ => ?_, fun _ => ?_⟩, by simp, by simp⟩
  · constructor <;> simp [Early, Opened]
  · constructor <;> simp [bytes, Chained]
  · constructor <;> simp [closeFins, recvFins]
  · constructor <;> simp
  · constructor <;> simp
  · constructor <;> simp [Timer.running]

/-- A listener makes a socket for a SYN. -/
theorem inv_consock (sndNxt sndUna : UInt32) {nb : Segment} (hsyn : nb.syn) :
    Inv (consock sndNxt sndUna nb) := by
  refine ⟨⟨?_, ?_, ?_, fun _ => ?_, fun _ => ?_, fun _ => ?_⟩, by simp, by simp⟩
  · constructor <;> simp [Early, Opened]
  · constructor <;> simp [bytes, Chained, hsyn]
  · constructor <;> simp [closeFins, recvFins]
  · constructor <;> simp
  · constructor <;> simp
  · constructor <;> simp [Timer.running]

/-! ## Steps -/

/-- What happens to the socket by itself. -/
theorem Inv.env (hinv : Inv s) (e : Event) : Inv (e.env s) := by
  have hexpire : ∀ t t' : Timer, t.running = s.tsWaitTimer.running →
      t.doubled = s.tsWaitTimer.doubled →
      t.missed = s.tsWaitTimer.missed → t'.running = s.tsDeferredAckTimer.running →
      t'.doubled = s.tsDeferredAckTimer.doubled → t'.missed = s.tsDeferredAckTimer.missed →
      Inv { s with tsWaitTimer := t, tsDeferredAckTimer := t' } := by
    intro t t' hrun hdoubled hmissed hrun' hdoubled' hmissed'
    refine ⟨⟨hinv.sender.congr rfl, hinv.receiver.congr rfl, hinv.closer.congr rfl,
      fun ha => (hinv.apart ha).congr rfl, fun hk => (hinv.orderly hk).congr rfl, fun hm => ?_⟩,
      hinv.waits, hinv.finWait1⟩
    refine (hinv.counted ?_).expire hrun hdoubled hrun' hdoubled'
    simpa [Matched, hmissed, hmissed'] using hm
  cases e with
  | expireWait =>
    exact hexpire _ s.tsDeferredAckTimer (Counted.running_expire _) (Counted.doubled_expire _)
      (Counted.missed_expire _) rfl rfl rfl
  | expireDeferredAck =>
    exact hexpire s.tsWaitTimer _ rfl rfl rfl (Counted.running_expire _) (Counted.doubled_expire _)
      (Counted.missed_expire _)
  | jiffy => exact hinv.congr rfl
  | _ => exact hinv

theorem env_log (e : Event) : (e.env s).log = s.log := by cases e <;> rfl

theorem rely_env (i : Option Nat) (e : Event) : (contract i).rely s (e.env s) := by
  have ho : Others s (e.env s) := by
    cases e <;> exact .of_log rfl rfl rfl rfl id
  cases i with
  | none => exact ho
  | some n => exact ⟨ho.toEvolves, fun hc => by rw [env_log]; exact hc⟩

/-- **Every function keeps the contract of its thread.** -/
theorem Event.thread_holds {i : Option Nat} {m : M} (hinv : Inv s) (hidle : (contract i).idle s)
    (hthread : e.thread s = some (i, m)) :
    Holds (contract i) m (fun _ s => (contract i).inv s ∧ (contract i).idle s) s := by
  have hapi : ∀ {n : Nat} {m : M}, Holds (contract (some n)) m (fun _ => Inv) s →
      Holds (contract (some n)) m (fun _ s => (contract (some n)).inv s ∧
        (contract (some n)).idle s) s :=
    fun h => h.mono fun _ _ hinv' => ⟨hinv', trivial⟩
  cases e with simp only [Event.thread, Option.ite_none_right_eq_some,
    Option.some.injEq, Prod.mk.injEq,
    reduceCtorEq] at hthread
  | connect n =>
    obtain ⟨⟨halloc, _⟩, rfl, rfl⟩ := hthread
    exact hapi (holds_bind (holds_tame .noteConnect
      (holds_bindSocket hinv.noteConnect halloc (.inl rfl) (fun _ => rfl) ⟨rfl, rfl⟩ fun _ => rfl)))
  | accept n =>
    obtain ⟨⟨halloc, harr⟩, rfl, rfl⟩ := hthread
    exact hapi (holds_bindSocket hinv halloc (.inr ⟨rfl, harr⟩) (by simp) ⟨rfl, rfl⟩ (by simp))
  | segment nb =>
    obtain ⟨hsocks, rfl, rfl⟩ := hthread
    exact rx_tcpRecvStateMachine hinv hidle hsocks
  | icmp t c =>
    obtain ⟨hsocks, rfl, rfl⟩ := hthread
    exact rx_tcpRecvNetbufIcmp hinv hidle hsocks
  | send n nb =>
    obtain ⟨rfl, rfl⟩ := hthread
    exact hapi (holds_noteSend hinv)
  | close n =>
    obtain ⟨_, rfl, rfl⟩ := hthread
    exact hapi (holds_noteClose hinv fun _ hinv' => holds_tcpClose hinv')
  | clientDetach n =>
    obtain ⟨rfl, rfl⟩ := hthread
    exact hapi (holds_noteClose hinv fun _ hinv' => holds_tcpClientDetach hinv')
  | waitTimer n =>
    obtain ⟨hpending, rfl, rfl⟩ := hthread
    exact hapi (holds_waitTimerCallback hinv hpending)
  | deferredAckTimer n =>
    obtain ⟨hpending, rfl, rfl⟩ := hthread
    exact hapi (holds_tcpTickDeferredAck hinv hpending)

/-- What one event is to the pool. -/
theorem step_cases (h : Host) (e : Event) : step h e = h ∨ step h e = ⟨e.env h.shared, h.threads⟩ ∨
    (∃ i, e = .resume i ∧ step h e = h.resume i) ∨
    ∃ i m, e.thread h.shared = some (i, m) ∧ h.threads i = none ∧ step h e = h.start i m := by
  cases e with
  | resume i => exact .inr (.inr (.inl ⟨i, rfl, rfl⟩))
  | _ =>
    -- Every other event is one of a thread that starts, or of the environment.
    simp only [step]
    split
    · rename_i i m hthread
      split
      · rename_i hnone
        exact .inr (.inr (.inr ⟨i, m, hthread, by simpa using hnone, rfl⟩))
      · exact .inl rfl
    · exact .inr (.inl rfl)

/-- **Every event keeps every thread on contract.** -/
theorem ok_step (hok : Ok contract h) (e : Event) : Ok contract (step h e) := by
  have hinv : Inv h.shared := hok.inv none
  rcases step_cases h e with heq | heq | ⟨i, _, heq⟩ | ⟨i, m, hthread, hnone, heq⟩ <;> rw [heq]
  · exact hok
  · exact hok.env (fun i => by rw [contract_inv]; exact hinv.env e) fun i => rely_env i e
  · exact hok.resume contract_fits (contract_rely_refl i)
  · exact hok.start contract_fits (Event.thread_holds hinv (hok.idle i hnone) hthread)

theorem ok_atRest (hinv : Inv s) (hset : Settled s) : Ok contract (atRest s) := by
  refine ⟨fun i => by rw [contract_inv]; exact hinv, fun i _ => ?_, fun i m h' => (by cases h')⟩
  cases i with
  | none => exact hset
  | some n => trivial

/-! ## What the functions leave alone -/

/-- What is noted of an event before it is dealt with. -/
def Event.note (s : Socket) : Event → Socket
  | .connect _ => noteConnect s
  | .segment nb => noteSegment nb s
  | .icmp _ _ => noteIcmp s
  | .send _ nb => noteSend nb s
  | .close _ => noteClose s
  | .clientDetach _ => noteClose s
  | _ => s

/-- A function runs as if its event had been noted before. -/
theorem Event.thread_note {i : Option Nat} {m : M} (hthread : e.thread s = some (i, m)) :
    ∃ m', Keeps Framed m' ∧ m.run s = m'.run (e.note s) := by
  cases e with simp only [Event.thread, Option.ite_none_right_eq_some,
    Option.some.injEq, Prod.mk.injEq,
    reduceCtorEq] at hthread
  | connect n =>
    have hconnect : Keeps Framed (tcpConnect false) :=
      keeps_bind keeps_bindSocket fun _ => keeps_tcpBuildAndSendSequence
    exact ⟨tcpConnect false, hconnect, hthread.2.2 ▸ rfl⟩
  | accept n =>
    have haccept : Keeps Framed (tcpAccept false) :=
      keeps_bind keeps_bindSocket fun _ => keeps_tcpBuildAndSendSequence
    exact ⟨m, hthread.2.2 ▸ haccept, rfl⟩
  | segment nb => exact ⟨tcpRecvStateMachine nb, keeps_tcpRecvStateMachine, hthread.2.2 ▸ rfl⟩
  | icmp t c => exact ⟨tcpRecvNetbufIcmp t c, lenient_keeps.tcpRecvNetbufIcmp, hthread.2.2 ▸ rfl⟩
  | send n nb => exact ⟨tcpSendNetbuf nb, onList_keeps.tcpSendNetbuf nb, hthread.2 ▸ rfl⟩
  | close n => exact ⟨tcpClose n, lenient_keeps.tcpClose, hthread.2.2 ▸ rfl⟩
  | clientDetach n => exact ⟨tcpClientDetach n, lenient_keeps.tcpClientDetach, hthread.2 ▸ rfl⟩
  | waitTimer n => exact ⟨m, hthread.2.2 ▸ keeps_waitTimerCallback, rfl⟩
  | deferredAckTimer n => exact ⟨m, hthread.2.2 ▸ keeps_tcpTickDeferredAck, rfl⟩

/-- The threads set no mark and take back no segment. -/
abbrev OkFrame (h : Host) : Prop := Ok (fun _ => frame Framed) h

theorem okFrame_atRest (s : Socket) : OkFrame (atRest s) :=
  ⟨fun _ => trivial, fun _ _ => trivial, fun _ _ h' => (by cases h')⟩

theorem okFrame_step (hok : OkFrame h) (e : Event) : OkFrame (step h e) := by
  rcases step_cases h e with heq | heq | ⟨i, _, heq⟩ | ⟨i, m, hthread, _, heq⟩ <;> rw [heq]
  · exact hok
  · exact hok.env (fun _ => trivial) fun _ => trivial
  · exact hok.resume (frame_fits Framed) fun _ => trivial
  obtain ⟨m', hkeeps, hrun⟩ := Event.thread_note hthread
  have hnoted : OkFrame ⟨e.note h.shared, h.threads⟩ := hok.env (fun _ => trivial) fun _ => trivial
  have hstart : h.start i m = Pool.start ⟨e.note h.shared, h.threads⟩ i m' := by
    simp [Pool.start, hrun]
  rw [hstart]
  exact hnoted.start (frame_fits Framed) ((hkeeps _).mono fun _ _ _ => ⟨trivial, trivial⟩)

/-- **Only the notes set marks.** -/
theorem framed_step (hok : OkFrame h) (e : Event) :
    Framed h.shared (step h e).shared ∨ Framed (e.note h.shared) (step h e).shared := by
  rcases step_cases h e with heq | heq | ⟨i, _, heq⟩ | ⟨i, m, hthread, _, heq⟩ <;> rw [heq]
  · exact .inl (refl_of Framed _)
  · exact .inl (.of_eq (by simp [marks, env_log]) (by rw [env_log]))
  · exact .inl (hok.guar_resume fun _ => trivial)
  obtain ⟨m', hkeeps, hrun⟩ := Event.thread_note hthread
  have hframed := hkeeps.run (e.note h.shared)
  rw [← hrun] at hframed
  exact .inr hframed

theorem note_out (e : Event) : (e.note s).log.out = s.log.out := by cases e <;> rfl

/-- What was transmitted stays transmitted. -/
theorem out_step (hok : OkFrame h) (e : Event) : h.shared.log.out ⊆ (step h e).shared.log.out := by
  rcases framed_step hok e with hf | hf
  · exact hf.2
  · exact note_out (s := h.shared) e ▸ hf.2

/-- What holds of every state of a run. -/
structure Sound (h : Host) : Prop where
  ok : Ok contract h
  frame : OkFrame h

theorem Sound.step (hs : Sound h) (e : Event) : Sound (step h e) :=
  ⟨ok_step hs.ok e, okFrame_step hs.frame e⟩

theorem Sound.inv (hs : Sound h) : Inv h.shared := hs.ok.inv none

/-- A connection starts with a socket that was allocated for `tcp_connect`, or with one that a
listener made for a SYN. -/
def Fresh (s : Socket) : Prop :=
  s = allocated ∨ ∃ sndNxt sndUna nb, nb.syn ∧ s = consock sndNxt sndUna nb

theorem Fresh.inv (hs : Fresh s) : Inv s := by
  rcases hs with rfl | ⟨sndNxt, sndUna, nb, hsyn, rfl⟩
  · exact inv_allocated
  · exact inv_consock sndNxt sndUna hsyn

theorem Fresh.sound (hs : Fresh s) : Sound (atRest s) := by
  refine ⟨ok_atRest hs.inv ?_, okFrame_atRest s⟩
  rcases hs with rfl | ⟨sndNxt, sndUna, nb, _, rfl⟩ <;> exact ⟨rfl, fun h' => (by cases h')⟩

/-- `tcp_connect` in the thread 0, and the peer's reply. -/
def handshake : List Event :=
  [.connect 0, .resume (some 0), .resume (some 0),
    .segment ⟨{ syn := true, ack := true }, 100, 0x00a8393b, []⟩]

/-- A segment that does nothing but acknowledge. -/
def ackSegment (ack : UInt32) : Segment := ⟨{ ack := true }, 101, ack, []⟩

end Liquorice.Tcp
