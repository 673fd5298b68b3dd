import Liquorice.Tcp.Instance
import Mathlib.Data.Nat.Find

/-!
# The search for a local port

`tcp_connect` counts `ti_last_local_port` up until no socket uses it, and goes on at `0x1000` behind
`0xffff`. The ports from `0x1000` on lie on a circle, and `portAfter last d` is the one `d` places
behind `last`. The search goes along the circle, so that it finds the first port that no socket
uses, and it goes round once at most.
-/

namespace Liquorice.Tcp

open Threads Threads.Prog Run TcpInstance

/-! ## The circle of ports -/

/-- The port that the search looks at behind `last`. -/
def nextPort (last : UInt16) : UInt16 := if last + 1 = 0 then 0x1000 else last + 1

/-- The port `d` places behind `last` in the cyclic order of `0x1000` to `0xffff`. -/
def portAfter (last : UInt16) (d : Nat) : UInt16 :=
  UInt16.ofNat (0x1000 + (last.toNat - 0x1000 + d) % 0xf000)

theorem toNat_portAfter (last : UInt16) (d : Nat) :
    (portAfter last d).toNat = 0x1000 + (last.toNat - 0x1000 + d) % 0xf000 := by
  have hmod := Nat.mod_lt (last.toNat - 0x1000 + d) (by decide : 0 < 0xf000)
  exact UInt16.toNat_ofNat_of_lt' (by show _ < 65536; omega)

theorem le_portAfter (last : UInt16) (d : Nat) : 0x1000 ≤ portAfter last d := by
  rw [UInt16.le_iff_toNat_le, toNat_portAfter]
  exact Nat.le_add_right _ _

theorem portAfter_zero {last : UInt16} (h : 0x1000 ≤ last) : portAfter last 0 = last := by
  have hge : 0x1000 ≤ last.toNat := UInt16.le_iff_toNat_le.mp h
  have hlt := last.toNat_lt
  rw [← UInt16.toNat_inj, toNat_portAfter]
  omega

/-- The search goes on by one place. -/
theorem nextPort_portAfter (last : UInt16) (d : Nat) :
    nextPort (portAfter last d) = portAfter last (d + 1) := by
  have hd := toNat_portAfter last d
  have hd' := toNat_portAfter last (d + 1)
  have hsucc : (portAfter last d + 1).toNat = ((portAfter last d).toNat + 1) % 65536 :=
    UInt16.toNat_add ..
  have hzero : portAfter last d + 1 = 0 ↔ (portAfter last d + 1).toNat = 0 := UInt16.toNat_inj.symm
  rw [nextPort, ← UInt16.toNat_inj]
  split
  · -- behind the last port the circle starts again
    rename_i hwrap
    rw [hzero] at hwrap
    show 0x1000 = _
    omega
  · rename_i hwrap
    rw [hzero] at hwrap
    omega

/-- Every port of the circle is at most one turn away. -/
theorem exists_portAfter (last : UInt16) {u : UInt16} (hu : 0x1000 ≤ u) :
    ∃ d, 0 < d ∧ d ≤ 0xf000 ∧ portAfter last d = u := by
  have hge : 0x1000 ≤ u.toNat := UInt16.le_iff_toNat_le.mp hu
  have hlt := u.toNat_lt
  have hlast := last.toNat_lt
  by_cases hbehind : last.toNat - 0x1000 < u.toNat - 0x1000
  · refine ⟨u.toNat - 0x1000 - (last.toNat - 0x1000), by omega, by omega, ?_⟩
    rw [← UInt16.toNat_inj, toNat_portAfter]
    omega
  · refine ⟨0xf000 + (u.toNat - 0x1000) - (last.toNat - 0x1000), by omega, by omega, ?_⟩
    rw [← UInt16.toNat_inj, toNat_portAfter]
    omega

/-! ## The search -/

namespace TcpInstance

variable {ti : TcpInstance}

/-- A socket on `ti_socks` has the local port. -/
def Uses (ti : TcpInstance) (port : UInt16) :
    Prop := ∃ i ∈ ti.tiSocks, (ti.socks i).tsLocalPort = port
  deriving Decidable

theorem findPort_succ (fuel : Nat) (last : UInt16) : ti.findPort (fuel + 1) last =
    if ti.Uses (nextPort last) then ti.findPort fuel (nextPort last) else some (nextPort last) := by
  have huses : (ti.tiSocks.any fun i => (ti.socks i).tsLocalPort = nextPort last) = true ↔
      ti.Uses (nextPort last) := by
    simp [Uses, decide_eq_true_eq]
  rw [findPort]
  show (if (ti.tiSocks.any fun i => (ti.socks i).tsLocalPort = nextPort last) = true
    then _ else _) = _
  simp only [huses]
  rfl

/-- The search passes over the ports that are used. -/
theorem findPort_portAfter {last : UInt16} {d k fuel : Nat} (hfuel : k < fuel)
    (hused : ∀ j, j < k → ti.Uses (portAfter last (d + j + 1)))
    (hfree : ¬ ti.Uses (portAfter last (d + k + 1))) :
    ti.findPort fuel (portAfter last d) = some (portAfter last (d + k + 1)) := by
  induction fuel generalizing d k with
  | zero => exact absurd hfuel (Nat.not_lt_zero k)
  | succ fuel ih =>
    rw [findPort_succ, nextPort_portAfter]
    cases k with
    | zero => exact if_neg hfree
    | succ k =>
      have hshift : ∀ j, d + 1 + j + 1 = d + (j + 1) + 1 := fun j => by omega
      rw [if_pos (hused 0 (Nat.succ_pos k)), ← hshift]
      apply ih (Nat.lt_of_succ_lt_succ hfuel)
      · intro j hj
        rw [hshift]
        exact hused (j + 1) (Nat.succ_lt_succ hj)
      · rw [hshift]
        exact hfree

/-! ## The range of `ti_last_local_port` -/

theorem le_nextPort {last : UInt16} (h : 0x1000 ≤ last) : 0x1000 ≤ nextPort last := by
  rw [← portAfter_zero h, nextPort_portAfter]
  exact le_portAfter last 1

theorem le_of_findPort {fuel : Nat} {last port : UInt16} (hlast : 0x1000 ≤ last)
    (h : ti.findPort fuel last = some port) : 0x1000 ≤ port := by
  induction fuel generalizing last with
  | zero => cases h
  | succ fuel ih =>
    rw [findPort_succ] at h
    split at h
    · exact ih (le_nextPort hlast) h
    · rw [← Option.some.inj h]
      exact le_nextPort hlast

theorem last_removeClient (srv : Nat) :
    (ti.removeClient srv).tiLastLocalPort = ti.tiLastLocalPort := by
  rw [removeClient]
  split <;> rfl

theorem last_recvListen (l : Nat) (p : Packet) :
    (ti.recvListen l p).result.tiLastLocalPort = ti.tiLastLocalPort := by
  simp only [recvListen]
  split
  · rfl
  split
  · rfl
  split <;> rfl

/-- Only `tcp_connect` changes `ti_last_local_port`, to the port that it finds. -/
theorem last_step (ti : TcpInstance) (e : Event) :
    (ti.step e).tiLastLocalPort = ti.tiLastLocalPort ∨
      ti.findPort 0x20000 ti.tiLastLocalPort = some (ti.step e).tiLastLocalPort := by
  cases e with
  | connect srv addr port =>
    simp only [TcpInstance.step, action, tcpConnect]
    split
    · split
      · exact .inl rfl
      · rename_i localPort hport
        exact .inr hport
    · exact .inl rfl
  | clientAlloc | jiffy => exact .inl rfl
  | clientDetach srv =>
    left
    simp only [TcpInstance.step, action, tcpClientDetach]
    split
    · cases hi : (ti.servers srv).tsSocket with
      | none => exact last_removeClient srv
      | some i => exact last_removeClient srv
    · rfl
  | segment p =>
    left
    simp only [TcpInstance.step, action, tcpRecvNetbuf]
    split
    · rfl
    split
    · exact last_recvListen _ p
    · rfl
  | clientDeref | clientAttach | listen | accept | reject | close | send | icmp | waitTimer
  | deferredAckTimer =>
    left
    simp only [TcpInstance.step, action, Action.result, id, tcpClientDeref, tcpClientAttach,
      tcpListen, tcpAccept,
      tcpReject, tcpClose, tcpSendNetbuf, tcpRecvNetbufIcmp, waitTimer, deferredAckTimer]
    -- whatever the function finds, it searches no port
    repeat' split
    all_goals rfl

theorem le_last_step (h : 0x1000 ≤ ti.tiLastLocalPort) (e : Event) :
    0x1000 ≤ (ti.step e).tiLastLocalPort := by
  rcases last_step ti e with hsame | hfound
  · rw [hsame]
    exact h
  · exact le_of_findPort h hfound

end TcpInstance

/-- **The search for a local port.** With `ti_last_local_port` in the range, the search finds the
first port behind it in cyclic order that no socket on the list uses, if there is one; and
`ti_last_local_port` stays in the range whatever happens. -/
theorem port_search (ti : TcpInstance) (hlast : 0x1000 ≤ ti.tiLastLocalPort) :
    ((∃ u, 0x1000 ≤ u ∧ ¬ ti.Uses u) →
      ∃ d, 0 < d ∧ ti.findPort 0x20000 ti.tiLastLocalPort = some (portAfter ti.tiLastLocalPort d) ∧
        0x1000 ≤ portAfter ti.tiLastLocalPort d ∧ ¬ ti.Uses (portAfter ti.tiLastLocalPort d) ∧
        ∀ j, 0 < j → j < d → ti.Uses (portAfter ti.tiLastLocalPort j)) ∧
      ∀ es : List TcpInstance.Event, 0x1000 ≤ (exec TcpInstance.step ti es).tiLastLocalPort := by
  refine ⟨?_, fun es => ?_⟩
  · rintro ⟨u, hu, hfree⟩
    obtain ⟨c, hpos, hturn, hc⟩ := exists_portAfter ti.tiLastLocalPort hu
    -- the least place at which there is a free port
    have hexists : ∃ k, ¬ ti.Uses (portAfter ti.tiLastLocalPort (k + 1)) := by
      refine ⟨c - 1, ?_⟩
      rw [Nat.sub_add_cancel hpos, hc]
      exact hfree
    have hleast : Nat.find hexists ≤ c - 1 := by
      apply Nat.find_min'
      rw [Nat.sub_add_cancel hpos, hc]
      exact hfree
    have hused : ∀ j, j < Nat.find hexists → ti.Uses (portAfter ti.tiLastLocalPort (j + 1)) :=
      fun j hj => of_not_not (Nat.find_min hexists hj)
    refine ⟨Nat.find hexists + 1, Nat.succ_pos _, ?_, le_portAfter _ _, Nat.find_spec hexists, ?_⟩
    · have hfound := @findPort_portAfter ti ti.tiLastLocalPort 0 (Nat.find hexists)
        0x20000 (by omega)
        (fun j hj => by rw [Nat.zero_add]; exact hused j hj)
          (by rw [Nat.zero_add]; exact Nat.find_spec hexists)
      rw [portAfter_zero hlast, Nat.zero_add] at hfound
      exact hfound
    · intro j hj hlt
      rw [← Nat.sub_add_cancel hj]
      exact hused (j - 1) (by omega)
  · have hstep : ∀ (ti : TcpInstance) e, 0x1000 ≤ ti.tiLastLocalPort →
      0x1000 ≤ (ti.step e).tiLastLocalPort :=
      fun _ e h => le_last_step h e
    exact exec_preserves hstep hlast es

/-- With a listener at `0x1009` the first connection gets the port `0x100a`. -/
theorem port_search_first :
    let ti := exec TcpInstance.step tcpInstanceAlloc
      [.clientAlloc, .clientAttach 0, .listen 0 0x1009 0 0]
    ti.findPort 0x20000 ti.tiLastLocalPort = some 0x100a ∧
      ∀ es : List TcpInstance.Event, 0x1000 ≤ (exec TcpInstance.step ti es).tiLastLocalPort := by
  intro ti
  have hlast : 0x1000 ≤ ti.tiLastLocalPort := by decide
  have hfree : ∃ u, 0x1000 ≤ u ∧ ¬ ti.Uses u := ⟨0x1000, by decide, by decide⟩
  obtain ⟨d, hpos, hfound, -, hnot, hused⟩ := (port_search ti hlast).1 hfree
  have hfirst : d = 2 := by
    have hnext : ¬ d = 1 := fun h =>
      hnot (h ▸ (by decide : ti.Uses (portAfter ti.tiLastLocalPort 1)))
    have hsecond : ¬ 2 < d := fun h =>
      (by decide : ¬ ti.Uses (portAfter ti.tiLastLocalPort 2)) (hused 2 (by decide) h)
    omega
  refine ⟨?_, (port_search ti hlast).2⟩
  rw [hfound, hfirst]
  decide

end Liquorice.Tcp
