import Liquorice.Tcp.Accesses
import Liquorice.Tcp.RoundTrip

/-!
# No dangling pointers

The sockets on `ti_socks`, the servers that have a socket and the sockets that have a client point
to what can be released elsewhere. `Pointers` says that nothing is: a server has a socket on the
list, in a state that a client can meet (`Served`), a client on `ti_client_list` has a reference for
that, and a socket off the list has no timer that would find it. A step keeps this, and touches no
socket without references, unless it is one of those that `KeepsReferences` leaves out: the ways to
CLOSED on which the socket is read behind the release of its last reference while its server still
has it, `tcp_listen` and `tcp_accept` for a connection that is there already, `tcp_close` of a
listener, and the release of the last reference to a client that has sockets.
-/

namespace Liquorice.Tcp

open Run Threads Threads.Prog Socket Function

attribute [local simp] TcpInstance.setSock TcpInstance.run

/-- The states of a socket that a server has. -/
def Served (st : TcpState) : Prop :=
  st = .listen ∨ st = .synSent ∨ st = .synReceived ∨ st = .established ∨
    st = .closeWait ∨ st = .lastAck

theorem Served.onward {st : TcpState} (h : Served st) : ∀ st' ∈ st.onward, Served st' := by
  rcases h with rfl | rfl | rfl | rfl | rfl | rfl <;> simp [TcpState.onward, Served]

/-- No timer of the socket is on the list. -/
structure Still (s : Socket) : Prop where
  wait : s.tsWaitTimer.listed = 0
  ackTimer : s.tsDeferredAckTimer.listed = 0

/-- The program of the action touches its socket only in use. -/
def Action.Careful (a : Action) : Prop :=
  ∀ i m, a.work = some (i, m) → Accesses InUse m (fun _ _ => True) (a.before.socks i).conn

instance (a : Action) : Decidable a.Careful :=
  match hwork : a.work with
  | none => isTrue fun i m h => (Option.some_ne_none (i, m) (h.symm.trans hwork)).elim
  | some (i, m) =>
    decidable_of_iff (Accesses InUse m (fun _ _ => True) (a.before.socks i).conn) (by
      constructor
      · intro h i' m' hwork'
        cases hwork.symm.trans hwork'
        exact h
      · exact fun h => h i m hwork)

namespace TcpInstance

variable {ti ti' : TcpInstance}

/-- The servers and the clients know each other, and `ti_client_list` counts as a reference. -/
structure Roster (ti : TcpInstance) : Prop where
  member : ∀ {srv}, (ti.servers srv).attached → srv < ti.nextServer ∧
    (ti.servers srv).tsClient ∈ ti.tiClientList ∧
      (ti.clients (ti.servers srv).tsClient).tcServer = some srv
  owner : ∀ {c srv}, c ∈ ti.tiClientList → (ti.clients c).tcServer = some srv →
    (ti.servers srv).attached ∧ (ti.servers srv).tsClient = c
  nodup : ti.tiClientList.Nodup
  counted : ∀ c, (if c ∈ ti.tiClientList then 1 else 0) + (ti.clients c).allocRef.toNat ≤
    (ti.clients c).refs
  fresh : ∀ c, ti.nextClient ≤ c → (ti.clients c).refs = 0

/-- What is pointed to is there. -/
structure Pointers (ti : TcpInstance) : Prop extends Roster ti where
  still : ∀ i, (ti.socks i).onSocks = false → Still (ti.socks i).conn
  named : ∀ {srv i}, (ti.servers srv).attached → (ti.servers srv).tsSocket = some i →
    (ti.socks i).onSocks ∧ Served (ti.socks i).tsState ∧ (ti.socks i).tsServer
  alone : ∀ {srv srv' i}, (ti.servers srv).attached → (ti.servers srv').attached →
    (ti.servers srv).tsSocket = some i → (ti.servers srv').tsSocket = some i → srv' = srv
  clients : ∀ {i c}, (ti.socks i).onSocks → (ti.socks i).tsClient = some c → 0 < (ti.clients c).refs

theorem pointers_alloc : Pointers tcpInstanceAlloc where
  member h := absurd h Bool.false_ne_true
  owner h := absurd h List.not_mem_nil
  nodup := List.nodup_nil
  counted _ := Nat.le_refl 0
  fresh _ _ := rfl
  still _ _ := ⟨rfl, rfl⟩
  named h := absurd h Bool.false_ne_true
  alone h := absurd h Bool.false_ne_true
  clients h := absurd h Bool.false_ne_true

/-- A client on the list has references. -/
theorem Roster.refs_pos (h : Roster ti) {c : Nat} (hc : c ∈ ti.tiClientList) :
    0 < (ti.clients c).refs := by
  have hcount := h.counted c
  rw [if_pos hc] at hcount
  omega

namespace Pointers

variable {i j srv c : Nat} {m : M} {s' : Socket} {socks : Nat → TcpSocket} {sock : TcpSocket}

section

variable (h : Pointers ti)

include h

/-- One socket changes. -/
theorem setSocks
    (hother : ∀ i, i ≠ j → (socks i).conn = (ti.socks i).conn ∧
      (socks i).tsClient = (ti.socks i).tsClient)
    (hstill : (socks j).onSocks = false → Still (socks j).conn)
    (hnamed : ∀ srv, (ti.servers srv).attached → (ti.servers srv).tsSocket = some j →
      (socks j).onSocks ∧ Served (socks j).tsState ∧ (socks j).tsServer)
    (hclient : ∀ c, (socks j).onSocks → (socks j).tsClient = some c → 0 < (ti.clients c).refs) :
    Pointers { ti with socks := socks } := by
  refine { h with
    still := fun i hi => ?_, named := fun {srv i} hatt hs => ?_, clients := fun {i c} hi hc => ?_ }
  all_goals rcases eq_or_ne i j with rfl | hij
  · exact hstill hi
  · rw [(hother i hij).1] at hi ⊢
    exact h.still i hi
  · exact hnamed srv hatt hs
  · rw [(hother i hij).1]
    exact h.named hatt hs
  · exact hclient c hi hc
  · rw [(hother i hij).1] at hi
    rw [(hother i hij).2] at hc
    exact h.clients hi hc

/-- A socket with another address, or another one that waits, or without its client, is as good. -/
theorem setSock (hconn : sock.conn = (ti.socks j).conn)
    (hclient : sock.tsClient = none ∨ sock.tsClient = (ti.socks j).tsClient) :
    Pointers (ti.setSock j sock) := by
  refine h.setSocks (j := j) (fun i hi => ?_) (fun hoff => ?_)
    (fun srv hatt hs => ?_) fun c hon hc => ?_
  · simp [update_of_ne hi]
  · rw [update_self, hconn] at hoff ⊢
    exact h.still j hoff
  · rw [update_self, hconn]
    exact h.named hatt hs
  rw [update_self] at hon hc
  rcases hclient with hnone | hsame
  · exact absurd (hnone.symm.trans hc) (Option.some_ne_none c).symm
  · exact h.clients (hconn ▸ hon) (hsame.symm.trans hc)

/-- A socket off the list is made. -/
theorem socketAlloc (hnext : (ti.socks ti.nextSock).onSocks = false)
    (hoff : sock.onSocks = false) (hstill : Still sock.conn) :
    Pointers (ti.socketAlloc sock) := by
  have hsocks : Pointers { ti with socks := update ti.socks ti.nextSock sock } := by
    refine h.setSocks (j := ti.nextSock) (fun i hi => ?_) (fun _ => ?_)
      (fun srv hatt hs => ?_) fun c hon hc => ?_
    · simp [update_of_ne hi]
    · rwa [update_self]
    · exact absurd (hnext.symm.trans (h.named hatt hs).1) Bool.false_ne_true
    · rw [update_self, hoff] at hon
      exact absurd hon Bool.false_ne_true
  exact { hsocks with }

/-- A program runs on a socket. -/
theorem run (hs' : (m.complete (ti.socks j).conn).1 = s') (hstill : s'.onSocks = false → Still s')
    (hnamed : ∀ srv, (ti.servers srv).attached → (ti.servers srv).tsSocket = some j →
      s'.onSocks ∧ Served s'.tsState ∧ s'.tsServer)
    (hon : s'.onSocks → (ti.socks j).onSocks) : Pointers (ti.run j m) := by
  subst hs'
  have hsocks : Pointers { ti with socks := (ti.run j m).socks } := by
    refine h.setSocks (j := j) (fun i hi => ?_) ?_ ?_ fun c hon' hc => ?_
    · rw [conn_run_of_ne hi]
      exact ⟨rfl, rfl⟩
    · rwa [conn_run_self]
    · rwa [conn_run_self]
    · rw [conn_run_self] at hon'
      refine h.clients (hon hon') ?_
      simpa using hc
  exact { hsocks with }

/-- A server gets another socket: one on the list that no other server has, or none. -/
theorem setServer {server : TcpServer} (hatt : server.attached = (ti.servers srv).attached)
    (hclient : server.tsClient = (ti.servers srv).tsClient)
    (hnamed : ∀ i, server.attached → server.tsSocket = some i →
      (ti.socks i).onSocks ∧ Served (ti.socks i).tsState ∧ (ti.socks i).tsServer)
    (halone : ∀ srv' i, srv' ≠ srv → server.attached → server.tsSocket = some i →
      (ti.servers srv').attached → (ti.servers srv').tsSocket ≠ some i) :
    Pointers { ti with servers := update ti.servers srv server } := by
  have hself : update ti.servers srv server srv = server := update_self ..
  have hother : ∀ srv', srv' ≠ srv → update ti.servers srv server srv' = ti.servers srv' :=
    fun _ hne => update_of_ne hne ..
  have hsame : ∀ srv', (update ti.servers srv server srv').attached = (ti.servers srv').attached ∧
      (update ti.servers srv server srv').tsClient = (ti.servers srv').tsClient := by
    intro srv'
    rcases eq_or_ne srv' srv with rfl | hne
    · rw [hself]
      exact ⟨hatt, hclient⟩
    · rw [hother srv' hne]
      exact ⟨rfl, rfl⟩
  refine { h with
    member := fun {srv'} hatt' => ?_, owner := fun {c srv'} hc hsrv => ?_,
    named := fun {srv' i} hatt' hs => ?_,
    alone := fun {srv₁ srv₂ i} h₁ h₂ hs₁ hs₂ => ?_ }
  · simp only [hsame] at hatt' ⊢
    exact h.member hatt'
  · simp only [hsame]
    exact h.owner hc hsrv
  · rcases eq_or_ne srv' srv with rfl | hne
    · simp only [hself] at hatt' hs
      exact hnamed i hatt' hs
    · simp only [hother srv' hne] at hatt' hs
      exact h.named hatt' hs
  · by_cases hsrv₁ : srv₁ = srv <;> by_cases hsrv₂ : srv₂ = srv
    · exact hsrv₂.trans hsrv₁.symm
    · simp only [hsrv₁, hself, hother _ hsrv₂] at h₁ h₂ hs₁ hs₂
      exact absurd hs₂ (halone _ _ hsrv₂ h₁ hs₁ h₂)
    · simp only [hsrv₂, hself, hother _ hsrv₁] at h₁ h₂ hs₁ hs₂
      exact absurd hs₁ (halone _ _ hsrv₁ h₂ hs₂ h₁)
    · simp only [hother _ hsrv₁, hother _ hsrv₂] at h₁ h₂ hs₁ hs₂
      exact h.alone h₁ h₂ hs₁ hs₂

/-- A server loses its socket. -/
theorem forget (srv : Nat) :
    Pointers
      { ti with servers := update ti.servers srv { ti.servers srv with tsSocket := none } } :=
  h.setServer rfl rfl nofun nofun

/-- A socket off the list comes there, and the client and the server get to know it. -/
theorem setServerSocket (hatt : (ti.servers srv).attached)
    (hoff : (ti.socks j).onSocks = false)
    (hother : ∀ i, i ≠ j → (socks i).conn = (ti.socks i).conn ∧
      (socks i).tsClient = (ti.socks i).tsClient)
    (hj : (socks j).onSocks ∧ Served (socks j).tsState ∧ (socks j).tsServer)
    (hclient : (socks j).tsClient = some (ti.servers srv).tsClient) :
    Pointers { ti with
      socks := socks
      servers := update ti.servers srv { ti.servers srv with tsSocket := some j } } := by
  have hfree : ∀ srv', (ti.servers srv').attached → (ti.servers srv').tsSocket ≠ some j :=
    fun srv' hatt' hs => absurd (hoff.symm.trans (h.named hatt' hs).1) Bool.false_ne_true
  have hsocks : Pointers { ti with socks := socks } := by
    refine h.setSocks (j := j) hother (fun hoff' => ?_)
      (fun srv' hatt' hs => absurd hs (hfree srv' hatt'))
      fun c _ hc => ?_
    · exact absurd (hoff'.symm.trans hj.1) Bool.false_ne_true
    · obtain rfl := Option.some.inj (hclient.symm.trans hc)
      exact h.refs_pos (h.member hatt).2.1
  refine hsocks.setServer rfl rfl (fun i _ hi => ?_) fun srv' i _ _ hi hatt' => ?_
  · obtain rfl := Option.some.inj hi
    exact hj
  · obtain rfl := Option.some.inj hi
    exact hfree srv' hatt'

/-! ## Clients -/

/-- One client changes, and nothing else. -/
theorem setClient {client : TcpClient}
    (hserver : c ∈ ti.tiClientList → client.tcServer = (ti.clients c).tcServer)
    (hcount : (if c ∈ ti.tiClientList then 1 else 0) + client.allocRef.toNat ≤ client.refs)
    (hfresh : c < ti.nextClient ∨ client.refs ≤ (ti.clients c).refs)
    (hlast : 0 < client.refs ∨ ∀ i, (ti.socks i).onSocks → (ti.socks i).tsClient ≠ some c) :
    Pointers { ti with clients := update ti.clients c client } := by
  have hself : update ti.clients c client c = client := update_self ..
  have hother : ∀ c', c' ≠ c → update ti.clients c client c' = ti.clients c' :=
    fun _ hne => update_of_ne hne ..
  have hserver' : ∀ c' ∈ ti.tiClientList,
      (update ti.clients c client c').tcServer = (ti.clients c').tcServer := by
    intro c' hc'
    rcases eq_or_ne c' c with rfl | hne
    · rw [hself, hserver hc']
    · rw [hother c' hne]
  refine { h with
    member := fun {srv} hatt => ?_, owner := fun {c' srv} hc' hsrv => ?_, counted := fun c' => ?_,
    fresh := fun c' hc' => ?_, clients := fun {i c'} hon hc' => ?_ }
  · obtain ⟨hlt, hmem, hsrv⟩ := h.member hatt
    exact ⟨hlt, hmem, (hserver' _ hmem).trans hsrv⟩
  · exact h.owner hc' ((hserver' c' hc').symm.trans hsrv)
  all_goals rcases eq_or_ne c' c with rfl | hne
  · simpa using hcount
  · simpa [hother c' hne] using h.counted c'
  · have hle := hfresh.resolve_left (Nat.not_lt.mpr hc')
    rw [h.fresh c' hc'] at hle
    simpa using Nat.le_zero.mp hle
  · simpa [hother c' hne] using h.fresh c' hc'
  · simpa using hlast.resolve_right fun hnone => hnone i hon hc'
  · simpa [hother c' hne] using h.clients hon hc'

theorem clientAlloc : Pointers ti.tcpClientAlloc := by
  have hnew : ti.nextClient ∉ ti.tiClientList := by
    intro hmem
    have hpos := h.refs_pos hmem
    rw [h.fresh _ (Nat.le_refl _)] at hpos
    exact absurd hpos (Nat.lt_irrefl 0)
  have hnext : Pointers { ti with nextClient := ti.nextClient + 1 } :=
    { h with fresh := fun c hc => h.fresh c (Nat.le_of_succ_le hc) }
  exact hnext.setClient (fun hmem => absurd hmem hnew) (by simp [hnew]) (.inl (Nat.lt_succ_self _))
    (.inl Nat.one_pos)

/-- The last reference to a client is not released while a socket on the list has it. -/
theorem clientDeref (hlast : (ti.clients c).allocRef →
      1 < (ti.clients c).refs ∨ ∀ i, (ti.socks i).onSocks → (ti.socks i).tsClient ≠ some c) :
    Pointers (ti.tcpClientDeref c) := by
  rw [tcpClientDeref]
  split
  · rename_i halloc
    have hcount := h.counted c
    rw [halloc, Bool.toNat_true] at hcount
    refine h.setClient (fun _ => rfl) ?_ (.inr (Nat.sub_le ..))
      ((hlast halloc).imp_left Nat.sub_pos_of_lt)
    show (if c ∈ ti.tiClientList then 1 else 0) + 0 ≤ (ti.clients c).refs - 1
    omega
  · exact h

/-- `tcp_client_attach` takes a reference to the client. -/
theorem clientAttach (c : Nat) : Pointers (ti.tcpClientAttach c) := by
  rw [tcpClientAttach]
  split
  · rename_i hattach
    obtain ⟨hpos, hnew⟩ := hattach
    obtain ⟨⟨hmember, howner, hnodup, hcounted, hfresh⟩, hstill, hnamed, halone, hclients⟩ := h
    refine ⟨⟨fun {srv} hatt => ?_, fun {c srv} hc hsrv => ?_, ?_, fun c => ?_, fun c hc => ?_⟩,
      hstill,
      fun {srv i} hatt hs => ?_, fun {srv₁ srv₂ i} h₁ h₂ hs₁ hs₂ => ?_, fun {i c} hon hc => ?_⟩
    all_goals simp only [update_apply] at *
    · clear hstill hnamed halone hclients
      grind
    · clear hstill hnamed halone hclients
      grind
    · exact List.nodup_cons.mpr ⟨hnew, hnodup⟩
    · clear hmember howner hstill hnamed halone hclients
      grind
    · clear hmember howner hstill hnamed halone hclients
      grind
    · clear hmember howner hstill halone hclients
      grind
    · clear hmember howner hstill hnamed hclients
      grind
    · clear hmember howner hstill hnamed halone
      grind
  · exact h

end

/-- The server is detached, and its client off the list; its socket may be gone already. -/
theorem unlist (hatt : (ti.servers srv).attached)
    (h : Pointers { ti with
      servers := update ti.servers srv { ti.servers srv with tsSocket := none } }) :
    Pointers { ti with
      tiClientList := ti.tiClientList.erase (ti.servers srv).tsClient
      servers := update ti.servers srv { ti.servers srv with attached := false } } := by
  obtain ⟨⟨hmember, howner, hnodup, hcounted, hfresh⟩, hstill, hnamed, halone, hclients⟩ := h
  have hserver := @hmember srv
  refine ⟨⟨fun {srv'} hatt' => ?_, fun {c srv'} hc hsrv => ?_, hnodup.erase _, fun c => ?_, hfresh⟩,
    hstill,
    fun {srv' i} hatt' hs => ?_, fun {srv₁ srv₂ i} h₁ h₂ hs₁ hs₂ => ?_, hclients⟩
  all_goals simp only [update_apply] at *
  · clear hstill hnamed halone hclients hcounted hfresh
    grind
  · clear hstill hnamed halone hclients hcounted hfresh
    grind
  · clear hmember howner hstill hnamed halone hclients
    grind
  · clear hmember howner hstill halone hclients
    grind
  · clear hmember howner hstill hnamed hclients
    grind

/-- `tcp_client_detach` gives back the reference of the list. -/
theorem removeClient (hatt : (ti.servers srv).attached)
    (h : Pointers { ti with
      servers := update ti.servers srv { ti.servers srv with tsSocket := none } })
    (hlast : 1 < (ti.clients (ti.servers srv).tsClient).refs ∨
      ∀ i, (ti.socks i).onSocks → (ti.socks i).tsClient ≠ some (ti.servers srv).tsClient) :
    Pointers (ti.removeClient srv) := by
  have hmember := @h.member srv
  simp only [update_self] at hmember
  obtain ⟨-, hmem, hserver⟩ := hmember hatt
  have hcount := h.counted (ti.servers srv).tsClient
  simp only [if_pos hmem] at hcount
  have hnodup := h.nodup
  rw [TcpInstance.removeClient]
  split
  · rename_i hnone
    have hnot := List.find?_eq_none.mp hnone _ hmem
    simp [hserver] at hnot
  rename_i c hc
  have hc' : (ti.clients c).tcServer = some srv := by simpa using List.find?_some hc
  have howner := (h.owner (List.mem_of_find?_eq_some hc) hc').2
  simp only [update_self] at howner
  subst howner
  refine (unlist hatt h).setClient (fun _ => rfl) ?_ (.inr (Nat.sub_le ..))
    (hlast.imp_left Nat.sub_pos_of_lt)
  rw [if_neg hnodup.not_mem_erase]
  show 0 + (ti.clients (ti.servers srv).tsClient).allocRef.toNat ≤
    (ti.clients (ti.servers srv).tsClient).refs - 1
  omega

end Pointers

/-! ## Steps -/

/-- The last reference to the client is not released while a socket that stays on the list has
it. -/
def KeepsClient (ti : TcpInstance) (c : Nat) (leaving : Nat → Bool) : Prop :=
  1 < (ti.clients c).refs ∨ ∀ i ∈ ti.tiSocks, (ti.socks i).tsClient = some c → leaving i
  deriving Decidable

/-- The event releases nothing that is pointed to. -/
def KeepsReferences (ti : TcpInstance) : Event → Prop
  | .clientDeref c => (ti.clients c).allocRef = true → ti.KeepsClient c fun _ => false
  | .clientDetach srv =>
    -- a listener goes with its client
    (ti.servers srv).attached = true → ti.KeepsClient (ti.servers srv).tsClient fun i =>
      (ti.servers srv).tsSocket = some i ∧ (ti.socks i).tsState = .listen
  | .listen srv port addr rport =>
    (ti.servers srv).attached = true ∧ (ti.servers srv).tsSocket = none →
      ti.clashes .listen ⟨port, addr, rport⟩ = false
  | .accept srv listensrv => ∀ w ∈ ti.waiting srv listensrv, ti.clashes .synReceived
      ⟨(ti.socks w.2).tsLocalPort, (ti.socks w.2).tsRemoteAddr, (ti.socks w.2).tsRemotePort⟩ = false
  | .close srv => (ti.servers srv).attached = true → ∀ i ∈ (ti.servers srv).tsSocket,
      (ti.socks i).tsState ≠ .listen
  | .segment p => ∀ i ∈ ti.lookup p, ¬ (ti.socks i).ClosedBy p.segment
  | .icmp ichType ichCode r => ti.lookupIcmp r = none ∨ ¬ (ichType = 4 ∧ 2 ≤ ichCode ∧ ichCode ≤ 4)
  | _ => True

/-- What the steps of a run without a release of what is pointed to start from. -/
structure Intact (ti : TcpInstance) : Prop where
  table : Table ti
  alive : ti.ForallConn fun s => s.onSocks = true → Alive s
  pointers : Pointers ti

/-- An action does what it should: its program touches the socket only in use, and the pointers stay
right. -/
structure Fine (a : Action) : Prop where
  careful : a.Careful
  pointers : Pointers a.result

theorem Intact.nothing (h : Intact ti) :
    Fine ti.nothing := ⟨fun _ _ hwork => (Option.some_ne_none _ hwork.symm).elim, h.pointers⟩

namespace Intact

variable {i srv listensrv : Nat} {m : M}

section

variable (h : Intact ti)

include h

theorem standing (hon : (ti.socks i).onSocks) :
    Standing (fun _ => True) (ti.socks i).tsServer (ti.socks i).conn :=
  ⟨hon, (h.alive i hon).ticking.backed, trivial, rfl⟩

theorem served (hatt : (ti.servers srv).attached) (hsock : (ti.servers srv).tsSocket = some i) :
    Standing Served true (ti.socks i).conn := by
  obtain ⟨hon, hserved, hserver⟩ := h.pointers.named hatt hsock
  exact ⟨hon, (h.alive i hon).ticking.backed, hserved, hserver⟩

/-- A program that leaves the socket on the list, and in a state that a server can have if it had
one. -/
theorem run (hon : (ti.socks i).onSocks)
    (hm : ∀ {S : TcpState → Prop} {b : Bool}, Standing S b (ti.socks i).conn →
      (∀ st ∈ (ti.socks i).tsState.onward, S st) → Accesses InUse m (fun _ => Standing S b)
      (ti.socks i).conn) :
    Fine ⟨ti, some (i, m), id⟩ := by
  have hstanding := hm (h.standing hon) fun _ _ => trivial
  refine ⟨fun j m' hwork => ?_, h.pointers.run rfl (fun hoff => ?_)
    (fun srv hatt hsock => ?_) fun _ => hon⟩
  · cases hwork
    exact hstanding.mono fun _ _ _ => trivial
  · exact absurd (hoff.symm.trans hstanding.complete.onSocks) Bool.false_ne_true
  · have hserved := h.served hatt hsock
    have hs' := (hm hserved hserved.state.onward).complete
    exact ⟨hs'.onSocks, hs'.state, hs'.server⟩

theorem send (srv : Nat) (data : Netbuf) : Fine (ti.tcpSendNetbuf srv data) := by
  rw [TcpInstance.tcpSendNetbuf]
  split
  · exact h.nothing
  rename_i i hsock
  split
  · rename_i hatt
    exact h.run (h.served hatt hsock).onSocks fun hs _ => onList_safe.tcpSendNetbuf data _ hs
  · exact h.nothing

theorem deferredAckTimer (i : Nat) : Fine (ti.deferredAckTimer i) := by
  rw [TcpInstance.deferredAckTimer]
  split
  · rename_i hlisted
    have hon : (ti.socks i).onSocks := by
      by_contra hoff
      rw [(h.pointers.still i (by simpa using hoff)).ackTimer] at hlisted
      exact absurd hlisted (Nat.lt_irrefl 0)
    exact h.run hon fun hs _ => accesses_deferredAckTimer hs hlisted
  · exact h.nothing

theorem icmp {t c : Nat} {r : Route} (hkeeps : ti.KeepsReferences (.icmp t c r)) :
    Fine (ti.tcpRecvNetbufIcmp t c r) := by
  rw [TcpInstance.tcpRecvNetbufIcmp]
  split
  · exact h.nothing
  rename_i i hi
  have hon : (ti.socks i).onSocks := (h.table.listed.mem i).mp (List.mem_of_find?_eq_some hi)
  have hcode : ¬ (t = 4 ∧ 2 ≤ c ∧ c ≤ 4) :=
    hkeeps.resolve_left fun hnone => (Option.some_ne_none i) (hi.symm.trans hnone)
  refine h.run hon fun hs _ => ?_
  refine safe_same_bind (fun _ => ?_) (safe_look fun s => ?_) _ hs
  · rfl
  · rw [if_neg hcode]
    exact safe_pure

/-- The wait timer takes a socket off the list at the end of TIME_WAIT only, and no server has that
one. -/
theorem waitTimer (i : Nat) : Fine (ti.waitTimer i) := by
  rw [TcpInstance.waitTimer]
  split
  · rename_i hlisted
    have hon : (ti.socks i).onSocks := by
      by_contra hoff
      rw [(h.pointers.still i (by simpa using hoff)).wait] at hlisted
      exact absurd hlisted (Nat.lt_irrefl 0)
    have halive := h.alive i hon
    have htiming : (ti.socks i).waitCallback = .retransmit → (ti.socks i).retransTiming :=
      fun hcallback => (halive.ticking.refs_of_listed hcallback hlisted).2
    cases hcallback : (ti.socks i).waitCallback with
    | retransmit =>
      exact h.run hon fun hs _ => (accesses_waitTimer hs htiming).mono fun _ _ hs' => hs' hcallback
    | timeWait =>
      have hst : (ti.socks i).tsState = .timeWait :=
        (halive.ticking.callback hcallback).resolve_right halive.state
      have hs' := complete_waitTimer hlisted
      rw [hcallback] at hs'
      refine ⟨fun j m hwork => ?_, h.pointers.run hs' (fun _ => ⟨?_, ?_⟩)
        (fun srv hatt hsock => ?_) fun _ => hon⟩
      · cases hwork
        exact (accesses_waitTimer (h.standing hon) htiming).mono fun _ _ _ => trivial
      · simp [Socket.waitExpired, (halive.timeWait hst).2]
      · simpa [Socket.waitExpired] using halive.ackTimer (h.table.quiet i) (.inr hst)
      · have hserved := (h.served hatt hsock).state
        rw [hst] at hserved
        simp [Served] at hserved
  · exact h.nothing

theorem segment {p : Packet} (hkeeps : ti.KeepsReferences (.segment p)) :
    Fine (ti.tcpRecvNetbuf p) := by
  rw [tcpRecvNetbuf]
  split
  · exact h.nothing
  rename_i i hi
  have hon : (ti.socks i).onSocks := (h.table.listed.mem i).mp (mem_of_lookup hi)
  split
  · rw [recvListen]
    dsimp only
    split
    · exact h.nothing
    split
    · -- the listener resets the connection that the ACK is for
      have hsame : SameConns ti (ti.setSock i { ti.socks i with
          tsRemotePort := p.thSrcPort, tsRemoteAddr := p.ihSrcAddr }) := sameConns_setRemote
      have hkept : Intact (ti.setSock i { ti.socks i with
          tsRemotePort := p.thSrcPort, tsRemoteAddr := p.ihSrcAddr }) :=
        ⟨h.table.same hsame, fun j => hsame.conn j ▸ h.alive j, h.pointers.setSock rfl (.inr rfl)⟩
      refine hkept.run ((congrArg Socket.onSocks (hsame.conn i)).trans hon) fun hs _ => ?_
      refine safe_same_bind (fun _ => ?_) (safe_tcpBuildAndSendSequence _) _ hs
      rfl
    · split
      · refine ⟨fun _ _ hwork => (Option.some_ne_none _ hwork.symm).elim, ?_⟩
        have hnext := (h.table.unused _ (Nat.le_refl _)).1.onSocks
        have hset :
          Pointers (ti.setSock i { ti.socks i with tsAwaitingAccept := some ti.nextSock }) :=
          h.pointers.setSock rfl (.inr rfl)
        refine hset.socketAlloc ?_ rfl ⟨rfl, rfl⟩
        by_cases hi : ti.nextSock = i
        · simpa [hi] using hnext
        · simpa [update_of_ne hi] using hnext
      · exact h.nothing
  · refine h.run hon fun hs hS => ?_
    refine accesses_modify_bind (hs.inUse _) (accesses_recv (hs.same rfl hs.state) hS ?_)
    exact hkeeps i hi

/-- A client with a socket: its program runs, and the server does not have the socket any more. -/
theorem forget_run {s' : Socket} (hatt : (ti.servers srv).attached)
    (hsock : (ti.servers srv).tsSocket = some i) (hs' : (m.complete (ti.socks i).conn).1 = s')
    (hstill : s'.onSocks = false → Still s') :
    Pointers ({ ti with
      servers := update ti.servers srv { ti.servers srv with tsSocket := none } }.run i m) := by
  refine (h.pointers.forget srv).run hs' hstill (fun srv' hatt' hsock' => ?_) fun _ =>
    (h.served hatt hsock).onSocks
  exfalso
  by_cases hsrv : srv' = srv
  · simp [hsrv] at hsock'
  · simp only [update_of_ne hsrv] at hatt' hsock'
    exact hsrv (h.pointers.alone hatt hatt' hsock hsock')

theorem close (hkeeps : ti.KeepsReferences (.close srv)) : Fine (ti.tcpClose srv) := by
  rw [TcpInstance.tcpClose]
  split
  · exact h.nothing
  rename_i i hsock
  split
  · rename_i hatt
    have hs := h.standing (h.served hatt hsock).onSocks
    have haccesses : Accesses InUse (do
        modify noteClose
        Tcp.tcpClose 0 : M) (fun _ s' => s'.onSocks = true) (ti.socks i).conn := by
      have hnoted : Standing (fun _ => True) (ti.socks i).tsServer (noteClose (ti.socks i).conn) :=
        hs.same rfl trivial
      have hlisten : (noteClose (ti.socks i).conn).tsState ≠ .listen := hkeeps hatt i hsock
      exact accesses_modify_bind (hs.inUse _) (accesses_tcpClose hnoted hlisten 0)
    refine ⟨fun j m hwork => ?_, ?_⟩
    · cases hwork
      exact haccesses.mono fun _ _ _ => trivial
    · have hrun := h.forget_run hatt hsock rfl fun hoff =>
        absurd (hoff.symm.trans haccesses.complete) Bool.false_ne_true
      exact hrun.setSock rfl (.inl rfl)
  · exact h.nothing

end

/-- A listener is taken off the list when its client is detached. -/
theorem complete_detach_listen {s : Socket} (hst : s.tsState = .listen) (hserver : s.tsServer) :
    ((do
      modify noteClose
      Tcp.tcpClientDetach 0 : M).complete s).1 = (noteClose s).socketDetach := by
  have hst' : (noteClose s).tsState = .listen := hst
  have hserver' : (noteClose s).tsServer := hserver
  rw [complete_modify_bind, Tcp.tcpClientDetach, complete_read_bind, if_pos hserver',
    clientCloseSocket,
    complete_read_bind, if_pos hst']
  rfl

theorem clientDetach_some (h : Intact ti) {srv i : Nat}
    (hkeeps : ti.KeepsReferences (.clientDetach srv))
    (hatt : (ti.servers srv).attached) (hsock : (ti.servers srv).tsSocket = some i) :
    Fine ⟨ti, some (i, do
      modify noteClose
      Tcp.tcpClientDetach 0), fun ti' => ti'.removeClient srv⟩ := by
  have hserved := h.served hatt hsock
  have hon := hserved.onSocks
  have halive := h.alive i hon
  have hs := h.standing hon
  have haccesses : Accesses InUse (do
      modify noteClose
      Tcp.tcpClientDetach 0 : M) (fun _ s' => (ti.socks i).tsState ≠ .listen → s'.onSocks)
      (ti.socks i).conn := by
    have hnoted : Standing (fun _ => True) (ti.socks i).tsServer (noteClose (ti.socks i).conn) :=
      hs.same rfl trivial
    exact accesses_modify_bind (hs.inUse _) (accesses_tcpClientDetach hnoted 0)
  obtain ⟨m, hm⟩ : ∃ m : M, (do
    modify noteClose
    Tcp.tcpClientDetach 0 : M) = m := ⟨_, rfl⟩
  rw [hm] at haccesses ⊢
  obtain ⟨s', hs'⟩ : ∃ s', (m.complete (ti.socks i).conn).1 = s' := ⟨_, rfl⟩
  have hstays : (ti.socks i).tsState ≠ .listen → s'.onSocks := hs' ▸ haccesses.complete
  have hleaves : (ti.socks i).tsState = .listen →
      s' = (noteClose (ti.socks i).conn).socketDetach := by
    intro hst
    rw [← hs', ← hm]
    exact complete_detach_listen hst hserved.server
  have hrun := h.forget_run hatt hsock hs' fun hoff => by
    have hst : (ti.socks i).tsState = .listen := by
      by_contra hne
      exact absurd (hoff.symm.trans (hstays hne)) Bool.false_ne_true
    have hwait : (noteClose (ti.socks i).conn).tsWaitTimer.listed = 0 := halive.wait_listen hst
    have hack : (noteClose (ti.socks i).conn).tsDeferredAckTimer.listed = 0 :=
      halive.ackTimer (h.table.quiet i) (.inl hst)
    rw [hleaves hst]
    exact ⟨by simpa using hwait, by simpa using hack⟩
  refine ⟨fun j m' hwork => ?_, Pointers.removeClient hatt hrun
    ((hkeeps hatt).imp_right fun hall j hj hc => ?_)⟩
  · cases hwork
    exact haccesses.mono fun _ _ _ => trivial
  by_cases hji : j = i
  · have hc' : (ti.socks i).tsClient = some (ti.servers srv).tsClient := by
      rw [hji] at hc
      simpa using hc
    have hst : (ti.socks i).tsState = .listen := by
      have hleaving := hall i ((h.table.listed.mem i).mpr hon) hc'
      simp only [decide_eq_true_eq] at hleaving
      exact hleaving.2
    rw [hji, conn_run_self, hs', hleaves hst, socketDetach_onSocks] at hj
    exact Bool.false_ne_true hj
  · rw [conn_run_of_ne hji] at hj hc
    have hleaving := hall j ((h.table.listed.mem j).mpr hj) hc
    simp only [decide_eq_true_eq] at hleaving
    exact hji (Option.some.inj (hleaving.1.symm.trans hsock))

theorem clientDetach (h : Intact ti) (hkeeps : ti.KeepsReferences (.clientDetach srv)) :
    Fine (ti.tcpClientDetach srv) := by
  rw [TcpInstance.tcpClientDetach]
  split
  · rename_i hatt
    cases hsock : (ti.servers srv).tsSocket with
    | none =>
      refine ⟨fun _ _ hwork => (Option.some_ne_none _ hwork.symm).elim, ?_⟩
      refine Pointers.removeClient hatt (h.pointers.forget srv)
        ((hkeeps hatt).imp_right fun hall i hon hc => ?_)
      have hleaves := hall i ((h.table.listed.mem i).mpr hon) hc
      simp [hsock] at hleaves
    | some i => exact h.clientDetach_some hkeeps hatt hsock
  · exact h.nothing

/-- A socket off the list is bound, and its server gets to know it. -/
theorem bind (h : Intact ti) {socks : Nat → TcpSocket} {next : Nat} {port : UInt16}
    (hother : ∀ j, j ≠ i → (socks j).conn = (ti.socks j).conn ∧
      (socks j).tsClient = (ti.socks j).tsClient) (hatt : (ti.servers srv).attached)
    (hoff : (ti.socks i).onSocks = false)
    (hm : Accesses InUse m (fun _ => Standing Served true) (socks i).conn) :
    Fine ⟨{ ti with socks := socks, nextSock := next, tiLastLocalPort := port }, some (i, m),
      fun ti' => ti'.setServerSocket srv i⟩ := by
  refine ⟨fun j m' hwork => ?_, ?_⟩
  · cases hwork
    exact hm.mono fun _ _ _ => trivial
  obtain ⟨ti', hti'⟩ :
    ∃ ti', { ti with socks := socks, nextSock := next, tiLastLocalPort := port } = ti' := ⟨_, rfl⟩
  have hconn : ∀ j, (((ti'.run i m).setServerSocket srv i).socks j).conn =
    ((ti'.run i m).socks j).conn :=
    (sameSocks_setServerSocket srv i).conn
  have hpointers : Pointers { ti with
      socks := ((ti'.run i m).setServerSocket srv i).socks
      servers := update ti.servers srv { ti.servers srv with tsSocket := some i } } := by
    refine h.pointers.setServerSocket hatt hoff (fun j hj => ?_) ?_ ?_
    · rw [hconn, conn_run_of_ne hj, ← hti']
      refine ⟨(hother j hj).1, Eq.trans ?_ (hother j hj).2⟩
      simp [TcpInstance.setServerSocket, hj]
    · rw [hconn, conn_run_self, ← hti']
      exact ⟨hm.complete.onSocks, hm.complete.state, hm.complete.server⟩
    · rw [← hti']
      simp [TcpInstance.setServerSocket]
  rw [← hti'] at hpointers
  exact { hpointers with }

theorem listen (h : Intact ti) {port : UInt16} {addr : UInt32} {rport : UInt16}
    (hkeeps : ti.KeepsReferences (.listen srv port addr rport)) :
    Fine (ti.tcpListen srv port addr rport) := by
  rw [tcpListen]
  split
  · rename_i hatt
    rw [hkeeps hatt]
    refine h.bind (fun j hj => ?_) hatt.1 (h.table.unused _ (Nat.le_refl _)).1.onSocks ?_
    · simp [hj]
    · simp only [TcpInstance.setSock, update_self]
      exact accesses_bindSocket unbound_allocated (.inl rfl)
  · exact h.nothing

theorem connect (h : Intact ti) (srv : Nat) (addr : UInt32) (port : UInt16) :
    Fine (ti.tcpConnect srv addr port) := by
  rw [TcpInstance.tcpConnect]
  split
  · rename_i hatt
    split
    · exact h.nothing
    rename_i localPort hport
    rw [clashes_of_free (findPort_free hport)]
    refine h.bind (fun j hj => ?_) hatt.1 (h.table.unused _ (Nat.le_refl _)).1.onSocks ?_
    · simp [socketAlloc, hj]
    simp only [socketAlloc, TcpInstance.setSock, update_self]
    have hbound : Accesses InUse (bindSocket .synSent false) (fun _ => Standing Served true)
        (noteConnect allocated) := accesses_bindSocket unbound_connect (.inr (.inl rfl))
    refine accesses_modify_bind Nat.one_pos (accesses_bind (hbound.mono fun _ s hs => ?_))
    exact safe_tcpBuildAndSendSequence _ s hs
  · exact h.nothing

theorem waiting_attached {w : Nat × Nat} (h : ti.waiting srv listensrv = some w) :
    (ti.servers srv).attached ∧ (ti.servers listensrv).attached ∧
      (ti.servers listensrv).tsSocket = some w.1 := by
  rw [waiting] at h
  split at h
  · rename_i hatt
    refine ⟨hatt.1, hatt.2.1, ?_⟩
    split at h
    · cases h
    rename_i l hl
    split at h
    · obtain ⟨i, -, rfl⟩ := Option.map_eq_some_iff.mp h
      exact hl
    · cases h
  · cases h

theorem accept (h : Intact ti) (hkeeps : ti.KeepsReferences (.accept srv listensrv)) :
    Fine (ti.tcpAccept srv listensrv) := by
  rw [TcpInstance.tcpAccept]
  split
  · exact h.nothing
  rename_i l i hw
  dsimp only
  have hunbound : Unbound (ti.socks i).conn :=
    (h.table.quiet i).unbound (h.table.allocRef (waiting_awaiting hw))
  rw [hkeeps (l, i) hw]
  have hbound : Accesses InUse (bindSocket .synReceived false) (fun _ => Standing Served true)
      (ti.socks i).conn := accesses_bindSocket hunbound (.inr (.inr (.inl rfl)))
  refine h.bind (fun j _ => ⟨conn_clearAwaiting l j, ?_⟩)
    (waiting_attached hw).1 hunbound.onSocks ?_
  · by_cases hj : j = l <;> simp [hj]
  have hconn : ((ti.clearAwaiting l).socks i).conn = (ti.socks i).conn := conn_clearAwaiting l i
  rw [clearAwaiting, TcpInstance.setSock] at hconn
  rw [hconn]
  exact accesses_bind (hbound.mono fun _ s hs => safe_tcpBuildAndSendSequence _ s hs)

theorem reject (h : Intact ti) (srv listensrv : Nat) : Fine (ti.tcpReject srv listensrv) := by
  rw [tcpReject]
  split
  · exact h.nothing
  rename_i l i hw
  have hunbound : Unbound (ti.socks i).conn :=
    (h.table.quiet i).unbound (h.table.allocRef (waiting_awaiting hw))
  refine ⟨fun j m hwork => ?_, ?_⟩
  · cases hwork
    rw [conn_clearAwaiting]
    exact accesses_reject hunbound
  have hoff : { (ti.socks i).sendRst.deref with allocRef := false }.onSocks = false := by
    simp [sendRst, transmit, deref, hunbound.onSocks]
  have hs' : ((do
      tcpBuildAndSendSequence { rst := true }
      modify fun s => { s.deref with allocRef := false } : M).complete
        ((ti.clearAwaiting l).socks i).conn).1 =
        { (ti.socks i).sendRst.deref with allocRef := false } := by
    rw [conn_clearAwaiting]
    rfl
  have hcleared : Pointers (ti.clearAwaiting l) := h.pointers.setSock rfl (.inr rfl)
  refine hcleared.run hs' (fun _ => ⟨?_, ?_⟩) (fun srv' hatt hsock => ?_) fun hon => ?_
  · simp [sendRst, transmit, deref, hunbound.wait]
  · simp [sendRst, transmit, deref, Socket.dropDeferredAck, hunbound.flags, hunbound.ackTimer]
  · -- no server has a socket that waits
    have hon := (h.pointers.named hatt hsock).1
    exact absurd (hunbound.onSocks.symm.trans hon) Bool.false_ne_true
  · exact absurd (hoff.symm.trans hon) Bool.false_ne_true

theorem clientDeref (h : Intact ti) {c : Nat} (hkeeps : ti.KeepsReferences (.clientDeref c)) :
    Pointers (ti.tcpClientDeref c) := by
  refine h.pointers.clientDeref fun halloc => (hkeeps halloc).imp_right fun hall i hon hc => ?_
  exact Bool.false_ne_true (hall i ((h.table.listed.mem i).mpr hon) hc)

/-- **An event that releases nothing that is pointed to** is handled by a program that touches its
socket only in use, and leaves no pointer behind that dangles. -/
theorem action (h : Intact ti) {e : Event} (hkeeps : ti.KeepsReferences e) :
    Fine (ti.action e) := by
  have hidle : ∀ ti' : TcpInstance, Action.Careful ⟨ti', none, id⟩ :=
    fun _ _ _ hwork => (Option.some_ne_none _ hwork.symm).elim
  cases e with
  | clientAlloc => exact ⟨hidle _, h.pointers.clientAlloc⟩
  | clientDeref c => exact ⟨hidle _, h.clientDeref hkeeps⟩
  | clientAttach c => exact ⟨hidle _, h.pointers.clientAttach c⟩
  | clientDetach srv => exact h.clientDetach hkeeps
  | listen srv port addr rport => exact h.listen hkeeps
  | accept srv listensrv => exact h.accept hkeeps
  | reject srv listensrv => exact h.reject srv listensrv
  | connect srv addr port => exact h.connect srv addr port
  | close srv => exact h.close hkeeps
  | send srv data => exact h.send srv data
  | segment p => exact h.segment hkeeps
  | icmp t c r => exact h.icmp hkeeps
  | waitTimer i => exact h.waitTimer i
  | deferredAckTimer i => exact h.deferredAckTimer i
  | jiffy =>
    refine ⟨hidle _, { h.pointers with still := fun i hi => ?_ }⟩
    exact { h.pointers.still i hi with }

theorem step (h : Intact ti) {e : Event} (hkeeps : ti.KeepsReferences e) : Intact (ti.step e) where
  table := (h.table.step e).1
  alive := alive_rule.step h.table (fun _ _ => trivial) h.alive
  pointers := (h.action hkeeps).pointers

end Intact

/-! ## Runs -/

/-- The socket that the server has, if it is attached. -/
def socketOf (ti : TcpInstance) (srv : Nat) : List Nat :=
  if (ti.servers srv).attached then (ti.servers srv).tsSocket.toList else []

/-- The sockets that are read or written for an event outside its program. -/
def reached (ti : TcpInstance) : Event → List Nat
  | .clientDetach srv | .close srv | .send srv _ => ti.socketOf srv
  | .listen .. | .connect .. | .segment _ | .icmp .. => ti.tiSocks
  | .accept srv listensrv | .reject srv listensrv =>
    ti.tiSocks ++ ti.socketOf listensrv ++ (ti.waiting srv listensrv).toList.map Prod.snd
  | _ => []

/-- The pointers of the instance are to sockets and clients with references. -/
structure NoDangling (ti : TcpInstance) : Prop where
  socks : ∀ i ∈ ti.tiSocks, InUse (ti.socks i).conn
  servers : ∀ srv i, (ti.servers srv).attached → (ti.servers srv).tsSocket = some i →
    InUse (ti.socks i).conn
  clients : ∀ i ∈ ti.tiSocks, ∀ c, (ti.socks i).tsClient = some c → 0 < (ti.clients c).refs

/-- No socket is read or written after its count of references has reached zero. -/
structure TouchesInUse (ti : TcpInstance) (e : Event) : Prop where
  work : (ti.action e).Careful
  reached : ∀ i ∈ ti.reached e, InUse (ti.socks i).conn

namespace Intact

theorem inUse (h : Intact ti) {i : Nat} (hon : (ti.socks i).onSocks) : InUse (ti.socks i).conn :=
  (h.alive i hon).ticking.backed.inUse

theorem noDangling (h : Intact ti) : NoDangling ti where
  socks i hi := h.inUse ((h.table.listed.mem i).mp hi)
  servers _ _ hatt hsock := h.inUse (h.pointers.named hatt hsock).1
  clients i hi _ hc := h.pointers.clients ((h.table.listed.mem i).mp hi) hc

theorem reached_inUse (h : Intact ti) (e : Event) :
    ∀ i ∈ ti.reached e, InUse (ti.socks i).conn := by
  have hsocks := h.noDangling.socks
  have hserver : ∀ srv, ∀ i ∈ ti.socketOf srv, InUse (ti.socks i).conn := by
    intro srv i hi
    rw [socketOf] at hi
    split at hi
    · exact h.noDangling.servers srv i ‹_› (Option.mem_toList.mp hi)
    · cases hi
  have hwaiting : ∀ srv listensrv, ∀ i ∈ (ti.waiting srv listensrv).toList.map Prod.snd,
      InUse (ti.socks i).conn := by
    intro srv listensrv i hi
    obtain ⟨w, hw, rfl⟩ := List.mem_map.mp hi
    have halloc := h.table.allocRef (waiting_awaiting (Option.mem_toList.mp hw))
    show 0 < _
    rw [((h.table.quiet _).unbound halloc).refs]
    exact Nat.one_pos
  intro i hi
  cases e with
  | clientDetach srv => exact hserver srv i hi
  | close srv => exact hserver srv i hi
  | send srv data => exact hserver srv i hi
  | listen | connect | segment | icmp => exact hsocks i hi
  | accept srv listensrv =>
    rcases List.mem_append.mp hi with hi | hi
    · exact (List.mem_append.mp hi).elim (hsocks i) (hserver listensrv i)
    · exact hwaiting srv listensrv i hi
  | reject srv listensrv =>
    rcases List.mem_append.mp hi with hi | hi
    · exact (List.mem_append.mp hi).elim (hsocks i) (hserver listensrv i)
    · exact hwaiting srv listensrv i hi
  | _ => cases hi

theorem exec {es : List Event} (hrun : Along TcpInstance.step KeepsReferences tcpInstanceAlloc es) :
    Intact (Run.exec TcpInstance.step tcpInstanceAlloc es) :=
  exec_invariant (fun _ _ hkeeps h => h.step hkeeps)
    ⟨table_alloc, fun _ => alive_rule.unused, pointers_alloc⟩ hrun

end Intact

instance (ti : TcpInstance) (e : Event) : Decidable (ti.KeepsReferences e) := by
  induction e using Event.casesOn <;> unfold KeepsReferences <;> infer_instance

end TcpInstance

/-- **No pointer dangles** in a run whose events release nothing that is pointed to: the sockets on
`ti_socks`, the sockets of the servers and the clients of the sockets have references, and no event
touches a socket without. -/
theorem pointers_inUse (es : List TcpInstance.Event)
    (hrun : Along TcpInstance.step TcpInstance.KeepsReferences tcpInstanceAlloc es) :
    let ti := exec TcpInstance.step tcpInstanceAlloc es
    ti.NoDangling ∧ ∀ e, ti.KeepsReferences e → ti.TouchesInUse e := by
  intro ti
  have h : ti.Intact := TcpInstance.Intact.exec hrun
  exact ⟨h.noDangling, fun e hkeeps => ⟨(h.action hkeeps).careful, h.reached_inUse e⟩⟩

theorem pointers_inUse_sending :
    let ti := exec TcpInstance.step tcpInstanceAlloc
      (established ++ [.deferredAckTimer 0, .send 0 ⟨0, [1, 2]⟩])
    (ti.tiSocks = [0] ∧ (ti.servers 0).attached ∧ (ti.servers 0).tsSocket = some 0 ∧
      (ti.socks 0).tsClient = some 0) ∧ ti.NoDangling ∧ ti.TouchesInUse (.close 0) := by
  have hrun : Along TcpInstance.step TcpInstance.KeepsReferences tcpInstanceAlloc
      (established ++ [.deferredAckTimer 0, .send 0 ⟨0, [1, 2]⟩]) := by decide +kernel
  obtain ⟨hpointers, htouches⟩ := pointers_inUse _ hrun
  exact ⟨by decide +kernel, hpointers, htouches (.close 0) (by decide +kernel)⟩

/-- A reset in ESTABLISHED releases the socket, which the server still has; and `condvar_signal` is
called for it afterwards. A second `tcp_listen` for a port releases the new socket, writes to it and
gives it to its server. And a client that is given back by the one who allocated it, and then
detached, is still the client of a socket. -/
theorem reset_leaves_pointer :
    (let ti := exec TcpInstance.step tcpInstanceAlloc (established ++ [.deferredAckTimer 0])
      let e := fromPeer ⟨{ rst := true }, 101, 0, []⟩
      ¬ (ti.action e).Careful ∧ ((ti.step e).servers 0).attached ∧
        ((ti.step e).servers 0).tsSocket = some 0 ∧ ¬ InUse ((ti.step e).socks 0).conn) ∧
    (let ti := exec TcpInstance.step tcpInstanceAlloc
        [.clientAlloc, .clientAttach 0, .clientAlloc, .clientAttach 1, .listen 0 80 0 0]
      let e := TcpInstance.Event.listen 1 80 0 0
      ¬ (ti.action e).Careful ∧ ((ti.step e).servers 1).attached ∧
        ((ti.step e).servers 1).tsSocket = some 1 ∧ ¬ InUse ((ti.step e).socks 1).conn) ∧
    let ti := exec TcpInstance.step tcpInstanceAlloc
      (established ++ [.clientDeref 0, .clientDetach 0])
    0 ∈ ti.tiSocks ∧ (ti.socks 0).tsClient = some 0 ∧ (ti.clients 0).refs = 0 := by
  decide +kernel

end Liquorice.Tcp
