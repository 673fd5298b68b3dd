import Liquorice.Tcp.Invariant

/-!
# The receiving side

What the operations of the socket do to the data received (`Receiver`): `ts_rcv_nxt` is advanced for
a segment only if it starts there, so the segments for which it was advanced are chained from the
peer's SYN on.
-/

namespace Liquorice.Tcp

open Socket

variable {s s' : Socket} {nb : Segment} {base : UInt32}
  {arrived arrived' : List Segment} {off : Nat}
  {l : List Segment}

attribute [local simp] Socket.acceptSyn Socket.acceptFin Chained

@[simp] theorem bytes_nil : bytes [] = 0 := rfl

@[simp] theorem bytes_append (l l' : List Segment) : bytes (l ++ l') = bytes l + bytes l' := by
  simp [bytes]

@[simp] theorem bytes_cons (nb : Segment) (l : List Segment) :
    bytes (nb :: l) = nb.payload.length + bytes l := by
  simp [bytes]

theorem Chained.mono (h : Chained base arrived off l) (harr : arrived ⊆ arrived') :
    Chained base arrived' off l := by
  induction l generalizing off with
  | nil => exact trivial
  | cons nb l ih => exact ⟨harr h.1, h.2.1, h.2.2.1, ih h.2.2.2⟩

/-- A segment that starts at the end of the chain continues it. -/
theorem Chained.append (h : Chained base arrived off l) (hmem : nb ∈ arrived)
    (hdata : nb.payload ≠ []) (hseq : nb.thSequence = base + UInt32.ofNat (off + bytes l)) :
    Chained base arrived off (l ++ [nb]) := by
  induction l generalizing off with
  | nil => exact ⟨hmem, hdata, by simpa using hseq, trivial⟩
  | cons nb' l ih =>
    refine ⟨h.1, h.2.1, h.2.2.1, ih h.2.2.2 ?_⟩
    rw [hseq, bytes_cons, Nat.add_assoc]

namespace Receiver

/-- The part of a socket that `Receiver` is about. -/
def view (s : Socket) : TcpState × Bool × UInt32 × UInt32 × List Segment × List Segment × Bool ×
    List Segment :=
  (s.tsState, s.allocRef, s.tsRcvNxt, s.log.rcvBase, s.log.received, s.log.late, s.log.finReceived,
    s.log.arrived)

theorem congr (h : Receiver s) (he : view s' = view s) : Receiver s' := by
  simp only [view, Prod.mk.injEq] at he
  obtain ⟨hstate, halloc, hnxt, hbase, hreceived, hlate, hfin, harr⟩ := he
  constructor
  · simpa [hnxt, hbase, hreceived, hlate, hfin] using h.next
  · simpa [halloc, hstate, hreceived, hlate, hfin] using h.none
  · simpa [halloc, harr, hbase] using h.alloc
  · simpa [hstate, hreceived, hfin, harr, hbase] using h.syn
  · simpa [hbase, harr, hreceived] using h.chain
  · simpa [hbase, harr, hreceived, hlate] using h.late
  · simpa [hlate, hfin] using h.lateFin
  · simpa [hfin, harr, hbase, hreceived] using h.fin
  · simpa [hfin, hstate] using h.closed
  · simpa [hstate] using h.listen

/-- More segments have arrived at a socket in use. -/
theorem arrive (h : Receiver s) (halloc : s.allocRef = false)
    (harr : s.log.arrived ⊆ s'.log.arrived)
    (he : view s' = ((view s).1, (view s).2.1, (view s).2.2.1, (view s).2.2.2.1, (view s).2.2.2.2.1,
      (view s).2.2.2.2.2.1, (view s).2.2.2.2.2.2.1, s'.log.arrived)) : Receiver s' := by
  refine congr (s := { s with log := { s.log with arrived := s'.log.arrived } }) ?_ he
  refine ⟨h.next, h.none, fun h' => ?_, fun h' => ?_, h.chain.mono harr,
    h.late.mono harr, h.lateFin,
    fun h' => ?_, h.closed, h.listen⟩
  · simp [halloc] at h'
  · obtain ⟨nb, hmem, hnb⟩ := h.syn h'
    exact ⟨nb, harr hmem, hnb⟩
  · obtain ⟨nb, hmem, hnb⟩ := h.fin h'
    exact ⟨nb, harr hmem, hnb⟩

/-- The states in which data and FINs are received. -/
def Open (s : Socket) : Prop := s.allocRef = false ∧ s.tsState ≠ .closed ∧ s.tsState ≠ .synSent

variable {st : TcpState}

variable (h : Receiver s)

include h

theorem setState (hst : st ≠ .synSent ∧ st ≠ .listen)
    (hopen : st ≠ .closed → Open s) (hfin : s.log.finReceived → st ≠ .synReceived ∧
      st ≠ .established ∧ st ≠ .finWait1 ∧ st ≠ .finWait2) : Receiver { s with tsState := st } := by
  refine ⟨h.next, fun h' => ?_, h.alloc, fun h' => ?_, h.chain, h.late, h.lateFin, h.fin, hfin,
    hst.2⟩
  · rcases h' with h' | h'
    · exact h.none (.inl h')
    · exact absurd h' hst.1
  · rcases h' with h' | h'
    · exact h.syn (.inl (hopen h'.1).2)
    · exact h.syn (.inr h')

/-- `tcp_connect` and `tcp_accept`. -/
theorem begin (halloc : s.allocRef)
    (hst : st = .synSent ∨ st = .synReceived ∧ s.log.arrived ≠ [])
    (hs' : view s' = view { s with tsState := st, allocRef := false }) : Receiver s' := by
  obtain ⟨hreceived, hlate, hfin⟩ := h.none (.inl halloc)
  refine congr ?_ hs'
  refine ⟨h.next, fun _ => ⟨hreceived, hlate, hfin⟩, fun h' => (by cases h'), fun h' => ?_,
    h.chain, h.late,
    h.lateFin, h.fin, fun h' => ?_, ?_⟩
  · rcases hst with rfl | ⟨rfl, harr⟩
    · simp [hreceived, hfin] at h'
    · exact h.alloc halloc harr
  · simp [hfin] at h'
  · rcases hst with rfl | ⟨rfl, _⟩ <;> simp

/-- The peer's SYN in SYN_SENT. -/
theorem acceptSyn (hnone : s.log.received = [] ∧ s.log.late = [] ∧ s.log.finReceived = false)
    (halloc : s.allocRef = false) (hmem : nb ∈ s.log.arrived) (hsyn : nb.syn)
    (hst : st ≠ .listen) : Receiver { s.acceptSyn nb with tsState := st } := by
  obtain ⟨hreceived, hlate, hfin⟩ := hnone
  refine ⟨?_, fun _ => ⟨hreceived, hlate, hfin⟩, fun h' => ?_, fun _ =>
    ⟨nb, hmem, hsyn, rfl⟩, ?_, ?_, ?_,
    fun h' => ?_, fun h' => ?_, hst⟩
  · simp [hreceived, hlate, hfin]
  · simp [halloc] at h'
  · simp [hreceived]
  · simp [hlate]
  · exact h.lateFin
  · simp [hfin] at h'
  · simp [hfin] at h'

/-- No FIN has been received: then the data received ends at `ts_rcv_nxt`. -/
theorem next_of_not_fin (hfin : s.log.finReceived = false) :
    s.log.late = [] ∧ s.tsRcvNxt = s.log.rcvBase + UInt32.ofNat (bytes s.log.received) := by
  have hlate : s.log.late = [] := by
    by_contra hne
    simp [h.lateFin hne] at hfin
  refine ⟨hlate, ?_⟩
  simpa [hlate, hfin] using h.next

/-- A segment with data is accepted. -/
theorem acceptData (hopen : Open s) (hmem : nb ∈ s.log.arrived)
    (hdata : nb.payload ≠ []) (hseq : nb.thSequence = s.tsRcvNxt) : Receiver (s.acceptData nb) := by
  obtain ⟨halloc, hclosed, hsent⟩ := hopen
  have hsyn := h.syn (.inl ⟨hclosed, hsent⟩)
  rw [Socket.acceptData]
  by_cases hfin : s.log.finReceived
  · -- behind the FIN
    rw [if_pos hfin]
    refine ⟨?_, ?_, ?_, fun _ => hsyn, h.chain, ?_, fun _ => hfin, h.fin, h.closed, h.listen⟩
    · simp only [h.next, hfin, bytes_append, bytes_cons, bytes_nil, UInt32.ofNat_add]
      ac_rfl
    · simp [halloc, hsent]
    · simp [halloc]
    refine h.late.append hmem hdata ?_
    rw [hseq, h.next, hfin, Bool.toNat_true]
    congr 2
    omega
  · simp only [Bool.not_eq_true] at hfin
    obtain ⟨hlate, hnext⟩ := h.next_of_not_fin hfin
    rw [if_neg (by simp [hfin])]
    refine ⟨?_, ?_, ?_, fun _ => hsyn, ?_, ?_, ?_, ?_, ?_, h.listen⟩
    · simp [hnext, hlate, hfin, UInt32.add_assoc]
    · simp [halloc, hsent]
    · simp [halloc]
    · exact h.chain.append hmem hdata (by rw [hseq, hnext, Nat.zero_add])
    · simp [hlate]
    · simp [hlate]
    · simp [hfin]
    · simp [hfin]

/-- The FIN of a segment is accepted, and a state behind it is entered. -/
theorem acceptFin (hopen : Open s) (hfin : s.log.finReceived = false)
    (hmem : nb ∈ s.log.arrived) (hnb : nb.fin)
    (hseq : nb.payload = [] → nb.thSequence = s.tsRcvNxt) (hst : (st ≠ .synSent ∧
      st ≠ .listen) ∧ st ≠ .synReceived ∧ st ≠ .established ∧ st ≠ .finWait1 ∧ st ≠ .finWait2) :
    Receiver { s.acceptFin with tsState := st } := by
  obtain ⟨hlate, hnext⟩ := h.next_of_not_fin hfin
  obtain ⟨halloc, hclosed, hsent⟩ := hopen
  refine ⟨?_, fun h' => ?_, fun h' => ?_, fun _ => h.syn (.inl ⟨hclosed, hsent⟩), h.chain,
    ?_, fun _ => rfl,
    fun _ => ⟨nb, hmem, hnb, fun hempty => ?_⟩, fun _ => hst.2, hst.1.2⟩
  · simp [hnext, hlate, UInt32.add_assoc]
  · rcases h' with h' | h'
    · simp [halloc] at h'
    · exact absurd h' hst.1.1
  · simp [halloc] at h'
  · simp [hlate]
  · rw [hseq hempty, hnext]
    rfl

end Receiver

end Liquorice.Tcp
