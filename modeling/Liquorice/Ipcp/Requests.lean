import Liquorice.Ipcp.Model
import Liquorice.Lcp.Requests

/-!
# The reply to a Configure-Request of IPCP

`ipcp_check_request` frames the options as `lcp_check_request` does, with one difference: an address
option whose length is not 6 is neither acknowledged nor rejected. Unless the request has an option
of another type, which is rejected, the reply is then a Configure-Ack that lacks an option of the
request.
-/

namespace Liquorice.Ipcp

open Lcp (Usage Reply Packet Opt encode packet be16 gravest ofDegree Stands Answers)

/-- What `ipcp_check_request` makes of an option; an address of the wrong length is passed over. -/
def degree (o : Opt) : Option Usage :=
  if o.type = 3 then if o.length = 6 then some .ack else none else some .rej

/-- `ipcp_check_request` frames each option by its degree. -/
theorem checkOption_frame (c : Check) (o : Opt) :
    (checkOption c o.type o.body).toReply = c.toReply.frame o.type o.body (degree o) := by
  rw [checkOption, degree]
  by_cases htype : o.type = 3
  · rw [if_pos htype, if_pos htype]
    by_cases hlen : o.body.length = 4
    · have hsix : o.length = 6 := congrArg (· + 2) hlen
      rw [if_pos hlen, if_pos hsix]
      rfl
    · have hsix : o.length ≠ 6 := fun h => hlen (Nat.add_right_cancel h)
      rw [if_neg hlen, if_neg hsix]
      rfl
  · rw [if_neg htype, if_neg htype]
    rfl

variable {os : List Opt}

theorem answers_ipcpCheckRequest {p : Packet} (hp : p.Carries os) (s : Pii) :
    Answers degree os (ipcpCheckRequest p s).toReply := by
  have hfold := Lcp.answers_foldl degree Check.toReply checkOption
    (fun c o => ⟨o, ⟨rfl, fun _ => rfl⟩, checkOption_frame c o⟩)
    (c := { addr := s.piiRemoteIpAddr }) rfl os
  rw [ipcpCheckRequest, hp.sz, Lcp.checkRequest_encode os (Nat.le_refl _) hp.holds]
  exact hfold

theorem degree_ne_nak (o : Opt) : degree o ≠ some .nak := by
  rw [degree]
  split
  · split <;> decide
  · decide

/-- The options of the reply are those of the request of the gravest degree. -/
theorem options_ipcpCheckRequest {p : Packet} (hp : p.Carries os) (s : Pii) :
    (ipcpCheckRequest p s).options = encode (ofDegree degree (gravest degree os) os) := by
  obtain ⟨rs, hrs, hstands⟩ := (answers_ipcpCheckRequest hp s).options
  rw [hrs, Stands.eq_of_forall hstands fun o _ => degree_ne_nak o]

/-- A reply that is not a Configure-Ack has an option. -/
theorem ofDegree_ne_nil (h : gravest degree os ≠ .ack) :
    ofDegree degree (gravest degree os) os ≠ [] := by
  intro hnil
  rw [ofDegree, List.filter_eq_nil_iff] at hnil
  unfold gravest at h hnil
  split at h
  · -- there is an option that is Rejected
    rename_i hany
    obtain ⟨o, ho, hrej⟩ := List.any_eq_true.mp hany
    rw [if_pos hany] at hnil
    exact hnil o ho hrej
  split at h
  · rename_i hany
    obtain ⟨o, -, hnak⟩ := List.any_eq_true.mp hany
    exact absurd (of_decide_eq_true hnak) (degree_ne_nak o)
  · exact h rfl

/-- An option of another type makes the reply a Configure-Reject. -/
theorem gravest_eq_rej {o : Opt} (ho : o ∈ os) (htype : o.type ≠ 3) : gravest degree os ≠ .ack := by
  have hrej : degree o = some .rej := by rw [degree, if_neg htype]
  have hle := Lcp.rank_le_gravest ho hrej
  intro hack
  rw [hack] at hle
  exact absurd hle (by decide)

/-- A request of addresses only gets a Configure-Ack. -/
theorem gravest_eq_ack (htype : ∀ o ∈ os, o.type = 3) : gravest degree os = .ack := by
  by_contra hne
  obtain ⟨o, ho⟩ := List.exists_mem_of_ne_nil _ (ofDegree_ne_nil hne)
  obtain ⟨hmem, hdegree⟩ := List.mem_filter.mp ho
  have hdegree := of_decide_eq_true hdegree
  rw [degree, if_pos (htype o hmem)] at hdegree
  split at hdegree
  · exact hne (Option.some.inj hdegree).symm
  · cases hdegree

/-- A Configure-Ack has all options exactly if none is an address of the wrong length. -/
theorem ofDegree_eq_self_iff (htype : ∀ o ∈ os, o.type = 3) :
    ofDegree degree .ack os = os ↔ ∀ o ∈ os, o.length = 6 := by
  rw [ofDegree, List.filter_eq_self]
  refine forall₂_congr fun o ho => ?_
  rw [decide_eq_true_iff, degree, if_pos (htype o ho)]
  split <;> simp_all

/-- **The reply to a Configure-Request.** Its options are options of the request, in their order,
and its length field counts them; a reply that is not a Configure-Ack has at least one; and a
Configure-Ack has all of them exactly if each address option has length 6, or the reply is none
because of an option of another type. -/
theorem ipcp_configure_reply (p : Packet) (s : Pii) (os : List Opt) (hp : p.Carries os) :
    let c := ipcpCheckRequest p s
    let reply := packet c.code p.rid c.options
    ∃ rs : List Opt, rs.Sublist os ∧
      reply = [c.parseState.code, p.rid] ++ be16 (UInt16.ofNat (4 + (rs.map Opt.length).sum)) ++
        encode rs ∧
      (UInt16.ofNat (4 + (rs.map Opt.length).sum)).toNat = 4 + (rs.map Opt.length).sum ∧
      (c.parseState ≠ .ack → rs ≠ []) ∧
      ((c.parseState = .ack → rs = os) ↔
        (∀ o ∈ os, o.type = 3 → o.length = 6) ∨ ∃ o ∈ os, o.type ≠ 3) := by
  intro c reply
  have hanswers := answers_ipcpCheckRequest hp s
  have hstate : c.parseState = gravest degree os := hanswers.state
  have hsub : (ofDegree degree (gravest degree os) os).Sublist os := List.filter_sublist
  refine ⟨ofDegree degree (gravest degree os) os, hsub, ?_, ?_, fun hne => ?_, ?_⟩
  · show packet c.code p.rid c.options = _
    rw [options_ipcpCheckRequest hp s, Lcp.packet_eq]
    have hcode : c.code = c.parseState.code := hanswers.coded
    rw [hcode]
  · have hle := Lcp.sum_length_le hsub
    rw [← Lcp.length_encode os] at hle
    have hsize := hp.size
    have hlt := p.rlen.toNat_lt
    exact UInt16.toNat_ofNat_of_lt' (by show _ < 65536; omega)
  · rw [hstate] at hne
    exact ofDegree_ne_nil hne
  · rw [hstate]
    by_cases hother : ∃ o ∈ os, o.type ≠ 3
    · obtain ⟨o, ho, htype⟩ := hother
      exact ⟨fun _ => .inr ⟨o, ho, htype⟩, fun _ hack => absurd hack (gravest_eq_rej ho htype)⟩
    have htype : ∀ o ∈ os, o.type = 3 := by simpa using hother
    rw [gravest_eq_ack htype, or_iff_left hother]
    refine ⟨fun hall o ho _ => (ofDegree_eq_self_iff htype).mp (hall rfl) o ho, fun hlen _ => ?_⟩
    exact (ofDegree_eq_self_iff htype).mpr fun o ho => hlen o ho (htype o ho)

/-- An address and an option that is not known: only the second is in the reply. -/
theorem ipcp_configure_reply_unknown :
    let os : List Opt := [⟨3, [10, 0, 0, 1], by decide⟩, ⟨2, [0, 45], by decide⟩]
    let c := ipcpCheckRequest (Packet.ofData 1 9 (encode os)) {}
    c.parseState = .rej ∧ packet c.code 9 c.options = [4, 9, 0, 8, 2, 4, 0, 45] ∧
      ∃ rs : List Opt, rs.Sublist os ∧ rs ≠ [] ∧
        packet c.code 9 c.options =
          [4, 9] ++ be16 (UInt16.ofNat (4 + (rs.map Opt.length).sum)) ++ encode rs := by
  intro os c
  have hstate : c.parseState = .rej := by decide
  obtain ⟨rs, hsub, hreply, -, hne, -⟩ :=
    ipcp_configure_reply (Packet.ofData 1 9 (encode os))
      {} os (Lcp.carries_ofData 1 9 os (by decide))
  have hcode : [c.parseState.code, 9] = [4, 9] := by
    rw [hstate]
    rfl
  refine ⟨hstate, by decide, rs, hsub, hne fun hack => ?_, ?_⟩
  · exact absurd (hstate.symm.trans hack) (by decide)
  · rw [← hcode]
    exact hreply

/-- An address option of length 2 is answered with a Configure-Ack that does not have it. -/
theorem ack_lacks_address :
    let os : List Opt := [⟨3, [], by decide⟩]
    let p := Packet.ofData 1 9 (encode os)
    let c := ipcpCheckRequest p {}
    p.Carries os ∧ c.parseState = .ack ∧ packet c.code p.rid c.options = [2, 9, 0, 4] ∧
      c.options ≠ encode os := by
  intro os p c
  exact ⟨Lcp.carries_ofData 1 9 os (by decide), by decide, by decide, by decide⟩

end Liquorice.Ipcp
