import Liquorice.Lcp.Actions
import Mathlib.Algebra.Ring.Nat
import Mathlib.Data.List.Forall2
import Mathlib.Data.List.GetD
import Mathlib.Data.List.Induction

/-!
# The reply to a Configure-Request

`frame_rej`, `frame_nak` and `frame_ack` throw away what is in the reply when a graver option comes
along, and pass over the milder ones that follow. What is left at the end is a filter of the
request: the options of the gravest degree that occurs, in their order. This is shown for any
function that frames the options by degrees, since `ppp_ip.c` has the same three functions; for
`lcp_check_request` the degrees are `grade`.
-/

namespace Liquorice.Lcp

open Threads Threads.Prog Ppp

/-! ## Option lists -/

/-- An option as it stands in a packet. The length octet counts the type and itself. -/
structure Opt where
  type : UInt8
  body : List UInt8
  short : body.length + 2 < 256
  deriving DecidableEq

namespace Opt

def length (o : Opt) : Nat := o.body.length + 2

def octets (o : Opt) : List UInt8 := [o.type, UInt8.ofNat o.length] ++ o.body

/-- Type and length. -/
def head (o : Opt) : UInt8 × Nat := (o.type, o.length)

theorem length_octets (o : Opt) : o.octets.length = o.length := by
  simp only [octets, length, List.length_append, List.length_cons, List.length_nil]
  omega

theorem octets_eq_option (o : Opt) : o.octets = Reply.option o.type o.body := rfl

theorem toNat_length (o : Opt) : (UInt8.ofNat o.length).toNat = o.length :=
  Nat.mod_eq_of_lt o.short

end Opt

/-- The octets of an option list. -/
def encode (os : List Opt) : List UInt8 := os.flatMap Opt.octets

@[simp] theorem encode_nil : encode [] = [] := rfl

@[simp] theorem encode_cons (o : Opt) (os : List Opt) :
  encode (o :: os) = o.octets ++ encode os := rfl

@[simp] theorem encode_append (os os' : List Opt) :
    encode (os ++ os') = encode os ++ encode os' := by
  simp [encode]

theorem length_encode (os : List Opt) : (encode os).length = (os.map Opt.length).sum := by
  induction os with
  | nil => rfl
  | cons o os ih =>
    rw [encode_cons, List.length_append, Opt.length_octets, ih, List.map_cons, List.sum_cons]

/-- The memory from `buf` on holds `l`. -/
def HoldsAt (mem : Nat → UInt8) (buf : Nat) (l : List UInt8) : Prop :=
  ∀ i, i < l.length → mem (buf + i) = l.getD i 0

variable {mem : Nat → UInt8} {p : Packet} {os rs : List Opt} {degree : Opt → Option Usage}

theorem HoldsAt.left {buf : Nat} {l l' : List UInt8} (h : HoldsAt mem buf (l ++ l')) :
    HoldsAt mem buf l := by
  intro i hi
  rw [h i (by rw [List.length_append]; omega), List.getD_append _ _ _ _ hi]

theorem HoldsAt.right {buf : Nat} {l l' : List UInt8} (h : HoldsAt mem buf (l ++ l')) :
    HoldsAt mem (buf + l.length) l' := by
  intro i hi
  rw [Nat.add_assoc, h _ (by rw [List.length_append]; omega),
    List.getD_append_right _ _ _ _ (Nat.le_add_right _ _), Nat.add_sub_cancel_left]

theorem HoldsAt.octets {buf : Nat} {l : List UInt8} (h : HoldsAt mem buf l) :
    Lcp.octets mem buf l.length = l := by
  apply List.ext_getElem
  · simp [Lcp.octets]
  · intro i _ hi
    simp only [Lcp.octets, List.getElem_map, List.getElem_range]
    rw [h i hi, List.getD_eq_getElem _ _ hi]

/-- The packet holds the option list `os`, which fits into a packet. -/
structure Packet.Carries (p : Packet) (os : List Opt) : Prop where
  size : p.rlen.toNat = 4 + (encode os).length
  holds : HoldsAt p.behind 0 (encode os)
  fits : (encode os).length ≤ 1496

theorem Packet.Carries.sz {os : List Opt} (h : p.Carries os) : p.sz = (encode os).length := by
  have hle : (4 : UInt16) ≤ p.rlen := by
    rw [UInt16.le_iff_toNat_le, h.size]
    exact Nat.le_add_right 4 _
  rw [Packet.sz, UInt16.toNat_sub_of_le _ _ hle, h.size]
  exact Nat.add_sub_cancel_left 4 _

theorem carries_ofData (rcode rid : UInt8) (os : List Opt) (hfits : (encode os).length ≤ 1496) :
    (Packet.ofData rcode rid (encode os)).Carries os where
  size := by
    show (UInt16.ofNat ((encode os).length + 4)).toNat = _
    rw [UInt16.toNat_ofNat_of_lt' (by show _ < 65536; omega), Nat.add_comm]
  holds := fun i _ => by
    rw [Nat.zero_add]
    rfl
  fits := hfits

/-- The loop over the options of a request goes through an option list from its first to its
last. -/
theorem checkRequest_encode {γ : Type} {rej : γ → UInt8 → γ} {f : γ → UInt8 → List UInt8 → γ}
    (os : List Opt) {rounds buf : Nat} {c : γ} (hrounds : (encode os).length ≤ rounds)
    (hmem : HoldsAt p.behind buf (encode os)) :
    checkRequest rej f p rounds buf (encode os).length c =
      os.foldl (fun c o => f c o.type o.body) c := by
  induction os generalizing rounds buf c with
  | nil => cases rounds <;> rfl
  | cons o os ih =>
    have hsize : (encode (o :: os)).length = o.length + (encode os).length := by
      rw [encode_cons, List.length_append, o.length_octets]
    have hlen : o.length = o.body.length + 2 := rfl
    cases rounds with
    | zero => omega
    | succ rounds =>
      -- type, length and body are where the loop looks for them
      have ho : HoldsAt p.behind buf o.octets := HoldsAt.left hmem
      have htype : p.behind buf = o.type := ho 0 (by rw [o.length_octets]; omega)
      have hoptsz : (p.behind (buf + 1)).toNat = o.length := by
        rw [ho 1 (by rw [o.length_octets]; omega)]
        exact o.toNat_length
      have hbody : octets p.behind (buf + 2) (o.length - 2) = o.body := by
        have hholds : HoldsAt p.behind (buf + 2) o.body :=
          HoldsAt.right (l := [o.type, UInt8.ofNat o.length]) ho
        exact hholds.octets
      have hrest : HoldsAt p.behind (buf + o.length) (encode os) := by
        rw [← o.length_octets]
        exact HoldsAt.right hmem
      rw [checkRequest, if_neg (by omega)]
      simp only [hoptsz, htype]
      rw [if_neg (by omega), hbody, hsize, Nat.add_sub_cancel_left, List.foldl_cons]
      exact ih (by omega) hrest

/-! ## Degrees -/

/-- `PPP_USAGE_ACK < PPP_USAGE_NAK < PPP_USAGE_REJ` -/
def Usage.rank : Usage → Nat
  | .ack => 0
  | .nak => 1
  | .rej => 2

/-- The graver of two degrees. -/
def Usage.graver (u v : Usage) : Usage := if u.rank < v.rank then v else u

/-- What the option does to the reply; an option without a degree is passed over. -/
def Reply.frame (r : Reply) (opt : UInt8) (body : List UInt8) : Option Usage → Reply
  | none => r
  | some .ack => r.frameAck opt body
  | some .nak => r.frameNak opt body
  | some .rej => r.frameRej opt body

/-- A graver option empties the reply, one of the same degree is added, a milder one is passed
over. -/
theorem Reply.frame_eq {r : Reply} {opt : UInt8} {body : List UInt8} (h : r.Coded) (v : Usage) :
    r.frame opt body (some v) =
      if r.parseState.rank < v.rank then ⟨v.code, Reply.option opt body, v⟩
      else if r.parseState = v then { r with options := r.options ++ Reply.option opt body }
      else r := by
  obtain ⟨code, options, parseState⟩ := r
  obtain rfl : code = parseState.code := h
  cases v <;> cases parseState <;> rfl

section Degrees

variable {degree : Opt → Option Usage} {os : List Opt} {o : Opt} {u v : Usage} {r : Reply}

/-- The gravest degree in an option list: Reject if there is one, else Nak if there is one, else
Ack. -/
def gravest (degree : Opt → Option Usage) (os : List Opt) : Usage :=
  if os.any (fun o => degree o = some .rej) then .rej
  else if os.any (fun o => degree o = some .nak) then .nak
  else .ack

/-- The options of one degree. -/
def ofDegree (degree : Opt → Option Usage) (v : Usage) (os : List Opt) : List Opt :=
  os.filter fun o => degree o = some v

theorem rank_le_gravest (ho : o ∈ os) (hv : degree o = some v) :
    v.rank ≤ (gravest degree os).rank := by
  have hany : os.any (fun o => degree o = some v) := by
    rw [List.any_eq_true]
    exact ⟨o, ho, decide_eq_true hv⟩
  unfold gravest
  cases v with
  | ack => exact Nat.zero_le _
  | nak =>
    rw [hany]
    split <;> decide
  | rej =>
    rw [hany]
    exact Nat.le_refl 2

/-- No option is graver than the gravest. -/
theorem ofDegree_eq_nil (h : (gravest degree os).rank < v.rank) : ofDegree degree v os = [] := by
  rw [ofDegree, List.filter_eq_nil_iff]
  intro o ho hv
  exact absurd (rank_le_gravest ho (of_decide_eq_true hv)) (Nat.not_le_of_lt h)

theorem gravest_concat_none (h : degree o = none) :
    gravest degree (os ++ [o]) = gravest degree os := by
  simp [gravest, h]

theorem gravest_concat_some (os : List Opt) (h : degree o = some v) :
    gravest degree (os ++ [o]) = (gravest degree os).graver v := by
  simp only [gravest, List.any_append, List.any_cons, List.any_nil, h, Option.some.injEq]
  generalize os.any (fun o => decide (degree o = some .rej)) = anyRej
  generalize os.any (fun o => decide (degree o = some .nak)) = anyNak
  cases v <;> cases anyRej <;> cases anyNak <;> rfl

theorem ofDegree_concat : ofDegree degree v (os ++ [o]) =
    ofDegree degree v os ++ if degree o = some v then [o] else [] := by
  simp [ofDegree, List.filter_append, List.filter_cons, List.filter_nil, decide_eq_true_eq]

/-- What stands in a reply for an option of the request: an option of the same type and length, and
the option itself unless it is a Nak. -/
structure Stands (degree : Opt → Option Usage) (o o' : Opt) : Prop where
  head : o'.head = o.head
  same : degree o ≠ some .nak → o' = o

/-- The reply answers the options so far. -/
structure Answers (degree : Opt → Option Usage) (os : List Opt) (r : Reply) : Prop where
  state : r.parseState = gravest degree os
  coded : r.Coded
  options : ∃ rs, r.options = encode rs ∧
    List.Forall₂ (Stands degree) (ofDegree degree (gravest degree os) os) rs

theorem answers_nil : Answers degree [] {} := ⟨rfl, rfl, [], rfl, .nil⟩

/-- The reply goes on answering the options when the next one is framed by its degree. -/
theorem Answers.concat {o' : Opt} (h : Answers degree os r) (ho' : Stands degree o o') :
    Answers degree (os ++ [o]) (r.frame o.type o'.body (degree o)) := by
  obtain ⟨rs, hrs, hstands⟩ := h.options
  have htype : o'.type = o.type := congrArg Prod.fst ho'.head
  cases hv : degree o with
  | none =>
    refine ⟨?_, h.coded, rs, hrs, ?_⟩
    · rw [gravest_concat_none hv]
      exact h.state
    · rw [gravest_concat_none hv, ofDegree_concat, hv, if_neg (Option.some_ne_none _).symm,
        List.append_nil]
      exact hstands
  | some v =>
    rw [Reply.frame_eq h.coded, ← htype, ← o'.octets_eq_option, h.state]
    have hgravest := gravest_concat_some os hv
    unfold Usage.graver at hgravest
    by_cases hlt : (gravest degree os).rank < v.rank
    · -- the option is the first of its degree
      rw [if_pos hlt] at hgravest ⊢
      refine ⟨hgravest.symm, rfl, [o'], (List.append_nil _).symm, ?_⟩
      rw [hgravest, ofDegree_concat, ofDegree_eq_nil hlt, hv, if_pos rfl, List.nil_append]
      exact .cons ho' .nil
    rw [if_neg hlt] at hgravest ⊢
    by_cases heq : gravest degree os = v
    · rw [if_pos heq]
      refine ⟨hgravest.symm, ?_, rs ++ [o'], ?_, ?_⟩
      · show r.code = (gravest degree os).code
        rw [← h.state]
        exact h.coded
      · rw [encode_append, ← hrs, encode_cons, encode_nil, List.append_nil]
      · rw [hgravest, ofDegree_concat, hv, heq, if_pos rfl]
        rw [heq] at hstands
        exact List.rel_append hstands (.cons ho' .nil)
    · rw [if_neg heq]
      refine ⟨h.state.trans hgravest.symm, h.coded, rs, hrs, ?_⟩
      have hne : ¬ some v = some (gravest degree os) := fun h => heq (Option.some.inj h).symm
      rw [hgravest, ofDegree_concat, hv, if_neg hne, List.append_nil]
      exact hstands

/-- A function that frames each option by its degree answers the option list. -/
theorem answers_foldl {γ : Type} (degree : Opt → Option Usage) (reply : γ → Reply)
    (f : γ → UInt8 → List UInt8 → γ)
    (hf : ∀ c o, ∃ o', Stands degree o o' ∧
      reply (f c o.type o.body) = (reply c).frame o.type o'.body (degree o))
    {c : γ} (hc : reply c = {}) (os : List Opt) :
    Answers degree os (reply (os.foldl (fun c o => f c o.type o.body) c)) := by
  induction os using List.reverseRecOn with
  | nil =>
    rw [List.foldl_nil, hc]
    exact answers_nil
  | append_singleton os o ih =>
    rw [List.foldl_append, List.foldl_cons, List.foldl_nil]
    obtain ⟨o', ho', hframe⟩ := hf (os.foldl (fun c o => f c o.type o.body) c) o
    rw [hframe]
    exact ih.concat ho'

end Degrees

/-! ## What is in a reply -/

theorem Stands.head_eq (h : List.Forall₂ (Stands degree) os rs) :
    rs.map Opt.head = os.map Opt.head := by
  induction h with
  | nil => rfl
  | cons ho _ ih => rw [List.map_cons, List.map_cons, ho.head, ih]

/-- Only Naks differ from the options that they stand for. -/
theorem Stands.eq_of_forall
    (h : List.Forall₂ (Stands degree) os rs) (hne : ∀ o ∈ os, degree o ≠ some .nak) : rs = os := by
  induction h with
  | nil => rfl
  | cons ho _ ih =>
    rw [ho.same (hne _ List.mem_cons_self), ih fun o ho => hne o (List.mem_cons_of_mem _ ho)]

theorem sum_length_eq (h : rs.map Opt.head = os.map Opt.head) :
    (rs.map Opt.length).sum = (os.map Opt.length).sum := by
  have hlength : ∀ l : List Opt, l.map Opt.length = (l.map Opt.head).map Prod.snd := by
    intro l
    rw [List.map_map]
    rfl
  rw [hlength, hlength, h]

/-- A part of an option list is not longer than the list. -/
theorem sum_length_le {os os' : List Opt} (h : os'.Sublist os) :
    (os'.map Opt.length).sum ≤ (os.map Opt.length).sum := by
  induction h with
  | slnil => exact Nat.le_refl _
  | cons o _ ih => exact Nat.le_trans ih (Nat.le_add_left _ o.length)
  | cons_cons o _ ih => exact Nat.add_le_add_left ih o.length

theorem packet_eq (code id : UInt8) (rs : List Opt) :
    packet code id (encode rs) =
      [code, id] ++ be16 (UInt16.ofNat (4 + (rs.map Opt.length).sum)) ++ encode rs := by
  rw [packet, length_encode, Nat.add_comm]
  rfl

/-! ## `lcp_check_request` -/

/-- A maximum receive unit of two octets and a character map with every bit of `accmMask` are
acceptable; the two options with other bodies are Nak'd, and any other option is Rejected. -/
def grade (o : Opt) : Usage :=
  if o.type = 1 then if o.body.length = 2 then .ack else .nak
  else if o.type = 2 then
    if o.body.length = 4 ∧ word32 o.body &&& accmMask = accmMask then .ack else .nak
  else .rej

theorem length_overread (value : List UInt8) (stack : Nat → UInt8) (n : Nat) :
    (overread value stack n).length = n := by
  rw [overread, List.length_map, List.length_range]

/-- The value that this side asks for stands for an option that is not acceptable. -/
theorem stands_overread {o : Opt} (value : List UInt8) (stack : Nat → UInt8) (ho : grade o = .nak) :
    ∃ o' : Opt, o'.body = overread value stack o.body.length ∧
      Stands (fun o => some (grade o)) o o' := by
  have hlen := length_overread value stack o.body.length
  refine ⟨⟨o.type, overread value stack o.body.length, ?_⟩, rfl, ?_, ?_⟩
  · rw [hlen]
    exact o.short
  · show (o.type, (overread value stack o.body.length).length + 2) = (o.type, o.body.length + 2)
    rw [hlen]
  · intro hne
    exact absurd (congrArg some ho) hne

/-- Every 16-bit number passes the check of the maximum receive unit. -/
theorem mru_passes (mru : UInt16) : mru ≥ 64 ∨ mru ≤ 1500 := by
  rcases UInt16.le_total 64 mru with h | h
  · exact .inl h
  · exact .inr (UInt16.le_trans h (by decide))

/-- `lcp_check_request` frames each option by its grade. -/
theorem checkOption_frame (stack : Nat → UInt8) (c : Check) (o : Opt) :
    ∃ o', Stands (fun o => some (grade o)) o o' ∧
      (checkOption stack c o.type o.body).toReply = c.toReply.frame o.type o'.body
      (some (grade o)) := by
  have hself : Stands (fun o => some (grade o)) o o := ⟨rfl, fun _ => rfl⟩
  rw [checkOption]
  by_cases htype : o.type = 1
  · by_cases hlen : o.body.length = 2
    · have hgrade : grade o = .ack := by rw [grade, if_pos htype, if_pos hlen]
      rw [if_pos htype, if_pos ⟨hlen, mru_passes _⟩, hgrade]
      exact ⟨o, hself, rfl⟩
    · have hgrade : grade o = .nak := by rw [grade, if_pos htype, if_neg hlen]
      obtain ⟨o', hbody, hstands⟩ := stands_overread (be16 c.mru) stack hgrade
      rw [if_pos htype, if_neg (fun h => hlen h.1), hgrade, ← hbody]
      exact ⟨o', hstands, rfl⟩
  rw [if_neg htype]
  by_cases htype' : o.type = 2
  · by_cases haccm : o.body.length = 4 ∧ word32 o.body &&& accmMask = accmMask
    · have hgrade : grade o = .ack := by rw [grade, if_neg htype, if_pos htype', if_pos haccm]
      rw [if_pos htype', if_pos haccm, hgrade]
      exact ⟨o, hself, rfl⟩
    · have hgrade : grade o = .nak := by rw [grade, if_neg htype, if_pos htype', if_neg haccm]
      obtain ⟨o', hbody, hstands⟩ := stands_overread (be32 accmMask) stack hgrade
      rw [if_pos htype', if_neg haccm, hgrade, ← hbody]
      exact ⟨o', hstands, rfl⟩
  · have hgrade : grade o = .rej := by rw [grade, if_neg htype, if_neg htype']
    rw [if_neg htype', hgrade]
    exact ⟨o, hself, rfl⟩

theorem answers_lcpCheckRequest {os : List Opt} (hp : p.Carries os) (s : Ppp) :
    Answers (fun o => some (grade o)) os (lcpCheckRequest p s).toReply := by
  have hfold := answers_foldl (fun o => some (grade o)) Check.toReply (checkOption p.stack)
    (checkOption_frame p.stack) (c := { mru := s.piMru, accm := s.piAccm }) rfl os
  rw [lcpCheckRequest, hp.sz, checkRequest_encode os (Nat.le_refl _) hp.holds]
  exact hfold

/-- What a Configure-Request leaves in `pi_send`. -/
theorem sendPacket_confReq {s : Ppp} (hcode : p.rcode = 1)
    (hlen : p.rlen.toNat ≤ p.nbNetworkSize) :
    (step s (.packet p)).sendPacket =
      packet (lcpCheckRequest p s).code p.rid (lcpCheckRequest p s).options := by
  rcases step_handled s (.packet p) with hignores | ⟨t, s₁, hraises, heq⟩
  · generalize step s (.packet p) = s' at hignores
    cases hignores with
    | long _ hlong => exact absurd hlen (Nat.not_le_of_lt hlong)
    | other _ _ hother =>
      rw [hcode] at hother
      exact absurd hother (by decide)
    | discard _ _ hother =>
      rw [hcode] at hother
      exact absurd hother (by decide)
  · rw [heq, sendPacket_handleEvent, hraises.sendPacket, replyTo, if_pos hcode]

/-- **The reply to a Configure-Request.** It has the code of the gravest grade among the options of
the request and the request's identifier; its options stand for those of that grade, in their order,
with their types and lengths, and are those options themselves unless they are Naks; its length
field is its length, and not more than the length of the request. -/
theorem configure_reply (p : Packet) (s : Ppp) (os : List Opt) (hp : p.Carries os) :
    let c := lcpCheckRequest p s
    let usage := gravest (fun o => some (grade o)) os
    let kept := os.filter fun o => grade o = usage
    let reply := packet c.code p.rid c.options
    let size := 4 + (kept.map Opt.length).sum
    c.parseState = usage ∧
      (∃ rs : List Opt,
        reply = [usage.code, p.rid] ++ be16 (UInt16.ofNat size) ++ encode rs ∧
        rs.map Opt.head = kept.map Opt.head ∧ (usage ≠ .nak → rs = kept)) ∧
      reply.length = size ∧ size ≤ p.rlen.toNat ∧ (UInt16.ofNat size).toNat = size ∧
      (p.rcode = 1 → p.rlen.toNat ≤ p.nbNetworkSize → (step s (.packet p)).sendPacket = reply) := by
  intro c usage kept reply size
  have hanswers := answers_lcpCheckRequest hp s
  obtain ⟨rs, hrs, hstands⟩ := hanswers.options
  have hkept : ofDegree (fun o => some (grade o)) usage os = kept := by
    simp [ofDegree, kept]
  rw [show gravest (fun o => some (grade o)) os = usage from rfl, hkept] at hstands
  have hhead := Stands.head_eq hstands
  have hsum := sum_length_eq hhead
  have hreply : reply = [usage.code, p.rid] ++ be16 (UInt16.ofNat size) ++ encode rs := by
    have hcode : c.code = usage.code := hanswers.coded.trans (congrArg Usage.code hanswers.state)
    show packet c.code p.rid c.options = _
    rw [hrs, packet_eq, hsum, hcode]
  have hsize : size ≤ p.rlen.toNat := by
    rw [hp.size, length_encode]
    exact Nat.add_le_add_left (sum_length_le List.filter_sublist) 4
  refine ⟨hanswers.state, ⟨rs, hreply, hhead, fun hne => ?_⟩, ?_, hsize, ?_, sendPacket_confReq⟩
  · refine Stands.eq_of_forall hstands fun o ho => ?_
    rw [of_decide_eq_true (List.mem_filter.mp ho).2]
    exact fun h => hne (Option.some.inj h)
  · rw [hreply, List.length_append, length_encode, hsum]
    rfl
  · exact UInt16.toNat_ofNat_of_lt' (Nat.lt_of_le_of_lt hsize p.rlen.toNat_lt)

/-- An acceptable option, one that is Nak'd and two that are Rejected: the reply has the last
two. -/
theorem configure_reply_mixed :
    let os : List Opt :=
      [⟨1, [5, 220], by decide⟩, ⟨1, [0], by decide⟩, ⟨5, [1, 2], by decide⟩, ⟨7, [], by decide⟩]
    let c := lcpCheckRequest (Packet.ofData 1 9 (encode os)) {}
    c.parseState = .rej ∧ packet c.code 9 c.options = [4, 9, 0, 10, 5, 4, 1, 2, 7, 2] := by
  intro os c
  obtain ⟨hstate, ⟨rs, hreply, -, hrs⟩, -⟩ :=
    configure_reply (Packet.ofData 1 9 (encode os)) {} os (carries_ofData 1 9 os (by decide))
  refine ⟨hstate, hreply.trans ?_⟩
  rw [hrs (by decide)]
  decide

end Liquorice.Lcp
