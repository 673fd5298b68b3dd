import Liquorice.Lcp.Model

/-!
# The options of a packet

The loops over the options of a request and of a reply, as induction rules: what every option keeps,
the loop keeps. The code of a reply to a request follows from what `pi_parse_state` has become.
-/

namespace Liquorice.Lcp

variable {p : Packet} {s : Ppp} {body : List UInt8}

/-- A packet that is as long as it says, with nothing behind it. -/
def Packet.ofData (rcode rid : UInt8) (data : List UInt8) : Packet where
  rcode := rcode
  rid := rid
  rlen := UInt16.ofNat (data.length + 4)
  nbNetworkSize := data.length + 4
  behind i := data.getD i 0

section Loops

variable {γ σ : Type} {f : γ → UInt8 → List UInt8 → γ} {rej : γ → UInt8 → γ} {P : γ → Prop}

/-- The options that a loop comes across: type and body, up to the first one whose length is
wrong. -/
def optionList (mem : Nat → UInt8) : Nat → Nat → Nat → List (UInt8 × List UInt8)
  | 0, _, _ => []
  | rounds + 1, buf, sz =>
    if sz < 2 then []
    else
      let optsz := (mem (buf + 1)).toNat
      if optsz > sz ∨ optsz < 2 then []
      else (mem buf, octets mem (buf + 2) (optsz - 2)) :: optionList mem rounds (buf + optsz)
        (sz - optsz)

/-- The options of a packet. -/
def Packet.options (p : Packet) : List (UInt8 × List UInt8) := optionList p.behind p.sz 0 p.sz

/-- The loop over a reply goes through the options. -/
theorem checkReply_eq (f : σ → UInt8 → List UInt8 → σ) (rounds buf sz : Nat) (s : σ) :
    checkReply f p rounds buf sz s = (optionList p.behind rounds buf sz).foldl
      (fun s o => f s o.1 o.2) s := by
  induction rounds generalizing buf sz s with
  | zero => rfl
  | succ rounds ih =>
    rw [checkReply, optionList]
    split
    · rfl
    dsimp only
    split
    · rfl
    · exact ih _ _ _

/-- The loop over a request goes through the options, and deals with one behind them whose length is
wrong. -/
theorem checkRequest_eq (rej : γ → UInt8 → γ) (f : γ → UInt8 → List UInt8 → γ)
    (rounds buf sz : Nat) (c : γ) :
    let c' := (optionList p.behind rounds buf sz).foldl (fun c o => f c o.1 o.2) c
    checkRequest rej f p rounds buf sz c = c' ∨ ∃ opt, checkRequest rej f p rounds buf sz c =
        rej c' opt := by
  induction rounds generalizing buf sz c with
  | zero => exact .inl rfl
  | succ rounds ih =>
    rw [checkRequest, optionList]
    split
    · exact .inl rfl
    dsimp only
    split
    · exact .inr ⟨_, rfl⟩
    · exact ih _ _ _

/-- What every option of a request keeps, the loop keeps. -/
theorem checkRequest_options {rounds buf sz : Nat}
    (hrej : ∀ c opt, P c → P (rej c opt))
    (hopt : ∀ o ∈ optionList p.behind rounds buf sz, ∀ c, P c → P (f c o.1 o.2)) {c : γ} (h : P c) :
    P (checkRequest rej f p rounds buf sz c) := by
  have hfold := List.foldlRecOn _ (fun c o => f c o.1 o.2) h fun c hc o ho => hopt o ho c hc
  rcases checkRequest_eq rej f rounds buf sz c with heq | ⟨opt, heq⟩
  · exact heq ▸ hfold
  · exact heq ▸ hrej _ opt hfold

theorem checkRequest_induction
    (hrej : ∀ c opt, P c → P (rej c opt)) (hopt : ∀ c opt body, P c → P (f c opt body))
    (rounds buf sz : Nat) {c : γ} (h : P c) : P (checkRequest rej f p rounds buf sz c) :=
  checkRequest_options hrej (fun o _ c => hopt c o.1 o.2) h

/-- What every option of a reply keeps, the loop keeps. -/
theorem checkReply_induction {f : σ → UInt8 → List UInt8 → σ} {P : σ → Prop}
    (hopt : ∀ s opt body, P s → P (f s opt body)) (rounds buf sz : Nat) {s : σ} (h : P s) :
    P (checkReply f p rounds buf sz s) := by
  rw [checkReply_eq]
  exact List.foldlRecOn _ _ h fun s hs o _ => hopt s o.1 o.2 hs

/-- A loop in which an option may set a value leaves the last one that is set. -/
theorem foldl_getLastD {α β : Type} {val : γ → α} {g : β → Option α} {f : γ → β → γ}
    (hf : ∀ c o, val (f c o) = (g o).getD (val c)) (l : List β) (c : γ) :
    val (l.foldl f c) = (l.filterMap g).getLastD (val c) := by
  induction l generalizing c with
  | nil => rfl
  | cons o l ih =>
    rw [List.foldl_cons, ih, hf, List.filterMap_cons]
    cases g o with
    | none => rfl
    | some v => rw [Option.getD_some, List.getLastD_cons]

/-- The same of a request. -/
theorem checkRequest_getLastD {α : Type} (val : γ → α) {g : UInt8 × List UInt8 → Option α}
    (hrej : ∀ c opt, val (rej c opt) = val c) (hf : ∀ c o, val (f c o.1 o.2) = (g o).getD (val c))
    (c : γ) :
    val (checkRequest rej f p p.sz 0 p.sz c) = (p.options.filterMap g).getLastD (val c) := by
  rw [← foldl_getLastD (f := fun c o => f c o.1 o.2) hf]
  rcases checkRequest_eq rej f p.sz 0 p.sz c with heq | ⟨opt, heq⟩
  · rw [heq]
    rfl
  · rw [heq, hrej]
    rfl

end Loops

/-- The code of the reply that goes with `pi_parse_state`. -/
def Usage.code : Usage → UInt8
  | .ack => 2
  | .nak => 3
  | .rej => 4

namespace Reply

variable {r : Reply} {opt : UInt8} {body : List UInt8}

@[simp] theorem frameRej_parseState : (r.frameRej opt body).parseState = .rej := by
  rw [frameRej]
  split
  · rfl
  · rename_i h
    exact of_not_not h

theorem frameNak_parseState : (r.frameNak opt body).parseState ≠ .ack := by
  rw [frameNak]
  split
  · split <;> exact fun h => by cases h
  · rename_i h
    split <;> exact h

@[simp] theorem frameAck_parseState : (r.frameAck opt body).parseState = r.parseState := by
  rw [frameAck]
  split <;> rfl

/-- The code of the reply is the one that goes with `pi_parse_state`. -/
def Coded (r : Reply) : Prop := r.code = r.parseState.code

theorem coded_frameRej (h : r.Coded) : (r.frameRej opt body).Coded := by
  rw [frameRej]
  split
  · rfl
  · exact h

theorem coded_frameNak (h : r.Coded) : (r.frameNak opt body).Coded := by
  rw [frameNak]
  split
  · split <;> rfl
  · split <;> exact h

theorem coded_frameAck (h : r.Coded) : (r.frameAck opt body).Coded := by
  rw [frameAck]
  split <;> exact h

end Reply

/-- **The code of the reply to a request follows from `pi_parse_state`.** -/
theorem lcpCheckRequest_code :
    (lcpCheckRequest p s).code = (lcpCheckRequest p s).parseState.code := by
  refine checkRequest_induction (P := fun c : Check => c.Coded)
    (fun c opt => Reply.coded_frameRej) ?_ _ _ _ rfl
  intro c opt body h
  rw [checkOption]
  split
  · dsimp only
    split
    · exact Reply.coded_frameAck h
    · exact Reply.coded_frameNak h
  split
  · dsimp only
    split
    · exact Reply.coded_frameAck h
    · exact Reply.coded_frameNak h
  · exact Reply.coded_frameRej h

/-! ## What the options of a reply set -/

/-- The state but for the options. -/
def besideOptions (s : Ppp) : Ppp :=
    { s with piMru := 0, piMruUsage := .ack, piAccm := 0, piAccmUsage := .ack }

theorem eq_of_besideOptions {s' : Ppp} (h : besideOptions s' = besideOptions s) :
    s' = { s with
      piMru := s'.piMru, piMruUsage := s'.piMruUsage, piAccm := s'.piAccm,
      piAccmUsage := s'.piAccmUsage } := by
  cases s
  cases s'
  simp only [besideOptions, Ppp.mk.injEq] at h ⊢
  simp [h]

theorem besideOptions_ackOption {opt : UInt8} :
    besideOptions (ackOption s opt body) = besideOptions s := by
  rw [ackOption]
  split
  · dsimp only
    split <;> rfl
  split
  · dsimp only
    split <;> rfl
  · rfl

theorem besideOptions_rejectOption {opt : UInt8} :
    besideOptions (rejectOption s opt body) = besideOptions s := by
  rw [rejectOption]
  split
  · rfl
  split <;> rfl

theorem besideOptions_lcpCheckAck : besideOptions (lcpCheckAck p s) = besideOptions s :=
  checkReply_induction (P := fun s' => besideOptions s' = besideOptions s)
    (fun _ _ _ h => besideOptions_ackOption.trans h) _ _ _ rfl

theorem lcpCheckAck_frame : lcpCheckAck p s = { s with
    piMru := (lcpCheckAck p s).piMru, piMruUsage := (lcpCheckAck p s).piMruUsage
    piAccm := (lcpCheckAck p s).piAccm, piAccmUsage := (lcpCheckAck p s).piAccmUsage } :=
  eq_of_besideOptions besideOptions_lcpCheckAck

theorem besideOptions_lcpCheckReject : besideOptions (lcpCheckReject p s) = besideOptions s :=
  checkReply_induction (P := fun s' => besideOptions s' = besideOptions s)
    (fun _ _ _ h => besideOptions_rejectOption.trans h) _ _ _ rfl

theorem lcpCheckReject_frame : lcpCheckReject p s = { s with
    piMru := (lcpCheckReject p s).piMru, piMruUsage := (lcpCheckReject p s).piMruUsage
    piAccm := (lcpCheckReject p s).piAccm, piAccmUsage := (lcpCheckReject p s).piAccmUsage } :=
  eq_of_besideOptions besideOptions_lcpCheckReject

end Liquorice.Lcp
