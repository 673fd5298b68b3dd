import Liquorice.Tcp.Table

/-!
# Retransmission timeouts

`calc_round_trip` keeps an average, scaled by 8, and a variance, scaled by 4, in words of 32 bits.
Each is a sum from which a fraction of itself is taken and to which the new sample is added, so that
samples below 2^28 keep them below 2^31 and 2^30, and a positive variance stays positive: the
differences that the code forms with a sign come out as they would in numbers without bound.

The timeout is then shifted left by the number of retransmissions. As long as that fits into 32
bits, the values that `tcp_tick_retransmit` loads for one segment grow up to the limit; but nothing
in the code ends the retransmissions, and after thirty of them a timeout of three seconds is shifted
out of the word.
-/

namespace Liquorice.Tcp

open Run Threads Threads.Prog Socket

variable {allow : Occasion → Prop} {s s' : Socket} {vs : List (UInt32 × UInt32)} {ti : TcpInstance}

attribute [local simp] transmit backoff deref

/-! ## Smoothing -/

/-- A sum that loses the fraction `1 / n` of itself, and gains a sample. -/
def smooth (n x sample : Nat) : Nat := x - x / n + sample

/-- Samples of at most `b` keep the sum below `n * (b + 1)`. -/
theorem smooth_lt {n x sample b : Nat} (hn : 0 < n) (hx : x < n * (b + 1)) (hsample : sample ≤ b) :
    smooth n x sample < n * (b + 1) := by
  have hdiv : x / n ≤ b := Nat.lt_succ_iff.mp (Nat.div_lt_of_lt_mul hx)
  have hrest : n * (x / n) + x % n = x := Nat.div_add_mod x n
  have hmod : x % n < n := Nat.mod_lt x hn
  -- the sum is `n * q + r`, and becomes `(n - 1) * q + r + sample`
  obtain ⟨m, rfl⟩ : ∃ m, n = m + 1 := ⟨n - 1, by omega⟩
  have hq : m * (x / (m + 1)) ≤ m * b := Nat.mul_le_mul_left m hdiv
  rw [smooth]
  rw [Nat.succ_mul] at hrest
  rw [Nat.succ_mul, Nat.mul_succ]
  omega

theorem smooth_pos {n x sample : Nat} (hn : 1 < n) (hx : 0 < x) : 0 < smooth n x sample :=
  Nat.add_pos_left (Nat.sub_pos_of_lt (Nat.div_lt_self hx hn)) sample

/-! ## The code's arithmetic -/

/-- The distance of two numbers, the code's `ticks` without its sign. -/
theorem toNat_abs_sub {t q : UInt32} (ht : t.toNat < 2 ^ 28) (hq : q.toNat < 2 ^ 28) :
    (if t - q ≥ 0x80000000 then 0 - (t - q) else t - q).toNat =
      (t.toNat - q.toNat) + (q.toNat - t.toNat) := by
  have hhalf : (0x80000000 : UInt32).toNat = 2147483648 := rfl
  have hsub : (t - q).toNat = (2 ^ 32 - q.toNat + t.toNat) % 2 ^ 32 := UInt32.toNat_sub ..
  split
  · rename_i hneg
    rw [ge_iff_le, UInt32.le_iff_toNat_le, hhalf, hsub] at hneg
    rw [UInt32.toNat_sub, hsub, UInt32.toNat_zero]
    omega
  rename_i hpos
  rw [ge_iff_le, UInt32.le_iff_toNat_le, hhalf, hsub] at hpos
  rw [hsub]
  omega

/-- The code adds the difference between a sample and the fraction. -/
theorem toNat_smooth {x t q : UInt32} {n : Nat} (hq : q.toNat = x.toNat / n)
    (hx : x.toNat < 2 ^ 31) (ht : t.toNat < 2 ^ 28) :
    (x + (t - q)).toNat = smooth n x.toNat t.toNat := by
  have hle : x.toNat / n ≤ x.toNat := Nat.div_le_self ..
  rw [UInt32.toNat_add, UInt32.toNat_sub, hq, smooth]
  omega

theorem toNat_shiftLeft {x : UInt32} {n : UInt16} (h : x.toNat <<< n.toNat < 2 ^ 32) :
    (shiftLeft x n).toNat = x.toNat * 2 ^ n.toNat := by
  rw [shiftLeft, UInt32.toNat_ofNat_of_lt' h, Nat.shiftLeft_eq]

theorem toNat_capped (x : UInt32) : (if x > maxTimeout then maxTimeout else x).toNat =
    min x.toNat 24000 := by
  have hmax : maxTimeout.toNat = 24000 := rfl
  split
  · rename_i h
    rw [gt_iff_lt, UInt32.lt_iff_toNat_lt, hmax] at h
    rw [hmax]
    omega
  · rename_i h
    rw [gt_iff_lt, UInt32.lt_iff_toNat_lt, hmax] at h
    omega

/-! ## The estimate -/

/-- What the round-trip times of a socket keep to. -/
structure Estimate (r : RoundTrip) : Prop where
  pos : 0 < r.tsRtoNext.toNat
  le : r.tsRtoNext.toNat ≤ 24000
  avg : r.tsSrttAvg.toNat < 2 ^ 31
  varPos : 0 < r.tsSrttVar.toNat
  var : r.tsSrttVar.toNat < 2 ^ 30

/-- The timeout is made of the average and the variance, and limited. -/
theorem estimate_of_sums {avg var : UInt32} (havg : avg.toNat < 2 ^ 31) (hpos : 0 < var.toNat)
    (hvar : var.toNat < 2 ^ 30) :
    Estimate ⟨if (avg >>> 3) + var > maxTimeout then maxTimeout else (avg >>> 3) + var,
      avg, var⟩ := by
  have hshift : (avg >>> 3).toNat = avg.toNat / 8 := by
    rw [UInt32.toNat_shiftRight, Nat.shiftRight_eq_div_pow]
    rfl
  have hsum : ((avg >>> 3) + var).toNat = avg.toNat / 8 + var.toNat := by
    rw [UInt32.toNat_add, hshift]
    omega
  refine ⟨?_, ?_, havg, hpos, hvar⟩
  · rw [toNat_capped, hsum]
    omega
  · rw [toNat_capped]
    exact Nat.min_le_right ..

/-- A first sample sets the sums. -/
theorem estimate_first {t : UInt32} (hpos : 0 < t.toNat) (ht : t.toNat < 2 ^ 28) :
    ((t <<< 2) <<< 1).toNat < 2 ^ 31 ∧ 0 < (t <<< 2).toNat ∧ (t <<< 2).toNat < 2 ^ 30 := by
  have hvar : (t <<< 2).toNat = t.toNat * 4 := by
    rw [UInt32.toNat_shiftLeft, Nat.shiftLeft_eq]
    show t.toNat * 4 % 2 ^ 32 = t.toNat * 4
    omega
  have havg : ((t <<< 2) <<< 1).toNat = t.toNat * 8 := by
    rw [UInt32.toNat_shiftLeft, Nat.shiftLeft_eq, hvar]
    show t.toNat * 4 * 2 % 2 ^ 32 = t.toNat * 8
    omega
  omega

/-- A later sample moves them. -/
theorem Estimate.next {r : RoundTrip} (h : Estimate r) {t : UInt32} (ht : t.toNat < 2 ^ 28) :
    let d := t - (r.tsSrttAvg >>> 3)
    let dist := if d ≥ 0x80000000 then 0 - d else d
    (r.tsSrttAvg + d).toNat < 2 ^ 31 ∧ 0 < (r.tsSrttVar + (dist - (r.tsSrttVar >>> 2))).toNat ∧
      (r.tsSrttVar + (dist - (r.tsSrttVar >>> 2))).toNat < 2 ^ 30 := by
  intro d dist
  have havg := h.avg
  have hvar := h.var
  have hq : (r.tsSrttAvg >>> 3).toNat = r.tsSrttAvg.toNat / 8 := by
    rw [UInt32.toNat_shiftRight, Nat.shiftRight_eq_div_pow]
    rfl
  have hv : (r.tsSrttVar >>> 2).toNat = r.tsSrttVar.toNat / 4 := by
    rw [UInt32.toNat_shiftRight, Nat.shiftRight_eq_div_pow]
    rfl
  have hdist : dist.toNat < 2 ^ 28 := by
    have habs := toNat_abs_sub ht (q := r.tsSrttAvg >>> 3) (by omega)
    show (if t - (r.tsSrttAvg >>> 3) ≥ 0x80000000 then (0 : UInt32) - (t - (r.tsSrttAvg >>> 3))
      else t - (r.tsSrttAvg >>> 3)).toNat < 2 ^ 28
    omega
  rw [toNat_smooth hq havg ht, toNat_smooth hv (by omega) hdist]
  refine ⟨?_, smooth_pos (by decide) h.varPos, ?_⟩
  · have hlt : smooth 8 r.tsSrttAvg.toNat t.toNat < 8 * (268435455 + 1) :=
      smooth_lt (by decide) (by omega) (by omega)
    omega
  · have hlt : smooth 4 r.tsSrttVar.toNat dist.toNat < 4 * (268435455 + 1) :=
      smooth_lt (by decide) (by omega) (by omega)
    omega

theorem Estimate.shifted {r : RoundTrip} (h : Estimate r) {n : UInt16}
    (hfits : r.tsRtoNext.toNat <<< n.toNat < 2 ^ 32) :
    Estimate { r with
      tsRtoNext := if shiftLeft r.tsRtoNext n > maxTimeout then maxTimeout
          else shiftLeft r.tsRtoNext n } := by
  refine ⟨?_, ?_, h.avg, h.varPos, h.var⟩
  · rw [toNat_capped, toNat_shiftLeft hfits]
    exact Nat.lt_min.mpr ⟨Nat.mul_pos h.pos (Nat.two_pow_pos _), by decide⟩
  · rw [toNat_capped]
    exact Nat.min_le_right ..

/-- `calc_round_trip` keeps the estimate. -/
theorem Estimate.nextRoundTrip (h : Estimate s.rtt) (htime : s.InTime)
    (hfits : s.acked ∨ s.Fits) : Estimate s.nextRoundTrip := by
  rw [Socket.nextRoundTrip]
  split
  · exact h
  rename_i hacked
  split
  · exact h.shifted (hfits.resolve_left hacked)
  rename_i honce
  have hlt : (s.jiffies - s.tsSendJiffies).toNat < 2 ^ 28 :=
    (htime.resolve_left hacked).resolve_left honce
  generalize s.jiffies - s.tsSendJiffies = ticks at hlt
  obtain ⟨t, ht⟩ : ∃ t, (if ticks = 0 then 1 else ticks) = t := ⟨_, rfl⟩
  have hpos : 0 < t.toNat ∧ t.toNat < 2 ^ 28 := by
    rw [← ht]
    split
    · decide
    · rename_i hne
      refine ⟨Nat.pos_of_ne_zero fun hzero => hne ?_, hlt⟩
      exact UInt32.toNat_inj.mp hzero
  simp only [ht]
  split
  · obtain ⟨h₁, h₂, h₃⟩ := estimate_first hpos.1 hpos.2
    exact estimate_of_sums h₁ h₂ h₃
  · obtain ⟨h₁, h₂, h₃⟩ := h.next hpos.2
    exact estimate_of_sums h₁ h₂ h₃

/-! ## The timer -/

/-- What a socket has loaded into its timer is no more than what comes next for the same segment. -/
structure Paced (s : Socket) : Prop where
  rtt : Estimate s.rtt
  held : s.retransTiming → ∃ nb, s.tsAwaitingAck = some ⟨nb, 1⟩
  loaded : s.retransTiming → s.tsRetransmits ≠ 0 → s.Fits →
    s.tsWaitTimer.osTicksLeft.toNat ≤ s.backoff.toNat

/-- The occasions on which the timeouts keep to it. -/
structure Timely (allow : Occasion → Prop) : Prop where
  longTrip : ¬ allow .longTrip
  overflow : ¬ allow .overflow

theorem Timely.nextRoundTrip (hallow : Timely allow) (h : Estimate s.rtt)
    (hmeasured : s.Measured allow) :
    Estimate s.nextRoundTrip :=
  h.nextRoundTrip (hmeasured.1.resolve_right hallow.longTrip)
    (hmeasured.2.resolve_right hallow.overflow)

theorem toNat_backoff (hfits : s.Fits) :
    s.backoff.toNat = min (s.tsRtoNext.toNat * 2 ^ s.tsRetransmits.toNat) 24000 := by
  rw [backoff, toNat_capped, toNat_shiftLeft hfits]

section

open scoped Unfolded

attribute [local simp] TcpState.receives TcpState.acks

theorem Paced.rtt_move (h : Paced s) (hallow : Timely allow) (hmove : Move allow s s') :
    Estimate s'.rtt := by
  have hrtt := h.rtt
  have hnext : s.Measured allow → Estimate s.nextRoundTrip := hallow.nextRoundTrip hrtt
  cases hmove with
  | note => exact hrtt
  | _ => simp_all

theorem Paced.held_move (h : Paced s) (hmove : Move allow s s') :
    s'.retransTiming → ∃ nb, s'.tsAwaitingAck = some ⟨nb, 1⟩ := by
  have hheld := h.held
  cases hmove with
  | note => exact hheld
  | _ => simp_all

/-- A positive timeout fits for fewer than 32 shifts only, so that the count does not wrap. -/
theorem toNat_retransmits_succ (hpos : 0 < s.tsRtoNext.toNat) (hfits : s.Fits) :
    (s.tsRetransmits + 1).toNat = s.tsRetransmits.toNat + 1 := by
  have hlt : s.tsRtoNext.toNat * 2 ^ s.tsRetransmits.toNat < 2 ^ 32 := by
    have hshift : s.tsRtoNext.toNat <<< s.tsRetransmits.toNat < 2 ^ 32 := hfits
    rwa [Nat.shiftLeft_eq] at hshift
  have hpow : 2 ^ s.tsRetransmits.toNat < 2 ^ 32 :=
    Nat.lt_of_le_of_lt (Nat.le_mul_of_pos_left _ hpos) hlt
  have hsmall : s.tsRetransmits.toNat < 32 := (Nat.pow_lt_pow_iff_right (by decide)).mp hpow
  rw [UInt16.toNat_add]
  show (s.tsRetransmits.toNat + 1) % 65536 = _
  omega

/-- One shift more doubles the timeout, up to the limit. -/
theorem backoff_retransmit (hpos : 0 < s.tsRtoNext.toNat) (hfits : s.Fits) {nb : Segment}
    (hfits' : (s.retransmit nb).Fits) : s.backoff.toNat ≤ (s.retransmit nb).backoff.toNat := by
  have hrtt : (s.retransmit nb).rtt = s.rtt := by simp
  have hcount : (s.retransmit nb).tsRetransmits = s.tsRetransmits + 1 := by simp
  rw [toNat_backoff hfits, toNat_backoff hfits', hrtt, hcount,
    toNat_retransmits_succ hpos hfits, Nat.pow_succ]
  have hle : s.tsRtoNext.toNat * 2 ^ s.tsRetransmits.toNat ≤
      s.tsRtoNext.toNat * (2 ^ s.tsRetransmits.toNat * 2) :=
    Nat.mul_le_mul_left _ (Nat.le_mul_of_pos_right _ (by decide))
  omega

/-- The timeout that an acknowledgement of a segment transmitted more than once leaves is shifted
once more. -/
theorem backoff_acked (hmeasured : s.acked ∨ s.Fits) (hcount : s.tsRetransmits ≠ 0) {a : UInt32}
    (hfits' : { s.calcRoundTrip with tsSndUna := a }.Fits) :
    s.Fits ∧ s.backoff.toNat ≤ { s.calcRoundTrip with tsSndUna := a }.backoff.toNat := by
  by_cases hacked : s.acked
  · have hrtt : s.nextRoundTrip = s.rtt := if_pos hacked
    have hsame : { s.calcRoundTrip with tsSndUna := a }.Fits ↔ s.Fits := by simp [Socket.Fits, hrtt]
    refine ⟨hsame.mp hfits', Nat.le_of_eq ?_⟩
    simp [hrtt]
  have hfits : s.Fits := hmeasured.resolve_left hacked
  refine ⟨hfits, ?_⟩
  have hrto : { s.calcRoundTrip with tsSndUna := a }.tsRtoNext = s.backoff := by
    show s.nextRoundTrip.tsRtoNext = s.backoff
    simp [Socket.nextRoundTrip, hacked, hcount]
  rw [toNat_backoff hfits', hrto]
  have hcap : s.backoff.toNat ≤ 24000 := by
    rw [backoff, toNat_capped]
    exact Nat.min_le_right ..
  exact Nat.le_min.mpr ⟨Nat.le_mul_of_pos_right _ (Nat.two_pow_pos _), hcap⟩

theorem Paced.loaded_move (h : Paced s) (hquiet : Quiet s) (hallow : Timely allow)
    (hmove : Move allow s s') :
    s'.retransTiming → s'.tsRetransmits ≠ 0 → s'.Fits →
      s'.tsWaitTimer.osTicksLeft.toNat ≤ s'.backoff.toNat := by
  have hloaded := h.loaded
  cases hmove with
  | note => exact hloaded
  | acked hstate hmeasured =>
    intro htiming hcount hfits'
    obtain ⟨hfits, hle⟩ := backoff_acked (hmeasured.2.resolve_right hallow.overflow) hcount hfits'
    exact Nat.le_trans (hloaded htiming hcount hfits) hle
  | @retransmit h' hcallback hlisted hrefs htiming hheld hone hfits =>
    intro _ _ hfits'
    have hvalue : (s.retransmit h'.segment).tsWaitTimer.osTicksLeft = s.backoff := by
      simp [Timer.attach]
    rw [hvalue]
    exact backoff_retransmit h.rtt.pos (hfits.resolve_right hallow.overflow) hfits'
  | rearm hcallback hlisted hrefs htiming hheld =>
    -- the netbuf that is outstanding has one reference
    obtain ⟨nb, hnb⟩ := h.held htiming
    exact absurd rfl (hheld _ hnb)
  | finTimeWait hstate => simp [hquiet.finWait2 hstate]
  | _ => simp_all [Socket.Fits]

/-- The socket times the segment that it timed before, and its timer was not loaded since. -/
def Kept (s s' : Socket) : Prop :=
  s'.retransTiming = true → s'.tsRetransmits ≠ 0 →
    s.retransTiming ∧ s.tsRetransmits ≠ 0 ∧
      s'.tsWaitTimer.osTicksLeft = s.tsWaitTimer.osTicksLeft

/-- Only the callback of the timer loads it again for the same segment. -/
theorem kept_move (hquiet : Quiet s) (hallow : ¬ allow .expiry) (hmove : Move allow s s') :
    Kept s s' := by
  rw [Kept]
  cases hmove with
  | note => exact fun htiming hcount => ⟨htiming, hcount, rfl⟩
  | finTimeWait hstate => simp [hquiet.finWait2 hstate]
  | _ => simp_all

end

theorem kept_moves (hquiet : Quiet s) (hallow : ¬ allow .expiry) (hmoves : Moves allow s s') :
    Kept s s' := by
  induction hmoves with
  | refl => exact fun htiming hcount => ⟨htiming, hcount, rfl⟩
  | tail hmoves hmove ih =>
    intro htiming hcount
    obtain ⟨htiming', hcount', hticks⟩ := kept_move (hquiet.moves hmoves) hallow
      hmove htiming hcount
    obtain ⟨htiming'', hcount'', hticks'⟩ := ih htiming' hcount'
    exact ⟨htiming'', hcount'', hticks.trans hticks'⟩

theorem Paced.move (h : Paced s) (hquiet : Quiet s) (hallow : Timely allow)
    (hmove : Move allow s s') :
    Paced s' :=
  ⟨h.rtt_move hallow hmove, h.held_move hmove, h.loaded_move hquiet hallow hmove⟩

theorem estimate_default : Estimate {} := by constructor <;> decide

theorem paced_silent (hrtt : s.rtt = {}) (htiming : s.retransTiming = false) : Paced s where
  rtt := hrtt ▸ estimate_default
  held h := absurd (htiming.symm.trans h) nofun
  loaded h := absurd (htiming.symm.trans h) nofun

theorem paced_syn {st : TcpState} {clash : Bool} {flags : CtrlFlags} (hrtt : s.rtt = {}) :
    Paced ((s.bound st clash).sendSyn flags) where
  rtt := by
    have hkept : ((s.bound st clash).sendSyn flags).rtt = s.rtt := by cases clash <;> rfl
    rw [hkept, hrtt]
    exact estimate_default
  held _ := ⟨_, rfl⟩
  loaded _ hcount := absurd rfl hcount

theorem paced_rule (hallow : Timely allow) : Rule allow Paced where
  unused := paced_silent rfl rfl
  listening clash := by cases clash <;> exact paced_silent rfl rfl
  connecting := paced_syn rfl
  requested s nb hlisten h := paced_silent rfl rfl
  accepting s clash hunbound hclash h := paced_syn hunbound.rtt
  rejected s hunbound h := by
    refine paced_silent ?_ ?_
    · simp [sendRst, hunbound.rtt]
    · simp [sendRst, hunbound.flags]
  move s s' hquiet hmove h := h.move hquiet hallow hmove

/-! ## The values loaded -/

/-- When the wait timer expires, `tcp_tick_retransmit` loads it again. -/
def Socket.Reloads (s : Socket) : Prop :=
  s.waitCallback = .retransmit ∧ 0 < s.tsWaitTimer.listed ∧ 1 < s.tsRefs ∧ s.retransTiming
  deriving Decidable

/-- The program of the event. -/
def expiredWait : M := do
  modify fun s => { s with tsWaitTimer := s.tsWaitTimer.expire }
  waitTimerCallback

theorem expiredWait_reloads (h : s.Reloads) {nb : Segment}
    (hheld : s.tsAwaitingAck = some ⟨nb, 1⟩) :
    (expiredWait.complete s).1.tsWaitTimer.osTicksLeft = s.backoff ∧
    (expiredWait.complete s).1.tsRetransmits = s.tsRetransmits + 1 := by
  obtain ⟨hcallback, hlisted, hrefs, htiming⟩ := h
  rw [expiredWait, complete_waitTimer hlisted, hcallback]
  dsimp only
  rcases tcpTickRetransmit_cases s.waitExpired with ⟨hidle, -⟩ | ⟨-, r, ⟨hnot, -⟩ | ⟨h, -, -, heq⟩⟩
  · exact absurd ⟨hrefs, htiming⟩ hidle
  · exact absurd rfl (hnot _ hheld)
  · rw [heq]
    simp [Timer.attach, Socket.waitExpired, ref]

theorem expiredWait_kept (h : ¬ s.Reloads) (hlisted : 0 < s.tsWaitTimer.listed) :
    Kept s (expiredWait.complete s).1 := by
  rw [expiredWait, complete_waitTimer hlisted]
  cases hcallback : s.waitCallback with
  | timeWait =>
    intro htiming hcount
    simp_all [Socket.waitExpired]
  | retransmit =>
    rcases tcpTickRetransmit_cases s.waitExpired with ⟨-, heq⟩ | ⟨hrun, -⟩
    · dsimp only
      rw [heq]
      exact fun htiming hcount => ⟨htiming, hcount, rfl⟩
    · exact absurd ⟨hcallback, hlisted, hrun⟩ h

namespace TcpInstance

variable {ti : TcpInstance} {e : Event} {i : Nat}

/-- The event makes `tcp_tick_retransmit` load the wait timer of the socket `i`. -/
def Reloads (ti : TcpInstance) (i : Nat) : Event → Prop
  | .waitTimer j => j = i ∧ (ti.socks i).Reloads
  | _ => False

instance (ti : TcpInstance) (i : Nat) (e : Event) : Decidable (ti.Reloads i e) := by
  induction e using Event.casesOn <;> unfold Reloads <;> infer_instance

/-- The values loaded for the segment that is outstanding after the event, each with the
`ts_rto_next` of then: the count of retransmissions is zero only from when a segment is first sent
until its timer expires. -/
def loadsAfter (ti : TcpInstance) (i : Nat) (vs : List (UInt32 × UInt32)) (e : Event) :
    List (UInt32 × UInt32) :=
  if ti.Reloads i e then
    vs ++ [((ti.socks i).tsRtoNext, ((ti.step e).socks i).tsWaitTimer.osTicksLeft)]
  else if ((ti.step e).socks i).tsRetransmits = 0 then [] else vs

/-- The values that `tcp_tick_retransmit` has loaded in a run, for the segment that is outstanding
at its end. -/
def loads (i : Nat) : TcpInstance → List (UInt32 × UInt32) → List Event → List (UInt32 × UInt32)
  | _, vs, [] => vs
  | ti, vs, e :: es => loads i (ti.step e) (ti.loadsAfter i vs e) es

theorem step_waitTimer (hlisted : 0 < (ti.socks i).tsWaitTimer.listed) :
    ((ti.step (.waitTimer i)).socks i).conn = (expiredWait.complete (ti.socks i).conn).1 := by
  simp only [TcpInstance.step, action, waitTimer, if_pos hlisted]
  exact conn_run_self

theorem step_waitTimer_of_ne {j : Nat} (hj : i ≠ j) :
    (ti.step (.waitTimer j)).socks i = ti.socks i := by
  simp only [TcpInstance.step, action, waitTimer]
  split
  · exact conn_run_of_ne hj
  · rfl

/-- An event that does not load the timer leaves it, or another segment is timed. -/
theorem kept_step (htable : ti.Table) (hload : ¬ ti.Reloads i e) :
    Kept (ti.socks i).conn ((ti.step e).socks i).conn := by
  have hsame : ∀ s : Socket, Kept s s := fun s htiming hcount => ⟨htiming, hcount, rfl⟩
  by_cases hexpiry : ti.Shows e .expiry
  · obtain ⟨j, rfl⟩ := event_of_shows_expiry hexpiry
    by_cases hj : i = j
    · subst hj
      by_cases hlisted : 0 < (ti.socks i).tsWaitTimer.listed
      · rw [step_waitTimer hlisted]
        exact expiredWait_kept (fun h => hload ⟨rfl, h⟩) hlisted
      · simp only [TcpInstance.step, action, waitTimer, if_neg hlisted]
        exact hsame _
    · rw [step_waitTimer_of_ne hj]
      exact hsame _
  · have hchange := (htable.step e).2 i
    generalize ((ti.step e).socks i).conn = s' at hchange ⊢
    cases hchange with
    | moves hmoves => exact kept_moves (htable.quiet i) hexpiry hmoves
    | listened => exact fun htiming => absurd htiming (by cases ‹Bool› <;> exact Bool.false_ne_true)
    | connected => exact fun _ hcount => absurd rfl hcount
    | requested => exact fun htiming => absurd htiming Bool.false_ne_true
    | accepted => exact fun _ hcount => absurd rfl hcount
    | rejected hunbound => exact fun htiming => absurd htiming (by simp [sendRst, hunbound.flags])

end TcpInstance

/-- The values loaded so far, and the socket. -/
structure Recorded (vs : List (UInt32 × UInt32)) (s : Socket) : Prop where
  sorted : vs.Pairwise fun p q => p.2 ≤ q.2
  bounded : ∀ p ∈ vs, p.1 ≤ p.2 ∧ p.2 ≤ maxTimeout
  fresh : s.tsRetransmits = 0 → vs = []
  last : s.retransTiming → s.tsRetransmits ≠ 0 → ∀ p ∈ vs, p.2 ≤ s.tsWaitTimer.osTicksLeft

theorem recorded_nil : Recorded [] s := ⟨.nil, nofun, fun _ => rfl, fun _ _ => nofun⟩

/-- The timer is not loaded. -/
theorem Recorded.kept (h : Recorded vs s) (hkept : Kept s s') :
    Recorded (if s'.tsRetransmits = 0 then [] else vs) s' := by
  split
  · exact recorded_nil
  rename_i hcount
  refine ⟨h.sorted, h.bounded, fun hzero => absurd hzero hcount, fun htiming _ p hp => ?_⟩
  obtain ⟨htiming', hcount', hticks⟩ := hkept htiming hcount
  rw [hticks]
  exact h.last htiming' hcount' p hp

/-- The timer is loaded once more. -/
theorem Recorded.loaded (h : Recorded vs s) (hpaced : Paced s)
    (htiming : s.retransTiming) (hfits : s.Fits)
    (hticks : s'.tsWaitTimer.osTicksLeft = s.backoff)
    (hcount : s'.tsRetransmits = s.tsRetransmits + 1) :
    Recorded (vs ++ [(s.tsRtoNext, s'.tsWaitTimer.osTicksLeft)]) s' := by
  have hle : ∀ p ∈ vs, p.2 ≤ s.backoff := by
    intro p hp
    by_cases hzero : s.tsRetransmits = 0
    · rw [h.fresh hzero] at hp
      cases hp
    · exact UInt32.le_trans (h.last htiming hzero p hp)
        (UInt32.le_iff_toNat_le.mpr (hpaced.loaded htiming hzero hfits))
  have hbounds : s.tsRtoNext ≤ s.backoff ∧ s.backoff ≤ maxTimeout := by
    have hmax : maxTimeout.toNat = 24000 := rfl
    rw [UInt32.le_iff_toNat_le, UInt32.le_iff_toNat_le, toNat_backoff hfits, hmax]
    exact ⟨Nat.le_min.mpr ⟨Nat.le_mul_of_pos_right _ (Nat.two_pow_pos _), hpaced.rtt.le⟩,
      Nat.min_le_right ..⟩
  rw [hticks]
  refine ⟨?_, ?_, fun hzero => ?_, fun _ _ p hp => ?_⟩
  · refine List.pairwise_append.mpr ⟨h.sorted, List.pairwise_singleton .., fun p hp q hq => ?_⟩
    rw [List.mem_singleton.mp hq]
    exact hle p hp
  · intro p hp
    rcases List.mem_append.mp hp with hp | hp
    · exact h.bounded p hp
    · rw [List.mem_singleton.mp hp]
      exact hbounds
  · have hsucc := toNat_retransmits_succ hpaced.rtt.pos hfits
    rw [← hcount, hzero] at hsucc
    exact absurd hsucc nofun
  · rw [hticks]
    rcases List.mem_append.mp hp with hp | hp
    · exact hle p hp
    · rw [List.mem_singleton.mp hp]
      exact UInt32.le_refl _

/-! ## Runs -/

/-- The occasions on which the timeouts get out of bounds. -/
def untimely : List Occasion := [.longTrip, .overflow]

theorem timely_untimely : Timely (· ∉ untimely) := ⟨by decide, by decide⟩

theorem Recorded.step {e : TcpInstance.Event} {i : Nat}
    (htable : ti.Table) (hpaced : Paced (ti.socks i).conn) (havoid : ti.Avoids untimely e)
    (h : Recorded vs (ti.socks i).conn) :
    Recorded (ti.loadsAfter i vs e) ((ti.step e).socks i).conn := by
  rw [TcpInstance.loadsAfter]
  split
  · rename_i hload
    cases e with
    | waitTimer j =>
      obtain ⟨rfl, hreloads⟩ := hload
      have htiming := hreloads.2.2.2
      have hfits : (ti.socks j).Fits := by
        by_contra hnot
        exact havoid .overflow (by decide) (.inr ⟨rfl, htiming, hnot⟩)
      obtain ⟨nb, hheld⟩ := hpaced.held htiming
      obtain ⟨hticks, hcount⟩ := expiredWait_reloads hreloads hheld
      rw [← TcpInstance.step_waitTimer hreloads.2.1] at hticks hcount
      exact h.loaded hpaced htiming hfits hticks hcount
    | _ => exact hload.elim
  · rename_i hload
    exact h.kept (TcpInstance.kept_step htable hload)

theorem recorded_loads {es : List TcpInstance.Event} {i : Nat}
    (htable : ti.Table) (hpaced : ti.ForallConn Paced)
    (hrun : Along TcpInstance.step (fun ti e => ti.Avoids untimely e) ti es)
    (h : Recorded vs (ti.socks i).conn) :
    Recorded (ti.loads i vs es) ((exec TcpInstance.step ti es).socks i).conn := by
  induction es generalizing ti vs with
  | nil => exact h
  | cons e es ih =>
    have hshows : ∀ f, ti.Shows e f → f ∉ untimely := fun f hshow hf => hrun.1 f hf hshow
    exact ih (htable.step e).1 ((paced_rule timely_untimely).step htable hshows hpaced) hrun.2
      (h.step htable (hpaced i) hrun.1)

/-- **Retransmission timeouts stay bounded and back off**, as long as no round trip of 2^28 ticks or
more is measured and the shifted timeouts fit into 32 bits: `ts_rto_next` lies between 1 and 240
seconds, and the values that `tcp_tick_retransmit` loads for one segment do not decrease, are at
least `ts_rto_next` and at most 240 seconds. -/
theorem timeouts_bounded (es : List TcpInstance.Event)
    (hrun : Along TcpInstance.step (fun ti e => ti.Avoids untimely e) tcpInstanceAlloc es)
      (i : Nat) :
    let rto := ((exec TcpInstance.step tcpInstanceAlloc es).socks i).tsRtoNext
    let vs := tcpInstanceAlloc.loads i [] es
    (1 ≤ rto ∧ rto ≤ maxTimeout) ∧ (vs.Pairwise fun p q => p.2 ≤ q.2) ∧
      ∀ p ∈ vs, p.1 ≤ p.2 ∧ p.2 ≤ maxTimeout := by
  intro rto vs
  have hpaced : Paced ((exec TcpInstance.step tcpInstanceAlloc es).socks i).conn :=
    (paced_rule timely_untimely).exec_avoiding hrun i
  have hrecorded : Recorded vs _ :=
    recorded_loads TcpInstance.table_alloc (fun _ => (paced_rule timely_untimely).unused)
      hrun recorded_nil
  refine ⟨⟨UInt32.le_iff_toNat_le.mpr hpaced.rtt.pos, UInt32.le_iff_toNat_le.mpr hpaced.rtt.le⟩, ?_⟩
  exact ⟨hrecorded.sorted, hrecorded.bounded⟩

theorem timeouts_bounded_ten :
    let es := connecting ++ List.replicate 10 (.waitTimer 0)
    let vs := tcpInstanceAlloc.loads 0 [] es
    vs.map Prod.snd = [300, 600, 1200, 2400, 4800, 9600, 19200, 24000, 24000, 24000] ∧
      (vs.Pairwise fun p q => p.2 ≤ q.2) ∧ ∀ p ∈ vs, p.1 ≤ p.2 ∧ p.2 ≤ maxTimeout := by
  have hrun : Along TcpInstance.step (fun ti e => ti.Avoids untimely e) tcpInstanceAlloc
      (connecting ++ List.replicate 10 (.waitTimer 0)) := by decide +kernel
  exact ⟨by decide +kernel, (timeouts_bounded _ hrun 0).2⟩

/-- A SYN that is never answered: after thirty retransmissions the timeout of 300 ticks is shifted
out of the word, and the timer is loaded with 0. -/
theorem thirty_retransmissions_load_zero :
    (tcpInstanceAlloc.loads 0 [] (connecting ++ List.replicate 31 (.waitTimer 0))).map Prod.snd =
      [300, 600, 1200, 2400, 4800, 9600, 19200] ++ List.replicate 23 24000 ++ [0] := by
  decide +kernel

end Liquorice.Tcp
