import Liquorice.Tcp.Instance
import Liquorice.Lib.OnesSum

/-!
# The options of a TCP header

`tcp_recv_options` scans the octets behind the fixed part of a header with a pointer and an 8-bit
count of what is left. `options` is the list of options that stands there, by the format: up to the
end-of-options octet or the first malformed option. The scan comes to its end on every header, and
it goes through these options; but it looks for a maximum segment size in options of length 2, where
it reads the two octets that follow the option, and passes over those of length 4. So it stays
inside of the options exactly if two of their octets follow each option of kind 2 and length 2, and
what it leaves in `ts_remote_mss` is what follows the last of these.
-/

namespace Liquorice.Tcp

open OnesSum

/-! ## The scan -/

/-- `ts_remote_mss`, and the positions behind `struct tcp_header` that were read, the latest
first. -/
structure Scan where
  tsRemoteMss : UInt32
  reads : List Nat := []

def Scan.read (s : Scan) (p : Nat) : Scan := { s with reads := p :: s.reads }

/-- What `tcp_recv_options` does with an option of the type `opt` and the length `optsz`, with `p`
behind the two octets. -/
def Scan.option (mem : Nat → UInt8) (s : Scan) (opt optsz : UInt8) (p : Nat) : Scan :=
  if opt = 2 ∧ optsz = 2 then
    { (s.read p).read (p + 1) with tsRemoteMss := (mem p).toUInt32 * 256 + (mem (p + 1)).toUInt32 }
  else s

/-- The loop of `tcp_recv_options`, for a number of rounds at most; `none` if that is not enough. -/
def scanOptions (mem : Nat → UInt8) : Nat → UInt8 → Nat → Scan → Option Scan
  | 0, _, _, _ => none
  | rounds + 1, length, p, s =>
    if length = 0 then some s
    else
      let opt := mem p
      let s := s.read p
      if opt = 0 then some s
      else if opt = 1 then scanOptions mem rounds (length - 1) (p + 1) s
      else if length = 1 then some s
      else
        let optsz := mem (p + 1)
        let s := s.read (p + 1)
        if optsz < 2 ∨ optsz > length then some s
        else scanOptions mem rounds (length - optsz) (p + optsz.toNat)
          (s.option mem opt optsz (p + 2))

/-- `tcp_recv_options`, with what it reads. A round takes at least one from the count. -/
def Packet.scan (p : Packet) (tsRemoteMss : UInt32) : Option Scan :=
  let length := (p.thDataOffs <<< 2) - 20
  scanOptions p.behind (length.toNat + 1) length 0 { tsRemoteMss }

/-! ## The format -/

/-- An option with a length octet. -/
structure TcpOption where
  kind : UInt8
  data : List UInt8
  deriving DecidableEq

/-- What the length octet says. -/
def TcpOption.length (o : TcpOption) : Nat := o.data.length + 2

/-- The options in a string of octets, each with the octets behind it, up to the end-of-options
octet or the first malformed one. -/
def options : List UInt8 → List (TcpOption × List UInt8)
  | [] => []
  | kind :: l =>
    if kind = 0 then []
    else if kind = 1 then options l
    else
      match l with
      | [] => []
      | len :: l =>
        if len.toNat < 2 ∨ l.length + 2 < len.toNat then []
        else
          (⟨kind, l.take (len.toNat - 2)⟩, l.drop (len.toNat - 2)) :: options
            (l.drop (len.toNat - 2))
termination_by l => l.length
decreasing_by
  · exact Nat.lt_succ_self _
  · simp only [List.length_drop, List.length_cons]
    omega

/-- The number that two octets are, the high one first. -/
def bigEndian : List UInt8 → UInt32
  | [high, low] => UInt32.ofNat (0x100 * high.toNat + low.toNat)
  | _ => 0

/-- The maximum segment size in a well-formed option for it. -/
def mssOption (o : TcpOption × List UInt8) : Option UInt32 :=
  if o.1.kind = 2 ∧ o.1.length = 4 then some (bigEndian o.1.data) else none

/-- The maximum segment size after the options: that of the last well-formed one. -/
def lastMss (tsRemoteMss : UInt32) (os : List (TcpOption × List UInt8)) : UInt32 :=
  (os.filterMap mssOption).getLastD tsRemoteMss

/-- An option that the scan takes for one with a maximum segment size. -/
def Mistaken (o : TcpOption) : Prop := o.kind = 2 ∧ o.length = 2
  deriving Decidable

/-- What it takes for that: the two octets behind the option, where the options end at `stop`. -/
def taken (mem : Nat → UInt8) (stop : Nat) (o : TcpOption × List UInt8) : Option UInt32 :=
  if Mistaken o.1 then
    some ((mem (stop - o.2.length)).toUInt32 * 256 + (mem (stop - o.2.length + 1)).toUInt32)
  else none

/-- The option octets of a header. -/
def Packet.optionOctets (p : Packet) :
    List UInt8 := bytesAt p.behind 0 (4 * p.thDataOffs.toNat - 20)

/-! ## The scan goes through the options -/

variable {mem : Nat → UInt8} {length : UInt8} {p rounds : Nat} {s : Scan}

/-- What the scan makes of the options from `p` on, with `n` octets left. -/
structure Scanned (mem : Nat → UInt8) (p n : Nat) (s s' : Scan) : Prop where
  reads : (∀ i ∈ s'.reads, i < p + n) ↔
    (∀ i ∈ s.reads, i < p + n) ∧ ∀ o ∈ options (bytesAt mem p n), Mistaken o.1 → 2 ≤ o.2.length
  mss : s'.tsRemoteMss = ((options (bytesAt mem p n)).filterMap (taken mem (p + n))).getLastD
    s.tsRemoteMss

/-- An octet of the options is read. -/
theorem Scan.reads_read {stop : Nat} (h : p < stop) :
    (∀ i ∈ (s.read p).reads, i < stop) ↔ ∀ i ∈ s.reads, i < stop := by
  simp [Scan.read, h]

/-- The scan ends. -/
theorem scanned_end {n : Nat} {s' : Scan} (hoptions : options (bytesAt mem p n) = [])
    (hreads : (∀ i ∈ s'.reads, i < p + n) ↔ ∀ i ∈ s.reads, i < p + n)
    (hmss : s'.tsRemoteMss = s.tsRemoteMss) :
    Scanned mem p n s s' where
  reads := by simp [hoptions, hreads]
  mss := by simp [hoptions, hmss]

theorem options_nop {l : List UInt8} : options (1 :: l) = options l := by
  rw [options.eq_def]
  exact if_neg (by decide)

theorem options_cons {kind len : UInt8} {l : List UInt8} (h₀ : kind ≠ 0) (h₁ : kind ≠ 1)
    (hlen : ¬ (len.toNat < 2 ∨ l.length + 2 < len.toNat)) :
    options (kind :: len :: l) =
      (⟨kind, l.take (len.toNat - 2)⟩, l.drop (len.toNat - 2)) :: options
      (l.drop (len.toNat - 2)) := by
  rw [options, if_neg h₀, if_neg h₁]
  exact if_neg hlen

theorem options_malformed {kind len : UInt8} {l : List UInt8} (h₀ : kind ≠ 0) (h₁ : kind ≠ 1)
    (hlen : len.toNat < 2 ∨ l.length + 2 < len.toNat) : options (kind :: len :: l) = [] := by
  rw [options, if_neg h₀, if_neg h₁]
  exact if_pos hlen

/-- The two octets of an option, its data and what follows. -/
theorem bytesAt_option {n k : Nat} (hk : 2 ≤ k) (hkn : k ≤ n) :
    bytesAt mem p n = mem p :: mem (p + 1) ::
      (bytesAt mem (p + 2) (k - 2) ++ bytesAt mem (p + k) (n - k)) := by
  obtain ⟨j, rfl⟩ := Nat.exists_eq_add_of_le hk
  obtain ⟨m, rfl⟩ := Nat.exists_eq_add_of_le hkn
  have hsum : 2 + j + m = (j + m) + 1 + 1 := by omega
  rw [hsum, bytesAt_succ, bytesAt_succ, bytesAt_add]
  have hrest : j + m + 1 + 1 - (2 + j) = m := by omega
  have hdata : 2 + j - 2 = j := by omega
  rw [hrest, hdata, Nat.add_assoc p 2 j]

theorem toNat_sub_octet {x y : UInt8} (h : y.toNat ≤ x.toNat) : (x - y).toNat = x.toNat - y.toNat :=
  UInt8.toNat_sub_of_le x y (UInt8.le_iff_toNat_le.mpr h)

/-- The scan deals with an option, the first of those at `p`, and goes on behind it. -/
theorem Scanned.option {n k : Nat} {s' : Scan} (hk : 2 ≤ k) (hkn : k ≤ n)
    (hoptsz : (mem (p + 1)).toNat = k) (hoptions : options (bytesAt mem p n) =
      (⟨mem p, bytesAt mem (p + 2) (k - 2)⟩, bytesAt mem (p + k) (n - k)) :: options
      (bytesAt mem (p + k) (n - k))) (h : Scanned mem (p + k) (n - k)
      (((s.read p).read (p + 1)).option mem (mem p) (mem (p + 1)) (p + 2)) s') : Scanned
      mem p n s s' := by
  have hstop : p + k + (n - k) = p + n := by omega
  have hlength : (bytesAt mem (p + k) (n - k)).length = n - k := length_bytesAt ..
  have hmistaken : Mistaken ⟨mem p, bytesAt mem (p + 2) (k - 2)⟩ ↔ mem p = 2 ∧ mem (p + 1) = 2 := by
    rw [Mistaken, TcpOption.length, length_bytesAt, ← UInt8.toNat_inj (a := mem (p + 1)), hoptsz]
    show _ ∧ k - 2 + 2 = 2 ↔ _ ∧ k = 2
    rw [Nat.sub_add_cancel hk]
  have hread : (∀ i ∈ ((s.read p).read (p + 1)).reads, i < p + n) ↔ ∀ i ∈ s.reads, i < p + n := by
    rw [Scan.reads_read (by omega), Scan.reads_read (by omega)]
  have hreads := h.reads
  have hmss := h.mss
  rw [hstop] at hreads hmss
  by_cases hboth : mem p = 2 ∧ mem (p + 1) = 2
  · -- the two octets behind the option are taken for its data
    have hk2 : k = 2 := by
      rw [← hoptsz, hboth.2]
      rfl
    subst hk2
    rw [Scan.option, if_pos hboth] at hreads hmss
    constructor
    · have hbehind : (∀ i ∈ (p + 2 + 1) :: (p + 2) :: ((s.read p).read (p + 1)).reads, i < p + n) ↔
          (∀ i ∈ s.reads, i < p + n) ∧ 2 ≤ n - 2 := by
        rw [List.forall_mem_cons, List.forall_mem_cons, hread, ← and_assoc, and_comm]
        exact and_congr_right fun _ => by omega
      rw [hreads, hoptions, List.forall_mem_cons, hlength, ← and_assoc]
      refine and_congr_left fun _ => hbehind.trans (and_congr_right fun _ => ?_)
      exact ⟨fun hle _ => hle, fun hle => hle (hmistaken.mpr hboth)⟩
    · have hpos : p + n - (n - 2) = p + 2 := by omega
      rw [hmss, hoptions, List.filterMap_cons, taken, if_pos (hmistaken.mpr hboth), hlength, hpos]
      exact (List.getLastD_cons ..).symm
  · rw [Scan.option, if_neg hboth] at hreads hmss
    have hnot := mt hmistaken.mp hboth
    constructor
    · rw [hreads, hread, hoptions, List.forall_mem_cons]
      simp only [hnot, false_imp_iff, true_and]
    · rw [hmss, hoptions, List.filterMap_cons, taken, if_neg hnot]
      rfl

/-- **The scan comes to its end, and goes through the options.** -/
theorem scanOptions_scanned (hrounds : length.toNat < rounds) :
    ∃ s', scanOptions mem rounds length p s = some s' ∧ Scanned mem p length.toNat s s' := by
  -- the count gets smaller with each round
  induction rounds generalizing length p s with
  | zero => exact absurd hrounds (Nat.not_lt_zero _)
  | succ rounds ih =>
    rw [scanOptions]
    by_cases hzero : length = 0
    · rw [if_pos hzero, hzero]
      exact ⟨s, rfl, scanned_end (by rw [UInt8.toNat_zero]; simp [bytesAt, options]) Iff.rfl rfl⟩
    have hpos : 0 < length.toNat := by
      rw [Nat.pos_iff_ne_zero]
      exact fun h => hzero (UInt8.toNat_inj.mp h)
    have hread : (∀ i ∈ (s.read p).reads, i < p + length.toNat) ↔ ∀ i ∈ s.reads,
      i < p + length.toNat :=
      Scan.reads_read (by omega)
    have hbytes : bytesAt mem p length.toNat = mem p :: bytesAt mem (p + 1) (length.toNat - 1) := by
      rw [← bytesAt_succ, Nat.sub_add_cancel hpos]
    simp only [if_neg hzero]
    by_cases hend : mem p = 0
    · rw [if_pos hend]
      exact ⟨_, rfl, scanned_end (by rw [hbytes, hend, options.eq_def]; rfl) hread rfl⟩
    rw [if_neg hend]
    by_cases hnop : mem p = 1
    · rw [if_pos hnop]
      have hone : (length - 1).toNat = length.toNat - 1 :=
        toNat_sub_octet (x := length) (y := 1) hpos
      obtain ⟨s', hs', hscanned⟩ := @ih (length - 1) (p + 1) (s.read p) (by omega)
      have hstop : p + 1 + (length.toNat - 1) = p + length.toNat := by omega
      obtain ⟨hreads, hmss⟩ := hscanned
      rw [hone, hstop] at hreads hmss
      rw [hread] at hreads
      have hoptions : options (bytesAt mem p length.toNat) =
          options (bytesAt mem (p + 1) (length.toNat - 1)) := by
        rw [hbytes, hnop, options_nop]
      refine ⟨s', hs', ?_, ?_⟩
      · rw [hoptions, hreads]
      · rw [hoptions, hmss]
        rfl
    rw [if_neg hnop]
    by_cases hlast : length = 1
    · rw [if_pos hlast]
      have hnil : options [mem p] = [] := by simp [options, hend, hnop]
      exact ⟨_, rfl, scanned_end (by rw [hbytes, hlast]; exact hnil) hread rfl⟩
    rw [if_neg hlast]
    have htwo : 2 ≤ length.toNat := by
      have hne : length.toNat ≠ 1 := fun h => hlast (UInt8.toNat_inj.mp h)
      omega
    have hbytes₂ : bytesAt mem p length.toNat = mem p :: mem (p + 1) :: bytesAt mem (p + 2)
        (length.toNat - 2) := by
      have hsucc : length.toNat - 1 = length.toNat - 2 + 1 := by omega
      rw [hbytes, hsucc, bytesAt_succ]
    by_cases hbad : mem (p + 1) < 2 ∨ mem (p + 1) > length
    · rw [if_pos hbad]
      refine ⟨_, rfl, scanned_end ?_ ((Scan.reads_read (by omega)).trans hread) rfl⟩
      rw [hbytes₂, options_malformed hend hnop]
      rw [length_bytesAt, Nat.sub_add_cancel htwo]
      exact hbad.imp UInt8.lt_iff_toNat_lt.mp UInt8.lt_iff_toNat_lt.mp
    rw [if_neg hbad]
    -- a well-formed option: the scan and the format agree on where the next one starts
    have hge : 2 ≤ (mem (p + 1)).toNat :=
      UInt8.le_iff_toNat_le.mp (UInt8.not_lt.mp fun h => hbad (.inl h))
    have hle : (mem (p + 1)).toNat ≤ length.toNat :=
      UInt8.le_iff_toNat_le.mp (UInt8.not_lt.mp fun h => hbad (.inr h))
    have hleft := toNat_sub_octet hle
    obtain ⟨s', hs', hscanned⟩ := @ih (length - mem (p + 1)) (p + (mem (p + 1)).toNat)
      (((s.read p).read (p + 1)).option mem (mem p) (mem (p + 1)) (p + 2)) (by omega)
    refine ⟨s', hs', ?_⟩
    rw [hleft] at hscanned
    refine hscanned.option hge hle rfl ?_
    have hdata : (bytesAt mem (p + 2) ((mem (p + 1)).toNat - 2)).length = (mem (p + 1)).toNat - 2 :=
      length_bytesAt ..
    rw [bytesAt_option hge hle, options_cons hend hnop, List.take_left' hdata,
      List.drop_left' hdata]
    rw [List.length_append, hdata, length_bytesAt]
    omega

theorem option_mss (s : Scan) (opt optsz : UInt8) (p : Nat) :
    (s.option mem opt optsz p).tsRemoteMss =
      if opt = 2 ∧ optsz.toNat = 2 then (mem p).toUInt32 * 256 + (mem (p + 1)).toUInt32
        else s.tsRemoteMss := by
  have htwo : optsz = 2 ↔ optsz.toNat = 2 := UInt8.toNat_inj.symm
  simp only [Scan.option, ← htwo]
  split <;> rfl

/-- The scan leaves the `ts_remote_mss` of `tcp_recv_options`. -/
theorem scanOptions_mss {s' : Scan} (h : scanOptions mem rounds length p s = some s') :
    s'.tsRemoteMss = recvOptions mem p length.toNat s.tsRemoteMss := by
  induction rounds generalizing length p s with
  | zero => cases h
  | succ rounds ih =>
    rw [scanOptions] at h
    rw [recvOptions]
    have hzero : length = 0 ↔ length.toNat = 0 := UInt8.toNat_inj.symm
    have hone : length = 1 ↔ length.toNat = 1 := UInt8.toNat_inj.symm
    split at h
    · rename_i hlength
      rw [if_pos (.inl (hzero.mp hlength)), ← Option.some.inj h]
    rename_i hlength
    dsimp only at h
    split at h
    · rename_i hend
      rw [if_pos (.inr hend), ← Option.some.inj h]
      rfl
    rename_i hend
    rw [if_neg (not_or.mpr ⟨fun h => hlength (hzero.mpr h), hend⟩)]
    split at h
    · rename_i hnop
      have hpos : (1 : UInt8).toNat ≤ length.toNat := Nat.pos_of_ne_zero fun h =>
        hlength (hzero.mpr h)
      rw [if_pos hnop, ih h, toNat_sub_octet hpos]
      rfl
    rename_i hnop
    rw [if_neg hnop]
    split at h
    · rename_i hlast
      rw [if_pos (hone.mp hlast), ← Option.some.inj h]
      rfl
    rename_i hlast
    rw [if_neg fun h => hlast (hone.mpr h)]
    split at h
    · rename_i hbad
      have hbad' : (mem (p + 1)).toNat < 2 ∨ (mem (p + 1)).toNat > length.toNat :=
        hbad.imp UInt8.lt_iff_toNat_lt.mp UInt8.lt_iff_toNat_lt.mp
      rw [if_pos hbad', ← Option.some.inj h]
      rfl
    rename_i hbad
    have hgood : ¬ ((mem (p + 1)).toNat < 2 ∨ (mem (p + 1)).toNat > length.toNat) :=
      fun h => hbad (h.imp UInt8.lt_iff_toNat_lt.mpr UInt8.lt_iff_toNat_lt.mpr)
    have hle : (mem (p + 1)).toNat ≤ length.toNat :=
      UInt8.le_iff_toNat_le.mp (UInt8.not_lt.mp fun h => hbad (.inr h))
    rw [if_neg hgood, ih h, toNat_sub_octet hle, option_mss]
    rfl

/-! ## `tcp_recv_options` -/

/-- The count of the option octets does not wrap. -/
theorem toNat_optionLength {offs : UInt8} (hge : 5 ≤ offs) (hle : offs ≤ 15) :
    ((offs <<< 2) - 20).toNat = 4 * offs.toNat - 20 := by
  have hge' : 5 ≤ offs.toNat := UInt8.le_iff_toNat_le.mp hge
  have hle' : offs.toNat ≤ 15 := UInt8.le_iff_toNat_le.mp hle
  have hshift : (offs <<< 2).toNat = 4 * offs.toNat := by
    rw [UInt8.toNat_shiftLeft, Nat.shiftLeft_eq]
    show offs.toNat * 4 % 256 = _
    omega
  have htwenty : (20 : UInt8).toNat = 20 := rfl
  rw [toNat_sub_octet (by omega), hshift, htwenty]

/-- **The options of a header.** The scan comes to its end. It reads only the option octets exactly
if two of them follow each option of kind 2 and length 2; and it leaves in `ts_remote_mss` the
number that follows the last such option, or what was there, so that this is the size of the last
well-formed option for it exactly if the two numbers agree. -/
theorem recv_options (p : Packet) (mss : UInt32) (hge : 5 ≤ p.thDataOffs)
    (hle : p.thDataOffs ≤ 15) :
    let n := 4 * p.thDataOffs.toNat - 20
    let os := options p.optionOctets
    ∃ s, p.scan mss = some s ∧ s.tsRemoteMss = tcpRecvOptions p mss ∧
      ((∀ i ∈ s.reads, i < n) ↔ ∀ o ∈ os, Mistaken o.1 → 2 ≤ o.2.length) ∧
      s.tsRemoteMss = (os.filterMap (taken p.behind n)).getLastD mss ∧
      (s.tsRemoteMss = lastMss mss os ↔
        (os.filterMap (taken p.behind n)).getLastD mss =
            (os.filterMap mssOption).getLastD mss) := by
  intro n os
  have hlength := toNat_optionLength hge hle
  obtain ⟨s, hs, hreads, hmss⟩ := @scanOptions_scanned p.behind ((p.thDataOffs <<< 2) - 20) 0 _
    { tsRemoteMss := mss } (Nat.lt_succ_self _)
  rw [hlength, Nat.zero_add] at hreads hmss
  refine ⟨s, hs, scanOptions_mss hs, ?_, hmss, ?_⟩
  · rw [hreads]
    exact and_iff_right nofun
  · rw [hmss]
    rfl

/-- A header with some option octets, whose number is a multiple of 4. -/
def Packet.withOptions (octets : List UInt8) : Packet where
  ihSrcAddr := 0
  thSrcPort := 0
  thDestPort := 0
  thDataOffs := UInt8.ofNat (5 + octets.length / 4)
  segment := ⟨{}, 0, 0, []⟩
  behind i := octets.getD i 0

/-- An option of a newer kind between two NOPs is passed over. -/
theorem recv_options_other :
    (options (Packet.withOptions [1, 8, 5, 0, 0, 1, 0, 0]).optionOctets =
      [(⟨8, [0, 0, 1]⟩, [0, 0])]) ∧
    ∃ s, (Packet.withOptions [1, 8, 5, 0, 0, 1, 0, 0]).scan 536 = some s ∧
      (∀ i ∈ s.reads, i < 8) ∧ s.tsRemoteMss = 536 := by
  have hoptions : options (Packet.withOptions [1, 8, 5, 0, 0, 1, 0, 0]).optionOctets =
      [(⟨8, [0, 0, 1]⟩, [0, 0])] := by
    have hoctets : (Packet.withOptions [1, 8, 5, 0, 0, 1, 0, 0]).optionOctets =
        [1, 8, 5, 0, 0, 1, 0, 0] := by
      decide
    rw [hoctets, options_nop, options_cons (by decide) (by decide) (by decide)]
    simp [options]
  refine ⟨hoptions, ?_⟩
  obtain ⟨s, hs, -, hreads, hmss, -⟩ :=
    recv_options (Packet.withOptions [1, 8, 5, 0, 0, 1, 0, 0]) 536 (by decide) (by decide)
  rw [hoptions] at hreads hmss
  exact ⟨s, hs, hreads.mpr (by decide), hmss⟩

/-- The option that announces a maximum segment size of 1460 is passed over; and for an option of
kind 2 that ends the header, the two octets behind the header are read and taken for the size. -/
theorem mss_not_taken :
    (lastMss 536 (options (Packet.withOptions [2, 4, 5, 0xb4]).optionOctets) = 1460 ∧
      ((Packet.withOptions [2, 4, 5, 0xb4]).scan 536).map Scan.tsRemoteMss = some 536) ∧
    ((Packet.withOptions [1, 1, 2, 2]).scan 536).map Scan.reads = some [5, 4, 3, 2, 1, 0] ∧
      ((Packet.withOptions [1, 1, 2, 2]).scan 536).map Scan.tsRemoteMss = some 0 := by
  have hoptions : options (Packet.withOptions [2, 4, 5, 0xb4]).optionOctets =
      [(⟨2, [5, 0xb4]⟩, [])] := by
    have hoctets : (Packet.withOptions [2, 4, 5, 0xb4]).optionOctets = [2, 4, 5, 0xb4] := by decide
    rw [hoctets, options_cons (by decide) (by decide) (by decide)]
    simp [options]
  rw [hoptions]
  decide

end Liquorice.Tcp
