import Mathlib.Data.List.Induction

/-!
# Frames on a serial line

A frame stands between two flags; within it an escape octet announces that the next octet stands for
another one. `Framing.recv` is what a receiver collects of a frame, up to a limit, and `collect` the
same over several octets. An encoding of octets that this undoes (`Encodes`) gives back the frame
that was encoded (`Encodes.collect_octets`).

A program that receives frames is a `Receiver`: a step function with a view of its state as such a
collection, an invariant, and what it hands on when a flag ends a frame. For each of them the round
trip `Receiver.feed_sent` holds: whatever its state was, each frame that is sent is handed on once
and in order; and `Receiver.feed_last` says where the frame came from that a flag ends.
-/

namespace Liquorice

/-- The special octets of a framing, what an escaped octet stands for, and how many octets a frame
may have before the receiver gives it up. -/
structure Framing where
  flag : UInt8
  esc : UInt8
  unescape : UInt8 → Option UInt8
  limit : Nat
  esc_ne_flag : esc ≠ flag

namespace Framing

/-- What a receiver has of a frame. -/
@[ext] structure Rx where
  data : List UInt8 := []
  /-- An escape octet was the last one. -/
  escaped : Bool := false
  /-- The rest of the frame is ignored. -/
  ignore : Bool := false
  deriving DecidableEq

variable (c : Framing)

/-- The octet `b` of a frame is collected. -/
def store (r : Rx) (b : UInt8) : Rx :=
  { data := r.data ++ [b], escaped := false, ignore := decide (c.limit ≤ r.data.length + 1) }

/-- What an octet other than the flag does to a receiver. -/
inductive Act where
  | skip
  | escape
  | reject
  | store (b : UInt8)

/-- An octet comes while the last one was an escape (`escaped`), or the frame is ignored
(`ignore`). -/
def act (escaped ignore : Bool) (ch : UInt8) : Act :=
  if ignore then .skip
  else if ch = c.esc then if escaped then .reject else .escape
  else if escaped then
    match c.unescape ch with
    | none => .reject
    | some b => .store b
  else .store ch

def perform (r : Rx) : Act → Rx
  | .skip => r
  | .escape => { r with escaped := true }
  | .reject => { r with ignore := true }
  | .store b => c.store r b

/-- The receiver gets an octet other than the flag. -/
def recv (r : Rx) (ch : UInt8) : Rx := c.perform r (c.act r.escaped r.ignore ch)

/-- What is collected of several octets, none of them the flag. -/
def collect (r : Rx) (bs : List UInt8) : Rx := bs.foldl c.recv r

variable {c} {raw : List UInt8}

/-- Only an octet of a frame that is not ignored is stored. -/
theorem act_store {escaped ignore : Bool} {ch b : UInt8} (h : c.act escaped ignore ch = .store b) :
    ignore = false := by
  cases ignore with
  | false => rfl
  | true => cases h

theorem collect_append (r : Rx) (bs bs' : List UInt8) :
    c.collect r (bs ++ bs') = c.collect (c.collect r bs) bs' :=
  List.foldl_append

/-- A receiver that ignores the rest of a frame collects nothing of it. -/
theorem collect_ignore {r : Rx} (h : r.ignore) (bs : List UInt8) : c.collect r bs = r := by
  induction bs with
  | nil => rfl
  | cons ch bs ih =>
    have hrecv : c.recv r ch = r := by
      rw [recv, act, if_pos h]
      rfl
    rw [collect, List.foldl_cons, hrecv]
    exact ih

/-- The octets of a buffer up to the one that was just stored behind them. -/
theorem map_range_update (buf : Nat → UInt8) (n : Nat) (b : UInt8) :
    (List.range (n + 1)).map (Function.update buf n b) = (List.range n).map buf ++ [b] := by
  rw [List.range_succ, List.map_append]
  congr 1
  · apply List.map_congr_left
    intro i hi
    exact Function.update_of_ne (Nat.ne_of_lt (List.mem_range.1 hi)) _ _
  · simp

/-! ## Encodings -/

/-- What the octets of a frame stand for. A frame must not end with an escape. -/
def unstuff (c : Framing) : List UInt8 → Option (List UInt8)
  | [] => some []
  | ch :: bs =>
    if ch = c.esc then
      match bs with
      | [] => none
      | ch' :: bs => do
        let b ← c.unescape ch'
        return b :: (← c.unstuff bs)
    else do return ch :: (← c.unstuff bs)

theorem store_ignore {r : Rx} {b : UInt8} (h : (c.store r b).ignore = false) :
    c.store r b = { data := r.data ++ [b] } := by
  simp only [store] at h ⊢
  rw [h]

/-- What was collected of a frame that was neither given up nor cut off behind an escape is what its
octets stand for. -/
theorem unstuff_of_collect (raw : List UInt8) (data p : List UInt8)
    (h : c.collect { data := data } raw = { data := p }) :
    ∃ q, p = data ++ q ∧ c.unstuff raw = some q := by
  have hignore : ∀ (r : Rx) bs, c.collect r bs = { data := p } → r.ignore = false := by
    intro r bs hr
    by_contra hi
    rw [Bool.not_eq_false] at hi
    rw [collect_ignore hi] at hr
    rw [hr] at hi
    cases hi
  fun_induction c.unstuff raw generalizing data with
  | case1 =>
    cases h
    exact ⟨[], (List.append_nil _).symm, rfl⟩
  | case2 => simp [collect, recv, act, perform] at h
  | case3 ch bs ih =>
    have hesc : c.collect { data := data } (c.esc :: ch :: bs) =
        c.collect (c.recv { data := data, escaped := true } ch) bs := by
      simp [collect, recv, act, perform]
    rw [hesc] at h
    have hr := hignore _ _ h
    cases hact : c.act true false ch with
    | skip => simp [act] at hact; grind
    | escape => simp [act] at hact; grind
    | reject =>
      simp only [recv, hact, perform] at hr
      cases hr
    | store b =>
      have hb : c.unescape ch = some b := by
        simp only [act] at hact
        grind
      simp only [recv, hact, perform] at h hr
      rw [store_ignore hr] at h
      obtain ⟨q, hq, hunstuff⟩ := ih _ h
      exact ⟨b ::
        q, by rw [hq, List.append_assoc, List.singleton_append], by rw [hb, hunstuff]; rfl⟩
  | case4 ch bs hch ih =>
    have hplain : c.collect { data := data }
        (ch :: bs) = c.collect (c.store { data := data } ch) bs := by
      simp [collect, recv, act, perform, hch]
    rw [hplain] at h
    rw [store_ignore (hignore _ _ h)] at h
    obtain ⟨q, hq, hunstuff⟩ := ih _ h
    exact ⟨ch :: q, by rw [hq, List.append_assoc, List.singleton_append], by rw [hunstuff]; rfl⟩

/-- A receiver that waits for an escaped octet got the escape last, and collected the octets in
front of it. -/
theorem collect_escaped (h : (c.collect {} raw).escaped)
    (hignore : (c.collect {} raw).ignore = false) :
    ∃ front, raw = front ++ [c.esc] ∧ c.collect {} front = { data := (c.collect {} raw).data } := by
  induction raw using List.reverseRecOn with
  | nil => cases h
  | append_singleton front ch =>
    rw [collect_append] at h hignore ⊢
    -- any other octet is stored, or spoils the frame
    have hrecv : ∀ r : Rx, (c.recv r ch).escaped → (c.recv r ch).ignore = false →
        ch = c.esc ∧ r = { data := (c.recv r ch).data } := by
      intro r
      by_cases hch : ch = c.esc <;> cases hi : r.ignore <;> cases he : r.escaped <;>
        cases hu : c.unescape ch <;>
        simp [recv, act, perform, store, Rx.ext_iff, hch, hi, he, hu]
    obtain ⟨hch, hfront⟩ := hrecv _ h hignore
    exact ⟨front, by rw [hch], hfront⟩

/-- A frame that ends with an escape stands for nothing. -/
theorem unstuff_append_esc {front p : List UInt8} (h : c.unstuff front = some p) :
    c.unstuff (front ++ [c.esc]) = none := by
  fun_induction c.unstuff front generalizing p with
  | case1 => simp [unstuff]
  | case2 => cases h
  | case3 ch bs ih =>
    simp only [Option.bind_eq_bind, Option.bind_eq_some_iff] at h
    obtain ⟨b, hb, q, hq, -⟩ := h
    simp [unstuff, hb, ih hq]
  | case4 ch bs hch ih =>
    simp only [Option.bind_eq_bind, Option.bind_eq_some_iff] at h
    obtain ⟨q, hq, -⟩ := h
    rw [List.cons_append, unstuff.eq_def]
    simp [hch, ih hq]

/-- What was collected of octets that stand for others are these. -/
theorem data_of_unstuff {data octets : List UInt8} {escaped : Bool}
    (h : c.collect {} raw = { data := data, escaped := escaped })
    (hunstuff : c.unstuff raw = some octets) :
    escaped = false ∧ data = octets := by
  have hplain : ∀ front, c.collect {} front = { data := data } → c.unstuff front = some data := by
    intro front hfront
    obtain ⟨q, hq, hfront'⟩ := unstuff_of_collect front [] data hfront
    rw [hfront', show data = q from hq]
  cases escaped with
  | false => exact ⟨rfl, Option.some.inj ((hplain raw h).symm.trans hunstuff)⟩
  | true =>
    obtain ⟨front, rfl, hfront⟩ := collect_escaped (by rw [h]) (by rw [h])
    rw [h] at hfront
    rw [unstuff_append_esc (hplain front hfront)] at hunstuff
    cases hunstuff

/-- What is not ignored is shorter than the limit. -/
theorem length_collect (hlimit : 0 < c.limit) (h : (c.collect {} raw).ignore = false) :
    (c.collect {} raw).data.length < c.limit := by
  induction raw using List.reverseRecOn with
  | nil => exact hlimit
  | append_singleton front ch ih =>
    rw [collect_append] at h ⊢
    simp only [collect, List.foldl_cons, List.foldl_nil, recv] at h ih ⊢
    cases hact : c.act (front.foldl c.recv {}).escaped (front.foldl c.recv {}).ignore ch <;>
      simp_all [perform, store]

/-- Two ways of handing on what was collected, where one hands on no more than the other, are the
same if they hand on the same. -/
theorem filterMap_inj {α β : Type} {f g : α → Option β} {l : List α}
    (hle : ∀ a ∈ l, ∀ b, f a = some b → g a = some b) (h : l.filterMap f = l.filterMap g) :
    ∀ a ∈ l, f a = g a := by
  induction l with
  | nil => exact fun a ha => absurd ha List.not_mem_nil
  | cons a l ih =>
    have htail := fun b hb => hle b (List.mem_cons_of_mem _ hb)
    have hhead : f a = g a := by
      by_contra hne
      have hnone : f a = none := by
        by_contra hsome
        obtain ⟨b, hb⟩ := Option.ne_none_iff_exists'.1 hsome
        exact hne (hb.trans (hle a List.mem_cons_self b hb).symm)
      obtain ⟨b, hb⟩ := Option.ne_none_iff_exists'.1 (hnone ▸ Ne.symm hne)
      have hlen := congrArg List.length h
      rw [List.filterMap_cons_none hnone, List.filterMap_cons_some hb, List.length_cons,
        List.length_filterMap_eq_countP, List.length_filterMap_eq_countP] at hlen
      have hcount : l.countP (fun a => (f a).isSome) ≤ l.countP fun a => (g a).isSome := by
        refine List.countP_mono_left fun a ha hf => ?_
        obtain ⟨b, hb⟩ := Option.isSome_iff_exists.1 hf
        rw [htail a ha b hb]
        rfl
      omega
    rw [List.filterMap_cons, List.filterMap_cons, hhead] at h
    intro b hb
    rcases List.mem_cons.1 hb with rfl | hb
    · exact hhead
    · refine ih htail ?_ b hb
      cases hg : g a with
      | none => simpa [hg] using h
      | some c => simpa [hg] using h

/-- The octets in front of each flag, back to the flag before; `cur` are those since the last
flag. -/
def segments (flag : UInt8) : List UInt8 → List UInt8 → List (List UInt8)
  | _, [] => []
  | cur, ch :: bs =>
    if ch = flag then cur :: segments flag [] bs else segments flag (cur ++ [ch]) bs

theorem notMem_segments {flag : UInt8} {cur bs seg : List UInt8} (hcur : flag ∉ cur)
    (h : seg ∈ segments flag cur bs) : flag ∉ seg := by
  induction bs generalizing cur with
  | nil => cases h
  | cons ch bs ih =>
    rw [segments] at h
    split at h
    · rcases List.mem_cons.mp h with rfl | h
      · exact hcur
      · exact ih List.not_mem_nil h
    · rename_i hch
      exact ih (by simp [hcur, Ne.symm hch]) h

/-- The encoding sends an octet as it is, or an escape octet and one that stands for it. -/
def Encodes (c : Framing) (enc : UInt8 → List UInt8) : Prop :=
  ∀ b, (enc b = [b] ∧ b ≠ c.flag ∧ b ≠ c.esc) ∨
    ∃ ch, enc b = [c.esc, ch] ∧ ch ≠ c.flag ∧ ch ≠ c.esc ∧ c.unescape ch = some b

variable {enc : UInt8 → List UInt8}

/-- Encoded octets have no flag among them. -/
theorem Encodes.flag_notMem (h : c.Encodes enc) (p : List UInt8) : c.flag ∉ p.flatMap enc := by
  intro hmem
  obtain ⟨b, -, hb⟩ := List.mem_flatMap.1 hmem
  rcases h b with ⟨henc, hne, -⟩ | ⟨ch, henc, hne, -, -⟩
  · rw [henc, List.mem_singleton] at hb
    exact hne hb.symm
  simp only [henc, List.mem_cons, List.not_mem_nil, or_false] at hb
  rcases hb with hb | hb
  · exact c.esc_ne_flag hb.symm
  · exact hne hb.symm

/-- The receiver undoes the encoding of an octet. -/
theorem Encodes.collect_octet (h : c.Encodes enc) (data : List UInt8) (b : UInt8)
    (hlimit : data.length + 1 < c.limit) :
    c.collect { data := data } (enc b) = { data := data ++ [b] } := by
  have hstore : ∀ e, c.store { data := data, escaped := e } b = { data := data ++ [b] } := by
    intro e
    simp [store, Nat.not_le.mpr hlimit]
  rcases h b with ⟨henc, -, hesc⟩ | ⟨ch, henc, -, hesc, hunesc⟩
  · simp [henc, collect, recv, act, perform, hesc, hstore]
  · simp [henc, collect, recv, act, perform, hesc, hunesc, hstore]

/-- **The receiver undoes the encoding of a frame.** -/
theorem Encodes.collect_octets (h : c.Encodes enc) (data p : List UInt8)
    (hlimit : data.length + p.length < c.limit) :
    c.collect { data := data } (p.flatMap enc) = { data := data ++ p } := by
  induction p generalizing data with
  | nil => simp [collect]
  | cons b p ih =>
    simp only [List.length_cons] at hlimit
    rw [List.flatMap_cons, collect_append, h.collect_octet data b (by omega),
      ih (data ++ [b]) (by simp; omega), List.append_assoc, List.singleton_append]

/-- Of a frame that reaches the limit, the rest is ignored. -/
theorem Encodes.collect_overlong (h : c.Encodes enc) (data p : List UInt8)
    (hdata : data.length < c.limit) (hlimit : c.limit ≤ data.length + p.length) :
    (c.collect { data := data } (p.flatMap enc)).ignore := by
  induction p generalizing data with
  | nil => exact absurd hlimit (Nat.not_le.mpr hdata)
  | cons b p ih =>
    rw [List.flatMap_cons, collect_append]
    simp only [List.length_cons] at hlimit
    by_cases hb : data.length + 1 < c.limit
    · rw [h.collect_octet data b hb]
      exact ih (data ++ [b]) (by simpa using hb) (by simp; omega)
    -- the octet itself is the one that reaches the limit
    have hstore : ∀ e, (c.store { data := data, escaped := e } b).ignore := fun e =>
      decide_eq_true (Nat.not_lt.mp hb)
    have hoctet : (c.collect { data := data } (enc b)).ignore := by
      rcases h b with ⟨henc, -, hesc⟩ | ⟨ch, henc, -, hesc, hunesc⟩
      · simp [henc, collect, recv, act, perform, hesc, hstore]
      · simp [henc, collect, recv, act, perform, hesc, hunesc, hstore]
    rw [collect_ignore hoctet]
    exact hoctet

/-- A frame as it is sent. -/
def sent (c : Framing) (enc : UInt8 → List UInt8) (p : List UInt8) : List UInt8 :=
  c.flag :: (p.flatMap enc ++ [c.flag])

end Framing

open Framing

/-- A program that receives frames: its states `σ`, what it hands on (`β`, seen as a `γ`). -/
structure Receiver (c : Framing) (σ β γ : Type) where
  step : σ → UInt8 → σ × Option β
  view : σ → Rx
  Inv : σ → Prop
  out : β → γ
  /-- What is handed on of a frame, where that depends on the frame alone (`Known`). -/
  deliver : List UInt8 → Option γ
  Known : List UInt8 → Prop
  recv_view : ∀ {s ch}, Inv s → ch ≠ c.flag → view (step s ch).1 = c.recv (view s) ch
  recv_inv : ∀ {s ch}, Inv s → ch ≠ c.flag → Inv (step s ch).1
  recv_out : ∀ {s ch}, ch ≠ c.flag → (step s ch).2 = none
  flag_view : ∀ s, view (step s c.flag).1 = {}
  flag_inv : ∀ {s}, Inv s → Inv (step s c.flag).1
  flag_out : ∀ {s p}, Inv s → view s = { data := p } → Known p →
    (step s c.flag).2.map out = deliver p
  empty_known : Known []
  empty_out : deliver [] = none

namespace Receiver

variable {c : Framing} {σ β γ : Type} (R : Receiver c σ β γ) {s : σ} {enc : UInt8 → List UInt8}

/-- The program over a sequence of octets: its state in the end, and all that it handed on. -/
def feed : σ → List UInt8 → σ × List β
  | s, [] => (s, [])
  | s, ch :: bs =>
    ((feed (R.step s ch).1 bs).1, (R.step s ch).2.toList ++ (feed (R.step s ch).1 bs).2)

theorem feed_append (s : σ) (bs bs' : List UInt8) :
    R.feed s (bs ++ bs') =
      ((R.feed (R.feed s bs).1 bs').1, (R.feed s bs).2 ++ (R.feed (R.feed s bs).1 bs').2) := by
  induction bs generalizing s with
  | nil => rfl
  | cons ch bs ih => simp [feed, ih]

theorem feed_inv (h : R.Inv s) (bs : List UInt8) : R.Inv (R.feed s bs).1 := by
  induction bs generalizing s with
  | nil => exact h
  | cons ch bs ih =>
    apply ih
    by_cases hch : ch = c.flag
    · rw [hch]
      exact R.flag_inv h
    · exact R.recv_inv h hch

/-- Without a flag nothing is handed on, and the state is what is collected of the octets. -/
theorem feed_collect (h : R.Inv s) {bs : List UInt8} (hbs : c.flag ∉ bs) :
    R.view (R.feed s bs).1 = c.collect (R.view s) bs ∧ (R.feed s bs).2 = [] := by
  induction bs generalizing s with
  | nil => exact ⟨rfl, rfl⟩
  | cons ch bs ih =>
    rw [List.mem_cons, not_or] at hbs
    have hch : ch ≠ c.flag := fun hch => hbs.1 hch.symm
    obtain ⟨hview, hout⟩ := ih (R.recv_inv h hch) hbs.2
    simp only [feed, hview, hout, R.recv_view h hch, R.recv_out hch]
    exact ⟨rfl, rfl⟩

/-- **Where the frame came from that the next flag would end.** It was collected since the last
flag; without a flag so far it was collected by the program's first state. -/
theorem feed_last (h : R.Inv s) (bs : List UInt8) :
    (c.flag ∉ bs ∧ R.view (R.feed s bs).1 = c.collect (R.view s) bs) ∨
    ∃ before raw, bs = before ++ c.flag :: raw ∧ c.flag ∉ raw ∧
      R.view (R.feed s bs).1 = c.collect {} raw := by
  induction bs using List.reverseRecOn with
  | nil => exact Or.inl ⟨List.not_mem_nil, rfl⟩
  | append_singleton bs ch ih =>
    have hinv := R.feed_inv h bs
    rw [feed_append]
    by_cases hch : ch = c.flag
    · exact Or.inr ⟨bs, [], by rw [hch], List.not_mem_nil, by rw [hch]; exact R.flag_view _⟩
    have hview : R.view (R.feed (R.feed s bs).1 [ch]).1 = c.recv (R.view (R.feed s bs).1) ch :=
      R.recv_view hinv hch
    have hnot : ∀ raw, c.flag ∉ raw → c.flag ∉ raw ++ [ch] := by
      intro raw hraw hmem
      rcases List.mem_append.1 hmem with hmem | hmem
      · exact hraw hmem
      · exact hch (List.mem_singleton.1 hmem).symm
    rcases ih with ⟨hbs, hlast⟩ | ⟨before, raw, rfl, hraw, hlast⟩
    · exact Or.inl ⟨hnot bs hbs, by rw [hview, hlast, collect_append]; rfl⟩
    · exact Or.inr ⟨before, raw ++ [ch], by simp, hnot raw hraw,
        by rw [hview, hlast, collect_append]; rfl⟩

/-- **What is handed on, segment by segment**, by a program that hands on `g` of what it collected;
`cur` was collected since the last flag, or since the state `r` if there was none. -/
theorem feed_segments {g : Rx → Option β}
    (hflag : ∀ s, R.Inv s → (R.step s c.flag).2 = g (R.view s))
    (h : R.Inv s) {r : Rx} {cur : List UInt8} (hview : R.view s = c.collect r cur)
      (bs : List UInt8) :
    (R.feed s bs).2 = match segments c.flag cur bs with
      | [] => []
      | seg :: segs =>
        (g (c.collect r seg)).toList ++ segs.filterMap fun seg => g (c.collect {} seg) := by
  induction bs generalizing s r cur with
  | nil => rfl
  | cons ch bs ih =>
    by_cases hch : ch = c.flag
    · subst hch
      have hempty : R.view (R.step s c.flag).1 = c.collect {} [] := R.flag_view s
      have htail := ih (R.flag_inv h) hempty
      rw [segments, if_pos rfl]
      show (R.step s c.flag).2.toList ++ (R.feed (R.step s c.flag).1 bs).2 =
        (g (c.collect r cur)).toList ++ _
      rw [htail, hflag s h, hview]
      cases segments c.flag [] bs with
      | nil => rfl
      | cons seg segs => cases hg : g (c.collect {} seg) <;> simp [hg]
    · have hnext : R.view (R.step s ch).1 = c.collect r (cur ++ [ch]) := by
        rw [R.recv_view h hch, hview, collect_append]
        rfl
      rw [segments, if_neg hch, ← ih (R.recv_inv h hch) hnext]
      show (R.step s ch).2.toList ++ _ = _
      rw [R.recv_out hch]
      rfl

/-- One frame from a state right behind a flag. -/
theorem feed_frame (h : R.Inv s) (hview : R.view s = {})
    (henc : c.Encodes enc) {p : List UInt8} (hlimit : p.length < c.limit) (hp : R.Known p) :
    (R.feed s (p.flatMap enc ++ [c.flag])).2.map R.out = (R.deliver p).toList ∧
      R.Inv (R.feed s (p.flatMap enc ++ [c.flag])).1 ∧
      R.view (R.feed s (p.flatMap enc ++ [c.flag])).1 = {} := by
  obtain ⟨hcollect, hnone⟩ := R.feed_collect h (henc.flag_notMem p)
  have hinv := R.feed_inv h (p.flatMap enc)
  rw [hview, henc.collect_octets [] p (by simpa using hlimit), List.nil_append] at hcollect
  have hout := R.flag_out hinv hcollect hp
  refine ⟨?_, R.feed_inv h _, ?_⟩
  · rw [feed_append, hnone, List.nil_append]
    simp only [feed, List.append_nil]
    rw [← hout]
    cases (R.step (R.feed s (p.flatMap enc)).1 c.flag).2 <;> rfl
  · rw [feed_append]
    exact R.flag_view _

/-- **The round trip.** Frames in a row, each with an encoding of its own, from any state that a
flag brings into the invariant. What the state had before may be handed on when the first flag
comes; then each frame is, once and in order. -/
theorem feed_sent {ι : Type} (enc : ι → UInt8 → List UInt8) (data : ι → List UInt8) (ps : List ι)
    (henc : ∀ i ∈ ps, c.Encodes (enc i)) (hlimit : ∀ i ∈ ps, (data i).length < c.limit)
    (hknown : ∀ i ∈ ps, R.Known (data i)) (h : R.Inv (R.step s c.flag).1) :
    (R.feed s (ps.flatMap fun i => c.sent (enc i) (data i))).2.map R.out =
      (if ps = [] then [] else ((R.step s c.flag).2.map R.out).toList) ++
        ps.filterMap fun i => R.deliver (data i) := by
  induction ps generalizing s with
  | nil => rfl
  | cons i ps ih =>
    obtain ⟨hout, hinv, hview⟩ := R.feed_frame h (R.flag_view s)
      (henc i List.mem_cons_self) (hlimit i List.mem_cons_self) (hknown i List.mem_cons_self)
    have htail := ih (fun j hj => henc j (List.mem_cons_of_mem _ hj))
      (fun j hj => hlimit j (List.mem_cons_of_mem _ hj))
      (fun j hj => hknown j (List.mem_cons_of_mem _ hj)) (R.flag_inv hinv)
    -- The flag in front of the next frame ends an empty one.
    rw [R.flag_out hinv hview R.empty_known, R.empty_out, Option.toList_none, ite_self,
      List.nil_append] at htail
    rw [List.flatMap_cons, sent, List.cons_append, feed, feed_append, if_neg (List.cons_ne_nil _ _)]
    simp only [List.map_append, hout, htail]
    cases hd : R.deliver (data i) <;> cases (R.step s c.flag).2 <;> simp [hd]

/-- A frame that reaches the limit is not handed on. -/
theorem feed_overlong (h : R.Inv (R.step s c.flag).1)
    (hignore : ∀ s, (R.view s).ignore → (R.step s c.flag).2 = none)
    (henc : c.Encodes enc) {p : List UInt8} (hlimit : 0 < c.limit) (hp : c.limit ≤ p.length) :
    (R.feed s (c.sent enc p)).2 = (R.step s c.flag).2.toList := by
  obtain ⟨hcollect, hnone⟩ := R.feed_collect h (henc.flag_notMem p)
  have hlong : (c.collect (R.view (R.step s c.flag).1) (p.flatMap enc)).ignore := by
    rw [R.flag_view]
    exact henc.collect_overlong [] p hlimit (by simpa using hp)
  rw [← hcollect] at hlong
  simp [sent, feed, feed_append, hnone, hignore _ hlong]

end Receiver

end Liquorice
