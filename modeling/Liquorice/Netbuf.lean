import Liquorice.Lib.Owners
import Liquorice.Membuf
import Mathlib.Data.List.Nodup

/-!
# Netbufs

A netbuf of `src/lib/netbuf/netbuf.c` is a membuf that points to the membufs of its layers, each of
which has one reference for every netbuf that points to it. `netbuf_clone` copies the pointers and
takes the references, and the callback of the last release of a netbuf gives its references back.
The netbufs are the owners of the layers' membufs in the sense of `Lib/Owners`; the references to
the netbufs themselves are in the hands of the callers.

Membufs are known by numbers that are not used twice. The membufs of layers are allocated without a
callback.
-/

namespace Liquorice.Netbufs

open Owners Run Function

/-- The data of a layer: `nb_datalink_membuf`, `nb_datalink` and `nb_datalink_size` and so on. -/
structure Layer where
  membuf : Option Nat := none
  data : UInt16 := 0
  size : UInt16 := 0
  deriving DecidableEq

/-- `struct netbuf` -/
structure Netbuf where
  nbDatalink : Layer := {}
  nbNetwork : Layer := {}
  nbTransport : Layer := {}
  nbApplication : Layer := {}
  nbNext : Option Nat := none
  nbHintMembuf : Option Nat := none
  deriving DecidableEq

/-- The fields of a netbuf that point to membufs. -/
inductive Field where
  | datalink | network | transport | application | hint
  deriving DecidableEq

def fields : List Field := [.datalink, .network, .transport, .application, .hint]

namespace Netbuf

variable (nb : Netbuf)

def membuf : Field → Option Nat
  | .datalink => nb.nbDatalink.membuf
  | .network => nb.nbNetwork.membuf
  | .transport => nb.nbTransport.membuf
  | .application => nb.nbApplication.membuf
  | .hint => nb.nbHintMembuf

/-- The membufs that a netbuf points to. -/
def membufs : List Nat := fields.filterMap nb.membuf

/-- Let a field point to the membuf `mb`, with `data` and `size` if it is a layer's. -/
def put (f : Field) (mb : Nat) (data size : UInt16) : Netbuf :=
  match f with
  | .datalink => { nb with nbDatalink := ⟨some mb, data, size⟩ }
  | .network => { nb with nbNetwork := ⟨some mb, data, size⟩ }
  | .transport => { nb with nbTransport := ⟨some mb, data, size⟩ }
  | .application => { nb with nbApplication := ⟨some mb, data, size⟩ }
  | .hint => { nb with nbHintMembuf := some mb }

end Netbuf

/-- The membufs of layers that are allocated. -/
abbrev Heap := Nat → Option (Membuf Unit)

/-- `membuf_ref` of a layer's membuf. -/
def membufRef (h : Heap) (mb : Nat) : Heap := update h mb ((h mb).map Membuf.ref)

/-- What is left of a membuf after `membuf_deref`. -/
def released (m : Membuf Unit) : Option (Membuf Unit) := if m.deref.2 = 0 then none
    else some m.deref.1

/-- `membuf_deref` of a layer's membuf. -/
def membufDeref (h : Heap) (mb : Nat) : Heap := update h mb ((h mb).bind released)

/-- All membufs, and the references that the callers hold. -/
structure Store where
  layers : Heap
  nextLayer : Nat
  netbufs : Nat → Option (Membuf Netbuf)
  nextNetbuf : Nat
  /-- How many references to a netbuf the callers hold. -/
  users : Nat → Nat

def empty : Store := ⟨fun _ => none, 0, fun _ => none, 0, fun _ => 0⟩

namespace Store

variable (st : Store)

/-- `netbuf_alloc` -/
def netbufAlloc : Store :=
  { st with
    netbufs := update st.netbufs st.nextNetbuf (some (.alloc {}))
    nextNetbuf := st.nextNetbuf + 1
    users := update st.users st.nextNetbuf 1 }

/-- A new membuf is stored in a field of a netbuf that is empty, and its reference with it. -/
def store (n : Nat) (f : Field) (data size : UInt16) : Store :=
  match st.netbufs n with
  | none => st
  | some m =>
    if m.buf.membuf f = none then
      { st with
        layers := update st.layers st.nextLayer (some (.alloc ()))
        nextLayer := st.nextLayer + 1
        netbufs := update st.netbufs n (some { m with buf := m.buf.put f st.nextLayer data size }) }
    else st

/-- `netbuf_clone` -/
def netbufClone (n : Nat) : Store :=
  match st.netbufs n with
  | none => st
  | some m =>
    { st with
      layers := m.buf.membufs.foldl membufRef st.layers
      netbufs := update st.netbufs st.nextNetbuf (some (.alloc { m.buf with nbNext := none }))
      nextNetbuf := st.nextNetbuf + 1
      users := update st.users st.nextNetbuf 1 }

/-- `netbuf_ref` -/
def netbufRef (n : Nat) : Store :=
  match st.netbufs n with
  | none => st
  | some m =>
    { st with
      netbufs := update st.netbufs n (some m.ref)
      users := update st.users n (st.users n + 1) }

/-- `__netbuf_free` -/
def netbufFree (nb : Netbuf) : Heap := nb.membufs.foldl membufDeref st.layers

/-- `netbuf_deref` -/
def netbufDeref (n : Nat) : Store :=
  match st.netbufs n with
  | none => st
  | some m =>
    let users := update st.users n (st.users n - 1)
    if m.deref.2 = 0 then
      { st with layers := st.netbufFree m.buf, netbufs := update st.netbufs n none, users }
    else { st with netbufs := update st.netbufs n (some m.deref.1), users }

/-- The queue that a netbuf is on goes on with the netbuf `next`. -/
def link (n : Nat) (next : Option Nat) : Store :=
  match st.netbufs n with
  | none => st
  | some m =>
    { st with
      netbufs := update st.netbufs n (some { m with buf := { m.buf with nbNext := next } }) }

end Store

/-- What callers do. A call for a netbuf that is not there does nothing, since nobody has a
reference to it. -/
inductive Op where
  | alloc
  | store (n : Nat) (f : Field) (data size : UInt16)
  | clone (n : Nat)
  | ref (n : Nat)
  | deref (n : Nat)
  | link (n : Nat) (next : Option Nat)

def Store.step (st : Store) : Op → Store
  | .alloc => st.netbufAlloc
  | .store n f data size => st.store n f data size
  | .clone n => st.netbufClone n
  | .ref n => st.netbufRef n
  | .deref n => st.netbufDeref n
  | .link n next => st.link n next

/-! ## The invariant -/

/-- No membuf is in two fields. -/
def Netbuf.Separate (nb : Netbuf) : Prop :=
  ∀ f f' mb, nb.membuf f = some mb → nb.membuf f' = some mb → f = f'

variable {nb : Netbuf} {data size : UInt16} {st : Store}

theorem Netbuf.Separate.nodup (h : nb.Separate) : nb.membufs.Nodup :=
  List.Nodup.filterMap (fun f f' mb hf hf' => h f f' mb hf hf') (by decide)

theorem Netbuf.mem_membufs {mb : Nat} : mb ∈ nb.membufs ↔ ∃ f, nb.membuf f = some mb := by
  have hall : ∀ f, f ∈ fields := by
    intro f
    cases f <;> decide
  simp [Netbuf.membufs, List.mem_filterMap, hall]

theorem Netbuf.membuf_put {f f' : Field} {mb : Nat} :
    (nb.put f mb data size).membuf f' = if f' = f then some mb else nb.membuf f' := by
  cases f <;> cases f' <;> rfl

/-- An empty field takes a membuf. -/
theorem Netbuf.mem_membufs_put {f : Field} {mb mb' : Nat}
    (hempty : nb.membuf f = none) : mb' ∈ (nb.put f mb data size).membufs ↔ mb' = mb ∨
    mb' ∈ nb.membufs := by
  simp only [Netbuf.mem_membufs, Netbuf.membuf_put]
  constructor
  · rintro ⟨f', hf'⟩
    split at hf'
    · exact .inl (Option.some.inj hf').symm
    · exact .inr ⟨f', hf'⟩
  rintro (rfl | ⟨f', hf'⟩)
  · exact ⟨f, if_pos rfl⟩
  refine ⟨f', ?_⟩
  rw [if_neg]
  · exact hf'
  · rintro rfl
    rw [hempty] at hf'
    cases hf'

theorem Netbuf.Separate.put (h : nb.Separate) {f : Field} {mb : Nat}
    (hnew : mb ∉ nb.membufs) : (nb.put f mb data size).Separate := by
  intro f₁ f₂ mb' h₁ h₂
  rw [Netbuf.membuf_put] at h₁ h₂
  have hold : ∀ f', nb.membuf f' ≠ some mb := fun f' hf' => hnew (Netbuf.mem_membufs.mpr ⟨f', hf'⟩)
  split at h₁
  · rename_i hf₁
    split at h₂
    · rename_i hf₂
      rw [hf₁, hf₂]
    · exact absurd (h₂.trans h₁.symm) (hold f₂)
  · split at h₂
    · exact absurd (h₁.trans h₂.symm) (hold f₁)
    · exact h f₁ f₂ mb' h₁ h₂

/-- The membufs that a netbuf holds, if there is one. -/
def heldBy (nb : Option (Membuf Netbuf)) : List Nat := (nb.map fun m => m.buf.membufs).getD []

/-- The count in the header of a membuf with `n` references; without any it is freed. -/
def counted : Nat → Option UInt8
  | 0 => none
  | n + 1 => some (UInt8.ofNat (n + 1))

namespace Store

variable (st : Store)

/-- The membufs that the netbuf `n` holds, if it is there. -/
def held (n : Nat) : List Nat := heldBy (st.netbufs n)

/-- How many netbufs hold a membuf. -/
def holders (mb : Nat) : Nat := Owners.holders st.held st.nextNetbuf mb

/-- There are fewer than 256 references to any membuf. -/
def Few : Prop := (∀ n, st.users n < 256) ∧ ∀ mb, st.holders mb < 256

/-- The counts are the numbers of references. -/
structure Accounted : Prop where
  users : ∀ n, (st.netbufs n).map Membuf.mbRefs = counted (st.users n)
  holders : ∀ mb, (st.layers mb).map Membuf.mbRefs = counted (st.holders mb)
  separate : ∀ n m, st.netbufs n = some m → m.buf.Separate
  range : ∀ n, st.nextNetbuf ≤ n → st.netbufs n = none
  fresh : ∀ n mb, mb ∈ st.held n → mb < st.nextLayer

end Store

/-! ## One membuf -/

theorem some_of_counted {α : Type} {m : Option (Membuf α)} {n : Nat}
    (h : m.map Membuf.mbRefs = counted (n + 1)) :
    ∃ b, m = some b ∧ b.Counts (n + 1) := by
  obtain ⟨b, rfl, hb⟩ := Option.map_eq_some_iff.mp h
  exact ⟨b, rfl, hb⟩

theorem none_of_counted {α : Type} {m : Option (Membuf α)} (h : m.map Membuf.mbRefs = counted 0) :
    m = none :=
  Option.map_eq_none_iff.mp h

theorem counted_ref {m : Option (Membuf Unit)} {n : Nat}
    (h : m.map Membuf.mbRefs = counted (n + 1)) :
    (m.map Membuf.ref).map Membuf.mbRefs = counted (n + 2) := by
  obtain ⟨b, rfl, hb⟩ := some_of_counted h
  exact congrArg some hb.ref

theorem counted_released {m : Option (Membuf Unit)} {n : Nat}
    (h : m.map Membuf.mbRefs = counted (n + 1)) (hn : n < 256) :
    (m.bind released).map Membuf.mbRefs = counted n := by
  obtain ⟨b, rfl, hb⟩ := some_of_counted h
  rw [Option.bind_some, released]
  cases n with
  | zero => rw [if_pos ((hb.deref_eq_zero hn).mpr rfl)]; rfl
  | succ n =>
    rw [if_neg (mt (hb.deref_eq_zero hn).mp (Nat.succ_ne_zero n))]
    exact congrArg some hb.deref

/-! ## The steps keep the invariant -/

namespace Store

variable {st : Store} {n : Nat} {m : Membuf Netbuf}

theorem netbufDeref_none (hm : st.netbufs n = none) : st.netbufDeref n = st := by
  rw [netbufDeref, hm]

theorem netbufDeref_last (hm : st.netbufs n = some m) (hlast : m.deref.2 = 0) :
    st.netbufDeref n = { st with
      layers := st.netbufFree m.buf
      netbufs := update st.netbufs n none
      users := update st.users n (st.users n - 1) } := by
  rw [netbufDeref, hm]
  exact if_pos hlast

theorem netbufDeref_more (hm : st.netbufs n = some m) (hlast : m.deref.2 ≠ 0) :
    st.netbufDeref n = { st with
      netbufs := update st.netbufs n (some m.deref.1)
      users := update st.users n (st.users n - 1) } := by
  rw [netbufDeref, hm]
  exact if_neg hlast

theorem held_update (nb : Option (Membuf Netbuf)) :
    heldBy ∘ update st.netbufs n nb = update st.held n (heldBy nb) := by
  rw [Function.comp_update]
  rfl

namespace Accounted

theorem held_of_le (h : st.Accounted) (hn : st.nextNetbuf ≤ n) : st.held n = [] := by
  rw [held, h.range n hn]
  rfl

variable {mb : Nat}

/-- Who holds something is there. -/
theorem lt_of_mem (h : st.Accounted) (hmb : mb ∈ st.held n) : n < st.nextNetbuf := by
  by_contra hn
  rw [h.held_of_le (Nat.le_of_not_lt hn)] at hmb
  exact absurd hmb List.not_mem_nil

theorem holders_pos (h : st.Accounted) (hmb : mb ∈ st.held n) : 0 < st.holders mb :=
  Owners.holders_pos.mpr ⟨n, h.lt_of_mem hmb, hmb⟩

theorem holders_of_le (h : st.Accounted) (hmb : st.nextLayer ≤ mb) : st.holders mb = 0 := by
  refine Owners.holders_eq_zero.mpr fun n _ hheld => ?_
  exact absurd (h.fresh n mb hheld) (Nat.not_lt.mpr hmb)

variable {m : Membuf Netbuf}

variable (h : st.Accounted)

include h

theorem users_of_some (hm : st.netbufs n = some m) : ∃ k, st.users n = k + 1 ∧
    m.Counts (k + 1) := by
  have hcount := h.users n
  rw [hm] at hcount
  cases hk : st.users n with
  | zero =>
    rw [hk] at hcount
    cases hcount
  | succ k =>
    rw [hk] at hcount
    exact ⟨k, rfl, Option.some.inj hcount⟩

/-- A new netbuf with one reference, which holds the membufs `l` as the heap `layers` accounts for
them. -/
theorem new (nb : Netbuf) (hsep : nb.Separate) (hold : ∀ mb ∈ nb.membufs, mb < st.nextLayer)
    {layers : Heap} (hlayers : ∀ mb, (layers mb).map Membuf.mbRefs =
      counted (st.holders mb + if mb ∈ nb.membufs then 1 else 0)) :
    Accounted { st with
      layers
      netbufs := update st.netbufs st.nextNetbuf (some (.alloc nb))
      nextNetbuf := st.nextNetbuf + 1
      users := update st.users st.nextNetbuf 1 } where
  users := by
    intro n
    show (update st.netbufs st.nextNetbuf (some (.alloc nb)) n).map _ =
      counted (update st.users st.nextNetbuf 1 n)
    by_cases hn : n = st.nextNetbuf
    · rw [hn, update_self, update_self]
      rfl
    · rw [update_of_ne hn, update_of_ne hn]
      exact h.users n
  holders := by
    intro mb
    show (layers mb).map _ = counted
      (Owners.holders (heldBy ∘ update st.netbufs st.nextNetbuf _) _ mb)
    rw [held_update, holders_succ, holders_update_of_le (Nat.le_refl _), update_self]
    exact hlayers mb
  separate := by
    intro n m hm
    have hm' : update st.netbufs st.nextNetbuf (some (.alloc nb)) n = some m := hm
    by_cases hn : n = st.nextNetbuf
    · rw [hn, update_self] at hm'
      obtain rfl := Option.some.inj hm'
      exact hsep
    · rw [update_of_ne hn] at hm'
      exact h.separate n m hm'
  range := by
    intro n hn
    have hlt : st.nextNetbuf < n := hn
    exact (update_of_ne (Nat.ne_of_gt hlt) ..).trans (h.range n (Nat.le_of_lt hlt))
  fresh := by
    intro n mb hmb
    have hheld : mb ∈ (heldBy ∘ update st.netbufs st.nextNetbuf (some (.alloc nb))) n := hmb
    rw [held_update] at hheld
    by_cases hn : n = st.nextNetbuf
    · rw [hn, update_self] at hheld
      exact hold mb hheld
    · rw [update_of_ne hn] at hheld
      exact h.fresh n mb hheld

theorem alloc : st.netbufAlloc.Accounted :=
  h.new {} (fun f f' mb hf => by cases f <;> cases hf) nofun fun mb => h.holders mb

theorem clone : (st.netbufClone n).Accounted := by
  rw [netbufClone]
  split
  · exact h
  rename_i m hm
  have hsep : m.buf.Separate := h.separate n m hm
  have hheld : st.held n = m.buf.membufs := by rw [held, hm]; rfl
  refine h.new { m.buf with nbNext := none } hsep (fun mb hmb => ?_) fun mb => ?_
  · exact h.fresh n mb (hheld ▸ hmb)
  show (m.buf.membufs.foldl membufRef st.layers mb).map _ =
    counted (_ + if mb ∈ m.buf.membufs then 1 else 0)
  have hfold := foldl_update_of_nodup (Option.map Membuf.ref) st.layers hsep.nodup mb
  rw [show m.buf.membufs.foldl membufRef st.layers mb = _ from hfold]
  split
  · -- the original holds the membuf, and so it is there
    rename_i hmb
    obtain ⟨k, hk⟩ : ∃ k, st.holders mb = k + 1 :=
      Nat.exists_eq_succ_of_ne_zero (Nat.ne_of_gt (h.holders_pos (hheld ▸ hmb)))
    have hcount := h.holders mb
    rw [hk] at hcount ⊢
    exact counted_ref hcount
  · exact h.holders mb

/-- The netbuf `n` becomes `nb`, or is freed, and the heap `layers` accounts for what it holds
then. -/
theorem replace (hn : n < st.nextNetbuf) (nb : Option (Membuf Netbuf)) {users : Nat → Nat}
    {layers : Heap} {nextLayer : Nat} (hothers : ∀ k, k ≠ n → users k = st.users k)
    (hcount : nb.map Membuf.mbRefs = counted (users n)) (hsep : ∀ m, nb = some m → m.buf.Separate)
    (hnext : st.nextLayer ≤ nextLayer) (hold : ∀ mb ∈ heldBy nb, mb < nextLayer)
    (hlayers : ∀ mb k, k + (if mb ∈ st.held n then 1 else 0) = st.holders mb +
      (if mb ∈ heldBy nb then 1 else 0) →
      (layers mb).map Membuf.mbRefs = counted k) :
    Accounted ⟨layers, nextLayer, update st.netbufs n nb, st.nextNetbuf, users⟩ where
  users := by
    intro k
    show (update st.netbufs n nb k).map _ = counted (users k)
    by_cases hk : k = n
    · rw [hk, update_self]
      exact hcount
    · rw [update_of_ne hk, hothers k hk]
      exact h.users k
  holders := by
    intro mb
    apply hlayers mb
    show Owners.holders (heldBy ∘ update st.netbufs n nb) _ mb + _ = _
    rw [held_update]
    exact holders_update hn
  separate := by
    intro k m hm
    have hm' : update st.netbufs n nb k = some m := hm
    by_cases hk : k = n
    · rw [hk, update_self] at hm'
      exact hsep m hm'
    · rw [update_of_ne hk] at hm'
      exact h.separate k m hm'
  range := by
    intro k hk
    have hne : k ≠ n := fun heq => absurd hn (Nat.not_lt.mpr (heq ▸ hk))
    exact (update_of_ne hne ..).trans (h.range k hk)
  fresh := by
    intro k mb hmb
    have hheld : mb ∈ (heldBy ∘ update st.netbufs n nb) k := hmb
    rw [held_update] at hheld
    by_cases hk : k = n
    · rw [hk, update_self] at hheld
      exact hold mb hheld
    · rw [update_of_ne hk] at hheld
      exact Nat.lt_of_lt_of_le (h.fresh k mb hheld) hnext

theorem lt_of_some (hm : st.netbufs n = some m) : n < st.nextNetbuf := by
  by_contra hn
  rw [h.range n (Nat.le_of_not_lt hn)] at hm
  cases hm

/-- The netbuf `n` keeps its membufs. -/
theorem keep (hm : st.netbufs n = some m) (m' : Membuf Netbuf)
    {users : Nat → Nat} (hothers : ∀ k, k ≠ n → users k = st.users k)
    (hcount : some m'.mbRefs = counted (users n)) (hbuf : m'.buf.membuf = m.buf.membuf) :
    Accounted { st with netbufs := update st.netbufs n (some m'), users } := by
  have hheld : heldBy (some m') = st.held n := by
    rw [held, hm]
    show fields.filterMap m'.buf.membuf = fields.filterMap m.buf.membuf
    rw [hbuf]
  refine h.replace (h.lt_of_some hm) (some m') hothers hcount (fun m₁ hm₁ => ?_) (Nat.le_refl _)
    (fun mb hmb => h.fresh n mb (hheld ▸ hmb)) fun mb k hk => ?_
  · obtain rfl := Option.some.inj hm₁
    rw [Netbuf.Separate, hbuf]
    exact h.separate n m hm
  · rw [hheld] at hk
    rw [Nat.add_right_cancel hk]
    exact h.holders mb

theorem ref : (st.netbufRef n).Accounted := by
  rw [netbufRef]
  split
  · exact h
  rename_i m hm
  obtain ⟨k, hk, hcount⟩ := h.users_of_some hm
  refine h.keep hm m.ref (fun j hj => update_of_ne hj ..) ?_ rfl
  rw [update_self, hk]
  exact congrArg some hcount.ref

theorem link {next : Option Nat} : (st.link n next).Accounted := by
  rw [Store.link]
  split
  · exact h
  rename_i m hm
  have hcount := h.users n
  rw [hm] at hcount
  exact h.keep hm { m with buf := { m.buf with nbNext := next } } (fun _ _ => rfl) hcount rfl

/-- The last reference is released: the netbuf gives its membufs back. -/
theorem deref_last (hfew : st.Few) (hm : st.netbufs n = some m)
    (hone : st.users n = 1) (hlast : m.deref.2 = 0) : (st.netbufDeref n).Accounted := by
  have hheld : st.held n = m.buf.membufs := by rw [held, hm]; rfl
  have hsep : m.buf.Separate := h.separate n m hm
  rw [netbufDeref_last hm hlast]
  refine h.replace (h.lt_of_some hm) none (fun j hj => update_of_ne hj ..) ?_ nofun
    (Nat.le_refl _) nofun
    fun mb j hj => ?_
  · rw [update_self, hone]
    rfl
  have hfold := foldl_update_of_nodup (Option.bind · released) st.layers hsep.nodup mb
  rw [show st.netbufFree m.buf mb = _ from hfold]
  rw [hheld, show heldBy none = [] from rfl, if_neg List.not_mem_nil] at hj
  have hlayer := h.holders mb
  have hholders := hfew.2 mb
  split
  · rename_i hmb
    rw [if_pos hmb] at hj
    have hj' : st.holders mb = j + 1 := hj.symm
    rw [hj'] at hlayer hholders
    exact counted_released hlayer (Nat.lt_of_succ_lt hholders)
  rename_i hmb
  rw [if_neg hmb] at hj
  have hj' : j = st.holders mb := hj
  rw [hj']
  exact hlayer

theorem deref (hfew : st.Few) : (st.netbufDeref n).Accounted := by
  cases hm : st.netbufs n with
  | none =>
    rw [netbufDeref_none hm]
    exact h
  | some m =>
    obtain ⟨k, hk, hcount⟩ := h.users_of_some hm
    have hbound : k < 256 := by have := hfew.1 n; omega
    by_cases hlast : m.deref.2 = 0
    · have hzero : k = 0 := (hcount.deref_eq_zero hbound).mp hlast
      exact h.deref_last hfew hm (by rw [hk, hzero]) hlast
    have hnonzero : k ≠ 0 := fun hzero => hlast ((hcount.deref_eq_zero hbound).mpr hzero)
    obtain ⟨j, rfl⟩ := Nat.exists_eq_succ_of_ne_zero hnonzero
    rw [netbufDeref_more hm hlast]
    refine h.keep hm m.deref.1 (fun j hj => update_of_ne hj ..) ?_ rfl
    rw [update_self, hk]
    exact congrArg some hcount.deref

theorem store {f : Field} {data size : UInt16} : (st.store n f data size).Accounted := by
  rw [Store.store]
  split
  · exact h
  rename_i m hm
  split
  · rename_i hempty
    have hheld : st.held n = m.buf.membufs := by rw [held, hm]; rfl
    have hnew : st.nextLayer ∉ st.held n := fun hmb => Nat.lt_irrefl _ (h.fresh n _ hmb)
    have hcount := h.users n
    rw [hm] at hcount
    have hmem : ∀ mb, mb ∈ heldBy (some { m with buf := m.buf.put f st.nextLayer data size }) ↔
        mb = st.nextLayer ∨ mb ∈ st.held n := by
      intro mb
      rw [hheld]
      exact Netbuf.mem_membufs_put hempty
    refine h.replace (h.lt_of_some hm) _ (fun _ _ => rfl) hcount (fun m' hm' => ?_) (Nat.le_succ _)
      (fun mb hmb => ?_) fun mb k hk => ?_
    · obtain rfl := Option.some.inj hm'
      exact (h.separate n m hm).put (hheld ▸ hnew)
    · rcases (hmem mb).mp hmb with rfl | hmb'
      · exact Nat.lt_succ_self _
      · exact Nat.lt_succ_of_lt (h.fresh n mb hmb')
    simp only [hmem] at hk
    by_cases hmb : mb = st.nextLayer
    · -- the new membuf has one holder
      subst hmb
      rw [if_neg hnew, h.holders_of_le (Nat.le_refl _), if_pos (.inl rfl)] at hk
      have hone : k = 1 := by omega
      rw [update_self, hone]
      rfl
    rw [update_of_ne hmb]
    simp only [hmb, false_or] at hk
    rw [Nat.add_right_cancel hk]
    exact h.holders mb
  · exact h

theorem step (hfew : st.Few) (op : Op) : (st.step op).Accounted := by
  cases op with
  | alloc => exact h.alloc
  | store n f data size => exact h.store
  | clone n => exact h.clone
  | ref n => exact h.ref
  | deref n => exact h.deref hfew
  | link n next => exact h.link

theorem layers_none : st.layers mb = none ↔ st.holders mb = 0 := by
  have hcount := h.holders mb
  cases hk : st.holders mb with
  | zero =>
    rw [hk] at hcount
    exact ⟨fun _ => rfl, fun _ => none_of_counted hcount⟩
  | succ k =>
    rw [hk] at hcount
    obtain ⟨m, hm, _⟩ := some_of_counted hcount
    rw [hm]
    exact ⟨nofun, nofun⟩

theorem holders_eq_zero : st.holders mb = 0 ↔ ∀ n, mb ∉ st.held n := by
  constructor
  · intro hzero n hmb
    exact absurd hzero (Nat.ne_of_gt (h.holders_pos hmb))
  · intro hnone
    exact Owners.holders_eq_zero.mpr fun n _ => hnone n

/-- A membuf is freed with the last netbuf that holds it. -/
theorem freed (hfew : st.Few) {op : Op} (hthere : st.layers mb ≠ none)
    (hgone : (st.step op).layers mb = none) :
    ∃ n, op = .deref n ∧ mb ∈ st.held n ∧ (st.step op).netbufs n = none ∧ ∀ n', n' ≠ n →
      mb ∉ st.held n' := by
  have hnone : ∀ n, mb ∉ (st.step op).held n :=
    (h.step hfew op).holders_eq_zero.mp ((h.step hfew op).layers_none.mp hgone)
  cases op with
  | alloc => exact absurd hgone hthere
  | store n f data size =>
    simp only [Store.step, Store.store] at hgone
    split at hgone
    · exact absurd hgone hthere
    split at hgone
    · by_cases hmb : mb = st.nextLayer
      · rw [hmb] at hgone
        exact absurd ((update_self ..).symm.trans hgone) nofun
      · exact absurd ((update_of_ne hmb ..).symm.trans hgone) hthere
    · exact absurd hgone hthere
  | clone n =>
    simp only [Store.step, netbufClone] at hgone
    split at hgone
    · exact absurd hgone hthere
    rename_i m hm
    have hfold := foldl_update_of_nodup (Option.map Membuf.ref) st.layers
      (h.separate n m hm).nodup mb
    have hgone' := hfold.symm.trans hgone
    split at hgone'
    · exact absurd (Option.map_eq_none_iff.mp hgone') hthere
    · exact absurd hgone' hthere
  | ref n =>
    simp only [Store.step, netbufRef] at hgone
    split at hgone <;> exact absurd hgone hthere
  | link n next =>
    simp only [Store.step, Store.link] at hgone
    split at hgone <;> exact absurd hgone hthere
  | deref n =>
    have hdone : st.step (.deref n) = st.netbufDeref n := rfl
    rw [hdone] at hgone hnone ⊢
    cases hm : st.netbufs n with
    | none => exact absurd (netbufDeref_none hm ▸ hgone) hthere
    | some m =>
      by_cases hlast : m.deref.2 = 0
      · rw [netbufDeref_last hm hlast] at hgone hnone ⊢
        have hfold := foldl_update_of_nodup (Option.bind · released) st.layers
          (h.separate n m hm).nodup mb
        have hheld : st.held n = m.buf.membufs := by rw [held, hm]; rfl
        refine ⟨n, rfl, ?_, update_self .., fun n' hn' => ?_⟩
        · by_contra hmb
          rw [hheld] at hmb
          rw [if_neg hmb] at hfold
          exact hthere (hfold.symm.trans hgone)
        · have hother : mb ∉ heldBy (update st.netbufs n none n') := hnone n'
          rwa [update_of_ne hn'] at hother
      · rw [netbufDeref_more hm hlast] at hgone
        exact absurd hgone hthere

end Accounted

end Store

theorem accounted_empty : empty.Accounted :=
  ⟨fun _ => rfl, fun _ => rfl, nofun, fun _ _ => rfl, nofun⟩

theorem accounted_exec {ops : List Op} (h : st.Accounted)
    (hfew : Throughout Store.step Store.Few st ops) : (exec Store.step st ops).Accounted := by
  induction ops generalizing st with
  | nil => exact h
  | cons op ops ih => exact ih (h.step hfew.1 op) hfew.2

/-! ## Runs -/

/-- What a call changes in the number of references to the netbuf `n` that the callers have. -/
def Store.gives (st : Store) (n : Nat) : Op → Int
  | .alloc => if n = st.nextNetbuf then 1 else 0
  | .clone n' => if (st.netbufs n').isSome then if n = st.nextNetbuf then 1 else 0 else 0
  | .ref n' => if (st.netbufs n').isSome then if n = n' then 1 else 0 else 0
  | .deref n' => if (st.netbufs n').isSome then if n = n' then -1 else 0 else 0
  | .store .. | .link .. => 0

/-- The references to the netbuf `n`, counted from the calls. -/
def references (n : Nat) : Store → List Op → Int
  | _, [] => 0
  | st, op :: ops => st.gives n op + references n (st.step op) ops

theorem Store.Accounted.some_iff (h : st.Accounted) (n : Nat) : (st.netbufs n).isSome ↔
    0 < st.users n := by
  have hcount := h.users n
  cases hk : st.users n with
  | zero =>
    rw [hk] at hcount
    simp [none_of_counted hcount]
  | succ k =>
    rw [hk] at hcount
    obtain ⟨m, hm, _⟩ := some_of_counted hcount
    simp [hm]

theorem Store.Accounted.users_step (h : st.Accounted) (n : Nat) (op : Op) :
    ((st.step op).users n : Int) = st.users n + st.gives n op := by
  have hupdate : ∀ (i v : Nat) (k : Int), (v : Int) = st.users i + k →
      ((update st.users i v n : Nat) : Int) = st.users n + if n = i then k else 0 := by
    intro i v k hv
    by_cases hn : n = i
    · rw [hn, update_self, if_pos rfl, hv]
    · rw [update_of_ne hn, if_neg hn, Int.add_zero]
  have hnew : ((1 : Nat) : Int) = st.users st.nextNetbuf + 1 := by
    have hnone := h.some_iff st.nextNetbuf
    rw [h.range _ (Nat.le_refl _)] at hnone
    have hzero : st.users st.nextNetbuf = 0 := by simpa using hnone
    rw [hzero]
    rfl
  cases op with
  | alloc => exact hupdate _ _ _ hnew
  | store n' f data size =>
    simp only [Store.step, Store.store, Store.gives, Int.add_zero]
    split
    · rfl
    · split <;> rfl
  | clone n' =>
    simp only [Store.step, Store.netbufClone, Store.gives]
    cases hm : st.netbufs n' with
    | none => simp
    | some m => exact hupdate _ _ _ hnew
  | ref n' =>
    simp only [Store.step, Store.netbufRef, Store.gives]
    cases hm : st.netbufs n' with
    | none => simp
    | some m => exact hupdate _ _ _ (Int.natCast_add ..)
  | deref n' =>
    cases hm : st.netbufs n' with
    | none => simp [Store.step, Store.netbufDeref, Store.gives, hm]
    | some m =>
      have hpos := (h.some_iff n').mp (by rw [hm]; rfl)
      have hless : ((st.users n' - 1 : Nat) : Int) = st.users n' + -1 := by omega
      simp only [Store.step, Store.netbufDeref, Store.gives, hm]
      split <;> exact hupdate _ _ _ hless
  | link n' next =>
    simp only [Store.step, Store.link, Store.gives, Int.add_zero]
    split <;> rfl

theorem users_exec {ops : List Op} (h : st.Accounted)
    (hfew : Throughout Store.step Store.Few st ops) (n : Nat) :
    ((exec Store.step st ops).users n : Int) = st.users n + references n st ops := by
  induction ops generalizing st with
  | nil => exact (Int.add_zero _).symm
  | cons op ops ih =>
    rw [references, ← Int.add_assoc, ← h.users_step]
    exact ih (h.step hfew.1 op) hfew.2

/-- **Netbufs account for what they share.** While there are fewer than 256 references to any
membuf, the count of a layer's membuf is the number of netbufs that hold it, and it is there as long
as there is one. It is freed with the last of them. A clone is its original, but on no queue. When
the callers have given all their references back then no membuf is left; a netbuf is there exactly
as long as they have one. -/
theorem sharing_accounted (ops : List Op) (hfew : Throughout Store.step Store.Few empty ops) :
    let st := exec Store.step empty ops
    (∀ mb m, st.layers mb = some m → m.mbRefs.toNat = st.holders mb) ∧
    (∀ mb, st.layers mb = none ↔ ∀ n, mb ∉ st.held n) ∧
    (∀ op mb, st.layers mb ≠ none → (st.step op).layers mb = none →
      ∃ n, op = .deref n ∧ mb ∈ st.held n ∧ (st.step op).netbufs n = none ∧ ∀ n', n' ≠ n →
        mb ∉ st.held n') ∧
    (∀ n m, st.netbufs n = some m →
      ∃ c, (st.step (.clone n)).netbufs st.nextNetbuf = some c ∧
        c.buf = { m.buf with nbNext := none }) ∧
    ((∀ n, st.users n = 0) → (∀ mb, st.layers mb = none) ∧ ∀ n, st.netbufs n = none) ∧
    ∀ n, (st.users n : Int) = references n empty ops ∧
        ((st.netbufs n).isSome ↔ 0 < st.users n) := by
  intro st
  have h : st.Accounted := accounted_exec accounted_empty hfew
  have hfew' : st.Few := hfew.last
  refine ⟨fun mb m hm => ?_, fun mb => h.layers_none.trans h.holders_eq_zero,
    fun op mb => h.freed hfew',
    fun n m hm => ?_, fun hnone => ?_,
    fun n => ⟨(users_exec accounted_empty hfew n).trans (Int.zero_add _), h.some_iff n⟩⟩
  · have hcount := h.holders mb
    rw [hm] at hcount
    cases hk : st.holders mb with
    | zero =>
      rw [hk] at hcount
      cases hcount
    | succ k =>
      have hbound := hfew'.2 mb
      rw [hk] at hcount hbound
      have hrefs : m.mbRefs = UInt8.ofNat (k + 1) := Option.some.inj hcount
      rw [hrefs, UInt8.toNat_ofNat', Nat.mod_eq_of_lt hbound]
  · refine ⟨.alloc { m.buf with nbNext := none }, ?_, rfl⟩
    simp only [Store.step, Store.netbufClone, hm]
    exact update_self ..
  · have hnetbufs : ∀ n, st.netbufs n = none := by
      intro n
      have hcount := h.users n
      rw [hnone n] at hcount
      exact none_of_counted hcount
    refine ⟨fun mb => h.layers_none.mpr (h.holders_eq_zero.mpr fun n hmb => ?_), hnetbufs⟩
    rw [Store.held, hnetbufs n] at hmb
    exact absurd hmb List.not_mem_nil

/-- A netbuf with data on a queue, its clone, and the release of the original: the clone has the
data. -/
theorem sharing_accounted_clone :
    let ops : List Op := [.alloc, .store 0 .application 100 5, .link 0 (some 7), .clone 0, .deref 0]
    let st := exec Store.step empty ops
    Throughout Store.step Store.Few empty ops ∧ st.netbufs 0 = none ∧ st.held 1 = [0] ∧
      (∀ m, st.layers 0 = some m → m.mbRefs.toNat = st.holders 0) := by
  intro ops st
  -- two netbufs are made, and nobody takes a second reference
  have hshort : ∀ st : Store, (∀ n, st.users n ≤ 1) → st.nextNetbuf ≤ 2 → st.Few :=
      fun st husers hnext =>
    ⟨fun n => Nat.lt_of_le_of_lt (husers n) (by decide),
      fun _ => Nat.lt_of_le_of_lt (Nat.le_trans holders_le hnext) (by decide)⟩
  have hone : ∀ i v, v ≤ 1 → ∀ users : Nat → Nat, (∀ n, users n ≤ 1) →
      ∀ n, update users i v n ≤ 1 := by
    intro i v hv users husers n
    rw [update_apply]
    split
    · exact hv
    · exact husers n
  have hnone : ∀ n, empty.users n ≤ 1 := fun _ => Nat.zero_le 1
  have hfirst := hone 0 1 (Nat.le_refl 1) _ hnone
  have hsecond := hone 1 1 (Nat.le_refl 1) _ hfirst
  have hfew : Throughout Store.step Store.Few empty ops :=
    ⟨hshort _ hnone (by decide), hshort _ hfirst (by decide), hshort _ hfirst (by decide),
      hshort _ hfirst (by decide), hshort _ hsecond (by decide),
      hshort _ (hone 0 0 (Nat.zero_le 1) _ hsecond) (by decide)⟩
  exact ⟨hfew, rfl, by decide, (sharing_accounted ops hfew).1 0⟩

end Liquorice.Netbufs
