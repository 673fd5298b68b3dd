import Liquorice.Lib.Run
import Mathlib.Algebra.Ring.Nat
import Mathlib.Data.List.Induction
import Mathlib.Data.List.Sort
import Mathlib.Data.List.TakeWhile

/-!
# The routes of an IP instance

`ip_route_add` and `ip_route_find` of `src/lib/ethernet_ip/ethernet_ip.c`. The list is kept in such
an order that the first route that matches is the one to take: no route stands before a more
specific one (`Yields`).
-/

namespace Liquorice.EthernetIp

open Run

/-- `struct ip_route`. `irn_addr` and `irh_addr` are one word of the union; the word behind it is
`irn_netmask`, and no part of a host route. -/
structure IpRoute where
  irNetwork : Bool
  irAddr : UInt32
  irnNetmask : UInt32
  irGateway : UInt32
  deriving DecidableEq

/-- `ip_route_add` -/
def ipRouteAdd (l : List IpRoute) (radd : IpRoute) : List IpRoute :=
  if radd.irNetwork then
    let r := l.dropWhile fun r => r.irNetwork = false
    l.takeWhile (fun r => r.irNetwork = false) ++
      r.takeWhile (fun r => r.irnNetmask > radd.irnNetmask) ++
      radd :: r.dropWhile fun r => r.irnNetmask > radd.irnNetmask
  else radd :: l

/-- The address is that of the host, or in the network. -/
def IpRoute.Matches (ip : UInt32) (r : IpRoute) : Prop :=
  if r.irNetwork then ip &&& r.irnNetmask = r.irAddr else ip = r.irAddr
  deriving Decidable

/-- `ip_route_find` -/
def ipRouteFind (l : List IpRoute) (ip : UInt32) : Option IpRoute := l.find? fun r => r.Matches ip

/-- The route `r'` is not more specific than `r`. -/
def IpRoute.Yields (r r' : IpRoute) : Prop :=
  r.irNetwork = true → r'.irNetwork ∧ r'.irnNetmask ≤ r.irnNetmask

/-- Of the routes that were added, the route is the last one that no other one is more specific
than. -/
def Best (rs : List IpRoute) (ip : UInt32) (r : IpRoute) : Prop :=
  ∃ before after, rs = before ++ r :: after ∧ r.Matches ip ∧
    (∀ r' ∈ before, r'.Matches ip → r.Yields r') ∧ ∀ r' ∈ after, r'.Matches ip → ¬ r'.Yields r

variable {l rs : List IpRoute} {r : IpRoute} {ip : UInt32}

instance : DecidableRel IpRoute.Yields := fun _ _ => inferInstanceAs (Decidable (_ → _))

instance : IsTrans IpRoute IpRoute.Yields where
  trans _ _ _ h h' hr := ⟨(h' (h hr).1).1, UInt32.le_trans (h' (h hr).1).2 (h hr).2⟩

instance : Std.Total IpRoute.Yields where
  total r r' := by
    by_cases h : r.irNetwork ∧ r'.irNetwork
    · exact (UInt32.le_total r'.irnNetmask r.irnNetmask).imp (fun hle _ => ⟨h.2, hle⟩) fun hle _ =>
        ⟨h.1, hle⟩
    · rcases not_and_or.mp h with hr | hr
      · exact .inl fun h => absurd h hr
      · exact .inr fun h => absurd h hr

/-- In a list that is in order, the two loops of `ip_route_add` stop where the order says. -/
theorem ipRouteAdd_eq (h : l.Pairwise IpRoute.Yields) (r : IpRoute) :
    ipRouteAdd l r = l.orderedInsert IpRoute.Yields r := by
  by_cases hr : r.irNetwork
  · induction l with
    | nil => simp [ipRouteAdd]
    | cons a l ih =>
      obtain ⟨hfirst, hrest⟩ := List.pairwise_cons.mp h
      have ih' := ih hrest
      rw [ipRouteAdd, if_pos hr] at ih' ⊢
      by_cases ha : a.irNetwork
      · -- the first loop is over, and the routes from here on are networks
        have hover : l.takeWhile (fun b => !b.irNetwork) = [] ∧
            l.dropWhile (fun b => !b.irNetwork) = l := by
          cases l with
          | nil => exact ⟨rfl, rfl⟩
          | cons b l => simp [(hfirst b List.mem_cons_self ha).1]
        by_cases hlt : r.irnNetmask < a.irnNetmask
        · have hnot : ¬ r.Yields a := fun hra => UInt32.not_le.mpr hlt (hra hr).2
          rw [List.orderedInsert_of_not_le _ _ hnot, ← ih']
          simp [ha, hlt, hover]
        · rw [List.orderedInsert_cons_of_le _ _ fun _ => ⟨ha, UInt32.not_lt.mp hlt⟩]
          simp [ha, hlt]
      · rw [List.orderedInsert_of_not_le _ _ fun hra => ha (hra hr).1, ← ih']
        simp [ha]
  · rw [ipRouteAdd, if_neg hr]
    cases l with
    | nil => rfl
    | cons a l => rw [List.orderedInsert_cons_of_le _ _ fun h => absurd h hr]

/-- What holds of the list after the routes `rs` were added, in this order. -/
structure Routed (rs l : List IpRoute) : Prop where
  sorted : l.Pairwise IpRoute.Yields
  mem : ∀ {r}, r ∈ l ↔ r ∈ rs
  best : ∀ {r ip}, ipRouteFind l ip = some r → Best rs ip r

theorem Routed.add (h : Routed rs l) (r : IpRoute) : Routed (rs ++ [r]) (ipRouteAdd l r) := by
  have hsorted := h.sorted.orderedInsert r
  rw [ipRouteAdd_eq h.sorted]
  refine ⟨hsorted, fun {a} => by simp [h.mem, or_comm], fun {a ip} ha => ?_⟩
  -- a route that was there is still the best one if the new one does not match or is less specific
  have hold : ipRouteFind l ip = some a → (r.Matches ip → ¬ r.Yields a) →
      Best (rs ++ [r]) ip a := by
    intro hfind hless
    obtain ⟨before, after, rfl, hmatch, hfirst, hlast⟩ := h.best hfind
    refine ⟨before, after ++ [r], by simp, hmatch, hfirst, fun r' hr' => ?_⟩
    rcases List.mem_append.mp hr' with hr' | hr'
    · exact hlast r' hr'
    · obtain rfl := List.mem_singleton.mp hr'
      exact hless
  have hsplit : l.takeWhile (fun b => ¬ r.Yields b) ++ l.dropWhile (fun b => ¬ r.Yields b) = l :=
    List.takeWhile_append_dropWhile
  rw [List.orderedInsert_eq_take_drop, List.pairwise_append, List.pairwise_cons] at hsorted
  rw [ipRouteFind, List.orderedInsert_eq_take_drop, List.find?_append, List.find?_cons] at ha
  rw [ipRouteFind, ← hsplit, List.find?_append] at hold
  cases hfound : (l.takeWhile fun b => ¬ r.Yields b).find? fun r => r.Matches ip with
  | some b =>
    rw [hfound] at ha hold
    obtain rfl : b = a := by simpa using ha
    exact hold rfl fun _ => by simpa using List.mem_takeWhile_imp (List.mem_of_find?_eq_some hfound)
  | none =>
    rw [hfound] at ha hold
    by_cases hr : r.Matches ip
    · obtain rfl : r = a := by simpa [hr] using ha
      refine ⟨rs, [], by simp, hr, fun r' hr' hmatch => ?_, nofun⟩
      rw [← h.mem, ← hsplit] at hr'
      refine (List.mem_append.mp hr').elim (fun hr' => ?_) (hsorted.2.1.1 r')
      simpa [hmatch] using List.find?_eq_none.mp hfound r' hr'
    · exact hold (by simpa [hr] using ha) fun hr' => absurd hr' hr

theorem routed_exec (rs : List IpRoute) : Routed rs (exec ipRouteAdd [] rs) := by
  induction rs using List.reverseRecOn with
  | nil => exact ⟨.nil, Iff.rfl, nofun⟩
  | append_singleton rs r ih =>
    rw [exec_append]
    exact ih.add r

/-! ## Prefix lengths -/

/-- The contiguous netmask of a length. -/
def netmask (n : Nat) : UInt32 := UInt32.ofNat (2 ^ 32 - 2 ^ (32 - n))

/-- How specific a route is, if its netmask has the length `len`. -/
def IpRoute.rank (len : IpRoute → Nat) (r : IpRoute) : Nat := if r.irNetwork then len r else 33

theorem netmask_le : ∀ m ≤ 32, ∀ n ≤ 32, (netmask m ≤ netmask n ↔ m ≤ n) := by decide +kernel

/-- The order of the netmasks as numbers is that of their lengths. -/
theorem yields_iff {len : IpRoute → Nat} {r r' : IpRoute}
    (hr : r.irNetwork → len r ≤ 32 ∧ r.irnNetmask = netmask (len r))
    (hr' : r'.irNetwork → len r' ≤ 32 ∧ r'.irnNetmask = netmask (len r')) :
    r.Yields r' ↔ r'.rank len ≤ r.rank len := by
  unfold IpRoute.Yields IpRoute.rank
  by_cases h : r.irNetwork
  · by_cases h' : r'.irNetwork
    · rw [if_pos h, if_pos h', (hr h).2, (hr' h').2, netmask_le _ (hr' h').1 _ (hr h).1]
      simp [h, h']
    · have hlen := (hr h).1
      simp only [h, h', if_true, if_false, Bool.false_eq_true, false_and, forall_const, false_iff]
      omega
  by_cases h' : r'.irNetwork
  · have hlen := (hr' h').1
    simp [h, h']
    omega
  · simp [h, h']

/-- **`ip_route_find` finds the longest prefix.** The route that it returns is the most recent one
of the most specific ones that match, a host route being more specific than every network route, and
it returns null only if no route matches. -/
theorem ipRouteFind_longest (rs : List IpRoute) (len : IpRoute → Nat)
    (hlen : ∀ r ∈ rs, r.irNetwork → len r ≤ 32 ∧ r.irnNetmask = netmask (len r)) (ip : UInt32) :
    let l := exec ipRouteAdd [] rs
    (∀ r, ipRouteFind l ip = some r → Best rs ip r) ∧
      (ipRouteFind l ip = none → ∀ r ∈ rs, ¬ r.Matches ip) ∧
      l.Pairwise IpRoute.Yields ∧ ∀ r ∈ rs, ∀ r' ∈ rs,
          (r.Yields r' ↔ r'.rank len ≤ r.rank len) := by
  obtain ⟨hsorted, hmem, hbest⟩ := routed_exec rs
  refine ⟨fun r => hbest, fun hnone r hr => ?_, hsorted, fun r hr r' hr' =>
    yields_iff (hlen r hr) (hlen r' hr')⟩
  simpa using List.find?_eq_none.mp hnone r (hmem.mpr hr)

/-- The default route, a network and a smaller one in it: each goes in front of those before it. -/
theorem ipRouteFind_longest_nested :
    let rs : List IpRoute := [⟨true, 0, netmask 0, 3⟩, ⟨true, 0x0a000000, netmask 8, 2⟩,
      ⟨true, 0x0a010000, netmask 16, 1⟩]
    exec ipRouteAdd [] rs = rs.reverse ∧ Best rs 0x0a010203 ⟨true, 0x0a010000, netmask 16, 1⟩ :=
  ⟨by decide +kernel,
    (ipRouteFind_longest _ (fun r => if r.irGateway = 1 then 16
      else if r.irGateway = 2 then 8 else 0)
      (by decide +kernel) 0x0a010203).1 _ (by decide +kernel)⟩

end Liquorice.EthernetIp
