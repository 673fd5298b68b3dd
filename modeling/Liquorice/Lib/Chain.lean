import Mathlib.Data.List.TakeWhile
import Mathlib.Data.Fintype.Card

/-!
# Singly linked lists in a store of next pointers

A singly linked list of C is a head pointer and a next pointer in every cell; here a store
(`Links α`) with `Option α` for a pointer that may be null. The pointer-to-pointer with which C
code walks such a list (`**prev`) is a `Cursor`: the head, or the next field of a cell. `Chain`
says which cells a walk visits; a null-terminated chain never visits a cell twice
(`Chain.nodup`), so on a finite type of cells its length is bounded (`IsList.length_le_card`).

The loop `while (q && !stop(q)) { prev = &q->next; q = q->next; }` is `seek`. On a list it stops
in front of the first cell that satisfies `stop` (`seek_eq`), and the two ways to write through
the cursor it returns, `insert` and `unlink`, insert a cell there and remove the cell found.
-/

namespace Liquorice.Linked

open Function

variable {α : Type} {next next' : α → Option α} {p q : Option α} {l : List α}

/-- Following `next` from the pointer `p` visits the cells of the list in order and then holds
the pointer `q`. -/
def Chain (next : α → Option α) : Option α → List α → Option α → Prop
  | p, [], q => p = q
  | p, a :: l, q => p = some a ∧ Chain next (next a) l q

@[simp] theorem chain_nil : Chain next p [] q ↔ p = q := Iff.rfl

@[simp] theorem chain_cons {a : α} :
    Chain next p (a :: l) q ↔ p = some a ∧ Chain next (next a) l q := Iff.rfl

theorem chain_append {l₁ l₂ : List α} :
    Chain next p (l₁ ++ l₂) q ↔ ∃ r, Chain next p l₁ r ∧ Chain next r l₂ q := by
  induction l₁ generalizing p with
  | nil => simp
  | cons a l₁ ih => simp [List.cons_append, chain_cons, ih, exists_and_left, and_assoc]

theorem chain_congr (h : ∀ a ∈ l, next a = next' a) : Chain next p l q ↔ Chain next' p l q := by
  induction l generalizing p with
  | nil => simp
  | cons a l ih =>
    rw [chain_cons, chain_cons, ih (fun b hb => h b (List.mem_cons_of_mem _ hb)),
      h a List.mem_cons_self]

/-- The cells of a null-terminated chain are determined by its first pointer. -/
theorem Chain.unique {l l' : List α} (h : Chain next p l none) (h' : Chain next p l' none) :
    l = l' := by
  induction l generalizing p l' with
  | nil =>
    cases l' with
    | nil => rfl
    | cons b l' => simp only [chain_nil] at h; simp [h] at h'
  | cons a l ih =>
    cases l' with
    | nil => simp only [chain_nil] at h'; simp [h'] at h
    | cons b l' =>
      have hab : a = b := Option.some.inj (h.1.symm.trans h'.1)
      subst hab
      rw [ih h.2 h'.2]

/-- A null-terminated chain visits no cell twice: the walk from the second visit would be as long
as the walk from the first. -/
theorem Chain.nodup (h : Chain next p l none) : l.Nodup := by
  induction l generalizing p with
  | nil => exact List.nodup_nil
  | cons a l ih =>
    refine List.nodup_cons.2 ⟨fun hmem => ?_, ih h.2⟩
    obtain ⟨l₁, l₂, rfl⟩ := List.append_of_mem hmem
    obtain ⟨r, -, hr⟩ := chain_append.1 h.2
    have heq := Chain.unique h.2 hr.2
    have hlen := congrArg List.length heq
    simp only [List.length_append, List.length_cons] at hlen
    omega

/-- Where a walk stands: at the head pointer, or at the next field of a cell. -/
inductive Cursor (α : Type) where
  | head
  | after (a : α)
  deriving DecidableEq

/-- The cursor that has passed the cells of a list. -/
def Cursor.past : Cursor α → List α → Cursor α
  | c, [] => c
  | _, a :: l => Cursor.past (.after a) l

theorem past_append (c : Cursor α) (l₁ l₂ : List α) : c.past (l₁ ++ l₂) = (c.past l₁).past l₂ := by
  induction l₁ generalizing c with
  | nil => rfl
  | cons a l₁ ih => exact ih (.after a)

/-- A head pointer and the next pointer of every cell. -/
@[ext] structure Links (α : Type) where
  head : Option α
  next : α → Option α

namespace Links

/-- `*prev` -/
def get (s : Links α) : Cursor α → Option α
  | .head => s.head
  | .after a => s.next a

/-- `*prev = q` -/
def set [DecidableEq α] (s : Links α) (c : Cursor α) (q : Option α) : Links α :=
  match c with
  | .head => { s with head := q }
  | .after a => { s with next := update s.next a q }

/-- `a->next = *prev; *prev = a` -/
def insert [DecidableEq α] (s : Links α) (c : Cursor α) (a : α) : Links α :=
  { s with next := update s.next a (s.get c) }.set c (some a)

/-- `*prev = a->next` -/
def unlink [DecidableEq α] (s : Links α) (c : Cursor α) (a : α) : Links α := s.set c (s.next a)

/-- `while (*prev && !stop(*prev)) prev = &(*prev)->next`, for at most `fuel` cells. -/
def seek (s : Links α) (stop : α → Bool) : Nat → Cursor α → Cursor α
  | 0, c => c
  | fuel + 1, c =>
    match s.get c with
    | none => c
    | some a => if stop a then c else s.seek stop fuel (.after a)

/-- The cells met from the head, for at most `fuel` of them. -/
def toList (s : Links α) : Nat → Cursor α → List α
  | 0, _ => []
  | fuel + 1, c =>
    match s.get c with
    | none => []
    | some a => a :: s.toList fuel (.after a)

/-- The store holds the null-terminated list `l`. -/
def IsList (s : Links α) (l : List α) : Prop := Chain s.next s.head l none

variable {s : Links α} {l pre post : List α} {stop : α → Bool} {c : Cursor α} {fuel : Nat} {a : α}

theorem IsList.nodup (h : s.IsList l) : l.Nodup := Chain.nodup h

theorem IsList.unique {l' : List α} (h : s.IsList l) (h' : s.IsList l') : l = l' :=
  Chain.unique h h'

theorem IsList.length_le_card [Fintype α] (h : s.IsList l) : l.length ≤ Fintype.card α :=
  h.nodup.length_le_card

@[simp] theorem isList_nil : s.IsList [] ↔ s.head = none := Iff.rfl

theorem isList_cons :
    s.IsList (a :: l) ↔ s.head = some a ∧ Chain s.next (s.next a) l none := Iff.rfl

theorem IsList.head_eq (h : s.IsList l) : s.head = l.head? := by
  cases l with
  | nil => exact h
  | cons a l => exact h.1

/-- In a list the next pointer of a cell is the cell behind it. -/
theorem IsList.next_eq (h : s.IsList (pre ++ a :: post)) : s.next a = post.head? := by
  obtain ⟨r, -, hr⟩ := chain_append.1 h
  cases post with
  | nil => exact hr.2
  | cons b post => exact hr.2.1

/-- The cells behind a cell of a list form a list from its next pointer. -/
theorem IsList.chain_next (h : s.IsList (pre ++ a :: post)) :
    Chain s.next (s.next a) post none := by
  obtain ⟨r, -, hr⟩ := chain_append.1 h
  exact hr.2

/-- A cursor past the cells of a chain points to where the chain ends. -/
theorem get_past (h : Chain s.next (s.get c) pre q) : s.get (c.past pre) = q := by
  induction pre generalizing c with
  | nil => exact h
  | cons a pre ih => exact ih (c := .after a) h.2

theorem seek_past (h : Chain s.next (s.get c) l none) (hfuel : l.length ≤ fuel) :
    s.seek stop fuel c = c.past (l.takeWhile fun a => !stop a) := by
  induction l generalizing c fuel with
  | nil =>
    cases fuel with
    | zero => rfl
    | succ n => simp only [chain_nil] at h; simp [seek, h, Cursor.past]
  | cons a l ih =>
    cases fuel with
    | zero => simp at hfuel
    | succ n =>
      obtain ⟨hget, htail⟩ := h
      have hlen : l.length ≤ n := by simpa using hfuel
      cases hstop : stop a with
      | true => simp [seek, hget, hstop, Cursor.past]
      | false =>
        simp only [seek, hget, hstop, Bool.false_eq_true, if_false, List.takeWhile_cons,
          Bool.not_false, if_true, Cursor.past]
        exact ih (c := .after a) htail hlen

/-- **A walk stops in front of the first cell that satisfies the condition.** -/
theorem seek_eq (h : s.IsList l) (hfuel : l.length ≤ fuel) :
    s.seek stop fuel .head = Cursor.head.past (l.takeWhile fun a => !stop a) :=
  seek_past (c := .head) h hfuel

/-- The cursor past the first cells of a list points to the next cell. -/
theorem IsList.get_after (h : s.IsList (pre ++ post)) :
    s.get (Cursor.head.past pre) = post.head? := by
  obtain ⟨r, hr, hr'⟩ := chain_append.1 h
  rw [get_past (c := .head) hr]
  cases post with
  | nil => exact hr'
  | cons b t => exact hr'.1

theorem get_seek (h : s.IsList l) (hfuel : l.length ≤ fuel) :
    s.get (s.seek stop fuel .head) = (l.dropWhile fun a => !stop a).head? := by
  rw [seek_eq h hfuel]
  apply IsList.get_after
  rwa [List.takeWhile_append_dropWhile]

/-- A walk splits the list where it stops. -/
theorem seek_split (stop : α → Bool) (h : s.IsList l) (hfuel : l.length ≤ fuel) :
    ∃ as bs, l = as ++ bs ∧ s.seek stop fuel .head = Cursor.head.past as ∧
      (∀ a ∈ as, stop a = false) ∧ ∀ b ∈ bs.head?, stop b := by
  refine ⟨l.takeWhile fun a => !stop a, l.dropWhile fun a => !stop a,
    List.takeWhile_append_dropWhile.symm, seek_eq h hfuel, fun a ha => ?_, fun b hb => ?_⟩
  · simpa using List.mem_takeWhile_imp ha
  · have := List.head?_dropWhile_not (fun a => !stop a) l
    rw [Option.mem_def.1 hb] at this
    simpa using this

/-- A walk that meets a cell satisfying the condition stops in front of the first such cell. -/
theorem seek_found (h : s.IsList (pre ++ a :: post))
    (hfuel : (pre ++ a :: post).length ≤ fuel) (hpre : ∀ b ∈ pre, stop b = false)
    (ha : stop a) :
    s.seek stop fuel .head = Cursor.head.past pre ∧ s.get (Cursor.head.past pre) = some a := by
  have htake : ((pre ++ a :: post).takeWhile fun b => !stop b) = pre := by
    rw [List.takeWhile_append_of_pos (fun b hb => by rw [hpre b hb]; rfl),
      List.takeWhile_cons_of_neg (by simp [ha]), List.append_nil]
  obtain ⟨r, hr, hr'⟩ := chain_append.1 h
  refine ⟨by rw [seek_eq h hfuel, htake], ?_⟩
  rw [get_past (c := .head) hr]
  exact hr'.1

/-- A walk that meets no such cell runs to the end of the list. -/
theorem seek_missing (h : s.IsList l) (hfuel : l.length ≤ fuel)
    (hl : ∀ b ∈ l, stop b = false) : s.get (s.seek stop fuel .head) = none := by
  rw [get_seek h hfuel, List.dropWhile_eq_nil_iff.2 (fun b hb => by rw [hl b hb]; rfl)]
  rfl

theorem toList_eq (h : Chain s.next (s.get c) l none) (hfuel : l.length ≤ fuel) :
    s.toList fuel c = l := by
  induction l generalizing c fuel with
  | nil =>
    cases fuel with
    | zero => rfl
    | succ n => simp only [chain_nil] at h; simp [toList, h]
  | cons a l ih =>
    cases fuel with
    | zero => simp at hfuel
    | succ n =>
      obtain ⟨hget, htail⟩ := h
      simp only [toList, hget, List.cons.injEq, true_and]
      exact ih (c := .after a) htail (by simpa using hfuel)

theorem past_eq_after (h : c.past pre = .after a) : c = .after a ∨ a ∈ pre := by
  induction pre generalizing c with
  | nil => exact Or.inl h
  | cons b pre ih =>
    rcases ih (c := .after b) h with hb | hmem
    · cases hb; exact Or.inr List.mem_cons_self
    · exact Or.inr (List.mem_cons_of_mem _ hmem)

theorem past_after_ne_head : (Cursor.after a).past pre ≠ .head := by
  induction pre generalizing a with
  | nil => simp [Cursor.past]
  | cons b pre ih => exact ih

variable [DecidableEq α] {v : Option α}

/-- A write through a cursor is seen by a chain only where it passes the cursor. -/
theorem chain_set (hpost : ∀ a, c = .after a → a ∉ l)
    (h : Chain s.next p l q) : Chain (s.set c v).next p l q := by
  cases c with
  | head => exact h
  | after a =>
    refine (chain_congr fun b hb => ?_).1 h
    have hba : b ≠ a := fun hba => hpost a rfl (hba ▸ hb)
    simp [set, update_of_ne hba]

/-- Writing the pointer past `pre` redirects the walk there. -/
theorem chain_set_past (hnd : pre.Nodup)
    (hc : ∀ a, c = .after a → a ∉ pre) (h : Chain s.next (s.get c) pre q) :
    Chain (s.set (c.past pre) v).next ((s.set (c.past pre) v).get c) pre v := by
  induction pre generalizing c with
  | nil =>
    cases c with
    | head => rfl
    | after a => simp [Cursor.past, set, get]
  | cons b pre ih =>
    obtain ⟨hb, hnd'⟩ := List.nodup_cons.1 hnd
    have key := ih (c := .after b) hnd' (fun a ha => by cases ha; exact hb) h.2
    refine ⟨?_, key⟩
    have hget : s.get c = some b := h.1
    -- the cell written lies past `b`, so the pointer at `c` is unchanged
    cases c with
    | head =>
      cases hpast : (Cursor.after b).past pre with
      | head => exact absurd hpast past_after_ne_head
      | after a => simpa [Cursor.past, hpast, set, get] using hget
    | after a =>
      have hne : (Cursor.after b).past pre ≠ .after a := by
        intro heq
        rcases past_eq_after heq with hab | hmem
        · cases hab; exact hc b rfl List.mem_cons_self
        · exact hc a rfl (List.mem_cons_of_mem _ hmem)
      cases hpast : (Cursor.after b).past pre with
      | head => simpa [Cursor.past, hpast, set, get] using hget
      | after d =>
        have hda : a ≠ d := fun hda => hne (hpast.trans (by rw [hda]))
        simpa [Cursor.past, hpast, set, get, update_of_ne hda] using hget

theorem isList_set_past (h : s.IsList (pre ++ post)) {l : List α}
    (hl : Chain s.next v l none) (hdisj : ∀ a ∈ pre, a ∉ l) :
    (s.set (Cursor.head.past pre) v).IsList (pre ++ l) := by
  obtain ⟨r, hr, -⟩ := chain_append.1 h
  have hnd : pre.Nodup := h.nodup.of_append_left
  have hpre := chain_set_past (c := .head) (v := v) hnd (fun a ha => by cases ha) hr
  have hget : (s.set (Cursor.head.past pre) v).get .head = (s.set (Cursor.head.past pre) v).head :=
    rfl
  rw [hget] at hpre
  refine chain_append.2 ⟨v, hpre, chain_set (fun a ha hmem => ?_) hl⟩
  rcases past_eq_after ha with hc | hmem'
  · cases hc
  · exact hdisj a hmem' hmem

/-- **Inserting through the cursor past `pre`.** -/
theorem IsList.insert (h : s.IsList (pre ++ post)) (ha : a ∉ pre ++ post) :
    (s.insert (Cursor.head.past pre) a).IsList (pre ++ a :: post) := by
  obtain ⟨r, hr, hr'⟩ := chain_append.1 h
  have hget : s.get (Cursor.head.past pre) = r := get_past (c := .head) hr
  have hpre : a ∉ pre := fun hmem => ha (List.mem_append_left _ hmem)
  have hpost : a ∉ post := fun hmem => ha (List.mem_append_right _ hmem)
  have hupd : ∀ (p q : Option α) (l : List α), a ∉ l → Chain s.next p l q →
      Chain (update s.next a r) p l q := by
    intro p q l hl hch
    refine (chain_congr fun b hb => ?_).1 hch
    have hba : b ≠ a := fun hba => hl (hba ▸ hb)
    rw [update_of_ne hba]
  have hlist : ({ s with next := update s.next a r } : Links α).IsList (pre ++ post) :=
    hupd _ _ _ ha h
  unfold Links.insert
  rw [hget]
  refine isList_set_past hlist ?_ ?_
  · refine ⟨rfl, ?_⟩
    show Chain (update s.next a r) (update s.next a r a) post none
    rw [update_self]
    exact hupd _ _ _ hpost hr'
  intro b hb hmem
  rcases List.mem_cons.1 hmem with hba | hbp
  · exact hpre (hba ▸ hb)
  · exact (List.nodup_append'.1 h.nodup).2.2 hb hbp

/-- **Unlinking the cell found at the cursor past `pre`.** -/
theorem IsList.unlink (h : s.IsList (pre ++ a :: post)) :
    (s.unlink (Cursor.head.past pre) a).IsList (pre ++ post) := by
  refine isList_set_past h h.chain_next fun b hb hmem => ?_
  exact (List.nodup_append'.1 h.nodup).2.2 hb (List.mem_cons_of_mem _ hmem)

/-- A write past `pre` leaves the next pointers of cells outside `pre` alone. -/
theorem next_set_past_of_not_mem {b : α} (hb : b ∉ pre) :
    (s.set (Cursor.head.past pre) v).next b = s.next b := by
  cases hpast : Cursor.head.past pre with
  | head => rfl
  | after c =>
    have hbc : b ≠ c := by
      rintro rfl
      rcases past_eq_after hpast with h | h
      · cases h
      · exact hb h
    simp [set, update_of_ne hbc]

theorem next_insert_of_not_mem {a b : α} (hb : b ∉ pre) (hba : b ≠ a) :
    (s.insert (Cursor.head.past pre) a).next b = s.next b := by
  unfold Links.insert
  rw [next_set_past_of_not_mem hb]
  exact update_of_ne hba _ _

end Links

/-! ## Several lists through one next field -/

section Family

variable {κ : Type} {heads : κ → Option α} {ls : κ → List α} {k : κ} {a : α} {as bs : List α}

/-- Every head starts the list given for it, and the lists share no cell. -/
structure Family (heads : κ → Option α) (next : α → Option α) (ls : κ → List α) : Prop where
  list : ∀ k, (⟨heads k, next⟩ : Links α).IsList (ls k)
  disjoint : ∀ k k' a, a ∈ ls k → a ∈ ls k' → k = k'

variable [DecidableEq κ]

theorem Family.clear (h : Family heads next ls) :
    Family (update heads k none) next (update ls k []) where
  list k' := by
    by_cases hk : k' = k
    · subst hk; simp
    · simp only [update_of_ne hk]
      exact h.list k'
  disjoint k₁ k₂ a h₁ h₂ := by
    have key : ∀ k', a ∈ update ls k [] k' → a ∈ ls k' := by
      intro k' hmem
      by_cases hk : k' = k
      · subst hk; simp at hmem
      · rwa [update_of_ne hk] at hmem
    exact h.disjoint k₁ k₂ a (key k₁ h₁) (key k₂ h₂)

variable [DecidableEq α]

/-- Inserting a cell of no list into one of them. -/
theorem Family.insert (h : Family heads next ls) (hk : ls k = as ++ bs) (ha : ∀ k', a ∉ ls k') :
    Family (update heads k
        ((⟨heads k, next⟩ : Links α).insert (Cursor.head.past as) a).head)
      ((⟨heads k, next⟩ : Links α).insert (Cursor.head.past as) a).next
      (update ls k (as ++ a :: bs)) where
  list k' := by
    by_cases hk' : k' = k
    · subst hk'
      simp only [update_self]
      have hlist := h.list k'
      have hmem := ha k'
      rw [hk] at hlist hmem
      exact hlist.insert hmem
    simp only [update_of_ne hk']
    refine (chain_congr fun b hb => ?_).1 (h.list k')
    have hbas : b ∉ as := fun hbas =>
      hk' (h.disjoint k' k b hb (hk ▸ List.mem_append_left _ hbas))
    have hba : b ≠ a := fun hba => ha k' (hba ▸ hb)
    exact (Links.next_insert_of_not_mem (s := ⟨heads k, next⟩) hbas hba).symm
  disjoint k₁ k₂ b h₁ h₂ := by
    have key : ∀ k', b ∈ update ls k (as ++ a :: bs) k' →
        b ∈ ls k' ∨ (b = a ∧ k' = k) := by
      intro k' hmem
      by_cases hk' : k' = k
      · subst hk'
        simp only [update_self, List.mem_append, List.mem_cons] at hmem
        rw [hk, List.mem_append]
        tauto
      · rw [update_of_ne hk'] at hmem
        exact Or.inl hmem
    rcases key k₁ h₁ with h₁' | ⟨hb, hk₁⟩ <;> rcases key k₂ h₂ with h₂' | ⟨hb', hk₂⟩
    · exact h.disjoint k₁ k₂ b h₁' h₂'
    · exact absurd h₁' (hb' ▸ ha k₁)
    · exact absurd h₂' (hb ▸ ha k₂)
    · exact hk₁.trans hk₂.symm

/-- Removing a cell from its list. -/
theorem Family.unlink (h : Family heads next ls) (hk : ls k = as ++ a :: bs) :
    Family (update heads k
        ((⟨heads k, next⟩ : Links α).unlink (Cursor.head.past as) a).head)
      ((⟨heads k, next⟩ : Links α).unlink (Cursor.head.past as) a).next
      (update ls k (as ++ bs)) where
  list k' := by
    by_cases hk' : k' = k
    · subst hk'
      simp only [update_self]
      have hlist := h.list k'
      rw [hk] at hlist
      exact hlist.unlink
    simp only [update_of_ne hk']
    refine (chain_congr fun b hb => ?_).1 (h.list k')
    have hbas : b ∉ as := fun hbas =>
      hk' (h.disjoint k' k b hb (hk ▸ List.mem_append_left _ hbas))
    exact (Links.next_set_past_of_not_mem (s := ⟨heads k, next⟩) hbas).symm
  disjoint k₁ k₂ b h₁ h₂ := by
    have key : ∀ k', b ∈ update ls k (as ++ bs) k' → b ∈ ls k' := by
      intro k' hmem
      by_cases hk' : k' = k
      · subst hk'
        simp only [update_self, List.mem_append] at hmem
        rw [hk, List.mem_append, List.mem_cons]
        tauto
      · rwa [update_of_ne hk'] at hmem
    exact h.disjoint k₁ k₂ b (key k₁ h₁) (key k₂ h₂)

omit [DecidableEq α] in
/-- The cell removed is on no list any more. -/
theorem Family.not_mem_unlink (h : Family heads next ls) (hk : ls k = as ++ a :: bs) (k' : κ) :
    a ∉ update ls k (as ++ bs) k' := by
  intro hmem
  by_cases hk' : k' = k
  · subst hk'
    have hnd := (h.list k').nodup
    rw [hk] at hnd
    simp only [update_self] at hmem
    exact (List.nodup_middle.1 hnd).notMem hmem
  · rw [update_of_ne hk'] at hmem
    exact hk' (h.disjoint k' k a hmem (by simp [hk]))

end Family

end Liquorice.Linked
