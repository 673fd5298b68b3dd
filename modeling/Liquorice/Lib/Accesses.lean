import Liquorice.Lib.Threads

/-!
# The states in which a program reads and writes

`Accesses ok m Q s` says that the program `m`, which starts in the state `s` and has the state to
itself, finds `ok` whenever it reads or writes, and that `Q` holds at its end. With `ok` for "the
object is still there" this is the absence of an access to an object that was given back. The rules
execute the program symbolically; `Safe` is the special case of a property that the whole program
keeps, with one rule for each way to build a program.
-/

namespace Liquorice.Threads

variable {σ α β : Type} {ok P : σ → Prop} {s : σ} {m : Prog σ α} {Q : β → σ → Prop} {f : σ → σ}
  {k : α → Prog σ β}

/-- Every access of the program finds `ok`, and `Q` holds at its end. -/
def Accesses (ok : σ → Prop) : Prog σ α → (α → σ → Prop) → σ → Prop
  | .ret a, Q, s => Q a s
  | .get k, Q, s => ok s ∧ Accesses ok (k s) Q s
  | .put s k, Q, _ => Accesses ok k Q s
  | .window k, Q, s => Accesses ok k Q s

instance Accesses.decidable [DecidablePred ok] {Q : α → σ → Prop} [∀ a, DecidablePred (Q a)] :
    (m : Prog σ α) → (s : σ) → Decidable (Accesses ok m Q s)
  | .ret a, s => inferInstanceAs (Decidable (Q a s))
  | .get k, s =>
    @instDecidableAnd _ _ (inferInstanceAs (Decidable (ok s))) (Accesses.decidable (k s) s)
  | .put s' k, _ => Accesses.decidable k s'
  | .window k, s => Accesses.decidable k s

theorem Accesses.mono {Q Q' : α → σ → Prop} (h : Accesses ok m Q s)
    (hQ : ∀ a s, Q a s → Q' a s) : Accesses ok m Q' s := by
  induction m generalizing s with
  | ret a => exact hQ a s h
  | get k ih => exact ⟨h.1, ih s h.2⟩
  | put s' k ih => exact ih h
  | window k ih => exact ih h

/-- What holds at the end of the program holds of the state that it leaves. -/
theorem Accesses.complete {Q : α → σ → Prop} (h : Accesses ok m Q s) :
    Q (m.complete s).2 (m.complete s).1 := by
  induction m generalizing s with
  | ret a => exact h
  | get k ih => exact ih s h.2
  | put s' k ih => exact ih h
  | window k ih => exact ih h

theorem accesses_bind (h : Accesses ok m (fun a => Accesses ok (k a) Q) s) :
    Accesses ok (m >>= k) Q s := by
  induction m generalizing s with
  | ret a => exact h
  | get g ih => exact ⟨h.1, ih s h.2⟩
  | put s' m ih => exact ih h
  | window m ih => exact ih h

theorem accesses_read_bind {k : σ → Prog σ β} (hs : ok s) (h : Accesses ok (k s) Q s) :
    Accesses ok (Prog.read >>= k) Q s := ⟨hs, h⟩

theorem accesses_modify {Q : Unit → σ → Prop} (hs : ok s) (h : Q () (f s)) :
    Accesses ok (Prog.modify f) Q s := ⟨hs, h⟩

theorem accesses_modify_bind {k : Unit → Prog σ β} (hs : ok s)
    (h : Accesses ok (k ()) Q (f s)) : Accesses ok (Prog.modify f >>= k) Q s := ⟨hs, h⟩

/-! ## Programs that keep a property -/

/-- From a state with `P` on, every access finds `ok`, and `P` holds at the end. -/
def Safe (ok P : σ → Prop) (m : Prog σ α) : Prop := ∀ s, P s → Accesses ok m (fun _ => P) s

theorem safe_pure {a : α} : Safe ok P (pure a : Prog σ α) := fun _ hs => hs

theorem safe_unlocked : Safe ok P (Prog.unlocked : Prog σ Unit) := fun _ hs => hs

theorem safe_modify (hok : ∀ s, P s → ok s) (h : ∀ s, P s → P (f s)) :
    Safe ok P (Prog.modify f) := fun s hs => ⟨hok s hs, h s hs⟩

theorem safe_bind (h : Safe ok P m) (h' : ∀ a, Safe ok P (k a)) : Safe ok P (m >>= k) :=
  fun s hs => accesses_bind ((h s hs).mono fun a s' hs' => h' a s' hs')

/-- What follows a read may depend on what was read. -/
theorem safe_read_bind {k : σ → Prog σ β} (hok : ∀ s, P s → ok s)
    (h : ∀ s, P s → Accesses ok (k s) (fun _ => P) s) : Safe ok P (Prog.read >>= k) :=
  fun s hs => ⟨hok s hs, h s hs⟩

theorem safe_ite {c : Prop} [Decidable c] {m m' : Prog σ α} (h : Safe ok P m) (h' : Safe ok P m') :
    Safe ok P (if c then m else m') := by
  split
  · exact h
  · exact h'

end Liquorice.Threads
