import Mathlib.Logic.Basic

/-!
# Dynamy.Lib.Owner — a lock, and who is inside

`Owns owner inside` says that the lock is with the one thread that is inside, and free if there is none.  A thread that
takes a free lock enters, and one that gives the lock back leaves; the others stay where they are.
-/

namespace Dynamy.Lib

variable {Thread : Type*} {owner : Option Thread} {inside inside' : Thread → Prop} {th th' : Thread}

/-- The owner is the thread that is inside. -/
def Owns (owner : Option Thread) (inside : Thread → Prop) : Prop := ∀ th, owner = some th ↔ inside th

theorem Owns.alone (h : Owns owner inside) (hth : inside th) (hth' : inside th') : th = th' := by
  have howner := (h th).mpr hth
  rw [(h th').mpr hth'] at howner
  exact (Option.some.inj howner).symm

/-- Nobody enters or leaves. -/
theorem Owns.stays (h : Owns owner inside) (hsame : ∀ th, inside' th ↔ inside th) : Owns owner inside' :=
  fun th => (h th).trans (hsame th).symm

theorem Owns.acquire (h : Owns none inside) (hth : inside' th)
    (hothers : ∀ th', th' ≠ th → (inside' th' ↔ inside th')) : Owns (some th) inside' := by
  intro th'
  by_cases heq : th' = th
  · subst heq
    exact ⟨fun _ => hth, fun _ => rfl⟩
  · -- it was free, so nobody else is inside
    have hfree : ¬ inside th' := fun hin => by cases (h th').mpr hin
    rw [hothers th' heq, iff_false_right hfree, Option.some.injEq]
    exact fun hsame => heq hsame.symm

theorem Owns.release (h : Owns owner inside) (hth : inside th) (hth' : ¬ inside' th)
    (hothers : ∀ th', th' ≠ th → (inside' th' ↔ inside th')) : Owns none inside' := by
  intro th'
  have hout : ¬ inside' th' := fun hin => by
    by_cases heq : th' = th
    · exact hth' (heq ▸ hin)
    · exact heq (h.alone ((hothers th' heq).mp hin) hth)
  exact ⟨nofun, fun hin => absurd hin hout⟩

end Dynamy.Lib
