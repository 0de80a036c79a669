/-!
# The product of the first whole numbers

The product `1 * 2 * ...` up to a bound, with the counter itself a double. A counter at `2 ^ 53` no
longer grows when one is added, so the counting does not get past it, and with a bound from there on
it does not end.
-/

namespace StuffScript.Number

/-- The number that counting starts from and goes on by. -/
def one : Float := 1.0

/-- A product under way. -/
structure Product where
  counter : Float := one
  value : Float := one

/-- One round: multiply by the counter and count on. -/
def Product.next (p : Product) : Product := ⟨p.counter + one, p.value * p.counter⟩

/-- Go on with a product, round by round, while the counter is within the bound. This does not end if the
counter stays there. -/
def Product.upTo (bound : Float) (p : Product) : Float :=
  Id.run (repeatM (fun p => pure (if p.counter ≤ bound then .inl p.next else .inr p.value)) p)

/-- The loop goes on while the counter is within the bound. -/
theorem Product.upTo_eq (bound : Float) (p : Product) :
    p.upTo bound = if p.counter ≤ bound then p.next.upTo bound else p.value := by
  unfold upTo
  rw [repeatM_eq_of_monadTail]
  split
  · next h => simp [repeatM.body, h]
  · next h => simp [repeatM.body, h]

/-- The product of the whole numbers from one to the bound. It is infinite from 171 on. -/
def factorial (bound : Float) : Float := Product.upTo bound {}

end StuffScript.Number
