import Mathlib.Data.List.Basic

/-!
# Changing the first of its kind

A loop that looks for the first element with a property, changes it and stops (`updateFirst`). Seen
through a filter or a map that the change respects, it is the same loop on what is seen.
-/

namespace Lib

variable {α β : Type*} {p q : α → Bool} {f : α → α} {l l' : List α}

/-- The list with its first `p` changed, nothing if it has none. -/
def updateFirst (p : α → Bool) (f : α → α) : List α → Option (List α)
  | [] => none
  | x :: l => if p x then some (f x :: l) else (updateFirst p f l).map (x :: ·)

/-- The first entry passes, and is updated. -/
theorem updateFirst_cons_of_pos {x : α} (h : p x = true) :
    updateFirst p f (x :: l) = some (f x :: l) := if_pos h

/-- The first entry does not pass, and the rest is searched. -/
theorem updateFirst_cons_of_neg {x : α} (h : p x = false) :
    updateFirst p f (x :: l) = (updateFirst p f l).map (x :: ·) := if_neg (Bool.eq_false_iff.1 h)

/-- An update succeeds where an entry passes. -/
theorem updateFirst_isSome : (updateFirst p f l).isSome = l.any p := by
  induction l with
  | nil => rfl
  | cons x l ih =>
      cases hx : p x with
      | true => rw [updateFirst_cons_of_pos hx, List.any_cons, hx, Bool.true_or,
        Option.isSome_some]
      | false => rw [updateFirst_cons_of_neg hx, Option.isSome_map, ih, List.any_cons, hx,
        Bool.false_or]

/-- What the change leaves alone. -/
theorem map_updateFirst {g : α → β} (hg : ∀ x, g (f x) = g x) (h : updateFirst p f l = some l') :
    l'.map g = l.map g := by
  induction l generalizing l' with
  | nil => cases h
  | cons x l ih =>
      cases hx : p x with
      | true =>
          rw [updateFirst_cons_of_pos hx] at h
          cases h
          rw [List.map_cons, List.map_cons, hg]
      | false =>
          rw [updateFirst_cons_of_neg hx] at h
          obtain ⟨rest, hrest, rfl⟩ := Option.map_eq_some_iff.1 h
          rw [List.map_cons, List.map_cons, ih hrest]

/-- An update keeps the length. -/
theorem length_updateFirst (h : updateFirst p f l = some l') : l'.length = l.length := by
  have hunits := congrArg List.length (map_updateFirst (g := fun _ => ()) (fun _ => rfl) h)
  rwa [List.length_map, List.length_map] at hunits

/-- Through a filter that the change respects. -/
theorem filter_updateFirst (hq : ∀ x, q (f x) = q x) (l : List α) :
    (updateFirst (fun x => q x && p x) f l).map (List.filter q) = updateFirst p f
      (l.filter q) := by
  induction l with
  | nil => rfl
  | cons x l ih =>
      cases hx : q x with
      | false =>
          rw [updateFirst_cons_of_neg (by rw [hx, Bool.false_and]),
            List.filter_cons_of_neg (by simp [hx]), ← ih, Option.map_map]
          exact congrArg (fun g => Option.map g _)
            (funext fun rest => List.filter_cons_of_neg (by simp [hx]))
      | true =>
          rw [List.filter_cons_of_pos hx]
          cases hpx : p x with
          | true =>
              rw [updateFirst_cons_of_pos (by rw [hx, hpx]; rfl), updateFirst_cons_of_pos hpx,
                Option.map_some, List.filter_cons_of_pos (by rw [hq, hx])]
          | false =>
              rw [updateFirst_cons_of_neg (by rw [hpx, Bool.and_false]),
                updateFirst_cons_of_neg hpx, ← ih, Option.map_map, Option.map_map]
              exact congrArg (fun g => Option.map g _)
                (funext fun rest => List.filter_cons_of_pos hx)

/-- Through a filter that shows nothing of what is changed. -/
theorem filter_updateFirst_of_disjoint (hq : ∀ x, q (f x) = q x)
    (hp : ∀ x, p x = true → q x = false) (h : updateFirst p f l = some l') :
    l'.filter q = l.filter q := by
  induction l generalizing l' with
  | nil => cases h
  | cons x l ih =>
      cases hx : p x with
      | true =>
          rw [updateFirst_cons_of_pos hx] at h
          cases h
          rw [List.filter_cons_of_neg (by rw [hq, hp x hx]; simp),
            List.filter_cons_of_neg (by rw [hp x hx]; simp)]
      | false =>
          rw [updateFirst_cons_of_neg hx] at h
          obtain ⟨rest, hrest, rfl⟩ := Option.map_eq_some_iff.1 h
          rw [List.filter_cons, List.filter_cons, ih hrest]

/-- Through a map that the change respects. -/
theorem updateFirst_map {g : α → β} {r : β → Bool} {f' : β → β} (hg : ∀ x, g (f x) = f' (g x))
    (l : List α) :
    (updateFirst (fun x => r (g x)) f l).map (List.map g) = updateFirst r f' (l.map g) := by
  induction l with
  | nil => rfl
  | cons x l ih =>
      rw [List.map_cons]
      cases hx : r (g x) with
      | true =>
          rw [updateFirst_cons_of_pos (p := fun x => r (g x)) hx,
            updateFirst_cons_of_pos (p := r) hx, Option.map_some, List.map_cons, hg]
      | false =>
          rw [updateFirst_cons_of_neg (p := fun x => r (g x)) hx,
            updateFirst_cons_of_neg (p := r) hx, ← ih, Option.map_map, Option.map_map]
          rfl

end Lib
