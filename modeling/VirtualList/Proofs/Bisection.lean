import VirtualList.Bisection

/-!
# What the search by bisection finds

The search keeps the place it looks for between the elements it has ruled out on both sides, and
ends when these meet.  So it finds the place where its test stops to hold, if there is one.

## Key results

- `SplitsAt`: a test holds for the first elements of a list and for no other ones
- `bisectFrom_bounds`: what the search keeps while it narrows down the list
- `bisect_eq`, `splitsAt_bisect`: the search finds the place
- `SplitsAt.find?_not`: and with it the first element at which the test fails
-/

namespace VirtualList

universe u

variable {β : Type u} {p : β → Bool} {xs : List β} {n : Nat}

/-- The test `p` holds for the first `n` elements of `xs`, and for no other one. -/
def SplitsAt (p : β → Bool) (xs : List β) (n : Nat) : Prop :=
  ∀ i, (xs[i]?).any p = true ↔ i < n

/-- There is no more to test than there are elements. -/
theorem SplitsAt.le_length (h : SplitsAt p xs n) : n ≤ xs.length := by
  refine Nat.le_of_not_lt fun hlt => ?_
  have hany := (h xs.length).2 hlt
  rw [List.getElem?_eq_none (Nat.le_refl _)] at hany
  cases hany

/-- The first element at which the test fails is at the place where it stops to hold. -/
theorem SplitsAt.find?_not (h : SplitsAt p xs n) : xs.find? (fun x => !p x) = xs[n]? := by
  induction xs generalizing n with
  | nil => simp
  | cons x rest ih =>
    have hfirst : p x = true ↔ 0 < n := by simpa using h 0
    cases n with
    | zero =>
      have hfails : p x = false := Bool.eq_false_iff.2 fun hp => Nat.lt_irrefl 0 (hfirst.1 hp)
      simp [hfails]
    | succ n =>
      have hrest : SplitsAt p rest n := fun i => by simpa using h (i + 1)
      simp [hfirst.2 (Nat.succ_pos n), ih hrest]

/-- A test that fails behind every element at which it fails splits the list somewhere. -/
theorem exists_splitsAt (h : xs.Pairwise fun x y => p y = true → p x = true) :
    ∃ n, SplitsAt p xs n := by
  induction xs with
  | nil => exact ⟨0, fun i => by simp⟩
  | cons x rest ih =>
    obtain ⟨hx, hrest⟩ := List.pairwise_cons.1 h
    obtain ⟨n, hn⟩ := ih hrest
    cases hp : p x with
    | true =>
      refine ⟨n + 1, fun i => ?_⟩
      cases i with
      | zero => simp [hp]
      | succ i => simpa using hn i
    | false =>
      -- Where the test fails for the first element it holds for none.
      refine ⟨0, fun i => ?_⟩
      cases i with
      | zero => simp [hp]
      | succ i =>
        rw [List.getElem?_cons_succ, Option.any_eq_true]
        constructor
        · rintro ⟨y, hy, hpy⟩
          rw [hx y (List.mem_of_getElem? hy) hpy] at hp
          cases hp
        · intro hlt
          omega

/-- The search never loses the place: neither the elements in front of those that are left nor the
ones behind them come into question. -/
theorem bisectFrom_bounds (h : SplitsAt p xs n) (base size : Nat) (hbase : base ≤ n)
    (hsize : n ≤ base + size) :
    bisectFrom p xs base size ≤ n ∧ n ≤ bisectFrom p xs base size + 1 := by
  fun_induction bisectFrom p xs base size with
  | case1 base size hlt half kept ih =>
    have hhalf : half = size / 2 := rfl
    by_cases hp : (xs[base + half]?).any p = true
    · -- The test holds in the middle, so it stops to hold behind it.
      have hkept : kept = base + half := dif_pos hp
      have hbehind := (h (base + half)).1 hp
      rw [hkept] at ih ⊢
      exact ih (by omega) (by omega)
    · have hkept : kept = base := dif_neg hp
      have hahead : ¬base + half < n := fun hlt => hp ((h (base + half)).2 hlt)
      rw [hkept] at ih ⊢
      exact ih (by omega) (by omega)
  | case2 base size hlt => omega

/-- The search finds the place where the test stops to hold. -/
theorem bisect_eq (h : SplitsAt p xs n) : bisect p xs = n := by
  obtain ⟨hle, hge⟩ :=
    bisectFrom_bounds h 0 xs.length (Nat.zero_le n) (by simpa using h.le_length)
  have hlast := h (bisectFrom p xs 0 xs.length)
  show (if _ then _ else _) = n
  split
  · rename_i hp
    have hbehind := hlast.1 hp
    exact Nat.le_antisymm hbehind hge
  · rename_i hp
    exact Nat.le_antisymm hle (Nat.le_of_not_lt fun hlt => hp (hlast.2 hlt))

/-- Whatever holds up to some place and not behind it, the search finds that place. -/
theorem splitsAt_bisect (h : xs.Pairwise fun x y => p y = true → p x = true) :
    SplitsAt p xs (bisect p xs) := by
  obtain ⟨n, hn⟩ := exists_splitsAt h
  rwa [bisect_eq hn]

end VirtualList
