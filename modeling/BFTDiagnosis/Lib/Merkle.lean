import Mathlib.Tactic.Common
import Mathlib.Data.Nat.Bitwise

/-!
# Paths to the root of a hash tree

The nodes of a level are combined two by two into the next one, and a node without a neighbour moves up as
it is. A path is the leaf's digest with the neighbours met on the way to the root; which of them exist
depends on the position and the number of leaves only. Two paths from one position to one root are the
same, unless two of the pairs combined along them are combined to one digest.
-/

namespace BFTDiagnosis.Merkle

variable {δ : Type} (combine : δ → δ → δ)

/-- One level up: a node at an odd position is the right one of its pair. -/
def pairAt (position : ℕ) (digest sibling : δ) : δ × δ :=
  if position &&& 1 = 1 then (sibling, digest) else (digest, sibling)

theorem pairAt_inj {position : ℕ} {digest digest' sibling sibling' : δ}
    (h : pairAt position digest sibling = pairAt position digest' sibling') :
    digest = digest' ∧ sibling = sibling' := by
  unfold pairAt at h
  split at h
  · exact ⟨(Prod.mk.inj h).2, (Prod.mk.inj h).1⟩
  · exact Prod.mk.inj h

/-! Two positions further there is the next pair. -/

theorem add_two_xor_one (position : ℕ) : (position + 2) ^^^ 1 = (position ^^^ 1) + 2 := by
  rcases Nat.even_or_odd position with heven | hodd
  · rw [Nat.xor_one_of_even heven, Nat.xor_one_of_even (heven.add even_two)]
  · rw [Nat.xor_one_of_odd hodd, Nat.xor_one_of_odd (hodd.add_even even_two)]
    obtain ⟨half, rfl⟩ := hodd
    omega

theorem pairAt_add_two (position : ℕ) (digest sibling : δ) :
    pairAt (position + 2) digest sibling = pairAt position digest sibling := by
  have hlast : (position + 2) &&& 1 = position &&& 1 := by
    rw [Nat.and_one_is_mod, Nat.and_one_is_mod, Nat.add_mod_right]
  rw [pairAt, pairAt, hlast]

/-- The root that a path leads to, from a position among `count` nodes; `none` if a neighbour is missing or
left over. No more levels are climbed than `fuel`. -/
def climbFuel : ℕ → ℕ → ℕ → δ → List δ → Option δ
  | 0, _, _, digest, siblings => if siblings.isEmpty then some digest else none
  | fuel + 1, count, position, digest, siblings =>
    if 1 < count then
      if position ^^^ 1 < count then
        match siblings with
        | [] => none
        | sibling :: rest =>
          let pair := pairAt position digest sibling
          climbFuel fuel ((count + 1) / 2) (position / 2) (combine pair.1 pair.2) rest
      else climbFuel fuel ((count + 1) / 2) (position / 2) digest siblings
    else if siblings.isEmpty then some digest else none

/-- The pairs that are combined on the way. -/
def climbPairsFuel : ℕ → ℕ → ℕ → δ → List δ → List (δ × δ)
  | 0, _, _, _, _ => []
  | fuel + 1, count, position, digest, siblings =>
    if 1 < count then
      if position ^^^ 1 < count then
        match siblings with
        | [] => []
        | sibling :: rest =>
          let pair := pairAt position digest sibling
          pair :: climbPairsFuel fuel ((count + 1) / 2) (position / 2) (combine pair.1 pair.2) rest
      else climbPairsFuel fuel ((count + 1) / 2) (position / 2) digest siblings
    else []

/-- More levels than nodes are never climbed. -/
theorem climbFuel_of_le {fuel fuel' count : ℕ} (h : count ≤ fuel) (h' : count ≤ fuel') (position : ℕ)
    (digest : δ) (siblings : List δ) :
    climbFuel combine fuel count position digest siblings =
      climbFuel combine fuel' count position digest siblings := by
  induction fuel generalizing fuel' count position digest siblings with
  | zero =>
    obtain rfl : count = 0 := by omega
    cases fuel' <;> rfl
  | succ fuel ih =>
    cases fuel' with
    | zero =>
      obtain rfl : count = 0 := by omega
      rfl
    | succ fuel' =>
      unfold climbFuel
      by_cases hcount : 1 < count
      · have hle : (count + 1) / 2 ≤ fuel := by omega
        have hle' : (count + 1) / 2 ≤ fuel' := by omega
        rw [if_pos hcount, if_pos hcount]
        split
        · cases siblings with
          | nil => rfl
          | cons sibling rest => exact ih hle hle' _ _ _
        · exact ih hle hle' _ _ _
      · rw [if_neg hcount, if_neg hcount]

/-- The root that a path leads to. -/
def climb (count position : ℕ) (digest : δ) (siblings : List δ) : Option δ :=
  climbFuel combine count count position digest siblings

/-- The pairs combined along a path. -/
def climbPairs (count position : ℕ) (digest : δ) (siblings : List δ) : List (δ × δ) :=
  climbPairsFuel combine count count position digest siblings

/-- A path climbs level by level, until one node is left. -/
theorem climb_eq (count position : ℕ) (digest : δ) (siblings : List δ) :
    climb combine count position digest siblings =
      if 1 < count then
        if position ^^^ 1 < count then
          match siblings with
          | [] => none
          | sibling :: rest =>
            let pair := pairAt position digest sibling
            climb combine ((count + 1) / 2) (position / 2) (combine pair.1 pair.2) rest
        else climb combine ((count + 1) / 2) (position / 2) digest siblings
      else if siblings.isEmpty then some digest else none := by
  cases count with
  | zero => rfl
  | succ count =>
    conv_lhs =>
      rw [climb, climbFuel.eq_def]
      dsimp only
    by_cases hcount : 1 < count + 1
    · have hle : (count + 1 + 1) / 2 ≤ count := by omega
      rw [if_pos hcount, if_pos hcount]
      split
      · cases siblings with
        | nil => rfl
        | cons sibling rest => exact climbFuel_of_le combine hle le_rfl _ _ _
      · exact climbFuel_of_le combine hle le_rfl _ _ _
    · rw [if_neg hcount, if_neg hcount]

theorem climbPairsFuel_of_le {fuel fuel' count : ℕ} (h : count ≤ fuel) (h' : count ≤ fuel') (position : ℕ)
    (digest : δ) (siblings : List δ) :
    climbPairsFuel combine fuel count position digest siblings =
      climbPairsFuel combine fuel' count position digest siblings := by
  induction fuel generalizing fuel' count position digest siblings with
  | zero =>
    obtain rfl : count = 0 := by omega
    cases fuel' <;> rfl
  | succ fuel ih =>
    cases fuel' with
    | zero =>
      obtain rfl : count = 0 := by omega
      rfl
    | succ fuel' =>
      unfold climbPairsFuel
      by_cases hcount : 1 < count
      · have hle : (count + 1) / 2 ≤ fuel := by omega
        have hle' : (count + 1) / 2 ≤ fuel' := by omega
        rw [if_pos hcount, if_pos hcount]
        split
        · cases siblings with
          | nil => rfl
          | cons sibling rest => exact congrArg _ (ih hle hle' _ _ _)
        · exact ih hle hle' _ _ _
      · rw [if_neg hcount, if_neg hcount]

/-- The pairs are those of the first level and those further up. -/
theorem climbPairs_eq (count position : ℕ) (digest : δ) (siblings : List δ) :
    climbPairs combine count position digest siblings =
      if 1 < count then
        if position ^^^ 1 < count then
          match siblings with
          | [] => []
          | sibling :: rest =>
            let pair := pairAt position digest sibling
            pair :: climbPairs combine ((count + 1) / 2) (position / 2) (combine pair.1 pair.2) rest
        else climbPairs combine ((count + 1) / 2) (position / 2) digest siblings
      else [] := by
  cases count with
  | zero => rfl
  | succ count =>
    conv_lhs =>
      rw [climbPairs, climbPairsFuel.eq_def]
      dsimp only
    by_cases hcount : 1 < count + 1
    · have hle : (count + 1 + 1) / 2 ≤ count := by omega
      rw [if_pos hcount, if_pos hcount]
      split
      · cases siblings with
        | nil => rfl
        | cons sibling rest => exact congrArg _ (climbPairsFuel_of_le combine hle le_rfl _ _ _)
      · exact climbPairsFuel_of_le combine hle le_rfl _ _ _
    · rw [if_neg hcount, if_neg hcount]

/-- From a position beyond a full tree nothing is combined on the way. -/
theorem climb_of_pow_le {count position height : ℕ} (h : count ≤ 2 ^ height) (h' : 2 ^ height ≤ position)
    (digest : δ) : climb combine count position digest [] = some digest := by
  induction height generalizing count position with
  | zero =>
    have hcount : ¬ 1 < count := by simpa using h
    rw [climb_eq, if_neg hcount]
    rfl
  | succ height ih =>
    rw [pow_succ] at h h'
    rw [climb_eq]
    by_cases hcount : 1 < count
    · have hneighbour : ¬ position ^^^ 1 < count := by
        rcases Nat.even_or_odd' position with ⟨half, rfl | rfl⟩
        · rw [Nat.xor_one_of_even (even_two_mul half)]
          omega
        · rw [Nat.xor_one_of_odd (odd_two_mul_add_one half)]
          omega
      rw [if_pos hcount, if_neg hneighbour]
      exact ih (by omega) (by omega)
    · rw [if_neg hcount]
      rfl

section Binding

variable {combine} {root : δ}

theorem climbFuel_inj {fuel count position : ℕ} {digest digest' : δ} {siblings siblings' : List δ}
    (h : climbFuel combine fuel count position digest siblings = some root)
    (h' : climbFuel combine fuel count position digest' siblings' = some root)
    (hfree : ∀ pair ∈ climbPairsFuel combine fuel count position digest siblings,
      ∀ pair' ∈ climbPairsFuel combine fuel count position digest' siblings',
        combine pair.1 pair.2 = combine pair'.1 pair'.2 → pair = pair') :
    digest = digest' ∧ siblings = siblings' := by
  induction fuel generalizing count position digest digest' siblings siblings' with
  | zero =>
    simp only [climbFuel, Option.ite_none_right_eq_some, List.isEmpty_iff, Option.some.injEq] at h h'
    exact ⟨h.2.trans h'.2.symm, h.1.trans h'.1.symm⟩
  | succ fuel ih =>
    unfold climbFuel at h h'
    unfold climbPairsFuel at hfree
    by_cases hcount : 1 < count
    · rw [if_pos hcount] at h h'
      rw [if_pos hcount, if_pos hcount] at hfree
      by_cases hneighbour : position ^^^ 1 < count
      · rw [if_pos hneighbour] at h h'
        rw [if_pos hneighbour, if_pos hneighbour] at hfree
        cases siblings with
        | nil => cases h
        | cons sibling rest =>
          cases siblings' with
          | nil => cases h'
          | cons sibling' rest' =>
            have hupper := ih h h' fun pair hpair pair' hpair' ↦
              hfree pair (List.mem_cons_of_mem _ hpair) pair' (List.mem_cons_of_mem _ hpair')
            -- the two pairs of this level are combined to one digest
            have hpair := pairAt_inj (hfree _ List.mem_cons_self _ List.mem_cons_self hupper.1)
            exact ⟨hpair.1, by rw [hpair.2, hupper.2]⟩
      · rw [if_neg hneighbour] at h h'
        rw [if_neg hneighbour, if_neg hneighbour] at hfree
        exact ih h h' hfree
    · rw [if_neg hcount, Option.ite_none_right_eq_some, List.isEmpty_iff, Option.some.injEq] at h h'
      exact ⟨h.2.trans h'.2.symm, h.1.trans h'.1.symm⟩

/-- Binding: a root and a position determine the path, if no two different pairs along the two paths are
combined to one digest. -/
theorem climb_inj {count position : ℕ} {digest digest' : δ} {siblings siblings' : List δ}
    (h : climb combine count position digest siblings = some root)
    (h' : climb combine count position digest' siblings' = some root)
    (hfree : ∀ pair ∈ climbPairs combine count position digest siblings,
      ∀ pair' ∈ climbPairs combine count position digest' siblings',
        combine pair.1 pair.2 = combine pair'.1 pair'.2 → pair = pair') :
    digest = digest' ∧ siblings = siblings' :=
  climbFuel_inj h h' hfree

end Binding

end BFTDiagnosis.Merkle
