import Mathlib.Data.List.Basic

/-!
# Blocks of a region

A region is a range of addresses from which blocks are handed out.  A `Layout` of a region
is a list of blocks that lie in it, do not overlap, and start at offsets that are multiples
of their alignment.  A block that starts where all others have ended can be added to a
layout, `Layout.bump`.
-/

namespace Region

/-- The addresses from `start` on, `size` many, handed out for an alignment. -/
structure Block where
  start : ℕ
  size : ℕ
  align : ℕ
  deriving DecidableEq

/-- The address `x` belongs to the block `b`. -/
def Block.Contains (b : Block) (x : ℕ) : Prop :=
  b.start ≤ x ∧ x < b.start + b.size

/-- No address belongs to both blocks. -/
def Block.Disjoint (b c : Block) : Prop :=
  ∀ x, b.Contains x → ¬ c.Contains x

/-- The block `b` lies in the `cap` addresses from `base` on, at an offset that is a
multiple of its alignment. -/
structure Block.Inside (base cap : ℕ) (b : Block) : Prop where
  base_le : base ≤ b.start
  end_le : b.start + b.size ≤ base + cap
  dvd_offset : b.align ∣ b.start - base

theorem Block.disjoint_of_le {b c : Block} (h : b.start + b.size ≤ c.start) :
  b.Disjoint c
  := by
  rintro x ⟨_, hb⟩ ⟨hc, _⟩
  omega

/-- Blocks of the region of `cap` addresses from `base` on that do not overlap. -/
structure Layout (base cap : ℕ) where
  blocks : List Block
  inside : ∀ b ∈ blocks, b.Inside base cap
  disjoint : blocks.Pairwise Block.Disjoint

variable {base cap : ℕ}

/-- The layout without blocks. -/
def Layout.empty (base cap : ℕ) : Layout base cap where
  blocks := []
  inside := by simp
  disjoint := .nil

/-- All blocks of the layout end at or before the address `x`. -/
def Layout.Below (L : Layout base cap) (x : ℕ) : Prop :=
  ∀ b ∈ L.blocks, b.start + b.size ≤ x

theorem Layout.below_empty (x : ℕ) :
  (Layout.empty base cap).Below x
  := by
  intro b hb
  cases hb

/-- Add a block that starts where all others have ended. -/
def Layout.bump (L : Layout base cap) (b : Block) (hb : b.Inside base cap)
    (hnew : L.Below b.start) : Layout base cap where
  blocks := L.blocks ++ [b]
  inside := by
    intro c hc
    rcases List.mem_append.mp hc with hc | hc
    · apply L.inside c hc
    · obtain rfl := List.mem_singleton.mp hc
      exact hb
  disjoint := by
    rw [List.pairwise_append]
    use L.disjoint, List.pairwise_singleton _ _
    intro c hc d hd
    obtain rfl := List.mem_singleton.mp hd
    apply Block.disjoint_of_le (hnew c hc)

theorem Layout.below_bump {L : Layout base cap} {b : Block} (hb : b.Inside base cap)
    (hnew : L.Below b.start) :
  (L.bump b hb hnew).Below (b.start + b.size)
  := by
  intro c hc
  rcases List.mem_append.mp hc with hc | hc
  · apply Nat.le_trans (hnew c hc)
    omega
  · obtain rfl := List.mem_singleton.mp hc
    apply Nat.le_refl

end Region
